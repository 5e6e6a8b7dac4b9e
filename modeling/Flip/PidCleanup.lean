import Flip.PidFile

/-!
# What a daemon leaves on the disk

One process runs alone until it ends. The pid file is created in the first
working directory and removed from `/tmp`, and two exits lie between the two,
so the files are as before only if nothing was created or all of it went well
and the entry that the path names in `/tmp` is the file that was created. It is
not when the path is relative, and not when it ends in a symbolic link.
-/

set_option autoImplicit false

namespace Flip.PidCleanup
open Flip.CLib Flip.PidFile

variable {Loc : Type} [DecidableEq Loc]

/-- The outcomes of the calls of one process; `unlink` succeeds. -/
structure Outcomes where
  fork : Bool
  setsid : Bool
  fopen : Bool
  fprintf : Bool
  flushed : Bool
  chdir : Bool

def Outcomes.call (o : Outcomes) : Pc → Call
  | .fork => .fork o.fork
  | .setsid => .setsid o.setsid
  | .access => .access
  | .fopen => .fopen o.fopen
  | .fprintf _ => .fprintf o.fprintf o.flushed
  | .chdir => .chdir o.chdir
  | .running => .done
  | .stopAccess => .access
  | .unlink => .unlink true
  | .exited => .done

section Lifetime

variable (o : Outcomes) (names : Names Loc) (path : CString) (pid : ℕ)

def lifetime : ℕ → Disk Loc × Proc → Disk Loc × Proc
  | 0, x => x
  | n+1, x =>
    match act names path pid x.1 x.2 (o.call x.2.pc) with
    | some y => lifetime n y
    | none => x

theorem lifetime_step (n : ℕ) (d d' : Disk Loc) (q q' : Proc)
    (h : act names path pid d q (o.call q.pc) = some (d',q')) :
    lifetime o names path pid (n+1) (d,q) = lifetime o names path pid n (d',q') := by
  simp [lifetime, h]

theorem lifetime_exited (n : ℕ) (d : Disk Loc) (cwd : Buf) :
    lifetime o names path pid n (d,⟨.exited,cwd⟩) = (d,⟨.exited,cwd⟩) := by
  cases n <;> simp [lifetime, act, Outcomes.call]

def Leaves (x : Disk Loc × Proc) (files : Loc → Option ℕ) : Prop :=
  x.2.pc = .exited ∧ x.1.entry = files

theorem leaves_exited (n : ℕ) (d : Disk Loc) (cwd : Buf) :
    Leaves (lifetime o names path pid n (d,⟨.exited,cwd⟩)) d.entry := by
  rw [lifetime_exited]
  exact ⟨rfl,rfl⟩

def without (files : Loc → Option ℕ) : Option Loc → Loc → Option ℕ
  | some l => Function.update files l none
  | none => files

theorem leaves_unlink (n : ℕ) (d : Disk Loc) (cwd : Buf) :
    Leaves (lifetime o names path pid (n+1) (d,⟨.unlink,cwd⟩))
      (without d.entry (names.entry cwd path.bytes)) := by
  cases h : names.entry cwd path.bytes with
  | none =>
    rw [lifetime_step _ _ _ _ n d d _ ⟨.exited,cwd⟩ (by simp [act, Outcomes.call, unlinkPid, h])]
    exact leaves_exited o names path pid n d cwd
  | some l =>
    rw [lifetime_step _ _ _ _ n d (d.unlink l) _ ⟨.exited,cwd⟩
      (by simp [act, Outcomes.call, unlinkPid, h])]
    exact leaves_exited o names path pid n (d.unlink l) cwd

/-- `stop_daemon` removes what the path names now, if a file is reached there. -/
def removed (d : Disk Loc) (cwd : Buf) : Option Loc :=
  if isFileExist d (names.follow cwd path.bytes) then names.entry cwd path.bytes else none

theorem leaves_running (n : ℕ) (d : Disk Loc) (cwd : Buf) :
    Leaves (lifetime o names path pid (n+3) (d,⟨.running,cwd⟩))
      (without d.entry (removed names path d cwd)) := by
  rw [lifetime_step _ _ _ _ _ d d _ ⟨.stopAccess,cwd⟩ (by simp [act, Outcomes.call]), removed]
  cases h : isFileExist d (names.follow cwd path.bytes) with
  | true =>
    rw [lifetime_step _ _ _ _ _ d d _ ⟨.unlink,cwd⟩
      (by simp [act, Outcomes.call, checkPid, h])]
    exact leaves_unlink o names path pid n d cwd
  | false =>
    rw [lifetime_step _ _ _ _ _ d d _ ⟨.exited,cwd⟩
      (by simp [act, Outcomes.call, checkPid, h])]
    exact leaves_exited o names path pid (n+1) d cwd

theorem leaves_opened (n i : ℕ) (d : Disk Loc) (cwd : Buf) :
    Leaves (lifetime o names path pid (n+5) (d,⟨.fprintf i,cwd⟩))
      (if o.fprintf ∧ o.chdir then without d.entry (removed names path d tmp)
        else d.entry) := by
  cases hw : o.fprintf with
  | false =>
    rw [lifetime_step _ _ _ _ _ d d _ ⟨.exited,cwd⟩ (by simp [act, Outcomes.call, hw])]
    simpa using leaves_exited o names path pid (n+4) d cwd
  | true =>
    obtain ⟨d',hact,hentry⟩ : ∃ d', act names path pid d ⟨.fprintf i,cwd⟩
        (o.call (.fprintf i)) = some (d',⟨.chdir,cwd⟩) ∧ d'.entry = d.entry := by
      refine ⟨if o.flushed then d.write i (pidText pid) else d,?_,?_⟩
      · simp [act, Outcomes.call, hw]
      · split <;> rfl
    have hremoved : removed names path d tmp = removed names path d' tmp := by
      rw [removed, removed, isFileExist, isFileExist, named, named, hentry]
    rw [lifetime_step _ _ _ _ _ d d' _ ⟨.chdir,cwd⟩ hact, hremoved, ← hentry]
    cases hc : o.chdir with
    | false =>
      rw [lifetime_step _ _ _ _ _ d' d' _ ⟨.exited,cwd⟩ (by simp [act, Outcomes.call, hc])]
      simpa using leaves_exited o names path pid (n+3) d' cwd
    | true =>
      rw [lifetime_step _ _ _ _ _ d' d' _ ⟨.running,tmp⟩ (by simp [act, Outcomes.call, hc])]
      simpa using leaves_running o names path pid n d' tmp

/-- No call before `fopen` and no check stops the process from creating the file. -/
def Creates (d : Disk Loc) (cwd : Buf) : Prop :=
  o.fork ∧ o.setsid ∧ isFileExist d (names.follow cwd path.bytes) = false ∧ o.fopen ∧
    (names.follow cwd path.bytes).isSome

theorem leaves_not_created (d : Disk Loc) (cwd : Buf) (h : ¬Creates o names path d cwd) :
    Leaves (lifetime o names path pid 9 (d,⟨.fork,cwd⟩)) d.entry := by
  cases hf : o.fork with
  | false =>
    rw [lifetime_step _ _ _ _ _ d d _ ⟨.exited,cwd⟩ (by simp [act, Outcomes.call, hf])]
    exact leaves_exited o names path pid _ d cwd
  | true =>
  rw [lifetime_step _ _ _ _ _ d d _ ⟨.setsid,cwd⟩ (by simp [act, Outcomes.call, hf])]
  cases hs : o.setsid with
  | false =>
    rw [lifetime_step _ _ _ _ _ d d _ ⟨.exited,cwd⟩ (by simp [act, Outcomes.call, hs])]
    exact leaves_exited o names path pid _ d cwd
  | true =>
  rw [lifetime_step _ _ _ _ _ d d _ ⟨.access,cwd⟩ (by simp [act, Outcomes.call, hs])]
  cases he : isFileExist d (names.follow cwd path.bytes) with
  | true =>
    rw [lifetime_step _ _ _ _ _ d d _ ⟨.exited,cwd⟩
      (by simp [act, Outcomes.call, checkPid, he])]
    exact leaves_exited o names path pid _ d cwd
  | false =>
  rw [lifetime_step _ _ _ _ _ d d _ ⟨.fopen,cwd⟩ (by simp [act, Outcomes.call, checkPid, he])]
  have hact : act names path pid d ⟨.fopen,cwd⟩ (o.call .fopen) = some (d,⟨.exited,cwd⟩) := by
    cases ho : o.fopen with
    | false => simp [act, Outcomes.call, ho]
    | true =>
      have hr : names.follow cwd path.bytes = none := by
        simpa [Creates, hf, hs, he, ho] using h
      simp [act, Outcomes.call, ho, openPid, hr]
  rw [lifetime_step _ _ _ _ _ d d _ ⟨.exited,cwd⟩ hact]
  exact leaves_exited o names path pid _ d cwd

theorem leaves_created (d : Disk Loc) (cwd : Buf) (h : Creates o names path d cwd) :
    ∃ l, names.follow cwd path.bytes = some l ∧ d.entry l = none ∧
    Leaves (lifetime o names path pid 9 (d,⟨.fork,cwd⟩))
      (if o.fprintf ∧ o.chdir then without (d.create l).entry (removed names path (d.create l) tmp)
        else (d.create l).entry) := by
  obtain ⟨hf,hs,he,ho,hr⟩ := h
  obtain ⟨l,hl⟩ := Option.isSome_iff_exists.mp hr
  have hnone : d.entry l = none := by simpa [isFileExist, named, hl] using he
  refine ⟨l,hl,hnone,?_⟩
  rw [lifetime_step _ _ _ _ _ d d _ ⟨.setsid,cwd⟩ (by simp [act, Outcomes.call, hf]),
    lifetime_step _ _ _ _ _ d d _ ⟨.access,cwd⟩ (by simp [act, Outcomes.call, hs]),
    lifetime_step _ _ _ _ _ d d _ ⟨.fopen,cwd⟩ (by simp [act, Outcomes.call, checkPid, he]),
    lifetime_step _ _ _ _ _ d (d.create l) _ ⟨.fprintf d.next,cwd⟩
      (by simp [act, Outcomes.call, openPid, Disk.fopen, ho, hl, hnone])]
  exact leaves_opened o names path pid 0 d.next (d.create l) cwd

theorem create_entry_ne (d : Disk Loc) (l : Loc) (h : d.entry l = none) :
    (d.create l).entry ≠ d.entry := by
  intro he
  have := congrFun he l
  simp [Disk.create, h] at this

theorem without_create (d : Disk Loc) (l : Loc) (m : Option Loc) (h : d.entry l = none) :
    without (d.create l).entry m = d.entry ↔ m = some l := by
  constructor
  · intro he
    cases m with
    | none => exact absurd he (create_entry_ne d l h)
    | some k =>
      by_contra hk
      have hkl : l ≠ k := fun hlk => hk (by rw [hlk])
      have := congrFun he l
      simp [without, Disk.create, Function.update_of_ne hkl, h] at this
  · rintro rfl
    simp [without, Disk.create, ← h]

theorem removed_created (d : Disk Loc) (l : Loc) (h : names.link l = some l) :
    removed names path (d.create l) tmp = some l ↔ names.entry tmp path.bytes = some l := by
  constructor
  · intro hr
    rw [removed] at hr
    split_ifs at hr
    exact hr
  · intro he
    have hfollow : names.follow tmp path.bytes = some l := by simp [Names.follow, he, h]
    simp [removed, isFileExist, named, hfollow, he, Disk.create]

/-- A daemon that runs alone and ends leaves the files as it found them
exactly when it never got to create the pid file, or wrote it, changed to
`/tmp` and the entry that the path names there is the file it created. -/
theorem leaves_files_iff (d : Disk Loc) (cwd : Buf) :
    Leaves (lifetime o names path pid 9 (d,⟨.fork,cwd⟩)) d.entry ↔
      (Creates o names path d cwd → o.fprintf ∧ o.chdir ∧
        names.entry tmp path.bytes = names.follow cwd path.bytes) := by
  by_cases hc : Creates o names path d cwd
  · obtain ⟨l,hl,hnone,hend,hentry⟩ := leaves_created o names path pid d cwd hc
    simp only [Leaves, hend, hentry, hc, true_and, forall_const, hl]
    by_cases hok : o.fprintf ∧ o.chdir
    · simp [hok, without_create d l _ hnone,
        removed_created names path d l (followed_final names cwd _ l hl)]
    · simp only [hok, if_false, create_entry_ne d l hnone, false_iff]
      tauto
  · simp [hc, leaves_not_created o names path pid d cwd hc]

theorem entry_leaves_files (d : Disk Loc) (cwd : Buf)
    (hentry : names.entry tmp path.bytes = names.entry cwd path.bytes)
    (hlink : ∀ m, names.entry cwd path.bytes = some m → names.link m = some m)
    (hw : o.fprintf = true) (hc : o.chdir = true) :
    Leaves (lifetime o names path pid 9 (d,⟨.fork,cwd⟩)) d.entry := by
  have hfollow : names.follow cwd path.bytes = names.entry cwd path.bytes := by
    cases h : names.entry cwd path.bytes with
    | none => simp [Names.follow, h]
    | some m => simp [Names.follow, h, hlink m h]
  exact (leaves_files_iff o names path pid d cwd).mpr fun _ => ⟨hw,hc,hentry.trans hfollow.symm⟩

/-- What is created through a symbolic link is never removed. -/
theorem linked_file_stays (d : Disk Loc) (cwd : Buf) (m : Loc)
    (hm : names.entry tmp path.bytes = some m) (hlink : names.link m ≠ some m)
    (h : Creates o names path d cwd) :
    ¬Leaves (lifetime o names path pid 9 (d,⟨.fork,cwd⟩)) d.entry := by
  intro hleaves
  obtain ⟨-,-,hsame⟩ := (leaves_files_iff o names path pid d cwd).mp hleaves h
  exact hlink (followed_final names cwd _ m (hsame.symm.trans hm))

end Lifetime

theorem absolute_leaves_files (o : Outcomes) (locate : Buf → Option Loc) (path : CString)
    (pid : ℕ) (d : Disk Loc) (cwd : Buf) (habs : path.bytes.head? = some 47)
    (hw : o.fprintf = true) (hc : o.chdir = true) :
    Leaves (lifetime o (.plain locate) path pid 9 (d,⟨.fork,cwd⟩)) d.entry := by
  refine entry_leaves_files o _ path pid d cwd ?_ (fun _ _ => rfl) hw hc
  simp only [plain_entry, resolve_absolute locate _ _ habs]

def allGood : Outcomes := ⟨true,true,true,true,true,true⟩

def relativePid : CString := ⟨ascii "flip.pid",by decide⟩

theorem relative_path_stays :
    ¬∀ (o : Outcomes) (names : Names Buf) (path : CString) (pid : ℕ) (d : Disk Buf)
      (cwd : Buf), Leaves (lifetime o names path pid 9 (d,⟨.fork,cwd⟩)) d.entry := by
  intro h
  have hentry := (h allGood (.plain some) relativePid 7 .empty (ascii "/srv")).2
  have hstays : (lifetime allGood (.plain some) relativePid 7 9
      (.empty,⟨.fork,ascii "/srv"⟩)).1.entry (ascii "/srv/flip.pid") = some 0 := by decide
  rw [hentry] at hstays
  cases hstays

end Flip.PidCleanup
