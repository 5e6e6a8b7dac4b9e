import Flip.PidRace

/-!
# Daemons with pid files of their own

Each process has its own path. In every interleaving, and whatever fails, the
daemons touch no file but the ones their paths name, in the directory where
they were started or in `/tmp`. When no two paths name one file, the file of
each daemon is in place and holds its pid from the end of `write_pid` to the
start of `unlink`, in whatever order the daemons take their steps.
-/

set_option autoImplicit false

namespace Flip.PidPaths
open Flip.CLib Flip.Runs Flip.PidFile
open Flip.PidRace (Sys Event Owner Holder)

variable {Loc : Type} [DecidableEq Loc]

section Act

variable (locate : Buf → Option Loc) (path : CString) (pid : ℕ)

inductive Effect (flushed : Bool) (d : Disk Loc) (q : Proc) : Disk Loc → Proc → Prop where
  | passes (q' : Proc) (hpc : ¬Holder q' ∧ q'.pc ≠ .fopen) (hcwd : q'.cwd = q.cwd) :
    Effect flushed d q d q'
  | absent (h : isFileExist d (resolve locate q.cwd path.bytes) = false) :
    Effect flushed d q d { q with pc := .fopen }
  | opens (l : Loc) (hpc : q.pc = .fopen) (hl : resolve locate q.cwd path.bytes = some l) :
    Effect flushed d q (d.fopen l).2 { q with pc := .fprintf (d.fopen l).1 }
  | writes (i : ℕ) (hpc : q.pc = .fprintf i) :
    Effect flushed d q (if flushed then d.write i (pidText pid) else d) { q with pc := .chdir }
  | keeps (q' : Proc) (hq : Owner q) (hq' : Owner q') (hcwd : q'.cwd = q.cwd ∨ q'.cwd = tmp) :
    Effect flushed d q d q'
  | unlinks (l : Loc) (hpc : q.pc = .unlink) (hl : resolve locate q.cwd path.bytes = some l) :
    Effect flushed d q (d.unlink l) { q with pc := .exited }

/-- Only the write can be lost in a buffer. -/
def flushes : Call → Bool
  | .fprintf _ flushed => flushed
  | _ => true

theorem owner_not_fprintf (q : Proc) (i : ℕ) (hq : Owner q) : q.pc ≠ .fprintf i := by
  intro h
  simp [Owner, h] at hq

theorem act_effect (d d' : Disk Loc) (q q' : Proc) (c : Call)
    (h : act (.plain locate) path pid d q c = some (d',q')) :
    Effect locate path pid (flushes c) d q d' q' := by
  cases c with
  | fork ok =>
    simp only [act] at h
    split_ifs at h <;> cases h <;> exact .passes _ (by simp [Holder, Owner]) rfl
  | setsid ok =>
    simp only [act] at h
    split_ifs at h <;> cases h <;> exact .passes _ (by simp [Holder, Owner]) rfl
  | access =>
    simp only [act] at h
    split_ifs at h with hpc hpc'
    · cases h
      unfold checkPid
      split_ifs with hexists
      · exact .passes _ (by simp [Holder, Owner]) rfl
      · exact .absent (by simpa using hexists)
    · cases h
      unfold checkPid
      split_ifs
      · exact .keeps _ (by simp [Owner, hpc']) (by simp [Owner]) (.inl rfl)
      · exact .passes _ (by simp [Holder, Owner]) rfl
  | fopen ok =>
    simp only [act] at h
    split_ifs at h with hpc hok
    · unfold openPid at h
      split at h
      · rename_i l hl
        cases h
        exact .opens l hpc (by simpa using hl)
      · cases h
        exact .passes _ (by simp [Holder, Owner]) rfl
    · cases h
      exact .passes _ (by simp [Holder, Owner]) rfl
  | fprintf ok flushed =>
    simp only [act] at h
    split at h
    · rename_i i hpc
      have heffect : Effect locate path pid flushed d q
          (if flushed then d.write i (pidText pid) else d) { q with pc := .chdir } := .writes i hpc
      split_ifs at h with hok hfl
      · cases h
        rwa [if_pos hfl] at heffect
      · cases h
        rwa [if_neg hfl] at heffect
      · cases h
        exact .passes _ (by simp [Holder, Owner]) rfl
    · cases h
  | chdir ok =>
    simp only [act] at h
    split_ifs at h with hpc hok
    · cases h
      exact .keeps _ (by simp [Owner, hpc]) (by simp [Owner]) (.inr rfl)
    · cases h
      exact .passes _ (by simp [Holder, Owner]) rfl
  | done =>
    simp only [act] at h
    split_ifs at h with hpc
    cases h
    exact .keeps _ (by simp [Owner, hpc]) (by simp [Owner]) (.inl rfl)
  | unlink ok =>
    simp only [act] at h
    split_ifs at h with hpc hok
    · unfold unlinkPid at h
      split at h
      · rename_i l hl
        cases h
        exact .unlinks l hpc hl
      · cases h
        exact .passes _ (by simp [Holder, Owner]) rfl
    · cases h
      exact .passes _ (by simp [Holder, Owner]) rfl

end Act

section System

variable (locate : Buf → Option Loc) (paths : ℕ → CString)

def step (s : Sys Loc) (e : Event) : Option (Sys Loc) :=
  (act (.plain locate) (paths e.pid) e.pid s.disk (s.procs e.pid) e.call).map
    (fun r => ⟨r.1,Function.update s.procs e.pid r.2⟩)

theorem step_effect (s t : Sys Loc) (e : Event) (h : step locate paths s e = some t) :
    ∃ d q, t = ⟨d,Function.update s.procs e.pid q⟩ ∧
      Effect locate (paths e.pid) e.pid (flushes e.call) s.disk (s.procs e.pid) d q := by
  obtain ⟨⟨d,q⟩,hact,rfl⟩ := Option.map_eq_some_iff.mp h
  exact ⟨d,q,rfl,act_effect locate (paths e.pid) e.pid _ _ _ _ e.call hact⟩

end System

section Frame

variable (locate : Buf → Option Loc) (paths : ℕ → CString) (d : Disk Loc) (cwd : ℕ → Buf)

/-- Some path names this entry, in the first directory of its process or in `/tmp`. -/
def Own (l : Loc) : Prop :=
  ∃ p, resolve locate (cwd p) (paths p).bytes = some l ∨
    resolve locate tmp (paths p).bytes = some l

def Mine (i : ℕ) : Prop := d.next ≤ i ∨ ∃ l, Own locate paths cwd l ∧ d.entry l = some i

structure Framed (e : Disk Loc) : Prop where
  entries : ∀ l, ¬Own locate paths cwd l → e.entry l = d.entry l
  data : ∀ i, ¬Mine locate paths d cwd i → e.data i = d.data i

structure DiskInv (e : Disk Loc) : Prop extends Framed locate paths d cwd e where
  named : ∀ l i, Own locate paths cwd l → e.entry l = some i → Mine locate paths d cwd i
  next : d.next ≤ e.next

structure ProcInv (p : ℕ) (q : Proc) : Prop where
  opened : ∀ i, q.pc = .fprintf i → Mine locate paths d cwd i
  directory : q.cwd = cwd p ∨ q.cwd = tmp

structure FrameInv (s : Sys Loc) : Prop where
  disk : DiskInv locate paths d cwd s.disk
  procs : ∀ p, ProcInv locate paths d cwd p (s.procs p)

omit [DecidableEq Loc] in
theorem frame_start : FrameInv locate paths d cwd (PidRace.start d cwd) where
  disk := ⟨⟨fun _ _ => rfl,fun _ _ => rfl⟩,fun l _ hl hi => .inr ⟨l,hl,hi⟩,le_refl _⟩
  procs _ := ⟨fun _ hpc => (by cases hpc),.inl rfl⟩

variable {locate paths d cwd}

omit [DecidableEq Loc] in
theorem own_resolved {p : ℕ} {q : Proc} (hq : ProcInv locate paths d cwd p q) {l : Loc}
    (hl : resolve locate q.cwd (paths p).bytes = some l) : Own locate paths cwd l := by
  rcases hq.directory with hcwd | hcwd
  · exact ⟨p,.inl (hcwd ▸ hl)⟩
  · exact ⟨p,.inr (hcwd ▸ hl)⟩

omit [DecidableEq Loc] in
theorem disk_store {e : Disk Loc} (he : DiskInv locate paths d cwd e) (i : ℕ) (b : Buf)
    (hi : Mine locate paths d cwd i) : DiskInv locate paths d cwd (e.store i b) where
  entries := he.entries
  data j hj := by
    have hji : j ≠ i := fun h => hj (h ▸ hi)
    exact (Function.update_of_ne hji _ _).trans (he.data j hj)
  named := he.named
  next := he.next

theorem disk_create {e : Disk Loc} (he : DiskInv locate paths d cwd e) (l : Loc)
    (hl : Own locate paths cwd l) : DiskInv locate paths d cwd (e.create l) where
  entries m hm := by
    have hml : m ≠ l := fun h => hm (h ▸ hl)
    exact (Function.update_of_ne hml _ _).trans (he.entries m hm)
  data j hj := by
    have hjn : j ≠ e.next := fun h => hj (.inl (h ▸ he.next))
    exact (Function.update_of_ne hjn _ _).trans (he.data j hj)
  named m j hm hj := by
    by_cases hml : m = l
    · subst hml
      have hnext : e.next = j := by simpa [Disk.create] using hj
      exact .inl (hnext ▸ he.next)
    · exact he.named m j hm ((Function.update_of_ne hml _ _).symm.trans hj)
  next := he.next.trans (Nat.le_succ _)

theorem disk_fopen {e : Disk Loc} (he : DiskInv locate paths d cwd e) (l : Loc)
    (hl : Own locate paths cwd l) :
    DiskInv locate paths d cwd (e.fopen l).2 ∧ Mine locate paths d cwd (e.fopen l).1 := by
  rw [Disk.fopen]
  split
  · rename_i i hi
    have hmine := he.named l i hl hi
    exact ⟨disk_store he i [] hmine,hmine⟩
  · exact ⟨disk_create he l hl,.inl he.next⟩

theorem disk_unlink {e : Disk Loc} (he : DiskInv locate paths d cwd e) (l : Loc)
    (hl : Own locate paths cwd l) : DiskInv locate paths d cwd (e.unlink l) where
  entries m hm := by
    have hml : m ≠ l := fun h => hm (h ▸ hl)
    exact (Function.update_of_ne hml _ _).trans (he.entries m hm)
  data := he.data
  named m i hm hi := by
    by_cases hml : m = l
    · subst hml
      simp [Disk.unlink] at hi
    · exact he.named m i hm ((Function.update_of_ne hml _ _).symm.trans hi)
  next := he.next

omit [DecidableEq Loc] in
theorem procs_update {procs : ℕ → Proc} (h : ∀ p, ProcInv locate paths d cwd p (procs p)) (p : ℕ)
    (q : Proc) (hq : ProcInv locate paths d cwd p q) :
    ∀ r, ProcInv locate paths d cwd r (Function.update procs p q r) :=
  (Function.forall_update_iff procs (ProcInv locate paths d cwd)).mpr ⟨hq,fun r _ => h r⟩

theorem effect_inv {p : ℕ} {flushed : Bool} {e e' : Disk Loc} {q q' : Proc}
    (he : DiskInv locate paths d cwd e) (hq : ProcInv locate paths d cwd p q)
    (h : Effect locate (paths p) p flushed e q e' q') :
    DiskInv locate paths d cwd e' ∧ ProcInv locate paths d cwd p q' := by
  cases h with
  | passes _ hpc hcwd =>
    exact ⟨he,fun i hi => absurd (.inl ⟨i,hi⟩) hpc.1,hcwd ▸ hq.directory⟩
  | absent => exact ⟨he,fun i hi => (by cases hi),hq.directory⟩
  | opens l hpc hl =>
    obtain ⟨hdisk,hmine⟩ := disk_fopen he l (own_resolved hq hl)
    exact ⟨hdisk,fun i hi => (by cases hi; exact hmine),hq.directory⟩
  | writes i hpc =>
    refine ⟨?_,fun i hi => (by cases hi),hq.directory⟩
    cases flushed with
    | false => exact he
    | true => exact disk_store he i _ (hq.opened i hpc)
  | keeps _ _ hq' hcwd =>
    refine ⟨he,fun i hi => absurd hi (owner_not_fprintf _ i hq'),?_⟩
    rcases hcwd with hsame | htmp
    · exact hsame ▸ hq.directory
    · exact .inr htmp
  | unlinks l hpc hl =>
    exact ⟨disk_unlink he l (own_resolved hq hl),fun i hi => (by cases hi),hq.directory⟩

theorem frame_step (s t : Sys Loc) (e : Event) (hs : FrameInv locate paths d cwd s)
    (h : step locate paths s e = some t) : FrameInv locate paths d cwd t := by
  obtain ⟨d',q,rfl,heffect⟩ := step_effect locate paths s t e h
  obtain ⟨hdisk,hproc⟩ := effect_inv hs.disk (hs.procs e.pid) heffect
  exact ⟨hdisk,procs_update hs.procs e.pid q hproc⟩

/-- Whatever daemons are started with whatever paths, in every interleaving of
their steps and whatever fails, only the files change that their paths name,
in the first directory of the process or in `/tmp`, and the files they create. -/
theorem daemons_framed (events : List Event) (t : Sys Loc)
    (h : run (step locate paths) (PidRace.start d cwd) events = some t) :
    Framed locate paths d cwd t.disk :=
  (run_invariant (step locate paths) (fun _ _ => True) (FrameInv locate paths d cwd)
    (fun s e t hs _ hstep => frame_step s t e hs hstep) events _ t
    (frame_start locate paths d cwd) (along_always _ _ events) h).disk.toFramed

end Frame

section Own

variable (locate : Buf → Option Loc) (paths : ℕ → CString)

structure Separate : Prop where
  absolute : ∀ p, (paths p).bytes.head? = some 47
  apart : ∀ p q l, locate (paths p).bytes = some l → locate (paths q).bytes = some l → p = q

def pidFile (d : Disk Loc) (p : ℕ) : Option ℕ := named d (locate (paths p).bytes)

structure Knows (d : Disk Loc) (p : ℕ) (q : Proc) : Prop where
  absent : q.pc = .fopen → pidFile locate paths d p = none
  empty : ∀ i, q.pc = .fprintf i → pidFile locate paths d p = some i ∧ d.data i = []
  written : Owner q → ∃ i, pidFile locate paths d p = some i ∧ d.data i = pidText p

structure OwnInv (s : Sys Loc) : Prop where
  knows : ∀ p, Knows locate paths s.disk p (s.procs p)
  single : ∀ p q i, Holder (s.procs p) → Holder (s.procs q) →
    pidFile locate paths s.disk p = some i → pidFile locate paths s.disk q = some i → p = q

omit [DecidableEq Loc] in
theorem own_start (d : Disk Loc) (cwd : ℕ → Buf) : OwnInv locate paths (PidRace.start d cwd) where
  knows p := ⟨fun h => (by cases h),fun i h => (by cases h),
    fun h => (by simp [Owner, PidRace.start] at h)⟩
  single p q i h := by simp [Holder, Owner, PidRace.start] at h

variable {locate paths}

omit [DecidableEq Loc] in
theorem knows_same {d e : Disk Loc} {p : ℕ} {q : Proc} (h : Knows locate paths d p q)
    (hfile : pidFile locate paths e p = pidFile locate paths d p)
    (hdata : ∀ i, Holder q → pidFile locate paths d p = some i → e.data i = d.data i) :
    Knows locate paths e p q where
  absent hpc := hfile.trans (h.absent hpc)
  empty i hi := by
    obtain ⟨hnamed,hempty⟩ := h.empty i hi
    exact ⟨hfile.trans hnamed,(hdata i (.inl ⟨i,hi⟩) hnamed).trans hempty⟩
  written howner := by
    obtain ⟨i,hnamed,hwritten⟩ := h.written howner
    exact ⟨i,hfile.trans hnamed,(hdata i (.inr howner) hnamed).trans hwritten⟩

omit [DecidableEq Loc] in
theorem own_update {s : Sys Loc} (hs : OwnInv locate paths s) (p : ℕ) (d : Disk Loc) (q : Proc)
    (hknows : Knows locate paths d p q)
    (hfile : ∀ r ≠ p, pidFile locate paths d r = pidFile locate paths s.disk r)
    (hdata : ∀ r ≠ p, ∀ i, Holder (s.procs r) → pidFile locate paths s.disk r = some i →
      d.data i = s.disk.data i)
    (hsingle : ∀ r ≠ p, ∀ i, Holder q → Holder (s.procs r) → pidFile locate paths d p = some i →
      pidFile locate paths s.disk r ≠ some i) :
    OwnInv locate paths ⟨d,Function.update s.procs p q⟩ where
  knows := (Function.forall_update_iff s.procs (Knows locate paths d)).mpr
    ⟨hknows,fun r hr => knows_same (hs.knows r) (hfile r hr) (hdata r hr)⟩
  single a b i ha hb hia hib := by
    by_contra hab
    by_cases hap : a = p
    · subst hap
      have hba : b ≠ a := fun h => hab h.symm
      simp only [Function.update_self] at ha
      simp only [Function.update_of_ne hba] at hb
      exact hsingle b hba i ha hb hia ((hfile b hba).symm.trans hib)
    · simp only [Function.update_of_ne hap] at ha
      by_cases hbp : b = p
      · subst hbp
        simp only [Function.update_self] at hb
        exact hsingle a hap i hb ha hib ((hfile a hap).symm.trans hia)
      · simp only [Function.update_of_ne hbp] at hb
        exact hab (hs.single a b i ha hb ((hfile a hap).symm.trans hia)
          ((hfile b hbp).symm.trans hib))

theorem pid_file_create (hsep : Separate locate paths) {d : Disk Loc} {p : ℕ} {l : Loc}
    (hl : locate (paths p).bytes = some l) (r : ℕ) :
    pidFile locate paths (d.create l) r =
      if r = p then some d.next else pidFile locate paths d r := by
  split_ifs with hrp
  · subst hrp
    simp [pidFile, named, hl, Disk.create]
  · simp only [pidFile, named]
    cases hr : locate (paths r).bytes with
    | none => rfl
    | some m =>
      have hml : m ≠ l := fun h => hrp (hsep.apart r p l (h ▸ hr) hl)
      exact Function.update_of_ne hml _ _

theorem pid_file_unlink (hsep : Separate locate paths) {d : Disk Loc} {p : ℕ} {l : Loc}
    (hl : locate (paths p).bytes = some l) (r : ℕ) (hrp : r ≠ p) :
    pidFile locate paths (d.unlink l) r = pidFile locate paths d r := by
  simp only [pidFile, named]
  cases hr : locate (paths r).bytes with
  | none => rfl
  | some m =>
    have hml : m ≠ l := fun h => hrp (hsep.apart r p l (h ▸ hr) hl)
    exact Function.update_of_ne hml _ _

omit [DecidableEq Loc] in
theorem pid_file_fresh {d : Disk Loc} {p i : ℕ} (h : pidFile locate paths d p = some i) :
    i < d.next := by
  obtain ⟨l,-,hl⟩ := Option.bind_eq_some_iff.mp h
  exact d.fresh l i hl

theorem own_open (hsep : Separate locate paths) {s : Sys Loc} (hs : OwnInv locate paths s)
    (p : ℕ) (l : Loc) (hpc : (s.procs p).pc = .fopen) (hl : locate (paths p).bytes = some l) :
    OwnInv locate paths ⟨(s.disk.fopen l).2,
      Function.update s.procs p { s.procs p with pc := .fprintf (s.disk.fopen l).1 }⟩ := by
  have habsent : s.disk.entry l = none := by
    have hnone := (hs.knows p).absent hpc
    simpa [pidFile, named, hl] using hnone
  have hfopen : s.disk.fopen l = (s.disk.next,s.disk.create l) := by rw [Disk.fopen, habsent]
  have hfile := pid_file_create hsep (d := s.disk) hl
  have hnew : pidFile locate paths (s.disk.create l) p = some s.disk.next :=
    (hfile p).trans (if_pos rfl)
  rw [hfopen]
  apply own_update hs p
  · refine ⟨fun h => (by cases h),fun i hi => ?_,fun h => (by simp [Owner] at h)⟩
    cases hi
    exact ⟨hnew,Function.update_self _ _ _⟩
  · exact fun r hr => (hfile r).trans (if_neg hr)
  · intro r _ i _ hi
    exact Function.update_of_ne (pid_file_fresh hi).ne _ _
  · intro r _ i _ _ hi hri
    rw [hnew] at hi
    cases hi
    exact absurd (pid_file_fresh hri) (lt_irrefl _)

omit [DecidableEq Loc] in
theorem own_write {s : Sys Loc} (hs : OwnInv locate paths s) (p i : ℕ)
    (hpc : (s.procs p).pc = .fprintf i) :
    OwnInv locate paths ⟨s.disk.write i (pidText p),
      Function.update s.procs p { s.procs p with pc := .chdir }⟩ := by
  obtain ⟨hnamed,hempty⟩ := (hs.knows p).empty i hpc
  have hholder : Holder (s.procs p) := .inl ⟨i,hpc⟩
  apply own_update hs p
  · refine ⟨fun h => (by cases h),fun j hj => (by cases hj),fun _ => ⟨i,hnamed,?_⟩⟩
    simp [Disk.write, Disk.store, hempty]
  · exact fun _ _ => rfl
  · intro r hr j hholds hj
    have hji : j ≠ i := fun h => hr (hs.single r p i hholds hholder (h ▸ hj) hnamed)
    exact Function.update_of_ne hji _ _
  · exact fun r hr j _ hholds hj hrj => hr (hs.single r p j hholds hholder hrj hj)

theorem own_step (hsep : Separate locate paths) (s t : Sys Loc) (e : Event)
    (hs : OwnInv locate paths s) (hflushed : flushes e.call = true)
    (h : step locate paths s e = some t) : OwnInv locate paths t := by
  obtain ⟨d,q,rfl,heffect⟩ := step_effect locate paths s t e h
  have hresolve := resolve_absolute locate (s.procs e.pid).cwd _ (hsep.absolute e.pid)
  rw [hflushed] at heffect
  cases heffect with
  | passes _ hpc hcwd =>
    apply own_update hs e.pid _ _ _ (fun _ _ => rfl) (fun _ _ _ _ _ => rfl)
    · exact fun _ _ _ hholder => absurd hholder hpc.1
    · exact ⟨fun h => absurd h hpc.2,fun i hi => absurd (.inl ⟨i,hi⟩) hpc.1,
        fun howner => absurd (.inr howner) hpc.1⟩
  | absent hnone =>
    rw [hresolve] at hnone
    apply own_update hs e.pid _ _ _ (fun _ _ => rfl) (fun _ _ _ _ _ => rfl)
    · exact fun _ _ _ hholder => absurd hholder (by simp [Holder, Owner])
    · exact ⟨fun _ => by simpa [isFileExist, pidFile] using hnone,fun i hi => (by cases hi),
        fun howner => (by simp [Owner] at howner)⟩
  | opens l hpc hl => exact own_open hsep hs e.pid l hpc (hresolve ▸ hl)
  | writes i hpc => exact own_write hs e.pid i hpc
  | keeps _ hq hq' _ =>
    apply own_update hs e.pid _ _ _ (fun _ _ => rfl) (fun _ _ _ _ _ => rfl)
    · exact fun r hr i _ hholds hi hri => hr (hs.single r e.pid i hholds (.inr hq) hri hi)
    · refine ⟨fun h => ?_,fun i hi => absurd hi (owner_not_fprintf _ i hq'),
        fun _ => (hs.knows e.pid).written hq⟩
      simp [Owner, h] at hq'
  | unlinks l hpc hl =>
    rw [hresolve] at hl
    apply own_update hs e.pid _ _ _ (pid_file_unlink hsep hl) (fun _ _ _ _ _ => rfl)
    · exact fun _ _ _ hholder => absurd hholder (by simp [Holder, Owner])
    · exact ⟨fun h => (by cases h),fun i hi => (by cases hi),
        fun howner => (by simp [Owner] at howner)⟩

/-- Daemons with different absolute paths: in every interleaving in which no
written pid stays in a buffer, whatever else fails, a daemon that has returned
from `write_pid` finds its file in place, with its own pid, until its `unlink`. -/
theorem own_files_kept (hsep : Separate locate paths) (d : Disk Loc) (cwd : ℕ → Buf)
    (events : List Event) (hflushed : ∀ e ∈ events, flushes e.call = true) (t : Sys Loc)
    (h : run (step locate paths) (PidRace.start d cwd) events = some t) (p : ℕ)
    (hp : Owner (t.procs p)) :
    ∃ i, named t.disk (locate (paths p).bytes) = some i ∧ t.disk.data i = pidText p := by
  have hinv : OwnInv locate paths t :=
    run_invariant (step locate paths) (fun _ e => flushes e.call = true) (OwnInv locate paths)
      (fun s e t hs hf hstep => own_step hsep s t e hs hf hstep) events _ t
      (own_start locate paths d cwd)
      (along_of_labels _ (fun e : Event => flushes e.call = true) _ events hflushed) h
  exact (hinv.knows p).written hp

end Own

section Samples

def ownPath (p : ℕ) : CString := ⟨47::List.replicate p 97,by simp⟩

theorem own_paths_separate : Separate some ownPath where
  absolute _ := rfl
  apart p q l hp hq := by
    have hbytes : (ownPath p).bytes = (ownPath q).bytes :=
      (Option.some.inj hp).trans (Option.some.inj hq).symm
    simpa [ownPath] using congrArg List.length hbytes

theorem both_run : ∃ t,
    run (step some ownPath) (PidRace.start .empty PidRace.home) PidRace.bothLookFirst = some t ∧
      (t.procs 1).pc = .chdir ∧ (t.procs 2).pc = .chdir := ⟨_,rfl,rfl,rfl⟩

theorem both_framed : ∃ t,
    run (step some ownPath) (PidRace.start .empty PidRace.home) PidRace.bothLookFirst = some t ∧
      Framed some ownPath .empty PidRace.home t.disk := by
  obtain ⟨t,ht,-⟩ := both_run
  exact ⟨t,ht,daemons_framed PidRace.bothLookFirst t ht⟩

theorem both_keep_their_files : ∃ t,
    run (step some ownPath) (PidRace.start .empty PidRace.home) PidRace.bothLookFirst = some t ∧
    (∃ i, named t.disk (some (ownPath 1).bytes) = some i ∧ t.disk.data i = pidText 1) ∧
      ∃ i, named t.disk (some (ownPath 2).bytes) = some i ∧ t.disk.data i = pidText 2 := by
  obtain ⟨t,ht,h1,h2⟩ := both_run
  have hkept := own_files_kept own_paths_separate .empty PidRace.home PidRace.bothLookFirst
    (by decide) t ht
  exact ⟨t,ht,hkept 1 (.inl h1),hkept 2 (.inl h2)⟩

end Samples

end Flip.PidPaths
