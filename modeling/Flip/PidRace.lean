import Flip.PidFile

/-!
# Processes that share one pid file

Any number of processes take the steps of `act` in any order. A process owns
the pid file from the successful end of `write_pid` to the start of its
`unlink`. Two processes can own it at once when one opens the file after the
other has created it; in a run where no successful `fopen` finds a file, the
owner is alone and the file holds its pid.
-/

set_option autoImplicit false

namespace Flip.PidRace
open Flip.CLib Flip.Decimal Flip.Runs Flip.PidFile

variable {Loc : Type}

structure Sys (Loc : Type) where
  disk : Disk Loc
  procs : ℕ → Proc

def start (d : Disk Loc) (cwd : ℕ → Buf) : Sys Loc := ⟨d,fun p => ⟨.fork,cwd p⟩⟩

structure Event where
  pid : ℕ
  call : Call

section System

variable (locate : Buf → Option Loc) (path : CString)

def Owner (q : Proc) : Prop :=
  q.pc = .chdir ∨ q.pc = .running ∨ q.pc = .stopAccess ∨ q.pc = .unlink

def Holder (q : Proc) : Prop := (∃ i, q.pc = .fprintf i) ∨ Owner q

/-- At most one owner, and the file exists and holds the owner's pid. -/
def Exclusive (s : Sys Loc) : Prop :=
  (∀ p q, Owner (s.procs p) → Owner (s.procs q) → p = q) ∧
  ∀ p, Owner (s.procs p) → ∃ i, named s.disk (locate path.bytes) = some i ∧
    s.disk.data i = pidText p

/-- A successful `fopen` finds no file, and an accepted write reaches the file. -/
def Undisturbed (s : Sys Loc) (e : Event) : Prop :=
  match e.call with
  | .fopen true => isFileExist s.disk (resolve locate (s.procs e.pid).cwd path.bytes) = false
  | .fprintf true flushed => flushed = true
  | _ => True

instance (s : Sys Loc) (e : Event) : Decidable (Undisturbed locate path s e) := by
  unfold Undisturbed
  split <;> infer_instance

def Occupies (d : Disk Loc) (p : ℕ) (q : Proc) : Prop :=
  (∀ i, q.pc = .fprintf i → named d (locate path.bytes) = some i ∧ d.data i = []) ∧
  (Owner q → ∃ i, named d (locate path.bytes) = some i ∧ d.data i = pidText p)

def Inv (s : Sys Loc) : Prop :=
  ∀ p, Occupies locate path s.disk p (s.procs p) ∧
    (Holder (s.procs p) → ∀ r, r ≠ p → ¬Holder (s.procs r))

variable [DecidableEq Loc]

def step (s : Sys Loc) (e : Event) : Option (Sys Loc) :=
  (act (.plain locate) path e.pid s.disk (s.procs e.pid) e.call).map
    (fun r => ⟨r.1,Function.update s.procs e.pid r.2⟩)

end System

section Invariant

variable (locate : Buf → Option Loc) (path : CString)

theorem not_holder_occupies (d : Disk Loc) (p : ℕ) (q : Proc) (h : ¬Holder q) :
    Occupies locate path d p q :=
  ⟨fun i hi => absurd (.inl ⟨i,hi⟩) h,fun ho => absurd (.inr ho) h⟩

theorem holder_named (d : Disk Loc) (p : ℕ) (q : Proc) (h : Occupies locate path d p q)
    (hq : Holder q) : (named d (locate path.bytes)).isSome := by
  obtain ⟨i,hi⟩ | ho := hq
  · simp [(h.1 i hi).1]
  · obtain ⟨i,hi,-⟩ := h.2 ho
    simp [hi]

theorem inv_alone (s : Sys Loc) (p : ℕ) (d : Disk Loc) (q : Proc)
    (halone : ∀ r, r ≠ p → ¬Holder (s.procs r)) (hq : Occupies locate path d p q) :
    Inv locate path ⟨d,Function.update s.procs p q⟩ := by
  intro r
  by_cases hr : r = p
  · subst hr
    refine ⟨by simpa using hq,fun _ t ht => ?_⟩
    simpa [Function.update_of_ne ht] using halone t ht
  · simp only [Function.update_of_ne hr]
    exact ⟨not_holder_occupies locate path d r _ (halone r hr),fun h => absurd h (halone r hr)⟩

theorem inv_bystander (s : Sys Loc) (p : ℕ) (q : Proc) (hs : Inv locate path s)
    (hq : ¬Holder q) : Inv locate path ⟨s.disk,Function.update s.procs p q⟩ := by
  intro r
  by_cases hr : r = p
  · subst hr
    simp only [Function.update_self]
    exact ⟨not_holder_occupies locate path _ r q hq,fun h => absurd h hq⟩
  · simp only [Function.update_of_ne hr]
    refine ⟨(hs r).1,fun h t ht => ?_⟩
    by_cases htp : t = p
    · subst htp
      simpa using hq
    · simpa [Function.update_of_ne htp] using (hs r).2 h t ht

theorem inv_owner (s : Sys Loc) (p : ℕ) (q : Proc) (hs : Inv locate path s)
    (hp : Owner (s.procs p)) (hq : ∀ i, q.pc ≠ .fprintf i) :
    Inv locate path ⟨s.disk,Function.update s.procs p q⟩ :=
  inv_alone locate path s p _ _ ((hs p).2 (.inr hp))
    ⟨fun i hi => absurd hi (hq i),fun _ => (hs p).1.2 hp⟩

theorem inv_start (d : Disk Loc) (cwd : ℕ → Buf) : Inv locate path (start d cwd) := by
  intro p
  have hp : ¬Holder ((start d cwd).procs p) := by simp [start, Holder, Owner]
  exact ⟨not_holder_occupies locate path _ p _ hp,fun h => absurd h hp⟩

theorem inv_exclusive (s : Sys Loc) (hs : Inv locate path s) : Exclusive locate path s := by
  refine ⟨fun p q hp hq => ?_,fun p hp => (hs p).1.2 hp⟩
  by_contra hne
  exact (hs q).2 (.inr hq) p hne (.inr hp)

variable [DecidableEq Loc]

theorem inv_fopen (s t : Sys Loc) (p : ℕ) (ok : Bool) (hs : Inv locate path s)
    (habs : path.bytes.head? = some 47) (hg : Undisturbed locate path s ⟨p,.fopen ok⟩)
    (h : step locate path s ⟨p,.fopen ok⟩ = some t) : Inv locate path t := by
  obtain ⟨⟨d,q⟩,hact,rfl⟩ := Option.map_eq_some_iff.mp h
  simp only [act, openPid, plain_follow, resolve_absolute locate _ _ habs] at hact
  split_ifs at hact with hpc hok
  · subst hok
    simp only [Undisturbed, resolve_absolute locate _ _ habs] at hg
    cases hl : locate path.bytes with
    | none =>
      simp only [hl] at hact
      cases hact
      exact inv_bystander locate path s p _ hs (by simp [Holder, Owner])
    | some l =>
      have hnone : s.disk.entry l = none := by simpa [isFileExist, named, hl] using hg
      simp only [hl, Disk.fopen, hnone] at hact
      cases hact
      apply inv_alone
      · intro r _ hr
        have := holder_named locate path _ _ _ (hs r).1 hr
        simp [named, hl, hnone] at this
      · constructor
        · intro i hi
          cases hi
          simp [named, hl, Disk.create]
        · simp [Owner]
  · cases hact
    exact inv_bystander locate path s p _ hs (by simp [Holder, Owner])

theorem inv_fprintf (s t : Sys Loc) (p : ℕ) (ok flushed : Bool) (hs : Inv locate path s)
    (hg : Undisturbed locate path s ⟨p,.fprintf ok flushed⟩)
    (h : step locate path s ⟨p,.fprintf ok flushed⟩ = some t) : Inv locate path t := by
  obtain ⟨⟨d,q⟩,hact,rfl⟩ := Option.map_eq_some_iff.mp h
  simp only [act] at hact
  split at hact
  · rename_i i hpc
    split_ifs at hact with hok hfl
    · subst hok
      cases hact
      obtain ⟨hn,hd⟩ := (hs p).1.1 i hpc
      refine inv_alone locate path s p _ _ ((hs p).2 (.inl ⟨i,hpc⟩)) ⟨by simp,fun _ => ⟨i,?_⟩⟩
      have hn' : named (s.disk.write i (pidText p)) (locate path.bytes) = some i := hn
      exact ⟨by simpa [hfl] using hn',by simp [Disk.write, Disk.store, hd]⟩
    · subst hok
      exact absurd hg hfl
    · cases hact
      exact inv_bystander locate path s p _ hs (by simp [Holder, Owner])
  · cases hact

theorem inv_unlink (s t : Sys Loc) (p : ℕ) (ok : Bool) (hs : Inv locate path s)
    (h : step locate path s ⟨p,.unlink ok⟩ = some t) : Inv locate path t := by
  obtain ⟨⟨d,q⟩,hact,rfl⟩ := Option.map_eq_some_iff.mp h
  simp only [act] at hact
  split_ifs at hact with hpc hok
  · have hq : q.pc = .exited := by
      unfold unlinkPid at hact
      split at hact <;> cases hact <;> rfl
    apply inv_alone
    · exact (hs p).2 (.inr (by simp [Owner, hpc]))
    · exact not_holder_occupies locate path _ p _ (by simp [Holder, Owner, hq])
  · cases hact
    exact inv_bystander locate path s p _ hs (by simp [Holder, Owner])

theorem inv_step (s : Sys Loc) (e : Event) (t : Sys Loc) (habs : path.bytes.head? = some 47)
    (hs : Inv locate path s) (hg : Undisturbed locate path s e)
    (h : step locate path s e = some t) : Inv locate path t := by
  obtain ⟨p,c⟩ := e
  cases c with
  | fopen ok => exact inv_fopen locate path s t p ok hs habs hg h
  | fprintf ok flushed => exact inv_fprintf locate path s t p ok flushed hs hg h
  | unlink ok => exact inv_unlink locate path s t p ok hs h
  | fork ok =>
    obtain ⟨⟨d,q⟩,hact,rfl⟩ := Option.map_eq_some_iff.mp h
    simp only [act] at hact
    split_ifs at hact <;> cases hact <;>
      exact inv_bystander locate path s p _ hs (by simp [Holder, Owner])
  | setsid ok =>
    obtain ⟨⟨d,q⟩,hact,rfl⟩ := Option.map_eq_some_iff.mp h
    simp only [act] at hact
    split_ifs at hact <;> cases hact <;>
      exact inv_bystander locate path s p _ hs (by simp [Holder, Owner])
  | access =>
    obtain ⟨⟨d,q⟩,hact,rfl⟩ := Option.map_eq_some_iff.mp h
    simp only [act] at hact
    split_ifs at hact with hpc hpc'
    · cases hact
      refine inv_bystander locate path s p _ hs ?_
      unfold checkPid
      split <;> simp [Holder, Owner]
    · cases hact
      refine inv_owner locate path s p _ hs (by simp [Owner, hpc']) ?_
      unfold checkPid
      split <;> simp
  | chdir ok =>
    obtain ⟨⟨d,q⟩,hact,rfl⟩ := Option.map_eq_some_iff.mp h
    simp only [act] at hact
    split_ifs at hact with hpc <;> cases hact <;>
      exact inv_owner locate path s p _ hs (by simp [Owner, hpc]) (by simp)
  | done =>
    obtain ⟨⟨d,q⟩,hact,rfl⟩ := Option.map_eq_some_iff.mp h
    simp only [act] at hact
    split_ifs at hact with hpc
    cases hact
    exact inv_owner locate path s p _ hs (by simp [Owner, hpc]) (by simp)

end Invariant

/-- In every run in which no process opens a file that another has created
since it looked, the pid file has at most one owner and holds its pid. -/
theorem undisturbed_run_exclusive [DecidableEq Loc] (locate : Buf → Option Loc) (path : CString)
    (habs : path.bytes.head? = some 47) (d : Disk Loc) (cwd : ℕ → Buf) (events : List Event)
    (s : Sys Loc)
    (hg : Along (step locate path) (Undisturbed locate path) (start d cwd) events)
    (hr : run (step locate path) (start d cwd) events = some s) : Exclusive locate path s :=
  inv_exclusive locate path s (run_invariant (step locate path) (Undisturbed locate path)
    (Inv locate path) (fun s e t hs hg h => inv_step locate path s e t habs hs hg h) events
    (start d cwd) s (inv_start locate path d cwd) hg hr)

def flipPid : CString := ⟨ascii "/run/flip.pid",by decide⟩

def home : ℕ → Buf := fun _ => ascii "/"

def oneAfterOther : List Event :=
  [⟨1,.fork true⟩,⟨1,.setsid true⟩,⟨1,.access⟩,⟨1,.fopen true⟩,⟨1,.fprintf true true⟩,
    ⟨1,.chdir true⟩,⟨2,.fork true⟩,⟨2,.setsid true⟩,⟨2,.access⟩]

theorem one_after_other_exclusive : ∃ s,
    run (step some flipPid) (start .empty home) oneAfterOther = some s ∧
      Exclusive some flipPid s := by
  obtain ⟨s,hs⟩ := Option.isSome_iff_exists.mp
    (show (run (step some flipPid) (start .empty home) oneAfterOther).isSome by decide)
  exact ⟨s,hs,undisturbed_run_exclusive some flipPid (by decide) .empty home oneAfterOther s
    (by decide) hs⟩

def bothLookFirst : List Event :=
  [⟨1,.fork true⟩,⟨1,.setsid true⟩,⟨2,.fork true⟩,⟨2,.setsid true⟩,⟨1,.access⟩,⟨2,.access⟩,
    ⟨1,.fopen true⟩,⟨1,.fprintf true true⟩,⟨2,.fopen true⟩,⟨2,.fprintf true true⟩]

theorem two_owners :
    ¬∀ (events : List Event) (s : Sys Buf),
      run (step some flipPid) (start .empty home) events = some s →
        Exclusive some flipPid s := by
  intro h
  obtain ⟨s,hs,h1,h2⟩ : ∃ s, run (step some flipPid) (start .empty home) bothLookFirst = some s ∧
      (s.procs 1).pc = .chdir ∧ (s.procs 2).pc = .chdir := ⟨_,rfl,rfl,rfl⟩
  have := (h bothLookFirst s hs).1 1 2 (.inl h1) (.inl h2)
  cases this

end Flip.PidRace
