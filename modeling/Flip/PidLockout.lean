import Flip.PidPaths

/-!
# A pid file that is left behind

Only a daemon that stops removes the pid file. From a state in which the file
is there, some order of steps makes a process a daemon again exactly when one
has got past the check already, or one is about to remove the file and another
has not looked yet. A file left by a failure therefore locks out all daemons
that share it, for good.
-/

set_option autoImplicit false

namespace Flip.PidLockout
open Flip.CLib Flip.Runs Flip.PidFile Flip.PidRace

variable {Loc : Type} [DecidableEq Loc]

def Arriving (pc : Pc) : Prop := pc = .fork ∨ pc = .setsid ∨ pc = .access

def Passed (pc : Pc) : Prop := pc = .fopen ∨ (∃ i, pc = .fprintf i) ∨ pc = .chdir ∨ pc = .running

def Leaving (pc : Pc) : Prop := pc = .stopAccess ∨ pc = .unlink

theorem pc_cases (pc : Pc) : Arriving pc ∨ Passed pc ∨ Leaving pc ∨ pc = .exited := by
  cases pc <;> simp [Arriving, Passed, Leaving]

section Runs

variable (locate : Buf → Option Loc) (path : CString)

def Starts (s : Sys Loc) : Prop :=
  ∃ events t p, run (step locate path) s events = some t ∧ (t.procs p).pc = .running

variable {locate path}

theorem starts_next (s t : Sys Loc) (e : Event) (h : step locate path s e = some t)
    (ht : Starts locate path t) : Starts locate path s := by
  obtain ⟨events,u,p,hrun,hp⟩ := ht
  exact ⟨e::events,u,p,(run_cons _ s e events u).mpr ⟨t,h,hrun⟩,hp⟩

variable (s : Sys Loc) (p : ℕ)

theorem starts_running (hp : (s.procs p).pc = .running) : Starts locate path s :=
  ⟨[],s,p,rfl,hp⟩

theorem starts_chdir (hp : (s.procs p).pc = .chdir) : Starts locate path s := by
  apply starts_next s ⟨s.disk,Function.update s.procs p ⟨.running,tmp⟩⟩ ⟨p,.chdir true⟩
  · simp [step, act, hp]
  · exact starts_running _ p (by simp)

theorem starts_fprintf (i : ℕ) (hp : (s.procs p).pc = .fprintf i) : Starts locate path s := by
  apply starts_next s ⟨s.disk,Function.update s.procs p ⟨.chdir,(s.procs p).cwd⟩⟩
    ⟨p,.fprintf true false⟩
  · simp [step, act, hp]
  · exact starts_chdir _ p (by simp)

variable (habs : path.bytes.head? = some 47) (l : Loc) (hl : locate path.bytes = some l)

include habs hl

omit [DecidableEq Loc] in
theorem resolve_file (cwd : Buf) : resolve locate cwd path.bytes = some l := by
  rw [resolve_absolute locate cwd path.bytes habs, hl]

theorem starts_fopen (hp : (s.procs p).pc = .fopen) : Starts locate path s := by
  apply starts_next s ⟨(s.disk.fopen l).2,
    Function.update s.procs p ⟨.fprintf (s.disk.fopen l).1,(s.procs p).cwd⟩⟩ ⟨p,.fopen true⟩
  · simp [step, act, hp, openPid, resolve_file habs l hl]
  · exact starts_fprintf _ p (s.disk.fopen l).1 (by simp)

theorem starts_arriving (hfree : s.disk.entry l = none) (hp : Arriving (s.procs p).pc) :
    Starts locate path s := by
  have haccess : ∀ s : Sys Loc, s.disk.entry l = none → (s.procs p).pc = .access →
      Starts locate path s := by
    intro s hfree hp
    apply starts_next s ⟨s.disk,Function.update s.procs p ⟨.fopen,(s.procs p).cwd⟩⟩ ⟨p,.access⟩
    · simp [step, act, hp, checkPid, isFileExist, named, resolve_file habs l hl, hfree]
    · exact starts_fopen _ p habs l hl (by simp)
  have hsetsid : ∀ s : Sys Loc, s.disk.entry l = none → (s.procs p).pc = .setsid →
      Starts locate path s := by
    intro s hfree hp
    apply starts_next s ⟨s.disk,Function.update s.procs p ⟨.access,(s.procs p).cwd⟩⟩
      ⟨p,.setsid true⟩
    · simp [step, act, hp]
    · exact haccess _ hfree (by simp)
  rcases hp with hp | hp | hp
  · apply starts_next s ⟨s.disk,Function.update s.procs p ⟨.setsid,(s.procs p).cwd⟩⟩
      ⟨p,.fork true⟩
    · simp [step, act, hp]
    · exact hsetsid _ hfree (by simp)
  · exact hsetsid s hfree hp
  · exact haccess s hfree hp

theorem starts_passed (hp : Passed (s.procs p).pc) : Starts locate path s := by
  rcases hp with hp | ⟨i,hp⟩ | hp | hp
  · exact starts_fopen s p habs l hl hp
  · exact starts_fprintf s p i hp
  · exact starts_chdir s p hp
  · exact starts_running s p hp

theorem starts_leaving (r : ℕ) (hfile : (s.disk.entry l).isSome) (hp : Leaving (s.procs p).pc)
    (hr : Arriving (s.procs r).pc) : Starts locate path s := by
  have hunlink : ∀ s : Sys Loc, (s.procs p).pc = .unlink → Arriving (s.procs r).pc →
      Starts locate path s := by
    intro s hp hr
    have hne : r ≠ p := by
      rintro rfl
      simp [Arriving, hp] at hr
    apply starts_next s ⟨s.disk.unlink l,Function.update s.procs p ⟨.exited,(s.procs p).cwd⟩⟩
      ⟨p,.unlink true⟩
    · simp [step, act, hp, unlinkPid, resolve_file habs l hl]
    · apply starts_arriving _ r habs l hl
      · simp [Disk.unlink]
      · simpa [Function.update_of_ne hne] using hr
  rcases hp with hp | hp
  · have hne : r ≠ p := by
      rintro rfl
      simp [Arriving, hp] at hr
    apply starts_next s ⟨s.disk,Function.update s.procs p ⟨.unlink,(s.procs p).cwd⟩⟩ ⟨p,.access⟩
    · simp [step, act, hp, checkPid, isFileExist, named, resolve_file habs l hl, hfile]
    · exact hunlink _ (by simp) (by simpa [Function.update_of_ne hne] using hr)
  · exact hunlink s hp hr

end Runs

section Locked

/-- The file is there, and nobody is past the check. -/
structure Locked (l : Loc) (s : Sys Loc) : Prop where
  file : (s.disk.entry l).isSome
  procs : ∀ p, Arriving (s.procs p).pc ∨ (s.procs p).pc = .exited

def Gone (s : Sys Loc) : Prop := ∀ p, Leaving (s.procs p).pc ∨ (s.procs p).pc = .exited

variable (locate : Buf → Option Loc) (path : CString)

omit [DecidableEq Loc] in
theorem arriving_not_holder (q : Proc) (h : Arriving q.pc ∨ q.pc = .exited) :
    ¬Holder q ∧ q.pc ≠ .fopen := by
  rcases h with (h | h | h) | h <;> simp [Holder, Owner, h]

omit [DecidableEq Loc] in
theorem not_holder_arriving (q : Proc) (h : ¬Holder q ∧ q.pc ≠ .fopen) :
    Arriving q.pc ∨ q.pc = .exited := by
  obtain ⟨pc,cwd⟩ := q
  cases pc <;> simp_all [Holder, Owner, Arriving]

theorem locked_step (habs : path.bytes.head? = some 47) (l : Loc)
    (hl : locate path.bytes = some l) (s t : Sys Loc) (e : Event) (hs : Locked l s)
    (h : step locate path s e = some t) : Locked l t := by
  obtain ⟨⟨d,q⟩,hact,rfl⟩ := Option.map_eq_some_iff.mp h
  obtain ⟨hholder,hopen⟩ := arriving_not_holder _ (hs.procs e.pid)
  cases PidPaths.act_effect locate path e.pid _ _ _ _ e.call hact with
  | passes _ hpc _ =>
    exact ⟨hs.file,(Function.forall_update_iff s.procs
      (fun _ q => Arriving q.pc ∨ q.pc = .exited)).mpr
        ⟨not_holder_arriving _ hpc,fun r _ => hs.procs r⟩⟩
  | absent habsent =>
    have hfile := hs.file
    rw [isFileExist, resolve_file habs l hl] at habsent
    rw [show s.disk.entry l = named s.disk (some l) from rfl, habsent] at hfile
    cases hfile
  | opens _ hpc _ => exact absurd hpc hopen
  | writes i hpc => exact absurd (.inl ⟨i,hpc⟩) hholder
  | keeps _ howner _ _ => exact absurd (.inr howner) hholder
  | unlinks _ hpc _ => exact absurd (.inr (.inr (.inr (.inr hpc)))) hholder

theorem gone_act (pid : ℕ) (d d' : Disk Loc) (q q' : Proc) (c : Call)
    (hq : Leaving q.pc ∨ q.pc = .exited) (h : act (.plain locate) path pid d q c = some (d',q')) :
    Leaving q'.pc ∨ q'.pc = .exited := by
  rcases hq with (hpc | hpc) | hpc
  · cases c <;> simp only [act, hpc, reduceCtorEq, if_false, if_true] at h
    cases h
    unfold checkPid
    split <;> simp [Leaving]
  · cases c <;> simp only [act, hpc, reduceCtorEq, if_false, if_true] at h
    split_ifs at h
    · unfold unlinkPid at h
      split at h <;> cases h <;> exact .inr rfl
    · cases h
      exact .inr rfl
  · cases c <;> simp [act, hpc] at h

theorem gone_step (s t : Sys Loc) (e : Event) (hs : Gone s)
    (h : step locate path s e = some t) : Gone t := by
  obtain ⟨⟨d,q⟩,hact,rfl⟩ := Option.map_eq_some_iff.mp h
  exact (Function.forall_update_iff s.procs (fun _ q => Leaving q.pc ∨ q.pc = .exited)).mpr
    ⟨gone_act locate path e.pid _ _ _ _ e.call (hs e.pid) hact,fun r _ => hs r⟩

theorem not_starts (Inv : Sys Loc → Prop)
    (hstep : ∀ s e t, Inv s → step locate path s e = some t → Inv t)
    (hnone : ∀ s, Inv s → ∀ p, (s.procs p).pc ≠ .running) (s : Sys Loc) (hs : Inv s) :
    ¬Starts locate path s := by
  rintro ⟨events,t,p,hrun,hp⟩
  have ht := run_invariant (step locate path) (fun _ _ => True) Inv
    (fun s e t hs _ => hstep s e t hs) events s t hs (along_always _ s events) hrun
  exact hnone t ht p hp

/-- With the pid file there, a process becomes a daemon in some run, or is one,
exactly when one has passed the check, or one is about to remove the file and
another is still to look. -/
theorem starts_iff (habs : path.bytes.head? = some 47) (l : Loc)
    (hl : locate path.bytes = some l) (s : Sys Loc) (hfile : (s.disk.entry l).isSome) :
    Starts locate path s ↔ (∃ p, Passed (s.procs p).pc) ∨
      (∃ p, Leaving (s.procs p).pc) ∧ ∃ r, Arriving (s.procs r).pc := by
  constructor
  · intro hstarts
    by_contra hnone
    obtain ⟨hpassed,hleaving⟩ := not_or.mp hnone
    by_cases hstop : ∃ p, Leaving (s.procs p).pc
    · have hgone : Gone s := by
        intro p
        rcases pc_cases (s.procs p).pc with h | h | h
        · exact absurd ⟨hstop,p,h⟩ hleaving
        · exact absurd ⟨p,h⟩ hpassed
        · exact h
      refine not_starts locate path Gone (fun s e t => gone_step locate path s t e) ?_ s hgone
        hstarts
      intro s hs p hp
      have h := hs p
      simp [Leaving, hp] at h
    · have hlocked : Locked l s := by
        refine ⟨hfile,fun p => ?_⟩
        rcases pc_cases (s.procs p).pc with h | h | h | h
        · exact .inl h
        · exact absurd ⟨p,h⟩ hpassed
        · exact absurd ⟨p,h⟩ hstop
        · exact .inr h
      refine not_starts locate path (Locked l)
        (fun s e t => locked_step locate path habs l hl s t e) ?_ s hlocked hstarts
      intro s hs p hp
      have h := hs.procs p
      simp [Arriving, hp] at h
  · rintro (⟨p,hp⟩ | ⟨⟨p,hp⟩,r,hr⟩)
    · exact starts_passed s p habs l hl hp
    · exact starts_leaving s p habs l hl r hfile hp hr

end Locked

def lostDaemon : List Event :=
  [⟨1,.fork true⟩,⟨1,.setsid true⟩,⟨1,.access⟩,⟨1,.fopen true⟩,⟨1,.fprintf true true⟩,
    ⟨1,.chdir false⟩]

theorem lost_daemon_locks : ∃ s, run (step some flipPid) (start .empty home) lostDaemon = some s ∧
    ¬Starts some flipPid s := by
  obtain ⟨s,hs,hfile,hone,hrest⟩ : ∃ s,
      run (step some flipPid) (start .empty home) lostDaemon = some s ∧
        (s.disk.entry flipPid.bytes).isSome ∧ (s.procs 1).pc = .exited ∧
          ∀ p, p ≠ 1 → (s.procs p).pc = .fork := by
    refine ⟨_,rfl,rfl,rfl,fun p hp => ?_⟩
    simp [Function.update_of_ne hp, start]
  refine ⟨s,hs,fun hstarts => ?_⟩
  have hpc : ∀ p, (s.procs p).pc = .exited ∨ (s.procs p).pc = .fork := by
    intro p
    by_cases hp : p = 1
    · exact .inl (hp ▸ hone)
    · exact .inr (hrest p hp)
  rcases (starts_iff some flipPid (by decide) _ rfl s hfile).mp hstarts with ⟨p,h⟩ | ⟨⟨p,h⟩,-⟩
  · rcases hpc p with hp | hp <;> simp [Passed, hp] at h
  · rcases hpc p with hp | hp <;> simp [Leaving, hp] at h

end Flip.PidLockout
