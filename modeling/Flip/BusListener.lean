import Flip.BusSetup

/-!
# The listener of a bus in any run

Here nothing is asked of a run: listeners close and crash, and files stay
behind. There is still never a second listener. But nothing except a listener's
own close removes the socket file, so that once the file is there and nobody is
bound, everybody who looks for it connects, and the bus comes back only through
a process that had looked before.
-/

set_option autoImplicit false

namespace Flip.BusListener
open Flip.CLib Flip.Runs Flip.BusSetup

inductive Effect (s : Sys) (p : ℕ) : Sys → Prop where
  | moves (q : Proc) (hbind : q.pc = .bind → s.file = false) (hlive : q.pc ≠ .dead) :
    Effect s p (s.setProc p q)
  | binds (q : Proc) (hpc : (s.procs p).pc = .bind) (hlive : q.pc = .idle)
    (hfree : ¬(s.file = true ∧ s.listeners ≠ [])) :
    Effect s p { s.setProc p q with file := true, listeners := p::s.listeners }
  | closes (unlinked : Bool) (hp : p ∈ s.listeners) :
    Effect s p { s with file := s.file && !unlinked, listeners := s.listeners.erase p }
  | stays : Effect s p s
  | crashes : Effect s p (BusSetup.crash s p)

structure Alone (s : Sys) : Prop where
  single : s.listeners.length ≤ 1
  holds : s.listeners ≠ [] → s.file = true
  live : ∀ p ∈ s.listeners, (s.procs p).pc ≠ .dead

/-- A file without a listener, and nobody about to bind. -/
structure Stale (s : Sys) : Prop where
  file : s.file = true
  silent : s.listeners = []
  looked : ∀ q, (s.procs q).pc ≠ .bind

theorem proceed_effect (s : Sys) (p : ℕ) (ok : Bool) (next : Pc) (err : Errno)
    (hbind : next = .bind → s.file = false) (hlive : next ≠ .dead) :
    Effect s p (s.proceed p ok next err) := by
  cases ok with
  | true => exact .moves _ hbind hlive
  | false => exact .moves _ (by simp) (by simp)

theorem bind_effect (s : Sys) (p : ℕ) (hpc : (s.procs p).pc = .bind) :
    Effect s p (nnBind s p) := by
  unfold nnBind
  split_ifs with hheld
  · exact proceed_effect s p false .idle .enoent (by simp) (by simp)
  · exact .binds _ hpc rfl hheld

theorem close_effect (s t : Sys) (p : ℕ) (endpoint : Endpoint) (ok unlinked : Bool)
    (hpc : (s.procs p).pc = .idle) (h : nbusClose s p endpoint ok unlinked = some t) :
    Effect s p t := by
  cases endpoint with
  | bound =>
    simp only [nbusClose] at h
    split_ifs at h with hp
    · cases h
      exact .closes unlinked hp
    · cases h
      exact .stays
  | connected =>
    simp only [nbusClose] at h
    split_ifs at h
    · cases h
      exact .moves _ (by simp [hpc]) (by simp [hpc])
    · cases h
      exact .stays

theorem step_effect (s t : Sys) (e : Event) (h : step s e = some t) : Effect s e.pid t := by
  obtain ⟨p,c⟩ := e
  cases c with
  | init protocol ok =>
    simp only [step] at h
    split_ifs at h
    cases h
    exact proceed_effect s p ok _ _ (by simp) (by simp)
  | socket ok =>
    simp only [step] at h
    split at h
    · cases h
      apply proceed_effect s p ok _ _ <;> (unfold afterSocket; split <;> simp)
    · cases h
  | subscribe ok =>
    simp only [step] at h
    split_ifs at h
    cases h
    exact proceed_effect s p ok _ _ (by simp) (by simp)
  | fileFromUrl ok =>
    simp only [step] at h
    split_ifs at h
    cases h
    exact proceed_effect s p ok _ _ (by simp) (by simp)
  | access =>
    simp only [step] at h
    split_ifs at h
    cases h
    apply proceed_effect s p true _ _ <;> (unfold afterAccess; split <;> simp_all)
  | bind =>
    simp only [step] at h
    split_ifs at h with hpc
    cases h
    exact bind_effect s p hpc
  | connect =>
    simp only [step] at h
    split_ifs at h
    cases h
    exact .moves _ (by simp) (by simp)
  | close endpoint ok unlinked =>
    simp only [step] at h
    split_ifs at h with hpc
    exact close_effect s t p endpoint ok unlinked hpc h
  | crash =>
    simp only [step] at h
    split_ifs at h
    cases h
    exact .crashes

theorem only_listener (s : Sys) (p : ℕ) (hs : s.listeners.length ≤ 1) (hp : p ∈ s.listeners) :
    s.listeners = [p] := by
  obtain ⟨q,hq⟩ := List.length_eq_one_iff.mp (le_antisymm hs (List.length_pos_of_mem hp))
  rw [hq, List.mem_singleton] at hp
  rw [hq, hp]

theorem alone_effect (s t : Sys) (p : ℕ) (hs : Alone s) (h : Effect s p t) : Alone t := by
  cases h with
  | moves q hbind hlive =>
    refine ⟨hs.single,hs.holds,fun r hr => ?_⟩
    rw [set_proc_pc]
    split_ifs
    · exact hlive
    · exact hs.live r hr
  | binds q hpc hlive hfree =>
    have hnone : s.listeners = [] := by
      by_contra hne
      exact hfree ⟨hs.holds hne,hne⟩
    refine ⟨by simp [hnone],fun _ => rfl,fun r hr => ?_⟩
    obtain rfl : r = p := by simpa [hnone] using hr
    simp [Sys.setProc, hlive]
  | closes unlinked hp =>
    have hnone : s.listeners.erase p = [] := by simp [only_listener s p hs.single hp]
    exact ⟨by simp [hnone],fun hne => absurd hnone hne,fun r hr => absurd hr (by simp [hnone])⟩
  | stays => exact hs
  | crashes =>
    have hsub : ∀ r ∈ s.listeners.filter (· ≠ p), r ∈ s.listeners ∧ r ≠ p := by simp
    refine ⟨le_trans (List.length_filter_le _ _) hs.single,fun hne => ?_,fun r hr => ?_⟩
    · obtain ⟨r,hr⟩ := List.exists_mem_of_ne_nil _ hne
      exact hs.holds (List.ne_nil_of_mem (hsub r hr).1)
    · change ((s.setProc p ⟨.dead,none,0⟩).procs r).pc ≠ .dead
      rw [set_proc_pc, if_neg (hsub r hr).2]
      exact hs.live r (hsub r hr).1

theorem stale_effect (s t : Sys) (p : ℕ) (hs : Stale s) (h : Effect s p t) : Stale t := by
  cases h with
  | moves q hbind hlive =>
    refine ⟨hs.file,hs.silent,fun r => ?_⟩
    rw [set_proc_pc]
    split_ifs
    · intro hq
      have hfile := hs.file
      rw [hbind hq] at hfile
      cases hfile
    · exact hs.looked r
  | binds q hpc hlive hfree => exact absurd hpc (hs.looked p)
  | closes unlinked hp =>
    rw [hs.silent] at hp
    cases hp
  | stays => exact hs
  | crashes =>
    refine ⟨hs.file,by simp [BusSetup.crash, hs.silent],fun r => ?_⟩
    change ((s.setProc p ⟨.dead,none,0⟩).procs r).pc ≠ .bind
    rw [set_proc_pc]
    split_ifs
    · simp
    · exact hs.looked r

theorem run_keeps (Inv : Sys → Prop) (heffect : ∀ s t p, Inv s → Effect s p t → Inv t)
    (events : List Event) (s t : Sys) (hs : Inv s) (h : run step s events = some t) : Inv t :=
  run_invariant step (fun _ _ => True) Inv
    (fun s e t hs _ hstep => heffect s t e.pid hs (step_effect s t e hstep)) events s t hs
    (along_always step s events) h

/-- Whoever binds, closes and crashes, and in whatever order, there is never a
second listener, and the one there is has its file. -/
theorem one_listener (file : Bool) (events : List Event) (t : Sys)
    (h : run step (start file) events = some t) : Alone t :=
  run_keeps Alone alone_effect events _ t ⟨by simp [start],by simp [start],by simp [start]⟩ h

theorem both_bind : ∃ t, run step (start false)
    (upToAccess 1++upToAccess 2++[⟨1,.bind⟩,⟨2,.bind⟩]) = some t ∧ (t.procs 2).ret = some .enoent ∧
      Alone t := by
  obtain ⟨t,ht,hret⟩ : ∃ t, run step (start false)
      (upToAccess 1++upToAccess 2++[⟨1,.bind⟩,⟨2,.bind⟩]) = some t ∧
        (t.procs 2).ret = some .enoent := ⟨_,rfl,rfl⟩
  exact ⟨t,ht,hret,one_listener false _ t ht⟩

theorem late_bind (s : Sys) (q : ℕ) (hdead : s.listeners = []) (hq : (s.procs q).pc = .bind) :
    ∃ t, step s ⟨q,.bind⟩ = some t ∧ Established t := by
  have hfree : ¬(s.file = true ∧ s.listeners ≠ []) := fun h => h.2 hdead
  refine ⟨nnBind s q,by simp [step, hq],q,?_,?_⟩
  · simp [nnBind, hdead]
  · rw [nnBind, if_neg hfree]
    simp [Sys.setProc]

/-- With the file there and nobody bound, a run serves the bus again exactly
when some process has already been told that there was no file. -/
theorem served_again_iff (s : Sys) (hfile : s.file = true) (hdead : s.listeners = []) :
    (∃ events t, run step s events = some t ∧ Established t) ↔
      ∃ q, (s.procs q).pc = .bind := by
  constructor
  · rintro ⟨events,t,hrun,p,hp,-⟩
    by_contra hnone
    have hstale : Stale s := ⟨hfile,hdead,fun q hq => hnone ⟨q,hq⟩⟩
    have hsilent := (run_keeps Stale stale_effect events s t hstale hrun).silent
    rw [hp] at hsilent
    cases hsilent
  · rintro ⟨q,hq⟩
    obtain ⟨t,hstep,ht⟩ := late_bind s q hdead hq
    exact ⟨[⟨q,.bind⟩],t,by simp [run, hstep],ht⟩

theorem crashed_never_served : ∃ s, run step (start false)
    (upToAccess 1++[⟨1,.bind⟩,⟨1,.crash⟩]) = some s ∧
      ¬∃ events t, run step s events = some t ∧ Established t := by
  obtain ⟨s,hs,hfile,hdead,hpc⟩ : ∃ s, run step (start false)
      (upToAccess 1++[⟨1,.bind⟩,⟨1,.crash⟩]) = some s ∧ s.file = true ∧ s.listeners = [] ∧
        ∀ q, (s.procs q).pc = if q = 1 then .dead else .idle := by
    refine ⟨_,rfl,rfl,rfl,fun q => ?_⟩
    change ((Sys.setProc _ 1 ⟨.dead,none,0⟩).procs q).pc = _
    rw [set_proc_pc]
    split_ifs with hq
    · rfl
    · simp [hq, nnBind, Sys.setProc, Sys.proceed, start]
  refine ⟨s,hs,fun hserved => ?_⟩
  obtain ⟨q,hq⟩ := (served_again_iff s hfile hdead).mp hserved
  rw [hpc] at hq
  split_ifs at hq

end Flip.BusListener
