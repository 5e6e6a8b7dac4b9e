import Flip.CLib
import Flip.Runs

/-!
# Binding or connecting to a bus

Every process that opens the bus binds it when the socket file is missing and
connects when it is there. The file and the listener are two facts: a crash or
a close takes the listener and may leave the file. In a run where a file that
a process finds always has a listener, and keeps it until the process has
connected, whoever is told that the bus is open has exactly one listener.
-/

set_option autoImplicit false

namespace Flip.BusSetup
open Flip.CLib Flip.Runs

inductive Protocol where
  | bus
  | pub
  | sub
  deriving DecidableEq

inductive Endpoint where
  | bound
  | connected
  deriving DecidableEq

inductive Pc where
  | idle
  | socket (protocol : Protocol)
  | subscribe
  | url
  | access
  | bind
  | connect
  | dead
  deriving DecidableEq

/-- `ret` is the result of the last initialisation that has returned, and
`connected` the number of contexts that are open and not bound. -/
structure Proc where
  pc : Pc
  ret : Option Errno
  connected : ℕ
  deriving DecidableEq

structure Sys where
  file : Bool
  listeners : List ℕ
  procs : ℕ → Proc

/-- `init` is one of the three entry points and its two allocations. -/
inductive Call where
  | init (protocol : Protocol) (ok : Bool)
  | socket (ok : Bool)
  | subscribe (ok : Bool)
  | fileFromUrl (ok : Bool)
  | access
  | bind
  | connect
  | close (endpoint : Endpoint) (ok unlinked : Bool)
  | crash
  deriving DecidableEq

structure Event where
  pid : ℕ
  call : Call

def start (file : Bool) : Sys := ⟨file,[],fun _ => ⟨.idle,none,0⟩⟩

def Sys.setProc (s : Sys) (p : ℕ) (q : Proc) : Sys :=
  { s with procs := Function.update s.procs p q }

def Sys.proceed (s : Sys) (p : ℕ) (ok : Bool) (next : Pc) (err : Errno) : Sys :=
  s.setProc p { s.procs p with
    pc := if ok then next else .idle
    ret := if ok then none else some err }

/-- `nn_bind` fails only while a live listener holds the file. -/
def nnBind (s : Sys) (p : ℕ) : Sys :=
  if s.file = true ∧ s.listeners ≠ [] then s.proceed p false .idle .enoent
  else { s.setProc p { s.procs p with pc := .idle, ret := some .eok } with
    file := true
    listeners := p::s.listeners }

def nnConnect (s : Sys) (p : ℕ) : Sys :=
  s.setProc p ⟨.idle,some .eok,(s.procs p).connected+1⟩

/-- `nn_shutdown` of a context; closing a bound one may remove the file. -/
def nbusClose (s : Sys) (p : ℕ) (endpoint : Endpoint) (ok unlinked : Bool) : Option Sys :=
  match endpoint with
  | .bound =>
    if p ∈ s.listeners then
      some (if ok then { s with file := s.file && !unlinked, listeners := s.listeners.erase p }
        else s)
    else none
  | .connected =>
    if (s.procs p).connected = 0 then none
    else some (if ok then
        s.setProc p { s.procs p with connected := (s.procs p).connected-1 } else s)

def crash (s : Sys) (p : ℕ) : Sys :=
  { s.setProc p ⟨.dead,none,0⟩ with listeners := s.listeners.filter (· ≠ p) }

def afterSocket (protocol : Protocol) : Pc := if protocol = .sub then .subscribe else .url

def afterAccess (file : Bool) : Pc := if file then .connect else .bind

/-- One call of a process. A call that is not the next one has no successor. -/
def step (s : Sys) (e : Event) : Option Sys :=
  match e.call with
  | .init protocol ok =>
    if (s.procs e.pid).pc = .idle then some (s.proceed e.pid ok (.socket protocol) .enomem)
    else none
  | .socket ok =>
    match (s.procs e.pid).pc with
    | .socket protocol => some (s.proceed e.pid ok (afterSocket protocol) .enoent)
    | _ => none
  | .subscribe ok =>
    if (s.procs e.pid).pc = .subscribe then some (s.proceed e.pid ok .url .enoent) else none
  | .fileFromUrl ok =>
    if (s.procs e.pid).pc = .url then some (s.proceed e.pid ok .access .enomem) else none
  | .access =>
    if (s.procs e.pid).pc = .access then
      some (s.proceed e.pid true (afterAccess s.file) .eok) else none
  | .bind => if (s.procs e.pid).pc = .bind then some (nnBind s e.pid) else none
  | .connect =>
    if (s.procs e.pid).pc = .connect then some (nnConnect s e.pid) else none
  | .close endpoint ok unlinked =>
    if (s.procs e.pid).pc = .idle then nbusClose s e.pid endpoint ok unlinked else none
  | .crash => if (s.procs e.pid).pc = .dead then none else some (crash s e.pid)

def Loses (s : Sys) (e : Event) : Prop :=
  e.pid ∈ s.listeners ∧
    match e.call with
    | .crash => True
    | .close endpoint ok _ => endpoint = .bound ∧ ok = true
    | _ => False

/-- A file that a process finds has a listener, and no listener goes away
while another process that has found the file is about to connect. -/
def Steady (s : Sys) (e : Event) : Prop :=
  (e.call = .access → s.file = true → s.listeners ≠ []) ∧
  (Loses s e → ∀ q ≠ e.pid, (s.procs q).pc ≠ .connect)

def Established (s : Sys) : Prop :=
  ∃ p, s.listeners = [p] ∧ (s.procs p).pc ≠ .dead

def Returns (e : Event) (t : Sys) : Prop :=
  (e.call = .bind ∨ e.call = .connect) ∧ (t.procs e.pid).ret = some .eok

structure Inv (s : Sys) : Prop where
  single : s.listeners.length ≤ 1
  holds : s.listeners ≠ [] → s.file = true
  awaits : ∀ q, (s.procs q).pc = .connect → s.listeners ≠ []
  live : ∀ p ∈ s.listeners, (s.procs p).pc ≠ .dead

theorem inv_start (file : Bool) : Inv (start file) :=
  ⟨by simp [start],by simp [start],by simp [start],by simp [start]⟩

theorem set_proc_pc (s : Sys) (p r : ℕ) (q : Proc) :
    ((s.setProc p q).procs r).pc = if r = p then q.pc else (s.procs r).pc := by
  by_cases h : r = p
  · subst h
    simp [Sys.setProc]
  · simp [Sys.setProc, h]

theorem inv_set_proc (s : Sys) (p : ℕ) (q : Proc) (hs : Inv s)
    (hwait : q.pc = .connect → s.listeners ≠ []) (hlive : p ∈ s.listeners → q.pc ≠ .dead) :
    Inv (s.setProc p q) := by
  refine ⟨hs.single,hs.holds,fun r hr => ?_,fun r hr => ?_⟩
  · rw [set_proc_pc] at hr
    split_ifs at hr
    · exact hwait hr
    · exact hs.awaits r hr
  · rw [set_proc_pc]
    split_ifs with hrp
    · exact hlive (hrp ▸ hr)
    · exact hs.live r hr

theorem inv_proceed (s : Sys) (p : ℕ) (ok : Bool) (next : Pc) (err : Errno) (hs : Inv s)
    (hwait : next = .connect → s.listeners ≠ []) (hlive : next ≠ .dead) :
    Inv (s.proceed p ok next err) := by
  apply inv_set_proc s p _ hs
  · cases ok with
    | true => exact hwait
    | false => simp
  · cases ok with
    | true => exact fun _ => hlive
    | false => simp

theorem inv_silent (s : Sys) (hnone : s.listeners = [])
    (hwait : ∀ q, (s.procs q).pc ≠ .connect) : Inv s :=
  ⟨by simp [hnone],by simp [hnone],fun q hq => absurd hq (hwait q),by simp [hnone]⟩

theorem listeners_alone (s : Sys) (p : ℕ) (hs : Inv s) (hp : p ∈ s.listeners) :
    s.listeners = [p] := by
  obtain ⟨q,hq⟩ := List.length_eq_one_iff.mp
    (le_antisymm hs.single (List.length_pos_of_mem hp))
  rw [hq, List.mem_singleton] at hp
  rw [hq, hp]

theorem inv_bind (s : Sys) (p : ℕ) (hs : Inv s) : Inv (nnBind s p) := by
  unfold nnBind
  split_ifs with h
  · exact inv_proceed s p false .idle .enoent hs (by simp) (by simp)
  · have hnone : s.listeners = [] := by
      by_contra hne
      exact h ⟨hs.holds hne,hne⟩
    refine ⟨by simp [hnone],by simp,by simp,fun r hr => ?_⟩
    obtain rfl : r = p := by simpa [hnone] using hr
    simp [Sys.setProc]

theorem inv_close (s t : Sys) (p : ℕ) (endpoint : Endpoint) (ok unlinked : Bool) (hs : Inv s)
    (hsteady : Steady s ⟨p,.close endpoint ok unlinked⟩) (hidle : (s.procs p).pc = .idle)
    (h : nbusClose s p endpoint ok unlinked = some t) : Inv t := by
  cases endpoint with
  | bound =>
    simp only [nbusClose] at h
    split_ifs at h with hp hok
    · cases h
      have halone := listeners_alone s p hs hp
      refine inv_silent _ (by simp [halone]) fun q => ?_
      by_cases hqp : q = p
      · simp [hqp, hidle]
      · exact hsteady.2 ⟨hp,rfl,hok⟩ q hqp
    · cases h
      exact hs
  | connected =>
    simp only [nbusClose] at h
    split_ifs at h
    · cases h
      exact inv_set_proc s p _ hs (hs.awaits p) (hs.live p)
    · cases h
      exact hs

theorem inv_crash (s : Sys) (p : ℕ) (hs : Inv s) (hsteady : Steady s ⟨p,.crash⟩) :
    Inv (crash s p) := by
  by_cases hp : p ∈ s.listeners
  · have halone := listeners_alone s p hs hp
    apply inv_silent _ (by simp [crash, halone])
    intro q
    change ((s.setProc p ⟨.dead,none,0⟩).procs q).pc ≠ .connect
    rw [set_proc_pc]
    split_ifs with hqp
    · simp
    · exact hsteady.2 ⟨hp,trivial⟩ q hqp
  · have hcrash : crash s p = s.setProc p ⟨.dead,none,0⟩ := by
      have hfilter : s.listeners.filter (· ≠ p) = s.listeners := by
        rw [List.filter_eq_self]
        intro r hr
        simpa using fun h : r = p => hp (h ▸ hr)
      simp only [crash, hfilter, Sys.setProc]
    rw [hcrash]
    exact inv_set_proc s p _ hs (by simp) (fun h => absurd h hp)

theorem inv_step (s : Sys) (e : Event) (t : Sys) (hs : Inv s) (hsteady : Steady s e)
    (h : step s e = some t) : Inv t := by
  obtain ⟨p,c⟩ := e
  cases c with
  | init protocol ok =>
    simp only [step] at h
    split_ifs at h
    cases h
    exact inv_proceed s p ok _ _ hs (by simp) (by simp)
  | socket ok =>
    simp only [step] at h
    split at h
    · cases h
      apply inv_proceed s p ok _ _ hs <;> (unfold afterSocket; split <;> simp)
    · cases h
  | subscribe ok =>
    simp only [step] at h
    split_ifs at h
    cases h
    exact inv_proceed s p ok _ _ hs (by simp) (by simp)
  | fileFromUrl ok =>
    simp only [step] at h
    split_ifs at h
    cases h
    exact inv_proceed s p ok _ _ hs (by simp) (by simp)
  | access =>
    simp only [step] at h
    split_ifs at h
    cases h
    apply inv_proceed s p true _ _ hs
    · intro hc
      refine hsteady.1 rfl ?_
      by_contra hf
      simp [afterAccess, hf] at hc
    · unfold afterAccess
      split <;> simp
  | bind =>
    simp only [step] at h
    split_ifs at h
    cases h
    exact inv_bind s p hs
  | connect =>
    simp only [step] at h
    split_ifs at h
    cases h
    exact inv_set_proc s p _ hs (by simp) (by simp)
  | close endpoint ok unlinked =>
    simp only [step] at h
    split_ifs at h with hidle
    exact inv_close s t p endpoint ok unlinked hs hsteady hidle h
  | crash =>
    simp only [step] at h
    split_ifs at h
    cases h
    exact inv_crash s p hs hsteady

theorem returns_established (s t : Sys) (e : Event) (hs : Inv s) (hsteady : Steady s e)
    (h : step s e = some t) (hret : Returns e t) : Established t := by
  have ht := inv_step s e t hs hsteady h
  have hne : t.listeners ≠ [] := by
    obtain ⟨p,c⟩ := e
    obtain ⟨rfl | rfl,hok⟩ := hret
    · simp only [step] at h
      split_ifs at h
      cases h
      unfold nnBind at hok ⊢
      split_ifs with hheld
      · exact hheld.2
      · simp
    · simp only [step] at h
      split_ifs at h with hpc
      cases h
      exact hs.awaits p hpc
  obtain ⟨p,hp⟩ := List.exists_mem_of_ne_nil _ hne
  exact ⟨p,listeners_alone t p ht hp,ht.live p hp⟩

/-- In every steady run, whenever an initialisation returns success exactly
one live process is bound to the URL. -/
theorem steady_run_established (file : Bool) (events : List Event) (e : Event) (s t : Sys)
    (hg : Along step Steady (start file) (events++[e]))
    (hr : run step (start file) events = some s) (ht : step s e = some t)
    (hret : Returns e t) : Established t := by
  obtain ⟨hevents,he⟩ := (along_append step Steady _ s events [e] hr).mp hg
  have hs := run_invariant step Steady Inv inv_step events _ s (inv_start file) hevents hr
  exact returns_established s t e hs he.1 ht hret

def upToAccess (p : ℕ) : List Event :=
  [⟨p,.init .bus true⟩,⟨p,.socket true⟩,⟨p,.fileFromUrl true⟩,⟨p,.access⟩]

def Calm (s : Sys) (e : Event) : Prop :=
  match e.call with
  | .access => s.file = true → s.listeners ≠ []
  | .close _ _ _ => False
  | .crash => False
  | _ => True

instance (s : Sys) (e : Event) : Decidable (Calm s e) := by
  unfold Calm
  split <;> infer_instance

theorem calm_steady (s : Sys) (e : Event) (h : Calm s e) : Steady s e := by
  obtain ⟨p,c⟩ := e
  cases c <;> simp_all [Calm, Steady, Loses]

theorem second_connects : ∃ t, run step (start false)
    (upToAccess 1++⟨1,.bind⟩::upToAccess 2++[⟨2,.connect⟩]) = some t ∧ Established t := by
  obtain ⟨s,t,hs,ht,hret⟩ : ∃ s t, run step (start false)
      (upToAccess 1++⟨1,.bind⟩::upToAccess 2) = some s ∧ step s ⟨2,.connect⟩ = some t ∧
        Returns ⟨2,.connect⟩ t := ⟨_,_,rfl,rfl,.inr rfl,rfl⟩
  refine ⟨t,?_,steady_run_established false _ _ s t ?_ hs ht hret⟩
  · rw [run_append, hs]
    simp [run, ht]
  · exact along_mono step Calm Steady calm_steady _ _ (by decide)

/-- The listener crashes and its file sends the next process to nobody. -/
theorem connects_to_stale_file :
    ¬∀ (events : List Event) (e : Event) (s t : Sys), run step (start false) events = some s →
      step s e = some t → Returns e t → Established t := by
  intro h
  obtain ⟨s,t,hs,ht,hret,hnone⟩ : ∃ s t, run step (start false)
      (upToAccess 1++⟨1,.bind⟩::⟨1,.crash⟩::upToAccess 2) = some s ∧
        step s ⟨2,.connect⟩ = some t ∧ Returns ⟨2,.connect⟩ t ∧ t.listeners = [] :=
    ⟨_,_,rfl,rfl,⟨.inr rfl,rfl⟩,rfl⟩
  obtain ⟨p,hp,-⟩ := h _ _ s t hs ht hret
  rw [hnone] at hp
  cases hp

end Flip.BusSetup
