import Flip.Runs

/-!
# A producer and a consumer at one queue

The producer does not look at the queue and the consumer takes from its front.
What is put may be lost before it is on the queue, and what waits is discarded
when a new consumer takes over with a queue of its own. Each element put is
taken, waiting, discarded or lost. In every interleaving the elements taken,
and after them the ones that wait, are some of the elements put, in their
order, and all of them exactly when none is discarded or lost; and what the
producer does is what it would do alone.
-/

set_option autoImplicit false

namespace Flip.Channel
open Flip.Runs
open scoped List

variable {σ τ α β μ : Type*}

abbrev Producer (σ α μ : Type*) := σ → α → Option (σ × List μ)

/-- A step gives the next state and what is left of the queue. -/
structure Consumer (τ β μ : Type*) where
  act : τ → β → List μ → Option (τ × List μ)
  leaves : ∀ c b q c' q', act c b q = some (c',q') → q' <:+ q
  renew : τ → Option τ

inductive Label (α β : Type*) where
  | put (a : α) (delivered : Bool)
  | take (b : β)
  | renew

structure State (σ τ μ : Type*) where
  producer : σ
  queue : List μ
  consumer : τ

def removed (q q' : List μ) : List μ := q.take (q.length-q'.length)

theorem removed_append (q q' : List μ) (h : q' <:+ q) : removed q q'++q' = q := by
  obtain ⟨front,rfl⟩ := h
  simp [removed]

theorem removed_cons (m : μ) (q : List μ) : removed (m::q) q = [m] := by simp [removed]

theorem removed_self (q : List μ) : removed q q = [] := by simp [removed]

def Label.putLabel : Label α β → Option α
  | .put a _ => some a
  | _ => none

def puts (ls : List (Label α β)) : List α := ls.filterMap Label.putLabel

section System

variable (P : Producer σ α μ) (C : Consumer τ β μ)

def put (s : State σ τ μ) (a : α) (delivered : Bool) : Option (State σ τ μ) :=
  (P s.producer a).map (fun r => { s with
    producer := r.1
    queue := if delivered then s.queue++r.2 else s.queue })

def take (s : State σ τ μ) (b : β) : Option (State σ τ μ) :=
  (C.act s.consumer b s.queue).map (fun r => { s with consumer := r.1, queue := r.2 })

def renew (s : State σ τ μ) : Option (State σ τ μ) :=
  (C.renew s.consumer).map (fun c => { s with consumer := c, queue := [] })

def step (s : State σ τ μ) : Label α β → Option (State σ τ μ)
  | .put a delivered => put P s a delivered
  | .take b => take C s b
  | .renew => renew C s

def produce : σ → List α → Option (σ × List μ)
  | p, [] => some (p,[])
  | p, a::as => (P p a).bind (fun r => (produce r.1 as).map (fun t => (t.1,r.2++t.2)))

def sentIn (s : State σ τ μ) (l : Label α β) (_ : State σ τ μ) : List μ :=
  match l with
  | .put a _ => ((P s.producer a).map Prod.snd).getD []
  | _ => []

def lostIn (s : State σ τ μ) (l : Label α β) (t : State σ τ μ) : List μ :=
  match l with
  | .put _ false => sentIn P s l t
  | _ => []

def takenIn (s : State σ τ μ) (l : Label α β) (t : State σ τ μ) : List μ :=
  match l with
  | .take _ => removed s.queue t.queue
  | _ => []

def discardedIn (s : State σ τ μ) (l : Label α β) (_ : State σ τ μ) : List μ :=
  match l with
  | .renew => s.queue
  | _ => []

/-- What the producer puts in a run, and what becomes of it. -/
def sent (s : State σ τ μ) (ls : List (Label α β)) : List μ := record (step P C) (sentIn P) s ls

def lost (s : State σ τ μ) (ls : List (Label α β)) : List μ := record (step P C) (lostIn P) s ls

def taken (s : State σ τ μ) (ls : List (Label α β)) : List μ := record (step P C) takenIn s ls

def discarded (s : State σ τ μ) (ls : List (Label α β)) : List μ :=
  record (step P C) discardedIn s ls

variable {P C}

theorem step_in_order (s t : State σ τ μ) (l : Label α β) (h : step P C s l = some t) :
    takenIn s l t++t.queue <+ s.queue++sentIn P s l t := by
  cases l with
  | put a delivered =>
    obtain ⟨⟨p,out⟩,hact,rfl⟩ := Option.map_eq_some_iff.mp h
    cases delivered with
    | true => simp [takenIn, sentIn, hact]
    | false => exact List.sublist_append_left _ _
  | take b =>
    obtain ⟨⟨c,q⟩,hact,rfl⟩ := Option.map_eq_some_iff.mp h
    change removed s.queue q++q <+ s.queue++[]
    rw [removed_append s.queue q (C.leaves _ _ _ _ _ hact), List.append_nil]
  | renew =>
    obtain ⟨c,-,rfl⟩ := Option.map_eq_some_iff.mp h
    exact List.nil_sublist _

theorem step_accounted (s t : State σ τ μ) (l : Label α β) (h : step P C s l = some t) :
    s.queue++sentIn P s l t ~ takenIn s l t++t.queue++(discardedIn s l t++lostIn P s l t) := by
  cases l with
  | put a delivered =>
    obtain ⟨⟨p,out⟩,hact,rfl⟩ := Option.map_eq_some_iff.mp h
    cases delivered with
    | true => simp [takenIn, sentIn, discardedIn, lostIn, hact]
    | false => exact List.Perm.refl _
  | take b =>
    obtain ⟨⟨c,q⟩,hact,rfl⟩ := Option.map_eq_some_iff.mp h
    change s.queue++[] ~ removed s.queue q++q++[]
    rw [removed_append s.queue q (C.leaves _ _ _ _ _ hact)]
  | renew =>
    obtain ⟨c,-,rfl⟩ := Option.map_eq_some_iff.mp h
    simp [takenIn, sentIn, discardedIn, lostIn]

theorem run_in_order (ls : List (Label α β)) (s t : State σ τ μ)
    (h : run (step P C) s ls = some t) :
    taken P C s ls++t.queue <+ s.queue++sent P C s ls := by
  induction ls generalizing s with
  | nil =>
    cases h
    simp [taken, sent, record]
  | cons l ls ih =>
    obtain ⟨u,hu,hut⟩ := (run_cons (step P C) s l ls t).mp h
    rw [taken, sent, record_cons _ _ s u l ls hu, record_cons _ _ s u l ls hu]
    calc takenIn s l u++taken P C u ls++t.queue
        = takenIn s l u++(taken P C u ls++t.queue) := List.append_assoc _ _ _
      _ <+ takenIn s l u++(u.queue++sent P C u ls) := (ih u hut).append_left _
      _ = takenIn s l u++u.queue++sent P C u ls := (List.append_assoc _ _ _).symm
      _ <+ s.queue++sentIn P s l u++sent P C u ls := (step_in_order s u l hu).append_right _
      _ = s.queue++(sentIn P s l u++sent P C u ls) := List.append_assoc _ _ _

/-- Nothing is duplicated, and nothing else goes missing. -/
theorem run_accounted (ls : List (Label α β)) (s t : State σ τ μ)
    (h : run (step P C) s ls = some t) :
    s.queue++sent P C s ls ~
      taken P C s ls++t.queue++(discarded P C s ls++lost P C s ls) := by
  induction ls generalizing s with
  | nil =>
    cases h
    simp [taken, sent, discarded, lost, record]
  | cons l ls ih =>
    obtain ⟨u,hu,hut⟩ := (run_cons (step P C) s l ls t).mp h
    have hstep := step_accounted s u l hu
    have hrest := ih u hut
    simp only [taken, sent, discarded, lost, record_cons _ _ s u l ls hu] at hrest ⊢
    simp only [← Multiset.coe_eq_coe, ← Multiset.coe_add] at hstep hrest ⊢
    calc (s.queue : Multiset μ)+(sentIn P s l u+record (step P C) (sentIn P) u ls)
        = takenIn s l u+(discardedIn s l u+lostIn P s l u)+
            (u.queue+record (step P C) (sentIn P) u ls) := by
          rw [← add_assoc, hstep]
          abel
      _ = _ := by
          rw [hrest]
          abel

/-- Nothing goes missing exactly when nothing is discarded or lost. -/
theorem run_complete_iff (ls : List (Label α β)) (s t : State σ τ μ)
    (h : run (step P C) s ls = some t) :
    taken P C s ls++t.queue = s.queue++sent P C s ls ↔
      discarded P C s ls = [] ∧ lost P C s ls = [] := by
  have hlength := (run_accounted ls s t h).length_eq
  constructor
  · intro heq
    rw [← heq] at hlength
    simpa using hlength
  · rintro ⟨hdiscarded,hlost⟩
    rw [hdiscarded, hlost, List.append_nil, List.append_nil] at hlength
    exact (run_in_order ls s t h).eq_of_length hlength.symm

theorem run_produce (ls : List (Label α β)) (s t : State σ τ μ)
    (h : run (step P C) s ls = some t) :
    produce P s.producer (puts ls) = some (t.producer,sent P C s ls) := by
  induction ls generalizing s with
  | nil =>
    cases h
    rfl
  | cons l ls ih =>
    obtain ⟨u,hu,hut⟩ := (run_cons (step P C) s l ls t).mp h
    have hrest := ih u hut
    rw [sent, record_cons _ _ s u l ls hu]
    cases l with
    | put a delivered =>
      obtain ⟨⟨p,first⟩,hact,rfl⟩ := Option.map_eq_some_iff.mp hu
      change (P s.producer a).bind _ = _
      have hfirst : ∀ u, sentIn P s (.put a delivered : Label α β) u = first := by
        simp [sentIn, hact]
      rw [hact, hfirst]
      exact congrArg (Option.map (fun r => (r.1,first++r.2))) hrest
    | take b =>
      obtain ⟨r,-,rfl⟩ := Option.map_eq_some_iff.mp hu
      exact hrest
    | renew =>
      obtain ⟨c,-,rfl⟩ := Option.map_eq_some_iff.mp hu
      exact hrest

theorem run_consumer (Inv : τ → List μ → Prop)
    (hact : ∀ c b q c' q' front, Inv c front → C.act c b q = some (c',q') →
      Inv c' (front++removed q q'))
    (hrenew : ∀ c c' front, Inv c front → C.renew c = some c' → Inv c' front)
    (ls : List (Label α β)) (s t : State σ τ μ) (front : List μ) (hs : Inv s.consumer front)
    (h : run (step P C) s ls = some t) : Inv t.consumer (front++taken P C s ls) := by
  induction ls generalizing s front with
  | nil =>
    cases h
    rwa [taken, record, List.append_nil]
  | cons l ls ih =>
    obtain ⟨u,hu,hut⟩ := (run_cons (step P C) s l ls t).mp h
    rw [taken, record_cons _ _ s u l ls hu, ← List.append_assoc]
    refine ih u (front++takenIn s l u) ?_ hut
    cases l with
    | put a delivered =>
      obtain ⟨r,-,rfl⟩ := Option.map_eq_some_iff.mp hu
      simpa [takenIn] using hs
    | take b =>
      obtain ⟨⟨c,q⟩,hc,rfl⟩ := Option.map_eq_some_iff.mp hu
      exact hact _ _ _ _ _ _ hs hc
    | renew =>
      obtain ⟨c,hc,rfl⟩ := Option.map_eq_some_iff.mp hu
      simpa [takenIn] using hrenew _ _ _ hs hc

end System

end Flip.Channel
