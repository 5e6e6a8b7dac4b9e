import Mathlib.Tactic

/-!
# Requests and their events

A request keeps the final states it was given, the last of which is its state.
Setting a callback, posting and finishing are the library's own operations; a
posted request hands its state to the callback once more and is not finished
by that. Operations that are in flight side by side form a list, and an event
concerns one of them.
-/

set_option autoImplicit false

namespace Flip.Tevent

section Request

variable {ε : Type}

inductive Final (ε : Type) where
  | done
  | error (e : ε)
  deriving DecidableEq

structure Req (ε : Type) where
  finals : List (Final ε)
  callback : Bool
  posted : Bool
  deriving DecidableEq

def Req.create : Req ε := ⟨[],false,false⟩

def Req.done (r : Req ε) : Req ε := { r with finals := r.finals++[.done] }

def Req.error (r : Req ε) (e : ε) : Req ε := { r with finals := r.finals++[.error e] }

def Req.post (r : Req ε) : Req ε := { r with posted := true }

def Req.setCallback (r : Req ε) : Req ε := { r with callback := true }

def Req.deliver (r : Req ε) : Req ε := { r with posted := false }

/-- A request with an fd event on a socket. `readable` says that the event has
fired, which it can do while it is not freed. -/
structure Waiter (ε : Type) where
  req : Req ε
  fdEvent : Bool
  readable : Bool
  deriving DecidableEq

/-- Finished at most once, and as done after the socket was readable. -/
structure Waiter.Sound (w : Waiter ε) : Prop where
  once : w.req.finals.length ≤ 1
  done : .done ∈ w.req.finals → w.readable = true

structure Waiter.Inv (w : Waiter ε) : Prop extends w.Sound where
  pending : w.fdEvent = true → w.req.finals = []

def Waiter.endWait (w : Waiter ε) : Waiter ε := { w with req := w.req.done, fdEvent := false }

/-- The fd event fires and its handler runs. -/
def Waiter.fire (handler : Waiter ε → Waiter ε) (w : Waiter ε) : Option (Waiter ε) :=
  if w.fdEvent then some (handler { w with readable := true }) else none

def Waiter.deliver (w : Waiter ε) : Option (Waiter ε) :=
  if w.req.posted then some { w with req := w.req.deliver } else none

theorem fire_some {handler : Waiter ε → Waiter ε} {w v : Waiter ε}
    (h : w.fire handler = some v) : w.fdEvent = true ∧ v = handler { w with readable := true } := by
  rw [Waiter.fire] at h
  split_ifs at h with hfd
  exact ⟨hfd,(Option.some.inj h).symm⟩

theorem deliver_some {w v : Waiter ε} (h : w.deliver = some v) :
    w.req.posted = true ∧ v = { w with req := w.req.deliver } := by
  rw [Waiter.deliver] at h
  split_ifs at h with hposted
  exact ⟨hposted,(Option.some.inj h).symm⟩

theorem fire_finals {w v : Waiter ε} (hw : w.Inv) (h : w.fire .endWait = some v) :
    v.req.finals = [.done] ∧ v.readable = true := by
  obtain ⟨hfd,rfl⟩ := fire_some h
  refine ⟨?_,rfl⟩
  change w.req.finals++[.done] = [.done]
  rw [hw.pending hfd, List.nil_append]

theorem fire_inv {w v : Waiter ε} (hw : w.Inv) (h : w.fire .endWait = some v) : v.Inv := by
  obtain ⟨hfinals,hreadable⟩ := fire_finals hw h
  obtain ⟨-,rfl⟩ := fire_some h
  exact ⟨⟨by rw [hfinals, List.length_singleton],fun _ => hreadable⟩,fun hfalse => by cases hfalse⟩

theorem deliver_inv {w v : Waiter ε} (hw : w.Inv) (h : w.deliver = some v) : v.Inv := by
  obtain ⟨-,rfl⟩ := deliver_some h
  exact ⟨⟨hw.once,hw.done⟩,hw.pending⟩

theorem failed_inv (e : ε) (readable : Bool) :
    Waiter.Inv ⟨(Req.create.error e).post,false,readable⟩ :=
  ⟨⟨le_refl 1,fun hdone => by simp [Req.create, Req.error, Req.post] at hdone⟩,
    fun hfalse => by cases hfalse⟩

theorem waiting_inv : Waiter.Inv (⟨Req.create,true,false⟩ : Waiter ε) :=
  ⟨⟨Nat.zero_le 1,fun hdone => by cases hdone⟩,fun _ => rfl⟩

end Request

section Side

variable {Op : Type*}

def updateAt (ops : List Op) (i : ℕ) (f : Op → Option Op) : Option (List Op) :=
  (ops[i]?).bind (fun op => (f op).map (fun op' => ops.set i op'))

theorem update_at_all (P : Op → Prop) (f : Op → Option Op)
    (hf : ∀ op op', P op → f op = some op' → P op') (ops ops' : List Op) (i : ℕ)
    (hops : ∀ op ∈ ops, P op) (h : updateAt ops i f = some ops') : ∀ op ∈ ops', P op := by
  obtain ⟨op,hget,hmap⟩ := Option.bind_eq_some_iff.mp h
  obtain ⟨op',hop,rfl⟩ := Option.map_eq_some_iff.mp hmap
  intro x hx
  rcases List.mem_or_eq_of_mem_set hx with hx | rfl
  · exact hops x hx
  · exact hf op x (hops op (List.mem_of_getElem? hget)) hop

theorem update_at_exists (P : Op → Prop) (f : Op → Option Op)
    (hf : ∀ op op', P op → f op = some op' → P op') (ops ops' : List Op) (i : ℕ)
    (hops : ∃ op ∈ ops, P op) (h : updateAt ops i f = some ops') : ∃ op ∈ ops', P op := by
  obtain ⟨op,hget,hmap⟩ := Option.bind_eq_some_iff.mp h
  obtain ⟨op',hop,rfl⟩ := Option.map_eq_some_iff.mp hmap
  obtain ⟨hi,-⟩ := List.getElem?_eq_some_iff.mp hget
  obtain ⟨x,hx,hP⟩ := hops
  obtain ⟨j,hj⟩ := List.mem_iff_getElem?.mp hx
  by_cases hij : i = j
  · rw [← hij, hget] at hj
    cases hj
    exact ⟨op',List.mem_set hi op',hf _ op' hP hop⟩
  · refine ⟨x,List.mem_iff_getElem?.mpr ⟨j,?_⟩,hP⟩
    rwa [List.getElem?_set_ne hij]

theorem append_all (P : Op → Prop) (ops : List Op) (op : Op) (hops : ∀ x ∈ ops, P x) (hop : P op) :
    ∀ x ∈ ops++[op], P x := by
  intro x hx
  rcases List.mem_append.mp hx with hx | hx
  · exact hops x hx
  · rwa [List.mem_singleton.mp hx]

end Side

end Flip.Tevent
