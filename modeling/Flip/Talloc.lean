import Mathlib.Data.List.Basic
import Mathlib.Data.List.Nodup

/-!
# Memory whose chunks own each other

A chunk has an owner or none. Freeing a chunk frees what it owns, directly or
not, and stealing it for another owner takes along what it owns. The chunks
stand in a list, each in front of its owner, so that what a chunk owns is found
in one pass from the back. The operations are the documented behaviour of a
library whose own code is not looked at here.
-/

set_option autoImplicit false

namespace Flip.Talloc

structure Chunk where
  id : ℕ
  owner : Option ℕ
  deriving DecidableEq

def ids (cs : List Chunk) : List ℕ := cs.map Chunk.id

/-- The chunk `p` is `i` or owns it, directly or not. -/
inductive Owns (cs : List Chunk) (p : ℕ) : ℕ → Prop where
  | self (h : p ∈ ids cs) : Owns cs p p
  | child (c : Chunk) (q : ℕ) (hc : c ∈ cs) (howner : c.owner = some q) (h : Owns cs p q) :
    Owns cs p c.id

def Live (owner : Option ℕ) (cs : List Chunk) : Prop := ∀ q, owner = some q → q ∈ ids cs

/-- Every name is there once and every owner behind what it owns. -/
def Rooted : List Chunk → Prop
  | [] => True
  | c::cs => c.id ∉ ids cs ∧ Live c.owner cs ∧ Rooted cs

def owned (p : ℕ) : List Chunk → List ℕ
  | [] => []
  | c::cs =>
    if c.id = p ∨ ∃ q ∈ owned p cs, c.owner = some q then c.id::owned p cs else owned p cs

def without (p : ℕ) (cs : List Chunk) : List Chunk := cs.filter (·.id ∉ owned p cs)

def taken (p : ℕ) (cs : List Chunk) : List Chunk := cs.filter (·.id ∈ owned p cs)

def reown (p : ℕ) (owner : Option ℕ) (c : Chunk) : Chunk := if c.id = p then ⟨p,owner⟩ else c

def moved (p : ℕ) (owner : Option ℕ) (cs : List Chunk) : List Chunk :=
  (taken p cs).map (reown p owner)++without p cs

structure Heap where
  chunks : List Chunk
  next : ℕ
  rooted : Rooted chunks
  fresh : ∀ i ∈ ids chunks, i < next

section Lists

variable (p : ℕ) (cs : List Chunk)

theorem owned_subset (i : ℕ) (h : i ∈ owned p cs) : i ∈ ids cs := by
  induction cs with
  | nil => cases h
  | cons c cs ih =>
    rw [owned] at h
    split_ifs at h
    · rcases List.mem_cons.mp h with rfl | h
      · exact List.mem_cons_self
      · exact List.mem_cons_of_mem _ (ih h)
    · exact List.mem_cons_of_mem _ (ih h)

theorem mem_owned_cons (c : Chunk) (i : ℕ) (hc : c.id ∉ ids cs) (hi : i ∈ ids cs) :
    i ∈ owned p (c::cs) ↔ i ∈ owned p cs := by
  have hne : i ≠ c.id := fun h => hc (h ▸ hi)
  rw [owned]
  split_ifs
  · rw [List.mem_cons, or_iff_right hne]
  · rfl

theorem owned_self (hp : p ∈ ids cs) : p ∈ owned p cs := by
  induction cs with
  | nil => cases hp
  | cons c cs ih =>
    rw [owned]
    by_cases hc : c.id = p
    · rw [if_pos (.inl hc), hc]
      exact List.mem_cons_self
    · have hcs : p ∈ owned p cs := ih (List.mem_of_ne_of_mem (Ne.symm hc) hp)
      split_ifs
      · exact List.mem_cons_of_mem _ hcs
      · exact hcs

theorem rooted_owner (hr : Rooted cs) (c : Chunk) (q : ℕ) (hc : c ∈ cs)
    (howner : c.owner = some q) : q ∈ ids cs := by
  induction cs with
  | nil => cases hc
  | cons d cs ih =>
    rcases List.mem_cons.mp hc with rfl | hc
    · exact List.mem_cons_of_mem _ (hr.2.1 q howner)
    · exact List.mem_cons_of_mem _ (ih hr.2.2 hc)

theorem owned_child (hr : Rooted cs) (c : Chunk) (q : ℕ) (hc : c ∈ cs) (howner : c.owner = some q)
    (hq : q ∈ owned p cs) : c.id ∈ owned p cs := by
  induction cs with
  | nil => cases hc
  | cons d cs ih =>
    rcases List.mem_cons.mp hc with rfl | hc
    · rw [mem_owned_cons p cs c q hr.1 (hr.2.1 q howner)] at hq
      rw [owned, if_pos (.inr ⟨q,hq,howner⟩)]
      exact List.mem_cons_self
    · rw [mem_owned_cons p cs d q hr.1 (rooted_owner cs hr.2.2 c q hc howner)] at hq
      rw [mem_owned_cons p cs d c.id hr.1 (List.mem_map_of_mem hc)]
      exact ih hr.2.2 hc hq

theorem owns_mono (c : Chunk) (i : ℕ) (h : Owns cs p i) : Owns (c::cs) p i := by
  induction h with
  | self h => exact .self (List.mem_cons_of_mem _ h)
  | child d q hd howner _ ih => exact .child d q (List.mem_cons_of_mem _ hd) howner ih

/-- What the pass finds is what the chunk owns. -/
theorem mem_owned_iff (hr : Rooted cs) (i : ℕ) : i ∈ owned p cs ↔ Owns cs p i := by
  constructor
  · intro h
    induction cs generalizing i with
    | nil => cases h
    | cons c cs ih =>
      rw [owned] at h
      split_ifs at h with hc
      · rcases List.mem_cons.mp h with rfl | h
        · rcases hc with hc | ⟨q,hq,howner⟩
          · rw [hc]
            exact .self (by simp [ids, hc])
          · exact .child c q List.mem_cons_self howner (owns_mono p cs c q (ih hr.2.2 q hq))
        · exact owns_mono p cs c i (ih hr.2.2 i h)
      · exact owns_mono p cs c i (ih hr.2.2 i h)
  · intro h
    induction h with
    | self h => exact owned_self p cs h
    | child c q hc howner _ ih => exact owned_child p cs hr c q hc howner ih

theorem mem_without (c : Chunk) : c ∈ without p cs ↔ c ∈ cs ∧ c.id ∉ owned p cs := by
  simp [without]

theorem without_cons (c : Chunk) (hc : c.id ∉ ids cs) :
    without p (c::cs) =
      if c.id ∈ owned p (c::cs) then without p cs else c::without p cs := by
  have htail : cs.filter (·.id ∉ owned p (c::cs)) = cs.filter (·.id ∉ owned p cs) := by
    apply List.filter_congr
    intro d hd
    exact decide_eq_decide.mpr
      (not_congr (mem_owned_cons p cs c d.id hc (List.mem_map_of_mem hd)))
  rw [without, List.filter_cons, htail]
  by_cases h : c.id ∈ owned p (c::cs) <;> simp [h, without]

theorem ids_without (i : ℕ) (h : i ∈ ids (without p cs)) : i ∈ ids cs ∧ i ∉ owned p cs := by
  obtain ⟨c,hc,rfl⟩ := List.mem_map.mp h
  rw [mem_without] at hc
  exact ⟨List.mem_map_of_mem hc.1,hc.2⟩

theorem mem_ids_without (i : ℕ) (hi : i ∈ ids cs) (h : i ∉ owned p cs) :
    i ∈ ids (without p cs) := by
  obtain ⟨c,hc,rfl⟩ := List.mem_map.mp hi
  exact List.mem_map_of_mem ((mem_without p cs c).mpr ⟨hc,h⟩)

theorem rooted_without (hr : Rooted cs) : Rooted (without p cs) := by
  induction cs with
  | nil => trivial
  | cons c cs ih =>
    rw [without_cons p cs c hr.1]
    split_ifs with hc
    · exact ih hr.2.2
    · refine ⟨fun h => hr.1 (ids_without p cs c.id h).1,fun q howner => ?_,ih hr.2.2⟩
      apply mem_ids_without p cs q (hr.2.1 q howner)
      intro hq
      apply hc
      exact owned_child p (c::cs) hr c q List.mem_cons_self howner
        ((mem_owned_cons p cs c q hr.1 (hr.2.1 q howner)).mpr hq)

theorem taken_cons (c : Chunk) (hc : c.id ∉ ids cs) :
    taken p (c::cs) = if c.id ∈ owned p (c::cs) then c::taken p cs else taken p cs := by
  have htail : cs.filter (·.id ∈ owned p (c::cs)) = cs.filter (·.id ∈ owned p cs) := by
    apply List.filter_congr
    intro d hd
    exact decide_eq_decide.mpr (mem_owned_cons p cs c d.id hc (List.mem_map_of_mem hd))
  rw [taken, List.filter_cons, htail]
  by_cases h : c.id ∈ owned p (c::cs) <;> simp [h, taken]

theorem ids_taken (i : ℕ) : i ∈ ids (taken p cs) ↔ i ∈ owned p cs := by
  constructor
  · intro h
    obtain ⟨c,hc,rfl⟩ := List.mem_map.mp h
    simpa [taken] using (List.mem_filter.mp hc).2
  · intro h
    obtain ⟨c,hc,rfl⟩ := List.mem_map.mp (owned_subset p cs i h)
    exact List.mem_map_of_mem (List.mem_filter.mpr ⟨hc,by simpa using h⟩)

theorem reown_id (owner : Option ℕ) (c : Chunk) : (reown p owner c).id = c.id := by
  rw [reown]
  split_ifs with h
  · exact h.symm
  · rfl

theorem ids_reown (owner : Option ℕ) : ids (cs.map (reown p owner)) = ids cs := by
  rw [ids, List.map_map]
  exact List.map_congr_left (fun c _ => reown_id p owner c)

theorem rooted_taken (owner : Option ℕ) (bs : List Chunk) (hr : Rooted cs) (hbs : Rooted bs)
    (hlive : Live owner bs) (hapart : ∀ i ∈ owned p cs, i ∉ ids bs) :
    Rooted ((taken p cs).map (reown p owner)++bs) := by
  induction cs with
  | nil => exact hbs
  | cons c cs ih =>
    have hsub : ∀ i ∈ owned p cs, i ∈ owned p (c::cs) := by
      intro i hi
      exact (mem_owned_cons p cs c i hr.1 (owned_subset p cs i hi)).mpr hi
    have hrest := ih hr.2.2 (fun i hi => hapart i (hsub i hi))
    rw [taken_cons p cs c hr.1]
    split_ifs with hc
    · rw [List.map_cons, List.cons_append]
      have hids : ∀ i, i ∈ ids ((taken p cs).map (reown p owner)++bs) ↔
          i ∈ owned p cs ∨ i ∈ ids bs := by
        intro i
        rw [ids, List.map_append, List.mem_append, ← ids, ← ids, ids_reown, ids_taken]
      refine ⟨?_,?_,hrest⟩
      · rw [reown_id, hids]
        rintro (hi | hi)
        · exact hr.1 (owned_subset p cs c.id hi)
        · exact hapart c.id hc hi
      · intro q hq
        rw [reown] at hq
        rw [hids]
        split_ifs at hq with hp
        · exact .inr (hlive q hq)
        · rw [owned] at hc
          split_ifs at hc with hfound
          · rcases hfound with hfound | ⟨r,hr',howner⟩
            · exact absurd hfound hp
            · rw [hq] at howner
              cases howner
              exact .inl hr'
          · exact absurd (owned_subset p cs c.id hc) hr.1
    · exact hrest

theorem rooted_moved (owner : Option ℕ) (hr : Rooted cs) (hlive : Live owner (without p cs)) :
    Rooted (moved p owner cs) := by
  apply rooted_taken p cs owner _ hr (rooted_without p cs hr) hlive
  exact fun i hi h => (ids_without p cs i h).2 hi

theorem ids_moved (owner : Option ℕ) (i : ℕ) (h : i ∈ ids (moved p owner cs)) : i ∈ ids cs := by
  rw [moved, ids, List.map_append, List.mem_append, ← ids, ← ids, ids_reown, ids_taken] at h
  rcases h with h | h
  · exact owned_subset p cs i h
  · exact (ids_without p cs i h).1

end Lists

section Operations

def Heap.empty : Heap := ⟨[],0,trivial,fun _ h => absurd h List.not_mem_nil⟩

def Heap.push (h : Heap) (owner : Option ℕ) (hlive : Live owner h.chunks) : Heap where
  chunks := ⟨h.next,owner⟩::h.chunks
  next := h.next+1
  rooted := ⟨fun hin => Nat.lt_irrefl _ (h.fresh _ hin),hlive,h.rooted⟩
  fresh := by
    intro i hi
    rcases List.mem_cons.mp hi with rfl | hi
    · exact Nat.lt_succ_self _
    · exact Nat.lt_succ_of_lt (h.fresh i hi)

def Heap.single : Heap := Heap.empty.push none (fun _ h => by cases h)

def Heap.free (h : Heap) (p : ℕ) : Heap where
  chunks := without p h.chunks
  next := h.next
  rooted := rooted_without p h.chunks h.rooted
  fresh := fun i hi => h.fresh i (ids_without p h.chunks i hi).1

def Heap.steal (h : Heap) (p : ℕ) (owner : Option ℕ) (hlive : Live owner (without p h.chunks)) :
    Heap where
  chunks := moved p owner h.chunks
  next := h.next
  rooted := rooted_moved p h.chunks owner h.rooted hlive
  fresh := fun i hi => h.fresh i (ids_moved p h.chunks owner i hi)

instance (owner : Option ℕ) (cs : List Chunk) : Decidable (Live owner cs) :=
  match owner with
  | none => .isTrue (fun _ h => by cases h)
  | some p => decidable_of_iff (p ∈ ids cs)
      ⟨fun h q hq => Option.some.inj hq ▸ h,fun h => h p rfl⟩

/-- A program over the memory; none is an access to a chunk that is gone. -/
abbrev Mem := StateT Heap Option

def talloc (owner : Option ℕ) : Mem ℕ := fun h =>
  if hlive : Live owner h.chunks then some (h.next,h.push owner hlive) else none

def tallocFree (p : ℕ) : Mem Unit := fun h =>
  if p ∈ ids h.chunks then some ((),h.free p) else none

/-- The new owner is not among what is stolen. -/
def tallocSteal (p : ℕ) (owner : Option ℕ) : Mem Unit := fun h =>
  if hlive : p ∈ ids h.chunks ∧ Live owner (without p h.chunks) then
    some ((),h.steal p owner hlive.2)
  else none

end Operations

end Flip.Talloc
