import Mathlib.Computability.RegularExpressions
import Mathlib.Data.List.Infix
import Mathlib.Data.Nat.Find
import Mathlib.Tactic

/-!
# The longest prefix of a form

A reader takes the longest prefix of its input that a regular expression
matches. What follows the input is never touched when its first symbol does
not occur in the expression, since a match has no other symbols.
-/

set_option autoImplicit false

namespace Flip.LongestMatch
open RegularExpression Computability

variable {α : Type*}

def builtFrom (kind : α → Bool) : RegularExpression α → Bool
  | .zero => true
  | .epsilon => true
  | .char a => kind a
  | .plus P Q => builtFrom kind P && builtFrom kind Q
  | .comp P Q => builtFrom kind P && builtFrom kind Q
  | .star P => builtFrom kind P

theorem match_built_from (kind : α → Bool) (P : RegularExpression α) (hP : builtFrom kind P = true)
    (w : List α) (h : w ∈ P.matches') : w.all kind = true := by
  induction P generalizing w with
  | zero => exact h.elim
  | epsilon =>
    obtain rfl : w = [] := h
    rfl
  | char b =>
    obtain rfl : w = [b] := h
    simpa [builtFrom] using hP
  | plus P Q ihP ihQ =>
    rw [builtFrom, Bool.and_eq_true] at hP
    rw [plus_def, matches'_add, Language.mem_add] at h
    exact h.elim (ihP hP.1 w) (ihQ hP.2 w)
  | comp P Q ihP ihQ =>
    rw [builtFrom, Bool.and_eq_true] at hP
    rw [comp_def, matches'_mul, Language.mem_mul] at h
    obtain ⟨u,hu,v,hv,rfl⟩ := h
    rw [List.all_append, ihP hP.1 u hu, ihQ hP.2 v hv, Bool.and_self]
  | star P ih =>
    rw [matches'_star, Language.mem_kstar] at h
    obtain ⟨us,rfl,hus⟩ := h
    rw [List.all_flatten, List.all_eq_true]
    exact fun u hu => ih hP u (hus u hu)

section Forms

def anyOf (as : List α) : RegularExpression α := (as.map char).foldr (· + ·) 0

def maybe (P : RegularExpression α) : RegularExpression α := 1+P

def oneOrMore (P : RegularExpression α) : RegularExpression α := P*P.star

theorem match_any_of (as w : List α) : w ∈ (anyOf as).matches' ↔ ∃ a ∈ as, w = [a] := by
  induction as with
  | nil => exact iff_of_false id (fun ⟨a,ha,_⟩ => by cases ha)
  | cons a as ih =>
    change w ∈ (char a+anyOf as).matches' ↔ _
    rw [matches'_add, Language.mem_add, ih, List.exists_mem_cons_iff]
    exact Iff.rfl

theorem match_maybe (P : RegularExpression α) (w : List α) :
    w ∈ (maybe P).matches' ↔ w = [] ∨ w ∈ P.matches' := by
  rw [maybe, matches'_add, Language.mem_add, matches'_epsilon, Language.mem_one]

theorem match_star_any_of (as w : List α) :
    w ∈ (anyOf as).star.matches' ↔ ∀ a ∈ w, a ∈ as := by
  rw [matches'_star, Language.mem_kstar]
  constructor
  · rintro ⟨us,rfl,hus⟩ a ha
    obtain ⟨u,hu,hau⟩ := List.mem_flatten.mp ha
    obtain ⟨b,hb,rfl⟩ := (match_any_of as u).mp (hus u hu)
    rwa [List.mem_singleton.mp hau]
  · intro h
    refine ⟨w.map (fun a => [a]),by simp [← List.flatMap_def],?_⟩
    intro u hu
    obtain ⟨a,ha,rfl⟩ := List.mem_map.mp hu
    exact (match_any_of as [a]).mpr ⟨a,h a ha,rfl⟩

theorem match_one_or_more_any_of (as w : List α) :
    w ∈ (oneOrMore (anyOf as)).matches' ↔ w ≠ [] ∧ ∀ a ∈ w, a ∈ as := by
  rw [oneOrMore, matches'_mul, Language.mem_mul]
  constructor
  · rintro ⟨u,hu,v,hv,rfl⟩
    obtain ⟨a,ha,rfl⟩ := (match_any_of as u).mp hu
    refine ⟨List.cons_ne_nil a v,?_⟩
    exact List.forall_mem_cons.mpr ⟨ha,(match_star_any_of as v).mp hv⟩
  · rintro ⟨hne,h⟩
    obtain ⟨a,v,rfl⟩ := List.exists_cons_of_ne_nil hne
    obtain ⟨ha,hv⟩ := List.forall_mem_cons.mp h
    exact ⟨[a],(match_any_of as _).mpr ⟨a,ha,rfl⟩,v,(match_star_any_of as v).mpr hv,rfl⟩

end Forms

section Longest

variable [DecidableEq α] (P : RegularExpression α)

def matchLength (b : List α) : ℕ := Nat.findGreatest (fun n => b.take n ∈ P.matches') b.length

def longest (b : List α) : Option (List α) :=
  if b.take (matchLength P b) ∈ P.matches' then some (b.take (matchLength P b)) else none

theorem match_le (b t : List α) (ht : t <+: b) (hm : t ∈ P.matches') :
    t.length ≤ matchLength P b := by
  apply Nat.le_findGreatest ht.length_le
  rwa [← List.prefix_iff_eq_take.mp ht]

theorem longest_none_iff (b : List α) :
    longest P b = none ↔ ∀ t, t <+: b → t ∉ P.matches' := by
  rw [longest, ite_eq_right_iff]
  constructor
  · intro h t ht hm
    have hlast : b.take (matchLength P b) ∈ P.matches' :=
      Nat.findGreatest_spec (P := fun n => b.take n ∈ P.matches') ht.length_le
        (by rwa [← List.prefix_iff_eq_take.mp ht])
    cases h hlast
  · exact fun h hm => absurd hm (h _ (List.take_prefix _ b))

theorem longest_some_iff (b s : List α) :
    longest P b = some s ↔ s <+: b ∧ s ∈ P.matches' ∧
      ∀ t, t <+: b → t ∈ P.matches' → t.length ≤ s.length := by
  have hle : matchLength P b ≤ b.length := Nat.findGreatest_le _
  constructor
  · intro h
    rw [longest] at h
    split_ifs at h with hm
    obtain rfl := Option.some.inj h
    refine ⟨List.take_prefix _ b,hm,fun t ht htm => ?_⟩
    rw [List.length_take_of_le hle]
    exact match_le P b t ht htm
  · rintro ⟨hs,hm,hmax⟩
    have hlast : b.take (matchLength P b) ∈ P.matches' :=
      Nat.findGreatest_spec (P := fun n => b.take n ∈ P.matches') hs.length_le
        (by rwa [← List.prefix_iff_eq_take.mp hs])
    have hlength : matchLength P b = s.length := by
      apply le_antisymm
      · simpa [List.length_take_of_le hle] using hmax _ (List.take_prefix _ b) hlast
      · exact match_le P b s hs hm
    rw [longest, if_pos hlast, hlength, ← List.prefix_iff_eq_take.mp hs]

theorem longest_self (b : List α) (h : b ∈ P.matches') : longest P b = some b :=
  (longest_some_iff P b b).mpr ⟨List.prefix_refl b,h,fun _ ht _ => ht.length_le⟩

section Local

variable (kind : α → Bool) (hP : builtFrom kind P = true)

include hP

omit [DecidableEq α] in
/-- A match ends before a symbol of another kind. -/
theorem match_front (b rest t : List α) (hrest : ∀ a, rest.head? = some a → kind a = false)
    (ht : t <+: b++rest) (hm : t ∈ P.matches') : t <+: b := by
  rcases List.prefix_or_prefix_of_prefix ht (List.prefix_append b rest) with h | ⟨u,rfl⟩
  · exact h
  · rw [List.prefix_append_right_inj] at ht
    cases u with
    | nil => rw [List.append_nil]
    | cons a u =>
      obtain ⟨v,rfl⟩ := ht
      have hall := match_built_from kind P hP _ hm
      rw [List.all_append, List.all_cons, hrest a rfl, Bool.false_and, Bool.and_false] at hall
      cases hall

theorem longest_append (b rest : List α) (hrest : ∀ a, rest.head? = some a → kind a = false) :
    longest P (b++rest) = longest P b := by
  have hiff : ∀ t, t ∈ P.matches' → (t <+: b++rest ↔ t <+: b) := fun t hm =>
    ⟨fun ht => match_front P kind hP b rest t hrest ht hm,
      fun ht => ht.trans (List.prefix_append b rest)⟩
  apply Option.ext
  intro s
  rw [longest_some_iff, longest_some_iff]
  constructor
  · rintro ⟨hs,hm,hmax⟩
    exact ⟨(hiff s hm).mp hs,hm,fun t ht htm => hmax t ((hiff t htm).mpr ht) htm⟩
  · rintro ⟨hs,hm,hmax⟩
    exact ⟨(hiff s hm).mpr hs,hm,fun t ht htm => hmax t ((hiff t htm).mp ht) htm⟩

end Local

end Longest

end Flip.LongestMatch
