import Mathlib.Tactic
import Mathlib.Data.List.FinRange

/-!
# Keeping the newest

A filter with one stamp of memory lets an element through when its stamp is
above the remembered one, and remembers it. It lets through exactly the
elements whose stamp is above the first bound and above every stamp before.
-/

set_option autoImplicit false

namespace Flip.Newest

variable {α β : Type*} [LinearOrder α] (stamp : β → α)

def newest (s : α) : List β → List β
  | [] => []
  | b::bs => if s < stamp b then b::newest (stamp b) bs else newest s bs

/-- The element is above the bound and above every element before it. -/
def IsRecord (s : α) (bs : List β) (k : Fin bs.length) : Prop :=
  s < stamp (bs.get k) ∧ ∀ j < k, stamp (bs.get j) < stamp (bs.get k)

instance (s : α) (bs : List β) : DecidablePred (IsRecord stamp s bs) :=
  fun _ => @instDecidableAnd _ _ inferInstance (Nat.decidableForallFin _)

def records (s : α) (bs : List β) : List β :=
  ((List.finRange bs.length).filter (fun k => IsRecord stamp s bs k)).map bs.get

theorem is_record_zero (s : α) (b : β) (bs : List β) :
    IsRecord stamp s (b::bs) 0 ↔ s < stamp b := by
  simp [IsRecord]

theorem is_record_succ (s : α) (b : β) (bs : List β) (k : Fin bs.length) :
    IsRecord stamp s (b::bs) k.succ ↔
      IsRecord stamp (if s < stamp b then stamp b else s) bs k := by
  have hbefore : (∀ j < k.succ, stamp ((b::bs).get j) < stamp (bs.get k)) ↔
      stamp b < stamp (bs.get k) ∧ ∀ j < k, stamp (bs.get j) < stamp (bs.get k) := by
    refine Fin.forall_fin_succ.trans ?_
    simp only [Fin.succ_pos, true_imp_iff, Fin.succ_lt_succ_iff]
    rfl
  refine (and_congr_right (fun _ => hbefore)).trans ?_
  unfold IsRecord
  split_ifs with h
  · constructor
    · rintro ⟨-,hb,hj⟩
      exact ⟨hb,hj⟩
    · rintro ⟨hb,hj⟩
      exact ⟨h.trans hb,hb,hj⟩
  · constructor
    · rintro ⟨hs,-,hj⟩
      exact ⟨hs,hj⟩
    · rintro ⟨hs,hj⟩
      exact ⟨hs,(not_lt.mp h).trans_lt hs,hj⟩

theorem records_cons (s : α) (b : β) (bs : List β) : records stamp s (b::bs) =
    if s < stamp b then b::records stamp (stamp b) bs else records stamp s bs := by
  have htail : ((List.finRange bs.length).map Fin.succ).filter
      (fun k => IsRecord stamp s (b::bs) k) =
        ((List.finRange bs.length).filter
          (fun k => IsRecord stamp (if s < stamp b then stamp b else s) bs k)).map Fin.succ := by
    rw [List.filter_map]
    congr 1
    refine List.filter_congr (fun k _ => ?_)
    simp only [Function.comp_apply, is_record_succ]
  have hget : (b::bs).get ∘ Fin.succ = bs.get := rfl
  have hall : List.finRange (b::bs).length = 0::(List.finRange bs.length).map Fin.succ :=
    List.finRange_succ
  rw [records, hall, List.filter_cons, htail]
  by_cases h : s < stamp b
  · simp only [(is_record_zero stamp s b bs).mpr h, h, decide_true, if_true, List.map_cons,
      List.map_map, hget]
    rfl
  · simp only [mt (is_record_zero stamp s b bs).mp h, h, decide_false, Bool.false_eq_true,
      if_false, List.map_map, hget]
    rfl

theorem newest_eq_records (s : α) (bs : List β) : newest stamp s bs = records stamp s bs := by
  induction bs generalizing s with
  | nil => rfl
  | cons b bs ih => rw [newest, records_cons, ih, ih]

theorem newest_above (s : α) (bs : List β) : ∀ b ∈ newest stamp s bs, s < stamp b := by
  induction bs generalizing s with
  | nil => simp [newest]
  | cons b bs ih =>
    intro c hc
    rw [newest] at hc
    split_ifs at hc with h
    · rcases List.mem_cons.mp hc with rfl | hc
      · exact h
      · exact h.trans (ih _ c hc)
    · exact ih s c hc

theorem newest_increasing (s : α) (bs : List β) :
    (newest stamp s bs).Pairwise (fun a b => stamp a < stamp b) := by
  induction bs generalizing s with
  | nil => exact .nil
  | cons b bs ih =>
    rw [newest]
    split_ifs
    · exact .cons (fun c hc => newest_above stamp _ bs c hc) (ih _)
    · exact ih s

theorem records_increasing (s : α) (bs : List β) :
    (records stamp s bs).Pairwise (fun a b => stamp a < stamp b) :=
  newest_eq_records stamp s bs ▸ newest_increasing stamp s bs

theorem newest_congr (stamp' : β → α) (s : α) (bs : List β)
    (h : ∀ b ∈ bs, stamp b = stamp' b) : newest stamp s bs = newest stamp' s bs := by
  induction bs generalizing s with
  | nil => rfl
  | cons b bs ih =>
    have htail := fun t => ih t (fun c hc => h c (by simp [hc]))
    rw [newest, newest, h b (by simp), htail, htail]

end Flip.Newest
