import Mathlib.Tactic

/-!
# Guarded runs of a labelled system

A system is a partial step function: a label which is not enabled has no
successor. An invariant need only survive the steps that meet a guard, and
it then holds wherever a run leads whose steps all meet that guard.
-/

set_option autoImplicit false

namespace Flip.Runs

variable {σ α : Type*}

def run (step : σ → α → Option σ) : σ → List α → Option σ
  | s, [] => some s
  | s, a::as => (step s a).bind (fun t => run step t as)

/-- Every step of the run is taken from a state that meets the guard. -/
def Along (step : σ → α → Option σ) (guard : σ → α → Prop) : σ → List α → Prop
  | _, [] => True
  | s, a::as => guard s a ∧ ∀ t, step s a = some t → Along step guard t as

theorem along_cons (step : σ → α → Option σ) (guard : σ → α → Prop) (s t : σ) (a : α)
    (as : List α) (h : step s a = some t) :
    Along step guard s (a::as) ↔ guard s a ∧ Along step guard t as := by
  simp [Along, h]

instance decidableAlong (step : σ → α → Option σ) (guard : σ → α → Prop)
    [∀ s a, Decidable (guard s a)] (s : σ) : (as : List α) → Decidable (Along step guard s as)
  | [] => isTrue trivial
  | a::as =>
    match h : step s a with
    | none => decidable_of_iff (guard s a) (by simp [Along, h])
    | some t =>
      have := decidableAlong step guard t as
      decidable_of_iff (guard s a ∧ Along step guard t as) (along_cons step guard s t a as h).symm

theorem run_cons (step : σ → α → Option σ) (s : σ) (a : α) (as : List α) (t : σ) :
    run step s (a::as) = some t ↔ ∃ u, step s a = some u ∧ run step u as = some t := by
  simp [run, Option.bind_eq_some_iff]

theorem run_append (step : σ → α → Option σ) (s : σ) (as bs : List α) :
    run step s (as++bs) = (run step s as).bind (fun t => run step t bs) := by
  induction as generalizing s with
  | nil => rfl
  | cons a as ih =>
    cases h : step s a with
    | none => simp [run, h]
    | some t => simpa [run, h] using ih t

/-- Where each step of one system is the image of a step of another, so is
each run. -/
theorem run_map {σ' α' : Type*} (step : σ → α → Option σ) (step' : σ' → α' → Option σ')
    (f : σ → σ') (g : α' → α) (h : ∀ s a, step' (f s) a = (step s (g a)).map f) (s : σ)
    (as : List α') : run step' (f s) as = (run step s (as.map g)).map f := by
  induction as generalizing s with
  | nil => rfl
  | cons a as ih =>
    rw [List.map_cons, run, run, h]
    cases step s (g a) with
    | none => rfl
    | some t => exact ih t

def record {μ : Type*} (step : σ → α → Option σ) (entry : σ → α → σ → List μ) :
    σ → List α → List μ
  | _, [] => []
  | s, a::as =>
    match step s a with
    | some t => entry s a t++record step entry t as
    | none => []

theorem record_cons {μ : Type*} (step : σ → α → Option σ) (entry : σ → α → σ → List μ) (s t : σ)
    (a : α) (as : List α) (h : step s a = some t) :
    record step entry s (a::as) = entry s a t++record step entry t as := by
  rw [record, h]

theorem record_map {σ' α' μ : Type*} (step : σ → α → Option σ) (step' : σ' → α' → Option σ')
    (f : σ → σ') (g : α' → α) (h : ∀ s a, step' (f s) a = (step s (g a)).map f)
    (entry : σ → α → σ → List μ) (entry' : σ' → α' → σ' → List μ)
    (hentry : ∀ s a t, step s (g a) = some t → entry' (f s) a (f t) = entry s (g a) t) (s : σ)
    (as : List α') : record step' entry' (f s) as = record step entry s (as.map g) := by
  induction as generalizing s with
  | nil => rfl
  | cons a as ih =>
    rw [List.map_cons, record, record, h]
    cases hst : step s (g a) with
    | none => rfl
    | some t => exact congrArg₂ (·++·) (hentry s a t hst) (ih t)

theorem along_append (step : σ → α → Option σ) (guard : σ → α → Prop) (s t : σ) (as bs : List α)
    (h : run step s as = some t) :
    Along step guard s (as++bs) ↔ Along step guard s as ∧ Along step guard t bs := by
  induction as generalizing s with
  | nil =>
    cases h
    simp [Along]
  | cons a as ih =>
    obtain ⟨u,hu,hut⟩ := (run_cons step s a as t).mp h
    rw [List.cons_append, along_cons _ _ _ _ _ _ hu, along_cons _ _ _ _ _ _ hu, ih u hut,
      and_assoc]

theorem along_mono (step : σ → α → Option σ) (g g' : σ → α → Prop) (h : ∀ s a, g s a → g' s a)
    (s : σ) (as : List α) (hs : Along step g s as) : Along step g' s as := by
  induction as generalizing s with
  | nil => trivial
  | cons a as ih => exact ⟨h s a hs.1,fun t ht => ih t (hs.2 t ht)⟩

theorem along_always (step : σ → α → Option σ) (s : σ) (as : List α) :
    Along step (fun _ _ => True) s as := by
  induction as generalizing s with
  | nil => trivial
  | cons a as ih => exact ⟨trivial,fun t _ => ih t⟩

theorem along_of_labels (step : σ → α → Option σ) (good : α → Prop) (s : σ) (as : List α)
    (h : ∀ a ∈ as, good a) : Along step (fun _ a => good a) s as := by
  induction as generalizing s with
  | nil => trivial
  | cons a as ih =>
    obtain ⟨ha,hrest⟩ := List.forall_mem_cons.mp h
    exact ⟨ha,fun t _ => ih t hrest⟩

/-- A step lemma for the guarded steps gives the invariant at the end of
every guarded run, and so at each state the run passes. -/
theorem run_invariant (step : σ → α → Option σ) (guard : σ → α → Prop) (Inv : σ → Prop)
    (hstep : ∀ s a t, Inv s → guard s a → step s a = some t → Inv t)
    (as : List α) (s t : σ) (hs : Inv s) (hg : Along step guard s as)
    (hr : run step s as = some t) : Inv t := by
  induction as generalizing s with
  | nil =>
    cases hr
    exact hs
  | cons a as ih =>
    obtain ⟨u,hu,hut⟩ := (run_cons step s a as t).mp hr
    exact ih u (hstep s a u hs hg.1 hu) (hg.2 u hu) hut

open Classical in
noncomputable def misses (step : σ → α → Option σ) (guard : σ → α → Prop) : σ → List α → ℕ
  | _, [] => 0
  | s, a::as => (if guard s a then 0 else 1)+
      match step s a with
      | some t => misses step guard t as
      | none => 0

open Classical in
theorem run_misses (step : σ → α → Option σ) (guard : σ → α → Prop) (m : σ → ℤ)
    (h : ∀ s a t, step s a = some t → m t = m s+(if guard s a then 0 else 1)) (as : List α)
    (s t : σ) (hr : run step s as = some t) : m t = m s+misses step guard s as := by
  induction as generalizing s with
  | nil =>
    cases hr
    simp [misses]
  | cons a as ih =>
    obtain ⟨u,hu,hut⟩ := (run_cons step s a as t).mp hr
    rw [ih u hut, h s a u hu, misses, hu]
    push_cast
    ring

section Exact

variable (step : σ → α → Option σ) (guard : σ → α → Prop) (Inv : σ → Prop)

/-- Where a step from an invariant state leads to one exactly when it meets
the guard, a run leads from one to the next exactly when all its steps do. -/
theorem prefixes_exact (hstep : ∀ s a, Inv s → ((∃ t, step s a = some t ∧ Inv t) ↔ guard s a))
    (as : List α) (s : σ) (hs : Inv s) :
    (∀ before after, as = before++after → ∃ t, run step s before = some t ∧ Inv t) ↔
      Along step guard s as := by
  induction as generalizing s with
  | nil =>
    refine iff_of_true ?_ trivial
    rintro before after hsplit
    obtain ⟨rfl,rfl⟩ := List.append_eq_nil_iff.mp hsplit.symm
    exact ⟨s,rfl,hs⟩
  | cons a as ih =>
    constructor
    · intro hall
      obtain ⟨u,hu,huinv⟩ := hall [a] as rfl
      have hsa : step s a = some u := by simpa [run] using hu
      rw [along_cons step guard s u a as hsa]
      refine ⟨(hstep s a hs).mp ⟨u,hsa,huinv⟩,(ih u huinv).mp ?_⟩
      intro before after hsplit
      have hnext := hall (a::before) after (by rw [hsplit, List.cons_append])
      simpa [run, hsa] using hnext
    · rintro ⟨ha,hrest⟩ before after hsplit
      obtain ⟨u,hsa,huinv⟩ := (hstep s a hs).mpr ha
      cases before with
      | nil => exact ⟨s,rfl,hs⟩
      | cons b before =>
        obtain ⟨rfl,htail⟩ := List.cons.inj hsplit
        obtain ⟨t,ht,htinv⟩ := (ih u huinv).mpr (hrest u hsa) before after htail
        exact ⟨t,(run_cons step s a before t).mpr ⟨u,hsa,ht⟩,htinv⟩

theorem prefixes_iff (hstep : ∀ s a, Inv s → ∃ t, step s a = some t ∧ (Inv t ↔ guard s a))
    (as : List α) (s : σ) (hs : Inv s) :
    (∀ before after, as = before++after → ∃ t, run step s before = some t ∧ Inv t) ↔
      Along step guard s as := by
  apply prefixes_exact step guard Inv _ as s hs
  intro s a hs
  obtain ⟨u,hu,hinv⟩ := hstep s a hs
  simpa [hu] using hinv

theorem along_labels (good : α → Prop)
    (hstep : ∀ s a, Inv s → ∃ t, step s a = some t ∧ (Inv t ↔ good a)) (as : List α) (s : σ)
    (hs : Inv s) : Along step (fun _ a => good a) s as ↔ ∀ a ∈ as, good a := by
  induction as generalizing s with
  | nil => simp [Along]
  | cons a as ih =>
    obtain ⟨u,hu,hinv⟩ := hstep s a hs
    rw [along_cons step _ s u a as hu, List.forall_mem_cons]
    exact and_congr_right (fun ha => ih u (hinv.mpr ha))

end Exact

end Flip.Runs
