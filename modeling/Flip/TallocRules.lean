import Flip.Talloc

/-!
# Pre- and postconditions over owned memory

A triple says that a program that starts in memory of one kind touches no
chunk that is gone and ends in memory of the other kind. The assertions say
which chunks there are, in whatever order, and a chunk is freed together with
those that are shown to be its own.
-/

set_option autoImplicit false

namespace Flip.Talloc

variable {α β : Type}

def Has (cs : List Chunk) (h : Heap) : Prop := h.chunks.Perm cs

def Triple (P : Heap → Prop) (x : Mem α) (Q : α → Heap → Prop) : Prop :=
  ∀ h, P h → ∃ a h', x h = some (a,h') ∧ Q a h'

/-- The chunks that `root` owns, each in front of its owner, and `root`. -/
def Subtree (root : Chunk) : List Chunk → Prop
  | [] => False
  | c::cs => cs = [] ∧ c = root ∨ (∃ q ∈ ids cs, c.owner = some q) ∧ Subtree root cs

def Apart (ds es : List Chunk) : Prop := ∀ c ∈ es, ∀ q ∈ ids ds, c.owner ≠ some q

def SelfOwned (cs : List Chunk) : Prop := ∀ c ∈ cs, Live c.owner cs

/-- Every owner is there, and no name twice. -/
structure Closed (cs : List Chunk) : Prop where
  live : SelfOwned cs
  nodup : (ids cs).Nodup

theorem rooted_closed (cs : List Chunk) (hr : Rooted cs) : Closed cs := by
  refine ⟨fun c hc q hq => rooted_owner cs hr c q hc hq,?_⟩
  induction cs with
  | nil => exact List.nodup_nil
  | cons c cs ih => exact List.nodup_cons.mpr ⟨hr.1,ih hr.2.2⟩

theorem ids_append (cs ds : List Chunk) : ids (cs++ds) = ids cs++ids ds := List.map_append

theorem ids_perm (cs ds : List Chunk) (h : cs.Perm ds) : (ids cs).Perm (ids ds) := h.map Chunk.id

theorem closed_perm (cs ds : List Chunk) (h : cs.Perm ds) (hc : Closed cs) : Closed ds := by
  refine ⟨fun c hin q hq => ?_,((ids_perm cs ds h).nodup_iff).mp hc.nodup⟩
  exact (ids_perm cs ds h).mem_iff.mp (hc.live c (h.mem_iff.mpr hin) q hq)

theorem has_closed (cs : List Chunk) (h : Heap) (hh : Has cs h) : Closed cs :=
  closed_perm h.chunks cs hh (rooted_closed h.chunks h.rooted)

theorem self_owned_cons (c : Chunk) (cs : List Chunk) (hc : Live c.owner cs) (hcs : SelfOwned cs) :
    SelfOwned (c::cs) := by
  intro d hd q hq
  rcases List.mem_cons.mp hd with rfl | hd
  · exact List.mem_cons_of_mem _ (hc q hq)
  · exact List.mem_cons_of_mem _ (hcs d hd q hq)

theorem self_owned_append (cs ds : List Chunk) (hcs : SelfOwned cs) (hds : SelfOwned ds) :
    SelfOwned (cs++ds) := by
  intro c hc q hq
  rw [ids_append]
  rcases List.mem_append.mp hc with hc | hc
  · exact List.mem_append_left _ (hcs c hc q hq)
  · exact List.mem_append_right _ (hds c hc q hq)

theorem closed_root (cs : List Chunk) (i : ℕ) (hcs : Closed cs) (hi : i ∉ ids cs) :
    Closed (⟨i,none⟩::cs) :=
  ⟨self_owned_cons _ _ (fun q hq => by cases hq) hcs.live,List.nodup_cons.mpr ⟨hi,hcs.nodup⟩⟩

theorem live_perm (owner : Option ℕ) (cs ds : List Chunk) (h : cs.Perm ds) (hl : Live owner ds) :
    Live owner cs :=
  fun q hq => (ids_perm cs ds h).mem_iff.mpr (hl q hq)

theorem live_left (owner : Option ℕ) (ds cs : List Chunk) (hlive : Live owner ds) :
    Live owner (ds++cs) := by
  intro q hq
  rw [ids_append]
  exact List.mem_append_left _ (hlive q hq)

theorem live_some (q : ℕ) (cs : List Chunk) (hq : q ∈ ids cs) : Live (some q) cs := by
  intro r hr
  cases hr
  exact hq

section Subtrees

variable (root : Chunk) (cs ds es : List Chunk)

theorem subtree_root (hs : Subtree root ds) : root ∈ ds := by
  induction ds with
  | nil => cases hs
  | cons c ds ih =>
    rcases hs with ⟨-,hc⟩ | ⟨-,hs⟩
    · rw [← hc]
      exact List.mem_cons_self
    · exact List.mem_cons_of_mem _ (ih hs)

theorem subtree_mem (hs : Subtree root ds) : root.id ∈ ids ds :=
  List.mem_map_of_mem (subtree_root root ds hs)

theorem subtree_single : Subtree root [root] := .inl ⟨rfl,rfl⟩

theorem subtree_cons (c : Chunk) (q : ℕ) (hq : q ∈ ids ds) (howner : c.owner = some q)
    (hs : Subtree root ds) : Subtree root (c::ds) :=
  .inr ⟨⟨q,hq,howner⟩,hs⟩

theorem subtree_append (p q : ℕ) (hs : Subtree ⟨p,some q⟩ ds) (hq : q ∈ ids es)
    (hes : Subtree root es) : Subtree root (ds++es) := by
  induction ds with
  | nil => cases hs
  | cons c ds ih =>
    rcases hs with ⟨rfl,rfl⟩ | ⟨⟨r,hr,howner⟩,hs⟩
    · exact subtree_cons root es _ q hq rfl hes
    · have hin : r ∈ ids (ds++es) := by
        rw [ids_append]
        exact List.mem_append_left _ hr
      exact subtree_cons root (ds++es) c r hin howner (ih hs)

theorem subtree_owner (hs : Subtree root ds) (c : Chunk) (hc : c ∈ ds) :
    c = root ∨ ∃ q ∈ ids ds, c.owner = some q := by
  induction ds with
  | nil => cases hc
  | cons d ds ih =>
    rcases hs with ⟨rfl,hd⟩ | ⟨⟨q,hq,howner⟩,hs⟩
    · exact .inl ((List.mem_singleton.mp hc).trans hd)
    · rcases List.mem_cons.mp hc with rfl | hc
      · exact .inr ⟨q,List.mem_cons_of_mem _ hq,howner⟩
      · rcases ih hs hc with hroot | ⟨q,hq,howner⟩
        · exact .inl hroot
        · exact .inr ⟨q,List.mem_cons_of_mem _ hq,howner⟩

theorem self_owned_subtree (p : ℕ) (owner : Option ℕ) (hs : Subtree ⟨p,owner⟩ ds)
    (hlive : Live owner cs) (hcs : SelfOwned cs) : SelfOwned (ds++cs) := by
  intro c hc q hq
  rw [ids_append]
  rcases List.mem_append.mp hc with hc | hc
  · rcases subtree_owner ⟨p,owner⟩ ds hs c hc with rfl | ⟨r,hr,howner⟩
    · exact List.mem_append_right _ (hlive q hq)
    · rw [howner] at hq
      cases hq
      exact List.mem_append_left _ hr
  · exact List.mem_append_right _ (hcs c hc q hq)

theorem subtree_owns (hs : Subtree root ds) (hin : ∀ c ∈ ds, c ∈ cs) :
    ∀ i ∈ ids ds, Owns cs root.id i := by
  induction ds with
  | nil => cases hs
  | cons c ds ih =>
    have hds : Subtree root ds → ∀ i ∈ ids ds, Owns cs root.id i :=
      fun hs => ih hs (fun d hd => hin d (List.mem_cons_of_mem _ hd))
    intro i hi
    rcases hs with ⟨rfl,rfl⟩ | ⟨⟨q,hq,howner⟩,hs⟩
    · obtain rfl : i = c.id := by simpa [ids] using hi
      exact .self (List.mem_map_of_mem (hin c List.mem_cons_self))
    · rcases List.mem_cons.mp hi with rfl | hi
      · exact .child c q (hin c List.mem_cons_self) howner (hds hs q hq)
      · exact hds hs i hi

theorem owns_subtree (hs : Subtree root ds) (ha : Apart ds es) (hcs : ∀ c ∈ cs, c ∈ ds++es)
    (i : ℕ) (h : Owns cs root.id i) : i ∈ ids ds := by
  induction h with
  | self h => exact subtree_mem root ds hs
  | child c q hc howner _ ih =>
    rcases List.mem_append.mp (hcs c hc) with hin | hin
    · exact List.mem_map_of_mem hin
    · exact absurd howner (ha c hin q ih)

theorem without_perm (hr : Rooted cs) (hperm : cs.Perm (ds++es)) (hs : Subtree root ds)
    (ha : Apart ds es) : (without root.id cs).Perm es := by
  have hnodup := (closed_perm cs _ hperm (rooted_closed cs hr)).nodup
  rw [ids_append, List.nodup_append] at hnodup
  have hds : ds.filter (·.id ∉ owned root.id cs) = [] := by
    apply List.filter_eq_nil_iff.mpr
    intro c hc
    have howns := subtree_owns root cs ds hs
      (fun d hd => hperm.mem_iff.mpr (List.mem_append_left _ hd)) c.id (List.mem_map_of_mem hc)
    simpa using (mem_owned_iff root.id cs hr c.id).mpr howns
  have hes : es.filter (·.id ∉ owned root.id cs) = es := by
    apply List.filter_eq_self.mpr
    intro c hc
    have hnot : c.id ∉ owned root.id cs := by
      intro hin
      have howns := (mem_owned_iff root.id cs hr c.id).mp hin
      have hmem := owns_subtree root cs ds es hs ha (fun d hd => hperm.mem_iff.mp hd) c.id howns
      exact hnodup.2.2 c.id hmem c.id (List.mem_map_of_mem hc) rfl
    simpa using hnot
  have hfilter := hperm.filter (fun c : Chunk => decide (c.id ∉ owned root.id cs))
  rw [List.filter_append, hds, hes] at hfilter
  exact hfilter

theorem reown_root (p : ℕ) (owner owner' : Option ℕ) : reown p owner ⟨p,owner'⟩ = ⟨p,owner⟩ :=
  if_pos rfl

theorem map_reown_absent (p : ℕ) (owner : Option ℕ) (h : p ∉ ids cs) :
    cs.map (reown p owner) = cs := by
  rw [List.map_congr_left, List.map_id]
  intro c hc
  exact if_neg (fun heq : c.id = p => h (heq ▸ List.mem_map_of_mem hc))

theorem moved_perm (p : ℕ) (owner : Option ℕ) (hp : p ∈ ids cs) :
    (moved p owner cs).Perm (cs.map (reown p owner)) := by
  have hkeep : (without p cs).map (reown p owner) = without p cs := by
    apply map_reown_absent
    exact fun hin => (ids_without p cs p hin).2 (owned_self p cs hp)
  have hsplit : (taken p cs++without p cs).Perm cs := by
    have hfilter := List.filter_append_perm (fun c : Chunk => decide (c.id ∈ owned p cs)) cs
    simpa [taken, without] using hfilter
  have hmap := hsplit.map (reown p owner)
  rwa [List.map_append, hkeep] at hmap

theorem subtree_reown (owner : Option ℕ) (hnodup : (ids ds).Nodup) (hs : Subtree root ds) :
    Subtree ⟨root.id,owner⟩ (ds.map (reown root.id owner)) := by
  induction ds with
  | nil => cases hs
  | cons c ds ih =>
    have hparts := List.nodup_cons.mp hnodup
    rcases hs with ⟨rfl,rfl⟩ | ⟨⟨q,hq,howner⟩,hs⟩
    · exact .inl ⟨rfl,if_pos rfl⟩
    · have hne : c.id ≠ root.id :=
        fun heq => hparts.1 (heq ▸ subtree_mem root ds hs)
      rw [List.map_cons, show reown root.id owner c = c from if_neg hne]
      refine subtree_cons _ _ c q ?_ howner (ih hparts.2 hs)
      rw [ids_reown]
      exact hq

end Subtrees

theorem triple_pure (P : Heap → Prop) (a : α) (Q : α → Heap → Prop) (hq : ∀ h, P h → Q a h) :
    Triple P (pure a) Q :=
  fun h hp => ⟨a,h,rfl,hq h hp⟩

theorem bind_run (x : Mem α) (f : α → Mem β) (h h' : Heap) (a : α) (hx : x h = some (a,h')) :
    (x >>= f) h = f a h' := by
  change (x h).bind (fun p => f p.1 p.2) = _
  rw [hx]
  rfl

theorem triple_bind (P : Heap → Prop) (x : Mem α) (R : α → Heap → Prop) (f : α → Mem β)
    (Q : β → Heap → Prop) (hx : Triple P x R) (hf : ∀ a, Triple (R a) (f a) Q) :
    Triple P (x >>= f) Q := by
  intro h hp
  obtain ⟨a,h',hrun,hr⟩ := hx h hp
  rw [bind_run x f h h' a hrun]
  exact hf a h' hr

theorem triple_mono (P P' : Heap → Prop) (x : Mem α) (Q Q' : α → Heap → Prop)
    (hx : Triple P x Q) (hp : ∀ h, P' h → P h) (hq : ∀ a h, Q a h → Q' a h) :
    Triple P' x Q' := by
  intro h hh
  obtain ⟨a,h',hrun,ha⟩ := hx h (hp h hh)
  exact ⟨a,h',hrun,hq a h' ha⟩

theorem triple_closed (cs : List Chunk) (x : Mem α) (Q : α → Heap → Prop)
    (hx : Closed cs → Triple (Has cs) x Q) : Triple (Has cs) x Q :=
  fun h hh => hx (has_closed cs h hh) h hh

theorem triple_perm (cs ds : List Chunk) (x : Mem α) (Q : α → Heap → Prop) (hperm : cs.Perm ds)
    (hx : Triple (Has ds) x Q) : Triple (Has cs) x Q :=
  triple_mono _ _ x Q Q hx (fun _ hh => hh.trans hperm) (fun _ _ hq => hq)

section Calls

variable (cs ds es : List Chunk) (owner : Option ℕ) (Q : β → Heap → Prop)

theorem triple_talloc (f : ℕ → Mem β) (hlive : Live owner cs)
    (hf : ∀ i, i ∉ ids cs → Triple (Has (⟨i,owner⟩::cs)) (f i) Q) :
    Triple (Has cs) (talloc owner >>= f) Q := by
  intro h hh
  have hl : Live owner h.chunks := live_perm owner _ _ hh hlive
  have hrun : talloc owner h = some (h.next,h.push owner hl) := dif_pos hl
  have hfresh : h.next ∉ ids cs := by
    intro hin
    exact Nat.lt_irrefl _ (h.fresh _ ((ids_perm _ _ hh).mem_iff.mpr hin))
  rw [bind_run _ f _ _ _ hrun]
  exact hf h.next hfresh (h.push owner hl) (hh.cons _)

variable (root : Chunk)

theorem root_live (h : Heap) (hh : Has (ds++es) h) (hs : Subtree root ds) :
    root.id ∈ ids h.chunks := by
  rw [(ids_perm _ _ hh).mem_iff, ids_append]
  exact List.mem_append_left _ (subtree_mem root ds hs)

theorem triple_free (f : Unit → Mem β) (hs : Subtree root ds) (ha : Apart ds es)
    (hf : Triple (Has es) (f ()) Q) : Triple (Has (ds++es)) (tallocFree root.id >>= f) Q := by
  intro h hh
  have hrun : tallocFree root.id h = some ((),h.free root.id) :=
    if_pos (root_live ds es root h hh hs)
  rw [bind_run _ f _ _ _ hrun]
  exact hf (h.free root.id) (without_perm root h.chunks ds es h.rooted hh hs ha)

theorem triple_free_pure (b : β) (hs : Subtree root ds) (ha : Apart ds es)
    (hq : ∀ h, Has es h → Q b h) :
    Triple (Has (ds++es)) (tallocFree root.id >>= fun _ => pure b) Q :=
  triple_free ds es Q root _ hs ha (triple_pure _ _ _ hq)

theorem triple_steal (f : Unit → Mem β) (hs : Subtree root ds) (ha : Apart ds es)
    (hlive : Live owner es)
    (hf : Subtree ⟨root.id,owner⟩ (ds.map (reown root.id owner)) →
      Triple (Has (ds.map (reown root.id owner)++es)) (f ()) Q) :
    Triple (Has (ds++es)) (tallocSteal root.id owner >>= f) Q := by
  intro h hh
  have hin := root_live ds es root h hh hs
  have hl : Live owner (without root.id h.chunks) :=
    live_perm owner _ es (without_perm root h.chunks ds es h.rooted hh hs ha) hlive
  have hrun : tallocSteal root.id owner h = some ((),h.steal root.id owner hl) :=
    dif_pos ⟨hin,hl⟩
  have hnodup := (has_closed _ h hh).nodup
  rw [ids_append, List.nodup_append] at hnodup
  have hes : es.map (reown root.id owner) = es := by
    apply map_reown_absent
    exact fun hmem => hnodup.2.2 root.id (subtree_mem root ds hs) root.id hmem rfl
  have hmoved := (moved_perm h.chunks root.id owner hin).trans (hh.map (reown root.id owner))
  rw [List.map_append, hes] at hmoved
  rw [bind_run _ f _ _ _ hrun]
  exact hf (subtree_reown root ds owner hnodup.1 hs) (h.steal root.id owner hl) hmoved

end Calls

def tryTalloc (ok : Bool) (owner : ℕ) : Mem (Option ℕ) :=
  if ok then some <$> talloc (some owner) else pure none

theorem triple_try_talloc (ok : Bool) (owner : ℕ) (cs : List Chunk) (f : Option ℕ → Mem β)
    (Q : β → Heap → Prop) (hlive : Live (some owner) cs)
    (hnone : ok = false → Triple (Has cs) (f none) Q)
    (hsome : ok = true → ∀ i, i ∉ ids cs → Triple (Has (⟨i,some owner⟩::cs)) (f (some i)) Q) :
    Triple (Has cs) (tryTalloc ok owner >>= f) Q := by
  cases ok with
  | false => exact hnone rfl
  | true =>
    rw [tryTalloc, if_pos rfl, bind_map_left]
    exact triple_talloc cs (some owner) Q _ hlive (hsome rfl)

/-- A temporary chunk around a program, freed on every way out of it. -/
def withTmpCtx (ok : Bool) (failed : α) (body : ℕ → Mem α) : Mem α :=
  if ok then do
    let tmpCtx ← talloc none
    let a ← body tmpCtx
    tallocFree tmpCtx
    pure a
  else pure failed

/-- Besides these chunks there is the result with what it owns, if there is one. -/
def Tidy (owner : Option ℕ) (cs : List Chunk) (result : Option ℕ) (h : Heap) : Prop :=
  match result with
  | none => Has cs h
  | some p => ∃ new, Subtree ⟨p,owner⟩ new ∧ Has (new++cs) h

def InTmpCtx (t : ℕ) (owner : Option ℕ) (cs : List Chunk) (result : Option ℕ) (h : Heap) : Prop :=
  ∃ ds, Subtree ⟨t,none⟩ ds ∧
    match result with
    | none => Has (ds++cs) h
    | some p => ∃ new, Subtree ⟨p,owner⟩ new ∧ Has (ds++(new++cs)) h

section Temporary

variable (owner : Option ℕ) (cs ds new : List Chunk) (p : ℕ)

theorem nodup_parts (h : Closed (ds++(new++cs))) :
    (ids new).Nodup ∧ ∀ q ∈ ids ds, q ∉ ids new ∧ q ∉ ids cs := by
  have hnodup := h.nodup
  simp only [ids_append, List.nodup_append] at hnodup
  obtain ⟨-,⟨hnew,-,-⟩,hapart⟩ := hnodup
  refine ⟨hnew,fun q hq => ⟨fun hin => ?_,fun hin => ?_⟩⟩
  · exact hapart q hq q (List.mem_append_left _ hin) rfl
  · exact hapart q hq q (List.mem_append_right _ hin) rfl

theorem apart_old (hcs : SelfOwned cs) (hds : ∀ q ∈ ids ds, q ∉ ids cs) : Apart ds cs :=
  fun c hc q hq howner => hds q hq (hcs c hc q howner)

theorem apart_rest (hcs : SelfOwned cs) (hall : Closed (ds++cs)) : Apart ds cs :=
  apart_old cs ds hcs (fun q hq => ((nodup_parts cs ds [] hall).2 q hq).2)

theorem apart_subtree (hs : Subtree ⟨p,owner⟩ new) (hnew : ∀ q ∈ ids ds, q ∉ ids new)
    (howner : ∀ q ∈ ids ds, owner ≠ some q) : Apart ds new := by
  intro c hc q hq hc'
  rcases subtree_owner _ new hs c hc with rfl | ⟨r,hr,hr'⟩
  · exact howner q hq hc'
  · rw [hc'] at hr'
    cases hr'
    exact hnew q hq hr

theorem apart_append (xs ys : List Chunk) (hx : Apart ds xs) (hy : Apart ds ys) :
    Apart ds (xs++ys) := by
  intro c hc
  rcases List.mem_append.mp hc with hc | hc
  · exact hx c hc
  · exact hy c hc

theorem apart_kept (hcs : Closed cs) (hlive : Live owner cs) (hnew : Subtree ⟨p,owner⟩ new)
    (hall : Closed (ds++(new++cs))) : Apart ds (new++cs) := by
  obtain ⟨-,hparts⟩ := nodup_parts cs ds new hall
  apply apart_append ds new cs
  · apply apart_subtree owner ds new p hnew (fun q hq => (hparts q hq).1)
    exact fun q hq howner => (hparts q hq).2 (hlive q howner)
  · exact apart_old cs ds hcs.live (fun q hq => (hparts q hq).2)

/-- What is below the temporary chunk goes with it, and the rest is kept. -/
theorem triple_tmp_ctx (ok : Bool) (failed : α) (body : ℕ → Mem α) (R : α → List Chunk → Prop)
    (hfailed : ok = false → R failed cs)
    (hbody : ok = true → Closed cs → ∀ t, t ∉ ids cs → Triple (Has (⟨t,none⟩::cs)) (body t)
      (fun a h => ∃ ds kept, Subtree ⟨t,none⟩ ds ∧ Apart ds kept ∧ Has (ds++kept) h ∧ R a kept)) :
    Triple (Has cs) (withTmpCtx ok failed body) (fun a h => ∃ kept, Has kept h ∧ R a kept) := by
  cases ok with
  | false => exact triple_pure _ _ _ (fun h hh => ⟨cs,hh,hfailed rfl⟩)
  | true =>
    apply triple_closed
    intro hclosed
    apply triple_talloc cs none _ _ (fun q hq => by cases hq)
    intro t ht
    apply triple_bind _ _ _ _ _ (hbody rfl hclosed t ht)
    intro a h ⟨ds,kept,hs,hapart,hh,hr⟩
    exact triple_free_pure ds kept _ ⟨t,none⟩ a hs hapart (fun h hh => ⟨kept,hh,hr⟩) h hh

theorem triple_with_tmp_ctx (ok : Bool) (failed : α) (body : ℕ → Mem α) (result : α → Option ℕ)
    (φ : α → Prop) (hlive : Live owner cs) (hfailed : ok = false → φ failed ∧ result failed = none)
    (hbody : ok = true → ∀ t, t ∉ ids cs → Triple (Has (⟨t,none⟩::cs)) (body t)
      (fun a h => φ a ∧ InTmpCtx t owner cs (result a) h)) :
    Triple (Has cs) (withTmpCtx ok failed body) (fun a h => φ a ∧ Tidy owner cs (result a) h) := by
  have hkept := triple_tmp_ctx cs ok failed body
    (fun a kept => φ a ∧ match result a with
      | none => kept = cs
      | some p => ∃ new, Subtree ⟨p,owner⟩ new ∧ kept = new++cs) ?_ ?_
  · apply triple_mono _ _ _ _ _ hkept (fun _ hh => hh)
    intro a h ⟨kept,hh,hφ,hr⟩
    refine ⟨hφ,?_⟩
    cases ha : result a with
    | none =>
      rw [ha] at hr
      exact hr ▸ hh
    | some p =>
      rw [ha] at hr
      obtain ⟨new,hnew,rfl⟩ := hr
      exact ⟨new,hnew,hh⟩
  · intro hok
    obtain ⟨hφ,hnone⟩ := hfailed hok
    refine ⟨hφ,?_⟩
    rw [hnone]
  · intro hok hclosed t ht
    apply triple_mono _ _ _ _ _ (hbody hok t ht) (fun _ hh => hh)
    intro a h ⟨hφ,ds,hs,hr⟩
    cases ha : result a with
    | none =>
      rw [ha] at hr
      exact ⟨ds,cs,hs,apart_rest cs ds hclosed.live (has_closed _ h hr),hr,hφ,rfl⟩
    | some p =>
      rw [ha] at hr
      obtain ⟨new,hnew,hh⟩ := hr
      have hapart := apart_kept owner cs ds new p hclosed hlive hnew (has_closed _ h hh)
      exact ⟨ds,new++cs,hs,hapart,hh,hφ,new,hnew,rfl⟩

theorem apart_given (t : ℕ) (hcs : Closed cs) (hs : Subtree ⟨t,none⟩ ds)
    (hall : Closed (new++(ds++cs))) : Apart new (ds++cs) := by
  obtain ⟨-,hparts⟩ := nodup_parts cs new ds hall
  apply apart_append new ds cs
  · exact apart_subtree none new ds t hs (fun q hq => (hparts q hq).1) (fun _ _ h => by cases h)
  · exact apart_old cs new hcs.live (fun q hq => (hparts q hq).2)

theorem live_append (hlive : Live owner cs) : Live owner (ds++cs) := by
  intro q hq
  rw [ids_append]
  exact List.mem_append_right _ (hlive q hq)

theorem triple_give (t : ℕ) (b : β) (Q : β → Heap → Prop) (hcs : Closed cs) (hlive : Live owner cs)
    (hnew : Subtree ⟨p,some t⟩ new) (hs : Subtree ⟨t,none⟩ ds)
    (hq : ∀ h, InTmpCtx t owner cs (some p) h → Q b h) :
    Triple (Has (new++(ds++cs))) (tallocSteal p owner >>= fun _ => pure b) Q := by
  apply triple_closed
  intro hall
  apply triple_steal new (ds++cs) owner Q ⟨p,some t⟩ _ hnew
    (apart_given cs ds new t hcs hs hall) (live_append owner cs ds hlive)
  intro hnew'
  apply triple_pure
  intro h hh
  apply hq
  refine ⟨ds,hs,_,hnew',hh.trans ?_⟩
  rw [← List.append_assoc, ← List.append_assoc]
  exact List.perm_append_comm.append_right cs

theorem triple_fail (t : ℕ) (b : β) (Q : β → Heap → Prop) (hs : Subtree ⟨t,none⟩ ds)
    (hq : ∀ h, InTmpCtx t owner cs none h → Q b h) : Triple (Has (ds++cs)) (pure b) Q :=
  triple_pure _ _ _ (fun h hh => hq h ⟨ds,hs,hh⟩)

theorem tidy_below (root : Chunk) (q : ℕ) (result : Option ℕ) (h : Heap) (hq : q ∈ ids ds)
    (hs : Subtree root ds) (hh : Tidy (some q) (new++(ds++cs)) result h) :
    ∃ ds', Subtree root ds' ∧ ids ds ⊆ ids ds' ∧ Has (new++(ds'++cs)) h := by
  cases result with
  | none => exact ⟨ds,hs,fun _ hi => hi,hh⟩
  | some p =>
    obtain ⟨below,hbelow,hh⟩ := hh
    have hin : ids ds ⊆ ids (below++ds) := by
      rw [ids_append]
      exact List.subset_append_right _ _
    refine ⟨below++ds,subtree_append root below ds p q hbelow hq hs,hin,hh.trans ?_⟩
    have hswap : (below++new++(ds++cs)).Perm (new++below++(ds++cs)) :=
      List.perm_append_comm.append_right (ds++cs)
    simpa only [List.append_assoc] using hswap

/-- Freeing a result gives the memory back as it was. -/
theorem triple_free_made (f : Unit → Mem β) (Q : β → Heap → Prop) (hs : Subtree ⟨p,owner⟩ new)
    (hcs : SelfOwned cs) (hf : Triple (Has cs) (f ()) Q) :
    Triple (Has (new++cs)) (tallocFree p >>= f) Q := by
  apply triple_closed
  intro hall
  exact triple_free new cs _ ⟨p,owner⟩ _ hs (apart_rest cs new hcs hall) hf

end Temporary

/-- What the program allocates and does not free again is below the root. -/
def Grows (root : Chunk) (x : Mem α) (φ : α → Prop) : Prop :=
  ∀ ms base, Subtree root ms → Triple (Has (ms++base)) x
    (fun a h => φ a ∧ ∃ ms', Subtree root ms' ∧ ids ms ⊆ ids ms' ∧ Has (ms'++base) h)

section Growing

variable (root : Chunk) (φ : α → Prop) (ψ : β → Prop)

theorem grows_pure (a : α) (h : φ a) : Grows root (pure a) φ :=
  fun ms _ hs => triple_pure _ _ _ (fun _ hh => ⟨h,ms,hs,fun _ hi => hi,hh⟩)

theorem grows_bind (x : Mem α) (f : α → Mem β) (hx : Grows root x φ)
    (hf : ∀ a, φ a → Grows root (f a) ψ) : Grows root (x >>= f) ψ := by
  intro ms base hs
  apply triple_bind _ _ _ _ _ (hx ms base hs)
  intro a h ⟨ha,ms',hs',hsub,hh⟩
  apply triple_mono _ _ _ _ _ (hf a ha ms' base hs') (fun _ hh => hh) _ h hh
  exact fun b h ⟨hb,ms'',hs'',hsub',hh⟩ => ⟨hb,ms'',hs'',fun i hi => hsub' (hsub hi),hh⟩

theorem grows_tidy (x : Mem α) (result : α → Option ℕ)
    (hx : ∀ cs, Live (some root.id) cs →
      Triple (Has cs) x (fun a h => φ a ∧ Tidy (some root.id) cs (result a) h)) :
    Grows root x φ := by
  intro ms base hs
  have hin := subtree_mem root ms hs
  apply triple_mono _ _ _ _ _ (hx (ms++base) (live_left _ ms base (live_some _ ms hin)))
    (fun _ hh => hh)
  intro a h ⟨ha,hh⟩
  obtain ⟨ms',hs',hsub,hh⟩ := tidy_below base ms [] root root.id (result a) h hin hs hh
  exact ⟨ha,ms',hs',hsub,hh⟩

theorem grows_try_talloc (ok : Bool) :
    Grows root (tryTalloc ok root.id) (fun r => r.isSome = ok) := by
  intro ms base hs
  have hin := subtree_mem root ms hs
  rw [← bind_pure (tryTalloc ok root.id)]
  apply triple_try_talloc _ _ _ _ _ (live_left _ ms base (live_some _ ms hin))
  · exact fun hok => triple_pure _ _ _ (fun h hh => ⟨hok.symm,ms,hs,fun _ hi => hi,hh⟩)
  · exact fun hok i _ => triple_pure _ _ _ (fun h hh =>
      ⟨hok.symm,_,subtree_cons root ms ⟨i,some root.id⟩ root.id hin rfl hs,
        fun _ hi => List.mem_cons_of_mem _ hi,hh⟩)

end Growing

end Flip.Talloc
