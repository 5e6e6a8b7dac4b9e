import Flip.Runs
import Flip.Url

/-!
# What becomes of fetched chunks

A run notes each chunk with the contents it had when it was returned. The
connection has one `string_ctx`, so the first chunk stays as it is only while
every later call fails and leaves in the object what is there.
-/

set_option autoImplicit false

namespace Flip.UrlChunks
open Flip.CLib Flip.Runs Flip.Url

/-- The store, and each chunk handed out with what it read at that moment. -/
structure Handed where
  store : Store
  chunks : List (ℕ × StringCtx)

def fetch (c : UrlConnCtx) (s : Handed) (t : Transfer) : Option Handed :=
  let result := urlGetData c t s.store
  let returned := result.2.1.map (fun p => (p,result.2.2.cells p))
  some ⟨result.2.2,returned.toList++s.chunks⟩

structure Intact (s : Handed) : Prop where
  unchanged : ∀ chunk ∈ s.chunks, s.store.cells chunk.1 = chunk.2
  distinct : (s.chunks.map Prod.fst).Nodup

def Stable (c : UrlConnCtx) (st : Store) (ts : List Transfer) : Prop :=
  ∀ before after, ts = before++after →
    ∃ s, run (fetch c) ⟨st,[]⟩ before = some s ∧ Intact s

/-- The transfer fails, and the copy of its last block, if there is one, is what
the object holds; or a copy fails where there is no string, and the one before
it, if there is one, has the size that is there. -/
def Spares (m : StringCtx) (t : Transfer) : Prop :=
  ((∀ d ∈ t.blocks, d.dup = true) ∧ t.completes = false ∧
      ∀ d ∈ t.blocks.getLast?, stored d = m) ∨
    ((∃ d ∈ t.blocks, d.dup = false) ∧ m.data = none ∧
      ∀ d ∈ (t.blocks.takeWhile Delivery.dup).getLast?, (stored d).size = m.size)

instance (m : StringCtx) (t : Transfer) : Decidable (Spares m t) :=
  inferInstanceAs (Decidable (_ ∧ _ ∨ _ ∧ _))

def Apart (c : UrlConnCtx) (s : Handed) (t : Transfer) : Prop :=
  s.chunks = [] ∨ t.tmpCtx = false ∨ Spares (s.store.cells c.string) t

instance (c : UrlConnCtx) (s : Handed) (t : Transfer) : Decidable (Apart c s t) :=
  inferInstanceAs (Decidable (_ ∨ _ ∨ _))

theorem left_eq_iff (m : StringCtx) (ds : List Delivery) :
    left m ds = m ↔ ∀ d ∈ ds.getLast?, stored d = m := by
  cases h : ds.getLast? <;> simp [left, h]

theorem left_size_iff (m : StringCtx) (ds : List Delivery) :
    (left m ds).size = m.size ↔ ∀ d ∈ ds.getLast?, (stored d).size = m.size := by
  cases h : ds.getLast? <;> simp [left, h]

theorem perform_breaks (ds : List Delivery) (mem : StringCtx) (h : ∃ d ∈ ds, d.dup = false) :
    curlEasyPerform ds mem =
      (false,{ left mem (ds.takeWhile Delivery.dup) with data := none }) := by
  induction ds generalizing mem with
  | nil => simp at h
  | cons d ds ih =>
    cases hd : d.dup with
    | false =>
      have hlength : d.contents.length ≠ 0 := by simpa using d.nonempty
      simp [curlEasyPerform, writeMemoryCallback, left, hd, hlength, hlength.symm]
    | true =>
      have hrest : ∃ e ∈ ds, e.dup = false := by simpa [hd] using h
      rw [curlEasyPerform, callback_stores d mem hd]
      simp only [if_true]
      rw [ih _ hrest, List.takeWhile_cons_of_pos hd, ← List.singleton_append,
        left_append mem [d]]
      rfl

structure Held (c : UrlConnCtx) (s : Handed) : Prop where
  intact : Intact s
  cells : ∀ chunk ∈ s.chunks, chunk.1 = c.string

theorem get_data_outcome (c : UrlConnCtx) (hc : c.writeData = c.string) (t : Transfer)
    (st : Store) (htmp : t.tmpCtx = true) :
    ∃ ok m, urlGetData c t st =
        (if ok then .eok else .enoent,if ok then some c.string else none,st.update c.string m) ∧
      (Spares (st.cells c.string) t ↔ ok = false ∧ m = st.cells c.string) := by
  by_cases hdup : ∀ d ∈ t.blocks, d.dup = true
  · have hnone : ¬∃ d ∈ t.blocks, d.dup = false := by simpa using hdup
    refine ⟨t.completes,left (st.cells c.string) t.blocks,?_,?_⟩
    · cases hcompletes : t.completes <;>
        simp [urlGetData, htmp, hc, perform_left _ _ hdup, hcompletes]
    · rw [Spares, and_iff_right hdup, or_iff_left (fun h => hnone h.1), ← left_eq_iff]
  · have hsome : ∃ d ∈ t.blocks, d.dup = false := by simpa using hdup
    refine ⟨false,_,by simp [urlGetData, htmp, hc, perform_breaks _ _ hsome]; rfl,?_⟩
    simp only [Spares, hdup, hsome, false_and, true_and, false_or, ← left_size_iff]
    cases hm : st.cells c.string
    simp [eq_comm]

theorem fetch_held (c : UrlConnCtx) (hc : c.writeData = c.string) (s : Handed) (t : Transfer)
    (h : Held c s) : ∃ s', fetch c s t = some s' ∧ (Held c s' ↔ Apart c s t) := by
  refine ⟨_,rfl,?_⟩
  cases htmp : t.tmpCtx with
  | false =>
    have hsame : urlGetData c t s.store = (.enomem,none,s.store) := by simp [urlGetData, htmp]
    rw [hsame]
    exact iff_of_true h (.inr (.inl htmp))
  | true =>
    obtain ⟨ok,m,hget,hspares⟩ := get_data_outcome c hc t s.store htmp
    rw [hget]
    obtain ⟨st,chunks⟩ := s
    cases chunks with
    | nil =>
      refine iff_of_true ?_ (.inl rfl)
      cases ok <;> exact ⟨⟨by simp,by simp⟩,by simp⟩
    | cons chunk rest =>
      have hcell : chunk.1 = c.string := h.cells chunk (by simp)
      have hread : st.cells c.string = chunk.2 := hcell ▸ h.intact.unchanged chunk (by simp)
      have hapart : Apart c ⟨st,chunk::rest⟩ t ↔ ok = false ∧ m = st.cells c.string := by
        simp [Apart, htmp, hspares]
      rw [hapart]
      constructor
      · intro hheld
        cases ok with
        | true =>
          have hdistinct := hheld.intact.distinct
          simp [hcell] at hdistinct
        | false =>
          have hunchanged := hheld.intact.unchanged chunk (by simp)
          exact ⟨rfl,by simpa [Store.update, hcell, hread] using hunchanged⟩
      · rintro ⟨rfl,rfl⟩
        have hsame : st.update c.string (st.cells c.string) = st := by simp [Store.update]
        simpa [hsame] using h

theorem fetch_cells (c : UrlConnCtx) (s : Handed) (t : Transfer) (s' : Handed)
    (h : ∀ chunk ∈ s.chunks, chunk.1 = c.string) (hstep : fetch c s t = some s') :
    ∀ chunk ∈ s'.chunks, chunk.1 = c.string := by
  have hreturned : ∀ p, (urlGetData c t s.store).2.1 = some p → p = c.string := by
    intro p hp
    simp only [urlGetData] at hp
    split_ifs at hp
    cases hp
    rfl
  cases hstep
  intro chunk hchunk
  rcases List.mem_append.mp hchunk with hnew | hold
  · obtain ⟨p,hp,rfl⟩ := Option.map_eq_some_iff.mp (Option.mem_toList.mp hnew)
    exact hreturned p hp
  · exact h chunk hold

/-- In a run from a fresh connection all chunks are intact after every call
exactly when each call either comes before the first chunk or leaves it alone. -/
theorem fetches_intact_iff (ok : InitCall → Bool) (st st0 : Store) (c : UrlConnCtx)
    (hinit : urlInitCtx ok st = (.eok,some c,st0)) (ts : List Transfer) :
    Stable c st0 ts ↔ Along (fetch c) (Apart c) ⟨st0,[]⟩ ts := by
  have hc := (init_string ok st st0 c hinit).1
  have hstart : Held c ⟨st0,[]⟩ := ⟨⟨by simp,by simp⟩,by simp⟩
  have hcells : ∀ before s, run (fetch c) ⟨st0,[]⟩ before = some s →
      ∀ chunk ∈ s.chunks, chunk.1 = c.string := fun before s hrun =>
    run_invariant (fetch c) (fun _ _ => True) (fun s => ∀ chunk ∈ s.chunks, chunk.1 = c.string)
      (fun s t s' h _ hstep => fetch_cells c s t s' h hstep) before ⟨st0,[]⟩ s hstart.cells
      (along_always (fetch c) ⟨st0,[]⟩ before) hrun
  rw [← prefixes_iff (fetch c) (Apart c) (Held c) (fetch_held c hc) ts ⟨st0,[]⟩ hstart]
  constructor
  · intro h before after hsplit
    obtain ⟨s,hrun,hs⟩ := h before after hsplit
    exact ⟨s,hrun,hs,hcells before s hrun⟩
  · intro h before after hsplit
    obtain ⟨s,hrun,hs⟩ := h before after hsplit
    exact ⟨s,hrun,hs.intact⟩

def noAnswer : Transfer := ⟨true,[],false⟩

def brokenOff : Transfer := ⟨true,[⟨ascii "c",by decide,true⟩],false⟩

theorem failures_around_one_success :
    Stable ⟨0,0⟩ openedStore [brokenOff,oneBlock,noAnswer] :=
  (fetches_intact_iff (fun _ => true) emptyStore openedStore ⟨0,0⟩ rfl
    [brokenOff,oneBlock,noAnswer]).mpr (by decide)

def stateAfter (ts : List Transfer) : Handed :=
  ((run (fetch ⟨0,0⟩) ⟨openedStore,[]⟩ ts).getD ⟨openedStore,[]⟩)

/-- A second success hands the same object out again with other contents, and
a call that breaks off overwrites it as well. -/
theorem chunk_overwritten :
    urlInitCtx (fun _ => true) emptyStore = (.eok,some ⟨0,0⟩,openedStore) ∧
      (stateAfter [oneBlock,twoBlocks]).chunks =
        [(0,stored ⟨ascii "b",by decide,true⟩),(0,stored ⟨ascii "ab",by decide,true⟩)] ∧
      ¬Stable ⟨0,0⟩ openedStore [oneBlock,twoBlocks] ∧
      (stateAfter [oneBlock,brokenOff]).chunks = [(0,stored ⟨ascii "ab",by decide,true⟩)] ∧
      ¬Stable ⟨0,0⟩ openedStore [oneBlock,brokenOff] := by
  have hsecond : (stateAfter [oneBlock,twoBlocks]).chunks =
      [(0,stored ⟨ascii "b",by decide,true⟩),(0,stored ⟨ascii "ab",by decide,true⟩)] := by decide
  have hbroken : (stateAfter [oneBlock,brokenOff]).chunks =
      [(0,stored ⟨ascii "ab",by decide,true⟩)] := by decide
  refine ⟨rfl,hsecond,fun h => ?_,hbroken,fun h => ?_⟩
  · obtain ⟨s,hrun,hs⟩ := h [oneBlock,twoBlocks] [] rfl
    obtain rfl : stateAfter [oneBlock,twoBlocks] = s := Option.some_inj.mp hrun
    have hdistinct := hs.distinct
    rw [hsecond] at hdistinct
    exact absurd hdistinct (by decide)
  · obtain ⟨s,hrun,hs⟩ := h [oneBlock,brokenOff] [] rfl
    obtain rfl : stateAfter [oneBlock,brokenOff] = s := Option.some_inj.mp hrun
    have hunchanged := hs.unchanged (0,stored ⟨ascii "ab",by decide,true⟩) (by rw [hbroken]; simp)
    exact absurd hunchanged (by decide)

end Flip.UrlChunks
