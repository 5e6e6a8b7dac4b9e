import Flip.CLib

/-!
# Fetching a response body

The `string_ctx` objects live in a store of cells, because the connection
keeps its pointer to the one it allocated after a fetch has handed that
pointer to the caller. Everything libcurl decides is an input of a transfer:
how the body is cut into blocks and whether the transfer completes.
-/

set_option autoImplicit false

namespace Flip.Url
open Flip.CLib

structure Store where
  cells : ℕ → StringCtx
  next : ℕ

def Store.update (st : Store) (p : ℕ) (c : StringCtx) : Store :=
  { st with cells := Function.update st.cells p c }

/-- `writeData` is the `CURLOPT_WRITEDATA` pointer of `curl_handle`. -/
structure UrlConnCtx where
  writeData : ℕ
  string : ℕ

inductive InitCall where
  | tallocNew
  | urlConnCtx
  | string
  | easyInit
  | setUrl
  | setWriteFunction
  | setWriteData
  | setUserAgent
  deriving DecidableEq

def urlInitCtx (ok : InitCall → Bool) (st : Store) : Errno × Option UrlConnCtx × Store :=
  if !ok .tallocNew then (.enomem,none,st)
  else if !ok .urlConnCtx then (.enomem,none,st)
  else if !ok .string then (.enomem,none,st)
  else
    let st' : Store := ⟨Function.update st.cells st.next .zero,st.next+1⟩
    if !ok .easyInit then (.eio,none,st')
    else if !ok .setUrl then (.enoent,none,st')
    else if !ok .setWriteFunction then (.enoent,none,st')
    else if !ok .setWriteData then (.enoent,none,st')
    else if !ok .setUserAgent then (.enoent,none,st')
    else (.eok,some ⟨st.next,st.next⟩,st')

/-- The callback stores its block in place of the data already there. -/
def writeMemoryCallback (dup : Bool) (contents : Buf) (size nmemb : ℕ) (mem : StringCtx) :
    ℕ × StringCtx :=
  let realSize := size*nmemb
  if realSize = 0 then (0,mem)
  else if dup then
    let data := tallocStrndup contents realSize
    (realSize,⟨some data,tallocArrayLength data⟩)
  else (0,{ mem with data := none })

/-- One call of the write callback: its block, and whether `talloc_strndup`
succeeds in it. libcurl never delivers an empty block. -/
structure Delivery where
  contents : Buf
  nonempty : contents ≠ []
  dup : Bool

structure Transfer where
  tmpCtx : Bool
  blocks : List Delivery
  completes : Bool

def Transfer.body (t : Transfer) : Buf := (t.blocks.map Delivery.contents).flatten

/-- `curl_easy_perform`: the callbacks in order, up to the first one that does
not return the length of its block. -/
def curlEasyPerform : List Delivery → StringCtx → Bool × StringCtx
  | [], mem => (true,mem)
  | d::ds, mem =>
    let r := writeMemoryCallback d.dup d.contents 1 d.contents.length mem
    if r.1 = d.contents.length then curlEasyPerform ds r.2 else (false,r.2)

def urlGetData (c : UrlConnCtx) (t : Transfer) (st : Store) : Errno × Option ℕ × Store :=
  if !t.tmpCtx then (.enomem,none,st)
  else
    let r := curlEasyPerform t.blocks (st.cells c.writeData)
    let st' := st.update c.writeData r.2
    if r.1 && t.completes then (.eok,some c.string,st') else (.enoent,none,st')

def fetches (c : UrlConnCtx) (ts : List Transfer) (st : Store) : Store :=
  ts.foldl (fun st t => (urlGetData c t st).2.2) st

def Transfer.Allocates (t : Transfer) : Prop :=
  t.tmpCtx = true ∧ ∀ d ∈ t.blocks, d.dup = true

def delivered (ts : List Transfer) : List Delivery := ts.flatMap Transfer.blocks

def stored (d : Delivery) : StringCtx :=
  let data := tallocStrndup d.contents d.contents.length
  ⟨some data,tallocArrayLength data⟩

def left (mem : StringCtx) (ds : List Delivery) : StringCtx :=
  match ds.getLast? with
  | none => mem
  | some d => stored d

theorem left_append (mem : StringCtx) (ds es : List Delivery) :
    left mem (ds++es) = left (left mem ds) es := by
  cases he : es.getLast? with
  | none =>
    have hn : es = [] := List.getLast?_eq_none_iff.mp he
    simp [left, hn]
  | some e => simp [left, List.getLast?_append, he]

theorem callback_stores (d : Delivery) (mem : StringCtx) (hd : d.dup = true) :
    writeMemoryCallback d.dup d.contents 1 d.contents.length mem =
      (d.contents.length,stored d) := by
  have hl : d.contents.length ≠ 0 := by simpa using d.nonempty
  simp [writeMemoryCallback, stored, hd, hl]

/-- Only the last block of a transfer survives it. -/
theorem perform_left (ds : List Delivery) (mem : StringCtx) (hd : ∀ d ∈ ds, d.dup = true) :
    curlEasyPerform ds mem = (true,left mem ds) := by
  induction ds generalizing mem with
  | nil => rfl
  | cons d ds ih =>
    rw [curlEasyPerform, callback_stores d mem (hd d (by simp))]
    simp only [if_true]
    rw [ih _ (fun e he => hd e (by simp [he]))]
    exact congrArg _ (left_append mem [d] ds).symm

theorem get_data_cell (c : UrlConnCtx) (t : Transfer) (st : Store) (ht : t.Allocates) :
    (urlGetData c t st).2.2.cells c.writeData = left (st.cells c.writeData) t.blocks := by
  simp only [urlGetData, ht.1, perform_left t.blocks _ ht.2]
  cases t.completes <;> simp [Store.update]

theorem fetches_cell (c : UrlConnCtx) (ts : List Transfer) (st : Store)
    (ht : ∀ t ∈ ts, t.Allocates) :
    (fetches c ts st).cells c.writeData = left (st.cells c.writeData) (delivered ts) := by
  induction ts generalizing st with
  | nil => rfl
  | cons t ts ih =>
    have hc := get_data_cell c t st (ht t (by simp))
    have hr := ih (urlGetData c t st).2.2 (fun u hu => ht u (by simp [hu]))
    rw [hc, ← left_append] at hr
    exact hr

theorem skip_branch {α : Type*} {p : Prop} [Decidable p] {x y z : α}
    (h : (if p then x else y) = z) (hx : x ≠ z) : y = z := by
  by_cases hp : p
  · rw [if_pos hp] at h
    exact absurd h hx
  · rwa [if_neg hp] at h

theorem init_string (ok : InitCall → Bool) (st st0 : Store) (c : UrlConnCtx)
    (h : urlInitCtx ok st = (.eok,some c,st0)) :
    c.writeData = c.string ∧ st0.cells c.string = .zero := by
  have hfails : ∀ (ret : Errno) (st' : Store), (ret,none,st') ≠ (Errno.eok,some c,st0) := by
    intro ret st' heq
    cases heq
  rw [urlInitCtx] at h
  iterate 8 replace h := skip_branch h (hfails _ _)
  cases h
  exact ⟨rfl,Function.update_self st.next .zero st.cells⟩

def Whole (t : Transfer) (chunk : StringCtx) : Prop :=
  chunk.data.map CString.bytes = some t.body ∧ chunk.size = t.body.length+1

theorem stored_empty_iff (d : Delivery) :
    (tallocStrndup d.contents d.contents.length).bytes = [] ↔ d.contents.head? = some 0 := by
  obtain ⟨contents,hne,dup⟩ := d
  cases contents with
  | nil => exact absurd rfl hne
  | cons b bs => simp [tallocStrndup, List.takeWhile_cons]

theorem stored_whole (d : Delivery) (h : (0 : Byte) ∉ d.contents) :
    (stored d).data.map CString.bytes = some d.contents ∧
      (stored d).size = d.contents.length+1 := by
  simp [stored, tallocArrayLength, CString.strlen, strndup_whole d.contents h]

def BeginsWithNul (d : Delivery) : Prop := d.contents.head? = some 0

theorem leftover_whole_iff (earlier : List Delivery) (t : Transfer) (ht : t.blocks = []) :
    Whole t (left .zero (earlier++t.blocks)) ↔
      ∃ d, earlier.getLast? = some d ∧ BeginsWithNul d := by
  have hb : t.body = [] := by simp [Transfer.body, ht]
  rw [ht, List.append_nil, Whole, hb]
  cases he : earlier.getLast? with
  | none => simp [left, he, StringCtx.zero]
  | some d =>
    have hs := stored_empty_iff d
    simp only [left, he, stored, Option.map_some, Option.some.injEq, tallocArrayLength,
      CString.strlen, List.length_nil, exists_eq_left', BeginsWithNul]
    constructor
    · exact fun h => hs.mp h.1
    · intro h
      have hz := hs.mpr h
      exact ⟨hz,by simp [hz]⟩

theorem last_block_whole_iff (mem : StringCtx) (t : Transfer) (ds : List Delivery) (d : Delivery)
    (ht : t.blocks = ds++[d]) (hn : (0 : Byte) ∉ t.body) :
    Whole t (left mem t.blocks) ↔ ds = [] := by
  have hb : t.body = (ds.map Delivery.contents).flatten++d.contents := by
    simp [Transfer.body, ht]
  have hd : (0 : Byte) ∉ d.contents := fun h => hn (by simp [hb, h])
  have hl : left mem t.blocks = stored d := by simp [left, ht]
  have hs := stored_whole d hd
  rw [hl, Whole, hs.1, hs.2, hb]
  cases ds with
  | nil => simp
  | cons e es =>
    have he : 0 < e.contents.length := List.length_pos_iff.mpr e.nonempty
    simp only [List.map_cons, List.flatten_cons, List.length_append, reduceCtorEq, iff_false,
      not_and]
    intro _ h
    omega

/-- A completed transfer returns its own body exactly when it delivered one
block, or none after an earlier block that the copy cut to nothing. -/
theorem get_data_whole_iff (ok : InitCall → Bool) (st st0 : Store) (c : UrlConnCtx)
    (hi : urlInitCtx ok st = (.eok,some c,st0)) (earlier : List Transfer) (t : Transfer)
    (he : ∀ u ∈ earlier, u.Allocates) (ht : t.Allocates) (hc : t.completes = true)
    (hn : (0 : Byte) ∉ t.body) :
    (∃ p st', urlGetData c t (fetches c earlier st0) = (.eok,some p,st') ∧
        Whole t (st'.cells p)) ↔
      t.blocks.length = 1 ∨
        (t.blocks = [] ∧ ∃ d, (delivered earlier).getLast? = some d ∧ BeginsWithNul d) := by
  obtain ⟨hw,hz⟩ := init_string ok st st0 c hi
  have hm := fetches_cell c earlier st0 he
  rw [hw, hz] at hm
  have hp := perform_left t.blocks (left .zero (delivered earlier)) ht.2
  have hr : (∃ p st', urlGetData c t (fetches c earlier st0) = (.eok,some p,st') ∧
      Whole t (st'.cells p)) ↔ Whole t (left .zero (delivered earlier++t.blocks)) := by
    simp [urlGetData, ht.1, hw, hm, hp, hc, left_append, Store.update]
  rw [hr]
  rcases List.eq_nil_or_concat t.blocks with hb | ⟨ds,d,hb⟩
  · rw [leftover_whole_iff _ t hb]
    simp [hb]
  · rw [left_append, last_block_whole_iff _ t ds d (by simpa using hb) hn]
    simp [hb]

def emptyStore : Store := ⟨fun _ => .zero,0⟩

def openedStore : Store := (urlInitCtx (fun _ => true) emptyStore).2.2

def oneBlock : Transfer := ⟨true,[⟨ascii "ab",by decide,true⟩],true⟩

def twoBlocks : Transfer :=
  ⟨true,[⟨ascii "a",by decide,true⟩,⟨ascii "b",by decide,true⟩],true⟩

theorem one_block_allocates : oneBlock.Allocates := by simp [Transfer.Allocates, oneBlock]

theorem two_blocks_allocates : twoBlocks.Allocates := by simp [Transfer.Allocates, twoBlocks]

theorem one_block_after_two :
    ∃ p st', urlGetData ⟨0,0⟩ oneBlock (fetches ⟨0,0⟩ [twoBlocks] openedStore) =
      (.eok,some p,st') ∧ Whole oneBlock (st'.cells p) :=
  (get_data_whole_iff (fun _ => true) emptyStore openedStore ⟨0,0⟩ rfl [twoBlocks] oneBlock
    (by simpa using two_blocks_allocates) one_block_allocates rfl (by decide)).mpr (.inl rfl)

theorem two_blocks_lose_the_first :
    urlInitCtx (fun _ => true) emptyStore = (.eok,some ⟨0,0⟩,openedStore) ∧
      twoBlocks.Allocates ∧ twoBlocks.completes = true ∧ (0 : Byte) ∉ twoBlocks.body ∧
      ∃ st', urlGetData ⟨0,0⟩ twoBlocks openedStore = (.eok,some 0,st') ∧
        (st'.cells 0).data.map CString.bytes = some (ascii "b") ∧
        ¬Whole twoBlocks (st'.cells 0) :=
  ⟨rfl,two_blocks_allocates,rfl,by decide,_,rfl,by decide,by unfold Whole; decide⟩

end Flip.Url
