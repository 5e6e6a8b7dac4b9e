import Flip.JsonObject
import Flip.Ticker

/-!
# Documents and their tokens

A document is a tree with the layout it is written in, so that every
well-formed text is the text of a tree. The tokens are listed in the order of
the text with the offsets at which they stand.
-/

set_option autoImplicit false

namespace Flip.JsonDoc
open Flip.CLib Flip.Decimal Flip.Utf8 Flip.JsonText Flip.JsonString Flip.JsonObject Flip.Json

structure Blanks where
  text : Buf
  blank : ∀ c ∈ text, isBlank c = true

structure RawString where
  text : CString
  closed : rawString (text.bytes++[quote]) = some (text.bytes,[])
  means : (unescape text.bytes).isSome
  utf8 : Valid text.bytes

/-- The string that is written so. -/
def RawString.name (s : RawString) : Buf := (unescape s.text.bytes).get s.means

def IsPrimitive (b : Buf) : Prop :=
  b = ascii "true" ∨ b = ascii "false" ∨ b = ascii "null" ∨ ∃ v, number b = some (v,[])

structure Primitive where
  text : CString
  primitive : IsPrimitive text.bytes

mutual

inductive Value where
  | prim (p : Primitive)
  | str (s : RawString)
  | arr (blanks : Blanks) (items : Items)
  | obj (blanks : Blanks) (members : Members)

inductive Items where
  | nil
  | cons (before : Blanks) (v : Value) (after : Blanks) (rest : Items)

inductive Members where
  | nil
  | cons (before : Blanks) (key : RawString) (colonBefore colonAfter : Blanks) (v : Value)
      (after : Blanks) (rest : Members)

end

def separator (first : Bool) : Buf := if first then [] else [comma]

def keyText (first : Bool) (before : Blanks) (key : RawString) (colonBefore colonAfter : Blanks) :
    Buf :=
  separator first++before.text++quote::(key.text.bytes++quote::(colonBefore.text++
    colon::colonAfter.text))

mutual

def Value.render : Value → Buf
  | .prim p => p.text.bytes
  | .str s => quote::(s.text.bytes++[quote])
  | .arr blanks items => lbracket::(blanks.text++(items.render true++[rbracket]))
  | .obj blanks members => lbrace::(blanks.text++(members.render true++[rbrace]))

def Items.render (first : Bool) : Items → Buf
  | .nil => []
  | .cons before v after rest =>
    separator first++before.text++v.render++after.text++rest.render false

def Members.render (first : Bool) : Members → Buf
  | .nil => []
  | .cons before key colonBefore colonAfter v after rest =>
    keyText first before key colonBefore colonAfter++v.render++after.text++rest.render false

end

def keyToken (off : ℕ) (first : Bool) (before : Blanks) (key : RawString) : JsmnTok :=
  let start := off+(separator first).length+before.text.length+1
  ⟨.string,start,start+key.text.bytes.length⟩

mutual

/-- The tokens of a value that starts at this offset. -/
def Value.tokens (off : ℕ) : Value → List JsmnTok
  | .prim p => [⟨.primitive,off,off+p.text.bytes.length⟩]
  | .str s => [⟨.string,off+1,off+1+s.text.bytes.length⟩]
  | .arr blanks items =>
    ⟨.array,off,off+(Value.arr blanks items).render.length⟩::
      items.tokens (off+1+blanks.text.length) true
  | .obj blanks members =>
    ⟨.object,off,off+(Value.obj blanks members).render.length⟩::
      members.tokens (off+1+blanks.text.length) true

def Items.tokens (off : ℕ) (first : Bool) : Items → List JsmnTok
  | .nil => []
  | .cons before v after rest =>
    let start := off+(separator first).length+before.text.length
    v.tokens start++rest.tokens (start+v.render.length+after.text.length) false

def Members.tokens (off : ℕ) (first : Bool) : Members → List JsmnTok
  | .nil => []
  | .cons before key colonBefore colonAfter v after rest =>
    let start := off+(keyText first before key colonBefore colonAfter).length
    keyToken off first before key::
      (v.tokens start++rest.tokens (start+v.render.length+after.text.length) false)

end

theorem blanks_nul_free (b : Blanks) : (0 : Byte) ∉ b.text :=
  fun h => absurd (b.blank 0 h) (by decide)

theorem separator_nul_free (first : Bool) : (0 : Byte) ∉ separator first := by
  cases first <;> decide

theorem key_text_nul_free (first : Bool) (before : Blanks) (key : RawString)
    (colonBefore colonAfter : Blanks) :
    (0 : Byte) ∉ keyText first before key colonBefore colonAfter := by
  have hq : (0 : Byte) ≠ quote := by decide
  have hc : (0 : Byte) ≠ colon := by decide
  simp [keyText, separator_nul_free, blanks_nul_free, key.text.nulFree, hq, hc]

mutual

theorem value_nul_free : (v : Value) → (0 : Byte) ∉ v.render
  | .prim p => p.text.nulFree
  | .str s => by
    have hq : (0 : Byte) ≠ quote := by decide
    simp [Value.render, s.text.nulFree, hq]
  | .arr blanks items => by
    have hl : (0 : Byte) ≠ lbracket := by decide
    have hr : (0 : Byte) ≠ rbracket := by decide
    simp [Value.render, blanks_nul_free, items_nul_free items true, hl, hr]
  | .obj blanks members => by
    have hl : (0 : Byte) ≠ lbrace := by decide
    have hr : (0 : Byte) ≠ rbrace := by decide
    simp [Value.render, blanks_nul_free, members_nul_free members true, hl, hr]

theorem items_nul_free : (items : Items) → (first : Bool) → (0 : Byte) ∉ items.render first
  | .nil, _ => by simp [Items.render]
  | .cons before v after rest, first => by
    simp [Items.render, separator_nul_free, blanks_nul_free, value_nul_free v,
      items_nul_free rest false]

theorem members_nul_free : (members : Members) → (first : Bool) →
    (0 : Byte) ∉ members.render first
  | .nil, _ => by simp [Members.render]
  | .cons before key colonBefore colonAfter v after rest, first => by
    simp [Members.render, key_text_nul_free, blanks_nul_free, value_nul_free v,
      members_nul_free rest false]

end

def Members.names : Members → List Buf
  | .nil => []
  | .cons _ key _ _ _ _ rest => key.name::rest.names

def Members.Has (name : Buf) (p : Primitive) : Members → Prop
  | .nil => False
  | .cons _ key _ _ v _ rest => (key.name = name ∧ v = .prim p) ∨ rest.Has name p

mutual

def Value.Distinct : Value → Prop
  | .prim _ => True
  | .str _ => True
  | .arr _ items => items.Distinct
  | .obj _ members => members.names.Nodup ∧ members.Distinct

def Items.Distinct : Items → Prop
  | .nil => True
  | .cons _ v _ rest => v.Distinct ∧ rest.Distinct

def Members.Distinct : Members → Prop
  | .nil => True
  | .cons _ _ _ _ v _ rest => v.Distinct ∧ rest.Distinct

end

structure Document where
  before : Blanks
  value : Value
  after : Blanks

def Document.text (d : Document) : CString :=
  ⟨d.before.text++d.value.render++d.after.text,
    by simp [blanks_nul_free, value_nul_free d.value]⟩

def Document.tokens (d : Document) : List JsmnTok := d.value.tokens d.before.text.length

/-- Both passes of the tokenizer see the tokens of the document. -/
def Tokenises (jsmn : Jsmn) (d : Document) : Prop :=
  jsmn.count d.text.bytes = d.tokens.length ∧
    jsmn.parse d.text.bytes d.tokens.length = ((d.tokens.length : ℤ),d.tokens)

instance (jsmn : Jsmn) (d : Document) : Decidable (Tokenises jsmn d) :=
  inferInstanceAs (Decidable (_ ∧ _))

/-- The token is the range of the text that holds these bytes. -/
def Spans (json : CString) (token : JsmnTok) (bytes : Buf) : Prop :=
  token.stop = token.start+bytes.length ∧ ∃ rest, textFrom json token.start = bytes++rest

theorem spans_key (json : CString) (token : JsmnTok) (bytes key : Buf)
    (ht : token.type = .string) (h : Spans json token bytes) :
    equalJsonKey json token key = true ↔ bytes = key := by
  obtain ⟨hstop,rest,htext⟩ := h
  simp only [equalJsonKey, ht, htext, hstop, decide_true, Bool.true_and, Bool.and_eq_true,
    decide_eq_true_eq, Nat.cast_add, add_sub_cancel_left, Nat.cast_inj]
  constructor
  · rintro ⟨hlen,htake⟩
    rw [hlen, List.take_left] at htake
    exact htake
  · rintro rfl
    exact ⟨rfl,List.take_left⟩

theorem spans_strndup (json s : CString) (token : JsmnTok) (h : Spans json token s.bytes) :
    tallocStrndup (textFrom json token.start) (token.stop-token.start) = s := by
  obtain ⟨hstop,rest,htext⟩ := h
  have := strndup_whole s.bytes s.nulFree
  apply CString.ext
  rw [hstop, htext, Nat.add_sub_cancel_left]
  simpa [tallocStrndup] using this

structure PrimMember where
  before : Blanks
  key : RawString
  colonBefore : Blanks
  colonAfter : Blanks
  value : Primitive
  after : Blanks

def ofPrims : List PrimMember → Members
  | [] => .nil
  | m::ms => .cons m.before m.key m.colonBefore m.colonAfter (.prim m.value) m.after (ofPrims ms)

theorem of_prims_names (ms : List PrimMember) :
    (ofPrims ms).names = ms.map (fun m => m.key.name) := by
  induction ms with
  | nil => rfl
  | cons m ms ih => rw [ofPrims, Members.names, ih, List.map_cons]

theorem of_prims_distinct (ms : List PrimMember) : (ofPrims ms).Distinct := by
  induction ms with
  | nil => trivial
  | cons m ms ih => exact ⟨trivial,ih⟩

theorem of_prims_has (ms : List PrimMember) (m : PrimMember) (hm : m ∈ ms) :
    (ofPrims ms).Has m.key.name m.value := by
  induction ms with
  | nil => cases hm
  | cons n ms ih =>
    rcases List.mem_cons.mp hm with rfl | hm
    · exact .inl ⟨rfl,rfl⟩
    · exact .inr (ih hm)

def noBlanks : Blanks := ⟨[],by simp⟩

def PrimMember.bare (key : RawString) (value : Primitive) : PrimMember :=
  ⟨noBlanks,key,noBlanks,noBlanks,value,noBlanks⟩

def plainRaw (b : Buf) (h : Plain b) (ha : AllAscii b) : RawString where
  text := ⟨b,fun h0 => absurd (h 0 h0).1 (by decide)⟩
  closed := raw_string_plain b [] h
  means := by simp [unescape, unescape_n_plain _ _ le_rfl h]
  utf8 := by
    have := valid_ascii_append b [] ha
    rw [List.append_nil] at this
    exact this.mpr valid_nil

theorem plain_raw_name (b : Buf) (h : Plain b) (ha : AllAscii b) :
    (plainRaw b h ha).name = b := by
  simp [RawString.name, plainRaw, unescape, unescape_n_plain _ b le_rfl h]

def decimalPrimitive (n : ℕ) : Primitive where
  text := ⟨decimal n,fun h => absurd (decimal_digits n 0 h) (by decide)⟩
  primitive := by
    have h := number_decimal n [] (by simp)
    rw [List.append_nil] at h
    exact .inr (.inr (.inr ⟨_,h⟩))

def tableJsmn (ds : List Document) : Jsmn where
  count text := ((ds.find? (fun d => d.text.bytes = text)).map
    (fun d => (d.tokens.length : ℤ))).getD jsmnErrorInval
  parse text _ := ((ds.find? (fun d => d.text.bytes = text)).map
    (fun d => ((d.tokens.length : ℤ),d.tokens))).getD (jsmnErrorInval,[])

end Flip.JsonDoc
