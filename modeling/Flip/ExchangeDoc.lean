import Flip.JsonObject
import Flip.TickerDoc

/-!
# Documents of the exchange

One pair, and in its object only numbers and names as values. The only strings
after the first key are then the keys of the fields, each followed by its
value, so that each field is read from its own member.
-/

set_option autoImplicit false

namespace Flip.ExchangeDoc
open Flip.CLib Flip.Decimal Flip.JsonText Flip.JsonString Flip.JsonObject Flip.Json Flip.JsonNumber
open Flip.Ticker Flip.JsonDoc Flip.TickerDoc

/-- Distinct keys, among them the names of the nine fields. -/
structure ExchangeDocument where
  before : Blanks
  blanks : Blanks
  keyBefore : Blanks
  key : RawString
  colonBefore : Blanks
  colonAfter : Blanks
  innerBlanks : Blanks
  members : List PrimMember
  valueAfter : Blanks
  after : Blanks
  distinct : (members.map (fun m => m.key.name)).Nodup
  fields : ∀ f : Field, ∃ m ∈ members, m.key.text.bytes = f.key

def ExchangeDocument.pairDocument (d : ExchangeDocument) : PairDocument :=
  ⟨d.before,d.blanks,d.keyBefore,d.key,d.colonBefore,d.colonAfter,d.innerBlanks,
    ofPrims d.members,d.valueAfter,.nil,d.after⟩

theorem delimits_digit (c : Byte) (h : Delimits c) : isDigit c = false := by
  obtain h | rfl | rfl := h
  · simp only [isBlank, Bool.or_eq_true, decide_eq_true_eq] at h
    obtain ((rfl | rfl) | rfl) | rfl := h <;> rfl
  · rfl
  · rfl

theorem prims_strings (ms : List PrimMember) :
    (ofPrims ms).strings = ms.map (fun m => m.key.text.bytes) := by
  induction ms with
  | nil => rfl
  | cons m ms ih =>
    rw [ofPrims, Members.strings, ih]
    rfl

theorem prims_end (front back : List PrimMember) :
    (ofPrims (front++back)).EndsWith (ofPrims back) := by
  induction front with
  | nil => exact ends_with_self _
  | cons m front ih => exact .inr ih

theorem name_some (s : RawString) : unescape s.text.bytes = some s.name :=
  (Option.some_get s.means).symm

namespace ExchangeDocument

variable (d : ExchangeDocument)

def text : CString := d.pairDocument.text

theorem written_distinct : (d.members.map (fun m => m.key.text.bytes)).Nodup := by
  refine List.pairwise_map.mpr ((List.pairwise_map.mp d.distinct).imp ?_)
  intro m n hne hbytes
  have h := name_some m.key
  rw [hbytes, name_some n.key] at h
  exact hne (Option.some_inj.mp h).symm

def back : Buf := d.valueAfter.text++rbrace::(d.after.text++[0])

def fromValue (m : PrimMember) (back : List PrimMember) : Buf :=
  m.value.text.bytes++(m.after.text++((ofPrims back).render false++rbrace::d.back))

theorem member_unique (front back front' back' : List PrimMember) (m m' : PrimMember)
    (h : d.members = front++m::back) (h' : d.members = front'++m'::back')
    (hkey : m.key.text.bytes = m'.key.text.bytes) : m = m' ∧ back = back' := by
  have hm : m ∈ d.members := by simp [h]
  have hm' : m' ∈ d.members := by simp [h']
  obtain rfl := List.inj_on_of_nodup_map d.written_distinct hm hm' hkey
  have hnodup : d.members.Nodup := List.Nodup.of_map _ d.written_distinct
  rw [h] at hnodup h'
  have hfront : m ∉ front := fun hmem =>
    (List.nodup_append.mp hnodup).2.2 m hmem m (by simp) rfl
  have hback : m ∉ back := (List.nodup_cons.mp (List.nodup_append.mp hnodup).2.1).1
  obtain ⟨-,-,rfl⟩ := (List.append_cons_inj_of_notMem hfront hback).mp h'
  exact ⟨rfl,rfl⟩

theorem follows_own (f : Field) : ∃ token, Follows d.pairDocument f token ∧
    ∀ front m back, d.members = front++m::back → m.key.text.bytes = f.key →
      token.type = .primitive ∧ token.stop = token.start+m.value.text.bytes.length ∧
        textFrom d.text token.start = d.fromValue m back := by
  obtain ⟨m,hm,hkey⟩ := d.fields f
  obtain ⟨front,back,hmembers⟩ := List.append_of_mem hm
  have hback : f.key ∉ (ofPrims back).strings := by
    have hdistinct := d.written_distinct
    rw [hmembers, List.map_append, List.map_cons, List.nodup_append] at hdistinct
    rw [prims_strings, ← hkey]
    exact (List.nodup_cons.mp hdistinct.2.1).1
  have hends : (ofPrims d.members).EndsWith (ofPrims (m::back)) := hmembers ▸ prims_end front _
  have hown := own_member d.text f.key m.before m.key m.colonBefore m.colonAfter m.value m.after
    (ofPrims back) hkey hback (ofPrims d.members) d.pairDocument.front _ true
      d.pairDocument.text_memory hends
  obtain ⟨object,-,htokens⟩ := d.pairDocument.field_tokens_split
  obtain ⟨ts,name,value,us,hsplit,hname,hsilent,htype,hstop,htext⟩ :=
    own_value_between d.text f.key m.value _ [object] _ [] (by simp) hown
  refine ⟨value,⟨ts,name,us,htokens.trans hsplit,hname,hsilent⟩,fun front' n back' hn hnkey => ?_⟩
  obtain ⟨rfl,rfl⟩ := d.member_unique _ _ _ _ m n hmembers hn (hkey.trans hnkey.symm)
  exact ⟨htype,hstop,htext⟩

end ExchangeDocument

section Accepted

variable {D : Type} [Zero D] (strtold : Buf → D) (jsmn : Jsmn)

/-- A document of the exchange is accepted, and each field is read from the
token of its own member's value. -/
theorem parse_own (d : ExchangeDocument) (h : Tokenises jsmn d.pairDocument.document)
    (mem : BtceTicker D) :
    ∃ token : Field → JsmnTok,
      parseBtcETicker strtold d.text .good jsmn mem =
        .ok ⟨.eok,some (tickerOf strtold d.pairDocument token),true⟩ ∧
      ∀ f front m back, d.members = front++m::back → m.key.text.bytes = f.key →
        (token f).type = .primitive ∧
          (token f).stop = (token f).start+m.value.text.bytes.length ∧
            textFrom d.text (token f).start = d.fromValue m back := by
  choose token hfollows hvalues using d.follows_own
  refine ⟨token,?_,hvalues⟩
  refine (parse_document strtold jsmn d.pairDocument h mem _).mpr ⟨rfl,fun f => ?_⟩
  rw [follows_number strtold _ f _ _ (hfollows f), ticker_of_get]

theorem parse_exchange (d : ExchangeDocument) (h : Tokenises jsmn d.pairDocument.document)
    (m : PrimMember) (n : ℕ) (hm : m ∈ d.members) (hkey : m.key.text.bytes = Field.updated.key)
    (hvalue : m.value.text.bytes = decimal n) (hn : (n : ℤ) ≤ longMax) (mem : BtceTicker D) :
    ∃ t, parseBtcETicker strtold d.text .good jsmn mem = .ok ⟨.eok,some t,true⟩ ∧
      t.updated = (Int64.ofInt n).toInt32 := by
  obtain ⟨token,hparse,hvalues⟩ := parse_own strtold jsmn d h mem
  obtain ⟨front,back,hmembers⟩ := List.append_of_mem hm
  obtain ⟨htype,-,htext⟩ := hvalues .updated front m back hmembers hkey
  obtain ⟨c,tail,hafter,hc⟩ := after_delimits m.after (ofPrims back) d.back
  refine ⟨_,hparse,?_⟩
  have hint : getJsonInt d.text (token .updated) = (Int64.ofInt n).toInt32 := by
    rw [getJsonInt, htype, htext, ExchangeDocument.fromValue, hafter, hvalue,
      strtol_decimal n c tail hn (delimits_digit c hc)]
    rfl
  exact hint

theorem get_json_int_integer (json : CString) (token : JsmnTok) (b : Buf) (n : ℤ) (c : Byte)
    (tail : Buf) (htype : token.type = .primitive)
    (htext : textFrom json token.start = b++c::tail) (hc : isDigit c = false)
    (hb : IsInteger b n) (hmin : -2^31 ≤ n) (hmax : n < 2^31) :
    (getJsonInt json token).toInt = n := by
  have hstrtol : strtol (textFrom json token.start) = Int64.ofInt n := by
    rcases hb with ⟨hn,rfl⟩ | ⟨hn,rfl⟩
    · have hcast : (n.toNat : ℤ) = n := Int.toNat_of_nonneg hn
      rw [htext, strtol_decimal _ c tail (by unfold longMax; omega) hc, hcast]
    · have hcast : ((-n).toNat : ℤ) = -n := Int.toNat_of_nonneg (by omega)
      rw [htext, List.cons_append, strtol_negative _ c tail (by unfold longMin; omega) hc, hcast,
        neg_neg]
  rw [getJsonInt, htype, hstrtol]
  simp only [ne_eq, not_true_eq_false, if_false, Int64.toInt32_ofInt]
  exact Int32.toInt_ofInt_of_le hmin hmax

theorem value_prim_token (d : ExchangeDocument) (m : PrimMember) (back : List PrimMember)
    (token : JsmnTok) (htype : token.type = .primitive)
    (hstop : token.stop = token.start+m.value.text.bytes.length)
    (htext : textFrom d.text token.start = d.fromValue m back) :
    PrimToken d.text token ∧ tokenText d.text token = m.value.text.bytes := by
  obtain ⟨c,tail,htail,hc⟩ := after_delimits m.after (ofPrims back) d.back
  exact own_prim_token d.text m.value _ token c tail htail hc htype hstop htext

theorem value_number (d : ExchangeDocument) (m : PrimMember) (back : List PrimMember) (f : Field)
    (hf : f ≠ .updated) (token : JsmnTok) (htype : token.type = .primitive)
    (hstop : token.stop = token.start+m.value.text.bytes.length)
    (htext : textFrom d.text token.start = d.fromValue m back) :
    number strtold d.text f token = .double (strtold (d.fromValue m back)) ∧
      ∀ convert, strtold = JsonNumber.strtold convert →
        number strtold d.text f token = .double (strtold m.value.text.bytes) := by
  rw [Ticker.number, if_neg hf]
  constructor
  · rw [getJsonDouble, htype, if_neg (by simp)]
    exact congrArg (fun b => Num.double (strtold b)) htext
  · rintro convert rfl
    obtain ⟨hprim,hvalue⟩ := value_prim_token d m back token htype hstop htext
    exact congrArg Num.double
      ((token_double hprim convert).trans (congrArg (strtold convert) hvalue))

/-- A document of the exchange is read exactly: the pair is the first key and
each field is the conversion of the value of the member with its name. -/
theorem exchange_read_exactly (d : ExchangeDocument)
    (h : Tokenises jsmn d.pairDocument.document) (n : ℤ)
    (hupdated : ∀ m ∈ d.members, m.key.text.bytes = Field.updated.key →
      IsInteger m.value.text.bytes n)
    (hmin : -2^31 ≤ n) (hmax : n < 2^31) (mem : BtceTicker D) :
    ∃ t, parseBtcETicker strtold d.text .good jsmn mem = .ok ⟨.eok,some t,true⟩ ∧
      t.pair = d.key.text ∧ t.updated.toInt = n ∧
      ∀ f ≠ .updated, ∀ front m back, d.members = front++m::back → m.key.text.bytes = f.key →
        t.get f = .double (strtold (d.fromValue m back)) ∧
          ∀ convert, strtold = JsonNumber.strtold convert →
            t.get f = .double (strtold m.value.text.bytes) := by
  obtain ⟨token,hparse,hvalues⟩ := parse_own strtold jsmn d h mem
  refine ⟨_,hparse,rfl,?_,?_⟩
  · obtain ⟨m,hm,hkey⟩ := d.fields .updated
    obtain ⟨front,back,hmembers⟩ := List.append_of_mem hm
    obtain ⟨htype,-,htext⟩ := hvalues .updated front m back hmembers hkey
    obtain ⟨c,tail,hafter,hc⟩ := after_delimits m.after (ofPrims back) d.back
    rw [ExchangeDocument.fromValue, hafter] at htext
    exact get_json_int_integer d.text _ _ n c tail htype htext (delimits_digit c hc)
      (hupdated m hm hkey) hmin hmax
  · intro f hf front m back hmembers hkey
    obtain ⟨htype,hstop,htext⟩ := hvalues f front m back hmembers hkey
    rw [ticker_of_get]
    exact value_number strtold d m back f hf (token f) htype hstop htext

end Accepted

def sampleExchange : ExchangeDocument where
  before := noBlanks
  blanks := noBlanks
  keyBefore := noBlanks
  key := fieldRaw .high
  colonBefore := noBlanks
  colonAfter := noBlanks
  innerBlanks := noBlanks
  members := .bare (plainRaw (ascii "trades") (by decide) (by decide)) (decimalPrimitive 5)::
    Field.all.reverse.map sampleMember
  valueAfter := noBlanks
  after := noBlanks
  distinct := by decide
  fields f := ⟨_,List.mem_cons_of_mem _ (List.mem_map_of_mem (List.mem_reverse.mpr (mem_all f))),
    rfl⟩

theorem sample_read_exactly :
    ∃ t, parseBtcETicker (JsonNumber.strtold leadingDigits) sampleExchange.text .good
        (tableJsmn [sampleExchange.pairDocument.document]) (filled 0 0) =
          .ok ⟨.eok,some t,true⟩ ∧
      t.pair = sampleExchange.key.text ∧ t.updated.toInt = 8 ∧
      ∀ f ≠ .updated, ∀ front m back, sampleExchange.members = front++m::back →
        m.key.text.bytes = f.key →
          t.get f = .double (JsonNumber.strtold leadingDigits m.value.text.bytes) := by
  obtain ⟨t,hparse,hpair,hupdated,hfields⟩ := exchange_read_exactly
    (JsonNumber.strtold leadingDigits) (tableJsmn [sampleExchange.pairDocument.document])
    sampleExchange (by decide +kernel) 8 (by decide +kernel)
      (by decide) (by decide) (filled 0 0)
  exact ⟨t,hparse,hpair,hupdated,fun f hf front m back hmembers hkey =>
    (hfields f hf front m back hmembers hkey).2 leadingDigits rfl⟩

end Flip.ExchangeDoc
