import Flip.JsonDoc
import Flip.JsonNumber

/-!
# Which tokens spell a string

The tokens of a document that spell a string are those of the strings written
in it, keys and values alike. A primitive is delimited as the tokenizer does
it, whatever stands around it.
-/

set_option autoImplicit false

namespace Flip.JsonDoc
open Flip.CLib Flip.Decimal Flip.JsonText Flip.JsonReading Flip.Json Flip.JsonNumber

mutual

def Value.strings : Value → List Buf
  | .prim _ => []
  | .str s => [s.text.bytes]
  | .arr _ items => items.strings
  | .obj _ members => members.strings

def Items.strings : Items → List Buf
  | .nil => []
  | .cons _ v _ rest => v.strings++rest.strings

def Members.strings : Members → List Buf
  | .nil => []
  | .cons _ key _ _ v _ rest => key.text.bytes::(v.strings++rest.strings)

end

/-- Some key is written like this, and neither is any string of the members
after it nor one of these later ones. -/
def Members.LastOwn (name : Buf) (later : List Buf) : Members → Prop
  | .nil => False
  | .cons _ key _ _ v _ rest =>
    (key.text.bytes = name ∧ name ∉ v.strings++(rest.strings++later)) ∨ rest.LastOwn name later

instance decidableLastOwn (name : Buf) (later : List Buf) :
    (members : Members) → Decidable (members.LastOwn name later)
  | .nil => inferInstanceAs (Decidable False)
  | .cons _ _ _ _ _ _ rest =>
    have := decidableLastOwn name later rest
    inferInstanceAs (Decidable (_ ∨ _))

def Members.EndsWith : Members → Members → Prop
  | .nil, back => back = .nil
  | .cons before key colonBefore colonAfter v after rest, back =>
    back = .cons before key colonBefore colonAfter v after rest ∨ rest.EndsWith back

theorem ends_with_self (members : Members) : members.EndsWith members := by
  cases members with
  | nil => rfl
  | cons => exact .inl rfl

section Silent

variable (json : CString) (name : Buf)

theorem key_token_spans (pre rest : Buf) (first : Bool) (before : Blanks) (key : RawString)
    (colonBefore colonAfter : Blanks)
    (h : json.memory = pre++(keyText first before key colonBefore colonAfter++rest)) :
    Spans json (keyToken pre.length first before key) key.text.bytes := by
  refine ⟨rfl,?_⟩
  have hstart : (keyToken pre.length first before key).start =
      (pre++(separator first++(before.text++[quote]))).length := by
    simp [keyToken]
    omega
  have htext : ∃ tail, json.memory =
      (pre++(separator first++(before.text++[quote])))++(key.text.bytes++tail) :=
    ⟨_,by rw [h]; simp [keyText]; rfl⟩
  obtain ⟨tail,htail⟩ := htext
  exact ⟨tail,by rw [textFrom, hstart, htail, List.drop_left]⟩

theorem string_token_spans (pre rest : Buf) (s : RawString)
    (h : json.memory = pre++((Value.str s).render++rest)) :
    Spans json ⟨.string,pre.length+1,pre.length+1+s.text.bytes.length⟩ s.text.bytes := by
  refine ⟨rfl,quote::rest,?_⟩
  have htext : json.memory = (pre++[quote])++(s.text.bytes++quote::rest) := by
    rw [h]
    simp [Value.render]
  have hstart : pre.length+1 = (pre++[quote]).length := by simp
  rw [textFrom, htext, hstart, List.drop_left]

theorem spans_other (token : JsmnTok) (bytes : Buf) (ht : token.type = .string)
    (h : Spans json token bytes) (hne : name ≠ bytes) : equalJsonKey json token name = false := by
  rw [← Bool.not_eq_true, spans_key json token bytes name ht h]
  exact hne.symm

mutual

theorem value_silent : (v : Value) → (pre post : Buf) → json.memory = pre++(v.render++post) →
    name ∉ v.strings → ∀ t ∈ v.tokens pre.length, equalJsonKey json t name = false
  | .prim p, pre, post, _, _ => by simp [Value.tokens, equalJsonKey]
  | .str s, pre, post, h, hname => by
    simp only [Value.tokens, List.mem_singleton, forall_eq]
    exact spans_other json name _ _ rfl (string_token_spans json pre post s h)
      (by simpa [Value.strings] using hname)
  | .arr blanks items, pre, post, h, hname => by
    have htext : json.memory =
        (pre++lbracket::blanks.text)++(items.render true++(rbracket::post)) := by
      rw [h]
      simp [Value.render]
    have hitems := items_silent items (pre++lbracket::blanks.text) (rbracket::post) true htext
      hname
    have hlength : (pre++lbracket::blanks.text).length = pre.length+1+blanks.text.length := by
      simp
      omega
    rw [hlength] at hitems
    simpa [Value.tokens, equalJsonKey] using hitems
  | .obj blanks members, pre, post, h, hname => by
    have htext : json.memory =
        (pre++lbrace::blanks.text)++(members.render true++(rbrace::post)) := by
      rw [h]
      simp [Value.render]
    have hmembers := members_silent members (pre++lbrace::blanks.text) (rbrace::post) true htext
      hname
    have hlength : (pre++lbrace::blanks.text).length = pre.length+1+blanks.text.length := by
      simp
      omega
    rw [hlength] at hmembers
    simpa [Value.tokens, equalJsonKey] using hmembers

theorem items_silent : (items : Items) → (pre post : Buf) → (first : Bool) →
    json.memory = pre++(items.render first++post) → name ∉ items.strings →
      ∀ t ∈ items.tokens pre.length first, equalJsonKey json t name = false
  | .nil, _, _, _, _, _ => by simp [Items.tokens]
  | .cons before v after rest, pre, post, first, h, hname => by
    rw [Items.strings, List.mem_append, not_or] at hname
    have hv := value_silent v (pre++(separator first++before.text))
      (after.text++(rest.render false++post)) (by rw [h]; simp [Items.render]) hname.1
    have hrest := items_silent rest
      (pre++(separator first++(before.text++(v.render++after.text)))) post false
        (by rw [h]; simp [Items.render]) hname.2
    have hstart : (pre++(separator first++before.text)).length =
        pre.length+(separator first).length+before.text.length := by
      simp
      omega
    have hnext : (pre++(separator first++(before.text++(v.render++after.text)))).length =
        pre.length+(separator first).length+before.text.length+v.render.length+
          after.text.length := by
      simp
      omega
    rw [hstart] at hv
    rw [hnext] at hrest
    intro t ht
    rw [Items.tokens] at ht
    rcases List.mem_append.mp ht with ht | ht
    · exact hv t ht
    · exact hrest t ht

theorem members_silent : (members : Members) → (pre post : Buf) → (first : Bool) →
    json.memory = pre++(members.render first++post) → name ∉ members.strings →
      ∀ t ∈ members.tokens pre.length first, equalJsonKey json t name = false
  | .nil, _, _, _, _, _ => by simp [Members.tokens]
  | .cons before key colonBefore colonAfter v after rest, pre, post, first, h, hname => by
    rw [Members.strings, List.mem_cons, List.mem_append, not_or, not_or] at hname
    have hkey := spans_other json name _ _ rfl (key_token_spans json pre
      (v.render++(after.text++(rest.render false++post))) first before key colonBefore colonAfter
        (by rw [h]; simp [Members.render])) hname.1
    have hv := value_silent v (pre++keyText first before key colonBefore colonAfter)
      (after.text++(rest.render false++post)) (by rw [h]; simp [Members.render]) hname.2.1
    have hrest := members_silent rest
      (pre++(keyText first before key colonBefore colonAfter++(v.render++after.text))) post false
        (by rw [h]; simp [Members.render]) hname.2.2
    have hstart : (pre++keyText first before key colonBefore colonAfter).length =
        pre.length+(keyText first before key colonBefore colonAfter).length := by simp
    have hnext :
        (pre++(keyText first before key colonBefore colonAfter++(v.render++after.text))).length =
          pre.length+(keyText first before key colonBefore colonAfter).length+v.render.length+
            after.text.length := by
      simp
      omega
    rw [hstart] at hv
    rw [hnext] at hrest
    intro t ht
    rw [Members.tokens] at ht
    rcases List.mem_cons.mp ht with rfl | ht
    · exact hkey
    rcases List.mem_append.mp ht with ht | ht
    · exact hv t ht
    · exact hrest t ht

end

end Silent

def Delimits (c : Byte) : Prop := isBlank c = true ∨ c = comma ∨ c = rbrace

theorem delimits_delimiter (c : Byte) (h : Delimits c) : isDelimiter c = true := by
  rcases h with h | rfl | rfl
  · simp only [isBlank, Bool.or_eq_true, decide_eq_true_eq] at h
    rcases h with ((rfl | rfl) | rfl) | rfl <;> rfl
  · rfl
  · rfl

theorem after_delimits (after : Blanks) (back : Members) (post : Buf) :
    ∃ c tail, after.text++(back.render false++rbrace::post) = c::tail ∧ Delimits c := by
  cases hb : after.text with
  | cons c b => exact ⟨c,_,rfl,.inl (after.blank c (by simp [hb]))⟩
  | nil =>
    cases back with
    | nil => exact ⟨rbrace,post,rfl,.inr (.inr rfl)⟩
    | cons => exact ⟨comma,_,rfl,.inr (.inl rfl)⟩

def inside (c : Byte) : Bool := !isDelimiter c && 32 ≤ c && c < 127

theorem inside_iff (c : Byte) : inside c = true ↔ isDelimiter c = false ∧ 32 ≤ c ∧ c < 127 := by
  simp [inside, and_assoc]

theorem number_byte_inside (c : Byte) (h : NumberByte c) : inside c = true := by
  have hmem : c ∈ digitChars++ascii "+-.eE" := by
    rw [List.mem_append, digit_chars_iff]
    exact h
  have hall : (digitChars++ascii "+-.eE").all inside = true := by decide
  exact List.all_eq_true.mp hall c hmem

theorem literals_inside :
    [ascii "true",ascii "false",ascii "null"].all (fun b => b ≠ [] ∧ b.all inside) = true := by
  decide

theorem primitive_bytes (p : Primitive) : p.text.bytes ≠ [] ∧
    ∀ c ∈ p.text.bytes, isDelimiter c = false ∧ 32 ≤ c ∧ c < 127 := by
  have hinside : p.text.bytes ≠ [] ∧ p.text.bytes.all inside = true := by
    rcases p.primitive with h | h | h | ⟨v,h⟩
    · simpa using List.all_eq_true.mp literals_inside _ (by simp [h])
    · simpa using List.all_eq_true.mp literals_inside _ (by simp [h])
    · simpa using List.all_eq_true.mp literals_inside _ (by simp [h])
    · constructor
      · intro hnil
        rw [hnil] at h
        cases h
      · obtain ⟨front,hfront,hall⟩ := takes_number _ _ _ h
        rw [List.append_nil] at hfront
        exact List.all_eq_true.mpr (fun c hc => number_byte_inside c (hall c (hfront ▸ hc)))
  exact ⟨hinside.1,fun c hc => (inside_iff c).mp (List.all_eq_true.mp hinside.2 c hc)⟩

section Own

variable (json : CString) (name : Buf)

/-- The last token that spells the name has this primitive after it, and this
is the text behind the primitive. -/
def OwnValue (p : Primitive) (tail : Buf) (tokens : List JsmnTok) : Prop :=
  ∃ front key value back, tokens = front++key::value::back ∧
    equalJsonKey json key name = true ∧
    (∀ t ∈ value::back, equalJsonKey json t name = false) ∧
    value.type = .primitive ∧ value.stop = value.start+p.text.bytes.length ∧
    textFrom json value.start = p.text.bytes++tail

theorem own_value_between (p : Primitive) (tail : Buf) (front tokens back : List JsmnTok)
    (hback : ∀ t ∈ back, equalJsonKey json t name = false) (h : OwnValue json name p tail tokens) :
    OwnValue json name p tail (front++(tokens++back)) := by
  obtain ⟨ts,key,value,us,rfl,hkey,hsilent,hvalue⟩ := h
  refine ⟨front++ts,key,value,us++back,by simp,hkey,fun t ht => ?_,hvalue⟩
  rw [← List.cons_append] at ht
  rcases List.mem_append.mp ht with ht | ht
  · exact hsilent t ht
  · exact hback t ht

theorem own_first (pre post : Buf) (first : Bool) (before : Blanks) (key : RawString)
    (colonBefore colonAfter : Blanks) (p : Primitive) (after : Blanks) (back : Members)
    (h : json.memory = pre++((Members.cons before key colonBefore colonAfter (.prim p) after
      back).render first++post))
    (hkey : key.text.bytes = name) (hback : name ∉ back.strings) :
    OwnValue json name p (after.text++(back.render false++post))
      ((Members.cons before key colonBefore colonAfter (.prim p) after back).tokens pre.length
        first) := by
  have hspans := key_token_spans json pre (p.text.bytes++(after.text++(back.render false++post)))
    first before key colonBefore colonAfter (by rw [h]; simp [Members.render, Value.render])
  have htext : json.memory = (pre++keyText first before key colonBefore colonAfter)++
      (p.text.bytes++(after.text++(back.render false++post))) := by
    rw [h]
    simp [Members.render, Value.render]
  have hsilent := members_silent json name back
    (pre++(keyText first before key colonBefore colonAfter++(p.text.bytes++after.text))) post false
      (by rw [htext]; simp) hback
  have hnext :
      (pre++(keyText first before key colonBefore colonAfter++(p.text.bytes++after.text))).length =
        pre.length+(keyText first before key colonBefore colonAfter).length+
          (Value.prim p).render.length+after.text.length := by
    simp [Value.render]
    omega
  rw [hnext] at hsilent
  refine ⟨[],_,_,_,rfl,(spans_key json _ _ name rfl hspans).mpr hkey,fun t ht => ?_,rfl,rfl,?_⟩
  · rcases List.mem_cons.mp ht with rfl | ht
    · rfl
    · exact hsilent t ht
  · rw [textFrom, htext, ← List.length_append, List.drop_left]

theorem own_member (before : Blanks) (key : RawString) (colonBefore colonAfter : Blanks)
    (p : Primitive) (after : Blanks) (back : Members) (hkey : key.text.bytes = name)
    (hback : name ∉ back.strings) : (members : Members) → (pre post : Buf) → (first : Bool) →
      json.memory = pre++(members.render first++post) →
      members.EndsWith (.cons before key colonBefore colonAfter (.prim p) after back) →
      OwnValue json name p (after.text++(back.render false++post))
        (members.tokens pre.length first)
  | .nil, _, _, _, _, hends => by cases hends
  | .cons before' key' colonBefore' colonAfter' v after' rest, pre, post, first, h, hends => by
    rcases hends with hends | hends
    · cases hends
      exact own_first json name pre post first _ _ _ _ p _ _ h hkey hback
    · have hrest := own_member before key colonBefore colonAfter p after back hkey hback rest
        (pre++(keyText first before' key' colonBefore' colonAfter'++(v.render++after'.text))) post
          false (by rw [h]; simp [Members.render]) hends
      have hnext : (pre++(keyText first before' key' colonBefore' colonAfter'++
          (v.render++after'.text))).length =
            pre.length+(keyText first before' key' colonBefore' colonAfter').length+
              v.render.length+after'.text.length := by
        simp
        omega
      rw [hnext] at hrest
      have hall := own_value_between json name p _ (keyToken pre.length first before' key'::
        v.tokens (pre.length+(keyText first before' key' colonBefore' colonAfter').length)) _ []
          (by simp) hrest
      simpa [Members.tokens] using hall

theorem own_prim_token (p : Primitive) (tail : Buf) (value : JsmnTok) (c : Byte) (rest : Buf)
    (htail : tail = c::rest) (hc : Delimits c) (htype : value.type = .primitive)
    (hstop : value.stop = value.start+p.text.bytes.length)
    (htext : textFrom json value.start = p.text.bytes++tail) :
    PrimToken json value ∧ tokenText json value = p.text.bytes := by
  obtain ⟨hne,hbytes⟩ := primitive_bytes p
  have hpos := List.length_pos_of_ne_nil hne
  have htoken : tokenText json value = p.text.bytes := by
    rw [tokenText, htext, hstop, Nat.add_sub_cancel_left, List.take_left]
  have hends : textFrom json value.stop = tail := by
    rw [textFrom] at htext ⊢
    rw [hstop, ← List.drop_drop, htext, List.drop_left]
  have hlength := congrArg List.length htext
  rw [textFrom, List.length_drop, memory_length, List.length_append, htail,
    List.length_cons] at hlength
  refine ⟨⟨htype,by omega,by omega,?_,?_,fun d hd => .inl ?_⟩,htoken⟩
  · exact fun d hd => (hbytes d (htoken ▸ hd)).1
  · exact fun d hd => (hbytes d (htoken ▸ hd)).2
  · rw [hends, htail, List.head?_cons, Option.some.injEq] at hd
    exact hd ▸ delimits_delimiter c hc

end Own

theorem last_own_ends (name : Buf) (later : List Buf) : (members : Members) →
    members.LastOwn name later → ∃ before key colonBefore colonAfter v after back,
      members.EndsWith (.cons before key colonBefore colonAfter v after back) ∧
        key.text.bytes = name ∧ name ∉ v.strings++(back.strings++later)
  | .nil, h => by cases h
  | .cons before key colonBefore colonAfter v after rest, h => by
    rcases h with ⟨hkey,hname⟩ | h
    · exact ⟨before,key,colonBefore,colonAfter,v,after,rest,.inl rfl,hkey,hname⟩
    · obtain ⟨b,k,cb,ca,w,a,back,hends,hkey,hname⟩ := last_own_ends name later rest h
      exact ⟨b,k,cb,ca,w,a,back,.inr hends,hkey,hname⟩

end Flip.JsonDoc
