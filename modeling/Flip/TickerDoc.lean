import Flip.DocTokens
import Flip.Ticker

/-!
# Documents with a ticker in them

The loop does not see where in a document a string stands: the last string
spelled like a field decides it, wherever that string is. Two documents with
the same ticker are read alike when in both these strings are the ticker's own
keys.
-/

set_option autoImplicit false

namespace Flip.TickerDoc
open Flip.CLib Flip.Decimal Flip.JsonText Flip.JsonString Flip.Json Flip.JsonNumber Flip.Ticker
open Flip.JsonDoc

structure PairDocument where
  before : Blanks
  blanks : Blanks
  keyBefore : Blanks
  key : RawString
  colonBefore : Blanks
  colonAfter : Blanks
  innerBlanks : Blanks
  inner : Members
  valueAfter : Blanks
  rest : Members
  after : Blanks

namespace PairDocument

variable (d : PairDocument)

def document : Document :=
  ⟨d.before,.obj d.blanks (.cons d.keyBefore d.key d.colonBefore d.colonAfter
    (.obj d.innerBlanks d.inner) d.valueAfter d.rest),d.after⟩

def text : CString := d.document.text

def keyTok : JsmnTok :=
  keyToken (d.before.text.length+1+d.blanks.text.length) true d.keyBefore d.key

def fieldTokens : List JsmnTok := d.document.tokens.drop 2

theorem document_tokens : ∃ root, root.type = .object ∧
    d.document.tokens = root::d.keyTok::d.fieldTokens :=
  ⟨_,rfl,rfl⟩

def beforeKey : Buf := d.before.text++lbrace::d.blanks.text

def front : Buf :=
  d.beforeKey++(keyText true d.keyBefore d.key d.colonBefore d.colonAfter++
    lbrace::d.innerBlanks.text)

def middle : Buf := rbrace::d.valueAfter.text

def back : Buf := rbrace::(d.after.text++[0])

theorem text_memory : d.text.memory =
    d.front++(d.inner.render true++(d.middle++(d.rest.render false++d.back))) := by
  simp [text, document, Document.text, CString.memory, Value.render, Members.render, beforeKey,
    front, middle, back]

theorem key_spans : Spans d.text d.keyTok d.key.text.bytes := by
  have hlength : d.before.text.length+1+d.blanks.text.length = d.beforeKey.length := by
    simp [beforeKey]
    omega
  rw [keyTok, hlength]
  apply key_token_spans d.text d.beforeKey _ true d.keyBefore d.key d.colonBefore d.colonAfter
  rw [text_memory, front, List.append_assoc, List.append_assoc]

theorem field_tokens_split : ∃ object, object.type = .object ∧
    d.fieldTokens = object::(d.inner.tokens d.front.length true++
      d.rest.tokens (d.front++(d.inner.render true++d.middle)).length false) := by
  have hfront : d.front.length = d.before.text.length+1+d.blanks.text.length+
      (keyText true d.keyBefore d.key d.colonBefore d.colonAfter).length+1+
        d.innerBlanks.text.length := by
    simp [front, beforeKey]
    omega
  have hrest : (d.front++(d.inner.render true++d.middle)).length =
      d.before.text.length+1+d.blanks.text.length+
        (keyText true d.keyBefore d.key d.colonBefore d.colonAfter).length+
          (Value.obj d.innerBlanks d.inner).render.length+d.valueAfter.text.length := by
    simp [front, beforeKey, middle, Value.render]
    omega
  rw [hfront, hrest]
  exact ⟨_,rfl,rfl⟩

end PairDocument

theorem get_pair {D : Type} (mem : BtceTicker D) (p : CString) (f : Field) :
    ({ mem with pair := p } : BtceTicker D).get f = mem.get f := by
  cases f <;> rfl

section Parsing

variable {D : Type} [Zero D] (strtold : Buf → D)

theorem parse_tokens (jsmn : Jsmn) (json : CString) (tokens : List JsmnTok)
    (hcount : jsmn.count json.bytes = tokens.length)
    (hparse : jsmn.parse json.bytes tokens.length = ((tokens.length : ℤ),tokens))
    (mem : BtceTicker D) :
    parseBtcETicker strtold json .good jsmn mem = readTicker strtold json .good mem tokens := by
  have hn : getJsonTokenCount jsmn json = .ok tokens.length := by
    simp [getJsonTokenCount, hcount]
  simp [parseBtcETicker, TickerAlloc.good, hn, hparse]

theorem parse_document (jsmn : Jsmn) (d : PairDocument) (h : Tokenises jsmn d.document)
    (mem u : BtceTicker D) :
    parseBtcETicker strtold d.text .good jsmn mem = .ok ⟨.eok,some u,true⟩ ↔
      u.pair = d.key.text ∧
        ∀ f, finalNumber strtold d.text f d.fieldTokens (mem.get f) = some (u.get f) := by
  obtain ⟨hcount,hparse⟩ := h
  obtain ⟨root,hroot,htokens⟩ := d.document_tokens
  have hpair := spans_strndup d.text d.key.text d.keyTok d.key_spans
  have hloop : parseBtcETicker strtold d.text .good jsmn mem =
      (readTokens strtold d.text 2 d.fieldTokens { mem with pair := d.key.text }).map
        (fun t => ⟨.eok,some t,true⟩) := by
    rw [parse_tokens strtold jsmn d.text d.document.tokens hcount hparse, htokens]
    simp only [readTicker, hroot, ne_eq, not_true_eq_false, if_false, hpair]
    rfl
  rw [hloop]
  have hok := read_tokens_ok_iff strtold d.text 2 d.fieldTokens { mem with pair := d.key.text } u
  simp only [get_pair] at hok
  rw [← hok]
  cases readTokens strtold d.text 2 d.fieldTokens { mem with pair := d.key.text } with
  | error e => simp [Except.map]
  | ok t => simp [Except.map]

end Parsing

def IsInteger (b : Buf) (n : ℤ) : Prop :=
  (0 ≤ n ∧ b = decimal n.toNat) ∨ (n ≤ 0 ∧ b = 45::decimal (-n).toNat)

instance (b : Buf) (n : ℤ) : Decidable (IsInteger b n) := inferInstanceAs (Decidable (_ ∨ _))

structure Quote where
  value : Field → Primitive
  updated : ∃ n, IsInteger (value .updated).text.bytes n ∧ -2^31 ≤ n ∧ n < 2^31

/-- The first member has this name and its value holds the quote. -/
structure TickerDocument (name : Buf) (q : Quote) extends PairDocument where
  named : key.name = name
  fields : ∀ f, inner.Has f.key (q.value f)
  distinct : toPairDocument.document.value.Distinct

/-- The last string after the first key that is written like the field is a
key of the inner object. -/
def LastOwn (d : PairDocument) (f : Field) : Prop := d.inner.LastOwn f.key d.rest.strings

instance (d : PairDocument) (f : Field) : Decidable (LastOwn d f) :=
  decidableLastOwn f.key d.rest.strings d.inner

/-- The token stands after the last string that is spelled like the field. -/
def Follows (d : PairDocument) (f : Field) (token : JsmnTok) : Prop :=
  ∃ front name back, d.fieldTokens = front++name::token::back ∧
    equalJsonKey d.text name f.key = true ∧
      ∀ t ∈ token::back, equalJsonKey d.text t f.key = false

section Insensitive

variable {D : Type} [Zero D] (strtold : Buf → D) (jsmn : Jsmn)

/-- Both documents are accepted and give the same ticker, whatever the fresh
records contain. -/
def Insensitive (d d' : PairDocument) : Prop :=
  ∀ mem mem' : BtceTicker D, ∃ t,
    parseBtcETicker strtold d.text .good jsmn mem = .ok ⟨.eok,some t,true⟩ ∧
    parseBtcETicker strtold d'.text .good jsmn mem' = .ok ⟨.eok,some t,true⟩

def Agree (d d' : PairDocument) (f : Field) : Prop :=
  ∃ token token', Follows d f token ∧ Follows d' f token' ∧
    number strtold d.text f token = number strtold d'.text f token'

theorem follows_number (d : PairDocument) (f : Field) (token : JsmnTok) (old : Num D)
    (h : Follows d f token) : finalNumber strtold d.text f d.fieldTokens old =
      some (number strtold d.text f token) := by
  rw [finalNumber, (last_next_some_iff d.text f d.fieldTokens token).mpr h]

theorem number_follows (d : PairDocument) (f : Field) (old old' new : Num D) (hne : old ≠ old')
    (h : finalNumber strtold d.text f d.fieldTokens old = some new)
    (h' : finalNumber strtold d.text f d.fieldTokens old' = some new) :
    ∃ token, Follows d f token ∧ number strtold d.text f token = new := by
  unfold finalNumber at h h'
  cases hl : lastNext d.text f d.fieldTokens with
  | none =>
    rw [hl] at h h'
    exact absurd (Option.some_inj.mp (h.trans h'.symm)) hne
  | some r =>
    cases r with
    | none =>
      rw [hl] at h
      cases h
    | some token =>
      rw [hl] at h
      exact ⟨token,(last_next_some_iff d.text f d.fieldTokens token).mp hl,Option.some_inj.mp h⟩

def filled (x : D) (n : Int32) : BtceTicker D := ⟨⟨[],by simp⟩,x,x,x,x,x,x,x,x,n⟩

theorem filled_ne (x : D) (hx : x ≠ 0) (f : Field) : (filled 0 0).get f ≠ (filled x 1).get f := by
  cases f <;> simp [filled, BtceTicker.get, hx.symm]

def tickerOf (d : PairDocument) (token : Field → JsmnTok) : BtceTicker D :=
  ⟨d.key.text,getJsonDouble strtold d.text (token .high),
    getJsonDouble strtold d.text (token .low),getJsonDouble strtold d.text (token .avg),
    getJsonDouble strtold d.text (token .vol),getJsonDouble strtold d.text (token .volCur),
    getJsonDouble strtold d.text (token .last),getJsonDouble strtold d.text (token .buy),
    getJsonDouble strtold d.text (token .sell),getJsonInt d.text (token .updated)⟩

theorem ticker_of_get (d : PairDocument) (token : Field → JsmnTok) (f : Field) :
    (tickerOf strtold d token).get f = number strtold d.text f (token f) := by
  cases f <;> rfl

theorem insensitive_agree [Nontrivial D] (d d' : PairDocument) (hd : Tokenises jsmn d.document)
    (hd' : Tokenises jsmn d'.document) (h : Insensitive strtold jsmn d d') :
    d.key.text = d'.key.text ∧ ∀ f, Agree strtold d d' f := by
  simp only [Insensitive, parse_document strtold jsmn d hd, parse_document strtold jsmn d' hd'] at h
  obtain ⟨x,hx⟩ := exists_ne (0 : D)
  obtain ⟨t,⟨hp,hg⟩,hp',hg'⟩ := h (filled 0 0) (filled 0 0)
  obtain ⟨u,⟨-,hu⟩,-,hu'⟩ := h (filled x 1) (filled 0 0)
  obtain ⟨v,⟨-,hv⟩,-,hv'⟩ := h (filled 0 0) (filled x 1)
  refine ⟨hp.symm.trans hp',fun f => ?_⟩
  have hut : u.get f = t.get f := Option.some_inj.mp ((hu' f).symm.trans (hg' f))
  have hvt : v.get f = t.get f := Option.some_inj.mp ((hv f).symm.trans (hg f))
  obtain ⟨token,hf,hn⟩ := number_follows strtold _ f _ _ _ (filled_ne x hx f) (hg f)
    ((hu f).trans (congrArg some hut))
  obtain ⟨token',hf',hn'⟩ := number_follows strtold _ f _ _ _ (filled_ne x hx f) (hg' f)
    ((hv' f).trans (congrArg some hvt))
  exact ⟨token,token',hf,hf',hn.trans hn'.symm⟩

theorem agree_insensitive (d d' : PairDocument) (hd : Tokenises jsmn d.document)
    (hd' : Tokenises jsmn d'.document) (hkey : d.key.text = d'.key.text)
    (hagree : ∀ f, Agree strtold d d' f) : Insensitive strtold jsmn d d' := by
  simp only [Insensitive, parse_document strtold jsmn d hd, parse_document strtold jsmn d' hd']
  intro mem mem'
  choose token token' hf hf' hn using hagree
  refine ⟨tickerOf strtold d token,⟨rfl,fun f => ?_⟩,hkey,fun f => ?_⟩
  · rw [follows_number strtold _ f _ _ (hf f), ticker_of_get]
  · rw [follows_number strtold _ f _ _ (hf' f), ticker_of_get, hn f]

end Insensitive

section Own

theorem field_plain (f : Field) : Plain f.key := by cases f <;> decide

theorem field_ascii (f : Field) : Utf8.AllAscii f.key := by cases f <;> decide

theorem plain_name (s : RawString) (h : Plain s.text.bytes) : s.name = s.text.bytes := by
  simp [RawString.name, unescape, unescape_n_plain _ _ le_rfl h]

theorem ends_with_name (key : RawString) (before colonBefore colonAfter : Blanks) (v : Value)
    (after : Blanks) (back : Members) : (members : Members) →
      members.EndsWith (.cons before key colonBefore colonAfter v after back) →
      key.name ∈ members.names
  | .nil, h => by cases h
  | .cons _ _ _ _ _ _ rest, h => by
    rcases h with h | h
    · cases h
      exact List.mem_cons_self
    · exact List.mem_cons_of_mem _ (ends_with_name key before colonBefore colonAfter v after back
        rest h)

theorem has_name (name : Buf) (p : Primitive) : (members : Members) → members.Has name p →
    name ∈ members.names
  | .nil, h => by cases h
  | .cons _ _ _ _ _ _ rest, h => by
    rcases h with ⟨rfl,-⟩ | h
    · exact List.mem_cons_self
    · exact List.mem_cons_of_mem _ (has_name name p rest h)

theorem ends_with_value (key : RawString) (before colonBefore colonAfter : Blanks) (v : Value)
    (after : Blanks) (back : Members) (p : Primitive) : (members : Members) →
      members.names.Nodup → members.Has key.name p →
      members.EndsWith (.cons before key colonBefore colonAfter v after back) → v = .prim p
  | .nil, _, h, _ => by cases h
  | .cons _ _ _ _ _ _ rest, hnodup, hhas, hends => by
    obtain ⟨hne,hrest⟩ := List.nodup_cons.mp hnodup
    rcases hends with hends | hends
    · cases hends
      rcases hhas with ⟨-,hv⟩ | hhas
      · exact hv
      · exact absurd (has_name _ p back hhas) hne
    · rcases hhas with ⟨hname,-⟩ | hhas
      · exact absurd (hname ▸ ends_with_name key before colonBefore colonAfter v after back rest
          hends) hne
      · exact ends_with_value key before colonBefore colonAfter v after back p rest hrest hhas
          hends

variable {name : Buf} {q : Quote}

theorem own_follows (d : TickerDocument name q) (f : Field) (h : LastOwn d.toPairDocument f) :
    ∃ token, Follows d.toPairDocument f token ∧ PrimToken d.text token ∧
      tokenText d.text token = (q.value f).text.bytes := by
  obtain ⟨before,key,colonBefore,colonAfter,v,after,back,hends,hkey,hlater⟩ :=
    last_own_ends f.key d.rest.strings d.inner h
  rw [List.mem_append, List.mem_append, not_or, not_or] at hlater
  have hname : key.name = f.key := (plain_name key (hkey ▸ field_plain f)).trans hkey
  obtain rfl := ends_with_value key before colonBefore colonAfter v after back (q.value f) d.inner
    d.distinct.2.1.1 (hname ▸ d.fields f) hends
  have hmemory := d.text_memory
  have hown := own_member d.text f.key before key colonBefore colonAfter (q.value f) after back
    hkey hlater.2.1 d.inner d.front _ true hmemory hends
  have hrest := members_silent d.text f.key d.rest (d.front++(d.inner.render true++d.middle))
    d.back false (by rw [hmemory]; simp) hlater.2.2
  obtain ⟨object,-,htokens⟩ := d.field_tokens_split
  obtain ⟨ts,own,value,us,hsplit,hspelled,hsilent,htype,hstop,htext⟩ :=
    own_value_between d.text f.key (q.value f) _ [object] _ _ hrest hown
  obtain ⟨c,tail,htail,hc⟩ := after_delimits after back
    (d.valueAfter.text++(d.rest.render false++d.back))
  exact ⟨value,⟨ts,own,us,htokens.trans hsplit,hspelled,hsilent⟩,
    own_prim_token d.text (q.value f) _ value c tail htail hc htype hstop htext⟩

variable {D : Type} [Zero D] (convert : Buf → D)

def Quote.number (q : Quote) (f : Field) : Num D :=
  if f = .updated then .int (strtol (q.value f).text.bytes).toInt32
  else .double (strtold convert (q.value f).text.bytes)

theorem own_number (d : TickerDocument name q) (f : Field) (token : JsmnTok)
    (h : PrimToken d.text token) (htext : tokenText d.text token = (q.value f).text.bytes) :
    Ticker.number (strtold convert) d.text f token = q.number convert f := by
  rw [Ticker.number, Quote.number, token_int h, token_double h, htext]

theorem own_agree (d d' : TickerDocument name q) (f : Field) (h : LastOwn d.toPairDocument f)
    (h' : LastOwn d'.toPairDocument f) :
    Agree (strtold convert) d.toPairDocument d'.toPairDocument f := by
  obtain ⟨token,hfollows,hprim,htext⟩ := own_follows d f h
  obtain ⟨token',hfollows',hprim',htext'⟩ := own_follows d' f h'
  exact ⟨token,token',hfollows,hfollows',(own_number convert d f token hprim htext).trans
    (own_number convert d' f token' hprim' htext').symm⟩

end Own

section Samples

def fieldRaw (f : Field) : RawString := plainRaw f.key (field_plain f) (field_ascii f)

def sampleMember (f : Field) : PrimMember :=
  .bare (fieldRaw f) (decimalPrimitive (Field.all.idxOf f))

def sampleQuote : Quote where
  value f := (sampleMember f).value
  updated := ⟨8,.inl ⟨by decide,rfl⟩,by decide,by decide⟩

def btcUsd : RawString := plainRaw (ascii "btc_usd") (by decide) (by decide)

def sampleTicker (fs : List Field) (rest : Members) (hfs : fs.Perm Field.all)
    (hnames : (btcUsd.name::rest.names).Nodup) (hrest : rest.Distinct) :
    TickerDocument btcUsd.name sampleQuote where
  before := noBlanks
  blanks := noBlanks
  keyBefore := noBlanks
  key := btcUsd
  colonBefore := noBlanks
  colonAfter := noBlanks
  innerBlanks := noBlanks
  inner := ofPrims (fs.map sampleMember)
  valueAfter := noBlanks
  rest := rest
  after := noBlanks
  named := rfl
  fields f := by
    have hm : sampleMember f ∈ fs.map sampleMember :=
      List.mem_map_of_mem (hfs.mem_iff.mpr (mem_all f))
    have hname : (sampleMember f).key.name = f.key :=
      plain_raw_name _ (field_plain f) (field_ascii f)
    exact hname ▸ of_prims_has _ _ hm
  distinct := by
    refine ⟨hnames,⟨?_,of_prims_distinct _⟩,hrest⟩
    rw [of_prims_names, ((hfs.map sampleMember).map _).nodup_iff]
    decide

def memberAfter (key : RawString) (n : ℕ) : Members :=
  ofPrims [.bare key (decimalPrimitive n)]

def aloneTicker : TickerDocument btcUsd.name sampleQuote :=
  sampleTicker Field.all .nil (.refl _) (by decide) trivial

def reversedTicker : TickerDocument btcUsd.name sampleQuote :=
  sampleTicker Field.all.reverse
    (memberAfter (plainRaw (ascii "server_time") (by decide) (by decide)) 5)
    (List.reverse_perm _) (by decide) (of_prims_distinct _)

def twoPairTicker : TickerDocument btcUsd.name sampleQuote :=
  sampleTicker Field.all
    (.cons noBlanks (plainRaw (ascii "ltc_usd") (by decide) (by decide)) noBlanks noBlanks
      (.obj noBlanks (memberAfter (fieldRaw .high) 7)) noBlanks .nil)
    (.refl _) (by decide)
    ⟨⟨by decide,of_prims_distinct _⟩,trivial⟩

def leadingDigits (s : Buf) : ℕ := digitsValue (s.takeWhile isDigit)

/-- Two documents of one ticker are read alike when their first keys are
written alike and in both the last string written like a field is the ticker's
own key. -/
theorem own_keys_insensitive {D : Type} [Zero D] (convert : Buf → D) (jsmn : Jsmn) (name : Buf)
    (q : Quote) (d d' : TickerDocument name q) (hd : Tokenises jsmn d.document)
    (hd' : Tokenises jsmn d'.document) (hkey : d.key.text = d'.key.text)
    (h : ∀ f, LastOwn d.toPairDocument f) (h' : ∀ f, LastOwn d'.toPairDocument f) :
    Insensitive (strtold convert) jsmn d.toPairDocument d'.toPairDocument :=
  agree_insensitive (strtold convert) jsmn _ _ hd hd' hkey
    (fun f => own_agree convert d d' f (h f) (h' f))

theorem reversed_read_alike :
    Insensitive (strtold leadingDigits) (tableJsmn [aloneTicker.document,reversedTicker.document])
      aloneTicker.toPairDocument reversedTicker.toPairDocument :=
  own_keys_insensitive leadingDigits _ _ _ aloneTicker reversedTicker (by decide +kernel)
    (by decide +kernel) rfl (fun f => by cases f <;> decide) (fun f => by cases f <;> decide)

theorem second_pair_read_differently :
    Tokenises (tableJsmn [aloneTicker.document,twoPairTicker.document]) aloneTicker.document ∧
    Tokenises (tableJsmn [aloneTicker.document,twoPairTicker.document]) twoPairTicker.document ∧
    ¬Insensitive (strtold leadingDigits)
      (tableJsmn [aloneTicker.document,twoPairTicker.document])
      aloneTicker.toPairDocument twoPairTicker.toPairDocument := by
  have hd : Tokenises (tableJsmn [aloneTicker.document,twoPairTicker.document])
      aloneTicker.document := by decide +kernel
  have hd' : Tokenises (tableJsmn [aloneTicker.document,twoPairTicker.document])
      twoPairTicker.document := by decide +kernel
  refine ⟨hd,hd',fun h => ?_⟩
  obtain ⟨token,token',hf,hf',hnumber⟩ :=
    (insensitive_agree (strtold leadingDigits) _ _ _ hd hd' h).2 .high
  have hlast := (last_next_some_iff _ _ _ token).mpr hf
  have hlast' := (last_next_some_iff _ _ _ token').mpr hf'
  obtain rfl : (⟨.primitive,19,20⟩ : JsmnTok) = token :=
    Option.some_inj.mp (Option.some_inj.mp ((by decide +kernel : _ = _).trans hlast))
  obtain rfl : (⟨.primitive,114,115⟩ : JsmnTok) = token' :=
    Option.some_inj.mp (Option.some_inj.mp ((by decide +kernel : _ = _).trans hlast'))
  simp only [Ticker.number, reduceCtorEq, if_false] at hnumber
  rw [token_double (by decide +kernel), token_double (by decide +kernel)] at hnumber
  revert hnumber
  decide +kernel

end Samples

end Flip.TickerDoc
