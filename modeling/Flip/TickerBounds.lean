import Flip.TickerDoc

/-!
# What the parser does with any token array

The parser looks at the first two tokens and, for a token that spells a field,
at the one after it. It stays inside the array only when there are two tokens
to look at and the last one spells no field, and it fills the record only when
each field is spelled.
-/

set_option autoImplicit false

namespace Flip.TickerBounds
open Flip.CLib Flip.Json Flip.Ticker Flip.JsonDoc Flip.TickerDoc

def Delivers (jsmn : Jsmn) (json : CString) (tokens : List JsmnTok) : Prop :=
  ∃ n : ℕ, jsmn.count json.bytes = n ∧ (jsmn.parse json.bytes n).1 = n ∧
    (jsmn.parse json.bytes n).2.take n = tokens

def IsTicker : List JsmnTok → Prop
  | root::key::_ => root.type = .object ∧ key.type = .string
  | _ => False

section Bounds

variable (json : CString)

def Spells (token : JsmnTok) : Prop := ∃ f : Field, equalJsonKey json token f.key = true

instance (token : JsmnTok) : Decidable (Spells json token) :=
  decidable_of_iff (∃ f ∈ Field.all, equalJsonKey json token f.key = true)
    ⟨fun ⟨f,_,h⟩ => ⟨f,h⟩,fun ⟨f,h⟩ => ⟨f,mem_all f,h⟩⟩

/-- There are as many tokens as the checks look at, and nothing has to be read
after the last one. -/
def Bounded : List JsmnTok → Prop
  | [] => False
  | [root] => root.type ≠ .object
  | root::key::tokens => root.type = .object → key.type = .string →
      ∀ token ∈ tokens.getLast?, ¬Spells json token

instance decidableBounded : (tokens : List JsmnTok) → Decidable (Bounded json tokens)
  | [] => isFalse id
  | [root] => inferInstanceAs (Decidable (root.type ≠ .object))
  | root::key::tokens => inferInstanceAs (Decidable (root.type = .object → key.type = .string →
      ∀ token ∈ tokens.getLast?, ¬Spells json token))

variable {D : Type} [Zero D] (strtold : Buf → D)

theorem read_tokens_bounded_iff (i : ℕ) (tokens : List JsmnTok) (t : BtceTicker D) :
    (∃ u, readTokens strtold json i tokens t = .ok u) ↔
      ∀ token ∈ tokens.getLast?, ¬Spells json token := by
  induction tokens generalizing i t with
  | nil => simp [readTokens]
  | cons token rest ih =>
    cases rest with
    | nil =>
      have hlast : ∀ u, readTokens strtold json i [token] t = .ok u ↔
          readFields strtold json i token none Field.all t = .ok u := by
        intro u
        simp only [readTokens, List.head?_nil]
        cases readFields strtold json i token none Field.all t <;> exact Iff.rfl
      simp only [hlast, read_fields_none, List.getLast?_singleton, Option.mem_def,
        Option.some.injEq, forall_eq', Spells, not_exists, Bool.not_eq_true, exists_eq_left',
        mem_all, true_imp_iff]
    | cons value rest =>
      obtain ⟨v,hv,-,-⟩ := read_fields_some strtold json i token value Field.all t
      have hstep : readTokens strtold json i (token::value::rest) t =
          readTokens strtold json (i+1) (value::rest) v := by
        rw [readTokens, List.head?_cons, hv]
        rfl
      simp only [hstep, ih, List.getLast?_cons_cons]

def named (mem : BtceTicker D) (key : JsmnTok) : BtceTicker D :=
  { mem with pair := tallocStrndup (textFrom json key.start) (key.stop-key.start) }

theorem read_ticker_loop (a : TickerAlloc) (ha : a.pair = true) (root key : JsmnTok)
    (tokens : List JsmnTok) (mem : BtceTicker D) (hroot : root.type = .object)
    (hkey : key.type = .string) : readTicker strtold json a mem (root::key::tokens) =
      (readTokens strtold json 2 tokens (named json mem key)).map
        (fun t => ⟨.eok,some t,true⟩) := by
  simp [readTicker, hroot, hkey, ha, named]

theorem read_ticker_bounded (a : TickerAlloc) (tokens : List JsmnTok) (mem : BtceTicker D)
    (ha : IsTicker tokens → a.pair = true)
    (h : ∃ o, readTicker strtold json a mem tokens = .ok o) : Bounded json tokens := by
  obtain ⟨o,ho⟩ := h
  match tokens with
  | [] => cases ho
  | [root] =>
    intro hroot
    simp [readTicker, hroot] at ho
  | root::key::tokens =>
    intro hroot hkey
    rw [read_ticker_loop json strtold a (ha ⟨hroot,hkey⟩) root key tokens mem hroot hkey] at ho
    apply (read_tokens_bounded_iff json strtold 2 tokens (named json mem key)).mp
    cases hloop : readTokens strtold json 2 tokens (named json mem key) with
    | error e =>
      rw [hloop] at ho
      cases ho
    | ok t => exact ⟨t,rfl⟩

theorem read_ticker_no_pair (a : TickerAlloc) (ha : a.pair = false) (tokens : List JsmnTok)
    (mem : BtceTicker D) (h : IsTicker tokens) :
    readTicker strtold json a mem tokens = .ok ⟨.eok,none,false⟩ := by
  match tokens, h with
  | root::key::tokens, h => simp [readTicker, h.1, h.2, ha]

theorem read_ticker_rejected (a : TickerAlloc) (tokens : List JsmnTok) (mem : BtceTicker D)
    (hb : Bounded json tokens) (h : ¬IsTicker tokens) :
    readTicker strtold json a mem tokens = .ok ⟨.einval,none,true⟩ := by
  match tokens with
  | [] => exact hb.elim
  | [root] => simp [readTicker, show root.type ≠ .object from hb]
  | root::key::tokens =>
    by_cases hroot : root.type = .object
    · simp [readTicker, hroot, show key.type ≠ .string from fun hkey => h ⟨hroot,hkey⟩]
    · simp [readTicker, hroot]

theorem read_ticker_filled (a : TickerAlloc) (ha : a.pair = true) (tokens : List JsmnTok)
    (mem : BtceTicker D) (hb : Bounded json tokens) (h : IsTicker tokens) :
    ∃ t, readTicker strtold json a mem tokens = .ok ⟨.eok,some t,true⟩ := by
  match tokens, h with
  | root::key::tokens, h =>
    obtain ⟨t,ht⟩ := (read_tokens_bounded_iff json strtold 2 tokens (named json mem key)).mpr
      (hb h.1 h.2)
    refine ⟨t,?_⟩
    rw [read_ticker_loop json strtold a ha root key tokens mem h.1 h.2, ht]
    rfl

theorem read_ticker_returns (a : TickerAlloc) (tokens : List JsmnTok) (mem : BtceTicker D)
    (hb : Bounded json tokens) : ∃ o, readTicker strtold json a mem tokens = .ok o := by
  by_cases hticker : IsTicker tokens
  · by_cases hpair : a.pair = true
    · obtain ⟨t,ht⟩ := read_ticker_filled json strtold a hpair tokens mem hb hticker
      exact ⟨_,ht⟩
    · exact ⟨_,read_ticker_no_pair json strtold a (by simpa using hpair) tokens mem hticker⟩
  · exact ⟨_,read_ticker_rejected json strtold a tokens mem hb hticker⟩

theorem read_tokens_keeps (i : ℕ) (tokens : List JsmnTok) (t u : BtceTicker D) (f : Field)
    (hf : ∀ token ∈ tokens, equalJsonKey json token f.key = false)
    (h : readTokens strtold json i tokens t = .ok u) : u.get f = t.get f := by
  have hfinal := ((read_tokens_ok_iff strtold json i tokens t u).mp h).2 f
  rw [finalNumber, (last_next_none_iff json f tokens).mpr hf] at hfinal
  exact (Option.some_inj.mp hfinal).symm

theorem read_tokens_same (i : ℕ) (tokens : List JsmnTok) (t t' u u' : BtceTicker D)
    (hf : ∀ f : Field, ∃ token ∈ tokens, equalJsonKey json token f.key = true)
    (hpair : t.pair = t'.pair) (h : readTokens strtold json i tokens t = .ok u)
    (h' : readTokens strtold json i tokens t' = .ok u') : u = u' := by
  obtain ⟨hp,hg⟩ := (read_tokens_ok_iff strtold json i tokens t u).mp h
  obtain ⟨hp',hg'⟩ := (read_tokens_ok_iff strtold json i tokens t' u').mp h'
  refine ticker_ext u u' (by rw [hp, hp', hpair]) (fun f => ?_)
  have hfinal := hg f
  have hfinal' := hg' f
  unfold finalNumber at hfinal hfinal'
  cases hl : lastNext json f tokens with
  | none =>
    obtain ⟨token,htoken,hspell⟩ := hf f
    rw [(last_next_none_iff json f tokens).mp hl token htoken] at hspell
    cases hspell
  | some r =>
    rw [hl] at hfinal hfinal'
    cases r with
    | none => cases hfinal
    | some value => exact Option.some_inj.mp (hfinal.symm.trans hfinal')

def Full (tokens : List JsmnTok) : Prop :=
  ∀ f : Field, ∃ token ∈ tokens.drop 2, equalJsonKey json token f.key = true

theorem read_ticker_full [Nontrivial D] (a : TickerAlloc) (ha : a.pair = true)
    (tokens : List JsmnTok) (hb : Bounded json tokens) (h : IsTicker tokens) :
    (∀ mem mem' : BtceTicker D,
      readTicker strtold json a mem tokens = readTicker strtold json a mem' tokens) ↔
        Full json tokens := by
  match tokens, h with
  | root::key::tokens, h =>
    have hbound := fun mem : BtceTicker D =>
      (read_tokens_bounded_iff json strtold 2 tokens (named json mem key)).mpr (hb h.1 h.2)
    have hloop := fun mem : BtceTicker D =>
      read_ticker_loop json strtold a ha root key tokens mem h.1 h.2
    constructor
    · intro hall f
      by_contra hnone
      obtain ⟨x,hx⟩ := exists_ne (0 : D)
      obtain ⟨u,hu⟩ := hbound (filled 0 0)
      obtain ⟨v,hv⟩ := hbound (filled x 1)
      have hsilent : ∀ token ∈ tokens, equalJsonKey json token f.key = false := by
        simpa using hnone
      have hu' := read_tokens_keeps json strtold 2 tokens _ u f hsilent hu
      have hv' := read_tokens_keeps json strtold 2 tokens _ v f hsilent hv
      have heq := hall (filled 0 0) (filled x 1)
      rw [hloop, hloop, hu, hv] at heq
      simp only [Except.map, Except.ok.injEq, Outcome.mk.injEq, true_and, Option.some.injEq,
        and_true] at heq
      rw [heq, hv', named, named, get_pair, get_pair] at hu'
      exact filled_ne x hx f hu'.symm
    · intro hfull mem mem'
      obtain ⟨u,hu⟩ := hbound mem
      obtain ⟨v,hv⟩ := hbound mem'
      obtain rfl := read_tokens_same json strtold 2 tokens (named json mem key)
        (named json mem' key) u v hfull rfl hu hv
      rw [hloop, hloop, hu, hv]

end Bounds

section Samples

theorem tokenises_delivers (jsmn : Jsmn) (d : Document) (h : Tokenises jsmn d) :
    Delivers jsmn d.text d.tokens :=
  ⟨d.tokens.length,h.1,by rw [h.2],by rw [h.2, List.take_length]⟩

def emptyObject : Document := ⟨noBlanks,.obj noBlanks .nil,noBlanks⟩

def errorObject : Document :=
  ⟨noBlanks,.obj noBlanks (ofPrims [.bare (plainRaw (ascii "success") (by decide) (by decide))
    (decimalPrimitive 0)]),noBlanks⟩

end Samples

section Parsing

variable {D : Type} [Zero D] (strtold : Buf → D) (jsmn : Jsmn) (json : CString)

theorem delivers_unique {tokens tokens' : List JsmnTok} (h : Delivers jsmn json tokens)
    (h' : Delivers jsmn json tokens') : tokens = tokens' := by
  obtain ⟨n,hcount,-,rfl⟩ := h
  obtain ⟨m,hcount',-,rfl⟩ := h'
  obtain rfl : n = m := by exact_mod_cast hcount.symm.trans hcount'
  rfl

theorem jsmn_error_ne_eok (e : ℤ) : jsmnError e ≠ .eok := by
  unfold jsmnError
  split_ifs <;> decide

theorem parse_delivered (a : TickerAlloc) (mem : BtceTicker D) (tokens : List JsmnTok)
    (hctx : a.tmpCtx = true) (hdata : a.tickerData = true) (htokens : a.tokens = true)
    (h : Delivers jsmn json tokens) :
    parseBtcETicker strtold json a jsmn mem = readTicker strtold json a mem tokens := by
  obtain ⟨n,hcount,hparse,rfl⟩ := h
  have hn : getJsonTokenCount jsmn json = .ok n := by simp [getJsonTokenCount, hcount]
  simp [parseBtcETicker, hctx, hdata, htokens, hn, hparse]

theorem parse_undelivered (a : TickerAlloc) (mem : BtceTicker D)
    (hctx : a.tmpCtx = true) (hdata : a.tickerData = true)
    (h : ¬(a.tokens = true ∧ ∃ tokens, Delivers jsmn json tokens)) :
    ∃ e, e ≠ .eok ∧ parseBtcETicker strtold json a jsmn mem = .ok ⟨e,none,true⟩ := by
  by_cases hneg : jsmn.count json.bytes < 0
  · refine ⟨jsmnError (jsmn.count json.bytes),jsmn_error_ne_eok _,?_⟩
    simp [parseBtcETicker, hctx, hdata, getJsonTokenCount, hneg]
  obtain ⟨n,hcount⟩ : ∃ n : ℕ, jsmn.count json.bytes = n := Int.eq_ofNat_of_zero_le (by omega)
  have hn : getJsonTokenCount jsmn json = .ok n := by simp [getJsonTokenCount, hcount]
  simp only [parseBtcETicker, hctx, hdata, hn, Bool.not_true, Bool.false_eq_true, if_false]
  split_ifs with halloc hfail hdiffer
  · exact ⟨.enomem,by decide,rfl⟩
  · exact ⟨_,jsmn_error_ne_eok _,rfl⟩
  · exact ⟨.einval,by decide,rfl⟩
  · exact absurd ⟨by simpa using halloc,_,n,hcount,not_not.mp hdiffer,rfl⟩ h

/-- No pattern of allocations makes the parser look past its tokens exactly
when it gets through them with all allocations. -/
theorem in_bounds_iff (tokens : List JsmnTok) (h : Delivers jsmn json tokens) :
    (∀ (a : TickerAlloc) (mem : BtceTicker D),
      ∃ o, parseBtcETicker strtold json a jsmn mem = .ok o) ↔ Bounded json tokens := by
  constructor
  · intro hall
    have hgood := hall .good (filled 0 0)
    rw [parse_delivered strtold jsmn json .good _ tokens rfl rfl rfl h] at hgood
    exact read_ticker_bounded json strtold .good tokens _ (fun _ => rfl) hgood
  · intro hb a mem
    by_cases hctx : a.tmpCtx = true
    swap
    · exact ⟨⟨.enomem,none,true⟩,by simp [parseBtcETicker, hctx]⟩
    by_cases hdata : a.tickerData = true
    swap
    · exact ⟨⟨.enomem,none,false⟩,by simp [parseBtcETicker, hctx, hdata]⟩
    by_cases htokens : a.tokens = true
    swap
    · obtain ⟨e,-,he⟩ := parse_undelivered strtold jsmn json a mem hctx hdata
        (fun hd => htokens hd.1)
      exact ⟨_,he⟩
    rw [parse_delivered strtold jsmn json a mem tokens hctx hdata htokens h]
    exact read_ticker_returns json strtold a tokens mem hb

theorem alone_in_bounds :
    (∀ (a : TickerAlloc) (mem : BtceTicker ℕ),
      ∃ o, parseBtcETicker leadingDigits aloneTicker.document.text a
        (tableJsmn [aloneTicker.document]) mem = .ok o) ↔
      Bounded aloneTicker.document.text aloneTicker.document.tokens :=
  in_bounds_iff leadingDigits _ _ aloneTicker.document.tokens
    (tokenises_delivers _ _ (by decide +kernel))

theorem empty_object_read_past :
    Delivers (tableJsmn [emptyObject]) emptyObject.text emptyObject.tokens ∧
    parseBtcETicker leadingDigits emptyObject.text .good (tableJsmn [emptyObject])
      (filled 0 0) = .error (.outOfBounds 1) ∧
    ¬∀ (a : TickerAlloc) (mem : BtceTicker ℕ),
      ∃ o, parseBtcETicker leadingDigits emptyObject.text a (tableJsmn [emptyObject]) mem =
        .ok o := by
  have hfault : parseBtcETicker leadingDigits emptyObject.text .good (tableJsmn [emptyObject])
      (filled 0 0) = .error (.outOfBounds 1) := by rfl
  refine ⟨tokenises_delivers _ _ (by decide +kernel),hfault,fun h => ?_⟩
  obtain ⟨o,ho⟩ := h .good (filled 0 0)
  cases hfault.symm.trans ho

/-- The code and the out parameter agree, and nothing is left behind. The pair
of a stored record is never NULL, as its type says. -/
structure Contract (o : Outcome D) : Prop where
  stored : o.ret = .eok ↔ o.tickerData.isSome
  released : o.released = true

/-- No allocation fails between the two that are checked and cleaned up after,
and the tokens, if the parser gets to see them, are enough. -/
def Honoured (a : TickerAlloc) : Prop :=
  a.tmpCtx = true → a.tickerData = true ∧ (a.tokens = true → ∀ tokens,
    Delivers jsmn json tokens → Bounded json tokens ∧ (IsTicker tokens → a.pair = true))

theorem read_ticker_contract_iff (a : TickerAlloc) (tokens : List JsmnTok) (mem : BtceTicker D) :
    (∃ o, readTicker strtold json a mem tokens = .ok o ∧ Contract o) ↔
      Bounded json tokens ∧ (IsTicker tokens → a.pair = true) := by
  constructor
  · rintro ⟨o,ho,hc⟩
    have hpair : IsTicker tokens → a.pair = true := by
      intro hticker
      by_contra hp
      have hnone := read_ticker_no_pair json strtold a (by simpa using hp) tokens mem hticker
      cases hnone.symm.trans ho
      cases hc.released
    exact ⟨read_ticker_bounded json strtold a tokens mem hpair ⟨o,ho⟩,hpair⟩
  · rintro ⟨hb,hpair⟩
    by_cases hticker : IsTicker tokens
    · obtain ⟨t,ht⟩ := read_ticker_filled json strtold a (hpair hticker) tokens mem hb hticker
      exact ⟨_,ht,by simp,rfl⟩
    · exact ⟨_,read_ticker_rejected json strtold a tokens mem hb hticker,by simp,rfl⟩

/-- The call returns and keeps its contract exactly when the record is
allocated, the pair is copied, and the tokens are enough. -/
theorem contract_iff (a : TickerAlloc) (mem : BtceTicker D) :
    (∃ o, parseBtcETicker strtold json a jsmn mem = .ok o ∧ Contract o) ↔
      Honoured jsmn json a := by
  by_cases hctx : a.tmpCtx = true
  swap
  · have hout : parseBtcETicker strtold json a jsmn mem = .ok ⟨.enomem,none,true⟩ := by
      simp [parseBtcETicker, hctx]
    exact ⟨fun _ h => absurd h hctx,fun _ => ⟨_,hout,by simp,rfl⟩⟩
  by_cases hdata : a.tickerData = true
  swap
  · have hout : parseBtcETicker strtold json a jsmn mem = .ok ⟨.enomem,none,false⟩ := by
      simp [parseBtcETicker, hctx, hdata]
    constructor
    · rintro ⟨o,ho,hc⟩
      cases hout.symm.trans ho
      cases hc.released
    · exact fun h => absurd (h hctx).1 hdata
  by_cases hseen : a.tokens = true ∧ ∃ tokens, Delivers jsmn json tokens
  swap
  · obtain ⟨e,hne,hout⟩ := parse_undelivered strtold jsmn json a mem hctx hdata hseen
    exact ⟨fun _ _ => ⟨hdata,fun ht tokens h => absurd ⟨ht,tokens,h⟩ hseen⟩,
      fun _ => ⟨_,hout,by simp [hne],rfl⟩⟩
  obtain ⟨htokens,tokens,hd⟩ := hseen
  rw [parse_delivered strtold jsmn json a mem tokens hctx hdata htokens hd,
    read_ticker_contract_iff]
  constructor
  · rintro h _
    refine ⟨hdata,fun _ tokens' hd' => ?_⟩
    obtain rfl := delivers_unique jsmn json hd hd'
    exact h
  · exact fun h => (h hctx).2 htokens tokens hd

theorem no_pair_reports_success :
    parseBtcETicker leadingDigits aloneTicker.document.text ⟨true,true,true,false⟩
      (tableJsmn [aloneTicker.document]) (filled 0 0) = .ok ⟨.eok,none,false⟩ ∧
    ¬∃ o, parseBtcETicker leadingDigits aloneTicker.document.text ⟨true,true,true,false⟩
      (tableJsmn [aloneTicker.document]) (filled 0 0) = .ok o ∧ Contract o := by
  have hd : Delivers (tableJsmn [aloneTicker.document]) aloneTicker.document.text
      aloneTicker.document.tokens := tokenises_delivers _ _ (by decide +kernel)
  have hout : parseBtcETicker leadingDigits aloneTicker.document.text ⟨true,true,true,false⟩
      (tableJsmn [aloneTicker.document]) (filled 0 0) = .ok ⟨.eok,none,false⟩ := by
    rw [parse_delivered leadingDigits _ _ _ _ _ rfl rfl rfl hd]
    exact read_ticker_no_pair _ _ _ rfl _ _ ⟨rfl,rfl⟩
  refine ⟨hout,?_⟩
  rintro ⟨o,ho,hc⟩
  cases hout.symm.trans ho
  cases hc.released

def Complete : Prop :=
  ∀ mem mem' : BtceTicker D, ∃ o o',
    parseBtcETicker strtold json .good jsmn mem = .ok o ∧
    parseBtcETicker strtold json .good jsmn mem' = .ok o' ∧
    o.ret = o'.ret ∧ (o.ret = .eok → o.tickerData = o'.tickerData)

/-- Nothing of the fresh record gets into the ticker exactly when the tokens
are enough and, if they pass the checks, spell all nine fields. -/
theorem complete_iff [Nontrivial D] (tokens : List JsmnTok) (h : Delivers jsmn json tokens) :
    Complete strtold jsmn json ↔ Bounded json tokens ∧ (IsTicker tokens → Full json tokens) := by
  have hparse := fun mem : BtceTicker D =>
    parse_delivered strtold jsmn json .good mem tokens rfl rfl rfl h
  simp only [Complete, hparse]
  constructor
  · intro hall
    obtain ⟨o,-,ho,-⟩ := hall (filled 0 0) (filled 0 0)
    have hb := read_ticker_bounded json strtold .good tokens _ (fun _ => rfl) ⟨o,ho⟩
    refine ⟨hb,fun hticker => (read_ticker_full json strtold .good rfl tokens hb hticker).mp ?_⟩
    intro mem mem'
    obtain ⟨o,o',ho,ho',-,hdata⟩ := hall mem mem'
    obtain ⟨t,ht⟩ := read_ticker_filled json strtold .good rfl tokens mem hb hticker
    obtain ⟨t',ht'⟩ := read_ticker_filled json strtold .good rfl tokens mem' hb hticker
    cases ho.symm.trans ht
    cases ho'.symm.trans ht'
    cases hdata rfl
    rw [ht, ht']
  · rintro ⟨hb,hfull⟩ mem mem'
    by_cases hticker : IsTicker tokens
    · obtain ⟨t,ht⟩ := read_ticker_filled json strtold .good rfl tokens mem hb hticker
      have hsame := (read_ticker_full json strtold .good rfl tokens hb hticker).mpr
        (hfull hticker) mem mem'
      exact ⟨_,_,ht,hsame.symm.trans ht,rfl,fun _ => rfl⟩
    · exact ⟨_,_,read_ticker_rejected json strtold .good tokens mem hb hticker,
        read_ticker_rejected json strtold .good tokens mem' hb hticker,rfl,fun _ => rfl⟩

theorem alone_complete :
    Complete leadingDigits (tableJsmn [aloneTicker.document]) aloneTicker.document.text :=
  (complete_iff leadingDigits _ _ aloneTicker.document.tokens
    (tokenises_delivers _ _ (by decide +kernel))).mpr
      ⟨by decide +kernel,fun _ f => by cases f <;> decide +kernel⟩

theorem error_object_accepted :
    Delivers (tableJsmn [errorObject]) errorObject.text errorObject.tokens ∧
    (∀ x : ℕ, parseBtcETicker leadingDigits errorObject.text .good (tableJsmn [errorObject])
      (filled x 0) = .ok ⟨.eok,some { filled x 0 with
        pair := ⟨ascii "success",by decide⟩ },true⟩) ∧
    ¬Complete leadingDigits (tableJsmn [errorObject]) errorObject.text := by
  have hout : ∀ x : ℕ, parseBtcETicker leadingDigits errorObject.text .good
      (tableJsmn [errorObject]) (filled x 0) = .ok ⟨.eok,some { filled x 0 with
        pair := ⟨ascii "success",by decide⟩ },true⟩ := fun x => by rfl
  refine ⟨tokenises_delivers _ _ (by decide +kernel),hout,fun h => ?_⟩
  obtain ⟨o,o',ho,ho',-,hdata⟩ := h (filled 0 0) (filled 1 0)
  cases (hout 0).symm.trans ho
  cases (hout 1).symm.trans ho'
  have hhigh := congrArg (Option.map BtceTicker.high) (hdata rfl)
  simp [filled] at hhigh

end Parsing

end Flip.TickerBounds
