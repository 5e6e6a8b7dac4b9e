import Flip.Json

/-!
# Reading a ticker

The loop looks at every token from the third on and, where a token spells the
name of a field, converts the token after it. What a field holds in the end is
decided by the last such token alone.
-/

set_option autoImplicit false

namespace Flip.Ticker
open Flip.CLib Flip.Json

variable {D : Type}

structure BtceTicker (D : Type) where
  pair : CString
  high : D
  low : D
  avg : D
  vol : D
  volCur : D
  last : D
  buy : D
  sell : D
  updated : Int32
  deriving DecidableEq

inductive Field where
  | high
  | low
  | avg
  | vol
  | volCur
  | last
  | buy
  | sell
  | updated
  deriving DecidableEq

def Field.key : Field → Buf
  | .high => ascii "high"
  | .low => ascii "low"
  | .avg => ascii "avg"
  | .vol => ascii "vol"
  | .volCur => ascii "vol_cur"
  | .last => ascii "last"
  | .buy => ascii "buy"
  | .sell => ascii "sell"
  | .updated => ascii "updated"

def Field.all : List Field :=
  [.high,.low,.avg,.vol,.volCur,.last,.buy,.sell,.updated]

theorem mem_all (f : Field) : f ∈ Field.all := by cases f <;> decide

section Reading

variable [Zero D] (strtold : Buf → D) (json : CString)

def assign (t : BtceTicker D) (token : JsmnTok) : Field → BtceTicker D
  | .high => { t with high := getJsonDouble strtold json token }
  | .low => { t with low := getJsonDouble strtold json token }
  | .avg => { t with avg := getJsonDouble strtold json token }
  | .vol => { t with vol := getJsonDouble strtold json token }
  | .volCur => { t with volCur := getJsonDouble strtold json token }
  | .last => { t with last := getJsonDouble strtold json token }
  | .buy => { t with buy := getJsonDouble strtold json token }
  | .sell => { t with sell := getJsonDouble strtold json token }
  | .updated => { t with updated := getJsonInt json token }

/-- One comparison of the loop body; `next` is the token after this one. -/
def readField (i : ℕ) (token : JsmnTok) (next : Option JsmnTok) (t : BtceTicker D) (f : Field) :
    Except Fault (BtceTicker D) :=
  if equalJsonKey json token f.key then
    match next with
    | some value => .ok (assign strtold json t value f)
    | none => .error (.outOfBounds (i+1))
  else .ok t

def readFields (i : ℕ) (token : JsmnTok) (next : Option JsmnTok) :
    List Field → BtceTicker D → Except Fault (BtceTicker D)
  | [], t => .ok t
  | f::fs, t => (readField strtold json i token next t f).bind (readFields i token next fs)

def readTokens (i : ℕ) : List JsmnTok → BtceTicker D → Except Fault (BtceTicker D)
  | [], t => .ok t
  | token::rest, t =>
    (readFields strtold json i token rest.head? Field.all t).bind (readTokens (i+1) rest)

structure TickerAlloc where
  tmpCtx : Bool
  tickerData : Bool
  tokens : Bool
  pair : Bool

def TickerAlloc.good : TickerAlloc := ⟨true,true,true,true⟩

/-- The code, what was stored through the out parameter, and whether every
context that the call created is freed or handed out. -/
structure Outcome (D : Type) where
  ret : Errno
  tickerData : Option (BtceTicker D)
  released : Bool

/-- The part after tokenizing; `mem` is what the fresh record contains. When
the pair cannot be copied the function returns zero at once. -/
def readTicker (a : TickerAlloc) (mem : BtceTicker D) :
    List JsmnTok → Except Fault (Outcome D)
  | [] => .error (.outOfBounds 0)
  | root::tokens =>
    if root.type ≠ .object then .ok ⟨.einval,none,true⟩
    else
      match tokens with
      | [] => .error (.outOfBounds 1)
      | key::tokens =>
        if key.type ≠ .string then .ok ⟨.einval,none,true⟩
        else if !a.pair then .ok ⟨.eok,none,false⟩
        else
          (readTokens strtold json 2 tokens
            { mem with pair := tallocStrndup (textFrom json key.start) (key.stop-key.start) }).map
            (fun t => ⟨.eok,some t,true⟩)

def parseBtcETicker (a : TickerAlloc) (jsmn : Jsmn) (mem : BtceTicker D) :
    Except Fault (Outcome D) :=
  if !a.tmpCtx then .ok ⟨.enomem,none,true⟩
  else if !a.tickerData then .ok ⟨.enomem,none,false⟩
  else
    match getJsonTokenCount jsmn json with
    | .error e => .ok ⟨e,none,true⟩
    | .ok n =>
      let parsed := jsmn.parse json.bytes n
      if !a.tokens then .ok ⟨.enomem,none,true⟩
      else if parsed.1 < 0 then .ok ⟨jsmnError parsed.1,none,true⟩
      else if parsed.1 ≠ n then .ok ⟨.einval,none,true⟩
      else readTicker strtold json a mem (parsed.2.take n)

end Reading

inductive Num (D : Type) where
  | double (d : D)
  | int (n : Int32)
  deriving DecidableEq

def BtceTicker.get (t : BtceTicker D) : Field → Num D
  | .high => .double t.high
  | .low => .double t.low
  | .avg => .double t.avg
  | .vol => .double t.vol
  | .volCur => .double t.volCur
  | .last => .double t.last
  | .buy => .double t.buy
  | .sell => .double t.sell
  | .updated => .int t.updated

theorem ticker_ext (t u : BtceTicker D) (hp : t.pair = u.pair) (h : ∀ f, t.get f = u.get f) :
    t = u := by
  have h1 := h .high
  have h2 := h .low
  have h3 := h .avg
  have h4 := h .vol
  have h5 := h .volCur
  have h6 := h .last
  have h7 := h .buy
  have h8 := h .sell
  have h9 := h .updated
  cases t
  cases u
  simp only [BtceTicker.get, Num.double.injEq, Num.int.injEq] at h1 h2 h3 h4 h5 h6 h7 h8 h9
  simp_all

section Spec

variable [Zero D] (strtold : Buf → D) (json : CString)

def number (f : Field) (token : JsmnTok) : Num D :=
  if f = .updated then .int (getJsonInt json token)
  else .double (getJsonDouble strtold json token)

theorem get_assign (t : BtceTicker D) (token : JsmnTok) (f g : Field) :
    (assign strtold json t token f).get g =
      if g = f then number strtold json f token else t.get g := by
  cases f <;> cases g <;> rfl

theorem pair_assign (t : BtceTicker D) (token : JsmnTok) (f : Field) :
    (assign strtold json t token f).pair = t.pair := by
  cases f <;> rfl

/-- The token after the last one that spells the field's name, if there is
such a last one; it may itself have none after it. -/
def lastNext (f : Field) : List JsmnTok → Option (Option JsmnTok)
  | [] => none
  | token::rest => (lastNext f rest).or
      (if equalJsonKey json token f.key then some rest.head? else none)

/-- What the loop leaves in a field that held `old`; none when it reads past
the last token. -/
def finalNumber (f : Field) (tokens : List JsmnTok) (old : Num D) : Option (Num D) :=
  match lastNext json f tokens with
  | none => some old
  | some none => none
  | some (some value) => some (number strtold json f value)

theorem last_next_none_iff (f : Field) (tokens : List JsmnTok) :
    lastNext json f tokens = none ↔ ∀ t ∈ tokens, equalJsonKey json t f.key = false := by
  induction tokens with
  | nil => simp [lastNext]
  | cons token rest ih =>
    rw [lastNext, Option.or_eq_none_iff, ih]
    cases h : equalJsonKey json token f.key <;> simp [h]

theorem last_next_some_iff (f : Field) (tokens : List JsmnTok) (value : JsmnTok) :
    lastNext json f tokens = some (some value) ↔
      ∃ front name back, tokens = front++name::value::back ∧
        equalJsonKey json name f.key = true ∧
          ∀ t ∈ value::back, equalJsonKey json t f.key = false := by
  constructor
  · intro h
    induction tokens with
    | nil => cases h
    | cons token rest ih =>
      rw [lastNext] at h
      cases hr : lastNext json f rest with
      | some r =>
        rw [hr, Option.some_or] at h
        obtain ⟨front,name,back,rfl,hname,hback⟩ := ih (hr.trans h)
        exact ⟨token::front,name,back,rfl,hname,hback⟩
      | none =>
        rw [hr, Option.none_or] at h
        split_ifs at h with hname
        obtain ⟨back,rfl⟩ := List.head?_eq_some_iff.mp (Option.some_inj.mp h)
        exact ⟨[],token,back,rfl,hname,(last_next_none_iff json f _).mp hr⟩
  · rintro ⟨front,name,back,rfl,hname,hback⟩
    induction front with
    | nil =>
      have hnone := (last_next_none_iff json f (value::back)).mpr hback
      rw [List.nil_append, lastNext, hnone, hname]
      rfl
    | cons token front ih => rw [List.cons_append, lastNext, ih, Option.some_or]

theorem read_field_some (i : ℕ) (token value : JsmnTok) (f : Field) (t : BtceTicker D) :
    ∃ u, readField strtold json i token (some value) t f = .ok u ∧ u.pair = t.pair ∧
      ∀ g, u.get g = if g = f ∧ equalJsonKey json token f.key then
        number strtold json f value else t.get g := by
  unfold readField
  split_ifs with h
  · exact ⟨_,rfl,pair_assign strtold json t value f,
      fun g => by simp [get_assign strtold json t value f g, h]⟩
  · exact ⟨t,rfl,rfl,by simp [h]⟩

theorem read_fields_some (i : ℕ) (token value : JsmnTok) (fs : List Field) (t : BtceTicker D) :
    ∃ u, readFields strtold json i token (some value) fs t = .ok u ∧ u.pair = t.pair ∧
      ∀ g, u.get g = if g ∈ fs ∧ equalJsonKey json token g.key then
        number strtold json g value else t.get g := by
  induction fs generalizing t with
  | nil => exact ⟨t,rfl,rfl,by simp⟩
  | cons f fs ih =>
    obtain ⟨v,hv,hvp,hvg⟩ := read_field_some strtold json i token value f t
    obtain ⟨u,hu,hup,hug⟩ := ih v
    refine ⟨u,by rw [readFields, hv]; exact hu,hup.trans hvp,fun g => ?_⟩
    rw [hug, hvg]
    by_cases hg : g = f
    · subst hg
      by_cases hk : equalJsonKey json token g.key = true <;> simp [hk]
    · simp [hg]

theorem read_fields_none (i : ℕ) (token : JsmnTok) (fs : List Field) (t u : BtceTicker D) :
    readFields strtold json i token none fs t = .ok u ↔
      t = u ∧ ∀ f ∈ fs, equalJsonKey json token f.key = false := by
  induction fs with
  | nil => simp [readFields]
  | cons f fs ih =>
    cases h : equalJsonKey json token f.key with
    | true => simp [readFields, readField, h, Except.bind]
    | false =>
      simp only [readFields, readField, h, Bool.false_eq_true, if_false, Except.bind, ih]
      simp [h]

theorem last_next_single (f : Field) (token : JsmnTok) :
    lastNext json f [token] = if equalJsonKey json token f.key then some none else none := rfl

theorem final_number_cons (f : Field) (token value : JsmnTok) (rest : List JsmnTok) (old : Num D) :
    finalNumber strtold json f (token::value::rest) old =
      finalNumber strtold json f (value::rest)
        (if equalJsonKey json token f.key then number strtold json f value else old) := by
  unfold finalNumber
  rw [lastNext]
  cases lastNext json f (value::rest) with
  | some r => cases r <;> rfl
  | none => split_ifs <;> rfl

theorem final_number_single (f : Field) (token : JsmnTok) (old new : Num D) :
    finalNumber strtold json f [token] old = some new ↔
      old = new ∧ equalJsonKey json token f.key = false := by
  unfold finalNumber
  rw [last_next_single]
  cases equalJsonKey json token f.key <;> simp

/-- The loop ends well when no field's last token is the last token of all,
and each field then holds what this token says. -/
theorem read_tokens_ok_iff (i : ℕ) (tokens : List JsmnTok) (t u : BtceTicker D) :
    readTokens strtold json i tokens t = .ok u ↔
      u.pair = t.pair ∧ ∀ f, finalNumber strtold json f tokens (t.get f) = some (u.get f) := by
  induction tokens generalizing i t with
  | nil =>
    simp only [readTokens, Except.ok.injEq, finalNumber, lastNext, Option.some.injEq]
    constructor
    · rintro rfl
      exact ⟨rfl,fun _ => rfl⟩
    · rintro ⟨hp,hg⟩
      exact ticker_ext t u hp.symm hg
  | cons token rest ih =>
    cases rest with
    | nil =>
      have hlast : readTokens strtold json i [token] t = .ok u ↔
          readFields strtold json i token none Field.all t = .ok u := by
        simp only [readTokens, List.head?_nil]
        cases readFields strtold json i token none Field.all t <;> exact Iff.rfl
      rw [hlast, read_fields_none]
      simp only [final_number_single]
      constructor
      · rintro ⟨rfl,hk⟩
        exact ⟨rfl,fun f => ⟨rfl,hk f (mem_all f)⟩⟩
      · rintro ⟨hp,hf⟩
        exact ⟨ticker_ext t u hp.symm (fun f => (hf f).1),fun f _ => (hf f).2⟩
    | cons value rest =>
      obtain ⟨v,hv,hvp,hvg⟩ := read_fields_some strtold json i token value Field.all t
      have hstep : readTokens strtold json i (token::value::rest) t =
          readTokens strtold json (i+1) (value::rest) v := by
        rw [readTokens, List.head?_cons, hv]
        rfl
      simp only [hstep, ih, final_number_cons, hvp, hvg, mem_all, true_and]

end Spec

end Flip.Ticker
