import Flip.Decimal

/-!
# JSON tokens

The tokenizer is a parameter with its two passes; tokens are ranges of the
text. The two number readers hand the rest of the text to the C library and
keep what their return types hold.
-/

set_option autoImplicit false

namespace Flip.Json
open Flip.CLib Flip.Decimal

inductive JsmnType where
  | undefined
  | object
  | array
  | string
  | primitive
  deriving DecidableEq

structure JsmnTok where
  type : JsmnType
  start : ℕ
  stop : ℕ
  deriving DecidableEq

/-- `jsmn_parse` without and with a token array: the code it returns, and the
array as it leaves it. -/
structure Jsmn where
  count : Buf → ℤ
  parse : Buf → ℕ → ℤ × List JsmnTok

def jsmnErrorNomem : ℤ := -1
def jsmnErrorInval : ℤ := -2
def jsmnErrorPart : ℤ := -3

def jsmnError (errnum : ℤ) : Errno :=
  if errnum = jsmnErrorNomem then .enomem
  else if errnum = jsmnErrorInval then .eio
  else if errnum = jsmnErrorPart then .eagain
  else .enoent

def getJsonTokenCount (jsmn : Jsmn) (json : CString) : Except Errno ℕ :=
  if jsmn.count json.bytes < 0 then .error (jsmnError (jsmn.count json.bytes))
  else .ok (jsmn.count json.bytes).toNat

def textFrom (json : CString) (start : ℕ) : Buf := json.memory.drop start

/-- The key is shorter than the text and has no NUL of its own, so that
`strncmp` compares all its bytes. -/
def equalJsonKey (json : CString) (token : JsmnTok) (key : Buf) : Bool :=
  token.type = .string && (key.length : ℤ) = token.stop-token.start &&
    (textFrom json token.start).take key.length = key

section Double

variable {D : Type} [Zero D] (strtold : Buf → D)

def getJsonDouble (json : CString) (token : JsmnTok) : D :=
  if token.type ≠ .primitive then 0 else strtold (textFrom json token.start)

end Double

def isCSpace (c : Byte) : Bool := c = 32 || (9 ≤ c && c ≤ 13)

def longMin : ℤ := -2^63
def longMax : ℤ := 2^63-1

/-- Base ten: blanks, a sign, digits; the value is kept inside `long`. -/
def strtol (s : Buf) : Int64 :=
  let t := s.dropWhile isCSpace
  let u := if t.head? = some 45 ∨ t.head? = some 43 then t.tail else t
  let n : ℤ := digitsValue (u.takeWhile isDigit)
  Int64.ofInt (max longMin (min longMax (if t.head? = some 45 then -n else n)))

/-- The `long` is returned as an `int`, which keeps its low half. -/
def getJsonInt (json : CString) (token : JsmnTok) : Int32 :=
  if token.type ≠ .primitive then 0 else (strtol (textFrom json token.start)).toInt32

def clampLong (n : ℤ) : Int64 := Int64.ofInt (max longMin (min longMax n))

theorem clamp_long_of_fits (n : ℤ) (hmin : longMin ≤ n) (hmax : n ≤ longMax) :
    clampLong n = Int64.ofInt n := by
  rw [clampLong, min_eq_right hmax, max_eq_right hmin]

theorem digit_not_space (c : Byte) (h : isDigit c = true) : isCSpace c = false := by
  by_contra hs
  simp only [isCSpace, isDigit, Bool.not_eq_false, Bool.or_eq_true, Bool.and_eq_true,
    decide_eq_true_eq] at hs h
  rcases hs with rfl | ⟨-,hs⟩
  · exact absurd h.1 (by decide)
  · exact absurd (UInt8.le_trans h.1 hs) (by decide)

theorem digit_ne (b c : Byte) (hb : isDigit b = true) (hc : isDigit c = false) : b ≠ c := by
  rintro rfl
  rw [hb] at hc
  cases hc

theorem strtol_digits (ds t : Buf) (hne : ds ≠ []) (hd : ∀ c ∈ ds, isDigit c = true)
    (ht : ∀ c, t.head? = some c → isDigit c = false) :
    strtol (ds++t) = clampLong (digitsValue ds) := by
  obtain ⟨b,bs,rfl⟩ := List.exists_cons_of_ne_nil hne
  have hb := hd b (by simp)
  have htake := take_while_digits _ t hd ht
  rw [List.cons_append] at htake ⊢
  simp only [strtol, List.dropWhile_cons, digit_not_space b hb, Bool.false_eq_true, if_false,
    List.head?_cons, Option.some.injEq, digit_ne b 45 hb rfl, digit_ne b 43 hb rfl, or_self, htake]
  rfl

theorem strtol_minus (ds t : Buf) (hd : ∀ c ∈ ds, isDigit c = true)
    (ht : ∀ c, t.head? = some c → isDigit c = false) :
    strtol (45::(ds++t)) = clampLong (-digitsValue ds) := by
  have htake := take_while_digits ds t hd ht
  simp [strtol, isCSpace, htake, clampLong]

theorem strtol_decimal (n : ℕ) (c : Byte) (rest : Buf) (hn : (n : ℤ) ≤ longMax)
    (hc : isDigit c = false) : strtol (decimal n++c::rest) = Int64.ofInt n := by
  have hmin : longMin ≤ n := le_trans (by decide) (Int.natCast_nonneg n)
  rw [strtol_digits _ _ (decimal_ne_nil n) (decimal_digits n) (by simpa using hc),
    digits_value_decimal, clamp_long_of_fits n hmin hn]

theorem strtol_negative (n : ℕ) (c : Byte) (rest : Buf) (hn : longMin ≤ -n)
    (hc : isDigit c = false) : strtol (45::(decimal n++c::rest)) = Int64.ofInt (-n) := by
  have hmax : -(n : ℤ) ≤ longMax := le_trans (neg_nonpos.mpr (Int.natCast_nonneg n)) (by decide)
  rw [strtol_minus _ _ (decimal_digits n) (by simpa using hc), digits_value_decimal,
    clamp_long_of_fits _ hn hmax]

end Flip.Json
