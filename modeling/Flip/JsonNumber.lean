import Flip.Json
import Flip.LongestMatch

/-!
# Numbers that end with their token

`strtol` and `strtold` skip white space and take the longest prefix of the
form they expect; neither is told where the token ends. A token of the
tokenizer has none of the characters they skip, and no form has a character
that ends a token, so what they take ends there too.
-/

set_option autoImplicit false

namespace Flip.JsonNumber
open Flip.CLib Flip.Decimal Flip.Json Flip.LongestMatch
open RegularExpression

def digitChars : Buf := ascii "0123456789"
def hexChars : Buf := ascii "0123456789abcdefABCDEF"

def nChars : Buf :=
  ascii "0123456789_abcdefghijklmnopqrstuvwxyzABCDEFGHIJKLMNOPQRSTUVWXYZ"

def sign : RegularExpression Byte := maybe (anyOf (ascii "+-"))

def digits : RegularExpression Byte := oneOrMore (anyOf digitChars)

def anyCase (lower upper : String) : RegularExpression Byte :=
  ((ascii lower).zip (ascii upper)).foldr (fun c P => anyOf [c.1,c.2]*P) 1

def pointed (cs : Buf) : RegularExpression Byte :=
  oneOrMore (anyOf cs)*maybe (char 46*(anyOf cs).star)+char 46*oneOrMore (anyOf cs)

def exponent (letters : Buf) : RegularExpression Byte := maybe (anyOf letters*sign*digits)

def decimalForm : RegularExpression Byte := pointed digitChars*exponent (ascii "eE")

def hexForm : RegularExpression Byte :=
  char 48*anyOf (ascii "xX")*pointed hexChars*exponent (ascii "pP")

def infinityForm : RegularExpression Byte := anyCase "inf" "INF"*maybe (anyCase "inity" "INITY")

def nanForm : RegularExpression Byte :=
  anyCase "nan" "NAN"*maybe (char 40*(anyOf nChars).star*char 41)

def integerForm : RegularExpression Byte := sign*digits

/-- What `strtold` expects. -/
def floatForm : RegularExpression Byte := sign*(decimalForm+hexForm+infinityForm+nanForm)

/-- The subject sequence of a conversion. -/
def subject (form : RegularExpression Byte) (b : Buf) : Option Buf :=
  longest form (b.dropWhile isCSpace)

def consumed (form : RegularExpression Byte) (b : Buf) : Buf :=
  match subject form b with
  | none => []
  | some s => b.takeWhile isCSpace++s

section Strtold

variable {D : Type} [Zero D]

/-- The value of a subject sequence is a parameter. -/
def strtold (convert : Buf → D) (b : Buf) : D :=
  match subject floatForm b with
  | none => 0
  | some s => convert s

end Strtold

def isDelimiter (c : Byte) : Bool := [32,9,13,10,44,58,93,125].contains c

def tokenText (json : CString) (token : JsmnTok) : Buf :=
  (textFrom json token.start).take (token.stop-token.start)

/-- A primitive up to the delimiter or the terminator that follows it.
`jsmn_parse_primitive` reports an error at any other byte. -/
structure PrimToken (json : CString) (token : JsmnTok) : Prop where
  type : token.type = .primitive
  nonempty : token.start < token.stop
  inside : token.stop ≤ json.strlen
  bare : ∀ c ∈ tokenText json token, isDelimiter c = false
  printable : ∀ c ∈ tokenText json token, 32 ≤ c ∧ c < 127
  ends : ∀ c, (textFrom json token.stop).head? = some c → isDelimiter c = true ∨ c = 0

def primToken (json : CString) (token : JsmnTok) : Bool :=
  token.type = .primitive && token.start < token.stop && token.stop ≤ json.strlen &&
    (tokenText json token).all (fun c => !isDelimiter c) &&
    (tokenText json token).all (fun c => 32 ≤ c && c < 127) &&
    (textFrom json token.stop).head?.all (fun c => isDelimiter c || c = 0)

theorem prim_token_iff (json : CString) (token : JsmnTok) :
    primToken json token = true ↔ PrimToken json token := by
  simp only [primToken, Bool.and_eq_true, decide_eq_true_eq, List.all_eq_true, Bool.not_eq_true',
    Option.all_eq_true, Bool.or_eq_true]
  constructor
  · rintro ⟨⟨⟨⟨⟨htype,hnonempty⟩,hinside⟩,hbare⟩,hprintable⟩,hends⟩
    exact ⟨htype,hnonempty,hinside,hbare,hprintable,hends⟩
  · rintro ⟨htype,hnonempty,hinside,hbare,hprintable,hends⟩
    exact ⟨⟨⟨⟨⟨htype,hnonempty⟩,hinside⟩,hbare⟩,hprintable⟩,hends⟩

instance (json : CString) (token : JsmnTok) : Decidable (PrimToken json token) :=
  decidable_of_iff _ (prim_token_iff json token)

def Sign (s : Buf) : Prop := s = [] ∨ s = [43] ∨ s = [45]

def Digits (ds : Buf) : Prop := ds ≠ [] ∧ ∀ c ∈ ds, isDigit c = true

def signedValue (s ds : Buf) : ℤ := if s = [45] then -digitsValue ds else digitsValue ds

variable {D : Type} [Zero D]

/-- Both readers stop inside the token, their values are those of any other
token of the same characters, and a decimal that fits `int` is read exactly. -/
structure ReadsToken (convert : Buf → D) (json : CString) (token : JsmnTok) : Prop where
  intInside : token.start+(consumed integerForm (textFrom json token.start)).length ≤ token.stop
  doubleInside : token.start+(consumed floatForm (textFrom json token.start)).length ≤ token.stop
  intValue : ∀ json' token', PrimToken json' token' →
    tokenText json' token' = tokenText json token → getJsonInt json' token' = getJsonInt json token
  doubleValue : ∀ json' token', PrimToken json' token' →
    tokenText json' token' = tokenText json token →
    getJsonDouble (strtold convert) json' token' = getJsonDouble (strtold convert) json token
  decimal : ∀ s ds, tokenText json token = s++ds → Sign s → Digits ds →
    -2^31 ≤ signedValue s ds → signedValue s ds < 2^31 →
    (getJsonInt json token).toInt = signedValue s ds

section Locality

def inToken (c : Byte) : Bool := !isDelimiter c && c ≠ 0

theorem forms_in_token :
    builtFrom inToken integerForm = true ∧ builtFrom inToken floatForm = true := by
  decide +kernel

theorem byte_between (a b c : Byte) (ha : a ≤ c) (hb : c ≤ b) :
    ∃ n, a.toNat ≤ n ∧ n ≤ b.toNat ∧ c = UInt8.ofNat n :=
  ⟨c.toNat,UInt8.le_iff_toNat_le.mp ha,UInt8.le_iff_toNat_le.mp hb,UInt8.ofNat_toNat.symm⟩

theorem printable_not_space (c : Byte) (hc : 32 ≤ c) (hd : isDelimiter c = false) :
    isCSpace c = false := by
  have hblank : c ≠ 32 := by
    rintro rfl
    cases hd
  have hlow : ¬c ≤ 13 := fun h => absurd (UInt8.le_trans hc h) (by decide)
  simp [isCSpace, hblank, hlow]

variable (form : RegularExpression Byte)

theorem consumed_front (b : Buf) : consumed form b <+: b := by
  rw [consumed]
  cases hs : subject form b with
  | none => exact List.nil_prefix
  | some s =>
    obtain ⟨hfront,-⟩ := (longest_some_iff form _ s).mp hs
    have hb := (List.prefix_append_right_inj (b.takeWhile isCSpace)).mpr hfront
    rwa [List.takeWhile_append_dropWhile] at hb

variable (hform : builtFrom inToken form = true) (b rest : Buf)
  (hb : ∃ c ∈ b, isCSpace c = false) (hrest : ∀ c, rest.head? = some c → inToken c = false)

include hform hb hrest

/-- What follows the token has no part in the conversion. -/
theorem subject_append : subject form (b++rest) = subject form b := by
  obtain ⟨c,hc,hspace⟩ := hb
  have hne : b.dropWhile isCSpace ≠ [] := by
    intro hnil
    rw [List.dropWhile_eq_nil_iff] at hnil
    rw [hnil c hc] at hspace
    cases hspace
  rw [subject, subject, List.dropWhile_append, if_neg (by simpa using hne)]
  exact longest_append form inToken hform _ rest hrest

theorem consumed_append : consumed form (b++rest) = consumed form b := by
  have hspaces : (b++rest).takeWhile isCSpace = b.takeWhile isCSpace := by
    obtain ⟨c,hc,hspace⟩ := hb
    rw [List.takeWhile_append, if_neg]
    intro hlength
    rw [(List.takeWhile_prefix isCSpace).eq_of_length hlength |>.symm] at hc
    rw [List.mem_takeWhile_imp hc] at hspace
    cases hspace
  rw [consumed, consumed, subject_append form hform b rest hb hrest, hspaces]

end Locality

theorem digit_chars_iff (c : Byte) : c ∈ digitChars ↔ isDigit c = true := by
  constructor
  · exact List.all_eq_true.mp (show digitChars.all isDigit = true by decide) c
  · intro hc
    rw [isDigit, Bool.and_eq_true, decide_eq_true_eq, decide_eq_true_eq] at hc
    obtain ⟨n,hn,hn',rfl⟩ := byte_between 48 57 c hc.1 hc.2
    change 48 ≤ n at hn
    change n ≤ 57 at hn'
    interval_cases n <;> decide

theorem match_digits (ds : Buf) : ds ∈ digits.matches' ↔ Digits ds := by
  rw [digits, match_one_or_more_any_of, Digits]
  exact and_congr_right (fun _ => forall₂_congr (fun c _ => digit_chars_iff c))

theorem match_sign (s : Buf) : s ∈ sign.matches' ↔ Sign s := by
  have hchars : ascii "+-" = [43,45] := by decide
  rw [sign, match_maybe, match_any_of, Sign, hchars]
  simp

theorem match_integer_form (b : Buf) :
    b ∈ integerForm.matches' ↔ ∃ s ds, b = s++ds ∧ Sign s ∧ Digits ds := by
  rw [integerForm, matches'_mul, Language.mem_mul]
  constructor
  · rintro ⟨s,hs,ds,hds,rfl⟩
    exact ⟨s,ds,rfl,(match_sign s).mp hs,(match_digits ds).mp hds⟩
  · rintro ⟨s,ds,rfl,hs,hds⟩
    exact ⟨s,(match_sign s).mpr hs,ds,(match_digits ds).mpr hds,rfl⟩

section Strtol

def signOf (t : Buf) : Buf := if t.head? = some 45 ∨ t.head? = some 43 then t.take 1 else []

def unsigned (t : Buf) : Buf := if t.head? = some 45 ∨ t.head? = some 43 then t.tail else t

theorem sign_of_append (t : Buf) : signOf t++unsigned t = t := by
  rw [signOf, unsigned]
  split_ifs
  · cases t <;> simp
  · rfl

theorem sign_sign_of (t : Buf) : Sign (signOf t) := by
  rw [signOf]
  split_ifs with h
  · cases t with
    | nil => simp at h
    | cons c t =>
      simp only [List.head?_cons, Option.some.injEq] at h
      rcases h with rfl | rfl
      · exact .inr (.inr rfl)
      · exact .inr (.inl rfl)
  · exact .inl rfl

theorem sign_of_number (s ds rest : Buf) (hs : Sign s) (hds : Digits ds) :
    signOf (s++ds++rest) = s ∧ unsigned (s++ds++rest) = ds++rest := by
  rcases hs with rfl | rfl | rfl
  · obtain ⟨hne,hall⟩ := hds
    obtain ⟨c,ds,rfl⟩ := List.exists_cons_of_ne_nil hne
    have hc := hall c (by simp)
    simp [signOf, unsigned, digit_ne c 45 hc rfl, digit_ne c 43 hc rfl]
  · simp [signOf, unsigned]
  · simp [signOf, unsigned]

theorem digits_front (ds u : Buf) (h : ds <+: u) (hall : ∀ c ∈ ds, isDigit c = true) :
    ds <+: u.takeWhile isDigit := by
  obtain ⟨rest,rfl⟩ := h
  rw [List.takeWhile_append_of_pos hall]
  exact List.prefix_append _ _

theorem number_front (t u : Buf) (hu : u <+: t) (hm : u ∈ integerForm.matches') :
    ∃ ds, u = signOf t++ds ∧ ds ≠ [] ∧ ds <+: (unsigned t).takeWhile isDigit := by
  obtain ⟨s,ds,rfl,hs,hds⟩ := (match_integer_form u).mp hm
  obtain ⟨rest,rfl⟩ := hu
  obtain ⟨hsign,hunsigned⟩ := sign_of_number s ds rest hs hds
  refine ⟨ds,by rw [hsign],hds.1,?_⟩
  rw [hunsigned]
  exact digits_front ds _ (List.prefix_append _ _) hds.2

theorem longest_integer_none (t : Buf) (h : (unsigned t).takeWhile isDigit = []) :
    longest integerForm t = none := by
  rw [longest_none_iff]
  intro u hu hm
  obtain ⟨ds,-,hne,hfront⟩ := number_front t u hu hm
  rw [h, List.prefix_nil] at hfront
  exact hne hfront

theorem longest_integer_some (t : Buf) (h : (unsigned t).takeWhile isDigit ≠ []) :
    longest integerForm t = some (signOf t++(unsigned t).takeWhile isDigit) := by
  rw [longest_some_iff]
  refine ⟨?_,?_,fun u hu hm => ?_⟩
  · have hfront := List.takeWhile_prefix (l := unsigned t) isDigit
    have happend := (List.prefix_append_right_inj (signOf t)).mpr hfront
    rwa [sign_of_append] at happend
  · rw [match_integer_form]
    exact ⟨_,_,rfl,sign_sign_of t,h,fun c hc => List.mem_takeWhile_imp hc⟩
  · obtain ⟨ds,rfl,-,hfront⟩ := number_front t u hu hm
    rw [List.length_append, List.length_append]
    exact Nat.add_le_add_left hfront.length_le _

def integerValue (s : Buf) : Int64 := clampLong (signedValue (signOf s) (unsigned s))

theorem sign_of_minus (t : Buf) : signOf t = [45] ↔ t.head? = some 45 := by
  cases t with
  | nil => simp [signOf]
  | cons c t =>
    simp only [signOf, List.head?_cons, Option.some.injEq, List.take_succ_cons, List.take_zero]
    split_ifs with h
    · simp
    · exact iff_of_false (by simp) (fun hc => h (.inl hc))

theorem strtol_subject (b : Buf) :
    strtol b = match subject integerForm b with
      | none => 0
      | some s => integerValue s := by
  have hvalue : strtol b = clampLong (signedValue (signOf (b.dropWhile isCSpace))
      ((unsigned (b.dropWhile isCSpace)).takeWhile isDigit)) := by
    simp only [signedValue, sign_of_minus]
    rfl
  rw [hvalue, subject]
  generalize b.dropWhile isCSpace = t
  by_cases h : (unsigned t).takeWhile isDigit = []
  · rw [longest_integer_none t h, h]
    rw [signedValue]
    split_ifs <;> rfl
  · have hdigits : Digits ((unsigned t).takeWhile isDigit) :=
      ⟨h,fun c hc => List.mem_takeWhile_imp hc⟩
    have hnumber := sign_of_number _ _ [] (sign_sign_of t) hdigits
    rw [List.append_nil, List.append_nil] at hnumber
    rw [longest_integer_some t h]
    simp only [integerValue, hnumber.1, hnumber.2]

theorem subject_number (s ds : Buf) (hs : Sign s) (hds : Digits ds) :
    subject integerForm (s++ds) = some (s++ds) := by
  have hskip : (s++ds).dropWhile isCSpace = s++ds := by
    rcases hs with rfl | rfl | rfl
    · obtain ⟨hne,hall⟩ := hds
      obtain ⟨c,ds,rfl⟩ := List.exists_cons_of_ne_nil hne
      rw [List.nil_append, List.dropWhile_cons, if_neg]
      rw [digit_not_space c (hall c (by simp))]
      decide
    · rfl
    · rfl
  rw [subject, hskip]
  exact longest_self integerForm _ ((match_integer_form _).mpr ⟨s,ds,rfl,hs,hds⟩)

theorem strtol_number (s ds : Buf) (hs : Sign s) (hds : Digits ds) :
    strtol (s++ds) = clampLong (signedValue s ds) := by
  have hnumber := sign_of_number s ds [] hs hds
  rw [List.append_nil, List.append_nil] at hnumber
  rw [strtol_subject, subject_number s ds hs hds]
  simp only [integerValue, hnumber.1, hnumber.2]

end Strtol

section Token

variable {json : CString} {token : JsmnTok} (h : PrimToken json token)

include h

theorem token_split :
    textFrom json token.start = tokenText json token++textFrom json token.stop := by
  have hstop : token.start+(token.stop-token.start) = token.stop :=
    Nat.add_sub_of_le (Nat.le_of_lt h.nonempty)
  calc textFrom json token.start
      = tokenText json token++(textFrom json token.start).drop (token.stop-token.start) :=
        (List.take_append_drop _ _).symm
    _ = tokenText json token++textFrom json token.stop := by
        rw [textFrom, textFrom, List.drop_drop, hstop]

theorem token_length : (tokenText json token).length = token.stop-token.start := by
  have hinside := h.inside
  have hnonempty := h.nonempty
  rw [tokenText, List.length_take_of_le]
  rw [textFrom, List.length_drop, memory_length]
  omega

theorem token_ends (c : Byte) (hc : (textFrom json token.stop).head? = some c) :
    inToken c = false := by
  rcases h.ends c hc with hd | rfl
  · rw [inToken, hd]
    rfl
  · rfl

theorem token_visible : ∃ c ∈ tokenText json token, isCSpace c = false := by
  have hnonempty := h.nonempty
  have hne : tokenText json token ≠ [] := by
    apply List.ne_nil_of_length_pos
    rw [token_length h]
    omega
  obtain ⟨c,hc⟩ := List.exists_mem_of_ne_nil _ hne
  exact ⟨c,hc,printable_not_space c (h.printable c hc).1 (h.bare c hc)⟩

section Form

variable (form : RegularExpression Byte) (hform : builtFrom inToken form = true)

include hform

theorem token_subject :
    subject form (textFrom json token.start) = subject form (tokenText json token) := by
  rw [token_split h]
  exact subject_append form hform _ _ (token_visible h) (token_ends h)

theorem token_inside :
    token.start+(consumed form (textFrom json token.start)).length ≤ token.stop := by
  have hlength := (consumed_front form (tokenText json token)).length_le
  have hnonempty := h.nonempty
  rw [token_length h] at hlength
  rw [token_split h, consumed_append form hform _ _ (token_visible h) (token_ends h)]
  omega

end Form

theorem token_int : getJsonInt json token = (strtol (tokenText json token)).toInt32 := by
  rw [getJsonInt, if_neg (not_not.mpr h.type), strtol_subject,
    token_subject h integerForm forms_in_token.1, ← strtol_subject]

theorem token_double (convert : Buf → D) :
    getJsonDouble (strtold convert) json token = strtold convert (tokenText json token) := by
  rw [getJsonDouble, if_neg (not_not.mpr h.type), strtold, strtold,
    token_subject h floatForm forms_in_token.2]

end Token

theorem token_decimal {json : CString} {token : JsmnTok} (h : PrimToken json token) (s ds : Buf)
    (htext : tokenText json token = s++ds) (hs : Sign s) (hds : Digits ds)
    (hmin : -2^31 ≤ signedValue s ds) (hmax : signedValue s ds < 2^31) :
    (getJsonInt json token).toInt = signedValue s ds := by
  have hlong : clampLong (signedValue s ds) = Int64.ofInt (signedValue s ds) :=
    clamp_long_of_fits _ (le_trans (by decide) hmin) (le_trans (Int.le_of_lt hmax) (by decide))
  rw [token_int h, htext, strtol_number s ds hs hds,
    hlong, Int64.toInt32_ofInt]
  exact Int32.toInt_ofInt_of_le hmin hmax

/-- Both readers keep to the token. -/
theorem reads_token (convert : Buf → D) (json : CString) (token : JsmnTok)
    (h : PrimToken json token) : ReadsToken convert json token where
  intInside := token_inside h integerForm forms_in_token.1
  doubleInside := token_inside h floatForm forms_in_token.2
  intValue json' token' h' htext := by
    rw [token_int h, token_int h', htext]
  doubleValue json' token' h' htext := by
    rw [token_double h, token_double h', htext]
  decimal s ds htext hs hds hmin hmax := token_decimal h s ds htext hs hds hmin hmax

def sevenText : CString := ⟨ascii "+07,",by decide⟩

def sevenToken : JsmnTok := ⟨.primitive,0,3⟩

theorem reads_seven : ReadsToken (fun b => (b.length : ℤ)) sevenText sevenToken :=
  reads_token _ sevenText sevenToken (by decide)

end Flip.JsonNumber
