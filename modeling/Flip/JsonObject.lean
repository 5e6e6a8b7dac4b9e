import Flip.JsonString

/-!
# Reading an object piece by piece

Rewriting rules for the decoder on a text whose next bytes are known: a blank,
a quote, a key with its colon, a decimal number, the end of a member.
-/

set_option autoImplicit false

namespace Flip.JsonObject
open Flip.CLib Flip.Decimal Flip.JsonText Flip.JsonReading Flip.JsonString

theorem blanks_then {β : Type} (f : Unit → Reader β) (s : Buf) :
    (blanks >>= f) s = f () (skipBlanks s) := bind_reads rfl

theorem skip_blank (s : Buf) : skipBlanks (32::s) = skipBlanks s := by
  simp [skipBlanks, isBlank]

theorem skip_nothing (c : Byte) (s : Buf) (hc : isBlank c = false) :
    skipBlanks (c::s) = c::s := by
  simp [skipBlanks, hc]

theorem value_blank (n : ℕ) (s : Buf) : value n (32::s) = value n s := by
  cases n with
  | zero => rfl
  | succ n => simp only [value, valueWith, blanks_then, skip_blank]

theorem members_blank (n : ℕ) (s : Buf) : members n (32::s) = members n s := by
  cases n with
  | zero => rfl
  | succ n => simp only [members, membersWith, blanks_then, skip_blank]

theorem expect_head (c : Byte) (s : Buf) : expect c (c::s) = some ((),s) := by simp [expect]

theorem string_literal_quote (s : Buf) : stringLiteral (quote::s) = stringBody s :=
  bind_reads (expect_head quote s)

theorem value_quote (n : ℕ) (s : Buf) :
    value (n+1) (quote::s) = (stringBody s).map (fun r => (.str r.1,r.2)) := by
  simp only [value, valueWith, blanks_then, skip_nothing quote s rfl, peek, if_true]
  cases h : stringBody s with
  | none =>
    change andThen _ _ _ = _
    simp [andThen, string_literal_quote, h]
  | some r =>
    rw [bind_reads ((string_literal_quote s).trans h)]
    rfl

theorem value_object (n : ℕ) (s : Buf) :
    value (n+1) (lbrace::quote::s) =
      (members n (quote::s)).map (fun r => (.obj r.1,r.2)) := by
  simp only [value, valueWith, blanks_then, skip_nothing lbrace _ rfl, peek,
    show lbrace ≠ quote by decide, if_false, if_true, objectWith]
  rw [bind_reads (expect_head lbrace _)]
  simp only [blanks_then, skip_nothing quote s rfl, peek, show quote ≠ rbrace by decide, if_false]
  cases h : members n (quote::s) with
  | none =>
    change andThen _ _ _ = _
    simp [andThen, h]
  | some r =>
    rw [bind_reads h]
    rfl

theorem members_key (n : ℕ) (k s : Buf) (hk : Plain k) :
    members (n+1) (quote::(k++quote::colon::s)) =
      (value n s).bind (fun r => memberTail (members n) k r.1 r.2) := by
  simp only [members, membersWith, blanks_then, skip_nothing quote _ rfl]
  rw [bind_reads ((string_literal_quote _).trans (string_body_plain k (colon::s) hk))]
  simp only [blanks_then, skip_nothing colon _ rfl]
  rw [bind_reads (expect_head colon _)]
  rfl

theorem member_tail_comma (n : ℕ) (k s : Buf) (v : JVal) :
    memberTail (members n) k v (comma::s) =
      (members n s).map (fun r => ((k,v)::r.1,r.2)) := by
  simp only [memberTail, blanks_then, skip_nothing comma _ rfl, peek, if_true]
  rw [bind_reads (expect_head comma _)]
  cases h : members n s with
  | none =>
    change andThen _ _ _ = _
    simp [andThen, h]
  | some r =>
    rw [bind_reads h]
    rfl

theorem member_tail_end (n : ℕ) (k r t : Buf) (v : JVal) (hr : skipBlanks r = []) :
    memberTail (members n) k v (r++rbrace::t) = some ([(k,v)],t) := by
  have hs : skipBlanks (r++rbrace::t) = rbrace::t := by
    have := drop_while_brace isBlank rfl r t
    rw [skipBlanks] at hr
    simpa [skipBlanks, hr] using this
  simp only [memberTail, blanks_then, hs, peek, show rbrace ≠ comma by decide, if_false]
  exact bind_reads (expect_head rbrace t)

def Continues (c : Byte) : Prop := isDigit c = true ∨ c = 46 ∨ c = 101 ∨ c = 69

theorem number_decimal (k : ℕ) (t : Buf) (ht : ∀ c, t.head? = some c → ¬Continues c) :
    number (decimal k++t) = some (.num k 0,t) := by
  have hdigit : ∀ c, t.head? = some c → isDigit c = false :=
    fun c hc => by simpa using fun h => ht c hc (.inl h)
  obtain ⟨b,ds,hb⟩ := List.exists_cons_of_ne_nil (decimal_ne_nil k)
  have hbd : isDigit b = true := decimal_digits k b (by simp [hb])
  have hminus : accept (· = 45) (decimal k++t) = some (false,decimal k++t) := by
    have : b ≠ 45 := by
      rintro rfl
      exact absurd hbd (by decide)
    simp [hb, accept, this]
  have hdigits : digits (decimal k++t) = some (decimal k,t) := by
    simp [digits, take_while_digits _ t (decimal_digits k) hdigit,
      drop_while_digits _ t (decimal_digits k) hdigit, decimal_ne_nil]
  have hpoint : accept (· = 46) t = some (false,t) := by
    cases t with
    | nil => rfl
    | cons c t =>
      have : c ≠ 46 := fun h => ht c rfl (.inr (.inl h))
      simp [accept, this]
  have hmark : accept (fun c => c = 101 || c = 69) t = some (false,t) := by
    cases t with
    | nil => rfl
    | cons c t =>
      have h1 : c ≠ 101 := fun h => ht c rfl (.inr (.inr (.inl h)))
      have h2 : c ≠ 69 := fun h => ht c rfl (.inr (.inr (.inr h)))
      simp [accept, h1, h2]
  have hfrac : fraction t = some ([],t) := by
    rw [fraction, bind_reads hpoint]
    rfl
  have hexp : exponent t = some (0,t) := by
    rw [exponent, bind_reads hmark]
    rfl
  rw [number, bind_reads hminus, bind_reads hdigits, if_neg (decimal_leading_zero k),
    bind_reads hfrac, bind_reads hexp]
  simp [give, digits_value_decimal]

theorem value_decimal (n k : ℕ) (c : Byte) (t : Buf) (hc : ¬Continues c) :
    value (n+1) (decimal k++c::t) = some (.num k 0,c::t) := by
  obtain ⟨b,ds,hb⟩ := List.exists_cons_of_ne_nil (decimal_ne_nil k)
  have hbd : isDigit b = true := decimal_digits k b (by simp [hb])
  have hne : ∀ d : Byte, isDigit d = false → b ≠ d := by
    rintro d hd rfl
    rw [hbd] at hd
    cases hd
  have hblank : isBlank b = false := by
    simp [isBlank, hne 32 rfl, hne 9 rfl, hne 10 rfl, hne 13 rfl]
  have hn := number_decimal k (c::t) (by simpa using hc)
  simp only [hb, List.cons_append] at hn ⊢
  simp only [value, valueWith, blanks_then, skip_nothing b _ hblank, peek, hne quote rfl,
    hne lbrace rfl, hne lbracket rfl, hne 110 rfl, hne 116 rfl, hne 102 rfl, if_false]
  exact hn

theorem comma_ends_number : ¬Continues comma := by
  unfold Continues
  decide

theorem member_tail_head (ms : Reader (List (Buf × JVal))) (k s t : Buf) (v : JVal)
    (l : List (Buf × JVal)) (h : memberTail ms k v s = some (l,t)) : l.head? = some (k,v) := by
  simp only [memberTail, blanks_then] at h
  cases hs : skipBlanks s with
  | nil => simp [hs, peek] at h
  | cons c u =>
    simp only [hs, peek] at h
    split_ifs at h
    · obtain ⟨_,_,-,h⟩ := bind_some_iff.mp h
      obtain ⟨_,_,-,h⟩ := bind_some_iff.mp h
      obtain ⟨rfl,-⟩ := give_some_iff.mp h
      rfl
    · obtain ⟨_,_,-,h⟩ := bind_some_iff.mp h
      obtain ⟨rfl,-⟩ := give_some_iff.mp h
      rfl

theorem decimal_member (n x : ℕ) (k more : Buf) (hk : Plain k) :
    members (n+2) (quote::(k++quote::colon::32::(decimal x++comma::32::quote::more))) =
      (members (n+1) (quote::more)).map (fun r => ((k,.num x 0)::r.1,r.2)) := by
  rw [members_key (n+1) k _ hk, value_blank, value_decimal n x comma _ comma_ends_number,
    Option.bind_some, member_tail_comma, members_blank]

/-- A member whose value is a text pasted between quotes, with another member
after it, is read back exactly when the text is plain. -/
theorem pasted_member (n : ℕ) (k s more rest : Buf) (ms : List (Buf × JVal)) (hk : Plain k) :
    members (n+2) (quote::(k++quote::colon::quote::(s++quote::comma::32::quote::more))) =
        some ((k,.str s)::ms,rest) ↔
      Plain s ∧ members (n+1) (quote::more) = some (ms,rest) := by
  have hm : members (n+2) (quote::(k++quote::colon::quote::(s++quote::comma::32::quote::more))) =
      (stringBody (s++quote::comma::32::quote::more)).bind
        (fun q => memberTail (members (n+1)) k (.str q.1) q.2) := by
    rw [members_key (n+1) k _ hk, value_quote]
    cases stringBody (s++quote::comma::32::quote::more) <;> rfl
  have htail : memberTail (members (n+1)) k (.str s) (comma::32::quote::more) =
      (members (n+1) (quote::more)).map (fun r => ((k,.str s)::r.1,r.2)) := by
    rw [member_tail_comma, members_blank]
  rw [hm]
  constructor
  · intro h
    obtain ⟨⟨s',r⟩,hb,ht⟩ := Option.bind_eq_some_iff.mp h
    have hs : s' = s := by
      have := member_tail_head _ _ _ _ _ _ ht
      simpa using this.symm
    subst hs
    obtain ⟨hp,rfl⟩ := string_body_pasted s' more r hb
    rw [htail] at ht
    obtain ⟨q,hq,he⟩ := Option.map_eq_some_iff.mp ht
    cases he
    exact ⟨hp,hq⟩
  · rintro ⟨hp,hq⟩
    rw [string_body_plain s _ hp, Option.bind_some, htail, hq]
    rfl

end Flip.JsonObject
