import Flip.JsonReading

/-!
# What a JSON string denotes

An escape sequence is longer than the bytes it stands for. A raw text that
denotes as many bytes as it has is therefore free of escapes and denotes
itself, and a text pasted between two quotes decodes to itself exactly when it
is plain.
-/

set_option autoImplicit false

namespace Flip.JsonString
open Flip.CLib Flip.Utf8 Flip.JsonText Flip.JsonReading

theorem hex_digit_some (s r : Buf) (v : ℕ) (h : hexDigit s = some (v,r)) :
    ∃ c, s = c::r ∧ c ≠ 32 ∧ v < 16 := by
  cases s with
  | nil => cases h
  | cons c s =>
    obtain ⟨w,hw,he⟩ := Option.map_eq_some_iff.mp h
    cases he
    refine ⟨c,rfl,?_,?_⟩
    · rintro rfl
      simp [hexValue] at hw
    · simp only [hexValue, UInt8.le_iff_toNat_le] at hw
      split_ifs at hw with h1 h2 h3 <;> cases hw
      · have := h1.2
        simp at this
        omega
      · have := h2.2
        simp at this
        omega
      · have := h3.2
        simp at this
        omega

theorem hex4_some (s r : Buf) (v : ℕ) (h : hex4 s = some (v,r)) :
    ∃ a b c d, s = a::b::c::d::r ∧ d ≠ 32 ∧ v < 0x10000 := by
  obtain ⟨v1,r1,h1,h⟩ := bind_some_iff.mp h
  obtain ⟨v2,r2,h2,h⟩ := bind_some_iff.mp h
  obtain ⟨v3,r3,h3,h⟩ := bind_some_iff.mp h
  obtain ⟨v4,r4,h4,h⟩ := bind_some_iff.mp h
  cases h
  obtain ⟨a,rfl,-,ha⟩ := hex_digit_some _ _ _ h1
  obtain ⟨b,rfl,-,hb⟩ := hex_digit_some _ _ _ h2
  obtain ⟨c,rfl,-,hc⟩ := hex_digit_some _ _ _ h3
  obtain ⟨d,rfl,hd32,hd⟩ := hex_digit_some _ _ _ h4
  exact ⟨a,b,c,d,rfl,hd32,by omega⟩

theorem expect_some (c : Byte) (s r : Buf) (h : expect c s = some ((),r)) : s = c::r := by
  cases s with
  | nil => cases h
  | cons d s =>
    simp only [expect] at h
    split_ifs at h with hd
    cases h
    rw [hd]

/-- A text whose last byte is not a blank and which is no shorter than the
bytes it stands for, once its first byte is left out. -/
def Longer (out u : Buf) (e : Byte) : Prop := e ≠ 32 ∧ out.length ≤ u.length

theorem unicode_escape_some (s r out : Buf) (hs : unicodeEscape s = some (out,r)) :
    ∃ u e, s = u++e::r ∧ Longer out u e := by
  obtain ⟨hi,r1,h1,h⟩ := bind_some_iff.mp hs
  obtain ⟨a,b,c,d,rfl,hd,hv⟩ := hex4_some _ _ _ h1
  split_ifs at h
  · obtain ⟨lo,r2,h2,hg⟩ := bind_some_iff.mp h
    obtain ⟨rfl,rfl⟩ := give_some_iff.mp hg
    obtain ⟨_,r3,h3,h2⟩ := bind_some_iff.mp h2
    obtain ⟨_,r4,h4,h2⟩ := bind_some_iff.mp h2
    obtain ⟨lo',r5,h5,h2⟩ := bind_some_iff.mp h2
    split_ifs at h2
    · obtain ⟨rfl,rfl⟩ := give_some_iff.mp h2
      obtain ⟨a',b',c',d',rfl,hd',-⟩ := hex4_some _ _ _ h5
      rw [expect_some _ _ _ h3, expect_some _ _ _ h4]
      exact ⟨[a,b,c,d,backslash,117,a',b',c'],d',rfl,hd',(encode_length _).trans (by simp)⟩
    · cases h2
  · cases h
  · obtain ⟨rfl,rfl⟩ := give_some_iff.mp h
    exact ⟨[a,b,c],d,rfl,hd,encode_length_short _ hv⟩

theorem string_unit_cases (s r out : Buf) (h : stringUnit s = some (out,r)) :
    (∃ c, PlainByte c ∧ s = c::r ∧ out = [c]) ∨ ∃ u e, s = u++e::r ∧ Longer out u e := by
  cases s with
  | nil => cases h
  | cons c s =>
    simp only [stringUnit] at h
    split_ifs at h with hb hp
    · right
      cases s with
      | nil => cases h
      | cons e s =>
        simp only [escape] at h
        split_ifs at h with hu
        · obtain ⟨u,d,rfl,hd,hl⟩ := unicode_escape_some _ _ _ h
          exact ⟨c::e::u,d,rfl,hd,by simp only [List.length_cons]; omega⟩
        · obtain ⟨b,hb',he⟩ := Option.map_eq_some_iff.mp h
          cases he
          refine ⟨[c],e,rfl,?_,by simp⟩
          rintro rfl
          simp [simpleEscape] at hb'
    · cases h
      exact .inl ⟨c,hp,rfl,rfl⟩

theorem unescape_n_step {n : ℕ} {c : Byte} {s out : Buf}
    (h : unescapeN (n+1) (c::s) = some out) :
    ∃ o r out', stringUnit (c::s) = some (o,r) ∧ unescapeN n r = some out' ∧ out = o++out' := by
  obtain ⟨⟨o,r⟩,hr,h⟩ := Option.bind_eq_some_iff.mp h
  obtain ⟨out',ho,rfl⟩ := Option.map_eq_some_iff.mp h
  exact ⟨o,r,out',hr,ho,rfl⟩

theorem unescape_n_length (n : ℕ) (raw out : Buf) (h : unescapeN n raw = some out) :
    out.length ≤ raw.length ∧ (out.length = raw.length → out = raw ∧ Plain raw) := by
  induction n generalizing raw out with
  | zero =>
    cases raw with
    | nil => cases h; simp [Plain]
    | cons c s => cases h
  | succ n ih =>
    cases raw with
    | nil => cases h; simp [Plain]
    | cons c s =>
      obtain ⟨o,r,out',hu,ho,rfl⟩ := unescape_n_step h
      obtain ⟨hle,heq⟩ := ih r out' ho
      rcases string_unit_cases _ _ _ hu with ⟨d,hd,hs,rfl⟩ | ⟨u,e,hs,-,hl⟩
      · cases hs
        refine ⟨by simpa using hle,fun he => ?_⟩
        obtain ⟨rfl,hp⟩ := heq (by simpa using he)
        exact ⟨rfl,by simpa [Plain] using ⟨hd,hp⟩⟩
      · have hlen := congrArg List.length hs
        simp only [List.length_append, List.length_cons] at hlen ⊢
        omega

theorem unescape_n_last (n : ℕ) (x out : Buf) (h : unescapeN n (x++[32]) = some out) :
    out.getLast? = some 32 := by
  induction n generalizing x out with
  | zero => cases x <;> cases h
  | succ n ih =>
    obtain ⟨c,s,hcs⟩ : ∃ c s, x++[32] = c::s := by cases x <;> simp
    rw [hcs] at h
    obtain ⟨o,r,out',hu,ho,rfl⟩ := unescape_n_step h
    rw [← hcs] at hu
    rcases List.eq_nil_or_concat r with rfl | ⟨x',d,rfl⟩
    · have ho' : out' = [] := by
        cases n <;> cases ho <;> rfl
      rcases string_unit_cases _ _ _ hu with ⟨d,-,hs,rfl⟩ | ⟨u,e,hs,he,-⟩
      · have := congrArg List.getLast? hs
        simpa [ho'] using this.symm
      · have := congrArg List.getLast? hs
        simp only [List.getLast?_append, List.getLast?_singleton, Option.some_or,
          Option.some.injEq] at this
        exact absurd this.symm he
    · have hd : d = 32 := by
        rcases string_unit_cases _ _ _ hu with ⟨e,-,hs,-⟩ | ⟨u,e,hs,-⟩ <;>
          · have hl := congrArg List.getLast? hs
            simp only [List.concat_eq_append, ← List.cons_append, ← List.append_assoc,
              List.getLast?_append, List.getLast?_singleton, Option.some_or,
              Option.some.injEq] at hl
            exact hl.symm
      subst hd
      have := ih x' out' (by simpa using ho)
      simp [List.getLast?_append, this]

theorem unescape_n_plain (n : ℕ) (s : Buf) (hn : s.length ≤ n) (hs : Plain s) :
    unescapeN n s = some s := by
  induction s generalizing n with
  | nil => cases n <;> rfl
  | cons c s ih =>
    cases n with
    | zero => simp at hn
    | succ n =>
      have hc : PlainByte c := hs c (by simp)
      have hu : stringUnit (c::s) = some ([c],s) := by simp [stringUnit, hc, hc.2.2]
      simp only [unescapeN, hu, Option.bind_some]
      rw [ih n (by simpa using hn) (fun d hd => hs d (by simp [hd]))]
      rfl

theorem raw_string_plain (s t : Buf) (hs : Plain s) : rawString (s++quote::t) = some (s,t) := by
  induction s with
  | nil => exact raw_string_quote t
  | cons c s ih =>
    have hc : PlainByte c := hs c (by simp)
    rw [List.cons_append, raw_string_other c _ hc.2.1 hc.2.2,
      ih (fun d hd => hs d (by simp [hd]))]
    rfl

theorem string_body_plain (s t : Buf) (hs : Plain s) : stringBody (s++quote::t) = some (s,t) := by
  rw [stringBody, bind_reads (raw_string_plain s t hs)]
  simp [unescape, unescape_n_plain s.length s le_rfl hs, give]

/-- Where the string ends that starts with the text `s` and goes on with a
quote, a comma, a blank and a quote: inside `s`, at its end, or at the second
quote because a backslash at the end of `s` takes the first one. -/
theorem raw_string_pasted (s more raw rest : Buf)
    (h : rawString (s++quote::comma::32::quote::more) = some (raw,rest)) :
    raw.length < s.length ∨ (raw = s ∧ rest = comma::32::quote::more) ∨
      (s.getLast? = some backslash ∧ raw = s++[quote,comma,32]) := by
  cases s with
  | nil =>
    rw [List.nil_append, raw_string_quote] at h
    cases h
    simp
  | cons c s =>
    obtain ⟨hs,rfl⟩ | ⟨d,u,raw',hs,rfl,hu⟩ | ⟨d,u,raw',-,-,hs,rfl,hu⟩ :=
      raw_string_cases _ _ _ h
    · simp
    · cases s with
      | nil =>
        cases hs
        have hp := raw_string_plain [comma,32] more (by decide)
        cases hu.symm.trans hp
        simp
      | cons e s =>
        cases hs
        have ih := raw_string_pasted s more raw' rest hu
        simp only [List.length_cons, List.cons.injEq, true_and, List.cons_append]
        rcases ih with h | ⟨rfl,rfl⟩ | ⟨hl,rfl⟩
        · omega
        · simp
        · simp [List.getLast?_cons, hl]
    · cases hs
      have ih := raw_string_pasted s more raw' rest hu
      simp only [List.length_cons, List.cons.injEq, true_and, List.cons_append]
      rcases ih with h | ⟨rfl,rfl⟩ | ⟨hl,rfl⟩
      · omega
      · simp
      · simp [List.getLast?_cons, hl]
termination_by s.length

theorem string_body_pasted (s more rest : Buf)
    (h : stringBody (s++quote::comma::32::quote::more) = some (s,rest)) :
    Plain s ∧ rest = comma::32::quote::more := by
  obtain ⟨raw,r,hr,hu⟩ := bind_some_iff.mp h
  cases ho : unescape raw with
  | none => simp [ho, fail] at hu
  | some out =>
    simp only [ho, give, Option.some.injEq, Prod.mk.injEq] at hu
    obtain ⟨rfl,rfl⟩ := hu
    obtain ⟨hle,heq⟩ := unescape_n_length _ _ _ ho
    rcases raw_string_pasted out more raw r hr with hlt | ⟨rfl,rfl⟩ | ⟨hb,rfl⟩
    · omega
    · exact ⟨(heq rfl).2,rfl⟩
    · have hl := unescape_n_last _ (out++[quote,comma]) out (by simpa [unescape] using ho)
      rw [hb] at hl
      exact absurd hl (by decide)

end Flip.JsonString
