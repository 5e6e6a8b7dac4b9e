import Flip.CLib

/-!
# Decimal digits

The text `printf` writes for an unsigned number, and the number that a list of
digits denotes. Reading back what was written gives the number again.
-/

set_option autoImplicit false

namespace Flip.Decimal
open Flip.CLib

def isDigit (c : Byte) : Bool := 48 ≤ c && c ≤ 57

def digit (d : ℕ) : Byte := (Nat.digitChar d).toUInt8

def decimal (n : ℕ) : Buf := (Nat.toDigits 10 n).map Char.toUInt8

def digitsValue (ds : Buf) : ℕ := ds.foldl (fun v c => 10*v+(c.toNat-48)) 0

theorem digit_spec (d : ℕ) (h : d < 10) :
    isDigit (digit d) = true ∧ (digit d).toNat-48 = d ∧ (digit d = 48 → d = 0) := by
  interval_cases d <;> decide

theorem decimal_eq (n : ℕ) :
    decimal n = if n < 10 then [digit n] else decimal (n/10)++[digit (n%10)] := by
  unfold decimal
  rw [Nat.toDigits_eq_if (by decide)]
  split_ifs <;> simp [digit]

theorem digits_value_append (ds : Buf) (c : Byte) :
    digitsValue (ds++[c]) = 10*digitsValue ds+(c.toNat-48) := by
  simp [digitsValue]

theorem digits_value_decimal (n : ℕ) : digitsValue (decimal n) = n := by
  induction n using Nat.strong_induction_on with
  | _ n ih =>
    rw [decimal_eq]
    split_ifs with h
    · simpa [digitsValue] using (digit_spec n h).2.1
    · rw [digits_value_append, ih (n/10) (by omega), (digit_spec (n%10) (by omega)).2.1]
      omega

theorem decimal_digits (n : ℕ) : ∀ c ∈ decimal n, isDigit c = true := by
  induction n using Nat.strong_induction_on with
  | _ n ih =>
    rw [decimal_eq]
    split_ifs with h
    · simpa using (digit_spec n h).1
    · intro c hc
      rcases List.mem_append.mp hc with hl | hr
      · exact ih (n/10) (by omega) c hl
      · rw [List.mem_singleton.mp hr]
        exact (digit_spec (n%10) (by omega)).1

theorem decimal_ne_nil (n : ℕ) : decimal n ≠ [] := by
  rw [decimal_eq]
  split_ifs <;> simp

theorem decimal_head (n : ℕ) (h : (decimal n).head? = some 48) : n = 0 := by
  induction n using Nat.strong_induction_on with
  | _ n ih =>
    rw [decimal_eq] at h
    split_ifs at h with hn
    · exact (digit_spec n hn).2.2 (by simpa using h)
    · rw [List.head?_append_of_ne_nil _ (decimal_ne_nil _)] at h
      have := ih (n/10) (by omega) h
      omega

/-- Only the number zero is written with a leading zero. -/
theorem decimal_leading_zero (n : ℕ) :
    ¬((decimal n).head? = some 48 ∧ (decimal n).length ≠ 1) := by
  rintro ⟨h,hl⟩
  obtain rfl := decimal_head n h
  exact hl rfl

theorem take_while_digits (ds t : Buf) (hd : ∀ d ∈ ds, isDigit d = true)
    (ht : ∀ c, t.head? = some c → isDigit c = false) : (ds++t).takeWhile isDigit = ds := by
  rw [List.takeWhile_append_of_pos hd]
  cases t with
  | nil => simp
  | cons c t => simp [ht c rfl]

theorem drop_while_digits (ds t : Buf) (hd : ∀ d ∈ ds, isDigit d = true)
    (ht : ∀ c, t.head? = some c → isDigit c = false) : (ds++t).dropWhile isDigit = t := by
  rw [List.dropWhile_append_of_pos hd]
  cases t with
  | nil => rfl
  | cons c t => simp [ht c rfl]

end Flip.Decimal
