import Flip.CLib

/-!
# Sizes kept in `int` and block copies

A length becomes an `int` by keeping its low half, arithmetic on `int` is
undefined outside its range, and a copy is undefined where it leaves the
object it reads or the one it writes. A block that was copied therefore
carries the proof that it fits.
-/

set_option autoImplicit false

namespace Flip.CBlock
open Flip.CLib

inductive CopyFault where
  | intOverflow
  | sourceOverrun
  | targetOverrun
  deriving DecidableEq, Repr

def intMin : ℤ := -2^31
def intMax : ℤ := 2^31-1

/-- A `size_t` assigned to an `int`. -/
def intOfSize (n : ℕ) : ℤ := (n : ℤ).bmod (2^32)

def unsignedOfInt (n : ℤ) : ℕ := (n % 2^32).toNat
def sizeOfInt (n : ℤ) : ℕ := (n % 2^64).toNat

def intResult (n : ℤ) : Except CopyFault ℤ :=
  if intMin ≤ n ∧ n ≤ intMax then .ok n else .error .intOverflow

/-- An object of some size and the bytes that were copied to its beginning. -/
structure Block where
  size : ℕ
  bytes : Buf
  fits : bytes.length ≤ size
  deriving DecidableEq

/-- The object that is read goes on to the end of `source`. -/
def memcpy (size : ℕ) (source : Buf) (n : ℕ) : Except CopyFault Block :=
  if n ≤ source.length then
    if h : (source.take n).length ≤ size then .ok ⟨size,source.take n,h⟩
    else .error .targetOverrun
  else .error .sourceOverrun

def Block.Holds (b : Block) (s : CString) : Prop := b.bytes = s.memory

section Steps

variable {ε α β : Type} {x : Except ε α}

theorem bind_of_ok {a : α} (h : x = .ok a) (f : α → Except ε β) : x >>= f = f a := by
  rw [h]
  rfl

theorem bind_of_error {e : ε} (h : x = .error e) (f : α → Except ε β) : x >>= f = .error e := by
  rw [h]
  rfl

theorem ok_of_bind {f : α → Except ε β} {b : β} (h : x >>= f = .ok b) :
    ∃ a, x = .ok a ∧ f a = .ok b := by
  cases x with
  | error e => cases h
  | ok a => exact ⟨a,rfl,h⟩

end Steps

theorem int_of_size_small (n : ℕ) (h : n < 2^31) : intOfSize n = n := by
  apply Int.bmod_eq_of_le <;> omega

theorem unsigned_of_int_nat_cast (n : ℕ) (h : n < 2^32) : unsignedOfInt n = n := by
  rw [unsignedOfInt]
  omega

theorem size_of_int_nat_cast (n : ℕ) (h : n < 2^64) : sizeOfInt n = n := by
  rw [sizeOfInt]
  omega

theorem int_result_ok (n : ℤ) (hmin : intMin ≤ n) (hmax : n ≤ intMax) : intResult n = .ok n :=
  if_pos ⟨hmin,hmax⟩

theorem int_result_overflow (n : ℤ) (hmax : intMax < n) : intResult n = .error .intOverflow :=
  if_neg (fun h => absurd h.2 (not_le.mpr hmax))

theorem memcpy_rest (size : ℕ) (source : Buf) (h : source.length ≤ size) :
    memcpy size source source.length = .ok ⟨size,source,h⟩ := by
  have htake : source.take source.length = source := List.take_length
  simp only [memcpy, le_refl, if_true, htake, dif_pos h]

theorem memcpy_overrun (size : ℕ) (source : Buf) (h : size < source.length) :
    memcpy size source source.length = .error .targetOverrun := by
  have htake : source.take source.length = source := List.take_length
  simp only [memcpy, le_refl, if_true, htake, dif_neg (not_le.mpr h)]

end Flip.CBlock
