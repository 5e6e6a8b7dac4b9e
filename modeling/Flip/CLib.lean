import Mathlib.Tactic
import Mathlib.Data.List.TakeWhile

/-!
# Bytes, C strings and talloc copies

A `char` is one byte and a C string is the bytes before its terminator, so
the type of strings excludes the byte zero. The `talloc` copies below assume
that the allocation succeeds; a caller that checks for failure takes the
outcome of the allocation as an argument of its own.
-/

set_option autoImplicit false

namespace Flip.CLib

abbrev Byte := UInt8
abbrev Buf := List Byte

def ascii (s : String) : Buf := s.toList.map Char.toUInt8

@[ext] structure CString where
  bytes : Buf
  nulFree : (0 : Byte) ∉ bytes
  deriving DecidableEq

def CString.strlen (s : CString) : ℕ := s.bytes.length

/-- What a pointer to the string points at: the characters and the NUL. -/
def CString.memory (s : CString) : Buf := s.bytes ++ [0]

theorem memory_length (s : CString) : s.memory.length = s.strlen+1 := by
  rw [CString.memory, List.length_append, List.length_singleton, CString.strlen]

theorem take_while_nul_free (b : Buf) : (0 : Byte) ∉ b.takeWhile (· ≠ 0) := by
  intro h
  have := List.mem_takeWhile_imp h
  simp at this

/-- `talloc_strndup`: at most `n` bytes, stopping at the first NUL. -/
def tallocStrndup (b : Buf) (n : ℕ) : CString :=
  ⟨(b.take n).takeWhile (· ≠ 0),take_while_nul_free _⟩

/-- `talloc_array_length` of a string counts its terminator. -/
def tallocArrayLength (s : CString) : ℕ := s.strlen+1

theorem strndup_whole (b : Buf) (h : (0 : Byte) ∉ b) :
    (tallocStrndup b b.length).bytes = b := by
  have hk : ∀ c ∈ b, c ≠ 0 := by
    intro c hc hz
    exact h (hz ▸ hc)
  simpa [tallocStrndup] using hk

structure StringCtx where
  data : Option CString
  size : ℕ
  deriving DecidableEq

def StringCtx.zero : StringCtx := ⟨none,0⟩

inductive Errno where
  | eok
  | enoent
  | eio
  | eagain
  | enomem
  | einval
  deriving DecidableEq, Repr

def Errno.code : Errno → ℤ
  | .eok => 0
  | .enoent => 2
  | .eio => 5
  | .eagain => 11
  | .enomem => 12
  | .einval => 22

inductive DaemonType where
  | flip
  | flipd
  | crawler
  | collector
  deriving DecidableEq

/-- Behaviour that C leaves undefined. -/
inductive Fault where
  | nullDeref
  | nullFormat
  | outOfBounds (index : ℕ)
  | useAfterFree
  deriving DecidableEq, Repr

end Flip.CLib
