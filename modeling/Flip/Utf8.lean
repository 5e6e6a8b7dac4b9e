import Flip.CLib
import Flip.Runs

/-!
# The UTF-8 encoding

A machine that reads one byte at a time decides whether a text is UTF-8. An
ASCII byte is accepted only between characters, so a text is valid exactly
when the pieces around its ASCII bytes are.
-/

set_option autoImplicit false

namespace Flip.Utf8
open Flip.CLib Flip.Runs

/-- What the machine still expects of the character it is in. -/
inductive State where
  | start
  | tail1
  | tail2
  | tail3
  | afterE0
  | afterED
  | afterF0
  | afterF4
  deriving DecidableEq

def within (low high b : Byte) (next : State) : Option State :=
  if low ≤ b ∧ b ≤ high then some next else none

def step : State → Byte → Option State
  | .start, b =>
    if b ≤ 0x7F then some .start
    else if b < 0xC2 then none
    else if b ≤ 0xDF then some .tail1
    else if b = 0xE0 then some .afterE0
    else if b = 0xED then some .afterED
    else if b ≤ 0xEF then some .tail2
    else if b = 0xF0 then some .afterF0
    else if b ≤ 0xF3 then some .tail3
    else if b = 0xF4 then some .afterF4
    else none
  | .tail1, b => within 0x80 0xBF b .start
  | .tail2, b => within 0x80 0xBF b .tail1
  | .tail3, b => within 0x80 0xBF b .tail2
  | .afterE0, b => within 0xA0 0xBF b .tail1
  | .afterED, b => within 0x80 0x9F b .tail1
  | .afterF0, b => within 0x90 0xBF b .tail2
  | .afterF4, b => within 0x80 0x8F b .tail2

def Valid (b : Buf) : Prop := run step .start b = some .start

instance (b : Buf) : Decidable (Valid b) := inferInstanceAs (Decidable (_ = _))

def IsAscii (c : Byte) : Prop := c ≤ 0x7F

instance (c : Byte) : Decidable (IsAscii c) := inferInstanceAs (Decidable (_ ≤ _))

def AllAscii (b : Buf) : Prop := ∀ c ∈ b, IsAscii c

instance (b : Buf) : Decidable (AllAscii b) := List.decidableBAll _ b

theorem ascii_step (q : State) (c : Byte) (hc : IsAscii c) :
    step q c = if q = .start then some .start else none := by
  have hn : c.toNat ≤ 127 := hc
  have hw : ∀ (low high : Byte) (next : State), 128 ≤ low.toNat →
      within low high c next = none := by
    intro low high next hl
    have hlow : ¬low ≤ c := fun h => by
      have : low.toNat ≤ c.toNat := h
      omega
    simp [within, hlow]
  cases q with
  | start => simp [step, show c ≤ 127 from hc]
  | _ => simpa [step] using hw _ _ _ (by decide)

theorem valid_nil : Valid [] := rfl

theorem valid_split (a b : Buf) (c : Byte) (hc : IsAscii c) :
    Valid (a++c::b) ↔ Valid a ∧ Valid b := by
  unfold Valid
  rw [run_append]
  cases hr : run step .start a with
  | none => simp
  | some q => by_cases hq : q = .start <;> simp [run, ascii_step _ c hc, hq]

theorem valid_cons (c : Byte) (b : Buf) (hc : IsAscii c) : Valid (c::b) ↔ Valid b := by
  simpa [valid_nil] using valid_split [] b c hc

theorem valid_ascii_append (a b : Buf) (ha : AllAscii a) :
    Valid (a++b) ↔ Valid b := by
  induction a with
  | nil => rfl
  | cons c a ih =>
    rw [List.cons_append, valid_cons c _ (ha c (by simp))]
    exact ih (fun d hd => ha d (by simp [hd]))

def encode (code : ℕ) : Buf :=
  if code < 0x80 then [UInt8.ofNat code]
  else if code < 0x800 then
    [UInt8.ofNat (0xC0+code/0x40),UInt8.ofNat (0x80+code%0x40)]
  else if code < 0x10000 then
    [UInt8.ofNat (0xE0+code/0x1000),UInt8.ofNat (0x80+code/0x40%0x40),
      UInt8.ofNat (0x80+code%0x40)]
  else
    [UInt8.ofNat (0xF0+code/0x40000),UInt8.ofNat (0x80+code/0x1000%0x40),
      UInt8.ofNat (0x80+code/0x40%0x40),UInt8.ofNat (0x80+code%0x40)]

theorem encode_length (code : ℕ) : (encode code).length ≤ 4 := by
  unfold encode
  split_ifs <;> simp

theorem encode_length_short (code : ℕ) (h : code < 0x10000) : (encode code).length ≤ 3 := by
  unfold encode
  split_ifs <;> simp

end Flip.Utf8
