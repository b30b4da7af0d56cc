import Symbolon.Lib.Text

/-!
# Operations that may panic

The operations of a systems language that have no result on some operands – a subtraction
below zero, a narrowing conversion that cuts something off, an index outside a slice – with
values in `Option`: `none` is the panic, or the wrong number. A function written with them
shows where it relies on its operands; that it is equal to `some` of a total function says
that it never does so in vain.

A function that may also fail in the ordinary way has values in `Option (Except ε α)`.
-/

namespace Checked

open Text

/-- `a - b` on unsigned numbers. -/
def sub (a b : ℕ) : Option ℕ := if b ≤ a then some (a - b) else none

/-- `n as u8`, where nothing may be cut off. -/
def toByte (n : ℕ) : Option UInt8 := if n < 256 then some (UInt8.ofNat n) else none

/-- `s.get(a..b)`: the bytes from `a` up to `b`, if there are such. This one does not panic
in the source either. -/
def getRange (s : Bytes) (a b : ℕ) : Option Bytes :=
  if a ≤ b ∧ b ≤ s.length then some ((s.drop a).take (b - a)) else none

variable {a b n : ℕ} {s : Bytes}

theorem sub_of_le (h : b ≤ a) : sub a b = some (a - b) := if_pos h

theorem toByte_of_lt (h : n < 256) : toByte n = some (UInt8.ofNat n) := if_pos h

theorem getRange_of_le (hab : a ≤ b) (hb : b ≤ s.length) :
    getRange s a b = some ((s.drop a).take (b - a)) := if_pos ⟨hab, hb⟩

theorem getRange_of_lt (h : s.length < b) : getRange s a b = none :=
  if_neg fun hab => Nat.not_le.mpr h hab.2

end Checked
