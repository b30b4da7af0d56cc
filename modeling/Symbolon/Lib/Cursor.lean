import Mathlib.Algebra.Ring.Nat
import Symbolon.Lib.Checked

/-!
# Big-endian numbers and a cursor over bytes

How binary formats are read by hand: a cursor is a string of bytes and a position, and
every read takes so many bytes off it or finds that there are not as many. A number is a
read of its width in big-endian order (`BigEndian.ofBytes`).

A cursor *stands before* the bytes that are still to be read (`BigEndian.Cursor.Before`).
The one rule of this file is `BigEndian.Cursor.take_before`: a read of what stands first
returns it, and leaves the cursor before the rest. A parser is verified by walking it along
an encoding with this rule.
-/

namespace BigEndian

open Text Checked

/-! ### Numbers -/

/-- The last `w` digits of a number to the base 256, the most significant first. -/
def toBytes : ℕ → ℕ → Bytes
  | 0, _ => []
  | w + 1, n => toBytes w (n / 256) ++ [UInt8.ofNat n]

/-- The number with these digits to the base 256. -/
def ofBytes (bs : Bytes) : ℕ := bs.foldl (fun n b => 256 * n + b.toNat) 0

@[simp] theorem length_toBytes (w n : ℕ) : (toBytes w n).length = w := by
  induction w generalizing n with
  | zero => rfl
  | succ w ih => rw [toBytes, List.length_append, ih, List.length_singleton]

/-- **A number is read back from its digits**, if it has no more than so many. -/
theorem ofBytes_toBytes {w n : ℕ} (h : n < 256 ^ w) : ofBytes (toBytes w n) = n := by
  induction w generalizing n with
  | zero =>
    obtain rfl : n = 0 := Nat.lt_one_iff.mp h
    rfl
  | succ w ih =>
    have hdiv : n / 256 < 256 ^ w := Nat.div_lt_of_lt_mul (by rwa [Nat.pow_succ'] at h)
    have hlast : (UInt8.ofNat n).toNat = n % 256 := UInt8.toNat_ofNat'
    have hinit := ih hdiv
    rw [ofBytes] at hinit ⊢
    rw [toBytes, List.foldl_append, hinit, List.foldl_cons, List.foldl_nil, hlast]
    exact Nat.div_add_mod n 256

/-! ### The cursor -/

/-- **A cursor**: bytes and a position in them. -/
structure Cursor where
  /-- The bytes. -/
  b : Bytes
  /-- How many of them have been read. -/
  i : ℕ
  deriving DecidableEq

namespace Cursor

/-- A cursor before all of the bytes. -/
def new (b : Bytes) : Cursor := ⟨b, 0⟩

/-- Read the next `n` bytes, if there are as many. -/
def take (c : Cursor) (n : ℕ) : Option (Bytes × Cursor) :=
  (getRange c.b c.i (c.i + n)).map fun s => (s, { c with i := c.i + n })

/-- The cursor stands before these bytes, and nothing comes after them. -/
structure Before (c : Cursor) (rest : Bytes) : Prop where
  le : c.i ≤ c.b.length
  drop : c.b.drop c.i = rest

theorem before_new (b : Bytes) : (new b).Before b := ⟨Nat.zero_le _, rfl⟩

/-- **A read of what stands first** returns it and leaves the cursor before the rest. -/
theorem take_before {c : Cursor} {s rest : Bytes} (h : c.Before (s ++ rest)) :
    ∃ c', c.take s.length = some (s, c') ∧ c'.Before rest := by
  have hlen : c.i + s.length + rest.length = c.b.length := by
    have := congrArg List.length h.drop
    rw [List.length_drop, List.length_append] at this
    have := h.le
    omega
  refine ⟨{ c with i := c.i + s.length }, ?_, by dsimp only; omega, ?_⟩
  · rw [take, getRange_of_le (Nat.le_add_right _ _) (by omega), h.drop, Nat.add_sub_cancel_left,
      List.take_left]
    rfl
  · rw [← List.drop_drop, h.drop, List.drop_left]

end Cursor

end BigEndian
