import Mathlib.Data.List.Basic
import Symbolon.Lib.Text

/-!
# Identities, keys and notes

The validated values every other part of the daemon is written in terms of: the
client identity (`src/identity.rs`), the pre-shared key (`src/psk.rs`), the broker key
(`src/broker_key.rs`) and the operator's note (`src/note.rs`). Each of them can only be
built through its constructor in the source, so here each of them carries the
constructor's check as a field, and an invalid value does not exist.
-/

namespace Symbolon

open Text

/-! ### Identities -/

/-- Why a string is not an identity. -/
inductive IdentityError
  /-- The length is outside `1..=64`. -/
  | badLen (got : ℕ)
  /-- A byte is outside the charset. -/
  | badCharset (offset : ℕ) (byte : UInt8)
  deriving DecidableEq

/-- `u8::is_ascii_alphanumeric`. -/
def isAsciiAlphanumeric (b : UInt8) : Bool :=
  (0x30 ≤ b && b ≤ 0x39) || (0x41 ≤ b && b ≤ 0x5A) || (0x61 ≤ b && b ≤ 0x7A)

/-- The identity charset `[A-Za-z0-9._-]`. -/
def isIdentityByte (b : UInt8) : Bool :=
  isAsciiAlphanumeric b || b == 0x2E || b == 0x5F || b == 0x2D

/-- The longest identity, in bytes. -/
def Identity.maxLen : ℕ := 64

/-- **A client identity**: between one and `Symbolon.Identity.maxLen` bytes of the
identity charset. -/
structure Identity where
  /-- The bytes of the string. -/
  str : Bytes
  /-- The length rule. -/
  len : ¬(str = [] ∨ Identity.maxLen < str.length)
  /-- The charset rule. -/
  charset : ∀ b ∈ str, isIdentityByte b = true
  deriving DecidableEq

/-- The first byte outside the identity charset, with its offset. -/
def firstBadByte (s : Bytes) : Option (UInt8 × ℕ) := s.zipIdx.find? fun p => !isIdentityByte p.1

theorem firstBadByte_eq_none_iff {s : Bytes} :
    firstBadByte s = none ↔ ∀ b ∈ s, isIdentityByte b = true := by
  simp only [firstBadByte, List.find?_eq_none, Bool.not_eq_true, Bool.not_eq_false',
    Prod.forall]
  constructor
  · intro h b hb
    obtain ⟨i, hi, rfl⟩ := List.mem_iff_getElem.mp hb
    exact h _ i (List.mk_mem_zipIdx_iff_getElem?.mpr (List.getElem?_eq_getElem hi))
  · intro h b i hbi
    exact h b (List.mem_of_getElem? (List.mk_mem_zipIdx_iff_getElem?.mp hbi))

/-- Validate a string against the identity rule and wrap it. -/
def Identity.parse (s : Bytes) : Except IdentityError Identity :=
  if hlen : s = [] ∨ Identity.maxLen < s.length then .error (.badLen s.length)
  else match hbad : firstBadByte s with
    | some (byte, offset) => .error (.badCharset offset byte)
    | none => .ok ⟨s, hlen, firstBadByte_eq_none_iff.mp hbad⟩

/-- **Parsing accepts exactly the identities**, and returns the string it was given. -/
theorem Identity.parse_eq_ok_iff {s : Bytes} {id : Identity} :
    Identity.parse s = .ok id ↔ id.str = s := by
  constructor
  · intro h
    unfold Identity.parse at h
    split at h
    · cases h
    · split at h
      · cases h
      · cases h
        rfl
  · rintro rfl
    unfold Identity.parse
    rw [dif_neg id.len]
    split
    · rename_i byte offset hbad
      rw [firstBadByte_eq_none_iff.mpr id.charset] at hbad
      cases hbad
    · rfl

@[simp] theorem Identity.parse_str (id : Identity) : Identity.parse id.str = .ok id :=
  Identity.parse_eq_ok_iff.mpr rfl

theorem Identity.str_injective : Function.Injective Identity.str := by
  rintro ⟨s, _, _⟩ ⟨t, _, _⟩ h
  cases h
  rfl

/-- Every byte of the identity charset is printable ASCII and is not a colon. -/
theorem isIdentityByte_range {b : UInt8} (h : isIdentityByte b = true) :
    0x20 < b ∧ b < 0x80 ∧ b ≠ 0x3A := by
  simp only [isIdentityByte, isAsciiAlphanumeric, Bool.or_eq_true, Bool.and_eq_true,
    decide_eq_true_eq, beq_iff_eq, UInt8.le_iff_toNat_le, UInt8.lt_iff_toNat_lt, ne_eq,
    ← UInt8.toNat_inj, UInt8.reduceToNat] at h ⊢
  omega

/-! ### Keys -/

/-- **A pre-shared key**: 32 bytes, any 32. -/
structure Psk where
  /-- The raw bytes. -/
  bytes : Bytes
  /-- The length the handshake requires. -/
  len : bytes.length = 32
  deriving DecidableEq

/-- The key of 32 equal bytes. -/
def Psk.filled (b : UInt8) : Psk := ⟨List.replicate 32 b, List.length_replicate⟩

/-- The broker's static X25519 private key: 32 bytes. -/
structure BrokerPrivateKey where
  /-- The raw bytes. -/
  bytes : Bytes
  /-- The length of an X25519 key. -/
  len : bytes.length = 32
  deriving DecidableEq

/-- The broker's static X25519 public key: 32 bytes. -/
structure BrokerPublicKey where
  /-- The raw bytes. -/
  bytes : Bytes
  /-- The length of an X25519 key. -/
  len : bytes.length = 32
  deriving DecidableEq

/-! ### Notes -/

/-- Why a string is not a note. -/
inductive NoteError
  /-- The length in bytes is outside `1..=256`. -/
  | badLen (got : ℕ)
  /-- A control character, at a byte offset. -/
  | badControl (offset : ℕ) (ch : Char)
  deriving DecidableEq

/-- `char::is_control`: the C0 controls, delete, and the C1 controls. -/
def isControl (c : Char) : Bool := c.toNat < 0x20 || (0x7F ≤ c.toNat && c.toNat ≤ 0x9F)

/-- The longest note, in bytes. -/
def Note.maxLen : ℕ := 256

/-- **An operator's note**: between one and `Symbolon.Note.maxLen` bytes, without control
characters. -/
structure Note where
  /-- The text. -/
  text : String
  /-- The length rule. -/
  len : ¬(text.utf8ByteSize = 0 ∨ Note.maxLen < text.utf8ByteSize)
  /-- The control-character rule. -/
  control : ∀ c ∈ text.toList, isControl c = false
  deriving DecidableEq

/-- The first control character of a text, with its byte offset. -/
def firstControl : ℕ → List Char → Option (ℕ × Char)
  | _, [] => none
  | offset, c :: cs =>
    if isControl c then some (offset, c) else firstControl (offset + c.utf8Size) cs

theorem firstControl_eq_none_iff {cs : List Char} :
    ∀ {offset : ℕ}, firstControl offset cs = none ↔ ∀ c ∈ cs, isControl c = false := by
  induction cs with
  | nil => simp [firstControl]
  | cons c cs ih =>
    intro offset
    by_cases hc : isControl c = true
    · simp [firstControl, hc]
    · simp [firstControl, hc, ih]

/-- Validate a text against the note rule and wrap it. -/
def Note.parse (s : String) : Except NoteError Note :=
  if hlen : s.utf8ByteSize = 0 ∨ Note.maxLen < s.utf8ByteSize then .error (.badLen s.utf8ByteSize)
  else match hctl : firstControl 0 s.toList with
    | some (offset, ch) => .error (.badControl offset ch)
    | none => .ok ⟨s, hlen, firstControl_eq_none_iff.mp hctl⟩

end Symbolon
