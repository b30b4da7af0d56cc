import Symbolon.Identity

/-!
# The identity TLV and the framing

The two byte formats of `src/transport.rs`. The *identity TLV* is the plaintext of the
first handshake message: the magic `SBLN`, a version, a length and the identity. A
*frame* is a two-byte big-endian length and that many bytes, around every message on the
wire.

`Symbolon.parseIdentityTlv_eq_ok_iff`: the parser accepts exactly the encodings,
followed by anything. `Symbolon.readFrameLength_frame`: the length a frame declares is
the length of its payload.
-/

namespace Symbolon

open Text

/-! ### The identity TLV -/

/-- The magic of the TLV, `SBLN`. -/
def tlvMagic : Bytes := [0x53, 0x42, 0x4C, 0x4E]

/-- The version of the TLV format. -/
def tlvVersion : UInt8 := 0x02

/-- Why a payload is not an identity TLV. -/
inductive TlvError
  /-- So many bytes are missing. -/
  | incomplete (needed : ℕ)
  /-- The magic is wrong. -/
  | badMagic (got : Bytes)
  /-- The version is not supported. -/
  | badVersion (got : UInt8)
  /-- The declared length is outside `1..=64`. -/
  | badIdentityLen (got : UInt8)
  /-- A byte is outside the identity charset. -/
  | invalidCharset (offset : ℕ) (byte : UInt8)
  deriving DecidableEq

/-- The lift of an identity error; a length is saturated to a byte. -/
def TlvError.ofIdentityError : IdentityError → TlvError
  | .badLen got => .badIdentityLen (UInt8.ofNat (min got 255))
  | .badCharset offset byte => .invalidCharset offset byte

/-- The length of a TLV with an identity of this length. -/
def identityTlvSize (identityLen : ℕ) : ℕ := 6 + identityLen

/-- Encode an identity. -/
def encodeIdentityTlv (identity : Identity) : Bytes :=
  tlvMagic ++ tlvVersion :: UInt8.ofNat identity.str.length :: identity.str

/-- Validate the six bytes of the head, and return the declared identity length. -/
def parseTlvHead (magic : Bytes) (version idLen : UInt8) : Except TlvError UInt8 :=
  if magic ≠ tlvMagic then .error (.badMagic magic)
  else if version ≠ tlvVersion then .error (.badVersion version)
  else if idLen = 0 ∨ Identity.maxLen < idLen.toNat then .error (.badIdentityLen idLen)
  else .ok idLen

/-- Validate the identity itself. Bytes that are not UTF-8 are reported like bytes
outside the charset, at the first offset that breaks. -/
def parseTlvBody (body : Bytes) : Except TlvError Identity :=
  match fromUtf8 body with
  | .ok s =>
    match Identity.parse s with
    | .ok identity => .ok identity
    | .error e => .error (.ofIdentityError e)
  | .error offset => .error (.invalidCharset offset (body.getD offset 0))

/-- Parse an identity TLV off the front of `input`; the second component is how many
bytes it took. -/
def parseIdentityTlv (input : Bytes) : Except TlvError (Identity × ℕ) :=
  match input with
  | m₀ :: m₁ :: m₂ :: m₃ :: version :: idLen :: rest =>
    match parseTlvHead [m₀, m₁, m₂, m₃] version idLen with
    | .error e => .error e
    | .ok idLen =>
      if rest.length < idLen.toNat then
        .error (.incomplete (identityTlvSize idLen.toNat - input.length))
      else
        match parseTlvBody (rest.take idLen.toNat) with
        | .error e => .error e
        | .ok identity => .ok (identity, identityTlvSize idLen.toNat)
  | _ => .error (.incomplete (6 - input.length))

theorem Identity.length_pos (identity : Identity) : 0 < identity.str.length :=
  List.length_pos_of_ne_nil fun h => identity.len (.inl h)

theorem Identity.length_le (identity : Identity) : identity.str.length ≤ 64 :=
  Nat.le_of_not_lt fun h => identity.len (.inr h)

theorem Identity.toNat_length (identity : Identity) :
    (UInt8.ofNat identity.str.length).toNat = identity.str.length := by
  have := identity.length_le
  simp only [UInt8.toNat_ofNat']
  omega

theorem parseTlvHead_eq_ok_iff {magic : Bytes} {version idLen l : UInt8} :
    parseTlvHead magic version idLen = .ok l ↔
      magic = tlvMagic ∧ version = tlvVersion ∧ idLen ≠ 0 ∧ idLen.toNat ≤ 64 ∧ l = idLen := by
  unfold parseTlvHead
  split
  · simp_all
  · split
    · simp_all
    · split
      · rename_i h
        simp only [reduceCtorEq, false_iff, not_and]
        rintro - - h0 hle
        rcases h with h | h
        · exact absurd h h0
        · exact absurd hle (Nat.not_le.mpr h)
      · rename_i h1 h2 h
        simp only [Identity.maxLen, not_or, Nat.not_lt] at h
        simp only [Except.ok.injEq, not_not.mp h1, not_not.mp h2, h.1, h.2, ne_eq,
          not_false_eq_true, true_and]
        exact eq_comm

/-- The body parser accepts exactly the bytes of an identity. -/
theorem parseTlvBody_eq_ok_iff {body : Bytes} {identity : Identity} :
    parseTlvBody body = .ok identity ↔ identity.str = body := by
  constructor
  · intro h
    unfold parseTlvBody at h
    split at h
    · rename_i s hs
      split at h
      · rename_i id hid
        cases h
        rw [Identity.parse_eq_ok_iff.mp hid]
        exact fromUtf8_eq_ok hs
      · cases h
    · cases h
  · rintro rfl
    have hascii : ∀ b ∈ identity.str, b < 0x80 := fun b hb =>
      (isIdentityByte_range (identity.charset b hb)).2.1
    simp only [parseTlvBody, fromUtf8_of_ascii hascii, Identity.parse_str]

/-- **The TLV parser accepts exactly the encodings of identities**, whatever follows
them, and reports their length. -/
theorem parseIdentityTlv_eq_ok_iff {input : Bytes} {identity : Identity} {n : ℕ} :
    parseIdentityTlv input = .ok (identity, n) ↔
      n = identityTlvSize identity.str.length ∧
        ∃ rest, input = encodeIdentityTlv identity ++ rest := by
  constructor
  · intro h
    unfold parseIdentityTlv at h
    split at h
    · rename_i m₀ m₁ m₂ m₃ version idLen rest
      split at h
      · cases h
      · rename_i l hl
        obtain ⟨hm, hv, h0, hle, rfl⟩ := parseTlvHead_eq_ok_iff.mp hl
        split at h
        · cases h
        · rename_i hlen
          split at h
          · cases h
          · rename_i id hid
            cases h
            have hstr := parseTlvBody_eq_ok_iff.mp hid
            have hlength : identity.str.length = l.toNat := by
              rw [hstr, List.length_take]
              omega
            refine ⟨by rw [hlength], rest.drop l.toNat, ?_⟩
            simp only [tlvMagic, List.cons.injEq, and_true] at hm
            obtain ⟨rfl, rfl, rfl, rfl⟩ := hm
            simp only [encodeIdentityTlv, tlvMagic, List.cons_append, List.nil_append, hv, hlength,
              UInt8.ofNat_toNat, List.cons.injEq, true_and]
            rw [hstr, List.take_append_drop]
    · cases h
  · rintro ⟨rfl, rest, rfl⟩
    have hpos := identity.length_pos
    have hle := identity.length_le
    have hhead : parseTlvHead [0x53, 0x42, 0x4C, 0x4E] tlvVersion
        (UInt8.ofNat identity.str.length) =
        .ok (UInt8.ofNat identity.str.length) := by
      refine parseTlvHead_eq_ok_iff.mpr
        ⟨rfl, rfl, ?_, by rw [identity.toNat_length]; exact hle, rfl⟩
      intro h0
      have := congrArg UInt8.toNat h0
      rw [identity.toNat_length] at this
      simp only [UInt8.toNat_zero] at this
      omega
    have hbody : parseTlvBody identity.str = .ok identity := parseTlvBody_eq_ok_iff.mpr rfl
    simp only [encodeIdentityTlv, tlvMagic, List.cons_append, List.nil_append, parseIdentityTlv,
      hhead, identity.toNat_length, List.length_append]
    rw [if_neg (by omega), List.take_left, hbody]

theorem length_encodeIdentityTlv (identity : Identity) :
    (encodeIdentityTlv identity).length = identityTlvSize identity.str.length := by
  simp only [encodeIdentityTlv, tlvMagic, List.length_append, List.length_cons, List.length_nil,
    identityTlvSize]
  omega

/-- A payload is one TLV and nothing else exactly when it is an encoding. -/
theorem parseIdentityTlv_eq_length_iff {payload : Bytes} {identity : Identity} :
    parseIdentityTlv payload = .ok (identity, payload.length) ↔
      payload = encodeIdentityTlv identity := by
  rw [parseIdentityTlv_eq_ok_iff, ← length_encodeIdentityTlv]
  constructor
  · rintro ⟨hlen, rest, rfl⟩
    rw [List.length_append] at hlen
    have hrest : rest = [] := List.length_eq_zero_iff.mp (by omega)
    rw [hrest, List.append_nil]
  · rintro rfl
    exact ⟨rfl, [], (List.append_nil _).symm⟩

theorem encodeIdentityTlv_injective : Function.Injective encodeIdentityTlv := by
  intro identity identity' h
  have hp := parseIdentityTlv_eq_length_iff.mpr (rfl : encodeIdentityTlv identity = _)
  rw [h, parseIdentityTlv_eq_length_iff.mpr rfl] at hp
  exact (congrArg Prod.fst (Except.ok.inj hp)).symm

/-! ### Frames -/

/-- The longest Noise message. -/
def maxMessageSize : ℕ := 65535

/-- The two bytes of a length, big-endian. -/
def lengthPrefix (n : ℕ) : Bytes := [UInt8.ofNat (n / 256), UInt8.ofNat (n % 256)]

/-- A message with its length in front; `none` when it is too long for one. -/
def frame (payload : Bytes) : Option Bytes :=
  if maxMessageSize < payload.length then none else some (lengthPrefix payload.length ++ payload)

/-- The length two bytes declare. The check against the maximum never fires: two bytes
do not reach beyond it. -/
def readFrameLength (b₀ b₁ : UInt8) : Option ℕ :=
  let len := 256 * b₀.toNat + b₁.toNat
  if maxMessageSize < len then none else some len

theorem readFrameLength_eq (b₀ b₁ : UInt8) :
    readFrameLength b₀ b₁ = some (256 * b₀.toNat + b₁.toNat) := by
  have h₀ := b₀.toNat_lt
  have h₁ := b₁.toNat_lt
  exact if_neg (by simp only [maxMessageSize]; omega)

theorem frame_eq_some_iff {payload out : Bytes} :
    frame payload = some out ↔
      payload.length ≤ maxMessageSize ∧ out = lengthPrefix payload.length ++ payload := by
  unfold frame
  split
  · rename_i h
    simp only [reduceCtorEq, false_iff, not_and]
    intro hle
    omega
  · rename_i h
    simp only [Option.some.injEq, Nat.le_of_not_lt h, true_and]
    exact eq_comm

/-- **A frame declares the length of its payload.** -/
theorem readFrameLength_frame {payload out : Bytes} (h : frame payload = some out) :
    ∃ b₀ b₁, out = b₀ :: b₁ :: payload ∧ readFrameLength b₀ b₁ = some payload.length := by
  obtain ⟨hle, rfl⟩ := frame_eq_some_iff.mp h
  refine ⟨_, _, rfl, ?_⟩
  rw [readFrameLength_eq]
  simp only [UInt8.toNat_ofNat', maxMessageSize] at hle ⊢
  congr 1
  omega

end Symbolon
