import Symbolon.Lib.Checked
import Symbolon.Transport.Noise

/-!
# The identity TLV, with every operation that could panic

The functions of `src/transport.rs` around the identity TLV work on bytes chosen by the
peer, and they index, subtract and convert. Here they are once more, with these operations
as `Checked` ones, so that a panic or a truncation is a value, `none`; and each of them is
the total function of `Symbolon.Transport.Wire` and `Symbolon.Transport.Session`
(`Symbolon.parseIdentityTlvChecked_eq`, `Symbolon.Responder.readMsg1Checked_eq`). So the
codec is exact as it stands: **the parser takes an identity off the front of exactly those
inputs that start with its encoding, and refuses every other input with an error**.
-/

namespace Symbolon

open Text Checked

/-- The lift of an identity error, with the conversion of the length. -/
def TlvError.ofIdentityErrorChecked : IdentityError → Option TlvError
  | .badLen got => (toByte (min got 255)).map .badIdentityLen
  | .badCharset offset byte => some (.invalidCharset offset byte)

/-- Encode an identity, with the conversion of its length. -/
def encodeIdentityTlvChecked (identity : Identity) : Option Bytes :=
  (toByte identity.str.length).map fun idLen =>
    tlvMagic ++ tlvVersion :: idLen :: identity.str

/-- Validate the identity itself, with the index of the byte that is reported. -/
def parseTlvBodyChecked (body : Bytes) : Option (Except TlvError Identity) :=
  match fromUtf8 body with
  | .ok s =>
    match Identity.parse s with
    | .ok identity => some (.ok identity)
    | .error e => (TlvError.ofIdentityErrorChecked e).map .error
  | .error offset => body[offset]?.map fun byte => .error (.invalidCharset offset byte)

/-- Parse an identity TLV off the front of `input`, with the subtractions of what is
missing. -/
def parseIdentityTlvChecked (input : Bytes) : Option (Except TlvError (Identity × ℕ)) :=
  match input with
  | m₀ :: m₁ :: m₂ :: m₃ :: version :: idLen :: _ =>
    match parseTlvHead [m₀, m₁, m₂, m₃] version idLen with
    | .error e => some (.error e)
    | .ok idLen =>
      let total := identityTlvSize idLen.toNat
      match getRange input 6 total with
      | none => (sub total input.length).map fun needed => .error (.incomplete needed)
      | some body => (parseTlvBodyChecked body).map fun r => r.map fun identity => (identity, total)
  | _ => (sub 6 input.length).map fun needed => .error (.incomplete needed)

/-- Decrypt the first handshake message, with the subtraction of what is too much. -/
def Responder.readMsg1Checked {S : Snow} (hs : S.Hs) (bytes : Bytes) :
    Option (Except (SessionError S.Err) (S.Hs × Identity)) :=
  match S.readMessage hs bytes with
  | .error e => some (.error (.handshakeRead e))
  | .ok (payload, hs) =>
    (parseIdentityTlvChecked payload).bind fun
      | .error e => some (.error (.ofTlv e))
      | .ok (identity, consumed) =>
        if consumed ≠ payload.length then
          (sub payload.length consumed).map fun extra => .error (.tlvTrailingBytes extra)
        else some (.ok (hs, identity))

/-! ### None of them panics -/

theorem TlvError.ofIdentityErrorChecked_eq (e : IdentityError) :
    TlvError.ofIdentityErrorChecked e = some (.ofIdentityError e) := by
  cases e with
  | badLen got =>
    have hlt : min got 255 < 256 := Nat.lt_succ_of_le (min_le_right _ _)
    rw [TlvError.ofIdentityErrorChecked, toByte_of_lt hlt]
    rfl
  | badCharset offset byte => rfl

/-- The length of an identity is a byte. -/
theorem encodeIdentityTlvChecked_eq (identity : Identity) :
    encodeIdentityTlvChecked identity = some (encodeIdentityTlv identity) := by
  have hlt : identity.str.length < 256 := identity.length_le.trans_lt (by decide)
  rw [encodeIdentityTlvChecked, toByte_of_lt hlt]
  rfl

/-- The byte that is reported is there: UTF-8 breaks before the end, if it breaks. -/
theorem parseTlvBodyChecked_eq (body : Bytes) :
    parseTlvBodyChecked body = some (parseTlvBody body) := by
  unfold parseTlvBodyChecked parseTlvBody
  rcases hutf8 : fromUtf8 body with offset | s
  · have hlt : offset < body.length := fromUtf8_error_lt hutf8
    simp [hlt]
  · rcases hid : Identity.parse s with e | identity
    · simp only [hid, TlvError.ofIdentityErrorChecked_eq, Option.map_some]
    · simp only [hid]

/-- **The parser never panics.** What is subtracted is less than the head, or less than the
whole, because it is only subtracted when it is too short. -/
theorem parseIdentityTlvChecked_eq (input : Bytes) :
    parseIdentityTlvChecked input = some (parseIdentityTlv input) := by
  unfold parseIdentityTlvChecked
  split
  · rename_i m₀ m₁ m₂ m₃ version idLen rest
    rw [parseIdentityTlv]
    rcases hhead : parseTlvHead [m₀, m₁, m₂, m₃] version idLen with e | l
    · rfl
    · have hlen : (m₀ :: m₁ :: m₂ :: m₃ :: version :: idLen :: rest).length = 6 + rest.length := by
        simp only [List.length_cons]
        omega
      by_cases hshort : rest.length < l.toNat
      · have hlt : 6 + rest.length < identityTlvSize l.toNat := Nat.add_lt_add_left hshort 6
        simp only [hshort, if_true, getRange_of_lt (hlen ▸ hlt), sub_of_le (hlen ▸ hlt.le),
          Option.map_some]
      · have hle : identityTlvSize l.toNat ≤ 6 + rest.length :=
          Nat.add_le_add_left (Nat.le_of_not_lt hshort) 6
        have hrange : getRange (m₀ :: m₁ :: m₂ :: m₃ :: version :: idLen :: rest) 6
            (identityTlvSize l.toNat) = some (rest.take l.toNat) := by
          rw [identityTlvSize] at hle ⊢
          rw [getRange_of_le (Nat.le_add_right 6 _) (hle.trans_eq hlen.symm),
            Nat.add_sub_cancel_left]
          rfl
        simp only [hshort, if_false, hrange, parseTlvBodyChecked_eq, Option.map_some]
        rcases parseTlvBody (rest.take l.toNat) with e | identity <;> rfl
  · rename_i hhead
    have hle : input.length ≤ 6 := by
      by_contra hlong
      rcases input with _ | ⟨a, _ | ⟨b, _ | ⟨c, _ | ⟨d, _ | ⟨e, _ | ⟨f, rest⟩⟩⟩⟩⟩⟩
      all_goals first | exact hhead _ _ _ _ _ _ _ rfl | exact hlong (by simp)
    rw [sub_of_le hle, Option.map_some, parseIdentityTlv.eq_2 input hhead]

/-- What is subtracted from the payload is what the parser took off it. -/
theorem Responder.readMsg1Checked_eq {S : Snow} (hs : S.Hs) (bytes : Bytes) :
    Responder.readMsg1Checked hs bytes = some (Responder.readMsg1 hs bytes) := by
  unfold Responder.readMsg1Checked Responder.readMsg1
  rcases S.readMessage hs bytes with e | ⟨payload, hs₁⟩
  · rfl
  · simp only [parseIdentityTlvChecked_eq, Option.bind_some]
    rcases hp : parseIdentityTlv payload with e | ⟨identity, consumed⟩
    · rfl
    · have hle : consumed ≤ payload.length := by
        obtain ⟨rfl, rest, rfl⟩ := parseIdentityTlv_eq_ok_iff.mp hp
        rw [List.length_append, length_encodeIdentityTlv]
        exact Nat.le_add_right _ _
      by_cases hc : consumed = payload.length
      · simp [hc]
      · simp [hc, sub_of_le hle]

/-! ### The codec -/

/-- The parser accepts exactly the inputs that start with an encoding. -/
theorem parseIdentityTlvChecked_eq_ok_iff {input : Bytes} {identity : Identity} {n : ℕ} :
    parseIdentityTlvChecked input = some (.ok (identity, n)) ↔
      encodeIdentityTlv identity <+: input ∧ (encodeIdentityTlv identity).length = n := by
  rw [parseIdentityTlvChecked_eq, Option.some.injEq, parseIdentityTlv_eq_ok_iff,
    length_encodeIdentityTlv, and_comm]
  exact and_congr ⟨fun ⟨rest, h⟩ => ⟨rest, h.symm⟩, fun ⟨rest, h⟩ => ⟨rest, h.symm⟩⟩ eq_comm

/-- Every other input is an error. -/
theorem parseIdentityTlvChecked_eq_error {input : Bytes}
    (h : ∀ identity, ¬encodeIdentityTlv identity <+: input) :
    ∃ e, parseIdentityTlvChecked input = some (.error e) := by
  rcases hp : parseIdentityTlv input with e | ⟨identity, n⟩
  · exact ⟨e, by rw [parseIdentityTlvChecked_eq, hp]⟩
  · have hok : parseIdentityTlvChecked input = some (.ok (identity, n)) := by
      rw [parseIdentityTlvChecked_eq, hp]
    exact absurd (parseIdentityTlvChecked_eq_ok_iff.mp hok).1 (h identity)

namespace Responder

variable {S : Snow} {hs hs' : S.Hs} {bytes payload : Bytes}

/-- **The responder takes a decrypted payload iff it is an encoding**, and then goes by the
identity encoded. -/
theorem recv_wantHsBody_eq_iff (hread : S.readMessage hs bytes = .ok (payload, hs'))
    {identity : Identity} :
    recv (.wantHsBody hs bytes.length) bytes = (.needPsk hs' identity, .ok ()) ↔
      payload = encodeIdentityTlv identity := by
  have hmsg1 : readMsg1 hs bytes = .ok (hs', identity) ↔ payload = encodeIdentityTlv identity := by
    rw [readMsg1_eq_ok_iff, hread, Except.ok.injEq, Prod.mk.injEq, and_iff_left rfl]
  rw [← hmsg1]
  simp only [recv, ne_eq, not_true_eq_false, if_false]
  rcases readMsg1 hs bytes with e | ⟨hs₁, identity₁⟩ <;> simp

theorem recv_wantHsBody_eq_failed (hread : S.readMessage hs bytes = .ok (payload, hs'))
    (h : ∀ identity, payload ≠ encodeIdentityTlv identity) :
    ∃ e, recv (.wantHsBody hs bytes.length) bytes = (.failed, .error e) := by
  simp only [recv, ne_eq, not_true_eq_false, if_false]
  rcases hm : readMsg1 hs bytes with e | ⟨hs₁, identity⟩
  · exact ⟨e, rfl⟩
  · rw [readMsg1_eq_ok_iff, hread] at hm
    cases hm
    exact absurd rfl (h identity)

end Responder

/-- **The identity TLV codec is exact.** -/
theorem identityTlv_exact {S : Snow} {hs hs' : S.Hs} {bytes payload : Bytes}
    (hread : S.readMessage hs bytes = .ok (payload, hs')) :
    (∀ identity,
        Responder.recv (.wantHsBody hs bytes.length) bytes = (.needPsk hs' identity, .ok ()) ↔
          payload = encodeIdentityTlv identity) ∧
      ((∀ identity, payload ≠ encodeIdentityTlv identity) →
        ∃ e, Responder.recv (.wantHsBody hs bytes.length) bytes = (.failed, .error e)) ∧
      Responder.readMsg1Checked hs bytes = some (Responder.readMsg1 hs bytes) ∧
      (∀ input identity n, parseIdentityTlvChecked input = some (.ok (identity, n)) ↔
        encodeIdentityTlv identity <+: input ∧ (encodeIdentityTlv identity).length = n) ∧
      (∀ input, (∀ identity, ¬encodeIdentityTlv identity <+: input) →
        ∃ e, parseIdentityTlvChecked input = some (.error e)) ∧
      (∀ identity, encodeIdentityTlvChecked identity = some (encodeIdentityTlv identity)) ∧
      Function.Injective encodeIdentityTlv :=
  ⟨fun _ => Responder.recv_wantHsBody_eq_iff hread, Responder.recv_wantHsBody_eq_failed hread,
    Responder.readMsg1Checked_eq hs bytes, fun _ _ _ => parseIdentityTlvChecked_eq_ok_iff,
    fun _ => parseIdentityTlvChecked_eq_error, encodeIdentityTlvChecked_eq,
    encodeIdentityTlv_injective⟩

/-- The broker reads a first message in the clear, with the identity `a` in it. -/
theorem identityTlv_exact_a :
    let id : Identity := ⟨[0x61], by decide, firstBadByte_eq_none_iff.mp (by decide)⟩
    let msg := List.replicate 48 0 ++ encodeIdentityTlv id
    let hs := NoiseHs.responder (plainPrimitives.derivePublic plainKey) none
    let hs' := hs.after (Ephemeral.filled 0) (List.replicate 16 0 ++ encodeIdentityTlv id)
    @Responder.recv (noise plainPrimitives) (.wantHsBody hs msg.length) msg =
      (.needPsk hs' id, .ok ()) := by
  intro id msg hs hs'
  have hread : (noise plainPrimitives).readMessage hs msg = .ok (encodeIdentityTlv id, hs') := rfl
  exact ((identityTlv_exact hread).1 id).mpr rfl

/-! ### Which byte is reported -/

/-- **The first byte outside the charset**: the byte stands at the offset, and every byte
before it is of the charset. -/
structure IsFirstBadByte (s : Bytes) (offset : ℕ) (byte : UInt8) : Prop where
  getElem?_offset : s[offset]? = some byte
  bad : isIdentityByte byte = false
  good_before : ∀ b ∈ s.take offset, isIdentityByte b = true

/-- A byte outside the charset stands before the byte that breaks UTF-8. -/
def BadBeforeBreak (body : Bytes) : Prop :=
  utf8ValidUpTo body < body.length ∧
    ∃ b ∈ body.take (utf8ValidUpTo body), isIdentityByte b = false

instance (body : Bytes) : Decidable (BadBeforeBreak body) :=
  inferInstanceAs (Decidable (_ ∧ _))

section FirstBadByte

variable {s body : Bytes} {offset offset' : ℕ} {byte byte' : UInt8}

/-- There is one first bad byte at most. -/
theorem IsFirstBadByte.unique (h : IsFirstBadByte s offset byte)
    (h' : IsFirstBadByte s offset' byte') : offset = offset' ∧ byte = byte' := by
  have not_lt : ∀ {i j b c}, IsFirstBadByte s i b → IsFirstBadByte s j c → ¬i < j := by
    intro i j b c hi hj hlt
    have hmem : b ∈ s.take j :=
      List.mem_of_getElem? ((List.getElem?_take_of_lt hlt).trans hi.getElem?_offset)
    exact absurd (hj.good_before b hmem) (Bool.eq_false_iff.mp hi.bad)
  obtain rfl : offset = offset' :=
    le_antisymm (Nat.le_of_not_lt (not_lt h' h)) (Nat.le_of_not_lt (not_lt h h'))
  exact ⟨rfl, Option.some.inj (h.getElem?_offset.symm.trans h'.getElem?_offset)⟩

/-- The scan of `Identity::parse` finds the first bad byte. -/
theorem firstBadByte_eq_some_iff :
    firstBadByte s = some (byte, offset) ↔ IsFirstBadByte s offset byte := by
  have scan : ∀ {b i}, firstBadByte s = some (b, i) → IsFirstBadByte s i b := by
    intro b i h
    obtain ⟨hbad, j, hj, hget, hbefore⟩ := List.find?_eq_some_iff_getElem.mp h
    rw [List.getElem_zipIdx, Nat.zero_add, Prod.mk.injEq] at hget
    obtain ⟨rfl, rfl⟩ := hget
    refine ⟨List.getElem?_eq_getElem _, by simpa using hbad, ?_⟩
    intro b hb
    obtain ⟨k, hk, rfl⟩ := List.mem_take_iff_getElem.mp hb
    simpa using hbefore k (Nat.lt_min.mp hk).1
  refine ⟨scan, fun h => ?_⟩
  rcases hfirst : firstBadByte s with _ | ⟨b, i⟩
  · have hmem : byte ∈ s := List.mem_of_getElem? h.getElem?_offset
    exact absurd (firstBadByte_eq_none_iff.mp hfirst byte hmem) (Bool.eq_false_iff.mp h.bad)
  · obtain ⟨rfl, rfl⟩ := (scan hfirst).unique h
    rfl

/-- What breaks UTF-8 is outside the charset, which is ASCII. -/
theorem not_isIdentityByte_of_utf8ValidUpTo (h : body[utf8ValidUpTo body]? = some byte) :
    isIdentityByte byte = false :=
  Bool.eq_false_iff.mpr fun hgood =>
    not_ascii_of_utf8ValidUpTo h (isIdentityByte_range hgood).2.1

/-- A body of a legal length with a byte outside the charset has a first such byte, and
`Identity::parse` reports it. -/
theorem Identity.parse_of_bad (hpos : 1 ≤ body.length) (hle : body.length ≤ 64)
    (hbad : ∃ b ∈ body, isIdentityByte b = false) :
    ∃ offset byte, IsFirstBadByte body offset byte ∧
      Identity.parse body = .error (.badCharset offset byte) := by
  rcases hfirst : firstBadByte body with _ | ⟨byte, offset⟩
  · obtain ⟨b, hb, hbad⟩ := hbad
    exact absurd (firstBadByte_eq_none_iff.mp hfirst b hb) (Bool.eq_false_iff.mp hbad)
  · refine ⟨offset, byte, firstBadByte_eq_some_iff.mp hfirst, ?_⟩
    have hlen : ¬(body = [] ∨ Identity.maxLen < body.length) := by
      rintro (rfl | hlong)
      · exact absurd hpos (by decide)
      · exact absurd hle (Nat.not_le.mpr hlong)
    unfold Identity.parse
    rw [dif_neg hlen]
    split
    · rename_i heq
      rw [hfirst] at heq
      cases heq
      rfl
    · rename_i heq
      rw [hfirst] at heq
      cases heq

/-- A body that breaks UTF-8 is reported at the break. -/
theorem parseTlvBody_of_break (h : utf8ValidUpTo body < body.length) :
    ∃ byte, body[utf8ValidUpTo body]? = some byte ∧
      parseTlvBody body = .error (.invalidCharset (utf8ValidUpTo body) byte) := by
  refine ⟨_, List.getElem?_eq_getElem h, ?_⟩
  rw [parseTlvBody, fromUtf8, if_neg h.ne]
  simp [h]

/-- A body in UTF-8 is reported as `Identity::parse` reports it. -/
theorem parseTlvBody_of_utf8 (h : utf8ValidUpTo body = body.length) :
    parseTlvBody body = (Identity.parse body).mapError .ofIdentityError := by
  rw [parseTlvBody, fromUtf8, if_pos h]
  simp only
  rcases Identity.parse body with e | identity <;> rfl

end FirstBadByte

/-- **The first bad byte is reported unless one stands before the byte that breaks UTF-8.**
The report is of a byte of the body outside the charset in every case; it is the report of
the first one, which is what `Identity::parse` would say of the same bytes, iff no such byte
stands before the break. -/
theorem parseTlvBody_reports_first_iff {body : Bytes} (hpos : 1 ≤ body.length)
    (hle : body.length ≤ 64) (hbad : ∃ b ∈ body, isIdentityByte b = false) :
    ((∃ offset byte, IsFirstBadByte body offset byte ∧
        parseTlvBody body = .error (.invalidCharset offset byte)) ↔ ¬BadBeforeBreak body) ∧
      (parseTlvBody body = (Identity.parse body).mapError .ofIdentityError ↔
        ¬BadBeforeBreak body) ∧
      ∃ offset byte, parseTlvBody body = .error (.invalidCharset offset byte) ∧
        body[offset]? = some byte ∧ isIdentityByte byte = false := by
  obtain ⟨offset, byte, hfirst, hparse⟩ := Identity.parse_of_bad hpos hle hbad
  have hsay : (Identity.parse body).mapError TlvError.ofIdentityError =
      .error (.invalidCharset offset byte) := by rw [hparse]; rfl
  -- The two readings of the claim agree, because there is one first bad byte.
  have hiff : (∃ offset byte, IsFirstBadByte body offset byte ∧
      parseTlvBody body = .error (.invalidCharset offset byte)) ↔
      parseTlvBody body = (Identity.parse body).mapError .ofIdentityError := by
    rw [hsay]
    constructor
    · rintro ⟨i, b, hib, heq⟩
      obtain ⟨rfl, rfl⟩ := hib.unique hfirst
      exact heq
    · intro heq
      exact ⟨offset, byte, hfirst, heq⟩
  rw [hiff, and_iff_right_of_imp fun h => h.1]
  by_cases hutf8 : utf8ValidUpTo body = body.length
  · have heq := parseTlvBody_of_utf8 hutf8
    exact ⟨⟨fun _ hbreak => hbreak.1.ne hutf8, fun _ => heq⟩, offset, byte, heq.trans hsay,
      hfirst.getElem?_offset, hfirst.bad⟩
  · have hlt : utf8ValidUpTo body < body.length := lt_of_le_of_ne (utf8ValidUpTo_le body) hutf8
    obtain ⟨b, hget, heq⟩ := parseTlvBody_of_break hlt
    have hb : isIdentityByte b = false := not_isIdentityByte_of_utf8ValidUpTo hget
    refine ⟨?_, _, b, heq, hget, hb⟩
    rw [heq, hsay, Except.error.injEq, TlvError.invalidCharset.injEq]
    constructor
    · rintro ⟨rfl, rfl⟩ ⟨-, c, hc, hcbad⟩
      exact absurd (hfirst.good_before c hc) (Bool.eq_false_iff.mp hcbad)
    · intro hnone
      refine IsFirstBadByte.unique ⟨hget, hb, fun c hc => ?_⟩ hfirst
      by_contra hcbad
      exact hnone ⟨hlt, c, hc, Bool.eq_false_iff.mpr hcbad⟩

/-- Bytes that start no UTF-8 sequence after letters: the first of them is reported. -/
theorem parseTlvBody_reports_first_after_letters :
    ∃ offset byte, IsFirstBadByte [0x61, 0x62, 0xFF, 0x20] offset byte ∧
      parseTlvBody [0x61, 0x62, 0xFF, 0x20] = .error (.invalidCharset offset byte) := by
  have hgood : ¬BadBeforeBreak [0x61, 0x62, 0xFF, 0x20] := by decide +kernel
  exact (parseTlvBody_reports_first_iff (by decide) (by decide)
    ⟨0xFF, by decide, by decide⟩).1.mpr hgood

/-- A blank and then a byte that breaks UTF-8: the break is reported, not the blank. -/
theorem parseTlvBody_reports_break_after_blank :
    IsFirstBadByte [0x20, 0xFF] 0 0x20 ∧
      parseTlvBody [0x20, 0xFF] = .error (.invalidCharset 1 0xFF) ∧
      ¬∃ offset byte, IsFirstBadByte [0x20, 0xFF] offset byte ∧
        parseTlvBody [0x20, 0xFF] = .error (.invalidCharset offset byte) := by
  have hfirst : IsFirstBadByte [0x20, 0xFF] 0 0x20 := ⟨rfl, by decide, by simp⟩
  have hreport : parseTlvBody [0x20, 0xFF] = .error (.invalidCharset 1 0xFF) := by decide +kernel
  refine ⟨hfirst, hreport, ?_⟩
  rintro ⟨offset, byte, hfirst', hreport'⟩
  obtain ⟨rfl, rfl⟩ := hfirst'.unique hfirst
  rw [hreport] at hreport'
  exact absurd hreport' (by decide)

end Symbolon
