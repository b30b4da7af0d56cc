import Symbolon.Client
import Symbolon.PlainCodec
import Symbolon.PskStore.Format

/-!
# The key files

Two files hold a key in hexadecimal. The helper's has the broker's public key and the client's
own, around a colon (`Symbolon.Client.loadKeyFile`); the daemon's has the broker's private key
(`Symbolon.loadBrokerKey`). Both may have white space around, Unicode's for the one and ASCII's
for the other, and nothing else.

So what `symbolon pubkey` and `symbolon github enroll` print, joined by a colon, is a key file,
and the helper reads from it the keys that the daemon has (`Symbolon.Client.loadKeyFile_hexOf`).
-/

namespace Symbolon

open Text

/-- `BrokerPrivateKey::from_hex`. -/
def BrokerPrivateKey.fromHex (H : HexCrate) (digits : Bytes) :
    Except FromHexError BrokerPrivateKey :=
  match H.decode digits with
  | .error e => .error e
  | .ok key => .ok ⟨key.bytes, key.len⟩

/-- **`load_broker_key`**, on what is in the file. -/
def loadBrokerKey (H : HexCrate) (bytes : Bytes) : Except FromHexError BrokerPrivateKey :=
  BrokerPrivateKey.fromHex H (trim asciiWhiteSpace bytes)

/-! ### Digits -/

section Digits

variable {digits bs : Bytes} {b : UInt8}

theorem hexVal_isSome_of_mem (h : hexBytes digits = some bs) (hb : b ∈ digits) :
    (hexVal b).isSome :=
  (exists_hexBytes_iff.mp ⟨bs, h, rfl⟩).2 b hb

theorem length_of_hexBytes (h : hexBytes digits = some bs) : digits.length = 2 * bs.length :=
  (exists_hexBytes_iff.mp ⟨bs, h, rfl⟩).1

/-- A digit is not a colon, and is ASCII. -/
theorem hexVal_isSome_range (h : (hexVal b).isSome) : b ≠ 0x3A ∧ b < 0x80 := by
  have hrange : 0x30 ≤ b.toNat ∧ b.toNat ≤ 0x39 ∨ 0x61 ≤ b.toNat ∧ b.toNat ≤ 0x66 ∨
      0x41 ≤ b.toNat ∧ b.toNat ≤ 0x46 := by
    by_contra hnot
    push Not at hnot
    rw [hexVal, if_neg (by omega), if_neg (by omega), if_neg (by omega)] at h
    cases h
  rw [UInt8.lt_iff_toNat_lt, ne_eq, ← UInt8.toNat_inj]
  simp only [UInt8.reduceToNat]
  omega

/-- No white space begins or ends with a digit. -/
theorem whiteSpace_not_digit : ∀ w ∈ whiteSpace,
    (∀ b ∈ w.head?, hexVal b = none) ∧ ∀ b ∈ w.getLast?, hexVal b = none := by
  decide +kernel

theorem asciiWhiteSpace_subset : ∀ w ∈ asciiWhiteSpace, w ∈ whiteSpace := by decide

/-- What the crate decodes, for the other keys of 32 bytes. -/
theorem HexCrate.Lawful.exists_decode_bytes_iff {H : HexCrate} (hH : H.Lawful)
    (hlen : bs.length = 32) :
    (∃ key, H.decode digits = .ok key ∧ key.bytes = bs) ↔ hexBytes digits = some bs := by
  constructor
  · rintro ⟨key, hkey, rfl⟩
    exact (hH.decode_eq_ok_iff _ _).mp hkey
  · intro h
    exact ⟨⟨bs, hlen⟩, (hH.decode_eq_ok_iff _ ⟨bs, hlen⟩).mpr h, rfl⟩

theorem BrokerPublicKey.fromHex_eq_ok_iff {H : HexCrate} (hH : H.Lawful) {key : BrokerPublicKey} :
    fromHex H digits = .ok key ↔ hexBytes digits = some key.bytes := by
  rw [← hH.exists_decode_bytes_iff key.len]
  obtain ⟨bytes, hlen⟩ := key
  rcases h : H.decode digits with e | psk <;> simp [fromHex, h]

theorem BrokerPrivateKey.fromHex_eq_ok_iff {H : HexCrate} (hH : H.Lawful)
    {key : BrokerPrivateKey} : fromHex H digits = .ok key ↔ hexBytes digits = some key.bytes := by
  rw [← hH.exists_decode_bytes_iff key.len]
  obtain ⟨bytes, hlen⟩ := key
  rcases h : H.decode digits with e | psk <;> simp [fromHex, h]

end Digits

/-- **Trimming finds what begins and ends with a digit.** -/
theorem trim_digits {ws : List Bytes} {front core back : Bytes} (hsub : ∀ w ∈ ws, w ∈ whiteSpace)
    (hws : PrefixFree ws) (hrev : PrefixFree (ws.map List.reverse)) (hfront : Spelled ws front)
    (hback : Spelled ws back) {a z : UInt8} (ha : core.head? = some a) (hz : core.getLast? = some z)
    (hda : (hexVal a).isSome) (hdz : (hexVal z).isSome) :
    trim ws (front ++ core ++ back) = core := by
  refine trim_append hws hrev hfront hback (fun h => ?_) (fun w hw h => ?_) fun w hw h => ?_
  · rw [h] at ha
    cases ha
  · rw [(whiteSpace_not_digit w (hsub w hw)).1 a (h.trans ha)] at hda
    cases hda
  · rw [(whiteSpace_not_digit w (hsub w hw)).2 z (h.trans hz)] at hdz
    cases hdz

namespace Client

variable {ε : Type} {H : HexCrate} {host : ClientHost} {path text : Bytes} {pub : BrokerPublicKey}
  {psk : Psk}

/-- The text is two keys around its first colon. -/
theorem parseKeyFile_eq_ok_iff (hH : H.Lawful) :
    parseKeyFile (ε := ε) H path text = .ok (pub, psk) ↔
      ∃ d₁ d₂, trim whiteSpace text = d₁ ++ 0x3A :: d₂ ∧ hexBytes d₁ = some pub.bytes ∧
        hexBytes d₂ = some psk.bytes := by
  constructor
  · intro h
    simp only [parseKeyFile] at h
    split at h
    · cases h
    · rename_i d₁ d₂ hsplit
      split at h
      · cases h
      · rename_i pub' hpub
        split at h
        · cases h
        · rename_i psk' hpsk
          cases h
          exact ⟨d₁, d₂, (splitOnce_eq_some_iff.mp hsplit).1,
            (BrokerPublicKey.fromHex_eq_ok_iff hH).mp hpub, (hH.decode_eq_ok_iff _ _).mp hpsk⟩
  · rintro ⟨d₁, d₂, htrim, h₁, h₂⟩
    have hcolon : 0x3A ∉ d₁ := fun hmem =>
      (hexVal_isSome_range (hexVal_isSome_of_mem h₁ hmem)).1 rfl
    simp only [parseKeyFile, htrim, splitOnce_append hcolon,
      (BrokerPublicKey.fromHex_eq_ok_iff hH).mpr h₁, (hH.decode_eq_ok_iff _ _).mpr h₂]

/-- White space around two keys and a colon: UTF-8, and trimmed to what is between. -/
theorem trim_keyFile {front back d₁ d₂ : Bytes} (hfront : Spelled whiteSpace front)
    (hback : Spelled whiteSpace back) (h₁ : hexBytes d₁ = some pub.bytes)
    (h₂ : hexBytes d₂ = some psk.bytes) :
    fromUtf8 (front ++ (d₁ ++ 0x3A :: d₂) ++ back) = .ok (front ++ (d₁ ++ 0x3A :: d₂) ++ back) ∧
      trim whiteSpace (front ++ (d₁ ++ 0x3A :: d₂) ++ back) = d₁ ++ 0x3A :: d₂ := by
  have hl₁ := length_of_hexBytes h₁
  have hl₂ := length_of_hexBytes h₂
  rw [pub.len] at hl₁
  rw [psk.len] at hl₂
  have hne₁ : d₁ ≠ [] := fun h => by simp [h] at hl₁
  have hne₂ : d₂ ≠ [] := fun h => by simp [h] at hl₂
  have hascii : ∀ b ∈ d₁ ++ 0x3A :: d₂, b < 0x80 := by
    intro b hb
    rcases List.mem_append.mp hb with hb | hb
    · exact (hexVal_isSome_range (hexVal_isSome_of_mem h₁ hb)).2
    · rcases List.mem_cons.mp hb with rfl | hb
      · decide
      · exact (hexVal_isSome_range (hexVal_isSome_of_mem h₂ hb)).2
  refine ⟨?_, ?_⟩
  · have hvalid : utf8ValidUpTo (front ++ ((d₁ ++ 0x3A :: d₂) ++ back)) =
        (front ++ ((d₁ ++ 0x3A :: d₂) ++ back)).length := by
      refine hfront.utf8ValidUpTo_append ?_
      have hend := hback.utf8ValidUpTo_append (show utf8ValidUpTo [] = [].length from rfl)
      rw [List.append_nil] at hend
      rw [utf8ValidUpTo_append (utf8ValidUpTo_of_ascii hascii), hend]
      exact List.length_append.symm
    rw [List.append_assoc, fromUtf8, if_pos hvalid]
  · refine trim_digits (fun _ h => h) prefixFree_whiteSpace prefixFree_reverse_whiteSpace hfront
      hback (List.head?_append_of_ne_nil _ hne₁ |>.trans (List.head?_eq_some_head hne₁))
      (z := d₂.getLast hne₂) ?_ (hexVal_isSome_of_mem h₁ (List.head_mem hne₁))
      (hexVal_isSome_of_mem h₂ (List.getLast_mem hne₂))
    rw [List.getLast?_append_of_ne_nil _ (List.cons_ne_nil _ _), List.getLast?_cons_of_ne_nil hne₂,
      List.getLast?_eq_some_getLast hne₂]

theorem loadKeyFile_of_spelled (hH : H.Lawful) {front d₁ d₂ back : Bytes}
    (hread : host.read path = .ok (front ++ (d₁ ++ 0x3A :: d₂) ++ back))
    (hfront : Spelled whiteSpace front) (hback : Spelled whiteSpace back)
    (h₁ : hexBytes d₁ = some pub.bytes) (h₂ : hexBytes d₂ = some psk.bytes) :
    loadKeyFile (ε := ε) H host path = .ok (pub, psk) := by
  obtain ⟨hutf8, htrim⟩ := trim_keyFile hfront hback h₁ h₂
  simp only [loadKeyFile, hread, hutf8]
  exact (parseKeyFile_eq_ok_iff hH).mpr ⟨d₁, d₂, htrim, h₁, h₂⟩

/-- **The key files that are accepted, and what is read from them.** -/
theorem loadKeyFile_eq_ok_iff (hH : H.Lawful) :
    loadKeyFile (ε := ε) H host path = .ok (pub, psk) ↔
      ∃ front d₁ d₂ back, host.read path = .ok (front ++ (d₁ ++ 0x3A :: d₂) ++ back) ∧
        Spelled whiteSpace front ∧ Spelled whiteSpace back ∧
        hexBytes d₁ = some pub.bytes ∧ hexBytes d₂ = some psk.bytes := by
  constructor
  · intro h
    simp only [loadKeyFile] at h
    split at h
    · cases h
    · rename_i bytes hread
      split at h
      · cases h
      · rename_i text hutf8
        obtain rfl := fromUtf8_eq_ok hutf8
        obtain ⟨d₁, d₂, htrim, h₁, h₂⟩ := (parseKeyFile_eq_ok_iff hH).mp h
        obtain ⟨front, back, hfront, hback, htext⟩ := exists_trim whiteSpace text
        rw [htrim] at htext
        exact ⟨front, d₁, d₂, back, htext ▸ hread, hfront, hback, h₁, h₂⟩
  · rintro ⟨front, d₁, d₂, back, hread, hfront, hback, h₁, h₂⟩
    exact loadKeyFile_of_spelled hH hread hfront hback h₁ h₂

/-- A machine with one file. -/
def oneFileHost (bytes : Bytes) : ClientHost :=
  ⟨Unit, fun _ => .ok bytes, .ok [], fun _ => .ok [], fun _ => .ok (), .ok (), .ok (),
    fun out => (out, .ok ())⟩

/-- A no-break space before the keys and a line end after them. -/
theorem loadKeyFile_noBreakSpace :
    loadKeyFile (ε := Unit) plainHex
        (oneFileHost ([0xC2, 0xA0] ++ (List.replicate 64 0x41 ++ 0x3A :: List.replicate 64 0x31) ++
          [0x0D, 0x0A])) [] =
      .ok (⟨List.replicate 32 0xAA, List.length_replicate⟩, Psk.filled 0x11) :=
  (loadKeyFile_eq_ok_iff plainHex_lawful).mpr
    ⟨[0xC2, 0xA0], List.replicate 64 0x41, List.replicate 64 0x31, [0x0D, 0x0A], rfl,
      ⟨[[0xC2, 0xA0]], by decide, rfl⟩, ⟨[[0x0D], [0x0A]], by decide, rfl⟩, by decide, by decide⟩

/-- **What the broker prints is what the helper reads.** -/
theorem loadKeyFile_hexOf (hH : H.Lawful) {front back : Bytes} (hfront : Spelled whiteSpace front)
    (hback : Spelled whiteSpace back)
    (hread : host.read path =
      .ok (front ++ (hexOf pub.bytes ++ 0x3A :: hexOf psk.bytes) ++ back)) :
    loadKeyFile (ε := ε) H host path = .ok (pub, psk) :=
  loadKeyFile_of_spelled hH hread hfront hback (hexBytes_hexOf _) (hexBytes_hexOf _)

end Client

/-- **The files of the broker's key that are accepted, and what is read from them.** -/
theorem loadBrokerKey_eq_ok_iff {H : HexCrate} (hH : H.Lawful) {bytes : Bytes}
    {key : BrokerPrivateKey} :
    loadBrokerKey H bytes = .ok key ↔
      ∃ front digits back, bytes = front ++ digits ++ back ∧ Spelled asciiWhiteSpace front ∧
        Spelled asciiWhiteSpace back ∧ hexBytes digits = some key.bytes := by
  rw [loadBrokerKey, BrokerPrivateKey.fromHex_eq_ok_iff hH]
  constructor
  · intro h
    obtain ⟨front, back, hfront, hback, hbytes⟩ := exists_trim asciiWhiteSpace bytes
    exact ⟨front, _, back, hbytes, hfront, hback, h⟩
  · rintro ⟨front, digits, back, rfl, hfront, hback, hd⟩
    have hlen := length_of_hexBytes hd
    rw [key.len] at hlen
    have hne : digits ≠ [] := fun h => by simp [h] at hlen
    rwa [trim_digits asciiWhiteSpace_subset prefixFree_asciiWhiteSpace
      prefixFree_reverse_asciiWhiteSpace hfront hback (List.head?_eq_some_head hne)
      (List.getLast?_eq_some_getLast hne) (hexVal_isSome_of_mem hd (List.head_mem hne))
      (hexVal_isSome_of_mem hd (List.getLast_mem hne))]

/-- A space before the key and a line feed after it. -/
theorem loadBrokerKey_padded :
    loadBrokerKey plainHex ([0x20] ++ List.replicate 64 0x31 ++ [lf]) =
      .ok ⟨List.replicate 32 0x11, List.length_replicate⟩ :=
  (loadBrokerKey_eq_ok_iff plainHex_lawful).mpr
    ⟨[0x20], List.replicate 64 0x31, [lf], rfl, ⟨[[0x20]], by decide, rfl⟩,
      ⟨[[lf]], by decide, rfl⟩, by decide⟩

end Symbolon
