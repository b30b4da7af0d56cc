import Symbolon.Identity
import Symbolon.Lib.Collect

/-!
# The PSK file

`src/psk_store.rs`: the table from identities to keys, and its text form – one
`identity:hex` line per entry, blank lines skipped, a repeated identity refused. The
table is a hash map, so the order of the lines of a rendered file is whatever
iteration order the map happens to have. `Symbolon.PskStore.parse_render` is the reason
that does not matter: rendered in any order, the file reads back as the same table.

The hexadecimal codec is a third-party crate. It enters as `Symbolon.HexCrate`, two
functions, and `Symbolon.HexCrate.Lawful`, their documented behaviour: encoding writes
two lower-case digits per byte, high nibble first, and decoding accepts exactly 64
digits of either case and returns the bytes they denote.
-/

namespace Symbolon

open Text

/-- A table keyed by identity: the hash maps of the daemon. -/
abbrev Table (V : Type) := Finmap fun _ : Identity => V

/-! ### Hexadecimal -/

/-- Why a string is not the hexadecimal form of a key. -/
inductive FromHexError
  /-- An odd number of digits. -/
  | oddLength
  /-- The wrong number of digits. -/
  | invalidStringLength
  /-- A byte that is not a digit. -/
  | invalidHexCharacter (c : UInt8) (index : ℕ)
  deriving DecidableEq

/-- The lower-case digit of a nibble. -/
def hexDigit (n : ℕ) : UInt8 := UInt8.ofNat (if n < 10 then 0x30 + n else 0x57 + n)

/-- The value of a digit, of either case. -/
def hexVal (b : UInt8) : Option ℕ :=
  if 0x30 ≤ b.toNat ∧ b.toNat ≤ 0x39 then some (b.toNat - 0x30)
  else if 0x61 ≤ b.toNat ∧ b.toNat ≤ 0x66 then some (b.toNat - 0x57)
  else if 0x41 ≤ b.toNat ∧ b.toNat ≤ 0x46 then some (b.toNat - 0x37)
  else none

/-- The two digits of each byte, high nibble first. -/
def hexOf (bs : Bytes) : Bytes :=
  bs.flatMap fun b => [hexDigit (b.toNat / 16), hexDigit (b.toNat % 16)]

/-- The bytes a string of digits denotes. -/
def hexBytes : Bytes → Option Bytes
  | [] => some []
  | [_] => none
  | c :: d :: rest =>
    match hexVal c, hexVal d, hexBytes rest with
    | some hi, some lo, some bs => some (UInt8.ofNat (16 * hi + lo) :: bs)
    | _, _, _ => none

theorem hexVal_hexDigit : ∀ n < 16, hexVal (hexDigit n) = some n := by
  decide

theorem hexBytes_hexOf (bs : Bytes) : hexBytes (hexOf bs) = some bs := by
  induction bs with
  | nil => rfl
  | cons b bs ih =>
    have hlt := b.toNat_lt
    have hb : hexOf (b :: bs) =
        hexDigit (b.toNat / 16) :: hexDigit (b.toNat % 16) :: hexOf bs := rfl
    have hval : 16 * (b.toNat / 16) + b.toNat % 16 = b.toNat := by omega
    rw [hb, hexBytes, hexVal_hexDigit _ (by omega), hexVal_hexDigit _ (by omega), ih]
    simp only [hval, UInt8.ofNat_toNat]

/-- A digit is not a separator of the file format, and is ASCII. -/
theorem hexDigit_range : ∀ n < 16,
    hexDigit n ≠ lf ∧ hexDigit n ≠ cr ∧ hexDigit n ≠ 0x3A ∧ hexDigit n < 0x80 := by
  decide

theorem mem_hexOf {bs : Bytes} {d : UInt8} (h : d ∈ hexOf bs) : ∃ n < 16, d = hexDigit n := by
  obtain ⟨b, -, hd⟩ := List.mem_flatMap.mp h
  have hlt := b.toNat_lt
  rcases List.mem_cons.mp hd with rfl | hd
  · exact ⟨b.toNat / 16, by omega, rfl⟩
  · exact ⟨b.toNat % 16, by omega, List.mem_singleton.mp hd⟩

/-- The two entry points of the `hex` crate the daemon uses on keys:
`encode_to_slice` and `decode_to_slice`. -/
structure HexCrate where
  /-- The digits of a key. -/
  encode : Psk → Bytes
  /-- The key a string of digits denotes. -/
  decode : Bytes → Except FromHexError Psk

/-- The documented behaviour of the crate. -/
structure HexCrate.Lawful (H : HexCrate) : Prop where
  /-- Encoding writes two lower-case digits per byte. -/
  encode_eq : ∀ psk : Psk, H.encode psk = hexOf psk.bytes
  /-- Decoding accepts exactly the digits of 32 bytes. -/
  decode_eq_ok_iff : ∀ (s : Bytes) (psk : Psk), H.decode s = .ok psk ↔ hexBytes s = some psk.bytes

theorem HexCrate.Lawful.decode_encode {H : HexCrate} (hH : H.Lawful) (psk : Psk) :
    H.decode (H.encode psk) = .ok psk := by
  rw [hH.decode_eq_ok_iff, hH.encode_eq, hexBytes_hexOf]

/-! ### The file -/

/-- Why a PSK file is refused; lines are counted from one. -/
inductive PskStoreError
  /-- The file is not UTF-8. -/
  | utf8 (validUpTo : ℕ)
  /-- A line without a colon. -/
  | missingSeparator (line : ℕ)
  /-- What stands before the colon is not an identity. -/
  | badIdentity (line : ℕ) (source : IdentityError)
  /-- What stands after the colon is not a key. -/
  | badPskHex (line : ℕ) (source : FromHexError)
  /-- The identity stands on an earlier line. -/
  | duplicateIdentity (line : ℕ) (identity : Identity)
  deriving DecidableEq

/-- The in-memory store: identity to key. -/
abbrev PskStore := Table Psk

namespace PskStore

/-- The separator between an identity and its key. -/
abbrev colon : UInt8 := 0x3A

variable (H : HexCrate)

/-- The loop of the parser, from line number `lineNo` on, over the entries collected
so far. -/
def parseLines : ℕ → List Bytes → PskStore → Except PskStoreError PskStore
  | _, [], entries => .ok entries
  | lineNo, raw :: rest, entries =>
    let line := raw.rdropWhile fun b => b == cr || b == lf
    if line = [] then parseLines (lineNo + 1) rest entries
    else match splitOnce colon line with
      | none => .error (.missingSeparator lineNo)
      | some (idStr, hex) =>
        match Identity.parse idStr with
        | .error source => .error (.badIdentity lineNo source)
        | .ok id =>
          match H.decode hex with
          | .error source => .error (.badPskHex lineNo source)
          | .ok psk =>
            if id ∈ entries then .error (.duplicateIdentity lineNo id)
            else parseLines (lineNo + 1) rest (entries.insert id psk)

/-- Parse the contents of a PSK file. -/
def parse (text : Bytes) : Except PskStoreError PskStore := parseLines H 1 (lines text) ∅

/-- The line of one entry, without its terminator. -/
def renderLine (e : Σ _ : Identity, Psk) : Bytes := e.1.str ++ colon :: H.encode e.2

/-- Render the entries of the store, in the order the map iterates them. -/
def render (order : List (Σ _ : Identity, Psk)) : Bytes :=
  order.flatMap fun e => renderLine H e ++ [lf]

variable {H}

theorem mem_renderLine (hH : H.Lawful) {e : Σ _ : Identity, Psk} {b : UInt8}
    (hb : b ∈ renderLine H e) : b ≠ lf ∧ b ≠ cr ∧ b < 0x80 := by
  rcases List.mem_append.mp hb with hb | hb
  · have h := isIdentityByte_range (e.1.charset b hb)
    refine ⟨?_, ?_, h.2.1⟩ <;> rintro rfl <;> exact absurd h.1 (by decide)
  · rcases List.mem_cons.mp hb with rfl | hb
    · decide
    · rw [hH.encode_eq] at hb
      obtain ⟨n, hn, rfl⟩ := mem_hexOf hb
      have h := hexDigit_range n hn
      exact ⟨h.1, h.2.1, h.2.2.2⟩

theorem colon_notMem_str (id : Identity) : colon ∉ id.str := fun h =>
  (isIdentityByte_range (id.charset _ h)).2.2 rfl

/-- A rendered line parses as its own entry, wherever it stands in the file. -/
theorem parseLines_renderLine (hH : H.Lawful) (e : Σ _ : Identity, Psk) (lineNo : ℕ)
    (rest : List Bytes) (entries : PskStore) (hnew : e.1 ∉ entries) :
    parseLines H lineNo (renderLine H e :: rest) entries =
      parseLines H (lineNo + 1) rest (entries.insert e.1 e.2) := by
  have htrim : (renderLine H e).rdropWhile (fun b => b == cr || b == lf) = renderLine H e := by
    refine rdropWhile_eq_self fun b hb => ?_
    have h := mem_renderLine hH hb
    simp [h.1, h.2.1]
  have hne : renderLine H e ≠ [] := by simp [renderLine]
  have hsplit : splitOnce colon (renderLine H e) = some (e.1.str, H.encode e.2) :=
    splitOnce_append (colon_notMem_str e.1) _
  rw [parseLines]
  simp only [htrim, if_neg hne, hsplit, Identity.parse_str, hH.decode_encode, if_neg hnew]

/-- The lines of a rendered file, collected into the entries already there. -/
theorem parseLines_render (hH : H.Lawful) {order : List (Σ _ : Identity, Psk)} :
    ∀ {lineNo : ℕ} {entries store : PskStore}, entries.collectInto order = some store →
      parseLines H lineNo (lines (render H order)) entries = .ok store := by
  induction order with
  | nil =>
    intro lineNo entries store h
    simp only [Finmap.collectInto, Option.some.injEq] at h
    subst h
    rfl
  | cons e order ih =>
    intro lineNo entries store h
    simp only [Finmap.collectInto] at h
    by_cases hmem : e.1 ∈ entries
    · rw [if_pos hmem] at h
      cases h
    · rw [if_neg hmem] at h
      have hline : lines (render H (e :: order)) = renderLine H e :: lines (render H order) := by
        have happ : render H (e :: order) = renderLine H e ++ lf :: render H order := by
          simp [render]
        rw [happ]
        exact lines_append_lf (fun hm => (mem_renderLine hH hm).1 rfl)
          (fun hm => (mem_renderLine hH hm).2.1 rfl) _
      rw [hline, parseLines_renderLine hH e lineNo _ entries hmem]
      exact ih h

/-- **A rendered store reads back as itself**, in whatever order the map was
iterated. -/
theorem parse_render (hH : H.Lawful) {order : List (Σ _ : Identity, Psk)} {store : PskStore}
    (h : Finmap.Enumerates order store) : parse H (render H order) = .ok store :=
  parseLines_render hH h.collect_eq

/-- A rendered store is ASCII. -/
theorem render_lt (hH : H.Lawful) {order : List (Σ _ : Identity, Psk)} {b : UInt8}
    (hb : b ∈ render H order) : b < 0x80 := by
  obtain ⟨e, -, he⟩ := List.mem_flatMap.mp hb
  rcases List.mem_append.mp he with he | he
  · exact (mem_renderLine hH he).2.2
  · rw [List.mem_singleton.mp he]
    decide

end PskStore

end Symbolon
