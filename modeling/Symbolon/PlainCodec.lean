import Symbolon.State.Mutation

/-!
# A pair of codecs that keeps its promises

The development assumes of the two codecs what `Symbolon.Codecs.Lawful` says. This file
has a pair for which it holds (`Symbolon.plainCodecs_lawful`): the assumptions can be
met together, and runs of the machine can be computed from a started daemon
(`Symbolon.plainBoot_started`). Keys are written as the `hex`
crate writes them. The client list is not JSON but four lines of hexadecimal per entry
– the name, one byte per provider, the enrolment time in unary, and the note – which is
enough for a round trip.
-/

namespace Symbolon

open Text

/-! ### Keys -/

/-- Decode the digits of a key. -/
def plainDecode (s : Bytes) : Except FromHexError Psk :=
  match hexBytes s with
  | none => .error .oddLength
  | some bytes => if h : bytes.length = 32 then .ok ⟨bytes, h⟩ else .error .invalidStringLength

/-- The codec of keys. -/
def plainHex : HexCrate := ⟨fun psk => hexOf psk.bytes, plainDecode⟩

theorem plainHex_lawful : plainHex.Lawful where
  encode_eq _ := rfl
  decode_eq_ok_iff s psk := by
    obtain ⟨bytes, hlen⟩ := psk
    rcases hs : hexBytes s with - | bs
    · simp [plainHex, plainDecode, hs]
    · by_cases hb : bs.length = 32
      · simp [plainHex, plainDecode, hs, hb]
      · simp only [plainHex, plainDecode, hs, dif_neg hb, Option.some.injEq, reduceCtorEq,
          false_iff]
        rintro rfl
        exact hb hlen

/-! ### Lines of hexadecimal -/

/-- Write each field on a line of its own. -/
def plainLines (fields : List Bytes) : Bytes := fields.flatMap fun f => hexOf f ++ [lf]

/-- Read the fields of a list of lines. -/
def plainFields : List Bytes → Option (List Bytes)
  | [] => some []
  | l :: ls =>
    match hexBytes l, plainFields ls with
    | some f, some fs => some (f :: fs)
    | _, _ => none

theorem hexOf_noTerminator (f : Bytes) : lf ∉ hexOf f ∧ cr ∉ hexOf f := by
  constructor
  · intro h
    obtain ⟨n, hn, he⟩ := mem_hexOf h
    exact (hexDigit_range n hn).1 he.symm
  · intro h
    obtain ⟨n, hn, he⟩ := mem_hexOf h
    exact (hexDigit_range n hn).2.1 he.symm

theorem plainFields_lines (fields : List Bytes) :
    plainFields (lines (plainLines fields)) = some fields := by
  induction fields with
  | nil => rfl
  | cons f fields ih =>
    have hcons : plainLines (f :: fields) = hexOf f ++ lf :: plainLines fields := by
      simp [plainLines]
    obtain ⟨hlf, hcr⟩ := hexOf_noTerminator f
    rw [hcons, lines_append_lf hlf hcr, plainFields, hexBytes_hexOf, ih]

theorem plainLines_ascii {fields : List Bytes} {b : UInt8} (h : b ∈ plainLines fields) :
    b < 0x80 := by
  obtain ⟨f, -, hb⟩ := List.mem_flatMap.mp h
  rcases List.mem_append.mp hb with hb | hb
  · obtain ⟨n, hn, rfl⟩ := mem_hexOf hb
    exact (hexDigit_range n hn).2.2.2
  · rw [List.mem_singleton.mp hb]
    decide

/-! ### The fields of an entry -/

/-- An instant: a sign byte and its magnitude in unary. -/
def plainTime : OffsetDateTime → Bytes
  | ⟨.ofNat n, _⟩ => 0 :: List.replicate n 0
  | ⟨.negSucc n, _⟩ => 1 :: List.replicate n 0

/-- The number of a sign byte and a magnitude. -/
def signed (b : UInt8) (n : ℕ) : ℤ := if b = 0 then .ofNat n else .negSucc n

/-- Read an instant. -/
def readTime : Bytes → Option OffsetDateTime
  | [] => none
  | b :: bs =>
    if h : Representable (signed b bs.length) then some ⟨signed b bs.length, h⟩ else none

theorem readTime_plainTime (t : OffsetDateTime) : readTime (plainTime t) = some t := by
  obtain ⟨n | n, h⟩ := t <;> simpa [plainTime, readTime, signed] using h

/-- A character: its code point in three bytes. -/
def plainChar (c : Char) : Bytes :=
  [UInt8.ofNat (c.toNat / 65536), UInt8.ofNat (c.toNat / 256 % 256), UInt8.ofNat (c.toNat % 256)]

/-- Read characters. -/
def readChars : Bytes → List Char
  | a :: b :: c :: rest => Char.ofNat (65536 * a.toNat + 256 * b.toNat + c.toNat) :: readChars rest
  | _ => []

theorem readChars_flatMap (cs : List Char) : readChars (cs.flatMap plainChar) = cs := by
  induction cs with
  | nil => rfl
  | cons c cs ih =>
    have hlt : c.toNat < 0x110000 := by
      rcases c.valid with h | h
      · exact lt_trans h (by decide)
      · exact h.2
    have hval : 65536 * (c.toNat / 65536 % 256) + 256 * (c.toNat / 256 % 256 % 256) +
        c.toNat % 256 % 256 = c.toNat := by omega
    simp only [List.flatMap_cons, plainChar, List.cons_append, List.nil_append, readChars,
      UInt8.toNat_ofNat', Nat.reducePow, hval, Char.ofNat_toNat, ih]

/-- A note: nothing, or a byte and its characters. -/
def plainNote : Option Note → Bytes
  | none => []
  | some note => 1 :: note.text.toList.flatMap plainChar

/-- Read a note. -/
def readNote : Bytes → Option (Option Note)
  | [] => some none
  | _ :: bs =>
    match Note.parse (String.ofList (readChars bs)) with
    | .error _ => none
    | .ok note => some (some note)

theorem Note.parse_text (note : Note) : Note.parse note.text = .ok note := by
  obtain ⟨text, hlen, hctl⟩ := note
  simp only [Note.parse, dif_neg hlen]
  split
  · rename_i offset ch hc
    rw [firstControl_eq_none_iff.mpr hctl] at hc
    cases hc
  · rfl

theorem readNote_plainNote (note : Option Note) : readNote (plainNote note) = some note := by
  cases note with
  | none => rfl
  | some note =>
    simp only [plainNote, readNote, readChars_flatMap, String.ofList_toList, Note.parse_text]

/-! ### The file -/

/-- The four fields of an entry. -/
def plainEntry (e : ClientEntry) : List Bytes :=
  [e.name, List.replicate e.providers.length 0, plainTime e.enrolledAt, plainNote e.note]

/-- Read entries, four fields each. -/
def readEntries : List Bytes → Option (List ClientEntry)
  | [] => some []
  | name :: providers :: time :: note :: rest =>
    match readTime time, readNote note, readEntries rest with
    | some t, some n, some es =>
      some (⟨name, List.replicate providers.length .github, t, n⟩ :: es)
    | _, _, _ => none
  | _ => none

theorem replicate_github (ps : List ProviderKind) : List.replicate ps.length .github = ps :=
  (List.eq_replicate_iff.mpr ⟨rfl, fun p _ => by cases p; rfl⟩).symm

theorem readEntries_flatMap (es : List ClientEntry) :
    readEntries (es.flatMap plainEntry) = some es := by
  induction es with
  | nil => rfl
  | cons e es ih =>
    obtain ⟨name, providers, time, note⟩ := e
    simp only [List.flatMap_cons, plainEntry, List.cons_append, List.nil_append, readEntries,
      readTime_plainTime, readNote_plainNote, ih, List.length_replicate, replicate_github]

/-- The codec of the client list. -/
def plainJson : SerdeJson where
  toVecPretty file := .ok (plainLines (file.clients.flatMap plainEntry))
  fromStr bytes :=
    match (plainFields (lines bytes)).bind readEntries with
    | none => .error "not a client list"
    | some es => .ok ⟨es⟩

theorem plainJson_lawful : plainJson.Lawful where
  roundTrip file _ := by
    refine ⟨_, rfl, fromUtf8_of_ascii fun b hb => plainLines_ascii hb, ?_⟩
    simp only [plainJson, plainFields_lines, Option.bind_some, readEntries_flatMap]

/-- The pair of codecs. -/
def plainCodecs : Codecs := ⟨plainHex, plainJson⟩

/-- **The assumptions on the codecs can be met.** -/
theorem plainCodecs_lawful : plainCodecs.Lawful := ⟨plainHex_lawful, plainJson_lawful⟩

/-! ### A started daemon -/

/-- A daemon just started on files with the given entries. -/
def plainBoot (order : Order) : State where
  tables := ⟨order.psks.toFinmap, order.clients.toFinmap⟩
  disk :=
    ⟨some (PskStore.render plainHex order.psks),
      some (plainLines ((order.clients.map toClientEntry).flatMap plainEntry))⟩
  holder := none
  waiting := []

theorem plainBoot_started {order : Order} (hp : Finmap.Enumerates order.psks order.psks.toFinmap)
    (hc : Finmap.Enumerates order.clients order.clients.toFinmap) :
    Started plainCodecs (plainBoot order) := by
  obtain ⟨bytes, hb, hl⟩ :=
    loadClients_renderClientsDoc plainJson_lawful hc none
  refine ⟨acquire_eq_ok_iff.mpr ⟨?_, ?_⟩, rfl, rfl⟩
  · exact loadPskStore_render plainHex_lawful hp
  · have hall : (order.clients.filter fun e => some e.1 ≠ none) = order.clients := by simp
    rw [renderClientsDoc, hall] at hb
    cases hb
    exact hl

/-- The identity `alice`. -/
def alice : Identity :=
  ⟨ascii "alice", by decide, firstBadByte_eq_none_iff.mp (by decide)⟩

/-- The identity `bob`. -/
def bob : Identity :=
  ⟨ascii "bob", by decide, firstBadByte_eq_none_iff.mp (by decide)⟩

/-- The entries of clients enrolled with one key and at one time. -/
def plainOrder (ids : List Identity) : Order :=
  ⟨ids.map fun c => ⟨c, Psk.filled 1⟩, ids.map fun c => ⟨c, ⟨[.github], .unixEpoch, none⟩⟩⟩

/-- The events of an atomic write that goes through. -/
def writeThrough (order : Order) : List Event := List.replicate 6 (.ok order)

end Symbolon
