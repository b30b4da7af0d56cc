import Symbolon.PlainCodec

/-!
# What a PSK file may look like

`Symbolon.PskStore.parse_render` says that a file the daemon wrote reads back. An operator
may have written the file too, so this module says what the parser accepts, of all texts:
split at line feeds, with the carriage returns at the ends trimmed and the empty lines
dropped, **the text is a list of lines that are an identity, a colon and 64 hexadecimal
digits, and no identity is on two of them** (`Symbolon.PskStore.Spells`). Then the store has
for each identity the 32 bytes that its line denotes, and nothing else
(`Symbolon.PskStore.parse_exact`).

The parser splits a line at its first colon. That this is the colon after the identity, and
not one inside, is due to the identity charset.
-/

namespace Symbolon

open Text

/-- The digits of a key: 64 of them, of either case. -/
def IsHexKey (digits : Bytes) : Prop := digits.length = 64 ∧ ∀ d ∈ digits, (hexVal d).isSome

/-- Digits denote bytes, two for one. -/
theorem exists_hexBytes_iff {digits : Bytes} :
    ∀ {n : ℕ}, (∃ bs, hexBytes digits = some bs ∧ bs.length = n) ↔
      digits.length = 2 * n ∧ ∀ d ∈ digits, (hexVal d).isSome := by
  fun_induction hexBytes digits with
  | case1 =>
    intro n
    constructor
    · rintro ⟨bs, hbs, rfl⟩
      cases hbs
      simp
    · rintro ⟨hlen, -⟩
      exact ⟨[], rfl, by simp at hlen ⊢; omega⟩
  | case2 c =>
    intro n
    simp only [reduceCtorEq, false_and, exists_false, List.length_singleton, false_iff, not_and]
    intro hlen
    omega
  | case3 c d rest hi lo bs hrest hlo hhi ih =>
    intro n
    cases n with
    | zero => simp
    | succ n =>
      have ih := ih (n := n)
      rw [hrest] at ih
      simp only [Option.some.injEq, exists_eq_left', List.length_cons, List.mem_cons,
        forall_eq_or_imp, hhi, hlo, Option.isSome_some, true_and] at ih ⊢
      rw [Nat.add_right_cancel_iff, ih]
      exact and_congr_left fun _ => by omega
  | case4 c d rest hnone ih =>
    intro n
    simp only [reduceCtorEq, false_and, exists_false, false_iff, not_and, List.mem_cons,
      forall_eq_or_imp]
    intro hlen hc hd hall
    obtain ⟨hi, hhi⟩ := Option.isSome_iff_exists.mp hc
    obtain ⟨lo, hlo⟩ := Option.isSome_iff_exists.mp hd
    obtain ⟨bs, hbs, -⟩ := (ih (n := n - 1)).mpr ⟨by simp at hlen; omega, hall⟩
    exact hnone hi lo bs hhi hlo hbs

/-- **The `hex` crate accepts exactly 64 digits.** -/
theorem HexCrate.Lawful.exists_decode_iff {H : HexCrate} (hH : H.Lawful) {digits : Bytes} :
    (∃ psk, H.decode digits = .ok psk) ↔ IsHexKey digits := by
  rw [IsHexKey, show (64 : ℕ) = 2 * 32 from rfl, ← exists_hexBytes_iff]
  constructor
  · rintro ⟨psk, h⟩
    exact ⟨psk.bytes, (hH.decode_eq_ok_iff _ _).mp h, psk.len⟩
  · rintro ⟨bs, h, hlen⟩
    exact ⟨⟨bs, hlen⟩, (hH.decode_eq_ok_iff _ ⟨bs, hlen⟩).mpr h⟩

namespace PskStore

/-- The lines of a file that are not empty: split at line feeds, trailing carriage returns
removed. -/
def fileLines (text : Bytes) : List Bytes := trimmed (fun b => b == cr) (text.splitOn lf)

/-- The line with this identity and these digits. -/
def spell (e : Identity × Bytes) : Bytes := e.1.str ++ colon :: e.2

/-- **A well-formed file**, with the identities and the digits on its lines. -/
structure Spells (text : Bytes) (entries : List (Identity × Bytes)) : Prop where
  /-- These are its lines. -/
  lines_eq : fileLines text = entries.map spell
  /-- Each has the digits of a key. -/
  isHexKey : ∀ e ∈ entries, IsHexKey e.2
  /-- No identity is on two of them. -/
  nodup : (entries.map Prod.fst).Nodup

variable {H : HexCrate}

/-! ### The loop of the parser -/

/-- The line of an entry. -/
def IsLine (H : HexCrate) (line : Bytes) (e : Σ _ : Identity, Psk) : Prop :=
  ∃ digits, line = spell (e.1, digits) ∧ H.decode digits = .ok e.2

/-- What the parser does with a line that is not empty. -/
theorem isLine_iff {line : Bytes} {e : Σ _ : Identity, Psk} :
    IsLine H line e ↔ ∃ idStr hex, splitOnce colon line = some (idStr, hex) ∧
      Identity.parse idStr = .ok e.1 ∧ H.decode hex = .ok e.2 := by
  constructor
  · rintro ⟨digits, rfl, hd⟩
    exact ⟨_, digits, splitOnce_append (colon_notMem_str e.1) digits, Identity.parse_str _, hd⟩
  · rintro ⟨idStr, hex, hsplit, hid, hd⟩
    obtain ⟨rfl, -⟩ := splitOnce_eq_some_iff.mp hsplit
    exact ⟨hex, by rw [spell, Identity.parse_eq_ok_iff.mp hid], hd⟩

theorem parseLines_cons_of_isLine {raw : Bytes} {raws : List Bytes} {e : Σ _ : Identity, Psk}
    {lineNo : ℕ} {entries : PskStore} (hne : raw.rdropWhile (fun b => b == cr || b == lf) ≠ [])
    (h : IsLine H (raw.rdropWhile fun b => b == cr || b == lf) e) :
    parseLines H lineNo (raw :: raws) entries =
      if e.1 ∈ entries then .error (.duplicateIdentity lineNo e.1)
      else parseLines H (lineNo + 1) raws (entries.insert e.1 e.2) := by
  obtain ⟨idStr, hex, hsplit, hid, hd⟩ := isLine_iff.mp h
  rw [parseLines]
  simp only [if_neg hne, hsplit, hid, hd]

/-- A line that is not the line of an entry ends the loop. -/
theorem parseLines_cons_ne_ok {raw : Bytes} {raws : List Bytes} {lineNo : ℕ}
    {entries store : PskStore} (hne : raw.rdropWhile (fun b => b == cr || b == lf) ≠ [])
    (h : ∀ e, ¬IsLine H (raw.rdropWhile fun b => b == cr || b == lf) e) :
    parseLines H lineNo (raw :: raws) entries ≠ .ok store := by
  intro hok
  rw [parseLines, if_neg hne] at hok
  split at hok
  · cases hok
  · rename_i idStr hex hsplit
    split at hok
    · cases hok
    · rename_i id hid
      split at hok
      · cases hok
      · rename_i psk hd
        exact h ⟨id, psk⟩ (isLine_iff.mpr ⟨idStr, hex, hsplit, hid, hd⟩)

/-- A line is of one entry. -/
theorem IsLine.unique {line : Bytes} {e e' : Σ _ : Identity, Psk} (h : IsLine H line e)
    (h' : IsLine H line e') : e = e' := by
  obtain ⟨i, x, hs, hid, hd⟩ := isLine_iff.mp h
  obtain ⟨i', x', hs', hid', hd'⟩ := isLine_iff.mp h'
  rw [hs] at hs'
  cases hs'
  rw [hid] at hid'
  rw [hd] at hd'
  exact Sigma.ext (Except.ok.inj hid') (heq_of_eq (Except.ok.inj hd'))

/-- **The loop, as a whole**: the lines are those of entries, and the entries can be
collected. -/
theorem parseLines_eq_ok_iff {raws : List Bytes} :
    ∀ {lineNo : ℕ} {entries store : PskStore},
      parseLines H lineNo raws entries = .ok store ↔
        ∃ es, List.Forall₂ (IsLine H) (trimmed (fun b => b == cr || b == lf) raws) es ∧
          entries.collectInto es = some store := by
  induction raws with
  | nil =>
    intro lineNo entries store
    simp [parseLines, trimmed, Finmap.collectInto]
  | cons raw raws ih =>
    intro lineNo entries store
    rw [trimmed_cons]
    split
    · rename_i hempty
      rw [parseLines, if_pos hempty]
      exact ih
    · rename_i hne
      by_cases hline : ∃ e, IsLine H (raw.rdropWhile fun b => b == cr || b == lf) e
      · obtain ⟨e, he⟩ := hline
        rw [parseLines_cons_of_isLine hne he]
        constructor
        · intro hok
          split at hok
          · cases hok
          · rename_i hnew
            obtain ⟨es, hes, hc⟩ := ih.mp hok
            exact ⟨e :: es, .cons he hes, by rw [Finmap.collectInto, if_neg hnew, hc]⟩
        · rintro ⟨es, hes, hc⟩
          obtain ⟨e', es', he', hes', rfl⟩ := List.forall₂_cons_left_iff.mp hes
          obtain rfl := he'.unique he
          rw [Finmap.collectInto] at hc
          split at hc
          · cases hc
          · rename_i hnew
            rw [if_neg hnew]
            exact ih.mpr ⟨es', hes', hc⟩
      · rw [not_exists] at hline
        refine iff_of_false (parseLines_cons_ne_ok hne hline) ?_
        rintro ⟨es, hes, -⟩
        obtain ⟨e', -, he', -, -⟩ := List.forall₂_cons_left_iff.mp hes
        exact hline e' he'

theorem parse_eq_ok_iff {text : Bytes} {store : PskStore} :
    parse H text = .ok store ↔
      ∃ es, List.Forall₂ (IsLine H) (fileLines text) es ∧ es.NodupKeys ∧
        Finmap.Enumerates es store := by
  rw [parse, parseLines_eq_ok_iff, trimmed_lines]
  exact exists_congr fun es => and_congr_right fun _ => Finmap.collect_eq_some_iff

/-! ### Lines and entries -/

/-- The entry of a line, from its digits. -/
def Denotes (H : HexCrate) (en : Identity × Bytes) (e : Σ _ : Identity, Psk) : Prop :=
  en.1 = e.1 ∧ H.decode en.2 = .ok e.2

/-- The lines of entries are spelled with some digits. -/
theorem forall₂_isLine_iff {ls : List Bytes} {es : List (Σ _ : Identity, Psk)} :
    List.Forall₂ (IsLine H) ls es ↔
      ∃ ens, ls = ens.map spell ∧ List.Forall₂ (Denotes H) ens es := by
  constructor
  · intro h
    induction h with
    | nil => exact ⟨[], rfl, .nil⟩
    | cons hline _ ih =>
      obtain ⟨digits, rfl, hd⟩ := hline
      obtain ⟨ens, rfl, hens⟩ := ih
      exact ⟨_ :: ens, rfl, .cons ⟨rfl, hd⟩ hens⟩
  · rintro ⟨ens, rfl, hens⟩
    rw [List.forall₂_map_left_iff]
    refine hens.imp fun en e hde => ?_
    obtain ⟨hid, hd⟩ := hde
    exact ⟨en.2, by rw [← hid], hd⟩

theorem keys_of_forall₂_denotes {ens : List (Identity × Bytes)} {es : List (Σ _ : Identity, Psk)}
    (h : List.Forall₂ (Denotes H) ens es) : ens.map Prod.fst = es.keys := by
  induction h with
  | nil => rfl
  | cons hde _ ih => rw [List.map_cons, List.keys_cons, ih, hde.1]

theorem mem_of_forall₂_denotes {ens : List (Identity × Bytes)} {es : List (Σ _ : Identity, Psk)}
    (h : List.Forall₂ (Denotes H) ens es) {en : Identity × Bytes} (hen : en ∈ ens) :
    ∃ psk, ⟨en.1, psk⟩ ∈ es ∧ H.decode en.2 = .ok psk := by
  induction h with
  | nil => exact absurd hen List.not_mem_nil
  | @cons a b as bs hde _ ih =>
    rcases List.mem_cons.mp hen with rfl | hen
    · refine ⟨b.2, ?_, hde.2⟩
      rw [hde.1]
      exact List.mem_cons_self
    · obtain ⟨psk, hmem, hd⟩ := ih hen
      exact ⟨psk, List.mem_cons_of_mem _ hmem, hd⟩

/-- Digits of keys can be decoded. -/
theorem exists_forall₂_denotes (hH : H.Lawful) {ens : List (Identity × Bytes)}
    (h : ∀ en ∈ ens, IsHexKey en.2) : ∃ es, List.Forall₂ (Denotes H) ens es := by
  induction ens with
  | nil => exact ⟨[], .nil⟩
  | cons en ens ih =>
    obtain ⟨psk, hd⟩ := hH.exists_decode_iff.mpr (h en List.mem_cons_self)
    obtain ⟨es, hes⟩ := ih fun en' hen' => h en' (List.mem_cons_of_mem _ hen')
    exact ⟨⟨en.1, psk⟩ :: es, .cons ⟨rfl, hd⟩ hes⟩

/-- **A text parses iff it is a well-formed file.** -/
theorem exists_parse_iff (hH : H.Lawful) {text : Bytes} :
    (∃ store, parse H text = .ok store) ↔ ∃ entries, Spells text entries := by
  constructor
  · rintro ⟨store, h⟩
    obtain ⟨es, hls, hnodup, -⟩ := parse_eq_ok_iff.mp h
    obtain ⟨ens, hlines, hens⟩ := forall₂_isLine_iff.mp hls
    refine ⟨ens, hlines, fun en hen => ?_, by rwa [keys_of_forall₂_denotes hens]⟩
    obtain ⟨psk, -, hd⟩ := mem_of_forall₂_denotes hens hen
    exact hH.exists_decode_iff.mp ⟨psk, hd⟩
  · rintro ⟨ens, hlines, hkeys, hnodup⟩
    obtain ⟨es, hes⟩ := exists_forall₂_denotes hH hkeys
    rw [keys_of_forall₂_denotes hes] at hnodup
    exact ⟨es.toFinmap, parse_eq_ok_iff.mpr
      ⟨es, forall₂_isLine_iff.mpr ⟨ens, hlines, hes⟩, hnodup, Finmap.enumerates_toFinmap hnodup⟩⟩

theorem spell_injective : Function.Injective spell := by
  rintro ⟨id, digits⟩ ⟨id', digits'⟩ h
  have hsplit := splitOnce_append (colon_notMem_str id) digits
  have hsplit' := splitOnce_append (colon_notMem_str id') digits'
  change id.str ++ colon :: digits = id'.str ++ colon :: digits' at h
  rw [h, hsplit'] at hsplit
  obtain ⟨hid, hd⟩ := Prod.mk.inj (Option.some.inj hsplit)
  exact Prod.ext (Identity.str_injective hid.symm) hd.symm

/-- **What the store has after a file was parsed.** -/
theorem lookup_of_parse (hH : H.Lawful) {text : Bytes} {store : PskStore}
    {entries : List (Identity × Bytes)} (hs : Spells text entries)
    (h : parse H text = .ok store) :
    (∀ id digits, (id, digits) ∈ entries →
        (store.lookup id).map Psk.bytes = hexBytes digits) ∧
      ∀ id, id ∉ entries.map Prod.fst → store.lookup id = none := by
  obtain ⟨es, hls, hnodup, henum⟩ := parse_eq_ok_iff.mp h
  obtain ⟨ens, hlines, hens⟩ := forall₂_isLine_iff.mp hls
  obtain rfl : entries = ens :=
    List.map_injective_iff.mpr spell_injective (hs.lines_eq.symm.trans hlines)
  constructor
  · intro id digits hmem
    obtain ⟨psk, hpsk, hd⟩ := mem_of_forall₂_denotes hens hmem
    rw [henum.mem_iff.mp hpsk, Option.map_some, (hH.decode_eq_ok_iff _ _).mp hd]
  · intro id hid
    rw [keys_of_forall₂_denotes hens] at hid
    rw [Option.eq_none_iff_forall_ne_some]
    intro psk hpsk
    exact hid (List.mem_keys_of_mem (henum.mem_iff.mpr hpsk))

/-- **The codec of the PSK file.** A store rendered in any order reads back; a text parses
iff it is a well-formed file; and then a lookup gives the 32 bytes on the line of the
identity, or nothing. -/
theorem parse_exact (hH : H.Lawful) :
    (∀ order store, Finmap.Enumerates order store → parse H (render H order) = .ok store) ∧
      (∀ text, (∃ store, parse H text = .ok store) ↔ ∃ entries, Spells text entries) ∧
      ∀ text store entries, parse H text = .ok store → Spells text entries →
        (∀ id digits, (id, digits) ∈ entries →
          (store.lookup id).map Psk.bytes = hexBytes digits) ∧
        ∀ id, id ∉ entries.map Prod.fst → store.lookup id = none :=
  ⟨fun _ _ => parse_render hH, fun _ => exists_parse_iff hH,
    fun _ _ _ h hs => lookup_of_parse hH hs h⟩

/-- A file from another system: an empty line in front, a line that ends with `CR LF`, digits
of upper case. -/
theorem parse_exact_crlf :
    let text := lf :: alice.str ++ colon :: List.replicate 64 0x41 ++ [cr, lf]
    ∃ store, parse plainHex text = .ok store ∧
      (store.lookup alice).map Psk.bytes = some (List.replicate 32 0xAA) ∧
      store.lookup bob = none := by
  intro text
  have hs : Spells text [(alice, List.replicate 64 0x41)] := by
    refine ⟨by decide +kernel, fun e he => ?_, by simp⟩
    rw [List.mem_singleton.mp he]
    refine ⟨List.length_replicate, fun d hd => ?_⟩
    rw [List.eq_of_mem_replicate hd]
    rfl
  obtain ⟨-, hok, hlookup⟩ := parse_exact plainHex_lawful
  obtain ⟨store, hstore⟩ := (hok text).mpr ⟨_, hs⟩
  obtain ⟨hsome, hnone⟩ := hlookup text store _ hstore hs
  refine ⟨store, hstore, ?_, hnone bob (by decide)⟩
  rw [hsome alice _ List.mem_cons_self]
  rfl

end PskStore

end Symbolon
