import Mathlib.Data.List.Infix
import Symbolon.Lib.Text

/-!
# Trimming

Taking words off the two ends of a string for as long as one of a given list of words stands
there. The characters of white space are such words, some of one byte and some of several
(`Text.whiteSpace`), so this is how a string of UTF-8 is trimmed without decoding it; a byte
string is trimmed of the words of one byte (`Text.asciiWhiteSpace`).

What is taken off is made of words (`Text.Spelled`), and nothing is taken off a string that
begins and ends with a byte no word begins or ends with (`Text.trim_append`).
-/

namespace Text

/-- Take one of the words off the front. -/
def stripOne (ws : List Bytes) (bs : Bytes) : Option Bytes := ws.findSome? fun w => w.isPrefixOf? bs

/-- Take words off the front, so many times at most. -/
def stripTimes (ws : List Bytes) : ℕ → Bytes → Bytes
  | 0, bs => bs
  | n + 1, bs =>
    match stripOne ws bs with
    | none => bs
    | some rest => stripTimes ws n rest

/-- **Take all words off the front.** -/
def trimStart (ws : List Bytes) (bs : Bytes) : Bytes := stripTimes ws bs.length bs

/-- **Take all words off the end.** -/
def trimEnd (ws : List Bytes) (bs : Bytes) : Bytes :=
  (trimStart (ws.map List.reverse) bs.reverse).reverse

/-- **Take all words off both ends.** -/
def trim (ws : List Bytes) (bs : Bytes) : Bytes := trimEnd ws (trimStart ws bs)

/-- The white space that is ASCII for a byte string: no vertical tab. -/
def asciiWhiteSpace : List Bytes := [[0x09], [0x0A], [0x0C], [0x0D], [0x20]]

/-- **The characters with the property `White_Space`**, in UTF-8. -/
def whiteSpace : List Bytes :=
  [[0x09], [0x0A], [0x0B], [0x0C], [0x0D], [0x20], [0xC2, 0x85], [0xC2, 0xA0], [0xE1, 0x9A, 0x80],
    [0xE2, 0x80, 0x80], [0xE2, 0x80, 0x81], [0xE2, 0x80, 0x82], [0xE2, 0x80, 0x83],
    [0xE2, 0x80, 0x84], [0xE2, 0x80, 0x85], [0xE2, 0x80, 0x86], [0xE2, 0x80, 0x87],
    [0xE2, 0x80, 0x88], [0xE2, 0x80, 0x89], [0xE2, 0x80, 0x8A], [0xE2, 0x80, 0xA8],
    [0xE2, 0x80, 0xA9], [0xE2, 0x80, 0xAF], [0xE2, 0x81, 0x9F], [0xE3, 0x80, 0x80]]

/-- The string is made of words. -/
def Spelled (ws : List Bytes) (bs : Bytes) : Prop := ∃ parts : List Bytes, (∀ w ∈ parts, w ∈ ws) ∧
  bs = parts.flatten

section Trim

variable {ws : List Bytes} {bs core front back : Bytes}

theorem Spelled.nil : Spelled ws [] := ⟨[], by simp, rfl⟩

theorem Spelled.cons {w : Bytes} (hw : w ∈ ws) (h : Spelled ws bs) : Spelled ws (w ++ bs) := by
  obtain ⟨parts, hparts, rfl⟩ := h
  exact ⟨w :: parts, by simpa using ⟨hw, hparts⟩, rfl⟩

theorem Spelled.reverse (h : Spelled (ws.map List.reverse) bs) : Spelled ws bs.reverse := by
  obtain ⟨parts, hparts, rfl⟩ := h
  refine ⟨(parts.map List.reverse).reverse, fun w hw => ?_, List.reverse_flatten⟩
  obtain ⟨v, hv, rfl⟩ := List.mem_map.mp (List.mem_reverse.mp hw)
  obtain ⟨u, hu, rfl⟩ := List.mem_map.mp (hparts v hv)
  rwa [List.reverse_reverse]

theorem stripOne_eq_some {rest : Bytes} (h : stripOne ws bs = some rest) :
    ∃ w ∈ ws, bs = w ++ rest := by
  obtain ⟨w, hw, hp⟩ := List.exists_of_findSome?_eq_some h
  exact ⟨w, hw, (List.isPrefixOf?_eq_some_iff_append_eq.mp hp).symm⟩

theorem stripOne_eq_none_iff : stripOne ws bs = none ↔ ∀ w ∈ ws, ¬w <+: bs := by
  rw [stripOne, List.findSome?_eq_none_iff]
  refine forall₂_congr fun w _ => ?_
  rw [← Option.not_isSome_iff_eq_none, List.isSome_isPrefixOf?_eq_isPrefixOf,
    List.isPrefixOf_iff_prefix]

/-- What is taken off the front is made of words. -/
theorem exists_stripTimes (ws : List Bytes) (n : ℕ) (bs : Bytes) :
    ∃ front, Spelled ws front ∧ bs = front ++ stripTimes ws n bs := by
  induction n generalizing bs with
  | zero => exact ⟨[], .nil, rfl⟩
  | succ n ih =>
    rcases h : stripOne ws bs with - | rest
    · exact ⟨[], .nil, by simp [stripTimes, h]⟩
    · obtain ⟨w, hw, hbs⟩ := stripOne_eq_some h
      obtain ⟨front, hfront, hrest⟩ := ih rest
      refine ⟨w ++ front, hfront.cons hw, ?_⟩
      rw [stripTimes, h, List.append_assoc, ← hrest, hbs]

/-- No word is the beginning of another, and none is empty. -/
def PrefixFree (ws : List Bytes) : Prop :=
  (∀ w ∈ ws, w ≠ []) ∧ ∀ v ∈ ws, ∀ w ∈ ws, v <+: w → v = w

instance (ws : List Bytes) : Decidable (PrefixFree ws) :=
  inferInstanceAs (Decidable (_ ∧ _))

/-- A word at the front is the one that is taken off. -/
theorem PrefixFree.stripOne_append (hws : PrefixFree ws) {w : Bytes} (hw : w ∈ ws) (bs : Bytes) :
    stripOne ws (w ++ bs) = some bs := by
  rcases h : stripOne ws (w ++ bs) with - | rest
  · exact absurd (List.prefix_append w bs) (stripOne_eq_none_iff.mp h w hw)
  · obtain ⟨v, hv, heq⟩ := stripOne_eq_some h
    have hvw : v = w := by
      rcases List.prefix_or_prefix_of_prefix (List.prefix_append v rest)
        (heq ▸ List.prefix_append w bs) with hpre | hpre
      · exact hws.2 v hv w hw hpre
      · exact (hws.2 w hw v hv hpre).symm
    rw [hvw] at heq
    rw [List.append_cancel_left heq]

/-- **Words are taken off until none stands at the front.** -/
theorem PrefixFree.trimStart_append (hws : PrefixFree ws) (hfront : Spelled ws front)
    (hcore : ∀ w ∈ ws, ¬w <+: core) : trimStart ws (front ++ core) = core := by
  obtain ⟨parts, hparts, rfl⟩ := hfront
  rw [trimStart]
  generalize hn : (parts.flatten ++ core).length = n
  replace hn := Nat.le_of_eq hn
  -- every word has a byte at least, so there are turns enough
  induction parts generalizing n with
  | nil =>
    cases n with
    | zero => rfl
    | succ n => simp [stripTimes, stripOne_eq_none_iff.mpr hcore]
  | cons w parts ih =>
    have hw : w ∈ ws := hparts w List.mem_cons_self
    have hpos : 0 < w.length := List.length_pos_iff.mpr (hws.1 w hw)
    simp only [List.flatten_cons, List.append_assoc, List.length_append] at hn ih ⊢
    obtain ⟨m, rfl⟩ : ∃ m, n = m + 1 := ⟨n - 1, by omega⟩
    rw [stripTimes, hws.stripOne_append hw]
    exact ih (fun v hv => hparts v (List.mem_cons_of_mem _ hv)) m (by omega)

/-- **What is trimmed is made of words.** -/
theorem exists_trim (ws : List Bytes) (bs : Bytes) :
    ∃ front back, Spelled ws front ∧ Spelled ws back ∧ bs = front ++ trim ws bs ++ back := by
  obtain ⟨front, hfront, hbs⟩ := exists_stripTimes ws bs.length bs
  obtain ⟨back, hback, hmid⟩ := exists_stripTimes (ws.map List.reverse)
    (trimStart ws bs).reverse.length (trimStart ws bs).reverse
  refine ⟨front, back.reverse, hfront, hback.reverse, ?_⟩
  have hend : trimStart ws bs = trim ws bs ++ back.reverse := by
    have := congrArg List.reverse hmid
    rwa [List.reverse_reverse, List.reverse_append] at this
  rw [List.append_assoc, ← hend]
  exact hbs

/-- **Trimming finds what stands between**, if that begins and ends with a byte that no word
begins or ends with. -/
theorem trim_append (hws : PrefixFree ws) (hrev : PrefixFree (ws.map List.reverse))
    (hfront : Spelled ws front) (hback : Spelled ws back) (hne : core ≠ [])
    (hhead : ∀ w ∈ ws, w.head? ≠ core.head?) (hlast : ∀ w ∈ ws, w.getLast? ≠ core.getLast?) :
    trim ws (front ++ core ++ back) = core := by
  have hstart : trimStart ws (front ++ core ++ back) = core ++ back := by
    rw [List.append_assoc]
    refine hws.trimStart_append hfront fun w hw hpre => hhead w hw ?_
    obtain ⟨rest, hrest⟩ := hpre
    have hh := congrArg List.head? hrest
    rwa [List.head?_append_of_ne_nil _ (hws.1 w hw), List.head?_append_of_ne_nil _ hne] at hh
  have hback' : Spelled (ws.map List.reverse) back.reverse := by
    refine Spelled.reverse ?_
    simpa [List.map_map, Function.comp_def] using hback
  rw [trim, hstart, trimEnd, List.reverse_append, hrev.trimStart_append hback',
    List.reverse_reverse]
  intro w hw hpre
  obtain ⟨v, hv, rfl⟩ := List.mem_map.mp hw
  refine hlast v hv ?_
  obtain ⟨rest, hrest⟩ := hpre
  have hh := congrArg List.head? hrest
  have hvne : v.reverse ≠ [] := fun h => hws.1 v hv (List.reverse_eq_nil_iff.mp h)
  rwa [List.head?_append_of_ne_nil _ hvne, List.head?_reverse, List.head?_reverse] at hh

end Trim

theorem prefixFree_whiteSpace : PrefixFree whiteSpace := by decide

theorem prefixFree_reverse_whiteSpace : PrefixFree (whiteSpace.map List.reverse) := by decide

theorem prefixFree_asciiWhiteSpace : PrefixFree asciiWhiteSpace := by decide

theorem prefixFree_reverse_asciiWhiteSpace : PrefixFree (asciiWhiteSpace.map List.reverse) := by
  decide

/-- White space is well-formed UTF-8, and stays so before other text. -/
theorem Spelled.utf8ValidUpTo_append {bs cs : Bytes} (h : Spelled whiteSpace bs)
    (hcs : utf8ValidUpTo cs = cs.length) : utf8ValidUpTo (bs ++ cs) = (bs ++ cs).length := by
  obtain ⟨parts, hparts, rfl⟩ := h
  induction parts with
  | nil => exact hcs
  | cons w parts ih =>
    have hall : ∀ w ∈ whiteSpace, utf8ValidUpTo w = w.length := by decide
    have hw := hall w (hparts w List.mem_cons_self)
    rw [List.flatten_cons, List.append_assoc, Text.utf8ValidUpTo_append hw, List.length_append,
      ih fun v hv => hparts v (List.mem_cons_of_mem _ hv)]

end Text
