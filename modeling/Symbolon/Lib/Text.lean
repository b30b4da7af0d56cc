import Mathlib.Data.List.DropRight

/-!
# Byte strings and the text operations on them

Text is handled as what it is on a wire and on a disk, a list of bytes. This file
has the handful of standard-library operations that parsers are written with, and
the facts that make a printed line come back as it was printed.

* `Text.utf8ValidUpTo` – the length of the longest well-formed UTF-8 prefix, by the
  table of well-formed byte sequences; `Text.fromUtf8` accepts a string exactly when
  it is all of it.
* `Text.Str` – a string that is well-formed: two of them make one, and cut at a character
  boundary it stays one (`Text.Str.truncate`).
* `Text.lines` – the lines of a text, each ended by `LF` or `CR LF`; the last one may
  be unterminated.
* `Text.splitOnce` – what stands before and after the first separator.
-/

namespace Text

/-- A string of bytes. -/
abbrev Bytes := List UInt8

/-- The bytes of an ASCII literal. -/
def ascii (s : String) : Bytes := s.toList.map fun c => UInt8.ofNat c.toNat

/-- The digits of a number, as the characters they were. -/
theorem map_ascii_toString (n : ℕ) :
    (ascii (toString n)).map (fun b => Char.ofNat b.toNat) = Nat.toDigits 10 n := by
  have hlist : (toString n).toList = Nat.toDigits 10 n := Nat.toList_repr
  rw [ascii, hlist, List.map_map]
  refine (List.map_congr_left fun c hc => ?_).trans (List.map_id _)
  have hdigit := Nat.isDigit_of_mem_toDigits (by decide) (by decide) hc
  simp only [Char.isDigit, Bool.and_eq_true, decide_eq_true_eq] at hdigit
  have hle : c.toNat ≤ 57 := hdigit.2
  simp [Nat.mod_eq_of_lt (show c.toNat < 256 by omega)]

/-- **A number written in decimal can be read back.** -/
theorem ascii_toString_inj {m n : ℕ} (h : ascii (toString m) = ascii (toString n)) : m = n := by
  have hdigits := map_ascii_toString m
  rw [h, map_ascii_toString] at hdigits
  rw [← Nat.ofDigitChars_ten_toDigits (n := m), ← hdigits, Nat.ofDigitChars_ten_toDigits]

/-- The decimal form of a number is made of digits. -/
theorem mem_ascii_toString {n : ℕ} {b : UInt8} (h : b ∈ ascii (toString n)) :
    0x30 ≤ b ∧ b ≤ 0x39 := by
  have hlist : (toString n).toList = Nat.toDigits 10 n := Nat.toList_repr
  rw [ascii, hlist] at h
  obtain ⟨c, hc, rfl⟩ := List.mem_map.mp h
  have hdigit := Nat.isDigit_of_mem_toDigits (by decide) (by decide) hc
  simp only [Char.isDigit, Bool.and_eq_true, decide_eq_true_eq] at hdigit
  have hge : 48 ≤ c.toNat := hdigit.1
  have hle : c.toNat ≤ 57 := hdigit.2
  simp only [UInt8.le_iff_toNat_le, UInt8.toNat_ofNat', UInt8.reduceToNat]
  omega

/-- Line feed. -/
abbrev lf : UInt8 := 0x0A

/-- Carriage return. -/
abbrev cr : UInt8 := 0x0D

/-! ### UTF-8 -/

/-- A continuation byte. -/
def isCont (b : UInt8) : Bool := 0x80 ≤ b && b ≤ 0xBF

/-- A lead byte of a sequence of two. -/
def isLead2 (b : UInt8) : Bool := 0xC2 ≤ b && b ≤ 0xDF

/-- The first two bytes of a sequence of three: no overlong form, no surrogate. -/
def isHead3 (b₀ b₁ : UInt8) : Bool :=
  (b₀ == 0xE0 && 0xA0 ≤ b₁ && b₁ ≤ 0xBF) || (0xE1 ≤ b₀ && b₀ ≤ 0xEC && isCont b₁) ||
    (b₀ == 0xED && 0x80 ≤ b₁ && b₁ ≤ 0x9F) || (0xEE ≤ b₀ && b₀ ≤ 0xEF && isCont b₁)

/-- The first two bytes of a sequence of four: no overlong form, nothing above
U+10FFFF. -/
def isHead4 (b₀ b₁ : UInt8) : Bool :=
  (b₀ == 0xF0 && 0x90 ≤ b₁ && b₁ ≤ 0xBF) || (0xF1 ≤ b₀ && b₀ ≤ 0xF3 && isCont b₁) ||
    (b₀ == 0xF4 && 0x80 ≤ b₁ && b₁ ≤ 0x8F)

/-- **The offset of the first byte that breaks UTF-8**, or the length of the string
when nothing does. A sequence cut short by the end breaks at its lead byte. -/
def utf8ValidUpTo : Bytes → ℕ
  | [] => 0
  | b₀ :: bs =>
    if b₀ < 0x80 then utf8ValidUpTo bs + 1
    else match bs with
      | [] => 0
      | b₁ :: bs₁ =>
        if isLead2 b₀ && isCont b₁ then utf8ValidUpTo bs₁ + 2
        else match bs₁ with
          | [] => 0
          | b₂ :: bs₂ =>
            if isHead3 b₀ b₁ && isCont b₂ then utf8ValidUpTo bs₂ + 3
            else match bs₂ with
              | [] => 0
              | b₃ :: bs₃ =>
                if isHead4 b₀ b₁ && isCont b₂ && isCont b₃ then utf8ValidUpTo bs₃ + 4 else 0

/-- UTF-8 validation: the error carries the offset of the first bad byte. -/
def fromUtf8 (bs : Bytes) : Except ℕ Bytes :=
  if utf8ValidUpTo bs = bs.length then .ok bs else .error (utf8ValidUpTo bs)

/-- ASCII is well-formed throughout. -/
theorem utf8ValidUpTo_of_ascii {bs : Bytes} (h : ∀ b ∈ bs, b < 0x80) :
    utf8ValidUpTo bs = bs.length := by
  induction bs with
  | nil => rfl
  | cons b bs ih =>
    have hb : b < 0x80 := h b List.mem_cons_self
    rw [utf8ValidUpTo.eq_def]
    simp only [hb, if_true, List.length_cons]
    rw [ih fun b' hb' => h b' (List.mem_cons_of_mem _ hb')]

theorem fromUtf8_of_ascii {bs : Bytes} (h : ∀ b ∈ bs, b < 0x80) : fromUtf8 bs = .ok bs := by
  rw [fromUtf8, if_pos (utf8ValidUpTo_of_ascii h)]

theorem fromUtf8_eq_ok {bs s : Bytes} (h : fromUtf8 bs = .ok s) : s = bs := by
  unfold fromUtf8 at h
  split at h <;> cases h
  rfl

theorem utf8ValidUpTo_le (bs : Bytes) : utf8ValidUpTo bs ≤ bs.length := by
  fun_induction utf8ValidUpTo bs <;> simp only [List.length_cons, List.length_nil] <;> omega

/-- **The byte that breaks UTF-8 is not ASCII**: an ASCII byte is a character by itself. -/
theorem not_ascii_of_utf8ValidUpTo {bs : Bytes} {b : UInt8}
    (h : bs[utf8ValidUpTo bs]? = some b) : ¬b < 0x80 := by
  fun_induction utf8ValidUpTo bs with
  | case1 => cases h
  -- A character was passed: the byte is among those after it.
  | case2 _ _ _ ih | case4 _ _ _ _ _ ih | case6 _ _ _ _ _ _ _ ih | case8 _ _ _ _ _ _ _ _ _ ih =>
    exact ih h
  -- Validation stops at this byte.
  | case3 _ hlead | case5 _ hlead | case7 _ hlead | case9 _ hlead =>
    cases h
    exact hlead

/-- What breaks UTF-8 is a byte of the string. -/
theorem fromUtf8_error_lt {bs : Bytes} {offset : ℕ} (h : fromUtf8 bs = .error offset) :
    offset < bs.length := by
  unfold fromUtf8 at h
  split at h
  · cases h
  · rename_i hne
    cases h
    exact lt_of_le_of_ne (utf8ValidUpTo_le bs) hne

/-! #### One character at a time -/

/-- The bytes of one character: validation passes over them, whatever follows, and each but
the first continues it. -/
structure IsCharacter (w : Bytes) : Prop where
  utf8ValidUpTo_append : ∀ bs, utf8ValidUpTo (w ++ bs) = w.length + utf8ValidUpTo bs
  isCont_of_mem_tail : ∀ b ∈ w.tail, isCont b = true

section IsCharacter

variable {b₀ b₁ b₂ b₃ : UInt8}

theorem isCharacter_one (h₁ : b₀ < 0x80) : IsCharacter [b₀] where
  utf8ValidUpTo_append bs := by
    rw [List.singleton_append, utf8ValidUpTo.eq_def]
    simp only [h₁, if_true, List.length_singleton]
    omega
  isCont_of_mem_tail := by simp

theorem isCharacter_two (h₁ : ¬b₀ < 0x80) (h₂ : (isLead2 b₀ && isCont b₁) = true) :
    IsCharacter [b₀, b₁] where
  utf8ValidUpTo_append bs := by
    rw [List.cons_append, List.singleton_append, utf8ValidUpTo.eq_def]
    simp only [h₁, h₂, if_true, if_false, List.length_cons, List.length_nil]
    omega
  isCont_of_mem_tail := by simpa using (Bool.and_eq_true_iff.mp h₂).2

/-- The second byte of a sequence of three or four continues it. -/
theorem isCont_of_isHead3 (h : isHead3 b₀ b₁ = true) : isCont b₁ = true := by
  simp only [isHead3, isCont, Bool.or_eq_true, Bool.and_eq_true, decide_eq_true_eq] at h ⊢
  grind

theorem isCont_of_isHead4 (h : isHead4 b₀ b₁ = true) : isCont b₁ = true := by
  simp only [isHead4, isCont, Bool.or_eq_true, Bool.and_eq_true, decide_eq_true_eq] at h ⊢
  grind

theorem isCharacter_three (h₁ : ¬b₀ < 0x80) (h₂ : ¬(isLead2 b₀ && isCont b₁) = true)
    (h₃ : (isHead3 b₀ b₁ && isCont b₂) = true) : IsCharacter [b₀, b₁, b₂] where
  utf8ValidUpTo_append bs := by
    simp only [List.cons_append, List.nil_append]
    rw [utf8ValidUpTo.eq_def]
    simp only [h₁, if_false, List.length_cons, List.length_nil]
    rw [if_neg h₂, if_pos h₃]
    omega
  isCont_of_mem_tail := by
    have hcont := Bool.and_eq_true_iff.mp h₃
    simpa using ⟨isCont_of_isHead3 hcont.1, hcont.2⟩

theorem isCharacter_four (h₁ : ¬b₀ < 0x80) (h₂ : ¬(isLead2 b₀ && isCont b₁) = true)
    (h₃ : ¬(isHead3 b₀ b₁ && isCont b₂) = true)
    (h₄ : (isHead4 b₀ b₁ && isCont b₂ && isCont b₃) = true) :
    IsCharacter [b₀, b₁, b₂, b₃] where
  utf8ValidUpTo_append bs := by
    simp only [List.cons_append, List.nil_append]
    rw [utf8ValidUpTo.eq_def]
    simp only [h₁, if_false, List.length_cons, List.length_nil]
    rw [if_neg h₂, if_neg h₃, if_pos h₄]
    omega
  isCont_of_mem_tail := by
    have hcont := Bool.and_eq_true_iff.mp h₄
    have hcont' := Bool.and_eq_true_iff.mp hcont.1
    simpa using ⟨isCont_of_isHead4 hcont'.1, hcont'.2, hcont.2⟩

end IsCharacter

/-- **Induction over a well-formed string**, one character at a time. -/
@[elab_as_elim]
theorem utf8_induction {P : Bytes → Prop} (nil : P [])
    (append : ∀ w bs, IsCharacter w → P bs → P (w ++ bs)) {bs : Bytes}
    (h : utf8ValidUpTo bs = bs.length) : P bs := by
  fun_induction utf8ValidUpTo bs with
  | case1 => exact nil
  | case2 b₀ bs h₁ ih =>
    exact append [b₀] bs (isCharacter_one h₁) (ih (Nat.succ.inj h))
  | case4 b₀ h₁ b₁ bs h₂ ih =>
    simp only [List.length_cons] at h
    exact append [b₀, b₁] bs (isCharacter_two h₁ h₂) (ih (by omega))
  | case6 b₀ h₁ b₁ h₂ b₂ bs h₃ ih =>
    simp only [List.length_cons] at h
    exact append [b₀, b₁, b₂] bs (isCharacter_three h₁ h₂ h₃) (ih (by omega))
  | case8 b₀ h₁ b₁ h₂ b₂ h₃ b₃ bs h₄ ih =>
    simp only [List.length_cons] at h
    exact append [b₀, b₁, b₂, b₃] bs (isCharacter_four h₁ h₂ h₃ h₄) (ih (by omega))
  -- a sequence that is cut short or starts with no lead byte is not well-formed
  | case3 | case5 | case7 | case9 => simp at h

/-- Validation goes on after a well-formed string as it starts. -/
theorem utf8ValidUpTo_append {bs : Bytes} (h : utf8ValidUpTo bs = bs.length) (cs : Bytes) :
    utf8ValidUpTo (bs ++ cs) = bs.length + utf8ValidUpTo cs := by
  refine utf8_induction ?_ (fun w bs hw ih => ?_) h
  · simp
  · rw [List.append_assoc, hw.utf8ValidUpTo_append, ih, List.length_append, Nat.add_assoc]

/-! #### Cutting a string -/

/-- Whether a character starts at an offset, or the string ends there. -/
def isCharBoundary (bs : Bytes) (i : ℕ) : Bool :=
  i == 0 || match bs[i]? with
    | none => i == bs.length
    | some b => !isCont b

/-- A boundary lies before a character or behind it, never inside. -/
theorem IsCharacter.isCharBoundary_append {w bs : Bytes} (hw : IsCharacter w) {i : ℕ}
    (hi : isCharBoundary (w ++ bs) i = true) :
    i = 0 ∨ ∃ j, i = w.length + j ∧ isCharBoundary bs j = true := by
  rcases Nat.eq_zero_or_pos i with h₀ | hpos
  · exact .inl h₀
  rcases Nat.lt_or_ge i w.length with hlt | hge
  · have hget : (w ++ bs)[i]? = some w[i] := by
      rw [List.getElem?_append_left hlt, List.getElem?_eq_getElem hlt]
    have hmem : w[i] ∈ w.tail := by
      rw [← List.drop_one, List.mem_drop_iff_getElem]
      exact ⟨i - 1, by omega, by congr 1; omega⟩
    simp [isCharBoundary, hget, hw.isCont_of_mem_tail _ hmem, Nat.ne_of_gt hpos] at hi
  · obtain ⟨j, rfl⟩ := Nat.exists_eq_add_of_le hge
    refine .inr ⟨j, rfl, ?_⟩
    simp only [isCharBoundary, List.getElem?_append_right (Nat.le_add_right _ j),
      Nat.add_sub_cancel_left, List.length_append, Bool.or_eq_true, beq_iff_eq,
      Nat.ne_of_gt hpos, false_or] at hi ⊢
    split at hi <;> simp_all

/-- **A well-formed string can be cut at a character boundary.** -/
theorem utf8ValidUpTo_take {bs : Bytes} (h : utf8ValidUpTo bs = bs.length) {i : ℕ}
    (hi : isCharBoundary bs i = true) : utf8ValidUpTo (bs.take i) = (bs.take i).length := by
  -- the offset moves with the induction: a cut behind a character is a cut of the rest
  have hall : ∀ i, isCharBoundary bs i = true →
      utf8ValidUpTo (bs.take i) = (bs.take i).length := by
    refine utf8_induction ?_ (fun w bs hw ih => ?_) h
    · intro i _
      simp [utf8ValidUpTo]
    · intro i hi
      rcases hw.isCharBoundary_append hi with rfl | ⟨j, rfl, hj⟩
      · rfl
      · rw [List.take_length_add_append, hw.utf8ValidUpTo_append, ih j hj, List.length_append]
  exact hall i hi

/-- The last character boundary at or before an offset, sought downwards. -/
def floorCharBoundary (bs : Bytes) : ℕ → ℕ
  | 0 => 0
  | i + 1 => if isCharBoundary bs (i + 1) then i + 1 else floorCharBoundary bs i

theorem floorCharBoundary_le (bs : Bytes) (i : ℕ) : floorCharBoundary bs i ≤ i := by
  fun_induction floorCharBoundary bs i <;> omega

theorem isCharBoundary_floorCharBoundary (bs : Bytes) (i : ℕ) :
    isCharBoundary bs (floorCharBoundary bs i) = true := by
  fun_induction floorCharBoundary bs i with
  | case1 => rfl
  | case2 i h => exact h
  | case3 i h ih => exact ih

/-! #### Strings that are text -/

/-- A string of well-formed UTF-8. -/
@[ext]
structure Str where
  /-- Its bytes. -/
  bytes : Bytes
  /-- They are well-formed. -/
  valid : utf8ValidUpTo bytes = bytes.length
  deriving DecidableEq

namespace Str

/-- A string of ASCII. -/
def ofAscii (bs : Bytes) (h : bs.all (· < 0x80) = true) : Str where
  bytes := bs
  valid := utf8ValidUpTo_of_ascii fun b hb => by simpa using List.all_eq_true.mp h b hb

/-- One string behind the other. -/
def append (s t : Str) : Str where
  bytes := s.bytes ++ t.bytes
  valid := by rw [utf8ValidUpTo_append s.valid, t.valid, List.length_append]

instance : Append Str := ⟨append⟩

@[simp]
theorem bytes_append (s t : Str) : (s ++ t).bytes = s.bytes ++ t.bytes := rfl

/-- A number in decimal. -/
def ofNat (n : ℕ) : Str where
  bytes := ascii (toString n)
  valid := by
    refine utf8ValidUpTo_of_ascii fun b hb => ?_
    have hle : b ≤ 0x39 := (mem_ascii_toString hb).2
    exact UInt8.lt_of_le_of_lt hle (by decide)

/-- **A string cut to at most so many bytes**, at the last character boundary that leaves
no more. -/
def truncate (s : Str) (limit : ℕ) : Str where
  bytes := s.bytes.take (floorCharBoundary s.bytes limit)
  valid := utf8ValidUpTo_take s.valid (isCharBoundary_floorCharBoundary _ _)

theorem length_truncate_le (s : Str) (limit : ℕ) : (s.truncate limit).bytes.length ≤ limit :=
  (List.length_take_le _ _).trans (floorCharBoundary_le _ _)

theorem truncate_isPrefix (s : Str) (limit : ℕ) : (s.truncate limit).bytes <+: s.bytes :=
  List.take_prefix _ _

end Str

/-! ### Lines -/

/-- Put a byte in front of the first line. -/
def pushHead (b : UInt8) : List Bytes → List Bytes
  | [] => [[b]]
  | l :: ls => (b :: l) :: ls

/-- The lines of a text. A line ends at `LF`, and a `CR` right before it belongs to
the terminator; a final terminator opens no further line. -/
def lines : Bytes → List Bytes
  | [] => []
  | [b] => if b = lf then [[]] else [[b]]
  | b :: c :: bs =>
    if b = lf then [] :: lines (c :: bs)
    else if b = cr ∧ c = lf then [] :: lines bs
    else pushHead b (lines (c :: bs))

theorem lines_lf (bs : Bytes) : lines (lf :: bs) = [] :: lines bs := by
  cases bs with
  | nil => simp [lines]
  | cons c bs => simp [lines]

/-- **A printed line comes back**: a line with no terminator in it, printed with its
`LF`, is the first line of the text. -/
theorem lines_append_lf {l : Bytes} (hlf : lf ∉ l) (hcr : cr ∉ l) (bs : Bytes) :
    lines (l ++ lf :: bs) = l :: lines bs := by
  induction l with
  | nil => exact lines_lf bs
  | cons b l ih =>
    have hb : b ≠ lf := fun he => hlf (he ▸ List.mem_cons_self)
    have hb' : b ≠ cr := fun he => hcr (he ▸ List.mem_cons_self)
    have ih' := ih (fun hm => hlf (List.mem_cons_of_mem _ hm))
      (fun hm => hcr (List.mem_cons_of_mem _ hm))
    obtain ⟨c, cs, hc⟩ : ∃ c cs, l ++ lf :: bs = c :: cs := by
      cases l with
      | nil => exact ⟨lf, bs, rfl⟩
      | cons c l => exact ⟨c, l ++ lf :: bs, rfl⟩
    rw [List.cons_append, hc, lines, if_neg hb, if_neg fun h => hb' h.1, ← hc, ih']
    rfl

/-- Trimming the terminators off the end of a line that has none in it. -/
theorem rdropWhile_eq_self {p : UInt8 → Bool} {l : Bytes} (h : ∀ b ∈ l, p b = false) :
    l.rdropWhile p = l := by
  rw [List.rdropWhile_eq_self_iff]
  intro hne
  simp [h _ (List.getLast_mem hne)]

/-! ### Splitting -/

/-- What stands before and after the first occurrence of a separator. -/
def splitOnce (sep : UInt8) : Bytes → Option (Bytes × Bytes)
  | [] => none
  | b :: bs =>
    if b = sep then some ([], bs)
    else (splitOnce sep bs).map fun p => (b :: p.1, p.2)

/-- **Splitting undoes joining** when the separator does not occur in the first
part. -/
theorem splitOnce_append {sep : UInt8} {l : Bytes} (h : sep ∉ l) (bs : Bytes) :
    splitOnce sep (l ++ sep :: bs) = some (l, bs) := by
  induction l with
  | nil => simp [splitOnce]
  | cons b l ih =>
    have hb : b ≠ sep := fun he => h (he ▸ List.mem_cons_self)
    simp [splitOnce, hb, ih fun hm => h (List.mem_cons_of_mem _ hm)]

/-- What splitting finds is the text joined back, and the separator is not in the
first part. -/
theorem splitOnce_eq_some_iff {sep : UInt8} {bs l r : Bytes} :
    splitOnce sep bs = some (l, r) ↔ bs = l ++ sep :: r ∧ sep ∉ l := by
  constructor
  · intro h
    induction bs generalizing l with
    | nil => simp [splitOnce] at h
    | cons b bs ih =>
      by_cases hb : b = sep
      · simp only [splitOnce, hb, if_true, Option.some.injEq, Prod.mk.injEq] at h
        obtain ⟨rfl, rfl⟩ := h
        simp [hb]
      · simp only [splitOnce, hb, if_false, Option.map_eq_some_iff, Prod.mk.injEq,
          Prod.exists] at h
        obtain ⟨l', r', hs, rfl, rfl⟩ := h
        obtain ⟨rfl, hn⟩ := ih hs
        exact ⟨rfl, fun hm => (List.mem_cons.mp hm).elim (fun he => hb he.symm) hn⟩
  · rintro ⟨rfl, h⟩
    exact splitOnce_append h r

/-- A number in decimal ends where the separator behind it stands. -/
theorem ascii_toString_append_inj (sep : UInt8) (hsep : sep < 0x30 ∨ 0x39 < sep) {m n : ℕ}
    {bs cs : Bytes}
    (h : ascii (toString m) ++ sep :: bs = ascii (toString n) ++ sep :: cs) :
    m = n ∧ bs = cs := by
  have hnot (k : ℕ) : sep ∉ ascii (toString k) := by
    intro hmem
    have hdigit := mem_ascii_toString hmem
    simp only [UInt8.le_iff_toNat_le, UInt8.lt_iff_toNat_lt] at hdigit hsep
    omega
  have hsplit := splitOnce_append (hnot m) bs
  rw [h, splitOnce_append (hnot n)] at hsplit
  obtain ⟨hdigits, hrest⟩ := Prod.ext_iff.mp (Option.some.inj hsplit)
  exact ⟨(ascii_toString_inj hdigits).symm, hrest.symm⟩

/-- What stands between two separators has none. -/
theorem notMem_of_mem_splitOn {sep : UInt8} {bs l : Bytes} (h : l ∈ bs.splitOn sep) : sep ∉ l := by
  induction bs generalizing l with
  | nil =>
    obtain rfl : l = [] := by simpa using h
    simp
  | cons b bs ih =>
    obtain ⟨first, rest, hsplit⟩ := List.exists_cons_of_ne_nil (List.splitOn_ne_nil sep bs)
    rw [List.splitOn_cons_eq_if_modifyHead, hsplit] at h
    rw [hsplit] at ih
    split at h
    · rcases List.mem_cons.mp h with rfl | hmem
      · simp
      · exact ih hmem
    · rename_i hb
      rcases List.mem_cons.mp h with rfl | hmem
      · have hfirst : sep ∉ first := ih List.mem_cons_self
        have hne : sep ≠ b := fun he => hb (by simp [he])
        simp [hfirst, hne]
      · exact ih (List.mem_cons_of_mem _ hmem)

/-! ### Lines, by splitting -/

/-- Trim the bytes off the end of every line, and drop the lines of which nothing is left. -/
def trimmed (p : UInt8 → Bool) (ls : List Bytes) : List Bytes :=
  (ls.map (List.rdropWhile p)).filter (· ≠ [])

theorem trimmed_cons (p : UInt8 → Bool) (l : Bytes) (ls : List Bytes) :
    trimmed p (l :: ls) =
      if l.rdropWhile p = [] then trimmed p ls else l.rdropWhile p :: trimmed p ls := by
  rw [trimmed, List.map_cons, List.filter_cons]
  split <;> simp_all [trimmed]

/-- Trimming depends on the bytes of the line only. -/
theorem rdropWhile_congr {p q : UInt8 → Bool} {l : Bytes} (h : ∀ b ∈ l, p b = q b) :
    l.rdropWhile p = l.rdropWhile q := by
  induction l using List.reverseRecOn with
  | nil => rfl
  | append_singleton l b ih =>
    have hl : ∀ c ∈ l, p c = q c := fun c hc => h c (List.mem_append_left _ hc)
    rw [List.rdropWhile_concat, List.rdropWhile_concat, h b (by simp), ih hl]

theorem trimmed_congr {p q : UInt8 → Bool} {ls : List Bytes}
    (h : ∀ l ∈ ls, ∀ b ∈ l, p b = q b) : trimmed p ls = trimmed q ls := by
  rw [trimmed, trimmed, List.map_congr_left fun l hl => rdropWhile_congr (h l hl)]

/-- How the lines of a text lie against what stands between its line feeds, when carriage
returns are trimmed: the first line may lack one at its end, and the rest agree. A text
without lines is the empty one, which splitting takes for one empty line. -/
inductive LinesAgree (p : UInt8 → Bool) : List Bytes → List Bytes → Prop
  /-- The empty text. -/
  | empty : LinesAgree p [] [[]]
  /-- The first line is all of what is there. -/
  | same {ls ss : List Bytes} (l : Bytes) : trimmed p ls = trimmed p ss →
      LinesAgree p (l :: ls) (l :: ss)
  /-- The first line ended with a carriage return. -/
  | crlf {ls ss : List Bytes} (l : Bytes) : trimmed p ls = trimmed p ss →
      LinesAgree p (l :: ls) ((l ++ [cr]) :: ss)

theorem LinesAgree.trimmed_eq {p : UInt8 → Bool} (hp : p cr = true) {ls ss : List Bytes}
    (h : LinesAgree p ls ss) : trimmed p ls = trimmed p ss := by
  cases h with
  | empty => simp [trimmed]
  | same l h => rw [trimmed_cons, trimmed_cons, h]
  | crlf l h => rw [trimmed_cons, trimmed_cons, h, List.rdropWhile_concat_pos _ _ _ hp]

theorem LinesAgree.cons {p : UInt8 → Bool} {ls ss : List Bytes} (h : LinesAgree p ls ss)
    (b : UInt8) : LinesAgree p (pushHead b ls) (ss.modifyHead (b :: ·)) := by
  cases h with
  | empty => exact .same [b] rfl
  | same l h => exact .same (b :: l) h
  | crlf l h => exact .crlf (b :: l) h

theorem linesAgree {p : UInt8 → Bool} (hp : p cr = true) (text : Bytes) :
    LinesAgree p (lines text) (text.splitOn lf) := by
  -- along the recursion of `lines`: a terminator of one byte, one of two, or another byte
  fun_induction lines text with
  | case1 => exact .empty
  | case2 => exact .same [] rfl
  | case3 b hb =>
    rw [List.splitOn_cons_eq_if_modifyHead, if_neg (by simpa using hb)]
    exact .same [b] rfl
  | case4 c bs ih =>
    rw [List.splitOn_cons_eq_if_modifyHead, if_pos (by simp)]
    exact .same [] (ih.trimmed_eq hp)
  | case5 b c bs hb hcrlf ih =>
    obtain ⟨rfl, rfl⟩ := hcrlf
    rw [List.splitOn_cons_eq_if_modifyHead, if_neg (by decide),
      List.splitOn_cons_eq_if_modifyHead, if_pos (by simp)]
    exact .crlf [] (ih.trimmed_eq hp)
  | case6 b c bs hb hcrlf ih =>
    rw [List.splitOn_cons_eq_if_modifyHead, if_neg (by simpa using hb)]
    exact ih.cons b

/-- **The lines of a text, trimmed, are what stands between its line feeds, with the
carriage returns at the end trimmed.** -/
theorem trimmed_lines (text : Bytes) :
    trimmed (fun b => b == cr || b == lf) (lines text) =
      trimmed (fun b => b == cr) (text.splitOn lf) := by
  rw [(linesAgree (by simp) text).trimmed_eq (by simp)]
  refine trimmed_congr fun l hl b hb => ?_
  have hne : b ≠ lf := fun he => notMem_of_mem_splitOn hl (he ▸ hb)
  simp [hne]

end Text
