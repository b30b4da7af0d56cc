import Symbolon.Lib.Text

/-!
# Two encodings of bytes as text: JSON strings and base64

A compact JSON writer puts a string between quotes and escapes the bytes a string cannot
hold; the URL-safe alphabet of base64 spends four characters on three bytes and pads
nothing. This file has both, with what a reader of the output and a writer with a size
limit need to know of them.

* `Json.quote` – the **string**, quoted. It can be read back, and so can what stands
  behind it (`Json.quote_append_inj`); a byte costs at most six (`Json.length_quote_le`),
  and one that needs no escape costs one (`Json.length_quote_of_isPlain`).
* `Base64.encode` – the **digits**, of known number (`Base64.length_encode`), none of which
  needs an escape (`Base64.isPlain_of_mem_encode`).
-/

open Text

namespace Json

/-! ### Strings -/

/-- The character that names a byte behind a backslash, for the bytes that have one. -/
def shortForm (b : UInt8) : Option UInt8 :=
  if b = 0x22 then some 0x22        -- the quote
  else if b = 0x5C then some 0x5C   -- the backslash
  else if b = 0x08 then some 0x62   -- b
  else if b = 0x09 then some 0x74   -- t
  else if b = 0x0A then some 0x6E   -- n
  else if b = 0x0C then some 0x66   -- f
  else if b = 0x0D then some 0x72   -- r
  else none

/-- A hexadecimal digit, in lower case. -/
def hexDigit (n : ℕ) : UInt8 := UInt8.ofNat (if n < 10 then 0x30 + n else 0x57 + n)

/-- **A byte inside a JSON string**: as itself, unless it is the quote, the backslash or a
control byte. -/
def escape (b : UInt8) : Bytes :=
  match shortForm b with
  | some c => [0x5C, c]
  | none =>
    if b < 0x20 then
      [0x5C, 0x75, 0x30, 0x30, hexDigit (b.toNat / 16), hexDigit (b.toNat % 16)]
    else [b]

/-- A JSON string. -/
def quote (bs : Bytes) : Bytes := 0x22 :: (bs.flatMap escape ++ [0x22])

/-- Whether a byte stands for itself. -/
def isPlain (b : UInt8) : Bool := 0x20 ≤ b && b != 0x22 && b != 0x5C

theorem escape_of_isPlain {b : UInt8} (h : isPlain b = true) : escape b = [b] := by
  simp only [isPlain, Bool.and_eq_true, decide_eq_true_eq, bne_iff_ne, ne_eq] at h
  have hshort : shortForm b = none := by
    unfold shortForm
    split_ifs with h₁ h₂ h₃ h₄ h₅ h₆ h₇
    · exact absurd h₁ h.1.2
    · exact absurd h₂ h.2
    all_goals first | rfl | (subst b; exact absurd h.1.1 (by decide))
  rw [escape, hshort]
  exact if_neg (UInt8.not_lt.mpr h.1.1)

theorem length_escape_le (b : UInt8) : (escape b).length ≤ 6 := by
  unfold escape
  split
  · simp
  · split <;> simp

/-- **Escaping expands a string at most sixfold.** -/
theorem length_quote_le (bs : Bytes) : (quote bs).length ≤ 6 * bs.length + 2 := by
  have hescape : (bs.flatMap escape).length ≤ 6 * bs.length := by
    induction bs with
    | nil => simp
    | cons b bs ih =>
      have hb := length_escape_le b
      simp only [List.flatMap_cons, List.length_append, List.length_cons]
      omega
  simp only [quote, List.length_cons, List.length_append, List.length_nil]
  omega

/-- A string of plain bytes costs its quotes and nothing else. -/
theorem length_quote_of_isPlain {bs : Bytes} (h : ∀ b ∈ bs, isPlain b = true) :
    (quote bs).length = bs.length + 2 := by
  have hescape : bs.flatMap escape = bs := by
    induction bs with
    | nil => rfl
    | cons b bs ih =>
      rw [List.flatMap_cons, escape_of_isPlain (h b List.mem_cons_self),
        ih fun b' hb' => h b' (List.mem_cons_of_mem _ hb')]
      rfl
  simp [quote, hescape]

/-! ### Reading a string back -/

/-- The byte a character behind a backslash names. -/
def ofShortForm (c : UInt8) : Option UInt8 :=
  if c = 0x22 then some 0x22
  else if c = 0x5C then some 0x5C
  else if c = 0x62 then some 0x08
  else if c = 0x74 then some 0x09
  else if c = 0x6E then some 0x0A
  else if c = 0x66 then some 0x0C
  else if c = 0x72 then some 0x0D
  else none

/-- The value of a hexadecimal digit in lower case. -/
def hexVal (c : UInt8) : ℕ := if c ≤ 0x39 then c.toNat - 0x30 else c.toNat - 0x57

/-- **The first byte of what remains of a string**, and what remains behind it; `none` at
the closing quote. -/
def unescape : Bytes → Option (UInt8 × Bytes)
  | [] => none
  | b :: bs =>
    if b = 0x22 then none
    else if b = 0x5C then
      match bs with
      | [] => none
      | c :: bs =>
        if c = 0x75 then
          match bs with
          | _ :: _ :: hi :: lo :: bs => some (UInt8.ofNat (16 * hexVal hi + hexVal lo), bs)
          | _ => none
        else (ofShortForm c).map (·, bs)
    else some (b, bs)

theorem ofShortForm_of_shortForm {b c : UInt8} (h : shortForm b = some c) :
    c ≠ 0x75 ∧ ofShortForm c = some b := by
  unfold shortForm at h
  split_ifs at h <;> cases h <;> subst b <;> decide

theorem hexVal_hexDigit : ∀ n < 16, hexVal (hexDigit n) = n := by decide

/-- A byte that is escaped is read back. -/
theorem unescape_escape (b : UInt8) (bs : Bytes) : unescape (escape b ++ bs) = some (b, bs) := by
  unfold escape
  split
  · rename_i c hshort
    obtain ⟨hu, hof⟩ := ofShortForm_of_shortForm hshort
    simp [unescape, hu, hof]
  · rename_i hshort
    split
    · rename_i hcontrol
      have hlt : b.toNat < 256 := b.toNat_lt
      have hhi := hexVal_hexDigit (b.toNat / 16) (by omega)
      have hlo := hexVal_hexDigit (b.toNat % 16) (by omega)
      simp [unescape, hhi, hlo, Nat.div_add_mod]
    · have hquote : b ≠ 0x22 := by rintro rfl; cases hshort
      have hslash : b ≠ 0x5C := by rintro rfl; cases hshort
      simp [unescape, hquote, hslash]

/-- **A string is read back, and where it ends is seen**, whatever stands behind it. -/
theorem quote_append_inj {s t bs cs : Bytes} (h : quote s ++ bs = quote t ++ cs) :
    s = t ∧ bs = cs := by
  simp only [quote, List.cons_append, List.append_assoc, List.nil_append, List.cons.injEq,
    true_and] at h
  induction s generalizing t with
  | nil =>
    cases t with
    | nil => exact ⟨rfl, (List.cons.inj h).2⟩
    | cons b t =>
      have hread := congrArg unescape h
      rw [List.flatMap_cons, List.append_assoc, unescape_escape] at hread
      cases hread
  | cons a s ih =>
    have hread := congrArg unescape h
    rw [List.flatMap_cons, List.append_assoc, unescape_escape] at hread
    cases t with
    | nil => cases hread
    | cons b t =>
      rw [List.flatMap_cons, List.append_assoc, unescape_escape] at hread
      obtain ⟨rfl, hrest⟩ := Prod.ext_iff.mp (Option.some.inj hread)
      obtain ⟨rfl, hbs⟩ := ih hrest
      exact ⟨rfl, hbs⟩

end Json

namespace Base64

/-- A digit of the URL-safe alphabet: `A`–`Z`, `a`–`z`, `0`–`9`, `-`, `_`. -/
def digit (n : ℕ) : UInt8 :=
  if n < 26 then UInt8.ofNat (0x41 + n)
  else if n < 52 then UInt8.ofNat (0x47 + n)
  else if n < 62 then UInt8.ofNat (n - 4)
  else if n = 62 then 0x2D
  else 0x5F

/-- **The digits of a string of bytes**: four for three bytes, three or two for the two or
the one left over, and no padding. -/
def encode : Bytes → Bytes
  | [] => []
  | [a] => [digit (a.toNat / 4), digit (a.toNat % 4 * 16)]
  | [a, b] =>
    [digit (a.toNat / 4), digit (a.toNat % 4 * 16 + b.toNat / 16), digit (b.toNat % 16 * 4)]
  | a :: b :: c :: bs =>
    digit (a.toNat / 4) :: digit (a.toNat % 4 * 16 + b.toNat / 16) ::
      digit (b.toNat % 16 * 4 + c.toNat / 64) :: digit (c.toNat % 64) :: encode bs

/-- Four characters for three bytes, rounded up. -/
theorem length_encode (bs : Bytes) : (encode bs).length = (4 * bs.length + 2) / 3 := by
  fun_induction encode bs with
  | case1 | case2 | case3 => simp
  | case4 a b c bs ih =>
    simp only [List.length_cons, ih]
    omega

theorem exists_digit_of_mem_encode {bs : Bytes} {c : UInt8} (h : c ∈ encode bs) :
    ∃ n, c = digit n := by
  fun_induction encode bs with
  | case1 => cases h
  | case2 | case3 => grind
  | case4 a b c bs ih => grind

/-- A digit is a letter, a figure, the hyphen or the underscore. -/
theorem digit_cases (n : ℕ) : 0x2D ≤ digit n ∧ digit n < 0x80 ∧ digit n ≠ 0x5C := by
  have hbelow : ∀ n < 63, 0x2D ≤ digit n ∧ digit n < 0x80 ∧ digit n ≠ 0x5C := by decide
  rcases Nat.lt_or_ge n 63 with hlt | hge
  · exact hbelow n hlt
  · have hlast : digit n = 0x5F := by
      simp [digit, show ¬n < 26 by omega, show ¬n < 52 by omega, show ¬n < 62 by omega,
        show n ≠ 62 by omega]
    rw [hlast]
    decide

/-- **No digit needs an escape**, and each is a character of one byte. -/
theorem isPlain_of_mem_encode {bs : Bytes} {c : UInt8} (h : c ∈ encode bs) :
    Json.isPlain c = true ∧ c < 0x80 := by
  obtain ⟨n, rfl⟩ := exists_digit_of_mem_encode h
  obtain ⟨hge, hlt, hslash⟩ := digit_cases n
  refine ⟨?_, hlt⟩
  simp only [Json.isPlain, Bool.and_eq_true, decide_eq_true_eq, bne_iff_ne, ne_eq]
  refine ⟨⟨UInt8.le_trans (by decide) hge, ?_⟩, hslash⟩
  rintro heq
  rw [heq] at hge
  exact absurd hge (by decide)

end Base64
