import Symbolon.Lib.Text

/-!
# The path of a URL

A URL that is put together from strings is taken apart again by whoever follows it, and its
path is not what was written but what is left after its *dot segments* are resolved: `.` is
dropped, and `..` takes the segment before it along (`Url.resolve`). This file has the part
of URL parsing that decides the path of an absolute `http` or `https` URL (`Url.pathOf`).

The standards differ in which bytes of a segment they escape, and in whether an escaped dot
counts as a dot. What they agree on is a structure of its own (`Url.Rules`): a segment of
unreserved bytes is never escaped, and it is a dot segment exactly if it is `.` or `..`.
-/

namespace Url

open Text

/-! ### Resolving dot segments -/

/-- A byte that is the same escaped and not escaped. -/
def isUnreserved (b : UInt8) : Bool :=
  (0x30 ≤ b && b ≤ 0x39) || (0x41 ≤ b && b ≤ 0x5A) || (0x61 ≤ b && b ≤ 0x7A) ||
    b == 0x2D || b == 0x2E || b == 0x5F || b == 0x7E

/-- **What a standard says of segments**, as far as the standards agree. -/
structure Rules where
  /-- A segment, escaped. -/
  encode : Bytes → Bytes
  /-- The segment stands for the place it is at. -/
  isSingleDot : Bytes → Bool
  /-- The segment stands for the place above. -/
  isDoubleDot : Bytes → Bool
  /-- Unreserved bytes are not escaped. -/
  encode_unreserved : ∀ s, (∀ b ∈ s, isUnreserved b = true) → encode s = s
  /-- A single dot. -/
  isSingleDot_unreserved : ∀ s, (∀ b ∈ s, isUnreserved b = true) →
    (isSingleDot s = true ↔ s = ascii ".")
  /-- Two dots. -/
  isDoubleDot_unreserved : ∀ s, (∀ b ∈ s, isUnreserved b = true) →
    (isDoubleDot s = true ↔ s = ascii "..")

variable (R : Rules)

/-- One more segment; the last one leaves an empty segment behind if it is a dot segment. -/
def push (path : List Bytes) (seg : Bytes) (last : Bool) : List Bytes :=
  if R.isDoubleDot seg then path.dropLast ++ (if last then [[]] else [])
  else if R.isSingleDot seg then path ++ (if last then [[]] else [])
  else path ++ [R.encode seg]

/-- **Resolve the dot segments**, beginning with the path so far. -/
def resolve : List Bytes → List Bytes → List Bytes
  | path, [] => path
  | path, [seg] => push R path seg true
  | path, seg :: rest => resolve (push R path seg false) rest

/-- A segment that is no dot segment. -/
def Rules.IsPlain (seg : Bytes) : Prop := R.isSingleDot seg = false ∧ R.isDoubleDot seg = false

variable {R}

theorem push_of_isPlain {path : List Bytes} {seg : Bytes} (h : R.IsPlain seg) (last : Bool) :
    push R path seg last = path ++ [R.encode seg] := by
  simp [push, h.1, h.2]

theorem resolve_cons {path : List Bytes} {seg : Bytes} {rest : List Bytes} (hrest : rest ≠ []) :
    resolve R path (seg :: rest) = resolve R (push R path seg false) rest := by
  cases rest with
  | nil => exact absurd rfl hrest
  | cons => rfl

/-- **Plain segments stay as they are.** -/
theorem resolve_append {segs rest : List Bytes} (h : ∀ seg ∈ segs, R.IsPlain seg)
    (hrest : rest ≠ []) (path : List Bytes) :
    resolve R path (segs ++ rest) = resolve R (path ++ segs.map R.encode) rest := by
  induction segs generalizing path with
  | nil => simp
  | cons seg segs ih =>
    have hne : segs ++ rest ≠ [] := by simp [hrest]
    rw [List.cons_append, resolve_cons hne, push_of_isPlain (h seg List.mem_cons_self),
      ih fun s hs => h s (List.mem_cons_of_mem _ hs)]
    simp

/-! ### Absolute URLs -/

/-- What separates segments: in these schemes, a backslash does so too. -/
def isSeparator (b : UInt8) : Bool := b == 0x2F || b == 0x5C

/-- Where a query or a fragment begins. -/
def isDelimiter (b : UInt8) : Bool := b == 0x3F || b == 0x23

/-- What comes after the scheme. -/
def afterScheme (url : Bytes) : Option Bytes :=
  if (ascii "https://").isPrefixOf url then some (url.drop 8)
  else if (ascii "http://").isPrefixOf url then some (url.drop 7)
  else none

variable (R) in
/-- **The path of a URL**: what comes after the authority, up to a query or a fragment, with
its dot segments resolved. The path of a URL that has none is one empty segment. -/
def pathOf (url : Bytes) : Option (List Bytes) :=
  match afterScheme url with
  | none => none
  | some rest =>
    match (rest.takeWhile fun b => !isDelimiter b).dropWhile fun b => !isSeparator b with
    | [] => some [[]]
    | _ :: path => some (resolve R [] (path.splitOnP isSeparator))

/-- A byte that neither ends an authority or a segment nor is blank. -/
def isPlainByte (b : UInt8) : Bool := 0x20 < b && !isSeparator b && !isDelimiter b

/-- **An absolute URL** without a query or a fragment, as it is written. -/
structure Absolute where
  /-- The scheme is `https`. -/
  secure : Bool
  /-- The authority. -/
  authority : Bytes
  /-- The segments of the path, before anything is resolved. -/
  segments : List Bytes
  /-- There is an authority. -/
  authority_ne : authority ≠ []
  /-- It ends where the path begins. -/
  authority_ok : ∀ b ∈ authority, isPlainByte b = true
  /-- A segment ends where the next one begins. -/
  segments_ok : ∀ seg ∈ segments, ∀ b ∈ seg, isPlainByte b = true

namespace Absolute

variable (u : Absolute)

/-- The segments, each after its slash. -/
def joined (segs : List Bytes) : Bytes := segs.flatMap fun seg => 0x2F :: seg

/-- The scheme, as it is written. -/
def scheme (secure : Bool) : Bytes := if secure then ascii "https://" else ascii "http://"

/-- The URL, written out. -/
def str : Bytes := scheme u.secure ++ (u.authority ++ joined u.segments)

/-- The URL with more segments. -/
def extend (segs : List Bytes) (h : ∀ seg ∈ segs, ∀ b ∈ seg, isPlainByte b = true) : Absolute where
  secure := u.secure
  authority := u.authority
  segments := u.segments ++ segs
  authority_ne := u.authority_ne
  authority_ok := u.authority_ok
  segments_ok seg hseg := (List.mem_append.mp hseg).elim (u.segments_ok seg) (h seg)

theorem str_extend {segs : List Bytes} (h : ∀ seg ∈ segs, ∀ b ∈ seg, isPlainByte b = true) :
    (u.extend segs h).str = u.str ++ joined segs := by
  simp [str, extend, joined]

/-- The URL without the slashes at its end. -/
def trimmed : Absolute where
  secure := u.secure
  authority := u.authority
  segments := u.segments.rdropWhile List.isEmpty
  authority_ne := u.authority_ne
  authority_ok := u.authority_ok
  segments_ok seg hseg := u.segments_ok seg (( List.rdropWhile_prefix _ _).subset hseg)

theorem afterScheme_str : afterScheme u.str = some (u.authority ++ joined u.segments) := by
  unfold afterScheme str
  cases u.secure with
  | true => rfl
  | false => rfl

theorem isSeparator_of_isPlainByte {b : UInt8} (h : isPlainByte b = true) :
    isSeparator b = false := by
  simp only [isPlainByte, Bool.and_eq_true, Bool.not_eq_true'] at h
  exact h.1.2

theorem isDelimiter_of_isPlainByte {b : UInt8} (h : isPlainByte b = true) :
    isDelimiter b = false := by
  simp only [isPlainByte, Bool.and_eq_true, Bool.not_eq_true'] at h
  exact h.2

theorem isDelimiter_of_mem_joined {segs : List Bytes}
    (h : ∀ seg ∈ segs, ∀ b ∈ seg, isPlainByte b = true) {b : UInt8} (hb : b ∈ joined segs) :
    isDelimiter b = false := by
  obtain ⟨seg, hseg, hb⟩ := List.mem_flatMap.mp hb
  rcases List.mem_cons.mp hb with rfl | hb
  · rfl
  · exact isDelimiter_of_isPlainByte (h seg hseg b hb)

/-- Splitting undoes joining. -/
theorem splitOnP_joined {seg : Bytes} {segs : List Bytes}
    (h : ∀ s ∈ seg :: segs, ∀ b ∈ s, isPlainByte b = true) :
    (seg ++ joined segs).splitOnP isSeparator = seg :: segs := by
  have hseg : ∀ b ∈ seg, isSeparator b = false := fun b hb =>
    isSeparator_of_isPlainByte (h seg List.mem_cons_self b hb)
  induction segs generalizing seg with
  | nil => rw [joined, List.flatMap_nil, List.append_nil, List.splitOnP_eq_singleton hseg]
  | cons t segs ih =>
    have hrest : ∀ s ∈ t :: segs, ∀ b ∈ s, isPlainByte b = true :=
      fun s hs => h s (List.mem_cons_of_mem _ hs)
    have hjoined : joined (t :: segs) = 0x2F :: (t ++ joined segs) := rfl
    rw [hjoined, List.splitOnP_append_cons_of_forall_mem hseg _ rfl,
      ih hrest fun b hb => isSeparator_of_isPlainByte (hrest t List.mem_cons_self b hb)]

/-- **The path of a URL that is written out** is its segments, resolved. -/
theorem pathOf_str (hne : u.segments ≠ []) : pathOf R u.str = some (resolve R [] u.segments) := by
  obtain ⟨seg, segs, hsegs⟩ := List.exists_cons_of_ne_nil hne
  have hok := u.segments_ok
  rw [hsegs] at hok
  have htake : (u.authority ++ joined (seg :: segs)).takeWhile (fun b => !isDelimiter b) =
      u.authority ++ joined (seg :: segs) := by
    rw [List.takeWhile_eq_self_iff]
    intro b hb
    rcases List.mem_append.mp hb with hb | hb
    · simp [isDelimiter_of_isPlainByte (u.authority_ok b hb)]
    · simp [isDelimiter_of_mem_joined hok hb]
  have hdrop : (u.authority ++ joined (seg :: segs)).dropWhile (fun b => !isSeparator b) =
      0x2F :: (seg ++ joined segs) := by
    rw [List.dropWhile_append_of_pos fun b hb => by
      simp [isSeparator_of_isPlainByte (u.authority_ok b hb)]]
    rfl
  rw [pathOf, afterScheme_str, hsegs]
  simp only [htake, hdrop, splitOnP_joined hok]

/-- **Trimming the slashes off the end** leaves the URL without its empty last segments. -/
theorem rdropWhile_str : u.str.rdropWhile (fun b => b == 0x2F) = u.trimmed.str := by
  obtain ⟨secure, authority, segments, hne, hauth, hsegs⟩ := u
  simp only [str, trimmed]
  -- the last byte of something plain is not a slash
  have hlast : ∀ {l : Bytes}, l ≠ [] → (∀ b ∈ l, isPlainByte b = true) → ∀ front : Bytes,
      (front ++ l).rdropWhile (fun b => b == 0x2F) = front ++ l := by
    intro l hl hplain front
    rw [List.rdropWhile_eq_self_iff]
    intro hne'
    rw [List.getLast_append_of_ne_nil _ hl]
    have hsep := isSeparator_of_isPlainByte (hplain _ (List.getLast_mem hl))
    intro hslash
    rw [beq_iff_eq.mp hslash] at hsep
    exact absurd hsep (by decide)
  induction segments using List.reverseRecOn with
  | nil =>
    simp only [List.rdropWhile_nil, joined, List.flatMap_nil, List.append_nil]
    exact hlast hne hauth _
  | append_singleton segs seg ih =>
    have hjoined : joined (segs ++ [seg]) = joined segs ++ 0x2F :: seg := by simp [joined]
    rw [hjoined]
    rcases eq_or_ne seg [] with rfl | hseg
    · rw [List.rdropWhile_concat_pos _ _ _ rfl, ← List.append_assoc, ← List.append_assoc,
        List.rdropWhile_concat_pos _ _ _ rfl, List.append_assoc]
      exact ih fun s hs => hsegs s (List.mem_append_left _ hs)
    · have hplain := hsegs seg (List.mem_append_right _ (List.mem_singleton_self _))
      have hsplit : scheme secure ++ (authority ++ (joined segs ++ 0x2F :: seg)) =
          scheme secure ++ (authority ++ (joined segs ++ [0x2F])) ++ seg := by simp
      rw [List.rdropWhile_concat_neg _ _ _ (by simpa using hseg), hjoined, hsplit]
      exact hlast hseg hplain _

end Absolute

/-! ### The rules of the URL Standard -/

/-- The bytes that are escaped in a path: controls and whatever is not ASCII, and blanks,
quotes, angle brackets, backticks and braces. -/
def isEscaped (b : UInt8) : Bool :=
  b < 0x21 || 0x7E < b || b == 0x22 || b == 0x23 || b == 0x3C || b == 0x3E || b == 0x3F ||
    b == 0x60 || b == 0x7B || b == 0x7D

/-- A hexadecimal digit. -/
def hexDigit (n : UInt8) : UInt8 := if n < 10 then 0x30 + n else 0x37 + n

/-- The ways to write two dots. -/
def doubleDots : List Bytes :=
  [ascii "..", ascii ".%2e", ascii ".%2E", ascii "%2e.", ascii "%2E.", ascii "%2e%2e",
    ascii "%2e%2E", ascii "%2E%2e", ascii "%2E%2E"]

theorem isEscaped_of_isUnreserved {b : UInt8} (h : isUnreserved b = true) :
    isEscaped b = false := by
  simp only [isUnreserved, isEscaped, Bool.or_eq_true, Bool.and_eq_true, decide_eq_true_eq,
    beq_iff_eq, Bool.or_eq_false_iff, decide_eq_false_iff_not, beq_eq_false_iff_ne,
    UInt8.le_iff_toNat_le, UInt8.lt_iff_toNat_lt, ← UInt8.toNat_inj, UInt8.reduceToNat,
    ne_eq] at h ⊢
  omega

/-- **The rules of the URL Standard.** -/
def standard : Rules where
  encode s := s.flatMap fun b =>
    if isEscaped b then [0x25, hexDigit (b >>> 4), hexDigit (b &&& 0x0F)] else [b]
  isSingleDot s := s == ascii "." || s == ascii "%2e" || s == ascii "%2E"
  isDoubleDot s := doubleDots.contains s
  encode_unreserved s h := by
    induction s with
    | nil => rfl
    | cons b s ih =>
      rw [List.flatMap_cons, isEscaped_of_isUnreserved (h b List.mem_cons_self),
        ih fun c hc => h c (List.mem_cons_of_mem _ hc)]
      rfl
  isSingleDot_unreserved s h := by
    have hpercent : 0x25 ∉ s := fun hmem => absurd (h _ hmem) (by decide)
    constructor
    · intro hdot
      simp only [Bool.or_eq_true, beq_iff_eq] at hdot
      rcases hdot with (rfl | rfl) | rfl
      · rfl
      · exact absurd (by decide) hpercent
      · exact absurd (by decide) hpercent
    · rintro rfl
      decide
  isDoubleDot_unreserved s h := by
    have hpercent : 0x25 ∉ s := fun hmem => absurd (h _ hmem) (by decide)
    constructor
    · intro hdot
      have hmem : s ∈ doubleDots := by simpa using hdot
      -- every other way to write two dots has an escape in it
      have hother : ∀ t ∈ doubleDots, 0x25 ∉ t → t = ascii ".." := by decide
      exact hother s hmem hpercent
    · rintro rfl
      decide

end Url
