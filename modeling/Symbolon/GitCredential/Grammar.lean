import Symbolon.GitCredential

/-!
# The language of request blocks

What a request block is can be said without a parser: a non-empty list of attributes, each
a key, `=` and a value on a line of its own, perhaps followed by a blank line
(`Symbolon.Request.Spells`); and what it means, by the values that its keys have
(`Symbolon.Request.Denotes`). The parser accepts exactly this language, with this meaning
(`Symbolon.Request.parse_accepts_exactly`).

The parser fills three slots and sets one flag, line by line. What it has read after some
attributes (`Symbolon.Request.Reads`) is said for the list of them as a whole, and splits
along the list, so the loop needs no invariant of its own.
-/

namespace Symbolon

open Text

namespace Request

/-! ### Attributes -/

/-- **An attribute**: a key without `=`, and a value, on one line. -/
structure Attribute where
  /-- The key. -/
  key : Bytes
  /-- The value. -/
  value : Bytes
  /-- The key is not empty. -/
  key_ne : key ≠ []
  /-- The key ends at the first `=`. -/
  eq_notMem : 0x3D ∉ key
  /-- No byte ends the line or is forbidden on it. -/
  clean : ∀ b ∈ key ++ 0x3D :: value, b ≠ 0x00 ∧ b ≠ cr ∧ b ≠ lf

/-- The line of an attribute. -/
def Attribute.line (a : Attribute) : Bytes := a.key ++ 0x3D :: a.value

/-- The lines of a block. -/
def render (attrs : List Attribute) : Bytes := attrs.flatMap fun a => a.line ++ [lf]

/-- **The bytes spell the attributes.** -/
structure Spells (input : Bytes) (attrs : List Attribute) : Prop where
  /-- The block is not too long. -/
  length_le : input.length ≤ 65536
  /-- It is not empty. -/
  ne_nil : attrs ≠ []
  /-- One more line feed may follow. -/
  eq : input = render attrs ∨ input = render attrs ++ [lf]

/-- The values that a key has, line after line. -/
def valuesOf (key : Bytes) (attrs : List Attribute) : List Bytes :=
  (attrs.filter fun a => a.key = key).map Attribute.value

/-- What a value of a recognised key is. -/
def IsValue (value : Bytes) : Prop :=
  value ≠ [] ∧ value.length ≤ 4096 ∧ fromUtf8 value = .ok value

/-- One trailing `.git` is taken off, if it is there. -/
def Stripped (path stripped : Bytes) : Prop :=
  if ascii ".git" <:+ path then path = stripped ++ ascii ".git" else path = stripped

/-- The capabilities that count: `authtype`, and the empty one that resets the list. -/
def capabilities (attrs : List Attribute) : List Bytes :=
  (valuesOf (ascii "capability[]") attrs).filter fun v => v = [] ∨ v = ascii "authtype"

/-- **The attributes denote the request.** -/
def Denotes (attrs : List Attribute) (r : Request) : Prop :=
  ∃ path, valuesOf (ascii "protocol") attrs = [r.protocol] ∧
    valuesOf (ascii "host") attrs = [r.host] ∧ valuesOf (ascii "path") attrs = [path] ∧
    IsValue r.protocol ∧ IsValue r.host ∧ IsValue path ∧ path ≠ ascii ".git" ∧
    Stripped path r.path ∧
    (r.clientSupportsAuthtype = true ↔ (capabilities attrs).getLast? = some (ascii "authtype"))

/-! ### One line -/

/-- How a recognised key is spelled. -/
def spelling : RequestKey → Bytes
  | .protocol => ascii "protocol"
  | .host => ascii "host"
  | .path => ascii "path"

theorem requestKey_eq_some_iff {bs : Bytes} {key : RequestKey} :
    requestKey bs = some key ↔ bs = spelling key := by
  unfold requestKey
  constructor
  · intro h
    split at h
    · cases h
      assumption
    · split at h
      · cases h
        assumption
      · split at h
        · cases h
          assumption
        · cases h
  · rintro rfl
    cases key <;> decide

theorem spelling_inj {key key' : RequestKey} (h : spelling key = spelling key') : key = key' := by
  revert h
  cases key <;> cases key' <;> decide

theorem spelling_ne_capability (key : RequestKey) : ascii "capability[]" ≠ spelling key := by
  cases key <;> decide

/-- What the flag is after some attributes. -/
def authtypeAfter (flag : Bool) (attrs : List Attribute) : Bool :=
  match (capabilities attrs).getLast? with
  | none => flag
  | some v => v = ascii "authtype"

/-- **What has been read after some attributes**, beginning with what had been read before:
every slot has the values of its key, of which there is then at most one. -/
structure Reads (f : Fields) (attrs : List Attribute) (f' : Fields) : Prop where
  /-- The slots. -/
  slot : ∀ key, (f'.get key).toList = (f.get key).toList ++ valuesOf (spelling key) attrs
  /-- The values are as they should be. -/
  value : ∀ key, ∀ v ∈ valuesOf (spelling key) attrs, IsValue v
  /-- The flag. -/
  flag : f'.clientSupportsAuthtype = authtypeAfter f.clientSupportsAuthtype attrs

section Lines

variable {f f' : Fields} {a : Attribute} {attrs : List Attribute} {lineNo : ℕ}

theorem toList_inj {o o' : Option Bytes} (h : o.toList = o'.toList) : o = o' := by
  cases o <;> cases o' <;> simp_all

theorem toList_head? {l : List Bytes} (h : l.length ≤ 1) : l.head?.toList = l := by
  rcases l with - | ⟨v, - | ⟨w, l⟩⟩
  · rfl
  · rfl
  · simp at h

theorem Fields.ext_get (hget : ∀ key, f.get key = f'.get key)
    (hflag : f.clientSupportsAuthtype = f'.clientSupportsAuthtype) : f = f' := by
  obtain ⟨protocol, host, path, flag⟩ := f
  obtain ⟨protocol', host', path', flag'⟩ := f'
  obtain rfl : protocol = protocol' := hget .protocol
  obtain rfl : host = host' := hget .host
  obtain rfl : path = path' := hget .path
  obtain rfl : flag = flag' := hflag
  rfl

/-- What has been read is determined by the attributes. -/
theorem Reads.unique {f'' : Fields} (h : Reads f attrs f') (h' : Reads f attrs f'') : f' = f'' :=
  Fields.ext_get (fun key => toList_inj ((h.slot key).trans (h'.slot key).symm))
    (h.flag.trans h'.flag.symm)

theorem Fields.get_set (key key' : RequestKey) (v : Bytes) :
    (f.set v key).get key' = if key = key' then some v else f.get key' := by
  cases key <;> cases key' <;> rfl

theorem firstControlByte_line (a : Attribute) : firstControlByte a.line = none := by
  unfold firstControlByte
  rw [List.find?_eq_none]
  rintro ⟨b, i⟩ hmem
  obtain ⟨hnul, hcr, -⟩ := a.clean b (List.fst_mem_of_mem_zipIdx hmem)
  simp [hnul, hcr]

theorem parseLine_line : parseLine f lineNo a.line =
    if a.key = ascii "capability[]" then
      if a.value = [] then .ok { f with clientSupportsAuthtype := false }
      else if a.value = ascii "authtype" then .ok { f with clientSupportsAuthtype := true }
      else .ok f
    else match requestKey a.key with
      | none => .ok f
      | some key => setValue f key a.value := by
  unfold parseLine
  rw [firstControlByte_line, Attribute.line, splitOnce_append a.eq_notMem]
  exact if_neg a.key_ne

/-- A line that is accepted is the line of an attribute. -/
theorem exists_attribute_of_parseLine {line : Bytes} (hlf : lf ∉ line)
    (h : parseLine f lineNo line = .ok f') : ∃ a : Attribute, a.line = line := by
  unfold parseLine at h
  split at h
  · cases h
  · rename_i hcontrol
    split at h
    · cases h
    · rename_i key value hsplit
      obtain ⟨rfl, heq⟩ := splitOnce_eq_some_iff.mp hsplit
      split at h
      · cases h
      · rename_i hne
        refine ⟨⟨key, value, hne, heq, fun b hb => ?_⟩, rfl⟩
        have hb' : ¬(b = 0x00 ∨ b = cr) := by
          obtain ⟨i, hi, hget⟩ := List.getElem_of_mem hb
          have hnone := List.find?_eq_none.mp hcontrol (b, i)
            (List.mk_mem_zipIdx_iff_getElem?.mpr (hget ▸ List.getElem?_eq_getElem hi))
          simpa using hnone
        exact ⟨fun h => hb' (.inl h), fun h => hb' (.inr h), fun h => hlf (h ▸ hb)⟩

theorem setValue_eq_ok_iff {key : RequestKey} {v : Bytes} :
    setValue f key v = .ok f' ↔ f.get key = none ∧ IsValue v ∧ f' = f.set v key := by
  unfold setValue IsValue
  constructor
  · intro h
    split at h
    · cases h
    · rename_i hslot
      split at h
      · cases h
      · rename_i hlen
        split at h
        · cases h
        · rename_i hne
          split at h
          · cases h
          · rename_i v' hutf8
            cases h
            obtain rfl := fromUtf8_eq_ok hutf8
            exact ⟨by simpa using hslot, ⟨hne, Nat.not_lt.mp hlen, hutf8⟩, rfl⟩
  · rintro ⟨hslot, ⟨hne, hlen, hutf8⟩, rfl⟩
    rw [if_neg (by simp [hslot]), if_neg (show ¬maxValueBytes < v.length from Nat.not_lt.mpr hlen),
      if_neg hne, hutf8]

/-- An attribute whose key is not recognised fills no slot. -/
theorem valuesOf_singleton_of_ne {key : RequestKey} (h : a.key ≠ spelling key) :
    valuesOf (spelling key) [a] = [] := by
  simp [valuesOf, h]

theorem valuesOf_singleton_self {key : Bytes} (h : a.key = key) : valuesOf key [a] = [a.value] := by
  simp [valuesOf, h]

/-- An attribute that is no capability leaves the flag. -/
theorem authtypeAfter_singleton_of_ne {flag : Bool} (h : a.key ≠ ascii "capability[]") :
    authtypeAfter flag [a] = flag := by
  simp [authtypeAfter, capabilities, valuesOf, h]

/-- **One line is read as one attribute.** -/
theorem reads_of_parseLine (h : parseLine f lineNo a.line = .ok f') : Reads f [a] f' := by
  rw [parseLine_line] at h
  by_cases hcap : a.key = ascii "capability[]"
  · -- a capability fills no slot
    have hnone : ∀ key, valuesOf (spelling key) [a] = [] := fun key =>
      valuesOf_singleton_of_ne (hcap ▸ spelling_ne_capability key)
    obtain ⟨flag, hflag, rfl⟩ : ∃ flag, flag = authtypeAfter f.clientSupportsAuthtype [a] ∧
        f' = { f with clientSupportsAuthtype := flag } := by
      refine ⟨_, rfl, ?_⟩
      rw [if_pos hcap] at h
      rw [authtypeAfter, capabilities, valuesOf_singleton_self hcap]
      split at h
      · rename_i hv
        cases h
        simp [hv]
        decide
      · rename_i hne
        split at h
        · rename_i hv
          cases h
          simp [hv]
        · rename_i hv
          cases h
          simp [hne, hv]
    refine ⟨fun key => ?_, fun key v hv => by simp [hnone] at hv, hflag⟩
    rw [hnone, List.append_nil]
    cases key <;> rfl
  · rw [if_neg hcap] at h
    split at h
    · -- neither does a key that is not recognised
      rename_i hkey
      cases h
      have hnone : ∀ key, valuesOf (spelling key) [a] = [] := fun key =>
        valuesOf_singleton_of_ne fun he => by
          rw [requestKey_eq_some_iff.mpr he] at hkey
          cases hkey
      exact ⟨fun key => by rw [hnone, List.append_nil], fun key v hv => by simp [hnone] at hv,
        (authtypeAfter_singleton_of_ne hcap).symm⟩
    · rename_i key hkey
      have hspell := requestKey_eq_some_iff.mp hkey
      obtain ⟨hslot, hvalue, rfl⟩ := setValue_eq_ok_iff.mp h
      refine ⟨fun key' => ?_, fun key' v hv => ?_, ?_⟩
      · rw [Fields.get_set]
        split
        · rename_i heq
          subst heq
          rw [hslot, valuesOf_singleton_self hspell]
          rfl
        · rename_i hne
          rw [valuesOf_singleton_of_ne fun he => hne (spelling_inj (hspell.symm.trans he)),
            List.append_nil]
      · rw [valuesOf] at hv
        simp only [List.filter_cons, List.filter_nil] at hv
        split at hv
        · obtain rfl : v = a.value := by simpa using hv
          exact hvalue
        · simp at hv
      · rw [authtypeAfter_singleton_of_ne hcap]
        cases key <;> rfl

/-- And every attribute that can be read is. -/
theorem parseLine_of_reads (h : Reads f [a] f') : parseLine f lineNo a.line = .ok f' := by
  obtain ⟨f'', hok⟩ : ∃ f'', parseLine f lineNo a.line = .ok f'' := by
    rw [parseLine_line]
    split
    · split
      · exact ⟨_, rfl⟩
      · split <;> exact ⟨_, rfl⟩
    · split
      · exact ⟨_, rfl⟩
      · rename_i key hkey
        have hspell := requestKey_eq_some_iff.mp hkey
        have hslot := h.slot key
        rw [valuesOf_singleton_self hspell] at hslot
        have hvalue := h.value key a.value (by simp [valuesOf_singleton_self hspell])
        refine ⟨_, setValue_eq_ok_iff.mpr ⟨?_, hvalue, rfl⟩⟩
        -- the slot has one value, so there was none before
        rcases hget : f.get key with - | v
        · rfl
        · rw [hget] at hslot
          have hlen := congrArg List.length hslot
          cases hf' : f'.get key <;> simp [hf'] at hlen
  rw [hok, (reads_of_parseLine hok).unique h]

theorem parseLine_line_iff : parseLine f lineNo a.line = .ok f' ↔ Reads f [a] f' :=
  ⟨reads_of_parseLine, parseLine_of_reads⟩

/-! ### The loop -/

theorem valuesOf_append (key : Bytes) (attrs attrs' : List Attribute) :
    valuesOf key (attrs ++ attrs') = valuesOf key attrs ++ valuesOf key attrs' := by
  simp [valuesOf]

theorem authtypeAfter_append (flag : Bool) (attrs attrs' : List Attribute) :
    authtypeAfter flag (attrs ++ attrs') = authtypeAfter (authtypeAfter flag attrs) attrs' := by
  have hcaps : capabilities (attrs ++ attrs') = capabilities attrs ++ capabilities attrs' := by
    simp [capabilities, valuesOf_append]
  simp only [authtypeAfter, hcaps, List.getLast?_append]
  cases (capabilities attrs').getLast? <;> rfl

/-- **What is read splits along the attributes.** -/
theorem reads_append_iff {attrs' : List Attribute} :
    Reads f (attrs ++ attrs') f' ↔ ∃ f₁, Reads f attrs f₁ ∧ Reads f₁ attrs' f' := by
  constructor
  · intro h
    have hslot : ∀ key, (f'.get key).toList =
        (f.get key).toList ++ valuesOf (spelling key) attrs ++ valuesOf (spelling key) attrs' := by
      intro key
      rw [h.slot, valuesOf_append, List.append_assoc]
    -- what is in a slot in between: there is room for one value only
    let slot (key : RequestKey) := ((f.get key).toList ++ valuesOf (spelling key) attrs).head?
    have hroom : ∀ key, (slot key).toList =
        (f.get key).toList ++ valuesOf (spelling key) attrs := by
      intro key
      have hlen := congrArg List.length (hslot key)
      rw [List.length_append] at hlen
      have hone : (f'.get key).toList.length ≤ 1 := by cases f'.get key <;> simp
      exact toList_head? (by omega)
    refine ⟨⟨slot .protocol, slot .host, slot .path,
      authtypeAfter f.clientSupportsAuthtype attrs⟩, ⟨fun key => ?_, fun key v hv => ?_, rfl⟩,
      ⟨fun key => ?_, fun key v hv => ?_, ?_⟩⟩
    · rw [← hroom]
      cases key <;> rfl
    · exact h.value key v (valuesOf_append _ _ _ ▸ List.mem_append_left _ hv)
    · rw [hslot, ← hroom]
      cases key <;> rfl
    · exact h.value key v (valuesOf_append _ _ _ ▸ List.mem_append_right _ hv)
    · rw [h.flag, authtypeAfter_append]
  · rintro ⟨f₁, h, h'⟩
    refine ⟨fun key => ?_, fun key v hv => ?_, ?_⟩
    · rw [h'.slot, h.slot, valuesOf_append, List.append_assoc]
    · rw [valuesOf_append] at hv
      exact (List.mem_append.mp hv).elim (h.value key v) (h'.value key v)
    · rw [h'.flag, h.flag, authtypeAfter_append]

theorem reads_nil_iff : Reads f [] f' ↔ f = f' := by
  have hnil : Reads f [] f :=
    ⟨fun key => (List.append_nil _).symm, fun key v hv => by simp [valuesOf] at hv, rfl⟩
  exact ⟨fun h => hnil.unique h, fun h => h ▸ hnil⟩

/-- **The loop reads the attributes of its lines.** -/
theorem parseLines_iff (f : Fields) (lineNo : ℕ) (attrs : List Attribute) :
    parseLines f lineNo (attrs.map Attribute.line) = .ok f' ↔ Reads f attrs f' := by
  induction attrs generalizing f lineNo with
  | nil =>
    rw [reads_nil_iff, List.map_nil, parseLines]
    exact ⟨fun h => Except.ok.inj h, fun h => congrArg _ h⟩
  | cons a attrs ih =>
    rw [← List.singleton_append, reads_append_iff, List.map_append, List.map_singleton,
      List.singleton_append, parseLines]
    constructor
    · intro h
      split at h
      · cases h
      · rename_i f₁ hline
        exact ⟨f₁, parseLine_line_iff.mp hline, (ih f₁ _).mp h⟩
    · rintro ⟨f₁, hline, hrest⟩
      rw [parseLine_line_iff.mpr hline]
      exact (ih f₁ _).mpr hrest

/-- Lines that are all accepted are the lines of attributes. -/
theorem exists_attributes_of_parseLines {lines : List Bytes} (hlf : ∀ line ∈ lines, lf ∉ line)
    (h : parseLines f lineNo lines = .ok f') :
    ∃ attrs : List Attribute, attrs.map Attribute.line = lines := by
  induction lines generalizing f lineNo with
  | nil => exact ⟨[], rfl⟩
  | cons line lines ih =>
    rw [parseLines] at h
    split at h
    · cases h
    · rename_i f₁ hline
      obtain ⟨a, rfl⟩ := exists_attribute_of_parseLine (hlf line List.mem_cons_self) hline
      obtain ⟨attrs, rfl⟩ := ih (fun l hl => hlf l (List.mem_cons_of_mem _ hl)) h
      exact ⟨a :: attrs, rfl⟩

end Lines

/-! ### The end of the block -/

section Block

variable {attrs : List Attribute} {input : Bytes} {n : ℕ}

theorem Attribute.lf_notMem_line (a : Attribute) : lf ∉ a.line :=
  fun h => (a.clean lf h).2.2 rfl

theorem Attribute.line_ne_nil (a : Attribute) : a.line ≠ [] := by
  simp [Attribute.line]

/-- Where the first blank line begins: two line feeds, and nowhere before. -/
theorem eq_of_blankLine (h : blankLine input = some n) :
    ∃ rest, input = input.take n ++ lf :: lf :: rest := by
  fun_induction blankLine input generalizing n with
  | case1 b c bs hlf =>
    obtain ⟨rfl, rfl⟩ := hlf
    cases h
    exact ⟨bs, rfl⟩
  | case2 b c bs hlf ih =>
    obtain ⟨m, hm, rfl⟩ := Option.map_eq_some_iff.mp h
    obtain ⟨rest, hrest⟩ := ih hm
    exact ⟨rest, by rw [List.take_succ_cons, List.cons_append, ← hrest]⟩
  | case3 => cases h

/-- A line of its own does not hold a blank line. -/
theorem blankLine_append {l bs : Bytes} (hl : lf ∉ l) :
    blankLine (l ++ lf :: bs) =
      if bs.head? = some lf then some l.length
      else (blankLine bs).map (· + (l.length + 1)) := by
  induction l with
  | nil =>
    cases bs with
    | nil => rfl
    | cons b bs =>
      by_cases hb : b = lf
      · simp [blankLine, hb]
      · simp [blankLine, hb]
  | cons b l ih =>
    have hb : b ≠ lf := fun he => hl (he ▸ List.mem_cons_self)
    have ih' := ih fun hm => hl (List.mem_cons_of_mem _ hm)
    obtain ⟨c, cs, hc⟩ : ∃ c cs, l ++ lf :: bs = c :: cs := by
      cases l with
      | nil => exact ⟨lf, bs, rfl⟩
      | cons c l => exact ⟨c, l ++ lf :: bs, rfl⟩
    rw [List.cons_append, hc, blankLine, if_neg fun h => hb h.1, ← hc, ih']
    split
    · rfl
    · cases blankLine bs <;> simp [Nat.add_assoc]

theorem render_cons (a : Attribute) (attrs : List Attribute) :
    render (a :: attrs) = a.line ++ lf :: render attrs := by
  simp [render]

/-- Attributes do not begin with a line feed. -/
theorem head?_render_cons (a : Attribute) (attrs : List Attribute) (bs : Bytes) :
    (render (a :: attrs) ++ bs).head? ≠ some lf := by
  obtain ⟨b, l, hline⟩ := List.exists_cons_of_ne_nil a.line_ne_nil
  have hb : b ≠ lf := fun he => a.lf_notMem_line (by rw [hline, he]; exact List.mem_cons_self)
  simp [render_cons, hline, hb]

/-- Attributes on lines of their own have no blank line between them. -/
theorem blankLine_render : blankLine (render attrs) = none := by
  induction attrs with
  | nil => rfl
  | cons a attrs ih =>
    have hhead : (render attrs).head? ≠ some lf := by
      cases attrs with
      | nil => simp [render]
      | cons b attrs => simpa using head?_render_cons b attrs []
    rw [render_cons, blankLine_append a.lf_notMem_line, if_neg hhead, ih]
    rfl

/-- The blank line after the attributes is where they end. -/
theorem blankLine_render_lf (hne : attrs ≠ []) :
    blankLine (render attrs ++ [lf]) = some ((render attrs).length - 1) := by
  induction attrs with
  | nil => exact absurd rfl hne
  | cons a attrs ih =>
    rw [render_cons, List.append_assoc, List.cons_append, blankLine_append a.lf_notMem_line]
    rcases attrs with - | ⟨b, attrs⟩
    · simp [render]
    · have hlen : 0 < (render (b :: attrs)).length := by
        simp only [render_cons, List.length_append, List.length_cons]
        omega
      rw [if_neg (head?_render_cons b attrs [lf]), ih (by simp)]
      simp only [Option.map_some, List.length_append, List.length_cons, Option.some.injEq]
      omega

/-- The block of the attributes, without its last line feed. -/
theorem render_eq_intercalate (hne : attrs ≠ []) :
    render attrs = [lf].intercalate (attrs.map Attribute.line) ++ [lf] := by
  induction attrs with
  | nil => exact absurd rfl hne
  | cons a attrs ih =>
    rcases attrs with - | ⟨b, attrs⟩
    · simp [render]
    · rw [render_cons, ih (by simp)]
      simp

/-- **Where a block ends**: what stands before is the lines of the block, and nothing comes
after one or two line feeds. -/
theorem eq_of_blockEnd (h : blockEnd input = .ok n) :
    input = input.take n ++ [lf] ∨ input = input.take n ++ [lf, lf] := by
  unfold blockEnd at h
  split at h
  · rename_i pos hpos
    split at h
    · cases h
    · rename_i hlen
      cases h
      obtain ⟨rest, hrest⟩ := eq_of_blankLine hpos
      have hlen' := congrArg List.length hrest
      simp only [List.length_append, List.length_take, List.length_cons] at hlen'
      obtain rfl : rest = [] := List.length_eq_zero_iff.mp (by omega)
      exact .inr hrest
  · split at h
    · rename_i hlast
      cases h
      obtain ⟨init, rfl⟩ := List.getLast?_eq_some_iff.mp hlast
      exact .inl (by simp)
    · cases h

/-- The block of some attributes ends where their lines end. -/
theorem blockEnd_of_spells (h : Spells input attrs) :
    ∃ n, blockEnd input = .ok n ∧
      input.take n = [lf].intercalate (attrs.map Attribute.line) := by
  have hrender := render_eq_intercalate h.ne_nil
  refine ⟨([lf].intercalate (attrs.map Attribute.line)).length, ?_⟩
  rcases h.eq with rfl | rfl
  · rw [blockEnd, blankLine_render]
    simp [hrender]
  · rw [blockEnd, blankLine_render_lf h.ne_nil]
    simp [hrender]

end Block

/-! ### The whole block -/

theorem stripGit_eq_ok_iff {path stripped : Bytes} :
    stripGit path = .ok stripped ↔ path ≠ ascii ".git" ∧ Stripped path stripped := by
  unfold stripGit Stripped
  split
  · rename_i hsuffix
    obtain ⟨init, rfl⟩ := hsuffix
    have htake : (init ++ ascii ".git").take ((init ++ ascii ".git").length - 4) = init := by
      rw [List.length_append, show (ascii ".git").length = 4 from rfl, Nat.add_sub_cancel,
        List.take_left]
    rw [htake]
    simp only
    split
    · rename_i hinit
      simp [hinit]
    · rename_i hinit
      simp [hinit]
  · rename_i hsuffix
    constructor
    · intro h
      cases h
      exact ⟨fun he => hsuffix (he ▸ List.suffix_rfl), rfl⟩
    · rintro ⟨-, rfl⟩
      rfl

theorem ofFields_eq_ok_iff {f : Fields} {r : Request} :
    ofFields f = .ok r ↔ ∃ path, f.protocol = some r.protocol ∧ f.host = some r.host ∧
      f.path = some path ∧ path ≠ ascii ".git" ∧ Stripped path r.path ∧
      f.clientSupportsAuthtype = r.clientSupportsAuthtype := by
  unfold ofFields
  constructor
  · intro h
    split at h
    · cases h
    · rename_i protocol hprotocol
      split at h
      · cases h
      · rename_i host hhost
        split at h
        · cases h
        · rename_i path hpath
          split at h
          · cases h
          · rename_i stripped hstrip
            cases h
            obtain ⟨hne, hstripped⟩ := stripGit_eq_ok_iff.mp hstrip
            exact ⟨path, hprotocol, hhost, hpath, hne, hstripped, rfl⟩
  · rintro ⟨path, hprotocol, hhost, hpath, hne, hstripped, hflag⟩
    rw [hprotocol, hhost, hpath]
    simp only [stripGit_eq_ok_iff.mpr ⟨hne, hstripped⟩, hflag]

/-- **What is read of the whole block is what the block denotes.** -/
theorem denotes_iff {attrs : List Attribute} {r : Request} :
    Denotes attrs r ↔ ∃ f, Reads {} attrs f ∧ ofFields f = .ok r := by
  have hget : ∀ {o : Option Bytes} {vs : List Bytes} {v : Bytes}, o.toList = vs →
      (o = some v ↔ vs = [v]) := by
    rintro o vs v rfl
    cases o <;> simp
  constructor
  · rintro ⟨path, hprotocol, hhost, hpath, hp, hh, hpa, hne, hstripped, hflag⟩
    refine ⟨⟨some r.protocol, some r.host, some path, r.clientSupportsAuthtype⟩,
      ⟨fun key => ?_, fun key v hv => ?_, ?_⟩, ofFields_eq_ok_iff.mpr ⟨path, rfl, rfl, rfl, hne,
      hstripped, rfl⟩⟩
    · cases key
      · exact hprotocol.symm
      · exact hhost.symm
      · exact hpath.symm
    · cases key <;> simp only [spelling, hprotocol, hhost, hpath, List.mem_singleton] at hv <;>
        subst hv <;> assumption
    · -- the flag begins unset, so it is set by the last capability that counts
      rw [Bool.eq_iff_iff, hflag, authtypeAfter]
      cases hlast : (capabilities attrs).getLast? <;> simp
  · rintro ⟨f, hreads, hof⟩
    obtain ⟨path, hprotocol, hhost, hpath, hne, hstripped, hflag⟩ := ofFields_eq_ok_iff.mp hof
    have hslots : ∀ key v, f.get key = some v → valuesOf (spelling key) attrs = [v] := by
      intro key v hv
      have hslot := hreads.slot key
      rw [show (({} : Fields).get key).toList = [] by cases key <;> rfl, List.nil_append] at hslot
      exact (hget hslot).mp hv
    have hvalues : ∀ key v, f.get key = some v → IsValue v := fun key v hv =>
      hreads.value key v (by simp [hslots key v hv])
    refine ⟨path, hslots .protocol _ hprotocol, hslots .host _ hhost, hslots .path _ hpath,
      hvalues .protocol _ hprotocol, hvalues .host _ hhost, hvalues .path _ hpath, hne, hstripped,
      ?_⟩
    rw [← hflag, hreads.flag, authtypeAfter]
    cases hlast : (capabilities attrs).getLast? <;> simp

/-- **The parser accepts exactly the language of request blocks.** -/
theorem parse_eq_ok_iff {input : Bytes} {r : Request} :
    parse input = .ok r ↔ ∃ attrs, Spells input attrs ∧ Denotes attrs r := by
  constructor
  · intro h
    unfold parse at h
    split at h
    · cases h
    · rename_i hlen
      split at h
      · cases h
      · rename_i n hend
        split at h
        · cases h
        · rename_i f hlines
          obtain ⟨attrs, hattrs⟩ := exists_attributes_of_parseLines
            (fun line hline => notMem_of_mem_splitOn hline) hlines
          rw [← hattrs, parseLines_iff] at hlines
          have hne : attrs ≠ [] := by
            rintro rfl
            exact List.splitOn_ne_nil _ _ hattrs.symm
          have hblock : render attrs = input.take n ++ [lf] := by
            rw [render_eq_intercalate hne, hattrs, List.intercalate_splitOn]
          refine ⟨attrs, ⟨Nat.not_lt.mp hlen, hne, ?_⟩, denotes_iff.mpr ⟨f, hlines, h⟩⟩
          rw [hblock, List.append_assoc]
          exact eq_of_blockEnd hend
  · rintro ⟨attrs, hspells, hdenotes⟩
    obtain ⟨n, hend, htake⟩ := blockEnd_of_spells hspells
    obtain ⟨f, hreads, hof⟩ := denotes_iff.mp hdenotes
    have hlines : (input.take n).splitOn lf = attrs.map Attribute.line := by
      rw [htake]
      refine List.splitOn_intercalate lf (fun l hl => ?_) (by simpa using hspells.ne_nil)
      obtain ⟨a, -, rfl⟩ := List.mem_map.mp hl
      exact a.lf_notMem_line
    unfold parse
    rw [if_neg (show ¬parserHardMax < input.length from Nat.not_lt.mpr hspells.length_le), hend]
    simp only [hlines, (parseLines_iff {} 1 attrs).mpr hreads, hof]

/-! ### What a line can influence -/

/-- The lines of an input that begin with a key and `=`. -/
def linesOf (key input : Bytes) : List Bytes :=
  (input.splitOn lf).filter fun line => (key ++ [0x3D]).isPrefixOf line

theorem splitOn_render_append (attrs : List Attribute) (bs : Bytes) :
    (render attrs ++ bs).splitOn lf = attrs.map Attribute.line ++ bs.splitOn lf := by
  induction attrs with
  | nil => rfl
  | cons a attrs ih =>
    rw [render_cons, List.append_assoc, List.cons_append,
      List.splitOn_append_cons_self_of_not_mem a.lf_notMem_line, ih]
    rfl

/-- The line of an attribute begins with its key, and with no other. -/
theorem isPrefixOf_line_iff {key : Bytes} (hkey : 0x3D ∉ key) (a : Attribute) :
    (key ++ [0x3D]).isPrefixOf a.line = true ↔ a.key = key := by
  rw [List.isPrefixOf_iff_prefix]
  constructor
  · rintro ⟨rest, hrest⟩
    have hsplit := splitOnce_append hkey rest
    rw [List.append_cons, hrest, Attribute.line, splitOnce_append a.eq_notMem] at hsplit
    exact (Prod.mk.inj (Option.some.inj hsplit)).1
  · rintro rfl
    exact ⟨a.value, (List.append_cons ..).symm⟩

/-- The lines of a key, in the block of some attributes. -/
theorem linesOf_of_spells {key input : Bytes} (hkey : 0x3D ∉ key) {attrs : List Attribute}
    (h : Spells input attrs) :
    linesOf key input = (valuesOf key attrs).map fun v => key ++ 0x3D :: v := by
  have hnone : ∀ ls : List Bytes, (∀ l ∈ ls, l = []) →
      ls.filter (fun line => (key ++ [0x3D]).isPrefixOf line) = [] := by
    intro ls hls
    rw [List.filter_eq_nil_iff]
    intro l hl
    rw [hls l hl]
    cases key <;> simp
  have hlines : (attrs.map Attribute.line).filter
      (fun line => (key ++ [0x3D]).isPrefixOf line) =
      (valuesOf key attrs).map fun v => key ++ 0x3D :: v := by
    rw [List.filter_map, valuesOf, List.map_map]
    have hsame : ∀ a ∈ attrs, ((fun line => (key ++ [0x3D]).isPrefixOf line) ∘ Attribute.line) a =
        decide (a.key = key) := by
      intro a _
      rw [Bool.eq_iff_iff, decide_eq_true_iff]
      exact isPrefixOf_line_iff hkey a
    rw [List.filter_congr hsame]
    refine List.map_congr_left fun a ha => ?_
    have hakey : a.key = key := by simpa using (List.mem_filter.mp ha).2
    simp [Attribute.line, hakey]
  unfold linesOf
  rcases h.eq with rfl | rfl
  · rw [← List.append_nil (render attrs), splitOn_render_append, List.filter_append, hlines,
      hnone _ (by simp), List.append_nil]
  · rw [splitOn_render_append, List.filter_append, hlines, hnone _ (by decide), List.append_nil]

/-- A value of some attributes is on a line of theirs. -/
theorem exists_attribute_of_valuesOf {key v : Bytes} {attrs : List Attribute}
    (h : valuesOf key attrs = [v]) : ∃ a ∈ attrs, a.value = v := by
  have hmem : v ∈ valuesOf key attrs := by simp [h]
  obtain ⟨a, ha, rfl⟩ := List.mem_map.mp hmem
  exact ⟨a, (List.mem_filter.mp ha).1, rfl⟩

/-- No value ends its line. -/
theorem clean_of_valuesOf {key v : Bytes} {attrs : List Attribute} (h : valuesOf key attrs = [v]) :
    ∀ b ∈ v, b ≠ 0x00 ∧ b ≠ cr ∧ b ≠ lf := by
  obtain ⟨a, -, rfl⟩ := exists_attribute_of_valuesOf h
  exact fun b hb => a.clean b (List.mem_append_right _ (List.mem_cons_of_mem _ hb))

theorem Stripped.subset {path stripped : Bytes} (h : Stripped path stripped) : stripped ⊆ path := by
  unfold Stripped at h
  split at h
  · exact h ▸ List.subset_append_left _ _
  · exact h ▸ List.Subset.refl _

theorem Stripped.unique {path s s' : Bytes} (h : Stripped path s) (h' : Stripped path s') :
    s = s' := by
  unfold Stripped at h h'
  split at h
  · rename_i hsuffix
    rw [if_pos hsuffix] at h'
    exact List.append_cancel_right (h.symm.trans h')
  · rename_i hsuffix
    rw [if_neg hsuffix] at h'
    exact h.symm.trans h'

/-- **The parser accepts exactly its grammar**, for every string of bytes:

* a request is parsed if and only if the input spells attributes that denote it;
* no field of it has a `CR`, an `LF` or a `NUL`; and
* its host depends on the `host` line alone, and its path on the `path` line alone. -/
theorem parse_accepts_exactly :
    (∀ input r, parse input = .ok r ↔ ∃ attrs, Spells input attrs ∧ Denotes attrs r) ∧
    (∀ input r, parse input = .ok r → ∀ b ∈ r.protocol ++ r.host ++ r.path,
      b ≠ 0x00 ∧ b ≠ cr ∧ b ≠ lf) ∧
    ∀ input input' r r', parse input = .ok r → parse input' = .ok r' →
      (linesOf (ascii "host") input = linesOf (ascii "host") input' → r.host = r'.host) ∧
      (linesOf (ascii "path") input = linesOf (ascii "path") input' → r.path = r'.path) := by
  refine ⟨fun input r => parse_eq_ok_iff, fun input r h b hb => ?_,
    fun input input' r r' h h' => ?_⟩
  · obtain ⟨attrs, -, path, hprotocol, hhost, hpath, -, -, -, -, hstripped, -⟩ :=
      parse_eq_ok_iff.mp h
    rw [List.append_assoc, List.mem_append, List.mem_append] at hb
    rcases hb with hb | hb | hb
    · exact clean_of_valuesOf hprotocol b hb
    · exact clean_of_valuesOf hhost b hb
    · exact clean_of_valuesOf hpath b (hstripped.subset hb)
  · obtain ⟨attrs, hspells, path, -, hhost, hpath, -, -, -, -, hstripped, -⟩ :=
      parse_eq_ok_iff.mp h
    obtain ⟨attrs', hspells', path', -, hhost', hpath', -, -, -, -, hstripped', -⟩ :=
      parse_eq_ok_iff.mp h'
    refine ⟨fun heq => ?_, fun heq => ?_⟩
    · rw [linesOf_of_spells (by decide) hspells, linesOf_of_spells (by decide) hspells', hhost,
        hhost'] at heq
      simpa using heq
    · rw [linesOf_of_spells (by decide) hspells, linesOf_of_spells (by decide) hspells', hpath,
        hpath'] at heq
      obtain rfl : path = path' := by simpa using heq
      exact hstripped.unique hstripped'

example : parse (ascii "capability[]=authtype\nprotocol=https\nhost=github.com\npath=a/b.git\n\n") =
    .ok ⟨ascii "https", ascii "github.com", ascii "a/b", true⟩ := by decide +kernel

end Request

end Symbolon
