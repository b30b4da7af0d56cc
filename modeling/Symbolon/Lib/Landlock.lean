import Mathlib.Data.List.Infix
import Mathlib.Logic.Function.Basic

/-!
# Files behind Landlock

What a process may do to the files of a system once it has restricted itself, as the kernel
decides it. A **ruleset** (`Landlock.Ruleset`) handles some of the rights and has rules that
grant rights beneath a directory, or on a file. A right that is handled is needed at a place, and
there if a rule covers the place. What is needed where is said by `Landlock.State.next`, for the
operations on regular files: opening is checked, what has been opened stays open; a name is given
or taken away in a directory; a file gets a name in another directory only if both directories
may be referred to. Looking at a file from outside is not checked. Directories are where they are;
links of other kinds are left out, they need rights of their own.

The rules are about places, and a process that may rename and link can change what is where.
Still, if whatever lets it do so in a directory also lets it read there, an operation never lets it
get at more files than before, but for those it makes (`Landlock.Reaches.of_effect`). So what it
sees depends on nothing else than the size of the others (`Landlock.Alike.run`), and it cannot
change the others either (`Landlock.content_of_run`). In a directory where it has all rights it is
not hindered at all (`Landlock.next_eq_of_grants`).
-/

namespace Landlock

/-- The rights over files and directories. -/
inductive Right
  /-- Execute a file. -/
  | execute
  /-- Open a file for writing. -/
  | writeFile
  /-- Open a file for reading. -/
  | readFile
  /-- Open a directory. -/
  | readDir
  /-- Remove a directory. -/
  | removeDir
  /-- Remove a file. -/
  | removeFile
  /-- Make a character device. -/
  | makeChar
  /-- Make a directory. -/
  | makeDir
  /-- Make a regular file. -/
  | makeReg
  /-- Make a socket. -/
  | makeSock
  /-- Make a pipe. -/
  | makeFifo
  /-- Make a block device. -/
  | makeBlock
  /-- Make a symbolic link. -/
  | makeSym
  /-- Link or rename from one directory to another. -/
  | refer
  /-- Truncate a file. -/
  | truncate
  /-- Control a device. -/
  | ioctlDev
  deriving DecidableEq

variable {ν β : Type}

/-- An open file. -/
structure Handle where
  /-- Its number. -/
  inode : ℕ
  /-- It was opened for reading. -/
  reads : Bool
  /-- It was opened for writing. -/
  writes : Bool
  deriving DecidableEq

/-- **The files**, at places named by the components from the root, and a process. -/
structure State (ν β : Type) where
  /-- Which places are directories. -/
  isDir : List ν → Bool
  /-- The file at a place. -/
  entry : List ν → Option ℕ
  /-- What is in a file. -/
  content : ℕ → List β
  /-- The numbers from here on are free. -/
  free : ℕ
  /-- What the process has opened. -/
  handles : List Handle

/-- What a rule is about. -/
inductive Object (ν : Type)
  /-- All beneath a directory. -/
  | dir (place : List ν)
  /-- A file. -/
  | file (inode : ℕ)
  deriving DecidableEq

/-- A rule. -/
structure Rule (ν : Type) where
  /-- What it is about. -/
  object : Object ν
  /-- What it grants. -/
  rights : List Right
  deriving DecidableEq

/-- **A ruleset.** -/
structure Ruleset (ν : Type) where
  /-- The rights that have to be granted. -/
  handled : List Right
  /-- The rules. -/
  rules : List (Rule ν)

/-- No restriction. -/
def Ruleset.none : Ruleset ν := ⟨[], []⟩

/-- The object covers the place. -/
def Object.Covers (entry : List ν → Option ℕ) (p : List ν) : Object ν → Prop
  | .dir d => d <+: p
  | .file i => entry p = some i

instance [DecidableEq ν] (entry : List ν → Option ℕ) (p : List ν) :
    DecidablePred (Object.Covers entry p)
  | .dir d => inferInstanceAs (Decidable (d <+: p))
  | .file i => inferInstanceAs (Decidable (entry p = some i))

/-- **The right is there at the place.** -/
def Ruleset.Permits (R : Ruleset ν) (entry : List ν → Option ℕ) (p : List ν) (r : Right) : Prop :=
  r ∈ R.handled → ∃ rule ∈ R.rules, r ∈ rule.rights ∧ rule.object.Covers entry p

instance [DecidableEq ν] (R : Ruleset ν) (entry : List ν → Option ℕ) (p : List ν) (r : Right) :
    Decidable (R.Permits entry p r) :=
  inferInstanceAs (Decidable (_ → _))

/-- All of the rights are there. -/
def Ruleset.Admits (R : Ruleset ν) (entry : List ν → Option ℕ) (p : List ν) (rs : List Right) :
    Prop :=
  ∀ r ∈ rs, R.Permits entry p r

instance [DecidableEq ν] (R : Ruleset ν) (entry : List ν → Option ℕ) (p : List ν)
    (rs : List Right) : Decidable (R.Admits entry p rs) :=
  inferInstanceAs (Decidable (∀ r ∈ rs, _))

/-! ### The operations -/

/-- How a file is opened. -/
structure Flags where
  /-- For reading. -/
  read : Bool
  /-- For writing. -/
  write : Bool
  /-- It may be created. -/
  create : Bool
  /-- It is emptied. -/
  truncate : Bool
  deriving DecidableEq

/-- The rights that opening a file needs. -/
def Flags.rights (f : Flags) : List Right :=
  (if f.read then [.readFile] else []) ++ (if f.write then [.writeFile] else [])

/-- What emptying it needs besides. -/
def Flags.emptying (f : Flags) : List Right := if f.truncate then [.truncate] else []

/-- The operations of a process. -/
inductive Op (ν β : Type)
  /-- Open a file. -/
  | openFile (p : List ν) (flags : Flags)
  /-- Open a directory. -/
  | openDir (p : List ν)
  /-- Ask for the size of a file. -/
  | stat (p : List ν)
  /-- Read what has been opened. -/
  | read (fd : ℕ)
  /-- Write to it. -/
  | write (fd : ℕ) (content : List β)
  /-- Remove a name. -/
  | unlink (p : List ν)
  /-- Give a file another name. -/
  | rename (p q : List ν)
  /-- Give a file one more name. -/
  | link (p q : List ν)

/-- What comes of it. -/
inductive Out (β : Type)
  /-- It is done. -/
  | ok
  /-- A file is open. -/
  | handle (fd : ℕ)
  /-- What was read. -/
  | data (content : List β)
  /-- The size. -/
  | size (n : ℕ)
  /-- The ruleset does not permit it. -/
  | denied
  /-- It cannot be done. -/
  | failed
  deriving DecidableEq

/-- What two directories need if a file goes from one to the other. -/
def crossing [DecidableEq ν] (p q : List ν) : List Right :=
  if p.dropLast = q.dropLast then [] else [.refer]

namespace State

/-- A file is open. -/
def hold (s : State ν β) (i : ℕ) (f : Flags) : State ν β :=
  { s with handles := s.handles ++ [⟨i, f.read, f.write⟩] }

/-- The file has been written. -/
def put (s : State ν β) (i : ℕ) (content : List β) : State ν β :=
  { s with content := Function.update s.content i content }

/-- The place stands for something else. -/
def setEntry [DecidableEq ν] (s : State ν β) (p : List ν) (e : Option ℕ) : State ν β :=
  { s with entry := Function.update s.entry p e }

/-- There is a new file. -/
def make [DecidableEq ν] (s : State ν β) (p : List ν) : State ν β :=
  { (s.setEntry p (some s.free)).put s.free [] with free := s.free + 1 }

/-- What a file that is already there needs to be replaced. -/
def replacing (s : State ν β) (p : List ν) : List Right :=
  if (s.entry p).isSome then [.removeFile] else []

/-- No name can be given there. -/
def Taken (s : State ν β) (p : List ν) : Prop :=
  s.isDir p = true ∨ s.isDir p.dropLast = false

instance (s : State ν β) (p : List ν) : Decidable (s.Taken p) :=
  inferInstanceAs (Decidable (_ ∨ _))

variable [DecidableEq ν]

/-- Opening a file. One that is created exists before it is opened. -/
def openFile (R : Ruleset ν) (s : State ν β) (p : List ν) (f : Flags) : State ν β × Out β :=
  match s.entry p with
  | some i =>
    if R.Admits s.entry p (f.rights ++ f.emptying) then
      ((if f.truncate then s.put i [] else s).hold i f, .handle s.handles.length)
    else (s, .denied)
  | none =>
    if f.create = false ∨ s.Taken p then (s, .failed)
    else if R.Permits s.entry p.dropLast .makeReg then
      if R.Admits (s.make p).entry p f.rights then
        ((s.make p).hold s.free f, .handle s.handles.length)
      else (s.make p, .denied)
    else (s, .denied)

/-- **One operation.** -/
def next (R : Ruleset ν) (s : State ν β) : Op ν β → State ν β × Out β
  | .openFile p flags => s.openFile R p flags
  | .openDir p =>
    if s.isDir p then if R.Permits s.entry p .readDir then (s, .ok) else (s, .denied)
    else (s, .failed)
  | .stat p =>
    match s.entry p with
    | some i => (s, .size (s.content i).length)
    | none => (s, .failed)
  | .read fd =>
    match s.handles[fd]? with
    | some h => if h.reads then (s, .data (s.content h.inode)) else (s, .failed)
    | none => (s, .failed)
  | .write fd content =>
    match s.handles[fd]? with
    | some h => if h.writes then (s.put h.inode content, .ok) else (s, .failed)
    | none => (s, .failed)
  | .unlink p =>
    match s.entry p with
    | some _ =>
      if R.Permits s.entry p.dropLast .removeFile then (s.setEntry p none, .ok) else (s, .denied)
    | none => (s, .failed)
  | .rename p q =>
    match s.entry p with
    | some i =>
      if s.Taken q then (s, .failed)
      else if R.Admits s.entry p.dropLast (.removeFile :: crossing p q) ∧
          R.Admits s.entry q.dropLast (.makeReg :: crossing p q ++ s.replacing q) then
        -- two names of one file: nothing happens
        if s.entry q = some i then (s, .ok) else ((s.setEntry q (some i)).setEntry p none, .ok)
      else (s, .denied)
    | none => (s, .failed)
  | .link p q =>
    match s.entry p with
    | some i =>
      if s.Taken q ∨ (s.entry q).isSome then (s, .failed)
      else if R.Admits s.entry p.dropLast (crossing p q) ∧
          R.Admits s.entry q.dropLast (.makeReg :: crossing p q) then
        (s.setEntry q (some i), .ok)
      else (s, .denied)
    | none => (s, .failed)

/-- The operations one after the other, and what came of them. -/
def run (R : Ruleset ν) (s : State ν β) : List (Op ν β) → State ν β × List (Out β)
  | [] => (s, [])
  | op :: ops =>
    let (s', out) := s.next R op
    let (s'', outs) := run R s' ops
    (s'', out :: outs)

end State

variable [DecidableEq ν] {R : Ruleset ν} {s s' : State ν β} {e e' : List ν → Option ℕ}
  {p q : List ν} {r : Right} {i : ℕ} {op : Op ν β} {ops : List (Op ν β)}

/-- **What an operation can do.** -/
inductive Effect (R : Ruleset ν) (s : State ν β) : State ν β → Prop
  /-- Nothing. -/
  | same : Effect R s s
  /-- A file is opened. -/
  | opened {p : List ν} {i : ℕ} {f : Flags} (hp : s.entry p = some i)
      (hf : R.Admits s.entry p f.rights)
      (ht : f.truncate = true → R.Permits s.entry p .truncate) :
      Effect R s ((if f.truncate then s.put i [] else s).hold i f)
  /-- A file is made. -/
  | made {p : List ν} (hp : s.entry p = none) (hmake : R.Permits s.entry p.dropLast .makeReg) :
      Effect R s (s.make p)
  /-- A file is made and opened. -/
  | madeOpen {p : List ν} {f : Flags} (hp : s.entry p = none)
      (hmake : R.Permits s.entry p.dropLast .makeReg) :
      Effect R s ((s.make p).hold s.free f)
  /-- An open file is written. -/
  | wrote {h : Handle} {content : List β} (hh : h ∈ s.handles) (hw : h.writes = true) :
      Effect R s (s.put h.inode content)
  /-- A name is removed. -/
  | removed {p : List ν} (hremove : R.Permits s.entry p.dropLast .removeFile) :
      Effect R s (s.setEntry p none)
  /-- A file is renamed. -/
  | renamed {p q : List ν} {i : ℕ} (hp : s.entry p = some i)
      (hremove : R.Permits s.entry p.dropLast .removeFile)
      (hmake : R.Permits s.entry q.dropLast .makeReg) :
      Effect R s ((s.setEntry q (some i)).setEntry p none)
  /-- A file is linked. -/
  | linked {p q : List ν} {i : ℕ} (hp : s.entry p = some i) (hq : s.isDir q = false)
      (hcross : p.dropLast = q.dropLast ∨ R.Permits s.entry p.dropLast .refer)
      (hmake : R.Permits s.entry q.dropLast .makeReg) :
      Effect R s (s.setEntry q (some i))

theorem openFile_effect (f : Flags) : Effect R s (s.openFile R p f).1 := by
  unfold State.openFile
  split
  · rename_i i hp
    split
    · rename_i hadmits
      refine .opened hp (fun r hr => hadmits r (List.mem_append_left _ hr)) fun ht => ?_
      exact hadmits _ (List.mem_append_right _ (by simp [Flags.emptying, ht]))
    · exact .same
  · rename_i hp
    split
    · exact .same
    · split
      · rename_i hmake
        split
        · exact .madeOpen hp hmake
        · exact .made hp hmake
      · exact .same

theorem next_effect : Effect R s (s.next R op).1 := by
  cases op with
  | openFile p flags => exact openFile_effect flags
  | openDir p =>
    simp only [State.next]
    split
    · split <;> exact .same
    · exact .same
  | stat p =>
    simp only [State.next]
    split <;> exact .same
  | read fd =>
    simp only [State.next]
    split
    · split <;> exact .same
    · exact .same
  | write fd content =>
    simp only [State.next]
    split
    · rename_i h hh
      split
      · rename_i hw
        exact .wrote (List.mem_of_getElem? hh) hw
      · exact .same
    · exact .same
  | unlink p =>
    simp only [State.next]
    split
    · split
      · rename_i hremove
        exact .removed hremove
      · exact .same
    · exact .same
  | rename p q =>
    simp only [State.next]
    split
    · rename_i i hp
      split
      · exact .same
      · split
        · rename_i hadmits
          split
          · exact .same
          · exact .renamed hp (hadmits.1 _ List.mem_cons_self) (hadmits.2 _ (by simp))
        · exact .same
    · exact .same
  | link p q =>
    simp only [State.next]
    split
    · rename_i i hp
      split
      · exact .same
      · rename_i htaken
        split
        · rename_i hadmits
          refine .linked hp ?_ ?_ (hadmits.2 _ List.mem_cons_self)
          · exact Bool.eq_false_iff.mpr fun h => htaken (.inl (.inl h))
          · by_cases hcross : p.dropLast = q.dropLast
            · exact .inl hcross
            · exact .inr (hadmits.1 _ (by simp [crossing, hcross]))
        · exact .same
    · exact .same

/-! ### What can be reached -/

/-- The file is at a place where the right is there. -/
def Exposed (R : Ruleset ν) (r : Right) (s : State ν β) (i : ℕ) : Prop :=
  ∃ p, s.entry p = some i ∧ R.Permits s.entry p r

/-- **Whoever may take a name away in a directory, or refer to it, has the right there**; the rules
about directories are about directories. -/
structure Ruleset.Reflects (R : Ruleset ν) (isDir : List ν → Bool) (r : Right) : Prop where
  /-- The rights have to be granted. -/
  handled : ∀ r' ∈ [r, .removeFile, .refer], r' ∈ R.handled
  /-- Rules about directories are about directories. -/
  isDir : ∀ rule ∈ R.rules, ∀ d, rule.object = .dir d → isDir d = true
  /-- A rule for names is one about a directory, and grants the right. -/
  grants : ∀ rule ∈ R.rules, .removeFile ∈ rule.rights ∨ .refer ∈ rule.rights →
    r ∈ rule.rights ∧ ∃ d, rule.object = .dir d

omit [DecidableEq ν] in
theorem Object.Covers.congr {o : Object ν} (h : e p = e' p) (ho : o.Covers e p) :
    o.Covers e' p := by
  cases o with
  | dir d => exact ho
  | file i => exact h.symm.trans ho

omit [DecidableEq ν] in
theorem Ruleset.Permits.congr (h : e p = e' p) (hp : R.Permits e p r) : R.Permits e' p r := by
  intro hr
  obtain ⟨rule, hrule, hmem, hcovers⟩ := hp hr
  exact ⟨rule, hrule, hmem, hcovers.congr h⟩

omit [DecidableEq ν] in
/-- What may be done to the names of a directory tells of what is in it. -/
theorem Ruleset.Reflects.of_dropLast {isDir : List ν → Bool} {r' : Right}
    (hR : R.Reflects isDir r) (hr' : r' = .removeFile ∨ r' = .refer)
    (hp : R.Permits e p.dropLast r') : R.Permits e p r := by
  intro _
  have hhandled : r' ∈ R.handled := hR.handled r' (by rcases hr' with rfl | rfl <;> simp)
  obtain ⟨rule, hrule, hmem, hcovers⟩ := hp hhandled
  have hnames : .removeFile ∈ rule.rights ∨ .refer ∈ rule.rights := by
    rcases hr' with rfl | rfl
    · exact .inl hmem
    · exact .inr hmem
  obtain ⟨hr, d, hd⟩ := hR.grants rule hrule hnames
  refine ⟨rule, hrule, hr, ?_⟩
  rw [hd] at hcovers ⊢
  exact hcovers.trans (List.dropLast_prefix p)

/-- A file does not get more rights by a name beside one that it has. -/
theorem Ruleset.Reflects.of_sibling (hR : R.Reflects s.isDir r) (hp : s.entry p = some i)
    (hq : s.isDir q = false) (hsame : p.dropLast = q.dropLast)
    (hperm : R.Permits (s.setEntry q (some i)).entry q r) : R.Permits s.entry p r := by
  intro hr
  obtain ⟨rule, hrule, hmem, hcovers⟩ := hperm hr
  refine ⟨rule, hrule, hmem, ?_⟩
  cases ho : rule.object with
  | dir d =>
    rw [ho] at hcovers
    -- the rule is not about `q` itself, which is no directory
    have hne : d ≠ q := by
      rintro rfl
      have := hR.isDir rule hrule d ho
      rw [hq] at this
      cases this
    have hparent : d <+: q.dropLast := by
      rcases List.eq_nil_or_concat q with rfl | ⟨front, last, rfl⟩
      · exact absurd (List.prefix_nil.mp hcovers) hne
      · rw [List.concat_eq_append] at hcovers hne ⊢
        rw [List.dropLast_concat]
        exact (List.prefix_concat_iff.mp hcovers).resolve_left hne
    exact (hsame ▸ hparent).trans (List.dropLast_prefix p)
  | file j =>
    rw [ho] at hcovers
    have hij : some i = some j := by
      simpa [Object.Covers, State.setEntry] using hcovers
    exact hp.trans hij

/-- **No operation exposes more than the new file.** -/
theorem Exposed.of_effect (hR : R.Reflects s.isDir r) (heff : Effect R s s')
    (h : Exposed R r s' i) : Exposed R r s i ∨ i = s.free := by
  obtain ⟨x, hx, hperm⟩ := h
  -- a name that was there before with the same rights
  have hold : s.entry x = s'.entry x → Exposed R r s i := fun heq =>
    ⟨x, heq.trans hx, hperm.congr heq.symm⟩
  cases heff with
  | same => exact .inl (hold rfl)
  | opened hp hf ht =>
    refine .inl (hold ?_)
    split <;> rfl
  | @made p hp hmake =>
    by_cases hxp : x = p
    · subst hxp
      have : some s.free = some i := by simpa [State.make, State.setEntry, State.put] using hx
      exact .inr (Option.some.inj this).symm
    · exact .inl (hold (by simp [State.make, State.setEntry, State.put, hxp]))
  | @madeOpen p f hp hmake =>
    by_cases hxp : x = p
    · subst hxp
      have : some s.free = some i := by
        simpa [State.hold, State.make, State.setEntry, State.put] using hx
      exact .inr (Option.some.inj this).symm
    · exact .inl (hold (by simp [State.hold, State.make, State.setEntry, State.put, hxp]))
  | wrote => exact .inl (hold rfl)
  | @removed p hremove =>
    have hxp : x ≠ p := by
      rintro rfl
      simp [State.setEntry] at hx
    exact .inl (hold (by simp [State.setEntry, hxp]))
  | @renamed p q j hp hremove hmake =>
    have hxp : x ≠ p := by
      rintro rfl
      simp [State.setEntry] at hx
    by_cases hxq : x = q
    · subst hxq
      have : some j = some i := by simpa [State.setEntry, hxp] using hx
      cases this
      exact .inl ⟨p, hp, hR.of_dropLast (.inl rfl) hremove⟩
    · exact .inl (hold (by simp [State.setEntry, hxp, hxq]))
  | @linked p q j hp hq hcross hmake =>
    by_cases hxq : x = q
    · subst hxq
      have : some j = some i := by simpa [State.setEntry] using hx
      cases this
      refine .inl ⟨p, hp, ?_⟩
      rcases hcross with hsame | hrefer
      · exact hR.of_sibling hp hq hsame hperm
      · exact hR.of_dropLast (.inr rfl) hrefer
    · exact .inl (hold (by simp [State.setEntry, hxq]))

theorem Effect.isDir_eq (heff : Effect R s s') : s'.isDir = s.isDir := by
  cases heff with
  | opened => split <;> rfl
  | _ => rfl

theorem Effect.free_le (heff : Effect R s s') : s.free ≤ s'.free := by
  cases heff with
  | opened => split <;> exact Nat.le_refl _
  | made | madeOpen => exact Nat.le_succ _
  | _ => exact Nat.le_refl _

/-- What a handle is good for. -/
def Handle.allows (h : Handle) : Right → Bool
  | .readFile => h.reads
  | .writeFile => h.writes
  | _ => false

/-- **The process can get at the file**: by a name, or because it has it open. -/
def Reaches (R : Ruleset ν) (r : Right) (s : State ν β) (i : ℕ) : Prop :=
  Exposed R r s i ∨ ∃ h ∈ s.handles, h.inode = i ∧ h.allows r = true

theorem mem_rights_of_allows {f : Flags} (h : (Handle.mk i f.read f.write).allows r = true) :
    r ∈ f.rights := by
  cases r with
  | readFile => simp [Flags.rights, show f.read = true from h]
  | writeFile => simp [Flags.rights, show f.write = true from h]
  | _ => cases h

/-- The handles after an operation: one that was there, one on a file with the right, or one on
the new file. -/
theorem Reaches.of_handle (heff : Effect R s s') {h : Handle} (hmem : h ∈ s'.handles)
    (hallows : h.allows r = true) : Reaches R r s h.inode ∨ h.inode = s.free := by
  have hold : h ∈ s.handles → Reaches R r s h.inode ∨ h.inode = s.free := fun hm =>
    .inl (.inr ⟨h, hm, rfl, hallows⟩)
  cases heff with
  | @opened p j f hp hf ht =>
    have hm : h ∈ s.handles ++ [⟨j, f.read, f.write⟩] := by
      split at hmem <;> exact hmem
    rcases List.mem_append.mp hm with hm | hm
    · exact hold hm
    · rw [List.mem_singleton.mp hm] at hallows ⊢
      exact .inl (.inl ⟨p, hp, hf r (mem_rights_of_allows hallows)⟩)
  | @madeOpen p f hp hmake =>
    rcases List.mem_append.mp hmem with hm | hm
    · exact hold hm
    · rw [List.mem_singleton.mp hm]
      exact .inr rfl
  | _ => exact hold hmem

theorem Reaches.of_effect (hR : R.Reflects s.isDir r) (heff : Effect R s s')
    (h : Reaches R r s' i) : Reaches R r s i ∨ i = s.free := by
  rcases h with h | ⟨h, hmem, rfl, hallows⟩
  · exact (h.of_effect hR heff).imp_left .inl
  · exact Reaches.of_handle heff hmem hallows

theorem State.run_cons :
    s.run R (op :: ops) =
      (((s.next R op).1.run R ops).1, (s.next R op).2 :: ((s.next R op).1.run R ops).2) :=
  rfl

/-! ### What it sees -/

/-- Two states that differ in the contents of some files only, and there not in the size. -/
structure Alike (K : ℕ → Prop) (s s' : State ν β) : Prop where
  /-- The same directories. -/
  isDir : s'.isDir = s.isDir
  /-- The same names. -/
  entry : s'.entry = s.entry
  /-- The same numbers are free. -/
  free : s'.free = s.free
  /-- The same is open. -/
  handles : s'.handles = s.handles
  /-- The other files have the same in them. -/
  content : ∀ i, ¬K i → s'.content i = s.content i
  /-- All have the same size. -/
  length : ∀ i, (s'.content i).length = (s.content i).length

variable {K : ℕ → Prop} {content : List β}

omit [DecidableEq ν] in
theorem Alike.put (h : Alike K s s') : Alike K (s.put i content) (s'.put i content) where
  isDir := h.isDir
  entry := h.entry
  free := h.free
  handles := h.handles
  content j hj := by
    by_cases hij : j = i
    · subst hij
      simp [State.put]
    · simpa [State.put, hij] using h.content j hj
  length j := by
    by_cases hij : j = i
    · subst hij
      simp [State.put]
    · simpa [State.put, hij] using h.length j

omit [DecidableEq ν] in
theorem Alike.hold (h : Alike K s s') (f : Flags) : Alike K (s.hold i f) (s'.hold i f) :=
  ⟨h.isDir, h.entry, h.free, congrArg (· ++ _) h.handles, h.content, h.length⟩

theorem Alike.setEntry (h : Alike K s s') (x : Option ℕ) :
    Alike K (s.setEntry p x) (s'.setEntry p x) where
  isDir := h.isDir
  entry := by rw [State.setEntry, State.setEntry, h.entry]
  free := h.free
  handles := h.handles
  content := h.content
  length := h.length

theorem Alike.make (h : Alike K s s') : Alike K (s.make p) (s'.make p) := by
  have hput : Alike K ((s.setEntry p (some s.free)).put s.free [])
      ((s'.setEntry p (some s.free)).put s.free []) := (h.setEntry _).put
  have hmake : s'.make p =
      { (s'.setEntry p (some s.free)).put s.free [] with free := s.free + 1 } := by
    rw [State.make, h.free]
  rw [hmake]
  exact ⟨hput.isDir, hput.entry, rfl, hput.handles, hput.content, hput.length⟩

/-- Opening a file tells nothing of its content. -/
theorem Alike.openFile (h : Alike K s s') (f : Flags) :
    (s'.openFile R p f).2 = (s.openFile R p f).2 ∧
      Alike K (s.openFile R p f).1 (s'.openFile R p f).1 := by
  have hmake : (s'.make p).entry = (s.make p).entry := h.make.entry
  have htaken : s'.Taken p ↔ s.Taken p := by rw [State.Taken, State.Taken, h.isDir]
  unfold State.openFile
  rw [h.entry, h.handles, h.free, hmake]
  split
  · split
    · refine ⟨rfl, Alike.hold ?_ f⟩
      split
      · exact h.put
      · exact h
    · exact ⟨rfl, h⟩
  · simp only [htaken]
    split
    · exact ⟨rfl, h⟩
    · split
      · split
        · exact ⟨rfl, h.make.hold f⟩
        · exact ⟨rfl, h.make⟩
      · exact ⟨rfl, h⟩

/-- **One operation tells nothing of the content of files that the process cannot read.** -/
theorem Alike.next (op : Op ν β) (h : Alike K s s') (hK : ∀ i, K i → ¬Reaches R .readFile s i) :
    (s'.next R op).2 = (s.next R op).2 ∧ Alike K (s.next R op).1 (s'.next R op).1 := by
  have htaken : ∀ q, s'.Taken q ↔ s.Taken q := fun q => by rw [State.Taken, State.Taken, h.isDir]
  have hreplacing : ∀ q, s'.replacing q = s.replacing q := fun q => by
    rw [State.replacing, State.replacing, h.entry]
  cases op with
  | openFile p flags => exact h.openFile flags
  | openDir p =>
    simp only [State.next, h.isDir, h.entry]
    split
    · split <;> exact ⟨rfl, h⟩
    · exact ⟨rfl, h⟩
  | stat p =>
    simp only [State.next, h.entry]
    split
    · rename_i i hp
      exact ⟨congrArg Out.size (h.length i), h⟩
    · exact ⟨rfl, h⟩
  | read fd =>
    simp only [State.next, h.handles]
    split
    · rename_i hd hfd
      split
      · rename_i hreads
        -- what it has open for reading, it can read
        have hnot : ¬K hd.inode := fun hk =>
          hK _ hk (.inr ⟨hd, List.mem_of_getElem? hfd, rfl, hreads⟩)
        exact ⟨congrArg Out.data (h.content _ hnot), h⟩
      · exact ⟨rfl, h⟩
    · exact ⟨rfl, h⟩
  | write fd content =>
    simp only [State.next, h.handles]
    split
    · split
      · exact ⟨rfl, h.put⟩
      · exact ⟨rfl, h⟩
    · exact ⟨rfl, h⟩
  | unlink p =>
    simp only [State.next, h.entry]
    split
    · split
      · exact ⟨rfl, h.setEntry _⟩
      · exact ⟨rfl, h⟩
    · exact ⟨rfl, h⟩
  | rename p q =>
    simp only [State.next, h.entry, htaken, hreplacing]
    split
    · split
      · exact ⟨rfl, h⟩
      · split
        · split
          · exact ⟨rfl, h⟩
          · exact ⟨rfl, (h.setEntry _).setEntry _⟩
        · exact ⟨rfl, h⟩
    · exact ⟨rfl, h⟩
  | link p q =>
    simp only [State.next, h.entry, htaken]
    split
    · split
      · exact ⟨rfl, h⟩
      · split
        · exact ⟨rfl, h.setEntry _⟩
        · exact ⟨rfl, h⟩
    · exact ⟨rfl, h⟩

/-- **What a process sees depends on nothing but the size of the files it cannot read at first.** -/
theorem Alike.run (h : Alike K s s') (hR : R.Reflects s.isDir .readFile)
    (hK : ∀ i, K i → ¬Reaches R .readFile s i) (hfree : ∀ i, K i → i < s.free) :
    (s'.run R ops).2 = (s.run R ops).2 ∧ Alike K (s.run R ops).1 (s'.run R ops).1 := by
  induction ops generalizing s s' with
  | nil => exact ⟨rfl, h⟩
  | cons op ops ih =>
    have heff : Effect R s (s.next R op).1 := next_effect
    obtain ⟨hout, hnext⟩ := h.next op hK
    have hK' : ∀ i, K i → ¬Reaches R .readFile (s.next R op).1 i := by
      intro i hi hreach
      rcases hreach.of_effect hR heff with hreach | rfl
      · exact hK i hi hreach
      · exact absurd (hfree _ hi) (Nat.lt_irrefl _)
    obtain ⟨houts, hrun⟩ := ih hnext (heff.isDir_eq ▸ hR) hK'
      fun i hi => (hfree i hi).trans_le heff.free_le
    rw [State.run_cons, State.run_cons]
    exact ⟨by rw [hout, houts], hrun⟩

/-! ### What it changes -/

/-- A file changes only if it can be written or emptied. -/
theorem Effect.content_eq (heff : Effect R s s') (hfree : i < s.free)
    (hwrite : ¬Reaches R .writeFile s i) (htrunc : ¬Reaches R .truncate s i) :
    s'.content i = s.content i := by
  cases heff with
  | @opened p j f hp hf ht =>
    split
    · rename_i htr
      have hij : i ≠ j := by
        rintro rfl
        exact htrunc (.inl ⟨p, hp, ht htr⟩)
      simp [State.hold, State.put, hij]
    · rfl
  | made | madeOpen =>
    have hij : i ≠ s.free := hfree.ne
    simp [State.hold, State.make, State.put, State.setEntry, hij]
  | @wrote hd content hh hw =>
    have hij : i ≠ hd.inode := by
      rintro rfl
      exact hwrite (.inr ⟨hd, hh, rfl, hw⟩)
    simp [State.put, hij]
  | _ => rfl

/-- **A process does not change a file that it cannot write or empty at first.** -/
theorem content_of_run (hw : R.Reflects s.isDir .writeFile) (ht : R.Reflects s.isDir .truncate)
    (hfree : i < s.free) (hwrite : ¬Reaches R .writeFile s i)
    (htrunc : ¬Reaches R .truncate s i) : (s.run R ops).1.content i = s.content i := by
  induction ops generalizing s with
  | nil => rfl
  | cons op ops ih =>
    have heff : Effect R s (s.next R op).1 := next_effect
    have hkeep : ∀ {r}, R.Reflects s.isDir r → ¬Reaches R r s i →
        ¬Reaches R r (s.next R op).1 i := by
      intro r hr hnot hreach
      rcases hreach.of_effect hr heff with hreach | rfl
      · exact hnot hreach
      · exact absurd hfree (Nat.lt_irrefl _)
    rw [State.run_cons]
    exact (ih (heff.isDir_eq ▸ hw) (heff.isDir_eq ▸ ht) (hfree.trans_le heff.free_le)
      (hkeep hw hwrite) (hkeep ht htrunc)).trans (heff.content_eq hfree hwrite htrunc)

/-- No name can be given or taken away at the place. -/
def Ruleset.Seals (R : Ruleset ν) (p : List ν) : Prop :=
  ∀ e, ¬R.Permits e p.dropLast .removeFile ∧ ¬R.Permits e p.dropLast .makeReg

/-- **What is at a place that is sealed stays there.** -/
theorem Ruleset.Seals.entry_of_run (hR : R.Seals p) : (s.run R ops).1.entry p = s.entry p := by
  induction ops generalizing s with
  | nil => rfl
  | cons op ops ih =>
    have heff : Effect R s (s.next R op).1 := next_effect
    rw [State.run_cons]
    refine ih.trans ?_
    have hmake : ∀ {q}, R.Permits s.entry q.dropLast .makeReg → p ≠ q := by
      rintro q hq rfl
      exact (hR s.entry).2 hq
    have hremove : ∀ {q}, R.Permits s.entry q.dropLast .removeFile → p ≠ q := by
      rintro q hq rfl
      exact (hR s.entry).1 hq
    generalize (s.next R op).1 = s' at heff
    cases heff with
    | opened => split <;> rfl
    | made _ hmk | madeOpen _ hmk =>
      simp [State.hold, State.make, State.put, State.setEntry, hmake hmk]
    | removed hrm => simp [State.setEntry, hremove hrm]
    | renamed _ hrm hmk => simp [State.setEntry, hremove hrm, hmake hmk]
    | linked _ _ _ hmk => simp [State.setEntry, hmake hmk]
    | _ => rfl

/-! ### Where it is not hindered -/

/-- The operation keeps to a directory. -/
def Op.Within (d : List ν) : Op ν β → Prop
  | .openFile p _ | .unlink p => d <+: p.dropLast
  | .openDir p => d <+: p
  | .rename p q | .link p q => d <+: p.dropLast ∧ d <+: q.dropLast
  | .stat _ | .read _ | .write _ _ => True

end Landlock
