import Mathlib.Data.List.Basic
import Mathlib.Data.Set.Finite.Basic
import Mathlib.Logic.Function.Basic

/-!
# A file system that may lose power

What is written to a file, and what is done to a directory, is seen at once and is on the disk
only later. A **volume** (`Volume`) keeps both: of a file, what is seen and whether that is what
the disk has; of a name, the file it stands for and those it stood for since its directory was
last flushed. A power loss (`Volume.PowerLoss`) leaves of every name one of these, and of a file
that was not flushed anything at all.

A name **holds** versions (`Volume.Holds`) when all it may be found to stand for are flushed
files: the versions are their contents, the one that is seen first. This is what replacing a
file by renaming another over it keeps up: `Volume.Holds.rename` adds a version,
`Volume.Holds.syncDir` forgets all but the first, and a power loss chooses one
(`Volume.Holds.powerLoss`). Nothing that is done to files of other names matters
(`Volume.Holds.of_foreign`).
-/

/-- A file: what is seen of it, and whether the disk has that. -/
structure Volume.Inode (α : Type*) where
  /-- What is seen. -/
  content : α
  /-- The disk has it. -/
  synced : Bool

/-- **A file system**, of files named by `ν` with contents in `α`. -/
structure Volume (ν α : Type*) where
  /-- The files, by number. -/
  inode : ℕ → Volume.Inode α
  /-- The numbers from here on are free. -/
  free : ℕ
  /-- What a name stands for. -/
  entry : ν → Option ℕ
  /-- What it may still stand for on the disk. -/
  older : ν → List (Option ℕ)

namespace Volume

variable {ν α : Type*}

/-! ### The operations -/

/-- What is seen under a name. -/
def look (v : Volume ν α) (n : ν) : Option α := (v.entry n).map fun i => (v.inode i).content

/-- Change a file. -/
def setInode (v : Volume ν α) (i : ℕ) (f : Inode α) : Volume ν α :=
  { v with inode := Function.update v.inode i f }

/-- Let a name stand for something else. -/
def setEntry [DecidableEq ν] (v : Volume ν α) (n : ν) (e : Option ℕ) : Volume ν α :=
  { v with
    entry := Function.update v.entry n e
    older := Function.update v.older n (v.entry n :: v.older n) }

/-- Open a file for writing: it is created, or emptied if it is there. -/
def create [DecidableEq ν] (v : Volume ν α) (n : ν) (empty : α) : Volume ν α :=
  match v.entry n with
  | some i => v.setInode i ⟨empty, false⟩
  | none => { (v.setInode v.free ⟨empty, false⟩).setEntry n (some v.free) with free := v.free + 1 }

/-- Write to the file of a name. -/
def write (v : Volume ν α) (n : ν) (content : α) : Volume ν α :=
  match v.entry n with
  | some i => v.setInode i ⟨content, false⟩
  | none => v

/-- Flush the file of a name. -/
def sync (v : Volume ν α) (n : ν) : Volume ν α :=
  match v.entry n with
  | some i => v.setInode i { v.inode i with synced := true }
  | none => v

/-- Move a file over another name. -/
def rename [DecidableEq ν] (v : Volume ν α) (src dst : ν) : Volume ν α :=
  (v.setEntry dst (v.entry src)).setEntry src none

/-- Remove a name. -/
def remove [DecidableEq ν] (v : Volume ν α) (n : ν) : Volume ν α := v.setEntry n none

/-- Flush a directory, by the names that are in it. -/
def syncDir (v : Volume ν α) (inDir : ν → Bool) : Volume ν α :=
  { v with older := fun n => if inDir n then [] else v.older n }

/-- **A power loss.** -/
structure PowerLoss (v v' : Volume ν α) : Prop where
  /-- A name stands for what it stood for at some time since its directory was flushed. -/
  entry : ∀ n, v'.entry n ∈ v.entry n :: v.older n
  /-- A flushed file is what it was. -/
  inode : ∀ i, (v.inode i).synced = true → v'.inode i = v.inode i
  /-- What is found is what the disk has. -/
  synced : ∀ i, (v'.inode i).synced = true
  /-- There is nothing else on the disk. -/
  older : ∀ n, v'.older n = []
  /-- No number has become free. -/
  free : v.free ≤ v'.free

/-- A power loss is always possible: everything may have been on the disk just then. -/
theorem exists_powerLoss (v : Volume ν α) : ∃ v' : Volume ν α, v.PowerLoss v' := by
  refine ⟨⟨fun i => { v.inode i with synced := true }, v.free, v.entry, fun _ => []⟩,
    fun _ => List.mem_cons_self, fun i hi => ?_, fun _ => rfl, fun _ => rfl, Nat.le_refl _⟩
  rw [← hi]

/-! ### Versions -/

/-- All that a name may be found to stand for. -/
def entries (v : Volume ν α) (n : ν) : List (Option ℕ) := v.entry n :: v.older n

/-- **The versions of a name**: all that it may be found to stand for are flushed files. -/
structure Holds (v : Volume ν α) (n : ν) (versions : List (Option α)) : Prop where
  /-- The versions are the contents. -/
  eq : versions = (v.entries n).map (Option.map fun i => (v.inode i).content)
  /-- The files are flushed. -/
  synced : ∀ i, some i ∈ v.entries n → (v.inode i).synced = true
  /-- They are not free. -/
  lt_free : ∀ i, some i ∈ v.entries n → i < v.free

section Holds

variable {v v' : Volume ν α} {n m : ν} {versions : List (Option α)} {i : ℕ}

theorem Holds.look (h : v.Holds n versions) : versions.head? = some (v.look n) := by
  rw [h.eq]
  rfl

theorem Holds.take_one (h : v.Holds n versions) : versions.take 1 = [v.look n] := by
  rw [h.eq]
  rfl

/-- What is done elsewhere does not matter: not to the name, and not to its files. -/
theorem Holds.of_foreign (h : v.Holds n versions) (hentries : v'.entries n = v.entries n)
    (hinode : ∀ i, some i ∈ v.entries n → v'.inode i = v.inode i) (hfree : v.free ≤ v'.free) :
    v'.Holds n versions := by
  refine ⟨?_, fun i hi => ?_, fun i hi => ?_⟩
  · rw [h.eq, hentries]
    refine List.map_congr_left fun e he => ?_
    cases e with
    | none => rfl
    | some i => exact congrArg some (congrArg Inode.content (hinode i he).symm)
  · rw [hentries] at hi
    rw [hinode i hi]
    exact h.synced i hi
  · rw [hentries] at hi
    exact Nat.lt_of_lt_of_le (h.lt_free i hi) hfree

/-- A file that is not one of those of a name. -/
def Foreign (v : Volume ν α) (n : ν) (i : ℕ) : Prop := some i ∉ v.entries n

theorem Holds.setInode (h : v.Holds n versions) (hi : v.Foreign n i) (f : Inode α) :
    (v.setInode i f).Holds n versions := by
  refine h.of_foreign rfl (fun j hj => Function.update_of_ne ?_ _ _) (Nat.le_refl _)
  rintro rfl
  exact hi hj

/-- Writing to a file that is none of those of the name. -/
theorem Holds.write (h : v.Holds n versions) (hm : v.entry m = some i) (hi : v.Foreign n i)
    (content : α) : (v.write m content).Holds n versions := by
  rw [Volume.write, hm]
  exact h.setInode hi _

theorem Holds.sync (h : v.Holds n versions) (hm : v.entry m = some i) (hi : v.Foreign n i) :
    (v.sync m).Holds n versions := by
  rw [Volume.sync, hm]
  exact h.setInode hi _

/-- **Flushing the directory forgets all versions but the one that is seen.** -/
theorem Holds.syncDir (h : v.Holds n versions) {inDir : ν → Bool} (hn : inDir n = true) :
    (v.syncDir inDir).Holds n [v.look n] := by
  have hentries : (v.syncDir inDir).entries n = [v.entry n] := by
    simp [entries, Volume.syncDir, hn]
  refine ⟨?_, fun i hi => ?_, fun i hi => ?_⟩
  · rw [hentries]
    rfl
  · rw [hentries, List.mem_singleton] at hi
    exact h.synced i (hi ▸ List.mem_cons_self)
  · rw [hentries, List.mem_singleton] at hi
    exact h.lt_free i (hi ▸ List.mem_cons_self)

theorem Holds.syncDir_of_notMem (h : v.Holds n versions) {inDir : ν → Bool}
    (hn : inDir n = false) : (v.syncDir inDir).Holds n versions := by
  refine h.of_foreign ?_ (fun _ _ => rfl) (Nat.le_refl _)
  simp [entries, Volume.syncDir, hn]

/-- **A power loss leaves one of the versions**, and the disk has it. -/
theorem Holds.powerLoss (h : v.Holds n versions) (hloss : v.PowerLoss v') :
    ∃ version ∈ versions, v'.look n = version ∧ v'.Holds n [version] := by
  have hmem : v'.entry n ∈ v.entries n := hloss.entry n
  have hentries : v'.entries n = [v'.entry n] := by rw [entries, hloss.older n]
  have hlook : v'.look n = (v'.entry n).map fun i => (v.inode i).content := by
    rw [Volume.look]
    rcases he : v'.entry n with - | i
    · rfl
    · rw [Option.map_some, Option.map_some, hloss.inode i (h.synced i (he ▸ hmem))]
  refine ⟨v'.look n, ?_, rfl, ?_, fun i _ => hloss.synced i, fun i hi => ?_⟩
  · rw [h.eq, hlook]
    exact List.mem_map_of_mem hmem
  · rw [hentries]
    rfl
  · rw [hentries, List.mem_singleton] at hi
    exact Nat.lt_of_lt_of_le (h.lt_free i (hi ▸ hmem)) hloss.free

end Holds

section Names

variable [DecidableEq ν] {v : Volume ν α} {n m src : ν} {versions : List (Option α)} {content : α}
  {i : ℕ}

theorem entries_setEntry_of_ne (v : Volume ν α) (hne : n ≠ m) (e : Option ℕ) :
    (v.setEntry m e).entries n = v.entries n := by
  simp [entries, setEntry, Function.update_of_ne hne]

theorem entries_setEntry_self (v : Volume ν α) (n : ν) (e : Option ℕ) :
    (v.setEntry n e).entries n = e :: v.entries n := by
  simp [entries, setEntry]

theorem Holds.setEntry_of_ne (h : v.Holds n versions) (hne : n ≠ m) (e : Option ℕ) :
    (v.setEntry m e).Holds n versions :=
  h.of_foreign (entries_setEntry_of_ne v hne e) (fun _ _ => rfl) (Nat.le_refl _)

/-- Creating a file of another name. -/
theorem Holds.create (h : v.Holds n versions) (hne : n ≠ m) (hnone : v.entry m = none)
    (empty : α) : (v.create m empty).Holds n versions := by
  rw [Volume.create, hnone]
  have hfree : v.Foreign n v.free := fun hmem => Nat.lt_irrefl _ (h.lt_free _ hmem)
  exact ((h.setInode hfree _).setEntry_of_ne hne _).of_foreign rfl (fun _ _ => rfl) (Nat.le_succ _)

theorem Holds.remove (h : v.Holds n versions) (hne : n ≠ m) : (v.remove m).Holds n versions :=
  h.setEntry_of_ne hne _

/-- **Moving a flushed file over the name adds a version.** -/
theorem Holds.rename (h : v.Holds n versions) (hne : n ≠ src) (hsrc : v.entry src = some i)
    (hi : v.inode i = ⟨content, true⟩) (hlt : i < v.free) :
    (v.rename src n).Holds n (some content :: versions) := by
  have hset : (v.setEntry n (some i)).Holds n (some content :: versions) := by
    refine ⟨?_, fun j hj => ?_, fun j hj => ?_⟩
    · rw [entries_setEntry_self, List.map_cons, h.eq]
      exact congrArg (· :: _) (congrArg some (congrArg Inode.content hi).symm)
    · rw [entries_setEntry_self, List.mem_cons] at hj
      rcases hj with hj | hj
      · cases hj
        exact congrArg Inode.synced hi
      · exact h.synced j hj
    · rw [entries_setEntry_self, List.mem_cons] at hj
      rcases hj with hj | hj
      · cases hj
        exact hlt
      · exact h.lt_free j hj
  rw [Volume.rename, hsrc]
  exact hset.setEntry_of_ne hne _

/-- Moving files between other names. -/
theorem Holds.rename_of_ne (h : v.Holds n versions) (hsrc : n ≠ src) (hdst : n ≠ m) :
    (v.rename src m).Holds n versions :=
  (h.setEntry_of_ne hdst _).setEntry_of_ne hsrc _

end Names

/-! ### What the operations do to the file they are about -/

section Own

variable {v : Volume ν α} {n m : ν} {i : ℕ}

theorem entry_create [DecidableEq ν] (hnone : v.entry n = none) (empty : α) :
    (v.create n empty).entry n = some v.free ∧ (v.create n empty).free = v.free + 1 := by
  rw [create, hnone]
  exact ⟨Function.update_self _ _ _, rfl⟩

theorem entries_create_of_ne [DecidableEq ν] (hnone : v.entry n = none) (hne : m ≠ n) (empty : α) :
    (v.create n empty).entries m = v.entries m := by
  rw [create, hnone]
  exact entries_setEntry_of_ne (v.setInode v.free ⟨empty, false⟩) hne (some v.free)

theorem write_of_entry (h : v.entry n = some i) (content : α) :
    v.write n content = v.setInode i ⟨content, false⟩ := by
  rw [write, h]

theorem sync_of_entry (h : v.entry n = some i) :
    v.sync n = v.setInode i { v.inode i with synced := true } := by
  rw [sync, h]

@[simp] theorem inode_setInode_self (v : Volume ν α) (i : ℕ) (f : Inode α) :
    (v.setInode i f).inode i = f := Function.update_self _ _ _

end Own

/-! ### Names that are free -/

section Finite

variable {v : Volume ν α}

/-- The names that stand for a file. -/
def names (v : Volume ν α) : Set ν := {n | v.entry n ≠ none}

theorem finite_write (h : v.names.Finite) (n : ν) (content : α) :
    (v.write n content).names.Finite := by
  unfold write
  split <;> exact h

theorem finite_sync (h : v.names.Finite) (n : ν) : (v.sync n).names.Finite := by
  unfold sync
  split <;> exact h

variable [DecidableEq ν]

theorem finite_setEntry (h : v.names.Finite) (n : ν) (e : Option ℕ) :
    (v.setEntry n e).names.Finite := by
  refine (h.insert n).subset fun m hm => ?_
  by_contra hnot
  rw [Set.mem_insert_iff, not_or] at hnot
  exact hnot.2 (by simpa [names, setEntry, Function.update_of_ne hnot.1] using hm)

theorem finite_create (h : v.names.Finite) (n : ν) (empty : α) :
    (v.create n empty).names.Finite := by
  unfold create
  split
  · exact h
  · exact finite_setEntry (v := v.setInode v.free ⟨empty, false⟩) h n (some v.free)

theorem finite_rename (h : v.names.Finite) (src dst : ν) : (v.rename src dst).names.Finite :=
  finite_setEntry (finite_setEntry h dst _) src none

end Finite

end Volume
