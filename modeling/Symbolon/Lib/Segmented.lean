import Mathlib.Data.List.Basic

/-!
# Streams that arrive in segments

What comes through a socket is a sequence of elements, but nobody promises how much of it
a read returns: at least one element, unless the stream is over, and at most as many as
the buffer has room for. A stream (`Segmented`) is therefore the sequence *together with
the segments it arrives in*, and to say something for every segmentation is to say it for
every stream with the same content (`Segmented.content`).

* `Segmented.read` – one read into a buffer of some capacity.
* `Segmented.afterReads` – what is left after so many reads.
* `Segmented.delivered` – how much so many reads return. The number goes up by at most the
  capacity at a time, so it does not jump over any stretch of that length
  (`Segmented.exists_delivered`).
* `Segmented.ofList` – the stream that arrives one element at a time.
-/

/-- **A stream**: the segments in which it arrives, none of which is empty. -/
@[ext] structure Segmented (α : Type*) where
  /-- The segments. -/
  segments : List (List α)
  /-- Every segment has something in it. -/
  nonempty : ∀ seg ∈ segments, seg ≠ []

namespace Segmented

variable {α : Type*} {s : Segmented α} {capacity n : ℕ}

/-- What is still to come. -/
def content (s : Segmented α) : List α := s.segments.flatten

/-- **One read** into a buffer: the next segment, or as much of it as there is room for.
A read that returns nothing has reached the end. -/
def read (s : Segmented α) (capacity : ℕ) : List α × Segmented α :=
  match s with
  | ⟨[], h⟩ => ([], ⟨[], h⟩)
  | ⟨seg :: rest, h⟩ =>
    if hcap : seg.length ≤ capacity then
      (seg, ⟨rest, fun t ht => h t (List.mem_cons_of_mem _ ht)⟩)
    else
      (seg.take capacity, ⟨seg.drop capacity :: rest, by
        intro t ht
        rcases List.mem_cons.mp ht with rfl | ht
        · exact fun hd => hcap (List.drop_eq_nil_iff.mp hd)
        · exact h t (List.mem_cons_of_mem _ ht)⟩)

/-- **Nothing is lost or made up by a read.** -/
theorem read_append (s : Segmented α) (capacity : ℕ) :
    (s.read capacity).1 ++ (s.read capacity).2.content = s.content := by
  unfold read
  split
  · rfl
  · split
    · rfl
    · simp [content, ← List.append_assoc]

theorem length_read_le (s : Segmented α) (capacity : ℕ) :
    (s.read capacity).1.length ≤ capacity := by
  unfold read
  split
  · exact Nat.zero_le _
  · split
    · assumption
    · exact List.length_take_le _ _

/-- A read with room in its buffer returns nothing only at the end. -/
theorem read_eq_nil_iff (hcap : 0 < capacity) : (s.read capacity).1 = [] ↔ s.content = [] := by
  unfold read
  split
  · simp [content]
  · rename_i seg rest h
    have hne : seg ≠ [] := h seg List.mem_cons_self
    have hcontent : content ⟨seg :: rest, h⟩ ≠ [] := by simp [content, hne]
    split
    · simp [hne, hcontent]
    · simp [hne, hcontent, Nat.ne_of_gt hcap]

/-- What is left is what comes after what was read. -/
theorem content_read (s : Segmented α) (capacity : ℕ) :
    (s.read capacity).2.content = s.content.drop (s.read capacity).1.length := by
  conv => rhs; rw [← read_append s capacity, List.drop_left]

/-- What is left after so many reads. -/
def afterReads (s : Segmented α) (capacity : ℕ) : ℕ → Segmented α
  | 0 => s
  | j + 1 => ((s.read capacity).2).afterReads capacity j

/-- What is left is a part of what was to come. -/
theorem length_afterReads_le (s : Segmented α) (capacity j : ℕ) :
    (s.afterReads capacity j).content.length ≤ s.content.length := by
  induction j generalizing s with
  | zero => exact Nat.le_refl _
  | succ j ih =>
    refine Nat.le_trans (ih _) ?_
    rw [content_read, List.length_drop]
    exact Nat.sub_le _ _

/-- How much the first so many reads return. -/
def delivered (s : Segmented α) (capacity : ℕ) : ℕ → ℕ
  | 0 => 0
  | j + 1 => (s.read capacity).1.length + ((s.read capacity).2).delivered capacity j

/-- **Reads do not jump**: for every amount that is there to be read, some number of reads
returns at least that much, and less than a buffer more. -/
theorem exists_delivered (hcap : 0 < capacity) (hn : n ≤ s.content.length) :
    ∃ j, n ≤ s.delivered capacity j ∧ s.delivered capacity j < n + capacity := by
  induction n using Nat.strongRecOn generalizing s with
  | ind n ih =>
    rcases Nat.eq_zero_or_pos n with rfl | hpos
    · exact ⟨0, Nat.le_refl 0, by simpa [delivered] using hcap⟩
    have hsplit := congrArg List.length (s.read_append capacity)
    rw [List.length_append] at hsplit
    have hroom := s.length_read_le capacity
    have hsome : 0 < (s.read capacity).1.length := by
      rw [List.length_pos_iff, Ne, read_eq_nil_iff hcap, ← List.length_eq_zero_iff]
      omega
    rcases Nat.lt_or_ge (s.read capacity).1.length n with hlt | hge
    · -- one read is not enough: go on with what is missing
      obtain ⟨j, hle, hlt'⟩ := ih (n - (s.read capacity).1.length) (by omega)
        (s := (s.read capacity).2) (by omega)
      refine ⟨j + 1, ?_, ?_⟩ <;> rw [delivered] <;> omega
    · refine ⟨1, ?_, ?_⟩ <;> rw [delivered, delivered] <;> omega

/-- The stream that arrives one element at a time. -/
def ofList (l : List α) : Segmented α where
  segments := l.map fun a => [a]
  nonempty := by simp

@[simp] theorem content_ofList (l : List α) : (ofList l).content = l := by
  induction l with
  | nil => rfl
  | cons a l ih => exact congrArg (a :: ·) ih

/-- One element at a time, so many reads return as many elements. -/
theorem delivered_ofList (hcap : 0 < capacity) {l : List α} {j : ℕ} (hj : j ≤ l.length) :
    (ofList l).delivered capacity j = j := by
  induction j generalizing l with
  | zero => rfl
  | succ j ih =>
    obtain ⟨a, l, rfl⟩ := List.exists_cons_of_length_pos (Nat.lt_of_lt_of_le j.succ_pos hj)
    have hread : (ofList (a :: l)).read capacity = ([a], ofList l) := by
      have hone : [a].length ≤ capacity := hcap
      simp only [ofList, List.map_cons, read, dif_pos hone]
    rw [delivered, hread, ih (Nat.le_of_succ_le_succ hj), List.length_singleton, Nat.add_comm]

end Segmented
