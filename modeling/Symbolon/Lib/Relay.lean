import Mathlib.Order.Monotone.Basic

/-!
# Parties that take turns

A system of several parties, in which a *schedule* says whose turn it is: an infinite
sequence of parties, in any order. A party whose turn it is and that has nothing to do
waits, so a schedule can be anything, and what is said of a system is said for all of them.

A **relay** (`Relay.Chain`) is a system that has only one way to go: at every stage there is
one party that can move, and all the others wait. However the turns are dealt out, such a
system goes through its stages in order (`Relay.Chain.run_eq`) and shows what they show,
apart from what waiting parties show (`Relay.Chain.filter_trace`); and if every party has
its turn again and again, it comes to the end (`Relay.Chain.exists_progress_eq`).
-/

namespace Relay

variable {σ π κ : Type*}

/-- The state after so many turns. -/
def run (next : σ → π → σ × κ) (s : σ) (schedule : ℕ → π) : ℕ → σ
  | 0 => s
  | n + 1 => (next (run next s schedule n) (schedule n)).1

/-- What is shown in the first so many turns. -/
def trace (next : σ → π → σ × κ) (s : σ) (schedule : ℕ → π) : ℕ → List κ
  | 0 => []
  | n + 1 => trace next s schedule n ++ [(next (run next s schedule n) (schedule n)).2]

/-- Every party has a turn again and again. -/
def Fair (schedule : ℕ → π) : Prop := ∀ p n, ∃ m, n ≤ m ∧ schedule m = p

/-- **A relay.** What a waiting party shows is quiet. -/
structure Chain (next : σ → π → σ × κ) (quiet : κ → Bool) where
  /-- The number of moves. -/
  length : ℕ
  /-- The stages. -/
  stage : ℕ → σ
  /-- Who moves at a stage. -/
  mover : ℕ → π
  /-- What the move shows. -/
  shows : ℕ → κ
  /-- The move leads to the next stage. -/
  advance : ∀ k, k < length → next (stage k) (mover k) = (stage (k + 1), shows k)
  /-- All others wait; at the end everyone does. -/
  wait : ∀ k, k ≤ length → ∀ p, (k < length → p ≠ mover k) →
    (next (stage k) p).1 = stage k ∧ quiet (next (stage k) p).2 = true

namespace Chain

variable [DecidableEq π] {next : σ → π → σ × κ} {quiet : κ → Bool} (c : Chain next quiet)
  (schedule : ℕ → π)

/-- How many moves have been made after so many turns. -/
def progress : ℕ → ℕ
  | 0 => 0
  | n + 1 =>
    if progress n < c.length ∧ schedule n = c.mover (progress n) then progress n + 1
    else progress n

theorem progress_le (n : ℕ) : c.progress schedule n ≤ c.length := by
  induction n with
  | zero => exact Nat.zero_le _
  | succ n ih =>
    rw [progress]
    split
    · rename_i h
      exact h.1
    · exact ih

theorem progress_mono : Monotone (c.progress schedule) := by
  refine monotone_nat_of_le_succ fun n => ?_
  rw [progress]
  split
  · exact Nat.le_succ _
  · exact Nat.le_refl _

/-- The turn of a party that cannot move. -/
theorem wait_progress {n : ℕ} (h : ¬(c.progress schedule n < c.length ∧
    schedule n = c.mover (c.progress schedule n))) :
    (next (c.stage (c.progress schedule n)) (schedule n)).1 = c.stage (c.progress schedule n) ∧
      quiet (next (c.stage (c.progress schedule n)) (schedule n)).2 = true :=
  c.wait _ (c.progress_le schedule n) _ fun hlt heq => h ⟨hlt, heq⟩

/-- **A relay goes through its stages**, whatever the schedule. -/
theorem run_eq (n : ℕ) :
    run next (c.stage 0) schedule n = c.stage (c.progress schedule n) := by
  induction n with
  | zero => rfl
  | succ n ih =>
    rw [run, ih, progress]
    split
    · rename_i h
      rw [h.2, c.advance _ h.1]
    · rename_i h
      exact (c.wait_progress schedule h).1

/-- **What a relay shows**, apart from the waiting. -/
theorem filter_trace (n : ℕ) :
    (trace next (c.stage 0) schedule n).filter (fun x => !quiet x) =
      ((List.range (c.progress schedule n)).map c.shows).filter (fun x => !quiet x) := by
  induction n with
  | zero => rfl
  | succ n ih =>
    rw [trace, List.filter_append, ih, run_eq, progress]
    split
    · rename_i h
      rw [h.2, c.advance _ h.1, List.range_succ, List.map_append, List.filter_append,
        List.map_singleton]
    · rename_i h
      simp [(c.wait_progress schedule h).2]

variable {schedule}

/-- Every stage is reached: the induction is on the stage, and the mover of each gets its
turn. -/
theorem exists_le_progress (hfair : Fair schedule) {k : ℕ} (hk : k ≤ c.length) :
    ∃ n, k ≤ c.progress schedule n := by
  induction k with
  | zero => exact ⟨0, Nat.zero_le _⟩
  | succ k ih =>
    obtain ⟨n, hn⟩ := ih (Nat.le_of_succ_le hk)
    obtain ⟨m, hnm, hm⟩ := hfair (c.mover k) n
    have hle : k ≤ c.progress schedule m := hn.trans (c.progress_mono schedule hnm)
    rcases Nat.lt_or_eq_of_le hle with hlt | heq
    · exact ⟨m, hlt⟩
    · refine ⟨m + 1, ?_⟩
      rw [progress, if_pos ⟨heq ▸ hk, heq ▸ hm⟩, ← heq]

/-- **A relay comes to the end**, if every party has its turn again and again. -/
theorem exists_progress_eq (hfair : Fair schedule) :
    ∃ n, ∀ m, n ≤ m → c.progress schedule m = c.length := by
  obtain ⟨n, hn⟩ := c.exists_le_progress hfair (Nat.le_refl c.length)
  refine ⟨n, fun m hm => ?_⟩
  exact Nat.le_antisymm (c.progress_le schedule m) (hn.trans (c.progress_mono schedule hm))

end Chain

end Relay
