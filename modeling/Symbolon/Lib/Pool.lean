import Symbolon.Lib.Run

/-!
# Pools of independent components

A *pool* is a list of components that share nothing: each is made from a description and
then takes steps of its own, in whatever order the environment calls for
(`Lts.Pool.next`). Interleaving is then no more than a way of writing several runs down
on one line: **what one component of a pool has done is a run of that component**
(`Lts.Pool.exists_run_of_getElem?`). A property of a single component, proved by
`Lts.Run.history`, holds of every component of a pool, however many there are.
-/

namespace Lts

namespace Pool

variable {α σ ε δ : Type*}

/-- What can happen to a pool. -/
inductive Event (α ε : Type*)
  /-- A component is made. -/
  | create (a : α)
  /-- A component is called. -/
  | call (i : ℕ) (e : ε)

/-- What comes of it. -/
inductive Output (δ : Type*)
  /-- The new component, by its position. -/
  | created (i : ℕ)
  /-- What the component emitted. -/
  | did (d : δ)

/-- **The pool.** New components go to the end, so that a position never changes its
component. -/
def next (make : α → Option σ) (step : σ → ε → Option (σ × δ)) (pool : List σ) :
    Event α ε → Option (List σ × Output δ)
  | .create a =>
    match make a with
    | none => none
    | some s => some (pool ++ [s], .created pool.length)
  | .call i e =>
    match pool[i]? with
    | none => none
    | some s =>
      match step s e with
      | none => none
      | some (s', d) => some (pool.set i s', .did d)

/-- An event of a pool with its output. -/
abbrev Label (α ε δ : Type*) := Event α ε × Output δ

/-- The call of one component that a label stands for. -/
def callOf (i : ℕ) : Label α ε δ → Option (ε × δ)
  | (.call j e, .did d) => if j = i then some (e, d) else none
  | _ => none

/-- The calls of one component, in order. -/
def calls (i : ℕ) (ls : List (Label α ε δ)) : List (ε × δ) := ls.filterMap (callOf i)

@[simp] theorem calls_nil (i : ℕ) : calls i ([] : List (Label α ε δ)) = [] := rfl

theorem calls_append (i : ℕ) (ls ls' : List (Label α ε δ)) :
    calls i (ls ++ ls') = calls i ls ++ calls i ls' :=
  List.filterMap_append

@[simp] theorem calls_snoc_self (i : ℕ) (ls : List (Label α ε δ)) (e : ε) (d : δ) :
    calls i (ls ++ [(.call i e, .did d)]) = calls i ls ++ [(e, d)] := by
  simp [calls, callOf]

theorem calls_snoc_of_ne {i j : ℕ} (hne : j ≠ i) (ls : List (Label α ε δ)) (e : ε) (d : δ) :
    calls i (ls ++ [(.call j e, .did d)]) = calls i ls := by
  simp [calls, callOf, hne]

@[simp] theorem calls_snoc_create (i : ℕ) (ls : List (Label α ε δ)) (a : α) (o : Output δ) :
    calls i (ls ++ [(.create a, o)]) = calls i ls := by
  simp [calls, callOf]

/-- What a component was called for is in the log of the pool. -/
theorem mem_calls_iff {i : ℕ} {ls : List (Label α ε δ)} {e : ε} {d : δ} :
    (e, d) ∈ calls i ls ↔ ((.call i e, .did d) : Label α ε δ) ∈ ls := by
  rw [calls, List.mem_filterMap]
  constructor
  · rintro ⟨l, hmem, hc⟩
    unfold callOf at hc
    split at hc
    · split at hc
      · rename_i hji
        cases hc
        exact hji ▸ hmem
      · cases hc
    · cases hc
  · exact fun hmem => ⟨_, hmem, by simp [callOf]⟩

/-- The calls of a component so far, of those it has in the end. -/
theorem calls_isPrefix {i : ℕ} {ls ls' : List (Label α ε δ)} (h : ls <+: ls') :
    calls i ls <+: calls i ls' := by
  obtain ⟨rest, rfl⟩ := h
  exact ⟨calls i rest, (calls_append i ls rest).symm⟩

section Runs

variable {make : α → Option σ} {step : σ → ε → Option (σ × δ)}

/-- A step of a pool makes a component or is a step of one of them. -/
theorem next_cases {pool pool' : List σ} {l : Label α ε δ}
    (h : ofFun (next make step) pool l pool') :
    (∃ a s, l = (.create a, .created pool.length) ∧ make a = some s ∧ pool' = pool ++ [s]) ∨
      ∃ i e d s s', l = (.call i e, .did d) ∧ pool[i]? = some s ∧ step s e = some (s', d) ∧
        pool' = pool.set i s' := by
  obtain ⟨ev, o⟩ := l
  simp only [ofFun] at h
  cases ev with
  | create a =>
    simp only [next] at h
    split at h
    · cases h
    · rename_i s hs
      cases h
      exact .inl ⟨a, s, rfl, hs, rfl⟩
  | call i e =>
    simp only [next] at h
    split at h
    · cases h
    · rename_i s hs
      split at h
      · cases h
      · rename_i s' d hd
        cases h
        exact .inr ⟨i, e, d, s, s', rfl, hs, hd, rfl⟩

/-- Every component was made, and has taken its own steps since; what is not there yet
has not been called. -/
structure Separate (make : α → Option σ) (step : σ → ε → Option (σ × δ))
    (ls : List (Label α ε δ)) (pool : List σ) : Prop where
  /-- The components. -/
  run_of_getElem? : ∀ {i s}, pool[i]? = some s → ∃ a s₀,
    ((.create a, .created i) : Label α ε δ) ∈ ls ∧ make a = some s₀ ∧
      Run (ofFun step) s₀ (calls i ls) s
  /-- The others. -/
  calls_of_length_le : ∀ {i}, pool.length ≤ i → calls i ls = []

theorem Separate.snoc {ls : List (Label α ε δ)} {pool pool' : List σ} {l : Label α ε δ}
    (h : Separate make step ls pool) (hstep : ofFun (next make step) pool l pool') :
    Separate make step (ls ++ [l]) pool' := by
  obtain ⟨a, s, rfl, hmake, rfl⟩ | ⟨j, e, d, t, t', rfl, ht, hd, rfl⟩ := next_cases hstep
  · refine ⟨fun {i s'} hi => ?_, fun {i} hi => ?_⟩
    · rcases Nat.lt_or_ge i pool.length with hlt | hge
      · rw [List.getElem?_append_left hlt] at hi
        obtain ⟨b, s₀, hmem, hb, hrun⟩ := h.run_of_getElem? hi
        exact ⟨b, s₀, List.mem_append_left _ hmem, hb, by simpa using hrun⟩
      · -- the new component has done nothing yet
        have hlast : i = pool.length ∧ s = s' := by
          rw [List.getElem?_append_right hge] at hi
          obtain ⟨hlt, hs⟩ := List.getElem?_eq_some_iff.mp hi
          have hi0 : i - pool.length = 0 := by simpa using hlt
          exact ⟨by omega, by simpa [hi0] using hs⟩
        obtain ⟨rfl, rfl⟩ := hlast
        refine ⟨a, s, by simp, hmake, ?_⟩
        rw [calls_snoc_create, h.calls_of_length_le (Nat.le_refl _)]
        exact .nil s
    · rw [calls_snoc_create]
      exact h.calls_of_length_le (by simp at hi; omega)
  · have hj : j < pool.length := (List.getElem?_eq_some_iff.mp ht).1
    refine ⟨fun {i s} hi => ?_, fun {i} hi => ?_⟩
    · rcases eq_or_ne j i with rfl | hne
      · rw [List.getElem?_set_self hj] at hi
        obtain rfl := Option.some.inj hi
        obtain ⟨b, s₀, hmem, hb, hrun⟩ := h.run_of_getElem? ht
        refine ⟨b, s₀, List.mem_append_left _ hmem, hb, ?_⟩
        rw [calls_snoc_self]
        exact hrun.snoc hd
      · rw [List.getElem?_set_ne hne] at hi
        obtain ⟨b, s₀, hmem, hb, hrun⟩ := h.run_of_getElem? hi
        refine ⟨b, s₀, List.mem_append_left _ hmem, hb, ?_⟩
        rwa [calls_snoc_of_ne hne]
    · rw [List.length_set] at hi
      have hne : j ≠ i := by omega
      rw [calls_snoc_of_ne hne]
      exact h.calls_of_length_le hi

theorem separate {ls : List (Label α ε δ)} {pool : List σ}
    (h : Run (ofFun (next make step)) [] ls pool) : Separate make step ls pool :=
  h.history (fun _ _ _ _ hp hr => hp.snoc hr) ⟨by simp, by simp⟩

/-- **What one component of a pool has done is a run of that component.** -/
theorem exists_run_of_getElem? {ls : List (Label α ε δ)} {pool : List σ} {i : ℕ} {s : σ}
    (h : Run (ofFun (next make step)) [] ls pool) (hi : pool[i]? = some s) :
    ∃ a s₀, ((.create a, .created i) : Label α ε δ) ∈ ls ∧ make a = some s₀ ∧
      Run (ofFun step) s₀ (calls i ls) s :=
  (separate h).run_of_getElem? hi

/-- A call in the log of a pool, with the component at that moment. -/
theorem exists_step_of_call {ls ls' : List (Label α ε δ)} {pool : List σ} {i : ℕ} {e : ε}
    {o : Output δ} (h : Run (ofFun (next make step)) [] (ls ++ (.call i e, o) :: ls') pool) :
    ∃ a s₀ s s' d, ((.create a, .created i) : Label α ε δ) ∈ ls ∧ make a = some s₀ ∧
      Run (ofFun step) s₀ (calls i ls) s ∧ step s e = some (s', d) ∧ o = .did d := by
  obtain ⟨p, hpre, hrest⟩ := run_append_iff.mp h
  obtain ⟨p', hstep, -⟩ := run_cons_iff.mp hrest
  obtain ⟨a, s, hl, -, -⟩ | ⟨j, f, d, s, s', hl, hs, hd, -⟩ := next_cases hstep
  · cases hl
  · cases hl
    obtain ⟨a, s₀, hmem, hmake, hrun⟩ := exists_run_of_getElem? hpre hs
    exact ⟨a, s₀, s, s', d, hmem, hmake, hrun, hd, rfl⟩

end Runs

end Pool

end Lts
