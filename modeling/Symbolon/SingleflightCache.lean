import Mathlib.Data.Finmap

/-!
# The memo with one resolver a key

`SingleflightCache` of `src/singleflight_cache.rs`: a map from keys to resolved values, in
which a key that is being resolved is marked as in flight. A caller *claims* a key. It
gets the memoised value, or the event of whoever is resolving the key, to wait for, or it
becomes the resolver itself. A resolver *releases* the key when it is done – also when it
is cancelled, by way of a guard – and notifies everybody who waits for its event.

These are the operations on the map. The callers that wait for events, and the guards,
belong to the tasks that call them. An event is known by a number; claiming a free key
makes a new one.
-/

namespace Symbolon

universe u v

/-- The identity of an event that a resolver notifies. -/
abbrev EventId := ℕ

/-- What the map has for a key. -/
inductive StoreEntry (V : Type v)
  /-- A resolved value. -/
  | memo (value : V)
  /-- The key is being resolved. -/
  | inFlight (event : EventId)

/-- What a caller gets. -/
inductive Claim (V : Type v)
  /-- The value is known. -/
  | hit (value : V)
  /-- Somebody else is resolving; wait for this event and claim again. -/
  | wait (event : EventId)
  /-- The caller is to resolve, and to notify this event. -/
  | resolve (event : EventId)

/-- **The memo.** -/
structure SingleflightCache (K : Type u) (V : Type v) where
  /-- The entries. -/
  entries : Finmap fun _ : K => StoreEntry V
  /-- The next event. -/
  nextEvent : EventId

namespace SingleflightCache

variable {K : Type u} {V : Type v} [DecidableEq K]

/-- The empty memo. -/
def new : SingleflightCache K V := ⟨∅, 0⟩

/-- Claim a key. -/
def claim (s : SingleflightCache K V) (key : K) : SingleflightCache K V × Claim V :=
  match s.entries.lookup key with
  | some (.memo value) => (s, .hit value)
  | some (.inFlight event) => (s, .wait event)
  | none => (⟨s.entries.insert key (.inFlight s.nextEvent), s.nextEvent + 1⟩, .resolve s.nextEvent)

/-- Drop the entry of a key. -/
def invalidate (s : SingleflightCache K V) (key : K) : SingleflightCache K V :=
  { s with entries := s.entries.erase key }

/-- The resolver is done. Whoever waits for its event is notified as well. -/
def releaseDone (s : SingleflightCache K V) (key : K) (value : V) : SingleflightCache K V :=
  { s with entries := s.entries.insert key (.memo value) }

/-- The resolver has failed. Whoever waits for its event is notified as well. -/
def releaseFailed (s : SingleflightCache K V) (key : K) : SingleflightCache K V :=
  { s with entries := s.entries.erase key }

/-- The memo has this value for the key. -/
def Memo (s : SingleflightCache K V) (key : K) (value : V) : Prop :=
  s.entries.lookup key = some (.memo value)

/-- The key is marked as in flight, with this event. -/
def InFlight (s : SingleflightCache K V) (key : K) (event : EventId) : Prop :=
  s.entries.lookup key = some (.inFlight event)

variable {s : SingleflightCache K V} {key k : K} {value v : V} {event : EventId}

/-- **What a claim can be**: a hit, a wait, or a new mark. -/
theorem claim_cases (s : SingleflightCache K V) (key : K) :
    (∃ value, s.Memo key value ∧ s.claim key = (s, .hit value)) ∨
      (∃ event, s.InFlight key event ∧ s.claim key = (s, .wait event)) ∨
      s.entries.lookup key = none ∧
        s.claim key = (⟨s.entries.insert key (.inFlight s.nextEvent), s.nextEvent + 1⟩,
          .resolve s.nextEvent) := by
  unfold claim
  rcases hl : s.entries.lookup key with - | entry
  · exact .inr (.inr ⟨rfl, rfl⟩)
  · cases entry with
    | memo value => exact .inl ⟨value, hl, rfl⟩
    | inFlight event => exact .inr (.inl ⟨event, hl, rfl⟩)

theorem not_memo_new : ¬(new : SingleflightCache K V).Memo k v := by
  simp [Memo, new]

/-- Claiming memoises nothing. -/
theorem memo_of_claim (h : (s.claim key).1.Memo k v) : s.Memo k v := by
  unfold claim at h
  split at h
  · exact h
  · exact h
  · simp only [Memo] at h
    rcases eq_or_ne k key with rfl | hk
    · rw [Finmap.lookup_insert] at h
      cases h
    · rwa [Finmap.lookup_insert_of_ne _ hk] at h

theorem memo_of_invalidate (h : (s.invalidate key).Memo k v) : s.Memo k v := by
  simp only [Memo, invalidate] at h
  rcases eq_or_ne k key with rfl | hk
  · rw [Finmap.lookup_erase] at h
    cases h
  · rwa [Finmap.lookup_erase_ne hk] at h

/-- What is invalidated is forgotten. -/
theorem not_memo_invalidate : ¬(s.invalidate key).Memo key v := by
  rw [Memo, invalidate, Finmap.lookup_erase]
  exact fun h => by cases h

theorem memo_of_releaseFailed (h : (s.releaseFailed key).Memo k v) : s.Memo k v :=
  memo_of_invalidate h

/-- A resolver memoises its own value under its own key. -/
theorem memo_of_releaseDone (h : (s.releaseDone key value).Memo k v) :
    k = key ∧ v = value ∨ s.Memo k v := by
  simp only [Memo, releaseDone] at h
  rcases eq_or_ne k key with rfl | hk
  · rw [Finmap.lookup_insert] at h
    cases h
    exact .inl ⟨rfl, rfl⟩
  · rw [Finmap.lookup_insert_of_ne _ hk] at h
    exact .inr h

theorem not_inFlight_new : ¬(new : SingleflightCache K V).InFlight k event := by
  simp [InFlight, new]

/-- The mark of a claim is the new event, under the key that was claimed. -/
theorem inFlight_mark_iff :
    InFlight ⟨s.entries.insert key (.inFlight s.nextEvent), s.nextEvent + 1⟩ k event ↔
      if k = key then event = s.nextEvent else s.InFlight k event := by
  rw [InFlight]
  split
  · rename_i hk
    rw [hk, Finmap.lookup_insert, Option.some.injEq, StoreEntry.inFlight.injEq, eq_comm]
  · rename_i hk
    rw [Finmap.lookup_insert_of_ne _ hk, InFlight]

/-- Dropping an entry drops a mark as well. -/
theorem inFlight_invalidate_iff : (s.invalidate key).InFlight k event ↔
    k ≠ key ∧ s.InFlight k event := by
  rw [InFlight, invalidate]
  rcases eq_or_ne k key with rfl | hk
  · simp
  · rw [Finmap.lookup_erase_ne hk, and_iff_right hk, InFlight]

theorem inFlight_releaseFailed_iff : (s.releaseFailed key).InFlight k event ↔
    k ≠ key ∧ s.InFlight k event :=
  inFlight_invalidate_iff

theorem inFlight_releaseDone_iff : (s.releaseDone key value).InFlight k event ↔
    k ≠ key ∧ s.InFlight k event := by
  rw [InFlight, releaseDone]
  rcases eq_or_ne k key with rfl | hk
  · simp
  · rw [Finmap.lookup_insert_of_ne _ hk, and_iff_right hk, InFlight]

end SingleflightCache

end Symbolon
