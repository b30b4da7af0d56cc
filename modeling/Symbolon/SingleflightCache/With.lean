import Symbolon.Lib.Run
import Symbolon.SingleflightCache

/-!
# Concurrent calls of the memo

`SingleflightCache::with` of `src/singleflight_cache.rs`, called any number of times, on
any keys, from the tasks of one thread. A call claims its key, and what it gets decides
how it goes on. It returns the memoised value; or it listens to the event of whoever is
resolving the key, and claims again when it has been notified; or it resolves the key
itself, and holds an `InFlightGuard` until that has ended.

A guard is dropped when the resolution has succeeded, when it has failed, and when the call
is cancelled in the middle of it. What the guard then does is the same in all three cases
but for what it leaves under the key (`Symbolon.SingleflightCache.Flights.release`): a memo
after a success, nothing otherwise. It notifies everybody who listens to its event, whether
the map still has the event or not.

What a call resolves with is up to the caller, so an end of the resolution with any result
can happen at any moment (`Symbolon.SingleflightCache.WithEvent.resolved`). A key can be
invalidated at any moment, too.
-/

namespace Symbolon

namespace SingleflightCache

universe u v w

variable (K : Type u) (V : Type v) (E : Type w)

/-- Where a call is. -/
inductive WithPc
  /-- Between two awaits. -/
  | running
  /-- In the `Wait` arm, listening to an event. -/
  | waiting (event : EventId) (notified : Bool)
  /-- In the `Resolve` arm, with the guard of this event. -/
  | resolving (event : EventId)
  /-- It has returned. -/
  | returned (result : Except E V)
  /-- It has been cancelled. -/
  | dropped
  deriving DecidableEq

/-- A call of `with`. -/
structure WithCall where
  /-- The key it is for. -/
  key : K
  /-- Where it is. -/
  pc : WithPc V E
  deriving DecidableEq

/-- **The memo, with the calls on it**, in the order they were made. -/
structure Flights where
  /-- The memo. -/
  cache : SingleflightCache K V
  /-- The calls. -/
  tasks : List (WithCall K V E)

/-- What can happen. -/
inductive WithEvent
  /-- `with` is called. -/
  | call (key : K)
  /-- A call that has been notified runs again. -/
  | wake (task : ℕ)
  /-- The closure of a resolving call returns. -/
  | resolved (task : ℕ) (result : Except E V)
  /-- A call is cancelled at an await. -/
  | drop (task : ℕ)
  /-- `invalidate` is called. -/
  | invalidate (key : K)

/-- What comes of it. -/
inductive WithOutput
  /-- A call returns what was memoised. -/
  | hit
  /-- A call begins to listen to an event. -/
  | listens (event : EventId)
  /-- A call begins to resolve, with the guard of a new event. -/
  | resolves (event : EventId)
  /-- The guard of an event is dropped, and has notified it. -/
  | releases (event : EventId)
  /-- Nothing more. -/
  | quiet
  deriving DecidableEq

variable {K V E}

/-- A call that does not go on. -/
inductive WithPc.Over : WithPc V E → Prop
  /-- It has returned. -/
  | returned (result : Except E V) : Over (.returned result)
  /-- It has been cancelled. -/
  | dropped : Over .dropped

namespace Flights

variable [DecidableEq K] (c : Flights K V E)

/-- The memo before the first call. -/
def new : Flights K V E := ⟨.new, []⟩

/-- Move a call. -/
def setPc (i : ℕ) (pc : WithPc V E) : Flights K V E :=
  { c with tasks := c.tasks.modify i fun t => { t with pc := pc } }

/-- Notify a call, if it listens to the event. -/
def wakeUp (event : EventId) (t : WithCall K V E) : WithCall K V E :=
  match t.pc with
  | .waiting ev _ => if ev = event then { t with pc := .waiting ev true } else t
  | _ => t

/-- `Event::notify`: every listener is woken. -/
def notify (event : EventId) : Flights K V E := { c with tasks := c.tasks.map (wakeUp event) }

/-- One turn of the loop of `with`. -/
def claim (i : ℕ) (key : K) : Flights K V E × WithOutput :=
  let c' := { c with cache := (c.cache.claim key).1 }
  match (c.cache.claim key).2 with
  | .hit value => (c'.setPc i (.returned (.ok value)), .hit)
  | .wait event => (c'.setPc i (.waiting event false), .listens event)
  | .resolve event => (c'.setPc i (.resolving event), .resolves event)

/-- `InFlightGuard::drop`: the key is released, with a value or without, and the event
notified. -/
def release (key : K) (event : EventId) (value : Option V) : Flights K V E :=
  let cache :=
    match value with
    | some v => c.cache.releaseDone key v
    | none => c.cache.releaseFailed key
  notify { c with cache } event

/-- **The memo under concurrent calls**; `none` when an event cannot happen. -/
def next : WithEvent K V E → Option (Flights K V E × WithOutput)
  | .call key => some (claim { c with tasks := c.tasks ++ [⟨key, .running⟩] } c.tasks.length key)
  | .wake i =>
    match c.tasks[i]? with
    | some ⟨key, .waiting _ true⟩ => some (c.claim i key)
    | _ => none
  | .resolved i result =>
    match c.tasks[i]? with
    | some ⟨key, .resolving event⟩ =>
      some ((c.release key event result.toOption).setPc i (.returned result), .releases event)
    | _ => none
  | .drop i =>
    match c.tasks[i]? with
    | some ⟨_, .waiting _ _⟩ => some (c.setPc i .dropped, .quiet)
    | some ⟨key, .resolving event⟩ =>
      some ((c.release key event none).setPc i .dropped, .releases event)
    | _ => none
  | .invalidate key => some ({ c with cache := c.cache.invalidate key }, .quiet)

/-- The steps. -/
def Step : Flights K V E → WithEvent K V E × WithOutput → Flights K V E → Prop := Lts.ofFun next

/-- The runs. -/
abbrev Run : Flights K V E → List (WithEvent K V E × WithOutput) → Flights K V E → Prop :=
  Lts.Run Step

/-! ### What a step can be -/

/-- A call is about to claim its key: it has just been made, or it has been notified. -/
inductive Enters (c : Flights K V E) : WithEvent K V E → Flights K V E → ℕ → K → Prop
  /-- It has just been made. -/
  | call (key : K) :
      Enters c (.call key) { c with tasks := c.tasks ++ [⟨key, .running⟩] } c.tasks.length key
  /-- It has been notified. -/
  | wake {i : ℕ} {key : K} {event : EventId}
      (h : c.tasks[i]? = some ⟨key, .waiting event true⟩) : Enters c (.wake i) c i key

/-- **What a step can be.** -/
inductive Moves (c : Flights K V E) : WithEvent K V E × WithOutput → Flights K V E → Prop
  /-- A call finds its key in the memo. -/
  | hit {e : WithEvent K V E} {c₁ : Flights K V E} {i : ℕ} {key : K} {value : V}
      (he : Enters c e c₁ i key) (hm : c₁.cache.Memo key value) :
      Moves c (e, .hit) (c₁.setPc i (.returned (.ok value)))
  /-- A call finds its key in flight. -/
  | listen {e : WithEvent K V E} {c₁ : Flights K V E} {i : ℕ} {key : K} {event : EventId}
      (he : Enters c e c₁ i key) (hm : c₁.cache.InFlight key event) :
      Moves c (e, .listens event) (c₁.setPc i (.waiting event false))
  /-- A call finds nothing, and marks the key. -/
  | resolve {e : WithEvent K V E} {c₁ : Flights K V E} {i : ℕ} {key : K}
      (he : Enters c e c₁ i key) (hm : c₁.cache.entries.lookup key = none) :
      Moves c (e, .resolves c₁.cache.nextEvent)
        (setPc ⟨⟨c₁.cache.entries.insert key (.inFlight c₁.cache.nextEvent),
          c₁.cache.nextEvent + 1⟩, c₁.tasks⟩ i (.resolving c₁.cache.nextEvent))
  /-- A guard is dropped. -/
  | release {e : WithEvent K V E} {i : ℕ} {key : K} {event : EventId} {pc : WithPc V E}
      (value : Option V) (ht : c.tasks[i]? = some ⟨key, .resolving event⟩) (hpc : pc.Over) :
      Moves c (e, .releases event) ((c.release key event value).setPc i pc)
  /-- A listener is cancelled. -/
  | leave {i : ℕ} {key : K} {event : EventId} {notified : Bool}
      (ht : c.tasks[i]? = some ⟨key, .waiting event notified⟩) :
      Moves c (.drop i, .quiet) (c.setPc i .dropped)
  /-- A key is invalidated. -/
  | invalidate (key : K) :
      Moves c (.invalidate key, .quiet) { c with cache := c.cache.invalidate key }

variable {c} {c' : Flights K V E}

/-- A claim, by what it finds. -/
theorem Enters.moves {e : WithEvent K V E} {c₁ : Flights K V E} {i : ℕ} {key : K}
    (he : Enters c e c₁ i key) : Moves c (e, (c₁.claim i key).2) (c₁.claim i key).1 := by
  unfold claim
  obtain ⟨value, hm, hc⟩ | ⟨event, hm, hc⟩ | ⟨hm, hc⟩ := claim_cases c₁.cache key
  · rw [hc]
    exact .hit he hm
  · rw [hc]
    exact .listen he hm
  · rw [hc]
    exact .resolve he hm

theorem Step.moves {l : WithEvent K V E × WithOutput} (h : Step c l c') : Moves c l c' := by
  obtain ⟨e, o⟩ := l
  change c.next e = some (c', o) at h
  cases e with
  | call key =>
    have hmoves := (Enters.call (c := c) key).moves
    rwa [Option.some.inj h] at hmoves
  | wake i =>
    simp only [next] at h
    split at h
    · rename_i ht
      have hmoves := (Enters.wake ht).moves
      rwa [Option.some.inj h] at hmoves
    · cases h
  | resolved i result =>
    simp only [next] at h
    split at h
    · rename_i ht
      cases h
      exact .release _ ht (.returned result)
    · cases h
  | drop i =>
    simp only [next] at h
    split at h
    · rename_i ht
      cases h
      exact .leave ht
    · rename_i ht
      cases h
      exact .release _ ht .dropped
    · cases h
  | invalidate key =>
    cases h
    exact .invalidate key

end Flights

end SingleflightCache

end Symbolon
