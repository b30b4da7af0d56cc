import Mathlib.Algebra.Order.Ring.Nat
import Symbolon.Lib.Run

/-!
# The tracker of connections

`src/connection_tracker.rs`. Every accept loop has a tracker: it counts the handlers that have not
finished, and `drain` waits until there are none, or until a deadline. Each handler has a token
whose drop takes one from the count, whether the handler returns, panics or is timed out, and
notifies whoever listens when the count is zero. `drain` listens before it looks at the count. Its
steps are taken apart here, down to those between which nothing is awaited, so that handlers may
finish anywhere in between.

The count is the number of handlers that have not finished, and no notification is missed
(`Symbolon.ConnectionTracker.Sound`). On an executor that is not late, a `drain` that gives up
does so at its deadline, and if no handler may take longer than `drain` waits, one of them was
first polled at the very moment at which `drain` began
(`Symbolon.ConnectionTracker.Punctual`).
-/

namespace Symbolon

/-! ### The source -/

/-- What `ConnectionTracker::new` is told. -/
structure TrackerConfig where
  /-- How long a handler may take. -/
  perHandlerTimeout : ℕ
  /-- How long `drain` waits. -/
  drainDeadline : ℕ

/-- `DrainStats`. -/
structure DrainStats where
  /-- How many handlers finished during the drain. -/
  inflightDrained : ℕ
  /-- There were none left. -/
  drainComplete : Bool
  deriving DecidableEq

namespace ConnectionTracker

/-- A handler. -/
inductive Handler
  /-- It has been spawned. -/
  | spawned
  /-- It was polled first at this time. -/
  | running (since : ℕ)
  /-- Its token has been dropped. -/
  | finished (since : ℕ)
  deriving DecidableEq

/-- The handler has its token. -/
def Handler.busy : Handler → Bool
  | .spawned | .running _ => true
  | .finished _ => false

/-- When the handler was polled first. -/
def Handler.since : Handler → Option ℕ
  | .spawned => none
  | .running since | .finished since => some since

/-- What `drain` knows from its beginning. -/
structure Begun where
  /-- When it began. -/
  start : ℕ
  /-- How many handlers there were. -/
  initial : ℕ
  deriving DecidableEq

/-- Where `drain` is. -/
inductive Drain
  /-- It has not been called. -/
  | idle
  /-- At the top of its loop. -/
  | top (b : Begun)
  /-- It listens. -/
  | listening (b : Begun) (notified : Bool)
  /-- It has looked at the count and at the clock. -/
  | checked (b : Begun) (notified : Bool) (remaining : ℕ)
  /-- It awaits the notification, or its timer. -/
  | waiting (b : Begun) (notified : Bool) (expiry : ℕ)
  /-- It has returned. -/
  | done (stats : DrainStats)
  deriving DecidableEq

/-- `notify`: whoever listens is told. -/
def Drain.notify : Drain → Drain
  | .listening b _ => .listening b true
  | .checked b _ remaining => .checked b true remaining
  | .waiting b _ expiry => .waiting b true expiry
  | .idle => .idle
  | .top b => .top b
  | .done stats => .done stats

end ConnectionTracker

open ConnectionTracker in
/-- **A tracker**, with the handlers it has spawned and the call of `drain`. -/
structure ConnectionTracker where
  /-- The count. -/
  active : ℕ
  /-- The handlers, in the order in which they were spawned. -/
  handlers : List Handler
  /-- The call. -/
  drain : Drain
  deriving DecidableEq

namespace ConnectionTracker

/-- `new`. -/
def new : ConnectionTracker := ⟨0, [], .idle⟩

/-- `spawn`. -/
def spawn (t : ConnectionTracker) : ConnectionTracker :=
  { t with active := t.active + 1, handlers := t.handlers ++ [.spawned] }

/-- `drain` is called. -/
def beginDrain (t : ConnectionTracker) (now : ℕ) : ConnectionTracker :=
  { t with drain := .top ⟨now, t.active⟩ }

/-- The drop of a token. -/
def dropToken (t : ConnectionTracker) : ConnectionTracker :=
  { t with active := t.active - 1, drain := if t.active - 1 = 0 then t.drain.notify else t.drain }

/-- `drain` returns. -/
def finishDrain (t : ConnectionTracker) (b : Begun) (drainComplete : Bool) : ConnectionTracker :=
  { t with drain := .done ⟨b.initial - t.active, drainComplete⟩ }

/-- What happens to a tracker. -/
inductive Event
  /-- A handler is polled for the first time. -/
  | poll (i : ℕ)
  /-- A handler returns, or panics. -/
  | finish (i : ℕ)
  /-- The timer of a handler fires. -/
  | timeout (i : ℕ)
  /-- `drain` goes on. -/
  | drain
  /-- The timer of `drain` fires. -/
  | expire
  deriving DecidableEq

variable (c : TrackerConfig) (now : ℕ)

/-- `drain` goes on, if what it awaits is there. -/
def advance (t : ConnectionTracker) : Option ConnectionTracker :=
  match t.drain with
  | .idle | .done _ => none
  | .top b => some { t with drain := .listening b false }
  | .listening b notified =>
    if t.active = 0 then some (t.finishDrain b true)
    else if c.drainDeadline ≤ now - b.start then some (t.finishDrain b false)
    else some { t with drain := .checked b notified (c.drainDeadline - (now - b.start)) }
  | .checked b notified remaining =>
    some { t with drain := .waiting b notified (now + remaining) }
  | .waiting b notified _ => if notified then some { t with drain := .top b } else none

/-- **One event**; `none` when it cannot happen. -/
def next (t : ConnectionTracker) : Event → Option ConnectionTracker
  | .poll i =>
    match t.handlers[i]? with
    | some .spawned => some { t with handlers := t.handlers.set i (.running now) }
    | _ => none
  | .finish i =>
    match t.handlers[i]? with
    | some (.running since) =>
      some { t.dropToken with handlers := t.handlers.set i (.finished since) }
    | _ => none
  | .timeout i =>
    match t.handlers[i]? with
    | some (.running since) =>
      if since + c.perHandlerTimeout ≤ now then
        some { t.dropToken with handlers := t.handlers.set i (.finished since) }
      else none
    | _ => none
  | .drain => t.advance c now
  | .expire =>
    match t.drain with
    | .waiting b _ expiry => if expiry ≤ now then some (t.finishDrain b false) else none
    | _ => none

/-! ### What an event does -/

/-- **What an event can be.** -/
inductive Moves (t : ConnectionTracker) : Event → ConnectionTracker → Prop
  /-- A handler is polled for the first time. -/
  | poll {i : ℕ} (hi : t.handlers[i]? = some .spawned) :
      Moves t (.poll i) { t with handlers := t.handlers.set i (.running now) }
  /-- A handler loses its token. -/
  | finish {i : ℕ} {since : ℕ} {e : Event} (hi : t.handlers[i]? = some (.running since))
      (he : e = .finish i ∨ e = .timeout i ∧ since + c.perHandlerTimeout ≤ now) :
      Moves t e { t.dropToken with handlers := t.handlers.set i (.finished since) }
  /-- `drain` begins to listen. -/
  | listen {b : Begun} (hd : t.drain = .top b) :
      Moves t .drain { t with drain := .listening b false }
  /-- There is no handler left. -/
  | complete {b : Begun} {notified : Bool} (hd : t.drain = .listening b notified)
      (hactive : t.active = 0) : Moves t .drain (t.finishDrain b true)
  /-- The deadline is over. -/
  | late {b : Begun} {notified : Bool} (hd : t.drain = .listening b notified)
      (hactive : t.active ≠ 0) (hlate : c.drainDeadline ≤ now - b.start) :
      Moves t .drain (t.finishDrain b false)
  /-- It is not. -/
  | check {b : Begun} {notified : Bool} (hd : t.drain = .listening b notified)
      (hactive : t.active ≠ 0) (hearly : now - b.start < c.drainDeadline) :
      Moves t .drain { t with drain := .checked b notified (c.drainDeadline - (now - b.start)) }
  /-- `drain` waits. -/
  | wait {b : Begun} {notified : Bool} {remaining : ℕ}
      (hd : t.drain = .checked b notified remaining) :
      Moves t .drain { t with drain := .waiting b notified (now + remaining) }
  /-- It has been notified. -/
  | wake {b : Begun} {expiry : ℕ} (hd : t.drain = .waiting b true expiry) :
      Moves t .drain { t with drain := .top b }
  /-- Its timer fires. -/
  | expire {b : Begun} {notified : Bool} {expiry : ℕ}
      (hd : t.drain = .waiting b notified expiry) (hexpiry : expiry ≤ now) :
      Moves t .expire (t.finishDrain b false)

variable {c now} {t t' : ConnectionTracker} {e : Event}

theorem moves_of_next (h : t.next c now e = some t') : Moves c now t e t' := by
  cases e with
  | poll i =>
    simp only [next] at h
    split at h
    · rename_i hi
      cases h
      exact .poll hi
    · cases h
  | finish i =>
    simp only [next] at h
    split at h
    · rename_i hi
      cases h
      exact .finish hi (.inl rfl)
    · cases h
  | timeout i =>
    simp only [next] at h
    split at h
    · rename_i hi
      split at h
      · rename_i hdue
        cases h
        exact .finish hi (.inr ⟨rfl, hdue⟩)
      · cases h
    · cases h
  | drain =>
    simp only [next, advance] at h
    split at h
    · cases h
    · cases h
    · rename_i hd
      cases h
      exact .listen hd
    · rename_i hd
      split at h
      · rename_i hactive
        cases h
        exact .complete hd hactive
      · rename_i hactive
        split at h
        · rename_i hlate
          cases h
          exact .late hd hactive hlate
        · rename_i hearly
          cases h
          exact .check hd hactive (Nat.lt_of_not_le hearly)
    · rename_i hd
      cases h
      exact .wait hd
    · rename_i hd
      split at h
      · rename_i hyes
        cases h
        exact .wake (hyes ▸ hd)
      · cases h
  | expire =>
    simp only [next] at h
    split at h
    · rename_i hd
      split at h
      · rename_i hexpiry
        cases h
        exact .expire hd hexpiry
      · cases h
    · cases h

/-! ### The count, and the notification -/

namespace Drain

/-- What is known from the beginning, while `drain` runs. -/
def begun : Drain → Option Begun
  | .top b | .listening b _ | .checked b _ _ | .waiting b _ _ => some b
  | .idle | .done _ => none

/-- The listener has been notified. -/
def notified : Drain → Bool
  | .listening _ notified | .checked _ notified _ | .waiting _ notified _ => notified
  | .idle | .top _ | .done _ => false

/-- `drain` has seen that there are handlers, and does not look again before it is notified. -/
def armed : Drain → Bool
  | .checked _ _ _ | .waiting _ _ _ => true
  | .idle | .top _ | .listening _ _ | .done _ => false

@[simp] theorem begun_notify (d : Drain) : d.notify.begun = d.begun := by
  cases d <;> rfl

@[simp] theorem armed_notify (d : Drain) : d.notify.armed = d.armed := by
  cases d <;> rfl

theorem notified_notify_of_armed {d : Drain} (h : d.armed = true) : d.notify.notified = true := by
  cases d with
  | checked | waiting => rfl
  | idle | top | listening | done => cases h

theorem notify_eq_of_begun {d : Drain} (h : d.begun = none) : d.notify = d := by
  cases d with
  | idle | done => rfl
  | top | listening | checked | waiting => cases h

theorem exists_of_notify_eq_checked {d : Drain} {b : Begun} {n : Bool} {r : ℕ}
    (h : d.notify = .checked b n r) : ∃ n', d = .checked b n' r := by
  cases d with
  | checked b' n' r' =>
    cases h
    exact ⟨n', rfl⟩
  | idle | top | listening | waiting | done => cases h

theorem exists_of_notify_eq_waiting {d : Drain} {b : Begun} {n : Bool} {x : ℕ}
    (h : d.notify = .waiting b n x) : ∃ n', d = .waiting b n' x := by
  cases d with
  | waiting b' n' x' =>
    cases h
    exact ⟨n', rfl⟩
  | idle | top | listening | checked | done => cases h

@[simp] theorem notify_eq_done {d : Drain} {stats : DrainStats} :
    d.notify = .done stats ↔ d = .done stats := by
  cases d <;> simp [notify]

end Drain

/-- **The count is right, and no notification is missed.** -/
structure Sound (t : ConnectionTracker) : Prop where
  /-- The count is that of the handlers that have a token. -/
  count : t.active = t.handlers.countP Handler.busy
  /-- No handler is spawned any more once `drain` has been called. -/
  initial : ∀ b, t.drain.begun = some b → t.active ≤ b.initial
  /-- A notification means that there are no handlers. -/
  told : t.drain.notified = true → t.active = 0
  /-- When there are none, `drain` has been notified, if it does not look. -/
  heard : t.drain.armed = true → t.active = 0 → t.drain.notified = true
  /-- It says so only if there are none. -/
  ended : ∀ n, t.drain = .done ⟨n, true⟩ → t.active = 0

theorem sound_new : Sound new where
  count := rfl
  initial := by simp [new, Drain.begun]
  told _ := rfl
  heard := by simp [new, Drain.armed]
  ended _ _ := rfl

theorem Sound.spawn (h : Sound t) (hidle : t.drain = .idle) : Sound t.spawn where
  count := by simp [ConnectionTracker.spawn, List.countP_append, Handler.busy, h.count]
  initial := by simp [ConnectionTracker.spawn, hidle, Drain.begun]
  told := by simp [ConnectionTracker.spawn, hidle, Drain.notified]
  heard := by simp [ConnectionTracker.spawn, hidle, Drain.armed]
  ended := by simp [ConnectionTracker.spawn, hidle]

theorem Sound.beginDrain (h : Sound t) (now : ℕ) : Sound (t.beginDrain now) where
  count := h.count
  initial b hb := by
    cases hb
    exact le_rfl
  told h := by cases h
  heard h := by cases h
  ended _ h := by cases h

/-- A handler that is replaced by one that has its token as well. -/
theorem countP_set_of_busy {l : List Handler} {i : ℕ} {h : Handler} (h' : Handler)
    (hi : l[i]? = some h) (hb : h.busy = h'.busy) :
    (l.set i h').countP Handler.busy = l.countP Handler.busy := by
  obtain ⟨hlt, -⟩ := List.getElem?_eq_some_iff.mp hi
  conv_rhs => rw [Lts.eq_take_append_cons hi]
  rw [List.set_eq_take_append_cons_drop, if_pos hlt]
  simp [List.countP_append, List.countP_cons, hb]

/-- A handler that loses its token. -/
theorem countP_set_finished {l : List Handler} {i : ℕ} {since : ℕ}
    (hi : l[i]? = some (.running since)) :
    (l.set i (.finished since)).countP Handler.busy + 1 = l.countP Handler.busy := by
  obtain ⟨hlt, -⟩ := List.getElem?_eq_some_iff.mp hi
  conv_rhs => rw [Lts.eq_take_append_cons hi]
  rw [List.set_eq_take_append_cons_drop, if_pos hlt]
  simp only [List.countP_append, List.countP_cons, Handler.busy]
  simp only [Bool.false_eq_true, if_false, if_true]
  omega

theorem Sound.active_pos (h : Sound t) {i : ℕ} {since : ℕ}
    (hi : t.handlers[i]? = some (.running since)) : 0 < t.active := by
  rw [h.count, ← countP_set_finished hi]
  exact Nat.succ_pos _

theorem Sound.moves (h : Sound t) (hm : Moves c now t e t') : Sound t' := by
  cases hm with
  | poll hi =>
    have hcount := countP_set_of_busy (.running now) hi rfl
    exact ⟨h.count.trans hcount.symm, h.initial, h.told, h.heard, h.ended⟩
  | @finish i since _ hi =>
    have hcount := countP_set_finished hi
    have hactive := h.count
    refine ⟨?_, fun b hb => ?_, fun hn => ?_, fun ha hz => ?_, fun n hn => ?_⟩
    · simp only [dropToken]
      omega
    · have hb' : t.drain.begun = some b := by
        simp only [dropToken] at hb
        split at hb
        · rwa [Drain.begun_notify] at hb
        · exact hb
      have := h.initial b hb'
      simp only [dropToken]
      omega
    · simp only [dropToken] at hn ⊢
      split at hn
      · assumption
      · have := h.told hn
        omega
    · simp only [dropToken] at ha hz ⊢
      rw [if_pos hz] at ha ⊢
      exact Drain.notified_notify_of_armed (by rwa [Drain.armed_notify] at ha)
    · have hn' : t.drain = .done ⟨n, true⟩ := by
        simp only [dropToken] at hn
        split at hn
        · exact Drain.notify_eq_done.mp hn
        · exact hn
      have := h.ended n hn'
      simp only [dropToken]
      omega
  | listen hd =>
    refine ⟨h.count, fun b hb => h.initial b ?_, ?_, ?_, ?_⟩
    · rw [hd]
      exact hb
    · simp [Drain.notified]
    · simp [Drain.armed]
    · simp
  | complete hd hactive =>
    exact ⟨h.count, by simp [finishDrain, Drain.begun], by simp [finishDrain, Drain.notified],
      by simp [finishDrain, Drain.armed], fun _ _ => hactive⟩
  | late | expire =>
    exact ⟨h.count, by simp [finishDrain, Drain.begun], by simp [finishDrain, Drain.notified],
      by simp [finishDrain, Drain.armed], by simp [finishDrain]⟩
  | check hd hactive =>
    refine ⟨h.count, fun b hb => h.initial b ?_, fun hn => h.told ?_,
      fun _ hz => absurd hz hactive, by simp⟩
    · rw [hd]
      exact hb
    · rw [hd]
      exact hn
  | wait hd =>
    refine ⟨h.count, fun b hb => h.initial b ?_, fun hn => h.told ?_, fun _ hz => ?_, by simp⟩
    · rw [hd]
      exact hb
    · rw [hd]
      exact hn
    · have := h.heard (by rw [hd]; rfl) hz
      rwa [hd] at this
  | wake hd =>
    refine ⟨h.count, fun b hb => h.initial b ?_, ?_, ?_, by simp⟩
    · rw [hd]
      exact hb
    · simp [Drain.notified]
    · simp [Drain.armed]

theorem drain_dropToken (t : ConnectionTracker) :
    t.dropToken.drain = t.drain ∨ t.dropToken.drain = t.drain.notify := by
  simp only [dropToken]
  split
  · exact .inr rfl
  · exact .inl rfl

/-- `drain` goes on or returns, if it runs. -/
theorem drain_of_moves (hm : Moves c now t e t') :
    (t.drain.begun = none ∧ t'.drain = t.drain) ∨
      ∃ b, t.drain.begun = some b ∧
        (t'.drain.begun = some b ∨ ∃ stats, t'.drain = .done stats) := by
  have hsame : ∀ {d : Drain}, d.begun = t.drain.begun →
      (t.drain.begun = none → d = t.drain) →
      (t.drain.begun = none ∧ d = t.drain) ∨
        ∃ b, t.drain.begun = some b ∧ (d.begun = some b ∨ ∃ stats, d = .done stats) := by
    intro d hd hnone
    cases hb : t.drain.begun with
    | none => exact .inl ⟨rfl, hnone hb⟩
    | some b => exact .inr ⟨b, rfl, .inl (hd.trans hb)⟩
  cases hm with
  | poll => exact hsame rfl fun _ => rfl
  | finish =>
    rcases drain_dropToken t with hd | hd
    · exact hd ▸ hsame rfl fun _ => rfl
    · exact hd ▸ hsame (Drain.begun_notify _) Drain.notify_eq_of_begun
  | listen hd | wait hd | wake hd | check hd =>
    rw [hd]
    exact .inr ⟨_, rfl, .inl rfl⟩
  | complete hd | late hd | expire hd =>
    rw [hd]
    exact .inr ⟨_, rfl, .inr ⟨_, rfl⟩⟩

/-- The event is the end of a handler. -/
def Event.ends : Event → Bool
  | .finish _ | .timeout _ => true
  | .poll _ | .drain | .expire => false

/-- The count goes down by one with every end. -/
theorem active_of_moves (h : Sound t) (hm : Moves c now t e t') :
    t'.active + (if e.ends then 1 else 0) = t.active := by
  cases hm with
  | finish hi he =>
    have hpos := h.active_pos hi
    have hends : e.ends = true := by
      rcases he with rfl | ⟨rfl, -⟩ <;> rfl
    rw [if_pos hends]
    simp only [dropToken]
    omega
  | _ => rfl

theorem Sound.active_eq_zero_iff (h : Sound t) :
    t.active = 0 ↔ ∀ g ∈ t.handlers, g.busy = false := by
  rw [h.count, List.countP_eq_zero]
  simp only [Bool.not_eq_true]

/-- `drain` is not asleep when there are no handlers. -/
theorem Sound.exists_advance (h : Sound t) (hactive : t.active = 0) {b : Begun}
    (hb : t.drain.begun = some b) : ∃ t', t.advance c now = some t' := by
  cases hd : t.drain with
  | idle | done =>
    rw [hd] at hb
    cases hb
  | top => exact ⟨_, by rw [advance, hd]⟩
  | listening => exact ⟨_, by rw [advance, hd]; exact if_pos hactive⟩
  | checked => exact ⟨_, by rw [advance, hd]⟩
  | waiting b' notified expiry =>
    have hnotified : notified = true := by
      have := h.heard (by rw [hd]; rfl) hactive
      rwa [hd] at this
    exact ⟨_, by rw [advance, hd]; exact if_pos hnotified⟩

/-! ### The deadline -/

/-- `drain` does not give up before its deadline, however late it is polled. -/
structure Patient (c : TrackerConfig) (now : ℕ) (t : ConnectionTracker) : Prop where
  /-- It has begun. -/
  start : ∀ b, t.drain.begun = some b → b.start ≤ now
  /-- What remains reaches to the deadline. -/
  remaining : ∀ b notified remaining, t.drain = .checked b notified remaining →
    b.start + c.drainDeadline ≤ now + remaining
  /-- So does the timer. -/
  expiry : ∀ b notified expiry, t.drain = .waiting b notified expiry →
    b.start + c.drainDeadline ≤ expiry

theorem Patient.of_idle (hidle : t.drain = .idle) : Patient c now t := by
  refine ⟨?_, ?_, ?_⟩ <;> simp [hidle, Drain.begun]

theorem Patient.beginDrain (t : ConnectionTracker) : Patient c now (t.beginDrain now) where
  start b hb := by
    cases hb
    exact le_rfl
  remaining _ _ _ h := by cases h
  expiry _ _ _ h := by cases h

theorem Patient.mono {now' : ℕ} (h : Patient c now t) (hle : now ≤ now') :
    Patient c now' t where
  start b hb := (h.start b hb).trans hle
  remaining b n r hd := (h.remaining b n r hd).trans (Nat.add_le_add_right hle r)
  expiry := h.expiry

theorem Patient.moves (h : Patient c now t) (hm : Moves c now t e t') : Patient c now t' := by
  cases hm with
  | poll => exact ⟨h.start, h.remaining, h.expiry⟩
  | finish =>
    refine ⟨fun b hb => ?_, fun b n r hd => ?_, fun b n x hd => ?_⟩
    · rcases drain_dropToken t with hdrop | hdrop
      · exact h.start b (hdrop ▸ hb)
      · refine h.start b ?_
        rw [← Drain.begun_notify, ← hdrop]
        exact hb
    · obtain ⟨n', hn'⟩ : ∃ n', t.drain = .checked b n' r := by
        rcases drain_dropToken t with hdrop | hdrop
        · exact ⟨n, hdrop ▸ hd⟩
        · exact Drain.exists_of_notify_eq_checked (hdrop ▸ hd)
      exact h.remaining b n' r hn'
    · obtain ⟨n', hn'⟩ : ∃ n', t.drain = .waiting b n' x := by
        rcases drain_dropToken t with hdrop | hdrop
        · exact ⟨n, hdrop ▸ hd⟩
        · exact Drain.exists_of_notify_eq_waiting (hdrop ▸ hd)
      exact h.expiry b n' x hn'
  | listen hd =>
    refine ⟨fun b hb => h.start b ?_, nofun, nofun⟩
    rw [hd]
    exact hb
  | complete | late | expire =>
    exact ⟨nofun, nofun, nofun⟩
  | @check b _ hd hactive hearly =>
    refine ⟨fun b hb => h.start b ?_, fun b' n r hd' => ?_, nofun⟩
    · rw [hd]
      exact hb
    · cases hd'
      have hstart : b.start ≤ now := h.start b (by rw [hd]; rfl)
      omega
  | wait hd =>
    refine ⟨fun b hb => h.start b ?_, nofun, fun b n x hd' => ?_⟩
    · rw [hd]
      exact hb
    · cases hd'
      exact h.remaining _ _ _ hd
  | wake hd =>
    refine ⟨fun b hb => h.start b ?_, nofun, nofun⟩
    rw [hd]
    exact hb

/-- **How `drain` returns**: with what is true, and without the last handler only after its
deadline. -/
theorem stats_of_moves (hp : Patient c now t) (hm : Moves c now t e t') {b : Begun}
    (hb : t.drain.begun = some b) {stats : DrainStats} (hdone : t'.drain = .done stats) :
    stats.inflightDrained = b.initial - t.active ∧ t'.active = t.active ∧
      t'.handlers = t.handlers ∧
      (stats.drainComplete = true → t.active = 0) ∧
      (stats.drainComplete = false → b.start + c.drainDeadline ≤ now) := by
  cases hm with
  | poll | listen | check | wait | wake => simp_all [Drain.begun]
  | finish =>
    rcases drain_dropToken t with hdrop | hdrop
    · cases (hdrop.symm.trans hdone) ▸ hb
    · cases Drain.notify_eq_done.mp (hdrop.symm.trans hdone) ▸ hb
  | complete hd hactive =>
    rw [hd] at hb
    cases hb
    cases hdone
    exact ⟨rfl, rfl, rfl, fun _ => hactive, nofun⟩
  | late hd _ hlate =>
    have hstart := hp.start b hb
    rw [hd] at hb
    cases hb
    cases hdone
    exact ⟨rfl, rfl, rfl, nofun, fun _ => by omega⟩
  | expire hd hexpiry =>
    have hdue := hp.expiry _ _ _ hd
    rw [hd] at hb
    cases hb
    cases hdone
    exact ⟨rfl, rfl, rfl, nofun, fun _ => hdue.trans hexpiry⟩

/-! ### On time -/

/-- The event does not come from a handler itself. -/
def Event.own : Event → Bool
  | .finish _ => false
  | .poll _ | .timeout _ | .drain | .expire => true

/-- When the timers fire. -/
def timers (c : TrackerConfig) (t : ConnectionTracker) : List ℕ :=
  t.handlers.filterMap (fun
    | .running since => some (since + c.perHandlerTimeout)
    | .spawned | .finished _ => none) ++
  match t.drain with
  | .waiting _ _ expiry => [expiry]
  | _ => []

/-- Nothing is to be done now. -/
def Rests (c : TrackerConfig) (now : ℕ) (t : ConnectionTracker) : Prop :=
  ∀ e : Event, e.own = true → t.next c now e = none

/-- **What holds on an executor that is not late**, which lets time pass only when nothing is to be
done, and no further than to the next timer. -/
structure Punctual (c : TrackerConfig) (now : ℕ) (t : ConnectionTracker) : Prop where
  /-- No handler runs for longer than it may. -/
  running : ∀ since, .running since ∈ t.handlers → now ≤ since + c.perHandlerTimeout
  /-- Handlers were polled in the past. -/
  since : ∀ h ∈ t.handlers, ∀ since, h.since = some since → since ≤ now
  /-- What remains reaches just to the deadline. -/
  remaining : ∀ b notified remaining, t.drain = .checked b notified remaining →
    now + remaining = b.start + c.drainDeadline
  /-- So does the timer. -/
  expiry : ∀ b notified expiry, t.drain = .waiting b notified expiry →
    expiry = b.start + c.drainDeadline
  /-- The deadline is not over before `drain` returns. -/
  deadline : ∀ b, t.drain.begun = some b → b.start ≤ now ∧ now ≤ b.start + c.drainDeadline
  /-- A handler that has not been polled was spawned just now. -/
  fresh : ∀ b, t.drain.begun = some b → .spawned ∈ t.handlers → now = b.start
  /-- All others were polled before `drain` began. -/
  before : ∀ b, t.drain.begun = some b → ∀ h ∈ t.handlers, ∀ since, h.since = some since →
    since ≤ b.start
  /-- `drain` waits only for a handler that may still run. -/
  held : ∀ b, t.drain.begun = some b → now = b.start ∨
    ∃ h ∈ t.handlers, ∃ since, h.since = some since ∧ now ≤ since + c.perHandlerTimeout

theorem punctual_new : Punctual c now new := by
  constructor <;> simp [new, Drain.begun]

theorem Punctual.spawn (h : Punctual c now t) (hidle : t.drain = .idle) :
    Punctual c now t.spawn := by
  refine ⟨fun since hmem => ?_, fun h' hmem since hs => ?_, ?_, ?_, ?_, ?_, ?_, ?_⟩
  · refine h.running since ?_
    simpa [ConnectionTracker.spawn] using hmem
  · rcases List.mem_append.mp hmem with hmem | hmem
    · exact h.since h' hmem since hs
    · cases List.mem_singleton.mp hmem
      cases hs
  all_goals simp [ConnectionTracker.spawn, hidle, Drain.begun]

theorem Punctual.beginDrain (h : Punctual c now t) : Punctual c now (t.beginDrain now) where
  running := h.running
  since := h.since
  remaining := nofun
  expiry := nofun
  deadline b hb := by
    cases hb
    exact ⟨le_rfl, Nat.le_add_right _ _⟩
  fresh b hb _ := by
    cases hb
    rfl
  before b hb := by
    cases hb
    exact h.since
  held b hb := by
    cases hb
    exact .inl rfl

/-- A step of `drain` that goes on. -/
theorem Punctual.of_drain (h : Punctual c now t) {d : Drain} {b : Begun}
    (hb : t.drain.begun = some b) (hb' : d.begun = some b)
    (hremaining : ∀ notified remaining, d = .checked b notified remaining →
      now + remaining = b.start + c.drainDeadline)
    (hexpiry : ∀ notified expiry, d = .waiting b notified expiry →
      expiry = b.start + c.drainDeadline) : Punctual c now { t with drain := d } where
  running := h.running
  since := h.since
  remaining b' n r hd := by
    cases (congrArg Drain.begun hd).symm.trans hb'
    exact hremaining n r hd
  expiry b' n x hd := by
    cases (congrArg Drain.begun hd).symm.trans hb'
    exact hexpiry n x hd
  deadline b' hd := h.deadline b' (hb.trans (hb'.symm.trans hd))
  fresh b' hd := h.fresh b' (hb.trans (hb'.symm.trans hd))
  before b' hd := h.before b' (hb.trans (hb'.symm.trans hd))
  held b' hd := h.held b' (hb.trans (hb'.symm.trans hd))

theorem Punctual.finishDrain (h : Punctual c now t) (b : Begun) (complete : Bool) :
    Punctual c now (t.finishDrain b complete) := by
  refine ⟨h.running, h.since, ?_, ?_, ?_, ?_, ?_, ?_⟩
  all_goals simp [ConnectionTracker.finishDrain, Drain.begun]

/-- A handler that has been polled is so after a change to another, and after its own end. -/
theorem exists_since_set {l : List Handler} {i : ℕ} {h h' : Handler} (hi : l[i]? = some h)
    (hsince : ∀ since, h.since = some since → h'.since = some since) {P : ℕ → Prop}
    (hex : ∃ h ∈ l, ∃ since, h.since = some since ∧ P since) :
    ∃ h ∈ l.set i h', ∃ since, h.since = some since ∧ P since := by
  obtain ⟨g, hg, since, hs, hP⟩ := hex
  obtain ⟨hlt, -⟩ := List.getElem?_eq_some_iff.mp hi
  obtain ⟨j, hj⟩ := List.mem_iff_getElem?.mp hg
  by_cases hij : i = j
  · subst hij
    cases hi.symm.trans hj
    exact ⟨h', List.mem_set hlt h', since, hsince since hs, hP⟩
  · refine ⟨g, List.mem_iff_getElem?.mpr ⟨j, ?_⟩, since, hs, hP⟩
    rw [List.getElem?_set_ne hij]
    exact hj

/-- Handlers that have been polled stay so. -/
theorem exists_since_of_moves (hm : Moves c now t e t') {P : ℕ → Prop}
    (hex : ∃ h ∈ t.handlers, ∃ since, h.since = some since ∧ P since) :
    ∃ h ∈ t'.handlers, ∃ since, h.since = some since ∧ P since := by
  cases hm with
  | poll hi => exact exists_since_set hi nofun hex
  | @finish i since _ hi =>
    have hsince : ∀ s, (Handler.running since).since = some s →
        (Handler.finished since).since = some s := fun _ hs => hs
    exact exists_since_set hi hsince hex
  | _ => exact hex

theorem Punctual.poll (h : Punctual c now t) {i : ℕ} (hi : t.handlers[i]? = some .spawned) :
    Punctual c now { t with handlers := t.handlers.set i (.running now) } := by
  have hmem : ∀ {g}, g ∈ t.handlers.set i (.running now) → g ∈ t.handlers ∨ g = .running now :=
    List.mem_or_eq_of_mem_set
  have hspawned : .spawned ∈ t.handlers := List.mem_of_getElem? hi
  refine ⟨fun since hg => ?_, fun g hg since hs => ?_, h.remaining, h.expiry, h.deadline,
    fun b hb hg => ?_, fun b hb g hg since hs => ?_, fun b hb => ?_⟩
  · rcases hmem hg with hg | hg
    · exact h.running since hg
    · cases hg
      exact Nat.le_add_right _ _
  · rcases hmem hg with hg | rfl
    · exact h.since g hg since hs
    · cases hs
      exact le_rfl
  · rcases hmem hg with hg | hg
    · exact h.fresh b hb hg
    · cases hg
  · rcases hmem hg with hg | rfl
    · exact h.before b hb g hg since hs
    · cases hs
      exact (h.fresh b hb hspawned).le
  · have hm : Moves c now t (.poll i) _ := .poll hi
    exact (h.held b hb).imp_right (exists_since_of_moves hm)

theorem Punctual.finish (h : Punctual c now t) {i : ℕ} {since : ℕ}
    (hi : t.handlers[i]? = some (.running since)) :
    Punctual c now { t.dropToken with handlers := t.handlers.set i (.finished since) } := by
  have hbegun : ∀ {b}, t.dropToken.drain.begun = some b → t.drain.begun = some b := by
    intro b hb
    rcases drain_dropToken t with hd | hd
    · rwa [hd] at hb
    · rwa [hd, Drain.begun_notify] at hb
  have hmem : ∀ {g}, g ∈ t.handlers.set i (.finished since) →
      g ∈ t.handlers ∨ g = .finished since := List.mem_or_eq_of_mem_set
  have hself : .running since ∈ t.handlers := List.mem_of_getElem? hi
  refine ⟨fun s hg => ?_, fun g hg s hs => ?_, fun b n r hd => ?_, fun b n x hd => ?_,
    fun b hb => h.deadline b (hbegun hb), fun b hb hg => ?_, fun b hb g hg s hs => ?_,
    fun b hb => ?_⟩
  · rcases hmem hg with hg | hg
    · exact h.running s hg
    · cases hg
  · rcases hmem hg with hg | rfl
    · exact h.since g hg s hs
    · exact h.since _ hself s hs
  · rcases drain_dropToken t with hdrop | hdrop
    · exact h.remaining b n r (hdrop ▸ hd)
    · obtain ⟨n', hn'⟩ := Drain.exists_of_notify_eq_checked (hdrop ▸ hd)
      exact h.remaining b n' r hn'
  · rcases drain_dropToken t with hdrop | hdrop
    · exact h.expiry b n x (hdrop ▸ hd)
    · obtain ⟨n', hn'⟩ := Drain.exists_of_notify_eq_waiting (hdrop ▸ hd)
      exact h.expiry b n' x hn'
  · rcases hmem hg with hg | hg
    · exact h.fresh b (hbegun hb) hg
    · cases hg
  · rcases hmem hg with hg | rfl
    · exact h.before b (hbegun hb) g hg s hs
    · exact h.before b (hbegun hb) _ hself s hs
  · have hm : Moves c now t (.finish i) _ := .finish hi (.inl rfl)
    exact (h.held b (hbegun hb)).imp_right (exists_since_of_moves hm)

theorem Punctual.moves (h : Punctual c now t) (hm : Moves c now t e t') : Punctual c now t' := by
  cases hm with
  | poll hi => exact h.poll hi
  | finish hi => exact h.finish hi
  | listen hd => exact h.of_drain (by rw [hd]; rfl) rfl nofun nofun
  | complete | late | expire => exact h.finishDrain _ _
  | @check b _ hd _ hearly =>
    have hb : t.drain.begun = some b := by rw [hd]; rfl
    refine h.of_drain hb rfl (fun n r hr => ?_) nofun
    cases hr
    have := (h.deadline b hb).1
    omega
  | wait hd =>
    refine h.of_drain (by rw [hd]; rfl) rfl nofun fun n x hx => ?_
    cases hx
    exact h.remaining _ _ _ hd
  | wake hd => exact h.of_drain (by rw [hd]; rfl) rfl nofun nofun

/-- Where `drain` can be while nothing is to be done. -/
theorem waiting_of_rests (hrests : Rests c now t) {b : Begun} (hb : t.drain.begun = some b) :
    ∃ expiry, t.drain = .waiting b false expiry := by
  have hnone : t.advance c now = none := hrests .drain rfl
  cases hd : t.drain with
  | idle | done =>
    rw [hd] at hb
    cases hb
  | waiting b' notified expiry =>
    rw [hd] at hb
    cases hb
    cases notified with
    | false => exact ⟨expiry, rfl⟩
    | true =>
      rw [advance, hd] at hnone
      cases hnone
  | top | checked =>
    rw [advance, hd] at hnone
    cases hnone
  | listening =>
    simp only [advance, hd] at hnone
    split at hnone
    · cases hnone
    · split at hnone <;> cases hnone

theorem spawned_notMem_of_rests (hrests : Rests c now t) : .spawned ∉ t.handlers := by
  intro hmem
  obtain ⟨i, hi⟩ := List.mem_iff_getElem?.mp hmem
  have hnone := hrests (.poll i) rfl
  rw [next, hi] at hnone
  cases hnone

/-- **Time passes** when nothing is to be done, up to the next timer. -/
theorem Punctual.tick (h : Punctual c now t) (hs : Sound t) (hrests : Rests c now t) {later : ℕ}
    (hle : now ≤ later) (htimers : ∀ x ∈ t.timers c, later ≤ x) : Punctual c later t := by
  have hspawned := spawned_notMem_of_rests hrests
  have hrunning : ∀ since, .running since ∈ t.handlers → later ≤ since + c.perHandlerTimeout := by
    intro since hmem
    exact htimers _ (List.mem_append_left _ (List.mem_filterMap.mpr ⟨_, hmem, rfl⟩))
  refine ⟨hrunning, fun g hg since hsince => (h.since g hg since hsince).trans hle,
    fun b n r hd => ?_, h.expiry, fun b hb => ?_, fun _ _ hmem => absurd hmem hspawned, h.before,
    fun b hb => ?_⟩
  · obtain ⟨x, hx⟩ := waiting_of_rests hrests (b := b) (by rw [hd]; rfl)
    cases hx.symm.trans hd
  · obtain ⟨x, hx⟩ := waiting_of_rests hrests hb
    refine ⟨(h.deadline b hb).1.trans hle, ?_⟩
    rw [← h.expiry b false x hx]
    refine htimers x (List.mem_append_right _ ?_)
    rw [hx]
    exact List.mem_singleton_self x
  · -- the notification has not come, so there is a handler, and it is not a new one
    obtain ⟨x, hx⟩ := waiting_of_rests hrests hb
    have hactive : t.active ≠ 0 := by
      intro hzero
      have := hs.heard (by rw [hx]; rfl) hzero
      rw [hx] at this
      cases this
    rw [hs.count] at hactive
    obtain ⟨g, hg, hbusy⟩ := List.countP_pos_iff.mp (Nat.pos_of_ne_zero hactive)
    cases g with
    | spawned => exact absurd hg hspawned
    | finished => cases hbusy
    | running since => exact .inr ⟨_, hg, since, rfl, hrunning since hg⟩

/-- **A `drain` that gives up** on an executor that is not late does so at its deadline. If no
handler may take longer than that, one of them was polled first at the moment it began. -/
theorem Punctual.of_gaveUp (h : Punctual c now t) (hp : Patient c now t)
    (hm : Moves c now t e t') {b : Begun} (hb : t.drain.begun = some b) {stats : DrainStats}
    (hdone : t'.drain = .done stats) (hgave : stats.drainComplete = false) :
    now = b.start + c.drainDeadline ∧
      (0 < c.drainDeadline → c.perHandlerTimeout ≤ c.drainDeadline →
        ∃ h ∈ t.handlers, h.since = some b.start) := by
  have hlate := (stats_of_moves hp hm hb hdone).2.2.2.2 hgave
  have hnow : now = b.start + c.drainDeadline := Nat.le_antisymm (h.deadline b hb).2 hlate
  refine ⟨hnow, fun hpos hle => ?_⟩
  rcases h.held b hb with heq | ⟨g, hg, since, hsince, hrun⟩
  · omega
  · have hbefore := h.before b hb g hg since hsince
    have heq : since = b.start := by omega
    exact ⟨g, hg, heq ▸ hsince⟩

/-! ### How much there is to do -/

/-- What is to be done for a handler. -/
def Handler.work : Handler → ℕ
  | .spawned => 2
  | .running _ => 1
  | .finished _ => 0

/-- What `drain` has to do. It goes around its loop once more when it has been notified, and there
is no handler then. -/
def Drain.work (active : ℕ) : Drain → ℕ
  | .idle | .done _ => 0
  | .top _ => if active = 0 then 3 else 7
  | .listening _ _ => if active = 0 then 2 else 6
  | .checked _ _ _ => 5
  | .waiting _ _ _ => 4

/-- What is to be done. -/
def work (t : ConnectionTracker) : ℕ := (t.handlers.map Handler.work).sum + t.drain.work t.active

theorem sum_work_set {l : List Handler} {i : ℕ} {h : Handler} (hi : l[i]? = some h)
    (h' : Handler) :
    ((l.set i h').map Handler.work).sum + h.work = (l.map Handler.work).sum + h'.work := by
  obtain ⟨hlt, -⟩ := List.getElem?_eq_some_iff.mp hi
  conv_rhs => rw [Lts.eq_take_append_cons hi]
  rw [List.set_eq_take_append_cons_drop, if_pos hlt]
  simp only [List.map_append, List.map_cons, List.sum_append, List.sum_cons]
  omega

theorem Drain.work_notify (d : Drain) (n : ℕ) : d.notify.work n = d.work n := by
  cases d <;> rfl

theorem Drain.work_pred_le (d : Drain) (n : ℕ) : d.work (n - 1) ≤ d.work n := by
  cases d with
  | top | listening =>
    simp only [Drain.work]
    split <;> split <;> omega
  | idle | done | checked | waiting => exact le_rfl

theorem work_lt_of_moves (hs : Sound t) (hm : Moves c now t e t') : t'.work < t.work := by
  cases hm with
  | poll hi =>
    have hsum : _ + 2 = _ + 1 := sum_work_set hi (.running now)
    simp only [work]
    omega
  | @finish i since _ hi =>
    have hsum : _ + 1 = _ + 0 := sum_work_set hi (.finished since)
    have hdrain : t.dropToken.drain.work t.dropToken.active ≤ t.drain.work t.active := by
      have hle := t.drain.work_pred_le t.active
      rcases drain_dropToken t with hd | hd
      · rw [hd]
        exact hle
      · rw [hd, Drain.work_notify]
        exact hle
    simp only [work]
    omega
  | listen hd =>
    simp only [work, hd, Drain.work]
    split <;> omega
  | complete hd hactive => simp [work, hd, finishDrain, Drain.work, hactive]
  | late hd hactive => simp [work, hd, finishDrain, Drain.work, hactive]
  | check hd hactive => simp [work, hd, Drain.work, hactive]
  | wait hd => simp [work, hd, Drain.work]
  | wake hd =>
    have hactive := hs.told (by rw [hd]; rfl)
    simp [work, hd, Drain.work, hactive]
  | expire hd => simp [work, hd, finishDrain, Drain.work]

theorem work_beginDrain (t : ConnectionTracker) (now : ℕ) :
    (t.beginDrain now).work ≤ t.work + 7 := by
  have htop : (Drain.top ⟨now, t.active⟩).work t.active ≤ 7 := by
    simp only [Drain.work]
    split <;> omega
  exact (Nat.add_le_add_left htop _).trans (Nat.add_le_add_right (Nat.le_add_right _ _) 7)

end ConnectionTracker

end Symbolon
