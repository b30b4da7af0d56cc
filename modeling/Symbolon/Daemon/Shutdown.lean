import Symbolon.ConnectionTracker
import Symbolon.Daemon
import Symbolon.Daemon.Lifecycle

/-!
# The shutdown, with a clock

`Service::run` of `src/daemon.rs` and `run_admin_loop` of `src/admin.rs`: the two accept loops, each
with its tracker of connections, from the startup until `run` returns. `Symbolon.Lifecycle` has
the same tasks without a clock, and lets a deadline pass at any time; every run here is one there,
with the same log (`Symbolon.Shutdown.lifecycle_of_run`).

What `run` reports is right, however late its tasks are polled: as many handlers were drained as
finished during the drain, and the drain is complete only if none is left
(`Symbolon.Shutdown.stats_of_run`). If the executor is not late, `run` returns at most five seconds
after the first signal: both loops begin to drain at once, so that the two deadlines do not add up
(`Symbolon.Shutdown.returned_of_signal`). A connection may take no longer than the drain waits, so
a drain that is not complete had a connection that was first served at the very moment of the
shutdown (`Symbolon.Shutdown.exists_since_of_incomplete`).
-/

namespace Symbolon.Shutdown

open Signals

/-! ### The source -/

/-- What the tracker of connections is told. -/
def wireTimeouts : TrackerConfig := ⟨5 * nanosPerSec, 5 * nanosPerSec⟩

/-- What the tracker of the admin loop is told. -/
def adminTimeouts : TrackerConfig := ⟨10 * nanosPerSec, 5 * nanosPerSec⟩

/-- Where the main task is. -/
inductive Main
  /-- In the accept loop of `run`. -/
  | accepting
  /-- In the drain of `run`. -/
  | draining (shutdownStart : ℕ)
  /-- `run` joins the admin loop. -/
  | joiningAdmin (shutdownStart : ℕ) (stats : DrainStats)
  /-- `run` has returned an error. -/
  | failed (error : String)
  /-- `run` has returned its `RunStats`. -/
  | returned (stats : DrainStats) (drainMs : ℕ)
  deriving DecidableEq

/-- **The service.** -/
structure Service where
  /-- The clock, in nanoseconds. -/
  now : ℕ
  /-- The handlers of signals, and the watcher. -/
  signals : Signals.State
  /-- The main task. -/
  main : Main
  /-- The admin loop. -/
  admin : Lifecycle.AdminLoop
  /-- The tracker of connections. -/
  wire : ConnectionTracker
  /-- The tracker of the admin loop. -/
  adminTracker : ConnectionTracker
  deriving DecidableEq

/-- `run` begins. -/
def Service.start (now : ℕ) (signals : Signals.State) : Service :=
  ⟨now, signals, .accepting, .accepting, .new, .new⟩

/-- What happens. -/
inductive Event
  /-- Time passes. -/
  | tick (later : ℕ)
  /-- A signal is delivered. -/
  | signal (sig : Signal)
  /-- A handler of a signal or the watcher goes on. -/
  | signals (e : Signals.Event)
  /-- `accept` returns. -/
  | accept (result : Except String Unit)
  /-- `accept` of the admin loop returns. -/
  | adminAccept (ok : Bool)
  /-- The accept loop sees that the token is cancelled. -/
  | stop
  /-- The admin loop sees it. -/
  | adminStop
  /-- A handler of a connection, or the drain of `run`. -/
  | wire (e : ConnectionTracker.Event)
  /-- A handler of the admin loop, or its drain. -/
  | admin (e : ConnectionTracker.Event)
  /-- `run` has joined the admin loop. -/
  | join
  deriving DecidableEq

/-- `drain_ms`. -/
def drainMs (shutdownStart now : ℕ) : ℕ := min ((now - shutdownStart) / 10 ^ 6) u64Max

namespace Service

/-- The tracker of connections goes on, and the main task with it once it has drained. -/
def onWire (s : Service) (t : ConnectionTracker) : Service :=
  match s.main, t.drain with
  | .draining start, .done stats => { s with wire := t, main := .joiningAdmin start stats }
  | _, _ => { s with wire := t }

/-- The tracker of the admin loop goes on, and the loop is over once it has drained. -/
def onAdmin (s : Service) (t : ConnectionTracker) : Service :=
  match s.admin, t.drain with
  | .draining, .done _ => { s with adminTracker := t, admin := .finished }
  | _, _ => { s with adminTracker := t }

/-- A task goes on. Both accept loops look at the shutdown token first. -/
def task (s : Service) : Event → Option (Service × List Lifecycle.Log)
  | .accept result =>
    if s.main = .accepting ∧ s.signals.shutdown = false then
      match result with
      | .ok () => some ({ s with wire := s.wire.spawn }, [])
      -- `run` returns at once, and drops the handle of the admin loop
      | .error e => some ({ s with main := .failed e, admin := .finished }, [])
    else none
  | .adminAccept ok =>
    if s.admin = .accepting ∧ s.signals.shutdown = false then
      if ok then some ({ s with adminTracker := s.adminTracker.spawn }, [])
      else some ({ s with admin := .finished }, [.adminLoopExited])
    else none
  | .stop =>
    if s.main = .accepting ∧ s.signals.shutdown = true then
      some ({ s with main := .draining s.now, wire := s.wire.beginDrain s.now }, [])
    else none
  | .adminStop =>
    if s.admin = .accepting ∧ s.signals.shutdown = true then
      some ({ s with admin := .draining, adminTracker := s.adminTracker.beginDrain s.now }, [])
    else none
  | .wire e => (s.wire.next wireTimeouts s.now e).map fun t => (s.onWire t, [])
  | .admin e => (s.adminTracker.next adminTimeouts s.now e).map fun t => (s.onAdmin t, [])
  | .join =>
    match s.main with
    | .joiningAdmin start stats =>
      if s.admin = .finished then
        some ({ s with main := .returned stats (drainMs start s.now) },
          if stats.drainComplete then [] else [.drainIncomplete stats.inflightDrained])
      else none
    | _ => none
  | .tick _ | .signal _ | .signals _ => none

end Service

/-- **One event**, with what is logged; `none` when it cannot happen. -/
def next (s : Service) : Event → Option (Service × List Lifecycle.Log)
  | .tick later => if s.now ≤ later then some ({ s with now := later }, []) else none
  | .signal sig =>
    (Signals.next s.signals (.deliver sig)).map fun t => ({ s with signals := t }, [])
  | .signals e =>
    if e.internal then (Signals.next s.signals e).map fun t => ({ s with signals := t }, [])
    else none
  -- one thread: no task moves while the watcher is polled
  | e => if s.signals.watcher.polling then none else s.task e

/-- A label: an event with what is logged. -/
abbrev Label := Event × List Lifecycle.Log

/-- The steps of the service. -/
def Step : Service → Label → Service → Prop := Lts.ofFun next

/-! ### What a step does -/

section Steps

variable {s s' : Service} {e : Event} {out : List Lifecycle.Log} {ls : List Label}

/-- **What a step can be.** -/
inductive Moves (s : Service) : Event → List Lifecycle.Log → Service → Prop
  /-- Time passes. -/
  | tick {later : ℕ} (hle : s.now ≤ later) : Moves s (.tick later) [] { s with now := later }
  /-- A signal is delivered. -/
  | signal {sig : Signal} {t : Signals.State} (ht : Signals.Step s.signals (.deliver sig) t) :
      Moves s (.signal sig) [] { s with signals := t }
  /-- A handler of a signal or the watcher goes on. -/
  | signals {e : Signals.Event} {t : Signals.State} (hint : e.internal = true)
      (ht : Signals.Step s.signals e t) : Moves s (.signals e) [] { s with signals := t }
  /-- A connection is accepted. -/
  | accept (hmain : s.main = .accepting) (hup : s.signals.shutdown = false) :
      Moves s (.accept (.ok ())) [] { s with wire := s.wire.spawn }
  /-- `accept` fails. -/
  | acceptFailed {error : String} (hmain : s.main = .accepting)
      (hup : s.signals.shutdown = false) :
      Moves s (.accept (.error error)) [] { s with main := .failed error, admin := .finished }
  /-- The admin loop accepts a connection. -/
  | adminAccept (hadmin : s.admin = .accepting) (hup : s.signals.shutdown = false) :
      Moves s (.adminAccept true) [] { s with adminTracker := s.adminTracker.spawn }
  /-- Its `accept` fails. -/
  | adminAcceptFailed (hadmin : s.admin = .accepting) (hup : s.signals.shutdown = false) :
      Moves s (.adminAccept false) [.adminLoopExited] { s with admin := .finished }
  /-- `run` begins to drain. -/
  | stop (hmain : s.main = .accepting) (hdown : s.signals.shutdown = true) :
      Moves s .stop [] { s with main := .draining s.now, wire := s.wire.beginDrain s.now }
  /-- The admin loop begins to drain. -/
  | adminStop (hadmin : s.admin = .accepting) (hdown : s.signals.shutdown = true) :
      Moves s .adminStop []
        { s with admin := .draining, adminTracker := s.adminTracker.beginDrain s.now }
  /-- The tracker of connections goes on. -/
  | wire {e : ConnectionTracker.Event} {t : ConnectionTracker}
      (ht : ConnectionTracker.Moves wireTimeouts s.now s.wire e t)
      (hrest : ∀ start stats, s.main = .draining start → t.drain ≠ .done stats) :
      Moves s (.wire e) [] { s with wire := t }
  /-- The connections have been drained. -/
  | drained {e : ConnectionTracker.Event} {t : ConnectionTracker} {start : ℕ} {stats : DrainStats}
      (ht : ConnectionTracker.Moves wireTimeouts s.now s.wire e t)
      (hmain : s.main = .draining start) (hdone : t.drain = .done stats) :
      Moves s (.wire e) [] { s with wire := t, main := .joiningAdmin start stats }
  /-- The tracker of the admin loop goes on. -/
  | admin {e : ConnectionTracker.Event} {t : ConnectionTracker}
      (ht : ConnectionTracker.Moves adminTimeouts s.now s.adminTracker e t)
      (hrest : ∀ stats, s.admin = .draining → t.drain ≠ .done stats) :
      Moves s (.admin e) [] { s with adminTracker := t }
  /-- The admin loop is over. -/
  | adminDrained {e : ConnectionTracker.Event} {t : ConnectionTracker} {stats : DrainStats}
      (ht : ConnectionTracker.Moves adminTimeouts s.now s.adminTracker e t)
      (hadmin : s.admin = .draining) (hdone : t.drain = .done stats) :
      Moves s (.admin e) [] { s with adminTracker := t, admin := .finished }
  /-- `run` returns. -/
  | join {start : ℕ} {stats : DrainStats} (hmain : s.main = .joiningAdmin start stats)
      (hadmin : s.admin = .finished) :
      Moves s .join (if stats.drainComplete then [] else [.drainIncomplete stats.inflightDrained])
        { s with main := .returned stats (drainMs start s.now) }

theorem moves_of_onWire {e : ConnectionTracker.Event} {t : ConnectionTracker}
    (ht : ConnectionTracker.Moves wireTimeouts s.now s.wire e t) :
    Moves s (.wire e) [] (s.onWire t) := by
  unfold Service.onWire
  split
  · rename_i hmain hdone
    exact .drained ht hmain hdone
  · rename_i hrest
    exact .wire ht fun start stats hmain hdone => hrest start stats hmain hdone

theorem moves_of_onAdmin {e : ConnectionTracker.Event} {t : ConnectionTracker}
    (ht : ConnectionTracker.Moves adminTimeouts s.now s.adminTracker e t) :
    Moves s (.admin e) [] (s.onAdmin t) := by
  unfold Service.onAdmin
  split
  · rename_i hadmin hdone
    exact .adminDrained ht hadmin hdone
  · rename_i hrest
    exact .admin ht fun stats hadmin hdone => hrest stats hadmin hdone

theorem moves_of_task (h : s.task e = some (s', out)) : Moves s e out s' := by
  cases e with
  | tick | signal | signals => cases h
  | accept result =>
    simp only [Service.task] at h
    split at h
    · rename_i hcond
      rcases result with error | ⟨⟩
      · cases h
        exact .acceptFailed hcond.1 hcond.2
      · cases h
        exact .accept hcond.1 hcond.2
    · cases h
  | adminAccept ok =>
    simp only [Service.task] at h
    split at h
    · rename_i hcond
      cases ok with
      | true =>
        cases h
        exact .adminAccept hcond.1 hcond.2
      | false =>
        cases h
        exact .adminAcceptFailed hcond.1 hcond.2
    · cases h
  | stop =>
    simp only [Service.task] at h
    split at h
    · rename_i hcond
      cases h
      exact .stop hcond.1 hcond.2
    · cases h
  | adminStop =>
    simp only [Service.task] at h
    split at h
    · rename_i hcond
      cases h
      exact .adminStop hcond.1 hcond.2
    · cases h
  | wire e =>
    obtain ⟨t, ht, hs⟩ := Option.map_eq_some_iff.mp h
    cases hs
    exact moves_of_onWire (ConnectionTracker.moves_of_next ht)
  | admin e =>
    obtain ⟨t, ht, hs⟩ := Option.map_eq_some_iff.mp h
    cases hs
    exact moves_of_onAdmin (ConnectionTracker.moves_of_next ht)
  | join =>
    simp only [Service.task] at h
    split at h
    · rename_i hmain
      split at h
      · rename_i hadmin
        cases h
        exact .join hmain hadmin
      · cases h
    · cases h

/-- The event is one of a task. -/
def Event.isTask : Event → Bool
  | .tick _ | .signal _ | .signals _ => false
  | _ => true

theorem next_of_isTask (h : e.isTask = true) :
    next s e = if s.signals.watcher.polling then none else s.task e := by
  cases e with
  | tick | signal | signals => cases h
  | _ => rfl

/-- A step is a move, and a task moves only while the watcher is not polled. -/
theorem Step.moves (h : Step s (e, out) s') :
    Moves s e out s' ∧ (e.isTask = true → s.signals.watcher.polling = false) := by
  change next s e = some (s', out) at h
  by_cases htask : e.isTask = true
  · rw [next_of_isTask htask] at h
    split at h
    · cases h
    · rename_i hpoll
      exact ⟨moves_of_task h, fun _ => Bool.eq_false_iff.mpr hpoll⟩
  · refine ⟨?_, fun h => absurd h htask⟩
    cases e with
    | tick later =>
      simp only [next] at h
      split at h
      · rename_i hle
        cases h
        exact .tick hle
      · cases h
    | signal sig =>
      simp only [next] at h
      obtain ⟨t, ht, hs⟩ := Option.map_eq_some_iff.mp h
      cases hs
      exact .signal ht
    | signals e =>
      simp only [next] at h
      split at h
      · rename_i hint
        obtain ⟨t, ht, hs⟩ := Option.map_eq_some_iff.mp h
        cases hs
        exact .signals hint ht
      · cases h
    | _ => exact absurd rfl htask

/-! ### The tasks and their trackers -/

/-- When the shutdown began, until `run` returns. -/
def Main.begun : Main → Option ℕ
  | .draining start | .joiningAdmin start _ => some start
  | .accepting | .failed _ | .returned _ _ => none

/-- Where the drain of `run` is. -/
def Main.Fits : Main → ConnectionTracker.Drain → Prop
  | .accepting, d | .failed _, d => d = .idle
  | .draining start, d => ∃ b, d.begun = some b ∧ b.start = start
  | .joiningAdmin _ stats, d | .returned stats _, d => d = .done stats

/-- Where the drain of the admin loop is. -/
def AdminFits : Lifecycle.AdminLoop → ConnectionTracker.Drain → Prop
  | .unspawned, _ => False
  | .accepting, d => d = .idle
  | .draining, d => ∃ b, d.begun = some b
  | .finished, d => d.begun = none

/-- **What holds of the service**, however late its tasks are polled. -/
structure Sound (s : Service) : Prop where
  /-- The tracker of connections. -/
  wire : s.wire.Sound
  /-- Its drain does not give up too early. -/
  wirePatient : s.wire.Patient wireTimeouts s.now
  /-- The tracker of the admin loop. -/
  admin : s.adminTracker.Sound
  /-- Its drain does not give up too early. -/
  adminPatient : s.adminTracker.Patient adminTimeouts s.now
  /-- The main task and its drain. -/
  fits : s.main.Fits s.wire.drain
  /-- The admin loop and its drain. -/
  adminFits : AdminFits s.admin s.adminTracker.drain
  /-- `run` drains only after the token is cancelled. -/
  shutdown : s.main ≠ .accepting → (∀ e, s.main ≠ .failed e) → s.signals.shutdown = true
  /-- So does the admin loop. -/
  adminShutdown : s.admin = .draining → s.signals.shutdown = true
  /-- The shutdown began in the past. -/
  past : ∀ start, s.main.begun = some start → start ≤ s.now

theorem sound_start (now : ℕ) (signals : Signals.State) : Sound (.start now signals) where
  wire := ConnectionTracker.sound_new
  wirePatient := .of_idle rfl
  admin := ConnectionTracker.sound_new
  adminPatient := .of_idle rfl
  fits := rfl
  adminFits := rfl
  shutdown h := absurd rfl h
  adminShutdown := nofun
  past := nofun

theorem Sound.idle (h : Sound s) (hmain : s.main = .accepting) : s.wire.drain = .idle := by
  have hfits := h.fits
  rwa [hmain] at hfits

theorem Sound.adminIdle (h : Sound s) (hadmin : s.admin = .accepting) :
    s.adminTracker.drain = .idle := by
  have hfits := h.adminFits
  rwa [hadmin] at hfits

theorem Sound.begun (h : Sound s) {start : ℕ} (hmain : s.main = .draining start) :
    ∃ b, s.wire.drain.begun = some b ∧ b.start = start := by
  have hfits := h.fits
  rwa [hmain] at hfits

theorem Sound.adminBegun (h : Sound s) (hadmin : s.admin = .draining) :
    ∃ b, s.adminTracker.drain.begun = some b := by
  have hfits := h.adminFits
  rwa [hadmin] at hfits

/-- A tracker that goes on without being drained fits as before. -/
theorem Main.Fits.moves {m : Main} {c : TrackerConfig} {now : ℕ} {t t' : ConnectionTracker}
    {e : ConnectionTracker.Event} (h : m.Fits t.drain) (hm : ConnectionTracker.Moves c now t e t')
    (hrest : ∀ start stats, m = .draining start → t'.drain ≠ .done stats) : m.Fits t'.drain := by
  rcases ConnectionTracker.drain_of_moves hm with ⟨-, hsame⟩ | ⟨b, hb, hnext⟩
  · rw [hsame]
    exact h
  · cases m with
    | draining start =>
      obtain ⟨b', hb', rfl⟩ := h
      cases hb.symm.trans hb'
      rcases hnext with hnext | ⟨stats, hnext⟩
      · exact ⟨b, hnext, rfl⟩
      · exact absurd hnext (hrest _ stats rfl)
    | accepting | failed | joiningAdmin | returned =>
      rw [show t.drain = _ from h] at hb
      cases hb

theorem AdminFits.moves {m : Lifecycle.AdminLoop} {c : TrackerConfig} {now : ℕ}
    {t t' : ConnectionTracker} {e : ConnectionTracker.Event} (h : AdminFits m t.drain)
    (hm : ConnectionTracker.Moves c now t e t')
    (hrest : ∀ stats, m = .draining → t'.drain ≠ .done stats) : AdminFits m t'.drain := by
  rcases ConnectionTracker.drain_of_moves hm with ⟨-, hsame⟩ | ⟨b, hb, hnext⟩
  · rw [hsame]
    exact h
  · cases m with
    | draining =>
      rcases hnext with hnext | ⟨stats, hnext⟩
      · exact ⟨b, hnext⟩
      · exact absurd hnext (hrest stats rfl)
    | unspawned => exact h
    | accepting =>
      rw [show t.drain = _ from h] at hb
      cases hb
    | finished =>
      rw [show t.drain.begun = none from h] at hb
      cases hb

theorem Sound.moves (h : Sound s) (hm : Moves s e out s') : Sound s' := by
  cases hm with
  | tick hle =>
    exact { h with wirePatient := h.wirePatient.mono hle, adminPatient := h.adminPatient.mono hle
                   past := fun start hb => (h.past start hb).trans hle }
  | signal ht | signals _ ht =>
    exact { h with shutdown := fun hm hf => ht.keeps.1 (h.shutdown hm hf)
                   adminShutdown := fun ha => ht.keeps.1 (h.adminShutdown ha) }
  | accept hmain =>
    have hidle := h.idle hmain
    exact { h with wire := h.wire.spawn hidle, wirePatient := .of_idle hidle }
  | acceptFailed hmain hup =>
    refine { h with fits := h.idle hmain, adminFits := ?_, adminShutdown := nofun, past := nofun
                    shutdown := fun _ hf => absurd rfl (hf _) }
    have hfits := h.adminFits
    cases hadmin : s.admin with
    | unspawned =>
      rw [hadmin] at hfits
      exact hfits.elim
    | accepting =>
      rw [h.adminIdle hadmin]
      rfl
    | draining => exact absurd (hup.symm.trans (h.adminShutdown hadmin)) Bool.noConfusion
    | finished => rwa [hadmin] at hfits
  | adminAccept hadmin =>
    have hidle := h.adminIdle hadmin
    exact { h with admin := h.admin.spawn hidle, adminPatient := .of_idle hidle }
  | adminAcceptFailed hadmin =>
    refine { h with adminFits := ?_, adminShutdown := nofun }
    rw [h.adminIdle hadmin]
    rfl
  | stop _ hdown =>
    refine { h with wire := h.wire.beginDrain s.now, wirePatient := .beginDrain s.wire
                    fits := ⟨_, rfl, rfl⟩, shutdown := fun _ _ => hdown
                    past := fun start hb => ?_ }
    cases hb
    exact le_rfl
  | adminStop _ hdown =>
    exact { h with admin := h.admin.beginDrain s.now, adminPatient := .beginDrain s.adminTracker
                   adminFits := ⟨_, rfl⟩, adminShutdown := fun _ => hdown }
  | wire ht hrest =>
    exact { h with wire := h.wire.moves ht, wirePatient := h.wirePatient.moves ht
                   fits := h.fits.moves ht hrest }
  | drained ht hmain hdone =>
    refine { h with wire := h.wire.moves ht, wirePatient := h.wirePatient.moves ht, fits := hdone
                    shutdown := fun _ _ => h.shutdown (by simp [hmain]) (by simp [hmain])
                    past := fun start hb => h.past start ?_ }
    rw [hmain]
    exact hb
  | admin ht hrest =>
    exact { h with admin := h.admin.moves ht, adminPatient := h.adminPatient.moves ht
                   adminFits := h.adminFits.moves ht hrest }
  | adminDrained ht _ hdone =>
    refine { h with admin := h.admin.moves ht, adminPatient := h.adminPatient.moves ht
                    adminFits := ?_, adminShutdown := nofun }
    rw [hdone]
    rfl
  | join hmain =>
    refine { h with fits := ?_, past := nofun
                    shutdown := fun _ _ => h.shutdown (by simp [hmain]) (by simp [hmain]) }
    have hfits := h.fits
    rwa [hmain] at hfits

theorem sound_of_run {now : ℕ} {signals : Signals.State}
    (hrun : Lts.Run Step (.start now signals) ls s) : Sound s :=
  hrun.invariant (fun _ _ _ h hstep => h.moves hstep.moves.1) (sound_start now signals)

/-! ### The same without a clock -/

/-- The main task, as `Lifecycle` has it. -/
def Main.untimed (d : ConnectionTracker.Drain) : Main → Lifecycle.Main
  | .accepting => .accepting
  | .draining _ => .draining (d.begun.elim 0 ConnectionTracker.Begun.initial)
  | .joiningAdmin _ stats => .joiningAdmin ⟨stats.inflightDrained, stats.drainComplete⟩
  | .failed error => .joining (.error error)
  | .returned stats _ => .joining (.ok ⟨stats.inflightDrained, stats.drainComplete⟩)

/-- **The service without its clock.** -/
def Service.untimed (s : Service) : Lifecycle.Process where
  main := s.main.untimed s.wire.drain
  admin := s.admin
  active := s.wire.active
  adminActive := s.adminTracker.active
  signals := s.signals

theorem Main.untimed_congr (m : Main) {d d' : ConnectionTracker.Drain} (h : d.begun = d'.begun) :
    m.untimed d = m.untimed d' := by
  cases m with
  | draining => simp only [untimed, h]
  | accepting | joiningAdmin | failed | returned => rfl

theorem Service.gone_untimed (s : Service) : s.untimed.main.gone = false := by
  cases hmain : s.main <;> simp [untimed, hmain, Main.untimed, Lifecycle.Main.gone]

theorem Service.installed_untimed (s : Service) (sig : Signal) :
    Lifecycle.installed s.untimed.main sig = true := by
  cases hmain : s.main <;> simp [untimed, hmain, Main.untimed, Lifecycle.installed]

/-- The event is the delivery of a signal. -/
def Event.isSignal : Event → Bool
  | .signal _ => true
  | _ => false

/-- **What a step is without the clock**: a step, or none. -/
def Shows (s : Service) (e : Event) (out : List Lifecycle.Log) (s' : Service) : Prop :=
  (∃ e', Lifecycle.Step s.untimed (e', out) s'.untimed ∧ e'.isSignal = e.isSignal) ∨
    (s'.untimed = s.untimed ∧ out = [] ∧ e.isSignal = false)

theorem shows_of_task (e' : Lifecycle.TaskEvent) (hpoll : s.signals.watcher.polling = false)
    (h : s.untimed.task e' = some (s'.untimed, out)) (he : e.isSignal = false) :
    Shows s e out s' := by
  refine .inl ⟨.task e', ?_, he.symm⟩
  change Lifecycle.next s.untimed (.task e') = _
  unfold Lifecycle.next
  have hpoll' : s.untimed.signals.watcher.polling = false := hpoll
  simp only [s.gone_untimed, hpoll', Bool.false_eq_true, if_false]
  exact h

/-- The tracker of connections. -/
theorem shows_of_wire (h : Sound s) (hpoll : s.signals.watcher.polling = false)
    {e : ConnectionTracker.Event} {t : ConnectionTracker}
    (ht : ConnectionTracker.Moves wireTimeouts s.now s.wire e t)
    (hrest : ∀ start stats, s.main = .draining start → t.drain ≠ .done stats) :
    Shows s (.wire e) [] { s with wire := t } := by
  have hactive := ConnectionTracker.active_of_moves h.wire ht
  have hmain : s.main.untimed t.drain = s.main.untimed s.wire.drain := by
    cases hmain : s.main with
    | draining start =>
      obtain ⟨b, hb, -⟩ := h.begun hmain
      obtain ⟨b', hb', -⟩ : ∃ b, t.drain.begun = some b ∧ b.start = start := by
        have hfits := h.fits.moves ht hrest
        rwa [hmain] at hfits
      rcases ConnectionTracker.drain_of_moves ht with ⟨hnone, -⟩ | ⟨b₀, hb₀, hnext | ⟨stats, hd⟩⟩
      · cases hnone.symm.trans hb
      · exact Main.untimed_congr _ (hnext.trans hb₀.symm)
      · exact absurd hd (hrest start stats hmain)
    | accepting | joiningAdmin | failed | returned => rfl
  cases hends : e.ends with
  | true =>
    rw [hends, if_pos rfl] at hactive
    have hpos : 0 < s.wire.active := by omega
    refine shows_of_task .connDone hpoll ?_ rfl
    simp only [Lifecycle.Process.task, Service.untimed, hpos, if_true, hmain]
    rw [show s.wire.active - 1 = t.active by omega]
  | false =>
    rw [hends] at hactive
    refine .inr ⟨?_, rfl, rfl⟩
    have heq : t.active = s.wire.active := hactive
    simp only [Service.untimed, hmain, heq]

/-- The connections have been drained. -/
theorem shows_of_drained (h : Sound s) (hpoll : s.signals.watcher.polling = false)
    {e : ConnectionTracker.Event} {t : ConnectionTracker} {start : ℕ} {stats : DrainStats}
    (ht : ConnectionTracker.Moves wireTimeouts s.now s.wire e t)
    (hmain : s.main = .draining start) (hdone : t.drain = .done stats) :
    Shows s (.wire e) [] { s with wire := t, main := .joiningAdmin start stats } := by
  obtain ⟨b, hb, -⟩ := h.begun hmain
  obtain ⟨hdrained, hactive, -, hzero, -⟩ :=
    ConnectionTracker.stats_of_moves h.wirePatient ht hb hdone
  obtain ⟨n, complete⟩ := stats
  cases (hdrained : n = _)
  cases complete with
  | true =>
    refine shows_of_task .main hpoll ?_ rfl
    have hactive0 : s.wire.active = 0 := hzero rfl
    simp [Lifecycle.Process.task, Lifecycle.Process.advance, Service.untimed, hmain, Main.untimed,
      hb, hactive0, hactive]
  | false =>
    refine shows_of_task .deadline hpoll ?_ rfl
    simp [Lifecycle.Process.task, Service.untimed, hmain, Main.untimed, hb, hactive]

/-- The tracker of the admin loop. -/
theorem shows_of_admin (h : Sound s) (hpoll : s.signals.watcher.polling = false)
    {e : ConnectionTracker.Event} {t : ConnectionTracker}
    (ht : ConnectionTracker.Moves adminTimeouts s.now s.adminTracker e t) :
    Shows s (.admin e) [] { s with adminTracker := t } := by
  have hactive := ConnectionTracker.active_of_moves h.admin ht
  cases hends : e.ends with
  | true =>
    rw [hends, if_pos rfl] at hactive
    have hpos : 0 < s.adminTracker.active := by omega
    refine shows_of_task .adminConnDone hpoll ?_ rfl
    simp only [Lifecycle.Process.task, Service.untimed, hpos, if_true]
    rw [show s.adminTracker.active - 1 = t.active by omega]
  | false =>
    rw [hends] at hactive
    refine .inr ⟨?_, rfl, rfl⟩
    have heq : t.active = s.adminTracker.active := hactive
    simp only [Service.untimed, heq]

/-- The admin loop is over. -/
theorem shows_of_adminDrained (h : Sound s) (hpoll : s.signals.watcher.polling = false)
    {e : ConnectionTracker.Event} {t : ConnectionTracker} {stats : DrainStats}
    (ht : ConnectionTracker.Moves adminTimeouts s.now s.adminTracker e t)
    (hadmin : s.admin = .draining) (hdone : t.drain = .done stats) :
    Shows s (.admin e) [] { s with adminTracker := t, admin := .finished } := by
  obtain ⟨b, hb⟩ := h.adminBegun hadmin
  obtain ⟨-, hactive, -, hzero, -⟩ :=
    ConnectionTracker.stats_of_moves h.adminPatient ht hb hdone
  cases hcomplete : stats.drainComplete with
  | true =>
    refine shows_of_task .admin hpoll ?_ rfl
    have hactive0 : s.adminTracker.active = 0 := hzero hcomplete
    simp [Lifecycle.Process.task, Service.untimed, hadmin, hactive0, hactive]
  | false =>
    refine shows_of_task .adminDeadline hpoll ?_ rfl
    simp [Lifecycle.Process.task, Service.untimed, hadmin, hactive]

theorem shows_of_step (h : Sound s) (hstep : Step s (e, out) s') : Shows s e out s' := by
  obtain ⟨hm, hpoll⟩ := hstep.moves
  cases hm with
  | tick => exact .inr ⟨rfl, rfl, rfl⟩
  | @signal sig t ht =>
    refine .inl ⟨.signal sig, ?_, rfl⟩
    change Lifecycle.next s.untimed (.signal sig) = _
    unfold Lifecycle.next
    simp only [s.gone_untimed, s.installed_untimed, if_true, Bool.false_eq_true, if_false]
    exact congrArg (Option.map _) ht
  | @signals e t hint ht =>
    refine .inl ⟨.signals e, ?_, rfl⟩
    change Lifecycle.next s.untimed (.signals e) = _
    unfold Lifecycle.next
    simp only [s.gone_untimed, hint, if_true, Bool.false_eq_true, if_false]
    exact congrArg (Option.map _) ht
  | accept hmain hup =>
    refine shows_of_task (.accept (.ok ())) (hpoll rfl) ?_ rfl
    simp [Lifecycle.Process.task, Service.untimed, hmain, Main.untimed, hup,
      ConnectionTracker.spawn]
  | @acceptFailed error hmain hup =>
    refine shows_of_task (.accept (.error error)) (hpoll rfl) ?_ rfl
    simp [Lifecycle.Process.task, Service.untimed, hmain, Main.untimed, hup]
  | adminAccept hadmin hup =>
    refine shows_of_task (.adminAccept true) (hpoll rfl) ?_ rfl
    simp [Lifecycle.Process.task, Service.untimed, hadmin, hup, ConnectionTracker.spawn]
  | adminAcceptFailed hadmin hup =>
    refine shows_of_task (.adminAccept false) (hpoll rfl) ?_ rfl
    simp [Lifecycle.Process.task, Service.untimed, hadmin, hup]
  | stop hmain hdown =>
    refine shows_of_task .main (hpoll rfl) ?_ rfl
    simp [Lifecycle.Process.task, Lifecycle.Process.advance, Service.untimed, hmain, Main.untimed,
      hdown, ConnectionTracker.beginDrain, ConnectionTracker.Drain.begun]
  | adminStop hadmin hdown =>
    refine shows_of_task .admin (hpoll rfl) ?_ rfl
    simp [Lifecycle.Process.task, Service.untimed, hadmin, hdown, ConnectionTracker.beginDrain]
  | wire ht hrest => exact shows_of_wire h (hpoll rfl) ht hrest
  | drained ht hmain hdone => exact shows_of_drained h (hpoll rfl) ht hmain hdone
  | admin ht => exact shows_of_admin h (hpoll rfl) ht
  | adminDrained ht hadmin hdone => exact shows_of_adminDrained h (hpoll rfl) ht hadmin hdone
  | join hmain hadmin =>
    refine shows_of_task .main (hpoll rfl) ?_ rfl
    simp [Lifecycle.Process.task, Lifecycle.Process.advance, Service.untimed, hmain, Main.untimed,
      hadmin]

/-- A signal has been delivered. -/
def Signalled (ls : List Label) : Prop := ∃ l ∈ ls, l.1.isSignal = true

theorem exists_untimed_run (h : Sound s) (hrun : Lts.Run Step s ls s') :
    ∃ ls', Lts.Run Lifecycle.Step s.untimed ls' s'.untimed ∧
      ls'.flatMap Prod.snd = ls.flatMap Prod.snd ∧ (Lifecycle.Signalled ls' ↔ Signalled ls) := by
  induction hrun with
  | nil => exact ⟨[], .nil _, rfl, by simp [Lifecycle.Signalled, Signalled]⟩
  | @cons s t u l ls hstep _ ih =>
    obtain ⟨e, out⟩ := l
    obtain ⟨ls', hrun', hlogs, hsig⟩ := ih (h.moves hstep.moves.1)
    rcases shows_of_step h hstep with ⟨e', hstep', he⟩ | ⟨hsame, rfl, he⟩
    · refine ⟨(e', out) :: ls', .cons hstep' hrun', by simp [hlogs], ?_⟩
      simp only [Lifecycle.Signalled, Signalled, List.exists_mem_cons_iff, he]
      exact or_congr_right hsig
    · refine ⟨ls', hsame ▸ hrun', by simpa using hlogs, ?_⟩
      simp only [Signalled, List.exists_mem_cons_iff, he, Bool.false_eq_true, false_or]
      exact hsig

/-- **A run with the clock is a run of the process without it**, with the same log. -/
theorem lifecycle_of_run {now : ℕ} {signals : Signals.State} {ls₀ : List Lifecycle.Label}
    (hstart : Lts.Run Lifecycle.Step Lifecycle.start ls₀ (Service.start now signals).untimed)
    (hrun : Lts.Run Step (.start now signals) ls s) :
    ∃ ls', Lts.Run Lifecycle.Step Lifecycle.start (ls₀ ++ ls') s.untimed ∧
      ls'.flatMap Prod.snd = ls.flatMap Prod.snd ∧ (Lifecycle.Signalled ls' ↔ Signalled ls) := by
  obtain ⟨ls', hrun', hlogs, hsig⟩ := exists_untimed_run (sound_start now signals) hrun
  exact ⟨ls', hstart.append hrun', hlogs, hsig⟩

/-- The watcher has been spawned. -/
def bootSignals : Signals.State := { Signals.State.init with watcher := .spawned }

theorem exists_run_startup : ∃ ls, Lts.Run Lifecycle.Step Lifecycle.start ls
    (Service.start 0 bootSignals).untimed := by
  obtain ⟨ls, p, hrun, rfl⟩ := Lts.exists_run_of_exec Lifecycle.next Lifecycle.start
    Lifecycle.startup (fun p _ => p = (Service.start 0 bootSignals).untimed) (by decide +kernel)
  exact ⟨ls, hrun⟩

/-- A signal comes, and is seen. -/
def interrupt : List Event :=
  [.signal .int, .signals (.handler 0), .signals (.handler 0), .signals (.handler 0),
    .signals .watcher, .signals .watcher, .signals .watcher]

/-- A connection is served, a signal comes, and both loops drain. -/
def busyShutdown : List Event :=
  [.accept (.ok ()), .wire (.poll 0)] ++ interrupt ++
    [.stop, .adminStop, .wire .drain, .wire .drain, .wire .drain, .admin .drain, .admin .drain]

theorem lifecycle_of_run_busyShutdown :
    ∃ ls p, Lts.Run Lifecycle.Step Lifecycle.start ls p ∧ p.main = .draining 1 ∧
      p.admin = .finished := by
  obtain ⟨ls₀, hstart⟩ := exists_run_startup
  obtain ⟨ls, s, hrun, hmain, hadmin⟩ := Lts.exists_run_of_exec next (.start 0 bootSignals)
    busyShutdown (fun s _ => s.untimed.main = .draining 1 ∧ s.untimed.admin = .finished)
    (by decide +kernel)
  obtain ⟨ls', hrun', -⟩ := lifecycle_of_run hstart hrun
  exact ⟨_, _, hrun', hmain, hadmin⟩

/-! ### What is reported -/

/-- The event is the end of a handler of a connection. -/
def Event.ends : Event → Bool
  | .wire e => e.ends
  | _ => false

/-- What is known of a drain that began at this time, after these events. -/
def Drains (began : ℕ) (past : List Label) (s : Service) : Prop :=
  s.main ≠ .accepting ∧ ∀ start, s.main = .draining start → start = began ∧
    ∃ b, s.wire.drain.begun = some b ∧ b.start = began ∧
      b.initial = s.wire.active + past.countP fun l => l.1.ends

theorem Drains.step {began : ℕ} {past : List Label} (h : Drains began past s) (hs : Sound s)
    (hstep : Step s (e, out) s') : Drains began (past ++ [(e, out)]) s' := by
  obtain ⟨hmain, hdrain⟩ := h
  have hsame : ∀ {s'' : Service}, s''.main = s.main → s''.wire = s.wire → e.ends = false →
      Drains began (past ++ [(e, out)]) s'' := by
    intro s'' hm hw he
    refine ⟨hm ▸ hmain, fun start hstart => ?_⟩
    obtain ⟨hbegan, b, hb, hbs, hinit⟩ := hdrain start (hm ▸ hstart)
    exact ⟨hbegan, b, hw ▸ hb, hbs, by simp [hw, hinit, List.countP_append, he]⟩
  cases hstep.moves.1 with
  | tick | signal | signals | adminAccept | adminAcceptFailed | adminStop | admin | adminDrained =>
    exact hsame rfl rfl rfl
  | accept hacc | acceptFailed hacc | stop hacc => exact absurd hacc hmain
  | drained | join => exact ⟨nofun, nofun⟩
  | @wire e t ht hrest =>
    refine ⟨hmain, fun start hstart => ?_⟩
    obtain ⟨hbegan, b, hb, hbs, hinit⟩ := hdrain start hstart
    refine ⟨hbegan, b, ?_, hbs, ?_⟩
    · rcases ConnectionTracker.drain_of_moves ht with ⟨hnone, -⟩ | ⟨b', hb', hnext | ⟨stats, hd⟩⟩
      · cases hnone.symm.trans hb
      · cases hb.symm.trans hb'
        exact hnext
      · exact absurd hd (hrest start stats hstart)
    · have hactive := ConnectionTracker.active_of_moves hs.wire ht
      rw [hinit, ← hactive]
      simp only [List.countP_append, List.countP_singleton, Event.ends]
      omega

/-- **What `run` reports is right**, however late its tasks are polled. As many handlers were
drained as finished after the drain had begun; the drain is said to be complete only if no handler
is left, and not to be only after its deadline. And the drain is never asleep while no handler is
left. -/
theorem stats_of_run {now : ℕ} {signals : Signals.State} {t u : Service} {ls' : List Label}
    (hrun : Lts.Run Step (.start now signals) ls s) (hstop : Step s (.stop, out) t)
    (hrun' : Lts.Run Step t ls' u) {start : ℕ} (hmain : u.main = .draining start) :
    start = s.now ∧
      (∀ l v stats, Step u l v → v.main = .joiningAdmin start stats →
        stats.inflightDrained = ls'.countP (fun l => l.1.ends) ∧
        (stats.drainComplete = true → ∀ h ∈ v.wire.handlers, h.busy = false) ∧
        (stats.drainComplete = false → s.now + wireTimeouts.drainDeadline ≤ v.now)) ∧
      ((∀ h ∈ u.wire.handlers, h.busy = false) → u.signals.watcher.polling = false →
        ∃ v, Step u (.wire .drain, []) v) := by
  have hsound : Sound t := (sound_of_run hrun).moves hstop.moves.1
  have hdrains : Drains s.now ls' u ∧ Sound u := by
    refine hrun'.history (P := fun past u => Drains s.now past u ∧ Sound u)
      (fun past u l v h hstep => ⟨h.1.step h.2 hstep, h.2.moves hstep.moves.1⟩) ⟨?_, hsound⟩
    cases hstop.moves.1 with
    | stop =>
      refine ⟨nofun, fun start hstart => ?_⟩
      cases hstart
      exact ⟨rfl, _, rfl, rfl, rfl⟩
  obtain ⟨⟨-, hdrain⟩, hu⟩ := hdrains
  obtain ⟨rfl, b, hb, hstart, hinit⟩ := hdrain start hmain
  refine ⟨rfl, fun l v stats hstep hv => ?_, fun hidle hpoll => ?_⟩
  · obtain ⟨e, out'⟩ := l
    cases hstep.moves.1 with
    | tick | signal | signals | adminAccept | adminAcceptFailed | adminStop | wire | admin |
      adminDrained => cases hmain.symm.trans hv
    | accept hacc | acceptFailed hacc | stop hacc => cases hmain.symm.trans hacc
    | join hj => cases hmain.symm.trans hj
    | drained ht _ hdone =>
      cases hv
      obtain ⟨hcount, hactive, hhandlers, hzero, hlate⟩ :=
        ConnectionTracker.stats_of_moves hu.wirePatient ht hb hdone
      refine ⟨by omega, fun hcomplete => ?_, fun hgave => hstart ▸ hlate hgave⟩
      rw [show (_ : List ConnectionTracker.Handler) = u.wire.handlers from hhandlers]
      exact hu.wire.active_eq_zero_iff.mp (hzero hcomplete)
  · obtain ⟨t', ht'⟩ := hu.wire.exists_advance (hu.wire.active_eq_zero_iff.mpr hidle) hb
    refine ⟨u.onWire t', ?_⟩
    change next u (.wire .drain) = _
    rw [next_of_isTask rfl, hpoll]
    exact congrArg (Option.map _) ht'

/-- The connection is done after the drain has begun. -/
theorem stats_of_run_busyShutdown :
    ∃ u v, Step u (.wire .drain, []) v ∧ u.main = .draining 0 ∧
      ∃ stats, v.main = .joiningAdmin 0 stats ∧ stats.inflightDrained = 1 := by
  obtain ⟨ls, u, hrun, hstop, hcount, hmain, hnext⟩ := Lts.exists_run_of_exec next
    (.start 0 bootSignals) ([.accept (.ok ()), .wire (.poll 0)] ++ interrupt ++
      [.stop, .wire .drain, .wire (.finish 0)])
    (fun u ls => ls[9]? = some (.stop, []) ∧ (ls.drop 10).countP (fun l => l.1.ends) = 1 ∧
      u.main = .draining 0 ∧
      (next u (.wire .drain)).map (fun r => (r.1.main, r.2)) =
        some (.joiningAdmin 0 ⟨1, true⟩, [])) (by decide +kernel)
  obtain ⟨s, t, hrun₁, hstep, hrun₂⟩ := hrun.split_at hstop
  obtain ⟨⟨v, out⟩, hv, hr⟩ := Option.map_eq_some_iff.mp hnext
  obtain ⟨hvmain, rfl⟩ := Prod.mk.inj hr
  have hend : Step u (.wire .drain, []) v := hv
  obtain ⟨-, hreport, -⟩ := stats_of_run hrun₁ hstep hrun₂ hmain
  exact ⟨u, v, hend, hmain, _, hvmain, (hreport _ v _ hend hvmain).1.trans hcount⟩

/-! ### On time -/

/-- The event is not one of the world outside: not a connection, a signal or the end of a
handler, and not the time. -/
def Event.own : Event → Bool
  | .signals _ | .stop | .adminStop | .join => true
  | .wire e | .admin e => e.own
  | .tick _ | .signal _ | .accept _ | .adminAccept _ => false

/-- Nothing is to be done now. -/
def Service.Rests (s : Service) : Prop := ∀ e : Event, e.own = true → next s e = none

/-- When the timers fire. -/
def Service.timers (s : Service) : List ℕ :=
  s.wire.timers wireTimeouts ++ s.adminTracker.timers adminTimeouts

/-- **The steps on an executor that is not late**: time passes only when nothing is to be done, and
no further than to the next timer. -/
def Prompt : Service → Label → Service → Prop :=
  Lts.restrict Step fun s l => ∀ later, l.1 = .tick later → s.Rests ∧ ∀ x ∈ s.timers, later ≤ x

/-- The watcher does not rest while it is polled. -/
theorem polling_of_rests (hrests : s.Rests) : s.signals.watcher.polling = false := by
  by_contra hpoll
  have hnone : (Signals.next s.signals .watcher).map (fun t => ({ s with signals := t }, [])) =
      (none : Option (Service × List Lifecycle.Log)) := hrests (.signals .watcher) rfl
  have hwatch : s.signals.watch = none := Option.map_eq_none_iff.mp hnone
  unfold Signals.State.watch at hwatch
  cases hpc : s.signals.watcher <;> rw [hpc] at hwatch hpoll <;> dsimp only at hwatch <;>
    (try split at hwatch) <;> simp_all [Watcher.polling]

theorem task_eq_none_of_rests (hrests : s.Rests) (hown : e.own = true) (htask : e.isTask = true) :
    s.task e = none := by
  have hnone := hrests e hown
  rwa [next_of_isTask htask, polling_of_rests hrests] at hnone

theorem wire_rests (hrests : s.Rests) : s.wire.Rests wireTimeouts s.now := fun e he =>
  Option.map_eq_none_iff.mp (task_eq_none_of_rests hrests (e := .wire e) he rfl)

theorem admin_rests (hrests : s.Rests) : s.adminTracker.Rests adminTimeouts s.now := fun e he =>
  Option.map_eq_none_iff.mp (task_eq_none_of_rests hrests (e := .admin e) he rfl)

/-- No accept loop rests once the token is cancelled. -/
theorem main_of_rests (hrests : s.Rests) (hdown : s.signals.shutdown = true) :
    s.main ≠ .accepting := by
  intro hmain
  have hnone := task_eq_none_of_rests hrests (e := .stop) rfl rfl
  simp [Service.task, hmain, hdown] at hnone

theorem admin_of_rests (hrests : s.Rests) (hdown : s.signals.shutdown = true) :
    s.admin ≠ .accepting := by
  intro hadmin
  have hnone := task_eq_none_of_rests hrests (e := .adminStop) rfl rfl
  simp [Service.task, hadmin, hdown] at hnone

/-- Nor does `run` once both loops have drained. -/
theorem joining_of_rests (hrests : s.Rests) {start : ℕ} {stats : DrainStats}
    (hmain : s.main = .joiningAdmin start stats) : s.admin ≠ .finished := by
  intro hadmin
  have hnone := task_eq_none_of_rests hrests (e := .join) rfl rfl
  simp [Service.task, hmain, hadmin] at hnone

/-- **What holds on an executor that is not late.** -/
structure Punctual (s : Service) : Prop where
  /-- The tracker of connections. -/
  wire : s.wire.Punctual wireTimeouts s.now
  /-- The tracker of the admin loop. -/
  admin : s.adminTracker.Punctual adminTimeouts s.now
  /-- The admin loop sees the shutdown when `run` does. -/
  together : ∀ start, s.main.begun = some start → s.admin = .accepting → s.now = start
  /-- Its drain does not begin later. -/
  start : ∀ start, s.main.begun = some start → ∀ b, s.adminTracker.drain.begun = some b →
    b.start ≤ start
  /-- `run` returns as soon as both have drained. -/
  joining : ∀ start stats, s.main = .joiningAdmin start stats → s.admin = .finished →
    s.now ≤ start + 5 * nanosPerSec
  /-- A drain of connections that gave up did so at its deadline, and had a connection that was
  polled first as it began. -/
  tie : ∀ start stats, s.main = .joiningAdmin start stats → stats.drainComplete = false →
    start + 5 * nanosPerSec ≤ s.now ∧
      ∃ h ∈ s.wire.handlers, ∃ since, h.since = some since ∧ since = start
  /-- `drain_ms` is at most five seconds. -/
  drainMs : ∀ stats ms, s.main = .returned stats ms → ms ≤ 5000

theorem punctual_start (now : ℕ) (signals : Signals.State) : Punctual (.start now signals) := by
  refine ⟨ConnectionTracker.punctual_new, ConnectionTracker.punctual_new, ?_, ?_, ?_, ?_, ?_⟩
  all_goals simp [Service.start, Main.begun]

/-- **The shutdown takes at most five seconds.** -/
theorem Punctual.now_le (h : Punctual s) (hs : Sound s) {start : ℕ}
    (hbegun : s.main.begun = some start) : s.now ≤ start + 5 * nanosPerSec := by
  cases hmain : s.main with
  | accepting | failed | returned =>
    rw [hmain] at hbegun
    cases hbegun
  | draining start' =>
    rw [hmain] at hbegun
    cases hbegun
    obtain ⟨b, hb, rfl⟩ := hs.begun hmain
    exact (h.wire.deadline b hb).2
  | joiningAdmin start' stats =>
    cases hadmin : s.admin with
    | unspawned =>
      have hfits := hs.adminFits
      rw [hadmin] at hfits
      exact hfits.elim
    | accepting =>
      rw [h.together start hbegun hadmin]
      exact Nat.le_add_right _ _
    | draining =>
      obtain ⟨b, hb⟩ := hs.adminBegun hadmin
      exact (h.admin.deadline b hb).2.trans (Nat.add_le_add_right (h.start start hbegun b hb) _)
    | finished =>
      rw [hmain] at hbegun
      cases hbegun
      exact h.joining _ stats hmain hadmin

theorem drainMs_le {start now : ℕ} (h : now ≤ start + 5 * nanosPerSec) :
    drainMs start now ≤ 5000 := by
  refine (Nat.min_le_left _ _).trans (Nat.div_le_of_le_mul ?_)
  have hnanos : nanosPerSec = 10 ^ 6 * 1000 := rfl
  omega

theorem Punctual.step (h : Punctual s) (hs : Sound s) (hstep : Prompt s (e, out) s') :
    Punctual s' := by
  obtain ⟨hstep, htick⟩ := hstep
  cases hstep.moves.1 with
  | @tick later hle =>
    obtain ⟨hrests, htimers⟩ := htick later rfl
    have hwire := h.wire.tick hs.wire (wire_rests hrests) hle
      fun x hx => htimers x (List.mem_append_left _ hx)
    have hadmin := h.admin.tick hs.admin (admin_rests hrests) hle
      fun x hx => htimers x (List.mem_append_right _ hx)
    refine ⟨hwire, hadmin, fun start hb ha => ?_, h.start, fun start stats hm ha => ?_,
      fun start stats hm hc => ?_, h.drainMs⟩
    · have hdown : s.signals.shutdown = true := by
        refine hs.shutdown (fun hm => ?_) (fun error hm => ?_)
        · rw [show s.main = _ from hm] at hb
          cases hb
        · rw [show s.main = _ from hm] at hb
          cases hb
      exact absurd (show s.admin = .accepting from ha) (admin_of_rests hrests hdown)
    · have hm : s.main = .joiningAdmin start stats := hm
      exact absurd (show s.admin = .finished from ha) (joining_of_rests hrests hm)
    · obtain ⟨hlate, hex⟩ := h.tie start stats hm hc
      exact ⟨hlate.trans hle, hex⟩
  | signal | signals =>
    exact ⟨h.wire, h.admin, h.together, h.start, h.joining, h.tie, h.drainMs⟩
  | accept hmain =>
    refine ⟨h.wire.spawn (hs.idle hmain), h.admin, h.together, h.start, h.joining, ?_, h.drainMs⟩
    exact fun start stats hm => absurd (hmain.symm.trans hm) Main.noConfusion
  | acceptFailed => exact ⟨h.wire, h.admin, nofun, nofun, nofun, nofun, nofun⟩
  | adminAccept hadmin =>
    have hidle := hs.adminIdle hadmin
    refine ⟨h.wire, h.admin.spawn hidle, h.together, fun start hb b hb' => ?_, h.joining, h.tie,
      h.drainMs⟩
    rw [show s.adminTracker.spawn.drain = .idle from hidle] at hb'
    cases hb'
  | adminAcceptFailed hadmin =>
    refine ⟨h.wire, h.admin, nofun, h.start, fun start stats hm _ => ?_, h.tie, h.drainMs⟩
    have hm : s.main = .joiningAdmin start stats := hm
    have hnow : s.now = start := h.together start (by rw [hm]; rfl) hadmin
    exact hnow.le.trans (Nat.le_add_right _ _)
  | stop hmain =>
    refine ⟨h.wire.beginDrain, h.admin, fun start hb _ => ?_, fun start hb b hb' => ?_, nofun,
      nofun, nofun⟩
    · cases hb
      rfl
    · cases hb
      exact hs.adminPatient.start b hb'
  | adminStop hadmin =>
    refine ⟨h.wire, h.admin.beginDrain, nofun, fun start hb b hb' => ?_, nofun, h.tie, h.drainMs⟩
    cases hb'
    exact (h.together start hb hadmin).le
  | wire ht =>
    refine ⟨h.wire.moves ht, h.admin, h.together, h.start, h.joining, fun start stats hm hc => ?_,
      h.drainMs⟩
    obtain ⟨hlate, hex⟩ := h.tie start stats hm hc
    exact ⟨hlate, ConnectionTracker.exists_since_of_moves ht hex⟩
  | @drained _ t start stats ht hmain hdone =>
    have hbegun : s.main.begun = some start := by rw [hmain]; rfl
    refine ⟨h.wire.moves ht, h.admin, fun start' hb ha => ?_, fun start' hb b hb' => ?_,
      fun start' stats' hm ha => ?_, fun start' stats' hm hc => ?_, nofun⟩
    · cases hb
      exact h.together start hbegun ha
    · cases hb
      exact h.start start hbegun b hb'
    · cases hm
      exact h.now_le hs hbegun
    · cases hm
      obtain ⟨b, hb, rfl⟩ := hs.begun hmain
      obtain ⟨hnow, hex⟩ := h.wire.of_gaveUp hs.wirePatient ht hb hdone hc
      obtain ⟨g, hg, hsince⟩ := hex (by decide) (by decide)
      have hhandlers := (ConnectionTracker.stats_of_moves hs.wirePatient ht hb hdone).2.2.1
      refine ⟨hnow.ge, g, ?_, b.start, hsince, rfl⟩
      exact hhandlers ▸ hg
  | admin ht =>
    refine ⟨h.wire, h.admin.moves ht, h.together, fun start hb b hb' => ?_, h.joining, h.tie,
      h.drainMs⟩
    rcases ConnectionTracker.drain_of_moves ht with ⟨-, hsame⟩ | ⟨b₀, hb₀, hnext | ⟨stats, hd⟩⟩
    · exact h.start start hb b (hsame ▸ hb')
    · cases hnext.symm.trans hb'
      exact h.start start hb b hb₀
    · rw [show _ = ConnectionTracker.Drain.done stats from hd] at hb'
      cases hb'
  | adminDrained ht hadmin hdone =>
    refine ⟨h.wire, h.admin.moves ht, nofun, fun start hb b hb' => ?_, fun start stats hm _ => ?_,
      h.tie, h.drainMs⟩
    · rw [show _ = ConnectionTracker.Drain.done _ from hdone] at hb'
      cases hb'
    · have hm : s.main = .joiningAdmin start stats := hm
      exact h.now_le hs (by rw [hm]; rfl)
  | join hmain =>
    refine ⟨h.wire, h.admin, nofun, nofun, nofun, nofun, fun stats ms hm => ?_⟩
    cases hm
    exact drainMs_le (h.now_le hs (by rw [hmain]; rfl))

theorem Prompt.step {l : Label} (h : Prompt s l s') : Step s l s' := h.1

theorem punctual_of_run {now : ℕ} {signals : Signals.State}
    (hrun : Lts.Run Prompt (.start now signals) ls s) : Sound s ∧ Punctual s := by
  refine hrun.invariant (I := fun s => Sound s ∧ Punctual s) (fun s l t h hstep => ?_)
    ⟨sound_start now signals, punctual_start now signals⟩
  obtain ⟨e, out⟩ := l
  exact ⟨h.1.moves hstep.step.moves.1, h.2.step h.1 hstep⟩

/-! ### Time goes on -/

/-- What the main task has to do. -/
def Main.work : Main → ℕ
  | .accepting => 10
  | .draining _ => 2
  | .joiningAdmin _ _ => 1
  | .failed _ | .returned _ _ => 0

/-- What the admin loop has to do. -/
def adminWork : Lifecycle.AdminLoop → ℕ
  | .accepting => 9
  | .draining => 1
  | .unspawned | .finished => 0

/-- What is to be done before time passes. -/
def Service.work (s : Service) : ℕ :=
  s.signals.work + s.main.work + adminWork s.admin + s.wire.work + s.adminTracker.work

theorem work_lt (h : Sound s) (hstep : Step s (e, out) s') (hown : e.own = true) :
    s'.work < s.work := by
  cases hstep.moves.1 with
  | tick | signal | accept | acceptFailed | adminAccept | adminAcceptFailed => cases hown
  | signals hint ht =>
    have := Signals.work_lt hint ht
    simp only [Service.work]
    omega
  | stop hmain =>
    have := s.wire.work_beginDrain s.now
    simp only [Service.work, hmain, Main.work]
    omega
  | adminStop hadmin =>
    have := s.adminTracker.work_beginDrain s.now
    simp only [Service.work, hadmin, adminWork]
    omega
  | wire ht =>
    have := ConnectionTracker.work_lt_of_moves h.wire ht
    simp only [Service.work]
    omega
  | drained ht hmain =>
    have := ConnectionTracker.work_lt_of_moves h.wire ht
    simp only [Service.work, hmain, Main.work]
    omega
  | admin ht =>
    have := ConnectionTracker.work_lt_of_moves h.admin ht
    simp only [Service.work]
    omega
  | adminDrained ht hadmin =>
    have := ConnectionTracker.work_lt_of_moves h.admin ht
    simp only [Service.work, hadmin, adminWork]
    omega
  | join hmain =>
    simp only [Service.work, hmain, Main.work]
    omega

/-- A service that rests after a signal has seen it. -/
theorem shutdown_of_rests {ls₀ : List Lifecycle.Label}
    (hrun : Lts.Run Lifecycle.Step Lifecycle.start ls₀ s.untimed)
    (hsig : Lifecycle.Signalled ls₀) (hrests : s.Rests) : s.signals.shutdown = true := by
  have hsound := Lifecycle.sound_signals hrun
  refine hsound.shutdown.mpr (finished_of_stuck hsound
    ((Lifecycle.delivered_iff hrun s.gone_untimed).mpr hsig) ?_ fun e t hint ht => ?_)
  · intro hpc
    have hmain := (Lifecycle.ordered_of_run hrun).spawned hpc
    cases hm : s.main <;>
      simp [Service.untimed, hm, Main.untimed, Lifecycle.Main.gone] at hmain
  · have hnone := hrests (.signals e) rfl
    simp only [next, hint, if_true] at hnone
    cases (Option.map_eq_none_iff.mp hnone).symm.trans ht

/-- What is known of the shutdown after a signal at this time. -/
structure Due (signalled : ℕ) (s : Service) : Prop where
  /-- It begins before time passes. -/
  accepting : s.main = .accepting → s.now = signalled
  /-- It has not begun later. -/
  begun : ∀ start, s.main.begun = some start → start ≤ signalled

theorem Due.step {signalled : ℕ} (h : Due signalled s)
    (hdown : s.Rests → s.signals.shutdown = true) (hstep : Prompt s (e, out) s') :
    Due signalled s' := by
  obtain ⟨hstep, htick⟩ := hstep
  cases hstep.moves.1 with
  | @tick later =>
    obtain ⟨hrests, -⟩ := htick later rfl
    have hmain := main_of_rests hrests (hdown hrests)
    exact ⟨fun hm => absurd hm hmain, h.begun⟩
  | stop hmain =>
    refine ⟨nofun, fun start hb => ?_⟩
    cases hb
    exact (h.accepting hmain).le
  | acceptFailed | join => exact ⟨nofun, nofun⟩
  | drained _ hmain =>
    refine ⟨nofun, fun start hb => h.begun start ?_⟩
    rw [hmain]
    exact hb
  | _ => exact ⟨h.accepting, h.begun⟩

/-- **What holds after a signal at this time**, on an executor that is not late. -/
structure After (signalled : ℕ) (s : Service) : Prop where
  /-- However late its tasks were polled. -/
  sound : Sound s
  /-- Since they were not. -/
  punctual : Punctual s
  /-- When the shutdown begins. -/
  due : Due signalled s
  /-- The service has been told. -/
  told : ∃ ls, Lts.Run Lifecycle.Step Lifecycle.start ls s.untimed ∧ Lifecycle.Signalled ls

theorem After.step {signalled : ℕ} {l : Label} (h : After signalled s) (hstep : Prompt s l s') :
    After signalled s' := by
  obtain ⟨e, out⟩ := l
  obtain ⟨ls₀, hrun, hsig⟩ := h.told
  refine ⟨h.sound.moves hstep.step.moves.1, h.punctual.step h.sound hstep,
    h.due.step (shutdown_of_rests hrun hsig) hstep, ?_⟩
  rcases shows_of_step h.sound hstep.step with ⟨e', hstep', -⟩ | ⟨hsame, -, -⟩
  · obtain ⟨l, hl, hls⟩ := hsig
    exact ⟨_, hrun.snoc hstep', l, List.mem_append_left _ hl, hls⟩
  · exact ⟨ls₀, hsame ▸ hrun, hsig⟩

/-- A connection that was accepted just before the signal is still served. -/
def slow : Service where
  now := 0
  signals := ⟨false, false, true, false, false, [], .finished .int, true⟩
  main := .draining 0
  admin := .finished
  wire := ⟨1, [.running 0], .waiting ⟨0, 1⟩ false (5 * nanosPerSec)⟩
  adminTracker := ⟨0, [], .done ⟨0, true⟩⟩

theorem slow_rests : slow.Rests := by
  have hwire : ∀ e : ConnectionTracker.Event, e.own = true →
      slow.wire.next wireTimeouts 0 e = none := by
    intro e hown
    cases e with
    | finish => cases hown
    | drain | expire => rfl
    | poll i | timeout i =>
      cases i with
      | zero => rfl
      | succ i => rfl
  have hadmin : ∀ e : ConnectionTracker.Event, slow.adminTracker.next adminTimeouts 0 e = none := by
    intro e
    cases e <;> rfl
  intro e hown
  cases e with
  | tick | signal | accept | adminAccept => cases hown
  | stop | adminStop | join => rfl
  | signals e => cases e <;> rfl
  | wire e => exact congrArg (Option.map _) (hwire e hown)
  | admin e => exact congrArg (Option.map _) (hadmin e)

/-- As long as no time passes, no executor is late. -/
theorem prompt_of_run (hrun : Lts.Run Step s ls s')
    (hno : ls.all (fun l => match l.1 with | .tick _ => false | _ => true) = true) :
    Lts.Run Prompt s ls s' := by
  induction hrun with
  | nil => exact .nil _
  | @cons s t u l ls hstep _ ih =>
    rw [List.all_cons, Bool.and_eq_true] at hno
    refine .cons ⟨hstep, fun later hl => ?_⟩ (ih hno.2)
    rw [hl] at hno
    cases hno.1

theorem exists_run_slow : ∃ ls, Lts.Run Prompt (.start 0 bootSignals) ls slow ∧
    ls[2]? = some (.signal .int, []) := by
  obtain ⟨ls, s, hrun, rfl, hsig, hno⟩ := Lts.exists_run_of_exec next (.start 0 bootSignals)
    busyShutdown (fun s ls => s = slow ∧ ls[2]? = some (.signal .int, []) ∧
      ls.all (fun l => match l.1 with | .tick _ => false | _ => true) = true) (by decide +kernel)
  exact ⟨ls, prompt_of_run hrun hno, hsig⟩

/-- Five seconds later, the drain gives up. -/
theorem exists_run_gaveUp :
    ∃ ls s, Lts.Run Prompt slow ls s ∧ s.main = .joiningAdmin 0 ⟨0, false⟩ ∧
      s.now = 5 * nanosPerSec ∧ s.admin = .finished ∧ s.signals.watcher.polling = false := by
  have htick : Prompt slow (.tick (5 * nanosPerSec), []) { slow with now := 5 * nanosPerSec } := by
    refine ⟨?_, fun later hl => ?_⟩
    · change next slow (.tick (5 * nanosPerSec)) = _
      rfl
    · cases hl
      exact ⟨slow_rests, by decide⟩
  obtain ⟨ls, s, hrun, hmain, hnow, hadmin, hpoll, hno⟩ := Lts.exists_run_of_exec next
    { slow with now := 5 * nanosPerSec } [.wire .expire]
    (fun s ls => s.main = .joiningAdmin 0 ⟨0, false⟩ ∧ s.now = 5 * nanosPerSec ∧
      s.admin = .finished ∧ s.signals.watcher.polling = false ∧
      ls.all (fun l => match l.1 with | .tick _ => false | _ => true) = true) (by decide +kernel)
  exact ⟨_, s, .cons htick (prompt_of_run hrun hno), hmain, hnow, hadmin, hpoll⟩

/-- **A drain that is not complete** on an executor that is not late: it ends just at its deadline,
and a connection was first served at the very moment at which it began. All others have had the
time they may take. -/
theorem exists_since_of_incomplete {now : ℕ} {signals : Signals.State}
    (hrun : Lts.Run Prompt (.start now signals) ls s) {start : ℕ} {stats : DrainStats}
    (hmain : s.main = .joiningAdmin start stats) (hcomplete : stats.drainComplete = false) :
    s.now = start + wireTimeouts.drainDeadline ∧
      ∃ h ∈ s.wire.handlers, h.since = some start := by
  obtain ⟨hs, hp⟩ := punctual_of_run hrun
  obtain ⟨hlate, g, hg, since, hsince, rfl⟩ := hp.tie start stats hmain hcomplete
  exact ⟨Nat.le_antisymm (hp.now_le hs (by rw [hmain]; rfl)) hlate, g, hg, hsince⟩

theorem exists_since_of_incomplete_slow :
    ∃ ls s, Lts.Run Prompt (.start 0 bootSignals) ls s ∧ s.main = .joiningAdmin 0 ⟨0, false⟩ ∧
      ∃ h ∈ s.wire.handlers, h.since = some 0 := by
  obtain ⟨ls, hrun, -⟩ := exists_run_slow
  obtain ⟨ls', s, hrun', hmain, -⟩ := exists_run_gaveUp
  have hall := hrun.append hrun'
  exact ⟨_, s, hall, hmain, (exists_since_of_incomplete hall hmain rfl).2⟩

end Steps

end Symbolon.Shutdown
