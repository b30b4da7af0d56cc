import Symbolon.Signals

/-!
# The life of the process

`run_daemon` of `src/main.rs` around `Service::run` of `src/daemon.rs`: the stages of the
startup, the accept loop, the drain, the admin loop that is joined after it, and the
watcher of `Symbolon.Signals`, which is joined last. The three tasks share one thread, so a
task moves only while the watcher is not being polled; handlers of signals come at any time.

`run_daemon` awaits the watcher before it looks at what `run` returned, and the watcher
returns only after a signal. So if `accept` fails, `run` returns at once, and the process
stays: it accepts nothing any more, has logged nothing, and has not exited.
**It is blocked in this way iff `run` failed and no signal has come**
(`Symbolon.Lifecycle.blocked_iff`); in every other case in which `run` has returned, the
process exits by itself after a bounded number of steps.
-/

namespace Symbolon.Lifecycle

open Signals

/-! ### The machine -/

/-- The stages of the startup, in their order. -/
inductive Stage
  /-- `load_config`. -/
  | loadConfig
  /-- `mlock_apply`. -/
  | mlock
  /-- The handler of `SIGTERM` is installed. -/
  | registerTerm
  /-- The handler of `SIGINT` is installed, and the watcher is spawned. -/
  | registerInt
  /-- `Service::prepare`. -/
  | prepare
  /-- `Service::selfcheck`. -/
  | selfcheck
  /-- `ready_notify`. -/
  | notify
  deriving DecidableEq

/-- `RunStats`, without the times. -/
structure RunStats where
  /-- How many handlers finished during the drain. -/
  inflightDrained : ℕ
  /-- Whether all of them did. -/
  drainComplete : Bool
  deriving DecidableEq

/-- Where the main task is. -/
inductive Main
  /-- In a stage of the startup. -/
  | starting (stage : Stage)
  /-- In the accept loop of `run`. -/
  | accepting
  /-- In the drain of `run`, with so many handlers at its beginning. -/
  | draining (initial : ℕ)
  /-- `run` joins the admin loop. -/
  | joiningAdmin (stats : RunStats)
  /-- `run` has returned, and the watcher is joined. -/
  | joining (result : Except String RunStats)
  /-- The process has exited. -/
  | exited (code : ℕ)
  /-- The process was killed by a signal without a handler. -/
  | killed (sig : Signal)
  deriving DecidableEq

/-- The process is gone. -/
def Main.gone : Main → Bool
  | .exited _ | .killed _ => true
  | _ => false

/-- Where the admin loop is. -/
inductive AdminLoop
  /-- It is not there yet. -/
  | unspawned
  /-- It accepts. -/
  | accepting
  /-- It drains. -/
  | draining
  /-- It is over, or was dropped with its handle. -/
  | finished
  deriving DecidableEq

/-- The lines of the log, and of the standard error. -/
inductive Log
  /-- The configuration could not be loaded. -/
  | loadFailed
  /-- `mlock_required_failed`. -/
  | mlockRequiredFailed
  /-- `signal_registration_failed`. -/
  | signalRegistrationFailed
  /-- `prepare failed`. -/
  | prepareFailed
  /-- `ready`. -/
  | ready
  /-- `startup`. -/
  | startup
  /-- `admin loop exited`. -/
  | adminLoopExited
  /-- `drain_incomplete`. -/
  | drainIncomplete (inflightDrained : ℕ)
  /-- `shutdown`. -/
  | shutdown (sig : Signal) (stats : RunStats)
  /-- `run_failed`. -/
  | runFailed (sig : Signal) (error : String)
  deriving DecidableEq

/-- **The process.** -/
structure Process where
  /-- The main task. -/
  main : Main
  /-- The admin loop. -/
  admin : AdminLoop
  /-- The connection handlers in flight. -/
  active : ℕ
  /-- The admin handlers in flight. -/
  adminActive : ℕ
  /-- The handlers of signals, and the watcher. -/
  signals : Signals.State
  deriving DecidableEq

/-- The process begins. -/
def start : Process := ⟨.starting .loadConfig, .unspawned, 0, 0, .init⟩

/-- What a task does or is told. -/
inductive TaskEvent
  /-- A stage of the startup ends, well or not. -/
  | stage (stage : Stage) (ok : Bool)
  /-- `accept` returns. -/
  | accept (result : Except String Unit)
  /-- `accept` of the admin loop returns. -/
  | adminAccept (ok : Bool)
  /-- The main task goes on. -/
  | main
  /-- The deadline of the drain is over. -/
  | deadline
  /-- The admin loop goes on. -/
  | admin
  /-- The deadline of its drain is over. -/
  | adminDeadline
  /-- A connection handler is done. -/
  | connDone
  /-- An admin handler is done. -/
  | adminConnDone
  deriving DecidableEq

/-- What happens to the process. -/
inductive Event
  /-- A signal with a handler is delivered. -/
  | signal (sig : Signal)
  /-- A signal without a handler is delivered. -/
  | fatal (sig : Signal)
  /-- A handler or the watcher goes on. -/
  | signals (e : Signals.Event)
  /-- A task goes on. -/
  | task (e : TaskEvent)
  deriving DecidableEq

/-- What a stage that fails logs; the last two do not fail. -/
def Stage.failure : Stage → Option Log
  | .loadConfig => some .loadFailed
  | .mlock => some .mlockRequiredFailed
  | .registerTerm | .registerInt => some .signalRegistrationFailed
  | .prepare => some .prepareFailed
  | .selfcheck | .notify => none

/-- Whether the handler of a signal is installed. -/
def installed : Main → Signal → Bool
  | .starting .loadConfig, _ | .starting .mlock, _ | .starting .registerTerm, _ => false
  | .starting .registerInt, sig => sig = .term
  | _, _ => true

/-- The exit code of `run_daemon` for a result of `run`. -/
def exitCode : Except String RunStats → ℕ
  | .ok _ => 0
  | .error _ => 1

/-- What `run_daemon` logs for a result of `run`. -/
def report (sig : Signal) : Except String RunStats → Log
  | .ok stats => .shutdown sig stats
  | .error e => .runFailed sig e

namespace Process

/-- A stage of the startup ends. -/
def stage (p : Process) (st : Stage) (ok : Bool) : Option (Process × List Log) :=
  if ok then
    match st with
    | .loadConfig => some ({ p with main := .starting .mlock }, [])
    | .mlock => some ({ p with main := .starting .registerTerm }, [])
    | .registerTerm => some ({ p with main := .starting .registerInt }, [])
    | .registerInt =>
      (Signals.next p.signals .spawn).map fun s =>
        ({ p with main := .starting .prepare, signals := s }, [])
    | .prepare => some ({ p with main := .starting .selfcheck }, [])
    | .selfcheck => some ({ p with main := .starting .notify }, [])
    | .notify => some ({ p with main := .accepting, admin := .accepting }, [.ready, .startup])
  else st.failure.map fun log => ({ p with main := .exited 1 }, [log])

/-- The main task goes on, if what it awaits is there. -/
def advance (p : Process) : Option (Process × List Log) :=
  match p.main with
  | .accepting =>
    if p.signals.shutdown then some ({ p with main := .draining p.active }, []) else none
  | .draining initial =>
    if p.active = 0 then some ({ p with main := .joiningAdmin ⟨initial - p.active, true⟩ }, [])
    else none
  | .joiningAdmin stats =>
    if p.admin = .finished then
      some ({ p with main := .joining (.ok stats) },
        if stats.drainComplete then [] else [.drainIncomplete stats.inflightDrained])
    else none
  | .joining result =>
    match p.signals.watcher with
    | .finished sig => some ({ p with main := .exited (exitCode result) }, [report sig result])
    | _ => none
  | .starting _ | .exited _ | .killed _ => none

/-- A task goes on. Both accept loops look at the shutdown token first. -/
def task (p : Process) : TaskEvent → Option (Process × List Log)
  | .stage st ok => if p.main = .starting st then p.stage st ok else none
  | .accept result =>
    if p.main = .accepting ∧ p.signals.shutdown = false then
      match result with
      | .ok () => some ({ p with active := p.active + 1 }, [])
      -- `run` returns at once, and drops the handle of the admin loop
      | .error e => some ({ p with main := .joining (.error e), admin := .finished }, [])
    else none
  | .adminAccept ok =>
    if p.admin = .accepting ∧ p.signals.shutdown = false then
      if ok then some ({ p with adminActive := p.adminActive + 1 }, [])
      else some ({ p with admin := .finished }, [.adminLoopExited])
    else none
  | .main => p.advance
  | .deadline =>
    match p.main with
    | .draining initial =>
      some ({ p with main := .joiningAdmin ⟨initial - p.active, false⟩ }, [])
    | _ => none
  | .admin =>
    match p.admin with
    | .accepting => if p.signals.shutdown then some ({ p with admin := .draining }, []) else none
    | .draining => if p.adminActive = 0 then some ({ p with admin := .finished }, []) else none
    | .unspawned | .finished => none
  | .adminDeadline =>
    if p.admin = .draining then some ({ p with admin := .finished }, []) else none
  | .connDone => if 0 < p.active then some ({ p with active := p.active - 1 }, []) else none
  | .adminConnDone =>
    if 0 < p.adminActive then some ({ p with adminActive := p.adminActive - 1 }, []) else none

end Process

/-- **One event of the process**, with what it logs; `none` when it cannot happen. -/
def next (p : Process) (e : Event) : Option (Process × List Log) :=
  if p.main.gone then none
  else match e with
    | .signal sig =>
      if installed p.main sig then
        (Signals.next p.signals (.deliver sig)).map fun s => ({ p with signals := s }, [])
      else none
    | .fatal sig => if installed p.main sig then none else some ({ p with main := .killed sig }, [])
    | .signals e =>
      if e.internal then (Signals.next p.signals e).map fun s => ({ p with signals := s }, [])
      else none
    -- one thread: no task moves while the watcher is polled
    | .task e => if p.signals.watcher.polling then none else p.task e

/-- A label: an event with what is logged. -/
abbrev Label := Event × List Log

/-- The steps of the process. -/
def Step : Process → Label → Process → Prop := Lts.ofFun next

/-- The event is the delivery of a signal. -/
def Event.isSignal : Event → Bool
  | .signal _ | .fatal _ => true
  | .signals _ | .task _ => false

/-- A signal was delivered. -/
def Signalled (ls : List Label) : Prop := ∃ l ∈ ls, l.1.isSignal = true

/-- The steps that are not the delivery of a signal. -/
def Quiet : Process → Label → Process → Prop :=
  Lts.restrict Step fun _ l => l.1.isSignal = false

/-- **The process waits for a signal**: without one, the main task never goes on, and nothing
is logged. -/
def Blocked (p : Process) : Prop :=
  ∀ ls q, Lts.Run Quiet p ls q → q.main = p.main ∧ ls.flatMap Prod.snd = []

/-! ### The signals of a run -/

/-- What an event is to the handlers and the watcher. -/
def Event.toSignals : Event → Option Signals.Event
  | .signal sig => some (.deliver sig)
  | .signals e => some e
  | .task (.stage .registerInt true) => some .spawn
  | .fatal _ | .task _ => none

section Runs

variable {p q : Process} {e : Event} {out : List Log} {ls : List Label}

/-- **What a step can be.** -/
inductive Moves (p : Process) : Event → List Log → Process → Prop
  /-- A signal starts its handler. -/
  | signal {sig : Signal} {s : Signals.State} (hs : Signals.Step p.signals (.deliver sig) s) :
      Moves p (.signal sig) [] { p with signals := s }
  /-- A signal kills the process. -/
  | fatal {sig : Signal} : Moves p (.fatal sig) [] { p with main := .killed sig }
  /-- A handler or the watcher goes on. -/
  | signals {e : Signals.Event} {s : Signals.State} (hint : e.internal = true)
      (hs : Signals.Step p.signals e s) : Moves p (.signals e) [] { p with signals := s }
  /-- A task goes on. -/
  | task {e : TaskEvent} {q : Process} {out : List Log} (ht : p.task e = some (q, out)) :
      Moves p (.task e) out q

/-- A process that is not gone moves. -/
theorem Step.moves (hstep : Step p (e, out) q) : p.main.gone = false ∧ Moves p e out q := by
  change next p e = some (q, out) at hstep
  unfold next at hstep
  split at hstep
  · cases hstep
  · rename_i halive
    refine ⟨Bool.eq_false_iff.mpr halive, ?_⟩
    cases e with
    | signal sig =>
      dsimp only at hstep
      split at hstep
      · obtain ⟨s, hs, hq⟩ := Option.map_eq_some_iff.mp hstep
        cases hq
        exact .signal hs
      · cases hstep
    | fatal sig =>
      dsimp only at hstep
      split at hstep
      · cases hstep
      · cases hstep
        exact .fatal
    | signals e =>
      dsimp only at hstep
      split at hstep
      · rename_i hint
        obtain ⟨s, hs, hq⟩ := Option.map_eq_some_iff.mp hstep
        cases hq
        exact .signals hint hs
      · cases hstep
    | task e =>
      dsimp only at hstep
      split at hstep
      · cases hstep
      · exact .task hstep

/-- A task leaves the signals alone, but for the stage that spawns the watcher. -/
theorem task_signals {e : TaskEvent} (ht : p.task e = some (q, out)) :
    (e = .stage .registerInt true ∧ Signals.Step p.signals .spawn q.signals) ∨
      (e ≠ .stage .registerInt true ∧ q.signals = p.signals) := by
  cases e with
  | stage st ok =>
    simp only [Process.task] at ht
    split at ht
    · cases ok with
      | false =>
        obtain ⟨log, -, hq⟩ := Option.map_eq_some_iff.mp ht
        cases hq
        exact .inr ⟨by simp, rfl⟩
      | true =>
        cases st with
        | registerInt =>
          obtain ⟨s, hs, hq⟩ := Option.map_eq_some_iff.mp ht
          cases hq
          exact .inl ⟨rfl, hs⟩
        | _ =>
          cases ht
          exact .inr ⟨by simp, rfl⟩
    · cases ht
  | accept result =>
    refine .inr ⟨by simp, ?_⟩
    simp only [Process.task] at ht
    split at ht
    · rcases result with e | u <;> cases ht <;> rfl
    · cases ht
  | adminAccept ok =>
    refine .inr ⟨by simp, ?_⟩
    simp only [Process.task] at ht
    split at ht
    · split at ht <;> cases ht <;> rfl
    · cases ht
  | main =>
    refine .inr ⟨by simp, ?_⟩
    simp only [Process.task, Process.advance] at ht
    repeat' split at ht
    all_goals first | cases ht; rfl | cases ht
  | _ =>
    refine .inr ⟨by simp, ?_⟩
    simp only [Process.task] at ht
    repeat' split at ht
    all_goals first | cases ht; rfl | cases ht

theorem toSignals_task_of_ne {e : TaskEvent} (hne : e ≠ .stage .registerInt true) :
    (Event.task e).toSignals = none := by
  cases e with
  | stage st ok =>
    cases st with
    | registerInt =>
      cases ok with
      | true => exact absurd rfl hne
      | false => rfl
    | _ => rfl
  | _ => rfl

/-- **What a step is to the handlers and the watcher**: a step of theirs, or none. -/
theorem step_signals (hstep : Step p (e, out) q) :
    (∃ e', e.toSignals = some e' ∧ Signals.Step p.signals e' q.signals) ∨
      (e.toSignals = none ∧ q.signals = p.signals) := by
  cases hstep.moves.2 with
  | signal hs => exact .inl ⟨_, rfl, hs⟩
  | fatal => exact .inr ⟨rfl, rfl⟩
  | signals _ hs => exact .inl ⟨_, rfl, hs⟩
  | @task e _ _ ht =>
    obtain ⟨rfl, hs⟩ | ⟨hne, hs⟩ := task_signals ht
    · exact .inl ⟨_, rfl, hs⟩
    · exact .inr ⟨toSignals_task_of_ne hne, hs⟩

/-- **A run of the process is one of the handlers and the watcher.** -/
theorem run_signals (hrun : Lts.Run Step p ls q) :
    Lts.Run Signals.Step p.signals (ls.filterMap fun l => l.1.toSignals) q.signals := by
  induction hrun with
  | nil => exact .nil _
  | @cons p p' q l ls hstep _ ih =>
    obtain ⟨e, out⟩ := l
    rw [List.filterMap_cons]
    obtain ⟨e', he, hs⟩ | ⟨he, hs⟩ := step_signals hstep
    · rw [he]
      exact .cons hs ih
    · rw [he]
      exact hs ▸ ih

/-! ### The order of the tasks -/

/-- **What is over when.** -/
structure Ordered (p : Process) : Prop where
  /-- The watcher is there when the startup is past the registration. -/
  spawned : p.signals.watcher = .unspawned → p.main.gone = true ∨
    p.main = .starting .loadConfig ∨ p.main = .starting .mlock ∨
    p.main = .starting .registerTerm ∨ p.main = .starting .registerInt
  /-- `run` only leaves its loop without an error after the token is cancelled. -/
  drained : ((∃ n, p.main = .draining n) ∨ (∃ stats, p.main = .joiningAdmin stats) ∨
    ∃ stats, p.main = .joining (.ok stats)) → p.signals.shutdown = true
  /-- The admin loop is over when `run` returns. -/
  admin : (∃ result, p.main = .joining result) → p.admin = .finished

theorem ordered_start : Ordered start where
  spawned _ := .inr (.inl rfl)
  drained := by simp [start]
  admin := by simp [start]

theorem Ordered.of_signals {s : Signals.State} {e : Signals.Event} (h : Ordered p)
    (hs : Signals.Step p.signals e s) : Ordered { p with signals := s } where
  spawned hpc := h.spawned (hs.keeps.2 hpc)
  drained hmain := hs.keeps.1 (h.drained hmain)
  admin := h.admin

theorem Ordered.task {e : TaskEvent} (h : Ordered p) (ht : p.task e = some (q, out)) :
    Ordered q := by
  obtain ⟨hsp, hdr, had⟩ := h
  cases e with
  | stage st ok =>
    simp only [Process.task] at ht
    split at ht
    · rename_i hmain
      cases ok with
      | false =>
        obtain ⟨log, -, hq⟩ := Option.map_eq_some_iff.mp ht
        cases hq
        exact ⟨fun _ => .inl rfl, by simp, by simp⟩
      | true =>
        cases st with
        | registerInt =>
          obtain ⟨s, hs, hq⟩ := Option.map_eq_some_iff.mp ht
          cases hq
          refine ⟨fun hpc => ?_, by simp, by simp⟩
          exact absurd ((watcher_of_spawn hs).symm.trans hpc) Watcher.noConfusion
        | _ =>
          cases ht
          exact ⟨by simp_all [Main.gone], by simp, by simp⟩
    · cases ht
  | accept result =>
    simp only [Process.task] at ht
    split at ht
    · rcases result with e | u <;> cases ht
      · exact ⟨by simp_all [Main.gone], by simp, by simp⟩
      · exact ⟨hsp, hdr, had⟩
    · cases ht
  | adminAccept ok =>
    simp only [Process.task] at ht
    split at ht
    · split at ht <;> cases ht
      · exact ⟨hsp, hdr, had⟩
      · exact ⟨hsp, hdr, fun _ => rfl⟩
    · cases ht
  | main =>
    simp only [Process.task, Process.advance] at ht
    repeat' split at ht
    all_goals cases ht
    all_goals exact ⟨by simp_all [Main.gone], by simp_all, by simp_all⟩
  | _ =>
    simp only [Process.task] at ht
    repeat' split at ht
    all_goals cases ht
    all_goals exact ⟨by simp_all [Main.gone], by simp_all, by simp_all⟩

theorem Ordered.step (h : Ordered p) (hstep : Step p (e, out) q) : Ordered q := by
  cases hstep.moves.2 with
  | signal hs | signals _ hs => exact h.of_signals hs
  | fatal => exact ⟨fun _ => .inl rfl, by simp, by simp⟩
  | task ht => exact h.task ht

theorem ordered_of_run (hrun : Lts.Run Step start ls p) : Ordered p :=
  hrun.invariant (fun _ _ _ h hstep => h.step hstep) ordered_start

theorem sound_signals (hrun : Lts.Run Step start ls p) :
    Sound (ls.filterMap fun l => l.1.toSignals) p.signals :=
  sound_of_run (run_signals hrun)

/-- A process that is gone does nothing more. -/
theorem eq_of_gone (hgone : p.main.gone = true) (hrun : Lts.Run Step p ls q) : q = p := by
  cases hrun with
  | nil => rfl
  | cons hstep _ => exact absurd (hstep.moves.1.symm.trans hgone) Bool.noConfusion

/-- A signal that did not kill the process was delivered to its handler. -/
theorem delivered_iff (hrun : Lts.Run Step start ls p) (halive : p.main.gone = false) :
    Delivered (ls.filterMap fun l => l.1.toSignals) ↔ Signalled ls := by
  constructor
  · rintro ⟨sig, hmem⟩
    obtain ⟨⟨e, out⟩, hl, he⟩ := List.mem_filterMap.mp hmem
    obtain ⟨i, hi⟩ := List.mem_iff_getElem?.mp hl
    obtain ⟨p₁, p₂, -, hstep, -⟩ := hrun.split_at hi
    refine ⟨_, hl, ?_⟩
    cases hstep.moves.2 with
    | signal | fatal => rfl
    | signals hint =>
      cases he
      cases hint
    | @task e =>
      by_cases hspawn : e = .stage .registerInt true
      · rw [hspawn] at he
        cases he
      · cases (toSignals_task_of_ne hspawn).symm.trans he
  · rintro ⟨⟨e, out⟩, hl, he⟩
    obtain ⟨i, hi⟩ := List.mem_iff_getElem?.mp hl
    obtain ⟨p₁, p₂, -, hstep, hrest⟩ := hrun.split_at hi
    cases hstep.moves.2 with
    | @signal sig => exact ⟨sig, List.mem_filterMap.mpr ⟨_, hl, rfl⟩⟩
    | fatal =>
      obtain rfl := eq_of_gone rfl hrest
      cases halive
    | signals | task => cases he

/-! ### After `run` has returned -/

/-- The work that is left for a process after `run` has returned, when no signals come. -/
def Process.work (p : Process) : ℕ :=
  p.signals.work + p.active + p.adminActive +
    match p.main with
    | .joining _ => 1
    | _ => 0

/-- Where a process can be after `run` has returned. -/
inductive Returned (result : Except String RunStats) (past : List Label) (q : Process) : Prop
  /-- It still joins the watcher, and has logged nothing. -/
  | joining (hmain : q.main = .joining result) (hadmin : q.admin = .finished)
      (hlogs : past.flatMap Prod.snd = [])
  /-- It has exited, and reported the result. -/
  | exited (hmain : q.main = .exited (exitCode result))
      (hlogs : ∃ sig, report sig result ∈ past.flatMap Prod.snd)

/-- **What a step without a signal does while the watcher is joined**: it works, or the
watcher has returned, and the process reports and exits. -/
theorem quiet_of_joining {result : Except String RunStats} (hmain : p.main = .joining result)
    (hadmin : p.admin = .finished) (hstep : Quiet p (e, out) q) :
    q.work < p.work ∧ ((q.main = p.main ∧ q.admin = .finished ∧ out = []) ∨
      ∃ sig, p.signals.watcher = .finished sig ∧ q.main = .exited (exitCode result) ∧
        out = [report sig result]) := by
  obtain ⟨hstep, hquiet⟩ := hstep
  cases hstep.moves.2 with
  | signal | fatal => cases hquiet
  | signals hint hs =>
    refine ⟨?_, .inl ⟨rfl, hadmin, rfl⟩⟩
    have := work_lt hint hs
    simp only [Process.work]
    omega
  | @task e _ _ ht =>
    cases e with
    | main =>
      simp only [Process.task, Process.advance, hmain] at ht
      split at ht
      · rename_i sig hsig
        cases ht
        refine ⟨?_, .inr ⟨sig, hsig, rfl, rfl⟩⟩
        simp [Process.work, hmain]
      · cases ht
    | connDone | adminConnDone =>
      simp only [Process.task] at ht
      split at ht
      · cases ht
        refine ⟨?_, .inl ⟨rfl, hadmin, rfl⟩⟩
        simp only [Process.work]
        omega
      · cases ht
    | _ => simp [Process.task, hmain, hadmin] at ht

/-- Without a signal, a process that has returned stays so, and its work comes to an end. -/
theorem Returned.step {result : Except String RunStats} {past : List Label} {l : Label}
    (h : Returned result past p) (hstep : Quiet p l q) :
    Returned result (past ++ [l]) q ∧ q.work < p.work := by
  obtain ⟨e, out⟩ := l
  cases h with
  | joining hmain hadmin hlogs =>
    obtain ⟨hlt, ⟨hm, ha, rfl⟩ | ⟨sig, -, hm, rfl⟩⟩ := quiet_of_joining hmain hadmin hstep
    · exact ⟨.joining (hm.trans hmain) ha (by simp [hlogs]), hlt⟩
    · exact ⟨.exited hm ⟨sig, by simp⟩, hlt⟩
  | exited hmain =>
    have hgone : p.main.gone = true := by rw [hmain]; rfl
    exact absurd (hstep.1.moves.1.symm.trans hgone) Bool.noConfusion

variable {result : Except String RunStats}

theorem run_of_quiet (hrun : Lts.Run Quiet p ls q) : Lts.Run Step p ls q :=
  hrun.mono fun _ _ _ h => h.1

/-- A run without a signal, told by `Returned`. -/
theorem Returned.run {ls' : List Label} (h : Returned result [] p)
    (hrun : Lts.Run Quiet p ls' q) : Returned result ls' q :=
  hrun.history (fun _ _ _ _ h hstep => (h.step hstep).1) h

theorem returned_of_run (hrun : Lts.Run Step start ls p) (hmain : p.main = .joining result) :
    Returned result [] p :=
  .joining hmain ((ordered_of_run hrun).admin ⟨result, hmain⟩) rfl

/-- **A process whose `run` has succeeded, or that got a signal, is not stuck before its
exit**: the watcher returns, and the main task with it. -/
theorem not_stuck_of_joining (hrun : Lts.Run Step start ls p) (hmain : p.main = .joining result)
    (hset : (∃ stats, result = .ok stats) ∨ Signalled ls) : ∃ l q, Quiet p l q := by
  by_contra hstuck
  simp only [not_exists] at hstuck
  have halive : p.main.gone = false := by rw [hmain]; rfl
  have hsound := sound_signals hrun
  have hordered := ordered_of_run hrun
  have hfinished : ∃ sig, p.signals.watcher = .finished sig := by
    obtain ⟨stats, rfl⟩ | hsig := hset
    · exact hsound.shutdown.mp (hordered.drained (.inr (.inr ⟨stats, hmain⟩)))
    · refine finished_of_stuck hsound ((delivered_iff hrun halive).mpr hsig) ?_ ?_
      · intro hpc
        simpa [hmain, Main.gone] using hordered.spawned hpc
      · intro e t hint hs
        refine hstuck (.signals e, []) { p with signals := t } ⟨?_, rfl⟩
        change next p (.signals e) = _
        unfold next
        simp only [halive, hint, if_true, Bool.false_eq_true, if_false]
        exact congrArg (Option.map _) hs
  obtain ⟨sig, hsig⟩ := hfinished
  refine hstuck (.task .main, [report sig result])
    { p with main := .exited (exitCode result) } ⟨?_, rfl⟩
  change next p (.task .main) = _
  unfold next
  simp [Main.gone, hsig, Watcher.polling, Process.task, Process.advance, hmain]

/-- **A process whose `run` has succeeded, or that got a signal, exits by itself.** -/
theorem exits_of_joining (hrun : Lts.Run Step start ls p) (hmain : p.main = .joining result)
    (hset : (∃ stats, result = .ok stats) ∨ Signalled ls) :
    (∃ ls' q, Lts.Run Quiet p ls' q ∧ q.main = .exited (exitCode result)) ∧
      ∀ ls' q, Lts.Run Quiet p ls' q → ls'.length ≤ p.work ∧
        ((∀ l q', ¬Quiet q l q') → q.main = .exited (exitCode result) ∧
          ∃ sig, report sig result ∈ ls'.flatMap Prod.snd) := by
  have hret := returned_of_run hrun hmain
  have hstep : ∀ s l t, (∃ past, Returned result past s) → Quiet s l t →
      (∃ past, Returned result past t) ∧ t.work < s.work := by
    rintro s l t ⟨past, h⟩ hquiet
    obtain ⟨h', hlt⟩ := h.step hquiet
    exact ⟨⟨_, h'⟩, hlt⟩
  have hend : ∀ ls' q, Lts.Run Quiet p ls' q → (∀ l q', ¬Quiet q l q') →
      q.main = .exited (exitCode result) ∧ ∃ sig, report sig result ∈ ls'.flatMap Prod.snd := by
    intro ls' q hquiet hstuck
    cases hret.run hquiet with
    | exited hm hlogs => exact ⟨hm, hlogs⟩
    | joining hm =>
      have hset' : (∃ stats, result = .ok stats) ∨ Signalled (ls ++ ls') :=
        hset.imp_right fun ⟨l, hl, hsig⟩ => ⟨l, List.mem_append_left _ hl, hsig⟩
      obtain ⟨l, q', hq⟩ := not_stuck_of_joining (hrun.append (run_of_quiet hquiet)) hm hset'
      exact absurd hq (hstuck l q')
  refine ⟨?_, fun ls' q hquiet => ⟨?_, hend ls' q hquiet⟩⟩
  · obtain ⟨ls', q, hquiet, hstuck⟩ := Lts.exists_stuck hstep ⟨[], hret⟩
    exact ⟨ls', q, hquiet, (hend ls' q hquiet hstuck).1⟩
  · have hle := (hquiet.length_add_le hstep ⟨[], hret⟩).2
    exact Nat.le_trans (Nat.le_add_right _ _) hle

/-- **A process whose `run` has failed waits for its first signal.** -/
theorem blocked_of_joining {e : String} (hrun : Lts.Run Step start ls p)
    (hmain : p.main = .joining (.error e)) (hsig : ¬Signalled ls) : Blocked p := by
  intro ls' q hquiet
  have hadmin := (ordered_of_run hrun).admin ⟨_, hmain⟩
  suffices h : (q.main = p.main ∧ q.admin = .finished ∧ ls'.flatMap Prod.snd = []) ∧
      Lts.Run Step start (ls ++ ls') q ∧ ¬Signalled (ls ++ ls') from ⟨h.1.1, h.1.2.2⟩
  refine hquiet.history (P := fun past q =>
    (q.main = p.main ∧ q.admin = .finished ∧ past.flatMap Prod.snd = []) ∧
      Lts.Run Step start (ls ++ past) q ∧ ¬Signalled (ls ++ past)) ?_ ?_
  · rintro past q ⟨ev, out⟩ q' ⟨⟨hm, ha, hlogs⟩, hrun', hno⟩ hstep
    have hm' : q.main = .joining (.error e) := hm.trans hmain
    have halive : q.main.gone = false := by rw [hm']; rfl
    have hwait := ((sound_signals hrun').quiet fun hdel =>
      hno ((delivered_iff hrun' halive).mp hdel)).2.2.2
    obtain ⟨-, ⟨hmain', hadmin', rfl⟩ | ⟨sig, hfin, -⟩⟩ := quiet_of_joining hm' ha hstep
    · refine ⟨⟨hmain'.trans hm, hadmin', by simp [hlogs]⟩, ?_, ?_⟩
      · rw [← List.append_assoc]
        exact hrun'.snoc hstep.1
      · rw [← List.append_assoc]
        rintro ⟨l, hl, hsig'⟩
        obtain hl | hl := List.mem_append.mp hl
        · exact hno ⟨l, hl, hsig'⟩
        · cases List.mem_singleton.mp hl
          exact absurd (hstep.2.symm.trans hsig') Bool.noConfusion
    · exact absurd hfin (hwait sig)
  · exact ⟨⟨rfl, hadmin, rfl⟩, by simpa using hrun, by simpa using hsig⟩

end Runs

/-- **When the process is left behind.** In every run of the process, when `run` has
returned: the process is blocked until a signal comes iff `run` returned an error and no
signal has come so far. If it is not blocked, it can exit without a further signal, and
cannot fail to: every run without a signal is bounded, and where it cannot go on the process
has exited, with the code of the result and after its report. -/
theorem blocked_iff {ls : List Label} {p : Process} {result : Except String RunStats}
    (hrun : Lts.Run Step start ls p) (hmain : p.main = .joining result) :
    (Blocked p ↔ (∃ e, result = .error e) ∧ ¬Signalled ls) ∧
      (¬Blocked p →
        (∃ ls' q, Lts.Run Quiet p ls' q ∧ q.main = .exited (exitCode result)) ∧
        ∀ ls' q, Lts.Run Quiet p ls' q → ls'.length ≤ p.work ∧
          ((∀ l q', ¬Quiet q l q') → q.main = .exited (exitCode result) ∧
            ∃ sig, report sig result ∈ ls'.flatMap Prod.snd)) := by
  have hiff : Blocked p ↔ (∃ e, result = .error e) ∧ ¬Signalled ls := by
    constructor
    · intro hblocked
      have hunset : ¬((∃ stats, result = .ok stats) ∨ Signalled ls) := by
        intro hset
        obtain ⟨⟨ls', q, hquiet, hexit⟩, -⟩ := exits_of_joining hrun hmain hset
        have hsame := (hblocked ls' q hquiet).1
        rw [hexit, hmain] at hsame
        cases hsame
      refine ⟨?_, fun hsig => hunset (.inr hsig)⟩
      rcases result with e | stats
      · exact ⟨e, rfl⟩
      · exact absurd (.inl ⟨stats, rfl⟩) hunset
    · rintro ⟨⟨e, rfl⟩, hsig⟩
      exact blocked_of_joining hrun hmain hsig
  refine ⟨hiff, fun hfree => exits_of_joining hrun hmain ?_⟩
  rcases result with e | stats
  · by_contra hunset
    exact hfree (hiff.mpr ⟨⟨e, rfl⟩, fun hsig => hunset (.inr hsig)⟩)
  · exact .inl ⟨stats, rfl⟩

/-- The startup, stage by stage. -/
def startup : List Event :=
  [.loadConfig, .mlock, .registerTerm, .registerInt, .prepare, .selfcheck, .notify].map
    fun st => .task (.stage st true)

/-- **A zombie**: the startup goes well, `accept` fails, and that is the end of it. Nothing
is logged about the failure, and the process neither exits nor does anything else until a
signal comes. -/
theorem exists_blocked :
    ∃ ls p, Lts.Run Step start ls p ∧ ¬Signalled ls ∧
      p.main = .joining (.error "Too many open files") ∧ Blocked p := by
  obtain ⟨ls, p, hrun, hmain, hsig⟩ := Lts.exists_run_of_exec next start
    (startup ++ [.task (.accept (.error "Too many open files"))])
    (fun p ls => p.main = .joining (.error "Too many open files") ∧
      ls.all (fun l => !l.1.isSignal) = true) (by decide +kernel)
  have hno : ¬Signalled ls := by
    rintro ⟨l, hl, hsig'⟩
    have := List.all_eq_true.mp hsig l hl
    simp [hsig'] at this
  exact ⟨ls, p, hrun, hno, hmain, blocked_of_joining hrun hmain hno⟩

/-- The same failure when a signal has come: the process reports it and exits. -/
theorem blocked_iff_interrupted :
    ∃ ls p, Lts.Run Step start ls p ∧ p.main = .joining (.error "Too many open files") ∧
      ∃ ls' q, Lts.Run Quiet p ls' q ∧ q.main = .exited 1 := by
  obtain ⟨ls, p, hrun, hmain, hsig⟩ := Lts.exists_run_of_exec next start
    (startup ++ [.signal .int, .task (.accept (.error "Too many open files"))])
    (fun p ls => p.main = .joining (.error "Too many open files") ∧
      ls.any (fun l => l.1.isSignal) = true) (by decide +kernel)
  have hyes : Signalled ls := List.any_eq_true.mp hsig
  obtain ⟨hiff, hexits⟩ := blocked_iff hrun hmain
  exact ⟨ls, p, hrun, hmain, (hexits fun hblocked => (hiff.mp hblocked).2 hyes).1⟩

end Symbolon.Lifecycle
