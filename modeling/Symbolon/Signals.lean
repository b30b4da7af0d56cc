import Mathlib.Algebra.Order.Ring.Nat
import Symbolon.Lib.Run

/-!
# The shutdown watcher

`src/signals.rs`: the two signal handlers, the notifier they share with the watcher, and the
watcher's task, which waits for one of them and cancels the shutdown token. A handler runs
whenever its signal arrives, between any two instructions of anything else, other handlers
included; so here every atomic operation is a step of its own, of a handler or of the
watcher, and they interleave freely.

The notifier may not lose a wake-up: a handler that comes between the watcher's look at the
flag and its going to sleep must still get it up. `Symbolon.Signals.Sound` is the invariant
that says so, and from it follows that **a delivered signal is all the watcher needs**: it
comes to its end in a bounded number of steps (`Symbolon.Signals.finished_of_stuck`,
`Symbolon.Signals.work_lt`), and without a signal it never does
(`Symbolon.Signals.Sound.quiet`).
-/

namespace Symbolon.Signals

/-- The signals that shut the daemon down. -/
inductive Signal
  /-- `SIGTERM`. -/
  | term
  /-- `SIGINT`. -/
  | int
  deriving DecidableEq

/-- What a handler does next. -/
inductive Op
  /-- Set the flag of its signal. -/
  | storePending
  /-- Set the flag of the notifier. -/
  | storeSet
  /-- Wake whoever is registered. -/
  | wake
  deriving DecidableEq

/-- A handler that is under way. -/
structure Handler where
  /-- Its signal. -/
  sig : Signal
  /-- What it does next. -/
  op : Op
  deriving DecidableEq

/-- Where the watcher is. -/
inductive Watcher
  /-- It is not there yet. -/
  | unspawned
  /-- It has been spawned, and is polled for the first time. -/
  | spawned
  /-- It looks whether `SIGTERM` is pending. -/
  | checkTerm
  /-- It looks whether `SIGINT` is pending. -/
  | checkInt
  /-- It takes the notifier's flag. -/
  | swap
  /-- It registers its waker. -/
  | register
  /-- It takes the flag once more. -/
  | swapAgain
  /-- It waits to be woken. -/
  | parked
  /-- It has returned the name of the signal. -/
  | finished (sig : Signal)
  deriving DecidableEq

/-- The watcher has the thread. -/
def Watcher.polling : Watcher → Bool
  | .checkTerm | .checkInt | .swap | .register | .swapAgain => true
  | .unspawned | .spawned | .parked | .finished _ => false

/-- **What the handlers and the watcher share.** -/
structure State where
  /-- `term_pending`. -/
  termPending : Bool
  /-- `int_pending`. -/
  intPending : Bool
  /-- The flag of the notifier. -/
  set : Bool
  /-- A waker is registered with the notifier. -/
  waker : Bool
  /-- The watcher's task has been woken, and will be polled. -/
  scheduled : Bool
  /-- The handlers under way. -/
  handlers : List Handler
  /-- The watcher. -/
  watcher : Watcher
  /-- The shutdown token is cancelled. -/
  shutdown : Bool
  deriving DecidableEq

/-- Nothing has happened. -/
def State.init : State := ⟨false, false, false, false, false, [], .unspawned, false⟩

/-- What happens. -/
inductive Event
  /-- The watcher is spawned. -/
  | spawn
  /-- A signal is delivered, and its handler starts. -/
  | deliver (sig : Signal)
  /-- The handler at this place does its next operation. -/
  | handler (i : ℕ)
  /-- The watcher goes on. -/
  | watcher
  deriving DecidableEq

/-- Whether a signal is pending. -/
def State.pending (s : State) : Signal → Bool
  | .term => s.termPending
  | .int => s.intPending

/-- `pending.store(true)`. -/
def State.store (s : State) : Signal → State
  | .term => { s with termPending := true }
  | .int => { s with intPending := true }

/-- The next operation of the handler at place `i`. -/
def State.handle (s : State) (i : ℕ) : Handler → State
  | ⟨sig, .storePending⟩ => { s.store sig with handlers := s.handlers.set i ⟨sig, .storeSet⟩ }
  | ⟨sig, .storeSet⟩ => { s with set := true, handlers := s.handlers.set i ⟨sig, .wake⟩ }
  | ⟨_, .wake⟩ =>
    { s with waker := false, scheduled := s.scheduled || s.waker,
             handlers := s.handlers.eraseIdx i }

/-- The next operation of the watcher; `none` when it waits or is gone. -/
def State.watch (s : State) : Option State :=
  match s.watcher with
  | .unspawned | .finished _ => none
  | .spawned => some { s with watcher := .checkTerm }
  | .checkTerm =>
    if s.termPending then
      some { s with termPending := false, shutdown := true, watcher := .finished .term }
    else some { s with watcher := .checkInt }
  | .checkInt =>
    if s.intPending then
      some { s with intPending := false, shutdown := true, watcher := .finished .int }
    else some { s with watcher := .swap }
  | .swap =>
    -- `Ready`: the loop begins again
    if s.set then some { s with set := false, watcher := .checkTerm }
    else some { s with watcher := .register }
  | .register => some { s with waker := true, watcher := .swapAgain }
  | .swapAgain =>
    if s.set then some { s with set := false, watcher := .checkTerm }
    else some { s with watcher := .parked }
  | .parked =>
    -- the future is polled from its beginning
    if s.scheduled then some { s with scheduled := false, watcher := .swap } else none

/-- **One event**; `none` when it cannot happen. -/
def next (s : State) : Event → Option State
  | .spawn => if s.watcher = .unspawned then some { s with watcher := .spawned } else none
  | .deliver sig => some { s with handlers := s.handlers ++ [⟨sig, .storePending⟩] }
  | .handler i => s.handlers[i]?.map (s.handle i)
  | .watcher => s.watch

/-- The steps. -/
def Step (s : State) (e : Event) (t : State) : Prop := next s e = some t

/-- A signal has been delivered. -/
def Delivered (past : List Event) : Prop := ∃ sig, .deliver sig ∈ past

/-! ### No wake-up is lost -/

/-- The watcher is going to look at the pending flags, or is made to: it is on its way to
them; or the flag of the notifier is up and it is going to take it, or to be woken; or a
handler is still to put the flag up. -/
inductive WillLook (s : State) : Prop
  /-- A handler is still to put the flag up. -/
  | handler {h : Handler} (hmem : h ∈ s.handlers) (hop : h.op ≠ .wake)
  /-- It is about to look at both. -/
  | before (hpc : s.watcher = .unspawned ∨ s.watcher = .spawned ∨ s.watcher = .checkTerm)
  /-- It is about to look at one, and that one is up. -/
  | int (hpc : s.watcher = .checkInt) (hint : s.intPending = true)
  /-- It is going to take the flag, which is up. -/
  | set (hpc : s.watcher.polling = true) (hset : s.set = true)
  /-- It is going to be woken, and the flag is up. -/
  | woken (hpc : s.watcher = .parked) (hset : s.set = true)
      (hwake : s.scheduled = true ∨ ∃ h ∈ s.handlers, h.op = .wake)

/-- **What holds whatever has happened.** -/
structure Sound (past : List Event) (s : State) : Prop where
  /-- The watcher cancels the token as it returns. -/
  shutdown : s.shutdown = true ↔ ∃ sig, s.watcher = .finished sig
  /-- Without a signal there is no handler, nothing is pending, and the watcher waits. -/
  quiet : ¬Delivered past → s.handlers = [] ∧ s.termPending = false ∧ s.intPending = false ∧
    ∀ sig, s.watcher ≠ .finished sig
  /-- Until the watcher returns, what was delivered is pending or about to be. -/
  kept : Delivered past → (∀ sig, s.watcher ≠ .finished sig) →
    (∃ sig, s.pending sig = true) ∨ ∃ h ∈ s.handlers, h.op = .storePending
  /-- What is pending is going to be looked at. -/
  look : (∃ sig, s.pending sig = true) → (∀ sig, s.watcher ≠ .finished sig) → WillLook s
  /-- A watcher that waits, or is about to, is registered or has been woken. -/
  registered : s.watcher = .swapAgain ∨ s.watcher = .parked →
    s.waker = true ∨ s.scheduled = true

theorem sound_init : Sound [] .init where
  shutdown := by simp [State.init]
  quiet _ := by simp [State.init]
  kept := by
    rintro ⟨sig, hmem⟩
    cases hmem
  look := by
    rintro ⟨sig, hsig⟩
    cases sig <;> cases hsig
  registered := by simp [State.init]

section Step

variable {past : List Event} {s t : State} {e : Event} {i : ℕ} {h h' : Handler}

theorem delivered_snoc : Delivered (past ++ [e]) ↔ Delivered past ∨ ∃ sig, e = .deliver sig := by
  constructor
  · rintro ⟨sig, hmem⟩
    obtain hpast | hlast := List.mem_append.mp hmem
    · exact .inl ⟨sig, hpast⟩
    · exact .inr ⟨sig, (List.mem_singleton.mp hlast).symm⟩
  · rintro (⟨sig, hpast⟩ | ⟨sig, rfl⟩)
    · exact ⟨sig, List.mem_append_left _ hpast⟩
    · exact ⟨sig, List.mem_append_right _ List.mem_cons_self⟩

/-- Only one handler moves. -/
theorem mem_set_of_ne {l : List Handler} (hi : l[i]? = some h) (hmem : h' ∈ l) (hne : h' ≠ h)
    (x : Handler) : h' ∈ l.set i x := by
  obtain ⟨j, hj⟩ := List.mem_iff_getElem?.mp hmem
  have hij : i ≠ j := by
    rintro rfl
    exact hne (Option.some.inj (hj.symm.trans hi))
  exact List.mem_iff_getElem?.mpr ⟨j, (List.getElem?_set_ne hij).trans hj⟩

theorem mem_eraseIdx_of_ne {l : List Handler} (hi : l[i]? = some h) (hmem : h' ∈ l)
    (hne : h' ≠ h) : h' ∈ l.eraseIdx i := by
  obtain ⟨j, hj⟩ := List.mem_iff_getElem?.mp hmem
  refine List.mem_eraseIdx_iff_getElem?.mpr ⟨j, ?_, hj⟩
  rintro rfl
  exact hne (Option.some.inj (hj.symm.trans hi))

theorem Sound.spawn (hs : Sound past s) (hstep : Step s .spawn t) : Sound (past ++ [.spawn]) t := by
  have hdel : Delivered (past ++ [.spawn]) ↔ Delivered past := by simp [delivered_snoc]
  change (if s.watcher = .unspawned then _ else _) = _ at hstep
  split at hstep
  · rename_i hpc
    cases hstep
    have hnone : ∀ sig, s.watcher ≠ .finished sig := by simp [hpc]
    refine ⟨?_, ?_, ?_, ?_, by simp⟩
    · simpa [hpc] using hs.shutdown
    · rw [hdel]
      intro hno
      obtain ⟨hh, hterm, hint, -⟩ := hs.quiet hno
      exact ⟨hh, hterm, hint, by simp⟩
    · rw [hdel]
      intro hyes _
      exact hs.kept hyes hnone
    · intro _ _
      exact .before (.inr (.inl rfl))
  · cases hstep

theorem Sound.deliver (hs : Sound past s) (sig : Signal) :
    Sound (past ++ [.deliver sig])
      { s with handlers := s.handlers ++ [⟨sig, .storePending⟩] } := by
  have hnew : (⟨sig, .storePending⟩ : Handler) ∈ s.handlers ++ [⟨sig, .storePending⟩] :=
    List.mem_append_right _ List.mem_cons_self
  have hdel : Delivered (past ++ [.deliver sig]) := delivered_snoc.mpr (.inr ⟨sig, rfl⟩)
  refine ⟨hs.shutdown, fun hno => absurd hdel hno, ?_, ?_, hs.registered⟩
  · intro _ _
    exact .inr ⟨_, hnew, rfl⟩
  · intro _ _
    exact .handler hnew (by simp)

/-- What a handler that is under way says of the past. -/
theorem Sound.delivered_of_handler (hs : Sound past s) (hi : s.handlers[i]? = some h) :
    Delivered past := by
  by_contra hno
  rw [(hs.quiet hno).1] at hi
  cases hi

theorem Sound.storePending {sig : Signal} (hs : Sound past s)
    (hi : s.handlers[i]? = some ⟨sig, .storePending⟩) :
    Sound (past ++ [.handler i]) (s.handle i ⟨sig, .storePending⟩) := by
  have hlt : i < s.handlers.length := (List.getElem?_eq_some_iff.mp hi).1
  have hnew : (⟨sig, .storeSet⟩ : Handler) ∈ s.handlers.set i ⟨sig, .storeSet⟩ :=
    List.mem_set hlt _
  have hdel := delivered_snoc (e := .handler i).mpr (.inl (hs.delivered_of_handler hi))
  refine ⟨?_, fun hno => absurd hdel hno, ?_, ?_, ?_⟩
  · cases sig <;> exact hs.shutdown
  · intro _ _
    refine .inl ⟨sig, ?_⟩
    cases sig <;> rfl
  · intro _ _
    exact .handler hnew (by simp)
  · cases sig <;> exact hs.registered

theorem Sound.storeSet {sig : Signal} (hs : Sound past s)
    (hi : s.handlers[i]? = some ⟨sig, .storeSet⟩) :
    Sound (past ++ [.handler i]) (s.handle i ⟨sig, .storeSet⟩) := by
  have hlt : i < s.handlers.length := (List.getElem?_eq_some_iff.mp hi).1
  have hnew : (⟨sig, .wake⟩ : Handler) ∈ s.handlers.set i ⟨sig, .wake⟩ := List.mem_set hlt _
  have hyes := hs.delivered_of_handler hi
  have hdel := delivered_snoc (e := .handler i).mpr (.inl hyes)
  refine ⟨hs.shutdown, fun hno => absurd hdel hno, ?_, ?_, hs.registered⟩
  · intro _ hopen
    obtain hpend | ⟨h', hmem, hop⟩ := hs.kept hyes hopen
    · exact .inl hpend
    · refine .inr ⟨h', mem_set_of_ne hi hmem ?_ _, hop⟩
      rintro rfl
      cases hop
  · -- The flag is up now: wherever the watcher is, it takes it or is woken.
    intro _ hopen
    cases hpc : s.watcher with
    | unspawned => exact .before (.inl hpc)
    | spawned => exact .before (.inr (.inl hpc))
    | checkTerm => exact .before (.inr (.inr hpc))
    | checkInt | swap | register | swapAgain =>
      exact .set (by simp [State.handle, hpc, Watcher.polling]) rfl
    | parked => exact .woken hpc rfl (.inr ⟨_, hnew, rfl⟩)
    | finished sig' => exact absurd hpc (hopen sig')

theorem Sound.wake {sig : Signal} (hs : Sound past s)
    (hi : s.handlers[i]? = some ⟨sig, .wake⟩) :
    Sound (past ++ [.handler i]) (s.handle i ⟨sig, .wake⟩) := by
  have hyes := hs.delivered_of_handler hi
  have hdel := delivered_snoc (e := .handler i).mpr (.inl hyes)
  have hwoken : s.watcher = .swapAgain ∨ s.watcher = .parked →
      (s.scheduled || s.waker) = true := by
    intro hpc
    obtain hw | hsch := hs.registered hpc
    · rw [hw, Bool.or_true]
    · rw [hsch, Bool.true_or]
  refine ⟨hs.shutdown, fun hno => absurd hdel hno, ?_, ?_, fun hpc => .inr (hwoken hpc)⟩
  · intro _ hopen
    obtain hpend | ⟨h', hmem, hop⟩ := hs.kept hyes hopen
    · exact .inl hpend
    · refine .inr ⟨h', mem_eraseIdx_of_ne hi hmem ?_, hop⟩
      rintro rfl
      cases hop
  · intro hpend hopen
    cases hs.look hpend hopen with
    | @handler h' hmem hop =>
      refine .handler (mem_eraseIdx_of_ne hi hmem ?_) hop
      rintro rfl
      exact hop rfl
    | before hpc => exact .before hpc
    | int hpc hint => exact .int hpc hint
    | set hpc hset => exact .set hpc hset
    | woken hpc hset _ => exact .woken hpc hset (.inl (hwoken (.inr hpc)))

/-- The fields that do not depend on where the watcher is, as long as it is not gone. -/
theorem Sound.move {pc : Watcher} (hs : Sound past s) (hopen : ∀ sig, s.watcher ≠ .finished sig)
    (hpc : ∀ sig, pc ≠ .finished sig) {set waker scheduled : Bool}
    (hlook : (∃ sig, s.pending sig = true) → WillLook
      { s with set := set, waker := waker, scheduled := scheduled, watcher := pc })
    (hreg : pc = .swapAgain ∨ pc = .parked → waker = true ∨ scheduled = true) :
    Sound (past ++ [.watcher])
      { s with set := set, waker := waker, scheduled := scheduled, watcher := pc } := by
  have hdel : Delivered (past ++ [.watcher]) ↔ Delivered past := by simp [delivered_snoc]
  have hshut : s.shutdown ≠ true := by
    intro hyes
    obtain ⟨sig, hsig⟩ := hs.shutdown.mp hyes
    exact hopen sig hsig
  refine ⟨?_, ?_, ?_, fun hpend _ => hlook hpend, hreg⟩
  · refine iff_of_false hshut ?_
    rintro ⟨sig, hsig⟩
    exact hpc sig hsig
  · rw [hdel]
    intro hno
    obtain ⟨hh, hterm, hint, -⟩ := hs.quiet hno
    exact ⟨hh, hterm, hint, hpc⟩
  · rw [hdel]
    intro hyes _
    exact hs.kept hyes hopen

/-- The watcher returns. -/
theorem Sound.finish {sig : Signal} {term int : Bool} (hs : Sound past s)
    (hpend : ∃ sig, s.pending sig = true) :
    Sound (past ++ [.watcher])
      { s with termPending := term, intPending := int, shutdown := true,
               watcher := .finished sig } := by
  have hdel : Delivered (past ++ [.watcher]) := by
    refine delivered_snoc.mpr (.inl ?_)
    by_contra hno
    obtain ⟨-, hterm, hint, -⟩ := hs.quiet hno
    obtain ⟨sig', hsig⟩ := hpend
    cases sig'
    · exact absurd hsig (Bool.eq_false_iff.mp hterm)
    · exact absurd hsig (Bool.eq_false_iff.mp hint)
  exact ⟨⟨fun _ => ⟨sig, rfl⟩, fun _ => rfl⟩, fun hno => absurd hdel hno,
    fun _ hopen => absurd rfl (hopen sig), fun _ hopen => absurd rfl (hopen sig), by simp⟩

/-- Past the flags of the signals, only a handler or the flag of the notifier makes the
watcher look again. -/
theorem Sound.handler_or_set (hs : Sound past s) (hpend : ∃ sig, s.pending sig = true)
    (hopen : ∀ sig, s.watcher ≠ .finished sig)
    (hbefore : ¬(s.watcher = .unspawned ∨ s.watcher = .spawned ∨ s.watcher = .checkTerm))
    (hint : s.watcher = .checkInt → s.intPending ≠ true) :
    (∃ h ∈ s.handlers, h.op ≠ .wake) ∨ s.set = true := by
  cases hs.look hpend hopen with
  | handler hmem hop => exact .inl ⟨_, hmem, hop⟩
  | before hpc => exact absurd hpc hbefore
  | int hpc hup => exact absurd hup (hint hpc)
  | set _ hset => exact .inr hset
  | woken _ hset _ => exact .inr hset

/-- **The watcher goes on**: where it does not see that something is pending, something is
left that makes it look again. -/
theorem Sound.watch (hs : Sound past s) (hstep : s.watch = some t) :
    Sound (past ++ [.watcher]) t := by
  unfold State.watch at hstep
  cases hpc : s.watcher with
  | unspawned | finished _ =>
    rw [hpc] at hstep
    cases hstep
  | spawned =>
    rw [hpc] at hstep
    cases hstep
    exact hs.move (by simp [hpc]) (by simp) (fun _ => .before (.inr (.inr rfl))) (by simp)
  | checkTerm =>
    rw [hpc] at hstep
    dsimp only at hstep
    split at hstep
    · rename_i hterm
      cases hstep
      exact hs.finish ⟨.term, hterm⟩
    · rename_i hterm
      cases hstep
      refine hs.move (by simp [hpc]) (by simp) ?_ (by simp)
      rintro ⟨sig, hsig⟩
      cases sig
      · exact absurd hsig hterm
      · exact .int rfl hsig
  | checkInt =>
    rw [hpc] at hstep
    dsimp only at hstep
    have hopen : ∀ sig, s.watcher ≠ .finished sig := by simp [hpc]
    split at hstep
    · rename_i hint
      cases hstep
      exact hs.finish ⟨.int, hint⟩
    · rename_i hint
      cases hstep
      refine hs.move hopen (by simp) (fun hpend => ?_) (by simp)
      obtain ⟨h, hmem, hop⟩ | hset :=
        hs.handler_or_set hpend hopen (by simp [hpc]) (fun _ => hint)
      · exact .handler hmem hop
      · exact .set rfl hset
  | swap =>
    rw [hpc] at hstep
    dsimp only at hstep
    have hopen : ∀ sig, s.watcher ≠ .finished sig := by simp [hpc]
    split at hstep
    · cases hstep
      exact hs.move hopen (by simp) (fun _ => .before (.inr (.inr rfl))) (by simp)
    · rename_i hunset
      cases hstep
      refine hs.move hopen (by simp) (fun hpend => ?_) (by simp)
      obtain ⟨h, hmem, hop⟩ | hset :=
        hs.handler_or_set hpend hopen (by simp [hpc]) (by simp [hpc])
      · exact .handler hmem hop
      · exact absurd hset hunset
  | register =>
    rw [hpc] at hstep
    cases hstep
    have hopen : ∀ sig, s.watcher ≠ .finished sig := by simp [hpc]
    refine hs.move hopen (by simp) (fun hpend => ?_) (fun _ => .inl rfl)
    obtain ⟨h, hmem, hop⟩ | hset :=
      hs.handler_or_set hpend hopen (by simp [hpc]) (by simp [hpc])
    · exact .handler hmem hop
    · exact .set rfl hset
  | swapAgain =>
    rw [hpc] at hstep
    dsimp only at hstep
    have hopen : ∀ sig, s.watcher ≠ .finished sig := by simp [hpc]
    split at hstep
    · cases hstep
      exact hs.move hopen (by simp) (fun _ => .before (.inr (.inr rfl))) (by simp)
    · rename_i hunset
      cases hstep
      refine hs.move hopen (by simp) (fun hpend => ?_) (fun _ => hs.registered (.inl hpc))
      obtain ⟨h, hmem, hop⟩ | hset :=
        hs.handler_or_set hpend hopen (by simp [hpc]) (by simp [hpc])
      · exact .handler hmem hop
      · exact absurd hset hunset
  | parked =>
    rw [hpc] at hstep
    dsimp only at hstep
    have hopen : ∀ sig, s.watcher ≠ .finished sig := by simp [hpc]
    split at hstep
    · cases hstep
      refine hs.move hopen (by simp) (fun hpend => ?_) (by simp)
      obtain ⟨h, hmem, hop⟩ | hset :=
        hs.handler_or_set hpend hopen (by simp [hpc]) (by simp [hpc])
      · exact .handler hmem hop
      · exact .set rfl hset
    · cases hstep

/-- **Whatever happens keeps it so.** -/
theorem Sound.step (hs : Sound past s) (hstep : Step s e t) : Sound (past ++ [e]) t := by
  cases e with
  | spawn => exact hs.spawn hstep
  | deliver sig =>
    cases hstep
    exact hs.deliver sig
  | handler i =>
    obtain ⟨⟨sig, op⟩, hi, rfl⟩ := Option.map_eq_some_iff.mp hstep
    cases op with
    | storePending => exact hs.storePending hi
    | storeSet => exact hs.storeSet hi
    | wake => exact hs.wake hi
  | watcher => exact hs.watch hstep

end Step

/-- **Every run of the handlers and the watcher is sound.** -/
theorem sound_of_run {past : List Event} {s : State} (hrun : Lts.Run Step .init past s) :
    Sound past s :=
  hrun.history (fun _ _ _ _ hs hstep => hs.step hstep) sound_init

theorem watcher_of_spawn {s t : State} (hstep : Step s .spawn t) : t.watcher = .spawned := by
  change (if s.watcher = .unspawned then _ else _) = _ at hstep
  split at hstep <;> cases hstep
  rfl

/-- The token stays cancelled, and the watcher is spawned once. -/
theorem Step.keeps {s t : State} {e : Event} (hstep : Step s e t) :
    (s.shutdown = true → t.shutdown = true) ∧
      (t.watcher = .unspawned → s.watcher = .unspawned) := by
  cases e with
  | spawn =>
    change (if s.watcher = .unspawned then _ else _) = _ at hstep
    split at hstep
    · rename_i hpc
      cases hstep
      exact ⟨id, fun _ => hpc⟩
    · cases hstep
  | deliver sig =>
    cases hstep
    exact ⟨id, id⟩
  | handler i =>
    obtain ⟨⟨sig, op⟩, -, rfl⟩ := Option.map_eq_some_iff.mp hstep
    cases op with
    | storePending => cases sig <;> exact ⟨id, id⟩
    | storeSet | wake => exact ⟨id, id⟩
  | watcher =>
    change s.watch = some t at hstep
    unfold State.watch at hstep
    cases hpc : s.watcher <;> rw [hpc] at hstep <;> dsimp only at hstep <;>
      (try split at hstep) <;> cases hstep <;> simp

/-! ### The watcher comes to its end -/

/-- What the handlers and the watcher do by themselves. -/
def Event.internal : Event → Bool
  | .handler _ | .watcher => true
  | .spawn | .deliver _ => false

/-- What a handler is still worth: its own operations, the round of the watcher that its flag
is good for, and the poll that its wake-up is good for. -/
def Handler.work (h : Handler) : ℕ :=
  match h.op with
  | .storePending => 12
  | .storeSet => 11
  | .wake => 5

/-- How far the watcher is from its sleep. -/
def Watcher.work : Watcher → ℕ
  | .unspawned => 7
  | .spawned => 6
  | .checkTerm => 5
  | .checkInt => 4
  | .swap => 3
  | .register => 2
  | .swapAgain => 1
  | .parked | .finished _ => 0

/-- The work that is left when no more signals come. -/
def State.work (s : State) : ℕ :=
  (s.handlers.map Handler.work).sum + s.watcher.work + 5 * s.set.toNat + 4 * s.scheduled.toNat

section Work

variable {s t : State} {e : Event} {i : ℕ} {h : Handler}

theorem sum_work_set {l : List Handler} (hi : l[i]? = some h) (x : Handler) :
    ((l.set i x).map Handler.work).sum + h.work = (l.map Handler.work).sum + x.work := by
  have hlt : i < l.length := (List.getElem?_eq_some_iff.mp hi).1
  conv_rhs => rw [Lts.eq_take_append_cons hi]
  rw [List.set_eq_take_append_cons_drop, if_pos hlt]
  simp only [List.map_append, List.map_cons, List.sum_append, List.sum_cons]
  omega

theorem sum_work_eraseIdx {l : List Handler} (hi : l[i]? = some h) :
    ((l.eraseIdx i).map Handler.work).sum + h.work = (l.map Handler.work).sum := by
  conv_rhs => rw [Lts.eq_take_append_cons hi]
  rw [List.eraseIdx_eq_take_drop_succ]
  simp only [List.map_append, List.map_cons, List.sum_append, List.sum_cons]
  omega

/-- **Every step of a handler or of the watcher takes from the work.** -/
theorem work_lt (hint : e.internal = true) (hstep : Step s e t) : t.work < s.work := by
  cases e with
  | spawn | deliver _ => cases hint
  | handler i =>
    obtain ⟨⟨sig, op⟩, hi, rfl⟩ := Option.map_eq_some_iff.mp hstep
    cases op with
    | storePending =>
      have hsum : _ + 12 = _ + 11 := sum_work_set hi ⟨sig, .storeSet⟩
      cases sig <;> simp only [State.work, State.handle, State.store] <;> omega
    | storeSet =>
      have hsum : _ + 11 = _ + 5 := sum_work_set hi ⟨sig, .wake⟩
      simp only [State.work, State.handle, Bool.toNat_true]
      omega
    | wake =>
      have hsum : _ + 5 = _ := sum_work_eraseIdx hi
      have hsched : (s.scheduled || s.waker).toNat ≤ 1 := Bool.toNat_le _
      simp only [State.work, State.handle]
      omega
  | watcher =>
    change s.watch = some t at hstep
    unfold State.watch at hstep
    cases hpc : s.watcher <;> rw [hpc] at hstep <;> dsimp only at hstep <;>
      (try split at hstep) <;> cases hstep <;>
      simp only [State.work, Watcher.work, Bool.toNat_true, Bool.toNat_false, *] <;> omega

/-- **A watcher that a signal was delivered for is never stuck before its end.** -/
theorem finished_of_stuck {past : List Event} (hs : Sound past s) (hdel : Delivered past)
    (hspawned : s.watcher ≠ .unspawned)
    (hstuck : ∀ e t, e.internal = true → ¬Step s e t) : ∃ sig, s.watcher = .finished sig := by
  have hnone : s.handlers = [] := by
    rcases hh : s.handlers with _ | ⟨h, hs⟩
    · rfl
    · exact absurd (congrArg (Option.map (s.handle 0)) (congrArg (·[0]?) hh))
        (hstuck (.handler 0) _ rfl)
  have hwait : s.watch = none := by
    rcases hw : s.watch with _ | t
    · rfl
    · exact absurd hw (hstuck .watcher t rfl)
  have hparked : (∃ sig, s.watcher = .finished sig) ∨
      s.watcher = .parked ∧ s.scheduled = false := by
    unfold State.watch at hwait
    cases hpc : s.watcher <;> rw [hpc] at hwait <;> dsimp only at hwait <;>
      (try split at hwait) <;> simp_all
  refine hparked.resolve_right ?_
  rintro ⟨hpc, hsched⟩
  have hopen : ∀ sig, s.watcher ≠ .finished sig := by simp [hpc]
  have hpend : ∃ sig, s.pending sig = true := by
    refine (hs.kept hdel hopen).resolve_right ?_
    rintro ⟨h, hmem, -⟩
    rw [hnone] at hmem
    cases hmem
  -- Something is pending, the watcher sleeps, and nothing is left to wake it.
  cases hs.look hpend hopen with
  | handler hmem =>
    rw [hnone] at hmem
    cases hmem
  | before hpc' => simp [hpc] at hpc'
  | int hpc' => simp [hpc] at hpc'
  | set hpc' => simp [hpc, Watcher.polling] at hpc'
  | woken _ _ hwake =>
    obtain hsched' | ⟨h, hmem, -⟩ := hwake
    · exact absurd hsched' (Bool.eq_false_iff.mp hsched)
    · rw [hnone] at hmem
      cases hmem

end Work

end Symbolon.Signals
