import Symbolon.Connection.Life
import Symbolon.State.Mutation

/-!
# The daemon

All of it at once: the tables and files with the admin calls on them
(`Symbolon.State`), the connections (`Symbolon.Conn`), and the rate limiter they share.
The runtime is a single thread, so a task gives way only at an `await`. A connection at
the head of its loop is not at one: while there is such a connection that has been
started on (`Symbolon.Daemon.running`), nothing else moves. Everything else interleaves
freely, and the process can die at any moment.

Connections are never forgotten: a connection is known by its place in the list, and a
closed one stays there. So what connection `i` has done is read off the labels of a run
(`Symbolon.actsOf`), and two projections take a run of the daemon apart: on the tables it
is a run of the mutation machine (`Symbolon.Daemon.Run.state`), and every connection of
it is at a stage of its own life (`Symbolon.Daemon.Run.staged`).
-/

namespace Symbolon

open Text

/-! ### The limiter of the daemon -/

/-- Nanoseconds in a second, the unit of the limiter's clock. -/
def nanosPerSec : ℕ := 10 ^ 9

/-- `UNKNOWN_IDENTITY_LOG_BURST`. -/
def unknownIdentityLogBurst : ℕ := 10

/-- `UNKNOWN_IDENTITY_LOG_REFILL`. -/
def unknownIdentityLogRefill : ℕ := 6 * nanosPerSec

/-- `UNKNOWN_IDENTITY_LOG_BURST_TOLERANCE`. -/
def unknownIdentityLogBurstTolerance : ℕ :=
  unknownIdentityLogRefill * (unknownIdentityLogBurst - 1)

/-- The limiter a process starts with. -/
def freshLimiter (now : Instant) : Limiter :=
  .new unknownIdentityLogRefill unknownIdentityLogBurstTolerance now

/-! ### The machine -/

/-- What a daemon is configured with. -/
structure Setup where
  /-- The formats of the two files. -/
  codecs : Codecs
  /-- The broker's key. -/
  brokerKey : BrokerPrivateKey
  /-- The providers. -/
  providers : List Provider

/-- Why the admin operation `mint` is refused. -/
inductive AdminMintError
  /-- The client is not enrolled. -/
  | unknownClient (name : Bytes)
  /-- No such provider is configured. -/
  | unknownProvider (kind : ProviderKind)
  deriving DecidableEq

/-- `lookup_provider`. -/
def Setup.lookupProvider (cfg : Setup) (kind : ProviderKind) : Option Provider :=
  cfg.providers.find? fun p => p.kind = kind

/-- `handle_mint` of `src/admin.rs`, up to the call of `mint`: there is no `await`
between the check and the call. -/
def Setup.handleMint (cfg : Setup) (t : Tables) (kind : ProviderKind) (client : Identity) :
    Except AdminMintError Provider :=
  if client ∉ t.clients then .error (.unknownClient client.str)
  else match cfg.lookupProvider kind with
    | none => .error (.unknownProvider kind)
    | some provider => .ok provider

variable (S : Snow)

/-- **A state of the daemon.** -/
structure Daemon where
  /-- The tables, the files and the admin calls. -/
  state : State
  /-- The limiter. -/
  limiter : Limiter
  /-- The connections, in the order they were accepted. -/
  conns : List (Conn S)
  /-- The connection that has the thread and is not at an `await`. -/
  running : Option ℕ

/-- What happens to a daemon. -/
inductive DaemonEvent
  /-- An admin call is made, goes on or is dropped. -/
  | admin (e : Event)
  /-- The admin operation `mint`. -/
  | adminMint (kind : ProviderKind) (client : Identity) (path : Bytes)
  /-- A connection is accepted. -/
  | accept
  /-- Something happens on connection `i`. -/
  | conn (i : ℕ) (e : ConnEvent S)
  /-- The process dies, and is started again on the same files. -/
  | crash (now : Instant)

/-- What a daemon does. -/
inductive DaemonOutput
  /-- What an admin call made visible. -/
  | state (o : Output)
  /-- The admin operation `mint` on behalf of a client calls a provider, or is refused. -/
  | adminMint (client : Identity) (path : Bytes) (result : Except AdminMintError Provider)
  /-- What connection `i` did. -/
  | conn (i : ℕ) (acts : List Act)
  deriving DecidableEq

variable {S}

/-- The connection is gone with the process. -/
def Conn.drop (c : Conn S) : Conn S := { c with pc := .closed }

/-- **The daemon**: what an event does; `none` when it cannot happen. -/
def Daemon.next (cfg : Setup) (d : Daemon S) : DaemonEvent S → Option (Daemon S × DaemonOutput)
  | .admin e =>
    if d.running = none ∧ e ≠ .crash then
      match Symbolon.next cfg.codecs d.state e with
      | none => none
      | some (state, o) => some ({ d with state }, .state o)
    else none
  | .adminMint kind client path =>
    if d.running = none then
      some (d, .adminMint client path (cfg.handleMint d.state.tables kind client))
    else none
  | .accept =>
    if d.running = none then
      let (c, acts) := Conn.accept S cfg.brokerKey
      some ({ d with conns := d.conns ++ [c] }, .conn d.conns.length acts)
    else none
  | .conn i e =>
    if d.running = none ∨ d.running = some i then
      match d.conns[i]? with
      | none => none
      | some c =>
        match c.next cfg.providers ⟨d.state.tables, d.limiter⟩ e with
        | none => none
        | some (c', limiter, acts) =>
          some ({ d with limiter, conns := d.conns.set i c',
                         running := if c'.pc = .top then some i else none }, .conn i acts)
    else none
  | .crash now =>
    match Symbolon.next cfg.codecs d.state .crash with
    | none => none
    | some (state, o) => some (⟨state, freshLimiter now, d.conns.map Conn.drop, none⟩, .state o)

/-- A label of the daemon. -/
abbrev DaemonLabel (S : Snow) := DaemonEvent S × DaemonOutput

namespace Daemon

/-- A start of the daemon. -/
def Started (cfg : Setup) (d : Daemon S) : Prop :=
  Symbolon.Started cfg.codecs d.state ∧ d.conns = [] ∧ d.running = none

/-- The steps of the daemon. -/
def Step (cfg : Setup) : Daemon S → DaemonLabel S → Daemon S → Prop := Lts.ofFun (next cfg)

/-- The runs of the daemon. -/
abbrev Run (cfg : Setup) : Daemon S → List (DaemonLabel S) → Daemon S → Prop := Lts.Run (Step cfg)

end Daemon

/-- What a label says of the tables and files. -/
def DaemonLabel.state : DaemonLabel S → Option Label
  | (.admin e, .state o) => some (e, o)
  | (.crash _, .state o) => some (.crash, o)
  | _ => none

/-- What a label says connection `i` did. -/
def DaemonLabel.acts (i : ℕ) (l : DaemonLabel S) : List Act :=
  match l.2 with
  | .conn j acts => if j = i then acts else []
  | _ => []

/-- What connection `i` did along a run. -/
def actsOf (i : ℕ) (ls : List (DaemonLabel S)) : List Act := ls.flatMap (DaemonLabel.acts i)

theorem actsOf_append (i : ℕ) (ls ls' : List (DaemonLabel S)) :
    actsOf i (ls ++ ls') = actsOf i ls ++ actsOf i ls' :=
  List.flatMap_append

theorem actsOf_snoc (i : ℕ) (ls : List (DaemonLabel S)) (l : DaemonLabel S) :
    actsOf i (ls ++ [l]) = actsOf i ls ++ l.acts i := by
  rw [actsOf_append]
  exact congrArg (actsOf i ls ++ ·) (List.append_nil _)

/-! ### The two projections -/

variable {cfg : Setup} {d d₀ d' : Daemon S} {l : DaemonLabel S} {ls : List (DaemonLabel S)}

/-- **What a step can be.** -/
inductive Daemon.Moves (cfg : Setup) (d : Daemon S) : DaemonLabel S → Daemon S → Prop
  /-- An admin call moves. -/
  | admin {e : Event} {state : State} {o : Output}
      (hn : Symbolon.next cfg.codecs d.state e = some (state, o)) (he : e ≠ .crash) :
      Moves cfg d (.admin e, .state o) { d with state }
  /-- The admin operation `mint`. -/
  | adminMint (kind : ProviderKind) (client : Identity) (path : Bytes) :
      Moves cfg d (.adminMint kind client path,
        .adminMint client path (cfg.handleMint d.state.tables kind client)) d
  /-- A connection is accepted. -/
  | accept : Moves cfg d (.accept, .conn d.conns.length (Conn.accept S cfg.brokerKey).2)
      { d with conns := d.conns ++ [(Conn.accept S cfg.brokerKey).1] }
  /-- A connection moves. -/
  | conn {i : ℕ} {e : ConnEvent S} {c c' : Conn S} {limiter : Limiter} {acts : List Act}
      {running : Option ℕ} (hi : d.conns[i]? = some c)
      (hn : c.next cfg.providers ⟨d.state.tables, d.limiter⟩ e = some (c', limiter, acts)) :
      Moves cfg d (.conn i e, .conn i acts) { d with limiter, conns := d.conns.set i c', running }
  /-- The process dies. -/
  | crash {now : Instant} {state : State} {o : Output}
      (hn : Symbolon.next cfg.codecs d.state .crash = some (state, o)) :
      Moves cfg d (.crash now, .state o) ⟨state, freshLimiter now, d.conns.map Conn.drop, none⟩

theorem Daemon.Step.moves (h : Daemon.Step cfg d l d') : Daemon.Moves cfg d l d' := by
  obtain ⟨e, o⟩ := l
  change Daemon.next cfg d e = some (d', o) at h
  cases e with
  | admin e =>
    simp only [Daemon.next] at h
    split at h
    · rename_i hcond
      split at h
      · cases h
      · rename_i state o' hn
        cases h
        exact .admin hn hcond.2
    · cases h
  | adminMint kind client path =>
    simp only [Daemon.next] at h
    split at h
    · cases h
      exact .adminMint kind client path
    · cases h
  | accept =>
    simp only [Daemon.next] at h
    split at h
    · cases h
      exact .accept
    · cases h
  | conn i e =>
    simp only [Daemon.next] at h
    split at h
    · split at h
      · cases h
      · rename_i c hi
        split at h
        · cases h
        · rename_i c' limiter acts hn
          cases h
          exact .conn hi hn
    · cases h
  | crash now =>
    simp only [Daemon.next] at h
    split at h
    · cases h
    · rename_i state o' hn
      cases h
      exact .crash hn

/-- **What connection `i` did in a step**: nothing, or it was accepted, or it moved. -/
theorem Daemon.Step.acts_cases (hstep : Daemon.Step cfg d l d') (i : ℕ) :
    l.acts i = [] ∨ l.acts i = (Conn.accept S cfg.brokerKey).2 ∨
      ∃ c c' e limiter, d.conns[i]? = some c ∧ d'.conns[i]? = some c' ∧
        c.next cfg.providers ⟨d.state.tables, d.limiter⟩ e = some (c', limiter, l.acts i) := by
  cases hstep.moves with
  | admin | adminMint | crash => exact .inl rfl
  | accept =>
    by_cases hi : d.conns.length = i
    · exact .inr (.inl (if_pos hi))
    · exact .inl (if_neg hi)
  | @conn j e c c' limiter acts running hj hn =>
    by_cases hij : j = i
    · subst hij
      have hlt := (List.getElem?_eq_some_iff.mp hj).1
      refine .inr (.inr ⟨c, c', e, limiter, hj, List.getElem?_set_self hlt, ?_⟩)
      simpa [DaemonLabel.acts] using hn
    · exact .inl (if_neg hij)

/-- **On the tables and files, a run of the daemon is a run of the mutation machine.** -/
theorem Daemon.Run.state (hrun : Daemon.Run cfg d ls d') :
    Symbolon.Run cfg.codecs d.state (ls.filterMap DaemonLabel.state) d'.state := by
  induction hrun with
  | nil => exact .nil _
  | cons hstep _ ih =>
    cases hstep.moves with
    | admin hn => exact .cons (e := (_, _)) hn ih
    | adminMint => exact ih
    | accept => exact ih
    | conn => exact ih
    | crash hn => exact .cons (e := (_, _)) hn ih

/-- Every connection has a property of what it did and of where it is, and what is not there
yet has done nothing. -/
structure Daemon.Each (P : List Act → Conn S → Prop) (ls : List (DaemonLabel S)) (d : Daemon S) :
    Prop where
  /-- Every connection has the property. -/
  conn : ∀ i c, d.conns[i]? = some c → P (actsOf i ls) c
  /-- What is not there yet has done nothing. -/
  absent : ∀ i, d.conns.length ≤ i → actsOf i ls = []

section Each

variable {P : List Act → Conn S → Prop}

theorem Daemon.Each.step
    (haccept : P (Conn.accept S cfg.brokerKey).2 (Conn.accept S cfg.brokerKey).1)
    (hnext : ∀ {h c sh e c' limiter acts}, P h c →
      c.next cfg.providers sh e = some (c', limiter, acts) → P (h ++ acts) c')
    (hdrop : ∀ {h c}, P h c → P h c.drop) (h : Daemon.Each P ls d)
    (hstep : Daemon.Step cfg d l d') : Daemon.Each P (ls ++ [l]) d' := by
  obtain ⟨hP, habs⟩ := h
  cases hstep.moves with
  | admin | adminMint =>
    refine ⟨fun i c hi => ?_, fun i hi => ?_⟩
    · rw [actsOf_snoc]
      exact (List.append_nil _).symm ▸ hP i c hi
    · rw [actsOf_snoc, habs i hi]
      rfl
  | accept =>
    refine ⟨fun i c hi => ?_, fun i hi => ?_⟩
    · rw [actsOf_snoc]
      rcases Nat.lt_or_ge i d.conns.length with hlt | hge
      · rw [List.getElem?_append_left hlt] at hi
        have hne : d.conns.length ≠ i := by omega
        simpa [DaemonLabel.acts, hne] using hP i c hi
      · rw [List.getElem?_append_right hge, List.getElem?_singleton] at hi
        split at hi
        · rename_i hz
          cases hi
          have heq : d.conns.length = i := by omega
          simpa [DaemonLabel.acts, heq, habs i hge] using haccept
        · cases hi
    · rw [List.length_append, List.length_singleton] at hi
      have hne : d.conns.length ≠ i := by omega
      rw [actsOf_snoc, habs i (by omega)]
      simp [DaemonLabel.acts, hne]
  | @conn j e c c' limiter acts running hj hn =>
    refine ⟨fun i c₁ hi => ?_, fun i hi => ?_⟩
    · rw [actsOf_snoc]
      by_cases hij : j = i
      · subst hij
        have hlt := (List.getElem?_eq_some_iff.mp hj).1
        rw [List.getElem?_set_self hlt] at hi
        cases hi
        simpa [DaemonLabel.acts] using hnext (hP j c hj) hn
      · rw [List.getElem?_set_ne hij] at hi
        simpa [DaemonLabel.acts, hij] using hP i c₁ hi
    · rw [List.length_set] at hi
      have hlt := (List.getElem?_eq_some_iff.mp hj).1
      have hne : j ≠ i := by omega
      rw [actsOf_snoc, habs i hi]
      simp [DaemonLabel.acts, hne]
  | crash hn =>
    refine ⟨fun i c hi => ?_, fun i hi => ?_⟩
    · rw [actsOf_snoc]
      rw [List.getElem?_map] at hi
      obtain ⟨c₁, hc₁, rfl⟩ := Option.map_eq_some_iff.mp hi
      exact (List.append_nil _).symm ▸ hdrop (hP i c₁ hc₁)
    · rw [List.length_map] at hi
      rw [actsOf_snoc, habs i hi]
      rfl

/-- **What holds when a connection is accepted and is kept by every event of it holds of
every connection of a run.** -/
theorem Daemon.Run.each
    (haccept : P (Conn.accept S cfg.brokerKey).2 (Conn.accept S cfg.brokerKey).1)
    (hnext : ∀ {h c sh e c' limiter acts}, P h c →
      c.next cfg.providers sh e = some (c', limiter, acts) → P (h ++ acts) c')
    (hdrop : ∀ {h c}, P h c → P h c.drop) (h₀ : Daemon.Started cfg d₀)
    (hrun : Daemon.Run cfg d₀ ls d) : Daemon.Each P ls d := by
  refine hrun.history (fun _ _ _ _ h hstep => h.step haccept hnext hdrop hstep) ?_
  refine ⟨fun i c hi => ?_, fun i _ => rfl⟩
  rw [h₀.2.1] at hi
  cases hi

end Each

/-- Every connection is at a stage, and what is not there yet has done nothing. -/
structure Daemon.Staged (cfg : Setup) (ls : List (DaemonLabel S)) (d : Daemon S) : Prop where
  /-- Every connection is at a stage. -/
  stage : ∀ i c, d.conns[i]? = some c → Stage S cfg.brokerKey cfg.providers (actsOf i ls) c
  /-- What is not there yet has done nothing. -/
  absent : ∀ i, d.conns.length ≤ i → actsOf i ls = []

/-- **Every connection of a run is at a stage of its own life.** -/
theorem Daemon.Run.staged (h₀ : Daemon.Started cfg d₀) (hrun : Daemon.Run cfg d₀ ls d) :
    Daemon.Staged cfg ls d := by
  have heach : Daemon.Each (Stage S cfg.brokerKey cfg.providers) ls d :=
    Daemon.Run.each Stage.accept Stage.next (fun hst => .closed rfl hst.summary) h₀ hrun
  exact ⟨heach.conn, heach.absent⟩

end Symbolon
