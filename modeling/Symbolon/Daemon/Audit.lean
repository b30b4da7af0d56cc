import Symbolon.Daemon.Mint

/-!
# What the log says of the peer

Two lines of a connection's log name a client: `accept`, with the identity as
`psk_identity`, and `mint`, with its name as `client`. In the pattern of the handshake the
pre-shared key is mixed in at the end of the second message, so the first thing by which a
peer can prove that it has the key is a transport frame that decrypts
(`Symbolon.Authenticated`).

A `mint` line comes after that proof (`Symbolon.authenticated_of_mint_line`). An `accept`
line is written in the `NeedPsk` arm, where all there is of the peer is the first message,
and whoever has the broker's public key can make one for any identity: **no `accept` line
of any run comes after a proof** (`Symbolon.not_authenticated_of_accept_line`).
-/

namespace Symbolon

open Text

variable (S : Snow) (key : BrokerPrivateKey)

/-- **The peer has proved that it has the client's key**: a frame that it sent has decrypted
in the transport state of a session with the client's own key. -/
def Authenticated (h : List Act) (identity : Identity) : Prop :=
  ∃ (k : Decrypted S key) (l₁ l₂ : Bytes), k.identity = identity ∧
    [l₁, k.msg1, l₂, k.ciphertext] <+: fed h ∧ (identity, k.psk, true) ∈ injected h

variable {S key}

theorem not_authenticated_of_length_fed {h : List Act} {identity : Identity}
    (hlen : (fed h).length < 4) : ¬Authenticated S key h identity := by
  rintro ⟨k, l₁, l₂, -, hfed, -⟩
  exact absurd hfed.length_le (not_le.mpr hlen)

variable {providers : List Provider} {sh : Shared} {c c' : Conn S} {e : ConnEvent S}
  {limiter : Limiter} {h acts : List Act}

/-! ### Which events are logged where -/

/-- The act is a line. -/
def Act.isLog : Act → Bool
  | .log _ => true
  | _ => false

/-- Acts with no line that names an authorised client. -/
def Routine (acts : List Act) : Prop :=
  ∀ line, .log line ∈ acts → line.evt ≠ .accept ∧ line.evt ≠ .mint

theorem routine_nil : Routine [] := fun _ hm => absurd hm List.not_mem_nil

theorem Routine.append {acts' : List Act} (h : Routine acts) (h' : Routine acts') :
    Routine (acts ++ acts') := fun line hm =>
  (List.mem_append.mp hm).elim (h line) (h' line)

/-- An act that is no line. -/
theorem Routine.cons {a : Act} (h : Routine acts) (ha : a.isLog = false) :
    Routine (a :: acts) := by
  intro line hm
  rcases List.mem_cons.mp hm with rfl | hm
  · cases ha
  · exact h line hm

theorem routine_log {line : LogLine} (hline : line.evt ≠ .accept ∧ line.evt ≠ .mint) :
    Routine [.log line] := by
  intro line' hm
  cases List.mem_singleton.mp hm
  exact hline

theorem routine_fail {line : LogLine} (hline : line.evt ≠ .accept ∧ line.evt ≠ .mint) :
    Routine (c.fail line).2 :=
  (routine_log hline).append (routine_nil.cons rfl)

theorem logSessionFailure_evt {ε : Type} (phase : Phase) (clientName : Option Bytes)
    (err : SessionError ε) : (logSessionFailure phase clientName err).evt ≠ .accept ∧
      (logSessionFailure phase clientName err).evt ≠ .mint := by
  cases err with
  | frameTooBig got => cases phase <;> simp [logSessionFailure]
  | _ => simp [logSessionFailure]

theorem logPhaseEof_evt (phase : Phase) (clientName : Option Bytes) :
    (logPhaseEof phase clientName).evt ≠ .accept ∧
      (logPhaseEof phase clientName).evt ≠ .mint := by
  cases phase <;> simp [logPhaseEof]

theorem logMintError_evt (client host path : Bytes) (err : ProviderError) :
    (logMintError client host path err).evt ≠ .accept ∧
      (logMintError client host path err).evt ≠ .mint := by
  cases err <;> simp [logMintError]

theorem routine_continueWith {phase : RState S → Phase}
    {r : RState S × Except (SessionError S.Err) Unit} : Routine (c.continueWith phase r).2 := by
  obtain ⟨sess, err | u⟩ := r
  · exact routine_fail (logSessionFailure_evt _ _ _)
  · exact routine_nil

theorem routine_request {bytes : Bytes} : Routine (c.request providers bytes).2 := by
  unfold Conn.request
  split
  · exact routine_fail (by simp)
  · split
    · exact routine_fail (by simp)
    · split
      · exact routine_fail (by simp)
      · split
        · exact routine_fail (by simp)
        · exact routine_nil.cons rfl

theorem routine_minted {request : Request} {result : Except ProviderError MintOutcome} :
    Routine (c.minted request result).2 := by
  cases result with
  | error err =>
    refine Routine.append ?_ (routine_fail (c := c) (logMintError_evt _ _ _ _))
    split
    · exact routine_log (by simp)
    · exact routine_nil
  | ok outcome =>
    simp only [Conn.minted]
    split
    · exact routine_fail (logSessionFailure_evt _ _ _)
    · exact routine_nil

/-- What a line that names an authorised client says: an `accept` line is written when the
session asks for the key of an identity that both tables know, and a `mint` line when the
session is over. -/
def Names (sh : Shared) (c : Conn S) (line : LogLine) : Prop :=
  (line.evt = .accept → c.pc = .top ∧ ∃ hs identity, c.sess = .needPsk hs identity ∧
    line.pskIdentity = some identity ∧ (sh.tables.psks.lookup identity).isSome ∧
    identity ∈ sh.tables.clients) ∧
  (line.evt = .mint → c.pc = .flushing ∧ line.client = c.clientName)

theorem names_of_mem {line : LogLine} (hm : .log line ∈ acts) (hr : Routine acts) :
    Names sh c line :=
  ⟨fun h => absurd h (hr line hm).1, fun h => absurd h (hr line hm).2⟩

/-- The choice of a key logs `accept` only for an identity that both tables know. -/
theorem accept_of_choosePsk {identity : Identity} {now : Instant} {random : Except String Psk}
    {line : LogLine} (hm : .log line ∈ (c.choosePsk sh identity now random).2.2.2.2) :
    line.evt ≠ .mint ∧ (line.evt = .accept → line.pskIdentity = some identity ∧
      (sh.tables.psks.lookup identity).isSome ∧ identity ∈ sh.tables.clients) := by
  unfold Conn.choosePsk at hm
  split at hm
  · rename_i psk hlook hmem
    cases List.mem_singleton.mp hm
    exact ⟨by simp, fun _ => ⟨rfl, by simp [hlook], of_decide_eq_true hmem⟩⟩
  · cases List.mem_singleton.mp hm
    exact ⟨by simp, nofun⟩
  · split at hm
    · cases List.mem_singleton.mp hm
      exact ⟨by simp, nofun⟩
    · cases hm

/-- A line of the `NeedPsk` arm is one of the choice of the key, or one about an error. -/
theorem mem_needPsk {identity : Identity} {now : Instant} {random : Except String Psk}
    {seed : S.Seed} {line : LogLine}
    (hm : .log line ∈ (c.needPsk sh identity now random seed).2.2) :
    .log line ∈ (c.choosePsk sh identity now random).2.2.2.2 ∨
      line.evt ≠ .accept ∧ line.evt ≠ .mint := by
  unfold Conn.needPsk at hm
  split at hm
  · rename_i c₁ lim err known acts₁ hch
    rcases List.mem_append.mp hm with hm | hm
    · exact .inl (hch ▸ hm)
    · exact .inr (routine_fail (c := c₁) (by simp) line hm)
  · rename_i c₁ lim psk known acts₁ hch
    rcases List.mem_append.mp hm with hm | hm
    · exact .inl (hch ▸ hm)
    · rcases List.mem_cons.mp hm with hm | hm
      · cases hm
      · exact .inr (routine_continueWith line hm)

theorem Responder.step_eq_needPsk {s sess : RState S} {identity : Identity}
    (h : Responder.step s = (sess, .ok (.needPsk identity))) : ∃ hs, s = .needPsk hs identity := by
  cases s <;> cases h
  exact ⟨_, rfl⟩

theorem names_turn {now : Instant} {random : Except String Psk} {seed : S.Seed} {line : LogLine}
    (hpc : c.pc = .top) (hm : .log line ∈ (c.turn providers sh now random seed).2.2) :
    Names sh c line := by
  unfold Conn.turn at hm
  split at hm
  · rename_i sess err hstep
    exact names_of_mem hm (routine_fail (c := { c with sess }) (logSessionFailure_evt _ _ _))
  · rename_i sess step hstep
    dsimp only at hm
    split at hm
    · split at hm
      · exact names_of_mem hm ((routine_continueWith.cons rfl).cons rfl)
      · exact names_of_mem hm (routine_nil.cons rfl)
    · rename_i identity
      obtain ⟨hs, hsess⟩ := Responder.step_eq_needPsk hstep
      rcases mem_needPsk hm with hm | ⟨haccept, hmint⟩
      · obtain ⟨hmint, haccept⟩ := accept_of_choosePsk hm
        exact ⟨fun h => ⟨hpc, hs, identity, hsess, haccept h⟩, fun h => absurd h hmint⟩
      · exact ⟨fun h => absurd h haccept, fun h => absurd h hmint⟩
    · split at hm
      · exact names_of_mem hm routine_continueWith
      · exact names_of_mem hm routine_nil
    · exact names_of_mem hm routine_request
    · exact names_of_mem hm routine_nil

theorem names_flushed {line : LogLine} (hpc : c.pc = .flushing) (hm : .log line ∈ c.flushed.2) :
    Names sh c line := by
  unfold Conn.flushed at hm
  rcases List.mem_append.mp hm with hm | hm
  · split at hm
    · rename_i client rec hname hrec
      cases List.mem_singleton.mp hm
      exact ⟨nofun, fun _ => ⟨hpc, hname.symm⟩⟩
    · cases hm
  · exact names_of_mem hm (routine_nil.cons rfl)

/-- **The two places where a line names an authorised client.** -/
theorem names_of_next {line : LogLine} (hn : c.next providers sh e = some (c', limiter, acts))
    (hm : .log line ∈ acts) : Names sh c line := by
  have hclose : Routine [.close] := routine_nil.cons rfl
  unfold Conn.next at hn
  split at hn
  · rename_i now random seed hpc
    have hm' : .log line ∈ (c.turn providers sh now random seed).2.2 := by
      rw [Option.some.inj hn]
      exact hm
    exact names_turn hpc hm'
  · split at hn
    · cases hn
    · split at hn
      · cases hn
        exact names_of_mem hm routine_nil
      · cases hn
        exact names_of_mem hm (routine_continueWith.cons rfl)
  · cases hn
    exact names_of_mem hm (routine_fail (c := c) (logPhaseEof_evt _ _))
  · cases hn
    exact names_of_mem hm (routine_fail (c := c) (logPhaseEof_evt _ _))
  · split at hn
    · cases hn
    · split at hn
      · cases hn
        exact names_of_mem hm (routine_nil.cons rfl)
      · cases hn
        exact names_of_mem hm (routine_continueWith.cons rfl)
  · cases hn
    exact names_of_mem hm (routine_fail (c := c) (by simp))
  · cases hn
    exact names_of_mem hm (routine_minted.cons rfl)
  · rename_i hpc
    cases hn
    exact names_flushed hpc hm
  all_goals first
    | cases hn
      exact names_of_mem hm hclose
    | cases hn

/-! ### What is known of the peer -/

/-- A connection that asks for a key has read the first message, and nothing else. -/
theorem Stage.of_needPsk {hs : S.Hs} {identity : Identity} (hst : Stage S key providers h c)
    (hpc : c.pc = .top) (hsess : c.sess = .needPsk hs identity) :
    ∃ hs₀ l₁ msg1, S.buildResponder key = .ok hs₀ ∧
      S.readMessage hs₀ msg1 = .ok (encodeIdentityTlv identity, hs) ∧ fed h = [l₁, msg1] := by
  cases hst with
  | needPsk hb hread hd =>
    cases hsess
    exact ⟨_, _, _, hb, hread, hd.fed⟩
  | closed hcl =>
    rw [hcl] at hpc
    cases hpc
  | _ => cases hsess

/-- A connection in its final flush has had a request decrypted, and goes by the name of
the identity whose key it was. -/
theorem Stage.of_flushing (hst : Stage S key providers h c) (hpc : c.pc = .flushing) :
    ∃ identity, c.clientName = some identity.str ∧ Authenticated S key h identity := by
  cases hst with
  | hsLen _ hpc' | hsBody _ hpc' | reqLen _ _ hpc' | reqBody _ _ hpc' =>
    obtain rfl | ⟨_, _, rfl⟩ := hpc' <;> cases hpc
  | @done mintRecord l₁ l₂ pc hpc' m hd =>
    refine ⟨m.identity, rfl, m.toDecrypted, l₁, l₂, rfl, ?_, ?_⟩
    · rw [hd.fed]
    · rw [hd.injected]
      exact List.mem_singleton_self _
  | closed hcl =>
    rw [hcl] at hpc
    cases hpc
  | _ => cases hpc

/-- Nothing is fed to the session in the step that writes an `accept` line. -/
theorem fed_of_needPsk {hs : S.Hs} {identity : Identity} (hpc : c.pc = .top)
    (hsess : c.sess = .needPsk hs identity)
    (hn : c.next providers sh e = some (c', limiter, acts)) : fed acts = [] := by
  obtain ⟨now, random, seed, ht⟩ := next_top hpc hn
  simp only [Conn.turn, hsess, Responder.step] at ht
  obtain ⟨hq, -⟩ | ⟨psk, known, hd, -⟩ := needPsk_cases ht
  · exact hq.fed
  · exact hd.fed

/-! ### Runs -/

variable {cfg : Setup} {d d₀ d' : Daemon S} {l : DaemonLabel S} {ls pre : List (DaemonLabel S)}
  {i : ℕ} {line : LogLine}

/-- **A line is written by a step of its connection**, or as the connection is refused. -/
theorem Daemon.Step.conn_of_log (hstep : Daemon.Step cfg d l d') (hm : .log line ∈ l.acts i)
    (hevt : line.evt = .accept ∨ line.evt = .mint) :
    ∃ c c' e limiter, d.conns[i]? = some c ∧
      c.next cfg.providers ⟨d.state.tables, d.limiter⟩ e = some (c', limiter, l.acts i) := by
  obtain hnone | haccept | ⟨c, c', e, limiter, hi, -, hn⟩ := hstep.acts_cases i
  · rw [hnone] at hm
    cases hm
  · -- a responder that cannot be built is logged as a failed handshake
    have hroutine : Routine (Conn.accept S cfg.brokerKey).2 := by
      unfold Conn.accept
      split
      · exact routine_nil
      · exact (routine_log (by simp)).append (routine_nil.cons rfl)
    obtain ⟨hnoAccept, hnoMint⟩ := hroutine line (haccept ▸ hm)
    exact (hevt.elim hnoAccept hnoMint).elim
  · exact ⟨c, c', e, limiter, hi, hn⟩

/-- **A `mint` line names a client that has been authenticated.** In every run, whatever the
peers do: when a connection writes a `mint` line, a frame of its peer has decrypted in a
session with the own key of the client that the line names. -/
theorem authenticated_of_mint_line (h₀ : Daemon.Started cfg d₀)
    (hrun : Daemon.Run cfg d₀ (pre ++ [l]) d) (hm : .log line ∈ l.acts i)
    (hevt : line.evt = .mint) :
    ∃ identity, line.client = some identity.str ∧
      Authenticated S cfg.brokerKey (actsOf i pre) identity := by
  obtain ⟨d₁, hpre, hrest⟩ := Lts.run_append_iff.mp hrun
  obtain ⟨d₂, hstep, -⟩ := Lts.run_cons_iff.mp hrest
  obtain ⟨c, c', e, limiter, hi, hn⟩ := hstep.conn_of_log hm (.inr hevt)
  obtain ⟨hpc, hclient⟩ := (names_of_next hn hm).2 hevt
  have hstage := (Daemon.Run.staged h₀ hpre).stage i c hi
  obtain ⟨identity, hname, hauth⟩ := Stage.of_flushing hstage hpc
  exact ⟨identity, hclient.trans hname, hauth⟩

/-- **No `accept` line names a client that has been authenticated.** In every run, whatever
the peers do: a connection writes an `accept` line for an identity that both tables know,
and at that moment the identity is what its peer's first message claims. A length and that
message are all that its session has been fed; no frame has decrypted. -/
theorem not_authenticated_of_accept_line {identity : Identity} (h₀ : Daemon.Started cfg d₀)
    (hrun : Daemon.Run cfg d₀ (pre ++ [l]) d) (hm : .log line ∈ l.acts i)
    (hevt : line.evt = .accept) (hline : line.pskIdentity = some identity) :
    ¬Authenticated S cfg.brokerKey (actsOf i (pre ++ [l])) identity ∧
      ∃ hs₀ hs l₁ msg1, S.buildResponder cfg.brokerKey = .ok hs₀ ∧
        S.readMessage hs₀ msg1 = .ok (encodeIdentityTlv identity, hs) ∧
        fed (actsOf i (pre ++ [l])) = [l₁, msg1] := by
  obtain ⟨d₁, hpre, hrest⟩ := Lts.run_append_iff.mp hrun
  obtain ⟨d₂, hstep, -⟩ := Lts.run_cons_iff.mp hrest
  obtain ⟨c, c', e, limiter, hi, hn⟩ := hstep.conn_of_log hm (.inl hevt)
  obtain ⟨hpc, hs, identity', hsess, hline', -⟩ := (names_of_next hn hm).1 hevt
  obtain rfl : identity' = identity := Option.some.inj (hline'.symm.trans hline)
  obtain ⟨hs₀, l₁, msg1, hb, hread, hfed⟩ :=
    ((Daemon.Run.staged h₀ hpre).stage i c hi).of_needPsk hpc hsess
  have hfed' : fed (actsOf i (pre ++ [l])) = [l₁, msg1] := by
    have hnone := fed_of_needPsk hpc hsess hn
    rw [actsOf_snoc, fed, List.filterMap_append]
    exact (congrArg₂ (· ++ ·) hfed hnone).trans (List.append_nil _)
  refine ⟨?_, hs₀, hs, l₁, msg1, hb, hread, hfed'⟩
  -- the frame would be the fourth thing that was fed to the session
  refine not_authenticated_of_length_fed ?_
  rw [hfed']
  simp

theorem not_authenticated_of_accept_line_alice :
    ∃ pre l d, Daemon.Run plainSetup plainDaemon (pre ++ [l]) d ∧
      .log { evt := .accept, pskIdentity := some alice } ∈ l.acts 0 ∧
      ¬Authenticated (noise plainPrimitives) plainKey (actsOf 0 (pre ++ [l])) alice := by
  obtain ⟨ls, u, hrun, hl⟩ :=
    Lts.exists_run_of_exec (Daemon.next plainSetup) plainDaemon
      (.accept :: plainTurn 0 :: arrive 0 plainHello)
      (fun _ ls => (ls[5]?.map (DaemonLabel.acts 0)) =
        some [.log { evt := .accept, pskIdentity := some alice },
          .setPsk alice (Psk.filled 1) true])
      (by decide +kernel)
  obtain ⟨l, hl, hacts⟩ := Option.map_eq_some_iff.mp hl
  obtain ⟨s, t, hpre, hstep, -⟩ := hrun.split_at hl
  have hm : .log { evt := .accept, pskIdentity := some alice } ∈ l.acts 0 := by simp [hacts]
  have hrun' := hpre.snoc hstep
  exact ⟨_, l, t, hrun', hm,
    (not_authenticated_of_accept_line plainDaemon_started hrun' hm rfl rfl).1⟩

/-- **An `accept` line for a client that was never there**: the peer only makes a first
message, for which the broker's public key is enough, and hangs up when the second message
has come. The line names `alice`; the connection is closed, and no frame ever decrypted. -/
theorem accept_line_of_impostor :
    ∃ ls d, Daemon.Run plainSetup plainDaemon ls d ∧
      .log { evt := .accept, pskIdentity := some alice } ∈ actsOf 0 ls ∧
      d.conns[0]?.map Conn.pc = some .closed ∧
      ¬Authenticated (noise plainPrimitives) plainKey (actsOf 0 ls) alice := by
  obtain ⟨ls, u, hrun, hm, hpc, hfed⟩ :=
    Lts.exists_run_of_exec (Daemon.next plainSetup) plainDaemon
      (plainHandshake ++ [.conn 0 .eof])
      (fun u ls => .log { evt := .accept, pskIdentity := some alice } ∈ actsOf 0 ls ∧
        u.conns[0]?.map Conn.pc = some .closed ∧ (fed (actsOf 0 ls)).length < 4)
      (by decide +kernel)
  exact ⟨ls, u, hrun, hm, hpc, not_authenticated_of_length_fed hfed⟩

end Symbolon
