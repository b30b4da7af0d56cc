import Symbolon.Client.KeyFile
import Symbolon.Client.Link
import Symbolon.Daemon.Mint

/-!
# A client is served

The operator has enrolled a client and given it a key file; git asks for a credential. As long as
every step serves (`Symbolon.Link.Serves`), the helper prints exactly what the provider answered,
whatever else the daemon does meanwhile and whatever pieces the bytes come in
(`Symbolon.credential_delivered`): no side ever fails, there are only so many steps to make, and
until all is done one of them can be made.

The argument is a simulation. At every moment the link shows a stage of the relay of
`Symbolon.Course` (`Symbolon.Link.Shows`); a step of either side leads to the next stage, or
leaves the stage and makes what is left to do smaller (`Symbolon.Link.Shows.step`); and where
both sides wait, the relay has come to its end.
-/

namespace Symbolon

open Text

/-! ### The relay, once more -/

namespace Course

variable {S : Snow} {M : S.Matching} {v : Conversation S} (y : Course M v) {k : ℕ}

/-- No turn fails. -/
theorem next_ok (hk : k ≤ 14) (p : Side) : ∃ step, (y.next (y.stage k) p).2.2 = .ok step := by
  by_cases hp : k < 14 ∧ p = (y.shows k).1
  · obtain ⟨hlt, rfl⟩ := hp
    rw [y.next_stage k hlt]
    interval_cases k <;> exact ⟨_, rfl⟩
  · obtain ⟨-, hquiet⟩ := y.wait_stage hk p fun hlt heq => hp ⟨hlt, heq⟩
    rcases h : y.next (y.stage k) p with ⟨d, side, e | step⟩
    · rw [h] at hquiet
      cases hquiet
    · exact ⟨step, rfl⟩

/-- A turn that changes something leads to the next stage. -/
theorem next_eq_of_ne (hk : k ≤ 14) {p : Side} (hne : (y.next (y.stage k) p).1 ≠ y.stage k) :
    k < 14 ∧ (y.next (y.stage k) p).1 = y.stage (k + 1) := by
  by_cases hp : k < 14 ∧ p = (y.shows k).1
  · obtain ⟨hlt, rfl⟩ := hp
    rw [y.next_stage k hlt]
    exact ⟨hlt, rfl⟩
  · exact absurd (y.wait_stage hk p fun hlt heq => hp ⟨hlt, heq⟩).1 hne

/-- Where both sides wait, the relay has come to its end. -/
theorem eq_of_waits (hk : k ≤ 14) (h : ∀ p, (y.next (y.stage k) p).1 = y.stage k) : k = 14 := by
  by_contra hne
  have hlt : k < 14 := by omega
  have hadv := h (y.shows k).1
  rw [y.next_stage k hlt] at hadv
  interval_cases k <;> cases hadv

/-- A frame is two bytes longer than its message. -/
theorem length_framed_le {msg : Bytes} (h : msg.length ≤ maxMessageSize) :
    (framed msg).length ≤ maxMessageSize + 2 := by
  rw [framed, List.length_append, Nat.add_comm]
  exact Nat.add_le_add_right h 2

theorem small_initiator (hk : k ≤ 14) : Small (Initiator.step (y.stage k).initiator).2 := by
  have htwo : 2 ≤ maxMessageSize := by decide
  interval_cases k <;> first
    | exact htwo
    | exact trivial
    | exact length_framed_le y.msg1_le
    | exact length_framed_le y.req_le
    | exact y.msg2_le
    | exact y.resp_le

theorem small_responder (hk : k ≤ 14) : Small (Responder.step (y.stage k).responder).2 := by
  have htwo : 2 ≤ maxMessageSize := by decide
  interval_cases k <;> first
    | exact htwo
    | exact trivial
    | exact length_framed_le y.msg2_le
    | exact length_framed_le y.resp_le
    | exact y.msg1_le
    | exact y.req_le

theorem identity_of_needPsk (hk : k ≤ 14) {hs : S.Hs} {identity : Identity}
    (h : (y.stage k).responder = .needPsk hs identity) : identity = v.identity := by
  interval_cases k <;> cases h
  rfl

theorem request_of_haveRequest (hk : k ≤ 14) {ts : S.Ts} {plaintext : Bytes}
    (h : (y.stage k).responder = .haveRequest ts plaintext) : plaintext = v.request := by
  interval_cases k <;> cases h
  rfl

end Course

/-! ### The simulation -/

/-- The work that is left to both sides before a session moves. -/
def Link.work {S : Snow} (i : ℕ) (L : Link S) : ℕ :=
  L.client.work + (L.daemon.conns[i]?.elim 0 Conn.work)

/-- **What a link shows**: both sessions, and all bytes that are written and not taken. -/
structure Link.Shows {S : Snow} {cfg : Setup} (x : Errand S cfg) (i : ℕ) (D : Duplex S)
    (L : Link S) (c : Conn S) (outB restB outC restC : Bytes) : Prop where
  /-- The connection. -/
  conn : L.daemon.conns[i]? = some c
  /-- The broker's session. -/
  broker : ConnShows x D.responder c outB restB
  /-- The client's session. -/
  client : ClientShows D.initiator L.client outC restC
  /-- The bytes for the broker. -/
  toBroker : D.toBroker = outB ++ L.toBroker ++ restC
  /-- The bytes for the client. -/
  toClient : D.toClient = outC ++ L.toClient ++ restB

/-- What a label says connection `i` did. -/
def LinkLabel.acts {S : Snow} (i : ℕ) : LinkLabel S → List Act
  | .inl _ => []
  | .inr l => DaemonLabel.acts i l

/-- What connection `i` did along a run of the link. -/
def linkActs {S : Snow} (i : ℕ) (ls : List (LinkLabel S)) : List Act :=
  ls.flatMap (LinkLabel.acts i)

/-- A step of connection `i` in the daemon. -/
theorem Daemon.Step.conn_cases {S : Snow} {cfg : Setup} {d d' : Daemon S} {i : ℕ} {c : Conn S}
    {e : ConnEvent S} {o : DaemonOutput} (h : Daemon.Step cfg d (.conn i e, o) d')
    (hc : d.conns[i]? = some c) :
    ∃ c' limiter acts, c.next cfg.providers ⟨d.state.tables, d.limiter⟩ e =
        some (c', limiter, acts) ∧ o = .conn i acts ∧ d'.conns[i]? = some c' := by
  cases h.moves with
  | @conn _ _ c₁ c' limiter acts _ hi hn =>
    rw [hc] at hi
    cases hi
    exact ⟨c', limiter, acts, hn, rfl,
      List.getElem?_set_self (List.getElem?_eq_some_iff.mp hc).1⟩

/-- What else the daemon does leaves connection `i` as it is. -/
theorem Daemon.Step.other_conn {S : Snow} {cfg : Setup} {d d' : Daemon S} {l : DaemonLabel S}
    {i : ℕ} {c : Conn S} (h : Daemon.Step cfg d l d') (hother : ∀ e, l.1 ≠ .conn i e)
    (hcrash : ∀ now, l.1 ≠ .crash now) (hc : d.conns[i]? = some c) :
    d'.conns[i]? = some c ∧ l.acts i = [] := by
  have hlt := (List.getElem?_eq_some_iff.mp hc).1
  cases h.moves with
  | admin | adminMint => exact ⟨hc, rfl⟩
  | accept =>
    refine ⟨?_, if_neg (Nat.ne_of_gt hlt)⟩
    rw [List.getElem?_append_left hlt]
    exact hc
  | @conn j e =>
    have hij : j ≠ i := by
      rintro rfl
      exact hother e rfl
    refine ⟨?_, if_neg hij⟩
    rw [List.getElem?_set_ne hij]
    exact hc
  | @crash now => exact absurd rfl (hcrash now)

namespace Link.Shows

variable {S : Snow} {cfg : Setup} {M : S.Matching} {x : Errand S cfg}
  {y : Course M x.toConversation} {i k : ℕ} {L L' : Link S} {c c' : Conn S} {cl' : Client S}
  {D : Duplex S} {d : Daemon S} {acts : List Act}
  {outB restB outC restC outB' restB' outC' restC' toB toC : Bytes}

theorem work_eq (h : L.Shows x i D c outB restB outC restC) :
    L.work i = L.client.work + c.work := by
  rw [Link.work, h.conn]
  rfl

/-- The client has moved, and so has the relay. -/
theorem client_moved (h : L.Shows x i (y.stage k) c outB restB outC []) (hk : k ≤ 14)
    (hm : ClientShows.Moved (y.stage k).initiator (y.stage k).toClient cl' (toC ++ restB)) :
    k < 14 ∧ Link.Shows x i (y.stage (k + 1)) ⟨L.daemon, cl', L.toBroker, toC⟩ c outB
      restB [] (Initiator.drive (y.stage k).initiator (y.stage k).toClient).written ∧
      (y.stage (k + 1)).responder = (y.stage k).responder := by
  have hne : (y.next (y.stage k) .client).1 ≠ y.stage k := fun heq =>
    hm.state_ne (congrArg Duplex.initiator heq)
  obtain ⟨hlt, hnext⟩ := y.next_eq_of_ne hk hne
  refine ⟨hlt, ?_⟩
  rw [← hnext]
  exact ⟨⟨h.conn, h.broker, hm.shows,
    by simp only [Course.next, Duplex.next, h.toBroker, List.append_nil],
    by simp only [Course.next, Duplex.next, hm.inbox_eq, List.nil_append]⟩, rfl⟩

/-- The connection has moved, and so has the relay. -/
theorem broker_moved (h : L.Shows x i (y.stage k) c outB [] outC restC) (hk : k ≤ 14)
    (hc' : d.conns[i]? = some c') {n : ℕ}
    (hm : ConnShows.Moved x (y.stage k).responder (y.stage k).toBroker n acts c'
      (toB ++ restC)) :
    k < 14 ∧ Link.Shows x i (y.stage (k + 1)) ⟨d, L.client, toB, L.toClient⟩ c' []
      (Responder.drive x.psk x.seedR x.response (y.stage k).responder (y.stage k).toBroker).written
      outC restC ∧
      ConnShows.Tells x n acts (toldAt (y.stage (k + 1)).responder c'.pc) := by
  have hne : (y.next (y.stage k) .broker).1 ≠ y.stage k := fun heq =>
    hm.state_ne (congrArg Duplex.responder heq)
  obtain ⟨hlt, hnext⟩ := y.next_eq_of_ne hk hne
  refine ⟨hlt, ?_⟩
  rw [← hnext]
  exact ⟨⟨hc', hm.shows, h.client,
    by simp only [Course.next, Duplex.next, hm.inbox_eq, List.nil_append],
    by simp only [Course.next, Duplex.next, h.toClient, List.append_nil]⟩, hm.tells⟩

end Link.Shows

/-! ### One step -/

/-- **A link at a stage**, with what the connection has done for it and the work that is left:
what each further stage may take, and what is left in this one. -/
def Link.At {S : Snow} {cfg : Setup} {M : S.Matching} {x : Errand S cfg}
    (y : Course M x.toConversation) (i : ℕ) (L : Link S) (acts : List Act) (budget : ℕ) : Prop :=
  ∃ k ≤ 14, ∃ c outB restB outC restC, L.Shows x i (y.stage k) c outB restB outC restC ∧
    acts.filter Act.visible = x.script.take (toldAt (y.stage k).responder c.pc) ∧
    (14 - k) * (2 * maxMessageSize + 4) + L.work i ≤ budget

namespace Link.At

variable {S : Snow} {cfg : Setup} {M : S.Matching} {x : Errand S cfg}
  {y : Course M x.toConversation} {i k : ℕ} {L L' : Link S} {c c' : Conn S} {cl' : Client S}
  {d : Daemon S} {acts acts' : List Act} {budget : ℕ}
  {outB restB outC restC outB' restB' outC' restC' toB toC : Bytes}

/-- At the same stage, with less to do. -/
theorem of_waits (hk : k ≤ 14) (h : L'.Shows x i (y.stage k) c outB restB outC restC)
    (hacts : acts.filter Act.visible = x.script.take (toldAt (y.stage k).responder c.pc))
    (hwork : L'.work i < L.work i)
    (hbudget : (14 - k) * (2 * maxMessageSize + 4) + L.work i ≤ budget) :
    ∃ b, b + 1 ≤ budget ∧ L'.At y i acts b :=
  ⟨(14 - k) * (2 * maxMessageSize + 4) + L'.work i, by omega,
    k, hk, c, outB, restB, outC, restC, h, hacts, Nat.le_refl _⟩

/-- At the next stage, with as much to do as a stage may take. -/
theorem of_moved (hk : k < 14) (h : L'.Shows x i (y.stage (k + 1)) c outB restB outC restC)
    (hacts : acts.filter Act.visible = x.script.take (toldAt (y.stage (k + 1)).responder c.pc))
    (hwork : L'.work i ≤ L.work i + (2 * maxMessageSize + 3))
    (hbudget : (14 - k) * (2 * maxMessageSize + 4) + L.work i ≤ budget) :
    ∃ b, b + 1 ≤ budget ∧ L'.At y i acts b := by
  have hstage : (14 - k) * (2 * maxMessageSize + 4) =
      (14 - (k + 1)) * (2 * maxMessageSize + 4) + (2 * maxMessageSize + 4) := by
    rw [show 14 - k = 14 - (k + 1) + 1 by omega, Nat.add_mul, Nat.one_mul]
  exact ⟨(14 - (k + 1)) * (2 * maxMessageSize + 4) + L'.work i, by omega,
    k + 1, hk, c, outB, restB, outC, restC, h, hacts, Nat.le_refl _⟩

theorem filter_append_tells {n m : ℕ} (h : acts.filter Act.visible = x.script.take n)
    (ht : ConnShows.Tells x n acts' m) :
    (acts ++ acts').filter Act.visible = x.script.take m := by
  rw [List.filter_append, h]
  exact ht

section Client

variable (hk : k ≤ 14) (h : L.Shows x i (y.stage k) c outB restB outC restC)
  (hacts : acts.filter Act.visible = x.script.take (toldAt (y.stage k).responder c.pc))
  (hbudget : (14 - k) * (2 * maxMessageSize + 4) + L.work i ≤ budget)

include hk h hacts hbudget

/-- The client has something less to do. -/
theorem of_client_waits
    (hw : ClientShows.Waits (y.stage k).initiator L.client cl' outC' restC')
    (hB : toB ++ restC' = L.toBroker ++ restC) (hC : outC' ++ toC = outC ++ L.toClient) :
    ∃ b, b + 1 ≤ budget ∧ Link.At y i ⟨L.daemon, cl', toB, toC⟩ acts b := by
  have hshows : Link.Shows x i (y.stage k) ⟨L.daemon, cl', toB, toC⟩ c outB restB outC' restC' :=
    ⟨h.conn, h.broker, hw.shows, by rw [h.toBroker, List.append_assoc, List.append_assoc, hB],
      by rw [h.toClient, hC]⟩
  refine of_waits hk hshows hacts ?_ hbudget
  rw [hshows.work_eq, h.work_eq]
  exact Nat.add_lt_add_right hw.work_lt _

/-- The connection has something less to do. -/
theorem of_broker_waits (hc' : d.conns[i]? = some c')
    (hw : ConnShows.Waits x (y.stage k).responder c acts' c' outB' restB')
    (hB : outB' ++ toB = outB ++ L.toBroker) (hC : toC ++ restB' = L.toClient ++ restB) :
    ∃ b, b + 1 ≤ budget ∧ Link.At y i ⟨d, L.client, toB, toC⟩ (acts ++ acts') b := by
  have hshows : Link.Shows x i (y.stage k) ⟨d, L.client, toB, toC⟩ c' outB' restB' outC restC :=
    ⟨hc', hw.shows, h.client, by rw [h.toBroker, hB],
      by rw [h.toClient, List.append_assoc, List.append_assoc, hC]⟩
  refine of_waits hk hshows (filter_append_tells hacts hw.tells) ?_ hbudget
  rw [hshows.work_eq, h.work_eq]
  exact Nat.add_lt_add_left hw.work_lt _

end Client

/-- The client's session has moved. -/
theorem of_client_moved (hk : k ≤ 14) (h : L.Shows x i (y.stage k) c outB restB outC [])
    (hacts : acts.filter Act.visible = x.script.take (toldAt (y.stage k).responder c.pc))
    (hbudget : (14 - k) * (2 * maxMessageSize + 4) + L.work i ≤ budget)
    (hm : ClientShows.Moved (y.stage k).initiator (y.stage k).toClient cl' (toC ++ restB)) :
    ∃ b, b + 1 ≤ budget ∧ Link.At y i ⟨L.daemon, cl', L.toBroker, toC⟩ acts b := by
  obtain ⟨hlt, hshows, hresponder⟩ := h.client_moved hk hm
  refine of_moved hlt hshows (hresponder ▸ hacts) ?_ hbudget
  rw [hshows.work_eq, h.work_eq]
  have hle := hm.work_le
  dsimp only
  omega

/-- The connection's session has moved. -/
theorem of_broker_moved (hk : k ≤ 14) (h : L.Shows x i (y.stage k) c outB [] outC restC)
    (hacts : acts.filter Act.visible = x.script.take (toldAt (y.stage k).responder c.pc))
    (hbudget : (14 - k) * (2 * maxMessageSize + 4) + L.work i ≤ budget)
    (hc' : d.conns[i]? = some c')
    (hm : ConnShows.Moved x (y.stage k).responder (y.stage k).toBroker
      (toldAt (y.stage k).responder c.pc) acts' c' (toB ++ restC)) :
    ∃ b, b + 1 ≤ budget ∧ Link.At y i ⟨d, L.client, toB, L.toClient⟩ (acts ++ acts') b := by
  obtain ⟨hlt, hshows, htells⟩ := h.broker_moved hk hc' hm
  refine of_moved hlt hshows (filter_append_tells hacts htells) ?_ hbudget
  rw [hshows.work_eq, h.work_eq]
  have hle := hm.work_le
  dsimp only
  omega

/-- A step of the client. -/
theorem step_client {e : ClientEvent} (h : L.At y i acts budget)
    (hstep : Link.Service x i L (.inl e) L') : ∃ b, b + 1 ≤ budget ∧ L'.At y i acts b := by
  obtain ⟨k, hk, c, outB, restB, outC, restC, h, hacts, hbudget⟩ := h
  have hok : ∃ step, (Initiator.drive (y.stage k).initiator (y.stage k).toClient).result =
    .ok step := y.next_ok hk .client
  obtain ⟨hstep, hserves⟩ := hstep
  cases hstep with
  | client hnext he =>
    cases e with
    | run =>
      obtain ⟨rfl, rfl, hw | hm⟩ := h.client.run hnext (y.small_initiator hk) hok
      · exact of_client_waits hk h hacts hbudget hw rfl rfl
      · refine of_client_moved hk h hacts hbudget ?_
        have htoClient := h.toClient
        rw [List.nil_append] at htoClient
        exact htoClient ▸ hm
    | read bytes => cases he
    | wrote n => cases he
    | eof => exact hserves.elim
    | readErr code => exact hserves.elim
    | writeErr code => exact hserves.elim
  | @clientRead bytes rest cl' hnext hpipe =>
    have hinbox : (y.stage k).toClient = outC ++ bytes ++ (rest ++ restB) := by
      rw [h.toClient, hpipe]
      simp only [List.append_assoc]
    rw [hinbox] at hok
    obtain ⟨rfl, hw | hm⟩ := h.client.read hnext hok
    · exact of_client_waits hk h hacts hbudget hw rfl (by rw [hpipe, List.append_assoc])
    · exact of_client_moved hk h hacts hbudget (hinbox ▸ hm)
  | @clientWrote n rest cl' hpc hnext =>
    obtain ⟨rfl, hw⟩ := h.client.wrote hserves hnext
    have hrest : rest = restC := by
      have hcl := h.client
      rcases hL : L.client with ⟨sess, pc⟩
      rw [hL] at hpc hcl
      cases hcl <;> cases hpc
      rfl
    subst hrest
    exact of_client_waits hk h hacts hbudget hw
      (by rw [List.append_assoc, List.take_append_drop]) rfl

/-- A step of the connection. -/
theorem step_conn {e : ConnEvent S} {o : DaemonOutput} (h : L.At y i acts budget)
    (hstep : Link.Service x i L (.inr (.conn i e, o)) L') :
    ∃ b, b + 1 ≤ budget ∧ L'.At y i (acts ++ DaemonLabel.acts i (.conn i e, o)) b := by
  obtain ⟨k, hk, c, outB, restB, outC, restC, h, hacts, hbudget⟩ := h
  have hok : ∃ step, (Responder.drive x.psk x.seedR x.response (y.stage k).responder
    (y.stage k).toBroker).result = .ok step := y.next_ok hk .broker
  have hinbox := h.toBroker
  obtain ⟨hstep, hserves⟩ := hstep
  replace hserves : x.ServesConn i L.daemon e := hserves rfl
  cases hstep with
  | @brokerRead bytes rest o d hd hpipe =>
    obtain ⟨c', limiter, acts', hnext, rfl, hc'⟩ := hd.conn_cases h.conn
    simp only [DaemonLabel.acts, if_true]
    replace hinbox : (y.stage k).toBroker = outB ++ bytes ++ (rest ++ restC) := by
      rw [hinbox, hpipe]
      simp only [List.append_assoc]
    rw [hinbox] at hok
    obtain ⟨rfl, hw | hm⟩ :=
      h.broker.read hnext (fun phase n out => hserves c phase n out h.conn) hok
    · exact of_broker_waits hk h hacts hbudget hc' hw (by rw [hpipe, List.append_assoc]) rfl
    · exact of_broker_moved hk h hacts hbudget hc' (hinbox ▸ hm)
  | @brokerWrote n rest c₁ o d hc₁ hpc hd =>
    obtain ⟨c', limiter, acts', hnext, rfl, hc'⟩ := hd.conn_cases h.conn
    simp only [DaemonLabel.acts, if_true]
    obtain ⟨rfl, hw⟩ := h.broker.wrote hnext
    have hrest : rest = restB := by
      obtain rfl : c = c₁ := Option.some.inj (h.conn.symm.trans hc₁)
      have hbroker := h.broker
      cases hbroker <;> cases hpc
      rfl
    subst hrest
    exact of_broker_waits hk h hacts hbudget hc' hw rfl
      (by rw [List.append_assoc, List.take_append_drop])
  | daemon hd htransfers =>
    obtain ⟨c', limiter, acts', hnext, rfl, hc'⟩ := hd.conn_cases h.conn
    simp only [DaemonLabel.acts, if_true]
    cases e with
    | run now random seed =>
      obtain ⟨rfl, rfl, hw | hm⟩ := h.broker.run hnext
        (fun hs id heq => hserves c hs id h.conn heq) (fun hs id => y.identity_of_needPsk hk)
        (fun ts b => y.request_of_haveRequest hk) (y.small_responder hk) hok
      · exact of_broker_waits hk h hacts hbudget hc' hw rfl rfl
      · rw [List.nil_append] at hinbox
        exact of_broker_moved hk h hacts hbudget hc' (hinbox ▸ hm)
    | minted result =>
      obtain rfl : result = .ok x.outcome := hserves
      obtain ⟨rfl, rfl, hm⟩ := h.broker.minted hnext hok
      rw [List.nil_append] at hinbox
      exact of_broker_moved hk h hacts hbudget hc' (hinbox ▸ hm)
    | flushed =>
      obtain ⟨rfl, rfl, hw⟩ := h.broker.flushed hnext
      exact of_broker_waits hk h hacts hbudget hc' hw rfl rfl
    | read bytes => simp [DaemonEvent.transfers] at htransfers
    | wrote n => simp [DaemonEvent.transfers] at htransfers
    | eof => exact hserves.elim
    | readErr => exact hserves.elim
    | writeErr => exact hserves.elim
    | timeout => exact hserves.elim

/-- A step of the daemon that is none of the connection. -/
theorem step_other {l : DaemonLabel S} (h : L.At y i acts budget)
    (hother : ∀ e, l.1 ≠ .conn i e) (hstep : Link.Service x i L (.inr l) L') :
    L'.At y i (acts ++ l.acts i) budget := by
  obtain ⟨k, hk, c, outB, restB, outC, restC, h, hacts, hbudget⟩ := h
  obtain ⟨hstep, hserves⟩ := hstep
  cases hstep with
  | brokerRead _ _ => exact absurd rfl (hother _)
  | brokerWrote _ _ _ => exact absurd rfl (hother _)
  | daemon hd _ =>
    have hcrash : ∀ now, l.1 ≠ .crash now := by
      obtain ⟨e, o⟩ := l
      rintro now rfl
      exact hserves
    obtain ⟨hc, hnil⟩ := hd.other_conn hother hcrash h.conn
    have hshows : Link.Shows x i (y.stage k) ⟨_, L.client, L.toBroker, L.toClient⟩ c outB restB
      outC restC := ⟨hc, h.broker, h.client, h.toBroker, h.toClient⟩
    rw [hnil, List.append_nil]
    refine ⟨k, hk, c, outB, restB, outC, restC, hshows, hacts, ?_⟩
    rwa [hshows.work_eq, ← h.work_eq]

theorem own_eq_false {l : DaemonLabel S} (hother : ∀ e, l.1 ≠ .conn i e) :
    LinkLabel.own i (.inr l) = false := by
  rcases l with ⟨- | - | - | ⟨j, e⟩ | -, o⟩ <;> try rfl
  exact decide_eq_false fun hji => hother e (hji ▸ rfl)

/-- **A step of the link**: it leads from stage to stage, and makes what is left to do smaller
if it is one of the client or of the connection. -/
theorem step {l : LinkLabel S} (h : L.At y i acts budget) (hstep : Link.Service x i L l L') :
    ∃ b, b + (if LinkLabel.own i l then 1 else 0) ≤ budget ∧ L'.At y i (acts ++ l.acts i) b := by
  cases l with
  | inl e => exact (List.append_nil acts).symm ▸ step_client h hstep
  | inr l =>
    by_cases hother : ∀ e, l.1 ≠ .conn i e
    · rw [own_eq_false hother]
      exact ⟨budget, Nat.le_refl _, step_other h hother hstep⟩
    · obtain ⟨e, o⟩ := l
      simp only [not_forall, not_not] at hother
      obtain ⟨e, rfl⟩ := hother
      simpa only [LinkLabel.own, LinkLabel.acts, decide_true, if_true] using step_conn h hstep

/-- **A run of the link.** -/
theorem run {ls : List (LinkLabel S)} (h : L.At y i acts budget)
    (hrun : Lts.Run (Link.Service x i) L ls L') :
    ∃ b, b + ls.countP (LinkLabel.own i) ≤ budget ∧ L'.At y i (acts ++ linkActs i ls) b := by
  induction hrun generalizing acts budget with
  | nil => exact ⟨budget, Nat.le_refl _, (List.append_nil acts).symm ▸ h⟩
  | @cons s t u l ls hstep _ ih =>
    obtain ⟨b, hb, hat⟩ := h.step hstep
    obtain ⟨b', hb', hat'⟩ := ih hat
    refine ⟨b', ?_, ?_⟩
    · rw [List.countP_cons]
      omega
    · rw [linkActs, List.flatMap_cons, ← List.append_assoc]
      exact hat'

end Link.At

/-! ### There is always a step to make -/

section Enabled

variable {S : Snow} {out rest pipe : Bytes} {n : ℕ}

theorem Client.exists_next_wrote (sess : IState S) (hne : rest ≠ []) :
    ∃ c', Client.next ⟨sess, .writing rest⟩ (.wrote rest.length) = some c' := by
  have hpos := List.length_pos_iff.mpr hne
  simp only [Client.next, Nat.lt_irrefl, if_false, if_neg (Nat.ne_of_gt hpos)]
  exact ⟨_, rfl⟩

theorem Client.exists_next_read (sess : IState S) (hlt : out.length < n) (hne : pipe ≠ []) :
    ∃ c', Client.next ⟨sess, .reading n out⟩ (.read (pipe.take (n - out.length))) = some c' := by
  have hpos := List.length_pos_iff.mpr hne
  have hlen : (pipe.take (n - out.length)).length ≤ n - out.length := List.length_take_le _ _
  have hfit : ¬(pipe.take (n - out.length) = [] ∨
      n < (out ++ pipe.take (n - out.length)).length) := by
    rw [← List.length_eq_zero_iff, List.length_append, List.length_take]
    omega
  simp only [Client.next, if_neg hfit]
  split <;> exact ⟨_, rfl⟩

theorem Conn.exists_next_wrote (providers : List Provider) (sh : Shared) (c : Conn S)
    (hpc : c.pc = .writing rest) (hne : rest ≠ []) :
    ∃ c' limiter acts, c.next providers sh (.wrote rest.length) = some (c', limiter, acts) := by
  have hpos := List.length_pos_iff.mpr hne
  have hfit : ¬(rest.length = 0 ∨ rest.length < rest.length) := by omega
  simp only [Conn.next, hpc]
  rw [if_neg hfit, if_neg (Nat.lt_irrefl _)]
  exact ⟨_, _, _, rfl⟩

theorem Conn.exists_next_read (providers : List Provider) (sh : Shared) (c : Conn S) {phase : Phase}
    (hpc : c.pc = .reading phase n out) (hlt : out.length < n) (hne : pipe ≠ []) :
    ∃ c' limiter acts,
      c.next providers sh (.read (pipe.take (n - out.length))) = some (c', limiter, acts) := by
  have hpos := List.length_pos_iff.mpr hne
  have hlen : (pipe.take (n - out.length)).length ≤ n - out.length := List.length_take_le _ _
  have hfit : ¬(pipe.take (n - out.length) = [] ∨ n < (pipe.take (n - out.length)).length) := by
    rw [← List.length_eq_zero_iff, List.length_take]
    omega
  simp only [Conn.next, hpc, if_neg hfit]
  split <;> exact ⟨_, _, _, rfl⟩

end Enabled

/-- A connection that has the thread, or can have it, moves. -/
theorem Daemon.exists_step_conn {S : Snow} {cfg : Setup} {d : Daemon S} {i : ℕ} {c : Conn S}
    {e : ConnEvent S} (hrunning : d.running = none ∨ d.running = some i)
    (hc : d.conns[i]? = some c)
    (hnext : ∃ c' limiter acts, c.next cfg.providers ⟨d.state.tables, d.limiter⟩ e =
      some (c', limiter, acts)) :
    ∃ o d', Daemon.Step cfg d (.conn i e, o) d' := by
  obtain ⟨c', limiter, acts, hnext⟩ := hnext
  have hstep : ∃ o d', Daemon.next cfg d (.conn i e) = some (d', o) := by
    simp only [Daemon.next, if_pos hrunning, hc, hnext]
    exact ⟨_, _, rfl⟩
  exact hstep

/-- The client or the connection can make a step that serves. -/
def Link.Moves {S : Snow} {cfg : Setup} (x : Errand S cfg) (i : ℕ) (L : Link S) : Prop :=
  ∃ l L', Link.Service x i L l L' ∧ LinkLabel.own i l = true

namespace Link.Shows

variable {S : Snow} {cfg : Setup} {M : S.Matching} {x : Errand S cfg}
  {y : Course M x.toConversation} {i k : ℕ} {L : Link S} {c : Conn S} {D : Duplex S}
  {outB restB outC restC : Bytes}

/-- The client can make a step, or waits for bytes, or has finished. -/
theorem client_moves (h : L.Shows x i D c outB restB outC restC) :
    L.Moves x i ∨ restC = [] ∧
      ((∃ n, Initiator.step D.initiator = (D.initiator, .ok (.readExact n)) ∧ outC.length < n ∧
        L.toClient = []) ∨
      outC = [] ∧ ∃ response, D.initiator = .done response ∧
        L.client.pc = .finished (.ok response)) := by
  rcases hL : L.client with ⟨sess, pc⟩
  have hcl := h.client
  rw [hL] at hcl
  cases hcl with
  | top =>
    have hnext : L.client.next .run = some (Client.turn ⟨D.initiator, .top⟩) := by rw [hL]; rfl
    exact .inl ⟨.inl .run, _, ⟨.client hnext rfl, trivial⟩, rfl⟩
  | writing hwrote hne =>
    obtain ⟨c', hnext⟩ := Client.exists_next_wrote sess hne
    exact .inl ⟨.inl (.wrote _), _, ⟨.clientWrote (by rw [hL]) (hL.symm ▸ hnext),
      List.length_pos_iff.mpr hne⟩, rfl⟩
  | finished hs => exact .inr ⟨rfl, .inr ⟨rfl, _, hs, rfl⟩⟩
  | @reading n _ hstep hlt =>
    by_cases hpipe : L.toClient = []
    · exact .inr ⟨rfl, .inl ⟨n, hstep, hlt, hpipe⟩⟩
    · obtain ⟨c', hnext⟩ := Client.exists_next_read D.initiator hlt hpipe
      exact .inl ⟨.inl (.read _), _,
        ⟨.clientRead (hL.symm ▸ hnext) (List.take_append_drop _ _).symm, trivial⟩, rfl⟩

/-- The connection can make a step, or waits for bytes, or is closed. -/
theorem broker_moves (h : L.Shows x i D c outB restB outC restC)
    (henrolled : x.Enrolled L.daemon.state.tables)
    (hrunning : L.daemon.running = none ∨ L.daemon.running = some i) :
    L.Moves x i ∨ restB = [] ∧
      ((∃ n, Responder.step D.responder = (D.responder, .ok (.readExact n)) ∧ outB.length < n ∧
        L.toBroker = []) ∨
      outB = [] ∧ D.responder = .done ∧ c.pc = .closed) := by
  have hown : ∀ (e : ConnEvent S) (o : DaemonOutput),
    LinkLabel.own i (.inr (.conn i e, o)) = true := fun _ _ => decide_eq_true rfl
  have hconn := h.conn
  have hbroker := h.broker
  cases hbroker with
  | top =>
    obtain ⟨o, d, hd⟩ := Daemon.exists_step_conn (e := .run 0 (.error "") x.seedR) hrunning hconn
      ⟨_, _, _, rfl⟩
    exact .inl ⟨_, _, ⟨.daemon hd rfl, fun _ _ _ _ _ _ => ⟨henrolled, rfl⟩⟩, hown _ _⟩
  | writing hwrote hne =>
    obtain ⟨o, d, hd⟩ := Daemon.exists_step_conn hrunning hconn
      (Conn.exists_next_wrote cfg.providers _ _ rfl hne)
    exact .inl ⟨_, _, ⟨.brokerWrote hconn rfl hd, fun _ => trivial⟩, hown _ _⟩
  | minting hs =>
    obtain ⟨o, d, hd⟩ := Daemon.exists_step_conn (e := .minted (.ok x.outcome)) hrunning hconn
      ⟨_, _, _, rfl⟩
    exact .inl ⟨_, _, ⟨.daemon hd rfl, fun _ => rfl⟩, hown _ _⟩
  | flushing hs =>
    obtain ⟨o, d, hd⟩ := Daemon.exists_step_conn (e := .flushed) hrunning hconn ⟨_, _, _, rfl⟩
    exact .inl ⟨_, _, ⟨.daemon hd rfl, fun _ => trivial⟩, hown _ _⟩
  | closed hs => exact .inr ⟨rfl, .inr ⟨rfl, hs, rfl⟩⟩
  | @reading n _ hstep hlt =>
    by_cases hpipe : L.toBroker = []
    · exact .inr ⟨rfl, .inl ⟨n, hstep, hlt, hpipe⟩⟩
    · obtain ⟨o, d, hd⟩ := Daemon.exists_step_conn hrunning hconn
        (Conn.exists_next_read cfg.providers _ _ rfl hlt hpipe)
      refine .inl ⟨_, _, ⟨.brokerRead hd (List.take_append_drop _ _).symm, ?_⟩, hown _ _⟩
      intro _ c₁ phase m out hc₁ hpc
      obtain rfl := Option.some.inj (hconn.symm.trans hc₁)
      cases hpc
      rw [List.length_append, List.length_take]
      omega

/-- **Until both sides are through, one of them can make a step that serves**, unless another
connection has the thread or the client is not enrolled. -/
theorem moves (h : L.Shows x i (y.stage k) c outB restB outC restC) (hk : k ≤ 14)
    (henrolled : x.Enrolled L.daemon.state.tables)
    (hrunning : L.daemon.running = none ∨ L.daemon.running = some i) :
    L.Moves x i ∨ L.client.pc = .finished (.ok x.response) ∧ c.pc = .closed := by
  rcases h.client_moves with hmove | ⟨rfl, hclient⟩
  · exact .inl hmove
  rcases h.broker_moves henrolled hrunning with hmove | ⟨rfl, hbroker⟩
  · exact .inl hmove
  refine .inr ?_
  -- nobody moves, so nobody moves in the relay either
  have hend : k = 14 := by
    refine y.eq_of_waits hk fun p => ?_
    have htoClient := h.toClient
    have htoBroker := h.toBroker
    rw [List.append_nil] at htoClient htoBroker
    rcases hD : y.stage k with ⟨initiator, responder, toBroker, toClient⟩
    rw [hD] at hclient hbroker htoClient htoBroker
    dsimp only at hclient hbroker htoClient htoBroker
    cases p with
    | client =>
      rcases hclient with ⟨n, hstep, hlt, hpipe⟩ | ⟨-, response, rfl, -⟩
      · rw [hpipe, List.append_nil] at htoClient
        subst htoClient
        simp only [Course.next, Duplex.next, Initiator.drive, hstep, Driven.read,
          if_neg (Nat.not_le_of_lt hlt), List.append_nil]
      · simp only [Course.next, Duplex.next, Initiator.drive, Initiator.step, List.append_nil]
    | broker =>
      rcases hbroker with ⟨n, hstep, hlt, hpipe⟩ | ⟨-, rfl, -⟩
      · rw [hpipe, List.append_nil] at htoBroker
        subst htoBroker
        simp only [Course.next, Duplex.next, Responder.drive, hstep, Driven.read,
          if_neg (Nat.not_le_of_lt hlt), List.append_nil]
      · simp only [Course.next, Duplex.next, Responder.drive, Responder.step, List.append_nil]
  subst hend
  rcases hclient with ⟨n, hstep, -⟩ | ⟨-, response, hdone, hfinished⟩
  · cases hstep
  rcases hbroker with ⟨n, hstep, -⟩ | ⟨-, -, hclosed⟩
  · cases hstep
  cases hdone
  exact ⟨hfinished, hclosed⟩

end Link.Shows

/-! ### The credential is delivered -/

/-- **A client that has been set up for an errand**: its key file holds the public key that the
broker prints and the key that the enrolment printed, white space around, and the rest of what
it needs is there. -/
structure Errand.SetUp {S : Snow} {cfg : Setup} (x : Errand S cfg) (M : S.Matching)
    (host : ClientHost) (args : ClientArgs) : Prop where
  /-- The key file. -/
  keyFile : ∃ front back, Spelled whiteSpace front ∧ Spelled whiteSpace back ∧
    host.read args.keyFile = .ok (front ++
      (hexOf (M.publicKey cfg.brokerKey).bytes ++ 0x3A :: hexOf x.psk.bytes) ++ back)
  /-- The identity. -/
  identity : args.identity = x.identity.str
  /-- The request. -/
  stdin : host.stdin = .ok x.request
  /-- The broker can be connected to. -/
  connect : Client.connect (ε := S.Err) host args.endpoint = .ok ()
  /-- The socket has timeouts. -/
  timeouts : Client.setTimeouts (ε := S.Err) host = .ok ()
  /-- The standard output takes what is printed. -/
  stdout : ∀ bytes, host.writeStdout bytes = (bytes, .ok ())

/-- Such a client comes to drive its session. -/
theorem Errand.SetUp.start {S : Snow} {cfg : Setup} {x : Errand S cfg} {M : S.Matching}
    {host : ClientHost} {args : ClientArgs} {H : HexCrate} (hH : H.Lawful)
    (h : x.SetUp M host args) (y : Course M x.toConversation) :
    Client.start H host S args x.seedI = .ok (y.stage 0).initiator := by
  obtain ⟨front, back, hfront, hback, hread⟩ := h.keyFile
  have hnew := y.newInitiator
  rw [x.key_eq] at hnew
  simp only [Client.start, Client.session, h.identity, Identity.parse_str, h.stdin, h.connect,
    h.timeouts, Client.loadKeyFile_hexOf hH hfront hback hread, hnew]
  rfl

/-- So many steps of the client and the connection are enough. -/
def stepBound : ℕ := 14 * (2 * maxMessageSize + 4) + 2 * (maxMessageSize + 1)

/-- A connection that has been accepted is what the errand begins with. -/
theorem Course.accept_eq {S : Snow} {cfg : Setup} {x : Errand S cfg} {M : S.Matching}
    (y : Course M x.toConversation) : (Conn.accept S cfg.brokerKey).1 =
      x.connAt (y.stage 0).responder (y.stage 0).responder .top := by
  have hnew := y.newResponder
  rw [x.key_eq] at hnew
  simp only [Conn.accept, hnew]
  rfl

/-- The client has come to its loop, the connection has been accepted, and nothing is under
way. -/
theorem Link.At.begin {S : Snow} {cfg : Setup} {x : Errand S cfg} {M : S.Matching}
    (y : Course M x.toConversation) {d : Daemon S} {i : ℕ}
    (haccept : d.conns[i]? = some (Conn.accept S cfg.brokerKey).1) :
    Link.At y i ⟨d, ⟨(y.stage 0).initiator, .top⟩, [], []⟩ [] stepBound := by
  rw [y.accept_eq] at haccept
  have hshows :
      Link.Shows x i (y.stage 0) ⟨d, ⟨(y.stage 0).initiator, .top⟩, [], []⟩ _ [] [] [] [] :=
    ⟨haccept, .top, .top, rfl, rfl⟩
  refine ⟨0, by omega, _, [], [], [], [], hshows, rfl, ?_⟩
  rw [hshows.work_eq]
  simp only [Client.work, Conn.work, Errand.connAt, stepBound]
  omega

/-- **A client that is set up is served**, in every run whose steps serve it. -/
theorem credential_delivered {S : Snow} {cfg : Setup} (M : S.Matching) (x : Errand S cfg)
    {H : HexCrate} (hH : H.Lawful) {host : ClientHost} {args : ClientArgs}
    (hsetUp : x.SetUp M host args) {d : Daemon S} {i : ℕ}
    (haccept : d.conns[i]? = some (Conn.accept S cfg.brokerKey).1) :
    ∃ sess, Client.start H host S args x.seedI = .ok sess ∧
      ∀ ls L, Lts.Run (Link.Service x i) ⟨d, ⟨sess, .top⟩, [], []⟩ ls L →
        -- the client prints nothing but what the provider answered
        (∀ result, L.client.pc = .finished result →
          Client.main host (ascii "get") result =
            ⟨0, x.outcome.response.encode x.parsed.clientSupportsAuthtype⟩) ∧
        -- the connection does nothing but what it should
        (linkActs i ls).filter Act.visible <+: x.script ∧
        -- there are only so many steps to make
        ls.countP (LinkLabel.own i) ≤ stepBound ∧
        -- and until all is done, one can be made, while the client is enrolled
        (x.Enrolled L.daemon.state.tables → L.daemon.running = none ∨ L.daemon.running = some i →
          L.Moves x i ∨ L.client.pc = .finished (.ok x.response) ∧
            (linkActs i ls).filter Act.visible = x.script) := by
  obtain ⟨y⟩ := M.exists_course x.toConversation
  refine ⟨_, hsetUp.start hH y, fun ls L hrun => ?_⟩
  obtain ⟨b, hb, k, hk, c, outB, restB, outC, restC, hshows, hacts, -⟩ :=
    (Link.At.begin y haccept).run hrun
  rw [List.nil_append] at hacts
  refine ⟨fun result hresult => ?_, ?_, by omega, fun henrolled hrunning => ?_⟩
  · rcases hL : L.client with ⟨sess, pc⟩
    have hclient := hshows.client
    rw [hL] at hresult hclient
    dsimp only at hresult
    cases hclient <;> cases hresult
    rename_i response hdone
    have hresponse : response = x.response := by
      interval_cases k <;> cases hdone
      rfl
    simp only [Client.main, Client.finish, if_true, hresponse, hsetUp.stdout, x.response_eq]
  · rw [hacts]
    exact List.take_prefix _ _
  · rcases hshows.moves hk henrolled hrunning with hmove | ⟨hfinished, hclosed⟩
    · exact .inl hmove
    · refine .inr ⟨hfinished, ?_⟩
      rw [hacts, hclosed]
      rfl

/-- What a provider answers. -/
def plainOutcome : MintOutcome :=
  ⟨⟨ascii "x-access-token", ascii "t", ⟨0⟩, by decide, by decide, by decide⟩⟩

/-- What git asks for. -/
def plainQuery : Bytes := ascii "protocol=https\nhost=github.com\npath=o/r\n\n"

theorem length_plainQuery : plainQuery.length = 41 := by decide

theorem length_plainOutcome : (plainOutcome.response.encode false).length = 58 := by
  decide +kernel

theorem parse_plainQuery :
    Request.parse plainQuery = .ok ⟨ascii "https", ascii "github.com", ascii "o/r", false⟩ := by
  decide +kernel

/-- An errand in the clear. -/
def plainErrand : Errand (noise plainPrimitives) plainSetup where
  identity := alice
  psk := Psk.filled 1
  key := plainKey
  request := plainQuery
  response := plainOutcome.response.encode false
  seedI := Ephemeral.filled 2
  seedR := Ephemeral.filled 3
  request_le := length_plainQuery.trans_le (by decide)
  response_le := length_plainOutcome.trans_le (by decide)
  parsed := ⟨ascii "https", ascii "github.com", ascii "o/r", false⟩
  parse_eq := parse_plainQuery
  small := length_plainQuery.trans_le (by decide)
  provider := ⟨.github, ascii "github.com"⟩
  find_eq := rfl
  outcome := plainOutcome
  response_eq := rfl
  key_eq := rfl

/-- A machine on which the helper finds what it needs, with a line feed after the keys. -/
def plainClientHost : ClientHost where
  Address := Unit
  read _ := .ok ([] ++ (hexOf (plainPrimitives.derivePublic plainKey).bytes ++
    0x3A :: hexOf (Psk.filled 1).bytes) ++ [lf])
  stdin := .ok plainErrand.request
  toSocketAddrs _ := .ok [()]
  connectTimeout _ := .ok ()
  setReadTimeout := .ok ()
  setWriteTimeout := .ok ()
  writeStdout bytes := (bytes, .ok ())

/-- The arguments git is configured with. -/
def plainArgs : ClientArgs := ⟨ascii "broker:9418", ascii "alice", ascii "key", ascii "get"⟩

theorem plainErrand_setUp :
    plainErrand.SetUp (noiseMatching plainPrimitives_lawful) plainClientHost plainArgs where
  keyFile := ⟨[], [lf], .nil, ⟨[[lf]], by decide, rfl⟩, rfl⟩
  identity := rfl
  stdin := rfl
  connect := rfl
  timeouts := rfl
  stdout _ := rfl

/-- The daemon has accepted a connection. -/
def plainAccepted : Daemon (noise plainPrimitives) :=
  { plainDaemon with conns := [(Conn.accept (noise plainPrimitives) plainKey).1] }

theorem credential_delivered_alice :
    ∃ sess, Client.start plainHex plainClientHost (noise plainPrimitives) plainArgs
        (Ephemeral.filled 2) = .ok sess ∧
      ∀ ls L, Lts.Run (Link.Service plainErrand 0) ⟨plainAccepted, ⟨sess, .top⟩, [], []⟩ ls L →
        ∀ result, L.client.pc = .finished result →
          Client.main plainClientHost (ascii "get") result =
            ⟨0, plainOutcome.response.encode false⟩ := by
  obtain ⟨sess, hstart, hall⟩ :=
    credential_delivered (noiseMatching plainPrimitives_lawful) plainErrand plainHex_lawful
      plainErrand_setUp (d := plainAccepted) (i := 0) rfl
  exact ⟨sess, hstart, fun ls L hrun => (hall ls L hrun).1⟩

end Symbolon
