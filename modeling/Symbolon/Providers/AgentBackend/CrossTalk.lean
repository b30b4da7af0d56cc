import Symbolon.Providers.AgentBackend.Channel

/-!
# No cross-talk on the signing channel

What one round trip with the agent means to the calls (`Symbolon.AgentBackend.no_cross_talk`), by
the rules of `Worker`: no call gets the reply to another; after the first failure no call gets a
reply at all; and no call is left waiting, since every step that is not a new call takes something
off a bounded amount of work (`Symbolon.AgentBackend.effort`) and while a call waits there is such
a step.
-/

namespace Symbolon.AgentBackend

open Text Agent

variable {wire : Wire} {serde : Serde} {signer : JwtSigningKey} {p q : Peer} {s t : State wire}

/-! ### Whose reply it is -/

theorem finish_json (wire : Wire) (call : Call) (response : AgentResponse) :
    call.finish wire response.json = call.interpret response := by
  simp only [Call.finish, decode, wire.fromSlice_json]

/-- The datagram of a call that has a job. -/
theorem bytes_of_prepare {call : Call} {r : Request wire} (h : call.prepare wire = .ok r) :
    r.bytes = call.request.json := by
  rw [r.eq_json.1, prepare_eq_ok h]

/-- **The invariant**, in every run. -/
theorem sound_of_run {ls : List (Worker.Label Call Syscall)}
    (h : Worker.Run (actor wire serde signer) (start wire) ls s) :
    Worker.Sound (actor wire serde signer)
      (fun r bytes => bytes = (handle serde signer r.bytes).json) Quiet (OnCourse serde signer)
      (fun p => p.isOpen = false) s :=
  .of_run (serves wire serde signer) ⟨rfl, rfl, rfl, fun _ => AgentProc.noConfusion⟩ h

/-- The datagram a call is handed is the reply to its own. -/
theorem eq_of_value {c : Worker.Caller Call (Request wire) Bytes Answer BackendError}
    (h : c.Own (actor wire serde signer) fun r bytes => bytes = (handle serde signer r.bytes).json)
    {bytes : Bytes} (hvalue : c.reply = .value (.ok bytes)) :
    bytes = (handle serde signer c.call.request.json).json := by
  obtain ⟨r, hprepare, hbytes⟩ := h.value bytes hvalue
  rw [hbytes, bytes_of_prepare hprepare]

/-- What it returns is what it makes of that. -/
theorem interpret_of_done {c : Worker.Caller Call (Request wire) Bytes Answer BackendError}
    (h : c.Own (actor wire serde signer) fun r bytes => bytes = (handle serde signer r.bytes).json)
    {answer : Answer} (hdone : c.status = .done (.ok answer)) :
    c.call.interpret (handle serde signer c.call.request.json) = .ok answer := by
  obtain ⟨r, bytes, hprepare, rfl, hfinish⟩ := h.done answer hdone
  rw [← bytes_of_prepare hprepare, ← finish_json wire, ← prepare_eq_ok hprepare]
  exact hfinish

/-! ### After a failure -/

/-- The actor's system call fails: the request is not sent, or no reply is received. -/
def Fails (s : State wire) : Worker.Label Call Syscall → Prop
  | .work (.send syscall) => ∃ job request err, s.phase = .working job (.sending request) ∧
      Agent.send syscall request = .error err
  | .work (.recv r) => ∃ err, received r = some (.error err)
  | _ => False

theorem givesUp_of_fails {l : Worker.Label Call Syscall}
    (h : Worker.Step (actor wire serde signer) s l t) (hfails : Fails s l) :
    t.phase.GivesUp ∧ t.calls = s.calls := by
  cases h with
  | work hp hw =>
    cases hw with
    | sent hs _ =>
      obtain ⟨job, request, err, hp', herr⟩ := hfails
      cases hp.symm.trans hp'
      cases hs.symm.trans herr
    | recvAgain _ hr =>
      obtain ⟨err, herr⟩ := hfails
      cases hr.symm.trans herr
  | result hp hw =>
    cases hw with
    | sendFailed _ => exact ⟨trivial, rfl⟩
    | recv _ hr =>
      obtain ⟨err, herr⟩ := hfails
      cases hr.symm.trans herr
      exact ⟨trivial, rfl⟩
  | _ => exact hfails.elim

/-! ### Nobody is left waiting -/

/-- A `recv` that was interrupted. -/
def Syscall.Stalls : Syscall → Prop
  | .recv (.failed errno _) | .agentRecv (.failed errno _) => errno = eintr
  | _ => False

/-- No system call fails but for the other end being closed, and the agent lives. -/
def Smooth (p : Peer) : Syscall → Prop
  | .recv (.failed ..) | .agentRecv (.failed ..) | .crash => False
  | .send syscall => p.agent = .exited ∨ syscall = sends
  | .agentSend syscall => p.isOpen = false ∨ syscall = sends
  | .recv _ | .agentRecv _ => True

theorem Smooth.not_stalls {l : Syscall} (h : Smooth p l) : ¬l.Stalls := by
  cases l with
  | recv r =>
    cases r with
    | failed errno text => exact h.elim
    | _ => exact id
  | agentRecv r =>
    cases r with
    | failed errno text => exact h.elim
    | _ => exact id
  | _ => exact id

/-- How much is ahead of the agent. -/
def AgentProc.work : AgentProc → ℕ
  | .waiting => 1
  | .handling _ => 2
  | .exited => 0

theorem AgentProc.work_pos {agent : AgentProc} (h : agent ≠ .exited) : 0 < agent.work := by
  cases agent with
  | waiting => exact Nat.one_pos
  | handling request => exact Nat.two_pos
  | exited => exact absurd rfl h

theorem AgentProc.work_le (agent : AgentProc) : agent.work ≤ 2 := by
  cases agent with
  | waiting => exact Nat.le_succ 1
  | handling request => exact Nat.le_refl 2
  | exited => exact Nat.zero_le 2

/-- How much is ahead of it with what is on its way. -/
def Peer.load (p : Peer) : ℕ := p.agent.work + 2 * p.down.length

/-- What is left of a round trip: the `send`, the agent's part, and the `recv`. -/
def need : Stage → Peer → ℕ
  | .sending _, p => 4 + p.load
  | .receiving, p => 1 + p.load

theorem Serve.load_lt {l : Syscall} (h : Serve serde signer p l q) (hl : ¬l.Stalls) :
    q.load < p.load := by
  cases h with
  | recv hg hk =>
    have hwaiting : p.agent.work = 1 := by rw [hg]; rfl
    cases hk with
    | @datagram d _ hd =>
      have hwork := (agentReceived (.datagram d)).work_le
      simp only [Peer.load, hwaiting, hd, List.length_cons]
      omega
    | closed h _ =>
      have hexit : (agentReceived .closed).work = 0 := rfl
      simp only [Peer.load, hwaiting, h, hexit, List.length_nil]
      omega
    | failed errno text =>
      have hne : errno ≠ eintr := hl
      have hexit : (agentReceived (.failed errno text)).work = 0 := by
        simp only [agentReceived, Agent.recv, if_neg hne, AgentProc.work]
      simp only [Peer.load, hwaiting, hexit]
      omega
  | answer hg _ _ => simp [Peer.load, hg, AgentProc.work]
  | noAnswer hg _ => simp [Peer.load, hg, AgentProc.work]
  | crash hg => exact Nat.add_lt_add_right (AgentProc.work_pos hg) _

/-- **A round trip is so many steps**, signals apart. -/
def effort (wire : Wire) (serde : Serde) (signer : JwtSigningKey) :
    Worker.Effort (actor wire serde signer) where
  stalls := Syscall.Stalls
  need := need
  spare := Peer.load
  cost _ := 4
  first _ _ := Nat.le_refl _
  work stage p l stage' p' hl hw := by
    cases hw with
    | sent _ _ =>
      simp only [need, Peer.load, List.length_append, List.length_singleton]
      omega
    | recvAgain _ hr =>
      obtain ⟨text, rfl⟩ := interrupted_of_received hr
      exact absurd rfl hl
  result stage p l result p' hw := by
    cases hw with
    | sendFailed _ => exact Nat.lt_add_of_pos_left (by decide)
    | recv _ _ => exact Nat.lt_add_of_pos_left (by decide)
  alone_need stage p l p' hl ha := by
    have := Serve.load_lt ha hl
    cases stage <;> simp only [need] <;> omega
  alone_spare p l p' hl ha := Serve.load_lt ha hl
  shut _ := Nat.le_refl _

variable (serde signer) in
/-- A request at hand is answered, or the agent exits. -/
theorem exists_serve_of_handling {request : Bytes} (hg : p.agent = .handling request) :
    ∃ l, Smooth p l ∧ ∃ q, Serve serde signer p l q := by
  cases hopen : p.isOpen with
  | false =>
    let broken : Bytes → Except Str ℕ := fun _ =>
      .error (.ofAscii (ascii "Broken pipe") (by decide))
    have hnone : answerTo serde signer broken request = none := by
      unfold answerTo
      split <;> rfl
    exact ⟨.agentSend broken, .inl hopen, _, .noAnswer hg hnone⟩
  | true =>
    cases hans : answerTo serde signer sends request with
    | none => exact ⟨.agentSend sends, .inr rfl, _, .noAnswer hg hans⟩
    | some reply => exact ⟨.agentSend sends, .inr rfl, _, .answer hg hans hopen⟩

/-- The reply is received, or the end of the agent is seen. -/
theorem exists_roundTrip {r : Recv} {up : List Bytes} (hk : Kernel p.up (p.agent ≠ .exited) r up)
    (hr : ∀ text, r ≠ .failed eintr text) : ∃ x q, RoundTrip p .receiving (.recv r) x q := by
  cases hres : received r with
  | none =>
    obtain ⟨text, rfl⟩ := interrupted_of_received hres
    exact absurd rfl (hr text)
  | some result => exact ⟨_, _, .recv hk hres⟩

/-- A round trip on its course can go on. -/
theorem OnCourse.exists_step {stage : Stage} {r : Request wire}
    (h : OnCourse serde signer stage r p) :
    ∃ l, Smooth p l ∧ ((∃ x q, RoundTrip p stage l x q) ∨ ∃ q, Serve serde signer p l q) := by
  cases stage with
  | sending request =>
    by_cases hg : p.agent = .exited
    · exact ⟨.send fun _ => .error (.ofAscii (ascii "Broken pipe") (by decide)), .inl hg,
        .inl ⟨_, _, .sendFailed rfl⟩⟩
    · exact ⟨.send sends, .inr rfl, .inl ⟨_, _, .sent (by simp [Agent.send, sends]) hg⟩⟩
  | receiving =>
    have hlost (hup : p.up = []) (hg : p.agent = .exited) :
        ∃ l, Smooth p l ∧ ((∃ x q, RoundTrip p .receiving l x q) ∨ ∃ q, Serve serde signer p l q) :=
      ⟨.recv .closed, trivial,
        .inl (exists_roundTrip (.closed hup (fun hlive => hlive hg)) fun _ => Recv.noConfusion)⟩
    cases h.2 with
    | sent hdown hup hfree =>
      cases hg : p.agent with
      | waiting =>
        exact ⟨.agentRecv (.datagram r.bytes), trivial, .inr ⟨_, .recv hg (.datagram hdown)⟩⟩
      | handling request => exact absurd hg (hfree request)
      | exited => exact hlost hup hg
    | handled _ _ hg =>
      obtain ⟨l, hl, hserve⟩ := exists_serve_of_handling serde signer hg
      exact ⟨l, hl, .inr hserve⟩
    | answered _ hup _ _ =>
      exact ⟨.recv (.datagram _), trivial,
        .inl (exists_roundTrip (.datagram hup) fun _ => Recv.noConfusion)⟩
    | lost _ hup hg => exact hlost hup hg

variable (serde signer) in
/-- The agent exits once the daemon's end is closed. -/
theorem exited_or_exists_serve (hopen : p.isOpen = false) :
    p.agent = .exited ∨ ∃ l, Smooth p l ∧ ∃ q, Serve serde signer p l q := by
  cases hg : p.agent with
  | exited => exact .inl rfl
  | handling request => exact .inr (exists_serve_of_handling serde signer hg)
  | waiting =>
    cases hd : p.down with
    | nil =>
      exact .inr ⟨.agentRecv .closed, trivial, _, .recv hg (.closed hd (by simp [hopen]))⟩
    | cons d down => exact .inr ⟨.agentRecv (.datagram d), trivial, _, .recv hg (.datagram hd)⟩

/-- **No call hears the reply to another**, however many are made, in whatever order, whichever
are cancelled and whatever fails:

* the datagram a call is handed is the agent's reply to the call's own request, and what it
  returns is what it makes of that, or an error;
* once a system call of the actor's has failed, every call that has no reply by then, and every
  later one, returns an error if it returns;
* no call is left without an answer: as long as one waits there is a step to take that needs no
  failure, and there are only so many before calls are made again. -/
theorem no_cross_talk {ls : List (Worker.Label Call Syscall)}
    (hrun : Worker.Run (actor wire serde signer) (start wire) ls s) :
    (∀ (i : ℕ) c, s.calls[i]? = some c →
      (∀ bytes, c.reply = .value (.ok bytes) →
        bytes = (handle serde signer c.call.request.json).json) ∧
      ∀ outcome, c.status = .done outcome → (∃ err, outcome = .error err) ∨
        outcome = c.call.interpret (handle serde signer c.call.request.json)) ∧
    (∀ l u ls' t, Fails s l → Worker.Step (actor wire serde signer) s l u →
      Worker.Run (actor wire serde signer) u ls' t →
      ∀ (i : ℕ) c, (∀ c₀, s.calls[i]? = some c₀ → c₀.Unanswered) → t.calls[i]? = some c →
        ∀ outcome, c.status = .done outcome → ∃ err, outcome = .error err) ∧
    (∀ ls' t, Lts.Run (Lts.restrict (Worker.Step (actor wire serde signer)) fun _ l =>
        l.Within fun l => ¬l.Stalls) s ls' t → ls'.length ≤ s.work (effort wire serde signer)) ∧
    ∀ (i : ℕ) c r, s.calls[i]? = some c → c.status = .waiting r →
      ∃ l t, Worker.Step (actor wire serde signer) s l t ∧
        l.Within fun l => Smooth s.device l ∧ ¬l.Stalls := by
  have hsound := sound_of_run hrun
  refine ⟨fun i c hc => ⟨fun bytes => eq_of_value (hsound.own i c hc), ?_⟩, ?_, ?_, ?_⟩
  · rintro (err | answer) hdone
    · exact .inl ⟨err, rfl⟩
    · exact .inr (interpret_of_done (hsound.own i c hc) hdone).symm
  · intro l u ls' t hfails hstep hrun' i c hi hc outcome
    obtain ⟨hgives, hcalls⟩ := givesUp_of_fails hstep hfails
    exact (Worker.unanswered_of_run hrun' hgives (hcalls ▸ hi) hc).exists_error
  · exact fun ls' t h => Worker.length_le_work (E := effort wire serde signer) h
  · intro i c r hc hwait
    refine hsound.exists_step (fun p l => Smooth p l ∧ ¬l.Stalls) ?_ ?_ hc hwait
    · intro stage r p hon
      obtain ⟨l, hl, hstep⟩ := hon.exists_step
      exact ⟨l, ⟨hl, hl.not_stalls⟩, hstep⟩
    · intro p hp
      rcases exited_or_exists_serve serde signer hp with hx | ⟨l, hl, hq⟩
      · exact .inl hx
      · exact .inr ⟨l, ⟨hl, hl.not_stalls⟩, hq⟩

/-! ### A round trip that goes through -/

/-- The agent gets the datagram as it was sent. -/
theorem agentReceived_request (r : Request wire) :
    agentReceived (.datagram r.bytes) = .handling r.bytes := by
  obtain ⟨hbytes, hfits⟩ := r.eq_json
  have hne : r.bytes ≠ [] := hbytes ▸ r.call.request.json_ne_nil
  simp only [agentReceived, recv_datagram hfits]

/-- The actor gets the reply as it was sent. -/
theorem received_json {response : AgentResponse} (hfits : response.json.length ≤ maxMessage) :
    received (.datagram response.json) = some (.ok response.json) := by
  have hne := response.json_ne_nil
  simp only [received, recv_datagram hfits]

theorem answerTo_sends {request : Bytes}
    (hfits : (handle serde signer request).json.length ≤ maxMessage) :
    answerTo serde signer sends request = some (handle serde signer request).json := by
  simp [answerTo, encode_eq_ok_iff.mpr ⟨hfits, rfl⟩, Agent.send, sends]

section RoundTrip

variable {calls : List (Worker.Caller Call (Request wire) Bytes Answer BackendError)}
  {queue : List (Worker.Job (Request wire))} {job : Worker.Job (Request wire)}

/-- A job is taken, and its request is sent. -/
theorem run_sent :
    Worker.Run (actor wire serde signer) ⟨calls, job :: queue, false, .idle, .fresh⟩
      [.take, .work (.send sends)]
      ⟨calls, queue, false, .working job .receiving,
        ⟨[job.request.bytes], [], true, .waiting⟩⟩ :=
  (Lts.Run.single (.take rfl rfl)).snoc
    (.work rfl (RoundTrip.sent (by simp [Agent.send, sends]) AgentProc.noConfusion))

variable (calls queue job) in
/-- A request whose answer fits is answered. -/
theorem run_answered
    (hfits : (handle serde signer job.request.bytes).json.length ≤ maxMessage) :
    ∃ ls, Worker.Run (actor wire serde signer)
      ⟨calls, queue, false, .working job .receiving, ⟨[job.request.bytes], [], true, .waiting⟩⟩ ls
      ⟨calls.modify job.caller
        ({ · with reply := .value (.ok (handle serde signer job.request.bytes).json) }),
        queue, false, .idle, .fresh⟩ := by
  have hgot := (Lts.Run.nil (R := Worker.Step (actor wire serde signer))
    ⟨calls, queue, false, .working job .receiving,
      ⟨[job.request.bytes], [], true, .waiting⟩⟩).snoc (.alone (Serve.recv rfl (.datagram rfl)))
  have hanswered := hgot.snoc
    (.alone (Serve.answer (agentReceived_request job.request) (answerTo_sends hfits) rfl))
  have hreceived := hanswered.snoc
    (.result rfl (RoundTrip.recv (.datagram rfl) (received_json hfits)))
  exact ⟨_, hreceived.snoc (.reply rfl)⟩

end RoundTrip

/-- There is such a `serde_json`, and one that writes all requests. -/
theorem exists_wire : ∃ wire : Wire, ∀ request, wire.toVec request = .ok request.json := by
  let expected : Str := .ofAscii (ascii "expected value at line 1 column 1") (by decide)
  refine ⟨{
    toVec := fun request => .ok request.json
    fromSlice := fun bytes =>
      (Function.partialInv AgentResponse.json bytes).elim (.error expected) .ok
    eq_json_of_toVec := fun request bytes h => (Except.ok.inj h).symm
    fromSlice_json := fun response => ?_ }, fun _ => rfl⟩
  rw [Function.partialInv_left AgentResponse.json_injective]
  rfl

/-- It has a job for every call whose request fits. -/
theorem exists_prepare (hwrites : ∀ request, wire.toVec request = .ok request.json) (call : Call)
    (hfits : call.request.json.length ≤ maxMessage) :
    ∃ r, call.prepare wire = .ok r ∧ r.bytes = call.request.json := by
  have henc : encode wire.toVec call.request = .ok call.request.json := by
    simp only [encode, hwrites]
    exact if_neg (Nat.not_lt.mpr hfits)
  refine ⟨⟨call, call.request.json, henc⟩, ?_, rfl⟩
  unfold Call.prepare
  split
  · rename_i e h
    cases h.symm.trans henc
  · rename_i bytes h
    cases h.symm.trans henc
    rfl

/-- The claims of an App. -/
def firstClaims : JwtClaims := ⟨.ofAscii (ascii "Iv1") (by decide), 0, 600⟩

/-- The claims of another. -/
def secondClaims : JwtClaims := ⟨.ofAscii (ascii "Iv2") (by decide), 60, 660⟩

/-- What the agent answers to claims that are not too long. -/
theorem exists_handle_sign (hserde : ∀ claims, serde.toVec claims = .ok claims.json)
    (signer : JwtSigningKey) (claims : JwtClaims) (hlen : claims.json.length ≤ maxPayload) :
    ∃ token, signer.signRs256 serde.toVec claims = .ok token ∧
      handle serde signer (AgentRequest.signJwt claims).json = .jwt token ∧
      (AgentResponse.jwt token).json.length ≤ maxMessage := by
  have hdecode : decode serde.fromSlice (AgentRequest.signJwt claims).json =
      .ok (.signJwt claims) := by
    simp only [decode, serde.fromSlice_json]
  obtain ⟨token, htoken, -⟩ := exists_signRs256 signer (hserde claims)
  have hhandle : handle serde signer (AgentRequest.signJwt claims).json = .jwt token := by
    simp only [handle, hdecode, htoken]
  refine ⟨token, htoken, hhandle, ?_⟩
  rw [← hhandle, length_json_handle_le_iff]
  intro claims' hclaims' payload hpayload
  cases hdecode.symm.trans hclaims'
  cases (hserde claims).symm.trans hpayload
  exact hlen

/-- **Two calls at once.** The first is cancelled when its request is out; the second gets the
token of its own claims. -/
theorem exists_run_cancelled (hwrites : ∀ request, wire.toVec request = .ok request.json)
    (hserde : ∀ claims, serde.toVec claims = .ok claims.json) (signer : JwtSigningKey) :
    ∃ ls s first second, Worker.Run (actor wire serde signer) (start wire) ls s ∧
      signer.signRs256 serde.toVec firstClaims = .ok first ∧
      signer.signRs256 serde.toVec secondClaims = .ok second ∧
      s.calls =
        [⟨.sign firstClaims, .value (.ok (AgentResponse.jwt first).json), .left⟩,
          ⟨.sign secondClaims, .value (.ok (AgentResponse.jwt second).json),
            .done (.ok (.token second))⟩] := by
  obtain ⟨r₁, hprepare₁, hr₁⟩ :=
    exists_prepare hwrites (.sign firstClaims) (by decide +kernel)
  obtain ⟨r₂, hprepare₂, hr₂⟩ :=
    exists_prepare hwrites (.sign secondClaims) (by decide +kernel)
  obtain ⟨first, hfirst, hhandle₁, hfits₁⟩ :=
    exists_handle_sign hserde signer firstClaims (by decide +kernel)
  obtain ⟨second, hsecond, hhandle₂, hfits₂⟩ :=
    exists_handle_sign hserde signer secondClaims (by decide +kernel)
  have hreply₁ : handle serde signer r₁.bytes = .jwt first := hr₁ ▸ hhandle₁
  have hreply₂ : handle serde signer r₂.bytes = .jwt second := hr₂ ▸ hhandle₂
  -- both calls are made, and the first one is cancelled while the agent has its request
  have hasked := (Lts.Run.single (Worker.Step.queued (S := actor wire serde signer)
    (s := start wire) rfl hprepare₁ nofun)).snoc (.queued rfl hprepare₂ nofun)
  have hleft := (hasked.append run_sent).snoc (.leave (i := 0) rfl rfl)
  obtain ⟨ls₁, hrun₁⟩ := run_answered
    [⟨.sign firstClaims, .empty, .left⟩, ⟨.sign secondClaims, .empty, .waiting r₂⟩]
    [⟨1, r₂⟩] ⟨0, r₁⟩ (by rw [hreply₁]; exact hfits₁)
  obtain ⟨ls₂, hrun₂⟩ := run_answered
    [⟨.sign firstClaims, .value (.ok (handle serde signer r₁.bytes).json), .left⟩,
      ⟨.sign secondClaims, .empty, .waiting r₂⟩] [] ⟨1, r₂⟩ (by rw [hreply₂]; exact hfits₂)
  have hanswered := ((hleft.append hrun₁).append run_sent).append hrun₂
  have hrun := hanswered.snoc (.wake (i := 1) rfl rfl rfl)
  have hcall : r₂.call = .sign secondClaims := prepare_eq_ok hprepare₂
  have hfinish : r₂.call.finish wire (handle serde signer r₂.bytes).json =
      .ok (.token second) := by
    rw [finish_json, hcall, hreply₂]
    rfl
  refine ⟨_, _, first, second, hrun, hfirst, hsecond, ?_⟩
  rw [← hreply₁, ← hreply₂, ← hfinish]
  rfl

theorem no_cross_talk_cancelled :
    ∃ (wire : Wire) (serde : Serde) (ls : List (Worker.Label Call Syscall)) (s : State wire)
      (first second : Str), Worker.Run (actor wire serde blankKey) (start wire) ls s ∧
      s.calls =
        [⟨.sign firstClaims, .value (.ok (AgentResponse.jwt first).json), .left⟩,
          ⟨.sign secondClaims, .value (.ok (AgentResponse.jwt second).json),
            .done (.ok (.token second))⟩] ∧
      .ok (.token second) = (Call.sign secondClaims).interpret
        (handle serde blankKey (AgentRequest.signJwt secondClaims).json) := by
  obtain ⟨wire, hwrites⟩ := exists_wire
  obtain ⟨serde, hserde⟩ := exists_serde
  obtain ⟨ls, s, first, second, hrun, -, -, hcalls⟩ :=
    exists_run_cancelled hwrites hserde blankKey
  refine ⟨wire, serde, ls, s, first, second, hrun, hcalls, ?_⟩
  rcases ((no_cross_talk hrun).1 1 _ (by rw [hcalls]; rfl)).2 _ rfl with ⟨err, herr⟩ | hown
  · cases herr
  · exact hown

end Symbolon.AgentBackend
