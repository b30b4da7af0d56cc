import Symbolon.Providers.AgentBackend

/-!
# What the signing channel carries

One round trip with an agent that works on nothing (`Symbolon.AgentBackend.serves`): while the
actor goes on, what is on its way is the request in hand, or the reply to it. That is what a send
without its receive would break, and why a failure has to end the actor: the reply to the request
it gave up may still come.
-/

namespace Symbolon.AgentBackend

open Text Agent

variable {wire : Wire} {serde : Serde} {signer : JwtSigningKey} {p q : Peer} {l : Syscall}

/-! ### What is on its way -/

/-- The agent works on nothing. -/
def AgentProc.Free (agent : AgentProc) : Prop := ∀ request, agent ≠ .handling request

/-- Nothing is on its way, and the agent works on nothing. -/
structure Quiet (p : Peer) : Prop where
  isOpen : p.isOpen = true
  down : p.down = []
  up : p.up = []
  free : p.agent.Free

section Channel

variable (serde : Serde) (signer : JwtSigningKey)

/-- One request is on its way, or with the agent, or the reply to it is on its way; or it is
lost with the agent. -/
inductive InFlight (request : Bytes) (p : Peer) : Prop
  | sent (hdown : p.down = [request]) (hup : p.up = []) (hfree : p.agent.Free)
  | handled (hdown : p.down = []) (hup : p.up = []) (hg : p.agent = .handling request)
  | answered (hdown : p.down = []) (hup : p.up = [(handle serde signer request).json])
      (hfits : (handle serde signer request).json.length ≤ maxMessage) (hfree : p.agent.Free)
  | lost (hdown : p.down = []) (hup : p.up = []) (hg : p.agent = .exited)

/-- **While the actor goes on, what is on its way is the request in hand or the reply to
it.** -/
def OnCourse : Stage → Request wire → Peer → Prop
  | .sending request, r, p => request = r.bytes ∧ Quiet p
  | .receiving, r, p => p.isOpen = true ∧ InFlight serde signer r.bytes p

end Channel

/-! ### The agent -/

/-- A step of the agent, while the daemon's end is open. -/
inductive AgentMove (serde : Serde) (signer : JwtSigningKey) (p : Peer) : Peer → Prop
  /-- It takes the oldest request. -/
  | taken {d : Bytes} {down : List Bytes} (hg : p.agent = .waiting) (hd : p.down = d :: down) :
      AgentMove serde signer p { p with down := down, agent := agentReceived (.datagram d) }
  /-- It answers. -/
  | answered {request : Bytes} (hg : p.agent = .handling request)
      (hfits : (handle serde signer request).json.length ≤ maxMessage) :
      AgentMove serde signer p
        { p with up := p.up ++ [(handle serde signer request).json], agent := .waiting }
  /-- It waits on, or exits; with a request at hand it exits. -/
  | freed {agent : AgentProc} (hlive : p.agent ≠ .exited) (hfree : agent.Free)
      (hx : p.agent.Free ∨ agent = .exited) :
      AgentMove serde signer p { p with agent := agent }

theorem agentMove_exited (hg : p.agent ≠ .exited) :
    AgentMove serde signer p { p with agent := .exited } :=
  .freed hg (fun _ => AgentProc.noConfusion) (.inr rfl)

theorem Serve.move (h : Serve serde signer p l q) (hopen : p.isOpen = true) :
    AgentMove serde signer p q := by
  cases h with
  | recv hg hk =>
    cases hk with
    | datagram hd => exact .taken hg hd
    | closed _ hpeer => exact absurd hopen hpeer
    | failed errno text =>
      refine .freed (by rw [hg]; exact AgentProc.noConfusion) (agentReceived_failed errno text)
        (.inl ?_)
      rw [hg]
      exact fun _ => AgentProc.noConfusion
  | answer hg ha _ =>
    obtain ⟨rfl, hfits⟩ := eq_of_answerTo ha
    exact .answered hg hfits
  | noAnswer hg _ => exact agentMove_exited (by rw [hg]; exact AgentProc.noConfusion)
  | crash hg => exact agentMove_exited hg

/-- The agent does not touch the daemon's end. -/
theorem Serve.isOpen_eq (h : Serve serde signer p l q) : q.isOpen = p.isOpen := by
  cases h <;> rfl

theorem Quiet.move (h : Quiet p) (hmove : AgentMove serde signer p q) : Quiet q := by
  cases hmove with
  | taken _ hd => cases h.down.symm.trans hd
  | answered hg _ => exact absurd hg (h.free _)
  | freed _ hfree _ => exact ⟨h.isOpen, h.down, h.up, hfree⟩

/-- The request in flight is taken, answered or lost. -/
theorem InFlight.move {request : Bytes} (hlen : request.length ≤ maxMessage)
    (h : InFlight serde signer request p) (hmove : AgentMove serde signer p q) :
    InFlight serde signer request q := by
  cases h with
  | sent hdown hup hfree =>
    cases hmove with
    | taken hg hd =>
      obtain ⟨rfl, rfl⟩ := List.cons.inj (hdown.symm.trans hd)
      rcases agentReceived_datagram hlen with hg' | hg'
      · exact .handled rfl hup hg'
      · exact .lost rfl hup hg'
    | answered hg _ => exact absurd hg (hfree _)
    | freed _ hfree' _ => exact .sent hdown hup hfree'
  | handled hdown hup hg =>
    cases hmove with
    | taken hg' _ => cases hg.symm.trans hg'
    | answered hg' hfits =>
      obtain rfl := AgentProc.handling.inj (hg.symm.trans hg')
      exact .answered hdown (by rw [hup]; rfl) hfits fun _ => AgentProc.noConfusion
    | freed _ _ hx => exact .lost hdown hup (hx.resolve_left fun hfree => hfree _ hg)
  | answered hdown hup hfits hfree =>
    cases hmove with
    | taken _ hd => cases hdown.symm.trans hd
    | answered hg _ => exact absurd hg (hfree _)
    | freed _ hfree' _ => exact .answered hdown hup hfits hfree'
  | lost hdown hup hg =>
    cases hmove with
    | taken hg' _ => cases hg.symm.trans hg'
    | answered hg' _ => cases hg.symm.trans hg'
    | freed hlive _ _ => exact absurd hg hlive

/-! ### The round trip -/

/-- What the actor receives is the reply to the request in hand. -/
theorem InFlight.received {request bytes : Bytes} {r : Recv} {up : List Bytes}
    (hopen : p.isOpen = true) (h : InFlight serde signer request p)
    (hk : Kernel p.up (p.agent ≠ .exited) r up) (hr : received r = some (.ok bytes)) :
    bytes = (handle serde signer request).json ∧ Quiet { p with up := up } := by
  obtain ⟨d, rfl⟩ := datagram_of_received hr
  cases hk with
  | datagram hd =>
    cases h with
    | answered hdown hup hfits hfree =>
      obtain ⟨rfl, rfl⟩ := List.cons.inj (hup.symm.trans hd)
      exact ⟨eq_of_received hfits hr, hopen, hdown, rfl, hfree⟩
    | sent _ hup _ => cases hup.symm.trans hd
    | handled _ hup _ => cases hup.symm.trans hd
    | lost _ hup _ => cases hup.symm.trans hd

/-- **One round trip with an agent that works on nothing.** -/
theorem serves (wire : Wire) (serde : Serde) (signer : JwtSigningKey) :
    Worker.Serves (actor wire serde signer)
      (fun r bytes => bytes = (handle serde signer r.bytes).json) Quiet (OnCourse serde signer)
      (fun p => p.isOpen = false) where
  first r p hp := ⟨rfl, hp⟩
  work stage r p l stage' p' hon hw := by
    cases hw with
    | sent _ _ =>
      obtain ⟨rfl, hq⟩ := hon
      exact ⟨hq.isOpen, .sent (by rw [hq.down]; rfl) hq.up hq.free⟩
    | recvAgain hk hr =>
      obtain ⟨text, rfl⟩ := interrupted_of_received hr
      cases hk with
      | failed _ _ => exact hon
  result stage r p l bytes p' hon hw := by
    cases hw with
    | recv hk hr => exact InFlight.received hon.1 hon.2 hk hr
  alone_rest p l p' hp ha := hp.move (Serve.move ha hp.isOpen)
  alone_on stage r p l p' hon ha := by
    cases stage with
    | sending request => exact ⟨hon.1, hon.2.move (Serve.move ha hon.2.isOpen)⟩
    | receiving =>
      refine ⟨(Serve.isOpen_eq ha).trans hon.1, ?_⟩
      -- the request fits the agent's buffer, so it is not cut
      exact hon.2.move r.eq_json.2 (Serve.move ha hon.1)
  shut _ := rfl
  alone_shut p l p' hp ha := (Serve.isOpen_eq ha).trans hp

end Symbolon.AgentBackend
