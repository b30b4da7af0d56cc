import Symbolon.Lib.Worker
import Symbolon.Providers.Agent

/-!
# The daemon's end of the signing agent

`src/providers/agent_backend.rs`: the calls `sign` and `self_check` of the daemon, the queue
of jobs they fill, the actor thread that takes one job after the other through a round trip
on the socket pair, and at the other end the agent of `Symbolon.Agent`, which answers one
datagram after the other. Calls come and are dropped at any time; every system call of
either process may fail; the agent may die at any moment.

The actor thread is the worker of `Worker`. What it does for a job is `round_trip`
(`Symbolon.AgentBackend.RoundTrip`), its device is the socket pair with the agent's process
(`Symbolon.AgentBackend.Peer`), and when it stops it closes its socket and waits for the process
to exit.

A datagram carries no mark of whose it is, so a reply finds its call by order alone. What
keeps the order is that the actor never has more than one request out, and gives up at the
first failure instead of going on with a reply still to come. That this is enough is shown in
`Symbolon.Providers.AgentBackend.CrossTalk`.
-/

namespace Symbolon.AgentBackend

open Text Agent

/-! ### The calls -/

/-- `JwtBackendError`, as far as this backend raises it. -/
inductive BackendError
  /-- `BackendDead`. -/
  | backendDead
  /-- `Io`. -/
  | io (message : Str)
  /-- `Protocol`. -/
  | protocol (message : Str)
  /-- `Rejected`. -/
  | rejected (message : Str)
  deriving DecidableEq

/-- The two methods of the backend. -/
inductive Call
  /-- `sign`. -/
  | sign (claims : JwtClaims)
  /-- `self_check`. -/
  | selfCheck
  deriving DecidableEq

/-- What a call is good for. -/
inductive Answer
  /-- The token. -/
  | token (jwt : Str)
  /-- The agent is there. -/
  | alive
  deriving DecidableEq

/-- The request a call makes. -/
def Call.request : Call → AgentRequest
  | .sign claims => .signJwt claims
  | .selfCheck => .ping

/-- What a call makes of a response. -/
def Call.interpret : Call → AgentResponse → Except BackendError Answer
  | .sign _, .jwt token => .ok (.token token)
  | .sign _, .error message => .error (.rejected message)
  | .sign _, .pong =>
    .error (.protocol (.ofAscii (ascii "expected Jwt, got Pong") (by decide)))
  | .selfCheck, .pong => .ok .alive
  | .selfCheck, .error message => .error (.rejected message)
  | .selfCheck, .jwt _ =>
    .error (.protocol (.ofAscii (ascii "expected Pong, got Jwt") (by decide)))

/-- What `serde_json` does for the daemon: it writes requests, in the one way it has, or
refuses to; it reads responses, some way, and those it has written itself. -/
structure Wire where
  /-- `serde_json::to_vec` of a request. -/
  toVec : AgentRequest → Except Str Bytes
  /-- `serde_json::from_slice` of a response. -/
  fromSlice : Bytes → Except Str AgentResponse
  /-- What is written is the JSON of the request. -/
  eq_json_of_toVec : ∀ request bytes, toVec request = .ok bytes → bytes = request.json
  /-- A response is read back. -/
  fromSlice_json : ∀ response, fromSlice (AgentResponse.json response) = .ok response

/-- What a call makes of the datagram that it is handed. -/
def Call.finish (wire : Wire) (call : Call) (bytes : Bytes) : Except BackendError Answer :=
  match decode wire.fromSlice bytes with
  | .error e => .error (.protocol e)
  | .ok response => call.interpret response

/-- **A call with its datagram.** -/
structure Request (wire : Wire) where
  /-- The call. -/
  call : Call
  /-- The datagram. -/
  bytes : Bytes
  /-- It is what `encode` makes of the request. -/
  encoded : encode wire.toVec call.request = .ok bytes

/-- What a call does before there is a job for it. -/
def Call.prepare (wire : Wire) (call : Call) : Except BackendError (Request wire) :=
  match h : encode wire.toVec call.request with
  | .error e => .error (.protocol e)
  | .ok bytes => .ok ⟨call, bytes, h⟩

/-! ### The socket pair and the agent -/

/-- Where the agent's process is. -/
inductive AgentProc
  /-- It waits for a datagram. -/
  | waiting
  /-- It works on one. -/
  | handling (request : Bytes)
  /-- It has exited. -/
  | exited
  deriving DecidableEq

/-- **The socket pair, and the agent at the other end.** -/
structure Peer where
  /-- The datagrams on their way to the agent. -/
  down : List Bytes
  /-- The datagrams on their way back. -/
  up : List Bytes
  /-- The daemon's end is open. -/
  isOpen : Bool
  /-- The agent. -/
  agent : AgentProc

/-- Nothing has happened. -/
def Peer.fresh : Peer := ⟨[], [], true, .waiting⟩

/-- Where `round_trip` is. -/
inductive Stage
  /-- It sends the request. -/
  | sending (request : Bytes)
  /-- It waits for the reply. -/
  | receiving
  deriving DecidableEq

/-- The system calls of the two processes. -/
inductive Syscall
  /-- The actor's `send`. -/
  | send (syscall : Bytes → Except Str ℕ)
  /-- The actor's `recv`. -/
  | recv (r : Recv)
  /-- The agent's `recv`. -/
  | agentRecv (r : Recv)
  /-- The agent answers. -/
  | agentSend (syscall : Bytes → Except Str ℕ)
  /-- The agent dies. -/
  | crash

/-- What the kernel can give to a `recv`: the oldest datagram; the end, when there is none and
the other side is closed; or a failure. -/
inductive Kernel (inbox : List Bytes) (peerOpen : Prop) : Recv → List Bytes → Prop
  /-- The oldest datagram. -/
  | datagram {d : Bytes} {rest : List Bytes} (h : inbox = d :: rest) :
      Kernel inbox peerOpen (.datagram d) rest
  /-- The other side is closed. -/
  | closed (h : inbox = []) (hpeer : ¬peerOpen) : Kernel inbox peerOpen .closed []
  /-- A failure. -/
  | failed (errno : ℕ) (text : Str) : Kernel inbox peerOpen (.failed errno text) inbox

theorem all_ascii_recv : (ascii "recv: ").all (· < 0x80) = true := by decide

/-- What a `recv` is to `round_trip`: its result, or a reason to try again. -/
def received (r : Recv) : Option (Except BackendError Bytes) :=
  match Agent.recv r with
  | .error (errno, text) =>
    if errno = eintr then none
    else some (.error (.io (.ofAscii (ascii "recv: ") all_ascii_recv ++ text)))
  | .ok [] => some (.error .backendDead)
  | .ok bytes => some (.ok bytes)

/-- What a `recv` is to the serve loop. -/
def agentReceived (r : Recv) : AgentProc :=
  match Agent.recv r with
  | .error (errno, _) => if errno = eintr then .waiting else .exited
  | .ok [] => .exited
  | .ok bytes => .handling bytes

section Machine

variable (wire : Wire) (serde : Serde) (signer : JwtSigningKey)

/-- The datagram that answers a request, if it was sent. -/
def answerTo (syscall : Bytes → Except Str ℕ) (request : Bytes) : Option Bytes :=
  match encode serde.toVecResponse (handle serde signer request) with
  | .error _ => none
  | .ok reply =>
    match Agent.send syscall reply with
    | .error _ => none
    | .ok () => some reply

/-- **`round_trip`.** -/
inductive RoundTrip (p : Peer) :
    Stage → Syscall → Stage ⊕ Except BackendError Bytes → Peer → Prop
  /-- The request is sent, as a whole. -/
  | sent {request : Bytes} {syscall : Bytes → Except Str ℕ}
      (hs : Agent.send syscall request = .ok ()) (hpeer : p.agent ≠ .exited) :
      RoundTrip p (.sending request) (.send syscall) (.inl .receiving)
        { p with down := p.down ++ [request] }
  /-- The request is not sent. -/
  | sendFailed {request : Bytes} {syscall : Bytes → Except Str ℕ} {e : Str}
      (hs : Agent.send syscall request = .error e) :
      RoundTrip p (.sending request) (.send syscall) (.inr (.error (.io e))) p
  /-- The `recv` has a result. -/
  | recv {r : Recv} {up : List Bytes} {result : Except BackendError Bytes}
      (hk : Kernel p.up (p.agent ≠ .exited) r up) (hr : received r = some result) :
      RoundTrip p .receiving (.recv r) (.inr result) { p with up := up }
  /-- The `recv` was interrupted. -/
  | recvAgain {r : Recv} {up : List Bytes} (hk : Kernel p.up (p.agent ≠ .exited) r up)
      (hr : received r = none) :
      RoundTrip p .receiving (.recv r) (.inl .receiving) { p with up := up }

/-- **The agent's process.** -/
inductive Serve (p : Peer) : Syscall → Peer → Prop
  /-- Its `recv`. -/
  | recv {r : Recv} {down : List Bytes} (hg : p.agent = .waiting)
      (hk : Kernel p.down (p.isOpen = true) r down) :
      Serve p (.agentRecv r) { p with down := down, agent := agentReceived r }
  /-- It answers. -/
  | answer {request reply : Bytes} {syscall : Bytes → Except Str ℕ}
      (hg : p.agent = .handling request)
      (ha : answerTo serde signer syscall request = some reply) (hopen : p.isOpen = true) :
      Serve p (.agentSend syscall) { p with up := p.up ++ [reply], agent := .waiting }
  /-- It cannot answer, and exits. -/
  | noAnswer {request : Bytes} {syscall : Bytes → Except Str ℕ}
      (hg : p.agent = .handling request)
      (ha : answerTo serde signer syscall request = none) :
      Serve p (.agentSend syscall) { p with agent := .exited }
  /-- It dies. -/
  | crash (hg : p.agent ≠ .exited) : Serve p .crash { p with agent := .exited }

/-- **The calls and the actor thread.** -/
def actor :
    Worker.Service Call (Request wire) Bytes Answer BackendError Stage Peer Syscall where
  dead := .backendDead
  prepare := Call.prepare wire
  finish r bytes := r.call.finish wire bytes
  first r := .sending r.bytes
  work stage p l x p' := RoundTrip p stage l x p'
  alone p l p' := Serve serde signer p l p'
  shut p := { p with isOpen := false }
  Released p := p.agent = .exited

/-- The calls, the actor thread and the agent. -/
abbrev State :=
  Worker.State Call (Request wire) Bytes Answer BackendError Stage Peer

/-- The backend has been started. -/
def start : State wire := .init .fresh

end Machine

variable {wire : Wire} {serde : Serde} {signer : JwtSigningKey}

/-- A call has a job exactly for its own datagram. -/
theorem prepare_eq_ok {call : Call} {r : Request wire} (h : call.prepare wire = .ok r) :
    r.call = call := by
  unfold Call.prepare at h
  split at h
  · cases h
  · cases h
    rfl

/-- What answers a request is what `handle` makes of it, and fits. -/
theorem eq_of_answerTo {syscall : Bytes → Except Str ℕ} {request reply : Bytes}
    (h : answerTo serde signer syscall request = some reply) :
    reply = (handle serde signer request).json ∧ reply.length ≤ maxMessage := by
  unfold answerTo at h
  split at h
  · cases h
  · rename_i reply' henc
    obtain ⟨hfits, rfl⟩ := encode_eq_ok_iff.mp henc
    split at h
    · cases h
    · obtain rfl := Option.some.inj h
      exact ⟨rfl, hfits⟩

/-- A request that is made is the JSON of the call's, and fits. -/
theorem Request.eq_json (r : Request wire) :
    r.bytes = r.call.request.json ∧ r.bytes.length ≤ maxMessage := by
  have h := r.encoded
  unfold encode at h
  split at h
  · cases h
  · rename_i bytes' hvec
    split at h
    · cases h
    · rename_i hfits
      cases h
      exact ⟨wire.eq_json_of_toVec _ _ hvec, Nat.not_lt.mp hfits⟩

theorem agentReceived_datagram {request : Bytes} (hfits : request.length ≤ maxMessage) :
    agentReceived (.datagram request) = .handling request ∨
      agentReceived (.datagram request) = .exited := by
  simp only [agentReceived, recv_datagram hfits]
  cases request with
  | nil => exact .inr rfl
  | cons b bs => exact .inl rfl

theorem agentReceived_failed (errno : ℕ) (text : Str) (request : Bytes) :
    agentReceived (.failed errno text) ≠ .handling request := by
  simp only [agentReceived, Agent.recv]
  split <;> simp

/-- What `round_trip` receives as a reply was sent as one. -/
theorem eq_of_received {d bytes : Bytes} (hfits : d.length ≤ maxMessage)
    (h : received (.datagram d) = some (.ok bytes)) : bytes = d := by
  simp only [received, recv_datagram hfits] at h
  cases d with
  | nil => cases h
  | cons b bs => exact (Except.ok.inj (Option.some.inj h)).symm

/-- Only a datagram is a reply. -/
theorem datagram_of_received {r : Recv} {bytes : Bytes} (h : received r = some (.ok bytes)) :
    ∃ d, r = .datagram d := by
  cases r with
  | datagram d => exact ⟨d, rfl⟩
  | closed => cases h
  | failed errno text =>
    simp only [received, Agent.recv] at h
    split at h <;> cases h

/-- Only a signal is a reason to try again. -/
theorem interrupted_of_received {r : Recv} (h : received r = none) :
    ∃ text, r = .failed eintr text := by
  cases r with
  | datagram d =>
    simp only [received, Agent.recv] at h
    cases hd : d.take maxMessage with
    | nil => simp [hd] at h
    | cons b bs => simp [hd] at h
  | closed => cases h
  | failed errno text =>
    by_cases heintr : errno = eintr
    · exact ⟨text, by rw [heintr]⟩
    · simp [received, Agent.recv, heintr] at h

end Symbolon.AgentBackend
