import Symbolon.Transport.Wire

/-!
# The session state machines

`Responder` and `Initiator` of `src/transport.rs`: the two sides of one session – the
handshake message with the identity, the choice of the key, the second handshake
message, one request and one response – as state machines that are told what arrived and
say what to do next (`Symbolon.SessionStep`). The driver does the I/O.

The Noise implementation is a third-party crate and enters as `Symbolon.Snow`: opaque
handshake and transport states with the entry points the session uses. A handshake
message draws an ephemeral key, so writing one takes the randomness it draws. Nothing is
assumed of these functions here; what a result needs of them, it says.

Every method of the source takes the state out, leaves `Failed` in its place, and puts a
new state back on success. So a method here returns the new state with its result, and
each of its error paths leaves `failed`, but for a call in a state it is not meant for,
which leaves the state as it was.
-/

namespace Symbolon

open Text

/-- **The Noise implementation**, by its entry points. -/
structure Snow where
  /-- `HandshakeState`. -/
  Hs : Type
  /-- `TransportState`. -/
  Ts : Type
  /-- `snow::Error`. -/
  Err : Type
  /-- The randomness a handshake message draws for its ephemeral key. -/
  Seed : Type
  /-- `Builder::build_responder`, with the broker's private key. -/
  buildResponder : BrokerPrivateKey → Except Err Hs
  /-- `Builder::build_initiator`, with the client's key in the PSK slot and the broker's
  public key. -/
  buildInitiator : Psk → BrokerPublicKey → Except Err Hs
  /-- `HandshakeState::read_message`: the payload of a handshake message. -/
  readMessage : Hs → Bytes → Except Err (Bytes × Hs)
  /-- `HandshakeState::write_message`: the next handshake message, around a payload. -/
  writeMessage : Hs → Seed → Bytes → Except Err (Bytes × Hs)
  /-- `HandshakeState::set_psk`. -/
  setPsk : Hs → ℕ → Psk → Except Err Hs
  /-- `HandshakeState::into_transport_mode`. -/
  intoTransportMode : Hs → Except Err Ts
  /-- `TransportState::read_message`: decrypt. -/
  readTransport : Ts → Bytes → Except Err (Bytes × Ts)
  /-- `TransportState::write_message`: encrypt. -/
  writeTransport : Ts → Bytes → Except Err (Bytes × Ts)

/-- The PSK slot of the handshake pattern. -/
def pskSlot : ℕ := 2

/-- What the driver has to do before it asks again. -/
inductive SessionStep
  /-- Read exactly `n` bytes. -/
  | readExact (n : ℕ)
  /-- Look up the key of this identity. -/
  | needPsk (identity : Identity)
  /-- Write these bytes. -/
  | write (bytes : Bytes)
  /-- Process this request. -/
  | request (plaintext : Bytes)
  /-- Close. -/
  | done
  deriving DecidableEq

/-- The phase of the protocol, for the log. -/
inductive Phase
  /-- Waiting for the first handshake message. -/
  | msg1
  /-- Waiting for the key. -/
  | awaitingPsk
  /-- The second handshake message is under way. -/
  | handshake
  /-- The handshake is over. -/
  | transport
  /-- The session is over. -/
  | done
  deriving DecidableEq

/-- Why a session fails. -/
inductive SessionError (ε : Type)
  /-- The TLV has the wrong magic. -/
  | tlvBadMagic (got : Bytes)
  /-- The TLV has the wrong version. -/
  | tlvBadVersion (got : UInt8)
  /-- The TLV declares an impossible length. -/
  | tlvBadIdentityLen (got : UInt8)
  /-- The TLV has a byte outside the charset. -/
  | tlvInvalidCharset (offset : ℕ) (byte : UInt8)
  /-- The payload goes on after the TLV. -/
  | tlvTrailingBytes (extra : ℕ)
  /-- The payload ends inside the TLV. -/
  | tlvIncomplete (needed : ℕ)
  /-- A handshake message could not be read. -/
  | handshakeRead (source : ε)
  /-- A handshake message could not be written. -/
  | handshakeWrite (source : ε)
  /-- The handshake could not be finished. -/
  | intoTransport (source : ε)
  /-- A transport message could not be decrypted. -/
  | transportRead (source : ε)
  /-- A transport message could not be encrypted. -/
  | transportWrite (source : ε)
  /-- A message is too long for a frame. -/
  | frameTooBig (got : ℕ)
  /-- The driver did not deliver what it was asked for. -/
  | recvLen (expected got : ℕ)
  /-- A method was called in the wrong state. -/
  | wrongState (method state : String)
  deriving DecidableEq

/-- The lift of a TLV error. -/
def SessionError.ofTlv {ε : Type} : TlvError → SessionError ε
  | .incomplete needed => .tlvIncomplete needed
  | .badMagic got => .tlvBadMagic got
  | .badVersion got => .tlvBadVersion got
  | .badIdentityLen got => .tlvBadIdentityLen got
  | .invalidCharset offset byte => .tlvInvalidCharset offset byte

/-- The two bytes of a frame length, if that is what was received. -/
def recvFrameLength {ε : Type} : Bytes → Except (SessionError ε) ℕ
  | [b₀, b₁] =>
    match readFrameLength b₀ b₁ with
    | some len => .ok len
    | none => .error (.frameTooBig (256 * b₀.toNat + b₁.toNat))
  | bytes => .error (.recvLen 2 bytes.length)

/-! ### The responder -/

variable (S : Snow)

/-- The states of the responder. -/
inductive RState
  /-- The session has failed. -/
  | failed
  /-- The identity is known; ask for its key. -/
  | needPsk (hs : S.Hs) (identity : Identity)
  /-- The key has been asked for. -/
  | awaitingPsk (hs : S.Hs)
  /-- The initial state: ask for the length of the first message. -/
  | wantHsLen (hs : S.Hs)
  /-- Ask for the first message. -/
  | wantHsBody (hs : S.Hs) (bodyLen : ℕ)
  /-- The second message is ready. -/
  | writeHs (hs : S.Hs) (out : Bytes)
  /-- The driver has the second message. -/
  | wroteHsPending (hs : S.Hs)
  /-- Ask for the length of the request. -/
  | wantReqLen (ts : S.Ts)
  /-- Ask for the request. -/
  | wantReqBody (ts : S.Ts) (bodyLen : ℕ)
  /-- The request is decrypted. -/
  | haveRequest (ts : S.Ts) (plaintext : Bytes)
  /-- The driver has the request. -/
  | awaitingResponse (ts : S.Ts)
  /-- The response is ready. -/
  | writeResp (out : Bytes)
  /-- The driver has the response. -/
  | wroteRespPending
  /-- The session is complete. -/
  | done

variable {S}

namespace RState

/-- The name of a state, in errors. -/
def name : RState S → String
  | failed => "failed"
  | needPsk .. => "need_psk"
  | awaitingPsk .. => "awaiting_psk"
  | wantHsLen .. => "want_hs_len"
  | wantHsBody .. => "want_hs_body"
  | writeHs .. => "write_hs"
  | wroteHsPending .. => "wrote_hs_pending"
  | wantReqLen .. => "want_req_len"
  | wantReqBody .. => "want_req_body"
  | haveRequest .. => "have_request"
  | awaitingResponse .. => "awaiting_response"
  | writeResp .. => "write_resp"
  | wroteRespPending => "wrote_resp_pending"
  | done => "done"

/-- The phase of a state. -/
def phase : RState S → Phase
  | wantHsLen .. | wantHsBody .. => .msg1
  | needPsk .. | awaitingPsk .. => .awaitingPsk
  | writeHs .. | wroteHsPending .. => .handshake
  | wantReqLen .. | wantReqBody .. | haveRequest .. | awaitingResponse .. | writeResp ..
  | wroteRespPending => .transport
  | done | failed => .done

end RState

namespace Responder

variable (S) in
/-- Build a responder around the broker's private key. -/
def new (brokerKey : BrokerPrivateKey) : Except (SessionError S.Err) (RState S) :=
  match S.buildResponder brokerKey with
  | .error e => .error (.handshakeRead e)
  | .ok hs => .ok (.wantHsLen hs)

/-- What the session wants next. -/
def step (s : RState S) : RState S × Except (SessionError S.Err) SessionStep :=
  match s with
  | .needPsk hs identity => (.awaitingPsk hs, .ok (.needPsk identity))
  | .wantHsLen hs => (.wantHsLen hs, .ok (.readExact 2))
  | .wantHsBody hs bodyLen => (.wantHsBody hs bodyLen, .ok (.readExact bodyLen))
  | .writeHs hs out => (.wroteHsPending hs, .ok (.write out))
  | .wantReqLen ts => (.wantReqLen ts, .ok (.readExact 2))
  | .wantReqBody ts bodyLen => (.wantReqBody ts bodyLen, .ok (.readExact bodyLen))
  | .haveRequest ts plaintext => (.awaitingResponse ts, .ok (.request plaintext))
  | .writeResp out => (.wroteRespPending, .ok (.write out))
  | .done => (.done, .ok .done)
  | .failed | .awaitingPsk _ | .wroteHsPending _ | .awaitingResponse _ | .wroteRespPending =>
    (s, .error (.wrongState "step" s.name))

/-- Decrypt the first handshake message: its payload is exactly one identity TLV. -/
def readMsg1 (hs : S.Hs) (bytes : Bytes) : Except (SessionError S.Err) (S.Hs × Identity) :=
  match S.readMessage hs bytes with
  | .error e => .error (.handshakeRead e)
  | .ok (payload, hs) =>
    match parseIdentityTlv payload with
    | .error e => .error (.ofTlv e)
    | .ok (identity, consumed) =>
      if consumed ≠ payload.length then .error (.tlvTrailingBytes (payload.length - consumed))
      else .ok (hs, identity)

/-- Feed the bytes asked for by the last `readExact`. -/
def recv (s : RState S) (bytes : Bytes) : RState S × Except (SessionError S.Err) Unit :=
  match s with
  | .wantHsLen hs =>
    match recvFrameLength bytes with
    | .error e => (.failed, .error e)
    | .ok bodyLen => (.wantHsBody hs bodyLen, .ok ())
  | .wantHsBody hs bodyLen =>
    if bodyLen ≠ bytes.length then (.failed, .error (.recvLen bodyLen bytes.length))
    else match readMsg1 hs bytes with
      | .error e => (.failed, .error e)
      | .ok (hs, identity) => (.needPsk hs identity, .ok ())
  | .wantReqLen ts =>
    match recvFrameLength bytes with
    | .error e => (.failed, .error e)
    | .ok bodyLen => (.wantReqBody ts bodyLen, .ok ())
  | .wantReqBody ts bodyLen =>
    if bodyLen ≠ bytes.length then (.failed, .error (.recvLen bodyLen bytes.length))
    else match S.readTransport ts bytes with
      | .error e => (.failed, .error (.transportRead e))
      | .ok (plaintext, ts) => (.haveRequest ts plaintext, .ok ())
  | other => (other, .error (.wrongState "recv" s.name))

/-- The second handshake message: the key goes into its slot, and the message is framed. -/
def writeMsg2 (hs : S.Hs) (psk : Psk) (seed : S.Seed) :
    Except (SessionError S.Err) (S.Hs × Bytes) :=
  match S.setPsk hs pskSlot psk with
  | .error e => .error (.handshakeWrite e)
  | .ok hs =>
    match S.writeMessage hs seed [] with
    | .error e => .error (.handshakeWrite e)
    | .ok (msg, hs) =>
      match frame msg with
      | none => .error (.frameTooBig msg.length)
      | some out => .ok (hs, out)

/-- Provide the key asked for by `needPsk`. -/
def setPsk (s : RState S) (psk : Psk) (seed : S.Seed) :
    RState S × Except (SessionError S.Err) Unit :=
  match s with
  | .awaitingPsk hs =>
    match writeMsg2 hs psk seed with
    | .error e => (.failed, .error e)
    | .ok (hs, out) => (.writeHs hs out, .ok ())
  | other => (other, .error (.wrongState "set_psk" s.name))

/-- Acknowledge that the bytes of the last `write` are on the wire. -/
def wrote (s : RState S) : RState S × Except (SessionError S.Err) Unit :=
  match s with
  | .wroteHsPending hs =>
    match S.intoTransportMode hs with
    | .error e => (.failed, .error (.intoTransport e))
    | .ok ts => (.wantReqLen ts, .ok ())
  | .wroteRespPending => (.done, .ok ())
  | other => (other, .error (.wrongState "wrote" s.name))

/-- Encrypt a transport message and frame it. -/
def encrypt (ts : S.Ts) (plaintext : Bytes) : Except (SessionError S.Err) (S.Ts × Bytes) :=
  match S.writeTransport ts plaintext with
  | .error e => .error (.transportWrite e)
  | .ok (msg, ts) =>
    match frame msg with
    | none => .error (.frameTooBig msg.length)
    | some out => .ok (ts, out)

/-- Provide the response. -/
def setResponse (s : RState S) (plaintext : Bytes) : RState S × Except (SessionError S.Err) Unit :=
  match s with
  | .awaitingResponse ts =>
    match encrypt ts plaintext with
    | .error e => (.failed, .error e)
    | .ok (_, out) => (.writeResp out, .ok ())
  | other => (other, .error (.wrongState "set_response" s.name))

end Responder

/-! ### The initiator -/

variable (S) in
/-- The states of the initiator. -/
inductive IState
  /-- The session has failed. -/
  | failed
  /-- The first message is ready. -/
  | writeHs1 (hs : S.Hs) (msg1 request : Bytes)
  /-- The driver has the first message. -/
  | wroteHs1Pending (hs : S.Hs) (request : Bytes)
  /-- Ask for the length of the second message. -/
  | wantHs2Len (hs : S.Hs) (request : Bytes)
  /-- Ask for the second message. -/
  | wantHs2Body (hs : S.Hs) (bodyLen : ℕ) (request : Bytes)
  /-- The request is ready. -/
  | writeReq (ts : S.Ts) (out : Bytes)
  /-- The driver has the request. -/
  | wroteReqPending (ts : S.Ts)
  /-- Ask for the length of the response. -/
  | wantRespLen (ts : S.Ts)
  /-- Ask for the response. -/
  | wantRespBody (ts : S.Ts) (bodyLen : ℕ)
  /-- The response is decrypted. -/
  | done (plaintext : Bytes)
  /-- The response has been taken. -/
  | drained

namespace IState

/-- The name of a state, in errors. -/
def name : IState S → String
  | failed => "failed"
  | writeHs1 .. => "write_hs1"
  | wroteHs1Pending .. => "wrote_hs1_pending"
  | wantHs2Len .. => "want_hs2_len"
  | wantHs2Body .. => "want_hs2_body"
  | writeReq .. => "write_req"
  | wroteReqPending .. => "wrote_req_pending"
  | wantRespLen .. => "want_resp_len"
  | wantRespBody .. => "want_resp_body"
  | done .. => "done"
  | drained => "drained"

/-- The phase of a state. -/
def phase : IState S → Phase
  | writeHs1 .. | wroteHs1Pending .. => .msg1
  | wantHs2Len .. | wantHs2Body .. => .handshake
  | writeReq .. | wroteReqPending .. | wantRespLen .. | wantRespBody .. => .transport
  | done .. | drained | failed => .done

end IState

namespace Initiator

/-- The first handshake message, framed. -/
def writeMsg1 (hs : S.Hs) (seed : S.Seed) (identity : Identity) :
    Except (SessionError S.Err) (S.Hs × Bytes) :=
  match S.writeMessage hs seed (encodeIdentityTlv identity) with
  | .error e => .error (.handshakeWrite e)
  | .ok (msg, hs) =>
    match frame msg with
    | none => .error (.frameTooBig msg.length)
    | some out => .ok (hs, out)

variable (S) in
/-- Build an initiator; the first message is computed at once. -/
def new (identity : Identity) (psk : Psk) (brokerPub : BrokerPublicKey) (request : Bytes)
    (seed : S.Seed) : Except (SessionError S.Err) (IState S) :=
  match S.buildInitiator psk brokerPub with
  | .error e => .error (.handshakeRead e)
  | .ok hs =>
    match writeMsg1 hs seed identity with
    | .error e => .error e
    | .ok (hs, msg1) => .ok (.writeHs1 hs msg1 request)

/-- What the session wants next. -/
def step (s : IState S) : IState S × Except (SessionError S.Err) SessionStep :=
  match s with
  | .writeHs1 hs msg1 request => (.wroteHs1Pending hs request, .ok (.write msg1))
  | .wantHs2Len hs request => (.wantHs2Len hs request, .ok (.readExact 2))
  | .wantHs2Body hs bodyLen request => (.wantHs2Body hs bodyLen request, .ok (.readExact bodyLen))
  | .writeReq ts out => (.wroteReqPending ts, .ok (.write out))
  | .wantRespLen ts => (.wantRespLen ts, .ok (.readExact 2))
  | .wantRespBody ts bodyLen => (.wantRespBody ts bodyLen, .ok (.readExact bodyLen))
  | .done plaintext => (.done plaintext, .ok .done)
  | other => (other, .error (.wrongState "step" s.name))

/-- Read the second handshake message and encrypt the request. -/
def finish (hs : S.Hs) (bytes request : Bytes) : Except (SessionError S.Err) (S.Ts × Bytes) :=
  match S.readMessage hs bytes with
  | .error e => .error (.handshakeRead e)
  | .ok (_, hs) =>
    match S.intoTransportMode hs with
    | .error e => .error (.intoTransport e)
    | .ok ts => Responder.encrypt ts request

/-- Feed the bytes asked for by the last `readExact`. -/
def recv (s : IState S) (bytes : Bytes) : IState S × Except (SessionError S.Err) Unit :=
  match s with
  | .wantHs2Len hs request =>
    match recvFrameLength bytes with
    | .error e => (.failed, .error e)
    | .ok bodyLen => (.wantHs2Body hs bodyLen request, .ok ())
  | .wantHs2Body hs bodyLen request =>
    if bodyLen ≠ bytes.length then (.failed, .error (.recvLen bodyLen bytes.length))
    else match finish hs bytes request with
      | .error e => (.failed, .error e)
      | .ok (ts, out) => (.writeReq ts out, .ok ())
  | .wantRespLen ts =>
    match recvFrameLength bytes with
    | .error e => (.failed, .error e)
    | .ok bodyLen => (.wantRespBody ts bodyLen, .ok ())
  | .wantRespBody ts bodyLen =>
    if bodyLen ≠ bytes.length then (.failed, .error (.recvLen bodyLen bytes.length))
    else match S.readTransport ts bytes with
      | .error e => (.failed, .error (.transportRead e))
      | .ok (plaintext, _) => (.done plaintext, .ok ())
  | other => (other, .error (.wrongState "recv" s.name))

/-- Acknowledge that the bytes of the last `write` are on the wire. -/
def wrote (s : IState S) : IState S × Except (SessionError S.Err) Unit :=
  match s with
  | .wroteHs1Pending hs request => (.wantHs2Len hs request, .ok ())
  | .wroteReqPending ts => (.wantRespLen ts, .ok ())
  | other => (other, .error (.wrongState "wrote" s.name))

/-- Take the response out. -/
def takeResponse (s : IState S) : IState S × Except (SessionError S.Err) Bytes :=
  match s with
  | .done plaintext => (.drained, .ok plaintext)
  | other => (other, .error (.wrongState "take_response" s.name))

end Initiator

/-! ### What the responder's calls come to when they succeed -/

namespace Responder

variable {hs hs' : S.Hs} {ts : S.Ts} {bytes : Bytes} {identity : Identity}

/-- The first message is accepted exactly when its payload is one identity TLV. -/
theorem readMsg1_eq_ok_iff :
    readMsg1 hs bytes = .ok (hs', identity) ↔
      S.readMessage hs bytes = .ok (encodeIdentityTlv identity, hs') := by
  rcases hr : S.readMessage hs bytes with e | ⟨payload, hs₁⟩
  · simp [readMsg1, hr]
  · rcases hp : parseIdentityTlv payload with e | ⟨id, consumed⟩
    · have hne : payload ≠ encodeIdentityTlv identity := fun h => by
        rw [parseIdentityTlv_eq_length_iff.mpr h] at hp
        cases hp
      simp [readMsg1, hr, hp, hne]
    · by_cases hc : consumed = payload.length
      · have hiff : payload = encodeIdentityTlv identity ↔ id = identity := by
          rw [← parseIdentityTlv_eq_length_iff, hp, hc]
          simp
        simp [readMsg1, hr, hp, hc, hiff, and_comm]
      · have hne : payload ≠ encodeIdentityTlv identity := fun h => by
          rw [parseIdentityTlv_eq_length_iff.mpr h] at hp
          cases hp
          exact hc rfl
        simp [readMsg1, hr, hp, hc, hne]

/-- What the second message is made of. -/
theorem writeMsg2_eq_ok_iff {psk : Psk} {seed : S.Seed} {out : Bytes} :
    writeMsg2 hs psk seed = .ok (hs', out) ↔
      ∃ hs₂ msg, S.setPsk hs pskSlot psk = .ok hs₂ ∧ S.writeMessage hs₂ seed [] = .ok (msg, hs') ∧
        frame msg = some out := by
  rcases hp : S.setPsk hs pskSlot psk with e | hs₂
  · simp [writeMsg2, hp]
  · rcases hw : S.writeMessage hs₂ seed [] with e | ⟨msg, hs₃⟩
    · simp [writeMsg2, hp, hw]
    · rcases hf : frame msg with - | out'
      · simp only [writeMsg2, hp, hw, hf, reduceCtorEq, Except.ok.injEq, false_iff]
        rintro ⟨_, _, rfl, h, hf'⟩
        rw [hw] at h
        cases h
        rw [hf] at hf'
        cases hf'
      · simp only [writeMsg2, hp, hw, hf, Except.ok.injEq, Prod.mk.injEq]
        constructor
        · rintro ⟨rfl, rfl⟩
          exact ⟨hs₂, msg, rfl, hw, hf⟩
        · rintro ⟨_, _, rfl, h, hf'⟩
          rw [hw] at h
          cases h
          rw [hf] at hf'
          cases hf'
          exact ⟨rfl, rfl⟩

variable {sess : RState S}

theorem recv_wantHsLen (h : recv (.wantHsLen hs) bytes = (sess, .ok ())) :
    ∃ n, recvFrameLength (ε := S.Err) bytes = .ok n ∧ sess = .wantHsBody hs n := by
  simp only [recv] at h
  split at h
  · cases h
  · rename_i n hlen
    cases h
    exact ⟨n, hlen, rfl⟩

theorem recv_wantReqLen (h : recv (.wantReqLen ts) bytes = (sess, .ok ())) :
    ∃ n, recvFrameLength (ε := S.Err) bytes = .ok n ∧ sess = .wantReqBody ts n := by
  simp only [recv] at h
  split at h
  · cases h
  · rename_i n hlen
    cases h
    exact ⟨n, hlen, rfl⟩

theorem recv_wantHsBody {n : ℕ} (h : recv (.wantHsBody hs n) bytes = (sess, .ok ())) :
    ∃ hs' identity, S.readMessage hs bytes = .ok (encodeIdentityTlv identity, hs') ∧
      sess = .needPsk hs' identity := by
  simp only [recv] at h
  split at h
  · cases h
  · split at h
    · cases h
    · rename_i hs' identity hr
      cases h
      exact ⟨hs', identity, readMsg1_eq_ok_iff.mp hr, rfl⟩

theorem recv_wantReqBody {n : ℕ} (h : recv (.wantReqBody ts n) bytes = (sess, .ok ())) :
    ∃ plaintext ts', S.readTransport ts bytes = .ok (plaintext, ts') ∧
      sess = .haveRequest ts' plaintext := by
  simp only [recv] at h
  split at h
  · cases h
  · split at h
    · cases h
    · rename_i plaintext ts' hr
      cases h
      exact ⟨plaintext, ts', hr, rfl⟩

theorem setPsk_awaitingPsk {psk : Psk} {seed : S.Seed}
    (h : setPsk (.awaitingPsk hs) psk seed = (sess, .ok ())) :
    ∃ hs₂ hs₃ msg out, S.setPsk hs pskSlot psk = .ok hs₂ ∧
      S.writeMessage hs₂ seed [] = .ok (msg, hs₃) ∧ frame msg = some out ∧
      sess = .writeHs hs₃ out := by
  simp only [setPsk] at h
  split at h
  · cases h
  · rename_i hs₃ out hw
    cases h
    obtain ⟨hs₂, msg, hp, hwm, hf⟩ := writeMsg2_eq_ok_iff.mp hw
    exact ⟨hs₂, hs₃, msg, out, hp, hwm, hf, rfl⟩

theorem wrote_wroteHsPending (h : wrote (.wroteHsPending hs) = (sess, .ok ())) :
    ∃ ts, S.intoTransportMode hs = .ok ts ∧ sess = .wantReqLen ts := by
  simp only [wrote] at h
  split at h
  · cases h
  · rename_i ts ht
    cases h
    exact ⟨ts, ht, rfl⟩

theorem setResponse_awaitingResponse {plaintext : Bytes}
    (h : setResponse (.awaitingResponse ts) plaintext = (sess, .ok ())) :
    ∃ ts' out, encrypt ts plaintext = .ok (ts', out) ∧ sess = .writeResp out := by
  simp only [setResponse] at h
  split at h
  · cases h
  · rename_i ts' out he
    cases h
    exact ⟨ts', out, he, rfl⟩

end Responder

end Symbolon
