import Mathlib.Tactic.IntervalCases
import Symbolon.Lib.Relay
import Symbolon.PlainCodec
import Symbolon.Transport.Noise

/-!
# A request and its response, end to end

An initiator and a responder that were made for each other, and two pipes between them. Each
side has a driver, as the round trip of `src/transport.rs` has: it asks the session what it
wants and does it. A read is served with exactly as many bytes as it asks for, once they are
there; until then the driver has its turns for nothing.

The protocol is a relay of fourteen moves (`Symbolon.Course.chain`): at every stage one side
waits for bytes that the other has not written yet. So whatever the order in which the two
sides have their turns, nothing ever fails, and the broker is asked for the key of the right
identity and handed the right request; and if both sides keep having turns they finish, with
the response delivered and nothing left in a pipe (`Symbolon.delivery`).

What is assumed of the Noise implementation is `Symbolon.Snow.Matching`: handshakes that match
complete, and what one side encrypts the other decrypts. The pattern of
`Symbolon.Transport.Noise` is such an implementation (`Symbolon.noiseMatching`).
-/

namespace Symbolon

open Text

/-! ### Driving a session -/

/-- What one turn of a driver comes to. -/
structure Driven (S : Snow) (σ : Type) where
  /-- The session. -/
  state : σ
  /-- What is left to read. -/
  inbox : Bytes
  /-- What was written. -/
  written : Bytes
  /-- What the session wanted, or the first error. -/
  result : Except (SessionError S.Err) SessionStep

namespace Driven

variable {S : Snow} {σ : Type}

/-- What a turn comes to, by the call that served the step. -/
def served (step : SessionStep) (inbox written : Bytes) :
    σ × Except (SessionError S.Err) Unit → Driven S σ
  | (s, .ok ()) => ⟨s, inbox, written, .ok step⟩
  | (s, .error e) => ⟨s, inbox, written, .error e⟩

/-- Serve a read, once there is enough to read. -/
def read (recv : σ → Bytes → σ × Except (SessionError S.Err) Unit) (s : σ) (inbox : Bytes)
    (n : ℕ) : Driven S σ :=
  if n ≤ inbox.length then served (.readExact n) (inbox.drop n) [] (recv s (inbox.take n))
  else ⟨s, inbox, [], .ok (.readExact n)⟩

end Driven

section Drivers

variable {S : Snow}

/-- **A turn of the broker's driver.** -/
def Responder.drive (psk : Psk) (seed : S.Seed) (response : Bytes) (s : RState S)
    (inbox : Bytes) : Driven S (RState S) :=
  match step s with
  | (s, .error e) => ⟨s, inbox, [], .error e⟩
  | (s, .ok (.readExact n)) => .read recv s inbox n
  | (s, .ok (.needPsk identity)) => .served (.needPsk identity) inbox [] (setPsk s psk seed)
  | (s, .ok (.write bytes)) => .served (.write bytes) inbox bytes (wrote s)
  | (s, .ok (.request plaintext)) => .served (.request plaintext) inbox [] (setResponse s response)
  | (s, .ok .done) => ⟨s, inbox, [], .ok .done⟩

/-- **A turn of the client's driver.** It has no answer to a request for a key, and none to a
request. -/
def Initiator.drive (s : IState S) (inbox : Bytes) : Driven S (IState S) :=
  match step s with
  | (s, .error e) => ⟨s, inbox, [], .error e⟩
  | (s, .ok (.readExact n)) => .read recv s inbox n
  | (s, .ok (.write bytes)) => .served (.write bytes) inbox bytes (wrote s)
  | (s, .ok other) => ⟨s, inbox, [], .ok other⟩

end Drivers

/-- The two sides. -/
inductive Side
  /-- The initiator. -/
  | client
  /-- The responder. -/
  | broker
  deriving DecidableEq

/-- **Both sides, and the pipes between them.** -/
structure Duplex (S : Snow) where
  /-- The client's session. -/
  initiator : IState S
  /-- The broker's session. -/
  responder : RState S
  /-- The bytes on the way to the broker. -/
  toBroker : Bytes
  /-- The bytes on the way to the client. -/
  toClient : Bytes

/-- What a turn shows: whose it was, and what its session wanted. -/
abbrev Shown (S : Snow) := Side × Except (SessionError S.Err) SessionStep

/-- **A turn of one side.** The broker answers every request for a key with `psk`, and every
request with `response`. -/
def Duplex.next {S : Snow} (psk : Psk) (seed : S.Seed) (response : Bytes) (d : Duplex S) :
    Side → Duplex S × Shown S
  | .client =>
    let r := Initiator.drive d.initiator d.toClient
    (⟨r.state, d.responder, d.toBroker ++ r.written, r.inbox⟩, .client, r.result)
  | .broker =>
    let r := Responder.drive psk seed response d.responder d.toBroker
    (⟨d.initiator, r.state, r.inbox, d.toClient ++ r.written⟩, .broker, r.result)

/-- A turn in which a side reads, writes, or is done. Errors, requests for a key and requests
are not quiet. -/
def quiet {S : Snow} : Shown S → Bool
  | (_, .ok (.readExact _)) | (_, .ok (.write _)) | (_, .ok .done) => true
  | _ => false

/-! ### The moves of the two sides -/

/-- A message with its length in front. -/
def framed (msg : Bytes) : Bytes := lengthPrefix msg.length ++ msg

theorem frame_eq_framed {msg : Bytes} (h : msg.length ≤ maxMessageSize) :
    frame msg = some (framed msg) :=
  frame_eq_some_iff.mpr ⟨h, rfl⟩

theorem recvFrameLength_lengthPrefix {ε : Type} {msg : Bytes} (h : msg.length ≤ maxMessageSize) :
    (recvFrameLength (lengthPrefix msg.length) : Except (SessionError ε) ℕ) = .ok msg.length := by
  obtain ⟨b₀, b₁, hout, hlen⟩ := readFrameLength_frame (frame_eq_framed h)
  have hhead : lengthPrefix msg.length = [b₀, b₁] := List.append_cancel_right hout
  simp only [hhead, recvFrameLength, hlen]

namespace Driven

variable {S : Snow} {σ : Type} {recv : σ → Bytes → σ × Except (SessionError S.Err) Unit}
  {s s' : σ} {bytes msg : Bytes} {n : ℕ}

/-- The bytes asked for are there, and maybe more. -/
theorem read_append (hlen : bytes.length = n) (h : recv s bytes = (s', .ok ())) :
    read recv s (bytes ++ msg) n = ⟨s', msg, [], .ok (.readExact n)⟩ := by
  have hle : n ≤ (bytes ++ msg).length := by
    rw [List.length_append]
    omega
  rw [read, if_pos hle, List.take_left' hlen, List.drop_left' hlen, h, served]

/-- Everything there is has been asked for. -/
theorem read_self (h : recv s msg = (s', .ok ())) :
    read recv s msg msg.length = ⟨s', [], [], .ok (.readExact msg.length)⟩ := by
  rw [read, if_pos (Nat.le_refl _), List.take_length, List.drop_length, h, served]

end Driven

namespace Responder

variable {S : Snow} {psk : Psk} {seed : S.Seed} {response : Bytes} {hs hs' : S.Hs}
  {ts ts' : S.Ts} {inbox bytes msg plaintext : Bytes} {identity : Identity}

theorem drive_wantHsLen (h : msg.length ≤ maxMessageSize) :
    drive psk seed response (.wantHsLen hs) (framed msg) =
      ⟨.wantHsBody hs msg.length, msg, [], .ok (.readExact 2)⟩ :=
  Driven.read_append rfl (by simp only [recv, recvFrameLength_lengthPrefix h])

theorem drive_wantHsBody (h : readMsg1 hs msg = .ok (hs', identity)) :
    drive psk seed response (.wantHsBody hs msg.length) msg =
      ⟨.needPsk hs' identity, [], [], .ok (.readExact msg.length)⟩ :=
  Driven.read_self (by simp [recv, h])

theorem drive_needPsk (h : writeMsg2 hs psk seed = .ok (hs', bytes)) :
    drive psk seed response (.needPsk hs identity) inbox =
      ⟨.writeHs hs' bytes, inbox, [], .ok (.needPsk identity)⟩ := by
  simp only [drive, step, setPsk, h, Driven.served]

theorem drive_writeHs (h : S.intoTransportMode hs = .ok ts) :
    drive psk seed response (.writeHs hs bytes) inbox =
      ⟨.wantReqLen ts, inbox, bytes, .ok (.write bytes)⟩ := by
  simp only [drive, step, wrote, h, Driven.served]

theorem drive_wantReqLen (h : msg.length ≤ maxMessageSize) :
    drive psk seed response (.wantReqLen ts) (framed msg) =
      ⟨.wantReqBody ts msg.length, msg, [], .ok (.readExact 2)⟩ :=
  Driven.read_append rfl (by simp only [recv, recvFrameLength_lengthPrefix h])

theorem drive_wantReqBody (h : S.readTransport ts msg = .ok (plaintext, ts')) :
    drive psk seed response (.wantReqBody ts msg.length) msg =
      ⟨.haveRequest ts' plaintext, [], [], .ok (.readExact msg.length)⟩ :=
  Driven.read_self (by simp [recv, h])

theorem drive_haveRequest (h : encrypt ts response = .ok (ts', bytes)) :
    drive psk seed response (.haveRequest ts plaintext) inbox =
      ⟨.writeResp bytes, inbox, [], .ok (.request plaintext)⟩ := by
  simp only [drive, step, setResponse, h, Driven.served]

end Responder

namespace Initiator

variable {S : Snow} {hs : S.Hs} {ts ts' : S.Ts} {bytes msg plaintext request : Bytes}

theorem drive_wantHs2Len (h : msg.length ≤ maxMessageSize) :
    drive (.wantHs2Len hs request) (framed msg) =
      ⟨.wantHs2Body hs msg.length request, msg, [], .ok (.readExact 2)⟩ :=
  Driven.read_append rfl (by simp only [recv, recvFrameLength_lengthPrefix h])

theorem drive_wantHs2Body (h : finish hs msg request = .ok (ts, bytes)) :
    drive (.wantHs2Body hs msg.length request) msg =
      ⟨.writeReq ts bytes, [], [], .ok (.readExact msg.length)⟩ :=
  Driven.read_self (by simp [recv, h])

theorem drive_wantRespLen (h : msg.length ≤ maxMessageSize) :
    drive (.wantRespLen ts) (framed msg) =
      ⟨.wantRespBody ts msg.length, msg, [], .ok (.readExact 2)⟩ :=
  Driven.read_append rfl (by simp only [recv, recvFrameLength_lengthPrefix h])

theorem drive_wantRespBody (h : S.readTransport ts msg = .ok (plaintext, ts')) :
    drive (.wantRespBody ts msg.length) msg =
      ⟨.done plaintext, [], [], .ok (.readExact msg.length)⟩ :=
  Driven.read_self (by simp [recv, h])

end Initiator

namespace Duplex

variable {S : Snow} {psk : Psk} {seed : S.Seed} {response : Bytes} {d : Duplex S}

theorem next_client {i : IState S} {inbox written : Bytes}
    {r : Except (SessionError S.Err) SessionStep}
    (h : Initiator.drive d.initiator d.toClient = ⟨i, inbox, written, r⟩) :
    d.next psk seed response .client =
      (⟨i, d.responder, d.toBroker ++ written, inbox⟩, .client, r) := by
  simp only [next, h]

theorem next_broker {s : RState S} {inbox written : Bytes}
    {r : Except (SessionError S.Err) SessionStep}
    (h : Responder.drive psk seed response d.responder d.toBroker = ⟨s, inbox, written, r⟩) :
    d.next psk seed response .broker =
      (⟨d.initiator, s, inbox, d.toClient ++ written⟩, .broker, r) := by
  simp only [next, h]

variable {r : Except (SessionError S.Err) SessionStep}

theorem wait_client (h : Initiator.drive d.initiator d.toClient = ⟨d.initiator, d.toClient, [], r⟩)
    (hq : quiet (.client, r) = true) :
    (d.next psk seed response .client).1 = d ∧
      quiet (d.next psk seed response .client).2 = true := by
  rw [next_client h, List.append_nil]
  exact ⟨rfl, hq⟩

theorem wait_broker (h : Responder.drive psk seed response d.responder d.toBroker =
      ⟨d.responder, d.toBroker, [], r⟩) (hq : quiet (.broker, r) = true) :
    (d.next psk seed response .broker).1 = d ∧
      quiet (d.next psk seed response .broker).2 = true := by
  rw [next_broker h, List.append_nil]
  exact ⟨rfl, hq⟩

end Duplex

/-! ### What is assumed -/

/-- **What is assumed of the implementation**: matching handshakes complete, and decryption
undoes encryption. A handshake message is an ephemeral key, the payload and a tag. -/
structure Snow.Matching (S : Snow) where
  /-- The public half of the broker's key. -/
  publicKey : BrokerPrivateKey → BrokerPublicKey
  /-- The handshakes of the two sides match, after the first message. -/
  Begun : Psk → S.Hs → S.Hs → Prop
  /-- The transport states of the two sides match. -/
  Paired : S.Ts → S.Ts → Prop
  /-- The first message. -/
  first : ∀ key psk seed payload, payload.length + 32 + tagLen ≤ maxMessageSize →
    ∃ hi hr msg hi' hr', S.buildInitiator psk (publicKey key) = .ok hi ∧
      S.buildResponder key = .ok hr ∧ S.writeMessage hi seed payload = .ok (msg, hi') ∧
      msg.length = payload.length + 32 + tagLen ∧ S.readMessage hr msg = .ok (payload, hr') ∧
      Begun psk hi' hr'
  /-- The second message, and the end of the handshake. -/
  second : ∀ psk seed hi hr, Begun psk hi hr →
    ∃ hr' msg hi'' hr'' ti tr, S.setPsk hr pskSlot psk = .ok hr' ∧
      S.writeMessage hr' seed [] = .ok (msg, hr'') ∧ msg.length = 32 + tagLen ∧
      S.readMessage hi msg = .ok ([], hi'') ∧ S.intoTransportMode hi'' = .ok ti ∧
      S.intoTransportMode hr'' = .ok tr ∧ Paired ti tr
  /-- From the client to the broker. -/
  forth : ∀ ti tr plaintext, Paired ti tr → plaintext.length + tagLen ≤ maxMessageSize →
    ∃ msg ti' tr', S.writeTransport ti plaintext = .ok (msg, ti') ∧
      msg.length = plaintext.length + tagLen ∧ S.readTransport tr msg = .ok (plaintext, tr') ∧
      Paired ti' tr'
  /-- From the broker to the client. -/
  back : ∀ ti tr plaintext, Paired ti tr → plaintext.length + tagLen ≤ maxMessageSize →
    ∃ msg ti' tr', S.writeTransport tr plaintext = .ok (msg, tr') ∧
      msg.length = plaintext.length + tagLen ∧ S.readTransport ti msg = .ok (plaintext, ti') ∧
      Paired ti' tr'

/-! ### The pattern is such an implementation -/

section Noise

variable {P : Primitives}

theorem Primitives.Lawful.unseal_encrypt (hP : P.Lawful) (key : P.Key) (nonce : ℕ)
    (ad : List Bytes) (plaintext : Bytes) :
    P.unseal key nonce ad (P.encrypt key nonce ad plaintext) =
      some (P.seal key nonce ad plaintext) := by
  rw [Primitives.unseal, hP.decrypt_encrypt]
  rfl

theorem Primitives.Lawful.length_message (hP : P.Lawful) (e : Ephemeral) (key : P.Key)
    (nonce : ℕ) (ad : List Bytes) (payload : Bytes) :
    (e.bytes ++ P.encrypt key nonce ad payload).length = payload.length + 32 + tagLen := by
  rw [List.length_append, e.length_bytes, hP.length_encrypt]
  omega

/-- A handshake message that fits is written. -/
theorem NoiseHs.write_of_sealing {hs : NoiseHs} {e : Ephemeral} {payload : Bytes} {o : Sealed P}
    (h : hs.sealing P e payload = .ok o)
    (hle : (e.bytes ++ o.ciphertext).length ≤ maxMessageSize) :
    hs.write P e payload = .ok (e.bytes ++ o.ciphertext, hs.after e o.ciphertext) := by
  rw [List.length_append] at hle
  simp only [write, h, if_neg (Nat.not_lt_of_le hle)]

/-- The first message is read back. -/
theorem NoiseHs.read_msg1 (hP : P.Lawful) (broker : BrokerPublicKey) (ei : Ephemeral)
    (psk : Option Psk) (payload : Bytes) :
    let ct := P.encrypt (P.msg1Key broker ei) 0 (ad1 broker ei) payload
    read P (responder broker psk) (ei.bytes ++ ct) = .ok (payload, read1 broker ei ct psk) := by
  simp only [read, opening, Ephemeral.take_append, hP.unseal_encrypt, Primitives.seal, after]

/-- The second message is read back. -/
theorem NoiseHs.read_msg2 (hP : P.Lawful) (broker : BrokerPublicKey) (ei er : Ephemeral)
    (ct1 : Bytes) (psk : Psk) (payload : Bytes) :
    let ct := P.encrypt (P.key .msg2 broker ei er psk) 0 (ad2 broker ei ct1 er) payload
    read P (wrote1 broker ei ct1 psk) (er.bytes ++ ct) =
      .ok (payload, finished true broker ei er psk) := by
  simp only [read, opening, Ephemeral.take_append, hP.unseal_encrypt, Primitives.seal, after]

/-- A transport message that fits is written. -/
theorem NoiseTs.write_of_le {ts : NoiseTs} {plaintext : Bytes}
    (hle : (ts.sealing P plaintext).ciphertext.length ≤ maxMessageSize) :
    ts.write P plaintext =
      .ok ((ts.sealing P plaintext).ciphertext, { ts with sent := ts.sent + 1 }) :=
  if_neg (Nat.not_lt_of_le hle)

/-- **The pattern completes**, over primitives that do what they should. -/
def noiseMatching (hP : P.Lawful) : (noise P).Matching where
  publicKey := P.derivePublic
  Begun psk hi hr := ∃ broker ei ct1,
    hi = .wrote1 broker ei ct1 psk ∧ hr = .read1 broker ei ct1 none
  Paired ti tr := ∃ broker ei er psk sent received,
    ti = ⟨true, broker, ei, er, psk, sent, received⟩ ∧
      tr = ⟨false, broker, ei, er, psk, received, sent⟩
  first key psk ei payload hle := by
    let broker := P.derivePublic key
    let o := P.seal (P.msg1Key broker ei) 0 (NoiseHs.ad1 broker ei) payload
    have hlen : (ei.bytes ++ o.ciphertext).length = payload.length + 32 + tagLen :=
      hP.length_message ei _ _ _ payload
    have hwrite : NoiseHs.write P (.initiator broker psk) ei payload =
        .ok (ei.bytes ++ o.ciphertext, .wrote1 broker ei o.ciphertext psk) :=
      NoiseHs.write_of_sealing (o := o) rfl (hlen ▸ hle)
    exact ⟨_, _, _, _, _, rfl, rfl, hwrite, hlen, NoiseHs.read_msg1 hP broker ei none payload,
      _, _, _, rfl, rfl⟩
  second psk er hi hr := by
    rintro ⟨broker, ei, ct1, rfl, rfl⟩
    let o := P.seal (P.key .msg2 broker ei er psk) 0 (NoiseHs.ad2 broker ei ct1 er) []
    have hlen : (er.bytes ++ o.ciphertext).length = 32 + tagLen := hP.length_message er _ _ _ []
    have hwrite : NoiseHs.write P (.read1 broker ei ct1 (some psk)) er [] =
        .ok (er.bytes ++ o.ciphertext, .finished false broker ei er psk) :=
      NoiseHs.write_of_sealing (o := o) rfl (hlen ▸ by decide)
    exact ⟨_, _, _, _, _, _, rfl, hwrite, hlen, NoiseHs.read_msg2 hP broker ei er ct1 psk [], rfl,
      rfl, _, _, _, _, _, _, rfl, rfl⟩
  forth := by
    rintro _ _ plaintext ⟨broker, ei, er, psk, sent, received, rfl, rfl⟩ hle
    have hlen := hP.length_encrypt (P.key .request broker ei er psk) sent [] plaintext
    refine ⟨_, _, _, NoiseTs.write_of_le (hlen ▸ hle), hlen, ?_, _, _, _, _, _, _, rfl, rfl⟩
    simp [noise, NoiseTs.read, NoiseTs.opening, NoiseTs.sealing, Primitives.seal, hP.unseal_encrypt]
  back := by
    rintro _ _ plaintext ⟨broker, ei, er, psk, sent, received, rfl, rfl⟩ hle
    have hlen := hP.length_encrypt (P.key .response broker ei er psk) received [] plaintext
    refine ⟨_, _, _, NoiseTs.write_of_le (hlen ▸ hle), hlen, ?_, _, _, _, _, _, _, rfl, rfl⟩
    simp [noise, NoiseTs.read, NoiseTs.opening, NoiseTs.sealing, Primitives.seal, hP.unseal_encrypt]

end Noise

/-! ### The stages -/

/-- **A conversation**: who the client is, what it asks, and what the broker answers. Both
fit into a message with their tag. -/
structure Conversation (S : Snow) where
  /-- The identity of the client. -/
  identity : Identity
  /-- Its key. -/
  psk : Psk
  /-- The broker's private key. -/
  key : BrokerPrivateKey
  /-- The request. -/
  request : Bytes
  /-- The response. -/
  response : Bytes
  /-- What the client draws. -/
  seedI : S.Seed
  /-- What the broker draws. -/
  seedR : S.Seed
  /-- The request fits. -/
  request_le : request.length ≤ maxMessageSize - tagLen
  /-- The response fits. -/
  response_le : response.length ≤ maxMessageSize - tagLen

/-- **The course of a conversation**: its messages, and the states of the implementation
around them. -/
structure Course {S : Snow} (M : S.Matching) (v : Conversation S) where
  /-- The client, after the first message. -/
  hi : S.Hs
  /-- The broker, before it. -/
  hr : S.Hs
  /-- The broker, after the first message. -/
  hr₁ : S.Hs
  /-- The broker, after the second. -/
  hr₂ : S.Hs
  /-- The client, after the request. -/
  ti : S.Ts
  /-- The broker, before it. -/
  tr : S.Ts
  /-- The broker, after the request. -/
  tr₁ : S.Ts
  /-- The broker, after the response. -/
  tr₂ : S.Ts
  /-- The client, after the response. -/
  ti₂ : S.Ts
  /-- The first message. -/
  msg1 : Bytes
  /-- The second message. -/
  msg2 : Bytes
  /-- The request, encrypted. -/
  req : Bytes
  /-- The response, encrypted. -/
  resp : Bytes
  msg1_le : msg1.length ≤ maxMessageSize
  msg2_le : msg2.length ≤ maxMessageSize
  req_le : req.length ≤ maxMessageSize
  resp_le : resp.length ≤ maxMessageSize
  newInitiator : Initiator.new S v.identity v.psk (M.publicKey v.key) v.request v.seedI =
    .ok (.writeHs1 hi (framed msg1) v.request)
  newResponder : Responder.new S v.key = .ok (.wantHsLen hr)
  readMsg1 : Responder.readMsg1 hr msg1 = .ok (hr₁, v.identity)
  writeMsg2 : Responder.writeMsg2 hr₁ v.psk v.seedR = .ok (hr₂, framed msg2)
  intoTransport : S.intoTransportMode hr₂ = .ok tr
  finish : Initiator.finish hi msg2 v.request = .ok (ti, framed req)
  readReq : S.readTransport tr req = .ok (v.request, tr₁)
  encrypt : Responder.encrypt tr₁ v.response = .ok (tr₂, framed resp)
  readResp : S.readTransport ti resp = .ok (v.response, ti₂)

/-- A transport message that fits is framed. -/
theorem Responder.encrypt_eq_ok {S : Snow} {ts ts' : S.Ts} {plaintext msg : Bytes}
    (hw : S.writeTransport ts plaintext = .ok (msg, ts')) (hle : msg.length ≤ maxMessageSize) :
    Responder.encrypt ts plaintext = .ok (ts', framed msg) := by
  simp only [Responder.encrypt, hw, frame_eq_framed hle]

/-- **Every conversation can be held.** -/
theorem Snow.Matching.exists_course {S : Snow} (M : S.Matching) (v : Conversation S) :
    Nonempty (Course M v) := by
  have htlv : (encodeIdentityTlv v.identity).length + 32 + tagLen ≤ maxMessageSize := by
    have hlen := length_encodeIdentityTlv v.identity
    have hle := v.identity.length_le
    simp only [identityTlvSize, tagLen, maxMessageSize] at hlen ⊢
    omega
  have hreq : v.request.length + tagLen ≤ maxMessageSize := by
    have hle := v.request_le
    simp only [tagLen, maxMessageSize] at hle ⊢
    omega
  have hresp : v.response.length + tagLen ≤ maxMessageSize := by
    have hle := v.response_le
    simp only [tagLen, maxMessageSize] at hle ⊢
    omega
  obtain ⟨hi₀, hr, msg1, hi, hr₁, hbi, hbr, hw1, hlen1, hr1, hbegun⟩ :=
    M.first v.key v.psk v.seedI _ htlv
  obtain ⟨hr₁', msg2, hi₁, hr₂, ti, tr, hset, hw2, hlen2, hr2, hti, htr, hpaired⟩ :=
    M.second v.psk v.seedR hi hr₁ hbegun
  obtain ⟨req, ti₁, tr₁, hwreq, hlenreq, hrreq, hpaired₁⟩ := M.forth ti tr _ hpaired hreq
  obtain ⟨resp, ti₂, tr₂, hwresp, hlenresp, hrresp, -⟩ := M.back ti₁ tr₁ _ hpaired₁ hresp
  have hle1 : msg1.length ≤ maxMessageSize := hlen1 ▸ htlv
  have hle2 : msg2.length ≤ maxMessageSize := by
    rw [hlen2]
    decide
  have hlereq : req.length ≤ maxMessageSize := hlenreq ▸ hreq
  have hleresp : resp.length ≤ maxMessageSize := hlenresp ▸ hresp
  exact ⟨{
    hi, hr, hr₁, hr₂, tr, tr₁, tr₂, ti₂, msg1, msg2, req, resp
    ti := ti₁
    msg1_le := hle1
    msg2_le := hle2
    req_le := hlereq
    resp_le := hleresp
    newInitiator := by
      simp only [Initiator.new, hbi, Initiator.writeMsg1, hw1, frame_eq_framed hle1]
    newResponder := by simp only [Responder.new, hbr]
    readMsg1 := Responder.readMsg1_eq_ok_iff.mpr hr1
    writeMsg2 := Responder.writeMsg2_eq_ok_iff.mpr ⟨hr₁', msg2, hset, hw2, frame_eq_framed hle2⟩
    intoTransport := htr
    finish := by
      simp only [Initiator.finish, hr2, hti]
      exact Responder.encrypt_eq_ok hwreq hlereq
    readReq := hrreq
    encrypt := Responder.encrypt_eq_ok hwresp hleresp
    readResp := hrresp }⟩

namespace Course

variable {S : Snow} {M : S.Matching} {v : Conversation S} (x : Course M v)

/-- The stages. -/
def stage : ℕ → Duplex S
  | 0 => ⟨.writeHs1 x.hi (framed x.msg1) v.request, .wantHsLen x.hr, [], []⟩
  | 1 => ⟨.wantHs2Len x.hi v.request, .wantHsLen x.hr, framed x.msg1, []⟩
  | 2 => ⟨.wantHs2Len x.hi v.request, .wantHsBody x.hr x.msg1.length, x.msg1, []⟩
  | 3 => ⟨.wantHs2Len x.hi v.request, .needPsk x.hr₁ v.identity, [], []⟩
  | 4 => ⟨.wantHs2Len x.hi v.request, .writeHs x.hr₂ (framed x.msg2), [], []⟩
  | 5 => ⟨.wantHs2Len x.hi v.request, .wantReqLen x.tr, [], framed x.msg2⟩
  | 6 => ⟨.wantHs2Body x.hi x.msg2.length v.request, .wantReqLen x.tr, [], x.msg2⟩
  | 7 => ⟨.writeReq x.ti (framed x.req), .wantReqLen x.tr, [], []⟩
  | 8 => ⟨.wantRespLen x.ti, .wantReqLen x.tr, framed x.req, []⟩
  | 9 => ⟨.wantRespLen x.ti, .wantReqBody x.tr x.req.length, x.req, []⟩
  | 10 => ⟨.wantRespLen x.ti, .haveRequest x.tr₁ v.request, [], []⟩
  | 11 => ⟨.wantRespLen x.ti, .writeResp (framed x.resp), [], []⟩
  | 12 => ⟨.wantRespLen x.ti, .done, [], framed x.resp⟩
  | 13 => ⟨.wantRespBody x.ti x.resp.length, .done, [], x.resp⟩
  | _ => ⟨.done v.response, .done, [], []⟩

/-- What the moves show, and whose they are. -/
def shows : ℕ → Shown S
  | 0 => (.client, .ok (.write (framed x.msg1)))
  | 1 => (.broker, .ok (.readExact 2))
  | 2 => (.broker, .ok (.readExact x.msg1.length))
  | 3 => (.broker, .ok (.needPsk v.identity))
  | 4 => (.broker, .ok (.write (framed x.msg2)))
  | 5 => (.client, .ok (.readExact 2))
  | 6 => (.client, .ok (.readExact x.msg2.length))
  | 7 => (.client, .ok (.write (framed x.req)))
  | 8 => (.broker, .ok (.readExact 2))
  | 9 => (.broker, .ok (.readExact x.req.length))
  | 10 => (.broker, .ok (.request v.request))
  | 11 => (.broker, .ok (.write (framed x.resp)))
  | 12 => (.client, .ok (.readExact 2))
  | _ => (.client, .ok (.readExact x.resp.length))

/-- The turns of this conversation. -/
abbrev next (_ : Course M v) : Duplex S → Side → Duplex S × Shown S :=
  Duplex.next v.psk v.seedR v.response

/-- The moves, one after the other. -/
theorem next_stage : ∀ k, k < 14 → x.next (x.stage k) (x.shows k).1 = (x.stage (k + 1), x.shows k)
  | 0, _ => rfl
  | 1, _ => Duplex.next_broker (Responder.drive_wantHsLen x.msg1_le)
  | 2, _ => Duplex.next_broker (Responder.drive_wantHsBody x.readMsg1)
  | 3, _ => Duplex.next_broker (Responder.drive_needPsk x.writeMsg2)
  | 4, _ => Duplex.next_broker (Responder.drive_writeHs x.intoTransport)
  | 5, _ => Duplex.next_client (Initiator.drive_wantHs2Len x.msg2_le)
  | 6, _ => Duplex.next_client (Initiator.drive_wantHs2Body x.finish)
  | 7, _ => rfl
  | 8, _ => Duplex.next_broker (Responder.drive_wantReqLen x.req_le)
  | 9, _ => Duplex.next_broker (Responder.drive_wantReqBody x.readReq)
  | 10, _ => Duplex.next_broker (Responder.drive_haveRequest x.encrypt)
  | 11, _ => rfl
  | 12, _ => Duplex.next_client (Initiator.drive_wantRespLen x.resp_le)
  | 13, _ => Duplex.next_client (Initiator.drive_wantRespBody x.readResp)
  | k + 14, hk => absurd hk (by omega)

/-- The side that is not to move waits: it reads from an empty pipe, or it is done. -/
theorem wait_stage {k : ℕ} (hk : k ≤ 14) (p : Side) (hp : k < 14 → p ≠ (x.shows k).1) :
    (x.next (x.stage k) p).1 = x.stage k ∧ quiet (x.next (x.stage k) p).2 = true := by
  interval_cases k <;> cases p <;> first
    | exact absurd rfl (hp (by decide))
    | exact Duplex.wait_client rfl rfl
    | exact Duplex.wait_broker rfl rfl

/-- **A conversation is a relay.** -/
def chain : Relay.Chain x.next quiet where
  length := 14
  stage := x.stage
  mover k := (x.shows k).1
  shows := x.shows
  advance := x.next_stage
  wait _ hk := x.wait_stage hk

/-- What the broker's driver is asked for in a conversation. -/
theorem filter_shows :
    ((List.range 14).map x.shows).filter (fun s => !quiet s) =
      [(.broker, .ok (.needPsk v.identity)), (.broker, .ok (.request v.request))] := rfl

/-- On the way, it has been asked for a part of that. -/
theorem filter_trace_isPrefix (schedule : ℕ → Side) (n : ℕ) :
    (Relay.trace x.next (x.stage 0) schedule n).filter (fun s => !quiet s) <+:
      [(.broker, .ok (.needPsk v.identity)), (.broker, .ok (.request v.request))] := by
  have hle : x.chain.progress schedule n ≤ 14 := x.chain.progress_le schedule n
  have htake : List.range (x.chain.progress schedule n) =
      (List.range 14).take (x.chain.progress schedule n) := by
    rw [List.take_range, Nat.min_eq_left hle]
  have hpre : List.range (x.chain.progress schedule n) <+: List.range 14 :=
    htake ▸ List.take_prefix _ _
  rw [← x.filter_shows]
  exact x.chain.filter_trace schedule n ▸ (hpre.map x.shows).filter _

end Course

/-- An error would not be quiet, so it would have been among what the broker was asked for. -/
theorem ok_of_filter_isPrefix {S : Snow} {shown : List (Shown S)} {identity : Identity}
    {request : Bytes} (h : shown.filter (fun s => !quiet s) <+:
      [(.broker, .ok (.needPsk identity)), (.broker, .ok (.request request))])
    {s : Shown S} (hs : s ∈ shown) : ∃ step, s.2 = .ok step := by
  rcases s with ⟨side, e | step⟩
  · have hmem : (side, .error e) ∈ shown.filter (fun s => !quiet s) :=
      List.mem_filter.mpr ⟨hs, rfl⟩
    simpa using h.subset hmem
  · exact ⟨step, rfl⟩

/-- **End-to-end delivery.** -/
theorem delivery {S : Snow} (M : S.Matching) (v : Conversation S) (schedule : ℕ → Side) :
    ∃ i r, Initiator.new S v.identity v.psk (M.publicKey v.key) v.request v.seedI = .ok i ∧
      Responder.new S v.key = .ok r ∧
      let next := Duplex.next v.psk v.seedR v.response
      let run := Relay.run next ⟨i, r, [], []⟩ schedule
      let shown := Relay.trace next ⟨i, r, [], []⟩ schedule
      -- neither side ever fails
      (∀ n, ∀ s ∈ shown n, ∃ step, s.2 = .ok step) ∧
      -- the broker is asked for the key of the client, then handed the request
      (∀ n, (shown n).filter (fun s => !quiet s) <+:
        [(.broker, .ok (.needPsk v.identity)), (.broker, .ok (.request v.request))]) ∧
      -- both sides finish, with the response delivered and nothing left in a pipe
      (Relay.Fair schedule → ∃ n, ∀ m, n ≤ m →
        (shown m).filter (fun s => !quiet s) =
          [(.broker, .ok (.needPsk v.identity)), (.broker, .ok (.request v.request))] ∧
        (Initiator.step (run m).initiator).2 = .ok .done ∧
        (Responder.step (run m).responder).2 = .ok .done ∧
        (Initiator.takeResponse (run m).initiator).2 = .ok v.response ∧
        (run m).toBroker = [] ∧ (run m).toClient = []) := by
  obtain ⟨x⟩ := M.exists_course v
  refine ⟨_, _, x.newInitiator, x.newResponder, fun n s hs => ?_, x.filter_trace_isPrefix schedule,
    fun hfair => ?_⟩
  · exact ok_of_filter_isPrefix (x.filter_trace_isPrefix schedule n) hs
  · obtain ⟨n, hn⟩ := x.chain.exists_progress_eq hfair
    refine ⟨n, fun m hm => ?_⟩
    have hrun := x.chain.run_eq schedule m
    have hshown := x.chain.filter_trace schedule m
    rw [hn m hm] at hrun hshown
    refine ⟨hshown.trans x.filter_shows, ?_⟩
    have hend : Relay.run x.next (x.stage 0) schedule m = ⟨.done v.response, .done, [], []⟩ := hrun
    exact hend ▸ ⟨rfl, rfl, rfl, rfl, rfl⟩

/-- A conversation in the clear. -/
def plainConversation : Conversation (noise plainPrimitives) where
  identity := alice
  psk := Psk.filled 1
  key := plainKey
  request := ascii "protocol=https\nhost=github.com\npath=o/r\n\n"
  response := ascii "username=x\npassword=y\n\n"
  seedI := Ephemeral.filled 2
  seedR := Ephemeral.filled 3
  request_le := by decide
  response_le := by decide

/-- The two sides by turns. -/
def alternating (n : ℕ) : Side := if n % 2 = 0 then .client else .broker

theorem alternating_fair : Relay.Fair alternating := by
  rintro (- | -) n
  · exact ⟨2 * n, by omega, if_pos (by omega)⟩
  · exact ⟨2 * n + 1, by omega, if_neg (by omega)⟩

theorem delivery_plainConversation :
    ∃ i r, Initiator.new (noise plainPrimitives) alice (Psk.filled 1)
        (plainPrimitives.derivePublic plainKey) plainConversation.request (Ephemeral.filled 2) =
          .ok i ∧
      Responder.new (noise plainPrimitives) plainKey = .ok r ∧ ∃ n, ∀ m, n ≤ m →
        (Initiator.takeResponse (Relay.run (Duplex.next (Psk.filled 1) (Ephemeral.filled 3)
          plainConversation.response) ⟨i, r, [], []⟩ alternating m).initiator).2 =
            .ok (ascii "username=x\npassword=y\n\n") := by
  obtain ⟨i, r, hi, hr, -, -, hend⟩ :=
    delivery (noiseMatching plainPrimitives_lawful) plainConversation alternating
  obtain ⟨n, hn⟩ := hend alternating_fair
  exact ⟨i, r, hi, hr, n, fun m hm => (hn m hm).2.2.2.1⟩

end Symbolon
