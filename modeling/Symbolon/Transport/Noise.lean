import Symbolon.Transport.Session

/-!
# The handshake pattern

`NOISE_PATTERN` of `src/transport.rs` is `NKpsk2`: the client knows the broker's static
key, and the client's own key is mixed in at the end of the second message,

    <- s
    ...
    -> e, es
    <- e, ee, psk

This file is what the pattern does. The primitives below it – the key schedule and the
authenticated encryption – are parameters (`Symbolon.Primitives`), and so is the crate:
`Symbolon.Snow.Follows` says of the entry points `Symbolon.Snow` that they keep to the pattern
whenever they succeed, and the pattern itself is such an implementation (`Symbolon.noise`,
`Symbolon.noiseFollows`). What a key depends on is what the
pattern mixes into it: the key of the first message, on the static key and the client's
ephemeral; the keys of the second message and of the two directions afterwards, on the
static key, both ephemerals and the pre-shared key. The associated data of a handshake
message is everything that was mixed into the handshake hash before it.

Everything that is encrypted or decrypted is a `Symbolon.Sealed`, a record that a state
names before it uses it (`Symbolon.NoiseHs.sealing`, `Symbolon.NoiseHs.opening`, and the
same for `Symbolon.NoiseTs`), so that “this frame was made by that session” can be said.
-/

namespace Symbolon

open Text

/-- The public half of an ephemeral key: 32 bytes. -/
def Ephemeral : Type := { bytes : Bytes // bytes.length = 32 }
  deriving DecidableEq

/-- The raw bytes. -/
def Ephemeral.bytes (e : Ephemeral) : Bytes := e.1

theorem Ephemeral.length_bytes (e : Ephemeral) : e.bytes.length = 32 := e.2

/-- The first 32 bytes of a message, as an ephemeral, and the rest. -/
def Ephemeral.take (msg : Bytes) : Option (Ephemeral × Bytes) :=
  if h : 32 ≤ msg.length then some (⟨msg.take 32, by simp [h]⟩, msg.drop 32) else none

theorem Ephemeral.take_append (e : Ephemeral) (rest : Bytes) :
    Ephemeral.take (e.bytes ++ rest) = some (e, rest) := by
  have hlen : 32 ≤ (e.bytes ++ rest).length := by simp [e.length_bytes]
  rw [Ephemeral.take, dif_pos hlen]
  refine congrArg some (Prod.ext (Subtype.ext ?_) ?_)
  · exact List.take_left' e.length_bytes
  · exact List.drop_left' e.length_bytes

theorem Ephemeral.take_eq_some {msg rest : Bytes} {e : Ephemeral}
    (h : Ephemeral.take msg = some (e, rest)) : msg = e.bytes ++ rest := by
  unfold Ephemeral.take at h
  split at h
  · cases h
    exact (List.take_append_drop 32 msg).symm
  · cases h

/-- The keys that involve the pre-shared key. -/
inductive KeyUse
  /-- Of the second message. -/
  | msg2
  /-- From the client to the broker. -/
  | request
  /-- From the broker to the client. -/
  | response
  deriving DecidableEq

/-- **The primitives** under the pattern. -/
structure Primitives where
  /-- The keys of the authenticated encryption. -/
  Key : Type
  /-- The public half of the broker's key. -/
  derivePublic : BrokerPrivateKey → BrokerPublicKey
  /-- The key of the first message. -/
  msg1Key : BrokerPublicKey → Ephemeral → Key
  /-- The keys that involve the pre-shared key: from the static key, the client's
  ephemeral, the broker's, and the pre-shared key. -/
  key : KeyUse → BrokerPublicKey → Ephemeral → Ephemeral → Psk → Key
  /-- Encrypt under a key and a nonce, with associated data. -/
  encrypt : Key → ℕ → List Bytes → Bytes → Bytes
  /-- Decrypt. -/
  decrypt : Key → ℕ → List Bytes → Bytes → Option Bytes

/-- The length of an authentication tag. -/
def tagLen : ℕ := 16

/-- What is documented of the primitives. -/
structure Primitives.Lawful (P : Primitives) : Prop where
  /-- The keys are an injective function of what goes into them. -/
  key_injective : ∀ {use use' s s' ei ei' er er' psk psk'},
    P.key use s ei er psk = P.key use' s' ei' er' psk' →
      use = use' ∧ s = s' ∧ ei = ei' ∧ er = er' ∧ psk = psk'
  /-- What was encrypted decrypts. -/
  decrypt_encrypt : ∀ k n ad plaintext,
    P.decrypt k n ad (P.encrypt k n ad plaintext) = some plaintext
  /-- A ciphertext is its plaintext and a tag. -/
  length_encrypt : ∀ k n ad plaintext,
    (P.encrypt k n ad plaintext).length = plaintext.length + tagLen

/-- A use of the authenticated encryption, in either direction. -/
structure Sealed (P : Primitives) where
  /-- The key. -/
  key : P.Key
  /-- The nonce. -/
  nonce : ℕ
  /-- The associated data. -/
  ad : List Bytes
  /-- The plaintext. -/
  plaintext : Bytes
  /-- The ciphertext. -/
  ciphertext : Bytes

variable (P : Primitives)

/-- Encrypt, as a record. -/
def Primitives.seal (key : P.Key) (nonce : ℕ) (ad : List Bytes) (plaintext : Bytes) : Sealed P :=
  ⟨key, nonce, ad, plaintext, P.encrypt key nonce ad plaintext⟩

/-- Decrypt, as a record. -/
def Primitives.unseal (key : P.Key) (nonce : ℕ) (ad : List Bytes) (ciphertext : Bytes) :
    Option (Sealed P) :=
  (P.decrypt key nonce ad ciphertext).map fun plaintext => ⟨key, nonce, ad, plaintext, ciphertext⟩

/-- Why the implementation refuses. -/
inductive NoiseError
  /-- The message is too short or too long. -/
  | input
  /-- A message does not decrypt. -/
  | decrypt
  /-- It is not the turn for this. -/
  | state
  /-- The key is missing. -/
  | missingPsk
  deriving DecidableEq

/-- **A handshake**, by how far it has come. -/
inductive NoiseHs
  /-- The responder, before the first message. -/
  | responder (broker : BrokerPublicKey) (psk : Option Psk)
  /-- The responder, after it. -/
  | read1 (broker : BrokerPublicKey) (ei : Ephemeral) (ct1 : Bytes) (psk : Option Psk)
  /-- The initiator, before the first message. -/
  | initiator (broker : BrokerPublicKey) (psk : Psk)
  /-- The initiator, after it. -/
  | wrote1 (broker : BrokerPublicKey) (ei : Ephemeral) (ct1 : Bytes) (psk : Psk)
  /-- After the second message. -/
  | finished (isInitiator : Bool) (broker : BrokerPublicKey) (ei er : Ephemeral) (psk : Psk)
  deriving DecidableEq

/-- **The transport state**: what the keys depend on, and a counter for each direction. -/
structure NoiseTs where
  /-- The side. -/
  isInitiator : Bool
  /-- The broker's static key. -/
  broker : BrokerPublicKey
  /-- The client's ephemeral. -/
  ei : Ephemeral
  /-- The broker's ephemeral. -/
  er : Ephemeral
  /-- The pre-shared key. -/
  psk : Psk
  /-- The messages written. -/
  sent : ℕ
  /-- The messages read. -/
  received : ℕ
  deriving DecidableEq

namespace NoiseHs

/-- The associated data of the first message. -/
def ad1 (broker : BrokerPublicKey) (ei : Ephemeral) : List Bytes := [broker.bytes, ei.bytes]

/-- The associated data of the second message. -/
def ad2 (broker : BrokerPublicKey) (ei : Ephemeral) (ct1 : Bytes) (er : Ephemeral) : List Bytes :=
  [broker.bytes, ei.bytes, ct1, er.bytes]

/-- What writing the next message seals. -/
def sealing (hs : NoiseHs) (e : Ephemeral) (payload : Bytes) : Except NoiseError (Sealed P) :=
  match hs with
  | initiator broker _ => .ok (P.seal (P.msg1Key broker e) 0 (ad1 broker e) payload)
  | read1 broker ei ct1 (some psk) =>
    .ok (P.seal (P.key .msg2 broker ei e psk) 0 (ad2 broker ei ct1 e) payload)
  | read1 _ _ _ none => .error .missingPsk
  | _ => .error .state

/-- What reading the next message opens. -/
def opening (hs : NoiseHs) (msg : Bytes) : Except NoiseError (Ephemeral × Sealed P) :=
  match hs, Ephemeral.take msg with
  | responder broker _, some (ei, ct) =>
    match P.unseal (P.msg1Key broker ei) 0 (ad1 broker ei) ct with
    | some s => .ok (ei, s)
    | none => .error .decrypt
  | wrote1 broker ei ct1 psk, some (er, ct) =>
    match P.unseal (P.key .msg2 broker ei er psk) 0 (ad2 broker ei ct1 er) ct with
    | some s => .ok (er, s)
    | none => .error .decrypt
  | responder .., none | wrote1 .., none => .error .input
  | _, _ => .error .state

/-- The handshake after a message, with its ephemeral and its ciphertext. -/
def after (hs : NoiseHs) (e : Ephemeral) (ct : Bytes) : NoiseHs :=
  match hs with
  | responder broker psk => read1 broker e ct psk
  | initiator broker psk => wrote1 broker e ct psk
  | read1 broker ei _ (some psk) => finished false broker ei e psk
  | wrote1 broker ei _ psk => finished true broker ei e psk
  | hs => hs

/-- `HandshakeState::write_message`. -/
def write (hs : NoiseHs) (e : Ephemeral) (payload : Bytes) : Except NoiseError (Bytes × NoiseHs) :=
  match hs.sealing P e payload with
  | .error err => .error err
  | .ok s =>
    if maxMessageSize < e.bytes.length + s.ciphertext.length then .error .input
    else .ok (e.bytes ++ s.ciphertext, hs.after e s.ciphertext)

/-- `HandshakeState::read_message`. -/
def read (hs : NoiseHs) (msg : Bytes) : Except NoiseError (Bytes × NoiseHs) :=
  match hs.opening P msg with
  | .error err => .error err
  | .ok (e, s) => .ok (s.plaintext, hs.after e s.ciphertext)

/-- `HandshakeState::set_psk`: only the slot of the pattern is ever read. -/
def setPsk (hs : NoiseHs) (slot : ℕ) (psk : Psk) : NoiseHs :=
  if slot ≠ pskSlot then hs
  else match hs with
    | responder broker _ => responder broker (some psk)
    | read1 broker ei ct1 _ => read1 broker ei ct1 (some psk)
    | initiator broker _ => initiator broker psk
    | wrote1 broker ei ct1 _ => wrote1 broker ei ct1 psk
    | hs => hs

/-- `HandshakeState::into_transport_mode`. -/
def intoTransportMode : NoiseHs → Except NoiseError NoiseTs
  | finished isInitiator broker ei er psk => .ok ⟨isInitiator, broker, ei, er, psk, 0, 0⟩
  | _ => .error .state

end NoiseHs

namespace NoiseTs

/-- What writing seals: the next nonce of the direction out. -/
def sealing (ts : NoiseTs) (plaintext : Bytes) : Sealed P :=
  P.seal (P.key (if ts.isInitiator then .request else .response) ts.broker ts.ei ts.er ts.psk)
    ts.sent [] plaintext

/-- What reading opens: the next nonce of the direction in. -/
def opening (ts : NoiseTs) (ciphertext : Bytes) : Option (Sealed P) :=
  P.unseal (P.key (if ts.isInitiator then .response else .request) ts.broker ts.ei ts.er ts.psk)
    ts.received [] ciphertext

/-- `TransportState::write_message`. -/
def write (ts : NoiseTs) (plaintext : Bytes) : Except NoiseError (Bytes × NoiseTs) :=
  let s := ts.sealing P plaintext
  if maxMessageSize < s.ciphertext.length then .error .input
  else .ok (s.ciphertext, { ts with sent := ts.sent + 1 })

/-- `TransportState::read_message`. -/
def read (ts : NoiseTs) (ciphertext : Bytes) : Except NoiseError (Bytes × NoiseTs) :=
  match ts.opening P ciphertext with
  | none => .error .decrypt
  | some s => .ok (s.plaintext, { ts with received := ts.received + 1 })

end NoiseTs

/-- **The pattern**, as the entry points the session uses. -/
def noise : Snow where
  Hs := NoiseHs
  Ts := NoiseTs
  Err := NoiseError
  Seed := Ephemeral
  buildResponder key := .ok (.responder (P.derivePublic key) none)
  buildInitiator psk broker := .ok (.initiator broker psk)
  readMessage := NoiseHs.read P
  writeMessage := NoiseHs.write P
  setPsk hs slot psk := .ok (hs.setPsk slot psk)
  intoTransportMode := NoiseHs.intoTransportMode
  readTransport := NoiseTs.read P
  writeTransport := NoiseTs.write P

/-- **The implementation keeps to the pattern**: a state of it stands for a state of the
pattern, and what it does when it succeeds is what the pattern does. When it refuses is its
own affair. -/
structure Snow.Follows (S : Snow) (P : Primitives) where
  /-- The handshake. -/
  hs : S.Hs → NoiseHs
  /-- The transport state. -/
  ts : S.Ts → NoiseTs
  /-- The public half of the ephemeral key that is drawn. -/
  ephemeral : S.Seed → Ephemeral
  /-- A responder begins with the broker's key, and with no other. -/
  buildResponder : ∀ {key h}, S.buildResponder key = .ok h →
    hs h = .responder (P.derivePublic key) none
  /-- An initiator begins with the broker's public key and its own. -/
  buildInitiator : ∀ {psk broker h}, S.buildInitiator psk broker = .ok h →
    hs h = .initiator broker psk
  /-- A handshake message that is read. -/
  readMessage : ∀ {h msg payload h'}, S.readMessage h msg = .ok (payload, h') →
    (hs h).read P msg = .ok (payload, hs h')
  /-- A handshake message that is written. -/
  writeMessage : ∀ {h seed payload msg h'}, S.writeMessage h seed payload = .ok (msg, h') →
    (hs h).write P (ephemeral seed) payload = .ok (msg, hs h')
  /-- The key goes into its slot. -/
  setPsk : ∀ {h slot psk h'}, S.setPsk h slot psk = .ok h' → hs h' = (hs h).setPsk slot psk
  /-- The end of the handshake. -/
  intoTransportMode : ∀ {h t}, S.intoTransportMode h = .ok t →
    (hs h).intoTransportMode = .ok (ts t)
  /-- What is decrypted. -/
  readTransport : ∀ {t ciphertext plaintext t'},
    S.readTransport t ciphertext = .ok (plaintext, t') →
      (ts t).read P ciphertext = .ok (plaintext, ts t')
  /-- What is encrypted. -/
  writeTransport : ∀ {t plaintext ciphertext t'},
    S.writeTransport t plaintext = .ok (ciphertext, t') →
      (ts t).write P plaintext = .ok (ciphertext, ts t')

/-- The pattern keeps to itself. -/
def noiseFollows : (noise P).Follows P where
  hs := id
  ts := id
  ephemeral := id
  buildResponder h := (Except.ok.inj h).symm
  buildInitiator h := (Except.ok.inj h).symm
  readMessage := id
  writeMessage := id
  setPsk h := (Except.ok.inj h).symm
  intoTransportMode := id
  readTransport := id
  writeTransport := id

/-! ### The messages of the pattern -/

variable {P}

theorem Primitives.unseal_eq_some_iff {key : P.Key} {nonce : ℕ} {ad : List Bytes}
    {ciphertext : Bytes} {o : Sealed P} :
    P.unseal key nonce ad ciphertext = some o ↔
      ∃ plaintext, P.decrypt key nonce ad ciphertext = some plaintext ∧
        o = ⟨key, nonce, ad, plaintext, ciphertext⟩ := by
  rw [Primitives.unseal, Option.map_eq_some_iff]
  exact exists_congr fun _ => and_congr_right fun _ => eq_comm

namespace NoiseHs

variable {broker : BrokerPublicKey} {ei e : Ephemeral} {ct1 msg payload : Bytes} {hs' : NoiseHs}

/-- The first message, read. -/
theorem read_responder {psk : Option Psk}
    (h : read P (responder broker psk) msg = .ok (payload, hs')) :
    ∃ ei ct, msg = ei.bytes ++ ct ∧
      P.decrypt (P.msg1Key broker ei) 0 (ad1 broker ei) ct = some payload ∧
      hs' = read1 broker ei ct psk := by
  rcases ht : Ephemeral.take msg with - | ⟨ei, ct⟩
  · simp [read, opening, ht] at h
  · rcases hu : P.unseal (P.msg1Key broker ei) 0 (ad1 broker ei) ct with - | o
    · simp [read, opening, ht, hu] at h
    · obtain ⟨plaintext, hd, rfl⟩ := Primitives.unseal_eq_some_iff.mp hu
      simp only [read, opening, ht, hu, after, Except.ok.injEq, Prod.mk.injEq] at h
      obtain ⟨rfl, rfl⟩ := h
      exact ⟨ei, ct, Ephemeral.take_eq_some ht, hd, rfl⟩

/-- The second message, read. -/
theorem read_wrote1 {psk : Psk} (h : read P (wrote1 broker ei ct1 psk) msg = .ok (payload, hs')) :
    ∃ er ct, msg = er.bytes ++ ct ∧
      opening P (wrote1 broker ei ct1 psk) msg =
        .ok (er, ⟨P.key .msg2 broker ei er psk, 0, ad2 broker ei ct1 er, payload, ct⟩) ∧
      hs' = finished true broker ei er psk := by
  rcases ht : Ephemeral.take msg with - | ⟨er, ct⟩
  · simp [read, opening, ht] at h
  · rcases hu : P.unseal (P.key .msg2 broker ei er psk) 0 (ad2 broker ei ct1 er) ct with - | o
    · simp [read, opening, ht, hu] at h
    · obtain ⟨plaintext, -, rfl⟩ := Primitives.unseal_eq_some_iff.mp hu
      simp only [read, opening, ht, hu, after, Except.ok.injEq, Prod.mk.injEq] at h
      obtain ⟨rfl, rfl⟩ := h
      exact ⟨er, ct, Ephemeral.take_eq_some ht, by simp [opening, ht, hu], rfl⟩

/-- A message, written. -/
theorem write_eq_ok {hs : NoiseHs} (h : write P hs e payload = .ok (msg, hs')) :
    ∃ o, hs.sealing P e payload = .ok o ∧ msg = e.bytes ++ o.ciphertext ∧
      hs' = hs.after e o.ciphertext := by
  rcases hs₁ : hs.sealing P e payload with err | o
  · simp [write, hs₁] at h
  · simp only [write, hs₁] at h
    split at h
    · cases h
    · cases h
      exact ⟨o, rfl, rfl, rfl⟩

end NoiseHs

/-- A transport message, read. -/
theorem NoiseTs.read_eq_ok {ts ts' : NoiseTs} {ciphertext plaintext : Bytes}
    (h : NoiseTs.read P ts ciphertext = .ok (plaintext, ts')) :
    ts.opening P ciphertext = some ⟨P.key (if ts.isInitiator then .response else .request)
        ts.broker ts.ei ts.er ts.psk, ts.received, [], plaintext, ciphertext⟩ ∧
      ts' = { ts with received := ts.received + 1 } := by
  rcases hu : ts.opening P ciphertext with - | o
  · simp [read, hu] at h
  · obtain ⟨p, -, rfl⟩ := Primitives.unseal_eq_some_iff.mp hu
    simp only [read, hu, Except.ok.injEq, Prod.mk.injEq] at h
    obtain ⟨rfl, rfl⟩ := h
    exact ⟨rfl, rfl⟩

/-! ### Primitives that can be computed -/

/-- A broker's private key. -/
def plainKey : BrokerPrivateKey := ⟨List.replicate 32 7, List.length_replicate⟩

/-- The ephemeral of 32 equal bytes. -/
def Ephemeral.filled (b : UInt8) : Ephemeral := ⟨(Psk.filled b).bytes, (Psk.filled b).len⟩

/-- Primitives in the clear: a key is what goes into it, and the tag is the beginning of
the pre-shared key. -/
def plainPrimitives : Primitives where
  Key := Option (KeyUse × BrokerPublicKey × Ephemeral × Ephemeral × Psk)
  derivePublic key := ⟨key.bytes, key.len⟩
  msg1Key _ _ := none
  key use s ei er psk := some (use, s, ei, er, psk)
  encrypt k _ _ plaintext := (match k with
    | some (_, _, _, _, psk) => psk.bytes.take tagLen
    | none => List.replicate tagLen 0) ++ plaintext
  decrypt k _ _ ciphertext :=
    if ciphertext.take tagLen = (match k with
      | some (_, _, _, _, psk) => psk.bytes.take tagLen
      | none => List.replicate tagLen 0) then some (ciphertext.drop tagLen) else none

theorem plainPrimitives_lawful : plainPrimitives.Lawful where
  key_injective h := by
    simp only [plainPrimitives, Option.some.injEq, Prod.mk.injEq] at h
    exact h
  decrypt_encrypt k n ad plaintext := by
    rcases k with - | ⟨use, s, ei, er, psk⟩
    · simp [plainPrimitives]
    · have hlen : (psk.bytes.take tagLen).length = tagLen := by simp [psk.len, tagLen]
      simp [plainPrimitives, List.take_left' hlen, List.drop_left' hlen]
  length_encrypt k n ad plaintext := by
    rcases k with - | ⟨use, s, ei, er, psk⟩
    · simp [plainPrimitives, Nat.add_comm]
    · simp [plainPrimitives, psk.len, tagLen, Nat.add_comm]

end Symbolon
