import Symbolon.Lib.Pool
import Symbolon.Transport.Calls
import Symbolon.Transport.Noise

/-!
# Sessions on a hostile network

Any number of sessions of both kinds, of one broker, on a network that belongs to
somebody else. The adversary decides which session is called when, and with which bytes:
it may deliver what a session wrote, to any session, whole or in pieces, as often as it
likes, or not at all; and it may make bytes up. So there is no network in the model.
There is a pool of sessions (`Lts.Pool`), and a `recv` may come with any bytes.

What keeps the adversary in bounds is the cryptography. The implementation is any that keeps
to the pattern (`Symbolon.Snow.Follows`), so what a call encrypts and decrypts can be read off
the pattern. A call records it (`Symbolon.Exchange`), and two assumptions are made of a run:

* `Symbolon.Fresh` – no two sessions draw the same ephemeral key;
* `Symbolon.Unforgeable` – what decrypts under a key that involves a certain pre-shared
  key was encrypted by one of the sessions before: the same key, nonce, associated data
  and plaintext, to the same ciphertext.

The second is only asked for the one pre-shared key that the adversary is meant not to
know. Everything under other keys, and every first message, it can make itself.
-/

namespace Symbolon

open Text Lts

variable {S : Snow} {P : Primitives}

/-! ### What a call encrypts and decrypts -/

section Uses

variable (F : S.Follows P)

/-- What reading a handshake message decrypts, if it is read. -/
def Snow.Follows.openedBy (hs : S.Hs) (msg : Bytes) : Option (Sealed P) :=
  match S.readMessage hs msg with
  | .error _ => none
  | .ok _ => ((F.hs hs).opening P msg).toOption.map Prod.snd

/-- What reading a transport message decrypts, if it is read. -/
def Snow.Follows.openedIn (ts : S.Ts) (ciphertext : Bytes) : Option (Sealed P) :=
  match S.readTransport ts ciphertext with
  | .error _ => none
  | .ok _ => (F.ts ts).opening P ciphertext

/-- What a call of a responder decrypts. -/
def RState.opens (s : RState S) : SessionCall S → Option (Sealed P)
  | .recv bytes =>
    match s with
    | .wantHsBody hs n => if n = bytes.length then F.openedBy hs bytes else none
    | .wantReqBody ts n => if n = bytes.length then F.openedIn ts bytes else none
    | _ => none
  | _ => none

/-- What a call of a responder encrypts. -/
def RState.seals (s : RState S) : SessionCall S → Option (Sealed P)
  | .setPsk psk seed =>
    match s with
    | .awaitingPsk hs =>
      (((F.hs hs).setPsk pskSlot psk).sealing P (F.ephemeral seed) []).toOption
    | _ => none
  | .setResponse plaintext =>
    match s with
    | .awaitingResponse ts => some ((F.ts ts).sealing P plaintext)
    | _ => none
  | _ => none

/-- What a call of an initiator decrypts. -/
def IState.opens (s : IState S) : SessionCall S → Option (Sealed P)
  | .recv bytes =>
    match s with
    | .wantHs2Body hs n _ => if n = bytes.length then F.openedBy hs bytes else none
    | .wantRespBody ts n => if n = bytes.length then F.openedIn ts bytes else none
    | _ => none
  | _ => none

/-- What a call of an initiator encrypts: the request, as soon as the second message has
been read. -/
def IState.seals (s : IState S) : SessionCall S → Option (Sealed P)
  | .recv bytes =>
    match s with
    | .wantHs2Body hs _ request =>
      match S.readMessage hs bytes with
      | .error _ => none
      | .ok (_, hs) =>
        match S.intoTransportMode hs with
        | .error _ => none
        | .ok ts => some ((F.ts ts).sealing P request)
    | _ => none
  | _ => none

end Uses

variable (S P) in
/-- **What comes of a call**: its result, and the uses of the encryption on the way. A
call that fails leaves no ciphertext behind. -/
structure Exchange where
  /-- The result. -/
  reply : Reply S
  /-- What was decrypted. -/
  opened : Option (Sealed P)
  /-- What was encrypted. -/
  sealed : Option (Sealed P)

/-! ### The sessions -/

variable (S) in
/-- What a session is built from. -/
inductive SessionSpec
  /-- A responder: only the broker's key. -/
  | responder
  /-- An initiator: the client's identity and key, its request, and the randomness of the
  first message. -/
  | initiator (identity : Identity) (psk : Psk) (request : Bytes) (seed : S.Seed)

variable (S) in
/-- A session. -/
inductive Session
  /-- The broker's side. -/
  | responder (s : RState S)
  /-- A client's side. -/
  | initiator (s : IState S)

variable (P) in
/-- Build a session of the broker with this key. -/
def Session.make (key : BrokerPrivateKey) : SessionSpec S → Option (Session S)
  | .responder =>
    match Responder.new S key with
    | .error _ => none
    | .ok s => some (.responder s)
  | .initiator identity psk request seed =>
    match Initiator.new S identity psk (P.derivePublic key) request seed with
    | .error _ => none
    | .ok s => some (.initiator s)

/-- Call a session. -/
def Session.exchange (F : S.Follows P) :
    Session S → SessionCall S → Option (Session S × Exchange S P)
  | .responder s, c =>
    match s.call c with
    | none => none
    | some (s', r) =>
      some (.responder s', ⟨r, s.opens F c, if r.err.isNone then s.seals F c else none⟩)
  | .initiator s, c =>
    match s.call c with
    | none => none
    | some (s', r) =>
      some (.initiator s', ⟨r, s.opens F c, if r.err.isNone then s.seals F c else none⟩)

/-- **The sessions of a broker**, under every schedule and with any bytes. -/
def Net.next (F : S.Follows P) (key : BrokerPrivateKey) : List (Session S) →
    Pool.Event (SessionSpec S) (SessionCall S) →
    Option (List (Session S) × Pool.Output (Exchange S P)) :=
  Pool.next (Session.make P key) (Session.exchange F)

variable (S P) in
/-- An event of the sessions with what came of it. -/
abbrev NetLabel := Pool.Label (SessionSpec S) (SessionCall S) (Exchange S P)

/-- A run of the sessions, from none. -/
abbrev Net.Run (F : S.Follows P) (key : BrokerPrivateKey) (ls : List (NetLabel S P))
    (sessions : List (Session S)) : Prop :=
  Lts.Run (ofFun (Net.next F key)) [] ls sessions

/-! ### The assumptions -/

/-- What was decrypted. -/
def NetLabel.opened : NetLabel S P → Option (Sealed P)
  | (.call _ _, .did x) => x.opened
  | _ => none

/-- What was encrypted. An initiator computes its first message when it is built. -/
def NetLabel.sealed (F : S.Follows P) (key : BrokerPrivateKey) :
    NetLabel S P → Option (Sealed P)
  | (.create (.initiator identity psk _ seed), _) =>
    (NoiseHs.sealing P (.initiator (P.derivePublic key) psk) (F.ephemeral seed)
      (encodeIdentityTlv identity)).toOption
  | (.call _ _, .did x) => x.sealed
  | _ => none

/-- The ephemeral key that was drawn. -/
def NetLabel.drawn (F : S.Follows P) : NetLabel S P → Option Ephemeral
  | (.create (.initiator _ _ _ seed), _) => some (F.ephemeral seed)
  | (.call _ (.setPsk _ seed), .did x) =>
    if x.reply.err.isNone then some (F.ephemeral seed) else none
  | _ => none

/-- **The ephemeral keys are fresh.** -/
def Fresh (F : S.Follows P) (ls : List (NetLabel S P)) : Prop :=
  (ls.filterMap (NetLabel.drawn F)).Nodup

/-- The key of this use of the encryption involves the pre-shared key. -/
def Sealed.Involves (o : Sealed P) (psk : Psk) : Prop :=
  ∃ use broker ei er, o.key = P.key use broker ei er psk

/-- **What decrypts under a key that involves the pre-shared key was encrypted by a
session before.** -/
def Unforgeable (F : S.Follows P) (key : BrokerPrivateKey) (psk : Psk) (ls : List (NetLabel S P)) :
    Prop :=
  ∀ pre l post, ls = pre ++ l :: post → ∀ o, NetLabel.opened l = some o → o.Involves psk →
    ∃ k ∈ pre, NetLabel.sealed F key k = some o

variable {F : S.Follows P}

/-- Whoever draws the same ephemeral key is the same. -/
theorem Fresh.eq_of_drawn {ls : List (NetLabel S P)} {k l : NetLabel S P} {e : Ephemeral}
    (h : Fresh F ls) (hk : k ∈ ls) (hl : l ∈ ls) (hke : NetLabel.drawn F k = some e)
    (hle : NetLabel.drawn F l = some e) : k = l := by
  induction ls with
  | nil => cases hk
  | cons a ls ih =>
    rcases List.mem_cons.mp hk with rfl | hk' <;> rcases List.mem_cons.mp hl with rfl | hl'
    · rfl
    · -- the head draws `e`, and so does something after it
      rw [Fresh, List.filterMap_cons_some hke, List.nodup_cons] at h
      exact absurd (List.mem_filterMap.mpr ⟨l, hl', hle⟩) h.1
    · rw [Fresh, List.filterMap_cons_some hle, List.nodup_cons] at h
      exact absurd (List.mem_filterMap.mpr ⟨k, hk', hke⟩) h.1
    · refine ih ?_ hk' hl'
      rcases ha : NetLabel.drawn F a with - | d
      · rwa [Fresh, List.filterMap_cons_none ha] at h
      · rw [Fresh, List.filterMap_cons_some ha, List.nodup_cons] at h
        exact h.2

/-- The rule for an opened record, by the label that opened it. -/
theorem Unforgeable.exists_sealed {key : BrokerPrivateKey} {psk : Psk} {ls : List (NetLabel S P)}
    {l : NetLabel S P} {o : Sealed P} (h : Unforgeable F key psk ls) (hl : l ∈ ls)
    (ho : NetLabel.opened l = some o) (hpsk : o.Involves psk) :
    ∃ k ∈ ls, NetLabel.sealed F key k = some o := by
  obtain ⟨pre, post, rfl⟩ := List.append_of_mem hl
  obtain ⟨k, hk, hs⟩ := h pre l post rfl o ho hpsk
  exact ⟨k, List.mem_append_left _ hk, hs⟩

/-- Everything that decrypts has been encrypted: the strongest form of the assumption, and
one that a computed run can be checked against. -/
def Accounted (F : S.Follows P) (key : BrokerPrivateKey) :
    List (Sealed P) → List (NetLabel S P) → Prop
  | _, [] => True
  | made, l :: ls =>
    (∀ o ∈ NetLabel.opened l, o ∈ made) ∧
      Accounted F key (made ++ (NetLabel.sealed F key l).toList) ls

theorem Accounted.exists_sealed {key : BrokerPrivateKey} {l : NetLabel S P} {o : Sealed P}
    (ho : NetLabel.opened l = some o) :
    ∀ {pre post : List (NetLabel S P)} {made : List (Sealed P)},
      Accounted F key made (pre ++ l :: post) →
        o ∈ made ∨ ∃ k ∈ pre, NetLabel.sealed F key k = some o
  | [], _, _, h => .inl (h.1 o ho)
  | k :: pre, _, made, h => by
    rcases Accounted.exists_sealed ho h.2 with hmem | ⟨k', hk', hs⟩
    · rcases List.mem_append.mp hmem with hmade | hk
      · exact .inl hmade
      · exact .inr ⟨k, List.mem_cons_self, Option.mem_toList.mp hk⟩
    · exact .inr ⟨k', List.mem_cons_of_mem _ hk', hs⟩

theorem Accounted.unforgeable {key : BrokerPrivateKey} {ls : List (NetLabel S P)}
    (h : Accounted F key [] ls) (psk : Psk) : Unforgeable F key psk ls := by
  rintro pre l post rfl o ho -
  rcases h.exists_sealed ho with hnil | hk
  · cases hnil
  · exact hk

/-! ### What a session has done -/

variable (S P) in
/-- The calls of one session, with what came of them. -/
abbrev Calls := List (SessionCall S × Exchange S P)

/-- The calls of the session at a position. -/
abbrev callsOf (i : ℕ) (ls : List (NetLabel S P)) : Calls S P := Pool.calls i ls

namespace Calls

/-- The bytes a session took. -/
def fed (cs : Calls S P) : List Bytes := cs.filterMap fun
  | (.recv bytes, x) => if x.reply.err.isNone then some bytes else none
  | _ => none

/-- The keys a session took, with the ephemeral key drawn for the message they went into. -/
def keys (F : S.Follows P) (cs : Calls S P) : List (Psk × Ephemeral) := cs.filterMap fun
  | (.setPsk psk seed, x) => if x.reply.err.isNone then some (psk, F.ephemeral seed) else none
  | _ => none

/-- The identities a session asked the key of. -/
def asked (cs : Calls S P) : List Identity := cs.filterMap fun
  | (_, ⟨.step (.ok (.needPsk identity)), _, _⟩) => some identity
  | _ => none

/-- What a session gave out to be written. -/
def written (cs : Calls S P) : List Bytes := cs.filterMap fun
  | (_, ⟨.step (.ok (.write bytes)), _, _⟩) => some bytes
  | _ => none

end Calls

end Symbolon
