import Symbolon.Transport.Network

/-!
# The stages of a session

What a session on a hostile network can have done, by where it is. A responder at a given
state has taken certain messages, asked for certain keys, been given certain keys and
given certain messages out (`Symbolon.Had`), and the cryptography that went into them is
carried along as evidence: `Symbolon.Named` for a first message that names an identity,
`Symbolon.Committed` for the answer to it. An initiator is followed up to the second
message, after which it does nothing that matters here.

**Every session is at a stage of the calls it has had** (`Symbolon.staged_of_run`),
whatever those calls were.
-/

namespace Symbolon

open Text Lts

variable {S : Snow} {P : Primitives}

/-! ### What a session has done, as a whole -/

/-- What a session took, what it asked, which keys it took, and what it gave out. -/
structure Had (F : S.Follows P) (cs : Calls S P) (f : List Bytes) (a : List Identity)
    (k : List (Psk × Ephemeral)) (w : List Bytes) : Prop where
  /-- What it took. -/
  fed : cs.fed = f
  /-- What it asked. -/
  asked : cs.asked = a
  /-- Which keys it took. -/
  keys : cs.keys F = k
  /-- What it gave out. -/
  written : cs.written = w

section Had

variable {F : S.Follows P} {cs : Calls S P} {c : SessionCall S} {x : Exchange S P}
  {f f' : List Bytes} {a a' : List Identity} {k k' : List (Psk × Ephemeral)} {w w' : List Bytes}

theorem had_nil : Had F ([] : Calls S P) [] [] [] [] := ⟨rfl, rfl, rfl, rfl⟩

theorem Had.snoc (h : Had F cs f a k w) (h' : Had F [(c, x)] f' a' k' w') :
    Had F (cs ++ [(c, x)]) (f ++ f') (a ++ a') (k ++ k') (w ++ w') where
  fed := by rw [Calls.fed, List.filterMap_append, ← h.fed, ← h'.fed]; rfl
  asked := by rw [Calls.asked, List.filterMap_append, ← h.asked, ← h'.asked]; rfl
  keys := by rw [Calls.keys, List.filterMap_append, ← h.keys, ← h'.keys]; rfl
  written := by rw [Calls.written, List.filterMap_append, ← h.written, ← h'.written]; rfl

/-- An idle call adds nothing. -/
theorem Had.idle (h : Had F cs f a k w) (hi : Idle c x.reply) : Had F (cs ++ [(c, x)]) f a k w := by
  obtain ⟨r, o, s⟩ := x
  have hnone : Had F [(c, (⟨r, o, s⟩ : Exchange S P))] [] [] [] [] := by
    cases hi with
    | readExact n => exact ⟨rfl, rfl, rfl, rfl⟩
    | done => exact ⟨rfl, rfl, rfl, rfl⟩
    | wrongState he =>
      have he' : r.err ≠ none := fun h => by rw [he] at h; cases h
      refine ⟨?_, ?_, ?_, ?_⟩
      · cases c <;> simp [Calls.fed, he']
      · rcases r with (e | st) | (e | u) | (e | b) <;> first | rfl | cases he
      · cases c <;> simp [Calls.keys, he']
      · rcases r with (e | st) | (e | u) | (e | b) <;> first | rfl | cases he
  simpa using h.snoc hnone

variable {bytes : Bytes} {o s : Option (Sealed P)}

theorem Had.recv (h : Had F cs f a k w) :
    Had F (cs ++ [(.recv bytes, ⟨.unit (.ok ()), o, s⟩)]) (f ++ [bytes]) a k w := by
  have hone : Had F [(.recv bytes, (⟨.unit (.ok ()), o, s⟩ : Exchange S P))] [bytes] [] [] [] :=
    ⟨rfl, rfl, rfl, rfl⟩
  simpa using h.snoc hone

theorem Had.ask {identity : Identity} (h : Had F cs f a k w) :
    Had F (cs ++ [(.step, ⟨.step (.ok (.needPsk identity)), o, s⟩)]) f (a ++ [identity]) k w := by
  have hone : Had F [(.step, (⟨.step (.ok (.needPsk identity)), o, s⟩ : Exchange S P))]
      [] [identity] [] [] := ⟨rfl, rfl, rfl, rfl⟩
  simpa using h.snoc hone

theorem Had.setPsk {psk : Psk} {seed : S.Seed} (h : Had F cs f a k w) :
    Had F (cs ++ [(.setPsk psk seed, ⟨.unit (.ok ()), o, s⟩)]) f a
      (k ++ [(psk, F.ephemeral seed)]) w := by
  have hone : Had F [(.setPsk psk seed, (⟨.unit (.ok ()), o, s⟩ : Exchange S P))] [] []
      [(psk, F.ephemeral seed)] [] := ⟨rfl, rfl, rfl, rfl⟩
  simpa using h.snoc hone

theorem Had.write (h : Had F cs f a k w) :
    Had F (cs ++ [(.step, ⟨.step (.ok (.write bytes)), o, s⟩)]) f a k (w ++ [bytes]) := by
  have hone : Had F [(.step, (⟨.step (.ok (.write bytes)), o, s⟩ : Exchange S P))]
      [] [] [] [bytes] := ⟨rfl, rfl, rfl, rfl⟩
  simpa using h.snoc hone

theorem Had.wrote (h : Had F cs f a k w) :
    Had F (cs ++ [(.wrote, ⟨.unit (.ok ()), o, s⟩)]) f a k w := by
  have hone : Had F [(.wrote, (⟨.unit (.ok ()), o, s⟩ : Exchange S P))] [] [] [] [] :=
    ⟨rfl, rfl, rfl, rfl⟩
  simpa using h.snoc hone

end Had

/-! ### The responder, by how far it has come -/

variable (P) in
/-- A first message that names an identity. -/
structure Named (broker : BrokerPublicKey) where
  /-- The client's ephemeral. -/
  ei : Ephemeral
  /-- The encrypted identity. -/
  ct1 : Bytes
  /-- The identity. -/
  identity : Identity
  /-- It is what the message decrypts to. -/
  decrypts : P.decrypt (P.msg1Key broker ei) 0 (NoiseHs.ad1 broker ei) ct1 =
    some (encodeIdentityTlv identity)

variable (P) in
/-- A key for it, and the broker's ephemeral. -/
structure Committed (broker : BrokerPublicKey) extends Named P broker where
  /-- The broker's ephemeral. -/
  er : Ephemeral
  /-- The key. -/
  psk : Psk

variable {broker : BrokerPublicKey}

/-- The first message. -/
def Named.msg1 (m : Named P broker) : Bytes := m.ei.bytes ++ m.ct1

/-- The handshake after the first message. -/
def Named.hs (m : Named P broker) : NoiseHs := .read1 broker m.ei m.ct1 none

namespace Committed

variable (m : Committed P broker)

/-- What the second message encrypts: nothing, with the transcript as associated data. -/
def sealed2 : Sealed P :=
  P.seal (P.key .msg2 broker m.ei m.er m.psk) 0 (NoiseHs.ad2 broker m.ei m.ct1 m.er) []

/-- The second message. -/
def msg2 : Bytes := m.er.bytes ++ m.sealed2.ciphertext

/-- The handshake after the second message. -/
def hs2 : NoiseHs := .finished false broker m.ei m.er m.psk

/-- The transport state it ends in, after some messages read. -/
def ts (received : ℕ) : NoiseTs := ⟨false, broker, m.ei, m.er, m.psk, 0, received⟩

/-- What a request decrypts as. -/
def request (plaintext ciphertext : Bytes) : Sealed P :=
  ⟨P.key .request broker m.ei m.er m.psk, 0, [], plaintext, ciphertext⟩

end Committed

/-- Nothing is taken or encrypted any more. -/
def RState.IsOver {S : Snow} : RState S → Prop
  | .writeResp _ | .wroteRespPending | .done | .failed => True
  | _ => False

/-- **Where a responder is, and what it has done to get there.** -/
inductive RStage (F : S.Follows P) (broker : BrokerPublicKey) (cs : Calls S P) : RState S → Prop
  /-- At the beginning. -/
  | start {hs : S.Hs} (hhs : F.hs hs = .responder broker none) (h : Had F cs [] [] [] []) :
      RStage F broker cs (.wantHsLen hs)
  /-- The length of the first message is known. -/
  | hsBody {hs : S.Hs} {l : Bytes} {n : ℕ} (hhs : F.hs hs = .responder broker none)
      (h : Had F cs [l] [] [] []) : RStage F broker cs (.wantHsBody hs n)
  /-- The first message names an identity. -/
  | named {hs : S.Hs} {l : Bytes} (m : Named P broker) (hhs : F.hs hs = m.hs)
      (h : Had F cs [l, m.msg1] [] [] []) : RStage F broker cs (.needPsk hs m.identity)
  /-- Its key has been asked for. -/
  | asked {hs : S.Hs} {l : Bytes} (m : Named P broker) (hhs : F.hs hs = m.hs)
      (h : Had F cs [l, m.msg1] [m.identity] [] []) : RStage F broker cs (.awaitingPsk hs)
  /-- The key is there, and the second message is ready. -/
  | keyed {hs : S.Hs} {l out : Bytes} (m : Committed P broker) (hhs : F.hs hs = m.hs2)
      (hout : frame m.msg2 = some out)
      (h : Had F cs [l, m.msg1] [m.identity] [(m.psk, m.er)] []) :
      RStage F broker cs (.writeHs hs out)
  /-- The second message has been given out. -/
  | wrote {hs : S.Hs} {l out : Bytes} (m : Committed P broker) (hhs : F.hs hs = m.hs2)
      (hout : frame m.msg2 = some out)
      (h : Had F cs [l, m.msg1] [m.identity] [(m.psk, m.er)] [out]) :
      RStage F broker cs (.wroteHsPending hs)
  /-- The handshake is over. -/
  | reqLen {ts : S.Ts} {l out : Bytes} (m : Committed P broker) (hts : F.ts ts = m.ts 0)
      (hout : frame m.msg2 = some out)
      (h : Had F cs [l, m.msg1] [m.identity] [(m.psk, m.er)] [out]) :
      RStage F broker cs (.wantReqLen ts)
  /-- The length of the request is known. -/
  | reqBody {ts : S.Ts} {l l' out : Bytes} {n : ℕ} (m : Committed P broker)
      (hts : F.ts ts = m.ts 0) (hout : frame m.msg2 = some out)
      (h : Had F cs [l, m.msg1, l'] [m.identity] [(m.psk, m.er)] [out]) :
      RStage F broker cs (.wantReqBody ts n)
  /-- The request has been decrypted. -/
  | request {ts : S.Ts} {l l' out ct p : Bytes} (m : Committed P broker) (hts : F.ts ts = m.ts 1)
      (hout : frame m.msg2 = some out)
      (h : Had F cs [l, m.msg1, l', ct] [m.identity] [(m.psk, m.er)] [out])
      (hopen : ∃ y ∈ cs, y.2.opened = some (m.request p ct)) :
      RStage F broker cs (.haveRequest ts p)
  /-- The request has been given out. -/
  | answering {ts : S.Ts} (h : (F.ts ts).isInitiator = false) :
      RStage F broker cs (.awaitingResponse ts)
  /-- At the end. -/
  | ended {s : RState S} (h : s.IsOver) : RStage F broker cs s

section RStage

variable {F : S.Follows P} {cs : Calls S P} {s s' : RState S} {c : SessionCall S}
  {x : Exchange S P}

theorem RStage.idle (h : RStage F broker cs s) (hi : Idle c x.reply) :
    RStage F broker (cs ++ [(c, x)]) s := by
  cases h with
  | start hhs h => exact .start hhs (h.idle hi)
  | hsBody hhs h => exact .hsBody hhs (h.idle hi)
  | named m hhs h => exact .named m hhs (h.idle hi)
  | asked m hhs h => exact .asked m hhs (h.idle hi)
  | keyed m hhs hout h => exact .keyed m hhs hout (h.idle hi)
  | wrote m hhs hout h => exact .wrote m hhs hout (h.idle hi)
  | reqLen m hts hout h => exact .reqLen m hts hout (h.idle hi)
  | reqBody m hts hout h => exact .reqBody m hts hout (h.idle hi)
  | request m hts hout h hopen =>
    obtain ⟨y, hy, hyo⟩ := hopen
    exact .request m hts hout (h.idle hi) ⟨y, List.mem_append_left _ hy, hyo⟩
  | answering h => exact .answering h
  | ended h => exact .ended h

/-- The second message, as the responder writes it. -/
theorem exists_committed {m : Named P broker} {hs hs₂ hs₃ : S.Hs} {psk : Psk} {seed : S.Seed}
    {msg : Bytes} (hhs : F.hs hs = m.hs) (hset : S.setPsk hs pskSlot psk = .ok hs₂)
    (hwrite : S.writeMessage hs₂ seed [] = .ok (msg, hs₃)) :
    ∃ k : Committed P broker, k.toNamed = m ∧ k.er = F.ephemeral seed ∧ k.psk = psk ∧
      msg = k.msg2 ∧ F.hs hs₃ = k.hs2 := by
  have hhs₂ : F.hs hs₂ = .read1 broker m.ei m.ct1 (some psk) := by
    rw [F.setPsk hset, hhs]
    rfl
  have hwrite' := F.writeMessage hwrite
  rw [hhs₂] at hwrite'
  obtain ⟨o, ho, rfl, hhs₃⟩ := NoiseHs.write_eq_ok hwrite'
  obtain rfl := Except.ok.inj ho
  exact ⟨⟨m, F.ephemeral seed, psk⟩, rfl, rfl, rfl, rfl, hhs₃⟩

/-- **A step along the protocol takes a responder to the next stage.** -/
theorem RStage.progress {o : Option (Sealed P)} {r : Reply S} (h : RStage F broker cs s)
    (hp : RProgress s c r s') : RStage F broker (cs ++ [(c, ⟨r, s.opens F c, o⟩)]) s' := by
  cases hp with
  | hsLen hn =>
    cases h with
    | start hhs h => exact .hsBody hhs h.recv
    | ended h => exact h.elim
  | hsBody hr =>
    cases h with
    | hsBody hhs h =>
      have hread := F.readMessage hr
      rw [hhs] at hread
      obtain ⟨ei, ct, rfl, hd, hhs'⟩ := NoiseHs.read_responder hread
      exact .named ⟨ei, ct, _, hd⟩ hhs' h.recv
    | ended h => exact h.elim
  | ask =>
    cases h with
    | named m hhs h => exact .asked m hhs h.ask
    | ended h => exact h.elim
  | setPsk hset hwrite hframe =>
    cases h with
    | asked m hhs h =>
      obtain ⟨k, rfl, her, rfl, rfl, hhs'⟩ := exists_committed hhs hset hwrite
      exact .keyed k hhs' hframe (her ▸ h.setPsk)
    | ended h => exact h.elim
  | writeHs =>
    cases h with
    | keyed m hhs hout h => exact .wrote m hhs hout h.write
    | ended h => exact h.elim
  | wroteHs hinto =>
    cases h with
    | wrote m hhs hout h =>
      have hts := F.intoTransportMode hinto
      rw [hhs] at hts
      exact .reqLen m (Except.ok.inj hts).symm hout h.wrote
    | ended h => exact h.elim
  | reqLen hn =>
    cases h with
    | reqLen m hts hout h => exact .reqBody m hts hout h.recv
    | ended h => exact h.elim
  | reqBody hr =>
    cases h with
    | reqBody m hts hout h =>
      obtain ⟨hopen, hts'⟩ := NoiseTs.read_eq_ok (F.readTransport hr)
      rw [hts] at hopen hts'
      refine .request m hts' hout h.recv
        ⟨_, List.mem_append_right _ (List.mem_singleton_self _), ?_⟩
      simp only [RState.opens, if_true, Snow.Follows.openedIn, hr, hts]
      exact hopen
    | ended h => exact h.elim
  | request =>
    cases h with
    | request m hts hout h hopen => exact .answering (congrArg NoiseTs.isInitiator hts)
    | ended h => exact h.elim
  | setResponse he => exact .ended trivial
  | writeResp => exact .ended trivial
  | wroteResp => exact .ended trivial

end RStage

/-! ### The initiator, by how far it has come -/

variable (S) in
/-- What an initiator is built from. -/
structure Hello where
  /-- The client's identity. -/
  identity : Identity
  /-- The client's key. -/
  psk : Psk
  /-- The request. -/
  request : Bytes
  /-- The randomness of the first message. -/
  seed : S.Seed

namespace Hello

/-- The session it describes. -/
def spec (a : Hello S) : SessionSpec S := .initiator a.identity a.psk a.request a.seed

variable (F : S.Follows P) (broker : BrokerPublicKey) (a : Hello S)

/-- The client's ephemeral. -/
def ei : Ephemeral := F.ephemeral a.seed

/-- What the first message encrypts: the identity. -/
def sealed1 : Sealed P :=
  P.seal (P.msg1Key broker (a.ei F)) 0 (NoiseHs.ad1 broker (a.ei F)) (encodeIdentityTlv a.identity)

/-- The first message. -/
def msg1 : Bytes := (a.ei F).bytes ++ (a.sealed1 F broker).ciphertext

/-- The handshake after the first message. -/
def hs1 : NoiseHs := .wrote1 broker (a.ei F) (a.sealed1 F broker).ciphertext a.psk

end Hello

/-- The request has been encrypted, or never will be. -/
def IState.IsLater {S : Snow} : IState S → Prop
  | .writeHs1 .. | .wroteHs1Pending .. | .wantHs2Len .. | .wantHs2Body .. => False
  | _ => True

/-- **Where an initiator is, and what it has done to get there**, up to the second message. -/
inductive IStage (F : S.Follows P) (broker : BrokerPublicKey) (a : Hello S) (cs : Calls S P) :
    IState S → Prop
  /-- The first message is ready. -/
  | start {hs : S.Hs} {out : Bytes} (hhs : F.hs hs = a.hs1 F broker)
      (hout : frame (a.msg1 F broker) = some out) (h : Had F cs [] [] [] []) :
      IStage F broker a cs (.writeHs1 hs out a.request)
  /-- The first message has been given out. -/
  | wrote1 {hs : S.Hs} {out : Bytes} (hhs : F.hs hs = a.hs1 F broker)
      (hout : frame (a.msg1 F broker) = some out) (h : Had F cs [] [] [] [out]) :
      IStage F broker a cs (.wroteHs1Pending hs a.request)
  /-- It is on the wire. -/
  | hs2Len {hs : S.Hs} {out : Bytes} (hhs : F.hs hs = a.hs1 F broker)
      (hout : frame (a.msg1 F broker) = some out) (h : Had F cs [] [] [] [out]) :
      IStage F broker a cs (.wantHs2Len hs a.request)
  /-- The length of the second message is known. -/
  | hs2Body {hs : S.Hs} {out l : Bytes} {n : ℕ} (hhs : F.hs hs = a.hs1 F broker)
      (hout : frame (a.msg1 F broker) = some out) (h : Had F cs [l] [] [] [out]) :
      IStage F broker a cs (.wantHs2Body hs n a.request)
  /-- Afterwards. -/
  | later {s : IState S} (h : s.IsLater) : IStage F broker a cs s

section IStage

variable {F : S.Follows P} {cs : Calls S P} {s s' : IState S} {c : SessionCall S}
  {x : Exchange S P} {a : Hello S}

theorem IStage.idle (h : IStage F broker a cs s) (hi : Idle c x.reply) :
    IStage F broker a (cs ++ [(c, x)]) s := by
  cases h with
  | start hhs hout h => exact .start hhs hout (h.idle hi)
  | wrote1 hhs hout h => exact .wrote1 hhs hout (h.idle hi)
  | hs2Len hhs hout h => exact .hs2Len hhs hout (h.idle hi)
  | hs2Body hhs hout h => exact .hs2Body hhs hout (h.idle hi)
  | later h => exact .later h

/-- **A step along the protocol takes an initiator to the next stage.** -/
theorem IStage.progress {o o' : Option (Sealed P)} {r : Reply S} (h : IStage F broker a cs s)
    (hp : IProgress s c r s') : IStage F broker a (cs ++ [(c, ⟨r, o, o'⟩)]) s' := by
  cases hp with
  | writeHs1 =>
    cases h with
    | start hhs hout h => exact .wrote1 hhs hout h.write
    | later h => exact h.elim
  | wroteHs1 =>
    cases h with
    | wrote1 hhs hout h => exact .hs2Len hhs hout h.wrote
    | later h => exact h.elim
  | hs2Len hn =>
    cases h with
    | hs2Len hhs hout h => exact .hs2Body hhs hout h.recv
    | later h => exact h.elim
  | hs2Body | writeReq | wroteReq | respLen | respBody | take => exact .later trivial

/-- What an initiator is when it is built. -/
theorem IStage.new (h : Initiator.new S a.identity a.psk broker a.request a.seed = .ok s) :
    IStage F broker a [] s := by
  simp only [Initiator.new] at h
  split at h
  · cases h
  rename_i hs₀ hbuild
  split at h
  · cases h
  rename_i hs out hw
  obtain rfl : IState.writeHs1 hs out a.request = s := Except.ok.inj h
  unfold Initiator.writeMsg1 at hw
  split at hw
  · cases hw
  rename_i msg hs₁ hmsg
  split at hw
  · cases hw
  rename_i hout
  cases hw
  have hwrite := F.writeMessage hmsg
  rw [F.buildInitiator hbuild] at hwrite
  obtain ⟨o, ho, rfl, hhs⟩ := NoiseHs.write_eq_ok hwrite
  obtain rfl := Except.ok.inj ho
  exact .start hhs hout had_nil

end IStage

/-! ### Every session is at a stage -/

/-- A session is at a stage of the calls it has had. -/
inductive Staged (F : S.Follows P) (broker : BrokerPublicKey) (cs : Calls S P) :
    SessionSpec S → Session S → Prop
  /-- A responder. -/
  | responder {s : RState S} (h : RStage F broker cs s) :
      Staged F broker cs .responder (.responder s)
  /-- An initiator. -/
  | initiator {s : IState S} (a : Hello S) (h : IStage F broker a cs s) :
      Staged F broker cs a.spec (.initiator s)

section Staged

variable {F : S.Follows P} {cs : Calls S P} {c : SessionCall S} {x : Exchange S P}
  {spec : SessionSpec S} {s s' : Session S}

theorem exchange_responder {r : RState S}
    (h : (Session.responder r).exchange F c = some (s', x)) :
    ∃ r', s' = .responder r' ∧ r.Does c x.reply r' ∧ x.opened = r.opens F c ∧
      x.sealed = if x.reply.err.isNone then r.seals F c else none := by
  simp only [Session.exchange] at h
  split at h
  · cases h
  · rename_i r' reply hc
    cases h
    exact ⟨r', rfl, RState.call_cases hc, rfl, rfl⟩

theorem exchange_initiator {i : IState S}
    (h : (Session.initiator i).exchange F c = some (s', x)) :
    ∃ i', s' = .initiator i' ∧ i.Does c x.reply i' ∧ x.opened = i.opens F c ∧
      x.sealed = if x.reply.err.isNone then i.seals F c else none := by
  simp only [Session.exchange] at h
  split at h
  · cases h
  · rename_i i' reply hc
    cases h
    exact ⟨i', rfl, IState.call_cases hc, rfl, rfl⟩

theorem Staged.exchange (h : Staged F broker cs spec s) (hx : s.exchange F c = some (s', x)) :
    Staged F broker (cs ++ [(c, x)]) spec s' := by
  cases h with
  | responder h =>
    obtain ⟨r', rfl, hdoes, hopened, -⟩ := exchange_responder hx
    obtain ⟨reply, opened, sealed⟩ := x
    obtain rfl : opened = _ := hopened
    rcases hdoes with ⟨rfl, hidle⟩ | ⟨rfl, -⟩ | hp
    · exact .responder (h.idle hidle)
    · exact .responder (.ended trivial)
    · exact .responder (h.progress hp)
  | initiator a h =>
    obtain ⟨i', rfl, hdoes, -, -⟩ := exchange_initiator hx
    rcases hdoes with ⟨rfl, hidle⟩ | ⟨rfl, -⟩ | hp
    · exact .initiator a (h.idle hidle)
    · exact .initiator a (.later trivial)
    · exact .initiator a (h.progress hp)

theorem staged_of_make {key : BrokerPrivateKey} (h : Session.make P key spec = some s) :
    Staged F (P.derivePublic key) [] spec s := by
  cases spec with
  | responder =>
    simp only [Session.make, Responder.new] at h
    cases hb : S.buildResponder key with
    | error e => simp [hb] at h
    | ok hs =>
      simp only [hb, Option.some.injEq] at h
      subst h
      exact .responder (.start (F.buildResponder hb) had_nil)
  | initiator identity psk request seed =>
    simp only [Session.make] at h
    split at h
    · cases h
    · rename_i i hi
      cases h
      exact .initiator ⟨identity, psk, request, seed⟩ (.new hi)

/-- **Every session is at a stage**, whatever it was called for. -/
theorem staged_of_run {key : BrokerPrivateKey} {s₀ : Session S}
    (hmake : Session.make P key spec = some s₀)
    (hrun : Lts.Run (ofFun (Session.exchange F)) s₀ cs s) :
    Staged F (P.derivePublic key) cs spec s :=
  hrun.history (P := fun cs s => Staged F (P.derivePublic key) cs spec s)
    (fun _ _ _ _ hp hr => hp.exchange hr) (staged_of_make hmake)

end Staged

end Symbolon
