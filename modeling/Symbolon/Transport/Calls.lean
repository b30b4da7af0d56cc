import Symbolon.Transport.Session

/-!
# A session under arbitrary calls

The driver of the broker calls the methods of a session in the order the session asks
for. Nothing in `src/transport.rs` relies on that: every method is defined in every
state. So this file takes a session as a system of its own, in which any method may be
called at any time with any arguments (`Symbolon.SessionCall`), and says once what such a
call can do. There are three possibilities.

* The call is **idle** (`Symbolon.Idle`): the session repeats what it waits for, or it
  answers that this is not the time. The state is what it was.
* The call **fails**: the session is over.
* The call makes **progress** (`Symbolon.RProgress`, `Symbolon.IProgress`): one step
  along the protocol, for which there is one rule a state.

`Symbolon.RState.call_cases` and `Symbolon.IState.call_cases` say so; what is proved of
sessions elsewhere goes through them.
-/

namespace Symbolon

open Text

/-- A call of a method of a session. -/
inductive SessionCall (S : Snow)
  /-- What is wanted next? -/
  | step
  /-- Bytes that arrived. -/
  | recv (bytes : Bytes)
  /-- The key, and the randomness of the message it goes into. -/
  | setPsk (psk : Psk) (seed : S.Seed)
  /-- The bytes are on the wire. -/
  | wrote
  /-- The response. -/
  | setResponse (plaintext : Bytes)
  /-- Take the response out. -/
  | takeResponse

/-- The result of a call. -/
inductive Reply (S : Snow)
  /-- Of `step`. -/
  | step (result : Except (SessionError S.Err) SessionStep)
  /-- Of a method without a value. -/
  | unit (result : Except (SessionError S.Err) Unit)
  /-- Of `take_response`. -/
  | response (result : Except (SessionError S.Err) Bytes)

variable {S : Snow}

/-- The error of a reply. -/
def Reply.err : Reply S → Option (SessionError S.Err)
  | .step (.error e) | .unit (.error e) | .response (.error e) => some e
  | .step (.ok _) | .unit (.ok _) | .response (.ok _) => none

/-- The method was called at the wrong time. -/
def SessionError.isWrongState {ε : Type} : SessionError ε → Bool
  | .wrongState .. => true
  | _ => false

/-- A call of a responder's method; it has no `take_response`. -/
def RState.call (s : RState S) : SessionCall S → Option (RState S × Reply S)
  | .step => some (Prod.map id .step (Responder.step s))
  | .recv bytes => some (Prod.map id .unit (Responder.recv s bytes))
  | .setPsk psk seed => some (Prod.map id .unit (Responder.setPsk s psk seed))
  | .wrote => some (Prod.map id .unit (Responder.wrote s))
  | .setResponse plaintext => some (Prod.map id .unit (Responder.setResponse s plaintext))
  | .takeResponse => none

/-- A call of an initiator's method; it has no `set_psk` and no `set_response`. -/
def IState.call (s : IState S) : SessionCall S → Option (IState S × Reply S)
  | .step => some (Prod.map id .step (Initiator.step s))
  | .recv bytes => some (Prod.map id .unit (Initiator.recv s bytes))
  | .wrote => some (Prod.map id .unit (Initiator.wrote s))
  | .takeResponse => some (Prod.map id .response (Initiator.takeResponse s))
  | .setPsk .. | .setResponse .. => none

/-- **A call that changes nothing.** -/
inductive Idle : SessionCall S → Reply S → Prop
  /-- The session says again what it waits for. -/
  | readExact (n : ℕ) : Idle .step (.step (.ok (.readExact n)))
  /-- The session says again that it is complete. -/
  | done : Idle .step (.step (.ok .done))
  /-- It is not the time for this. -/
  | wrongState {c : SessionCall S} {r : Reply S} {method state : String}
      (h : r.err = some (.wrongState method state)) : Idle c r

/-- A call that ends the session: an error other than that it is not the time. -/
def Reply.Fatal (r : Reply S) : Prop := ∃ e, r.err = some e ∧ e.isWrongState = false

/-- An idle call without an error only asks what is wanted. -/
theorem Idle.eq_step {c : SessionCall S} {r : Reply S} (h : Idle c r) (herr : r.err = none) :
    c = .step := by
  cases h with
  | readExact | done => rfl
  | wrongState he => exact absurd (he.symm.trans herr) (Option.some_ne_none _)

theorem Reply.Fatal.err_ne {r : Reply S} (h : r.Fatal) : r.err ≠ none := by
  obtain ⟨e, he, -⟩ := h
  exact fun herr => Option.some_ne_none _ (he.symm.trans herr)

/-! ### The responder -/

/-- **The steps of a responder along the protocol.** -/
inductive RProgress : RState S → SessionCall S → Reply S → RState S → Prop
  /-- The length of the first message. -/
  | hsLen {hs : S.Hs} {bytes : Bytes} {n : ℕ}
      (h : (recvFrameLength bytes : Except (SessionError S.Err) ℕ) = .ok n) :
      RProgress (.wantHsLen hs) (.recv bytes) (.unit (.ok ())) (.wantHsBody hs n)
  /-- The first message. -/
  | hsBody {hs hs' : S.Hs} {bytes : Bytes} {identity : Identity}
      (h : S.readMessage hs bytes = .ok (encodeIdentityTlv identity, hs')) :
      RProgress (.wantHsBody hs bytes.length) (.recv bytes) (.unit (.ok ())) (.needPsk hs' identity)
  /-- The key is asked for. -/
  | ask {hs : S.Hs} {identity : Identity} :
      RProgress (.needPsk hs identity) .step (.step (.ok (.needPsk identity))) (.awaitingPsk hs)
  /-- The key is provided and the second message computed. -/
  | setPsk {hs hs₂ hs₃ : S.Hs} {psk : Psk} {seed : S.Seed} {msg out : Bytes}
      (hset : S.setPsk hs pskSlot psk = .ok hs₂)
      (hwrite : S.writeMessage hs₂ seed [] = .ok (msg, hs₃)) (hframe : frame msg = some out) :
      RProgress (.awaitingPsk hs) (.setPsk psk seed) (.unit (.ok ())) (.writeHs hs₃ out)
  /-- The second message is handed out. -/
  | writeHs {hs : S.Hs} {out : Bytes} :
      RProgress (.writeHs hs out) .step (.step (.ok (.write out))) (.wroteHsPending hs)
  /-- The second message is on the wire, and the handshake is over. -/
  | wroteHs {hs : S.Hs} {ts : S.Ts} (h : S.intoTransportMode hs = .ok ts) :
      RProgress (.wroteHsPending hs) .wrote (.unit (.ok ())) (.wantReqLen ts)
  /-- The length of the request. -/
  | reqLen {ts : S.Ts} {bytes : Bytes} {n : ℕ}
      (h : (recvFrameLength bytes : Except (SessionError S.Err) ℕ) = .ok n) :
      RProgress (.wantReqLen ts) (.recv bytes) (.unit (.ok ())) (.wantReqBody ts n)
  /-- The request. -/
  | reqBody {ts ts' : S.Ts} {bytes plaintext : Bytes}
      (h : S.readTransport ts bytes = .ok (plaintext, ts')) :
      RProgress (.wantReqBody ts bytes.length) (.recv bytes) (.unit (.ok ()))
        (.haveRequest ts' plaintext)
  /-- The request is handed out. -/
  | request {ts : S.Ts} {plaintext : Bytes} :
      RProgress (.haveRequest ts plaintext) .step (.step (.ok (.request plaintext)))
        (.awaitingResponse ts)
  /-- The response is provided and encrypted. -/
  | setResponse {ts ts' : S.Ts} {plaintext out : Bytes}
      (h : Responder.encrypt ts plaintext = .ok (ts', out)) :
      RProgress (.awaitingResponse ts) (.setResponse plaintext) (.unit (.ok ())) (.writeResp out)
  /-- The response is handed out. -/
  | writeResp {out : Bytes} :
      RProgress (.writeResp out) .step (.step (.ok (.write out))) .wroteRespPending
  /-- The response is on the wire. -/
  | wroteResp : RProgress .wroteRespPending .wrote (.unit (.ok ())) .done

/-- What a call does to a responder. -/
def RState.Does (s : RState S) (c : SessionCall S) (r : Reply S) (s' : RState S) : Prop :=
  (s' = s ∧ Idle c r) ∨ (s' = .failed ∧ r.Fatal) ∨ RProgress s c r s'

namespace Responder

variable {s : RState S}

theorem does_step : s.Does .step (.step (step s).2) (step s).1 := by
  cases s with
  | needPsk => exact .inr (.inr .ask)
  | writeHs => exact .inr (.inr .writeHs)
  | haveRequest => exact .inr (.inr .request)
  | writeResp => exact .inr (.inr .writeResp)
  | wantHsLen | wantHsBody | wantReqLen | wantReqBody => exact .inl ⟨rfl, .readExact _⟩
  | done => exact .inl ⟨rfl, .done⟩
  | failed | awaitingPsk | wroteHsPending | awaitingResponse | wroteRespPending =>
    exact .inl ⟨rfl, .wrongState rfl⟩

/-- A frame length is refused for its size or for its own length. -/
theorem fatal_of_recvFrameLength {bytes : Bytes} {e : SessionError S.Err}
    (h : recvFrameLength bytes = .error e) : (Reply.unit (S := S) (.error e)).Fatal := by
  refine ⟨e, rfl, ?_⟩
  unfold recvFrameLength at h
  split at h
  · split at h <;> cases h
    rfl
  · cases h
    rfl

theorem fatal_of_readMsg1 {hs : S.Hs} {bytes : Bytes} {e : SessionError S.Err}
    (h : readMsg1 hs bytes = .error e) : (Reply.unit (S := S) (.error e)).Fatal := by
  refine ⟨e, rfl, ?_⟩
  unfold readMsg1 at h
  split at h
  · cases h
    rfl
  · split at h
    · rename_i t _
      cases h
      cases t <;> rfl
    · split at h <;> cases h
      rfl

theorem fatal_of_encrypt {ts : S.Ts} {plaintext : Bytes} {e : SessionError S.Err}
    (h : encrypt ts plaintext = .error e) : (Reply.unit (S := S) (.error e)).Fatal := by
  refine ⟨e, rfl, ?_⟩
  unfold encrypt at h
  split at h
  · cases h
    rfl
  · split at h <;> cases h
    rfl

theorem fatal_of_writeMsg2 {hs : S.Hs} {psk : Psk} {seed : S.Seed} {e : SessionError S.Err}
    (h : writeMsg2 hs psk seed = .error e) : (Reply.unit (S := S) (.error e)).Fatal := by
  refine ⟨e, rfl, ?_⟩
  unfold writeMsg2 at h
  split at h
  · cases h
    rfl
  · split at h
    · cases h
      rfl
    · split at h <;> cases h
      rfl

theorem does_recv (bytes : Bytes) :
    s.Does (.recv bytes) (.unit (recv s bytes).2) (recv s bytes).1 := by
  cases s with
  | wantHsLen hs =>
    simp only [recv]
    split
    · rename_i e he
      exact .inr (.inl ⟨rfl, fatal_of_recvFrameLength he⟩)
    · rename_i n hn
      exact .inr (.inr (.hsLen hn))
  | wantHsBody hs n =>
    simp only [recv]
    split
    · exact .inr (.inl ⟨rfl, _, rfl, rfl⟩)
    · rename_i hlen
      obtain rfl : n = bytes.length := by simpa using hlen
      split
      · rename_i e he
        exact .inr (.inl ⟨rfl, fatal_of_readMsg1 he⟩)
      · rename_i hs' identity hr
        exact .inr (.inr (.hsBody (readMsg1_eq_ok_iff.mp hr)))
  | wantReqLen ts =>
    simp only [recv]
    split
    · rename_i e he
      exact .inr (.inl ⟨rfl, fatal_of_recvFrameLength he⟩)
    · rename_i n hn
      exact .inr (.inr (.reqLen hn))
  | wantReqBody ts n =>
    simp only [recv]
    split
    · exact .inr (.inl ⟨rfl, _, rfl, rfl⟩)
    · rename_i hlen
      obtain rfl : n = bytes.length := by simpa using hlen
      split
      · exact .inr (.inl ⟨rfl, _, rfl, rfl⟩)
      · rename_i plaintext ts' hr
        exact .inr (.inr (.reqBody hr))
  | failed | needPsk | awaitingPsk | writeHs | wroteHsPending | haveRequest | awaitingResponse
  | writeResp | wroteRespPending | done => exact .inl ⟨rfl, .wrongState rfl⟩

theorem does_setPsk (psk : Psk) (seed : S.Seed) :
    s.Does (.setPsk psk seed) (.unit (setPsk s psk seed).2) (setPsk s psk seed).1 := by
  cases s with
  | awaitingPsk hs =>
    simp only [setPsk]
    split
    · rename_i e he
      exact .inr (.inl ⟨rfl, fatal_of_writeMsg2 he⟩)
    · rename_i hs₃ out hw
      obtain ⟨hs₂, msg, hset, hwrite, hframe⟩ := writeMsg2_eq_ok_iff.mp hw
      exact .inr (.inr (.setPsk hset hwrite hframe))
  | failed | needPsk | wantHsLen | wantHsBody | writeHs | wroteHsPending | wantReqLen | wantReqBody
  | haveRequest | awaitingResponse | writeResp | wroteRespPending | done =>
    exact .inl ⟨rfl, .wrongState rfl⟩

theorem does_wrote : s.Does .wrote (.unit (wrote s).2) (wrote s).1 := by
  cases s with
  | wroteHsPending hs =>
    simp only [wrote]
    split
    · exact .inr (.inl ⟨rfl, _, rfl, rfl⟩)
    · rename_i ts hts
      exact .inr (.inr (.wroteHs hts))
  | wroteRespPending => exact .inr (.inr .wroteResp)
  | failed | needPsk | awaitingPsk | wantHsLen | wantHsBody | writeHs | wantReqLen | wantReqBody
  | haveRequest | awaitingResponse | writeResp | done => exact .inl ⟨rfl, .wrongState rfl⟩

theorem does_setResponse (plaintext : Bytes) :
    s.Does (.setResponse plaintext) (.unit (setResponse s plaintext).2)
      (setResponse s plaintext).1 := by
  cases s with
  | awaitingResponse ts =>
    simp only [setResponse]
    split
    · rename_i e he
      exact .inr (.inl ⟨rfl, fatal_of_encrypt he⟩)
    · rename_i ts' out he
      exact .inr (.inr (.setResponse he))
  | failed | needPsk | awaitingPsk | wantHsLen | wantHsBody | writeHs | wroteHsPending | wantReqLen
  | wantReqBody | haveRequest | writeResp | wroteRespPending | done =>
    exact .inl ⟨rfl, .wrongState rfl⟩

end Responder

/-- **What a call of a responder does.** -/
theorem RState.call_cases {s s' : RState S} {c : SessionCall S} {r : Reply S}
    (h : s.call c = some (s', r)) : s.Does c r s' := by
  cases c with
  | takeResponse => cases h
  | step =>
    cases h
    exact Responder.does_step
  | recv bytes =>
    cases h
    exact Responder.does_recv bytes
  | setPsk psk seed =>
    cases h
    exact Responder.does_setPsk psk seed
  | wrote =>
    cases h
    exact Responder.does_wrote
  | setResponse plaintext =>
    cases h
    exact Responder.does_setResponse plaintext

/-! ### The initiator -/

/-- **The steps of an initiator along the protocol.** -/
inductive IProgress : IState S → SessionCall S → Reply S → IState S → Prop
  /-- The first message is handed out. -/
  | writeHs1 {hs : S.Hs} {msg1 request : Bytes} :
      IProgress (.writeHs1 hs msg1 request) .step (.step (.ok (.write msg1)))
        (.wroteHs1Pending hs request)
  /-- The first message is on the wire. -/
  | wroteHs1 {hs : S.Hs} {request : Bytes} :
      IProgress (.wroteHs1Pending hs request) .wrote (.unit (.ok ())) (.wantHs2Len hs request)
  /-- The length of the second message. -/
  | hs2Len {hs : S.Hs} {request bytes : Bytes} {n : ℕ}
      (h : (recvFrameLength bytes : Except (SessionError S.Err) ℕ) = .ok n) :
      IProgress (.wantHs2Len hs request) (.recv bytes) (.unit (.ok ())) (.wantHs2Body hs n request)
  /-- The second message: the handshake is over, and the request is encrypted. -/
  | hs2Body {hs hs' : S.Hs} {ts ts' : S.Ts} {request bytes payload out : Bytes}
      (hread : S.readMessage hs bytes = .ok (payload, hs'))
      (hinto : S.intoTransportMode hs' = .ok ts)
      (hencrypt : Responder.encrypt ts request = .ok (ts', out)) :
      IProgress (.wantHs2Body hs bytes.length request) (.recv bytes) (.unit (.ok ()))
        (.writeReq ts' out)
  /-- The request is handed out. -/
  | writeReq {ts : S.Ts} {out : Bytes} :
      IProgress (.writeReq ts out) .step (.step (.ok (.write out))) (.wroteReqPending ts)
  /-- The request is on the wire. -/
  | wroteReq {ts : S.Ts} :
      IProgress (.wroteReqPending ts) .wrote (.unit (.ok ())) (.wantRespLen ts)
  /-- The length of the response. -/
  | respLen {ts : S.Ts} {bytes : Bytes} {n : ℕ}
      (h : (recvFrameLength bytes : Except (SessionError S.Err) ℕ) = .ok n) :
      IProgress (.wantRespLen ts) (.recv bytes) (.unit (.ok ())) (.wantRespBody ts n)
  /-- The response. -/
  | respBody {ts ts' : S.Ts} {bytes plaintext : Bytes}
      (h : S.readTransport ts bytes = .ok (plaintext, ts')) :
      IProgress (.wantRespBody ts bytes.length) (.recv bytes) (.unit (.ok ())) (.done plaintext)
  /-- The response is taken out. -/
  | take {plaintext : Bytes} :
      IProgress (.done plaintext) .takeResponse (.response (.ok plaintext)) .drained

/-- What a call does to an initiator. -/
def IState.Does (s : IState S) (c : SessionCall S) (r : Reply S) (s' : IState S) : Prop :=
  (s' = s ∧ Idle c r) ∨ (s' = .failed ∧ r.Fatal) ∨ IProgress s c r s'

namespace Initiator

variable {s : IState S}

theorem does_step : s.Does .step (.step (step s).2) (step s).1 := by
  cases s with
  | writeHs1 => exact .inr (.inr .writeHs1)
  | writeReq => exact .inr (.inr .writeReq)
  | wantHs2Len | wantHs2Body | wantRespLen | wantRespBody => exact .inl ⟨rfl, .readExact _⟩
  | done => exact .inl ⟨rfl, .done⟩
  | failed | wroteHs1Pending | wroteReqPending | drained => exact .inl ⟨rfl, .wrongState rfl⟩

/-- The end of the handshake, step by step. -/
theorem finish_cases (hs : S.Hs) (bytes request : Bytes) :
    (∃ e, finish hs bytes request = .error e ∧ (Reply.unit (S := S) (.error e)).Fatal) ∨
      ∃ payload hs' ts ts' out, S.readMessage hs bytes = .ok (payload, hs') ∧
        S.intoTransportMode hs' = .ok ts ∧ Responder.encrypt ts request = .ok (ts', out) ∧
        finish hs bytes request = .ok (ts', out) := by
  rcases hread : S.readMessage hs bytes with e | ⟨payload, hs'⟩
  · exact .inl ⟨.handshakeRead e, by simp [finish, hread], _, rfl, rfl⟩
  rcases hinto : S.intoTransportMode hs' with e | ts
  · exact .inl ⟨.intoTransport e, by simp [finish, hread, hinto], _, rfl, rfl⟩
  have hfinish : finish hs bytes request = Responder.encrypt ts request := by
    simp [finish, hread, hinto]
  rcases hencrypt : Responder.encrypt ts request with e | ⟨ts', out⟩
  · exact .inl ⟨e, hfinish.trans hencrypt, Responder.fatal_of_encrypt hencrypt⟩
  · exact .inr ⟨payload, hs', ts, ts', out, rfl, hinto, hencrypt, hfinish.trans hencrypt⟩

theorem does_recv (bytes : Bytes) :
    s.Does (.recv bytes) (.unit (recv s bytes).2) (recv s bytes).1 := by
  cases s with
  | wantHs2Len hs request =>
    simp only [recv]
    split
    · rename_i e he
      exact .inr (.inl ⟨rfl, Responder.fatal_of_recvFrameLength he⟩)
    · rename_i n hn
      exact .inr (.inr (.hs2Len hn))
  | wantHs2Body hs n request =>
    simp only [recv]
    split
    · exact .inr (.inl ⟨rfl, _, rfl, rfl⟩)
    · rename_i hlen
      obtain rfl : n = bytes.length := by simpa using hlen
      obtain ⟨e, he, hfatal⟩ | ⟨payload, hs', ts, ts', out, hread, hinto, hencrypt, hok⟩ :=
        finish_cases hs bytes request
      · rw [he]
        exact .inr (.inl ⟨rfl, hfatal⟩)
      · rw [hok]
        exact .inr (.inr (.hs2Body hread hinto hencrypt))
  | wantRespLen ts =>
    simp only [recv]
    split
    · rename_i e he
      exact .inr (.inl ⟨rfl, Responder.fatal_of_recvFrameLength he⟩)
    · rename_i n hn
      exact .inr (.inr (.respLen hn))
  | wantRespBody ts n =>
    simp only [recv]
    split
    · exact .inr (.inl ⟨rfl, _, rfl, rfl⟩)
    · rename_i hlen
      obtain rfl : n = bytes.length := by simpa using hlen
      split
      · exact .inr (.inl ⟨rfl, _, rfl, rfl⟩)
      · rename_i plaintext ts' hr
        exact .inr (.inr (.respBody hr))
  | failed | writeHs1 | wroteHs1Pending | writeReq | wroteReqPending | done | drained =>
    exact .inl ⟨rfl, .wrongState rfl⟩

theorem does_wrote : s.Does .wrote (.unit (wrote s).2) (wrote s).1 := by
  cases s with
  | wroteHs1Pending => exact .inr (.inr .wroteHs1)
  | wroteReqPending => exact .inr (.inr .wroteReq)
  | failed | writeHs1 | wantHs2Len | wantHs2Body | writeReq | wantRespLen | wantRespBody | done
  | drained => exact .inl ⟨rfl, .wrongState rfl⟩

theorem does_takeResponse :
    s.Does .takeResponse (.response (takeResponse s).2) (takeResponse s).1 := by
  cases s with
  | done => exact .inr (.inr .take)
  | failed | writeHs1 | wroteHs1Pending | wantHs2Len | wantHs2Body | writeReq | wroteReqPending
  | wantRespLen | wantRespBody | drained => exact .inl ⟨rfl, .wrongState rfl⟩

end Initiator

/-- **What a call of an initiator does.** -/
theorem IState.call_cases {s s' : IState S} {c : SessionCall S} {r : Reply S}
    (h : s.call c = some (s', r)) : s.Does c r s' := by
  cases c with
  | setPsk | setResponse => cases h
  | step =>
    cases h
    exact Initiator.does_step
  | recv bytes =>
    cases h
    exact Initiator.does_recv bytes
  | wrote =>
    cases h
    exact Initiator.does_wrote
  | takeResponse =>
    cases h
    exact Initiator.does_takeResponse

end Symbolon
