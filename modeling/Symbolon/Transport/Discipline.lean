import Symbolon.Lib.Run
import Symbolon.Transport.Calls
import Symbolon.Transport.Noise

/-!
# The discipline of the session machines

Every method of a session takes the state out, and has to put the right one back on each of
its branches. This file says what comes of that **for every sequence of calls**, in whatever
order and with whatever arguments.

The two machines share a discipline (`Symbolon.Disciplined`): a call at the wrong time
changes nothing, a call that fails in any other way ends the session for good, and the phase
never goes back. It is proved from the case lemmas of `Symbolon.Transport.Calls`, and carried
along runs once for both.

For the responder there is more to say. What it does once it does not do again, because each
such call takes from a budget that no call adds to (`Symbolon.RState.asksLeft` and the like);
and what it hands out to be written is the second handshake message and then the response
(`Symbolon.RState.Past`).
-/

namespace Symbolon

open Text Lts

variable {S : Snow}

/-- The place of a phase in the protocol. -/
def Phase.rank : Phase → ℕ
  | msg1 => 0
  | awaitingPsk => 1
  | handshake => 2
  | transport => 3
  | done => 4

/-- The order of the phases: `Msg1 < AwaitingPsk < Handshake < Transport < Done`. -/
instance : LE Phase := ⟨fun p q => p.rank ≤ q.rank⟩

instance : DecidableLE Phase := fun p q => inferInstanceAs (Decidable (p.rank ≤ q.rank))

theorem Phase.le_def {p q : Phase} : p ≤ q ↔ p.rank ≤ q.rank := .rfl

/-- The reply says that it is not the time. -/
def Reply.IsWrongState (r : Reply S) : Prop :=
  ∃ method state, r.err = some (.wrongState method state)

theorem Reply.Fatal.not_isWrongState {r : Reply S} (h : r.Fatal) : ¬r.IsWrongState := by
  obtain ⟨e, he, hne⟩ := h
  rintro ⟨method, state, hw⟩
  rw [he, Option.some.injEq] at hw
  subst hw
  cases hne

/-! ### The discipline -/

section Disciplined

variable {σ : Type} {call : σ → SessionCall S → Option (σ × Reply S)} {failed : σ}
  {phase : σ → Phase}

/-- **The discipline of a session machine**, call by call. -/
structure Disciplined (call : σ → SessionCall S → Option (σ × Reply S)) (failed : σ)
    (phase : σ → Phase) : Prop where
  /-- A call at the wrong time changes nothing. -/
  eq_of_wrongState : ∀ {s c s' r}, call s c = some (s', r) → r.IsWrongState → s' = s
  /-- Any other error ends the session. -/
  eq_failed_of_fatal : ∀ {s c s' r}, call s c = some (s', r) → r.Fatal → s' = failed
  /-- Once it has ended, it is never the time again. -/
  of_failed : ∀ {c s' r}, call failed c = some (s', r) → s' = failed ∧ r.IsWrongState
  /-- The phase does not go back. -/
  phase_le : ∀ {s c s' r}, call s c = some (s', r) → phase s ≤ phase s'

theorem Disciplined.of_failed_run (h : Disciplined call failed phase) {s t : σ}
    {ls : List (SessionCall S × Reply S)} (hrun : Lts.Run (ofFun call) s ls t) (hs : s = failed) :
    t = failed ∧ ∀ l ∈ ls, l.2.IsWrongState := by
  induction hrun with
  | nil => exact ⟨hs, fun _ h => absurd h List.not_mem_nil⟩
  | cons hr _ ih =>
    subst hs
    obtain ⟨hfailed, hwrong⟩ := h.of_failed hr
    obtain ⟨ht, hall⟩ := ih hfailed
    exact ⟨ht, List.forall_mem_cons.mpr ⟨hwrong, hall⟩⟩

/-- What every call of a sequence keeps to. -/
def Orderly (call : σ → SessionCall S → Option (σ × Reply S)) (failed : σ) (phase : σ → Phase)
    (s₀ : σ) (ls : List (SessionCall S × Reply S)) (s : σ) : Prop :=
  ∀ before c r after, ls = before ++ (c, r) :: after →
    ∃ t t', Lts.Run (ofFun call) s₀ before t ∧ call t c = some (t', r) ∧
      Lts.Run (ofFun call) t' after s ∧
      (r.IsWrongState → t' = t) ∧
      (r.Fatal → t' = failed ∧ s = failed ∧ ∀ l ∈ after, l.2.IsWrongState) ∧
      phase t ≤ phase t'

/-- **The discipline holds along every sequence of calls.** -/
theorem Disciplined.orderly (h : Disciplined call failed phase) {s₀ s : σ}
    {ls : List (SessionCall S × Reply S)} (hrun : Lts.Run (ofFun call) s₀ ls s) :
    Orderly call failed phase s₀ ls s := by
  rintro before c r after rfl
  obtain ⟨t, hbefore, hrest⟩ := run_append_iff.mp hrun
  obtain ⟨t', hcall, hafter⟩ := run_cons_iff.mp hrest
  refine ⟨t, t', hbefore, hcall, hafter, h.eq_of_wrongState hcall, fun hfatal => ?_,
    h.phase_le hcall⟩
  have ht' := h.eq_failed_of_fatal hcall hfatal
  exact ⟨ht', h.of_failed_run hafter ht'⟩

end Disciplined

/-! ### Both machines have it -/

theorem RProgress.err_eq_none {s s' : RState S} {c : SessionCall S} {r : Reply S}
    (h : RProgress s c r s') : r.err = none := by
  cases h <;> rfl

theorem RProgress.phase_le {s s' : RState S} {c : SessionCall S} {r : Reply S}
    (h : RProgress s c r s') : s.phase ≤ s'.phase := by
  cases h <;> simp [Phase.le_def, RState.phase, Phase.rank]

theorem IProgress.err_eq_none {s s' : IState S} {c : SessionCall S} {r : Reply S}
    (h : IProgress s c r s') : r.err = none := by
  cases h <;> rfl

theorem IProgress.phase_le {s s' : IState S} {c : SessionCall S} {r : Reply S}
    (h : IProgress s c r s') : s.phase ≤ s'.phase := by
  cases h <;> simp [Phase.le_def, IState.phase, Phase.rank]

theorem Phase.le_done (p : Phase) : p ≤ .done := by
  cases p <;> decide

/-- An idle call without an error is not a failure, and with one it is at the wrong time. -/
theorem Idle.not_fatal {c : SessionCall S} {r : Reply S} (h : Idle c r) : ¬r.Fatal := by
  cases h with
  | readExact | done => exact fun hf => hf.err_ne rfl
  | wrongState he => exact fun hf => hf.not_isWrongState ⟨_, _, he⟩

theorem Reply.not_isWrongState_of_ok {r : Reply S} (h : r.err = none) : ¬r.IsWrongState := by
  rintro ⟨method, state, hw⟩
  exact Option.some_ne_none _ (hw.symm.trans h)

/-- A machine is disciplined if each of its calls is idle, fails, or makes progress. -/
theorem Disciplined.of_cases {σ : Type} {call : σ → SessionCall S → Option (σ × Reply S)}
    {failed : σ} {phase : σ → Phase}
    (hcases : ∀ {s c s' r}, call s c = some (s', r) →
      (s' = s ∧ Idle c r) ∨ (s' = failed ∧ r.Fatal) ∨ (r.err = none ∧ phase s ≤ phase s'))
    (hfailed : ∀ {c s' r}, call failed c = some (s', r) → s' = failed ∧ r.IsWrongState)
    (hdone : phase failed = .done) : Disciplined call failed phase where
  eq_of_wrongState hcall hw := by
    obtain ⟨heq, -⟩ | ⟨-, hfatal⟩ | ⟨herr, -⟩ := hcases hcall
    · exact heq
    · exact absurd hw hfatal.not_isWrongState
    · exact absurd hw (Reply.not_isWrongState_of_ok herr)
  eq_failed_of_fatal hcall hf := by
    obtain ⟨-, hidle⟩ | ⟨heq, -⟩ | ⟨herr, -⟩ := hcases hcall
    · exact absurd hf hidle.not_fatal
    · exact heq
    · exact absurd herr hf.err_ne
  of_failed := hfailed
  phase_le hcall := by
    obtain ⟨rfl, -⟩ | ⟨rfl, -⟩ | ⟨-, hle⟩ := hcases hcall
    · exact Nat.le_refl _
    · rw [hdone]
      exact Phase.le_done _
    · exact hle

/-- **The responder is disciplined.** -/
theorem RState.disciplined : Disciplined (RState.call (S := S)) .failed RState.phase := by
  refine .of_cases (fun hcall => ?_) (fun {c s' r} hcall => ?_) rfl
  · exact (RState.call_cases hcall).imp_right (.imp_right fun h => ⟨h.err_eq_none, h.phase_le⟩)
  · cases c <;> cases hcall <;> exact ⟨rfl, _, _, rfl⟩

/-- **The initiator is disciplined.** -/
theorem IState.disciplined : Disciplined (IState.call (S := S)) .failed IState.phase := by
  refine .of_cases (fun hcall => ?_) (fun {c s' r} hcall => ?_) rfl
  · exact (IState.call_cases hcall).imp_right (.imp_right fun h => ⟨h.err_eq_none, h.phase_le⟩)
  · cases c <;> cases hcall <;> exact ⟨rfl, _, _, rfl⟩

/-! ### What the responder does at most so often -/

/-- The key is asked for. -/
def asksKey (l : SessionCall S × Reply S) : Bool :=
  match l.2 with
  | .step (.ok (.needPsk _)) => true
  | _ => false

/-- The request is handed out. -/
def handsRequest (l : SessionCall S × Reply S) : Bool :=
  match l.2 with
  | .step (.ok (.request _)) => true
  | _ => false

/-- What is handed out to be written. -/
def handsOut (l : SessionCall S × Reply S) : Option Bytes :=
  match l.2 with
  | .step (.ok (.write out)) => some out
  | _ => none

/-- A payload is consumed: it was the time for it, whatever came of it. -/
def consumes (l : SessionCall S × Reply S) : Bool :=
  match l.1, l.2.err with
  | .recv _, some e => !e.isWrongState
  | .recv _, none => true
  | _, _ => false

namespace RState

/-- How often the key may still be asked for. -/
def asksLeft : RState S → ℕ
  | wantHsLen .. | wantHsBody .. | needPsk .. => 1
  | _ => 0

/-- How often the request may still be handed out. -/
def requestsLeft : RState S → ℕ
  | failed | awaitingResponse .. | writeResp .. | wroteRespPending | done => 0
  | _ => 1

/-- How many payloads may still be consumed. -/
def recvsLeft : RState S → ℕ
  | wantHsLen .. => 4
  | wantHsBody .. => 3
  | needPsk .. | awaitingPsk .. | writeHs .. | wroteHsPending .. | wantReqLen .. => 2
  | wantReqBody .. => 1
  | failed | haveRequest .. | awaitingResponse .. | writeResp .. | wroteRespPending | done => 0

variable {s s' : RState S} {c : SessionCall S} {r : Reply S}

/-- Idle calls and failures hand nothing out. -/
theorem shows_nothing (h : Idle c r ∨ r.Fatal) :
    asksKey (c, r) = false ∧ handsRequest (c, r) = false ∧ handsOut (c, r) = none := by
  have herr : ∀ {e}, r.err = some e →
      asksKey (c, r) = false ∧ handsRequest (c, r) = false ∧ handsOut (c, r) = none := by
    intro e he
    rcases r with (e' | x) | (e' | x) | (e' | x)
    all_goals first | cases he; done | exact ⟨rfl, rfl, rfl⟩
  rcases h with hidle | ⟨e, he, -⟩
  · cases hidle with
    | readExact | done => exact ⟨rfl, rfl, rfl⟩
    | wrongState he => exact herr he
  · exact herr he

theorem asksKey_add_le (h : s.call c = some (s', r)) :
    (if asksKey (c, r) then 1 else 0) + s'.asksLeft ≤ s.asksLeft := by
  obtain ⟨rfl, hidle⟩ | ⟨rfl, hfatal⟩ | hprog := call_cases h
  · simp [(shows_nothing (.inl hidle)).1]
  · simp [(shows_nothing (.inr hfatal)).1, asksLeft]
  · cases hprog <;> simp [asksKey, asksLeft]

theorem handsRequest_add_le (h : s.call c = some (s', r)) :
    (if handsRequest (c, r) then 1 else 0) + s'.requestsLeft ≤ s.requestsLeft := by
  obtain ⟨rfl, hidle⟩ | ⟨rfl, hfatal⟩ | hprog := call_cases h
  · simp [(shows_nothing (.inl hidle)).2.1]
  · simp [(shows_nothing (.inr hfatal)).2.1, requestsLeft]
  · cases hprog <;> simp [handsRequest, requestsLeft]

/-- Bytes are refused without being at the wrong time only where they were asked for. -/
theorem recvsLeft_pos_of_fatal {bytes : Bytes}
    (h : s.call (.recv bytes) = some (s', r)) (hf : r.Fatal) : 1 ≤ s.recvsLeft := by
  cases s with
  | wantHsLen | wantHsBody | wantReqLen | wantReqBody => simp [recvsLeft]
  | failed | needPsk | awaitingPsk | writeHs | wroteHsPending | haveRequest | awaitingResponse
  | writeResp | wroteRespPending | done =>
    cases h
    exact absurd ⟨_, _, rfl⟩ hf.not_isWrongState

theorem consumes_add_le (h : s.call c = some (s', r)) :
    (if consumes (c, r) then 1 else 0) + s'.recvsLeft ≤ s.recvsLeft := by
  obtain ⟨rfl, hidle⟩ | ⟨rfl, hfatal⟩ | hprog := call_cases h
  · have hno : consumes (c, r) = false := by
      cases hidle with
      | readExact | done => rfl
      | wrongState he => cases c <;> simp [consumes, he, SessionError.isWrongState]
    simp [hno]
  · cases c with
    | recv bytes =>
      have hpos := recvsLeft_pos_of_fatal h hfatal
      have hfailed : (failed : RState S).recvsLeft = 0 := rfl
      rw [hfailed]
      split <;> omega
    | step | setPsk | wrote | setResponse | takeResponse => simp [consumes, recvsLeft]
  · cases hprog <;> simp [consumes, recvsLeft, Reply.err]

/-! ### What it hands out, and after what -/

/-- The bytes handed out to be written, in order. -/
def writes (ls : List (SessionCall S × Reply S)) : List Bytes := ls.filterMap handsOut

/-- The bytes are the second handshake message, made with a key that was set. -/
def IsMsg2 (ls : List (SessionCall S × Reply S)) (out : Bytes) : Prop :=
  ∃ (psk : Psk) (seed : S.Seed) (hs hs' : S.Hs), (.setPsk psk seed, .unit (.ok ())) ∈ ls ∧
    Responder.writeMsg2 hs psk seed = .ok (hs', out)

/-- The bytes are a response that was given, encrypted. -/
def IsResponse (ls : List (SessionCall S × Reply S)) (out : Bytes) : Prop :=
  ∃ (plaintext : Bytes) (ts ts' : S.Ts), (.setResponse plaintext, .unit (.ok ())) ∈ ls ∧
    Responder.encrypt ts plaintext = .ok (ts', out)

/-- **What is handed out to be written**: nothing, the second message, or the second message
and then the response. -/
def WritesOk (ls : List (SessionCall S × Reply S)) : Prop :=
  writes ls = [] ∨ (∃ out, writes ls = [out] ∧ IsMsg2 ls out) ∨
    ∃ out out', writes ls = [out, out'] ∧ IsMsg2 ls out ∧ IsResponse ls out'

/-- **The key was set, then a message was handed out, then it was acknowledged.** -/
def Acknowledged (ls : List (SessionCall S × Reply S)) : Prop :=
  ∃ psk seed out, [(.setPsk psk seed, .unit (.ok ())), (.step, .step (.ok (.write out))),
    (.wrote, .unit (.ok ()))].Sublist ls

/-- **What has happened**, in each state. -/
def Past (ls : List (SessionCall S × Reply S)) : RState S → Prop
  | wantHsLen .. | wantHsBody .. | needPsk .. | awaitingPsk .. => writes ls = []
  | writeHs _ out => writes ls = [] ∧ IsMsg2 ls out ∧
    ∃ psk seed, [(SessionCall.setPsk psk seed, Reply.unit (.ok ()))].Sublist ls
  | wroteHsPending _ => ∃ out, writes ls = [out] ∧ IsMsg2 ls out ∧
    ∃ psk seed, [(.setPsk psk seed, .unit (.ok ())), (.step, .step (.ok (.write out)))].Sublist ls
  | wantReqLen .. | wantReqBody .. | haveRequest .. | awaitingResponse .. =>
    (∃ out, writes ls = [out] ∧ IsMsg2 ls out) ∧ Acknowledged ls
  | writeResp out' =>
    (∃ out, writes ls = [out] ∧ IsMsg2 ls out ∧ IsResponse ls out') ∧ Acknowledged ls
  | wroteRespPending =>
    (∃ out out', writes ls = [out, out'] ∧ IsMsg2 ls out ∧ IsResponse ls out') ∧ Acknowledged ls
  | done => ∃ out out', writes ls = [out, out'] ∧ IsMsg2 ls out ∧ IsResponse ls out'
  | failed => WritesOk ls

variable {ls : List (SessionCall S × Reply S)} {l : SessionCall S × Reply S} {out : Bytes}

theorem writes_concat : writes (ls ++ [l]) = writes ls ++ (handsOut l).toList := by
  rw [writes, writes, List.filterMap_append]
  cases h : handsOut l <;> simp [h]

theorem writes_concat_of_none (h : handsOut l = none) : writes (ls ++ [l]) = writes ls := by
  rw [writes_concat, h, Option.toList_none, List.append_nil]

theorem IsMsg2.concat (h : IsMsg2 ls out) : IsMsg2 (ls ++ [l]) out := by
  obtain ⟨psk, seed, hs, hs', hmem, hw⟩ := h
  exact ⟨psk, seed, hs, hs', List.mem_append_left _ hmem, hw⟩

theorem IsResponse.concat (h : IsResponse ls out) : IsResponse (ls ++ [l]) out := by
  obtain ⟨plaintext, ts, ts', hmem, he⟩ := h
  exact ⟨plaintext, ts, ts', List.mem_append_left _ hmem, he⟩

theorem sublist_concat {ks : List (SessionCall S × Reply S)} (h : ks.Sublist ls) :
    ks.Sublist (ls ++ [l]) :=
  h.trans (List.sublist_append_left _ _)

theorem Acknowledged.concat (h : Acknowledged ls) : Acknowledged (ls ++ [l]) := by
  obtain ⟨psk, seed, out, hsub⟩ := h
  exact ⟨psk, seed, out, sublist_concat hsub⟩

/-- A call that hands nothing out adds nothing to be told. -/
theorem Past.concat (h : Past ls s) (hl : handsOut l = none) : Past (ls ++ [l]) s := by
  have hw : writes (ls ++ [l]) = writes ls := writes_concat_of_none hl
  cases s with
  | wantHsLen | wantHsBody | needPsk | awaitingPsk => exact hw.trans h
  | writeHs hs out =>
    obtain ⟨hnil, hmsg, psk, seed, hsub⟩ := h
    exact ⟨hw.trans hnil, hmsg.concat, psk, seed, sublist_concat hsub⟩
  | wroteHsPending hs =>
    obtain ⟨out, hone, hmsg, psk, seed, hsub⟩ := h
    exact ⟨out, hw.trans hone, hmsg.concat, psk, seed, sublist_concat hsub⟩
  | wantReqLen | wantReqBody | haveRequest | awaitingResponse =>
    obtain ⟨⟨out, hone, hmsg⟩, hack⟩ := h
    exact ⟨⟨out, hw.trans hone, hmsg.concat⟩, hack.concat⟩
  | writeResp out' =>
    obtain ⟨⟨out, hone, hmsg, hresp⟩, hack⟩ := h
    exact ⟨⟨out, hw.trans hone, hmsg.concat, hresp.concat⟩, hack.concat⟩
  | wroteRespPending =>
    obtain ⟨⟨out, out', htwo, hmsg, hresp⟩, hack⟩ := h
    exact ⟨⟨out, out', hw.trans htwo, hmsg.concat, hresp.concat⟩, hack.concat⟩
  | done =>
    obtain ⟨out, out', htwo, hmsg, hresp⟩ := h
    exact ⟨out, out', hw.trans htwo, hmsg.concat, hresp.concat⟩
  | failed =>
    obtain hnil | ⟨out, hone, hmsg⟩ | ⟨out, out', htwo, hmsg, hresp⟩ := h
    · exact .inl (hw.trans hnil)
    · exact .inr (.inl ⟨out, hw.trans hone, hmsg.concat⟩)
    · exact .inr (.inr ⟨out, out', hw.trans htwo, hmsg.concat, hresp.concat⟩)

theorem Past.writesOk (h : Past ls s) : WritesOk ls := by
  cases s with
  | wantHsLen | wantHsBody | needPsk | awaitingPsk => exact .inl h
  | writeHs hs out => exact .inl h.1
  | wroteHsPending hs =>
    obtain ⟨out, hone, hmsg, -⟩ := h
    exact .inr (.inl ⟨out, hone, hmsg⟩)
  | wantReqLen | wantReqBody | haveRequest | awaitingResponse => exact .inr (.inl h.1)
  | writeResp out' =>
    obtain ⟨⟨out, hone, hmsg, -⟩, -⟩ := h
    exact .inr (.inl ⟨out, hone, hmsg⟩)
  | wroteRespPending => exact .inr (.inr h.1)
  | done => exact .inr (.inr h)
  | failed => exact h

theorem Past.acknowledged (h : Past ls s) (hphase : s.phase = .transport) : Acknowledged ls := by
  cases s with
  | wantReqLen | wantReqBody | haveRequest | awaitingResponse | writeResp | wroteRespPending =>
    exact h.2
  | failed | wantHsLen | wantHsBody | needPsk | awaitingPsk | writeHs | wroteHsPending | done =>
    cases hphase

/-- A step along the protocol tells what it adds. -/
theorem Past.progress (h : Past ls s) (hp : RProgress s c r s') : Past (ls ++ [(c, r)]) s' := by
  cases hp with
  | hsLen | hsBody | ask | reqLen | reqBody | request => exact h.concat rfl
  | @setPsk hs hs₂ hs₃ psk seed msg out hset hwrite hframe =>
    have hmsg2 := Responder.writeMsg2_eq_ok_iff.mpr ⟨_, _, hset, hwrite, hframe⟩
    refine ⟨(writes_concat_of_none rfl).trans h, ?_, psk, seed, List.sublist_append_right _ _⟩
    exact ⟨psk, seed, hs, hs₃, by simp, hmsg2⟩
  | writeHs =>
    obtain ⟨hnil, hmsg, psk, seed, hsub⟩ := h
    refine ⟨_, by rw [writes_concat, hnil]; rfl, hmsg.concat, psk, seed, ?_⟩
    exact hsub.append (.refl _)
  | wroteHs =>
    obtain ⟨out, hone, hmsg, psk, seed, hsub⟩ := h
    refine ⟨⟨out, (writes_concat_of_none rfl).trans hone, hmsg.concat⟩, psk, seed, out, ?_⟩
    exact hsub.append (.refl _)
  | setResponse hencrypt =>
    obtain ⟨⟨out, hone, hmsg⟩, hack⟩ := h
    refine ⟨⟨out, (writes_concat_of_none rfl).trans hone, hmsg.concat, ?_⟩, hack.concat⟩
    exact ⟨_, _, _, by simp, hencrypt⟩
  | writeResp =>
    obtain ⟨⟨out, hone, hmsg, hresp⟩, hack⟩ := h
    exact ⟨⟨out, _, by rw [writes_concat, hone]; rfl, hmsg.concat, hresp.concat⟩, hack.concat⟩
  | wroteResp =>
    obtain ⟨⟨out, out', htwo, hmsg, hresp⟩, -⟩ := h
    exact ⟨out, out', (writes_concat_of_none rfl).trans htwo, hmsg.concat, hresp.concat⟩

/-- One call extends what has happened. -/
theorem Past.call (h : Past ls s) (hcall : s.call c = some (s', r)) :
    Past (ls ++ [(c, r)]) s' := by
  obtain ⟨rfl, hidle⟩ | ⟨rfl, hfatal⟩ | hprog := call_cases hcall
  · exact h.concat (shows_nothing (.inl hidle)).2.2
  · exact (h.concat (shows_nothing (.inr hfatal)).2.2).writesOk
  · exact h.progress hprog

theorem past_of_run {hs : S.Hs} (hrun : Lts.Run (ofFun RState.call) (.wantHsLen hs) ls s) :
    Past ls s :=
  hrun.history (P := Past) (fun _ _ _ _ hp hr => hp.call hr) rfl

end RState

/-- **The session machines are disciplined, whatever is called.** -/
theorem session_discipline {key : BrokerPrivateKey} {s₀ s : RState S} {i₀ i : IState S}
    {ls ks : List (SessionCall S × Reply S)} (hnew : Responder.new S key = .ok s₀)
    (hrun : Lts.Run (ofFun RState.call) s₀ ls s) (hrun' : Lts.Run (ofFun IState.call) i₀ ks i) :
    Orderly RState.call .failed RState.phase s₀ ls s ∧
      Orderly IState.call .failed IState.phase i₀ ks i ∧
      ls.countP asksKey ≤ 1 ∧ ls.countP handsRequest ≤ 1 ∧ ls.countP consumes ≤ 4 ∧
      RState.WritesOk ls ∧ (s.phase = .transport → RState.Acknowledged ls) := by
  refine ⟨RState.disciplined.orderly hrun, IState.disciplined.orderly hrun', ?_⟩
  unfold Responder.new at hnew
  split at hnew
  · cases hnew
  · rename_i hs _
    cases hnew
    have hpast := RState.past_of_run hrun
    have hasks := hrun.countP_add_le fun _ l _ h => RState.asksKey_add_le (c := l.1) (r := l.2) h
    have hreqs := hrun.countP_add_le fun _ l _ h =>
      RState.handsRequest_add_le (c := l.1) (r := l.2) h
    have hrecvs := hrun.countP_add_le fun _ l _ h => RState.consumes_add_le (c := l.1) (r := l.2) h
    exact ⟨(Nat.le_add_right _ _).trans hasks, (Nat.le_add_right _ _).trans hreqs,
      (Nat.le_add_right _ _).trans hrecvs, hpast.writesOk, hpast.acknowledged⟩

/-- A handshake with two calls at the wrong time: a key before it is asked for, and the
acknowledgement of a message that has not been handed out. -/
theorem session_discipline_handshake :
    ∃ (s₀ s : RState (noise plainPrimitives)) (ls : List _), Responder.new _ plainKey = .ok s₀ ∧
      Lts.Run (ofFun RState.call) s₀ ls s ∧ s.phase = .transport ∧
      ls.countP consumes = 2 ∧ RState.Acknowledged ls := by
  let id : Identity := ⟨[0x61], by decide, firstBadByte_eq_none_iff.mp (by decide)⟩
  let s₀ : RState (noise plainPrimitives) :=
    .wantHsLen (.responder (plainPrimitives.derivePublic plainKey) none)
  obtain ⟨ls, s, hrun, hphase, hcount⟩ := exists_run_of_exec RState.call s₀
    [.setPsk (Psk.filled 1) (Ephemeral.filled 2), .recv [0, 55],
      .recv (List.replicate 48 0 ++ encodeIdentityTlv id), .wrote, .step,
      .setPsk (Psk.filled 1) (Ephemeral.filled 2), .step, .wrote]
    (fun s ls => s.phase = .transport ∧ ls.countP consumes = 2) (by decide +kernel)
  have h := session_discipline rfl hrun (.nil (.failed : IState (noise plainPrimitives)))
  exact ⟨s₀, s, ls, rfl, hrun, hphase, hcount, h.2.2.2.2.2.2 hphase⟩

end Symbolon
