import Mathlib.Algebra.Order.Ring.Nat
import Symbolon.Daemon.Mint

/-!
# How much a connection asks for

`WIRE_READ_BUDGET` is the read budget of a connection, in the words of `src/daemon.rs`. The
code compares it with the length of the decrypted request, when everything has been read.
What a connection asks of its socket is decided by the peer: each of the two frames of a
session begins with two bytes that declare the length of the rest, and the next `ReadExact`
is for that many bytes, before and after the handshake alike.

Here the bytes asked for (`Symbolon.asked`) are computed from what the session has been fed
(`Symbolon.declared`): a connection that waits in a read has asked for exactly that much
(`Symbolon.Metered`). So **a connection stays within the budget iff what its peer declares
does** (`Symbolon.asked_le_budget_iff`), and nothing but the two bytes of a length bounds
what a peer without a key can make it ask for.
-/

namespace Symbolon

open Text

/-- The bytes that were asked for: the sum of `n` over the `ReadExact` steps. -/
def asked (h : List Act) : ℕ := (h.map fun
  | .readExact n => n
  | _ => 0).sum

/-- The length that two bytes declare. -/
def frameLen : Bytes → ℕ
  | [b₀, b₁] => 256 * b₀.toNat + b₁.toNat
  | _ => 0

/-- **What a peer declares** that has sent these pieces: a length, the first message, a
length, the request. A length itself takes two bytes. -/
def declared : List Bytes → ℕ
  | [] => 2
  | [l₁] => 2 + frameLen l₁
  | [l₁, _] => 2 + frameLen l₁ + 2
  | l₁ :: _ :: l₂ :: _ => 2 + frameLen l₁ + (2 + frameLen l₂)

theorem asked_append (h acts : List Act) : asked (h ++ acts) = asked h + asked acts := by
  simp [asked]

theorem fed_append (h acts : List Act) : fed (h ++ acts) = fed h ++ fed acts :=
  List.filterMap_append

theorem frameLen_le (bytes : Bytes) : frameLen bytes ≤ 65535 := by
  unfold frameLen
  split
  · rename_i b₀ b₁
    have h₀ := b₀.toNat_lt
    have h₁ := b₁.toNat_lt
    omega
  · omega

theorem frameLen_of_recvFrameLength {ε : Type} {bytes : Bytes} {n : ℕ}
    (h : recvFrameLength (ε := ε) bytes = .ok n) : frameLen bytes = n := by
  unfold recvFrameLength at h
  split at h
  · rw [readFrameLength_eq] at h
    exact Except.ok.inj h
  · cases h

/-- What is declared is two frames of the largest length at most. -/
theorem declared_le (pieces : List Bytes) : declared pieces ≤ 131074 := by
  unfold declared
  split
  · omega
  · have := frameLen_le ‹_›
    omega
  · rename_i l₁ _
    have := frameLen_le l₁
    omega
  · rename_i l₁ _ l₂ _
    have h₁ := frameLen_le l₁
    have h₂ := frameLen_le l₂
    omega

/-- Another piece does not make what was declared less. -/
theorem declared_le_append (pieces more : List Bytes) :
    declared pieces ≤ declared (pieces ++ more) := by
  rcases pieces with _ | ⟨l₁, _ | ⟨b₁, _ | ⟨l₂, rest⟩⟩⟩
  · rcases more with _ | ⟨l₁, _ | ⟨b₁, _ | ⟨l₂, rest⟩⟩⟩ <;>
      simp only [List.nil_append, declared] <;> omega
  · rcases more with _ | ⟨b₁, _ | ⟨l₂, rest⟩⟩ <;>
      simp only [List.cons_append, List.nil_append, declared] <;> omega
  · rcases more with _ | ⟨l₂, rest⟩ <;>
      simp only [List.cons_append, List.nil_append, declared] <;> omega
  · exact le_rfl

/-! ### What a session still has to ask for -/

variable {S : Snow}

/-- How many pieces a session has been fed. -/
def RState.pieces : RState S → ℕ
  | .failed | .wantHsLen _ => 0
  | .wantHsBody .. => 1
  | .needPsk .. | .awaitingPsk _ | .writeHs .. | .wroteHsPending _ | .wantReqLen _ => 2
  | .wantReqBody .. => 3
  | .haveRequest .. | .awaitingResponse _ | .writeResp _ | .wroteRespPending | .done => 4

/-- What the next read of a session is for. -/
def RState.due : RState S → ℕ
  | .wantHsLen _ => 2
  | .wantHsBody _ n | .wantReqBody _ n => n
  | .needPsk .. | .awaitingPsk _ | .writeHs .. | .wroteHsPending _ | .wantReqLen _ => 2
  | .failed | .haveRequest .. | .awaitingResponse _ | .writeResp _ | .wroteRespPending | .done => 0

/-- The next read and the pieces fed are the same in both. -/
def RState.SameReads (s s' : RState S) : Prop := s'.due = s.due ∧ s'.pieces = s.pieces

section Session

variable {s s' : RState S} {bytes : Bytes}

theorem Responder.step_readExact {n : ℕ} (h : Responder.step s = (s', .ok (.readExact n))) :
    s' = s ∧ s.due = n := by
  cases s <;> cases h <;> exact ⟨rfl, rfl⟩

theorem Responder.step_sameReads {step : SessionStep} (h : Responder.step s = (s', .ok step)) :
    s.SameReads s' := by
  cases s <;> cases h <;> exact ⟨rfl, rfl⟩

theorem Responder.setPsk_sameReads {psk : Psk} {seed : S.Seed}
    (h : Responder.setPsk s psk seed = (s', .ok ())) : s.SameReads s' := by
  cases s with
  | awaitingPsk hs =>
    obtain ⟨hs₂, hs₃, msg, out, -, -, -, rfl⟩ := Responder.setPsk_awaitingPsk h
    exact ⟨rfl, rfl⟩
  | _ => cases h

theorem Responder.wrote_sameReads (h : Responder.wrote s = (s', .ok ())) : s.SameReads s' := by
  cases s with
  | wroteHsPending hs =>
    obtain ⟨ts, -, rfl⟩ := Responder.wrote_wroteHsPending h
    exact ⟨rfl, rfl⟩
  | wroteRespPending =>
    cases h
    exact ⟨rfl, rfl⟩
  | _ => cases h

theorem Responder.setResponse_sameReads {plaintext : Bytes}
    (h : Responder.setResponse s plaintext = (s', .ok ())) : s.SameReads s' := by
  cases s with
  | awaitingResponse ts =>
    obtain ⟨ts', out, -, rfl⟩ := Responder.setResponse_awaitingResponse h
    exact ⟨rfl, rfl⟩
  | _ => cases h

/-- **A piece the session takes adds its next read to what is declared.** -/
theorem Responder.recv_declared {pieces : List Bytes} (hlen : pieces.length = s.pieces)
    (h : Responder.recv s bytes = (s', .ok ())) :
    declared (pieces ++ [bytes]) = declared pieces + s'.due ∧
      (pieces ++ [bytes]).length = s'.pieces := by
  cases s with
  | wantHsLen hs =>
    obtain ⟨n, hn, rfl⟩ := Responder.recv_wantHsLen h
    obtain rfl := List.length_eq_zero_iff.mp hlen
    exact ⟨congrArg (2 + ·) (frameLen_of_recvFrameLength hn), rfl⟩
  | wantHsBody hs n =>
    obtain ⟨hs', identity, -, rfl⟩ := Responder.recv_wantHsBody h
    obtain ⟨l₁, rfl⟩ := List.length_eq_one_iff.mp hlen
    exact ⟨rfl, rfl⟩
  | wantReqLen ts =>
    obtain ⟨n, hn, rfl⟩ := Responder.recv_wantReqLen h
    obtain ⟨l₁, b₁, rfl⟩ := List.length_eq_two.mp hlen
    refine ⟨?_, rfl⟩
    simp only [List.cons_append, List.nil_append, declared, RState.due,
      frameLen_of_recvFrameLength hn]
    omega
  | wantReqBody ts n =>
    obtain ⟨plaintext, ts', -, rfl⟩ := Responder.recv_wantReqBody h
    obtain ⟨l₁, b₁, l₂, rfl⟩ := List.length_eq_three.mp hlen
    exact ⟨rfl, rfl⟩
  | _ => cases h

end Session

/-! ### What an event asks for and feeds -/

variable {providers : List Provider} {sh : Shared} {c c' : Conn S} {e : ConnEvent S}
  {limiter : Limiter} {h acts : List Act}

/-- What a connection will ask for next, if it has not done so. -/
def Conn.outstanding (c : Conn S) : ℕ :=
  match c.pc with
  | .reading .. => 0
  | _ => c.sess.due

theorem asked_continueWith (c : Conn S) (phase : RState S → Phase)
    (r : RState S × Except (SessionError S.Err) Unit) : asked (c.continueWith phase r).2 = 0 := by
  obtain ⟨sess, e | u⟩ := r <;> rfl

theorem asked_needPsk (sh : Shared) (c : Conn S) (identity : Identity) (now : Instant)
    (random : Except String Psk) (seed : S.Seed) :
    asked (c.needPsk sh identity now random seed).2.2 = 0 := by
  have hchoose : asked (c.choosePsk sh identity now random).2.2.2.2 = 0 := by
    unfold Conn.choosePsk
    split
    · rfl
    · rfl
    · split <;> rfl
  unfold Conn.needPsk
  rcases hch : c.choosePsk sh identity now random with ⟨c₁, lim₁, psk | psk, known, acts₁⟩
  all_goals
    rw [hch] at hchoose
    dsimp only at hchoose ⊢
    rw [asked_append, hchoose]
  · rfl
  · exact (Nat.zero_add _).trans ((Nat.zero_add _).trans (asked_continueWith _ _ _))

theorem asked_request (providers : List Provider) (c : Conn S) (bytes : Bytes) :
    asked (c.request providers bytes).2 = 0 := by
  unfold Conn.request
  repeat' split
  all_goals rfl

theorem asked_minted (c : Conn S) (request : Request) (r : Except ProviderError MintOutcome) :
    asked (c.minted request r).2 = 0 := by
  rcases r with err | outcome
  · simp only [Conn.minted]
    split <;> rfl
  · simp only [Conn.minted]
    split <;> rfl

theorem asked_flushed (c : Conn S) : asked c.flushed.2 = 0 := by
  rcases c with ⟨_, _ | _, _ | _, _⟩ <;> rfl

/-- **An event of a connection, by its reads.** -/
inductive Reads (c : Conn S) : List Act → Conn S → Prop
  /-- The connection closes and asks for nothing. -/
  | close {acts : List Act} {c' : Conn S} (hcl : c'.pc = .closed) (ha : asked acts = 0) :
      Reads c acts c'
  /-- It goes on, and neither asks nor feeds. -/
  | keep {acts : List Act} {c' : Conn S} (ha : asked acts = 0) (hf : fed acts = [])
      (hout : c'.outstanding = c.outstanding) (hpieces : c'.sess.pieces = c.sess.pieces) :
      Reads c acts c'
  /-- It asks for what is due, and waits in the read. -/
  | ask {acts : List Act} {phase : Phase} {n : ℕ} (ha : asked acts = n) (hf : fed acts = [])
      (hout : c.outstanding = n) : Reads c acts { c with pc := .reading phase n [] }
  /-- It has read all it asked for, and the session takes it. -/
  | feed {acts : List Act} {bytes : Bytes} {sess : RState S} (ha : asked acts = 0)
      (hf : fed acts = [bytes]) (hout : c.outstanding = 0)
      (hrecv : Responder.recv c.sess bytes = (sess, .ok ())) :
      Reads c acts { c with sess := sess, pc := .top }

theorem Reads.of_sameReads {sess : RState S} {pc : Pc} {name : Option Bytes}
    {mintRecord : Option MintRecord} (ha : asked acts = 0) (hf : fed acts = [])
    (hout : c.outstanding = c.sess.due) (hpc : ∀ phase n out, pc ≠ .reading phase n out)
    (hsame : c.sess.SameReads sess) : Reads c acts ⟨sess, name, mintRecord, pc⟩ := by
  refine .keep ha hf ?_ hsame.2
  rw [hout, ← hsame.1]
  unfold Conn.outstanding
  split
  · rename_i phase n out hreading
    exact absurd hreading (hpc phase n out)
  · rfl

/-- A turn of the loop, by its reads. -/
theorem Reads.of_turn {now : Instant} {random : Except String Psk} {seed : S.Seed}
    (hpc : c.pc = .top) (ht : c.turn providers sh now random seed = (c', limiter, acts)) :
    Reads c acts c' := by
  have hout : c.outstanding = c.sess.due := by rw [Conn.outstanding, hpc]
  rcases hs : Responder.step c.sess with ⟨sess, err | step⟩
  · simp only [Conn.turn, hs] at ht
    cases ht
    exact .close rfl rfl
  · have hsame := Responder.step_sameReads hs
    cases step with
    | readExact n =>
      obtain ⟨rfl, hdue⟩ := Responder.step_readExact hs
      simp only [Conn.turn, hs] at ht
      split at ht
      · rename_i hzero
        have hask : asked acts = 0 := by
          cases ht
          exact Nat.add_eq_zero_iff.mpr ⟨hzero, (Nat.zero_add _).trans (asked_continueWith _ _ _)⟩
        cases ht
        obtain ⟨hd, hcl | ⟨sess', hr, hc'⟩⟩ := continueWith_recv (c := c) quiet_nil rfl
        · exact .close hcl hask
        · exact hc' ▸ .feed hask hd.fed (hout.trans (hdue.trans hzero)) hr
      · cases ht
        exact .ask (Nat.add_zero n) rfl (hout.trans hdue)
    | needPsk identity =>
      simp only [Conn.turn, hs] at ht
      have hask := asked_needPsk sh { c with sess := sess } identity now random seed
      rw [ht] at hask
      obtain ⟨-, hcl⟩ | ⟨psk, known, hd, -, hcl | ⟨sess', hset, rfl⟩⟩ := needPsk_cases ht
      · exact .close hcl hask
      · exact .close hcl hask
      · have hset' := Responder.setPsk_sameReads hset
        exact .of_sameReads hask hd.fed hout (fun _ _ _ => Pc.noConfusion)
          ⟨hset'.1.trans hsame.1, hset'.2.trans hsame.2⟩
    | write out =>
      have hask : asked acts = 0 := by
        simp only [Conn.turn, hs] at ht
        split at ht
        · cases ht
          exact asked_continueWith _ _ _
        · cases ht
          rfl
      obtain ⟨hq, rfl | ⟨-, sess', hw, rfl⟩ | hcl⟩ := turn_write hs ht
      · exact .of_sameReads hask hq.fed hout (fun _ _ _ => Pc.noConfusion) hsame
      · have hwrote := Responder.wrote_sameReads hw
        exact .of_sameReads hask hq.fed hout (fun _ _ _ => Pc.noConfusion)
          ⟨hwrote.1.trans hsame.1, hwrote.2.trans hsame.2⟩
      · exact .close hcl hask
    | request bytes =>
      have hreq := turn_request hs ht
      have hask := asked_request providers { c with sess := sess } bytes
      rw [hreq] at hask
      obtain ⟨hcl, -⟩ | ⟨-, request, provider, -, -, -, -, -, rfl, rfl⟩ := request_cases hreq
      · exact .close hcl hask
      · exact .of_sameReads hask rfl hout (fun _ _ _ => Pc.noConfusion) hsame
    | done =>
      simp only [Conn.turn, hs] at ht
      cases ht
      exact .of_sameReads rfl rfl hout (fun _ _ _ => Pc.noConfusion) hsame

/-- **Every event of a connection closes it, keeps its reads, asks or feeds.** -/
theorem Reads.of_next (hn : c.next providers sh e = some (c', limiter, acts)) :
    Reads c acts c' := by
  cases hpc : c.pc with
  | top =>
    obtain ⟨now, random, seed, ht⟩ := next_top hpc hn
    exact .of_turn hpc ht
  | reading phase n out =>
    have hout : c.outstanding = 0 := by rw [Conn.outstanding, hpc]
    have hask : asked acts = 0 := by
      unfold Conn.next at hn
      rw [hpc] at hn
      cases e with
      | read bytes =>
        dsimp only at hn
        split at hn
        · cases hn
        · split at hn
          · cases hn
            rfl
          · cases hn
            exact (Nat.zero_add _).trans (asked_continueWith _ _ _)
      | eof | readErr | timeout =>
        cases hn
        rfl
      | _ => cases hn
    obtain ⟨out', rfl, hq⟩ | ⟨bytes, hd, hcl | ⟨sess', hr, rfl⟩⟩ | ⟨hcl, -⟩ := next_reading hpc hn
    · exact .keep hask hq.fed hout.symm rfl
    · exact .close hcl hask
    · exact .feed hask hd.fed hout hr
    · exact .close hcl hask
  | writing rest =>
    have hout : c.outstanding = c.sess.due := by rw [Conn.outstanding, hpc]
    have hask : asked acts = 0 := by
      unfold Conn.next at hn
      rw [hpc] at hn
      cases e with
      | wrote k =>
        dsimp only at hn
        split at hn
        · cases hn
        · split at hn
          · cases hn
            rfl
          · cases hn
            exact (Nat.zero_add _).trans (asked_continueWith _ _ _)
      | writeErr | timeout =>
        cases hn
        rfl
      | _ => cases hn
    obtain ⟨w, rest', -, rfl, hd⟩ | ⟨sess', hw, rfl, hd⟩ | ⟨hcl, -⟩ := next_writing hpc hn
    · exact .of_sameReads hask hd.fed hout (fun _ _ _ => Pc.noConfusion) ⟨rfl, rfl⟩
    · exact .of_sameReads hask hd.fed hout (fun _ _ _ => Pc.noConfusion)
        (Responder.wrote_sameReads hw)
    · exact .close hcl hask
  | minting request provider =>
    have hout : c.outstanding = c.sess.due := by rw [Conn.outstanding, hpc]
    have hask : asked acts = 0 := by
      unfold Conn.next at hn
      rw [hpc] at hn
      cases e with
      | minted result =>
        cases hn
        exact (Nat.zero_add _).trans (asked_minted _ _ _)
      | timeout =>
        cases hn
        rfl
      | _ => cases hn
    obtain ⟨hq, hcl | ⟨outcome, sess', mintRecord, -, hset, rfl⟩⟩ := next_minting hpc hn
    · exact .close hcl hask
    · exact .of_sameReads hask hq.fed hout (fun _ _ _ => Pc.noConfusion)
        (Responder.setResponse_sameReads hset)
  | flushing =>
    obtain ⟨hcl, -⟩ := next_flushing hpc hn
    refine .close hcl ?_
    unfold Conn.next at hn
    rw [hpc] at hn
    cases e with
    | flushed =>
      cases hn
      exact asked_flushed c
    | timeout =>
      cases hn
      rfl
    | _ => cases hn
  | closed =>
    rw [next_closed hpc] at hn
    cases hn

/-! ### What was asked for is what was declared -/

/-- **What a connection has asked for**: never more than its peer declared, and all of it but
for what it still has to ask for. -/
structure Metered (h : List Act) (c : Conn S) : Prop where
  /-- Never more than declared. -/
  le : asked h ≤ declared (fed h)
  /-- All of it, but for the next read. -/
  eq : c.pc ≠ .closed → asked h + c.outstanding = declared (fed h)
  /-- The session knows how many pieces it was fed. -/
  pieces : c.pc ≠ .closed → (fed h).length = c.sess.pieces

theorem Metered.accept (key : BrokerPrivateKey) :
    Metered (Conn.accept S key).2 (Conn.accept S key).1 := by
  rcases hb : S.buildResponder key with err | hs
  · simp only [Conn.accept, Responder.new, hb]
    exact ⟨Nat.zero_le _, fun hopen => absurd rfl hopen, fun hopen => absurd rfl hopen⟩
  · simp only [Conn.accept, Responder.new, hb]
    exact ⟨Nat.zero_le _, fun _ => rfl, fun _ => rfl⟩

theorem Metered.next (hm : Metered h c) (hn : c.next providers sh e = some (c', limiter, acts)) :
    Metered (h ++ acts) c' := by
  have hopen : c.pc ≠ .closed := by
    intro hcl
    rw [next_closed hcl] at hn
    cases hn
  have heq := hm.eq hopen
  have hpieces := hm.pieces hopen
  cases Reads.of_next hn with
  | close hcl ha =>
    refine ⟨?_, fun hne => absurd hcl hne, fun hne => absurd hcl hne⟩
    rw [asked_append, ha, fed_append]
    exact hm.le.trans (declared_le_append _ _)
  | keep ha hf hout hcount =>
    have hfed : fed (h ++ acts) = fed h := by rw [fed_append, hf, List.append_nil]
    have hask : asked (h ++ acts) = asked h := by rw [asked_append, ha, Nat.add_zero]
    refine ⟨?_, fun _ => ?_, fun _ => ?_⟩
    · rw [hfed, hask]
      exact hm.le
    · rw [hfed, hask, hout]
      exact heq
    · rw [hfed, hcount]
      exact hpieces
  | ask ha hf hout =>
    have hfed : fed (h ++ acts) = fed h := by rw [fed_append, hf, List.append_nil]
    have hask : asked (h ++ acts) = declared (fed (h ++ acts)) := by
      rw [asked_append, ha, hfed, ← hout, heq]
    exact ⟨hask.le, fun _ => hask, fun _ => hfed ▸ hpieces⟩
  | @feed bytes _ ha hf hout hrecv =>
    obtain ⟨hdecl, hlen⟩ := Responder.recv_declared hpieces hrecv
    have hfed : fed (h ++ acts) = fed h ++ [bytes] := by rw [fed_append, hf]
    have hask : asked (h ++ acts) = declared (fed h) := by
      rw [asked_append, ha, ← heq, hout]
    refine ⟨?_, fun _ => ?_, fun _ => hfed ▸ hlen⟩
    · rw [hask, hfed, hdecl]
      exact Nat.le_add_right _ _
    · rw [hask, hfed, hdecl]
      rfl

variable {cfg : Setup} {d d₀ d' : Daemon S} {l : DaemonLabel S} {ls : List (DaemonLabel S)}

/-- **Every connection of a run asks for what its peer declares.** -/
theorem Daemon.Run.metered (h₀ : Daemon.Started cfg d₀) (hrun : Daemon.Run cfg d₀ ls d) :
    Daemon.Each Metered ls d :=
  Daemon.Run.each (Metered.accept _) Metered.next
    (fun hm => ⟨hm.le, fun hopen => absurd rfl hopen, fun hopen => absurd rfl hopen⟩) h₀ hrun

/-- A step in which a connection asks for something leaves it in the read. -/
theorem Daemon.Step.reading_of_asked {i : ℕ} (hstep : Daemon.Step cfg d l d')
    (ha : asked (l.acts i) ≠ 0) :
    ∃ c phase n out, d'.conns[i]? = some c ∧ c.pc = .reading phase n out := by
  obtain hnone | haccept | ⟨c, c', e, limiter, -, hc', hn⟩ := hstep.acts_cases i
  · exact absurd (congrArg asked hnone) ha
  · have hzero : asked (Conn.accept S cfg.brokerKey).2 = 0 := by
      unfold Conn.accept
      split <;> rfl
    exact absurd ((congrArg asked haccept).trans hzero) ha
  · cases Reads.of_next hn with
    | close _ hzero | keep hzero | feed hzero => exact absurd hzero ha
    | ask => exact ⟨_, _, _, _, hc', rfl⟩

/-- What was declared in a run: at least what a connection asked for. -/
theorem Daemon.Run.asked_le_declared (h₀ : Daemon.Started cfg d₀)
    (hrun : Daemon.Run cfg d₀ ls d) (i : ℕ) :
    asked (actsOf i ls) ≤ declared (fed (actsOf i ls)) := by
  rcases hi : d.conns[i]? with _ | c
  · rw [(Daemon.Run.metered h₀ hrun).absent i (List.getElem?_eq_none_iff.mp hi)]
    exact Nat.zero_le _
  · exact ((Daemon.Run.metered h₀ hrun).conn i c hi).le

/-- A connection that waits in a read has asked for all that was declared. -/
theorem Daemon.Run.asked_of_reading {i n : ℕ} {c : Conn S} {phase : Phase} {out : Bytes}
    (h₀ : Daemon.Started cfg d₀) (hrun : Daemon.Run cfg d₀ ls d) (hc : d.conns[i]? = some c)
    (hpc : c.pc = .reading phase n out) :
    asked (actsOf i ls) = declared (fed (actsOf i ls)) := by
  have hm := (Daemon.Run.metered h₀ hrun).conn i c hc
  rw [← hm.eq (hpc ▸ Pc.noConfusion), Conn.outstanding, hpc, Nat.add_zero]

/-- **What was asked for in a run was declared when the last read began.** -/
theorem Daemon.Run.exists_read (h₀ : Daemon.Started cfg d₀) (hrun : Daemon.Run cfg d₀ ls d)
    (i : ℕ) : asked (actsOf i ls) = 0 ∨ ∃ past rest d₁ c phase n out, ls = past ++ rest ∧
      Daemon.Run cfg d₀ past d₁ ∧ d₁.conns[i]? = some c ∧ c.pc = .reading phase n out ∧
      asked (actsOf i ls) = declared (fed (actsOf i past)) := by
  induction ls using List.reverseRecOn generalizing d with
  | nil => exact .inl rfl
  | append_singleton past l ih =>
    obtain ⟨d₁, hpast, hlast⟩ := Lts.run_append_iff.mp hrun
    have hstep : Daemon.Step cfg d₁ l d := Lts.run_singleton_iff.mp hlast
    by_cases ha : asked (l.acts i) = 0
    · have hask : asked (actsOf i (past ++ [l])) = asked (actsOf i past) := by
        rw [actsOf_snoc, asked_append, ha, Nat.add_zero]
      obtain hzero | ⟨past', rest, d₂, c, phase, n, out, rfl, hpast', hc, hpc, heq⟩ := ih hpast
      · exact .inl (hask.trans hzero)
      · exact .inr ⟨past', rest ++ [l], d₂, c, phase, n, out, List.append_assoc _ _ _, hpast', hc,
          hpc, hask.trans heq⟩
    · obtain ⟨c, phase, n, out, hc, hpc⟩ := hstep.reading_of_asked ha
      exact .inr ⟨_, [], d, c, phase, n, out, (List.append_nil _).symm, hrun, hc, hpc,
        Daemon.Run.asked_of_reading h₀ hrun hc hpc⟩

/-- **A connection stays within the budget iff what its peer declares does.** In every run,
whatever the peers do, a connection has asked for at most what its peer has declared, and
for exactly that whenever it waits in a read. So it has asked for at most
`WIRE_READ_BUDGET` iff at every read of the run no more than that was declared. In any case
it has asked for at most two frames of the largest length. -/
theorem asked_le_budget_iff (h₀ : Daemon.Started cfg d₀) (hrun : Daemon.Run cfg d₀ ls d) (i : ℕ) :
    (asked (actsOf i ls) ≤ wireReadBudget ↔
      ∀ past rest d₁ c phase n out, ls = past ++ rest → Daemon.Run cfg d₀ past d₁ →
        d₁.conns[i]? = some c → c.pc = .reading phase n out →
          declared (fed (actsOf i past)) ≤ wireReadBudget) ∧
      (declared (fed (actsOf i ls)) ≤ wireReadBudget → asked (actsOf i ls) ≤ wireReadBudget) ∧
      asked (actsOf i ls) ≤ 131074 := by
  have hdeclared := Daemon.Run.asked_le_declared h₀ hrun i
  refine ⟨⟨?_, ?_⟩, hdeclared.trans, hdeclared.trans (declared_le _)⟩
  · rintro hle past rest d₁ c phase n out rfl hpast hc hpc
    rw [actsOf_append, asked_append, Daemon.Run.asked_of_reading h₀ hpast hc hpc] at hle
    exact (Nat.le_add_right _ _).trans hle
  · intro hreads
    obtain hzero | ⟨past, rest, d₁, c, phase, n, out, hls, hpast, hc, hpc, heq⟩ :=
      Daemon.Run.exists_read h₀ hrun i
    · exact hzero ▸ Nat.zero_le _
    · exact heq ▸ hreads past rest d₁ c phase n out hls hpast hc hpc

/-- A client that sends a request of a few bytes. -/
theorem asked_le_budget_iff_alice :
    ∃ ls d, Daemon.Run plainSetup plainDaemon ls d ∧
      (fed (actsOf 0 ls)).length = 4 ∧ asked (actsOf 0 ls) ≤ wireReadBudget := by
  obtain ⟨ls, u, hrun, hlen, hdecl⟩ :=
    Lts.exists_run_of_exec (Daemon.next plainSetup) plainDaemon
      (plainHandshake ++ arrive 0 plainAsk)
      (fun _ ls => (fed (actsOf 0 ls)).length = 4 ∧ declared (fed (actsOf 0 ls)) ≤ wireReadBudget)
      (by decide +kernel)
  exact ⟨ls, u, hrun, hlen, (asked_le_budget_iff plainDaemon_started hrun 0).2.1 hdecl⟩

/-- **A peer that has shown nothing is waited for with 65535 bytes**: it sends the two bytes
`FF FF`, and the connection asks for as many as they say. -/
theorem asked_of_stranger :
    ∃ ls d, Daemon.Run plainSetup plainDaemon ls d ∧ fed (actsOf 0 ls) = [[0xFF, 0xFF]] ∧
      injected (actsOf 0 ls) = [] ∧ asked (actsOf 0 ls) = 65537 ∧
      wireReadBudget < asked (actsOf 0 ls) :=
  Lts.exists_run_of_exec (Daemon.next plainSetup) plainDaemon
    [.accept, plainTurn 0, .conn 0 (.read [0xFF, 0xFF]), plainTurn 0]
    (fun _ ls => fed (actsOf 0 ls) = [[0xFF, 0xFF]] ∧ injected (actsOf 0 ls) = [] ∧
      asked (actsOf 0 ls) = 65537 ∧ wireReadBudget < asked (actsOf 0 ls))
    (by decide +kernel)

end Symbolon
