import Symbolon.Connection

/-!
# The life of a connection

What a connection can have done, by where it is. Along its life a connection collects
evidence, and each piece is a structure that carries its own proofs:

* `Symbolon.Keyed` – the first message decrypted to an identity, a key was injected, and
  the second message was made with it;
* `Symbolon.Decrypted` – on top of that, a frame decrypted in the transport state this
  handshake ends in;
* `Symbolon.Minting` – on top of that, the plaintext is within the budget and parses, and
  a configured provider has its host;
* `Symbolon.Answered` – on top of that, a response was encrypted.

`Symbolon.Stage` says which evidence goes with which state of the session, and what the
acts so far amount to: what was fed to the session, what was written, what was minted,
and which key was injected. **Every event moves a connection from stage to stage**
(`Symbolon.Stage.next`), so whatever is true of all stages is true of every connection at
every moment: `Symbolon.Stage.summary`.
-/

namespace Symbolon

open Text

/-! ### What a list of acts amounts to -/

/-- What was fed to the session. -/
def fed (h : List Act) : List Bytes := h.filterMap fun
  | .recv bytes => some bytes
  | _ => none

/-- What was written to the wire. -/
def sent (h : List Act) : Bytes := h.flatMap fun
  | .wrote bytes => bytes
  | _ => []

/-- Which keys were injected: for whom, which, and whether it was the identity's own. -/
def injected (h : List Act) : List (Identity × Psk × Bool) := h.filterMap fun
  | .setPsk identity psk known => some (identity, psk, known)
  | _ => none

/-- What was minted. -/
def mints (h : List Act) : List (Provider × Bytes) := h.filterMap fun
  | .mint provider path => some (provider, path)
  | _ => none

/-- The four together. -/
structure Did (h : List Act) (r : List Bytes) (k : List (Identity × Psk × Bool)) (w : Bytes)
    (m : List (Provider × Bytes)) : Prop where
  /-- What was fed to the session. -/
  fed : fed h = r
  /-- Which keys were injected. -/
  injected : injected h = k
  /-- What was written. -/
  sent : sent h = w
  /-- What was minted. -/
  mints : mints h = m

section Did

variable {h acts : List Act} {r r' : List Bytes} {k k' : List (Identity × Psk × Bool)}
  {w w' : Bytes} {m m' : List (Provider × Bytes)}

theorem Did.append (hd : Did h r k w m) (ha : Did acts r' k' w' m') :
    Did (h ++ acts) (r ++ r') (k ++ k') (w ++ w') (m ++ m') where
  fed := by rw [Symbolon.fed, List.filterMap_append, ← hd.fed, ← ha.fed]; rfl
  injected := by rw [Symbolon.injected, List.filterMap_append, ← hd.injected, ← ha.injected]; rfl
  sent := by rw [Symbolon.sent, List.flatMap_append, ← hd.sent, ← ha.sent]; rfl
  mints := by rw [Symbolon.mints, List.filterMap_append, ← hd.mints, ← ha.mints]; rfl

/-- Acts that neither feed the session, nor inject, nor write, nor mint. -/
def Quiet (acts : List Act) : Prop := Did acts [] [] [] []

theorem Did.quiet (hd : Did h r k w m) (hq : Quiet acts) : Did (h ++ acts) r k w m := by
  simpa using hd.append hq

theorem quiet_nil : Quiet [] := ⟨rfl, rfl, rfl, rfl⟩

theorem quiet_close : Quiet [.close] := ⟨rfl, rfl, rfl, rfl⟩

theorem quiet_log_close (line : LogLine) : Quiet [.log line, .close] := ⟨rfl, rfl, rfl, rfl⟩

theorem did_recv (bytes : Bytes) : Did [.recv bytes] [bytes] [] [] [] := ⟨rfl, rfl, rfl, rfl⟩

theorem did_setPsk (identity : Identity) (psk : Psk) (known : Bool) :
    Did [.setPsk identity psk known] [] [(identity, psk, known)] [] [] := ⟨rfl, rfl, rfl, rfl⟩

theorem did_wrote (bytes : Bytes) : Did [.wrote bytes] [] [] bytes [] :=
  ⟨rfl, rfl, List.append_nil _, rfl⟩

theorem did_mint (provider : Provider) (path : Bytes) :
    Did [.mint provider path] [] [] [] [(provider, path)] := ⟨rfl, rfl, rfl, rfl⟩

end Did

/-! ### Evidence -/

variable (S : Snow) (key : BrokerPrivateKey)

/-- **A session with a key**: the first message decrypted to an identity, and the second
was made with the key. -/
structure Keyed where
  /-- The first message. -/
  msg1 : Bytes
  /-- Its identity. -/
  identity : Identity
  /-- The injected key. -/
  psk : Psk
  /-- The responder's handshake state before the first message. -/
  hs₀ : S.Hs
  /-- The state after it. -/
  hs₁ : S.Hs
  /-- The state with the key. -/
  hs₂ : S.Hs
  /-- The state after the second message. -/
  hs₃ : S.Hs
  /-- The randomness of the second message. -/
  seed : S.Seed
  /-- The second message. -/
  msg2 : Bytes
  /-- The second message, framed. -/
  out : Bytes
  /-- The responder was built around the broker's key. -/
  build : S.buildResponder key = .ok hs₀
  /-- The first message is the identity. -/
  read : S.readMessage hs₀ msg1 = .ok (encodeIdentityTlv identity, hs₁)
  /-- The key went into its slot. -/
  inject : S.setPsk hs₁ pskSlot psk = .ok hs₂
  /-- The second message was made with it. -/
  write : S.writeMessage hs₂ seed [] = .ok (msg2, hs₃)
  /-- And framed. -/
  framed : frame msg2 = some out

/-- **A request decrypted under the key.** -/
structure Decrypted extends Keyed S key where
  /-- The transport state the handshake ends in. -/
  ts : S.Ts
  /-- The state after the request. -/
  ts' : S.Ts
  /-- The frame of the request. -/
  ciphertext : Bytes
  /-- The request. -/
  plaintext : Bytes
  /-- The handshake is over. -/
  transport : S.intoTransportMode hs₃ = .ok ts
  /-- The frame decrypts. -/
  decrypt : S.readTransport ts ciphertext = .ok (plaintext, ts')

variable (providers : List Provider)

/-- **A mint on behalf of the peer.** -/
structure Minting extends Decrypted S key where
  /-- The parsed request. -/
  request : Request
  /-- The provider. -/
  provider : Provider
  /-- The request is within the budget. -/
  budget : plaintext.length ≤ wireReadBudget
  /-- The request parses. -/
  parsed : Request.parse plaintext = .ok request
  /-- The provider is configured. -/
  configured : provider ∈ providers
  /-- The provider serves exactly this host. -/
  host : provider.host = request.host

/-- **A mint that was answered.** -/
structure Answered extends Minting S key providers where
  /-- What the provider returned. -/
  outcome : MintOutcome
  /-- The state after the response. -/
  ts'' : S.Ts
  /-- The response, encrypted and framed. -/
  reply : Bytes
  /-- It was encrypted in the state the request left. -/
  encrypt : Responder.encrypt ts' (outcome.response.encode request.clientSupportsAuthtype) =
    .ok (ts'', reply)

variable {S key providers}

/-- The name a connection goes by: that of the identity, if its own key was injected. -/
def nameOf (identity : Identity) (known : Bool) : Option Bytes :=
  if known then some identity.str else none

/-! ### Stages -/

variable (S key providers) in
/-- What is true of a connection whatever it has come to. -/
inductive Summary (h : List Act) : Prop
  /-- Nothing has been written. -/
  | nothing {r : List Bytes} {ks : List (Identity × Psk × Bool)} (hd : Did h r ks [] []) : Summary h
  /-- At most the second message has been written. -/
  | keyed {l₁ w : Bytes} {r : List Bytes} {known : Bool} (k : Keyed S key)
      (hd : Did h r [(k.identity, k.psk, known)] w []) (hr : [l₁, k.msg1] <+: r)
      (hw : w <+: k.out) : Summary h
  /-- A mint has been started for the client whose own key was injected, and at most the
  second message has been written. -/
  | minting {l₁ l₂ w : Bytes} (m : Minting S key providers)
      (hd : Did h [l₁, m.msg1, l₂, m.ciphertext] [(m.identity, m.psk, true)] w
        [(m.provider, m.request.path)])
      (hw : w <+: m.out) : Summary h
  /-- The mint was answered, and at most the second message and the response have been
  written. -/
  | answered {l₁ l₂ w : Bytes} (m : Answered S key providers)
      (hd : Did h [l₁, m.msg1, l₂, m.ciphertext] [(m.identity, m.psk, true)] w
        [(m.provider, m.request.path)])
      (hw : w <+: m.out ++ m.reply) (ha : .answered (.ok m.outcome) ∈ h) : Summary h

variable (S key providers) in
/-- **Where a connection can be**, with the acts that brought it there. -/
inductive Stage (h : List Act) : Conn S → Prop
  /-- Before the length of the first message. -/
  | hsLen {hs : S.Hs} {pc : Pc} (hb : S.buildResponder key = .ok hs)
      (hpc : pc = .top ∨ ∃ phase out, pc = .reading phase 2 out) (hd : Did h [] [] [] []) :
      Stage h ⟨.wantHsLen hs, none, none, pc⟩
  /-- Before the first message. -/
  | hsBody {hs : S.Hs} {pc : Pc} {n : ℕ} {l₁ : Bytes} (hb : S.buildResponder key = .ok hs)
      (hpc : pc = .top ∨ ∃ phase out, pc = .reading phase n out) (hd : Did h [l₁] [] [] []) :
      Stage h ⟨.wantHsBody hs n, none, none, pc⟩
  /-- The identity is known. -/
  | needPsk {hs₀ hs₁ : S.Hs} {identity : Identity} {l₁ msg1 : Bytes}
      (hb : S.buildResponder key = .ok hs₀)
      (hread : S.readMessage hs₀ msg1 = .ok (encodeIdentityTlv identity, hs₁))
      (hd : Did h [l₁, msg1] [] [] []) : Stage h ⟨.needPsk hs₁ identity, none, none, .top⟩
  /-- The second message is ready. -/
  | writeHs {l₁ : Bytes} {known : Bool} (k : Keyed S key)
      (hd : Did h [l₁, k.msg1] [(k.identity, k.psk, known)] [] []) :
      Stage h ⟨.writeHs k.hs₃ k.out, nameOf k.identity known, none, .top⟩
  /-- The second message is being written. -/
  | wroteHs {l₁ w rest : Bytes} {known : Bool} (k : Keyed S key)
      (hd : Did h [l₁, k.msg1] [(k.identity, k.psk, known)] w []) (hw : w ++ rest = k.out) :
      Stage h ⟨.wroteHsPending k.hs₃, nameOf k.identity known, none, .writing rest⟩
  /-- Before the length of the request. -/
  | reqLen {l₁ : Bytes} {known : Bool} {ts : S.Ts} {pc : Pc} (k : Keyed S key)
      (ht : S.intoTransportMode k.hs₃ = .ok ts)
      (hpc : pc = .top ∨ ∃ phase out, pc = .reading phase 2 out)
      (hd : Did h [l₁, k.msg1] [(k.identity, k.psk, known)] k.out []) :
      Stage h ⟨.wantReqLen ts, nameOf k.identity known, none, pc⟩
  /-- Before the request. -/
  | reqBody {l₁ l₂ : Bytes} {known : Bool} {ts : S.Ts} {pc : Pc} {n : ℕ}
      (k : Keyed S key) (ht : S.intoTransportMode k.hs₃ = .ok ts)
      (hpc : pc = .top ∨ ∃ phase out, pc = .reading phase n out)
      (hd : Did h [l₁, k.msg1, l₂] [(k.identity, k.psk, known)] k.out []) :
      Stage h ⟨.wantReqBody ts n, nameOf k.identity known, none, pc⟩
  /-- The request has been decrypted. -/
  | haveRequest {l₁ l₂ : Bytes} {known : Bool} (k : Decrypted S key)
      (hd : Did h [l₁, k.msg1, l₂, k.ciphertext] [(k.identity, k.psk, known)] k.out []) :
      Stage h ⟨.haveRequest k.ts' k.plaintext, nameOf k.identity known, none, .top⟩
  /-- The provider has been asked. -/
  | minting {l₁ l₂ : Bytes} (m : Minting S key providers)
      (hd : Did h [l₁, m.msg1, l₂, m.ciphertext] [(m.identity, m.psk, true)] m.out
        [(m.provider, m.request.path)]) :
      Stage h ⟨.awaitingResponse m.ts', some m.identity.str, none, .minting m.request m.provider⟩
  /-- The response is ready. -/
  | writeResp {mintRecord : Option MintRecord} {l₁ l₂ : Bytes} (m : Answered S key providers)
      (hd : Did h [l₁, m.msg1, l₂, m.ciphertext] [(m.identity, m.psk, true)] m.out
        [(m.provider, m.request.path)])
      (ha : .answered (.ok m.outcome) ∈ h) :
      Stage h ⟨.writeResp m.reply, some m.identity.str, mintRecord, .top⟩
  /-- The response is being written. -/
  | wroteResp {mintRecord : Option MintRecord} {l₁ l₂ w rest : Bytes} (m : Answered S key providers)
      (hd : Did h [l₁, m.msg1, l₂, m.ciphertext] [(m.identity, m.psk, true)] w
        [(m.provider, m.request.path)])
      (hw : w ++ rest = m.out ++ m.reply) (ha : .answered (.ok m.outcome) ∈ h) :
      Stage h ⟨.wroteRespPending, some m.identity.str, mintRecord, .writing rest⟩
  /-- The session is complete. -/
  | done {mintRecord : Option MintRecord} {l₁ l₂ : Bytes} {pc : Pc}
      (hpc : pc = .top ∨ pc = .flushing) (m : Answered S key providers)
      (hd : Did h [l₁, m.msg1, l₂, m.ciphertext] [(m.identity, m.psk, true)] (m.out ++ m.reply)
        [(m.provider, m.request.path)])
      (ha : .answered (.ok m.outcome) ∈ h) :
      Stage h ⟨.done, some m.identity.str, mintRecord, pc⟩
  /-- The connection is closed. -/
  | closed {c : Conn S} (hpc : c.pc = .closed) (hs : Summary S key providers h) : Stage h c

variable {h acts : List Act} {c c' : Conn S} {sh : Shared} {e : ConnEvent S} {limiter : Limiter}

/-- **What is true at every stage.** -/
theorem Stage.summary (hst : Stage S key providers h c) : Summary S key providers h := by
  cases hst with
  | hsLen _ _ hd | hsBody _ _ hd | needPsk _ _ hd | writeHs _ hd => exact .nothing hd
  | wroteHs k hd hw => exact .keyed k hd (List.prefix_refl _) ⟨_, hw⟩
  | reqLen k _ _ hd => exact .keyed k hd (List.prefix_refl _) (List.prefix_refl _)
  | reqBody k _ _ hd => exact .keyed k hd ⟨_, rfl⟩ (List.prefix_refl _)
  | haveRequest k hd => exact .keyed k.toKeyed hd ⟨_, rfl⟩ (List.prefix_refl _)
  | minting m hd => exact .minting m hd (List.prefix_refl _)
  | writeResp m hd ha => exact .answered m hd (List.prefix_append _ _) ha
  | wroteResp m hd hw ha => exact .answered m hd ⟨_, hw⟩ ha
  | done _ m hd ha => exact .answered m hd (List.prefix_refl _) ha
  | closed _ hs => exact hs

/-! ### The events of a connection, by where it is -/

theorem continueWith_cases {phase : RState S → Phase}
    {r : RState S × Except (SessionError S.Err) Unit} {acts : List Act}
    (hc : c.continueWith phase r = (c', acts)) :
    Quiet acts ∧ (c'.pc = .closed ∨
      ∃ sess, r = (sess, .ok ()) ∧ c' = { c with sess := sess, pc := .top }) := by
  obtain ⟨sess, e | u⟩ := r
  · cases hc
    exact ⟨quiet_log_close _, .inl rfl⟩
  · cases hc
    exact ⟨quiet_nil, .inr ⟨sess, rfl, rfl⟩⟩

theorem next_top (hpc : c.pc = .top) (hn : c.next providers sh e = some (c', limiter, acts)) :
    ∃ now random seed, c.turn providers sh now random seed = (c', limiter, acts) := by
  unfold Conn.next at hn
  rw [hpc] at hn
  cases e <;> first
    | exact ⟨_, _, _, Option.some.inj hn⟩
    | cases hn

/-- What feeding the session comes to: it goes on, or the connection closes. -/
theorem continueWith_recv {phase : Phase} {bytes : Bytes} {acts₀ acts₁ : List Act}
    (hq : Quiet acts₀)
    (hc : c.continueWith (fun _ => phase) (Responder.recv c.sess bytes) = (c', acts₁)) :
    Did (acts₀ ++ .recv bytes :: acts₁) [bytes] [] [] [] ∧ (c'.pc = .closed ∨
      ∃ sess, Responder.recv c.sess bytes = (sess, .ok ()) ∧
        c' = { c with sess := sess, pc := .top }) := by
  obtain ⟨hq₁, h⟩ := continueWith_cases hc
  exact ⟨hq.append ((did_recv bytes).quiet hq₁), h⟩

/-- **A connection that reads** goes on reading, feeds the session, or closes. -/
theorem next_reading {phase : Phase} {n : ℕ} {out : Bytes} (hpc : c.pc = .reading phase n out)
    (hn : c.next providers sh e = some (c', limiter, acts)) :
    (∃ out', c' = { c with pc := .reading phase n out' } ∧ Quiet acts) ∨
      (∃ bytes, Did acts [bytes] [] [] [] ∧ (c'.pc = .closed ∨
        ∃ sess, Responder.recv c.sess bytes = (sess, .ok ()) ∧
          c' = { c with sess := sess, pc := .top })) ∨
      (c'.pc = .closed ∧ Quiet acts) := by
  unfold Conn.next at hn
  rw [hpc] at hn
  cases e with
  | read bytes =>
    dsimp only at hn
    split at hn
    · cases hn
    · split at hn
      · cases hn
        exact .inl ⟨_, rfl, quiet_nil⟩
      · cases hn
        exact .inr (.inl ⟨_, continueWith_recv quiet_nil rfl⟩)
  | eof =>
    cases hn
    exact .inr (.inr ⟨rfl, quiet_log_close _⟩)
  | readErr =>
    cases hn
    exact .inr (.inr ⟨rfl, quiet_log_close _⟩)
  | timeout =>
    cases hn
    exact .inr (.inr ⟨rfl, quiet_close⟩)
  | _ => cases hn

/-- **A turn of a connection whose session wants `n` bytes.** -/
theorem turn_readExact {n : ℕ} {sess : RState S} {now : Instant} {random : Except String Psk}
    {seed : S.Seed} (hstep : Responder.step c.sess = (sess, .ok (.readExact n)))
    (ht : c.turn providers sh now random seed = (c', limiter, acts)) :
    (∃ phase, c' = { c with sess := sess, pc := .reading phase n [] } ∧ Quiet acts) ∨
      ∃ bytes, Did acts [bytes] [] [] [] ∧ (c'.pc = .closed ∨
        ∃ sess', Responder.recv sess bytes = (sess', .ok ()) ∧
          c' = { c with sess := sess', pc := .top }) := by
  simp only [Conn.turn, hstep] at ht
  split at ht
  · cases ht
    have hq : Quiet [.readExact n] := ⟨rfl, rfl, rfl, rfl⟩
    exact .inr ⟨[], continueWith_recv (c := { c with sess := sess }) hq rfl⟩
  · cases ht
    exact .inl ⟨_, rfl, rfl, rfl, rfl, rfl⟩

/-- **A connection whose session wants `n` bytes**, reading or about to. -/
theorem next_readExact {n : ℕ} (hstep : Responder.step c.sess = (c.sess, .ok (.readExact n)))
    (hpc : c.pc = .top ∨ ∃ phase out, c.pc = .reading phase n out)
    (hn : c.next providers sh e = some (c', limiter, acts)) :
    (∃ phase out, c' = { c with pc := .reading phase n out } ∧ Quiet acts) ∨
      (∃ bytes sess, Responder.recv c.sess bytes = (sess, .ok ()) ∧
        c' = { c with sess := sess, pc := .top } ∧ Did acts [bytes] [] [] []) ∨
      (c'.pc = .closed ∧ ∃ r, Did acts r [] [] []) := by
  rcases hpc with hpc | ⟨phase, out, hpc⟩
  · obtain ⟨now, random, seed, ht⟩ := next_top hpc hn
    obtain ⟨phase, rfl, hq⟩ | ⟨bytes, hd, hcl | ⟨sess, hr, hc'⟩⟩ := turn_readExact hstep ht
    · exact .inl ⟨phase, [], rfl, hq⟩
    · exact .inr (.inr ⟨hcl, _, hd⟩)
    · exact .inr (.inl ⟨bytes, sess, hr, hc', hd⟩)
  · obtain ⟨out', rfl, hq⟩ | ⟨bytes, hd, hcl | ⟨sess, hr, hc'⟩⟩ | ⟨hcl, hq⟩ := next_reading hpc hn
    · exact .inl ⟨phase, out', rfl, hq⟩
    · exact .inr (.inr ⟨hcl, _, hd⟩)
    · exact .inr (.inl ⟨bytes, sess, hr, hc', hd⟩)
    · exact .inr (.inr ⟨hcl, _, hq⟩)

/-- **A connection that writes** has written some more, or all of it, or closes. -/
theorem next_writing {rest : Bytes} (hpc : c.pc = .writing rest)
    (hn : c.next providers sh e = some (c', limiter, acts)) :
    (∃ w rest', w ++ rest' = rest ∧ c' = { c with pc := .writing rest' } ∧ Did acts [] [] w []) ∨
      (∃ sess, Responder.wrote c.sess = (sess, .ok ()) ∧
        c' = { c with sess := sess, pc := .top } ∧ Did acts [] [] rest []) ∨
      (c'.pc = .closed ∧ ∃ w, w <+: rest ∧ Did acts [] [] w []) := by
  unfold Conn.next at hn
  rw [hpc] at hn
  cases e with
  | wrote k =>
    dsimp only at hn
    split at hn
    · cases hn
    · split at hn
      · cases hn
        exact .inl ⟨_, _, List.take_append_drop k rest, rfl, did_wrote _⟩
      · cases hn
        obtain ⟨hq, hcl | ⟨sess, hr, hc'⟩⟩ := continueWith_cases (c := c) rfl
        · exact .inr (.inr ⟨hcl, rest, List.prefix_refl _, (did_wrote rest).quiet hq⟩)
        · exact .inr (.inl ⟨sess, hr, hc', (did_wrote rest).quiet hq⟩)
  | writeErr =>
    cases hn
    exact .inr (.inr ⟨rfl, [], List.nil_prefix, quiet_log_close _⟩)
  | timeout =>
    cases hn
    exact .inr (.inr ⟨rfl, [], List.nil_prefix, quiet_close⟩)
  | _ => cases hn

/-- **A turn of a connection whose session has bytes to write**: it begins to write them,
or, if there are none, goes on or closes. -/
theorem turn_write {sess : RState S} {out : Bytes} {now : Instant} {random : Except String Psk}
    {seed : S.Seed} (hstep : Responder.step c.sess = (sess, .ok (.write out)))
    (ht : c.turn providers sh now random seed = (c', limiter, acts)) :
    Quiet acts ∧ (c' = { c with sess := sess, pc := .writing out } ∨
      (out = [] ∧ ∃ sess', Responder.wrote sess = (sess', .ok ()) ∧
        c' = { c with sess := sess', pc := .top }) ∨ c'.pc = .closed) := by
  simp only [Conn.turn, hstep] at ht
  split at ht
  · rename_i hout
    cases ht
    obtain ⟨hq, hcl | ⟨sess', hr, hc'⟩⟩ := continueWith_cases (c := { c with sess := sess }) rfl
    · exact ⟨hq, .inr (.inr hcl)⟩
    · exact ⟨hq, .inr (.inl ⟨hout, sess', hr, hc'⟩)⟩
  · cases ht
    exact ⟨quiet_nil, .inl rfl⟩

/-- **A connection that waits for the provider** gets its answer encrypted, or closes. -/
theorem next_minting {request : Request} {provider : Provider}
    (hpc : c.pc = .minting request provider)
    (hn : c.next providers sh e = some (c', limiter, acts)) :
    Quiet acts ∧ (c'.pc = .closed ∨ ∃ (outcome : MintOutcome) (sess : RState S) (mintRecord : _),
      .answered (.ok outcome) ∈ acts ∧
      Responder.setResponse c.sess (outcome.response.encode request.clientSupportsAuthtype) =
        (sess, .ok ()) ∧
      c' = { c with sess := sess, mintRecord := mintRecord, pc := .top }) := by
  unfold Conn.next at hn
  rw [hpc] at hn
  cases e with
  | minted result =>
    cases result with
    | error err =>
      cases hn
      refine ⟨?_, .inl rfl⟩
      by_cases herr : err = .repoNotFound
      · rw [if_pos herr]
        exact ⟨rfl, rfl, rfl, rfl⟩
      · rw [if_neg herr]
        exact ⟨rfl, rfl, rfl, rfl⟩
    | ok outcome =>
      rcases hs : Responder.setResponse c.sess
        (outcome.response.encode request.clientSupportsAuthtype) with ⟨sess, err | u⟩
      · simp only [Conn.minted, hs] at hn
        cases hn
        exact ⟨⟨rfl, rfl, rfl, rfl⟩, .inl rfl⟩
      · simp only [Conn.minted, hs] at hn
        cases hn
        exact ⟨⟨rfl, rfl, rfl, rfl⟩, .inr ⟨outcome, sess, _, List.mem_cons_self, hs, rfl⟩⟩
  | timeout =>
    cases hn
    exact ⟨quiet_close, .inl rfl⟩
  | _ => cases hn

theorem next_flushing (hpc : c.pc = .flushing)
    (hn : c.next providers sh e = some (c', limiter, acts)) : c'.pc = .closed ∧ Quiet acts := by
  unfold Conn.next at hn
  rw [hpc] at hn
  cases e with
  | flushed =>
    cases hn
    refine ⟨rfl, ?_⟩
    rcases c with ⟨_, _ | _, _ | _, _⟩ <;> exact ⟨rfl, rfl, rfl, rfl⟩
  | timeout =>
    cases hn
    exact ⟨rfl, quiet_close⟩
  | _ => cases hn

theorem next_closed (hpc : c.pc = .closed) : c.next providers sh e = none := by
  unfold Conn.next
  rw [hpc]

/-- What the choice of a key leaves: the connection is named after the identity exactly
when the key is the identity's own. -/
theorem choosePsk_cases {identity : Identity} {now : Instant} {random : Except String Psk}
    {psk : Except String Psk} {known : Bool}
    (hc : c.choosePsk sh identity now random = (c', limiter, psk, known, acts)) :
    Quiet acts ∧ (known = true ∧ c' = { c with clientName := some identity.str } ∧
        sh.tables.psks.lookup identity = psk.toOption ∧ identity ∈ sh.tables.clients ∨
      known = false ∧ c' = c) := by
  unfold Conn.choosePsk at hc
  split at hc
  · rename_i key hlook hmem
    cases hc
    exact ⟨⟨rfl, rfl, rfl, rfl⟩, .inl ⟨rfl, rfl, hlook, of_decide_eq_true hmem⟩⟩
  · cases hc
    exact ⟨⟨rfl, rfl, rfl, rfl⟩, .inr ⟨rfl, rfl⟩⟩
  · split at hc
    · cases hc
      exact ⟨⟨rfl, rfl, rfl, rfl⟩, .inr ⟨rfl, rfl⟩⟩
    · cases hc
      exact ⟨quiet_nil, .inr ⟨rfl, rfl⟩⟩

/-- **The `NeedPsk` arm**: no randomness and it closes, or it injects one key, and only an
identity that both tables know has its own. -/
theorem needPsk_cases {identity : Identity} {now : Instant} {random : Except String Psk}
    {seed : S.Seed} (hn : c.needPsk sh identity now random seed = (c', limiter, acts)) :
    (Quiet acts ∧ c'.pc = .closed) ∨ ∃ psk known, Did acts [] [(identity, psk, known)] [] [] ∧
      (known = true → sh.tables.psks.lookup identity = some psk ∧ identity ∈ sh.tables.clients) ∧
      (c'.pc = .closed ∨ ∃ sess, Responder.setPsk c.sess psk seed = (sess, .ok ()) ∧
        c' = { c with sess := sess, pc := .top,
                      clientName := if known then some identity.str else c.clientName }) := by
  unfold Conn.needPsk at hn
  rcases hch : c.choosePsk sh identity now random with ⟨c₁, lim₁, psk | psk, known, acts₁⟩
  · rw [hch] at hn
    cases hn
    exact .inl ⟨(choosePsk_cases hch).1.quiet (quiet_log_close _), rfl⟩
  · rw [hch] at hn
    cases hn
    obtain ⟨hq, hk⟩ := choosePsk_cases hch
    obtain ⟨hq', h⟩ := continueWith_cases (c := c₁) (r := Responder.setPsk c₁.sess psk seed) rfl
    refine .inr ⟨psk, known, hq.append ((did_setPsk identity psk known).quiet hq'), ?_, ?_⟩
    · rintro rfl
      obtain ⟨-, -, hlook, hmem⟩ | ⟨hf, -⟩ := hk
      · exact ⟨hlook, hmem⟩
      · cases hf
    · obtain hcl | ⟨sess, hs, hc'⟩ := h
      · exact .inl hcl
      · refine .inr ⟨sess, ?_⟩
        obtain ⟨rfl, rfl, -⟩ | ⟨rfl, rfl⟩ := hk <;> exact ⟨hs, hc'⟩

/-- **The `Request` arm**: it asks a provider, or closes. -/
theorem request_cases {bytes : Bytes} (hn : c.request providers bytes = (c', acts)) :
    (c'.pc = .closed ∧ Quiet acts) ∨
      ∃ client request provider, c.clientName = some client ∧ bytes.length ≤ wireReadBudget ∧
        Request.parse bytes = .ok request ∧ provider ∈ providers ∧ provider.host = request.host ∧
        c' = { c with pc := .minting request provider } ∧ acts = [.mint provider request.path] := by
  unfold Conn.request at hn
  split at hn
  · cases hn
    exact .inl ⟨rfl, quiet_log_close _⟩
  · rename_i client hname
    split at hn
    · cases hn
      exact .inl ⟨rfl, quiet_log_close _⟩
    · rename_i hlen
      split at hn
      · cases hn
        exact .inl ⟨rfl, quiet_log_close _⟩
      · rename_i request hparse
        split at hn
        · cases hn
          exact .inl ⟨rfl, quiet_log_close _⟩
        · rename_i provider hfind
          cases hn
          exact .inr ⟨client, request, provider, hname, not_lt.mp hlen, hparse,
            List.mem_of_find?_eq_some hfind, by simpa using List.find?_some hfind, rfl, rfl⟩

theorem turn_request {sess : RState S} {bytes : Bytes} {now : Instant}
    {random : Except String Psk} {seed : S.Seed}
    (hstep : Responder.step c.sess = (sess, .ok (.request bytes)))
    (ht : c.turn providers sh now random seed = (c', limiter, acts)) :
    { c with sess := sess }.request providers bytes = (c', acts) := by
  simp only [Conn.turn, hstep] at ht
  cases ht
  rfl

/-- **Only two arms matter for authorisation**: every other event neither injects a key nor
mints. A connection that stays open keeps its name, but for the arm that injects a key. -/
theorem next_arm (hn : c.next providers sh e = some (c', limiter, acts)) :
    (∃ r w, Did acts r [] w [] ∧ (c'.pc = .closed ∨ c'.clientName = c.clientName)) ∨
      (∃ identity psk known, Did acts [] [(identity, psk, known)] [] [] ∧
        (known = true →
          sh.tables.psks.lookup identity = some psk ∧ identity ∈ sh.tables.clients) ∧
        (c'.pc = .closed ∨
          c'.clientName = if known then some identity.str else c.clientName)) ∨
      ∃ provider path, acts = [.mint provider path] ∧ c'.clientName = c.clientName := by
  cases hpc : c.pc with
  | top =>
    obtain ⟨now, random, seed, ht⟩ := next_top hpc hn
    rcases hs : Responder.step c.sess with ⟨sess, err | step⟩
    · simp only [Conn.turn, hs] at ht
      cases ht
      exact .inl ⟨_, _, quiet_log_close _, .inl rfl⟩
    · cases step with
      | readExact n =>
        obtain ⟨phase, rfl, hq⟩ | ⟨bytes, hd, hcl | ⟨sess', -, rfl⟩⟩ := turn_readExact hs ht
        · exact .inl ⟨_, _, hq, .inr rfl⟩
        · exact .inl ⟨_, _, hd, .inl hcl⟩
        · exact .inl ⟨_, _, hd, .inr rfl⟩
      | needPsk identity =>
        simp only [Conn.turn, hs] at ht
        obtain ⟨hq, hcl⟩ | ⟨psk, known, hd, hk, hcl | ⟨sess', -, rfl⟩⟩ := needPsk_cases ht
        · exact .inl ⟨_, _, hq, .inl hcl⟩
        · exact .inr (.inl ⟨identity, psk, known, hd, hk, .inl hcl⟩)
        · exact .inr (.inl ⟨identity, psk, known, hd, hk, .inr rfl⟩)
      | write out =>
        obtain ⟨hd, rfl | ⟨-, sess', -, rfl⟩ | hcl⟩ := turn_write hs ht
        · exact .inl ⟨_, _, hd, .inr rfl⟩
        · exact .inl ⟨_, _, hd, .inr rfl⟩
        · exact .inl ⟨_, _, hd, .inl hcl⟩
      | request bytes =>
        obtain ⟨hcl, hq⟩ | ⟨-, request, provider, -, -, -, -, -, rfl, hacts⟩ :=
          request_cases (turn_request hs ht)
        · exact .inl ⟨_, _, hq, .inl hcl⟩
        · exact .inr (.inr ⟨provider, request.path, hacts, rfl⟩)
      | done =>
        simp only [Conn.turn, hs] at ht
        cases ht
        exact .inl ⟨_, _, quiet_nil, .inr rfl⟩
  | reading phase n out =>
    obtain ⟨out', rfl, hq⟩ | ⟨bytes, hd, hcl | ⟨sess', -, rfl⟩⟩ | ⟨hcl, hq⟩ := next_reading hpc hn
    · exact .inl ⟨_, _, hq, .inr rfl⟩
    · exact .inl ⟨_, _, hd, .inl hcl⟩
    · exact .inl ⟨_, _, hd, .inr rfl⟩
    · exact .inl ⟨_, _, hq, .inl hcl⟩
  | writing rest =>
    obtain ⟨w, rest', -, rfl, hd⟩ | ⟨sess', -, rfl, hd⟩ | ⟨hcl, w, -, hd⟩ := next_writing hpc hn
    · exact .inl ⟨_, _, hd, .inr rfl⟩
    · exact .inl ⟨_, _, hd, .inr rfl⟩
    · exact .inl ⟨_, _, hd, .inl hcl⟩
  | minting request provider =>
    obtain ⟨hd, hcl | ⟨outcome, sess', mintRecord, -, -, rfl⟩⟩ := next_minting hpc hn
    · exact .inl ⟨_, _, hd, .inl hcl⟩
    · exact .inl ⟨_, _, hd, .inr rfl⟩
  | flushing =>
    obtain ⟨hcl, hd⟩ := next_flushing hpc hn
    exact .inl ⟨_, _, hd, .inl hcl⟩
  | closed =>
    rw [next_closed hpc] at hn
    cases hn

/-- **A connection gets a name only from the tables**: unless it closes, it keeps the name
it has or is given that of an enrolled client. -/
theorem next_clientName (hn : c.next providers sh e = some (c', limiter, acts)) :
    c'.pc = .closed ∨ c'.clientName = c.clientName ∨
      ∃ identity ∈ sh.tables.clients, c'.clientName = some identity.str := by
  obtain ⟨-, -, -, hname⟩ | ⟨identity, psk, known, -, hk, hcl | hname⟩ | ⟨-, -, -, hname⟩ :=
    next_arm hn
  · exact hname.imp_right .inl
  · exact .inl hcl
  · cases known with
    | false => exact .inr (.inl hname)
    | true => exact .inr (.inr ⟨identity, (hk rfl).2, hname⟩)
  · exact .inr (.inl hname)

/-! ### From stage to stage -/

theorem Stage.next_hsLen {hs : S.Hs} {pc : Pc} (hb : S.buildResponder key = .ok hs)
    (hpc : pc = .top ∨ ∃ phase out, pc = .reading phase 2 out) (hd : Did h [] [] [] [])
    (hn : (⟨.wantHsLen hs, none, none, pc⟩ : Conn S).next providers sh e =
      some (c', limiter, acts)) : Stage S key providers (h ++ acts) c' := by
  obtain ⟨phase, out, rfl, hq⟩ | ⟨bytes, sess, hr, rfl, ha⟩ | ⟨hcl, r, ha⟩ :=
    next_readExact rfl hpc hn
  · exact .hsLen hb (.inr ⟨phase, out, rfl⟩) (hd.quiet hq)
  · obtain ⟨n, -, rfl⟩ := Responder.recv_wantHsLen hr
    exact .hsBody hb (.inl rfl) (hd.append ha)
  · exact .closed hcl (.nothing (hd.append ha))

theorem Stage.next_hsBody {hs : S.Hs} {pc : Pc} {n : ℕ} {l₁ : Bytes}
    (hb : S.buildResponder key = .ok hs)
    (hpc : pc = .top ∨ ∃ phase out, pc = .reading phase n out) (hd : Did h [l₁] [] [] [])
    (hn : (⟨.wantHsBody hs n, none, none, pc⟩ : Conn S).next providers sh e =
      some (c', limiter, acts)) : Stage S key providers (h ++ acts) c' := by
  obtain ⟨phase, out, rfl, hq⟩ | ⟨bytes, sess, hr, rfl, ha⟩ | ⟨hcl, r, ha⟩ :=
    next_readExact rfl hpc hn
  · exact .hsBody hb (.inr ⟨phase, out, rfl⟩) (hd.quiet hq)
  · obtain ⟨hs₁, identity, hread, rfl⟩ := Responder.recv_wantHsBody hr
    exact .needPsk hb hread (hd.append ha)
  · exact .closed hcl (.nothing (hd.append ha))

theorem Stage.next_needPsk {hs₀ hs₁ : S.Hs} {identity : Identity} {l₁ msg1 : Bytes}
    (hb : S.buildResponder key = .ok hs₀)
    (hread : S.readMessage hs₀ msg1 = .ok (encodeIdentityTlv identity, hs₁))
    (hd : Did h [l₁, msg1] [] [] [])
    (hn : (⟨.needPsk hs₁ identity, none, none, .top⟩ : Conn S).next providers sh e =
      some (c', limiter, acts)) : Stage S key providers (h ++ acts) c' := by
  obtain ⟨now, random, seed, ht⟩ := next_top rfl hn
  obtain ⟨hq, hcl⟩ | ⟨psk, known, ha, -, hcl | ⟨sess, hset, rfl⟩⟩ := needPsk_cases ht
  · exact .closed hcl (.nothing (hd.quiet hq))
  · exact .closed hcl (.nothing (hd.append ha))
  · obtain ⟨hs₂, hs₃, msg2, out, hinj, hw, hf, rfl⟩ := Responder.setPsk_awaitingPsk hset
    exact .writeHs ⟨msg1, identity, psk, hs₀, hs₁, hs₂, hs₃, seed, msg2, out, hb, hread, hinj, hw,
      hf⟩ (hd.append ha)

theorem Stage.next_writeHs {l₁ : Bytes} {known : Bool} (k : Keyed S key)
    (hd : Did h [l₁, k.msg1] [(k.identity, k.psk, known)] [] [])
    (hn : (⟨.writeHs k.hs₃ k.out, nameOf k.identity known, none, .top⟩ : Conn S).next providers sh e
      = some (c', limiter, acts)) : Stage S key providers (h ++ acts) c' := by
  obtain ⟨now, random, seed, ht⟩ := next_top rfl hn
  obtain ⟨hq, rfl | ⟨hout, sess, hw, rfl⟩ | hcl⟩ := turn_write rfl ht
  · exact .wroteHs k (hd.quiet hq) rfl
  · obtain ⟨ts, hts, rfl⟩ := Responder.wrote_wroteHsPending hw
    exact .reqLen k hts (.inl rfl) (hout ▸ hd.quiet hq)
  · exact .closed hcl (.nothing (hd.quiet hq))

theorem Stage.next_wroteHs {l₁ w rest : Bytes} {known : Bool} (k : Keyed S key)
    (hd : Did h [l₁, k.msg1] [(k.identity, k.psk, known)] w []) (hw : w ++ rest = k.out)
    (hn : (⟨.wroteHsPending k.hs₃, nameOf k.identity known, none, .writing rest⟩ : Conn S).next
      providers sh e = some (c', limiter, acts)) : Stage S key providers (h ++ acts) c' := by
  obtain ⟨w', rest', hrest, rfl, ha⟩ | ⟨sess, hwr, rfl, ha⟩ | ⟨hcl, w', hpre, ha⟩ :=
    next_writing rfl hn
  · refine .wroteHs k (hd.append ha) ?_
    rw [List.append_assoc, hrest, hw]
  · obtain ⟨ts, ht, rfl⟩ := Responder.wrote_wroteHsPending hwr
    exact .reqLen k ht (.inl rfl) (hw ▸ hd.append ha)
  · refine .closed hcl (.keyed k (hd.append ha) (List.prefix_refl _) ?_)
    rw [← hw]
    exact (List.prefix_append_right_inj w).mpr hpre

theorem Stage.next_reqLen {l₁ : Bytes} {known : Bool} {ts : S.Ts} {pc : Pc} (k : Keyed S key)
    (ht : S.intoTransportMode k.hs₃ = .ok ts)
    (hpc : pc = .top ∨ ∃ phase out, pc = .reading phase 2 out)
    (hd : Did h [l₁, k.msg1] [(k.identity, k.psk, known)] k.out [])
    (hn : (⟨.wantReqLen ts, nameOf k.identity known, none, pc⟩ : Conn S).next providers sh e =
      some (c', limiter, acts)) : Stage S key providers (h ++ acts) c' := by
  obtain ⟨phase, out, rfl, hq⟩ | ⟨bytes, sess, hr, rfl, ha⟩ | ⟨hcl, r, ha⟩ :=
    next_readExact rfl hpc hn
  · exact .reqLen k ht (.inr ⟨phase, out, rfl⟩) (hd.quiet hq)
  · obtain ⟨n, -, rfl⟩ := Responder.recv_wantReqLen hr
    exact .reqBody k ht (.inl rfl) (by simpa using hd.append ha)
  · exact .closed hcl (.keyed k (hd.append ha) ⟨_, rfl⟩ (by simp))

theorem Stage.next_reqBody {l₁ l₂ : Bytes} {known : Bool} {ts : S.Ts} {pc : Pc} {n : ℕ}
    (k : Keyed S key) (ht : S.intoTransportMode k.hs₃ = .ok ts)
    (hpc : pc = .top ∨ ∃ phase out, pc = .reading phase n out)
    (hd : Did h [l₁, k.msg1, l₂] [(k.identity, k.psk, known)] k.out [])
    (hn : (⟨.wantReqBody ts n, nameOf k.identity known, none, pc⟩ : Conn S).next providers sh e =
      some (c', limiter, acts)) : Stage S key providers (h ++ acts) c' := by
  obtain ⟨phase, out, rfl, hq⟩ | ⟨bytes, sess, hr, rfl, ha⟩ | ⟨hcl, r, ha⟩ :=
    next_readExact rfl hpc hn
  · exact .reqBody k ht (.inr ⟨phase, out, rfl⟩) (hd.quiet hq)
  · obtain ⟨plaintext, ts', hdec, rfl⟩ := Responder.recv_wantReqBody hr
    exact .haveRequest ⟨k, ts, ts', bytes, plaintext, ht, hdec⟩ (by simpa using hd.append ha)
  · exact .closed hcl (.keyed k (hd.append ha) ⟨_, rfl⟩ (by simp))

theorem Stage.next_haveRequest {l₁ l₂ : Bytes} {known : Bool} (k : Decrypted S key)
    (hd : Did h [l₁, k.msg1, l₂, k.ciphertext] [(k.identity, k.psk, known)] k.out [])
    (hn : (⟨.haveRequest k.ts' k.plaintext, nameOf k.identity known, none, .top⟩ : Conn S).next
      providers sh e = some (c', limiter, acts)) : Stage S key providers (h ++ acts) c' := by
  obtain ⟨now, random, seed, ht⟩ := next_top rfl hn
  obtain ⟨hcl, hq⟩ | ⟨client, request, provider, hcn, hlen, hparse, hmem, hhost, rfl, rfl⟩ :=
    request_cases (turn_request rfl ht)
  · exact .closed hcl (.keyed k.toKeyed (hd.quiet hq) ⟨_, rfl⟩ (List.prefix_refl _))
  · -- a connection that has a name has the identity's own key
    cases known with
    | false => cases hcn
    | true =>
      have hd' := hd.append (did_mint provider request.path)
      rw [List.append_nil, List.append_nil, List.append_nil] at hd'
      exact .minting ⟨k, request, provider, hlen, hparse, hmem, hhost⟩ hd'

theorem Stage.next_minting {l₁ l₂ : Bytes} (m : Minting S key providers)
    (hd : Did h [l₁, m.msg1, l₂, m.ciphertext] [(m.identity, m.psk, true)] m.out
      [(m.provider, m.request.path)])
    (hn : (⟨.awaitingResponse m.ts', some m.identity.str, none, .minting m.request m.provider⟩ :
      Conn S).next providers sh e = some (c', limiter, acts)) :
    Stage S key providers (h ++ acts) c' := by
  obtain ⟨hq, hcl | ⟨outcome, sess, mintRecord, ha, hset, rfl⟩⟩ := Symbolon.next_minting rfl hn
  · exact .closed hcl (.minting m (hd.quiet hq) (List.prefix_refl _))
  · obtain ⟨ts'', reply, henc, rfl⟩ := Responder.setResponse_awaitingResponse hset
    exact .writeResp ⟨m, outcome, ts'', reply, henc⟩ (hd.quiet hq) (List.mem_append_right _ ha)

theorem Stage.next_writeResp {mintRecord : Option MintRecord} {l₁ l₂ : Bytes}
    (m : Answered S key providers)
    (hd : Did h [l₁, m.msg1, l₂, m.ciphertext] [(m.identity, m.psk, true)] m.out
      [(m.provider, m.request.path)])
    (ha : .answered (.ok m.outcome) ∈ h)
    (hn : (⟨.writeResp m.reply, some m.identity.str, mintRecord, .top⟩ : Conn S).next providers sh e
      = some (c', limiter, acts)) : Stage S key providers (h ++ acts) c' := by
  obtain ⟨now, random, seed, ht⟩ := next_top rfl hn
  obtain ⟨hq, rfl | ⟨hout, sess, hw, rfl⟩ | hcl⟩ := turn_write rfl ht
  · exact .wroteResp m (hd.quiet hq) rfl (List.mem_append_left _ ha)
  · cases hw
    exact .done (.inl rfl) m (by simpa [hout] using hd.quiet hq) (List.mem_append_left _ ha)
  · exact .closed hcl
      (.answered m (hd.quiet hq) (List.prefix_append _ _) (List.mem_append_left _ ha))

theorem Stage.next_wroteResp {mintRecord : Option MintRecord} {l₁ l₂ w rest : Bytes}
    (m : Answered S key providers)
    (hd : Did h [l₁, m.msg1, l₂, m.ciphertext] [(m.identity, m.psk, true)] w
      [(m.provider, m.request.path)])
    (hw : w ++ rest = m.out ++ m.reply) (ha : .answered (.ok m.outcome) ∈ h)
    (hn : (⟨.wroteRespPending, some m.identity.str, mintRecord, .writing rest⟩ : Conn S).next
      providers sh e = some (c', limiter, acts)) : Stage S key providers (h ++ acts) c' := by
  obtain ⟨w', rest', hrest, rfl, hw'⟩ | ⟨sess, hwr, rfl, hw'⟩ | ⟨hcl, w', hpre, hw'⟩ :=
    next_writing rfl hn
  · refine .wroteResp m (hd.append hw') ?_ (List.mem_append_left _ ha)
    rw [List.append_assoc, hrest, hw]
  · cases hwr
    exact .done (.inl rfl) m (hw ▸ hd.append hw') (List.mem_append_left _ ha)
  · refine .closed hcl (.answered m (hd.append hw') ?_ (List.mem_append_left _ ha))
    rw [← hw]
    exact (List.prefix_append_right_inj w).mpr hpre

theorem Stage.next_done {mintRecord : Option MintRecord} {l₁ l₂ : Bytes} {pc : Pc}
    (hpc : pc = .top ∨ pc = .flushing) (m : Answered S key providers)
    (hd : Did h [l₁, m.msg1, l₂, m.ciphertext] [(m.identity, m.psk, true)] (m.out ++ m.reply)
      [(m.provider, m.request.path)])
    (ha : .answered (.ok m.outcome) ∈ h)
    (hn : (⟨.done, some m.identity.str, mintRecord, pc⟩ : Conn S).next providers sh e =
      some (c', limiter, acts)) : Stage S key providers (h ++ acts) c' := by
  obtain rfl | rfl := hpc
  · obtain ⟨now, random, seed, ht⟩ := next_top rfl hn
    cases ht
    exact .done (.inr rfl) m (hd.quiet quiet_nil) (List.mem_append_left _ ha)
  · obtain ⟨hcl, hq⟩ := next_flushing rfl hn
    exact .closed hcl (.answered m (hd.quiet hq) (List.prefix_refl _) (List.mem_append_left _ ha))

/-- **Every event moves a connection from stage to stage.** -/
theorem Stage.next (hst : Stage S key providers h c)
    (hn : c.next providers sh e = some (c', limiter, acts)) :
    Stage S key providers (h ++ acts) c' := by
  cases hst with
  | hsLen hb hpc hd => exact next_hsLen hb hpc hd hn
  | hsBody hb hpc hd => exact next_hsBody hb hpc hd hn
  | needPsk hb hread hd => exact next_needPsk hb hread hd hn
  | writeHs k hd => exact next_writeHs k hd hn
  | wroteHs k hd hw => exact next_wroteHs k hd hw hn
  | reqLen k ht hpc hd => exact next_reqLen k ht hpc hd hn
  | reqBody k ht hpc hd => exact next_reqBody k ht hpc hd hn
  | haveRequest k hd => exact next_haveRequest k hd hn
  | minting m hd => exact next_minting m hd hn
  | writeResp m hd ha => exact next_writeResp m hd ha hn
  | wroteResp m hd hw ha => exact next_wroteResp m hd hw ha hn
  | done hpc m hd ha => exact next_done hpc m hd ha hn
  | closed hpc _ =>
    rw [next_closed hpc] at hn
    cases hn

/-- A connection begins at a stage. -/
theorem Stage.accept : Stage S key providers (Conn.accept S key).2 (Conn.accept S key).1 := by
  rcases hb : S.buildResponder key with err | hs
  · have h : Conn.accept S key = (⟨.failed, none, none, .closed⟩,
        [.log { evt := .handshakeFailed, reason := some "responder_init" }, .close]) := by
      simp [Conn.accept, Responder.new, hb]
    rw [h]
    exact .closed rfl (.nothing (quiet_log_close _))
  · have h : Conn.accept S key = (⟨.wantHsLen hs, none, none, .top⟩, []) := by
      simp [Conn.accept, Responder.new, hb]
    rw [h]
    exact .hsLen hb (.inl rfl) quiet_nil

end Symbolon
