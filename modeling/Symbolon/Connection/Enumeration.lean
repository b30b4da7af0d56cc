import Symbolon.Connection.Life
import Symbolon.PlainCodec
import Symbolon.Transport.Noise

/-!
# Enrolment cannot be probed

What a peer sees of its connection: how many bytes the daemon waits for, how many it
writes, and when it closes (`Symbolon.seen`). Two connections are driven by the same
peer – the same bytes in the same pieces, the same progress of the writes, the same
timeouts – against daemons with the same broker key but with any two contents of the
tables and of the limiter, which may even change from step to step. As long as neither
decrypts a request, the peer sees the same: `Symbolon.transcript_eq`.

The two connections are kept in step by `Symbolon.Twin`: the same state of the session
and the same place in the code, with different keys. All that is assumed of the Noise
implementation is that the second message comes out the same way – if it does, as long,
and with the handshake finished or not – whatever the key and the randomness
(`Symbolon.PskShape`); for the pattern this is `Symbolon.noise_pskShape`.
-/

namespace Symbolon

open Text

variable {S : Snow} {key : BrokerPrivateKey} {providers : List Provider}

/-! ### What a peer sees -/

/-- What the peer can see of an act. -/
inductive Seen
  /-- The daemon waits for `n` bytes. -/
  | readExact (n : ℕ)
  /-- The daemon has written `n` bytes. -/
  | wrote (n : ℕ)
  /-- The daemon has closed the connection. -/
  | close
  deriving DecidableEq

/-- What the peer can see of a list of acts. -/
def seen (acts : List Act) : List Seen := acts.filterMap fun
  | .readExact n => some (.readExact n)
  | .wrote bytes => some (.wrote bytes.length)
  | .close => some .close
  | _ => none

/-- A connection driven from outside: what it finds in the rest of the daemon is part of
the event. -/
def Conn.drive (providers : List Provider) (c : Conn S) (i : Shared × ConnEvent S) :
    Option (Conn S × List Act) :=
  match c.next providers i.1 i.2 with
  | none => none
  | some (c', _, acts) => some (c', acts)

variable (S key providers) in
/-- **The transcript of a connection**: what the peer sees at each of the events; `none`
when they cannot happen in this order. -/
def transcript (is : List (Shared × ConnEvent S)) : Option (List (List Seen)) :=
  (Lts.exec (Conn.drive providers) (Conn.accept S key).1 is).map fun r => r.2.map fun l => seen l.2

/-- The same thing happens on the wire. When a connection runs on, the clock, the random
key and the randomness of the handshake are its own, but there is a random key. -/
inductive SameWire : ConnEvent S → ConnEvent S → Prop
  /-- It runs on. -/
  | run {now now' : Instant} {psk psk' : Psk} {seed seed' : S.Seed} :
      SameWire (.run now (.ok psk) seed) (.run now' (.ok psk') seed')
  /-- The same bytes arrive. -/
  | read (bytes : Bytes) : SameWire (.read bytes) (.read bytes)
  /-- The peer has closed. -/
  | eof : SameWire .eof .eof
  /-- A read fails. -/
  | readErr : SameWire .readErr .readErr
  /-- The same number of bytes is taken. -/
  | wrote (k : ℕ) : SameWire (.wrote k) (.wrote k)
  /-- A write fails. -/
  | writeErr : SameWire .writeErr .writeErr
  /-- The provider answers. -/
  | minted (result result' : Except ProviderError MintOutcome) :
      SameWire (.minted result) (.minted result')
  /-- The flush is over. -/
  | flushed : SameWire .flushed .flushed
  /-- The time is up. -/
  | timeout : SameWire .timeout .timeout

/-- The session has just decrypted a request. -/
def RState.isRequest : RState S → Bool
  | .haveRequest .. => true
  | _ => false

/-- No request has just been decrypted. -/
def Conn.Undecrypted (c : Conn S) : Prop := c.sess.isRequest = false

instance : DecidablePred (Conn.Undecrypted (S := S)) :=
  fun _ => inferInstanceAs (Decidable (_ = _))

/-! ### The assumption -/

/-- How the second message comes out under a key: not at all, or with this length, and
with the handshake finished or not. -/
def Snow.msg2Shape (S : Snow) (hs : S.Hs) (psk : Psk) (seed : S.Seed) : Option (ℕ × Bool) :=
  match S.setPsk hs pskSlot psk with
  | .error _ => none
  | .ok hs =>
    match S.writeMessage hs seed [] with
    | .error _ => none
    | .ok (msg, hs) => some (msg.length, (S.intoTransportMode hs).isOk)

variable (S key) in
/-- **The second message tells nothing of the key.** -/
def PskShape : Prop :=
  ∀ {hs₀ hs₁ : S.Hs} {msg payload : Bytes}, S.buildResponder key = .ok hs₀ →
    S.readMessage hs₀ msg = .ok (payload, hs₁) →
      ∀ psk psk' seed seed', S.msg2Shape hs₁ psk seed = S.msg2Shape hs₁ psk' seed'

/-- For the pattern it is so: the second message is an ephemeral and a tag. -/
theorem noise_pskShape {P : Primitives} (hP : P.Lawful) : PskShape (noise P) key := by
  intro hs₀ hs₁ msg payload hb hread psk psk' seed seed'
  cases hb
  have hshape : ∀ psk (seed : Ephemeral), (noise P).msg2Shape hs₁ psk seed = some (48, true) := by
    intro psk seed
    change NoiseHs.read P _ msg = .ok (payload, hs₁) at hread
    unfold NoiseHs.read at hread
    split at hread
    · cases hread
    · cases hread
      simp [Snow.msg2Shape, noise, NoiseHs.setPsk, NoiseHs.after, NoiseHs.write, NoiseHs.sealing,
        Primitives.seal, hP.length_encrypt, Ephemeral.length_bytes, tagLen, maxMessageSize,
        NoiseHs.intoTransportMode, Except.isOk, Except.toBool]
  exact (hshape psk seed).trans (hshape psk' seed').symm

/-! ### Two connections in step -/

variable (key) in
/-- **Two connections in step**: the same place in the code and the same state of the
session; from the second message on, with different keys. -/
inductive Twin : Conn S → Conn S → Prop
  /-- Before the length of the first message. -/
  | hsLen {hs : S.Hs} {pc : Pc} {name name' : Option Bytes} {rec rec' : Option MintRecord}
      (hb : S.buildResponder key = .ok hs)
      (hpc : pc = .top ∨ ∃ phase out, pc = .reading phase 2 out) :
      Twin ⟨.wantHsLen hs, name, rec, pc⟩ ⟨.wantHsLen hs, name', rec', pc⟩
  /-- Before the first message. -/
  | hsBody {hs : S.Hs} {n : ℕ} {pc : Pc} {name name' : Option Bytes}
      {rec rec' : Option MintRecord} (hb : S.buildResponder key = .ok hs)
      (hpc : pc = .top ∨ ∃ phase out, pc = .reading phase n out) :
      Twin ⟨.wantHsBody hs n, name, rec, pc⟩ ⟨.wantHsBody hs n, name', rec', pc⟩
  /-- The identity is known. -/
  | needPsk {hs₀ hs₁ : S.Hs} {identity : Identity} {msg payload : Bytes}
      {name name' : Option Bytes} {rec rec' : Option MintRecord}
      (hb : S.buildResponder key = .ok hs₀) (hread : S.readMessage hs₀ msg = .ok (payload, hs₁)) :
      Twin ⟨.needPsk hs₁ identity, name, rec, .top⟩ ⟨.needPsk hs₁ identity, name', rec', .top⟩
  /-- The second message is ready. -/
  | writeHs {hs hs' : S.Hs} {out out' : Bytes} {name name' : Option Bytes}
      {rec rec' : Option MintRecord} (hlen : out.length = out'.length)
      (hok : (S.intoTransportMode hs).isOk = (S.intoTransportMode hs').isOk) :
      Twin ⟨.writeHs hs out, name, rec, .top⟩ ⟨.writeHs hs' out', name', rec', .top⟩
  /-- The second message is being written. -/
  | wroteHs {hs hs' : S.Hs} {rest rest' : Bytes} {name name' : Option Bytes}
      {rec rec' : Option MintRecord} (hlen : rest.length = rest'.length)
      (hok : (S.intoTransportMode hs).isOk = (S.intoTransportMode hs').isOk) :
      Twin ⟨.wroteHsPending hs, name, rec, .writing rest⟩
        ⟨.wroteHsPending hs', name', rec', .writing rest'⟩
  /-- Before the length of the request. -/
  | reqLen {ts ts' : S.Ts} {pc : Pc} {name name' : Option Bytes} {rec rec' : Option MintRecord}
      (hpc : pc = .top ∨ ∃ phase out, pc = .reading phase 2 out) :
      Twin ⟨.wantReqLen ts, name, rec, pc⟩ ⟨.wantReqLen ts', name', rec', pc⟩
  /-- Before the request. -/
  | reqBody {ts ts' : S.Ts} {n : ℕ} {pc : Pc} {name name' : Option Bytes}
      {rec rec' : Option MintRecord} (hpc : pc = .top ∨ ∃ phase out, pc = .reading phase n out) :
      Twin ⟨.wantReqBody ts n, name, rec, pc⟩ ⟨.wantReqBody ts' n, name', rec', pc⟩
  /-- Both are closed. -/
  | closed {c c' : Conn S} (hpc : c.pc = .closed) (hpc' : c'.pc = .closed) : Twin c c'

variable (key) in
/-- Two results of an event that keep the connections in step. -/
abbrev InStep : Option (Conn S × List Act) → Option (Conn S × List Act) → Prop :=
  Lts.Matches seen Conn.Undecrypted (Twin key)

variable {c c' : Conn S} {sh sh' : Shared} {e e' : ConnEvent S} {acts acts' : List Act}

theorem inStep_none : InStep (S := S) key none none := trivial

theorem inStep_closed {c₁ c₁' : Conn S} (hpc : c₁.pc = .closed) (hpc' : c₁'.pc = .closed)
    (hs : seen acts = seen acts') : InStep key (some (c₁, acts)) (some (c₁', acts')) :=
  fun _ _ => ⟨hs, .closed hpc hpc'⟩

/-- Both sessions refuse a call, or both go on and stay in step. -/
theorem inStep_continueWith (c c' : Conn S) (phase phase' : RState S → Phase)
    {r r' : RState S × Except (SessionError S.Err) Unit} (acts acts' : List Act)
    (hs : seen acts = seen acts')
    (hr : (∃ err err', r.2 = .error err ∧ r'.2 = .error err') ∨
      (r.2 = .ok () ∧ r'.2 = .ok () ∧
        Twin key { c with sess := r.1, pc := .top } { c' with sess := r'.1, pc := .top })) :
    InStep key (some ((c.continueWith phase r).1, acts ++ (c.continueWith phase r).2))
      (some ((c'.continueWith phase' r').1, acts' ++ (c'.continueWith phase' r').2)) := by
  obtain ⟨s, res⟩ := r
  obtain ⟨s', res'⟩ := r'
  have happ : ∀ {a : List Act}, seen (acts ++ a) = seen acts ++ seen a := List.filterMap_append
  have happ' : ∀ {a : List Act}, seen (acts' ++ a) = seen acts' ++ seen a := List.filterMap_append
  rcases hr with ⟨err, err', rfl, rfl⟩ | ⟨rfl, rfl, ht⟩
  · refine inStep_closed rfl rfl ?_
    rw [happ, happ', hs]
    rfl
  · refine fun _ _ => ⟨?_, ht⟩
    rw [happ, happ', hs]
    rfl

/-! ### Reading -/

/-- What happens when the session is fed. -/
def Conn.fed (c : Conn S) (phase : Phase) (bytes : Bytes) : Conn S × List Act :=
  let r := c.continueWith (fun _ => phase) (Responder.recv c.sess bytes)
  (r.1, .recv bytes :: r.2)

theorem drive_reading {phase : Phase} {n : ℕ} {out : Bytes} (hpc : c.pc = .reading phase n out) :
    c.drive providers (sh, e) =
      match e with
      | .read bytes =>
        if bytes = [] ∨ n < bytes.length then none
        else if (out ++ bytes).length < n then
          some ({ c with pc := .reading phase n (out ++ bytes) }, [])
        else some (c.fed phase (out ++ bytes))
      | .eof | .readErr => some (c.fail (logPhaseEof phase c.clientName))
      | .timeout => some ({ c with pc := .closed }, [.close])
      | _ => none := by
  unfold Conn.drive Conn.next
  rw [hpc]
  cases e with
  | read bytes =>
    dsimp only
    split
    · rename_i h
      split at h
      · rename_i hb
        rw [if_pos hb]
      · split at h <;> cases h
    · rename_i h
      split at h
      · cases h
      · rename_i hb
        rw [if_neg hb]
        split at h
        · rename_i hlt
          cases h
          rw [if_pos hlt]
        · rename_i hlt
          cases h
          rw [if_neg hlt]
          rfl
  | _ => rfl

theorem drive_readExact {n : ℕ} (hpc : c.pc = .top)
    (hstep : Responder.step c.sess = (c.sess, .ok (.readExact n))) {now : Instant} {psk : Psk}
    {seed : S.Seed} :
    c.drive providers (sh, .run now (.ok psk) seed) =
      if n = 0 then some ((c.fed c.sess.phase []).1, .readExact n :: (c.fed c.sess.phase []).2)
      else some ({ c with pc := .reading c.sess.phase n [] }, [.readExact n]) := by
  obtain ⟨sess, name, rec, pc⟩ := c
  cases hpc
  change Responder.step sess = (sess, .ok (.readExact n)) at hstep
  by_cases hn : n = 0
  · simp only [Conn.drive, Conn.next, Conn.turn, hstep, hn, if_true]
    rfl
  · simp only [Conn.drive, Conn.next, Conn.turn, hstep, hn, if_false]

/-- **Two connections that wait for the same number of bytes stay in step**, if they do
when they are fed. -/
theorem inStep_readExact {sess sess' : RState S} {name name' : Option Bytes}
    {rec rec' : Option MintRecord} {pc : Pc} {n : ℕ}
    (hstep : Responder.step sess = (sess, .ok (.readExact n)))
    (hstep' : Responder.step sess' = (sess', .ok (.readExact n)))
    (hphase : sess.phase = sess'.phase)
    (hpc : pc = .top ∨ ∃ phase out, pc = .reading phase n out)
    (hkeep : ∀ phase out, Twin key ⟨sess, name, rec, .reading phase n out⟩
      ⟨sess', name', rec', .reading phase n out⟩)
    (hfed : ∀ pc phase bytes acts, InStep key
      (some (((⟨sess, name, rec, pc⟩ : Conn S).fed phase bytes).1,
        acts ++ ((⟨sess, name, rec, pc⟩ : Conn S).fed phase bytes).2))
      (some (((⟨sess', name', rec', pc⟩ : Conn S).fed phase bytes).1,
        acts ++ ((⟨sess', name', rec', pc⟩ : Conn S).fed phase bytes).2)))
    (hw : SameWire e e') :
    InStep key ((⟨sess, name, rec, pc⟩ : Conn S).drive providers (sh, e))
      ((⟨sess', name', rec', pc⟩ : Conn S).drive providers (sh', e')) := by
  rcases hpc with rfl | ⟨phase, out, rfl⟩
  · cases hw with
    | run =>
      rw [drive_readExact rfl hstep, drive_readExact rfl hstep']
      by_cases hn : n = 0
      · rw [if_pos hn, if_pos hn]
        exact hphase ▸ hfed _ _ _ [.readExact n]
      · rw [if_neg hn, if_neg hn]
        exact fun _ _ => ⟨rfl, hphase ▸ hkeep _ _⟩
    | _ => exact inStep_none
  · rw [drive_reading rfl, drive_reading rfl]
    cases hw with
    | read bytes =>
      dsimp only
      split
      · exact inStep_none
      · split
        · exact fun _ _ => ⟨rfl, hkeep _ _⟩
        · exact hfed _ _ _ []
    | eof => exact inStep_closed rfl rfl rfl
    | readErr => exact inStep_closed rfl rfl rfl
    | timeout => exact inStep_closed rfl rfl rfl
    | _ => exact inStep_none

/-- Two sessions that are fed the same and both refuse, or both go on. -/
theorem inStep_fed {sess sess' : RState S} {name name' : Option Bytes}
    {rec rec' : Option MintRecord} {pc : Pc} {phase : Phase} {bytes : Bytes}
    (hr : (∃ err err', (Responder.recv sess bytes).2 = .error err ∧
        (Responder.recv sess' bytes).2 = .error err') ∨
      ((Responder.recv sess bytes).2 = .ok () ∧ (Responder.recv sess' bytes).2 = .ok () ∧
        Twin key ⟨(Responder.recv sess bytes).1, name, rec, .top⟩
          ⟨(Responder.recv sess' bytes).1, name', rec', .top⟩)) :
    InStep key
      (some (((⟨sess, name, rec, pc⟩ : Conn S).fed phase bytes).1,
        acts ++ ((⟨sess, name, rec, pc⟩ : Conn S).fed phase bytes).2))
      (some (((⟨sess', name', rec', pc⟩ : Conn S).fed phase bytes).1,
        acts ++ ((⟨sess', name', rec', pc⟩ : Conn S).fed phase bytes).2)) := by
  have h := inStep_continueWith ⟨sess, name, rec, pc⟩ ⟨sess', name', rec', pc⟩ (fun _ => phase)
    (fun _ => phase) (acts ++ [.recv bytes]) (acts ++ [.recv bytes]) rfl hr
  rw [List.append_assoc, List.append_assoc] at h
  exact h

theorem Twin.step_hsLen {hs : S.Hs} {pc : Pc} {name name' : Option Bytes}
    {rec rec' : Option MintRecord} (hb : S.buildResponder key = .ok hs)
    (hpc : pc = .top ∨ ∃ phase out, pc = .reading phase 2 out) (hw : SameWire e e') :
    InStep key ((⟨.wantHsLen hs, name, rec, pc⟩ : Conn S).drive providers (sh, e))
      ((⟨.wantHsLen hs, name', rec', pc⟩ : Conn S).drive providers (sh', e')) := by
  refine inStep_readExact rfl rfl rfl hpc
    (fun phase out => .hsLen hb (.inr ⟨phase, out, rfl⟩)) ?_ hw
  intro pc phase bytes acts
  refine inStep_fed ?_
  rcases hr : Responder.recv (.wantHsLen hs) bytes with ⟨s, err | u⟩
  · exact .inl ⟨err, err, rfl, rfl⟩
  · obtain ⟨n, -, rfl⟩ := Responder.recv_wantHsLen hr
    exact .inr ⟨rfl, rfl, .hsBody hb (.inl rfl)⟩

theorem Twin.step_hsBody {hs : S.Hs} {n : ℕ} {pc : Pc} {name name' : Option Bytes}
    {rec rec' : Option MintRecord} (hb : S.buildResponder key = .ok hs)
    (hpc : pc = .top ∨ ∃ phase out, pc = .reading phase n out) (hw : SameWire e e') :
    InStep key ((⟨.wantHsBody hs n, name, rec, pc⟩ : Conn S).drive providers (sh, e))
      ((⟨.wantHsBody hs n, name', rec', pc⟩ : Conn S).drive providers (sh', e')) := by
  refine inStep_readExact rfl rfl rfl hpc
    (fun phase out => .hsBody hb (.inr ⟨phase, out, rfl⟩)) ?_ hw
  intro pc phase bytes acts
  refine inStep_fed ?_
  rcases hr : Responder.recv (.wantHsBody hs n) bytes with ⟨s, err | u⟩
  · exact .inl ⟨err, err, rfl, rfl⟩
  · obtain ⟨hs₁, identity, hread, rfl⟩ := Responder.recv_wantHsBody hr
    exact .inr ⟨rfl, rfl, .needPsk hb hread⟩

theorem Twin.step_reqLen {ts ts' : S.Ts} {pc : Pc} {name name' : Option Bytes}
    {rec rec' : Option MintRecord}
    (hpc : pc = .top ∨ ∃ phase out, pc = .reading phase 2 out) (hw : SameWire e e') :
    InStep key ((⟨.wantReqLen ts, name, rec, pc⟩ : Conn S).drive providers (sh, e))
      ((⟨.wantReqLen ts', name', rec', pc⟩ : Conn S).drive providers (sh', e')) := by
  refine inStep_readExact rfl rfl rfl hpc (fun phase out => .reqLen (.inr ⟨phase, out, rfl⟩)) ?_ hw
  intro pc phase bytes acts
  refine inStep_fed ?_
  -- the length is read without a key
  rcases hr : @recvFrameLength S.Err bytes with err | n
  · refine .inl ⟨err, err, ?_, ?_⟩ <;> simp [Responder.recv, hr]
  · have hrecv : ∀ ts : S.Ts,
        Responder.recv (.wantReqLen ts) bytes = (.wantReqBody ts n, .ok ()) := by
      simp [Responder.recv, hr]
    rw [hrecv, hrecv]
    exact .inr ⟨rfl, rfl, .reqBody (.inl rfl)⟩

theorem Twin.step_reqBody {ts ts' : S.Ts} {n : ℕ} {pc : Pc} {name name' : Option Bytes}
    {rec rec' : Option MintRecord}
    (hpc : pc = .top ∨ ∃ phase out, pc = .reading phase n out) (hw : SameWire e e') :
    InStep key ((⟨.wantReqBody ts n, name, rec, pc⟩ : Conn S).drive providers (sh, e))
      ((⟨.wantReqBody ts' n, name', rec', pc⟩ : Conn S).drive providers (sh', e')) := by
  refine inStep_readExact rfl rfl rfl hpc (fun phase out => .reqBody (.inr ⟨phase, out, rfl⟩)) ?_ hw
  intro pc phase bytes acts
  rcases hr : Responder.recv (.wantReqBody ts n) bytes with ⟨s, err | u⟩
  · rcases hr' : Responder.recv (.wantReqBody ts' n) bytes with ⟨s', err' | u'⟩
    · refine inStep_fed (.inl ⟨err, err', ?_, ?_⟩)
      · rw [hr]
      · rw [hr']
    · -- a request is decrypted on the second side
      obtain ⟨plaintext, ts₁, -, rfl⟩ := Responder.recv_wantReqBody hr'
      intro _ hgood
      simp [Conn.Undecrypted, Conn.fed, hr', Conn.continueWith, RState.isRequest] at hgood
  · -- a request is decrypted on the first side
    obtain ⟨plaintext, ts₁, -, rfl⟩ := Responder.recv_wantReqBody hr
    intro hgood
    simp [Conn.Undecrypted, Conn.fed, hr, Conn.continueWith, RState.isRequest] at hgood

/-! ### Choosing the key and writing the second message -/

/-- How the framed second message comes out. -/
def writtenShape : Except (SessionError S.Err) (S.Hs × Bytes) → Option (ℕ × Bool)
  | .error _ => none
  | .ok (hs, out) => some (out.length, (S.intoTransportMode hs).isOk)

theorem writtenShape_writeMsg2 (hs : S.Hs) (psk : Psk) (seed : S.Seed) :
    writtenShape (Responder.writeMsg2 hs psk seed) =
      (S.msg2Shape hs psk seed).bind fun r =>
        if maxMessageSize < r.1 then none else some (r.1 + 2, r.2) := by
  rcases hp : S.setPsk hs pskSlot psk with err | hs₁
  · simp [Responder.writeMsg2, Snow.msg2Shape, hp, writtenShape]
  · rcases hw : S.writeMessage hs₁ seed [] with err | ⟨msg, hs₂⟩
    · simp [Responder.writeMsg2, Snow.msg2Shape, hp, hw, writtenShape]
    · by_cases hlt : maxMessageSize < msg.length
      · simp [Responder.writeMsg2, Snow.msg2Shape, hp, hw, frame, hlt, writtenShape]
      · simp [Responder.writeMsg2, Snow.msg2Shape, hp, hw, frame, hlt, writtenShape, lengthPrefix]

/-- Under any two keys the second message comes out the same way. -/
theorem writeMsg2_shape (hS : PskShape S key) {hs₀ hs₁ : S.Hs} {msg payload : Bytes}
    (hb : S.buildResponder key = .ok hs₀) (hread : S.readMessage hs₀ msg = .ok (payload, hs₁))
    (psk psk' : Psk) (seed seed' : S.Seed) :
    (∃ err err', Responder.writeMsg2 hs₁ psk seed = .error err ∧
        Responder.writeMsg2 hs₁ psk' seed' = .error err') ∨
      ∃ hs₂ hs₂' out out', Responder.writeMsg2 hs₁ psk seed = .ok (hs₂, out) ∧
        Responder.writeMsg2 hs₁ psk' seed' = .ok (hs₂', out') ∧ out.length = out'.length ∧
        (S.intoTransportMode hs₂).isOk = (S.intoTransportMode hs₂').isOk := by
  have hshape : writtenShape (Responder.writeMsg2 hs₁ psk seed) =
      writtenShape (Responder.writeMsg2 hs₁ psk' seed') := by
    rw [writtenShape_writeMsg2, writtenShape_writeMsg2, hS hb hread psk psk' seed seed']
  generalize Responder.writeMsg2 hs₁ psk seed = r at hshape ⊢
  generalize Responder.writeMsg2 hs₁ psk' seed' = r' at hshape ⊢
  rcases r with err | ⟨hs₂, out⟩ <;> rcases r' with err' | ⟨hs₂', out'⟩
  · exact .inl ⟨err, err', rfl, rfl⟩
  · cases hshape
  · cases hshape
  · obtain ⟨hlen, hok⟩ := Prod.mk.inj (Option.some.inj hshape)
    exact .inr ⟨hs₂, hs₂', out, out', rfl, rfl, hlen, hok⟩

/-- Whatever the tables and the limiter are, some key is chosen, and nothing is shown. -/
theorem choosePsk_ok (sh : Shared) (c : Conn S) (identity : Identity) (now : Instant)
    (random : Psk) :
    ∃ psk name limiter known acts, seen acts = [] ∧ c.choosePsk sh identity now (.ok random) =
      ({ c with clientName := name }, limiter, .ok psk, known, acts) := by
  unfold Conn.choosePsk
  split
  · exact ⟨_, _, _, _, _, rfl, rfl⟩
  · exact ⟨_, c.clientName, _, _, _, rfl, rfl⟩
  · split
    · exact ⟨_, c.clientName, _, _, _, rfl, rfl⟩
    · exact ⟨_, c.clientName, _, _, _, rfl, rfl⟩

/-- The `NeedPsk` arm injects some key, and shows nothing of it. -/
theorem drive_needPsk (sh : Shared) (hs : S.Hs) (identity : Identity) (name : Option Bytes)
    (rec : Option MintRecord) (now : Instant) (random : Psk) (seed : S.Seed) :
    ∃ psk name₁ acts, seen acts = [] ∧
      (⟨.needPsk hs identity, name, rec, .top⟩ : Conn S).drive providers
          (sh, .run now (.ok random) seed) =
        let r := (⟨.awaitingPsk hs, name₁, rec, .top⟩ : Conn S).continueWith RState.phase
          (Responder.setPsk (.awaitingPsk hs) psk seed)
        some (r.1, acts ++ r.2) := by
  obtain ⟨psk, name₁, limiter, known, acts, hacts, hch⟩ :=
    choosePsk_ok sh (⟨.awaitingPsk hs, name, rec, .top⟩ : Conn S) identity now random
  refine ⟨psk, name₁, acts ++ [.setPsk identity psk known], ?_, ?_⟩
  · rw [seen, List.filterMap_append]
    exact congrArg (· ++ []) hacts
  · simp only [Conn.drive, Conn.next, Conn.turn, Responder.step, Conn.needPsk, hch,
      List.append_assoc, List.singleton_append]

theorem Twin.step_needPsk (hS : PskShape S key) {hs₀ hs₁ : S.Hs} {identity : Identity}
    {msg payload : Bytes} {name name' : Option Bytes} {rec rec' : Option MintRecord}
    (hb : S.buildResponder key = .ok hs₀) (hread : S.readMessage hs₀ msg = .ok (payload, hs₁))
    (hw : SameWire e e') :
    InStep key ((⟨.needPsk hs₁ identity, name, rec, .top⟩ : Conn S).drive providers (sh, e))
      ((⟨.needPsk hs₁ identity, name', rec', .top⟩ : Conn S).drive providers (sh', e')) := by
  cases hw with
  | run =>
    rename_i now now' random random' seed seed'
    obtain ⟨psk, name₁, acts, hacts, hd⟩ :=
      drive_needPsk sh hs₁ identity name rec now random seed
    obtain ⟨psk', name₁', acts', hacts', hd'⟩ :=
      drive_needPsk sh' hs₁ identity name' rec' now' random' seed'
    rw [hd, hd']
    refine inStep_continueWith _ _ _ _ acts acts' (hacts.trans hacts'.symm) ?_
    obtain ⟨err, err', h, h'⟩ | ⟨hs₂, hs₂', out, out', h, h', hlen, hok⟩ :=
      writeMsg2_shape hS hb hread psk psk' seed seed'
    · refine .inl ⟨err, err', ?_, ?_⟩ <;> simp [Responder.setPsk, h, h']
    · have hset : Responder.setPsk (.awaitingPsk hs₁) psk seed = (.writeHs hs₂ out, .ok ()) := by
        simp [Responder.setPsk, h]
      have hset' : Responder.setPsk (.awaitingPsk hs₁) psk' seed' =
          (.writeHs hs₂' out', .ok ()) := by
        simp [Responder.setPsk, h']
      rw [hset, hset']
      exact .inr ⟨rfl, rfl, .writeHs hlen hok⟩
  | _ => exact inStep_none

/-- The second message is on the wire. -/
theorem wrote_wroteHsPending_shape {hs hs' : S.Hs} {name name' : Option Bytes}
    {rec rec' : Option MintRecord}
    (hok : (S.intoTransportMode hs).isOk = (S.intoTransportMode hs').isOk) :
    (∃ err err', (Responder.wrote (.wroteHsPending hs)).2 = .error err ∧
        (Responder.wrote (.wroteHsPending hs')).2 = .error err') ∨
      ((Responder.wrote (.wroteHsPending hs)).2 = .ok () ∧
        (Responder.wrote (.wroteHsPending hs')).2 = .ok () ∧
        Twin key ⟨(Responder.wrote (.wroteHsPending hs)).1, name, rec, .top⟩
          ⟨(Responder.wrote (.wroteHsPending hs')).1, name', rec', .top⟩) := by
  rcases ht : S.intoTransportMode hs with err | ts <;>
    rcases ht' : S.intoTransportMode hs' with err' | ts'
  · exact .inl ⟨.intoTransport err, .intoTransport err', by simp [Responder.wrote, ht],
      by simp [Responder.wrote, ht']⟩
  · rw [ht, ht'] at hok
    cases hok
  · rw [ht, ht'] at hok
    cases hok
  · have hw : Responder.wrote (.wroteHsPending hs) = (.wantReqLen ts, .ok ()) := by
      simp [Responder.wrote, ht]
    have hw' : Responder.wrote (.wroteHsPending hs') = (.wantReqLen ts', .ok ()) := by
      simp [Responder.wrote, ht']
    rw [hw, hw']
    exact .inr ⟨rfl, rfl, .reqLen (.inl rfl)⟩

theorem Twin.step_writeHs {hs hs' : S.Hs} {out out' : Bytes} {name name' : Option Bytes}
    {rec rec' : Option MintRecord} (hlen : out.length = out'.length)
    (hok : (S.intoTransportMode hs).isOk = (S.intoTransportMode hs').isOk) (hw : SameWire e e') :
    InStep key ((⟨.writeHs hs out, name, rec, .top⟩ : Conn S).drive providers (sh, e))
      ((⟨.writeHs hs' out', name', rec', .top⟩ : Conn S).drive providers (sh', e')) := by
  cases hw with
  | run =>
    by_cases hout : out = []
    · have hout' : out' = [] := List.length_eq_zero_iff.mp (by rw [← hlen, hout]; rfl)
      simp only [Conn.drive, Conn.next, Conn.turn, Responder.step, hout, hout', if_true]
      exact inStep_continueWith _ _ _ _ [] [] rfl (wrote_wroteHsPending_shape hok)
    · have hout' : out' ≠ [] := fun h =>
        hout (List.length_eq_zero_iff.mp (by rw [hlen, h]; rfl))
      simp only [Conn.drive, Conn.next, Conn.turn, Responder.step, hout, hout', if_false]
      exact fun _ _ => ⟨rfl, .wroteHs hlen hok⟩
  | _ => exact inStep_none

theorem Twin.step_wroteHs {hs hs' : S.Hs} {rest rest' : Bytes} {name name' : Option Bytes}
    {rec rec' : Option MintRecord} (hlen : rest.length = rest'.length)
    (hok : (S.intoTransportMode hs).isOk = (S.intoTransportMode hs').isOk) (hw : SameWire e e') :
    InStep key ((⟨.wroteHsPending hs, name, rec, .writing rest⟩ : Conn S).drive providers (sh, e))
      ((⟨.wroteHsPending hs', name', rec', .writing rest'⟩ : Conn S).drive providers
        (sh', e')) := by
  cases hw with
  | wrote k =>
    simp only [Conn.drive, Conn.next, ← hlen]
    by_cases hk : k = 0 ∨ rest.length < k
    · rw [if_pos hk, if_pos hk]
      exact inStep_none
    · rw [if_neg hk, if_neg hk]
      by_cases hlt : k < rest.length
      · rw [if_pos hlt, if_pos hlt]
        refine fun _ _ => ⟨?_, .wroteHs ?_ hok⟩
        · simp [seen, hlen]
        · simp [hlen]
      · rw [if_neg hlt, if_neg hlt]
        refine inStep_continueWith _ _ _ _ [.wrote rest] [.wrote rest'] ?_
          (wrote_wroteHsPending_shape hok)
        simp [seen, hlen]
  | writeErr => exact inStep_closed rfl rfl rfl
  | timeout => exact inStep_closed rfl rfl rfl
  | _ => exact inStep_none

/-- **Every event keeps two connections in step.** -/
theorem Twin.step (hS : PskShape S key) (ht : Twin key c c') (hw : SameWire e e') :
    InStep key (c.drive providers (sh, e)) (c'.drive providers (sh', e')) := by
  cases ht with
  | hsLen hb hpc => exact step_hsLen hb hpc hw
  | hsBody hb hpc => exact step_hsBody hb hpc hw
  | needPsk hb hread => exact step_needPsk hS hb hread hw
  | writeHs hlen hok => exact step_writeHs hlen hok hw
  | wroteHs hlen hok => exact step_wroteHs hlen hok hw
  | reqLen hpc => exact step_reqLen hpc hw
  | reqBody hpc => exact step_reqBody hpc hw
  | closed hpc hpc' =>
    simp only [Conn.drive, next_closed hpc, next_closed hpc']
    exact inStep_none

theorem Twin.accept : Twin key (Conn.accept S key).1 (Conn.accept S key).1 := by
  rcases hb : S.buildResponder key with err | hs
  · have h : (Conn.accept S key).1 = ⟨.failed, none, none, .closed⟩ := by
      simp [Conn.accept, Responder.new, hb]
    rw [h]
    exact .closed rfl rfl
  · have h : (Conn.accept S key).1 = ⟨.wantHsLen hs, none, none, .top⟩ := by
      simp [Conn.accept, Responder.new, hb]
    rw [h]
    exact .hsLen hb (.inl rfl)

/-- **A peer that does not hold the key learns nothing.** Drive two connections of daemons
with the same broker key by the same wire events, each against its own tables and its own
limiter, which may be anything and may change from step to step. If neither ever decrypts
a request, the transcripts are the same: the same reads are asked for, as many bytes are
written, and the connection is closed, each at the same event. -/
theorem transcript_eq (hS : PskShape S key) {es fs : List (Shared × ConnEvent S)}
    (hw : List.Forall₂ (fun e f => SameWire e.2 f.2) es fs)
    (hes : Lts.Stays (Conn.drive providers) Conn.Undecrypted (Conn.accept S key).1 es)
    (hfs : Lts.Stays (Conn.drive providers) Conn.Undecrypted (Conn.accept S key).1 fs) :
    transcript S key providers es = transcript S key providers fs :=
  Lts.exec_map_obs_eq (fun _ _ _ _ ht hw => ht.step hS hw) hw Twin.accept hes hfs

/-- A connection that runs on, with a random key at hand. -/
def plainRun : ConnEvent (noise plainPrimitives) :=
  .run 0 (.ok (Psk.filled 0)) (Ephemeral.filled 3)

/-- A peer that claims to be `alice` and does not hold the key, against a daemon that has
the given clients. -/
def probe (ids : List Identity) : List (Shared × ConnEvent (noise plainPrimitives)) :=
  let hello := (Ephemeral.filled 2).bytes ++
    plainPrimitives.encrypt none 0 [] (encodeIdentityTlv alice)
  [plainRun, .read (lengthPrefix hello.length), plainRun, .read hello, plainRun, plainRun,
    .wrote 50, plainRun, .read (lengthPrefix 1), plainRun, .read [9]].map
    (⟨(plainBoot (plainOrder ids)).tables, .new 0 0 0⟩, ·)

theorem probe_sameWire (ids ids' : List Identity) :
    List.Forall₂ (fun e f => SameWire e.2 f.2) (probe ids) (probe ids') := by
  unfold probe plainRun
  repeat' constructor

theorem transcript_eq_probe :
    transcript (noise plainPrimitives) plainKey [] (probe [alice]) =
        transcript (noise plainPrimitives) plainKey [] (probe []) ∧
      transcript (noise plainPrimitives) plainKey [] (probe []) =
        some [[.readExact 2], [], [.readExact 59], [], [], [], [.wrote 50], [.readExact 2], [],
          [.readExact 1], [.close]] :=
  ⟨transcript_eq (noise_pskShape plainPrimitives_lawful) (probe_sameWire _ _) (by decide +kernel)
    (by decide +kernel), by decide +kernel⟩

end Symbolon
