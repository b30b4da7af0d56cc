import Mathlib.Logic.Function.Basic
import Symbolon.Providers.JwtRs256

/-!
# The signing agent

The process that owns the App's key with the `file` backend: the protocol of
`src/providers/agent_protocol.rs` and the serve loop of `src/providers/agent.rs`. A request is
one datagram, so is its answer, and neither is longer than `Symbolon.Agent.maxMessage`; the loop
ends when an answer is.

The source holds that to be impossible: an error text is cut to a size whose escaped form fits
(`Symbolon.Agent.AgentResponse.errorCapped`), and “`Jwt` is RSA-sized”. The first is so, for
every text. The second is not: a token carries the claims back, grown by a third, so what fits
in a request need not fit in the answer to it. The agent answers a datagram exactly when it does
not ask for a token over more than `Symbolon.Agent.maxPayload` bytes of claims, and **the loop
goes on exactly as long as it is asked for nothing else** (`Symbolon.Agent.serveLoop_eq_iff`).
One request that fits ends it (`Symbolon.Agent.exists_request_ends_serveLoop`).
-/

namespace Symbolon.Agent

open Text

/-! ### The messages -/

/-- `MAX_MESSAGE`: the largest datagram. -/
def maxMessage : ℕ := 8 * 1024

/-- `MAX_ERROR_LEN`: the largest error text. -/
def maxErrorLen : ℕ := 1024

/-- `AgentRequest`. -/
inductive AgentRequest
  /-- Sign these claims. -/
  | signJwt (claims : JwtClaims)
  /-- Are you there? -/
  | ping
  deriving DecidableEq

/-- A request as `serde_json` writes it. -/
def AgentRequest.json : AgentRequest → Bytes
  | .signJwt claims =>
    ascii "\x7b\"SignJwt\":\x7b\"claims\":" ++ (claims.json ++ ascii "\x7d\x7d")
  | .ping => ascii "\"Ping\""

/-- No two requests are written alike. -/
theorem AgentRequest.json_injective : Function.Injective AgentRequest.json := by
  intro r r' h
  cases r with
  | signJwt claims =>
    cases r' with
    | signJwt claims' =>
      obtain ⟨rfl, -⟩ := JwtClaims.json_append_inj (List.append_cancel_left h)
      rfl
    | ping =>
      have hhead : some (0x7B : UInt8) = some 0x22 := congrArg List.head? h
      exact absurd hhead (by decide)
  | ping =>
    cases r' with
    | signJwt claims' =>
      have hhead : some (0x22 : UInt8) = some 0x7B := congrArg List.head? h
      exact absurd hhead (by decide)
    | ping => rfl

/-- `AgentResponse`. -/
inductive AgentResponse
  /-- The token. -/
  | jwt (token : Str)
  /-- I am here. -/
  | pong
  /-- Why there is no token. -/
  | error (message : Str)
  deriving DecidableEq

/-- A response as `serde_json` writes it. -/
def AgentResponse.json : AgentResponse → Bytes
  | .jwt token => ascii "\x7b\"Jwt\":" ++ (Json.quote token.bytes ++ ascii "\x7d")
  | .pong => ascii "\"Pong\""
  | .error message => ascii "\x7b\"Error\":" ++ (Json.quote message.bytes ++ ascii "\x7d")

/-- No two responses are written alike. -/
theorem AgentResponse.json_injective : Function.Injective AgentResponse.json := by
  -- the third byte, of the name of the variant, tells them apart
  have hne {r r' : AgentResponse} {b c : UInt8} (hb : (r.json : List UInt8)[2]? = some b)
      (hc : (r'.json : List UInt8)[2]? = some c) (hbc : b ≠ c) : r.json ≠ r'.json := fun h =>
    hbc (Option.some.inj (hb.symm.trans (h ▸ hc)))
  intro r r' h
  cases r with
  | jwt token =>
    cases r' with
    | jwt token' =>
      obtain ⟨hbytes, -⟩ := Json.quote_append_inj (List.append_cancel_left h)
      rw [Str.ext hbytes]
    | pong => exact absurd h (hne (b := 0x4A) (c := 0x6F) rfl rfl (by decide))
    | error message => exact absurd h (hne (b := 0x4A) (c := 0x45) rfl rfl (by decide))
  | pong =>
    cases r' with
    | pong => rfl
    | jwt token => exact absurd h (hne (b := 0x6F) (c := 0x4A) rfl rfl (by decide))
    | error message => exact absurd h (hne (b := 0x6F) (c := 0x45) rfl rfl (by decide))
  | error message =>
    cases r' with
    | error message' =>
      obtain ⟨hbytes, -⟩ := Json.quote_append_inj (List.append_cancel_left h)
      rw [Str.ext hbytes]
    | jwt token => exact absurd h (hne (b := 0x45) (c := 0x4A) rfl rfl (by decide))
    | pong => exact absurd h (hne (b := 0x45) (c := 0x6F) rfl rfl (by decide))

theorem AgentRequest.json_ne_nil (request : AgentRequest) : request.json ≠ [] := by
  cases request <;> exact List.cons_ne_nil _ _

theorem AgentResponse.json_ne_nil (response : AgentResponse) : response.json ≠ [] := by
  cases response <;> exact List.cons_ne_nil _ _

/-- `AgentResponse::error`: the text, cut on a character boundary if it is too long. -/
def AgentResponse.errorCapped (message : Str) : AgentResponse :=
  .error (if message.bytes.length > maxErrorLen then message.truncate maxErrorLen else message)

/-- What `encode` says of a message of so many bytes. -/
def tooLong (length : ℕ) : Str :=
  .ofAscii (ascii "message ") (by decide) ++ .ofNat length ++
    .ofAscii (ascii " bytes exceeds ") (by decide) ++ .ofNat maxMessage

/-- `encode`. -/
def encode {T : Type} (toVec : T → Except Str Bytes) (msg : T) : Except Str Bytes :=
  match toVec msg with
  | .error e => .error (.ofAscii (ascii "encode: ") (by decide) ++ e)
  | .ok bytes => if bytes.length > maxMessage then .error (tooLong bytes.length) else .ok bytes

/-- `decode`. -/
def decode {T : Type} (fromSlice : Bytes → Except Str T) (bytes : Bytes) : Except Str T :=
  match fromSlice bytes with
  | .error e => .error (.ofAscii (ascii "decode: ") (by decide) ++ e)
  | .ok msg => .ok msg

/-! ### One request -/

/-- What `serde_json` does for the agent: it reads requests, some way, and those it has
written itself; it writes claims, in the one way it has, or it refuses to; it writes responses,
and does not refuse, since a string is all there is to write. -/
structure Serde where
  /-- `serde_json::from_slice` of a request. -/
  fromSlice : Bytes → Except Str AgentRequest
  /-- `serde_json::to_vec` of claims. -/
  toVec : JwtClaims → Except Str Bytes
  /-- `serde_json::to_vec` of a response. -/
  toVecResponse : AgentResponse → Except Str Bytes
  /-- A request is read back. -/
  fromSlice_json : ∀ request, fromSlice (AgentRequest.json request) = .ok request
  /-- What is written is the JSON of the claims. -/
  eq_json_of_toVec : ∀ claims bytes, toVec claims = .ok bytes → bytes = claims.json
  /-- What is written is the JSON of the response. -/
  toVecResponse_eq : ∀ response, toVecResponse response = .ok response.json

/-- `handle`. -/
def handle (serde : Serde) (signer : JwtSigningKey) (bytes : Bytes) : AgentResponse :=
  match decode serde.fromSlice bytes with
  | .error e => .errorCapped e
  | .ok .ping => .pong
  | .ok (.signJwt claims) =>
    match signer.signRs256 serde.toVec claims with
    | .ok jwt => .jwt jwt
    | .error e => .errorCapped (.ofAscii (ascii "sign: ") (by decide) ++ e.display)

/-- The line that is logged before claims are signed. -/
def auditLine (claims : JwtClaims) : Str :=
  .ofAscii (ascii "symbolon-sign-agent: sign iss=") (by decide) ++ claims.iss ++
    .ofAscii (ascii " iat=") (by decide) ++ .ofNat claims.iat.toNat ++
    .ofAscii (ascii " exp=") (by decide) ++ .ofNat claims.exp.toNat

/-- What `handle` logs. -/
def audit (serde : Serde) (bytes : Bytes) : List Str :=
  match decode serde.fromSlice bytes with
  | .ok (.signJwt claims) => [auditLine claims]
  | _ => []

/-! ### The serve loop -/

/-- `EINTR`. -/
def eintr : ℕ := 4

/-- What the system call `recv` comes back with. -/
inductive Recv
  /-- The datagram that was sent. -/
  | datagram (bytes : Bytes)
  /-- The other end is closed. -/
  | closed
  /-- An error, with its text. -/
  | failed (errno : ℕ) (text : Str)

/-- `recv`, into a buffer of `MAX_MESSAGE` bytes: a longer datagram is cut. -/
def recv : Recv → Except (ℕ × Str) Bytes
  | .datagram bytes => .ok (bytes.take maxMessage)
  | .closed => .ok []
  | .failed errno text => .error (errno, text)

/-- `send`, by what the system call makes of the bytes: an error, or how many were sent. -/
def send (syscall : Bytes → Except Str ℕ) (bytes : Bytes) : Except Str Unit :=
  match syscall bytes with
  | .error e => .error (.ofAscii (ascii "send: ") (by decide) ++ e)
  | .ok n =>
    if n ≠ bytes.length then
      .error (.ofAscii (ascii "short send: ") (by decide) ++ .ofNat n ++
        .ofAscii (ascii " of ") (by decide) ++ .ofNat bytes.length)
    else .ok ()

/-- One turn of the loop, as the kernel plays it: what is received, and what would become of an
answer. -/
structure Turn where
  /-- The `recv`. -/
  recv : Recv
  /-- The `send`. -/
  send : Bytes → Except Str ℕ

/-- What a run of the loop has done. -/
@[ext]
structure Served where
  /-- The answers that were sent. -/
  replies : List Bytes
  /-- The lines that were logged. -/
  log : List Str
  /-- How the loop ended, if it did; if not it waits in `recv`. -/
  exit : Option (Except Str Unit)

/-- **`serve_loop`**, for as long as the kernel has turns for it. -/
def serveLoop (serde : Serde) (signer : JwtSigningKey) : List Turn → Served
  | [] => ⟨[], [], none⟩
  | turn :: turns =>
    match recv turn.recv with
    | .error (errno, text) =>
      if errno = eintr then serveLoop serde signer turns
      else ⟨[], [], some (.error (.ofAscii (ascii "recv: ") (by decide) ++ text))⟩
    | .ok [] => ⟨[], [], some (.ok ())⟩
    | .ok bytes =>
      match encode serde.toVecResponse (handle serde signer bytes) with
      | .error e => ⟨[], audit serde bytes, some (.error e)⟩
      | .ok reply =>
        match send turn.send reply with
        | .error e => ⟨[], audit serde bytes, some (.error e)⟩
        | .ok () =>
          let rest := serveLoop serde signer turns
          ⟨reply :: rest.replies, audit serde bytes ++ rest.log, rest.exit⟩

/-! ### Which answers fit -/

/-- A response is encoded exactly if its JSON fits, and then as that. -/
theorem encode_eq_ok_iff {serde : Serde} {response : AgentResponse} {reply : Bytes} :
    encode serde.toVecResponse response = .ok reply ↔
      response.json.length ≤ maxMessage ∧ reply = response.json := by
  simp only [encode, serde.toVecResponse_eq]
  split
  · rename_i hlong
    simp [Nat.not_le.mpr hlong]
  · rename_i hfits
    simp [Nat.not_lt.mp hfits, eq_comm]

theorem encode_eq_error {serde : Serde} {response : AgentResponse}
    (h : maxMessage < response.json.length) :
    encode serde.toVecResponse response = .error (tooLong response.json.length) := by
  simp only [encode, serde.toVecResponse_eq]
  exact if_pos h

/-- The capped text is the beginning of the whole, and no longer than the cap. -/
theorem exists_errorCapped (message : Str) : ∃ text : Str,
    AgentResponse.errorCapped message = .error text ∧ text.bytes <+: message.bytes ∧
      text.bytes.length ≤ maxErrorLen := by
  unfold AgentResponse.errorCapped
  split
  · exact ⟨_, rfl, message.truncate_isPrefix _, message.length_truncate_le _⟩
  · rename_i hshort
    exact ⟨_, rfl, List.prefix_rfl, Nat.not_lt.mp hshort⟩

/-- **Every error can be sent**, also if each byte of it is escaped to six. -/
theorem length_json_errorCapped_le (message : Str) :
    (AgentResponse.errorCapped message).json.length ≤ maxMessage := by
  obtain ⟨text, heq, -, hlen⟩ := exists_errorCapped message
  have hquote := Json.length_quote_le text.bytes
  have hopen : (ascii "\x7b\"Error\":").length = 9 := by decide
  have hclose : (ascii "\x7d").length = 1 := by decide
  simp only [heq, AgentResponse.json, List.length_append, hopen, hclose, maxErrorLen,
    maxMessage] at hlen ⊢
  omega

/-- The most bytes of claims whose token fits in a message. -/
def maxPayload : ℕ := 5851

/-- The datagram asks for no token that is too long: if claims are read from it and are
written, then to at most `maxPayload` bytes. -/
def Answerable (serde : Serde) (bytes : Bytes) : Prop :=
  ∀ claims, decode serde.fromSlice bytes = .ok (.signJwt claims) →
    ∀ payload, serde.toVec claims = .ok payload → payload.length ≤ maxPayload

/-- What answers claims that could be written: their token, and its size. -/
theorem length_json_handle {serde : Serde} (signer : JwtSigningKey) {bytes payload : Bytes}
    {claims : JwtClaims} (hdecode : decode serde.fromSlice bytes = .ok (.signJwt claims))
    (hvec : serde.toVec claims = .ok payload) :
    (handle serde signer bytes).json.length = (4 * payload.length + 2) / 3 + 390 := by
  obtain ⟨token, hsign, hlen, hplain⟩ := exists_signRs256 signer hvec
  have hopen : (ascii "\x7b\"Jwt\":").length = 7 := by decide
  have hclose : (ascii "\x7d").length = 1 := by decide
  simp only [handle, hdecode, hsign, AgentResponse.json, List.length_append, hopen, hclose,
    Json.length_quote_of_isPlain hplain, hlen]
  omega

/-- **The answer to a datagram fits exactly if the datagram asks for no token that is too
long**. -/
theorem length_json_handle_le_iff (serde : Serde) (signer : JwtSigningKey) (bytes : Bytes) :
    (handle serde signer bytes).json.length ≤ maxMessage ↔ Answerable serde bytes := by
  cases hdecode : decode serde.fromSlice bytes with
  | error e =>
    have hfits := length_json_errorCapped_le e
    simp [handle, Answerable, hdecode, hfits]
  | ok request =>
    cases request with
    | ping =>
      refine iff_of_true ?_ (by simp [Answerable, hdecode])
      simp only [handle, hdecode]
      decide
    | signJwt claims =>
      cases hvec : serde.toVec claims with
      | error e =>
        refine iff_of_true ?_ (by simp [Answerable, hdecode, hvec])
        simp only [handle, hdecode, signRs256_of_error signer hvec]
        exact length_json_errorCapped_le _
      | ok payload =>
        have hanswerable : Answerable serde bytes ↔ payload.length ≤ maxPayload := by
          simp [Answerable, hdecode, hvec]
        rw [length_json_handle signer hdecode hvec, hanswerable, maxMessage, maxPayload]
        omega

/-! ### Whole runs -/

/-- A turn that brings a datagram the buffer holds and takes the answer, whatever it is, or
one that a signal cut short. -/
inductive Turn.Delivers : Turn → Prop
  | datagram {bytes : Bytes} {send : Bytes → Except Str ℕ} (hpos : 1 ≤ bytes.length)
      (hle : bytes.length ≤ maxMessage) (hsend : ∀ reply, send reply = .ok reply.length) :
      Delivers ⟨.datagram bytes, send⟩
  | interrupted (text : Str) (send : Bytes → Except Str ℕ) : Delivers ⟨.failed eintr text, send⟩

/-- The datagram of a turn. -/
def Turn.request (turn : Turn) : Option Bytes :=
  match turn.recv with
  | .datagram bytes => some bytes
  | _ => none

/-- Every datagram answered, in order, and the loop waiting for the next. -/
def answered (serde : Serde) (signer : JwtSigningKey) (turns : List Turn) : Served where
  replies := (turns.filterMap Turn.request).map fun bytes => (handle serde signer bytes).json
  log := (turns.filterMap Turn.request).flatMap (audit serde)
  exit := none

section Step

variable (serde : Serde) (signer : JwtSigningKey) {bytes : Bytes} {syscall : Bytes → Except Str ℕ}
  (turns : List Turn)

theorem recv_datagram (hle : bytes.length ≤ maxMessage) : recv (.datagram bytes) = .ok bytes := by
  simp only [recv, List.take_of_length_le hle]

theorem serveLoop_interrupted (text : Str) :
    serveLoop serde signer (⟨.failed eintr text, syscall⟩ :: turns) =
      serveLoop serde signer turns := by
  simp only [serveLoop, recv, if_true]

/-- A datagram whose answer fits is answered, and the loop goes on. -/
theorem serveLoop_of_le (hpos : 1 ≤ bytes.length) (hle : bytes.length ≤ maxMessage)
    (hsend : ∀ reply, syscall reply = .ok reply.length)
    (hfits : (handle serde signer bytes).json.length ≤ maxMessage) :
    serveLoop serde signer (⟨.datagram bytes, syscall⟩ :: turns) =
      ⟨(handle serde signer bytes).json :: (serveLoop serde signer turns).replies,
        audit serde bytes ++ (serveLoop serde signer turns).log,
        (serveLoop serde signer turns).exit⟩ := by
  obtain ⟨b, bs, rfl⟩ := List.exists_cons_of_length_pos hpos
  simp only [serveLoop, recv_datagram hle, encode_eq_ok_iff.mpr ⟨hfits, rfl⟩, send, hsend,
    ne_eq, not_true_eq_false, if_false]

/-- A datagram whose answer does not fit ends the loop, unanswered. -/
theorem serveLoop_of_lt (hpos : 1 ≤ bytes.length) (hle : bytes.length ≤ maxMessage)
    (hlong : maxMessage < (handle serde signer bytes).json.length) :
    serveLoop serde signer (⟨.datagram bytes, syscall⟩ :: turns) =
      ⟨[], audit serde bytes,
        some (.error (tooLong (handle serde signer bytes).json.length))⟩ := by
  obtain ⟨b, bs, rfl⟩ := List.exists_cons_of_length_pos hpos
  simp only [serveLoop, recv_datagram hle, encode_eq_error hlong]

end Step

/-- **The loop answers everything exactly if everything is answerable.** -/
theorem serveLoop_eq_answered_iff (serde : Serde) (signer : JwtSigningKey) {turns : List Turn}
    (hturns : ∀ turn ∈ turns, turn.Delivers) :
    serveLoop serde signer turns = answered serde signer turns ↔
      ∀ bytes ∈ turns.filterMap Turn.request, Answerable serde bytes := by
  induction turns with
  | nil => simp [serveLoop, answered]
  | cons turn turns ih =>
    obtain ⟨hturn, hrest⟩ := List.forall_mem_cons.mp hturns
    cases hturn with
    | interrupted text syscall =>
      rw [serveLoop_interrupted]
      exact ih hrest
    | @datagram bytes syscall hpos hle hsend =>
      have hmem : (⟨.datagram bytes, syscall⟩ :: turns).filterMap Turn.request =
          bytes :: turns.filterMap Turn.request := rfl
      rw [hmem, List.forall_mem_cons, ← length_json_handle_le_iff serde signer bytes,
        ← ih hrest]
      rcases Nat.lt_or_ge maxMessage (handle serde signer bytes).json.length with hlong | hfits
      · rw [serveLoop_of_lt serde signer turns hpos hle hlong]
        simp [answered, Nat.not_le.mpr hlong]
      · rw [serveLoop_of_le serde signer turns hpos hle hsend hfits]
        simp [answered, hmem, hfits, Served.ext_iff]

/-- **The agent has an answer that fits, to every datagram that does not ask for a token over
more than `maxPayload` bytes of claims, and to no other**:

* every error does, of whatever length: it is cut to the beginning of its text, itself text;
* a datagram's answer does exactly if the datagram is answerable;
* so the loop answers every datagram it gets and waits for the next exactly if all of them
  are. -/
theorem serveLoop_eq_iff (serde : Serde) (signer : JwtSigningKey) :
    (∀ message : Str, ∃ text : Str, AgentResponse.errorCapped message = .error text ∧
      text.bytes <+: message.bytes ∧ text.bytes.length ≤ maxErrorLen ∧
      encode serde.toVecResponse (.errorCapped message) =
        .ok (AgentResponse.errorCapped message).json) ∧
    (∀ bytes, (∃ reply, encode serde.toVecResponse (handle serde signer bytes) = .ok reply) ↔
      Answerable serde bytes) ∧
    ∀ turns : List Turn, (∀ turn ∈ turns, turn.Delivers) →
      (serveLoop serde signer turns = answered serde signer turns ↔
        ∀ bytes ∈ turns.filterMap Turn.request, Answerable serde bytes) := by
  refine ⟨fun message => ?_, fun bytes => ?_, fun turns => serveLoop_eq_answered_iff serde signer⟩
  · obtain ⟨text, heq, hprefix, hlen⟩ := exists_errorCapped message
    exact ⟨text, heq, hprefix, hlen,
      encode_eq_ok_iff.mpr ⟨length_json_errorCapped_le message, rfl⟩⟩
  · rw [← length_json_handle_le_iff serde signer bytes]
    constructor
    · rintro ⟨reply, hreply⟩
      exact (encode_eq_ok_iff.mp hreply).1
    · intro hfits
      exact ⟨_, encode_eq_ok_iff.mpr ⟨hfits, rfl⟩⟩

/-- There is such a `serde_json`, and one that writes all claims. -/
theorem exists_serde : ∃ serde : Serde, ∀ claims, serde.toVec claims = .ok claims.json := by
  let expected : Str := .ofAscii (ascii "expected value at line 1 column 1") (by decide)
  refine ⟨{
    fromSlice := fun bytes =>
      (Function.partialInv AgentRequest.json bytes).elim (.error expected) .ok
    toVec := fun claims => .ok claims.json
    toVecResponse := fun response => .ok response.json
    fromSlice_json := fun request => ?_
    eq_json_of_toVec := fun claims bytes h => (Except.ok.inj h).symm
    toVecResponse_eq := fun _ => rfl }, fun _ => rfl⟩
  rw [Function.partialInv_left AgentRequest.json_injective]
  rfl

/-- A key whose signatures say nothing. -/
def blankKey : JwtSigningKey := ⟨fun _ => List.replicate 256 0, fun _ => List.length_replicate⟩

/-- A kernel that sends whatever it is given. -/
def sends (bytes : Bytes) : Except Str ℕ := .ok bytes.length

/-- A ping, then a signal. -/
def pingTurns : List Turn :=
  [⟨.datagram AgentRequest.ping.json, sends⟩,
    ⟨.failed eintr (.ofAscii (ascii "Interrupted system call") (by decide)), sends⟩]

theorem serveLoop_eq_iff_ping : ∃ serde : Serde,
    (∀ turn ∈ pingTurns, turn.Delivers) ∧
      serveLoop serde blankKey pingTurns = ⟨[ascii "\"Pong\""], [], none⟩ := by
  obtain ⟨serde, -⟩ := exists_serde
  have hdecode : decode serde.fromSlice AgentRequest.ping.json = .ok .ping := by
    rw [decode, serde.fromSlice_json]
  have hturns : ∀ turn ∈ pingTurns, turn.Delivers := by
    refine List.forall_mem_cons.mpr ⟨?_, List.forall_mem_singleton.mpr ?_⟩
    · exact .datagram (by decide) (by decide) fun _ => rfl
    · exact .interrupted _ _
  have hanswerable : ∀ bytes ∈ pingTurns.filterMap Turn.request, Answerable serde bytes := by
    refine List.forall_mem_singleton.mpr fun claims hclaims => ?_
    cases hdecode.symm.trans hclaims
  refine ⟨serde, hturns, ?_⟩
  rw [((serveLoop_eq_iff serde blankKey).2.2 pingTurns hturns).mpr hanswerable]
  simp [answered, pingTurns, Turn.request, handle, audit, hdecode, AgentResponse.json]

/-- Claims of an issuer with a long name. -/
def longClaims : JwtClaims where
  iss := ⟨List.replicate 6000 0x61, utf8ValidUpTo_of_ascii fun b hb => by
    rw [List.eq_of_mem_replicate hb]
    decide⟩
  iat := 0
  exp := 0

theorem length_json_longClaims : longClaims.json.length = 6026 := by
  have hplain : ∀ b ∈ longClaims.iss.bytes, Json.isPlain b = true := fun b hb => by
    rw [List.eq_of_mem_replicate hb]
    decide
  have hiss : longClaims.iss.bytes.length = 6000 := List.length_replicate
  simp only [JwtClaims.json, List.length_append, Json.length_quote_of_isPlain hplain, hiss]
  decide

/-- **A request that fits in a message ends the agent**: 6049 bytes of JSON with an issuer of
6000 letters, whose token would take 8425. -/
theorem exists_request_ends_serveLoop : ∃ serde : Serde,
    (∀ claims, serde.toVec claims = .ok claims.json) ∧
    (AgentRequest.signJwt longClaims).json.length = 6049 ∧ 6049 ≤ maxMessage ∧
    ∀ (signer : JwtSigningKey) (turns : List Turn),
      serveLoop serde signer
          (⟨.datagram (AgentRequest.signJwt longClaims).json, sends⟩ :: turns) =
        ⟨[], [auditLine longClaims], some (.error (tooLong 8425))⟩ := by
  obtain ⟨serde, hwrites⟩ := exists_serde
  have hlen : (AgentRequest.signJwt longClaims).json.length = 6049 := by
    simp only [AgentRequest.json, List.length_append, length_json_longClaims]
    decide
  have hdecode : decode serde.fromSlice (AgentRequest.signJwt longClaims).json =
      .ok (.signJwt longClaims) := by
    rw [decode, serde.fromSlice_json]
  refine ⟨serde, hwrites, hlen, by decide, fun signer turns => ?_⟩
  have hreply := length_json_handle signer hdecode (hwrites longClaims)
  rw [length_json_longClaims] at hreply
  rw [serveLoop_of_lt serde signer turns (by omega) (by rw [hlen]; decide)
    (by rw [hreply]; decide), hreply]
  simp only [audit, hdecode]

end Symbolon.Agent
