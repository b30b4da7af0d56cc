import Symbolon.Provider
import Symbolon.RateLimit
import Symbolon.Transport.Session

/-!
# One connection

`handle_connection` of `src/daemon.rs`: the driver of a `Symbolon.RState`, with the two
socket primitives `read_exact_n` and `write_all_bytes`. A connection is suspended at an
`await` – in a read, in a write, in the provider's `mint`, in the final flush – or it is
at the head of its loop (`Symbolon.Pc.top`), where it runs on without giving up the
thread. `Symbolon.Conn.next` takes it over one event: what the socket or the provider
did, or, at the head of the loop, one turn of the loop up to the next `await`, the next
turn or the end.

What a connection reads of the rest of the daemon is the two tables and the rate limiter
(`Symbolon.Shared`), both only in the turn that serves `NeedPsk`. What it does is its
list of acts (`Symbolon.Act`): what it asks of the socket, what it feeds the session, the
bytes it writes, the key it injects, the mint it starts, the lines it logs.
-/

namespace Symbolon

open Text

/-! ### Log lines -/

/-- The events of the log a connection emits. -/
inductive EventKind
  /-- `accept`. -/
  | accept
  /-- `cache_invalidated`. -/
  | cacheInvalidated
  /-- `handshake_failed`. -/
  | handshakeFailed
  /-- `identity_invalid`. -/
  | identityInvalid
  /-- `identity_unknown`. -/
  | identityUnknown
  /-- `mint`. -/
  | mint
  /-- `mint_denied`. -/
  | mintDenied
  /-- `provider_error`. -/
  | providerError
  deriving DecidableEq

/-- A line of the log: the event and the fields that tell the lines of one event apart.
The peer address, the texts of errors, the times and the correlation ids are left out. -/
structure LogLine where
  /-- `evt`. -/
  evt : EventKind
  /-- `reason`. -/
  reason : Option String := none
  /-- `detail`. -/
  detail : Option String := none
  /-- `client`. -/
  client : Option Bytes := none
  /-- `psk_identity`. -/
  pskIdentity : Option Identity := none
  /-- `suppressed`. -/
  suppressed : Option ℕ := none
  /-- `provider` or `host`. -/
  host : Option Bytes := none
  /-- `repo`. -/
  repo : Option Bytes := none
  deriving DecidableEq

/-- The name of the client in the log: empty when there is none yet. -/
def clientStr (clientName : Option Bytes) : Option Bytes := some (clientName.getD [])

/-- `log_session_failure`. -/
def logSessionFailure {ε : Type} (phase : Phase) (clientName : Option Bytes) :
    SessionError ε → LogLine
  | .tlvBadMagic _ => { evt := .identityInvalid, reason := some "bad_magic" }
  | .tlvBadVersion _ => { evt := .identityInvalid, reason := some "bad_version" }
  | .tlvBadIdentityLen _ => { evt := .identityInvalid, reason := some "bad_identity_len" }
  | .tlvInvalidCharset _ _ => { evt := .identityInvalid, reason := some "invalid_charset" }
  | .tlvTrailingBytes _ => { evt := .identityInvalid, reason := some "trailing_bytes" }
  | .tlvIncomplete _ => { evt := .identityInvalid, reason := some "truncated" }
  | .handshakeRead _ =>
    { evt := .handshakeFailed, client := clientStr clientName,
      reason := some "handshake_read_failed" }
  | .handshakeWrite _ =>
    { evt := .handshakeFailed, client := clientStr clientName,
      reason := some "handshake_write_failed" }
  | .intoTransport _ =>
    { evt := .handshakeFailed, client := clientStr clientName,
      reason := some "handshake_into_transport_failed" }
  | .transportRead _ =>
    { evt := .mintDenied, client := clientStr clientName, reason := some "transport_read",
      detail := some "decrypt_failed" }
  | .transportWrite _ =>
    { evt := .providerError, client := clientStr clientName, reason := some "response_write" }
  | .frameTooBig _ =>
    match phase with
    | .transport =>
      { evt := .mintDenied, client := clientStr clientName, reason := some "transport_read",
        detail := some "frame_too_big" }
    | _ =>
      { evt := .handshakeFailed, client := clientStr clientName, reason := some "frame_too_big" }
  | .recvLen _ _ | .wrongState _ _ =>
    { evt := .handshakeFailed, client := clientStr clientName, reason := some "internal" }

/-- `log_phase_eof`. -/
def logPhaseEof (phase : Phase) (clientName : Option Bytes) : LogLine :=
  match phase with
  | .msg1 => { evt := .handshakeFailed, reason := some "eof_before_msg1" }
  | .handshake =>
    { evt := .handshakeFailed, client := clientStr clientName,
      reason := some "eof_during_handshake" }
  | .transport =>
    { evt := .mintDenied, client := clientStr clientName, reason := some "transport_read",
      detail := some "eof" }
  | .awaitingPsk | .done =>
    { evt := .handshakeFailed, client := clientStr clientName,
      reason := some "eof_unexpected_phase" }

/-- `log_mint_error`. -/
def logMintError (client host path : Bytes) : ProviderError → LogLine
  | .repoNotFound =>
    { evt := .mintDenied, reason := some "repo_not_accessible", client := some client,
      host := some host, repo := some path }
  | .unauthorized _ | .forbidden _ | .rateLimited _ =>
    { evt := .mintDenied, reason := some "provider_4xx", client := some client,
      host := some host, repo := some path }
  | .malformedPath _ =>
    { evt := .mintDenied, reason := some "malformed_request", client := some client,
      host := some host, repo := some path }
  | _ => { evt := .providerError, host := some host, repo := some path }

/-! ### The state of a connection -/

/-- The longest request, `WIRE_READ_BUDGET`. -/
def wireReadBudget : ℕ := 8 * 1024

/-- The instants of the limiter's clock. -/
abbrev Instant := ℕ

/-- The limiter of the `identity_unknown` lines. -/
abbrev Limiter := TokenBucket Instant ℕ

/-- What a connection shares with the rest of the daemon. -/
structure Shared where
  /-- The two tables. -/
  tables : Tables
  /-- The limiter. -/
  limiter : Limiter

/-- What is kept for the `mint` line. -/
structure MintRecord where
  /-- The host of the request. -/
  host : Bytes
  /-- The path of the request. -/
  path : Bytes
  /-- The credential. -/
  response : Response
  deriving DecidableEq

/-- Where a connection is. -/
inductive Pc
  /-- At the head of the loop; not an `await`. -/
  | top
  /-- In `read_exact_n`, with `out` read of the `n` bytes asked for in `phase`. -/
  | reading (phase : Phase) (n : ℕ) (out : Bytes)
  /-- In `write_all`, with `rest` still to be written. -/
  | writing (rest : Bytes)
  /-- In the `mint` of a provider. -/
  | minting (request : Request) (provider : Provider)
  /-- In the final flush. -/
  | flushing
  /-- Closed. -/
  | closed
  deriving DecidableEq

variable (S : Snow)

/-- **A connection.** -/
structure Conn where
  /-- The session. -/
  sess : RState S
  /-- The authorised client. -/
  clientName : Option Bytes
  /-- The mint that has been made. -/
  mintRecord : Option MintRecord
  /-- Where it is. -/
  pc : Pc

/-- What happens to a connection. -/
inductive ConnEvent
  /-- It runs on from the head of its loop; the clock, the key generator and the
  randomness of a handshake message are there if it needs them. -/
  | run (now : Instant) (random : Except String Psk) (seed : S.Seed)
  /-- A read returns bytes. -/
  | read (bytes : Bytes)
  /-- A read returns nothing: the peer has closed. -/
  | eof
  /-- A read fails. -/
  | readErr
  /-- A write takes so many bytes. -/
  | wrote (k : ℕ)
  /-- A write fails. -/
  | writeErr
  /-- The provider answers. -/
  | minted (result : Except ProviderError MintOutcome)
  /-- The flush is over. -/
  | flushed
  /-- The handler's time is up. -/
  | timeout

/-- What a connection does. -/
inductive Act
  /-- Ask for exactly `n` bytes. -/
  | readExact (n : ℕ)
  /-- Feed the session. -/
  | recv (bytes : Bytes)
  /-- Inject a key for an identity; `known` when it is the identity's own. -/
  | setPsk (identity : Identity) (psk : Psk) (known : Bool)
  /-- Put bytes on the wire. -/
  | wrote (bytes : Bytes)
  /-- Call a provider's `mint`. -/
  | mint (provider : Provider) (path : Bytes)
  /-- The call returns. -/
  | answered (result : Except ProviderError MintOutcome)
  /-- Log. -/
  | log (line : LogLine)
  /-- Close. -/
  | close
  deriving DecidableEq

variable {S}

namespace Conn

/-- Return from the handler after a log line. -/
def fail (c : Conn S) (line : LogLine) : Conn S × List Act :=
  ({ c with pc := .closed }, [.log line, .close])

/-- Go on with the session that a call left, or give up over its error. -/
def continueWith (c : Conn S) (phase : RState S → Phase) :
    RState S × Except (SessionError S.Err) Unit → Conn S × List Act
  | (sess, .error e) => { c with sess }.fail (logSessionFailure (phase sess) c.clientName e)
  | (sess, .ok ()) => ({ c with sess, pc := .top }, [])

/-- The key for an identity: its own if both tables know it, a random one otherwise. -/
def choosePsk (sh : Shared) (c : Conn S) (identity : Identity) (now : Instant)
    (random : Except String Psk) : Conn S × Limiter × Except String Psk × Bool × List Act :=
  match sh.tables.psks.lookup identity, decide (identity ∈ sh.tables.clients) with
  | some psk, true =>
    ({ c with clientName := some identity.str }, sh.limiter, .ok psk, true,
      [.log { evt := .accept, pskIdentity := some identity }])
  | some _, false =>
    (c, sh.limiter, random, false,
      [.log { evt := .mintDenied, reason := some "client_metadata_missing",
              pskIdentity := some identity }])
  | none, _ =>
    match sh.limiter.tryAcquire now with
    | (limiter, some suppressed) =>
      (c, limiter, random, false,
        [.log { evt := .identityUnknown, pskIdentity := some identity,
                suppressed := some suppressed }])
    | (limiter, none) => (c, limiter, random, false, [])

/-- The `NeedPsk` arm. -/
def needPsk (sh : Shared) (c : Conn S) (identity : Identity) (now : Instant)
    (random : Except String Psk) (seed : S.Seed) : Conn S × Limiter × List Act :=
  match choosePsk sh c identity now random with
  | (c, limiter, .error _, _, acts) =>
    let (c, acts') := c.fail { evt := .handshakeFailed, reason := some "rng_unavailable" }
    (c, limiter, acts ++ acts')
  | (c, limiter, .ok psk, known, acts) =>
    let (c, acts') := c.continueWith RState.phase (Responder.setPsk c.sess psk seed)
    (c, limiter, acts ++ .setPsk identity psk known :: acts')

/-- The `Request` arm, up to the call of `mint`. -/
def request (providers : List Provider) (c : Conn S) (bytes : Bytes) : Conn S × List Act :=
  match c.clientName with
  | none =>
    c.fail { evt := .mintDenied, reason := some "client_unknown",
             detail := some "request_from_unauthorized_session" }
  | some client =>
    if wireReadBudget < bytes.length then
      c.fail { evt := .mintDenied, reason := some "malformed_request", client := some client,
               detail := some "request_exceeds_cap" }
    else match Request.parse bytes with
      | .error _ =>
        c.fail { evt := .mintDenied, reason := some "malformed_request", client := some client }
      | .ok request =>
        match providers.find? fun p => p.host = request.host with
        | none =>
          c.fail { evt := .mintDenied, reason := some "unknown_host", client := some client,
                   host := some request.host }
        | some provider =>
          ({ c with pc := .minting request provider }, [.mint provider request.path])

/-- One turn of the loop, up to the next `await`, the next turn or the end. -/
def turn (providers : List Provider) (sh : Shared) (c : Conn S) (now : Instant)
    (random : Except String Psk) (seed : S.Seed) : Conn S × Limiter × List Act :=
  match Responder.step c.sess with
  | (sess, .error e) =>
    let (c', acts) := { c with sess }.fail (logSessionFailure c.sess.phase c.clientName e)
    (c', sh.limiter, acts)
  | (sess, .ok step) =>
    let c := { c with sess }
    match step with
    | .readExact n =>
      if n = 0 then
        -- nothing to read: `read_exact_n` returns without an `await`
        let (c', acts) := c.continueWith (fun _ => sess.phase) (Responder.recv sess [])
        (c', sh.limiter, .readExact n :: .recv [] :: acts)
      else ({ c with pc := .reading sess.phase n [] }, sh.limiter, [.readExact n])
    | .needPsk identity => c.needPsk sh identity now random seed
    | .write bytes =>
      if bytes = [] then
        let (c', acts) := c.continueWith RState.phase (Responder.wrote sess)
        (c', sh.limiter, acts)
      else ({ c with pc := .writing bytes }, sh.limiter, [])
    | .request bytes =>
      let (c', acts) := c.request providers bytes
      (c', sh.limiter, acts)
    | .done => ({ c with pc := .flushing }, sh.limiter, [])

/-- The provider has answered. -/
def minted (c : Conn S) (request : Request) :
    Except ProviderError MintOutcome → Conn S × List Act
  | .error e =>
    let client := c.clientName.getD []
    let (c', acts) := c.fail (logMintError client request.host request.path e)
    (c', (if e = .repoNotFound then
      [.log { evt := .cacheInvalidated, host := some request.host, repo := some request.path }]
      else []) ++ acts)
  | .ok outcome =>
    match Responder.setResponse c.sess (outcome.response.encode request.clientSupportsAuthtype) with
    | (sess, .error e) => { c with sess }.fail (logSessionFailure sess.phase c.clientName e)
    | (sess, .ok ()) =>
      ({ c with sess, mintRecord := some ⟨request.host, request.path, outcome.response⟩,
                pc := .top }, [])

/-- The final flush is over. -/
def flushed (c : Conn S) : Conn S × List Act :=
  ({ c with pc := .closed },
    (match c.clientName, c.mintRecord with
      | some client, some rec =>
        [.log { evt := .mint, client := some client, host := some rec.host, repo := some rec.path }]
      | _, _ => []) ++ [.close])

/-- **One event of a connection**; `none` when it cannot happen there. -/
def next (providers : List Provider) (sh : Shared) (c : Conn S) (e : ConnEvent S) :
    Option (Conn S × Limiter × List Act) :=
  match c.pc, e with
  | .top, .run now random seed => some (c.turn providers sh now random seed)
  | .reading phase n out, .read bytes =>
    -- the buffer has room for `n` bytes in every round, not for what is still missing
    if bytes = [] ∨ n < bytes.length then none
    else if (out ++ bytes).length < n then
      some ({ c with pc := .reading phase n (out ++ bytes) }, sh.limiter, [])
    else
      let (c', acts) := c.continueWith (fun _ => phase) (Responder.recv c.sess (out ++ bytes))
      some (c', sh.limiter, .recv (out ++ bytes) :: acts)
  | .reading phase _ _, .eof | .reading phase _ _, .readErr =>
    let (c', acts) := c.fail (logPhaseEof phase c.clientName)
    some (c', sh.limiter, acts)
  | .writing rest, .wrote k =>
    if k = 0 ∨ rest.length < k then none
    else if k < rest.length then
      some ({ c with pc := .writing (rest.drop k) }, sh.limiter, [.wrote (rest.take k)])
    else
      let (c', acts) := c.continueWith RState.phase (Responder.wrote c.sess)
      some (c', sh.limiter, .wrote rest :: acts)
  | .writing _, .writeErr =>
    let (c', acts) := c.fail
      { evt := .handshakeFailed, client := clientStr c.clientName,
        reason := some "handshake_write_io" }
    some (c', sh.limiter, acts)
  | .minting request _, .minted result =>
    let (c', acts) := c.minted request result
    some (c', sh.limiter, .answered result :: acts)
  | .flushing, .flushed =>
    let (c', acts) := c.flushed
    some (c', sh.limiter, acts)
  | .reading .., .timeout | .writing _, .timeout | .minting .., .timeout | .flushing, .timeout =>
    some ({ c with pc := .closed }, sh.limiter, [.close])
  | _, _ => none

variable (S) in
/-- A connection that has just been accepted; a responder that cannot be built closes
it. -/
def accept (brokerKey : BrokerPrivateKey) : Conn S × List Act :=
  match Responder.new S brokerKey with
  | .ok sess => (⟨sess, none, none, .top⟩, [])
  | .error _ =>
    (⟨.failed, none, none, .closed⟩,
      [.log { evt := .handshakeFailed, reason := some "responder_init" }, .close])

end Conn

end Symbolon
