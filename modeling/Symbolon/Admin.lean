import Symbolon.Daemon
import Symbolon.Lib.Segmented

/-!
# The admin socket

`src/admin.rs`: one request and one response, each a line of JSON. Both ends are here. The
daemon's (`Symbolon.Admin.handleAdmin`) reads a line, dispatches it to the handler of its
operation and writes the result; the command line's (`Symbolon.Admin.cliDispatch`) writes
the request, reads the response line and exits with what its `ok` field says. Both read
with the same function, `Symbolon.Admin.readLine`, which gives up on a line that has not
ended within `Symbolon.Admin.wireReadBudget` bytes.

What a handler gets from elsewhere is data (`Symbolon.Admin.World`): the clock, the order in
which the maps are iterated, and what `enroll_client`, `revoke_client` and the provider
returned. Serialisation is third-party code, and enters as `Symbolon.AdminJson`.
-/

namespace Symbolon

open Text

namespace Admin

/-! ### Requests and commands -/

/-- What can be asked of the daemon. -/
inductive Request
  /-- `status`. -/
  | status
  /-- `list`. -/
  | list
  /-- `pubkey`. -/
  | pubkey
  /-- `enroll`. -/
  | enroll (provider : ProviderKind) (client : Identity) (psk : Psk) (note : Option Note)
  /-- `revoke`. -/
  | revoke (provider : ProviderKind) (client : Identity)
  /-- `mint`. -/
  | mint (provider : ProviderKind) (client : Identity) (path : Bytes)
  /-- `selfcheck`. -/
  | selfcheck (provider : ProviderKind)
  deriving DecidableEq

/-- The commands of the command line. -/
inductive CliCommand
  /-- `status`. -/
  | status
  /-- `list`. -/
  | list
  /-- `pubkey`. -/
  | pubkey
  /-- `github enroll`; the key is made by the command line. -/
  | githubEnroll (client : Identity) (note : Option Note) (psk : Psk)
  /-- `github revoke`. -/
  | githubRevoke (client : Identity)
  /-- `github mint`. -/
  | githubMint (client : Identity) (path : Bytes)
  /-- `github selfcheck`. -/
  | githubSelfcheck
  deriving DecidableEq

/-- The request of a command. -/
def CliCommand.toRequest : CliCommand → Request
  | .status => .status
  | .list => .list
  | .pubkey => .pubkey
  | .githubEnroll client note psk => .enroll .github client psk note
  | .githubRevoke client => .revoke .github client
  | .githubMint client path => .mint .github client path
  | .githubSelfcheck => .selfcheck .github

/-! ### Responses -/

/-- The response to `status`. -/
structure StatusResponse where
  /-- `uptime_sec`. -/
  uptimeSec : ℕ
  /-- `providers`. -/
  providers : List ProviderKind
  /-- `client_count`. -/
  clientCount : ℕ

/-- One client of the response to `list`. -/
structure ListEntry where
  /-- `name`. -/
  name : Identity
  /-- `providers`. -/
  providers : List ProviderKind
  /-- `enrolled_at`. -/
  enrolledAt : OffsetDateTime
  /-- `note`. -/
  note : Option Note

/-- The response to `mint`. -/
structure MintResponse where
  /-- `username`. -/
  username : Bytes
  /-- `password`. -/
  password : Bytes
  /-- `expires_at_unix`. -/
  expiresAtUnix : ℕ
  /-- `out_req_id`. -/
  outReqId : Bytes
  /-- `provider_req_id`. -/
  providerReqId : Option Bytes

/-- The response to `selfcheck`; `details` is the provider's own JSON. -/
structure SelfcheckOutcome (Value : Type) where
  /-- `out_req_id`. -/
  outReqId : Bytes
  /-- `provider_req_id`. -/
  providerReqId : Option Bytes
  /-- `clock_skew_sec`. -/
  clockSkewSec : ℤ
  /-- `details`. -/
  details : Value

/-- **The data of a success.** -/
inductive Data (Value : Type)
  /-- Of `status`. -/
  | status (r : StatusResponse)
  /-- Of `list`. -/
  | list (clients : List ListEntry)
  /-- Of `pubkey`: the key in hexadecimal. -/
  | pubkey (brokerPublicKey : Bytes)
  /-- Of `enroll` and `revoke`: none. -/
  | ack
  /-- Of `mint`. -/
  | mint (r : MintResponse)
  /-- Of `selfcheck`. -/
  | selfcheck (r : SelfcheckOutcome Value)

/-- **A failure**, by its message. -/
structure ErrorResponse where
  /-- `error`. -/
  error : Bytes
  deriving DecidableEq

/-- What a handler returns. -/
abbrev Result (Value : Type) := Except ErrorResponse (Data Value)

/-- The `ok` field of the line that is written for a result. -/
def Result.verdict {Value : Type} : Result Value → Bool
  | .ok _ => true
  | .error _ => false

end Admin

/-- The name of a kind of provider. -/
def ProviderKind.name : ProviderKind → Bytes
  | .github => ascii "github"

/-- The message of a failed enrolment or revocation. -/
def StateMutationError.message : StateMutationError → Bytes
  | .clientAlreadyEnrolled client => ascii "client '" ++ client.str ++ ascii "' already enrolled"
  | .unknownClient name => ascii "no enrolled client named '" ++ name ++ ascii "'"
  | .writePsks _ => ascii "write psks file"
  | .writeClients _ => ascii "write clients.json"
  | .encodeClients _ => ascii "encode clients.json"

namespace Admin

/-- `ErrorResponse::unknown_provider`. -/
def ErrorResponse.unknownProvider (kind : ProviderKind) : ErrorResponse :=
  ⟨ascii "provider '" ++ kind.name ++ ascii "' not configured"⟩

/-- The failure of a refused `mint`. -/
def ErrorResponse.ofMint : AdminMintError → ErrorResponse
  | .unknownClient name => ⟨(StateMutationError.unknownClient name).message⟩
  | .unknownProvider kind => .unknownProvider kind

/-! ### The handlers -/

/-- A credential with the correlation ids of the call that minted it. -/
structure Minted extends MintOutcome where
  /-- `out_req_id`. -/
  outReqId : Bytes
  /-- `provider_req_id`. -/
  providerReqId : Option Bytes

/-- **What the handlers get from elsewhere.** -/
structure World (Value : Type) where
  /-- The seconds since the start. -/
  uptimeSec : ℕ
  /-- The order in which the providers are iterated. -/
  providers : List ProviderKind
  /-- The order in which the clients are iterated. -/
  clients : List (Σ _ : Identity, ResolvedClient)
  /-- What `enroll_client` or `revoke_client` returns. -/
  mutation : Except StateMutationError Unit
  /-- What the provider's `mint` returns. -/
  minted : Except ProviderError Minted
  /-- What the provider's `selfcheck` returns. -/
  checked : Except ProviderError (SelfcheckOutcome Value)
  /-- The message of a provider's error, with those of its sources. -/
  errorChain : ProviderError → Bytes

variable {Value : Type} (cfg : Setup) (brokerPublic : BrokerPublicKey) (t : Tables)
  (w : World Value)

/-- `handle_status`. -/
def handleStatus : StatusResponse := ⟨w.uptimeSec, w.providers, t.clients.keys.card⟩

/-- `handle_list`. -/
def handleList : List ListEntry :=
  w.clients.map fun e => ⟨e.1, e.2.providers, e.2.enrolledAt, e.2.note⟩

/-- What `enroll` and `revoke` make of the result of the mutation. -/
def ackOf : Except StateMutationError Unit → Result Value
  | .error e => .error ⟨e.message⟩
  | .ok () => .ok .ack

/-- `handle_revoke`. -/
def handleRevoke (provider : ProviderKind) : Result Value :=
  match cfg.lookupProvider provider with
  | none => .error (.unknownProvider provider)
  | some _ => ackOf w.mutation

/-- `handle_mint`. -/
def handleMint (provider : ProviderKind) (client : Identity) : Result Value :=
  match cfg.handleMint t provider client with
  | .error e => .error (.ofMint e)
  | .ok _ =>
    match w.minted with
    | .error e => .error ⟨w.errorChain e⟩
    | .ok m =>
      .ok (.mint ⟨m.response.username, m.response.password, m.response.passwordExpiryUnixSecs,
        m.outReqId, m.providerReqId⟩)

/-- `handle_selfcheck`. -/
def handleSelfcheck (provider : ProviderKind) : Result Value :=
  match cfg.lookupProvider provider with
  | none => .error (.unknownProvider provider)
  | some _ =>
    match w.checked with
    | .error e => .error ⟨w.errorChain e⟩
    | .ok outcome => .ok (.selfcheck outcome)

/-- **What is done for a request.** -/
def dispatch : Request → Result Value
  | .status => .ok (.status (handleStatus t w))
  | .list => .ok (.list (handleList w))
  | .pubkey => .ok (.pubkey (hexOf brokerPublic.bytes))
  | .enroll .. => ackOf w.mutation
  | .revoke provider _ => handleRevoke cfg w provider
  | .mint provider client _ => handleMint cfg t w provider client
  | .selfcheck provider => handleSelfcheck cfg w provider

/-! ### Lines -/

/-- `WIRE_READ_BUDGET` of the admin socket. -/
def wireReadBudget : ℕ := 64 * 1024

/-- The capacity of the buffer a line is read into, piece by piece. -/
def chunkCapacity : ℕ := 1024

/-- Why a line could not be read. -/
inductive LineError
  /-- `admin request exceeds size cap`. -/
  | sizeCap
  /-- `admin connection closed mid-request`. -/
  | unexpectedEof
  deriving DecidableEq

/-- The loop of `read_line`, with what has been read. -/
def readLineLoop (capacity : ℕ) (accumulated : Bytes) (stream : Segmented UInt8) :
    Except LineError Bytes :=
  match accumulated.findIdx? (· == lf) with
  | some pos => .ok (accumulated.take pos)
  | none =>
    if wireReadBudget ≤ accumulated.length then .error .sizeCap
    else if (stream.read capacity).1 = [] then .error .unexpectedEof
    else readLineLoop capacity (accumulated ++ (stream.read capacity).1) (stream.read capacity).2
termination_by wireReadBudget - accumulated.length
decreasing_by
  have hpos := List.length_pos_iff.mpr ‹_›
  rw [List.length_append]
  omega

/-- **Read a line**, up to its line feed. -/
def readLine (capacity : ℕ) (stream : Segmented UInt8) : Except LineError Bytes :=
  readLineLoop capacity [] stream

end Admin

/-- **The entry points of `serde_json`** that the admin socket uses. -/
structure AdminJson where
  /-- `serde_json::Value`. -/
  Value : Type
  /-- `to_vec` of a request. -/
  requestToVec : Admin.Request → Except SerdeError Bytes
  /-- `from_slice` to a request. -/
  requestFromSlice : Bytes → Except SerdeError Admin.Request
  /-- `to_vec` of a success, in its envelope with `"ok": true`. -/
  okToVec : Admin.Data Value → Except SerdeError Bytes
  /-- `to_vec` of a failure, with `"ok": false`. -/
  errorToVec : Admin.ErrorResponse → Except SerdeError Bytes
  /-- `from_slice` to the `ok` field alone. -/
  okField : Bytes → Except SerdeError Bool
  /-- `to_writer` of the key in hexadecimal, in the envelope of a success. -/
  pskToVec : Bytes → Except SerdeError Bytes

/-- **What is documented of them**: compact JSON has no line feed, is not empty, and what
was written is read back. -/
structure AdminJson.Lawful (J : AdminJson) : Prop where
  /-- A request. -/
  request : ∀ {r bytes}, J.requestToVec r = .ok bytes →
    lf ∉ bytes ∧ bytes ≠ [] ∧ J.requestFromSlice bytes = .ok r
  /-- A success. -/
  ok : ∀ {d bytes}, J.okToVec d = .ok bytes → lf ∉ bytes ∧ J.okField bytes = .ok true
  /-- A failure. -/
  error : ∀ {e bytes}, J.errorToVec e = .ok bytes → lf ∉ bytes ∧ J.okField bytes = .ok false

namespace Admin

variable (J : AdminJson)

/-- The payload that `write_response` makes of a result. -/
def payload : Result J.Value → Except SerdeError Bytes
  | .ok data => J.okToVec data
  | .error e => J.errorToVec e

/-- **What `write_response` writes**: the payload and a line feed; nothing, if the result
cannot be serialised. -/
def writeResponse (result : Result J.Value) : Bytes :=
  match payload J result with
  | .error _ => []
  | .ok bytes => bytes ++ [lf]

/-- **The daemon's end**: what it writes for what it reads. A line that cannot be read, or
is empty, is answered by closing the connection. -/
def handleAdmin (capacity : ℕ) (dispatch : Request → Result J.Value) (stream : Segmented UInt8) :
    Bytes :=
  match readLine capacity stream with
  | .error _ => []
  | .ok raw =>
    if raw = [] then []
    else match J.requestFromSlice raw with
      | .error e =>
        writeResponse J (.error ⟨ascii "request parse failed: " ++ e.toUTF8.data.toList⟩)
      | .ok request => writeResponse J (dispatch request)

/-- Why the command line fails. -/
inductive CliError
  /-- The request could not be serialised. -/
  | requestParse (source : SerdeError)
  /-- The response could not be read. -/
  | io (source : LineError)
  /-- The response is not what it should be. -/
  | responseParse (source : SerdeError)
  deriving DecidableEq

/-- What the command line prints, and the code it exits with. -/
structure CliOutcome where
  /-- The exit code. -/
  exitCode : ℕ
  /-- The standard output. -/
  stdout : Bytes
  /-- The standard error. -/
  stderr : Bytes
  deriving DecidableEq

/-- `is_ok_response`. -/
def isOkResponse (bytes : Bytes) : Except CliError Bool :=
  match J.okField bytes with
  | .error e => .error (.responseParse e)
  | .ok b => .ok b

/-- What the command line writes: the request and a line feed. -/
def cliRequest (command : CliCommand) : Except CliError Bytes :=
  match J.requestToVec command.toRequest with
  | .error e => .error (.requestParse e)
  | .ok bytes => .ok (bytes ++ [lf])

/-- **The command line's end**, after its request is written. -/
def cliDispatch (capacity : ℕ) (command : CliCommand) (stream : Segmented UInt8) :
    Except CliError CliOutcome :=
  match readLine capacity stream with
  | .error e => .error (.io e)
  | .ok bytes =>
    match isOkResponse J bytes with
    | .error e => .error e
    | .ok false => .ok ⟨1, [], bytes ++ [lf]⟩
    | .ok true =>
      match command with
      | .githubEnroll _ _ psk =>
        -- the command line made the key, so it prints it
        match J.pskToVec (hexOf psk.bytes) with
        | .error e => .error (.responseParse e)
        | .ok synth => .ok ⟨0, synth ++ [lf], []⟩
      | _ => .ok ⟨0, bytes ++ [lf], []⟩

end Admin

end Symbolon
