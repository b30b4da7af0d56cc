import Symbolon.Lib.Trim
import Symbolon.PskStore
import Symbolon.State.Mutation
import Symbolon.Transport.Session

/-!
# The credential helper

`src/bin/git_credential_symbolon.rs`: the program git runs on the client. It reads its key
file and the request, connects to the broker, drives an initiator over the socket and prints
the response.

The first half, up to the connection, is a function of what the program finds where it runs
(`Symbolon.Client.start`). The second is `drive`, whose reads and writes take as many turns as
the network makes of them; so a client is a machine (`Symbolon.Client.next`) that is told what
became of the call it is blocked in. A read has room for the bytes that are missing and no
more, unlike the daemon's.
-/

namespace Symbolon

open Text

/-- What an operation of the standard library fails with. -/
inductive IoFailure
  /-- An error of the operating system. -/
  | os (code : IoError)
  /-- `failed to fill whole buffer`. -/
  | unexpectedEof
  /-- `failed to write whole buffer`. -/
  | writeZero
  /-- `stream did not contain valid UTF-8`. -/
  | invalidData
  /-- `no addresses resolved`. -/
  | notFound
  deriving DecidableEq

/-- **Why the helper fails.** -/
inductive ClientError (ε : Type)
  /-- The key file could not be read. -/
  | readKeyFile (path : Bytes) (source : IoFailure)
  /-- The key file is malformed. -/
  | badKeyFile (path detail : Bytes)
  /-- The endpoint could not be resolved. -/
  | resolve (endpoint : Bytes) (source : IoFailure)
  /-- No address of the endpoint could be connected to. -/
  | connect (endpoint : Bytes) (source : IoFailure)
  /-- A timeout of the socket could not be set. -/
  | setTimeout (source : IoFailure)
  /-- The request could not be read. -/
  | readStdin (source : IoFailure)
  /-- The response could not be printed. -/
  | writeStdout (source : IoFailure)
  /-- A write to the broker failed. -/
  | writeHandshake (source : IoFailure)
  /-- A read from the broker failed. -/
  | readHandshake (source : IoFailure)
  /-- The session failed. -/
  | session (source : SessionError ε)
  /-- `--identity` is not an identity. -/
  | badIdentity (raw : Bytes) (source : IdentityError)
  deriving DecidableEq

/-- The arguments. -/
structure ClientArgs where
  /-- `--endpoint`. -/
  endpoint : Bytes
  /-- `--identity`. -/
  identity : Bytes
  /-- `--key-file`. -/
  keyFile : Bytes
  /-- What git asks for. -/
  action : Bytes
  deriving DecidableEq

/-- **What the helper finds where it runs.** -/
structure ClientHost where
  /-- An address an endpoint resolves to. -/
  Address : Type
  /-- The bytes of a file. -/
  read : Bytes → Except IoFailure Bytes
  /-- The standard input. -/
  stdin : Except IoFailure Bytes
  /-- `to_socket_addrs`. -/
  toSocketAddrs : Bytes → Except IoFailure (List Address)
  /-- `connect_timeout`. -/
  connectTimeout : Address → Except IoFailure Unit
  /-- `set_read_timeout`. -/
  setReadTimeout : Except IoFailure Unit
  /-- `set_write_timeout`. -/
  setWriteTimeout : Except IoFailure Unit
  /-- `write_all` on the standard output: what gets out of the bytes, and how it ends. -/
  writeStdout : Bytes → Bytes × Except IoFailure Unit

/-! ### The key file -/

/-- `BrokerPublicKey::from_hex`, which is `Psk::from_hex` for another array of 32 bytes. -/
def BrokerPublicKey.fromHex (H : HexCrate) (digits : Bytes) : Except FromHexError BrokerPublicKey :=
  match H.decode digits with
  | .error e => .error e
  | .ok key => .ok ⟨key.bytes, key.len⟩

namespace Client

variable {ε : Type} (H : HexCrate)

/-- The text of the key file: the broker's public key and the client's own, in hexadecimal,
around the first colon. -/
def parseKeyFile (path text : Bytes) : Except (ClientError ε) (BrokerPublicKey × Psk) :=
  match splitOnce 0x3A (trim whiteSpace text) with
  | none => .error (.badKeyFile path (ascii "expected `broker_pub_hex:psk_hex`"))
  | some (pubHex, pskHex) =>
    match BrokerPublicKey.fromHex H pubHex with
    | .error _ => .error (.badKeyFile path (ascii "broker public key half is not 64 hex chars"))
    | .ok brokerPub =>
      match H.decode pskHex with
      | .error _ => .error (.badKeyFile path (ascii "PSK half is not 64 hex chars"))
      | .ok psk => .ok (brokerPub, psk)

variable (host : ClientHost)

/-- **`load_key_file`.** -/
def loadKeyFile (path : Bytes) : Except (ClientError ε) (BrokerPublicKey × Psk) :=
  match host.read path with
  | .error e => .error (.readKeyFile path e)
  | .ok bytes =>
    match fromUtf8 bytes with
    | .error _ => .error (.readKeyFile path .invalidData)
    | .ok text => parseKeyFile H path text

/-! ### Up to the connection -/

/-- The loop of `connect`, with the error of the last address. -/
def connectFirst (endpoint : Bytes) (lastErr : Option IoFailure) :
    List host.Address → Except (ClientError ε) Unit
  | [] => .error (.connect endpoint (lastErr.getD .notFound))
  | addr :: addrs =>
    match host.connectTimeout addr with
    | .ok () => .ok ()
    | .error e => connectFirst endpoint (some e) addrs

/-- **`connect`**: the first address that answers. -/
def connect (endpoint : Bytes) : Except (ClientError ε) Unit :=
  match host.toSocketAddrs endpoint with
  | .error e => .error (.resolve endpoint e)
  | .ok addrs => connectFirst host endpoint none addrs

/-- The timeouts of the socket. -/
def setTimeouts : Except (ClientError ε) Unit :=
  match host.setReadTimeout with
  | .error e => .error (.setTimeout e)
  | .ok () =>
    match host.setWriteTimeout with
    | .error e => .error (.setTimeout e)
    | .ok () => .ok ()

variable (S : Snow)

/-- The session of `run`: the identity, the keys and the request are there before the socket
is. -/
def session (args : ClientArgs) (seed : S.Seed) : Except (ClientError S.Err) (IState S) :=
  match Identity.parse args.identity with
  | .error e => .error (.badIdentity args.identity e)
  | .ok identity =>
    match loadKeyFile H host args.keyFile with
    | .error e => .error e
    | .ok (brokerPub, psk) =>
      match host.stdin with
      | .error e => .error (.readStdin e)
      | .ok request =>
        match Initiator.new S identity psk brokerPub request seed with
        | .error e => .error (.session e)
        | .ok sess => .ok sess

/-- **`run`, up to `drive`.** -/
def start (args : ClientArgs) (seed : S.Seed) : Except (ClientError S.Err) (IState S) :=
  match session H host S args seed with
  | .error e => .error e
  | .ok sess =>
    match connect host args.endpoint with
    | .error e => .error e
    | .ok () =>
      match setTimeouts host with
      | .error e => .error e
      | .ok () => .ok sess

/-! ### Driving the session -/

variable {S}

/-- Where a client is. -/
inductive Pc (ε : Type)
  /-- At the head of the loop. -/
  | top
  /-- In `read_exact`, with `out` read of the `n` bytes asked for. -/
  | reading (n : ℕ) (out : Bytes)
  /-- In `write_all`, with `rest` still to be written. -/
  | writing (rest : Bytes)
  /-- `drive` has returned. -/
  | finished (result : Except (ClientError ε) Bytes)
  deriving DecidableEq

end Client

/-- **A client in `drive`.** -/
structure Client (S : Snow) where
  /-- The session. -/
  sess : IState S
  /-- Where it is. -/
  pc : Client.Pc S.Err

/-- What happens to a client. -/
inductive ClientEvent
  /-- It runs on from the head of its loop. -/
  | run
  /-- A read returns bytes. -/
  | read (bytes : Bytes)
  /-- A read returns nothing: the broker has closed. -/
  | eof
  /-- A read fails. -/
  | readErr (code : IoError)
  /-- A write takes so many bytes. -/
  | wrote (k : ℕ)
  /-- A write fails. -/
  | writeErr (code : IoError)
  deriving DecidableEq

namespace Client

variable {S : Snow}

/-- Return from `drive` with an error. -/
def fail (c : Client S) (e : ClientError S.Err) : Client S := { c with pc := .finished (.error e) }

/-- Go on with the session that a call left, or give up over its error. -/
def continueWith (c : Client S) : IState S × Except (SessionError S.Err) Unit → Client S
  | (sess, .error e) => { c with sess }.fail (.session e)
  | (sess, .ok ()) => ⟨sess, .top⟩

/-- One turn of the loop, up to the next blocking call, the next turn or the end. -/
def turn (c : Client S) : Client S :=
  match Initiator.step c.sess with
  | (sess, .error e) => { c with sess }.fail (.session e)
  | (sess, .ok (.readExact n)) =>
    if n = 0 then { c with sess }.continueWith (Initiator.recv sess [])
    else ⟨sess, .reading n []⟩
  | (sess, .ok (.write bytes)) =>
    if bytes = [] then { c with sess }.continueWith (Initiator.wrote sess)
    else ⟨sess, .writing bytes⟩
  | (sess, .ok .done) =>
    match Initiator.takeResponse sess with
    | (sess, .error e) => { c with sess }.fail (.session e)
    | (sess, .ok response) => ⟨sess, .finished (.ok response)⟩
  | (sess, .ok (.needPsk _)) | (sess, .ok (.request _)) =>
    { c with sess }.fail (.session (.wrongState "drive" "unexpected_initiator_step"))

/-- **One event of a client**; `none` when it cannot happen there. -/
def next (c : Client S) (e : ClientEvent) : Option (Client S) :=
  match c.pc, e with
  | .top, .run => some c.turn
  | .reading n out, .read bytes =>
    if bytes = [] ∨ n < (out ++ bytes).length then none
    else if (out ++ bytes).length < n then some { c with pc := .reading n (out ++ bytes) }
    else some (c.continueWith (Initiator.recv c.sess (out ++ bytes)))
  | .reading .., .eof => some (c.fail (.readHandshake .unexpectedEof))
  | .reading .., .readErr code => some (c.fail (.readHandshake (.os code)))
  | .writing rest, .wrote k =>
    if rest.length < k then none
    else if k = 0 then some (c.fail (.writeHandshake .writeZero))
    else if k < rest.length then some { c with pc := .writing (rest.drop k) }
    else some (c.continueWith (Initiator.wrote c.sess))
  | .writing _, .writeErr code => some (c.fail (.writeHandshake (.os code)))
  | _, _ => none

/-! ### The process -/

/-- What the process prints, and the code it exits with. -/
structure Outcome where
  /-- The exit code. -/
  exitCode : ℕ
  /-- The standard output. -/
  stdout : Bytes
  deriving DecidableEq

variable {ε : Type} (host : ClientHost)

/-- **`run`, from the end of `drive`**: the response is printed; with what was printed. -/
def finish : Except (ClientError ε) Bytes → Bytes × Except (ClientError ε) Unit
  | .error e => ([], .error e)
  | .ok response =>
    match host.writeStdout response with
    | (out, .error e) => (out, .error (.writeStdout e))
    | (out, .ok ()) => (out, .ok ())

/-- **`main`**: what it prints, by the action git asks for and by what `drive`, or what comes
before it, returns. The message about an error goes to the standard error and is left out. -/
def main (action : Bytes) (driven : Except (ClientError ε) Bytes) : Outcome :=
  if action = ascii "get" then
    match finish host driven with
    | (out, .ok ()) => ⟨0, out⟩
    | (out, .error _) => ⟨1, out⟩
  else if action = ascii "capability" then
    match host.writeStdout (ascii "version 0\ncapability authtype\n") with
    | (out, .ok ()) => ⟨0, out⟩
    | (out, .error _) => ⟨1, out⟩
  else ⟨0, []⟩

end Client

end Symbolon
