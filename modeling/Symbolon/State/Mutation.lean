import Symbolon.Clients
import Symbolon.Lib.Run

/-!
# Enrolling and revoking

The two operations that change who is enrolled, `SharedState::enroll_client` and
`SharedState::revoke_client` of `src/daemon.rs`, over the atomic file write of
`src/atomic_fs.rs`. Both run as handlers of a single-threaded runtime: between two
`await`s a handler runs alone, and at an `await` anything else may happen – another
handler may run, the awaited operation may fail, the handler may be dropped by its
timeout, the process may die. So a state (`Symbolon.State`) is what is visible at an
`await`, an event (`Symbolon.Event`) is what ends it, and `Symbolon.next` runs the code
from there to the next `await`.

* The mutation lock has at most one holder; every other call is queued.
* An atomic write is its own sequence of awaits (`Symbolon.WriteStage`). The file is
  replaced at the `rename` and at no other moment, so an error of the two stages after
  it is reported although the new file is in place.
* What the operating system, the clock and the hash seeds decide – success or failure
  of an operation, the enrolment time, the iteration order of a map – is data of the
  event.
* A crash keeps the two files and nothing else; the daemon then starts again from
  them.

A dropped handler leaves its write where it is. That a `rename` already handed to the
kernel still takes place is the run in which it succeeds first and the handler is
dropped then; that it takes place only after another call has got the lock is not
modelled.
-/

namespace Symbolon

open Text

/-- What an I/O operation failed with, by its OS error code. -/
abbrev IoError := ℕ

/-- The two state files. -/
inductive File
  /-- The PSK file. -/
  | psks
  /-- The client list. -/
  | clients
  deriving DecidableEq

/-- **The awaits of an atomic write**, in order. The two checks of the path that come
before the first of them fail like an `open`. -/
inductive WriteStage
  /-- Creating the temporary file. -/
  | open
  /-- Writing the content to it. -/
  | write
  /-- Flushing it. -/
  | syncAll
  /-- Moving it over the target: the moment the file changes. -/
  | rename
  /-- Removing the temporary file after a failed rename; the write then fails with the
  rename's error, whatever the removal does. -/
  | removeFile (source : IoError)
  /-- Opening the parent directory. -/
  | openDir
  /-- Flushing the parent directory. -/
  | syncDir
  deriving DecidableEq

/-- What comes after a stage that has succeeded. -/
inductive WriteStage.Next
  /-- Another stage. -/
  | stage (stage : WriteStage)
  /-- The write is done. -/
  | done
  /-- The write has failed. -/
  | failed (source : IoError)
  deriving DecidableEq

/-- **The control flow of `atomic_write`** when what it awaits succeeds. -/
def WriteStage.succeed : WriteStage → WriteStage.Next
  | .open => .stage .write
  | .write => .stage .syncAll
  | .syncAll => .stage .rename
  | .rename => .stage .openDir
  | .removeFile source => .failed source
  | .openDir => .stage .syncDir
  | .syncDir => .done

/-- The control flow when it fails: a failed rename still has the temporary file to remove;
everything else returns at once. -/
def WriteStage.fail (source : IoError) : WriteStage → Except IoError WriteStage
  | .rename => .ok (.removeFile source)
  | .removeFile first => .error first
  | _ => .error source

/-- The stages at which the target file already has its new content. -/
def WriteStage.landed : WriteStage → Bool
  | .openDir | .syncDir => true
  | _ => false

/-- A call to one of the two operations. -/
inductive Call
  /-- `enroll_client`. -/
  | enroll (client : Identity) (psk : Psk) (provider : ProviderKind) (note : Option Note)
  /-- `revoke_client`. -/
  | revoke (client : Identity)
  deriving DecidableEq

/-- The identity a call is about. -/
def Call.client : Call → Identity
  | .enroll client _ _ _ => client
  | .revoke client => client

@[simp] theorem Call.client_enroll (client : Identity) (psk : Psk) (provider : ProviderKind)
    (note : Option Note) : (Call.enroll client psk provider note).client = client := rfl

@[simp] theorem Call.client_revoke (client : Identity) : (Call.revoke client).client = client := rfl

/-- What a call fails with. -/
inductive StateMutationError
  /-- The client to enrol is enrolled. -/
  | clientAlreadyEnrolled (client : Identity)
  /-- The client to revoke is not. -/
  | unknownClient (name : Bytes)
  /-- Writing the PSK file failed. -/
  | writePsks (source : IoError)
  /-- Writing the client list failed. -/
  | writeClients (source : IoError)
  /-- Encoding the client list failed. -/
  | encodeClients (source : SerdeError)
  deriving DecidableEq

/-- The error of a call one of whose writes failed. -/
def File.writeError (source : IoError) : File → StateMutationError
  | .psks => .writePsks source
  | .clients => .writeClients source

/-- The call that holds the mutation lock, suspended inside an atomic write. -/
structure Holder where
  /-- The call. -/
  call : Call
  /-- The file it is writing. -/
  file : File
  /-- How far the write has come. -/
  stage : WriteStage
  /-- The content being written. -/
  content : Bytes
  deriving DecidableEq

/-- **The state at an `await`.** -/
structure State where
  /-- The in-memory tables. -/
  tables : Tables
  /-- The two state files. -/
  disk : Disk
  /-- The holder of the mutation lock. -/
  holder : Option Holder
  /-- The calls queued on the lock. -/
  waiting : List Call
  deriving DecidableEq

/-- The iteration orders of the two maps at the moment they are rendered. -/
structure Order where
  /-- Of the keys. -/
  psks : List (Σ _ : Identity, Psk)
  /-- Of the clients. -/
  clients : List (Σ _ : Identity, ResolvedClient)
  deriving DecidableEq

/-- What ends an `await`. -/
inductive Event
  /-- A handler makes a call, and queues on the lock. -/
  | call (c : Call)
  /-- A queued call is given the lock. -/
  | acquire (c : Call) (now : OffsetDateTime) (order : Order)
  /-- The operation the holder awaits succeeds. -/
  | ok (order : Order)
  /-- The operation the holder awaits fails. -/
  | err (source : IoError)
  /-- The handler of the holder is dropped. -/
  | cancel
  /-- The handler of a queued call is dropped. -/
  | abandon (c : Call)
  /-- The process dies, and is started again on the same files. -/
  | crash
  deriving DecidableEq

/-- What becomes visible outside. -/
inductive Output
  /-- Nothing. -/
  | silent
  /-- A call returns to its handler. -/
  | returned (c : Call) (result : Except StateMutationError Unit)
  /-- A call that held the lock is gone without returning. -/
  | cancelled (c : Call)
  /-- The process died while this call held the lock. -/
  | crashed (inFlight : Option Call)
  deriving DecidableEq

/-- Insert a client into both tables. -/
def Tables.enrol (t : Tables) (client : Identity) (psk : Psk) (provider : ProviderKind)
    (note : Option Note) (now : OffsetDateTime) : Tables :=
  ⟨t.psks.insert client psk, t.clients.insert client ⟨[provider], now, note⟩⟩

/-- Remove a client from the keys. -/
def Tables.erasePsk (t : Tables) (client : Identity) : Tables :=
  { t with psks := t.psks.erase client }

/-- Remove a client from the client table. -/
def Tables.eraseClient (t : Tables) (client : Identity) : Tables :=
  { t with clients := t.clients.erase client }

/-- What leaving a call without committing does to the tables: an enrolment has its
rollback guard dropped, which removes the client from both; a revocation has no
guard. -/
def Call.unwind (t : Tables) : Call → Tables
  | .enroll client _ _ _ => (t.erasePsk client).eraseClient client
  | .revoke _ => t

/-- Replace the content of a file. -/
def Disk.replace (d : Disk) (content : Bytes) : File → Disk
  | .psks => { d with psks := some content }
  | .clients => { d with clients := some content }

/-- Return from a call, releasing the lock. -/
def State.finish (s : State) (t : Tables) (c : Call) (result : Except StateMutationError Unit) :
    State × Output :=
  ({ s with tables := t, holder := none }, .returned c result)

/-- Begin an atomic write. -/
def State.beginWrite (s : State) (t : Tables) (c : Call) (file : File) (content : Bytes) :
    State × Output :=
  ({ s with tables := t, holder := some ⟨c, file, .open, content⟩ }, .silent)

/-- Move the pending write to another stage. -/
def State.atStage (s : State) (h : Holder) (stage : WriteStage) : State × Output :=
  ({ s with holder := some { h with stage := stage } }, .silent)

/-- The pending write returns an error. -/
def State.failed (s : State) (h : Holder) (source : IoError) : State × Output :=
  s.finish (h.call.unwind s.tables) h.call (.error (h.file.writeError source))

variable (C : Codecs)

/-- **From the lock to the first `await`.** Enrolling checks that the client is new,
inserts it into both tables and begins with the PSK file; revoking checks that it is
known and begins with the client list, without it. -/
def start (s : State) (c : Call) (now : OffsetDateTime) (order : Order) : Option (State × Output) :=
  match c with
  | .enroll client psk provider note =>
    if client ∈ s.tables.clients then
      some (s.finish s.tables c (.error (.clientAlreadyEnrolled client)))
    else
      let t := s.tables.enrol client psk provider note now
      if Finmap.Enumerates order.psks t.psks then
        some (s.beginWrite t c .psks (PskStore.render C.hex order.psks))
      else none
  | .revoke client =>
    if client ∉ s.tables.clients then
      some (s.finish s.tables c (.error (.unknownClient client.str)))
    else if Finmap.Enumerates order.clients s.tables.clients then
      match renderClientsDoc C.json order.clients (some client) with
      | .error source => some (s.finish s.tables c (.error (.encodeClients source)))
      | .ok content => some (s.beginWrite s.tables c .clients content)
    else none

/-- **From a finished write to the next `await`.** Enrolling goes on to the client list
and is then committed; revoking removes the key, goes on to the PSK file, and removes
the client at the very end. -/
def written (s : State) (h : Holder) (order : Order) : Option (State × Output) :=
  match h.call, h.file with
  | .enroll client _ _ _, .psks =>
    if Finmap.Enumerates order.clients s.tables.clients then
      match renderClientsDoc C.json order.clients none with
      | .error source =>
        some (s.finish ((s.tables.erasePsk client).eraseClient client) h.call
          (.error (.encodeClients source)))
      | .ok content => some (s.beginWrite s.tables h.call .clients content)
    else none
  | .enroll .., .clients => some (s.finish s.tables h.call (.ok ()))
  | .revoke client, .clients =>
    let t := s.tables.erasePsk client
    if Finmap.Enumerates order.psks t.psks then
      some (s.beginWrite t h.call .psks (PskStore.render C.hex order.psks))
    else none
  | .revoke client, .psks => some (s.finish (s.tables.eraseClient client) h.call (.ok ()))

/-- The awaited operation of the pending write succeeds; the rename replaces the file. -/
def ioOk (s : State) (h : Holder) (order : Order) : Option (State × Output) :=
  let s := if h.stage = .rename then { s with disk := s.disk.replace h.content h.file } else s
  match h.stage.succeed with
  | .stage stage => some (s.atStage h stage)
  | .done => written C s h order
  | .failed source => some (s.failed h source)

/-- The awaited operation of the pending write fails. -/
def ioErr (s : State) (h : Holder) (source : IoError) : State × Output :=
  match h.stage.fail source with
  | .ok stage => s.atStage h stage
  | .error source => s.failed h source

/-- **The machine**: what an event does at an `await`; `none` when it cannot happen
there. -/
def next (s : State) : Event → Option (State × Output)
  | .call c => some ({ s with waiting := s.waiting ++ [c] }, .silent)
  | .acquire c now order =>
    if s.holder = none ∧ c ∈ s.waiting then
      start C { s with waiting := s.waiting.erase c } c now order
    else none
  | .ok order =>
    match s.holder with
    | none => none
    | some h => ioOk C s h order
  | .err source =>
    match s.holder with
    | none => none
    | some h => some (ioErr s h source)
  | .cancel =>
    match s.holder with
    | none => none
    | some h =>
      some ({ s with tables := h.call.unwind s.tables, holder := none }, .cancelled h.call)
  | .abandon c =>
    if c ∈ s.waiting then some ({ s with waiting := s.waiting.erase c }, .silent) else none
  | .crash =>
    match acquire C s.disk with
    | .error _ => none
    | .ok t => some (⟨t, s.disk, none, []⟩, .crashed (s.holder.map Holder.call))

/-- **A start of the daemon**: the tables are what the files hold, and nothing is
running. -/
def Started (s : State) : Prop := acquire C s.disk = .ok s.tables ∧ s.holder = none ∧ s.waiting = []

instance (s : State) : Decidable (Started C s) := inferInstanceAs (Decidable (_ ∧ _ ∧ _))

/-- A label of the machine: an event with what it made visible. -/
abbrev Label := Event × Output

/-- The steps of the machine. -/
def Step : State → Label → State → Prop := Lts.ofFun (next C)

/-- The runs of the machine. -/
abbrev Run : State → List Label → State → Prop := Lts.Run (Step C)

/-- **A reachable state**: some run leads to it from a start of the daemon. -/
def Reachable (s : State) : Prop := ∃ s₀ ls, Started C s₀ ∧ Run C s₀ ls s

end Symbolon
