import Symbolon.Lib.Worker
import Symbolon.Providers.AgentBackend.CrossTalk
import Symbolon.Providers.TpmWire
import Symbolon.PskStore

/-!
# The signing backend of the TPM

`src/providers/tpm_backend.rs`: the calls `sign` and `self_check` of the daemon, and the actor
thread that takes one command after the other to the device. The thread is the worker of
`Worker`; what it does for a job is `transact` (`Symbolon.Tpm.Transact`). The command is written
in as many `write`s as it takes, and the response is read with a single `read`. The device
(`Symbolon.Tpm.Device`) collects what is written until it has a whole command, and then has a
response to give; a `read` gives all of it that fits the buffer, as the character device does.

Nothing on the device says whose response it is. **The token a call returns is still the token
of its own claims** (`Symbolon.Tpm.token_of_run`): a command says how long it is, so the device
does not take the beginning of one for a whole; and the actor does not go on after a failure,
when a response may be outstanding. How commands are written is the matter of a crate
(`Symbolon.Tpm.TpmMarshal`); that they tell their size is all that is assumed of it.

So the two backends cannot be told apart (`Symbolon.Tpm.backends_agree`): for a key that the TPM
holds and the agent's file has, both return the same token for the same claims, or fail.
-/

namespace Symbolon.Tpm

open Text BigEndian

/-! ### Commands -/

/-- `TPM_IO_BUF`. -/
def tpmIoBuf : ℕ := 4096

/-- The header of a command tells its size. -/
def Whole (bytes : Bytes) : Prop :=
  10 ≤ bytes.length ∧ ofBytes ((bytes.drop 2).take 4) = bytes.length

/-- **A command of the TPM.** -/
structure Command where
  /-- The bytes. -/
  bytes : Bytes
  /-- The header tells how many they are. -/
  whole : Whole bytes

/-- A whole command is not the beginning of another. -/
theorem Whole.eq_nil {bytes rest : Bytes} (h : Whole bytes) (h' : Whole (bytes ++ rest)) :
    rest = [] := by
  obtain ⟨hlen, hsize⟩ := h
  obtain ⟨-, hsize'⟩ := h'
  have hfield : ((bytes ++ rest).drop 2).take 4 = (bytes.drop 2).take 4 := by
    rw [List.drop_append_of_le_length (by omega), List.take_append_of_le_length]
    rw [List.length_drop]
    omega
  rw [hfield, hsize, List.length_append] at hsize'
  exact List.length_eq_zero_iff.mp (by omega)

/-- `TpmSignCommand`, with what `sign_command` puts into it. -/
structure TpmSignCommand where
  /-- The key. -/
  handle : UInt32
  /-- The digest. -/
  digest : Tpm2b
  /-- The scheme. -/
  scheme : UInt16
  /-- Its hash. -/
  hashAlg : UInt16
  /-- The tag of the ticket. -/
  ticketTag : UInt16
  /-- The hierarchy of the ticket. -/
  hierarchy : UInt32

/-- The commands that are written. -/
inductive TpmCommand
  /-- `TpmReadPublicCommand`. -/
  | readPublic (handle : UInt32)
  /-- `TpmSignCommand`. -/
  | sign (cmd : TpmSignCommand)

/-- `TpmsAuthCommand`, with nothing in it but the session. -/
structure TpmsAuthCommand where
  /-- The session. -/
  sessionHandle : UInt32

/-- **What `tpm2-protocol` writes commands with.** An error is its debug text. -/
structure TpmMarshal where
  /-- `Tpm2bDigest::try_from`. -/
  digest : Bytes → Except String Tpm2b
  /-- `tpm_marshal_command`, into a buffer of 4096 bytes. -/
  marshalCommand : TpmCommand → UInt16 → List TpmsAuthCommand → Except String Bytes
  /-- The header of what is written tells its size. -/
  whole : ∀ cmd tag auths bytes, marshalCommand cmd tag auths = .ok bytes → Whole bytes

/-- `marshal`. -/
def TpmMarshal.marshal (M : TpmMarshal) (cmd : TpmCommand) (tag : UInt16)
    (auths : List TpmsAuthCommand) : Except String Command :=
  match h : M.marshalCommand cmd tag auths with
  | .error e => .error ("marshal: " ++ e)
  | .ok bytes => .ok ⟨bytes, M.whole _ _ _ _ h⟩

theorem TpmMarshal.marshal_eq_ok {M : TpmMarshal} {cmd : TpmCommand} {tag : UInt16}
    {auths : List TpmsAuthCommand} {bytes : Bytes}
    (h : M.marshalCommand cmd tag auths = .ok bytes) :
    M.marshal cmd tag auths = .ok ⟨bytes, M.whole _ _ _ _ h⟩ := by
  unfold TpmMarshal.marshal
  split
  · rename_i h'
    cases h'.symm.trans h
  · rename_i h'
    cases h'.symm.trans h
    rfl

/-- A digest of SHA-256. -/
structure Digest where
  /-- The bytes. -/
  bytes : Bytes
  /-- There are 32 of them. -/
  len : bytes.length = 32

/-- `read_public_command`. -/
def readPublicCommand (M : TpmMarshal) (handle : UInt32) : Except String Command :=
  M.marshal (.readPublic handle) tagNoSessions []

/-- `sign_command`: RSASSA with SHA-256, a null ticket, and a password session. -/
def signCommand (M : TpmMarshal) (handle : UInt32) (digest : Digest) : Except String Command :=
  match M.digest digest.bytes with
  | .error e => .error ("digest: " ++ e)
  | .ok digest =>
    M.marshal (.sign ⟨handle, digest, algRsassa, 0x000B, 0x8024, 0x40000007⟩) tagSessions
      [⟨0x40000009⟩]

/-! ### The calls -/

/-- `JwtBackendError`, as far as this backend raises it. -/
inductive BackendError
  /-- `BackendDead`. -/
  | backendDead
  /-- `Io`. -/
  | io (message : String)
  /-- `Backend`, with the text of this error. -/
  | signingInput (source : JwtError)
  /-- `Backend`. -/
  | backend (message : String)
  deriving DecidableEq

/-- What the backend is given: the handle of its key, and the crates. -/
structure Backend where
  /-- The handle. -/
  persistentHandle : UInt32
  /-- `Sha256::digest`. -/
  sha256 : Bytes → Digest
  /-- `serde_json::to_vec` of claims. -/
  toVec : JwtClaims → Except Str Bytes
  /-- What is written is the JSON of the claims. -/
  eq_json_of_toVec : ∀ claims bytes, toVec claims = .ok bytes → bytes = claims.json
  /-- `tpm2-protocol`, as far as it writes. -/
  marshal : TpmMarshal
  /-- `tpm2-protocol`, as far as it reads. -/
  protocol : Tpm2Protocol

/-- `sign_command` for the key of the backend. -/
def Backend.signCommand (B : Backend) (message : Bytes) : Except String Command :=
  Tpm.signCommand B.marshal B.persistentHandle (B.sha256 message)

/-- `read_public_command` for it. -/
def Backend.readPublicCommand (B : Backend) : Except String Command :=
  Tpm.readPublicCommand B.marshal B.persistentHandle

/-- The two methods of the backend. -/
inductive Call
  /-- `sign`. -/
  | sign (claims : JwtClaims)
  /-- `self_check`. -/
  | selfCheck
  deriving DecidableEq

/-- What a call is good for. -/
inductive Answer
  /-- The token. -/
  | token (jwt : Str)
  /-- The key will do. -/
  | usable
  deriving DecidableEq

variable (B : Backend)

/-- **A call that has its command**: what it still needs when the response is there. -/
inductive Request
  /-- `sign`, with the signing input. -/
  | sign (claims : JwtClaims) (input : Str) (command : Command)
      (hinput : signingInput B.toVec claims = .ok input)
      (hcommand : B.signCommand input.bytes = .ok command)
  /-- `self_check`. -/
  | selfCheck (command : Command) (hcommand : B.readPublicCommand = .ok command)

/-- What a call does before it sends a command. -/
def Call.prepare : Call → Except BackendError (Request B)
  | .sign claims =>
    match hinput : signingInput B.toVec claims with
    | .error e => .error (.signingInput e)
    | .ok input =>
      match hcommand : B.signCommand input.bytes with
      | .error e => .error (.backend ("build sign: " ++ e))
      | .ok command => .ok (.sign claims input command hinput hcommand)
  | .selfCheck =>
    match hcommand : B.readPublicCommand with
    | .error e => .error (.backend ("build read_public: " ++ e))
    | .ok command => .ok (.selfCheck command hcommand)

variable {B}

/-- The command it sends. -/
def Request.command : Request B → Command
  | .sign _ _ command _ _ | .selfCheck command _ => command

/-- What it makes of the response. -/
def Request.finish : Request B → Bytes → Except BackendError Answer
  | .sign _ input _ _ _, response =>
    match parseSign B.protocol response with
    | .error e => .error (.backend ("sign: " ++ e))
    | .ok signature => .ok (.token (assembleJwt input signature))
  | .selfCheck _ _, response =>
    match verifyRsa2048SigningKey B.protocol response with
    | .error e => .error (.backend ("read_public: " ++ e))
    | .ok () => .ok .usable

theorem prepare_sign {claims : JwtClaims} {input : Str} {command : Command}
    (hinput : signingInput B.toVec claims = .ok input)
    (hcommand : B.signCommand input.bytes = .ok command) :
    (Call.sign claims).prepare B = .ok (.sign claims input command hinput hcommand) := by
  simp only [Call.prepare]
  split
  · rename_i h
    cases h.symm.trans hinput
  · rename_i h
    cases h.symm.trans hinput
    split
    · rename_i h
      cases h.symm.trans hcommand
    · rename_i h
      cases h.symm.trans hcommand
      rfl

/-- The request of a `sign` is for its claims. -/
theorem exists_of_prepare_sign {claims : JwtClaims} {r : Request B}
    (h : (Call.sign claims).prepare B = .ok r) :
    ∃ input command hinput hcommand, r = .sign claims input command hinput hcommand := by
  simp only [Call.prepare] at h
  split at h
  · cases h
  · split at h
    · cases h
    · exact ⟨_, _, _, _, (Except.ok.inj h).symm⟩

/-- The request of a `self_check` is for the public area. -/
theorem exists_of_prepare_selfCheck {r : Request B} (h : Call.selfCheck.prepare B = .ok r) :
    ∃ command hcommand, r = .selfCheck command hcommand := by
  simp only [Call.prepare] at h
  split at h
  · cases h
  · exact ⟨_, _, (Except.ok.inj h).symm⟩

/-! ### The device -/

/-- **The device**: what has been written since the last response, and the response that has
not been read. -/
structure Device where
  /-- Written. -/
  inbox : Bytes
  /-- To be read. -/
  outbox : Bytes
  deriving DecidableEq

/-- **The TPM**: the responses it may give to a command. None is empty, and none is too long for
the buffer. -/
structure Chip where
  /-- The responses. -/
  Responds : Command → Bytes → Prop
  /-- A response is something. -/
  ne_nil : ∀ c response, Responds c response → response ≠ []
  /-- It is not too long. -/
  length_le : ∀ c response, Responds c response → response.length ≤ tpmIoBuf

/-- The system calls of the actor, and the response of the device. -/
inductive Syscall
  /-- `write` takes so many bytes. -/
  | wrote (n : ℕ)
  /-- `write` is interrupted by a signal. -/
  | interrupted
  /-- `write` fails. -/
  | writeFailed (text : String)
  /-- `read` gives the response. -/
  | read
  /-- `read` gives nothing. -/
  | eof
  /-- `read` fails, be it for a signal. -/
  | readFailed (text : String)
  /-- The device has a response. -/
  | responded
  deriving DecidableEq

/-- **`transact`**, and in it `write_all`: the bytes that are left to write say where it is. -/
inductive Transact (rest : Bytes) (d : Device) :
    Syscall → Bytes ⊕ Except BackendError Bytes → Device → Prop
  /-- Some of the bytes are written, or none. -/
  | wrote {n : ℕ} (hrest : rest ≠ []) (hn : n ≤ rest.length) :
      Transact rest d (.wrote n) (.inl (rest.drop n)) { d with inbox := d.inbox ++ rest.take n }
  /-- The `write` is made again. -/
  | interrupted (hrest : rest ≠ []) : Transact rest d .interrupted (.inl rest) d
  /-- It fails. -/
  | writeFailed (text : String) (hrest : rest ≠ []) :
      Transact rest d (.writeFailed text) (.inr (.error (.io ("tpm write: " ++ text)))) d
  /-- The response is read, as far as the buffer goes. -/
  | read (hrest : rest = []) (hout : d.outbox ≠ []) :
      Transact rest d .read (.inr (.ok (d.outbox.take tpmIoBuf)))
        { d with outbox := d.outbox.drop tpmIoBuf }
  /-- There is nothing to read, nor will there be. -/
  | eof (hrest : rest = []) : Transact rest d .eof (.inr (.error .backendDead)) d
  /-- Reading fails. -/
  | readFailed (text : String) (hrest : rest = []) :
      Transact rest d (.readFailed text) (.inr (.error (.io ("tpm read: " ++ text)))) d

/-- The device takes a whole command, and has a response. -/
inductive Respond (T : Chip) (d : Device) : Syscall → Device → Prop
  | responded {c : Command} {response : Bytes} (hin : d.inbox = c.bytes) (hout : d.outbox = [])
      (hresp : T.Responds c response) : Respond T d .responded ⟨[], response⟩

/-- **The calls and the actor thread.** -/
def actor (B : Backend) (T : Chip) :
    Worker.Service Call (Request B) Bytes Answer BackendError Bytes Device Syscall where
  dead := .backendDead
  prepare := Call.prepare B
  finish := Request.finish
  first r := r.command.bytes
  work := Transact
  alone := Respond T
  shut := id
  Released _ := True

/-- The calls, the actor thread and the device. -/
abbrev State (B : Backend) :=
  Worker.State Call (Request B) Bytes Answer BackendError Bytes Device

/-- The backend is started on a device at rest. -/
def start (B : Backend) : State B := .init ⟨[], []⟩

/-! ### The response is the one to the command -/

variable {T : Chip}

/-- Nothing has been written, and nothing is to be read. -/
def Device.Rest (d : Device) : Prop := d.inbox = [] ∧ d.outbox = []

/-- **A transaction on its course**: the command is being written, or the response to it is
there. -/
def OnCourse (T : Chip) (rest : Bytes) (r : Request B) (d : Device) : Prop :=
  r.command.bytes = d.inbox ++ rest ∧ d.outbox = [] ∨
    rest = [] ∧ d.inbox = [] ∧ T.Responds r.command d.outbox

theorem Command.ne_nil (c : Command) : c.bytes ≠ [] := fun h => by
  have hlen := c.whole.1
  rw [h] at hlen
  cases hlen

/-- A command is its bytes. -/
theorem Command.eq_of_bytes : ∀ {c c' : Command}, c.bytes = c'.bytes → c = c'
  | ⟨_, _⟩, ⟨_, _⟩, rfl => rfl

/-- **One transaction with a device at rest.** -/
theorem serves (B : Backend) (T : Chip) :
    Worker.Serves (actor B T) (fun r response => T.Responds r.command response) Device.Rest
      (OnCourse T) (fun _ => True) where
  first r d hd := .inl ⟨by rw [hd.1]; rfl, hd.2⟩
  work rest r d l rest' d' hon hw := by
    cases hw with
    | wrote hrest hn =>
      rcases hon with ⟨hcmd, hout⟩ | ⟨hnil, -⟩
      · refine .inl ⟨?_, hout⟩
        rw [List.append_assoc, List.take_append_drop]
        exact hcmd
      · exact absurd hnil hrest
    | interrupted hrest => exact hon
  result rest r d l response d' hon hw := by
    cases hw with
    | read hrest hout =>
      rcases hon with ⟨-, hnil⟩ | ⟨-, hin, hresp⟩
      · exact absurd hnil hout
      · have hle := T.length_le _ _ hresp
        refine ⟨?_, hin, List.drop_eq_nil_of_le hle⟩
        rwa [List.take_of_length_le hle]
  alone_rest d l d' hd ha := by
    cases ha with
    | @responded c response hin hout hresp =>
      rw [hd.1] at hin
      exact absurd hin.symm c.ne_nil
  alone_on rest r d l d' hon ha := by
    cases ha with
    | @responded c response hin hout hresp =>
      rcases hon with ⟨hcmd, -⟩ | ⟨-, hnil, -⟩
      · -- what the device takes for a command is the whole one
        have hwhole : Whole (c.bytes ++ rest) := by
          rw [← hin, ← hcmd]
          exact r.command.whole
        have hrest := c.whole.eq_nil hwhole
        rw [hrest, List.append_nil, hin] at hcmd
        rw [← Command.eq_of_bytes hcmd] at hresp
        exact .inr ⟨hrest, rfl, hresp⟩
      · rw [hnil] at hin
        exact absurd hin.symm c.ne_nil
  shut _ := trivial
  alone_shut _ _ _ _ _ := trivial

/-! ### How much there is to do -/

/-- A `write` that takes nothing, or is interrupted. -/
def Syscall.Stalls : Syscall → Prop
  | .wrote n => n = 0
  | .interrupted => True
  | _ => False

/-- Nothing fails. -/
def Syscall.Smooth : Syscall → Prop
  | .wrote n => n ≠ 0
  | .read | .responded => True
  | _ => False

/-- What a device has to do that nobody waits for. -/
def Device.spare (d : Device) : ℕ := if d.outbox = [] ∧ d.inbox ≠ [] then 1 else 0

/-- What is left of a transaction: the bytes to write, the response and the `read`. -/
def need (rest : Bytes) (d : Device) : ℕ := rest.length + 2 + if d.outbox = [] then 1 else 0

theorem Device.spare_le (d : Device) : d.spare ≤ 1 := by
  rw [spare]
  split <;> omega

/-- **A transaction is so many steps**, one for each byte of the command at the most. -/
def effort (B : Backend) (T : Chip) : Worker.Effort (actor B T) where
  stalls := Syscall.Stalls
  need := need
  spare := Device.spare
  cost r := r.command.bytes.length + 3
  first r d := by
    simp only [need, actor]
    split <;> omega
  work rest d l rest' d' hl hw := by
    cases hw with
    | @wrote n hrest hn =>
      have hpos := List.length_pos_iff.mpr hrest
      have hne : n ≠ 0 := hl
      simp only [need, List.length_drop]
      omega
    | interrupted hrest => exact absurd trivial hl
  result rest d l result d' hw := by
    have hspare := d'.spare_le
    simp only [need]
    omega
  alone_need rest d l d' _ ha := by
    cases ha with
    | responded hin hout hresp =>
      simp only [need, hout, T.ne_nil _ _ hresp, if_true, if_false]
      omega
  alone_spare d l d' _ ha := by
    cases ha with
    | @responded c response hin hout hresp =>
      have hne := c.ne_nil
      simp [Device.spare, hin, hout, T.ne_nil _ _ hresp, hne]
  shut _ := Nat.le_refl _

/-- A transaction on its course can go on. -/
theorem OnCourse.exists_step (hT : ∀ c, ∃ response, T.Responds c response) {rest : Bytes}
    {r : Request B} {d : Device} (h : OnCourse T rest r d) :
    ∃ l, Syscall.Smooth l ∧ ((∃ x d', (actor B T).work rest d l x d') ∨
      ∃ d', (actor B T).alone d l d') := by
  by_cases hrest : rest = []
  · rcases h with ⟨hcmd, hout⟩ | ⟨-, -, hresp⟩
    · obtain ⟨response, hresp⟩ := hT r.command
      rw [hrest, List.append_nil] at hcmd
      exact ⟨.responded, trivial, .inr ⟨_, .responded hcmd.symm hout hresp⟩⟩
    · exact ⟨.read, trivial, .inl ⟨_, _, .read hrest (T.ne_nil _ _ hresp)⟩⟩
  · have hpos := List.length_pos_iff.mpr hrest
    exact ⟨.wrote rest.length, Nat.ne_of_gt hpos, .inl ⟨_, _, .wrote hrest (Nat.le_refl _)⟩⟩

/-! ### The token is the one of the claims -/

/-- **The TPM holds the key of a signer**: a signature in a response is the signer's, over what
has that digest. -/
def Chip.Holds (T : Chip) (B : Backend) (signer : JwtSigningKey) : Prop :=
  ∀ message command response signature, B.signCommand message = .ok command →
    T.Responds command response → parseSign B.protocol response = .ok signature →
      signature = signer.sign message

variable {signer : JwtSigningKey} {s : State B} {ls : List (Worker.Label Call Syscall)}

/-- What a call returns that has the response to its own command. -/
theorem signRs256_of_finish (hkey : T.Holds B signer) {claims : JwtClaims} {r : Request B}
    (hprepare : (Call.sign claims).prepare B = .ok r) {response : Bytes}
    (hresp : T.Responds r.command response) {jwt : Str}
    (h : r.finish response = .ok (.token jwt)) : signer.signRs256 B.toVec claims = .ok jwt := by
  obtain ⟨input, command, hinput, hcommand, rfl⟩ := exists_of_prepare_sign hprepare
  simp only [Request.finish] at h
  split at h
  · cases h
  · rename_i signature hsign
    cases h
    rw [JwtSigningKey.signRs256, hinput, hkey _ _ _ _ hcommand hresp hsign]

/-- **The invariant**, in every run. -/
theorem sound_of_run (hrun : Worker.Run (actor B T) (start B) ls s) :
    Worker.Sound (actor B T) (fun r response => T.Responds r.command response) Device.Rest
      (OnCourse T) (fun _ => True) s :=
  .of_run (serves B T) ⟨rfl, rfl⟩ hrun

/-- A call that has returned a token. -/
theorem signRs256_of_run (hkey : T.Holds B signer) (hrun : Worker.Run (actor B T) (start B) ls s)
    {i : ℕ} {c : Worker.Caller Call (Request B) Bytes Answer BackendError}
    (hc : s.calls[i]? = some c) {claims : JwtClaims} (hcall : c.call = .sign claims) {jwt : Str}
    (hdone : c.status = .done (.ok (.token jwt))) : signer.signRs256 B.toVec claims = .ok jwt := by
  obtain ⟨r, response, hprepare, hresp, hfinish⟩ := ((sound_of_run hrun).own i c hc).done _ hdone
  rw [hcall] at hprepare
  exact signRs256_of_finish hkey hprepare hresp hfinish

/-- A `self_check` that has returned. -/
theorem verified_of_run (hrun : Worker.Run (actor B T) (start B) ls s) {i : ℕ}
    {c : Worker.Caller Call (Request B) Bytes Answer BackendError} (hc : s.calls[i]? = some c)
    (hcall : c.call = .selfCheck) {answer : Answer} (hdone : c.status = .done (.ok answer)) :
    ∃ command response, B.readPublicCommand = .ok command ∧ T.Responds command response ∧
      verifyRsa2048SigningKey B.protocol response = .ok () := by
  obtain ⟨r, response, hprepare, hresp, hfinish⟩ := ((sound_of_run hrun).own i c hc).done _ hdone
  rw [hcall] at hprepare
  obtain ⟨command, hcommand, rfl⟩ := exists_of_prepare_selfCheck hprepare
  refine ⟨command, response, hcommand, hresp, ?_⟩
  have hfinish : (Request.selfCheck command hcommand).finish response = .ok answer := hfinish
  simp only [Request.finish] at hfinish
  split at hfinish
  · cases hfinish
  · assumption

/-- **The token a call returns is the token of its own claims**, however many calls are made, in
whatever order, whichever are dropped, however the commands are cut up in writing and whatever
fails:

* a `sign` that returns a token returns the one that the key gives for its claims, and a
  `self_check` that returns has found the public area of the key to be usable;
* once a transaction has failed, every call that has no response by then, and every later one,
  returns an error if it returns;
* no call is left without an answer: as long as one waits there is a step to take that needs no
  failure, and there are only so many before calls are made again, but for writes that take
  nothing or are interrupted. -/
theorem token_of_run (hkey : T.Holds B signer) (hT : ∀ c, ∃ response, T.Responds c response)
    (hrun : Worker.Run (actor B T) (start B) ls s) :
    (∀ (i : ℕ) c, s.calls[i]? = some c →
      (∀ claims jwt, c.call = .sign claims → c.status = .done (.ok (.token jwt)) →
        signer.signRs256 B.toVec claims = .ok jwt) ∧
      ∀ answer, c.call = .selfCheck → c.status = .done (.ok answer) →
        ∃ command response, B.readPublicCommand = .ok command ∧ T.Responds command response ∧
          verifyRsa2048SigningKey B.protocol response = .ok ()) ∧
    (s.phase.GivesUp → ∀ ls' t, Worker.Run (actor B T) s ls' t → ∀ (i : ℕ) c,
      (∀ c₀, s.calls[i]? = some c₀ → c₀.Unanswered) → t.calls[i]? = some c →
        ∀ outcome, c.status = .done outcome → ∃ e, outcome = .error e) ∧
    (∀ ls' t, Lts.Run (Lts.restrict (Worker.Step (actor B T)) fun _ l =>
        l.Within fun l => ¬l.Stalls) s ls' t → ls'.length ≤ s.work (effort B T)) ∧
    ∀ (i : ℕ) c r, s.calls[i]? = some c → c.status = .waiting r →
      ∃ l t, Worker.Step (actor B T) s l t ∧ l.Within Syscall.Smooth := by
  have hsound := sound_of_run hrun
  refine ⟨fun i c hc => ⟨?_, ?_⟩, ?_, ?_, ?_⟩
  · exact fun claims jwt hcall hdone => signRs256_of_run hkey hrun hc hcall hdone
  · exact fun answer hcall hdone => verified_of_run hrun hc hcall hdone
  · intro hgives ls' t hrun' i c hi hc outcome
    exact (Worker.unanswered_of_run hrun' hgives hi hc).exists_error
  · exact fun ls' t h => Worker.length_le_work (E := effort B T) h
  · intro i c r hc hwait
    exact hsound.exists_step (fun _ l => l.Smooth)
      (fun _ _ _ hon => hon.exists_step hT) (fun _ _ => .inl trivial) hc hwait

/-! ### A transaction that goes through -/

section Transaction

variable {calls : List (Worker.Caller Call (Request B) Bytes Answer BackendError)}
  {queue : List (Worker.Job (Request B))} {job : Worker.Job (Request B)}

variable (T calls queue job) in
/-- What is left of a command is written, and the response is read. -/
theorem run_transacted {written rest response : Bytes}
    (hbytes : job.request.command.bytes = written ++ rest) (hrest : rest ≠ [])
    (hresp : T.Responds job.request.command response) :
    ∃ ls, Worker.Run (actor B T) ⟨calls, queue, false, .working job rest, ⟨written, []⟩⟩ ls
      ⟨calls.modify job.caller ({ · with reply := .value (.ok response) }), queue, false, .idle,
        ⟨[], []⟩⟩ := by
  have hwrite : Transact rest ⟨written, []⟩ (.wrote rest.length) (.inl [])
      ⟨job.request.command.bytes, []⟩ := by
    have h := Transact.wrote (d := ⟨written, []⟩) hrest (Nat.le_refl _)
    rwa [List.drop_length, List.take_length, ← hbytes] at h
  have hread : Transact [] ⟨[], response⟩ .read (.inr (.ok response)) ⟨[], []⟩ := by
    have hle := T.length_le _ _ hresp
    have h := Transact.read (d := ⟨[], response⟩) rfl (T.ne_nil _ _ hresp)
    rwa [List.take_of_length_le hle, List.drop_eq_nil_of_le hle] at h
  have hwritten := Lts.Run.single (Worker.Step.work (S := actor B T)
    (s := ⟨calls, queue, false, .working job rest, ⟨written, []⟩⟩) rfl hwrite)
  have hresponded := hwritten.snoc (.alone (Respond.responded rfl rfl hresp))
  exact ⟨_, (hresponded.snoc (.result rfl hread)).snoc (.reply rfl)⟩

end Transaction

/-- A header and what follows it. -/
def plainFrame (tag : UInt16) (code : UInt32) (body : Bytes) : Except String Bytes :=
  if 10 + body.length < 256 ^ 4 then
    .ok (be16 tag ++ (toBytes 4 (10 + body.length) ++ (be32 code ++ body)))
  else .error "BufferOverflow"

/-- The sessions of a command, if it has any. -/
def plainAuths : List TpmsAuthCommand → Bytes
  | [] => []
  | auths => toBytes 4 (9 * auths.length) ++
    auths.flatMap fun auth => be32 auth.sessionHandle ++ (be16 0 ++ ([0] ++ be16 0))

/-- The layout of commands. -/
def plainCommand (cmd : TpmCommand) (tag : UInt16) (auths : List TpmsAuthCommand) :
    Except String Bytes :=
  match cmd with
  | .readPublic handle => plainFrame tag 0x173 (be32 handle ++ plainAuths auths)
  | .sign cmd =>
    plainFrame tag 0x15D (be32 cmd.handle ++ (plainAuths auths ++ (cmd.digest.encode ++
      (be16 cmd.scheme ++ (be16 cmd.hashAlg ++ (be16 cmd.ticketTag ++ (be32 cmd.hierarchy ++
        be16 0)))))))

theorem whole_of_plainFrame {tag : UInt16} {code : UInt32} {body bytes : Bytes}
    (h : plainFrame tag code body = .ok bytes) : Whole bytes := by
  unfold plainFrame at h
  split at h
  · rename_i hlen
    cases h
    have htag : (be16 tag).length = 2 := length_toBytes _ _
    have hcode : (be32 code).length = 4 := length_toBytes _ _
    refine ⟨?_, ?_⟩
    · simp only [List.length_append, htag, hcode, length_toBytes]
      omega
    · rw [List.drop_left' htag, List.take_left' (length_toBytes _ _), ofBytes_toBytes hlen]
      simp only [List.length_append, htag, hcode, length_toBytes]
      omega
  · cases h

/-- A crate that writes commands so. -/
def plainMarshal : TpmMarshal where
  digest bytes := if h : bytes.length < 2 ^ 16 then .ok ⟨bytes, h⟩ else .error "BufferOverflow"
  marshalCommand := plainCommand
  whole cmd tag auths bytes h := by
    cases cmd with
    | readPublic handle => exact whole_of_plainFrame h
    | sign cmd => exact whole_of_plainFrame h

/-- The digest of the captured command. -/
def capturedDigest : Digest where
  bytes := [0x0C, 0xC5, 0x61, 0xB9, 0x58, 0xB5, 0x42, 0x13, 0xA5, 0x7D, 0xB5, 0x9A, 0x40, 0x6B,
    0x7C, 0x74, 0x7F, 0x25, 0xC0, 0x46, 0x60, 0xD3, 0xC4, 0x39, 0x6F, 0x93, 0xD7, 0x8E, 0x6F,
    0x54, 0x77, 0xA3]
  len := rfl

example : (signCommand plainMarshal 0x81010001 capturedDigest).map (fun c => hexOf c.bytes) =
    .ok (ascii ("8002000000490000015d81010001000000094000000900000000000020" ++
      "0cc561b958b54213a57db59a406b7c747f25c04660d3c4396f93d78e6f5477a3" ++
      "0014000b8024400000070000")) := by
  decide +kernel

/-- A command to sign, with its digest at the bytes 29 to 60. -/
theorem exists_signCommand (handle : UInt32) (digest : Digest) :
    ∃ command, signCommand plainMarshal handle digest = .ok command ∧
      (command.bytes.drop 29).take 32 = digest.bytes := by
  have hfits : digest.bytes.length < 2 ^ 16 := by
    rw [digest.len]
    decide
  have hdigest : plainMarshal.digest digest.bytes = .ok ⟨digest.bytes, hfits⟩ := dif_pos hfits
  -- what stands before the digest, and behind it
  let before : Bytes := be16 tagSessions ++ (toBytes 4 73 ++ (be32 0x15D ++ (be32 handle ++
    (plainAuths [⟨0x40000009⟩] ++ toBytes 2 32))))
  let behind : Bytes := be16 algRsassa ++ (be16 0x000B ++ (be16 0x8024 ++ (be32 0x40000007 ++
    be16 0)))
  have hbefore : before.length = 29 := by simp [before, be16, be32, plainAuths]
  have hcommand : plainMarshal.marshalCommand
      (.sign ⟨handle, ⟨digest.bytes, hfits⟩, algRsassa, 0x000B, 0x8024, 0x40000007⟩) tagSessions
      [⟨0x40000009⟩] = .ok (before ++ (digest.bytes ++ behind)) := by
    simp [plainMarshal, plainCommand, plainFrame, before, behind, Tpm2b.encode, be16, be32,
      plainAuths, digest.len]
  refine ⟨⟨_, plainMarshal.whole _ _ _ _ hcommand⟩, ?_, ?_⟩
  · rw [signCommand, hdigest]
    exact TpmMarshal.marshal_eq_ok hcommand
  · rw [List.drop_left' hbefore, List.take_left' digest.len]

/-- A signature that tells the digest. -/
def copies (digest : Bytes) : Bytes := (List.replicate 8 digest).flatten

theorem length_copies (digest : Bytes) : (copies digest).length = 8 * digest.length := by
  rw [copies, List.length_flatten, List.map_replicate, List.sum_replicate_nat]

/-- The signature of an honest TPM, for the digest in a command. -/
def signatureFor (c : Command) : Tpm2b where
  bytes := copies ((c.bytes.drop 29).take 32)
  fits := by
    rw [length_copies, List.length_take]
    omega

/-- The response with it. -/
def signedResponse (signature : Tpm2b) : Bytes :=
  response tagSessions 0 (be32 262 ++ (be16 algRsassa ++ (be16 0x000B ++ (signature.encode ++ []))))

theorem length_signedResponse (c : Command) :
    18 ≤ (signedResponse (signatureFor c)).length ∧
      (signedResponse (signatureFor c)).length ≤ tpmIoBuf := by
  have hle : (signatureFor c).bytes.length ≤ 256 := by
    rw [signatureFor, length_copies, List.length_take]
    omega
  simp only [signedResponse, response, Tpm2b.encode, be16, be32, List.length_append,
    length_toBytes, List.length_nil, tpmIoBuf]
  omega

/-- A TPM that signs the digest of every command. -/
def plainChip : Chip where
  Responds c response := response = signedResponse (signatureFor c)
  ne_nil c response h hnil := by
    have hlen := (length_signedResponse c).1
    rw [← h, hnil] at hlen
    cases hlen
  length_le c response h := h ▸ (length_signedResponse c).2

/-- A digest: the last 32 bytes. -/
def plainSha256 (message : Bytes) : Digest where
  bytes := (message.reverse ++ List.replicate 32 0).take 32
  len := by simp

/-- The key that the TPM holds. -/
def plainKey : JwtSigningKey where
  sign message := copies (plainSha256 message).bytes
  length_sign message := by rw [length_copies, (plainSha256 message).len]

/-- A backend for it. -/
def plainBackend : Backend where
  persistentHandle := 0x81010001
  sha256 := plainSha256
  toVec claims := .ok claims.json
  eq_json_of_toVec _ _ h := (Except.ok.inj h).symm
  marshal := plainMarshal
  protocol := plainProtocol

theorem parseSign_signedResponse (signature : Tpm2b) :
    parseSign plainProtocol (signedResponse signature) = .ok signature.bytes :=
  parseSign_eq_ok plainProtocol_lawful 262 0x000B signature [] (by decide)

theorem sign_of_signCommand {message : Bytes} {command : Command}
    (h : plainBackend.signCommand message = .ok command) :
    (signatureFor command).bytes = plainKey.sign message := by
  obtain ⟨command', hcommand', hdigest⟩ :=
    exists_signCommand plainBackend.persistentHandle (plainBackend.sha256 message)
  cases hcommand'.symm.trans h
  exact congrArg copies hdigest

theorem plainChip_holds : plainChip.Holds plainBackend plainKey := by
  rintro message command response signature hcommand rfl hsign
  rw [← sign_of_signCommand hcommand]
  exact (Except.ok.inj ((parseSign_signedResponse _).symm.trans hsign)).symm

/-- A `sign` has a request, and the response to it is its token. -/
theorem exists_prepare_sign (claims : JwtClaims) :
    ∃ r jwt, (actor plainBackend plainChip).prepare (.sign claims) = .ok r ∧
      plainKey.signRs256 plainBackend.toVec claims = .ok jwt ∧
      r.finish (signedResponse (signatureFor r.command)) = .ok (.token jwt) := by
  let input : Str := headerB64 ++ dot ++ base64 claims.json
  obtain ⟨command, hcmd, -⟩ :=
    exists_signCommand plainBackend.persistentHandle (plainBackend.sha256 input.bytes)
  have hcommand : plainBackend.signCommand input.bytes = .ok command := hcmd
  refine ⟨.sign claims input command rfl hcommand,
    assembleJwt input (plainKey.sign input.bytes), prepare_sign rfl hcommand, rfl, ?_⟩
  simp only [Request.finish, Request.command, plainBackend, parseSign_signedResponse]
  rw [sign_of_signCommand hcommand]

/-- **Two calls at once.** The first is dropped when its command is half written; the second gets
the token of its own claims. -/
theorem exists_run_dropped : ∃ ls s first second response response',
    Worker.Run (actor plainBackend plainChip) (start plainBackend) ls s ∧
      plainKey.signRs256 plainBackend.toVec AgentBackend.firstClaims = .ok first ∧
      plainKey.signRs256 plainBackend.toVec AgentBackend.secondClaims = .ok second ∧
      s.calls = [⟨.sign AgentBackend.firstClaims, .value (.ok response), .left⟩,
        ⟨.sign AgentBackend.secondClaims, .value (.ok response'),
          .done (.ok (.token second))⟩] := by
  obtain ⟨r₁, first, hprepare₁, hfirst, -⟩ := exists_prepare_sign AgentBackend.firstClaims
  obtain ⟨r₂, second, hprepare₂, hsecond, hfinish⟩ := exists_prepare_sign AgentBackend.secondClaims
  -- two bytes of the first command are written, and then its caller leaves
  have hlen : 10 ≤ r₁.command.bytes.length := r₁.command.whole.1
  have hwrote : Transact r₁.command.bytes ⟨[], []⟩ (.wrote 2) (.inl (r₁.command.bytes.drop 2))
      ⟨r₁.command.bytes.take 2, []⟩ := .wrote r₁.command.ne_nil (by omega)
  have hasked := (Lts.Run.single (Worker.Step.queued (S := actor plainBackend plainChip)
    (s := start plainBackend) rfl hprepare₁ nofun)).snoc (.queued rfl hprepare₂ nofun)
  have hleft := ((hasked.snoc (.take rfl rfl)).snoc (.work rfl hwrote)).snoc
    (.leave (i := 0) rfl rfl)
  obtain ⟨ls₁, hrun₁⟩ := run_transacted plainChip
    [⟨.sign AgentBackend.firstClaims, .empty, .left⟩,
      ⟨.sign AgentBackend.secondClaims, .empty, .waiting r₂⟩] [⟨1, r₂⟩] ⟨0, r₁⟩
    (List.take_append_drop 2 r₁.command.bytes).symm
    (List.ne_nil_of_length_pos (by rw [List.length_drop]; omega)) rfl
  obtain ⟨ls₂, hrun₂⟩ := run_transacted plainChip
    [⟨.sign AgentBackend.firstClaims,
        .value (.ok (signedResponse (signatureFor r₁.command))), .left⟩,
      ⟨.sign AgentBackend.secondClaims, .empty, .waiting r₂⟩] [] ⟨1, r₂⟩
    (List.nil_append r₂.command.bytes).symm r₂.command.ne_nil rfl
  have hanswered := ((hleft.append hrun₁).snoc (.take rfl rfl)).append hrun₂
  have hrun := hanswered.snoc (.wake (i := 1) rfl rfl rfl)
  refine ⟨_, _, first, second, signedResponse (signatureFor r₁.command),
    signedResponse (signatureFor r₂.command), hrun, hfirst, hsecond, ?_⟩
  rw [← hfinish]
  rfl

theorem token_of_run_dropped : ∃ ls s first second response response',
    Worker.Run (actor plainBackend plainChip) (start plainBackend) ls s ∧
      s.calls = [⟨.sign AgentBackend.firstClaims, .value (.ok response), .left⟩,
        ⟨.sign AgentBackend.secondClaims, .value (.ok response'),
          .done (.ok (.token second))⟩] ∧
      plainKey.signRs256 plainBackend.toVec AgentBackend.firstClaims = .ok first ∧
      plainKey.signRs256 plainBackend.toVec AgentBackend.secondClaims = .ok second := by
  obtain ⟨ls, s, first, second, response, response', hrun, hfirst, -, hcalls⟩ := exists_run_dropped
  refine ⟨ls, s, first, second, response, response', hrun, hcalls, hfirst, ?_⟩
  exact ((token_of_run plainChip_holds (fun _ => ⟨_, rfl⟩) hrun).1 1 _ (by rw [hcalls]; rfl)).1 _ _
    rfl rfl

/-! ### The two backends -/

/-- The token of claims does not depend on who writes them out. -/
theorem signRs256_unique {toVec toVec' : JwtClaims → Except Str Bytes} {claims : JwtClaims}
    (h : ∀ bytes, toVec claims = .ok bytes → bytes = claims.json)
    (h' : ∀ bytes, toVec' claims = .ok bytes → bytes = claims.json) {jwt jwt' : Str}
    (hjwt : signer.signRs256 toVec claims = .ok jwt)
    (hjwt' : signer.signRs256 toVec' claims = .ok jwt') : jwt = jwt' := by
  cases hv : toVec claims with
  | error e =>
    rw [signRs256_of_error signer hv] at hjwt
    cases hjwt
  | ok bytes =>
    cases hv' : toVec' claims with
    | error e =>
      rw [signRs256_of_error signer hv'] at hjwt'
      cases hjwt'
    | ok bytes' =>
      obtain rfl := h bytes hv
      obtain rfl := h' bytes' hv'
      simp only [JwtSigningKey.signRs256, signingInput, hv] at hjwt
      simp only [JwtSigningKey.signRs256, signingInput, hv'] at hjwt'
      exact Except.ok.inj (hjwt.symm.trans hjwt')

/-- A token that the agent returns is the one of the claims. -/
theorem signRs256_of_agent {serde : Agent.Serde} {claims : JwtClaims} {jwt : Str}
    (h : (AgentBackend.Call.sign claims).interpret
      (Agent.handle serde signer (AgentBackend.Call.sign claims).request.json) =
        .ok (.token jwt)) : signer.signRs256 serde.toVec claims = .ok jwt := by
  simp only [AgentBackend.Call.request, Agent.handle, Agent.decode, serde.fromSlice_json] at h
  cases hs : signer.signRs256 serde.toVec claims with
  | error e =>
    rw [hs] at h
    cases h
  | ok token =>
    rw [hs] at h
    cases h
    rfl

/-- **The two backends cannot be told apart by their tokens.** Take any run of the backend with
the agent, whose file has a key, and any run of the backend with a TPM that holds the same key.
If a call of the one and a call of the other have the same claims and both return a token, it is
the same token. -/
theorem backends_agree (hkey : T.Holds B signer) {wire : AgentBackend.Wire} {serde : Agent.Serde}
    {es : List (Worker.Label AgentBackend.Call AgentBackend.Syscall)} {a : AgentBackend.State wire}
    (hagent : Worker.Run (AgentBackend.actor wire serde signer) (AgentBackend.start wire) es a)
    (htpm : Worker.Run (actor B T) (start B) ls s) {claims : JwtClaims} {i j : ℕ}
    {k : Worker.Caller AgentBackend.Call (AgentBackend.Request wire) Bytes AgentBackend.Answer
      AgentBackend.BackendError}
    (hk : a.calls[i]? = some k) (hcall : k.call = .sign claims) {jwt : Str}
    (hjwt : k.status = .done (.ok (.token jwt)))
    {c : Worker.Caller Call (Request B) Bytes Answer BackendError} (hc : s.calls[j]? = some c)
    (hcall' : c.call = .sign claims) {jwt' : Str} (hjwt' : c.status = .done (.ok (.token jwt'))) :
    jwt = jwt' := by
  have htoken := signRs256_of_run hkey htpm hc hcall' hjwt'
  have hown := AgentBackend.interpret_of_done ((AgentBackend.sound_of_run hagent).own i k hk) hjwt
  rw [hcall] at hown
  exact signRs256_unique (serde.eq_json_of_toVec claims) (B.eq_json_of_toVec claims)
    (signRs256_of_agent hown) htoken

theorem backends_agree_secondClaims : ∃ (wire : AgentBackend.Wire) (serde : Agent.Serde)
    (es : List (Worker.Label AgentBackend.Call AgentBackend.Syscall))
    (a : AgentBackend.State wire) (ls : List (Worker.Label Call Syscall)) (s : State plainBackend)
    (jwt jwt' : Str),
    Worker.Run (AgentBackend.actor wire serde plainKey) (AgentBackend.start wire) es a ∧
      Worker.Run (actor plainBackend plainChip) (start plainBackend) ls s ∧
      (∃ k, a.calls[1]? = some k ∧ k.status = .done (.ok (.token jwt))) ∧
      (∃ c, s.calls[1]? = some c ∧ c.status = .done (.ok (.token jwt'))) ∧ jwt = jwt' := by
  obtain ⟨wire, hwrites⟩ := AgentBackend.exists_wire
  obtain ⟨serde, hserde⟩ := Agent.exists_serde
  obtain ⟨es, a, _, jwt, hagent, -, -, hcalls⟩ :=
    AgentBackend.exists_run_cancelled hwrites hserde plainKey
  obtain ⟨ls, s, _, jwt', _, _, htpm, -, -, hcalls'⟩ := exists_run_dropped
  obtain ⟨k, hk, hcall, hjwt⟩ : ∃ k, a.calls[1]? = some k ∧
      k.call = .sign AgentBackend.secondClaims ∧ k.status = .done (.ok (.token jwt)) := by
    rw [hcalls]
    exact ⟨_, rfl, rfl, rfl⟩
  obtain ⟨c, hc, hcall', hjwt'⟩ : ∃ c, s.calls[1]? = some c ∧
      c.call = .sign AgentBackend.secondClaims ∧ c.status = .done (.ok (.token jwt')) := by
    rw [hcalls']
    exact ⟨_, rfl, rfl, rfl⟩
  exact ⟨wire, serde, es, a, ls, s, jwt, jwt', hagent, htpm, ⟨k, hk, hjwt⟩, ⟨c, hc, hjwt'⟩,
    backends_agree plainChip_holds hagent htpm hk hcall hjwt hc hcall' hjwt'⟩

end Symbolon.Tpm
