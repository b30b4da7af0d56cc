import Mathlib.Data.List.Basic
import Symbolon.Lib.Text

/-!
# The git-credential protocol

`src/git_credential.rs`: the request block a client sends – `key=value` lines up to a
blank line or the end – and the response block. The request parser refuses `CR` and `NUL`
anywhere, and a response can only be built from values without `CR`, `LF` and `NUL`, so a
value never ends the line it stands on.

A `Symbolon.Response` carries that as fields, so writing one out cannot fail.
-/

namespace Symbolon

open Text

/-! ### Requests -/

/-- The keys of a request that are not ignored. -/
inductive RequestKey
  /-- `protocol`. -/
  | protocol
  /-- `host`. -/
  | host
  /-- `path`. -/
  | path
  deriving DecidableEq

/-- The values of a response that are checked. -/
inductive ResponseField
  /-- `username`. -/
  | username
  /-- `password`. -/
  | password
  deriving DecidableEq

/-- Why a request or a response is refused; lines are counted from one. -/
inductive GitCredentialError
  /-- The block does not end in a line feed. -/
  | unterminatedBlock
  /-- The block goes on after the blank line. -/
  | trailingBytes
  /-- A line without `=`. -/
  | missingSeparator (lineNo : ℕ)
  /-- A line that starts with `=`. -/
  | emptyKey (lineNo : ℕ)
  /-- A required key has no value. -/
  | emptyValue (key : RequestKey)
  /-- A key stands twice. -/
  | duplicateKey (key : RequestKey)
  /-- A required key is missing. -/
  | missingRequiredKey (key : RequestKey)
  /-- A `CR` or `NUL`. -/
  | controlByteInLine (lineNo offset : ℕ) (byte : UInt8)
  /-- A value is not UTF-8. -/
  | invalidUtf8 (key : RequestKey)
  /-- A value of a response has a control byte. -/
  | responseControlByte (field : ResponseField)
  /-- A response expires before the epoch. -/
  | preEpochExpiry
  /-- A value is too long. -/
  | valueTooLong (key : RequestKey) (max : ℕ)
  /-- The block is too long. -/
  | requestTooLarge (max : ℕ)
  deriving DecidableEq

/-- A request. -/
structure Request where
  /-- The protocol. -/
  protocol : Bytes
  /-- The host. -/
  host : Bytes
  /-- The path, without a trailing `.git`. -/
  path : Bytes
  /-- The client declared `capability[]=authtype`. -/
  clientSupportsAuthtype : Bool
  deriving DecidableEq

namespace Request

/-- The longest value. -/
def maxValueBytes : ℕ := 4 * 1024

/-- The longest block. -/
def parserHardMax : ℕ := 64 * 1024

/-- The position of the first blank line: two line feeds in a row. -/
def blankLine : Bytes → Option ℕ
  | b :: c :: bs =>
    if b = lf ∧ c = lf then some 0
    else (blankLine (c :: bs)).map (· + 1)
  | _ => none

/-- Where the block of lines ends. -/
def blockEnd (input : Bytes) : Except GitCredentialError ℕ :=
  match blankLine input with
  | some pos => if pos + 2 < input.length then .error .trailingBytes else .ok pos
  | none => if input.getLast? = some lf then .ok (input.length - 1) else .error .unterminatedBlock

/-- What has been read of a request. -/
structure Fields where
  /-- The protocol. -/
  protocol : Option Bytes := none
  /-- The host. -/
  host : Option Bytes := none
  /-- The path. -/
  path : Option Bytes := none
  /-- The capability. -/
  clientSupportsAuthtype : Bool := false

/-- The slot of a key. -/
def Fields.get (f : Fields) : RequestKey → Option Bytes
  | .protocol => f.protocol
  | .host => f.host
  | .path => f.path

/-- Fill the slot of a key. -/
def Fields.set (f : Fields) (value : Bytes) : RequestKey → Fields
  | .protocol => { f with protocol := some value }
  | .host => { f with host := some value }
  | .path => { f with path := some value }

/-- The first `NUL` or `CR` of a line, with its offset. -/
def firstControlByte (line : Bytes) : Option (UInt8 × ℕ) :=
  line.zipIdx.find? fun p => p.1 == 0x00 || p.1 == 0x0D

/-- The key of a request that bytes spell. -/
def requestKey (key : Bytes) : Option RequestKey :=
  if key = ascii "protocol" then some .protocol
  else if key = ascii "host" then some .host
  else if key = ascii "path" then some .path
  else none

/-- Fill the slot of a recognised key. -/
def setValue (f : Fields) (key : RequestKey) (value : Bytes) : Except GitCredentialError Fields :=
  if (f.get key).isSome then .error (.duplicateKey key)
  else if maxValueBytes < value.length then .error (.valueTooLong key maxValueBytes)
  else if value = [] then .error (.emptyValue key)
  else match fromUtf8 value with
    | .error _ => .error (.invalidUtf8 key)
    | .ok value => .ok (f.set value key)

/-- One line of the block. -/
def parseLine (f : Fields) (lineNo : ℕ) (line : Bytes) : Except GitCredentialError Fields :=
  match firstControlByte line with
  | some (byte, offset) => .error (.controlByteInLine lineNo offset byte)
  | none =>
    match splitOnce 0x3D line with
    | none => .error (.missingSeparator lineNo)
    | some (key, value) =>
      if key = [] then .error (.emptyKey lineNo)
      else if key = ascii "capability[]" then
        -- an empty value resets the list; other capabilities are ignored
        if value = [] then .ok { f with clientSupportsAuthtype := false }
        else if value = ascii "authtype" then .ok { f with clientSupportsAuthtype := true }
        else .ok f
      else match requestKey key with
        | none => .ok f
        | some key => setValue f key value

/-- The loop over the lines, from line number `lineNo` on. -/
def parseLines (f : Fields) : ℕ → List Bytes → Except GitCredentialError Fields
  | _, [] => .ok f
  | lineNo, line :: rest =>
    match parseLine f lineNo line with
    | .error e => .error e
    | .ok f => parseLines f (lineNo + 1) rest

/-- Strip one trailing `.git`; nothing may not be left. -/
def stripGit (path : Bytes) : Except GitCredentialError Bytes :=
  if ascii ".git" <:+ path then
    let stripped := path.take (path.length - 4)
    if stripped = [] then .error (.emptyValue .path) else .ok stripped
  else .ok path

/-- All required keys are there. -/
def ofFields (f : Fields) : Except GitCredentialError Request :=
  match f.protocol with
  | none => .error (.missingRequiredKey .protocol)
  | some protocol =>
    match f.host with
    | none => .error (.missingRequiredKey .host)
    | some host =>
      match f.path with
      | none => .error (.missingRequiredKey .path)
      | some path =>
        match stripGit path with
        | .error e => .error e
        | .ok path => .ok ⟨protocol, host, path, f.clientSupportsAuthtype⟩

/-- **Parse a request block.** -/
def parse (input : Bytes) : Except GitCredentialError Request :=
  if parserHardMax < input.length then .error (.requestTooLarge parserHardMax)
  else match blockEnd input with
    | .error e => .error e
    | .ok n =>
      match parseLines {} 1 ((input.take n).splitOn lf) with
      | .error e => .error e
      | .ok f => ofFields f

end Request

/-! ### Responses -/

/-- A point in time: nanoseconds since the Unix epoch, which may be negative. -/
structure SystemTime where
  /-- Nanoseconds since the epoch. -/
  unixNanos : ℤ
  deriving DecidableEq

/-- The bytes a value of a response may not have. -/
def isResponseControl (b : UInt8) : Bool := b == 0x00 || b == 0x0D || b == 0x0A

/-- **A response**: no value can end its line, and the expiry can be written as a number
of seconds. -/
structure Response where
  /-- The user name. -/
  username : Bytes
  /-- The password: the token. -/
  password : Bytes
  /-- When the token expires. -/
  passwordExpiryUtc : SystemTime
  /-- The rule for the user name. -/
  username_ok : username.any isResponseControl = false
  /-- The rule for the password. -/
  password_ok : password.any isResponseControl = false
  /-- The rule for the expiry. -/
  expiry_ok : 0 ≤ passwordExpiryUtc.unixNanos
  deriving DecidableEq

namespace Response

/-- Validate and construct. -/
def new (username password : Bytes) (passwordExpiryUtc : SystemTime) :
    Except GitCredentialError Response :=
  if hu : username.any isResponseControl = true then .error (.responseControlByte .username)
  else if hp : password.any isResponseControl = true then .error (.responseControlByte .password)
  else if ht : passwordExpiryUtc.unixNanos < 0 then .error .preEpochExpiry
  else .ok ⟨username, password, passwordExpiryUtc, Bool.eq_false_iff.mpr hu,
    Bool.eq_false_iff.mpr hp, Int.not_lt.mp ht⟩

/-- The expiry in seconds since the epoch. -/
def passwordExpiryUnixSecs (r : Response) : ℕ := r.passwordExpiryUtc.unixNanos.toNat / 1000000000

/-- Write a response out. -/
def encode (r : Response) (clientSupportsAuthtype : Bool) : Bytes :=
  (if clientSupportsAuthtype then ascii "capability[]=authtype\n" else []) ++
    ascii "username=" ++ r.username ++ [lf] ++ ascii "password=" ++ r.password ++ [lf] ++
    (if clientSupportsAuthtype then ascii "ephemeral=true\n" else []) ++
    ascii "password_expiry_utc=" ++ ascii (toString r.passwordExpiryUnixSecs) ++ [lf, lf]

/-- A response is what its constructor accepts. -/
theorem new_eq_ok_iff {username password : Bytes} {expiry : SystemTime} {r : Response} :
    new username password expiry = .ok r ↔
      r.username = username ∧ r.password = password ∧ r.passwordExpiryUtc = expiry := by
  constructor
  · intro h
    unfold new at h
    split at h
    · cases h
    · split at h
      · cases h
      · split at h <;> cases h
        exact ⟨rfl, rfl, rfl⟩
  · rintro ⟨rfl, rfl, rfl⟩
    unfold new
    rw [dif_neg (by simp [r.username_ok]), dif_neg (by simp [r.password_ok]),
      dif_neg (Int.not_lt.mpr r.expiry_ok)]

end Response

end Symbolon
