import Symbolon.Identity
import Symbolon.Provider

/-!
# What is said to GitHub, and what is understood of the answers

The requests and the response handlers of `src/providers/github.rs`, and the repository
paths they are about. A path is `owner/repo`, both parts non-empty and of the GitHub
charset, so that it can be pasted into a URL; a `Symbolon.GitHub.RepoPath` is one that
has passed that check, and knows it.

What is keyed by a repository is keyed by its path in lower case
(`Symbolon.GitHub.RepoPath.key`), and **two paths have one key exactly when they are
equal up to the case of their ASCII letters** (`Symbolon.GitHub.key_eq_key_iff`).

Reading JSON and RFC 3339 dates, and what the HTTP client accepts as a request, are other
people's code: they are parameters (`Symbolon.GitHub.Setup`).
-/

namespace Symbolon

open Text

namespace GitHub

/-! ### Errors -/

/-- Why GitHub did not give a token. -/
inductive GithubError
  /-- The signing backend refused. -/
  | jwtSign
  /-- The request could not be built, sent or read. -/
  | http
  /-- A response could not be understood. -/
  | parseResponse (context detail : String)
  /-- Not an `owner/repo` path. -/
  | malformedPath (path : Bytes)
  /-- Status 401. -/
  | unauthorized (body : Bytes)
  /-- Status 403. -/
  | forbidden (body : Bytes)
  /-- Status 404. -/
  | repoNotFound
  /-- Status 429. -/
  | rateLimited (retryAfterSecs : Option ℕ)
  /-- Any other status. -/
  | otherStatus (status : ℕ)
  /-- The request took too long. -/
  | timeout
  /-- The daemon is shutting down. -/
  | cancelled
  deriving DecidableEq

/-! ### Repository paths -/

/-- The bytes of an owner or a repository name. -/
def isValidByte (b : UInt8) : Bool :=
  isAsciiAlphanumeric b || b == 0x2D || b == 0x5F || b == 0x2E

/-- One of the two parts of a path. -/
def isValidPart (s : Bytes) : Bool := !s.isEmpty && s.all isValidByte

/-- **A repository path** that can be pasted into a URL. -/
structure RepoPath where
  /-- Before the slash. -/
  owner : Bytes
  /-- After it. -/
  repo : Bytes
  /-- The rule for the owner. -/
  owner_ok : isValidPart owner = true
  /-- The rule for the name. -/
  repo_ok : isValidPart repo = true
  deriving DecidableEq

/-- The slash. -/
abbrev slash : UInt8 := 0x2F

/-- The path as it was written. -/
def RepoPath.str (p : RepoPath) : Bytes := p.owner ++ slash :: p.repo

/-- Split `owner/repo` and validate both halves. -/
def RepoPath.parse (path : Bytes) : Except GithubError RepoPath :=
  match splitOnce slash path with
  | none => .error (.malformedPath path)
  | some (owner, repo) =>
    if h : isValidPart owner = true ∧ isValidPart repo = true then .ok ⟨owner, repo, h.1, h.2⟩
    else .error (.malformedPath path)

/-- `u8::to_ascii_lowercase`. -/
def toLower (b : UInt8) : UInt8 := if 0x41 ≤ b ∧ b ≤ 0x5A then b + 0x20 else b

/-- `str::to_ascii_lowercase`. -/
def toAsciiLowercase (s : Bytes) : Bytes := s.map toLower

/-- The key of a path in the caches. -/
def RepoPath.key (p : RepoPath) : Bytes :=
  toAsciiLowercase p.owner ++ slash :: toAsciiLowercase p.repo

theorem slash_notMem_of_isValidPart {s : Bytes} (h : isValidPart s = true) : slash ∉ s := by
  intro hs
  have hall := (Bool.and_eq_true_iff.mp h).2
  have hslash := List.all_eq_true.mp hall slash hs
  revert hslash
  decide

/-- What is parsed is the path. -/
theorem RepoPath.parse_eq_ok_iff {path : Bytes} {p : RepoPath} :
    RepoPath.parse path = .ok p ↔ path = p.str := by
  constructor
  · intro h
    unfold RepoPath.parse at h
    split at h
    · cases h
    · rename_i owner repo hs
      split at h
      · cases h
        exact (splitOnce_eq_some_iff.mp hs).1
      · cases h
  · rintro rfl
    have hs : splitOnce slash p.str = some (p.owner, p.repo) :=
      splitOnce_append (slash_notMem_of_isValidPart p.owner_ok) _
    simp [RepoPath.parse, hs, p.owner_ok, p.repo_ok]

/-- The key is the path in lower case. -/
theorem RepoPath.key_eq (p : RepoPath) : p.key = toAsciiLowercase p.str := by
  have hslash : toLower slash = slash := by decide
  simp [RepoPath.key, RepoPath.str, toAsciiLowercase, hslash]

/-- `str::eq_ignore_ascii_case`. -/
def eqIgnoreAsciiCase (s t : Bytes) : Prop := toAsciiLowercase s = toAsciiLowercase t

/-- **Two accepted paths share a key exactly when they are equal ignoring ASCII case.** -/
theorem key_eq_key_iff {path path' : Bytes} {p p' : RepoPath} (h : RepoPath.parse path = .ok p)
    (h' : RepoPath.parse path' = .ok p') : p.key = p'.key ↔ eqIgnoreAsciiCase path path' := by
  rw [p.key_eq, p'.key_eq, RepoPath.parse_eq_ok_iff.mp h, RepoPath.parse_eq_ok_iff.mp h',
    eqIgnoreAsciiCase]

/-! ### Requests -/

/-- The HTTP methods in use. -/
inductive HttpMethod
  /-- `GET` -/
  | get
  /-- `POST` -/
  | post
  /-- `DELETE` -/
  | delete
  deriving DecidableEq

/-- A request, up to the headers that are the same for all of them. -/
structure HttpRequest where
  /-- The method. -/
  method : HttpMethod
  /-- The URL. -/
  url : Bytes
  /-- The bearer credential: the signed App token or an installation token. -/
  bearer : Bytes
  /-- The JSON body. -/
  body : Option Bytes
  deriving DecidableEq

/-- **What the provider is set up with**, and the code of others that it calls. -/
structure Setup where
  /-- The base of the API's URLs. -/
  apiBase : Bytes
  /-- The installation of the App. -/
  installationId : ℕ
  /-- Whether the HTTP client accepts a request. -/
  accepts : HttpRequest → Bool
  /-- The `id` of a repository, from JSON. -/
  jsonRepo : Bytes → Option ℕ
  /-- The `token` and the `expires_at` of a minted token, from JSON. -/
  jsonMint : Bytes → Option (Bytes × Bytes)
  /-- The `message` of an error, from JSON; it may be missing. -/
  jsonMessage : Bytes → Option (Option Bytes)
  /-- The Unix time of an RFC 3339 date. -/
  rfc3339 : Bytes → Option ℤ

namespace Setup

variable (S : Setup)

/-- The URL that tokens are minted at. -/
def accessTokensUrl : Bytes :=
  S.apiBase ++ ascii "/app/installations/" ++ ascii (toString S.installationId) ++
    ascii "/access_tokens"

/-- The body of a request for a token of one repository. -/
def mintBody (repoId : ℕ) : Bytes :=
  ascii "\x7b\"repository_ids\":[" ++ ascii (toString repoId) ++
    ascii "],\"permissions\":\x7b\"contents\":\"write\",\"metadata\":\"read\"\x7d\x7d"

/-- The body says which repository. -/
theorem mintBody_inj {id id' : ℕ} (h : mintBody id = mintBody id') : id = id' := by
  simp only [mintBody, List.append_assoc] at h
  exact ascii_toString_inj (List.append_cancel_right (List.append_cancel_left h))

/-- The request of `mint_token`. -/
def mintRequest (jwt : Bytes) (repoId : ℕ) : HttpRequest :=
  ⟨.post, S.accessTokensUrl, jwt, some (mintBody repoId)⟩

/-- The request of `mint_metadata_token`. -/
def metadataRequest (jwt : Bytes) : HttpRequest :=
  ⟨.post, S.accessTokensUrl, jwt,
    some (ascii "\x7b\"permissions\":\x7b\"metadata\":\"read\"\x7d\x7d")⟩

/-- The request of `resolve_repo_id`. -/
def resolveRequest (token : Bytes) (p : RepoPath) : HttpRequest :=
  ⟨.get, S.apiBase ++ ascii "/repos/" ++ p.str, token, none⟩

/-- The request of `revoke_install_token`. -/
def revokeRequest (token : Bytes) : HttpRequest :=
  ⟨.delete, S.apiBase ++ ascii "/installation/token", token, none⟩

/-! ### Responses -/

/-- The longest excerpt of an error, in characters. -/
def maxChars : ℕ := 200

/-- Where the `n`-th character of a text begins. -/
def charOffset (text : Bytes) (n : ℕ) : Option ℕ :=
  ((text.zipIdx.filter fun p => !isCont p.1)[n]?).map Prod.snd

/-- A short excerpt of the body of an error. -/
def messageFromBody (body : Bytes) : Bytes :=
  match S.jsonMessage body with
  | some (some message) => message
  | _ =>
    let text := (fromUtf8 body).toOption.getD (ascii "(non-utf8 body)")
    match charOffset text maxChars with
    | some cut => text.take cut ++ [0xE2, 0x80, 0xA6]
    | none => text

/-- The statuses that mean the same at every endpoint. -/
def fromCommonStatus (status : ℕ) (body : Bytes) (retryAfter : Option ℕ) : GithubError :=
  if status = 401 then .unauthorized (S.messageFromBody body)
  else if status = 403 then .forbidden (S.messageFromBody body)
  else if status = 429 then .rateLimited retryAfter
  else .otherStatus status

/-- The response to `resolve_repo_id`. -/
def handleResolve (status : ℕ) (retryAfter : Option ℕ) (body : Bytes) : Except GithubError ℕ :=
  if status = 200 then
    match S.jsonRepo body with
    | some id => .ok id
    | none => .error (.parseResponse "repo" "json")
  else if status = 404 then .error .repoNotFound
  else .error (S.fromCommonStatus status body retryAfter)

/-- The token and its expiry in a mint response. -/
def parseMintResponse (bytes : Bytes) : Except GithubError (Bytes × SystemTime) :=
  match S.jsonMint bytes with
  | none => .error (.parseResponse "mint" "json")
  | some (token, expiresAt) =>
    match S.rfc3339 expiresAt with
    | some secs =>
      if secs < 0 then .error (.parseResponse "mint" "bad expires_at")
      else .ok (token, ⟨secs * 1000000000⟩)
    | none => .error (.parseResponse "mint" "bad expires_at")

/-- The response to `mint_metadata_token`. -/
def handleMetadata (status : ℕ) (retryAfter : Option ℕ) (body : Bytes) :
    Except GithubError (Bytes × SystemTime) :=
  if status = 201 then S.parseMintResponse body
  else .error (S.fromCommonStatus status body retryAfter)

/-- The user name that goes with an installation token. -/
def xAccessToken : Bytes := ascii "x-access-token"

/-- The response to `mint_token`. -/
def handleMint (status : ℕ) (retryAfter : Option ℕ) (body : Bytes) :
    Except GithubError MintOutcome :=
  if status = 201 then
    match S.parseMintResponse body with
    | .error e => .error e
    | .ok (token, expiresAt) =>
      match Response.new xAccessToken token expiresAt with
      | .error _ => .error (.parseResponse "mint" "invalid token or expiry from GitHub")
      | .ok response => .ok ⟨response⟩
  else if status = 404 then .error .repoNotFound
  else .error (S.fromCommonStatus status body retryAfter)

variable {S} {status : ℕ} {retryAfter : Option ℕ} {body : Bytes}

theorem handleResolve_eq_ok {id : ℕ} (h : S.handleResolve status retryAfter body = .ok id) :
    status = 200 ∧ S.jsonRepo body = some id := by
  unfold handleResolve at h
  split at h
  · rename_i hs
    split at h
    · rename_i hid
      cases h
      exact ⟨hs, hid⟩
    · cases h
  · split at h <;> cases h

/-- A token that was minted came with its expiry, in one response. -/
theorem handleMint_eq_ok {outcome : MintOutcome}
    (h : S.handleMint status retryAfter body = .ok outcome) :
    status = 201 ∧ outcome.response.username = xAccessToken ∧
      S.parseMintResponse body =
        .ok (outcome.response.password, outcome.response.passwordExpiryUtc) := by
  unfold handleMint at h
  split at h
  · rename_i hs
    split at h
    · cases h
    · rename_i token expiresAt hp
      split at h
      · cases h
      · rename_i response hr
        cases h
        obtain ⟨hu, rfl, rfl⟩ := Response.new_eq_ok_iff.mp hr
        exact ⟨hs, hu, hp⟩
  · split at h <;> cases h

end Setup

end GitHub

end Symbolon
