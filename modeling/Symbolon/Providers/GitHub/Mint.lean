import Symbolon.Providers.GitHub.Api
import Symbolon.Lib.Run
import Symbolon.SingleflightCache
import Symbolon.TtlCache

/-!
# Concurrent mints

`GitHubProvider::mint` of `src/providers/github.rs`, as the state machine that the `async`
function is. Any number of mints are under way at once, over one memo of repository ids
and one cache of tokens. They run on one thread, so what a mint does between two awaits is
one step (`Symbolon.GitHub.next`), and at an await anything may happen first: the steps of
other mints in any order, answers of the server that say anything, failures, timeouts, the
shutdown of the daemon. A mint can also be *dropped* at any await, when the handler that
waits for it is cancelled; then the guard that it may hold releases its key.

The order of a mint is: look in the token cache; claim the key in the memo, and if this
mint is the one to resolve it, get a scratch token, ask for the id, give the scratch token
back; then ask for a token of that id, and put it into the cache. A mint that finds the
key in flight waits for the event of the resolver, and claims again when it is notified.

Each of the four calls goes through `run_call`: build the request (which for two of them
means to wait for the signing backend), send it, wait for the status, and read the body.
Shutdown is looked at first at every one of these points.
-/

namespace Symbolon

open Text

namespace GitHub

/-- Strings are ordered by their bytes. -/
scoped instance : LinearOrder Bytes :=
  LinearOrder.lift' (List.map UInt8.toNat)
    (List.map_injective_iff.mpr fun _ _ => UInt8.toNat_inj.mp)

instance : LinearOrder SystemTime :=
  LinearOrder.lift' SystemTime.unixNanos fun _ _ h => congrArg SystemTime.mk h

/-! ### The state -/

/-- The four calls, with what the mint has so far: the event of the guard it holds, the
scratch token, the result of the resolution, the repository id. -/
inductive Endpoint
  /-- `mint_metadata_token`. -/
  | metadata (event : EventId)
  /-- `resolve_repo_id`. -/
  | resolve (event : EventId) (token : Bytes)
  /-- `revoke_install_token`. -/
  | revoke (event : EventId) (token : Bytes) (result : Except GithubError ℕ)
  /-- `mint_token`. -/
  | mint (repoId : ℕ)

/-- How far a call is. -/
inductive CallPhase
  /-- Waiting for the signing backend. -/
  | building
  /-- The request is sent. -/
  | sent (request : HttpRequest)
  /-- The status is there, and the body is being read. -/
  | reading (request : HttpRequest) (status : ℕ) (retryAfter : Option ℕ)

/-- The request of a call, once it has been sent. -/
def CallPhase.request : CallPhase → Option HttpRequest
  | .building => none
  | .sent request | .reading request _ _ => some request

/-- Where a mint is. -/
inductive MintPc
  /-- Between two awaits. -/
  | running
  /-- Waiting for the event of another resolver. -/
  | waiting (event : EventId) (notified : Bool)
  /-- In a call. -/
  | calling (endpoint : Endpoint) (phase : CallPhase)
  /-- It has returned. -/
  | returned
  /-- It has been dropped. -/
  | dropped

/-- A mint. -/
structure MintTask where
  /-- The path it is for. -/
  path : RepoPath
  /-- Where it is. -/
  pc : MintPc

/-- **The provider**, with the mints that have been called. -/
structure GitHubProvider where
  /-- The memo of repository ids. -/
  repoIds : SingleflightCache Bytes ℕ
  /-- The cache of tokens. -/
  tokenCache : TtlCache Bytes Bytes SystemTime
  /-- Every mint that has been called, in order. -/
  tasks : List MintTask
  /-- The daemon is shutting down. -/
  cancelled : Bool

/-- The provider, when it is built. -/
def GitHubProvider.new : GitHubProvider := ⟨.new, .new, [], false⟩

/-- What can be seen of a step. -/
inductive Act
  /-- A path was refused. -/
  | rejected (path : Bytes) (e : GithubError)
  /-- A mint found its token in the cache. -/
  | tokenCacheHit (task : ℕ) (key : Bytes)
  /-- The cached token was refused. -/
  | panicked (task : ℕ)
  /-- A mint sent a request. -/
  | sent (task : ℕ) (request : HttpRequest)
  /-- The response to a request has been read. -/
  | answered (task : ℕ) (request : HttpRequest) (status : ℕ) (body : Bytes)
  /-- The resolution of a key has ended. -/
  | resolved (task : ℕ) (key : Bytes) (result : Except GithubError ℕ)
  /-- A mint has dropped what is known of its key. -/
  | invalidated (task : ℕ) (key : Bytes)
  /-- A mint has returned. -/
  | returned (task : ℕ) (path : Bytes) (result : Except GithubError MintOutcome)
  deriving DecidableEq

/-! ### From one await to the next -/

namespace GitHubProvider

variable (S : Setup) (g : GitHubProvider) (i : ℕ) (p : RepoPath) (now : SystemTime)

/-- Move a mint. -/
def setPc (pc : MintPc) : GitHubProvider :=
  { g with tasks := g.tasks.modify i fun t => { t with pc := pc } }

/-- Wake whoever waits for an event. -/
def notify (event : EventId) : GitHubProvider :=
  { g with tasks := g.tasks.map fun t =>
    match t.pc with
    | .waiting ev _ => if ev = event then { t with pc := .waiting ev true } else t
    | _ => t }

/-- The mint returns. -/
def finish (result : Except GithubError MintOutcome) : GitHubProvider × List Act :=
  (g.setPc i .returned, [.returned i p.str result])

/-- The token goes into the cache. -/
def cacheToken (response : Response) : GitHubProvider :=
  let tokens :=
    g.tokenCache.insert now p.key response.password response.passwordExpiryUtc
  { g with tokenCache := tokens }

/-- The repository is gone: its id and its token are forgotten. -/
def forget : GitHubProvider :=
  let ids := g.repoIds.invalidate p.key
  let tokens := g.tokenCache.invalidate p.key
  { g with repoIds := ids, tokenCache := tokens }

/-- After `mint_token`. -/
def finishMint : Except GithubError MintOutcome → GitHubProvider × List Act
  | .ok outcome => (g.cacheToken p now outcome.response).finish i p (.ok outcome)
  | .error .repoNotFound =>
    let r := (g.forget p).finish i p (.error .repoNotFound)
    (r.1, .invalidated i p.key :: r.2)
  | .error e => g.finish i p (.error e)

/-- Call `mint_token`. -/
def beginMint (repoId : ℕ) : GitHubProvider × List Act :=
  if g.cancelled then finishMint g i p now (.error .cancelled)
  else (g.setPc i (.calling (.mint repoId) .building), [])

/-- The resolution has ended: the guard releases the key, and the mint goes on or fails. -/
def endResolve (event : EventId) (result : Except GithubError ℕ) : GitHubProvider × List Act :=
  match result with
  | .ok repoId =>
    let r := beginMint (notify { g with repoIds := g.repoIds.releaseDone p.key repoId } event)
      i p now repoId
    (r.1, .resolved i p.key result :: r.2)
  | .error e =>
    let r :=
      finish (notify { g with repoIds := g.repoIds.releaseFailed p.key } event) i p (.error e)
    (r.1, .resolved i p.key result :: r.2)

/-- Call `revoke_install_token`; its result is ignored. -/
def beginRevoke (event : EventId) (token : Bytes) (result : Except GithubError ℕ) :
    GitHubProvider × List Act :=
  let request := S.revokeRequest token
  if g.cancelled then endResolve g i p now event result
  else if S.accepts request then
    (g.setPc i (.calling (.revoke event token result) (.sent request)), [.sent i request])
  else endResolve g i p now event result

/-- Call `resolve_repo_id`. -/
def beginResolve (event : EventId) (token : Bytes) : GitHubProvider × List Act :=
  let request := S.resolveRequest token p
  if g.cancelled then beginRevoke S g i p now event token (.error .cancelled)
  else if S.accepts request then
    (g.setPc i (.calling (.resolve event token) (.sent request)), [.sent i request])
  else beginRevoke S g i p now event token (.error .http)

/-- Call `mint_metadata_token`. -/
def beginMetadata (event : EventId) : GitHubProvider × List Act :=
  if g.cancelled then endResolve g i p now event (.error .cancelled)
  else (g.setPc i (.calling (.metadata event) .building), [])

/-- Claim the key: the loop of `SingleflightCache::with`. -/
def claim : GitHubProvider × List Act :=
  let g' := { g with repoIds := (g.repoIds.claim p.key).1 }
  match (g.repoIds.claim p.key).2 with
  | .hit repoId => beginMint g' i p now repoId
  | .wait event => (g'.setPc i (.waiting event false), [])
  | .resolve event => beginMetadata g' i p now event

/-- The beginning of a mint, up to its first await. -/
def start : GitHubProvider × List Act :=
  let g' := { g with tokenCache := (g.tokenCache.getWithExpiry now p.key).1 }
  match (g.tokenCache.getWithExpiry now p.key).2 with
  | some (token, expiresAt) =>
    match Response.new Setup.xAccessToken token expiresAt with
    | .error _ => (g'.setPc i .returned, [.panicked i])
    | .ok response =>
      let r := finish g' i p (.ok ⟨response⟩)
      (r.1, .tokenCacheHit i p.key :: r.2)
  | none => claim g' i p now

/-! ### The calls -/

/-- What can happen to a call. -/
inductive Progress
  /-- The backend has signed. -/
  | signed (jwt : Bytes)
  /-- The backend has refused. -/
  | signFailed
  /-- The request did not go through, or the body could not be read. -/
  | transportFailed
  /-- The status line and the headers are there. -/
  | response (status : ℕ) (retryAfter : Option ℕ)
  /-- The body is there. -/
  | body (bytes : Bytes)
  /-- Time is up. -/
  | timeout
  /-- The daemon is shutting down. -/
  | cancelled
  deriving DecidableEq

/-- What becomes of a call. -/
inductive CallStep
  /-- It goes on. -/
  | phase (phase : CallPhase)
  /-- It has failed. -/
  | failed (e : GithubError)
  /-- The response is complete. -/
  | complete (request : HttpRequest) (status : ℕ) (retryAfter : Option ℕ) (body : Bytes)

/-- The request of the two calls that wait for the signing backend. -/
def signedRequest (jwt : Bytes) : Endpoint → Option HttpRequest
  | .metadata _ => some (S.metadataRequest jwt)
  | .mint repoId => some (S.mintRequest jwt repoId)
  | .resolve .. | .revoke .. => none

/-- `run_call`, from one await to the next. When a token has been revoked there is no body
to read, and when it has not, a body that cannot be read counts as empty. -/
def runCall (endpoint : Endpoint) (phase : CallPhase) (progress : Progress) : Option CallStep :=
  if g.cancelled then some (.failed .cancelled)
  else match phase, progress with
    | _, .timeout => some (.failed .timeout)
    | .building, .signFailed => some (.failed .jwtSign)
    | .building, .signed jwt =>
      match signedRequest S jwt endpoint with
      | none => none
      | some request =>
        if S.accepts request then some (.phase (.sent request)) else some (.failed .http)
    | .sent _, .transportFailed => some (.failed .http)
    | .sent request, .response status retryAfter =>
      match endpoint with
      | .revoke .. =>
        if status = 204 then some (.complete request status retryAfter [])
        else some (.phase (.reading request status retryAfter))
      | _ => some (.phase (.reading request status retryAfter))
    | .reading request status retryAfter, .transportFailed =>
      match endpoint with
      | .revoke .. => some (.complete request status retryAfter [])
      | _ => some (.failed .http)
    | .reading request status retryAfter, .body bytes =>
      some (.complete request status retryAfter bytes)
    | _, _ => none

/-- **What a call can do**: fail, send its request, get the status, or complete. -/
theorem runCall_cases {S : Setup} {g : GitHubProvider} {endpoint : Endpoint} {phase : CallPhase}
    {progress : Progress} {step : CallStep}
    (h : runCall S g endpoint phase progress = some step) :
    (∃ e, step = .failed e) ∨
      (∃ jwt request, phase = .building ∧ signedRequest S jwt endpoint = some request ∧
        step = .phase (.sent request)) ∨
      (∃ request status retryAfter, phase = .sent request ∧
        step = .phase (.reading request status retryAfter)) ∨
      ∃ request status retryAfter body, phase.request = some request ∧
        step = .complete request status retryAfter body := by
  unfold runCall at h
  split at h
  · cases h
    exact .inl ⟨_, rfl⟩
  split at h
  · cases h
    exact .inl ⟨_, rfl⟩
  · cases h
    exact .inl ⟨_, rfl⟩
  · rename_i jwt
    split at h
    · cases h
    · rename_i request hreq
      split at h
      · cases h
        exact .inr (.inl ⟨jwt, request, rfl, hreq, rfl⟩)
      · cases h
        exact .inl ⟨_, rfl⟩
  · cases h
    exact .inl ⟨_, rfl⟩
  · rename_i request status retryAfter
    split at h
    · split at h
      · cases h
        exact .inr (.inr (.inr ⟨request, status, retryAfter, [], rfl, rfl⟩))
      · cases h
        exact .inr (.inr (.inl ⟨request, status, retryAfter, rfl, rfl⟩))
    · cases h
      exact .inr (.inr (.inl ⟨request, status, retryAfter, rfl, rfl⟩))
  · rename_i request status retryAfter
    split at h
    · cases h
      exact .inr (.inr (.inr ⟨request, status, retryAfter, [], rfl, rfl⟩))
    · cases h
      exact .inl ⟨_, rfl⟩
  · rename_i request status retryAfter bytes
    cases h
    exact .inr (.inr (.inr ⟨request, status, retryAfter, bytes, rfl, rfl⟩))
  · cases h

/-- A call has failed. -/
def afterFailure (e : GithubError) : Endpoint → GitHubProvider × List Act
  | .metadata event => endResolve g i p now event (.error e)
  | .resolve event token => beginRevoke S g i p now event token (.error e)
  | .revoke event _ result => endResolve g i p now event result
  | .mint _ => finishMint g i p now (.error e)

/-- A call has its response. -/
def afterResponse (status : ℕ) (retryAfter : Option ℕ) (body : Bytes) :
    Endpoint → GitHubProvider × List Act
  | .metadata event =>
    match S.handleMetadata status retryAfter body with
    | .error e => endResolve g i p now event (.error e)
    | .ok (token, _) => beginResolve S g i p now event token
  | .resolve event token =>
    beginRevoke S g i p now event token (S.handleResolve status retryAfter body)
  | .revoke event _ result => endResolve g i p now event result
  | .mint _ => finishMint g i p now (S.handleMint status retryAfter body)

/-- A request is sent when a call moves on to wait for the response. -/
def sentActs : CallPhase → List Act
  | .sent request => [.sent i request]
  | _ => []

/-- A step of a call. -/
def advance (endpoint : Endpoint) (phase : CallPhase) (progress : Progress) :
    Option (GitHubProvider × List Act) :=
  match runCall S g endpoint phase progress with
  | none => none
  | some (.phase phase') =>
    some (g.setPc i (.calling endpoint phase'), sentActs i phase')
  | some (.failed e) => some (afterFailure S g i p now e endpoint)
  | some (.complete request status retryAfter body) =>
    let r := afterResponse S g i p now status retryAfter body endpoint
    some (r.1, .answered i request status body :: r.2)

/-- A mint is dropped: if it holds a guard, the guard releases its key. -/
def drop : MintPc → GitHubProvider
  | .calling (.metadata event) _ | .calling (.resolve event _) _ | .calling (.revoke event _ _) _ =>
    (notify { g with repoIds := g.repoIds.releaseFailed p.key } event).setPc i .dropped
  | _ => g.setPc i .dropped

end GitHubProvider

/-! ### The system -/

/-- What can happen. -/
inductive Event
  /-- `mint` is called. -/
  | mint (path : Bytes) (now : SystemTime)
  /-- A mint that was notified runs again. -/
  | wake (task : ℕ) (now : SystemTime)
  /-- Something happens to a call. -/
  | progress (task : ℕ) (progress : GitHubProvider.Progress) (now : SystemTime)
  /-- A mint is dropped at an await. -/
  | drop (task : ℕ)
  /-- The daemon begins to shut down. -/
  | shutdown
  /-- A repository id is forgotten. -/
  | invalidateRepoId (key : Bytes)
  /-- A token is forgotten. -/
  | invalidateToken (key : Bytes)
  deriving DecidableEq

/-- **The provider, under every schedule.** -/
def next (S : Setup) (g : GitHubProvider) : Event → Option (GitHubProvider × List Act)
  | .mint path now =>
    match RepoPath.parse path with
    | .error e => some (g, [.rejected path e])
    | .ok p => some (GitHubProvider.start { g with tasks := g.tasks ++ [⟨p, .running⟩] }
        g.tasks.length p now)
  | .wake i now =>
    match g.tasks[i]? with
    | some ⟨p, .waiting _ true⟩ => some (g.claim i p now)
    | _ => none
  | .progress i progress now =>
    match g.tasks[i]? with
    | some ⟨p, .calling endpoint phase⟩ => g.advance S i p now endpoint phase progress
    | _ => none
  | .drop i =>
    match g.tasks[i]? with
    | some ⟨p, .waiting event notified⟩ => some (g.drop i p (.waiting event notified), [])
    | some ⟨p, .calling endpoint phase⟩ => some (g.drop i p (.calling endpoint phase), [])
    | _ => none
  | .shutdown => some ({ g with cancelled := true }, [])
  | .invalidateRepoId key => some ({ g with repoIds := g.repoIds.invalidate key }, [])
  | .invalidateToken key => some ({ g with tokenCache := g.tokenCache.invalidate key }, [])

/-- An event with what came of it. -/
abbrev Label := Event × List Act

/-- A run of the provider. -/
abbrev Run (S : Setup) : GitHubProvider → List Label → GitHubProvider → Prop :=
  Lts.Run (Lts.ofFun (next S))

/-- Everything that has been seen. -/
def actsOf (ls : List Label) : List Act := ls.flatMap Prod.snd

end GitHub

end Symbolon
