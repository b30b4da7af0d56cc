import Symbolon.Providers.GitHub.Mint

/-!
# What a step of a mint does

Between two awaits a mint may go through several functions of the machine: a resolution
that is cancelled gives up the lookup, then the scratch token, then the mark in the memo,
and only then fails. All of this is one step, and it is a sequence of *moves*
(`Symbolon.GitHub.Move`), each of which does one thing. Most of them only bring a mint from
one place to another (`Symbolon.GitHub.Hop`); the others are the few that look at the memo
and the cache or change them.

That a step of the machine is made of moves (`Symbolon.GitHub.next_cases`) is proved once,
function by function. What is kept by every move is then kept by every step, and the
places a mint goes through between two moves need not be places where it can stop.
-/

namespace Symbolon

open Text

namespace GitHub

/-! ### Moves -/

section Moves

variable (S : Setup)

/-- The requests a call can be for. -/
def Endpoint.Requests (p : RepoPath) (request : HttpRequest) : Endpoint → Prop
  | .metadata _ => ∃ jwt, request = S.metadataRequest jwt
  | .resolve _ token => request = S.resolveRequest token p
  | .revoke _ token _ => request = S.revokeRequest token
  | .mint id => ∃ jwt, request = S.mintRequest jwt id

/-- The response says nothing that the mint could go on with or has to act on. -/
def Endpoint.Idle (status : ℕ) (retryAfter : Option ℕ) (body : Bytes) : Endpoint → Prop
  | .metadata _ => ∃ e, S.handleMetadata status retryAfter body = .error e
  | .resolve .. => False
  | .revoke .. => True
  | .mint _ => ∃ e, S.handleMint status retryAfter body = .error e ∧ e ≠ .repoNotFound

/-- A resolution can end here, with this result: with an error when there is no scratch
token, and with what it had when the scratch token is given back. -/
def Endpoint.Ends (event : EventId) (result : Except GithubError ℕ) : Endpoint → Prop
  | .metadata ev => ev = event ∧ ∃ e, result = .error e
  | .revoke ev _ r => ev = event ∧ r = result
  | .resolve .. | .mint _ => False

/-- The mint is about to claim its key. -/
def MintPc.Claiming : MintPc → Prop
  | .running | .waiting _ true => True
  | _ => False

/-- The mint can fail here: it holds no guard. -/
def MintPc.Unguarded : MintPc → Prop
  | .running | .waiting _ true | .calling (.mint _) _ => True
  | _ => False

/-- **What a mint does by itself.** -/
inductive Hop (i : ℕ) (p : RepoPath) : MintPc → List Act → MintPc → Prop
  /-- It sends its request. -/
  | send {endpoint request} (h : endpoint.Requests S p request) :
    Hop i p (.calling endpoint .building) [.sent i request] (.calling endpoint (.sent request))
  /-- It has the status. -/
  | status {endpoint request status retryAfter} :
    Hop i p (.calling endpoint (.sent request)) []
      (.calling endpoint (.reading request status retryAfter))
  /-- It has a response of no use. -/
  | answer {endpoint : Endpoint} {phase : CallPhase} {request status retryAfter body}
    (hreq : phase.request = some request) (h : endpoint.Idle S status retryAfter body) :
    Hop i p (.calling endpoint phase) [.answered i request status body] (.calling endpoint phase)
  /-- It has its scratch token, and looks the repository up. -/
  | scratch {event} {phase : CallPhase} {request status retryAfter body token expiry}
    (hreq : phase.request = some request)
    (h : S.handleMetadata status retryAfter body = .ok (token, expiry)) :
    Hop i p (.calling (.metadata event) phase)
      [.answered i request status body, .sent i (S.resolveRequest token p)]
      (.calling (.resolve event token) (.sent (S.resolveRequest token p)))
  /-- It has its scratch token, and cannot look the repository up. -/
  | scratchOnly {event} {phase : CallPhase} {request status retryAfter body token expiry}
    (hreq : phase.request = some request)
    (h : S.handleMetadata status retryAfter body = .ok (token, expiry)) (e : GithubError) :
    Hop i p (.calling (.metadata event) phase) [.answered i request status body]
      (.calling (.revoke event token (.error e)) .building)
  /-- It has been told the id, or that there is none. -/
  | lookUp {event token} {phase : CallPhase} {request status retryAfter body}
    (hreq : phase.request = some request) :
    Hop i p (.calling (.resolve event token) phase) [.answered i request status body]
      (.calling (.revoke event token (S.handleResolve status retryAfter body)) .building)
  /-- It gives the lookup up. -/
  | giveUp {event token phase} (e : GithubError) :
    Hop i p (.calling (.resolve event token) phase) []
      (.calling (.revoke event token (.error e)) .building)
  /-- It fails. -/
  | fail {pc : MintPc} (h : pc.Unguarded) (e : GithubError) :
    Hop i p pc [.returned i p.str (.error e)] .returned

/-- The guard of a resolution goes: the key is released, and whoever waits is woken. -/
def GitHubProvider.release (g : GitHubProvider) (p : RepoPath) (event : EventId)
    (result : Except GithubError ℕ) : GitHubProvider :=
  let ids := match result with
    | .ok repoId => g.repoIds.releaseDone p.key repoId
    | .error _ => g.repoIds.releaseFailed p.key
  GitHubProvider.notify { g with repoIds := ids } event

/-- **A move**: one thing that a mint does. -/
inductive Move : GitHubProvider → List Act → GitHubProvider → Prop
  /-- A path is refused. -/
  | refuse {g : GitHubProvider} {path e} (h : RepoPath.parse path = .error e) :
    Move g [.rejected path e] g
  /-- A mint does something by itself. -/
  | hop {g : GitHubProvider} {i p pc acts pc'} (ht : g.tasks[i]? = some ⟨p, pc⟩)
    (h : Hop S i p pc acts pc') : Move g acts (g.setPc i pc')
  /-- What is due leaves the cache. -/
  | sweep {g : GitHubProvider} (now : SystemTime) :
    Move g [] { g with tokenCache := g.tokenCache.sweep now }
  /-- A mint returns a token from the cache. -/
  | hit {g : GitHubProvider} {i p token expiry response} (ht : g.tasks[i]? = some ⟨p, .running⟩)
    (h : g.tokenCache.Holds p.key token expiry)
    (hr : Response.new Setup.xAccessToken token expiry = .ok response) :
    Move g [.tokenCacheHit i p.key, .returned i p.str (.ok ⟨response⟩)] (g.setPc i .returned)
  /-- The token from the cache is refused. -/
  | panic {g : GitHubProvider} {i p token expiry e} (ht : g.tasks[i]? = some ⟨p, .running⟩)
    (h : g.tokenCache.Holds p.key token expiry)
    (hr : Response.new Setup.xAccessToken token expiry = .error e) :
    Move g [.panicked i] (g.setPc i .returned)
  /-- A mint finds its id in the memo. -/
  | known {g : GitHubProvider} {i p pc id} (ht : g.tasks[i]? = some ⟨p, pc⟩) (hpc : pc.Claiming)
    (h : g.repoIds.Memo p.key id) : Move g [] (g.setPc i (.calling (.mint id) .building))
  /-- A mint finds its key in flight. -/
  | wait {g : GitHubProvider} {i p pc event} (ht : g.tasks[i]? = some ⟨p, pc⟩)
    (hpc : pc.Claiming) (h : g.repoIds.InFlight p.key event) :
    Move g [] (g.setPc i (.waiting event false))
  /-- A mint marks its key, and begins to resolve it. -/
  | lead {g : GitHubProvider} {i p pc ids event} (ht : g.tasks[i]? = some ⟨p, pc⟩)
    (hpc : pc.Claiming) (h : g.repoIds.claim p.key = (ids, .resolve event)) :
    Move g [] (GitHubProvider.setPc { g with repoIds := ids } i
      (.calling (.metadata event) .building))
  /-- A resolution ends. -/
  | release {g : GitHubProvider} {i p endpoint phase event result}
    (ht : g.tasks[i]? = some ⟨p, .calling endpoint phase⟩) (h : endpoint.Ends event result) :
    Move g [.resolved i p.key result] ((g.release p event result).setPc i .running)
  /-- A token is minted. -/
  | minted {g : GitHubProvider} {i p id} {phase : CallPhase}
    {request status retryAfter body outcome} (now : SystemTime)
    (ht : g.tasks[i]? = some ⟨p, .calling (.mint id) phase⟩) (hreq : phase.request = some request)
    (h : S.handleMint status retryAfter body = .ok outcome) :
    Move g [.answered i request status body, .returned i p.str (.ok outcome)]
      ((g.cacheToken p now outcome.response).setPc i .returned)
  /-- The repository is gone. -/
  | gone {g : GitHubProvider} {i p id} {phase : CallPhase} {request status retryAfter body}
    (ht : g.tasks[i]? = some ⟨p, .calling (.mint id) phase⟩) (hreq : phase.request = some request)
    (h : S.handleMint status retryAfter body = .error .repoNotFound) :
    Move g [.answered i request status body, .invalidated i p.key,
      .returned i p.str (.error .repoNotFound)] ((g.forget p).setPc i .returned)

/-- Something is done in moves. -/
def Does (g : GitHubProvider) (r : GitHubProvider × List Act) : Prop :=
  ∃ ms, Lts.Run (Move S) g ms r.1 ∧ ms.flatten = r.2

end Moves

/-! ### Places -/

/-- The paths of the mints, in the order they were called. -/
def GitHubProvider.paths (g : GitHubProvider) : List RepoPath := g.tasks.map MintTask.path

/-- A mint is for a path. -/
def At (g : GitHubProvider) (i : ℕ) (p : RepoPath) : Prop := g.paths[i]? = some p

section Places

variable {g : GitHubProvider} {i : ℕ} {p : RepoPath} {pc pc' : MintPc} {event : EventId}

theorem at_iff : At g i p ↔ ∃ pc, g.tasks[i]? = some ⟨p, pc⟩ := by
  rw [At, GitHubProvider.paths, List.getElem?_map, Option.map_eq_some_iff]
  constructor
  · rintro ⟨⟨q, pc⟩, ht, rfl⟩
    exact ⟨pc, ht⟩
  · rintro ⟨pc, ht⟩
    exact ⟨_, ht, rfl⟩

@[simp] theorem paths_setPc (g : GitHubProvider) (i : ℕ) (pc : MintPc) :
    (g.setPc i pc).paths = g.paths := by
  refine List.ext_getElem? fun j => ?_
  simp only [GitHubProvider.paths, GitHubProvider.setPc, List.getElem?_map, List.getElem?_modify]
  rcases g.tasks[j]? with - | t
  · rfl
  · rcases eq_or_ne i j with rfl | hne
    · simp
    · simp [hne]

@[simp] theorem paths_notify (g : GitHubProvider) (event : EventId) :
    (g.notify event).paths = g.paths := by
  simp only [GitHubProvider.paths, GitHubProvider.notify, List.map_map]
  refine List.map_congr_left fun t _ => ?_
  simp only [Function.comp]
  split
  · split <;> rfl
  · rfl

@[simp] theorem paths_release (g : GitHubProvider) (p : RepoPath) (event : EventId)
    (result : Except GithubError ℕ) : (g.release p event result).paths = g.paths :=
  paths_notify _ event

theorem getElem?_tasks_setPc (g : GitHubProvider) (i : ℕ) (pc : MintPc) :
    (g.setPc i pc).tasks[i]? = g.paths[i]?.map (⟨·, pc⟩) := by
  simp only [GitHubProvider.setPc, GitHubProvider.paths, List.getElem?_modify, if_true,
    List.getElem?_map, Option.map_eq_map, Option.map_map]
  rfl

theorem tasks_setPc_self (hat : At g i p) (pc : MintPc) :
    (g.setPc i pc).tasks[i]? = some ⟨p, pc⟩ := by
  rw [getElem?_tasks_setPc, hat, Option.map_some]

theorem tasks_setPc_of_ne {j : ℕ} (hne : j ≠ i) (pc : MintPc) :
    (g.setPc i pc).tasks[j]? = g.tasks[j]? := by
  simp [GitHubProvider.setPc, Ne.symm hne]

/-- Where a mint was does not matter once it has moved on. -/
theorem tasks_setPc_congr {g' : GitHubProvider} (hpaths : g.paths = g'.paths)
    (hne : ∀ j, j ≠ i → g.tasks[j]? = g'.tasks[j]?) (pc : MintPc) :
    (g.setPc i pc).tasks = (g'.setPc i pc).tasks := by
  refine List.ext_getElem? fun j => ?_
  rcases eq_or_ne j i with rfl | hj
  · rw [getElem?_tasks_setPc, getElem?_tasks_setPc, hpaths]
  · rw [tasks_setPc_of_ne hj, tasks_setPc_of_ne hj, hne j hj]

@[simp] theorem setPc_setPc (g : GitHubProvider) (i : ℕ) (pc pc' : MintPc) :
    (g.setPc i pc).setPc i pc' = g.setPc i pc' := by
  have htasks : ((g.setPc i pc).setPc i pc').tasks = (g.setPc i pc').tasks :=
    tasks_setPc_congr (paths_setPc g i pc) (fun _ hj => tasks_setPc_of_ne hj pc) pc'
  exact congrArg (GitHubProvider.mk g.repoIds g.tokenCache · g.cancelled) htasks

/-- A mint that wakes others may itself have been anywhere. -/
@[simp] theorem setPc_release_setPc (g : GitHubProvider) (i : ℕ) (p : RepoPath)
    (pc pc' : MintPc) (event : EventId) (result : Except GithubError ℕ) :
    ((g.setPc i pc).release p event result).setPc i pc' =
      (g.release p event result).setPc i pc' := by
  have htasks : (((g.setPc i pc).release p event result).setPc i pc').tasks =
      ((g.release p event result).setPc i pc').tasks := by
    refine tasks_setPc_congr ?_ (fun j hj => ?_) pc'
    · rw [paths_release, paths_release, paths_setPc]
    · have htask : (g.setPc i pc).tasks[j]? = g.tasks[j]? := tasks_setPc_of_ne hj pc
      simp only [GitHubProvider.release, GitHubProvider.notify, List.getElem?_map, htask]
  exact congrArg (GitHubProvider.mk (g.release p event result).repoIds g.tokenCache · g.cancelled)
    htasks

end Places

/-! ### The functions of the machine

What a function of the machine does depends on the mint only by its path, so it can be
looked at as if the mint had been moved to a suitable place first. -/

section Functions

variable {S : Setup} {g : GitHubProvider} {i : ℕ} {p : RepoPath} {now : SystemTime}
  {pc : MintPc} {event : EventId} {result : Except GithubError ℕ}

@[simp] theorem finish_setPc (pc : MintPc) (r : Except GithubError MintOutcome) :
    (g.setPc i pc).finish i p r = g.finish i p r := by
  simp [GitHubProvider.finish]

@[simp] theorem finishMint_setPc_error (pc : MintPc) (e : GithubError) :
    (g.setPc i pc).finishMint i p now (.error e) = g.finishMint i p now (.error e) := by
  have hforget : (g.setPc i pc).forget p = (g.forget p).setPc i pc := rfl
  cases e <;> simp [GitHubProvider.finishMint, hforget]

@[simp] theorem beginMint_setPc (pc : MintPc) (id : ℕ) :
    (g.setPc i pc).beginMint i p now id = g.beginMint i p now id := by
  simp only [GitHubProvider.beginMint, finishMint_setPc_error, setPc_setPc]
  rfl

theorem endResolve_error (e : GithubError) : g.endResolve i p now event (.error e) =
    (((g.release p event (.error e)).finish i p (.error e)).1,
      .resolved i p.key (.error e) ::
        ((g.release p event (.error e)).finish i p (.error e)).2) := rfl

theorem endResolve_ok (id : ℕ) : g.endResolve i p now event (.ok id) =
    (((g.release p event (.ok id)).beginMint i p now id).1,
      .resolved i p.key (.ok id) ::
        ((g.release p event (.ok id)).beginMint i p now id).2) := rfl

@[simp] theorem endResolve_setPc (pc : MintPc) :
    (g.setPc i pc).endResolve i p now event result = g.endResolve i p now event result := by
  rcases result with e | id
  · simp only [endResolve_error, GitHubProvider.finish, setPc_release_setPc]
  · have hbegin : ((g.setPc i pc).release p event (.ok id)).beginMint i p now id =
        (g.release p event (.ok id)).beginMint i p now id := by
      rw [← beginMint_setPc .running, setPc_release_setPc, beginMint_setPc]
    rw [endResolve_ok, endResolve_ok, hbegin]

@[simp] theorem beginRevoke_setPc (pc : MintPc) (token : Bytes) :
    (g.setPc i pc).beginRevoke S i p now event token result =
      g.beginRevoke S i p now event token result := by
  simp only [GitHubProvider.beginRevoke, endResolve_setPc, setPc_setPc]
  rfl

/-- A move, and the rest. -/
theorem Does.cons {g₁ : GitHubProvider} {acts : List Act} {r : GitHubProvider × List Act}
    (hm : Move S g acts g₁) (hr : Does S g₁ r) : Does S g (r.1, acts ++ r.2) := by
  obtain ⟨ms, hrun, hflat⟩ := hr
  exact ⟨acts :: ms, .cons hm hrun, by rw [List.flatten_cons, hflat]⟩

/-- One move. -/
theorem Does.single {r : GitHubProvider × List Act} (hm : Move S g r.2 r.1) : Does S g r :=
  ⟨[r.2], .single hm, by simp⟩

/-- A move that nobody sees, and the rest. -/
theorem Does.cons_nil {g₁ : GitHubProvider} {r : GitHubProvider × List Act}
    (hm : Move S g [] g₁) (hr : Does S g₁ r) : Does S g r := Does.cons hm hr

theorem does_fail (ht : g.tasks[i]? = some ⟨p, pc⟩) (hpc : pc.Unguarded) (e : GithubError) :
    Does S g (g.finish i p (.error e)) := .single (.hop ht (.fail hpc e))

/-- An error other than the one that says that the repository is gone. -/
theorem does_finishMint_error (ht : g.tasks[i]? = some ⟨p, pc⟩) (hpc : pc.Unguarded)
    {e : GithubError} (he : e ≠ .repoNotFound) : Does S g (g.finishMint i p now (.error e)) := by
  cases e with
  | repoNotFound => exact absurd rfl he
  | jwtSign | http | parseResponse | malformedPath | unauthorized | forbidden | rateLimited
  | otherStatus | timeout | cancelled => exact does_fail ht hpc _

theorem MintPc.Claiming.unguarded (hpc : pc.Claiming) : pc.Unguarded := by
  unfold MintPc.Claiming at hpc
  split at hpc
  · trivial
  · trivial
  · exact hpc.elim

theorem does_beginMint (ht : g.tasks[i]? = some ⟨p, pc⟩) (hpc : pc.Claiming) {id : ℕ}
    (hid : g.repoIds.Memo p.key id) : Does S g (g.beginMint i p now id) := by
  unfold GitHubProvider.beginMint
  split
  · exact does_finishMint_error ht hpc.unguarded (by simp)
  · exact .single (.known ht hpc hid)

/-- When a resolution has ended, the id is in the memo, or there is none. -/
theorem does_endResolve {endpoint : Endpoint} {phase : CallPhase}
    (ht : g.tasks[i]? = some ⟨p, .calling endpoint phase⟩) (hend : endpoint.Ends event result) :
    Does S g (g.endResolve i p now event result) := by
  have hrelease : Move S g _ _ := .release ht hend
  have hat : At (g.release p event result) i p := by
    rw [At, paths_release]
    exact at_iff.mpr ⟨_, ht⟩
  have hrunning := tasks_setPc_self hat .running
  rcases result with e | id
  · rw [endResolve_error, ← finish_setPc .running]
    exact .cons hrelease (does_fail hrunning trivial e)
  · rw [endResolve_ok, ← beginMint_setPc .running]
    refine .cons hrelease (does_beginMint hrunning trivial ?_)
    exact Finmap.lookup_insert _

theorem does_beginRevoke {token : Bytes}
    (ht : g.tasks[i]? = some ⟨p, .calling (.revoke event token result) .building⟩) :
    Does S g (g.beginRevoke S i p now event token result) := by
  simp only [GitHubProvider.beginRevoke]
  split
  · exact does_endResolve ht ⟨rfl, rfl⟩
  · split
    · exact .single (.hop ht (.send rfl))
    · exact does_endResolve ht ⟨rfl, rfl⟩

/-- The scratch token is given back after something else was done. -/
theorem Does.revoke {token : Bytes} {acts : List Act} (ht : g.tasks[i]? = some ⟨p, pc⟩)
    (hhop : Hop S i p pc acts (.calling (.revoke event token result) .building)) :
    Does S g ((g.beginRevoke S i p now event token result).1,
      acts ++ (g.beginRevoke S i p now event token result).2) := by
  rw [← beginRevoke_setPc (.calling (.revoke event token result) .building)]
  exact .cons (.hop ht hhop) (does_beginRevoke (tasks_setPc_self (at_iff.mpr ⟨_, ht⟩) _))

theorem does_claim (ht : g.tasks[i]? = some ⟨p, pc⟩) (hpc : pc.Claiming) :
    Does S g (g.claim i p now) := by
  have hat : At g i p := at_iff.mpr ⟨_, ht⟩
  unfold GitHubProvider.claim
  obtain ⟨id, hmemo, hclaim⟩ | ⟨event, hflight, hclaim⟩ | ⟨-, hclaim⟩ :=
    g.repoIds.claim_cases p.key
  · rw [hclaim]
    exact does_beginMint ht hpc hmemo
  · rw [hclaim]
    exact .single (.wait ht hpc hflight)
  · have hlead := Move.lead (S := S) ht hpc hclaim
    rw [hclaim]
    simp only
    unfold GitHubProvider.beginMetadata
    split
    · rw [← endResolve_setPc (.calling (.metadata g.repoIds.nextEvent) .building)]
      exact .cons_nil hlead (does_endResolve (tasks_setPc_self hat _) ⟨rfl, _, rfl⟩)
    · exact .single hlead

theorem does_start (ht : g.tasks[i]? = some ⟨p, .running⟩) : Does S g (g.start i p now) := by
  have hsweep : Move S g [] { g with tokenCache := (g.tokenCache.getWithExpiry now p.key).1 } :=
    .sweep now
  refine .cons_nil hsweep ?_
  simp only [GitHubProvider.start]
  split
  · rename_i token expiry hfound
    split
    · rename_i e hr
      exact .single (.panic ht hfound hr)
    · rename_i response hr
      exact .single (.hit ht hfound hr)
  · exact does_claim ht trivial

/-- A call does not fail by saying that the repository is gone. -/
theorem ne_repoNotFound_of_runCall {endpoint : Endpoint} {phase : CallPhase}
    {progress : GitHubProvider.Progress} {e : GithubError}
    (h : g.runCall S endpoint phase progress = some (.failed e)) : e ≠ .repoNotFound := by
  rintro rfl
  unfold GitHubProvider.runCall at h
  split at h
  · cases h
  · split at h
    all_goals (try split at h) <;> (try split at h) <;> cases h

theorem does_afterFailure {endpoint : Endpoint} {phase : CallPhase} {e : GithubError}
    (ht : g.tasks[i]? = some ⟨p, .calling endpoint phase⟩) (he : e ≠ .repoNotFound) :
    Does S g (g.afterFailure S i p now e endpoint) := by
  cases endpoint with
  | metadata event => exact does_endResolve ht ⟨rfl, e, rfl⟩
  | resolve event token => exact Does.revoke ht (.giveUp e)
  | revoke event token result => exact does_endResolve ht ⟨rfl, rfl⟩
  | mint id => exact does_finishMint_error ht trivial he

/-- A mint that waits for a response and gets one. -/
theorem does_afterResponse {endpoint : Endpoint} {phase : CallPhase} {request : HttpRequest}
    (ht : g.tasks[i]? = some ⟨p, .calling endpoint phase⟩) (hreq : phase.request = some request)
    (status : ℕ) (retryAfter : Option ℕ) (body : Bytes) :
    Does S g ((g.afterResponse S i p now status retryAfter body endpoint).1,
      .answered i request status body ::
        (g.afterResponse S i p now status retryAfter body endpoint).2) := by
  have hat : At g i p := at_iff.mpr ⟨_, ht⟩
  -- a response of no use leaves the mint where it is
  have hidle : endpoint.Idle S status retryAfter body →
      Move S g [.answered i request status body] (g.setPc i (.calling endpoint phase)) :=
    fun h => .hop ht (.answer hreq h)
  have hthere := tasks_setPc_self hat (.calling endpoint phase)
  cases endpoint with
  | metadata event =>
    simp only [GitHubProvider.afterResponse]
    split
    · rename_i e herr
      rw [← endResolve_setPc (.calling (.metadata event) phase)]
      exact .cons (hidle ⟨e, herr⟩) (does_endResolve hthere ⟨rfl, e, rfl⟩)
    · rename_i token expiry hok
      simp only [GitHubProvider.beginResolve]
      split
      · exact Does.revoke ht (.scratchOnly hreq hok _)
      · split
        · exact .single (.hop ht (.scratch hreq hok))
        · exact Does.revoke ht (.scratchOnly hreq hok _)
  | resolve event token => exact Does.revoke ht (.lookUp hreq)
  | revoke event token result =>
    simp only [GitHubProvider.afterResponse]
    rw [← endResolve_setPc (.calling (.revoke event token result) phase)]
    exact .cons (hidle trivial) (does_endResolve hthere ⟨rfl, rfl⟩)
  | mint id =>
    simp only [GitHubProvider.afterResponse]
    rcases hmint : S.handleMint status retryAfter body with e | outcome
    · rcases eq_or_ne e .repoNotFound with rfl | hne
      · exact .single (.gone ht hreq hmint)
      · rw [← finishMint_setPc_error (.calling (.mint id) phase)]
        exact .cons (hidle ⟨e, hmint, hne⟩) (does_finishMint_error hthere trivial hne)
    · exact .single (.minted now ht hreq hmint)

theorem not_cancelled_of_runCall {endpoint : Endpoint} {phase : CallPhase}
    {progress : GitHubProvider.Progress} {step : GitHubProvider.CallStep}
    (h : g.runCall S endpoint phase progress = some step) (hne : ∀ e, step ≠ .failed e) :
    g.cancelled = false := by
  unfold GitHubProvider.runCall at h
  split at h
  · cases h
    exact absurd rfl (hne _)
  · rename_i hc
    exact eq_false_of_ne_true hc

/-- **What a step of a call can do to the mint**: the call fails, or, unless the daemon is
shutting down, it sends its request, gets the status, or has its response. -/
theorem advance_cases {endpoint : Endpoint} {phase : CallPhase}
    {progress : GitHubProvider.Progress} {r : GitHubProvider × List Act}
    (hr : g.advance S i p now endpoint phase progress = some r) :
    (∃ e, e ≠ .repoNotFound ∧ r = g.afterFailure S i p now e endpoint) ∨
      g.cancelled = false ∧
        ((∃ jwt request, phase = .building ∧
            GitHubProvider.signedRequest S jwt endpoint = some request ∧
            r = (g.setPc i (.calling endpoint (.sent request)), [.sent i request])) ∨
          (∃ request status retryAfter, phase = .sent request ∧
            r = (g.setPc i (.calling endpoint (.reading request status retryAfter)), [])) ∨
          ∃ request status retryAfter body, phase.request = some request ∧
            r = ((g.afterResponse S i p now status retryAfter body endpoint).1,
              .answered i request status body ::
                (g.afterResponse S i p now status retryAfter body endpoint).2)) := by
  unfold GitHubProvider.advance at hr
  rcases hcall : g.runCall S endpoint phase progress with - | step
  · rw [hcall] at hr
    cases hr
  rw [hcall] at hr
  obtain ⟨e, rfl⟩ | ⟨jwt, request, rfl, hsigned, rfl⟩ | ⟨request, status, retryAfter, rfl, rfl⟩ |
    ⟨request, status, retryAfter, body, hreq, rfl⟩ := GitHubProvider.runCall_cases hcall <;>
    cases hr
  · exact .inl ⟨e, ne_repoNotFound_of_runCall hcall, rfl⟩
  · exact .inr ⟨not_cancelled_of_runCall hcall (by simp),
      .inl ⟨jwt, request, rfl, hsigned, rfl⟩⟩
  · exact .inr ⟨not_cancelled_of_runCall hcall (by simp),
      .inr (.inl ⟨request, status, retryAfter, rfl, rfl⟩)⟩
  · exact .inr ⟨not_cancelled_of_runCall hcall (by simp),
      .inr (.inr ⟨request, status, retryAfter, body, hreq, rfl⟩)⟩

theorem does_advance {endpoint : Endpoint} {phase : CallPhase}
    {progress : GitHubProvider.Progress} {r : GitHubProvider × List Act}
    (ht : g.tasks[i]? = some ⟨p, .calling endpoint phase⟩)
    (hr : g.advance S i p now endpoint phase progress = some r) : Does S g r := by
  obtain ⟨e, hne, rfl⟩ | ⟨-, ⟨jwt, request, rfl, hsigned, rfl⟩ |
    ⟨request, status, retryAfter, rfl, rfl⟩ | ⟨request, status, retryAfter, body, hreq, rfl⟩⟩ :=
    advance_cases hr
  · exact does_afterFailure ht hne
  · refine .single (.hop ht (.send ?_))
    cases endpoint with
    | metadata | mint => exact ⟨jwt, (Option.some.inj hsigned).symm⟩
    | resolve | revoke => cases hsigned
  · exact .single (.hop ht .status)
  · exact does_afterResponse ht hreq status retryAfter body

end Functions

/-! ### What is kept by every move -/

section Effects

variable {S : Setup} {g g' : GitHubProvider} {acts : List Act}

theorem Move.paths_eq (h : Move S g acts g') : g'.paths = g.paths := by
  cases h with
  | release => rw [paths_setPc, paths_release]
  | refuse | sweep => rfl
  | hop | hit | panic | known | wait => rw [paths_setPc]
  | lead | minted | gone =>
    rw [paths_setPc]
    rfl

/-- **What comes into the memo**: an id that a resolution has ended with. -/
theorem Move.memo_cases (h : Move S g acts g') {key : Bytes} {id : ℕ}
    (hm : g'.repoIds.Memo key id) :
    g.repoIds.Memo key id ∨ ∃ i p endpoint phase event,
      g.tasks[i]? = some ⟨p, .calling endpoint phase⟩ ∧ endpoint.Ends event (.ok id) ∧
        p.key = key ∧ acts = [.resolved i key (.ok id)] := by
  cases h with
  | refuse | hop | sweep | hit | panic | known | wait | minted => exact .inl hm
  | @lead i p pc ids event ht hpc hclaim =>
    have hm' : (g.repoIds.claim p.key).1.Memo key id := by rwa [hclaim]
    exact .inl (SingleflightCache.memo_of_claim hm')
  | gone => exact .inl (SingleflightCache.memo_of_invalidate hm)
  | @release i p endpoint phase event result ht hend =>
    rcases result with e | id'
    · exact .inl (SingleflightCache.memo_of_releaseFailed hm)
    · rcases SingleflightCache.memo_of_releaseDone hm with ⟨rfl, rfl⟩ | hm
      · exact .inr ⟨i, p, endpoint, phase, event, ht, hend, rfl, rfl⟩
      · exact .inl hm

/-- **What comes into the cache**: a token that has just been minted. -/
theorem Move.holds_cases (h : Move S g acts g') {key token : Bytes} {expiry : SystemTime}
    (hh : g'.tokenCache.Holds key token expiry) :
    g.tokenCache.Holds key token expiry ∨ ∃ i p id phase request status retryAfter body outcome,
      g.tasks[i]? = some ⟨p, .calling (.mint id) phase⟩ ∧ phase.request = some request ∧
        S.handleMint status retryAfter body = .ok outcome ∧ p.key = key ∧
        outcome.response.password = token ∧ outcome.response.passwordExpiryUtc = expiry ∧
        acts = [.answered i request status body, .returned i p.str (.ok outcome)] := by
  cases h with
  | refuse | hop | hit | panic | known | wait | lead | release => exact .inl hh
  | sweep now => exact .inl (TtlCache.holds_sweep_iff.mp hh).1
  | gone => exact .inl (TtlCache.holds_invalidate_iff.mp hh).2
  | @minted i p id phase request status retryAfter body outcome now ht hreq hmint =>
    have hins := TtlCache.holds_insert_iff.mp hh
    split at hins
    · rename_i hkey
      exact .inr ⟨i, p, id, phase, request, status, retryAfter, body, outcome, ht, hreq, hmint,
        hkey.symm, hins.1, hins.2, rfl⟩
    · exact .inl hins.1

/-- Only the mint that moves goes elsewhere. -/
theorem tasks_of_setPc {i j : ℕ} {p q : RepoPath} {pc pc' : MintPc} (hat : At g i p)
    (h : (g.setPc i pc).tasks[j]? = some ⟨q, pc'⟩) :
    j = i ∧ q = p ∧ pc' = pc ∨ g.tasks[j]? = some ⟨q, pc'⟩ := by
  rcases eq_or_ne j i with rfl | hne
  · rw [tasks_setPc_self hat] at h
    cases h
    exact .inl ⟨rfl, rfl, rfl⟩
  · rw [tasks_setPc_of_ne hne] at h
    exact .inr h

/-- A mint in a call is not woken by anyone. -/
theorem calling_of_release {p q : RepoPath} {event : EventId} {result : Except GithubError ℕ}
    {j : ℕ} {endpoint : Endpoint} {phase : CallPhase}
    (h : (g.release p event result).tasks[j]? = some ⟨q, .calling endpoint phase⟩) :
    g.tasks[j]? = some ⟨q, .calling endpoint phase⟩ := by
  simp only [GitHubProvider.release, GitHubProvider.notify, List.getElem?_map,
    Option.map_eq_some_iff] at h
  obtain ⟨t, ht, heq⟩ := h
  refine ht.trans (congrArg some ?_)
  split at heq
  · split at heq
    · cases heq
    · exact heq
  · exact heq

/-- **How a mint comes into a call**: by itself; with an id from the memo; or as the one to
resolve its key. -/
theorem Move.calling_cases (h : Move S g acts g') {j : ℕ} {q : RepoPath} {endpoint : Endpoint}
    {phase : CallPhase} (hc : g'.tasks[j]? = some ⟨q, .calling endpoint phase⟩) :
    g.tasks[j]? = some ⟨q, .calling endpoint phase⟩ ∨
      (∃ pc, g.tasks[j]? = some ⟨q, pc⟩ ∧ Hop S j q pc acts (.calling endpoint phase)) ∨
      (∃ id, endpoint = .mint id ∧ phase = .building ∧ g.repoIds.Memo q.key id) ∨
      ∃ event, endpoint = .metadata event ∧ phase = .building := by
  -- the mint that moves, if it does not move into a call
  have hout : ∀ {g₁ : GitHubProvider} {i p pc}, At g₁ i p → (∀ e ph, pc ≠ .calling e ph) →
      (g₁.setPc i pc).tasks[j]? = some ⟨q, .calling endpoint phase⟩ →
      g₁.tasks[j]? = some ⟨q, .calling endpoint phase⟩ := by
    intro g₁ i p pc hat hne hset
    obtain ⟨-, -, hpc⟩ | hold := tasks_of_setPc hat hset
    · exact absurd hpc.symm (hne _ _)
    · exact hold
  cases h with
  | @hop i p pc acts pc' ht hhop =>
    obtain ⟨rfl, rfl, rfl⟩ | hold := tasks_of_setPc (at_iff.mpr ⟨_, ht⟩) hc
    · exact .inr (.inl ⟨pc, ht, hhop⟩)
    · exact .inl hold
  | refuse | sweep => exact .inl hc
  | hit ht | panic ht | wait ht => exact .inl (hout (at_iff.mpr ⟨_, ht⟩) (by simp) hc)
  | minted now ht | gone ht => exact .inl (hout (at_iff.mpr ⟨_, ht⟩) (by simp) hc)
  | @known i p pc id ht hpc hmemo =>
    obtain ⟨rfl, rfl, hcall⟩ | hold := tasks_of_setPc (at_iff.mpr ⟨_, ht⟩) hc
    · cases hcall
      exact .inr (.inr (.inl ⟨id, rfl, rfl, hmemo⟩))
    · exact .inl hold
  | @lead i p pc ids event ht hpc hclaim =>
    have hat : At { g with repoIds := ids } i p := at_iff.mpr ⟨_, ht⟩
    obtain ⟨rfl, rfl, hcall⟩ | hold := tasks_of_setPc hat hc
    · cases hcall
      exact .inr (.inr (.inr ⟨event, rfl, rfl⟩))
    · exact .inl hold
  | @release i p endpoint' phase' event result ht hend =>
    have hat : At (g.release p event result) i p := by
      rw [At, paths_release]
      exact at_iff.mpr ⟨_, ht⟩
    exact .inl (calling_of_release (hout hat (by simp) hc))

end Effects

/-! ### Steps -/

/-- The path of a call of `mint` that was accepted. -/
def Event.accepted : Event → Option RepoPath
  | .mint path _ => (RepoPath.parse path).toOption
  | _ => none

/-- The paths of the calls that were accepted. -/
def called (ls : List Label) : List RepoPath := ls.filterMap fun l => l.1.accepted

theorem called_snoc (ls : List Label) (l : Label) :
    called (ls ++ [l]) = called ls ++ l.1.accepted.toList := by
  rw [called, called, List.filterMap_append]
  rcases hl : l.1.accepted with - | p
  · simp [hl]
  · simp [hl]

theorem actsOf_snoc (ls : List Label) (l : Label) : actsOf (ls ++ [l]) = actsOf ls ++ l.2 := by
  simp [actsOf]

/-- A call of `mint`. -/
def GitHubProvider.enter (g : GitHubProvider) (p : RepoPath) : GitHubProvider :=
  { g with tasks := g.tasks ++ [⟨p, .running⟩] }

/-- **What may lapse**: ids and tokens may be forgotten, calls may end, and mints may be
called. -/
structure Lapse (g g' : GitHubProvider) : Prop where
  /-- No id is new. -/
  memo : ∀ {key id}, g'.repoIds.Memo key id → g.repoIds.Memo key id
  /-- No token is new. -/
  holds : ∀ {key token expiry}, g'.tokenCache.Holds key token expiry →
    g.tokenCache.Holds key token expiry
  /-- No call is new. -/
  calling : ∀ {j : ℕ} {q endpoint phase}, g'.tasks[j]? = some ⟨q, .calling endpoint phase⟩ →
    g.tasks[j]? = some ⟨q, .calling endpoint phase⟩
  /-- Every mint stays with its path. -/
  paths : g.paths <+: g'.paths

section Steps

variable {S : Setup} {g g' : GitHubProvider} {l : Label}

theorem paths_enter (g : GitHubProvider) (p : RepoPath) : (g.enter p).paths = g.paths ++ [p] := by
  simp [GitHubProvider.paths, GitHubProvider.enter]

theorem tasks_enter_self (g : GitHubProvider) (p : RepoPath) :
    (g.enter p).tasks[g.tasks.length]? = some ⟨p, .running⟩ := by
  simp [GitHubProvider.enter]

/-- A new mint is not in a call. -/
theorem calling_of_enter {p q : RepoPath} {j : ℕ} {endpoint : Endpoint} {phase : CallPhase}
    (h : (g.enter p).tasks[j]? = some ⟨q, .calling endpoint phase⟩) :
    g.tasks[j]? = some ⟨q, .calling endpoint phase⟩ := by
  rcases Nat.lt_or_ge j g.tasks.length with hlt | hge
  · rwa [GitHubProvider.enter, List.getElem?_append_left hlt] at h
  · rw [GitHubProvider.enter, List.getElem?_append_right hge] at h
    obtain ⟨hlt, hget⟩ := List.getElem?_eq_some_iff.mp h
    simp at hget

theorem Lapse.refl (g : GitHubProvider) : Lapse g g := ⟨id, id, id, List.prefix_rfl⟩

theorem Lapse.enter (g : GitHubProvider) (p : RepoPath) : Lapse g (g.enter p) :=
  ⟨id, id, calling_of_enter, paths_enter g p ▸ List.prefix_append _ _⟩

/-- A mint that is dropped. -/
theorem Lapse.dropped {i : ℕ} {p : RepoPath} (hat : At g i p) : Lapse g (g.setPc i .dropped) := by
  refine ⟨id, id, fun ht => ?_, by rw [paths_setPc]⟩
  obtain ⟨-, -, hpc⟩ | hold := tasks_of_setPc hat ht
  · cases hpc
  · exact hold

/-- A mint that is dropped with the guard it holds. -/
theorem Lapse.abandoned {i : ℕ} {p : RepoPath} (hat : At g i p) (event : EventId)
    (e : GithubError) : Lapse g ((g.release p event (.error e)).setPc i .dropped) := by
  have hat' : At (g.release p event (.error e)) i p := by rwa [At, paths_release]
  have hdropped := Lapse.dropped hat'
  refine ⟨fun hm => SingleflightCache.memo_of_releaseFailed (hdropped.memo hm), id,
    fun hc => calling_of_release (hdropped.calling hc), ?_⟩
  rw [paths_setPc, paths_release]

theorem paths_drop (g : GitHubProvider) (i : ℕ) (p : RepoPath) (pc : MintPc) :
    (g.drop i p pc).paths = g.paths := by
  unfold GitHubProvider.drop
  split
  · rw [paths_setPc, paths_notify]
    rfl
  · rw [paths_setPc, paths_notify]
    rfl
  · rw [paths_setPc, paths_notify]
    rfl
  · rw [paths_setPc]

theorem Lapse.drop {i : ℕ} {p : RepoPath} (hat : At g i p) (pc : MintPc) :
    Lapse g (g.drop i p pc) := by
  unfold GitHubProvider.drop
  split
  · exact .abandoned hat _ .cancelled
  · exact .abandoned hat _ .cancelled
  · exact .abandoned hat _ .cancelled
  · exact .dropped hat

/-- **A step of the machine is made of moves**, after something may have lapsed. -/
theorem next_cases (hn : Lts.ofFun (next S) g l g') :
    ∃ g₁, Lapse g g₁ ∧ g₁.paths = g.paths ++ l.1.accepted.toList ∧ Does S g₁ (g', l.2) := by
  obtain ⟨e, acts⟩ := l
  simp only [Lts.ofFun] at hn
  -- a step in which no mint runs
  have hquiet : e.accepted = none → Lapse g g' → g'.paths = g.paths → acts = [] →
      ∃ g₁, Lapse g g₁ ∧ g₁.paths = g.paths ++ e.accepted.toList ∧ Does S g₁ (g', acts) := by
    rintro he hlapse hpaths rfl
    exact ⟨g', hlapse, by simp [he, hpaths], [], .nil _, rfl⟩
  -- a step in which a mint that had been called runs
  have hruns : e.accepted = none → Does S g (g', acts) →
      ∃ g₁, Lapse g g₁ ∧ g₁.paths = g.paths ++ e.accepted.toList ∧ Does S g₁ (g', acts) :=
    fun he hdoes => ⟨g, .refl g, by simp [he], hdoes⟩
  cases e with
  | mint path now =>
    simp only [next] at hn
    split at hn
    · rename_i e hparse
      cases hn
      have hnone : (Event.mint path now).accepted = none := by
        simp [Event.accepted, hparse, Except.toOption]
      exact hruns hnone (.single (.refuse hparse))
    · rename_i p hparse
      have hstart : Does S (g.enter p) ((g.enter p).start g.tasks.length p now) :=
        does_start (tasks_enter_self g p)
      refine ⟨g.enter p, .enter g p, ?_, Option.some.inj hn ▸ hstart⟩
      simp [paths_enter, Event.accepted, hparse, Except.toOption]
  | wake i now =>
    simp only [next] at hn
    split at hn
    · rename_i p event ht
      have hclaim : Does S g (g.claim i p now) := does_claim ht trivial
      exact hruns rfl (Option.some.inj hn ▸ hclaim)
    · cases hn
  | progress i progress now =>
    simp only [next] at hn
    split at hn
    · rename_i p endpoint phase ht
      exact hruns rfl (does_advance ht hn)
    · cases hn
  | drop i =>
    have hdrop : ∀ {p pc}, g.tasks[i]? = some ⟨p, pc⟩ → g' = g.drop i p pc → acts = [] →
        ∃ g₁, Lapse g g₁ ∧ g₁.paths = g.paths ++ (Event.drop i).accepted.toList ∧
          Does S g₁ (g', acts) := by
      rintro p pc ht rfl hacts
      exact hquiet rfl (.drop (at_iff.mpr ⟨_, ht⟩) pc) (paths_drop g i p pc) hacts
    simp only [next] at hn
    split at hn
    · rename_i p event notified ht
      cases hn
      exact hdrop ht rfl rfl
    · rename_i p endpoint phase ht
      cases hn
      exact hdrop ht rfl rfl
    · cases hn
  | shutdown =>
    cases hn
    exact hquiet rfl ⟨id, id, id, List.prefix_rfl⟩ rfl rfl
  | invalidateRepoId key =>
    cases hn
    exact hquiet rfl ⟨SingleflightCache.memo_of_invalidate, id, id, List.prefix_rfl⟩ rfl rfl
  | invalidateToken key =>
    cases hn
    exact hquiet rfl ⟨id, fun hh => (TtlCache.holds_invalidate_iff.mp hh).2, id, List.prefix_rfl⟩
      rfl rfl

variable (S) in
/-- **A run, move by move.** -/
inductive Turn : GitHubProvider → List Act → GitHubProvider → Prop
  /-- A move. -/
  | move {g₁ acts g₂} (h : Move S g₁ acts g₂) : Turn g₁ acts g₂
  /-- Something lapses. -/
  | lapse {g₁ g₂} (h : Lapse g₁ g₂) : Turn g₁ [] g₂

/-- What is seen is seen of a move. -/
theorem Turn.move_of_ne_nil {acts : List Act} (h : Turn S g acts g') (hne : acts ≠ []) :
    Move S g acts g' := by
  cases h with
  | move h => exact h
  | lapse => exact absurd rfl hne

/-- What a step does, move by move. -/
theorem turns_of_step (hn : Lts.ofFun (next S) g l g') :
    ∃ ms, Lts.Run (Turn S) g ms g' ∧ ms.flatten = l.2 := by
  obtain ⟨g₁, hlapse, -, ms, hrun, hflat⟩ := next_cases hn
  exact ⟨[] :: ms, .cons (.lapse hlapse) (hrun.mono fun _ _ _ => .move), hflat⟩

/-- What a run does, move by move. -/
theorem turns_of_run {ls : List Label} (hrun : Run S g ls g') :
    ∃ ms, Lts.Run (Turn S) g ms g' ∧ ms.flatten = actsOf ls := by
  induction hrun with
  | nil => exact ⟨[], .nil _, rfl⟩
  | @cons g g₁ g' l ls hstep _ ih =>
    obtain ⟨ms, hms, hflat⟩ := turns_of_step hstep
    obtain ⟨ms', hms', hflat'⟩ := ih
    refine ⟨ms ++ ms', hms.append hms', ?_⟩
    rw [List.flatten_append, hflat, hflat', actsOf, actsOf, List.flatMap_cons]

/-- Mints keep their paths. -/
theorem paths_prefix_of_turns {ms : List (List Act)} (hrun : Lts.Run (Turn S) g ms g') :
    g.paths <+: g'.paths := by
  refine hrun.invariant (I := fun g' => g.paths <+: g'.paths) ?_ List.prefix_rfl
  rintro g₁ acts g₂ hpre (hmove | hlapse)
  · rwa [hmove.paths_eq]
  · exact hpre.trans hlapse.paths

theorem At.turns {i : ℕ} {p : RepoPath} {ms : List (List Act)} (hat : At g i p)
    (hrun : Lts.Run (Turn S) g ms g') : At g' i p := by
  obtain ⟨new, hnew⟩ := paths_prefix_of_turns hrun
  obtain ⟨hlt, -⟩ := List.getElem?_eq_some_iff.mp hat
  rwa [At, ← hnew, List.getElem?_append_left hlt]

/-- The history rule for what has been seen. -/
theorem keeps_of_turns {P : List Act → GitHubProvider → Prop}
    (hmove : ∀ h g acts g', P h g → Move S g acts g' → P (h ++ acts) g')
    (hlapse : ∀ h g g', P h g → Lapse g g' → P h g') {ms : List (List Act)}
    (hrun : Lts.Run (Turn S) g ms g') {h : List Act} (hP : P h g) : P (h ++ ms.flatten) g' := by
  refine hrun.history (P := fun ms g => P (h ++ ms.flatten) g) ?_ (by simpa using hP)
  rintro past g₁ acts g₂ hpast (hm | hl)
  · simpa using hmove _ _ _ _ hpast hm
  · simpa using hlapse _ _ _ hpast hl

/-! ### What calls are for -/

variable (S) in
/-- Every request under way is one of its call. -/
def Asked (g : GitHubProvider) : Prop :=
  ∀ ⦃i : ℕ⦄ ⦃p endpoint phase request⦄, g.tasks[i]? = some ⟨p, .calling endpoint phase⟩ →
    phase.request = some request → endpoint.Requests S p request

theorem Asked.move {acts : List Act} (h : Asked S g) (hmove : Move S g acts g') :
    Asked S g' := by
  intro i p endpoint phase request ht hreq
  obtain hold | ⟨pc, ht', hhop⟩ | ⟨id, rfl, rfl, -⟩ | ⟨event, rfl, rfl⟩ := hmove.calling_cases ht
  · exact h hold hreq
  · cases hhop with
    | send hrequests =>
      cases hreq
      exact hrequests
    | status => exact h ht' hreq
    | answer => exact h ht' hreq
    | scratch =>
      cases hreq
      rfl
    | scratchOnly | lookUp | giveUp => cases hreq
  · cases hreq
  · cases hreq

theorem Asked.turns {ms : List (List Act)} (h : Asked S g) (hrun : Lts.Run (Turn S) g ms g') :
    Asked S g' :=
  keeps_of_turns (P := fun _ g => Asked S g) (fun _ _ _ _ h hmove => h.move hmove)
    (fun _ _ _ h hlapse _ _ _ _ _ ht hreq => h (hlapse.calling ht) hreq) hrun (h := []) h

theorem asked_of_run {ls : List Label} (hrun : Run S .new ls g) : Asked S g := by
  obtain ⟨ms, hturns, -⟩ := turns_of_run hrun
  refine Asked.turns ?_ hturns
  intro i p endpoint phase request ht
  cases ht

end Steps

end GitHub

end Symbolon
