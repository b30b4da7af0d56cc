import Symbolon.Providers.GitHub.Invalidation

/-!
# What becomes of a scratch token

`with_metadata_token` gets a token that reads every repository, hands it to the lookup, and
gives it back with a `DELETE`, “regardless of whether `work` succeeded, failed, or
panicked-mid-await”. It does so after the lookup has *ended*, however it ended. A lookup that is
dropped, because the handler that waits for the mint has run out of time, does not end; and the
`DELETE` goes through `run_call`, which looks at the shutdown before it builds the request.

As far as its scratch token goes, a mint is at one of three stages (`Symbolon.GitHub.Stage`),
and a step does one of a few things (`Symbolon.GitHub.Handles`). So a mint gets at most one
scratch token and sends at most one `DELETE`, which is for that token; and it sends it
**exactly when it is not cut off during the lookup, and the HTTP client takes the request**
(`Symbolon.GitHub.scratch_revoked_iff`). To be cut off is to be dropped, or to go on after the
shutdown has begun (`Symbolon.GitHub.Cut`); either way the token is left to expire
(`Symbolon.GitHub.exists_scratch_leaked`).
-/

namespace Symbolon

open Text

namespace GitHub

/-! ### Stages -/

/-- How far a mint is with its scratch token. -/
inductive Stage
  /-- It has none yet. -/
  | early
  /-- It has one, and looks the repository up with it. -/
  | resolving (token : Bytes)
  /-- It will not use one any more. -/
  | past
  deriving DecidableEq

/-- The stage of a place. -/
def MintPc.stage : MintPc → Stage
  | .running | .waiting .. | .calling (.metadata _) _ => .early
  | .calling (.resolve _ token) _ => .resolving token
  | .calling (.revoke ..) _ | .calling (.mint _) _ | .returned | .dropped => .past

/-- The stage of a mint, which may not have been called yet. -/
def stageOf (g : GitHubProvider) (i : ℕ) : Stage :=
  match g.tasks[i]? with
  | none => .early
  | some t => t.pc.stage

section Stages

variable {g : GitHubProvider} {i j : ℕ} {p : RepoPath} {pc : MintPc}

theorem stageOf_of_tasks (ht : g.tasks[i]? = some ⟨p, pc⟩) : stageOf g i = pc.stage := by
  rw [stageOf, ht]

theorem stageOf_setPc_self (hat : At g i p) (pc : MintPc) :
    stageOf (g.setPc i pc) i = pc.stage :=
  stageOf_of_tasks (tasks_setPc_self hat pc)

theorem stageOf_setPc_of_ne (h : j ≠ i) (pc : MintPc) :
    stageOf (g.setPc i pc) j = stageOf g j := by
  rw [stageOf, stageOf, tasks_setPc_of_ne h]

/-- To be woken is not to move on. -/
theorem stageOf_notify (event : EventId) : stageOf (g.notify event) j = stageOf g j := by
  simp only [stageOf, GitHubProvider.notify, List.getElem?_map]
  rcases g.tasks[j]? with - | ⟨q, pc⟩
  · rfl
  · simp only [Option.map_some]
    split
    · split <;> rfl
    · rfl

theorem stageOf_release {event : EventId} {result : Except GithubError ℕ} :
    stageOf (g.release p event result) j = stageOf g j := stageOf_notify event

theorem stageOf_enter : stageOf (g.enter p) j = stageOf g j := by
  simp only [stageOf, GitHubProvider.enter]
  rcases Nat.lt_trichotomy j g.tasks.length with hlt | rfl | hgt
  · rw [List.getElem?_append_left hlt]
  · simp [MintPc.stage]
  · rw [List.getElem?_append_right hgt.le, List.getElem?_eq_none hgt.le,
      List.getElem?_eq_none (by simp; omega)]

end Stages

/-! ### What is seen of a scratch token -/

/-- The mint that does something. -/
def Act.task : Act → Option ℕ
  | .rejected .. => none
  | .tokenCacheHit i _ | .panicked i | .sent i _ | .answered i .. | .resolved i .. |
    .invalidated i _ | .returned i .. => some i

section Seen

variable (S : Setup) (i : ℕ)

/-- The scratch token that a mint is given: `mint_metadata_token` returns it. -/
def tokenOf : Act → Option Bytes
  | .answered j request status body =>
    if j = i ∧ request = S.metadataRequest request.bearer then
      (S.handleMetadata status none body).toOption.map Prod.fst
    else none
  | _ => none

/-- The `DELETE` that a mint sends. -/
def deleteOf : Act → Option HttpRequest
  | .sent j request => if j = i ∧ request.method = .delete then some request else none
  | _ => none

/-- The scratch tokens that a mint is given. -/
def tokens (acts : List Act) : List Bytes := acts.filterMap (tokenOf S i)

/-- The `DELETE`s that a mint sends. -/
def deletes (acts : List Act) : List HttpRequest := acts.filterMap (deleteOf i)

variable {S i} {a : Act} {acts : List Act}

theorem tokenOf_of_task_ne (h : a.task ≠ some i) : tokenOf S i a = none := by
  cases a with
  | answered j request status body =>
    have hj : j ≠ i := fun hj => h (congrArg some hj)
    rw [tokenOf, if_neg fun h => hj h.1]
  | _ => rfl

theorem deleteOf_of_task_ne (h : a.task ≠ some i) : deleteOf i a = none := by
  cases a with
  | sent j request =>
    have hj : j ≠ i := fun hj => h (congrArg some hj)
    rw [deleteOf, if_neg fun h => hj h.1]
  | _ => rfl

theorem tokens_of_task_ne (h : ∀ a ∈ acts, a.task ≠ some i) : tokens S i acts = [] :=
  List.filterMap_eq_nil_iff.mpr fun a ha => tokenOf_of_task_ne (h a ha)

theorem deletes_of_task_ne (h : ∀ a ∈ acts, a.task ≠ some i) : deletes i acts = [] :=
  List.filterMap_eq_nil_iff.mpr fun a ha => deleteOf_of_task_ne (h a ha)

theorem tokens_cons : tokens S i (a :: acts) = (tokenOf S i a).toList ++ tokens S i acts := by
  rw [tokens, List.filterMap_cons]
  cases tokenOf S i a <;> rfl

theorem deletes_cons : deletes i (a :: acts) = (deleteOf i a).toList ++ deletes i acts := by
  rw [deletes, List.filterMap_cons]
  cases deleteOf i a <;> rfl

theorem tokens_append (acts' : List Act) :
    tokens S i (acts ++ acts') = tokens S i acts ++ tokens S i acts' := List.filterMap_append

theorem deletes_append (acts' : List Act) :
    deletes i (acts ++ acts') = deletes i acts ++ deletes i acts' := List.filterMap_append

/-- Only the errors tell when to try again. -/
theorem toOption_handleMetadata (status : ℕ) (retryAfter : Option ℕ) (body : Bytes) :
    (S.handleMetadata status none body).toOption =
      (S.handleMetadata status retryAfter body).toOption := by
  unfold Setup.handleMetadata
  split <;> rfl

/-- A request for a scratch token that is answered with one. -/
theorem tokenOf_metadataRequest {jwt token body : Bytes} {expiry : SystemTime} {status : ℕ}
    {retryAfter : Option ℕ} (h : S.handleMetadata status retryAfter body = .ok (token, expiry)) :
    tokenOf S i (.answered i (S.metadataRequest jwt) status body) = some token := by
  rw [tokenOf, if_pos ⟨rfl, rfl⟩, toOption_handleMetadata status retryAfter, h]
  rfl

theorem tokenOf_metadataRequest_error {jwt body : Bytes} {e : GithubError} {status : ℕ}
    {retryAfter : Option ℕ} (h : S.handleMetadata status retryAfter body = .error e) :
    tokenOf S i (.answered i (S.metadataRequest jwt) status body) = none := by
  rw [tokenOf, if_pos ⟨rfl, rfl⟩, toOption_handleMetadata status retryAfter, h]
  rfl

/-- The other calls are not answered with one. -/
theorem tokenOf_of_requests {p : RepoPath} {endpoint : Endpoint} {request : HttpRequest}
    (hreq : endpoint.Requests S p request) (hne : ∀ event, endpoint ≠ .metadata event) (j : ℕ)
    (status : ℕ) (body : Bytes) : tokenOf S i (.answered j request status body) = none := by
  rw [tokenOf, if_neg]
  rintro ⟨-, heq⟩
  cases endpoint with
  | metadata event => exact hne event rfl
  | resolve | revoke =>
    cases hreq
    exact HttpMethod.noConfusion (congrArg HttpRequest.method heq)
  | mint id =>
    obtain ⟨jwt, rfl⟩ := hreq
    exact Setup.metadataRequest_body_ne _ id (congrArg HttpRequest.body heq).symm

end Seen

/-! ### What a function of the machine does about it -/

variable (S : Setup)

/-- **What a mint has done**: it has come to a stage, with these tokens and `DELETE`s, and
nobody else has moved on. -/
structure Leaves (i : ℕ) (g : GitHubProvider) (r : GitHubProvider × List Act) (stage : Stage)
    (toks : List Bytes) (dels : List HttpRequest) : Prop where
  /-- The other mints are where they were. -/
  others : ∀ j, j ≠ i → stageOf r.1 j = stageOf g j
  /-- The stage. -/
  own : stageOf r.1 i = stage
  /-- Nobody else is seen. -/
  task : ∀ a ∈ r.2, a.task = some i
  /-- The tokens. -/
  tokens_eq : tokens S i r.2 = toks
  /-- The `DELETE`s. -/
  deletes_eq : deletes i r.2 = dels

/-- **The scratch token is given back**, unless something is broken: the `DELETE` is sent if
the HTTP client takes it. -/
def GivesBack (token : Bytes) (broken : Prop) (dels : List HttpRequest) : Prop :=
  (S.accepts (S.revokeRequest token) = true ∧ ¬broken → dels = [S.revokeRequest token]) ∧
    (¬(S.accepts (S.revokeRequest token) = true ∧ ¬broken) → dels = [])

section Functions

variable {S} {g g₁ : GitHubProvider} {i : ℕ} {p : RepoPath} {now : SystemTime} {event : EventId}
  {r : GitHubProvider × List Act} {stage : Stage} {toks : List Bytes} {dels : List HttpRequest}

theorem Leaves.setPc (hat : At g i p) (pc : MintPc) :
    Leaves S i g (g.setPc i pc, []) pc.stage [] [] where
  others _ h := stageOf_setPc_of_ne h pc
  own := stageOf_setPc_self hat pc
  task _ h := absurd h List.not_mem_nil
  tokens_eq := rfl
  deletes_eq := rfl

/-- Something is seen first. -/
theorem Leaves.cons (h : Leaves S i g r stage toks dels) (a : Act) (ha : a.task = some i) :
    Leaves S i g (r.1, a :: r.2) stage ((tokenOf S i a).toList ++ toks)
      ((deleteOf i a).toList ++ dels) where
  others := h.others
  own := h.own
  task := List.forall_mem_cons.mpr ⟨ha, h.task⟩
  tokens_eq := by rw [tokens_cons, h.tokens_eq]
  deletes_eq := by rw [deletes_cons, h.deletes_eq]

/-- And it is neither. -/
theorem Leaves.cons_other (h : Leaves S i g r stage toks dels) (a : Act) (ha : a.task = some i)
    (ht : tokenOf S i a = none) (hd : deleteOf i a = none) :
    Leaves S i g (r.1, a :: r.2) stage toks dels := by
  simpa only [ht, hd, Option.toList_none, List.nil_append] using h.cons a ha

/-- Something else has changed before. -/
theorem Leaves.congr (h : Leaves S i g₁ r stage toks dels)
    (hg : ∀ j, stageOf g₁ j = stageOf g j) : Leaves S i g r stage toks dels :=
  { h with others := fun j hj => (h.others j hj).trans (hg j) }

theorem leaves_finish (hat : At g i p) (result : Except GithubError MintOutcome) :
    Leaves S i g (g.finish i p result) .past [] [] :=
  (Leaves.setPc hat .returned).cons _ rfl

theorem leaves_finishMint (hat : At g i p) (result : Except GithubError MintOutcome) :
    Leaves S i g (g.finishMint i p now result) .past [] [] := by
  rcases result with e | outcome
  · cases e with
    | repoNotFound =>
      exact ((leaves_finish (g := g.forget p) hat _).congr (g := g) fun _ => rfl).cons _ rfl
    | _ => exact leaves_finish hat _
  · exact (leaves_finish (g := g.cacheToken p now outcome.response) hat _).congr fun _ => rfl

theorem leaves_beginMint (hat : At g i p) (repoId : ℕ) :
    Leaves S i g (g.beginMint i p now repoId) .past [] [] := by
  unfold GitHubProvider.beginMint
  split
  · exact leaves_finishMint hat _
  · exact Leaves.setPc hat _

theorem leaves_endResolve (hat : At g i p) (now : SystemTime) (event : EventId)
    (result : Except GithubError ℕ) :
    Leaves S i g (g.endResolve i p now event result) .past [] [] := by
  have hat' : At (g.release p event result) i p := by rwa [At, paths_release]
  rcases result with e | id
  · rw [endResolve_error]
    exact ((leaves_finish hat' _).congr fun _ => stageOf_release).cons _ rfl
  · rw [endResolve_ok]
    exact ((leaves_beginMint hat' id).congr fun _ => stageOf_release).cons _ rfl

theorem leaves_beginRevoke (hat : At g i p) (now : SystemTime) (event : EventId) (token : Bytes)
    (result : Except GithubError ℕ) :
    ∃ dels, GivesBack S token (g.cancelled = true) dels ∧
      Leaves S i g (g.beginRevoke S i p now event token result) .past [] dels := by
  simp only [GitHubProvider.beginRevoke]
  split
  · rename_i hc
    exact ⟨[], ⟨fun h => absurd hc h.2, fun _ => rfl⟩, leaves_endResolve hat now event result⟩
  · rename_i hc
    split
    · rename_i ha
      refine ⟨[S.revokeRequest token], ⟨fun _ => rfl, fun h => absurd ⟨ha, hc⟩ h⟩, ?_⟩
      have h := (Leaves.setPc (S := S) hat (.calling (.revoke event token result)
        (.sent (S.revokeRequest token)))).cons (.sent i (S.revokeRequest token)) rfl
      rwa [deleteOf, if_pos ⟨rfl, rfl⟩] at h
    · rename_i ha
      exact ⟨[], ⟨fun h => absurd h.1 ha, fun _ => rfl⟩, leaves_endResolve hat now event result⟩

theorem leaves_beginResolve (hat : At g i p) (hc : g.cancelled = false) (now : SystemTime)
    (event : EventId) (token : Bytes) :
    Leaves S i g (g.beginResolve S i p now event token) (.resolving token) [] [] ∨
      ∃ dels, GivesBack S token False dels ∧
        Leaves S i g (g.beginResolve S i p now event token) .past [] dels := by
  have hback : ∀ {dels}, GivesBack S token (g.cancelled = true) dels →
      GivesBack S token False dels := fun h => by simpa [hc] using h
  simp only [GitHubProvider.beginResolve, hc, Bool.false_eq_true, if_false]
  split
  · left
    exact (Leaves.setPc hat _).cons_other (.sent i (S.resolveRequest token p)) rfl rfl
      (if_neg fun h => HttpMethod.noConfusion h.2)
  · right
    obtain ⟨dels, hb, h⟩ := leaves_beginRevoke (S := S) hat now event token (.error .http)
    exact ⟨dels, hback hb, h⟩

/-- Before there is a scratch token, and when there will be none. -/
theorem leaves_beginMetadata (hat : At g i p) (now : SystemTime) (event : EventId) :
    ∃ stage, (stage = .early ∨ stage = .past) ∧
      Leaves S i g (g.beginMetadata i p now event) stage [] [] := by
  unfold GitHubProvider.beginMetadata
  split
  · exact ⟨.past, .inr rfl, leaves_endResolve hat now event _⟩
  · exact ⟨.early, .inl rfl, Leaves.setPc hat _⟩

theorem leaves_claim (hat : At g i p) (now : SystemTime) :
    ∃ stage, (stage = .early ∨ stage = .past) ∧
      Leaves S i g (g.claim i p now) stage [] [] := by
  have hat' : At { g with repoIds := (g.repoIds.claim p.key).1 } i p := hat
  unfold GitHubProvider.claim
  dsimp only
  split
  · exact ⟨.past, .inr rfl, (leaves_beginMint hat' _).congr fun _ => rfl⟩
  · exact ⟨.early, .inl rfl, (Leaves.setPc hat' _).congr fun _ => rfl⟩
  · obtain ⟨stage, hstage, h⟩ := leaves_beginMetadata hat' now _
    exact ⟨stage, hstage, h.congr fun _ => rfl⟩

theorem leaves_start (hat : At g i p) (now : SystemTime) :
    ∃ stage, (stage = .early ∨ stage = .past) ∧
      Leaves S i g (g.start i p now) stage [] [] := by
  have hat' : At { g with tokenCache := (g.tokenCache.getWithExpiry now p.key).1 } i p := hat
  unfold GitHubProvider.start
  dsimp only
  split
  · split
    · exact ⟨.past, .inr rfl,
        ((Leaves.setPc hat' .returned).congr (g := g) fun _ => rfl).cons _ rfl⟩
    · exact ⟨.past, .inr rfl, ((leaves_finish hat' _).congr (g := g) fun _ => rfl).cons _ rfl⟩
  · obtain ⟨stage, hstage, h⟩ := leaves_claim hat' now
    exact ⟨stage, hstage, h.congr fun _ => rfl⟩

theorem leaves_drop (hat : At g i p) (pc : MintPc) :
    Leaves S i g (g.drop i p pc, []) .past [] [] := by
  have hguard : ∀ event, Leaves S i g ((g.release p event (.error .cancelled)).setPc i .dropped, [])
      .past [] [] := fun event =>
    (Leaves.setPc (by rwa [At, paths_release]) .dropped).congr fun _ => stageOf_release
  unfold GitHubProvider.drop
  split
  · exact hguard _
  · exact hguard _
  · exact hguard _
  · exact Leaves.setPc hat .dropped

end Functions

/-! ### What a step does about it -/

/-- **Everything a step can do about a mint's scratch token.** `cut` says that it cuts the
lookup off. -/
inductive Handles : Stage → List Bytes → List HttpRequest → Prop → Stage → Prop
  /-- Nothing. -/
  | stay {stage cut} (h : ¬cut) : Handles stage [] [] cut stage
  /-- The mint goes on without one. -/
  | pass {cut} (h : ¬cut) : Handles .early [] [] cut .past
  /-- It is given one. -/
  | get {token cut} (h : ¬cut) : Handles .early [token] [] cut (.resolving token)
  /-- It is given one, and has no use for it. -/
  | through {token dels cut} (h : ¬cut) (hb : GivesBack S token False dels) :
      Handles .early [token] dels cut .past
  /-- The lookup is over, or cut off. -/
  | back {token dels cut} (hb : GivesBack S token cut dels) :
      Handles (.resolving token) [] dels cut .past

/-- **The mint is cut off** while it looks the repository up: it is dropped, or it goes on when
the daemon is shutting down. -/
def Cut (i : ℕ) (g : GitHubProvider) (e : Event) : Prop :=
  (∃ token, stageOf g i = .resolving token) ∧
    (e = .drop i ∨ (∃ progress now, e = .progress i progress now) ∧ g.cancelled = true)

section Steps

variable {S} {g g' : GitHubProvider} {i j : ℕ} {p : RepoPath} {now : SystemTime}

theorem Handles.congr {σ σ' : Stage} {toks : List Bytes} {dels : List HttpRequest}
    {cut cut' : Prop} (h : Handles S σ toks dels cut σ') (hcut : cut ↔ cut') :
    Handles S σ toks dels cut' σ' := propext hcut ▸ h

/-- What one mint does is nothing to another. -/
theorem Leaves.handles {e : Event} {r : GitHubProvider × List Act} {σ : Stage} {toks : List Bytes}
    {dels : List HttpRequest} (h : Leaves S j g r σ toks dels)
    (hown : Handles S (stageOf g j) toks dels (Cut j g e) σ) (hother : ∀ i, i ≠ j → ¬Cut i g e)
    (i : ℕ) :
    Handles S (stageOf g i) (tokens S i r.2) (deletes i r.2) (Cut i g e) (stageOf r.1 i) := by
  rcases eq_or_ne i j with rfl | hne
  · rw [h.own, h.tokens_eq, h.deletes_eq]
    exact hown
  · have htask : ∀ a ∈ r.2, a.task ≠ some i := fun a ha heq =>
      hne (Option.some.inj (heq.symm.trans (h.task a ha)))
    rw [h.others i hne, tokens_of_task_ne htask, deletes_of_task_ne htask]
    exact .stay (hother i hne)

/-- A mint that has no scratch token, and is given none. -/
theorem Handles.of_early {σ : Stage} {cut : Prop} (hσ : σ = .early ∨ σ = .past) (hcut : ¬cut) :
    Handles S .early [] [] cut σ := by
  obtain rfl | rfl := hσ
  · exact .stay hcut
  · exact .pass hcut

/-- The cut of a mint that goes on in a call. -/
def MintPc.Breaks (pc : MintPc) (g : GitHubProvider) : Prop :=
  (∃ token, pc.stage = .resolving token) ∧ g.cancelled = true

theorem breaks_resolve {event : EventId} {token : Bytes} {phase : CallPhase} :
    (MintPc.calling (.resolve event token) phase).Breaks g ↔ g.cancelled = true :=
  and_iff_right ⟨token, rfl⟩

theorem not_breaks_of_stage {pc : MintPc} (h : ∀ token, pc.stage ≠ .resolving token) :
    ¬pc.Breaks g := fun hb => h _ hb.1.choose_spec

theorem not_breaks_of_not_cancelled (hc : g.cancelled = false) (pc : MintPc) : ¬pc.Breaks g :=
  fun h => absurd h.2 (by simp [hc])

theorem GivesBack.congr {token : Bytes} {dels : List HttpRequest} {broken broken' : Prop}
    (h : GivesBack S token broken dels) (hb : broken ↔ broken') :
    GivesBack S token broken' dels := propext hb ▸ h

variable (S) in
/-- What a call does about the scratch token, from the stage it is at. -/
def Carries (i : ℕ) (g : GitHubProvider) (pc : MintPc) (r : GitHubProvider × List Act) : Prop :=
  ∃ stage toks dels, Leaves S i g r stage toks dels ∧
    Handles S pc.stage toks dels (pc.Breaks g) stage

/-- A call has failed. -/
theorem carries_afterFailure {endpoint : Endpoint} {phase : CallPhase} (hat : At g i p)
    (e : GithubError) :
    Carries S i g (.calling endpoint phase) (g.afterFailure S i p now e endpoint) := by
  cases endpoint with
  | metadata event =>
    exact ⟨.past, [], [], leaves_endResolve hat now event (.error e),
      .pass (not_breaks_of_stage fun _ => Stage.noConfusion)⟩
  | resolve event token =>
    obtain ⟨dels, hb, h⟩ := leaves_beginRevoke (S := S) hat now event token (.error e)
    exact ⟨_, _, _, h, .back (hb.congr breaks_resolve.symm)⟩
  | revoke event token result =>
    exact ⟨.past, [], [], leaves_endResolve hat now event result,
      .stay (not_breaks_of_stage fun _ => Stage.noConfusion)⟩
  | mint id =>
    exact ⟨.past, [], [], leaves_finishMint hat (.error e),
      .stay (not_breaks_of_stage fun _ => Stage.noConfusion)⟩

/-- A call has its response. -/
theorem carries_afterResponse {endpoint : Endpoint} {phase : CallPhase} {request : HttpRequest}
    (hat : At g i p) (hc : g.cancelled = false) (hreq : endpoint.Requests S p request)
    (status : ℕ) (retryAfter : Option ℕ) (body : Bytes) :
    Carries S i g (.calling endpoint phase)
      ((g.afterResponse S i p now status retryAfter body endpoint).1,
        .answered i request status body ::
          (g.afterResponse S i p now status retryAfter body endpoint).2) := by
  have hbreaks := not_breaks_of_not_cancelled hc
  cases endpoint with
  | metadata event =>
    obtain ⟨jwt, rfl⟩ := hreq
    simp only [GitHubProvider.afterResponse]
    split
    · rename_i e herr
      exact ⟨_, _, _, (leaves_endResolve hat now event _).cons_other _ rfl
        (tokenOf_metadataRequest_error herr) rfl, .pass (hbreaks _)⟩
    · rename_i token expiry hok
      have htoken : tokenOf S i (.answered i (S.metadataRequest jwt) status body) = some token :=
        tokenOf_metadataRequest hok
      obtain h | ⟨dels, hb, h⟩ := leaves_beginResolve (S := S) hat hc now event token
      · refine ⟨_, _, _, h.cons _ rfl, ?_⟩
        rw [htoken]
        exact .get (hbreaks _)
      · refine ⟨_, _, _, h.cons _ rfl, ?_⟩
        rw [htoken]
        exact .through (hbreaks _) hb
  | resolve event token =>
    obtain ⟨dels, hb, h⟩ :=
      leaves_beginRevoke hat now event token (S.handleResolve status retryAfter body)
    refine ⟨_, _, _, h.cons_other _ rfl (tokenOf_of_requests hreq (by simp) i status body) rfl,
      .back (hb.congr breaks_resolve.symm)⟩
  | revoke event token result =>
    exact ⟨_, _, _, (leaves_endResolve hat now event _).cons_other _ rfl
      (tokenOf_of_requests hreq (by simp) i status body) rfl, .stay (hbreaks _)⟩
  | mint id =>
    exact ⟨_, _, _, (leaves_finishMint hat _).cons_other _ rfl
      (tokenOf_of_requests hreq (by simp) i status body) rfl, .stay (hbreaks _)⟩

theorem carries_advance {endpoint : Endpoint} {phase : CallPhase}
    {progress : GitHubProvider.Progress} {r : GitHubProvider × List Act} (hasked : Asked S g)
    (ht : g.tasks[i]? = some ⟨p, .calling endpoint phase⟩)
    (hr : g.advance S i p now endpoint phase progress = some r) :
    Carries S i g (.calling endpoint phase) r := by
  have hat : At g i p := at_iff.mpr ⟨_, ht⟩
  -- as long as the call goes on, the stage is the same
  have hphase : ∀ phase', (MintPc.calling endpoint phase').stage =
      (MintPc.calling endpoint phase).stage := fun phase' => by cases endpoint <;> rfl
  obtain ⟨e, -, rfl⟩ | ⟨hc, ⟨jwt, request, rfl, hsigned, rfl⟩ |
    ⟨request, status, retryAfter, rfl, rfl⟩ | ⟨request, status, retryAfter, body, hreq, rfl⟩⟩ :=
    advance_cases hr
  · exact carries_afterFailure hat e
  · have hpost : request.method = .post := by
      cases endpoint <;> cases hsigned <;> rfl
    refine ⟨_, _, _, (Leaves.setPc hat _).cons_other (.sent i request) rfl rfl
      (if_neg fun h => by simp [hpost] at h), ?_⟩
    rw [hphase (.sent request)]
    exact .stay (not_breaks_of_not_cancelled hc _)
  · refine ⟨_, _, _, Leaves.setPc hat _, ?_⟩
    rw [hphase (.reading request status retryAfter)]
    exact .stay (not_breaks_of_not_cancelled hc _)
  · exact carries_afterResponse hat hc (hasked ht hreq) status retryAfter body

/-- A mint is dropped: the one that looks its repository up gives nothing back. -/
theorem handles_drop {pc : MintPc} (ht : g.tasks[j]? = some ⟨p, pc⟩) (i : ℕ) :
    Handles S (stageOf g i) [] [] (Cut i g (.drop j)) (stageOf (g.drop j p pc) i) := by
  refine (leaves_drop (S := S) (at_iff.mpr ⟨_, ht⟩) pc).handles ?_ (fun k hne => ?_) i
  · rcases hstage : stageOf g j with - | token | -
    · exact .pass (by simp [Cut, hstage])
    · exact .back ⟨fun h => absurd ⟨⟨token, hstage⟩, .inl rfl⟩ h.2, fun _ => rfl⟩
    · exact .stay (by simp [Cut, hstage])
  · simp [Cut, hne.symm]

/-- **What a step does about the scratch token of a mint.** -/
theorem handles_next {e : Event} {acts : List Act} (hasked : Asked S g)
    (hn : next S g e = some (g', acts)) (i : ℕ) :
    Handles S (stageOf g i) (tokens S i acts) (deletes i acts) (Cut i g e) (stageOf g' i) := by
  cases e with
  | mint path now =>
    have hcut : ∀ i, ¬Cut i g (.mint path now) := by simp [Cut]
    simp only [next] at hn
    split at hn
    · cases hn
      exact .stay (hcut i)
    · rename_i p hparse
      have hat : At (g.enter p) g.tasks.length p := at_iff.mpr ⟨_, tasks_enter_self g p⟩
      obtain ⟨stage, hstage, h⟩ := leaves_start (S := S) hat now
      have hleaves : Leaves S g.tasks.length g (g', acts) stage [] [] :=
        Option.some.inj hn ▸ h.congr fun _ => stageOf_enter
      have hnew : stageOf g g.tasks.length = .early := by simp [stageOf]
      exact hleaves.handles (hnew ▸ .of_early hstage (hcut _)) (fun j _ => hcut j) i
  | wake j now =>
    have hcut : ∀ i, ¬Cut i g (.wake j now) := by simp [Cut]
    simp only [next] at hn
    split at hn
    · rename_i p event ht
      obtain ⟨stage, hstage, h⟩ := leaves_claim (S := S) (at_iff.mpr ⟨_, ht⟩) now
      have hleaves : Leaves S j g (g', acts) stage [] [] := Option.some.inj hn ▸ h
      exact hleaves.handles (stageOf_of_tasks ht ▸ .of_early hstage (hcut _)) (fun k _ => hcut k) i
    · cases hn
  | progress j progress now =>
    simp only [next] at hn
    split at hn
    · rename_i p endpoint phase ht
      obtain ⟨stage, toks, dels, hleaves, hown⟩ := carries_advance hasked ht hn
      have hstage := stageOf_of_tasks ht
      have hbreaks : (MintPc.calling endpoint phase).Breaks g ↔
          Cut j g (.progress j progress now) := by simp [Cut, MintPc.Breaks, hstage]
      refine hleaves.handles (hstage ▸ hown.congr hbreaks) (fun k hne => ?_) i
      simp [Cut, hne.symm]
    · cases hn
  | drop j =>
    simp only [next] at hn
    split at hn
    · rename_i p event notified ht
      cases hn
      exact handles_drop ht i
    · rename_i p endpoint phase ht
      cases hn
      exact handles_drop ht i
    · cases hn
  | shutdown =>
    cases hn
    exact .stay (by simp [Cut])
  | invalidateRepoId key =>
    cases hn
    exact .stay (by simp [Cut])
  | invalidateToken key =>
    cases hn
    exact .stay (by simp [Cut])

end Steps

/-! ### What becomes of it in a run -/

/-- The mint is never cut off. -/
def NeverCut (i : ℕ) (ls : List Label) : Prop :=
  ∀ pre l post g, ls = pre ++ l :: post → Run S .new pre g → ¬Cut i g l.1

/-- What has become of the scratch token of a mint, by its stage. -/
def Accounted (i : ℕ) (ls : List Label) : Stage → Prop
  | .early => tokens S i (actsOf ls) = [] ∧ deletes i (actsOf ls) = [] ∧ NeverCut S i ls
  | .resolving token =>
    tokens S i (actsOf ls) = [token] ∧ deletes i (actsOf ls) = [] ∧ NeverCut S i ls
  | .past =>
    tokens S i (actsOf ls) = [] ∧ deletes i (actsOf ls) = [] ∨
      ∃ token, tokens S i (actsOf ls) = [token] ∧
        GivesBack S token (¬NeverCut S i ls) (deletes i (actsOf ls))

section Runs

variable {S} {g g' : GitHubProvider} {i : ℕ} {ls : List Label} {l : Label}

theorem neverCut_nil : NeverCut S i [] := fun pre l post g h => by simp at h

theorem neverCut_concat (hrun : Run S .new ls g) :
    NeverCut S i (ls ++ [l]) ↔ NeverCut S i ls ∧ ¬Cut i g l.1 := by
  constructor
  · intro h
    refine ⟨fun pre k post g₀ heq hpre => ?_, h ls l [] g rfl hrun⟩
    exact h pre k (post ++ [l]) g₀ (by simp [heq]) hpre
  · rintro ⟨hold, hnew⟩ pre k post g₀ heq hpre
    rcases post.eq_nil_or_concat' with rfl | ⟨post, k', rfl⟩
    · obtain ⟨rfl, hlast⟩ := List.append_inj' heq rfl
      cases hlast
      cases hrun.unique hpre
      exact hnew
    · rw [← List.cons_append, ← List.append_assoc] at heq
      exact hold pre k post g₀ (List.append_inj' heq rfl).1 hpre

/-- A step keeps the account. -/
theorem Accounted.concat {σ σ' : Stage} (h : Accounted S i ls σ) (hrun : Run S .new ls g)
    (hh : Handles S σ (tokens S i l.2) (deletes i l.2) (Cut i g l.1) σ') :
    Accounted S i (ls ++ [l]) σ' := by
  have ht : tokens S i (actsOf (ls ++ [l])) = tokens S i (actsOf ls) ++ tokens S i l.2 := by
    rw [actsOf_snoc, tokens_append]
  have hd : deletes i (actsOf (ls ++ [l])) = deletes i (actsOf ls) ++ deletes i l.2 := by
    rw [actsOf_snoc, deletes_append]
  have hcut : NeverCut S i (ls ++ [l]) ↔ NeverCut S i ls ∧ ¬Cut i g l.1 := neverCut_concat hrun
  generalize tokens S i l.2 = toks at ht hh
  generalize deletes i l.2 = dels at hd hh
  cases hh with
  | stay hnot =>
    rw [List.append_nil] at ht hd
    rw [and_iff_left hnot] at hcut
    cases σ <;> simpa only [Accounted, ht, hd, hcut] using h
  | pass hnot =>
    obtain ⟨htoks, hdels, -⟩ := h
    exact .inl ⟨by rw [ht, htoks]; rfl, by rw [hd, hdels]; rfl⟩
  | get hnot =>
    obtain ⟨htoks, hdels, hnever⟩ := h
    exact ⟨by rw [ht, htoks]; rfl, by rw [hd, hdels]; rfl, hcut.mpr ⟨hnever, hnot⟩⟩
  | @through token dels cut hnot hback =>
    obtain ⟨htoks, hdels, hnever⟩ := h
    refine .inr ⟨token, by rw [ht, htoks]; rfl, ?_⟩
    rw [hd, hdels]
    exact hback.congr (by simp [hcut.mpr ⟨hnever, hnot⟩])
  | @back token dels cut hback =>
    obtain ⟨htoks, hdels, hnever⟩ := h
    refine .inr ⟨token, by rw [ht, htoks]; rfl, ?_⟩
    rw [hd, hdels]
    exact hback.congr (by rw [hcut, and_iff_right hnever, not_not])

theorem accounted_of_run (hrun : Run S .new ls g) (i : ℕ) : Accounted S i ls (stageOf g i) := by
  have h : Run S .new ls g ∧ Accounted S i ls (stageOf g i) := by
    refine hrun.history (P := fun ls g => Run S .new ls g ∧ Accounted S i ls (stageOf g i)) ?_
      ⟨.nil _, rfl, rfl, neverCut_nil⟩
    rintro past g₀ l g₁ ⟨hpast, hacc⟩ hstep
    exact ⟨hpast.snoc hstep, hacc.concat hpast (handles_next (asked_of_run hpast) hstep i)⟩
  exact h.2

/-- **What becomes of a scratch token.** Take any run of the provider – any number of mints,
interleaved at every await, whatever the server answers and whatever fails, with mints dropped
and the daemon shut down at any moment – and a mint that has been given a scratch token and is
not looking its repository up any more. It has been given no other token; it has sent one
`DELETE`, for that token, if it was never cut off during the lookup and the HTTP client takes
the request; and otherwise none. -/
theorem scratch_revoked_iff (hrun : Run S .new ls g) {token : Bytes}
    (htoken : token ∈ tokens S i (actsOf ls)) (hdone : ∀ t, stageOf g i ≠ .resolving t) :
    tokens S i (actsOf ls) = [token] ∧
      (S.accepts (S.revokeRequest token) = true ∧ NeverCut S i ls →
        deletes i (actsOf ls) = [S.revokeRequest token]) ∧
      (¬(S.accepts (S.revokeRequest token) = true ∧ NeverCut S i ls) →
        deletes i (actsOf ls) = []) := by
  have hacc := accounted_of_run hrun i
  rcases hstage : stageOf g i with - | t | -
  · rw [hstage] at hacc
    rw [hacc.1] at htoken
    exact absurd htoken List.not_mem_nil
  · exact absurd hstage (hdone t)
  · rw [hstage] at hacc
    obtain ⟨hnone, -⟩ | ⟨t, htoks, hback⟩ := hacc
    · rw [hnone] at htoken
      exact absurd htoken List.not_mem_nil
    · rw [htoks, List.mem_singleton] at htoken
      subst htoken
      rw [GivesBack, not_not] at hback
      exact ⟨htoks, hback⟩

/-! ### A token that is lost -/

/-- A mint up to its lookup, with the scratch token in hand. -/
def lookupEvents : List Event := (mintEvents 0 (ascii "alice/repo") []).take 4

theorem scratch_revoked_iff_alice :
    ∃ ls g, Run plainSetup .new ls g ∧ tokens plainSetup 0 (actsOf ls) = [[1]] ∧
      deletes 0 (actsOf ls) = [plainSetup.revokeRequest [1]] ∧ NeverCut plainSetup 0 ls := by
  obtain ⟨ls, g, hrun, htoks, hdels, hstage⟩ :=
    Lts.exists_run_of_exec (next plainSetup) .new (mintEvents 0 (ascii "alice/repo") [1, 2, 3])
      (fun g ls => tokens plainSetup 0 (actsOf ls) = [[1]] ∧
        deletes 0 (actsOf ls) = [plainSetup.revokeRequest [1]] ∧ stageOf g 0 = .past)
      (by decide +kernel)
  have htoken : [1] ∈ tokens plainSetup 0 (actsOf ls) := by simp [htoks]
  have hdone : ∀ t, stageOf g 0 ≠ .resolving t := by simp [hstage]
  obtain ⟨-, -, hlost⟩ := scratch_revoked_iff hrun htoken hdone
  refine ⟨ls, g, hrun, htoks, hdels, ?_⟩
  -- a mint that was cut off would have sent nothing
  by_contra hcut
  have hnil := hlost fun h => hcut h.2
  rw [hdels] at hnil
  cases hnil

/-- Events that lose a scratch token: the mint has been given one, is gone, and has sent no
`DELETE`, although the HTTP client takes every request. -/
def Loses (events : List Event) : Prop :=
  ∃ ls g, Run plainSetup .new ls g ∧ ls.map Prod.fst = events ∧
    tokens plainSetup 0 (actsOf ls) = [[1]] ∧ stageOf g 0 = .past ∧
    (∀ request, plainSetup.accepts request = true) ∧ deletes 0 (actsOf ls) = []

theorem loses_of_exec {events : List Event}
    (h : (Lts.exec (next plainSetup) .new events).any (fun r => decide
      (r.2.map Prod.fst = events ∧ tokens plainSetup 0 (actsOf r.2) = [[1]] ∧
        stageOf r.1 0 = .past ∧ deletes 0 (actsOf r.2) = [])) = true) : Loses events := by
  obtain ⟨ls, g, hrun, hevents, htoks, hstage, hdels⟩ :=
    Lts.exists_run_of_exec (next plainSetup) .new events
      (fun g ls => ls.map Prod.fst = events ∧ tokens plainSetup 0 (actsOf ls) = [[1]] ∧
        stageOf g 0 = .past ∧ deletes 0 (actsOf ls) = []) h
  exact ⟨ls, g, hrun, hevents, htoks, hstage, fun _ => rfl, hdels⟩

/-- **A scratch token is lost when the mint is dropped, and when the daemon shuts down**, in
the middle of the lookup. -/
theorem exists_scratch_leaked :
    Loses (lookupEvents ++ [.drop 0]) ∧
      Loses (lookupEvents ++ [.shutdown, .progress 0 .cancelled ⟨0⟩]) :=
  ⟨loses_of_exec (by decide +kernel), loses_of_exec (by decide +kernel)⟩

end Runs

end GitHub

end Symbolon
