import Symbolon.Providers.GitHub.Moves

/-!
# Where a token comes from

A token that `mint` returns for a path was minted for the repository of that path: there
was a request for a token of exactly one repository id, the token and its expiry came
together in the response to that request, and the id had been asked for with the owner and
the name in the path, up to the case of their letters (`Symbolon.GitHub.mint_provenance`).

Three things stand between the path and the token: the memo of ids, which other mints of
the same key fill and empty; the cache of tokens, likewise; and the awaits. What is kept
along every run (`Symbolon.GitHub.Sound`) is that **whatever is stored under a key has its
origin in a call for that key**, in the memo, in the cache, and in the mints under way. A
step is then good (`Symbolon.GitHub.Good`) if it keeps this and returns nothing else, and
it is enough that every move is.
-/

namespace Symbolon

open Text

namespace GitHub

variable {S : Setup}

/-! ### Origins -/

variable (S) in
/-- **The id was resolved**: a response to `resolve_repo_id` for a path with this key says
so. -/
def Resolved (h : List Act) (key : Bytes) (id : ℕ) : Prop :=
  ∃ j token p body, p.key = key ∧ .answered j (S.resolveRequest token p) 200 body ∈ h ∧
    S.jsonRepo body = some id

variable (S) in
/-- **The token was obtained**: it came, with this expiry, in a response to a request for a
token of one repository, whose id had been resolved. -/
def Obtained (h : List Act) (key token : Bytes) (expiry : SystemTime) : Prop :=
  ∃ h₁ h₂ j jwt id body, h = h₁ ++ .sent j (S.mintRequest jwt id) :: h₂ ∧ Resolved S h₁ key id ∧
    .answered j (S.mintRequest jwt id) 201 body ∈ h₂ ∧
    S.parseMintResponse body = .ok (token, expiry)

theorem Resolved.append {h : List Act} {key : Bytes} {id : ℕ} (hr : Resolved S h key id)
    (acts : List Act) : Resolved S (h ++ acts) key id := by
  obtain ⟨j, token, p, body, hkey, hmem, hid⟩ := hr
  exact ⟨j, token, p, body, hkey, List.mem_append_left _ hmem, hid⟩

theorem Obtained.append {h : List Act} {key token : Bytes} {expiry : SystemTime}
    (ho : Obtained S h key token expiry) (acts : List Act) :
    Obtained S (h ++ acts) key token expiry := by
  obtain ⟨h₁, h₂, j, jwt, id, body, rfl, hr, hmem, hp⟩ := ho
  exact ⟨h₁, h₂ ++ acts, j, jwt, id, body, by simp, hr, List.mem_append_left _ hmem, hp⟩

/-! ### The invariant -/

variable (S) in
/-- What a mint in a call has to show for it. -/
def EndpointSound (h : List Act) (i : ℕ) (p : RepoPath) (phase : CallPhase) : Endpoint → Prop
  | .metadata _ => True
  | .resolve _ token => phase.request = some (S.resolveRequest token p)
  | .revoke _ _ result => ∀ id, result = .ok id → Resolved S h p.key id
  | .mint id => Resolved S h p.key id ∧ ∀ request, phase.request = some request →
      ∃ jwt h₁ h₂, request = S.mintRequest jwt id ∧ h = h₁ ++ .sent i request :: h₂ ∧
        Resolved S h₁ p.key id

variable (S) in
/-- **Whatever is stored under a key has its origin in a call for that key.** -/
structure Sound (h : List Act) (g : GitHubProvider) : Prop where
  /-- In the memo. -/
  memo : ∀ {key id}, g.repoIds.Memo key id → Resolved S h key id
  /-- In the cache, where it has also been accepted as a response. -/
  token : ∀ {key token expiry}, g.tokenCache.Holds key token expiry →
    Obtained S h key token expiry ∧ ∃ r, Response.new Setup.xAccessToken token expiry = .ok r
  /-- In the mints. -/
  task : ∀ {i p endpoint phase}, g.tasks[i]? = some ⟨p, .calling endpoint phase⟩ →
    EndpointSound S h i p phase endpoint

theorem EndpointSound.append {h : List Act} {i : ℕ} {p : RepoPath} {phase : CallPhase}
    {endpoint : Endpoint} (hs : EndpointSound S h i p phase endpoint) (acts : List Act) :
    EndpointSound S (h ++ acts) i p phase endpoint := by
  cases endpoint with
  | metadata => trivial
  | resolve => exact hs
  | revoke => exact fun id hid => (hs id hid).append acts
  | mint id =>
    refine ⟨hs.1.append acts, fun request hreq => ?_⟩
    obtain ⟨jwt, h₁, h₂, rfl, rfl, hr⟩ := hs.2 request hreq
    exact ⟨jwt, h₁, h₂ ++ acts, rfl, by simp, hr⟩

/-! ### Moves -/

variable (S) in
/-- **A step is good**: it keeps the invariant, every token it returns was obtained for its
path, and it does not panic. -/
structure Good (h : List Act) (paths : List RepoPath) (r : GitHubProvider × List Act) : Prop where
  /-- It keeps the invariant. -/
  sound : Sound S (h ++ r.2) r.1
  /-- Every mint stays with its path. -/
  paths_eq : r.1.paths = paths
  /-- What it returns was obtained. -/
  returned : ∀ {j path outcome}, .returned j path (.ok outcome) ∈ r.2 →
    ∃ p, paths[j]? = some p ∧ path = p.str ∧
      outcome.response.username = Setup.xAccessToken ∧
      Obtained S (h ++ r.2) p.key outcome.response.password outcome.response.passwordExpiryUtc
  /-- It does not panic. -/
  panicked : ∀ {j}, .panicked j ∉ r.2

section Good

variable {h : List Act} {g g' : GitHubProvider} {acts : List Act} {paths : List RepoPath}

/-- Neither a token nor a panic. -/
def Act.Harmless : Act → Prop
  | .returned _ _ (.ok _) | .panicked _ => False
  | _ => True

/-- Something is done in which nothing but harmless things are seen. -/
theorem good_of_harmless (hs : Sound S (h ++ acts) g) (hacts : ∀ a ∈ acts, a.Harmless) :
    Good S h g.paths (g, acts) :=
  ⟨hs, rfl, fun hmem => (hacts _ hmem).elim, fun hmem => hacts _ hmem⟩

/-- One good thing after another. -/
theorem Good.append {acts' : List Act} (hg : Good S h paths (g, acts))
    (hg' : Good S (h ++ acts) paths (g', acts')) : Good S h paths (g', acts ++ acts') where
  sound := by simpa using hg'.sound
  paths_eq := hg'.paths_eq
  returned hmem := by
    rcases List.mem_append.mp hmem with hmem | hmem
    · obtain ⟨p, hp, hpath, huser, hobtained⟩ := hg.returned hmem
      exact ⟨p, hp, hpath, huser, by simpa using hobtained.append acts'⟩
    · simpa using hg'.returned hmem
  panicked hmem := by
    rcases List.mem_append.mp hmem with hmem | hmem
    · exact hg.panicked hmem
    · exact hg'.panicked hmem

/-- What a mint does by itself leaves it with something to show for where it is. -/
theorem EndpointSound.hop {i : ℕ} {p : RepoPath} {pc : MintPc} {endpoint : Endpoint}
    {phase : CallPhase} (hhop : Hop S i p pc acts (.calling endpoint phase))
    (he : ∀ endpoint' phase', pc = .calling endpoint' phase' →
      EndpointSound S h i p phase' endpoint') :
    EndpointSound S (h ++ acts) i p phase endpoint := by
  cases hhop with
  | send hreq =>
    have he := he endpoint .building rfl
    cases endpoint with
    | metadata => trivial
    | resolve event token => exact congrArg some hreq
    | revoke => exact EndpointSound.append he _
    | mint id =>
      obtain ⟨jwt, rfl⟩ := hreq
      refine ⟨he.1.append _, fun request' hreq' => ?_⟩
      obtain rfl : S.mintRequest jwt id = request' := Option.some.inj hreq'
      exact ⟨jwt, h, [], rfl, rfl, he.1⟩
  | status =>
    have he := (he endpoint _ rfl).append []
    cases endpoint <;> exact he
  | answer hreq hidle => exact (he endpoint phase rfl).append _
  | scratch hreq hok => rfl
  | scratchOnly hreq hok e => exact fun id hid => by cases hid
  | @lookUp event token phase₀ request status retryAfter body hreq =>
    -- the request of this call was for the path of this mint
    intro id hid
    obtain ⟨rfl, hjson⟩ := Setup.handleResolve_eq_ok hid
    obtain rfl : request = S.resolveRequest token p :=
      Option.some.inj (hreq.symm.trans (he _ _ rfl))
    exact ⟨i, token, p, body, rfl, List.mem_append_right _ (List.mem_singleton_self _), hjson⟩
  | giveUp e => exact fun id hid => by cases hid

/-- A token that has just been minted was obtained for the key of its mint. -/
theorem Sound.obtained (hs : Sound S h g) {i : ℕ} {p : RepoPath} {id : ℕ} {phase : CallPhase}
    {request : HttpRequest} {status : ℕ} {retryAfter : Option ℕ} {body : Bytes}
    {outcome : MintOutcome} (ht : g.tasks[i]? = some ⟨p, .calling (.mint id) phase⟩)
    (hreq : phase.request = some request)
    (hok : S.handleMint status retryAfter body = .ok outcome) (acts : List Act) :
    outcome.response.username = Setup.xAccessToken ∧
      Obtained S (h ++ .answered i request status body :: acts) p.key outcome.response.password
        outcome.response.passwordExpiryUtc := by
  obtain ⟨rfl, huser, hparse⟩ := Setup.handleMint_eq_ok hok
  -- the request of this call was for the id that had been resolved
  obtain ⟨jwt, h₁, h₂, rfl, rfl, hr⟩ := (hs.task ht).2 request hreq
  refine ⟨huser, h₁, h₂ ++ .answered i (S.mintRequest jwt id) 201 body :: acts, i, jwt, id, body,
    by simp, hr, ?_, hparse⟩
  exact List.mem_append_right _ List.mem_cons_self

/-- **Every move keeps what is stored under its key.** -/
theorem Sound.move (hs : Sound S h g) (hmove : Move S g acts g') : Sound S (h ++ acts) g' where
  memo {key id} hm := by
    obtain hold | ⟨i, p, endpoint, phase, event, ht, hend, rfl, rfl⟩ := hmove.memo_cases hm
    · exact (hs.memo hold).append acts
    · have he := hs.task ht
      cases endpoint with
      | revoke ev token result => exact (he id hend.2).append _
      | metadata => cases hend.2.choose_spec
      | resolve | mint => exact hend.elim
  token {key token expiry} hh := by
    obtain hold | ⟨i, p, id, phase, request, status, retryAfter, body, outcome, ht, hreq, hok, rfl,
      rfl, rfl, rfl⟩ := hmove.holds_cases hh
    · exact ⟨(hs.token hold).1.append acts, (hs.token hold).2⟩
    · obtain ⟨huser, hobtained⟩ := hs.obtained ht hreq hok [.returned i p.str (.ok outcome)]
      exact ⟨hobtained, outcome.response, Response.new_eq_ok_iff.mpr ⟨huser, rfl, rfl⟩⟩
  task {j q endpoint phase} hc := by
    obtain hold | ⟨pc, ht, hhop⟩ | ⟨id, rfl, rfl, hmemo⟩ | ⟨event, rfl, rfl⟩ :=
      hmove.calling_cases hc
    · exact (hs.task hold).append acts
    · refine .hop hhop fun endpoint' phase' hpc => ?_
      subst hpc
      exact hs.task ht
    · exact ⟨(hs.memo hmemo).append acts, fun _ hreq => by cases hreq⟩
    · trivial

/-- **Every move is good.** -/
theorem good_move (hs : Sound S h g) (hmove : Move S g acts g') : Good S h g.paths (g', acts) := by
  have hs' := hs.move hmove
  rw [← hmove.paths_eq]
  cases hmove with
  | @hop i p pc acts pc' ht hhop =>
    refine good_of_harmless hs' ?_
    cases hhop <;> simp [Act.Harmless]
  | sweep | known | wait | lead => exact good_of_harmless hs' (by simp)
  | refuse | release | gone => exact good_of_harmless hs' (by simp [Act.Harmless])
  | @hit i p token expiry response ht hh hr =>
    -- a token in the cache was obtained for its key
    obtain ⟨huser, rfl, rfl⟩ := Response.new_eq_ok_iff.mp hr
    refine ⟨hs', rfl, fun hmem => ?_, by simp⟩
    obtain ⟨rfl, rfl, rfl⟩ : _ ∧ _ ∧ _ := by simpa using hmem
    exact ⟨p, (paths_setPc g _ _).symm ▸ at_iff.mpr ⟨_, ht⟩, rfl, huser, (hs.token hh).1.append _⟩
  | panic ht hh hr =>
    -- and it was accepted when it was put there, so it is accepted again
    obtain ⟨-, r, hok⟩ := hs.token hh
    cases hr.symm.trans hok
  | @minted i p id phase request status retryAfter body outcome now ht hreq hok =>
    refine ⟨hs', rfl, fun hmem => ?_, by simp⟩
    obtain ⟨huser, hobtained⟩ := hs.obtained ht hreq hok [.returned i p.str (.ok outcome)]
    obtain ⟨rfl, rfl, rfl⟩ : _ ∧ _ ∧ _ := by simpa using hmem
    exact ⟨p, (paths_setPc _ _ _).symm ▸ at_iff.mpr ⟨_, ht⟩, rfl, huser, hobtained⟩

theorem good_does {r : GitHubProvider × List Act} (hs : Sound S h g) (hdoes : Does S g r) :
    Good S h g.paths r := by
  obtain ⟨ms, hrun, hflat⟩ := hdoes
  have hgood : Good S h g.paths (r.1, ms.flatten) := by
    refine hrun.history (P := fun ms g' => Good S h g.paths (g', ms.flatten)) ?_ ?_
    · intro past g₁ acts g₂ hpast hmove
      have hnext := good_move hpast.sound hmove
      rw [hpast.paths_eq] at hnext
      simpa using hpast.append hnext
    · exact good_of_harmless (by simpa using hs) (by simp)
  rwa [hflat] at hgood

/-! ### Steps -/

theorem Sound.lapse (hs : Sound S h g) (hlapse : Lapse g g') : Sound S h g' :=
  ⟨fun hm => hs.memo (hlapse.memo hm), fun hh => hs.token (hlapse.holds hh),
    fun hc => hs.task (hlapse.calling hc)⟩

/-- **Every step is good.** -/
theorem good_next {l : Label} (hs : Sound S h g) (hn : Lts.ofFun (next S) g l g') :
    Good S h (g.paths ++ l.1.accepted.toList) (g', l.2) := by
  obtain ⟨g₁, hlapse, hpaths, hdoes⟩ := next_cases hn
  rw [← hpaths]
  exact good_does (hs.lapse hlapse) hdoes

/-- **Along every run, whatever is stored under a key has its origin in a call for that key.** -/
theorem sound_of_run {ls : List Label} (hrun : Run S .new ls g) :
    Sound S (actsOf ls) g ∧ g.paths = called ls := by
  refine hrun.history (P := fun ls g => Sound S (actsOf ls) g ∧ g.paths = called ls) ?_ ?_
  · rintro past g l g' ⟨hs, hp⟩ hstep
    have hgood := good_next hs hstep
    rw [actsOf_snoc, called_snoc, ← hp]
    exact ⟨hgood.sound, hgood.paths_eq⟩
  · refine ⟨⟨fun hm => ?_, fun ht => ?_, fun ht => ?_⟩, rfl⟩
    · exact absurd hm SingleflightCache.not_memo_new
    · exact absurd ht TtlCache.not_holds_new
    · cases ht

end Good

/-! ### No confusion of repositories -/

/-- A mint that does not find its token in the cache does not return one before its first
await. -/
theorem not_returned_claim {g : GitHubProvider} {i j : ℕ} {p : RepoPath} {now : SystemTime}
    {path : Bytes} {outcome : MintOutcome} :
    .returned j path (.ok outcome) ∉ (g.claim i p now).2 := by
  simp only [GitHubProvider.claim]
  split
  · unfold GitHubProvider.beginMint
    split <;> simp [GitHubProvider.finishMint, GitHubProvider.finish]
  · simp
  · unfold GitHubProvider.beginMetadata
    split <;> simp [GitHubProvider.endResolve, GitHubProvider.finish]

/-- A token from the cache is not due. -/
theorem lt_expiry_of_start {g : GitHubProvider} {i j : ℕ} {p : RepoPath} {now : SystemTime}
    {path : Bytes} {outcome : MintOutcome}
    (hmem : .returned j path (.ok outcome) ∈ (g.start i p now).2) :
    .tokenCacheHit j p.key ∈ (g.start i p now).2 ∧ now < outcome.response.passwordExpiryUtc := by
  simp only [GitHubProvider.start] at hmem ⊢
  split at hmem
  · rename_i token expiresAt hhit
    have hlt := (TtlCache.getWithExpiry_eq_some_iff.mp hhit).2
    split at hmem
    · simp at hmem
    · rename_i response hr
      obtain ⟨-, -, rfl⟩ := Response.new_eq_ok_iff.mp hr
      simp only [GitHubProvider.finish, List.mem_cons, reduceCtorEq, List.not_mem_nil, or_false,
        false_or, Act.returned.injEq, Except.ok.injEq] at hmem
      obtain ⟨rfl, -, rfl⟩ := hmem
      simp [hlt]
  · exact absurd hmem not_returned_claim

variable (S) in
/-- **Where a credential for a path comes from**, in what has been seen: a request for a
token of one repository was sent; the token and its expiry came together in its response;
and before, the id of the repository had come in a response to a request for an owner and
a name that are the path, up to the case of ASCII letters. -/
def Provenance (h : List Act) (path : Bytes) (response : Response) : Prop :=
  ∃ h₁ h₂ j jwt id body j' token p' body',
    h = h₁ ++ .sent j (S.mintRequest jwt id) :: h₂ ∧
    .answered j (S.mintRequest jwt id) 201 body ∈ h₂ ∧
    S.parseMintResponse body = .ok (response.password, response.passwordExpiryUtc) ∧
    (∀ id', (S.mintRequest jwt id).body = some (Setup.mintBody id') → id' = id) ∧
    .answered j' (S.resolveRequest token p') 200 body' ∈ h₁ ∧ S.jsonRepo body' = some id ∧
    eqIgnoreAsciiCase p'.str path

theorem Obtained.provenance {h : List Act} {p : RepoPath} {response : Response}
    (ho : Obtained S h p.key response.password response.passwordExpiryUtc) :
    Provenance S h p.str response := by
  obtain ⟨h₁, h₂, j, jwt, id, body, rfl, hresolved, hans, hparse⟩ := ho
  obtain ⟨j', token, p', body', hkey, hres, hid⟩ := hresolved
  refine ⟨h₁, h₂, j, jwt, id, body, j', token, p', body', rfl, hans, hparse, ?_, hres, hid, ?_⟩
  · exact fun id' hbody => (Setup.mintBody_inj (Option.some.inj hbody)).symm
  · rw [eqIgnoreAsciiCase, ← p'.key_eq, ← p.key_eq, hkey]

/-- **No token of one repository is given out for another.** In every run of the provider –
any number of mints, on any paths, interleaved at every await, whatever the server answers,
whatever fails, is cancelled or is invalidated –

* a credential that a mint returns for its path has its provenance in a call for that path;
* a mint that returns in the step it was called in has the token from the cache, and the
  token expires after the clock reading of that call;
* the cached token is never refused; and
* two accepted paths share a cache key exactly when they are equal ignoring ASCII case. -/
theorem mint_provenance {ls : List Label} {g : GitHubProvider} (hrun : Run S .new ls g) :
    (∀ pre l post, ls = pre ++ l :: post →
      (∀ i path outcome, .returned i path (.ok outcome) ∈ l.2 →
        (called (pre ++ [l]))[i]?.map RepoPath.str = some path ∧
          outcome.response.username = Setup.xAccessToken ∧
          Provenance S (actsOf (pre ++ [l])) path outcome.response) ∧
      (∀ path now, l.1 = .mint path now → ∀ i path' outcome,
        .returned i path' (.ok outcome) ∈ l.2 →
          (∃ key, .tokenCacheHit i key ∈ l.2) ∧ now < outcome.response.passwordExpiryUtc) ∧
      ∀ i, .panicked i ∉ l.2) ∧
    ∀ path path' p p', RepoPath.parse path = .ok p → RepoPath.parse path' = .ok p' →
      (p.key = p'.key ↔ eqIgnoreAsciiCase path path') := by
  refine ⟨?_, fun _ _ _ _ => key_eq_key_iff⟩
  rintro pre ⟨e, acts⟩ post rfl
  obtain ⟨g₁, hpre, hrest⟩ := Lts.run_append_iff.mp hrun
  obtain ⟨g₂, hstep, -⟩ := Lts.run_cons_iff.mp hrest
  obtain ⟨hsound, hpaths⟩ := sound_of_run hpre
  have hgood := good_next hsound hstep
  refine ⟨fun i path outcome hmem => ?_, fun path now he i path' outcome hmem => ?_,
    fun i => hgood.panicked⟩
  · obtain ⟨p, hp, rfl, huser, hobtained⟩ := hgood.returned hmem
    rw [called_snoc, actsOf_snoc, ← hpaths]
    exact ⟨by rw [hp]; rfl, huser, hobtained.provenance⟩
  · -- the step of the call is the start of the mint
    obtain rfl : e = .mint path now := he
    simp only [Lts.ofFun, next] at hstep
    split at hstep
    · cases hstep
      simp at hmem
    · rename_i p hp
      have hacts := congrArg Prod.snd (Option.some.inj hstep)
      rw [← hacts] at hmem ⊢
      obtain ⟨hhit, hlt⟩ := lt_expiry_of_start hmem
      exact ⟨⟨_, hhit⟩, hlt⟩

/-- A server that answers with what it was set up to answer: the id is the length of the
body, and a token is the body itself, good for a hundred seconds. -/
def plainSetup : Setup where
  apiBase := ascii "https://api.github.com"
  installationId := 7
  accepts _ := true
  jsonRepo body := some body.length
  jsonMint body := some (body, [])
  jsonMessage _ := none
  rfc3339 _ := some 100

/-- A call in which the backend signs and the server answers. -/
def plainCall (status : ℕ) (body : Bytes) : List Event :=
  [.progress 0 (.signed []) ⟨0⟩, .progress 0 (.response status none) ⟨0⟩,
    .progress 0 (.body body) ⟨0⟩]

/-- A mint that resolves its path, and a second one for the same repository. -/
def plainEvents : List Event :=
  .mint (ascii "Alice/Repo") ⟨0⟩ :: plainCall 201 [1] ++
    [.progress 0 (.response 200 none) ⟨0⟩, .progress 0 (.body [1, 2, 3]) ⟨0⟩,
      .progress 0 (.response 204 none) ⟨0⟩] ++
    plainCall 201 (ascii "ghs") ++ [.mint (ascii "alice/repo") ⟨50⟩]

/-- What the second mint returns. -/
def plainCredential : Response :=
  ⟨Setup.xAccessToken, ascii "ghs", ⟨100000000000⟩, by decide, by decide, by decide⟩

theorem mint_provenance_alice :
    ∃ ls g, Run plainSetup .new ls g ∧
      ls[10]?.map Prod.snd = some [.tokenCacheHit 1 (ascii "alice/repo"),
        .returned 1 (ascii "alice/repo") (.ok ⟨plainCredential⟩)] ∧
      Provenance plainSetup (actsOf (ls.take 11)) (ascii "alice/repo") plainCredential := by
  obtain ⟨ls, g, hrun, hl⟩ :=
    Lts.exists_run_of_exec (next plainSetup) .new plainEvents
      (fun _ ls => ls[10]?.map Prod.snd = some [.tokenCacheHit 1 (ascii "alice/repo"),
        .returned 1 (ascii "alice/repo") (.ok ⟨plainCredential⟩)])
      (by decide +kernel)
  obtain ⟨l, hget, hacts⟩ := Option.map_eq_some_iff.mp hl
  have htake : ls.take 11 = ls.take 10 ++ [l] := by
    rw [List.take_add_one, hget]
    rfl
  obtain ⟨hreturned, -⟩ := (mint_provenance hrun).1 _ l _ (Lts.eq_take_append_cons hget)
  obtain ⟨-, -, hprov⟩ :=
    hreturned 1 (ascii "alice/repo") ⟨plainCredential⟩ (by simp [hacts])
  exact ⟨ls, g, hrun, hl, htake ▸ hprov⟩

end GitHub

end Symbolon
