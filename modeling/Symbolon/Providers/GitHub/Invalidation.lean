import Symbolon.Providers.GitHub.Provenance

/-!
# After a 404

When GitHub says that there is no repository with the id, the mint that is told so forgets
the id and the token of its key. Other mints of the key go on: some have the old id in
hand, some wait for a resolution, some are in the middle of one. What is kept from then on
(`Symbolon.GitHub.Renewed`) is that **whatever a later mint can find under the key is
newer than the 404**: an id in the memo comes from a resolution that has ended since, a
token in the cache from a mint that has been answered since. A mint that was called later
has its id from the memo, where a resolution of its own puts it as well, so it asks for a
token of no other id (`Symbolon.GitHub.resolved_again_after_notFound`).

The mints that were called before may still put a token of the old id into the cache, or,
if they are resolving, its id into the memo; both are then newer than the 404.
-/

namespace Symbolon

open Text

namespace GitHub

variable {S : Setup}

/-! ### What is newer -/

/-- **The id was resolved**: the resolve closure of a mint of the key has returned it. -/
def ResolvedAs (h : List Act) (key : Bytes) (id : ℕ) : Prop := ∃ j, .resolved j key (.ok id) ∈ h

variable (S) in
/-- **The token was put into the cache**: a mint of the key, asking for a token of some id,
was answered with it, and returned it. -/
def Inserted (h : List Act) (key : Bytes) (response : Response) : Prop :=
  ∃ j jwt id body path, toAsciiLowercase path = key ∧
    [.answered j (S.mintRequest jwt id) 201 body, .returned j path (.ok ⟨response⟩)] <:+: h ∧
    S.parseMintResponse body = .ok (response.password, response.passwordExpiryUtc)

theorem ResolvedAs.append {h : List Act} {key : Bytes} {id : ℕ} (hr : ResolvedAs h key id)
    (acts : List Act) : ResolvedAs (h ++ acts) key id := by
  obtain ⟨j, hj⟩ := hr
  exact ⟨j, List.mem_append_left _ hj⟩

theorem Inserted.append {h : List Act} {key : Bytes} {response : Response}
    (hi : Inserted S h key response) (acts : List Act) : Inserted S (h ++ acts) key response := by
  obtain ⟨j, jwt, id, body, path, hkey, hinfix, hparse⟩ := hi
  exact ⟨j, jwt, id, body, path, hkey, hinfix.trans (List.prefix_append _ _).isInfix, hparse⟩

variable (S) in
/-- **Nothing that a mint called from number `n` on can find under the key is older** than
what has been seen. -/
structure Renewed (n : ℕ) (key : Bytes) (h : List Act) (g : GitHubProvider) : Prop where
  /-- Requests are what they should be. -/
  asked : Asked S g
  /-- In the memo. -/
  memo : ∀ {id}, g.repoIds.Memo key id → ResolvedAs h key id
  /-- In the cache. -/
  token : ∀ {token expiry}, g.tokenCache.Holds key token expiry →
    ∃ response, Inserted S h key response ∧ response.username = Setup.xAccessToken ∧
      response.password = token ∧ response.passwordExpiryUtc = expiry
  /-- In the mints. -/
  task : ∀ {i : ℕ} {p id phase}, n ≤ i → g.tasks[i]? = some ⟨p, .calling (.mint id) phase⟩ →
    p.key = key → ResolvedAs h key id

section Renewed

variable {n : ℕ} {key : Bytes} {h : List Act} {g g' : GitHubProvider} {acts : List Act}

/-- By itself, a mint does not come to ask for a token of another id. -/
theorem Hop.mint_of_mint {i : ℕ} {p : RepoPath} {pc : MintPc} {id : ℕ} {phase : CallPhase}
    (hhop : Hop S i p pc acts (.calling (.mint id) phase)) :
    ∃ phase', pc = .calling (.mint id) phase' := by
  cases hhop with
  | send | status | answer => exact ⟨_, rfl⟩

theorem Renewed.lapse (hr : Renewed S n key h g) (hlapse : Lapse g g') :
    Renewed S n key h g' where
  asked _ _ _ _ _ ht hreq := hr.asked (hlapse.calling ht) hreq
  memo hm := hr.memo (hlapse.memo hm)
  token hh := hr.token (hlapse.holds hh)
  task hn ht hp := hr.task hn (hlapse.calling ht) hp

/-- **What a move puts under the key is new.** -/
theorem Renewed.move (hr : Renewed S n key h g) (hmove : Move S g acts g') :
    Renewed S n key (h ++ acts) g' where
  asked := hr.asked.move hmove
  memo {id} hm := by
    obtain hold | ⟨i, p, endpoint, phase, event, ht, hend, hkey, rfl⟩ := hmove.memo_cases hm
    · exact (hr.memo hold).append acts
    · exact ⟨i, List.mem_append_right _ (List.mem_singleton_self _)⟩
  token {token expiry} hh := by
    obtain hold | ⟨i, p, id, phase, request, status, retryAfter, body, outcome, ht, hreq, hok, hkey,
      hpass, hexp, rfl⟩ := hmove.holds_cases hh
    · obtain ⟨response, hins, hfields⟩ := hr.token hold
      exact ⟨response, hins.append acts, hfields⟩
    · -- the token has just been minted
      obtain ⟨rfl, huser, hparse⟩ := Setup.handleMint_eq_ok hok
      obtain ⟨jwt, rfl⟩ := hr.asked ht hreq
      refine ⟨outcome.response, ⟨i, jwt, id, body, p.str, ?_, ?_, hparse⟩, huser, hpass, hexp⟩
      · rw [← p.key_eq, hkey]
      · exact (List.suffix_append _ _).isInfix
  task {i p id phase} hn ht hp := by
    obtain hold | ⟨pc, ht', hhop⟩ | ⟨id', hid, -, hmemo⟩ | ⟨event, hev, -⟩ :=
      hmove.calling_cases ht
    · exact (hr.task hn hold hp).append acts
    · obtain ⟨phase', rfl⟩ := hhop.mint_of_mint
      exact (hr.task hn ht' hp).append acts
    · cases hid
      exact (hr.memo (hp ▸ hmemo)).append acts
    · cases hev

theorem renewed_of_turns {ms : List (List Act)} (hrun : Lts.Run (Turn S) g ms g')
    (hr : Renewed S n key h g) : Renewed S n key (h ++ ms.flatten) g' :=
  keeps_of_turns (fun _ _ _ _ h hmove => h.move hmove) (fun _ _ _ h hlapse => h.lapse hlapse)
    hrun hr

end Renewed

/-! ### The 404 -/

/-- The request for a scratch token is for no repository. -/
theorem Setup.metadataRequest_body_ne (jwt : Bytes) (id : ℕ) :
    (S.metadataRequest jwt).body ≠ some (mintBody id) := by
  intro h
  -- the two bodies differ in their third byte
  have htake := congrArg (List.take 3) (Option.some.inj h)
  rw [mintBody, List.append_assoc, List.take_append_of_le_length (by decide)] at htake
  exact absurd htake (by decide)

/-- Only the call for a token of one repository has a body that names it. -/
theorem Endpoint.Requests.eq_mint {endpoint : Endpoint} {p : RepoPath} {request : HttpRequest}
    (h : endpoint.Requests S p request) {id : ℕ} (hbody : request.body = some (Setup.mintBody id)) :
    endpoint = .mint id := by
  cases endpoint with
  | metadata event =>
    obtain ⟨jwt, rfl⟩ := h
    exact absurd hbody (Setup.metadataRequest_body_ne jwt id)
  | resolve event token =>
    cases h
    cases hbody
  | revoke event token result =>
    cases h
    cases hbody
  | mint id' =>
    obtain ⟨jwt, rfl⟩ := h
    rw [Setup.mintBody_inj (Option.some.inj hbody)]

/-- By itself, a mint is not told that its repository is gone: it would have to forget it. -/
theorem Hop.not_notFound {g : GitHubProvider} (hasked : Asked S g) {i : ℕ} {p : RepoPath}
    {pc pc' : MintPc} {acts : List Act} (ht : g.tasks[i]? = some ⟨p, pc⟩)
    (hhop : Hop S i p pc acts pc') {j : ℕ} {jwt : Bytes} {id : ℕ} {body : Bytes} :
    .answered j (S.mintRequest jwt id) 404 body ∉ acts := by
  intro hmem
  -- a call whose request is for a token of a repository is `mint_token`
  have hmint : ∀ {endpoint : Endpoint} {phase : CallPhase}, pc = .calling endpoint phase →
      phase.request = some (S.mintRequest jwt id) → endpoint = .mint id := by
    rintro endpoint phase rfl hreq
    exact (hasked ht hreq).eq_mint rfl
  cases hhop with
  | send | status | giveUp | fail => simp at hmem
  | answer hreq hidle =>
    obtain ⟨rfl, rfl, rfl, rfl⟩ := Act.answered.inj (List.mem_singleton.mp hmem)
    cases hmint rfl hreq
    obtain ⟨e, he, hne⟩ := hidle
    cases he
    exact hne rfl
  | scratch hreq =>
    obtain ⟨rfl, rfl, -⟩ : _ ∧ _ ∧ _ := by simpa using hmem
    cases hmint rfl hreq
  | scratchOnly hreq | lookUp hreq =>
    obtain ⟨rfl, rfl, -⟩ := Act.answered.inj (List.mem_singleton.mp hmem)
    cases hmint rfl hreq

/-- **The 404 makes the provider forget**: when a request for a token of a repository is
answered with it, the id and the token of the key are gone. -/
theorem forgotten_of_notFound {g g' : GitHubProvider} (hasked : Asked S g) {j : ℕ} {jwt : Bytes}
    {id : ℕ} {body : Bytes} {before after acts : List Act} (hmove : Move S g acts g')
    (hacts : acts = before ++ .answered j (S.mintRequest jwt id) 404 body :: after) :
    ∃ p, At g' j p ∧ (∀ id', ¬g'.repoIds.Memo p.key id') ∧
      (∀ token expiry, ¬g'.tokenCache.Holds p.key token expiry) ∧
      after = [.invalidated j p.key, .returned j p.str (.error .repoNotFound)] := by
  have hmem : .answered j (S.mintRequest jwt id) 404 body ∈ acts := by simp [hacts]
  cases hmove with
  | refuse | sweep | hit | panic | known | wait | lead | release => simp at hmem
  | hop ht hhop => exact absurd hmem (hhop.not_notFound hasked ht)
  | minted now ht hreq hok =>
    obtain ⟨rfl, -⟩ := Setup.handleMint_eq_ok hok
    simp at hmem
  | @gone i p id₀ phase request status retryAfter body₀ ht hreq hgone =>
    have hj : j = i := by
      simp only [List.mem_cons, Act.answered.injEq, reduceCtorEq, List.not_mem_nil,
        or_false] at hmem
      exact hmem.1
    subst hj
    refine ⟨p, ?_, fun id' => SingleflightCache.not_memo_invalidate, fun token expiry hh => ?_, ?_⟩
    · rw [At, paths_setPc]
      exact at_iff.mpr ⟨_, ht⟩
    · exact (TtlCache.holds_invalidate_iff.mp hh).1 rfl
    · rcases before with - | ⟨a, before⟩
      · exact (List.cons.inj hacts).2.symm
      · -- only the first thing that is seen is an answer
        have hrest := (List.cons.inj hacts).2
        have hmem' : Act.answered j (S.mintRequest jwt id) 404 body ∈
            [.invalidated j p.key, .returned j p.str (.error .repoNotFound)] := by
          simp [hrest]
        simp at hmem'

/-! ### What a later mint asks for and finds -/

section Later

variable {n : ℕ} {key : Bytes} {h : List Act} {g g' : GitHubProvider} {acts before after : List Act}

/-- A request for a token of an id that was resolved. -/
theorem Renewed.resolvedAs_of_sent (hr : Renewed S n key h g) (hmove : Move S g acts g') {i : ℕ}
    {request : HttpRequest} (hacts : acts = before ++ .sent i request :: after) (hn : n ≤ i)
    (hkey : ∀ p, At g i p → p.key = key) {id : ℕ}
    (hbody : request.body = some (Setup.mintBody id)) : ResolvedAs h key id := by
  have hmem : .sent i request ∈ acts := by simp [hacts]
  cases hmove with
  | refuse | sweep | hit | panic | known | wait | lead | release | minted | gone => simp at hmem
  | @hop j q pc acts pc' ht hhop =>
    cases hhop with
    | status | answer | scratchOnly | lookUp | giveUp | fail => simp at hmem
    | send hreq =>
      obtain ⟨rfl, rfl⟩ := Act.sent.inj (List.mem_singleton.mp hmem)
      obtain rfl := hreq.eq_mint hbody
      exact hr.task hn ht (hkey q (at_iff.mpr ⟨_, ht⟩))
    | scratch =>
      obtain ⟨-, rfl⟩ : _ ∧ _ := by simpa using hmem
      cases hbody

/-- A token from the cache that was put there. -/
theorem Renewed.inserted_of_hit (hr : Renewed S n key h g) (hmove : Move S g acts g') {i : ℕ}
    (hacts : acts = before ++ .tokenCacheHit i key :: after) :
    before = [] ∧ ∃ path response, after = [.returned i path (.ok ⟨response⟩)] ∧
      Inserted S h key response := by
  have hmem : .tokenCacheHit i key ∈ acts := by simp [hacts]
  cases hmove with
  | refuse | sweep | panic | known | wait | lead | release | minted | gone => simp at hmem
  | hop ht hhop => cases hhop <;> simp at hmem
  | @hit j p token expiry response ht hh hnew =>
    obtain ⟨rfl, rfl⟩ : i = j ∧ key = p.key := by simpa using hmem
    rcases before with - | ⟨a, before⟩
    · obtain ⟨response', hins, huser, rfl, rfl⟩ := hr.token hh
      have heq : response' = response :=
        Except.ok.inj ((Response.new_eq_ok_iff.mpr ⟨huser, rfl, rfl⟩).symm.trans hnew)
      subst heq
      exact ⟨rfl, p.str, response', (List.cons.inj hacts).2.symm, hins⟩
    · -- only the first thing that is seen is a hit
      have hmem' : Act.tokenCacheHit i p.key ∈ [.returned i p.str (.ok ⟨response⟩)] := by
        simp [(List.cons.inj hacts).2]
      simp at hmem'

/-- What is seen after something else that it is not. -/
theorem exists_past_of_notMem {acts rest past future : List Act} {a : Act} (ha : a ∉ acts)
    (heq : acts ++ rest = past ++ a :: future) :
    ∃ past', past = acts ++ past' ∧ rest = past' ++ a :: future := by
  obtain ⟨past', rfl, hrest⟩ | ⟨between, rfl, hrest⟩ := List.append_eq_append_iff.mp heq
  · exact ⟨past', rfl, hrest⟩
  · rcases between with - | ⟨b, between⟩
    · exact ⟨[], by simp, by simpa using hrest.symm⟩
    · obtain ⟨rfl, -⟩ := List.cons.inj hrest
      simp at ha

end Later

/-- **A 404 forces the id to be resolved again.** Take any run of the provider – mints on
any paths, interleaved at every await, whatever the server answers, whatever fails, is
cancelled or is invalidated – and in it a mint of some key that is told 404 for the id it
asked a token of. In what is seen after that,

* a mint of the key that is called later sends a request for a token of an id only after a
  resolve closure of the key has returned that id; and
* a mint of the key that returns a token from the cache returns one that has been put there
  since. -/
theorem resolved_again_after_notFound {pre post : List Label} {l : Label} {g : GitHubProvider}
    (hrun : Run S .new (pre ++ l :: post) g) {j : ℕ} {jwt : Bytes} {id : ℕ} {body key : Bytes}
    {before after : List Act}
    (hgone : l.2 = before ++ .answered j (S.mintRequest jwt id) 404 body :: after)
    (hj : (called (pre ++ [l]))[j]?.map RepoPath.key = some key) :
    (∀ i, (called (pre ++ [l])).length ≤ i →
      (called (pre ++ l :: post))[i]?.map RepoPath.key = some key →
      ∀ past future request id', after ++ actsOf post = past ++ .sent i request :: future →
        request.body = some (Setup.mintBody id') → ResolvedAs past key id') ∧
    ∀ i past future path outcome,
      after ++ actsOf post =
        past ++ .tokenCacheHit i key :: .returned i path (.ok outcome) :: future →
      Inserted S past key outcome.response := by
  have hpaths := (sound_of_run hrun).2
  obtain ⟨g₀, hpre, hrest⟩ := Lts.run_append_iff.mp hrun
  obtain ⟨g₁, hstep, hpost⟩ := Lts.run_cons_iff.mp hrest
  have hpaths₁ := (sound_of_run (hpre.snoc hstep)).2
  -- the move in which the 404 is read, and what follows it
  obtain ⟨ms, hms, hflat⟩ := turns_of_step hstep
  obtain ⟨ms₁, m₁, m₂, ms₂, gA, gB, hA, hturn, hB, rfl, rfl⟩ :=
    hms.split_flatten (hflat.trans hgone)
  obtain ⟨ms₃, hms₃, hflat₃⟩ := turns_of_run hpost
  have hafter := hB.append hms₃
  have hseen : m₂ ++ ms₂.flatten ++ actsOf post = m₂ ++ (ms₂ ++ ms₃).flatten := by
    rw [List.append_assoc, List.flatten_append, hflat₃]
  have hmove := hturn.move_of_ne_nil (by simp)
  have hasked : Asked S gA := (asked_of_run hpre).turns hA
  obtain ⟨p, hat, hmemo, htoken, rfl⟩ := forgotten_of_notFound hasked hmove rfl
  -- the mint that was told is a mint of the key
  have hkey : p.key = key := by
    have hp : g₁.paths[j]? = some p := hat.turns hB
    rw [← hpaths₁, hp] at hj
    exact Option.some.inj hj
  subst hkey
  -- there is nothing of the key left
  have hrenewed : Renewed S gB.tasks.length p.key
      [.invalidated j p.key, .returned j p.str (.error .repoNotFound)] gB := by
    refine ⟨hasked.move hmove, fun hm => absurd hm (hmemo _), fun hh => absurd hh (htoken _ _),
      fun hn ht => ?_⟩
    rw [List.getElem?_eq_none hn] at ht
    cases ht
  rw [hseen]
  refine ⟨fun i hi hcalled past future request id' heq hbody => ?_,
    fun i past future path outcome heq => ?_⟩
  · obtain ⟨past', rfl, hrest⟩ := exists_past_of_notMem (by simp) heq
    obtain ⟨ns₁, n₁, n₂, ns₂, gC, gD, hC, hturn', hD, rfl, rfl⟩ := hafter.split_flatten hrest
    have hlen : gB.tasks.length ≤ i := by
      have hle := (paths_prefix_of_turns hB).length_le
      rw [hpaths₁] at hle
      simp only [GitHubProvider.paths, List.length_map] at hle
      exact hle.trans hi
    have hresolved := (renewed_of_turns hC hrenewed).resolvedAs_of_sent
      (hturn'.move_of_ne_nil (by simp)) rfl hlen ?_ hbody
    · simpa using hresolved.append n₁
    · intro q hq
      have hq' : g.paths[i]? = some q := hq.turns (.cons hturn' hD)
      rw [← hpaths, hq'] at hcalled
      exact Option.some.inj hcalled
  · obtain ⟨past', rfl, hrest⟩ := exists_past_of_notMem (by simp) heq
    obtain ⟨ns₁, n₁, n₂, ns₂, gC, gD, hC, hturn', hD, rfl, hfuture⟩ := hafter.split_flatten hrest
    obtain ⟨rfl, path', response, rfl, hins⟩ := (renewed_of_turns hC hrenewed).inserted_of_hit
      (hturn'.move_of_ne_nil (by simp)) rfl
    cases hfuture
    simpa using hins

/-- A mint of some number, up to its request for a token of the repository: the id is the
length of the server's answer. -/
def mintEvents (i : ℕ) (path answer : Bytes) : List Event :=
  [.mint path ⟨0⟩, .progress i (.signed []) ⟨0⟩, .progress i (.response 201 none) ⟨0⟩,
    .progress i (.body [1]) ⟨0⟩, .progress i (.response 200 none) ⟨0⟩,
    .progress i (.body answer) ⟨0⟩, .progress i (.response 204 none) ⟨0⟩,
    .progress i (.signed []) ⟨0⟩]

/-- A mint that is told 404 for an id, and a second one for the same repository. -/
def goneEvents : List Event :=
  mintEvents 0 (ascii "Alice/Repo") [1, 2, 3] ++
    [.progress 0 (.response 404 none) ⟨0⟩, .progress 0 (.body []) ⟨0⟩] ++
    mintEvents 1 (ascii "alice/repo") [4, 5, 6]

theorem resolved_again_after_notFound_alice :
    ∃ pre l post g past, Run plainSetup .new (pre ++ l :: post) g ∧
      l.2 = [.answered 0 (plainSetup.mintRequest [] 3) 404 [], .invalidated 0 (ascii "alice/repo"),
        .returned 0 (ascii "Alice/Repo") (.error .repoNotFound)] ∧
      l.2.tail ++ actsOf post = past ++ [.sent 1 (plainSetup.mintRequest [] 3)] ∧
      ResolvedAs past (ascii "alice/repo") 3 := by
  obtain ⟨ls, g, hrun, hgone, hlast, hbefore, hcalled⟩ :=
    Lts.exists_run_of_exec (next plainSetup) .new goneEvents
      (fun _ ls => ls[9]?.map Prod.snd = some [.answered 0 (plainSetup.mintRequest [] 3) 404 [],
          .invalidated 0 (ascii "alice/repo"),
          .returned 0 (ascii "Alice/Repo") (.error .repoNotFound)] ∧
        (actsOf (ls.drop 10)).getLast? = some (.sent 1 (plainSetup.mintRequest [] 3)) ∧
        (called (ls.take 9 ++ ls[9]?.toList)).map RepoPath.key = [ascii "alice/repo"] ∧
        (called ls).map RepoPath.key = [ascii "alice/repo", ascii "alice/repo"])
      (by decide +kernel)
  obtain ⟨l, hget, hacts⟩ := Option.map_eq_some_iff.mp hgone
  rw [hget] at hbefore
  have hsplit := Lts.eq_take_append_cons hget
  rw [hsplit] at hrun
  have hseen : l.2.tail ++ actsOf (ls.drop 10) =
      (l.2.tail ++ (actsOf (ls.drop 10)).dropLast) ++ [.sent 1 (plainSetup.mintRequest [] 3)] := by
    rw [List.append_assoc, List.dropLast_append_getLast? _ hlast]
  refine ⟨_, l, _, g, _, hrun, hacts, hseen, ?_⟩
  have hj : (called (ls.take 9 ++ [l]))[0]?.map RepoPath.key = some (ascii "alice/repo") := by
    rw [← List.getElem?_map]
    exact congrArg (·[0]?) hbefore
  have hlen : (called (ls.take 9 ++ [l])).length ≤ 1 := by
    rw [← List.length_map RepoPath.key]
    exact (congrArg List.length hbefore).le
  have hi : (called (ls.take 9 ++ l :: ls.drop 10))[1]?.map RepoPath.key =
      some (ascii "alice/repo") := by
    rw [← hsplit, ← List.getElem?_map, hcalled]
    rfl
  have hsplit' : l.2 = [] ++ .answered 0 (plainSetup.mintRequest [] 3) 404 [] :: l.2.tail := by
    rw [hacts]
    rfl
  exact (resolved_again_after_notFound hrun hsplit' hj).1 1 hlen hi _ _ _ 3 hseen rfl

end GitHub

end Symbolon
