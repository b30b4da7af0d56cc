import Symbolon.Admin.Agreement
import Symbolon.Daemon.Startup
import Symbolon.State.Serving

/-!
# Revoking undoes enrolling

Enrolling a client that is in neither table and revoking it again should leave the tables and
the files as they were. On the tables that is so (`Symbolon.Admin.tables_eq_of_undo`). The two
handlers do not check the same thing, though: `handle_revoke` looks its provider up and refuses
when it is not configured, `handle_enroll` does not look. So **the revocation is acknowledged
exactly when the provider is configured** (`Symbolon.Admin.revoke_ack_iff`), and a daemon that
is started without one – nothing at the startup prevents that – enrols clients that no admin
request can revoke (`Symbolon.Admin.exists_enroll_not_revoked`).
-/

namespace Symbolon

open Text

theorem Tables.ext_entry {t t' : Tables} (h : ∀ x, t.entry x = t'.entry x) : t = t' := by
  obtain ⟨psks, clients⟩ := t
  obtain ⟨psks', clients'⟩ := t'
  exact (Tables.mk.injEq ..).mpr ⟨Finmap.ext_lookup fun x => congrArg Prod.fst (h x),
    Finmap.ext_lookup fun x => congrArg Prod.snd (h x)⟩

theorem Tables.entry_eq_none {t : Tables} {x : Identity} (hp : x ∉ t.psks) (hc : x ∉ t.clients) :
    t.entry x = (none, none) :=
  Prod.ext (Finmap.lookup_eq_none.mpr hp) (Finmap.lookup_eq_none.mpr hc)

namespace Admin

/-! ### Serving a request -/

/-- The call that the handler of a request makes, if it comes to make one. -/
def callOf (cfg : Setup) : Request → Option Call
  | .enroll provider client psk note => some (.enroll client psk provider note)
  | .revoke provider client => (cfg.lookupProvider provider).map fun _ => .revoke client
  | _ => none

variable {Value : Type} (cfg : Setup) (brokerPublic : BrokerPublicKey)

/-- **A request is served** by a run of the machine: the handler makes its call, the call
returns, and the response is made of what it returned. -/
def Served (request : Request) (s : State) (ls : List Label) (response : Result Value)
    (u : State) : Prop :=
  ∃ w : World Value, response = dispatch cfg brokerPublic s.tables w request ∧
    match callOf cfg request with
    | none => ls = [] ∧ u = s
    | some call => Run cfg.codecs s ls u ∧ Returns call w.mutation ls

variable {cfg brokerPublic} {s s₁ u t : State} {ls ls' pre post : List Label}
  {response : Result Value} {provider : ProviderKind} {client x : Identity} {psk : Psk}
  {note : Option Note}

theorem ackOf_eq_ok_iff {result : Except StateMutationError Unit} {data : Data Value} :
    ackOf result = .ok data ↔ result = .ok () ∧ data = .ack := by
  rcases result with e | ⟨⟩ <;> simp [ackOf, eq_comm]

/-- An acknowledged enrolment is one that returned `Ok`. -/
theorem returns_of_served_enroll {data : Data Value}
    (h : Served cfg brokerPublic (.enroll provider client psk note) s ls (.ok data) s₁) :
    Run cfg.codecs s ls s₁ ∧ Returns (.enroll client psk provider note) (.ok ()) ls := by
  obtain ⟨w, hack, hrun, hr⟩ := h
  obtain ⟨hok, -⟩ := ackOf_eq_ok_iff.mp hack.symm
  exact ⟨hrun, hok ▸ hr⟩

/-- The rest of the world, when only the result of the mutation matters. -/
def World.ofMutation (mutation : Except StateMutationError Unit) : World Value :=
  ⟨0, [], [], mutation, .error .cancelled, .error .cancelled, fun _ => []⟩

/-- Without its provider, a revocation is refused and does nothing. -/
theorem served_revoke_of_none (h : cfg.lookupProvider provider = none) :
    Served cfg brokerPublic (.revoke provider client) s ls response u ↔
      response = .error (.unknownProvider provider) ∧ ls = [] ∧ u = s := by
  simp only [Served, dispatch, handleRevoke, callOf, h, Option.map_none, exists_and_right]
  exact and_congr_left fun _ => ⟨fun hw => hw.choose_spec, fun hr => ⟨.ofMutation (.ok ()), hr⟩⟩

/-- With its provider, a revocation is what its call is. -/
theorem served_revoke_of_isSome (h : (cfg.lookupProvider provider).isSome = true) :
    Served cfg brokerPublic (.revoke provider client) s ls response u ↔
      ∃ result, response = ackOf result ∧ Run cfg.codecs s ls u ∧
        Returns (.revoke client) result ls := by
  obtain ⟨p, hp⟩ := Option.isSome_iff_exists.mp h
  simp only [Served, dispatch, handleRevoke, callOf, hp, Option.map_some]
  exact ⟨fun hw => ⟨_, hw.choose_spec⟩, fun hr => ⟨.ofMutation hr.choose, hr.choose_spec⟩⟩

/-! ### The two requests in a row -/

section

variable {C : Codecs} (hC : C.Lawful) (hs : Reachable C s) (hrun : Run C s ls s₁)
  (hr : Returns (.enroll client psk provider note) (.ok ()) ls)

include hC hs hrun hr

/-- Nothing stands in the way of the revocation. -/
theorem going_of_enrolled : s₁.holder = none ∧ Going (.revoke client) s₁ := by
  obtain ⟨hfree, -, now, hentry⟩ := hr.done hC hs hrun
  have hmem : client ∈ s₁.tables.clients :=
    Finmap.mem_iff.mpr ⟨_, congrArg Prod.snd hentry⟩
  refine ⟨hfree, fun _ hnot => hnot hmem, fun h hh => ?_⟩
  rw [hfree] at hh
  cases hh

/-- **On the tables, revoking undoes enrolling.** -/
theorem tables_eq_of_undo (hp : client ∉ s.tables.psks) (hc : client ∉ s.tables.clients)
    (hrun' : Run C s₁ ls' u) (hr' : Returns (.revoke client) (.ok ()) ls') :
    u.tables = s.tables := by
  have hs₁ := hs.run hrun
  refine Tables.ext_entry fun x => ?_
  rcases eq_or_ne x client with rfl | hx
  · exact (hr'.done hC hs₁ hrun').2.2.trans (Tables.entry_eq_none hp hc).symm
  · have h₁ := hr.untouched hC hs hrun (List.append_nil ls).symm hrun hx
    have h₂ := hr'.untouched hC hs₁ hrun' (List.append_nil ls').symm hrun' hx
    exact (Untouched.trans h₁ h₂).1

/-- The other clients are untouched at every moment of the two. -/
theorem untouched_of_undo {result : Except StateMutationError Unit} (hrun' : Run C s₁ ls' u)
    (hr' : Returns (.revoke client) result ls') (hls : ls ++ ls' = pre ++ post)
    (hpre : Run C s pre t) (hx : x ≠ client) : Untouched C s t x := by
  obtain ⟨mid, rfl, hpost⟩ | ⟨mid, rfl, hpost⟩ := List.append_eq_append_iff.mp hls
  · -- the moment is after the enrolment
    obtain ⟨s₁', hfirst, hmid⟩ := Lts.run_append_iff.mp hpre
    cases hrun.unique hfirst
    have h₁ := hr.untouched hC hs hrun (List.append_nil ls).symm hrun hx
    exact h₁.trans (hr'.untouched hC (hs.run hrun) hrun' hpost hmid hx)
  · exact hr.untouched hC hs hrun rfl hpre hx

end

/-- **The revocation that follows an acknowledged enrolment is acknowledged exactly when a
provider is configured.** It can always be served. When it is acknowledged, the tables are those
before the enrolment and the files load as them; and no other client is touched at any moment,
whatever the response. -/
theorem revoke_ack_iff {C : Codecs} {H : Host} {config : Config} {disk : Disk} {tables : Tables}
    {past : List Label} (hC : C.Lawful) (hprep : prepare H C config disk = some (.ok (cfg, tables)))
    (hpast : Run C ⟨tables, disk, none, []⟩ past s) (hp : client ∉ s.tables.psks)
    (hc : client ∉ s.tables.clients)
    (henroll : Served cfg brokerPublic (.enroll provider client psk note) s ls
      (.ok .ack : Result Value) s₁) :
    (∃ ls' u, ∃ response : Result Value,
        Served cfg brokerPublic (.revoke provider client) s₁ ls' response u ∧ WritesSucceed ls') ∧
      ∀ ls' u, ∀ response : Result Value,
        Served cfg brokerPublic (.revoke provider client) s₁ ls' response u → WritesSucceed ls' →
          (response = .ok .ack ↔ config.provider.github.isSome = true) ∧
          (response = .ok .ack → u.tables = s.tables ∧ acquire C u.disk = .ok s.tables) ∧
          ∀ pre post t x, ls ++ ls' = pre ++ post → Run C s pre t → x ≠ client →
            Untouched C s t x := by
  obtain ⟨hload, rfl, -⟩ := prepare_eq_ok hprep
  have hs : Reachable cfg.codecs s := ⟨_, past, ⟨hload, rfl, rfl⟩, hpast⟩
  obtain ⟨hrun, hr⟩ := returns_of_served_enroll henroll
  obtain ⟨hfree, hgoing⟩ := going_of_enrolled hC hs hrun hr
  have hlookup := isSome_lookupProvider_of_prepare hprep provider
  rw [← hlookup]
  rcases hfound : cfg.lookupProvider provider with - | p
  · refine ⟨⟨[], s₁, _, (served_revoke_of_none hfound).mpr ⟨rfl, rfl, rfl⟩,
      by simp [WritesSucceed]⟩, ?_⟩
    intro ls' u response hserved _
    obtain ⟨rfl, rfl, rfl⟩ := (served_revoke_of_none hfound).mp hserved
    refine ⟨by simp, fun h => (by cases h), fun pre post t x hls hpre hx => ?_⟩
    exact hr.untouched hC hs hrun ((List.append_nil ls).symm.trans hls) hpre hx
  · have hsome : (cfg.lookupProvider provider).isSome = true := by rw [hfound]; rfl
    obtain ⟨ls₀, u₀, hrun₀, hr₀, hok₀⟩ := servable_of_not_refused hC hfree (hgoing.admitted hfree)
    refine ⟨⟨ls₀, u₀, _, (served_revoke_of_isSome hsome).mpr ⟨_, rfl, hrun₀, hr₀⟩, hok₀⟩, ?_⟩
    intro ls' u response hserved hok
    obtain ⟨result, rfl, hrun', hr'⟩ := (served_revoke_of_isSome hsome).mp hserved
    cases hr'.eq_ok hC hrun' hgoing hok
    have htables := tables_eq_of_undo hC hs hrun hr hp hc hrun' hr'
    refine ⟨iff_of_true rfl rfl, fun _ => ⟨htables, ?_⟩, fun pre post t x hls hpre hx => ?_⟩
    · exact htables ▸ (hr'.done hC (hs.run hrun) hrun').2.1
    · exact untouched_of_undo hC hs hrun hr hrun' hr' hls hpre hx

/-! ### A client that cannot be revoked -/

/-- A machine on which every step of the startup succeeds. -/
def plainHost : Host :=
  ⟨.ok plainKey, .ok [], fun _ => .ok (), .ok (), fun _ => .ok (), fun _ => .ok ()⟩

/-- The daemon has just been started, with no client. -/
def emptyBoot : State := plainBoot (plainOrder [])

/-- A configuration without a provider. -/
def bareConfig : Config := ⟨⟨none⟩⟩

/-- A configuration with the file backend. -/
def githubConfig : Config :=
  ⟨⟨some ⟨ascii "github.com", ascii "https://api.github.com", .file,
    some (ascii "/etc/symbolon/github-app.pem"), none⟩⟩⟩

theorem acquire_emptyBoot : acquire plainCodecs emptyBoot.disk = .ok emptyBoot.tables :=
  (plainBoot_started (by decide) (by decide)).1

/-- The daemon starts with either. -/
theorem prepare_bareConfig : prepare plainHost plainCodecs bareConfig emptyBoot.disk =
    some (.ok (⟨plainCodecs, plainKey, []⟩, emptyBoot.tables)) := by
  rw [prepare, acquire_emptyBoot]
  rfl

theorem prepare_githubConfig : prepare plainHost plainCodecs githubConfig emptyBoot.disk =
    some (.ok (⟨plainCodecs, plainKey, [⟨.github, ascii "github.com"⟩]⟩, emptyBoot.tables)) := by
  rw [prepare, acquire_emptyBoot]
  rfl

theorem notMem_emptyBoot (x : Identity) :
    x ∉ emptyBoot.tables.psks ∧ x ∉ emptyBoot.tables.clients :=
  ⟨Finmap.notMem_empty, Finmap.notMem_empty⟩

/-- The request to enrol `alice`. -/
abbrev enrollAlice : Request := .enroll .github alice (Psk.filled 1) none

/-- Enrolling `alice` is acknowledged, with whatever providers. -/
theorem exists_served_enrollAlice (providers : List Provider) :
    ∃ ls s₁, Served ⟨plainCodecs, plainKey, providers⟩ plainPublic enrollAlice emptyBoot ls
      (.ok .ack : Result Unit) s₁ ∧ WritesSucceed ls := by
  have hadm : ¬(Call.enroll alice (Psk.filled 1) .github none).Refused emptyBoot.tables :=
    (notMem_emptyBoot alice).2
  obtain ⟨ls, s₁, hrun, hr, hok⟩ := servable_of_not_refused plainCodecs_lawful rfl hadm
  exact ⟨ls, s₁, ⟨.ofMutation (.ok ()), rfl, hrun, hr⟩, hok⟩

theorem revoke_ack_iff_githubConfig :
    ∃ ls s₁ ls' u, ∃ response : Result Unit,
      Served ⟨plainCodecs, plainKey, [⟨.github, ascii "github.com"⟩]⟩ plainPublic enrollAlice
        emptyBoot ls (.ok .ack : Result Unit) s₁ ∧
      Served ⟨plainCodecs, plainKey, [⟨.github, ascii "github.com"⟩]⟩ plainPublic
        (.revoke .github alice) s₁ ls' response u ∧ WritesSucceed ls' ∧
      response = .ok .ack ∧ u.tables = emptyBoot.tables := by
  obtain ⟨ls, s₁, henroll, -⟩ := exists_served_enrollAlice [⟨.github, ascii "github.com"⟩]
  obtain ⟨⟨ls', u, response, hserved, hok⟩, hall⟩ := revoke_ack_iff plainCodecs_lawful
    prepare_githubConfig (.nil _) (notMem_emptyBoot alice).1 (notMem_emptyBoot alice).2 henroll
  obtain ⟨hiff, hundo, -⟩ := hall ls' u response hserved hok
  exact ⟨ls, s₁, ls', u, response, henroll, hserved, hok, hiff.mpr rfl, (hundo (hiff.mpr rfl)).1⟩

/-- **A client that is enrolled and cannot be revoked**: the configuration is parsed, the daemon
starts with it, the enrolment of `alice` is acknowledged with all its writes done; and every
revocation of `alice` is refused, with `alice` left in both tables. -/
theorem exists_enroll_not_revoked :
    ∃ fromStr text config cfg ls s₁, Config.parse fromStr text = .ok config ∧
      prepare plainHost plainCodecs config emptyBoot.disk = some (.ok (cfg, emptyBoot.tables)) ∧
      Started plainCodecs emptyBoot ∧
      alice ∉ emptyBoot.tables.psks ∧ alice ∉ emptyBoot.tables.clients ∧
      Served cfg plainPublic enrollAlice emptyBoot ls (.ok .ack : Result Unit) s₁ ∧
      WritesSucceed ls ∧
      ∀ ls' u, ∀ response : Result Unit,
        Served cfg plainPublic (.revoke .github alice) s₁ ls' response u →
          response = .error ⟨ascii "provider 'github' not configured"⟩ ∧ u = s₁ ∧
            alice ∈ u.tables.psks ∧ alice ∈ u.tables.clients := by
  obtain ⟨ls, s₁, henroll, hok⟩ := exists_served_enrollAlice []
  refine ⟨fun _ => .ok bareConfig, [], bareConfig, _, ls, s₁, rfl, prepare_bareConfig,
    plainBoot_started (by decide) (by decide), (notMem_emptyBoot alice).1,
    (notMem_emptyBoot alice).2, henroll, hok, fun ls' u response hserved => ?_⟩
  obtain ⟨hrun, hr⟩ := returns_of_served_enroll henroll
  have hs : Reachable plainCodecs emptyBoot :=
    ⟨_, [], plainBoot_started (by decide) (by decide), .nil _⟩
  obtain ⟨-, -, now, hentry⟩ := hr.done plainCodecs_lawful hs hrun
  obtain ⟨rfl, -, rfl⟩ := (served_revoke_of_none rfl).mp hserved
  exact ⟨rfl, rfl, Finmap.mem_iff.mpr ⟨_, congrArg Prod.fst hentry⟩,
    Finmap.mem_iff.mpr ⟨_, congrArg Prod.snd hentry⟩⟩

end Admin

end Symbolon
