import Symbolon.Daemon.Mint
import Symbolon.State.Ledger

/-!
# Which providers a client can use

Every client of `clients.json` has a list of providers. A provider is called on behalf of a
client in two places (`Symbolon.CalledFor`): on a connection, where it is found by the host
of the request, and in the admin operation `mint`, where it is found by its kind. Both
check that the client is enrolled. **Neither reads the list**: a client whose list is empty
has tokens minted for it in both (`Symbolon.calledFor_unlisted`).

What keeps a client to its list is therefore what the list is. Enrolling writes the kind
that the operator asked for, and nothing else ever changes a list, so a client that has a kind on
its list, or is not enrolled, keeps it so through every enrolment, revocation, crash and restart
(`Symbolon.Run.lists`). A daemon only mints for clients that have the provider on their list, if
they had it in the file that the daemon was started on, or were not in it
(`Symbolon.enrolled_of_calledFor`).
-/

namespace Symbolon

open Text

/-- The client has the provider on its list, if it is in the table. -/
def Tables.Lists (t : Tables) (c : Identity) (kind : ProviderKind) : Prop :=
  ∀ client, t.clients.lookup c = some client → kind ∈ client.providers

/-! ### The lists through a run -/

section Lists

variable {kind : ProviderKind} {t : Tables} {c : Identity}

/-- A table that has fewer clients. -/
theorem Tables.Lists.eraseClient (h : t.Lists c kind) (x : Identity) :
    (t.eraseClient x).Lists c kind := by
  intro client hc
  by_cases hcx : c = x
  · subst hcx
    have hnone : (t.eraseClient c).clients.lookup c = none := Finmap.lookup_erase c t.clients
    rw [hnone] at hc
    cases hc
  · have hsame : (t.eraseClient x).clients.lookup c = t.clients.lookup c :=
      Finmap.lookup_erase_ne hcx
    exact h client (hsame ▸ hc)

/-- Enrolling puts the kind that was asked for on the list. -/
theorem Tables.Lists.enrol (h : t.Lists c kind) (x : Identity) (psk : Psk) (note : Option Note)
    (now : OffsetDateTime) : (t.enrol x psk kind note now).Lists c kind := by
  intro client hc
  by_cases hcx : c = x
  · subst hcx
    have hnew : (t.enrol c psk kind note now).clients.lookup c = some ⟨[kind], now, note⟩ :=
      Finmap.lookup_insert t.clients
    rw [hnew] at hc
    cases hc
    exact List.mem_singleton_self kind
  · have hsame : (t.enrol x psk kind note now).clients.lookup c = t.clients.lookup c :=
      Finmap.lookup_insert_of_ne t.clients hcx
    exact h client (hsame ▸ hc)

theorem Tables.Lists.unwind (h : t.Lists c kind) (call : Call) :
    (call.unwind t).Lists c kind := by
  cases call with
  | enroll client psk provider note => exact Tables.Lists.eraseClient (t := t.erasePsk client) h _
  | revoke client => exact h

/-- **A step keeps the list of a client**, in memory and as a restart would load it. -/
theorem Ledger.Step.lists {E : Prop} {a a' : Ledger} {m : Move} (h : Ledger.Step E a m a')
    (hl : a.mem.Lists c kind ∧ a.disk.Lists c kind) :
    a'.mem.Lists c kind ∧ a'.disk.Lists c kind := by
  obtain ⟨hmem, hdisk⟩ := hl
  cases h with
  | tau | refuse | revokeBegin | enrollNext | enrollOk | revokeNext => exact ⟨hmem, hdisk⟩
  | @enrollBegin m d client psk provider note now =>
    -- there is one kind of provider
    obtain rfl : provider = kind := by
      cases provider
      cases kind
      rfl
    exact ⟨hmem.enrol client psk note now, hdisk⟩
  | @land m d call file =>
    refine ⟨hmem, ?_⟩
    cases file with
    | psks => exact hdisk
    | clients =>
      cases call with
      | enroll client psk provider note => exact hmem
      | revoke client => exact hmem.eraseClient client
  | revokeOk => exact ⟨hmem.eraseClient _, hdisk⟩
  | @encodeFail m d client =>
    exact ⟨Tables.Lists.eraseClient (t := m.erasePsk client) hmem _, hdisk⟩
  | fail => exact ⟨hmem.unwind _, hdisk⟩
  | cancel => exact ⟨hmem.unwind _, hdisk⟩
  | crash => exact ⟨hdisk, hdisk⟩

/-- **A run keeps the list of a client**: if it had a kind on its list in the file the daemon was
started on, or was not in it, then at every moment it has the kind on its list, or is not
enrolled. -/
theorem Run.lists {C : Codecs} (hC : C.Lawful) {s₀ s : State} {ls : List Label}
    (h₀ : Started C s₀) (hrun : Run C s₀ ls s) (hl : s₀.tables.Lists c kind) :
    s.tables.Lists c kind := by
  obtain ⟨d, hledger, -⟩ := Run.ledger hC hrun (.of_started h₀)
  have hinv := hledger.invariant (I := fun a => a.mem.Lists c kind ∧ a.disk.Lists c kind)
    (fun _ _ _ ha hstep => hstep.lists ha) ⟨hl, hl⟩
  exact hinv.1

end Lists

/-! ### Minting on behalf of a client -/

variable {S : Snow} {cfg : Setup} {d₀ d d' : Daemon S} {l : DaemonLabel S}
  {pre : List (DaemonLabel S)} {c : Identity} {provider : Provider} {t : Tables}

/-- **The step calls a provider on behalf of a client**; `t` is what the tables were when
the client was authorised. -/
inductive CalledFor (cfg : Setup) (d₀ : Daemon S) (pre : List (DaemonLabel S)) (l : DaemonLabel S)
    (c : Identity) (provider : Provider) : Tables → Prop
  /-- On a connection; it was authorised when the client's key was injected. -/
  | wire {i : ℕ} {path : Bytes} {psk : Psk} {pre₁ mid : List (DaemonLabel S)} {k : DaemonLabel S}
      {d₁ d₂ d d' : Daemon S} (hrun : Daemon.Run cfg d₀ pre d) (hstep : Daemon.Step cfg d l d')
      (hmint : .mint provider path ∈ l.acts i) (hpre : pre = pre₁ ++ k :: mid)
      (hrun₁ : Daemon.Run cfg d₀ pre₁ d₁) (hstep₁ : Daemon.Step cfg d₁ k d₂)
      (hkey : .setPsk c psk true ∈ k.acts i) : CalledFor cfg d₀ pre l c provider d₁.state.tables
  /-- In the admin operation; it is authorised in the same step. -/
  | admin {path : Bytes} {d d' : Daemon S} (hrun : Daemon.Run cfg d₀ pre d)
      (hstep : Daemon.Step cfg d l d') (hmint : l.2 = .adminMint c path (.ok provider)) :
      CalledFor cfg d₀ pre l c provider d.state.tables

/-- Every call of a provider on a connection is on behalf of a client. -/
theorem calledFor_of_mint {i : ℕ} {path : Bytes} (h₀ : Daemon.Started cfg d₀)
    (hrun : Daemon.Run cfg d₀ pre d) (hstep : Daemon.Step cfg d l d')
    (hmint : .mint provider path ∈ l.acts i) : ∃ c t, CalledFor cfg d₀ pre l c provider t := by
  obtain ⟨m, -, -, -, hinj⟩ := Daemon.Run.minting_of_mint h₀ hrun hstep hmint
  have hset : .setPsk m.identity m.psk true ∈ actsOf i pre := by
    rw [← mem_injected_iff, hinj]
    exact List.mem_singleton_self _
  obtain ⟨pre₁, k, mid, d₁, d₂, hpre, hrun₁, hstep₁, hkey⟩ :=
    Daemon.Run.exists_step_of_mem hrun hset
  exact ⟨m.identity, d₁.state.tables, .wire hrun hstep hmint hpre hrun₁ hstep₁ hkey⟩

theorem Setup.mem_providers_of_handleMint {kind : ProviderKind}
    (h : cfg.handleMint t kind c = .ok provider) : c ∈ t.clients ∧ provider ∈ cfg.providers := by
  unfold Setup.handleMint at h
  split at h
  · cases h
  · rename_i hmem
    split at h
    · cases h
    · rename_i p hfind
      cases h
      exact ⟨not_not.mp hmem, List.mem_of_find?_eq_some hfind⟩

/-- The admin operation calls a configured provider for an enrolled client. -/
theorem Daemon.Step.of_adminMint {path : Bytes} (hstep : Daemon.Step cfg d l d')
    (hmint : l.2 = .adminMint c path (.ok provider)) :
    c ∈ d.state.tables.clients ∧ provider ∈ cfg.providers := by
  cases hstep.moves with
  | adminMint kind client path' =>
    injection hmint with hclient _ hresult
    exact Setup.mem_providers_of_handleMint (hclient ▸ hresult)
  | _ => cases hmint

/-- The tables along a run of a daemon are those along a run of the mutation machine. -/
theorem Daemon.Run.lists {kind : ProviderKind} {ls : List (DaemonLabel S)}
    (hC : cfg.codecs.Lawful) (h₀ : Daemon.Started cfg d₀) (hrun : Daemon.Run cfg d₀ ls d)
    (hl : d₀.state.tables.Lists c kind) : d.state.tables.Lists c kind :=
  Symbolon.Run.lists hC h₀.1 hrun.state hl

/-- The client was enrolled when it was authorised. -/
theorem CalledFor.mem_clients (hmint : CalledFor cfg d₀ pre l c provider t) : c ∈ t.clients := by
  cases hmint with
  | wire _ _ _ _ _ hstep₁ hkey => exact (hstep₁.tables_of_setPsk hkey).2
  | admin _ hstep hm => exact (hstep.of_adminMint hm).1

theorem CalledFor.mem_providers (h₀ : Daemon.Started cfg d₀)
    (hmint : CalledFor cfg d₀ pre l c provider t) : provider ∈ cfg.providers := by
  cases hmint with
  | wire hrun hstep hm =>
    obtain ⟨m, rfl, -⟩ := Daemon.Run.minting_of_mint h₀ hrun hstep hm
    exact m.configured
  | admin _ hstep hm => exact (hstep.of_adminMint hm).2

/-- What the tables were then is what they are after a part of the run. -/
theorem CalledFor.exists_run (hmint : CalledFor cfg d₀ pre l c provider t) :
    ∃ pre₁ mid d₁, pre = pre₁ ++ mid ∧ Daemon.Run cfg d₀ pre₁ d₁ ∧ t = d₁.state.tables := by
  cases hmint with
  | wire _ _ _ hpre hrun₁ => exact ⟨_, _, _, hpre, hrun₁, rfl⟩
  | admin hrun => exact ⟨pre, [], _, (List.append_nil _).symm, hrun, rfl⟩

/-- **For whom tokens are minted.** In every run of the daemon, on a connection and in the
admin operation: a provider is called on behalf of a client only if it is one that is
configured, and the client was enrolled when it was authorised. If the client's own entry in the
file that the daemon was started on has the provider's kind on its list, or there is none, then
the client had it on its list at that moment. -/
theorem enrolled_of_calledFor (hC : cfg.codecs.Lawful) (h₀ : Daemon.Started cfg d₀)
    (hmint : CalledFor cfg d₀ pre l c provider t) :
    provider ∈ cfg.providers ∧ ∃ client, t.clients.lookup c = some client ∧
      (d₀.state.tables.Lists c provider.kind → provider.kind ∈ client.providers) := by
  obtain ⟨client, hclient⟩ := Finmap.mem_iff.mp hmint.mem_clients
  obtain ⟨pre₁, mid, d₁, -, hrun₁, rfl⟩ := hmint.exists_run
  exact ⟨hmint.mem_providers h₀, client, hclient,
    fun hl => hrun₁.lists hC h₀ hl client hclient⟩

/-! ### A client with the provider on its list, and one without -/

theorem lookup_plainBoot {order : Order} {client : ResolvedClient}
    (h : (plainBoot order).tables.clients.lookup c = some client) :
    ⟨c, client⟩ ∈ order.clients := by
  have hlook : (plainBoot order).tables.clients.lookup c = order.clients.dlookup c :=
    Finmap.dlookup_list_toFinmap c order.clients
  exact List.of_mem_dlookup (hlook ▸ h)

theorem enrolled_of_calledFor_alice :
    ∃ pre l c t client, CalledFor plainSetup plainDaemon pre l c ⟨.github, ascii "github.com"⟩ t ∧
      t.clients.lookup c = some client ∧ .github ∈ client.providers := by
  obtain ⟨ls, u, hrun, hl⟩ :=
    Lts.exists_run_of_exec (Daemon.next plainSetup) plainDaemon
      (plainHandshake ++ arrive 0 plainAsk)
      (fun _ ls => ls[12]?.map (DaemonLabel.acts 0) =
        some [.mint ⟨.github, ascii "github.com"⟩ (ascii "o/r")])
      (by decide +kernel)
  obtain ⟨l, hl, hacts⟩ := Option.map_eq_some_iff.mp hl
  obtain ⟨s, t, hpre, hstep, -⟩ := hrun.split_at hl
  obtain ⟨c, tables, hmint⟩ := calledFor_of_mint plainDaemon_started hpre hstep
    (hacts ▸ List.mem_singleton_self _)
  have hlists : plainDaemon.state.tables.Lists c .github := by
    intro client hc
    have hmem := lookup_plainBoot hc
    cases List.mem_singleton.mp hmem
    decide
  obtain ⟨-, client, hclient, hlisted⟩ :=
    enrolled_of_calledFor plainCodecs_lawful plainDaemon_started hmint
  exact ⟨_, l, c, tables, client, hmint, hclient, hlisted hlists⟩

/-- `alice` with no provider on its list. -/
def unlistedOrder : Order := ⟨[⟨alice, Psk.filled 1⟩], [⟨alice, ⟨[], .unixEpoch, none⟩⟩]⟩

/-- A daemon that was started on that file. -/
def unlistedDaemon : Daemon (noise plainPrimitives) :=
  ⟨plainBoot unlistedOrder, freshLimiter 0, [], none⟩

theorem unlistedDaemon_started : Daemon.Started plainSetup unlistedDaemon :=
  ⟨plainBoot_started (by decide) (by decide), rfl, rfl⟩

/-- **The list is not read**: on a connection and in the admin operation, a token is minted
for a client that had no provider on its list when it was authorised. -/
theorem calledFor_unlisted :
    (∃ pre l path c t client, .mint ⟨.github, ascii "github.com"⟩ path ∈ DaemonLabel.acts 0 l ∧
      CalledFor plainSetup unlistedDaemon pre l c ⟨.github, ascii "github.com"⟩ t ∧
      t.clients.lookup c = some client ∧ client.providers = []) ∧
    ∃ l path t client, l.2 = .adminMint alice path (.ok ⟨.github, ascii "github.com"⟩) ∧
      CalledFor plainSetup unlistedDaemon [] l alice ⟨.github, ascii "github.com"⟩ t ∧
      t.clients.lookup alice = some client ∧ client.providers = [] := by
  have hempty : ∀ {c client}, unlistedDaemon.state.tables.clients.lookup c = some client →
      client.providers = [] := by
    intro c client hclient
    cases List.mem_singleton.mp (lookup_plainBoot hclient)
    rfl
  constructor
  · obtain ⟨ls, u, hrun, hl, hstate⟩ :=
      Lts.exists_run_of_exec (Daemon.next plainSetup) unlistedDaemon
        (plainHandshake ++ arrive 0 plainAsk)
        (fun _ ls => ls[12]?.map (DaemonLabel.acts 0) =
          some [.mint ⟨.github, ascii "github.com"⟩ (ascii "o/r")] ∧
          ls.filterMap DaemonLabel.state = [])
        (by decide +kernel)
    obtain ⟨l, hl, hacts⟩ := Option.map_eq_some_iff.mp hl
    obtain ⟨s, t, hpre, hstep, -⟩ := hrun.split_at hl
    have hm : .mint ⟨.github, ascii "github.com"⟩ (ascii "o/r") ∈ DaemonLabel.acts 0 l :=
      hacts ▸ List.mem_singleton_self _
    obtain ⟨c, tables, hmint⟩ := calledFor_of_mint unlistedDaemon_started hpre hstep hm
    obtain ⟨client, hclient⟩ := Finmap.mem_iff.mp hmint.mem_clients
    refine ⟨_, l, _, c, tables, client, hm, hmint, hclient, ?_⟩
    -- nothing has happened to the tables
    obtain ⟨pre₁, mid, d₁, hpre₁, hrun₁, rfl⟩ := hmint.exists_run
    have hnil : pre₁.filterMap DaemonLabel.state = [] := by
      refine List.eq_nil_of_subset_nil fun x hx => ?_
      rw [← hstate]
      obtain ⟨y, hy, hyx⟩ := List.mem_filterMap.mp hx
      have hsub : y ∈ ls := List.mem_of_mem_take (hpre₁ ▸ List.mem_append_left mid hy)
      exact List.mem_filterMap.mpr ⟨y, hsub, hyx⟩
    have hsame := hrun₁.state
    rw [hnil] at hsame
    exact hempty ((Lts.run_nil_iff.mp hsame) ▸ hclient)
  · obtain ⟨ls, u, hrun, hl⟩ :=
      Lts.exists_run_of_exec (Daemon.next plainSetup) unlistedDaemon
        [.adminMint .github alice (ascii "o/r")]
        (fun _ ls => ls[0]?.map Prod.snd =
          some (.adminMint alice (ascii "o/r") (.ok ⟨.github, ascii "github.com"⟩)))
        (by decide +kernel)
    obtain ⟨l, hl, hout⟩ := Option.map_eq_some_iff.mp hl
    obtain ⟨s, t, hpre, hstep, -⟩ := hrun.split_at hl
    have hmint : CalledFor plainSetup unlistedDaemon _ l alice _ s.state.tables :=
      .admin hpre hstep hout
    rw [List.take_zero, Lts.run_nil_iff] at hpre
    obtain ⟨client, hclient⟩ := Finmap.mem_iff.mp hmint.mem_clients
    exact ⟨l, _, _, client, hout, hmint, hclient, hempty (hpre ▸ hclient)⟩

end Symbolon
