import Symbolon.Daemon

/-!
# Starting the daemon

The configuration of `src/config.rs` and the startup of `src/daemon.rs`. A configuration is
parsed and its signing backend validated (`Symbolon.Config.parse`); the daemon is then prepared
in three phases (`Symbolon.prepare`): acquire what the sandbox is going to deny, close the
sandbox, start the signing backend and build the providers.

A validated configuration has the section its backend reads, so none of the `expect`s of the
startup is ever reached (`Symbolon.prepare_ne_none`). It need not have a provider, though. The
comment on `Providers` says that the daemon does not start without one; nothing checks that, and
a daemon without a provider starts like any other: what is configured is what can be looked up
(`Symbolon.isSome_lookupProvider_of_prepare`).
-/

namespace Symbolon

open Text

/-! ### The configuration -/

/-- Where the App's key is. -/
inductive AppKeyBackend
  /-- In a TPM. -/
  | tpm
  /-- In a file, with a process of its own. -/
  | file
  deriving DecidableEq

/-- The section `[provider.github.tpm]`. -/
structure ProviderGithubTpm where
  /-- The device. -/
  device : Bytes
  /-- The handle of the key. -/
  persistentHandle : UInt32
  deriving DecidableEq

/-- The section `[provider.github]`, as far as the startup reads it. -/
structure ProviderGithub where
  /-- The host that is served. -/
  host : Bytes
  /-- The base of the API's URLs. -/
  apiBase : Bytes
  /-- The signing backend. -/
  appKeyBackend : AppKeyBackend
  /-- The file of the App's key. -/
  privateKeyPath : Option Bytes
  /-- The TPM section. -/
  tpm : Option ProviderGithubTpm
  deriving DecidableEq

/-- The table `[provider]`. -/
structure Providers where
  /-- GitHub. -/
  github : Option ProviderGithub
  deriving DecidableEq

/-- A configuration, as far as the startup reads it. -/
structure Config where
  /-- The providers. -/
  provider : Providers
  deriving DecidableEq

/-- Why a configuration is refused. -/
inductive ParseError
  /-- It is not TOML, or not of the schema. -/
  | toml (source : SerdeError)
  /-- The signing backend and its section do not agree. -/
  | backend (message : Bytes)
  deriving DecidableEq

/-- `validate_backend`. -/
def ProviderGithub.validateBackend (gh : ProviderGithub) : Except ParseError Unit :=
  match gh.appKeyBackend with
  | .tpm =>
    if gh.tpm.isNone then
      .error (.backend (ascii
        "app_key_backend = \"tpm\" requires a [provider.github.tpm] section"))
    else if gh.privateKeyPath.isSome then
      .error (.backend (ascii
        "private_key_path is not used with app_key_backend = \"tpm\"; remove it"))
    else .ok ()
  | .file =>
    if gh.privateKeyPath.isNone then
      .error (.backend (ascii "app_key_backend = \"file\" requires private_key_path"))
    else if gh.tpm.isSome then
      .error (.backend (ascii
        "[provider.github.tpm] is not used with app_key_backend = \"file\"; remove it"))
    else .ok ()

/-- `Config::parse`, over the reader of the TOML. -/
def Config.parse (fromStr : Bytes → Except SerdeError Config) (text : Bytes) :
    Except ParseError Config :=
  match fromStr text with
  | .error e => .error (.toml e)
  | .ok cfg =>
    match cfg.provider.github with
    | none => .ok cfg
    | some gh =>
      match gh.validateBackend with
      | .error e => .error e
      | .ok () => .ok cfg

/-- The section of the backend is there. -/
def ProviderGithub.HasBackend (gh : ProviderGithub) : Prop :=
  match gh.appKeyBackend with
  | .tpm => gh.tpm.isSome = true
  | .file => gh.privateKeyPath.isSome = true

theorem ProviderGithub.hasBackend_of_validateBackend {gh : ProviderGithub}
    (h : gh.validateBackend = .ok ()) : gh.HasBackend := by
  rcases hb : gh.appKeyBackend with - | - <;>
    simp only [validateBackend, HasBackend, hb] at h ⊢ <;> split at h
  · cases h
  · rename_i hsome
    simpa [Option.isSome_iff_ne_none] using hsome
  · cases h
  · rename_i hsome
    simpa [Option.isSome_iff_ne_none] using hsome

theorem Config.hasBackend_of_parse {fromStr : Bytes → Except SerdeError Config} {text : Bytes}
    {cfg : Config} (h : Config.parse fromStr text = .ok cfg) :
    ∀ gh, cfg.provider.github = some gh → gh.HasBackend := by
  intro gh hgh
  rcases hs : fromStr text with e | cfg'
  · simp [parse, hs] at h
  · rcases hgh' : cfg'.provider.github with - | gh'
    · simp only [parse, hs, hgh', Except.ok.injEq] at h
      rw [← h, hgh'] at hgh
      cases hgh
    · rcases hv : gh'.validateBackend with e | ⟨⟩
      · simp [parse, hs, hgh', hv] at h
      · simp only [parse, hs, hgh', hv, Except.ok.injEq] at h
        rw [← h, hgh'] at hgh
        cases hgh
        exact ProviderGithub.hasBackend_of_validateBackend hv

/-! ### The startup -/

/-- Why the daemon does not start. -/
inductive StartupError
  /-- The state files could not be loaded. -/
  | load (source : DaemonError)
  /-- The broker's key could not be read. -/
  | brokerKey (message : Bytes)
  /-- The path of the executable could not be determined. -/
  | currentExe (source : IoError)
  /-- The signing backend could not be started, or failed its check. -/
  | signingBackend (message : Bytes)
  /-- The sandbox could not be closed. -/
  | sandbox (message : Bytes)
  /-- The GitHub provider could not be constructed. -/
  | github (message : Bytes)
  deriving DecidableEq

/-- A signing backend before its thread is started. -/
inductive SpawnedBackend
  /-- The process that holds the key. -/
  | agent (exe keyPath : Bytes)
  /-- The open device. -/
  | tpm (device : Bytes) (persistentHandle : UInt32)
  deriving DecidableEq

/-- **What the startup gets from the machine it runs on.** -/
structure Host where
  /-- The broker's key. -/
  loadBrokerKey : Except Bytes BrokerPrivateKey
  /-- The path of the executable. -/
  currentExe : Except IoError Bytes
  /-- Starting a signing backend. -/
  spawn : SpawnedBackend → Except Bytes Unit
  /-- Closing the sandbox. -/
  applySandbox : Except Bytes Unit
  /-- The backend's check of itself. -/
  selfCheck : SpawnedBackend → Except Bytes Unit
  /-- Building the HTTP client for a base URL. -/
  client : Bytes → Except Bytes Unit

variable (H : Host)

/-- Start a backend. -/
def Host.spawned (backend : SpawnedBackend) : Except StartupError SpawnedBackend :=
  match H.spawn backend with
  | .error e => .error (.signingBackend e)
  | .ok () => .ok backend

/-- `spawn_signing_backend`; `none` if an `expect` fails. -/
def spawnSigningBackend (gh : ProviderGithub) : Option (Except StartupError SpawnedBackend) :=
  match gh.appKeyBackend with
  | .file =>
    match gh.privateKeyPath with
    | none => none
    | some keyPath =>
      match H.currentExe with
      | .error e => some (.error (.currentExe e))
      | .ok exe => some (H.spawned (.agent exe keyPath))
  | .tpm =>
    match gh.tpm with
    | none => none
    | some tpm => some (H.spawned (.tpm tpm.device tpm.persistentHandle))

/-- What `Acquired::acquire` does with the provider's section. -/
def acquireBackend (cfg : Config) : Option (Except StartupError (Option SpawnedBackend)) :=
  match cfg.provider.github with
  | none => some (.ok none)
  | some gh =>
    match spawnSigningBackend H gh with
    | none => none
    | some (.error e) => some (.error e)
    | some (.ok spawned) => some (.ok (some spawned))

/-- `GitHubProvider::new`: the base loses its trailing slashes. -/
def newProvider (gh : ProviderGithub) : Except StartupError Provider :=
  match H.client (gh.apiBase.rdropWhile fun b => b == 0x2F) with
  | .error e => .error (.github e)
  | .ok () => .ok ⟨.github, gh.host⟩

/-- **`build_providers`**; `none` if its `expect` fails. -/
def buildProviders (cfg : Config) (githubSpawn : Option SpawnedBackend) :
    Option (Except StartupError (List Provider)) :=
  match cfg.provider.github with
  | none => some (.ok [])
  | some gh =>
    match githubSpawn with
    | none => none
    | some signer =>
      match H.selfCheck signer with
      | .error e => some (.error (.signingBackend e))
      | .ok () =>
        match newProvider H gh with
        | .error e => some (.error e)
        | .ok provider => some (.ok [provider])

/-- The second and the third phase: close the sandbox, and build the providers. -/
def sealPhase (C : Codecs) (cfg : Config) (key : BrokerPrivateKey) (tables : Tables)
    (githubSpawn : Option SpawnedBackend) : Option (Except StartupError (Setup × Tables)) :=
  match H.applySandbox with
  | .error e => some (.error (.sandbox e))
  | .ok () =>
    match buildProviders H cfg githubSpawn with
    | none => none
    | some (.error e) => some (.error e)
    | some (.ok providers) => some (.ok (⟨C, key, providers⟩, tables))

/-- **Preparing the daemon** on the given files: what it is set up with, and the tables it
starts with. `none` is a panic. -/
def prepare (C : Codecs) (cfg : Config) (disk : Disk) :
    Option (Except StartupError (Setup × Tables)) :=
  match acquire C disk with
  | .error e => some (.error (.load e))
  | .ok tables =>
    match H.loadBrokerKey with
    | .error e => some (.error (.brokerKey e))
    | .ok key =>
      match acquireBackend H cfg with
      | none => none
      | some (.error e) => some (.error e)
      | some (.ok githubSpawn) => sealPhase H C cfg key tables githubSpawn

/-! ### What has been prepared -/

variable {H} {C : Codecs} {config : Config} {disk : Disk} {cfg : Setup} {tables : Tables}

theorem spawnSigningBackend_ne_none {gh : ProviderGithub} (h : gh.HasBackend) :
    spawnSigningBackend H gh ≠ none := by
  rcases hb : gh.appKeyBackend with - | - <;> simp only [ProviderGithub.HasBackend, hb] at h <;>
    obtain ⟨x, hx⟩ := Option.isSome_iff_exists.mp h <;> simp only [spawnSigningBackend, hb, hx]
  · simp
  · split <;> simp

/-- A backend is acquired exactly when a provider is configured. -/
theorem isSome_of_acquireBackend {spawned : Option SpawnedBackend}
    (h : acquireBackend H config = some (.ok spawned)) :
    spawned.isSome = config.provider.github.isSome := by
  simp only [acquireBackend] at h
  split at h
  · rename_i hgh
    cases h
    rw [hgh]
    rfl
  · rename_i gh hgh
    split at h <;> cases h
    rw [hgh]
    rfl

theorem buildProviders_ne_none {spawned : Option SpawnedBackend}
    (h : spawned.isSome = config.provider.github.isSome) :
    buildProviders H config spawned ≠ none := by
  simp only [buildProviders]
  split
  · simp
  · rename_i gh hgh
    rw [hgh] at h
    obtain ⟨signer, rfl⟩ := Option.isSome_iff_exists.mp h
    dsimp only
    split
    · simp
    · split <;> simp

theorem sealPhase_ne_none {key : BrokerPrivateKey} {spawned : Option SpawnedBackend}
    (h : spawned.isSome = config.provider.github.isSome) :
    sealPhase H C config key tables spawned ≠ none := by
  simp only [sealPhase]
  split
  · simp
  · split
    · rename_i hnone
      exact absurd hnone (buildProviders_ne_none h)
    · simp
    · simp

/-- **The startup of a parsed configuration does not panic.** -/
theorem prepare_ne_none {fromStr : Bytes → Except SerdeError Config} {text : Bytes}
    (h : Config.parse fromStr text = .ok config) : prepare H C config disk ≠ none := by
  simp only [prepare]
  split
  · simp
  · split
    · simp
    · split
      · rename_i hnone
        simp only [acquireBackend] at hnone
        split at hnone
        · cases hnone
        · rename_i gh hgh
          split at hnone
          · rename_i hspawn
            exact absurd hspawn
              (spawnSigningBackend_ne_none (Config.hasBackend_of_parse h gh hgh))
          · cases hnone
          · cases hnone
      · simp
      · rename_i hspawn
        exact sealPhase_ne_none (isSome_of_acquireBackend hspawn)

/-- The providers that are built are those that are configured. -/
theorem providers_of_buildProviders {spawned : Option SpawnedBackend} {providers : List Provider}
    (h : buildProviders H config spawned = some (.ok providers)) :
    providers = (config.provider.github.map fun gh => ⟨.github, gh.host⟩).toList := by
  simp only [buildProviders] at h
  split at h
  · rename_i hgh
    cases h
    rw [hgh]
    rfl
  · rename_i gh hgh
    rw [hgh]
    split at h
    · cases h
    · split at h
      · cases h
      · split at h
        · cases h
        · rename_i provider hnew
          cases h
          simp only [newProvider] at hnew
          split at hnew <;> cases hnew
          rfl

theorem prepare_eq_ok (h : prepare H C config disk = some (.ok (cfg, tables))) :
    acquire C disk = .ok tables ∧ cfg.codecs = C ∧
      cfg.providers = (config.provider.github.map fun gh => ⟨.github, gh.host⟩).toList := by
  simp only [prepare] at h
  split at h
  · cases h
  · rename_i t hacq
    split at h
    · cases h
    · split at h
      · cases h
      · cases h
      · simp only [sealPhase] at h
        split at h
        · cases h
        · split at h
          · cases h
          · cases h
          · rename_i hbuild
            cases h
            exact ⟨hacq, rfl, providers_of_buildProviders hbuild⟩

/-- **What can be looked up is what is configured**, and that may be nothing. -/
theorem isSome_lookupProvider_of_prepare (h : prepare H C config disk = some (.ok (cfg, tables)))
    (kind : ProviderKind) :
    (cfg.lookupProvider kind).isSome = config.provider.github.isSome := by
  obtain ⟨-, -, hproviders⟩ := prepare_eq_ok h
  cases kind
  rw [Setup.lookupProvider, hproviders]
  cases config.provider.github <;> rfl

end Symbolon
