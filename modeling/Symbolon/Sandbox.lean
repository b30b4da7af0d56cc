import Symbolon.Admin.Undo
import Symbolon.Lib.Landlock

/-!
# The sandbox

`apply` of `src/sandbox.rs`, and `apply_sandbox` of `src/daemon.rs`, which tells it what the daemon
still needs: the two state files and the directories they are in, the directory of the pidfile,
certificates, the files of the resolver, random numbers. Whatever is not beneath one of these is
out of reach from then on, for all that a process can do to files
(`Symbolon.key_out_of_reach`): a broker that has been taken over cannot read the keys of
`/etc/symbolon` again, nor learn anything of them, nor replace them, unless one of them is
beneath a directory that is granted. The atomic writes of the state files and of the pidfile
are not hindered (`Symbolon.atomicWrite_unhindered`).

The sandbox opens every file it is told of. So the startup fails if there is no PSK file, which
`load_psk_store` takes for a fresh deployment, unless there is no sandbox
(`Symbolon.prepare_of_no_pskFile`).

The crate and the kernel are a parameter (`Symbolon.Kernel`), with what is assumed of them. Paths
are absolute and have no symbolic links in them.
-/

namespace Symbolon

open Text Landlock

/-! ### The source -/

/-- A path, by its components. -/
abbrev Path := List Bytes

/-- `Path::parent`. -/
def parent (p : Path) : Option Path := if p = [] then none else some p.dropLast

/-- `SandboxMode`. -/
inductive SandboxMode
  /-- Refuse to start if the kernel cannot enforce all of it. -/
  | required
  /-- Apply what the kernel supports. -/
  | bestEffort
  /-- No sandbox. -/
  | off
  deriving DecidableEq

/-- `CompatLevel` of the crate. -/
inductive CompatLevel
  /-- Whatever is not supported is an error. -/
  | hardRequirement
  /-- Whatever is not supported is left out. -/
  | bestEffort
  deriving DecidableEq

/-- `SandboxPaths`: what the daemon needs later. -/
structure SandboxPaths where
  /-- Files to read. -/
  readFiles : List Path
  /-- Directories to read. -/
  readDirs : List Path
  /-- Files to read, if they are there. -/
  resolvFiles : List Path
  /-- Directories of files that are written. -/
  writeParentDirs : List Path

/-- All of them. -/
def SandboxPaths.all (paths : SandboxPaths) : List Path :=
  paths.readFiles ++ paths.readDirs ++ paths.resolvFiles ++ paths.writeParentDirs

/-- An error of the crate. -/
abbrev RulesetError := Bytes

/-- A path that cannot be opened. -/
inductive PathFdError
  /-- There is nothing. -/
  | notFound
  /-- There is something wrong. -/
  | other (source : IoError)
  deriving DecidableEq

/-- `RulesetStatus` of the crate. -/
inductive RulesetStatus
  /-- All is enforced. -/
  | fullyEnforced
  /-- Some is. -/
  | partiallyEnforced
  /-- Nothing is. -/
  | notEnforced
  deriving DecidableEq

/-- `SandboxStatus`. -/
inductive SandboxStatus
  /-- No sandbox. -/
  | off
  /-- All is enforced. -/
  | fullyEnforced
  /-- Some is. -/
  | partiallyEnforced
  /-- Nothing is. -/
  | notEnforced
  deriving DecidableEq

/-- `SandboxOutcome`. -/
structure SandboxOutcome where
  /-- The version that was asked for. -/
  requestedAbi : ℕ
  /-- What became of it. -/
  status : SandboxStatus
  /-- Files. -/
  fs : Bool
  /-- Connections. -/
  tcp : Bool
  /-- Sockets and signals. -/
  scope : Bool
  deriving DecidableEq

/-- `SandboxError`. -/
inductive SandboxError
  /-- The kernel does not support it. -/
  | abiUnavailable (source : RulesetError)
  /-- A path that is needed cannot be opened. -/
  | pathOpen (source : PathFdError)
  /-- The ruleset cannot be built. -/
  | ruleset (source : RulesetError)
  /-- It cannot be applied. -/
  | restrict (source : RulesetError)
  deriving DecidableEq

/-- The rights that a rule about a file can grant. -/
def fileRights : List Right := [.execute, .writeFile, .readFile, .truncate, .ioctlDev]

/-- **The crate and the kernel.** -/
structure Kernel where
  /-- `handle_access` for files. -/
  handleFs : CompatLevel → Except RulesetError Unit
  /-- `handle_access` for connections. -/
  handleNet : CompatLevel → Except RulesetError Unit
  /-- `scope`. -/
  scope : CompatLevel → Except RulesetError Unit
  /-- `create`: the rights over files that are handled. -/
  create : CompatLevel → Except RulesetError (List Right)
  /-- `PathFd::new`. -/
  pathFd : Path → Except PathFdError (Object Bytes)
  /-- `add_rule` about files: the rights that the rule has. -/
  addRule : CompatLevel → Object Bytes → List Right → Except RulesetError (List Right)
  /-- `add_rule` about a port. -/
  addPort : CompatLevel → ℕ → Except RulesetError Unit
  /-- `restrict_self`. -/
  restrictSelf : CompatLevel → Except RulesetError RulesetStatus
  /-- A rule grants nothing that was not asked for. -/
  asked : ∀ {level object rights granted}, addRule level object rights = .ok granted →
    ∀ r ∈ granted, r ∈ rights
  /-- A rule about a file is about what is done to files. -/
  onFile : ∀ {level i rights granted}, addRule level (.file i) rights = .ok granted →
    ∀ r ∈ granted, r ∈ fileRights
  /-- A rule about a directory grants all that was asked for and has to be granted. -/
  onDir : ∀ {level d handled rights granted}, create level = .ok handled →
    addRule level (.dir d) rights = .ok granted → ∀ r ∈ rights, r ∈ handled → r ∈ granted
  /-- If all is enforced, all rights have to be granted. -/
  enforced : ∀ {level handled}, restrictSelf level = .ok .fullyEnforced →
    create level = .ok handled → ∀ r, r ∈ handled

/-- The restrictions of a process. -/
structure Domain where
  /-- Those on files. -/
  files : Ruleset Bytes
  /-- The ports that there are rules for. -/
  ports : List ℕ

variable (K : Kernel)

/-- The loops of `apply` over paths: a path that cannot be opened is an error, unless that is
tolerated. -/
def addRules (level : CompatLevel) (tolerated : PathFdError → Bool) (rights : List Right) :
    List Path → Except SandboxError (List (Rule Bytes))
  | [] => .ok []
  | p :: ps =>
    match K.pathFd p with
    | .error e => if tolerated e then addRules level tolerated rights ps else .error (.pathOpen e)
    | .ok object =>
      match K.addRule level object rights with
      | .error e => .error (.ruleset e)
      | .ok granted => do
        let rules ← addRules level tolerated rights ps
        .ok (⟨object, granted⟩ :: rules)

/-- `write_bits`. -/
def writeBits : List Right :=
  [.readFile, .readDir, .writeFile, .makeReg, .removeFile, .truncate, .refer]

/-- `read_dir_bits`. -/
def readDirBits : List Right := [.readFile, .readDir]

/-- The rules of `apply`. -/
def rulesFor (level : CompatLevel) (paths : SandboxPaths) :
    Except SandboxError (List (Rule Bytes)) := do
  let readFiles ← addRules K level (fun _ => false) [.readFile] paths.readFiles
  let readDirs ← addRules K level (fun _ => true) readDirBits paths.readDirs
  let resolvFiles ← addRules K level (fun e => e = .notFound) [.readFile] paths.resolvFiles
  let writeParentDirs ← addRules K level (fun _ => false) writeBits paths.writeParentDirs
  .ok (readFiles ++ readDirs ++ resolvFiles ++ writeParentDirs)

/-- `classify_ruleset_err`. -/
def classifyRulesetErr : SandboxMode → RulesetError → SandboxError
  | .required, e => .abiUnavailable e
  | .bestEffort, e | .off, e => .ruleset e

/-- `apply`, for a mode that is not `off`. -/
def applyAt (mode : SandboxMode) (level : CompatLevel) (paths : SandboxPaths) :
    Except SandboxError (Option Domain × SandboxOutcome) := do
  (K.handleFs level).mapError (classifyRulesetErr mode)
  (K.handleNet level).mapError (classifyRulesetErr mode)
  (K.scope level).mapError (classifyRulesetErr mode)
  let handled ← (K.create level).mapError .ruleset
  let rules ← rulesFor K level paths
  (K.addPort level 443).mapError .ruleset
  let status ← (K.restrictSelf level).mapError .restrict
  let status := match status with
    | .fullyEnforced => SandboxStatus.fullyEnforced
    | .partiallyEnforced => .partiallyEnforced
    | .notEnforced => .notEnforced
  let fully := decide (status = .fullyEnforced)
  .ok (some ⟨⟨handled, rules⟩, [443]⟩, ⟨6, status, fully, fully, fully⟩)

/-- **`apply`.** -/
def apply (mode : SandboxMode) (paths : SandboxPaths) :
    Except SandboxError (Option Domain × SandboxOutcome) :=
  match mode with
  | .off => .ok (none, ⟨0, .off, false, false, false⟩)
  | .required => applyAt K mode .hardRequirement paths
  | .bestEffort => applyAt K mode .bestEffort paths

/-- What `apply_sandbox` reads of the configuration. -/
structure SandboxConfig where
  /-- `security.sandbox`. -/
  sandbox : SandboxMode
  /-- `security.extra_read_dirs`. -/
  extraReadDirs : List Path
  /-- `clients.file`. -/
  clientsFile : Path
  /-- `listen.psk_file`. -/
  pskFile : Path
  /-- `runtime.pidfile`. -/
  pidfile : Option Path

/-- Why `apply_sandbox` fails. -/
inductive ApplyError
  /-- A path has no directory. -/
  | noParentDir (field : String)
  /-- The sandbox could not be closed. -/
  | sandbox (source : SandboxError)
  deriving DecidableEq

/-- `nameservice_files`, for the two C libraries. -/
def nameserviceFiles (musl : Bool) : List Path :=
  List.map (fun name => [ascii "etc", ascii name])
    (if musl then ["resolv.conf", "hosts"]
      else ["resolv.conf", "hosts", "nsswitch.conf", "gai.conf"])

/-- The directory of a file, or an error about its field. -/
def parentOr (field : String) (p : Path) : Except ApplyError Path :=
  match parent p with
  | none => .error (.noParentDir field)
  | some d => .ok d

/-- The directory of the pidfile, if there is to be one. -/
def pidDirs (cfg : SandboxConfig) : Except ApplyError (List Path) :=
  match cfg.pidfile with
  | none => .ok []
  | some pidfile => (parentOr "runtime.pidfile" pidfile).map fun d => [d]

/-- What `apply_sandbox` asks for. -/
def sandboxPaths (musl : Bool) (cfg : SandboxConfig) : Except ApplyError SandboxPaths := do
  let clientsDir ← parentOr "clients.file" cfg.clientsFile
  let pskDir ← parentOr "listen.psk_file" cfg.pskFile
  let pidDirs ← pidDirs cfg
  .ok {
    readFiles := [cfg.clientsFile, cfg.pskFile, [ascii "dev", ascii "urandom"]]
    readDirs := [ascii "etc", ascii "ssl", ascii "certs"] :: cfg.extraReadDirs
    resolvFiles := nameserviceFiles musl
    writeParentDirs := clientsDir :: pskDir :: pidDirs }

/-- **`apply_sandbox`.** -/
def applySandbox (musl : Bool) (cfg : SandboxConfig) :
    Except ApplyError (Option Domain × SandboxOutcome) := do
  let paths ← sandboxPaths musl cfg
  (apply K cfg.sandbox paths).mapError .sandbox

/-! ### What has been granted -/

variable {K} {level : CompatLevel} {musl : Bool} {cfg : SandboxConfig} {paths : SandboxPaths}
  {D : Domain} {outcome : SandboxOutcome} {rules : List (Rule Bytes)} {rule : Rule Bytes}

theorem bind_eq_ok {ε α γ : Type} {x : Except ε α} {f : α → Except ε γ} {c : γ}
    (h : x >>= f = .ok c) : ∃ a, x = .ok a ∧ f a = .ok c := by
  cases x with
  | error e => cases h
  | ok a => exact ⟨a, rfl, h⟩

theorem eq_ok_of_mapError {ε ε' α : Type} {x : Except ε α} {f : ε → ε'} {a : α}
    (h : x.mapError f = .ok a) : x = .ok a := by
  cases x with
  | error e => cases h
  | ok b => exact congrArg _ (Except.ok.inj h)

/-- A rule is about one of the paths, with rights that were asked for. -/
theorem mem_addRules {tolerated : PathFdError → Bool} {rights : List Right} {ps : List Path}
    (h : addRules K level tolerated rights ps = .ok rules) (hmem : rule ∈ rules) :
    ∃ p ∈ ps, K.pathFd p = .ok rule.object ∧
      K.addRule level rule.object rights = .ok rule.rights := by
  induction ps generalizing rules with
  | nil =>
    cases h
    cases hmem
  | cons p ps ih =>
    have hrest : ∀ {rules}, addRules K level tolerated rights ps = .ok rules → rule ∈ rules →
        ∃ q ∈ p :: ps, K.pathFd q = .ok rule.object ∧
          K.addRule level rule.object rights = .ok rule.rights := by
      intro rules h hmem
      obtain ⟨q, hq, hrule⟩ := ih h hmem
      exact ⟨q, List.mem_cons_of_mem _ hq, hrule⟩
    simp only [addRules] at h
    split at h
    · split at h
      · exact hrest h hmem
      · cases h
    · rename_i object hobject
      split at h
      · cases h
      · rename_i granted hgranted
        obtain ⟨rules', hrules', hok⟩ := bind_eq_ok h
        cases hok
        rcases List.mem_cons.mp hmem with rfl | hmem
        · exact ⟨p, List.mem_cons_self, hobject, hgranted⟩
        · exact hrest hrules' hmem

/-- A path that can be opened has its rule, and one that must be opened can be. -/
theorem exists_mem_addRules {tolerated : PathFdError → Bool} {rights : List Right}
    {ps : List Path} (h : addRules K level tolerated rights ps = .ok rules) {p : Path}
    (hp : p ∈ ps) (htol : ∀ e, K.pathFd p = .error e → tolerated e = false) :
    ∃ rule ∈ rules, K.pathFd p = .ok rule.object ∧
      K.addRule level rule.object rights = .ok rule.rights := by
  induction ps generalizing rules with
  | nil => cases hp
  | cons q ps ih =>
    simp only [addRules] at h
    split at h
    · rename_i e he
      split at h
      · rename_i hyes
        rcases List.mem_cons.mp hp with rfl | hp
        · rw [htol e he] at hyes
          cases hyes
        · exact ih h hp
      · cases h
    · rename_i object hobject
      split at h
      · cases h
      · rename_i granted hgranted
        obtain ⟨rules', hrules', hok⟩ := bind_eq_ok h
        cases hok
        rcases List.mem_cons.mp hp with rfl | hp
        · exact ⟨_, List.mem_cons_self, hobject, hgranted⟩
        · obtain ⟨rule, hrule, hrest⟩ := ih hrules' hp
          exact ⟨rule, List.mem_cons_of_mem _ hrule, hrest⟩

/-- **A rule that `apply` has made.** -/
structure Made (K : Kernel) (level : CompatLevel) (ps : List Path) (rights : List Right)
    (rule : Rule Bytes) : Prop where
  /-- It is about one of the paths. -/
  path : ∃ p ∈ ps, K.pathFd p = .ok rule.object
  /-- It grants what the kernel made of the rights. -/
  granted : K.addRule level rule.object rights = .ok rule.rights

/-- A rule is for reading, or about a directory of files that are written. -/
theorem made_of_rulesFor (h : rulesFor K level paths = .ok rules) (hmem : rule ∈ rules) :
    (∃ rights, (∀ r ∈ rights, r ∈ readDirBits) ∧
        Made K level (paths.readFiles ++ paths.readDirs ++ paths.resolvFiles) rights rule) ∨
      Made K level paths.writeParentDirs writeBits rule := by
  obtain ⟨rf, hrf, h⟩ := bind_eq_ok h
  obtain ⟨rd, hrd, h⟩ := bind_eq_ok h
  obtain ⟨rs, hrs, h⟩ := bind_eq_ok h
  obtain ⟨wd, hwd, h⟩ := bind_eq_ok h
  cases h
  simp only [List.mem_append] at hmem
  have hread : ∀ r ∈ [Right.readFile], r ∈ readDirBits := by decide
  rcases hmem with ((hmem | hmem) | hmem) | hmem
  · obtain ⟨p, hp, hobject, hgranted⟩ := mem_addRules hrf hmem
    exact .inl ⟨_, hread, ⟨p, by simp [hp], hobject⟩, hgranted⟩
  · obtain ⟨p, hp, hobject, hgranted⟩ := mem_addRules hrd hmem
    exact .inl ⟨_, fun _ hr => hr, ⟨p, by simp [hp], hobject⟩, hgranted⟩
  · obtain ⟨p, hp, hobject, hgranted⟩ := mem_addRules hrs hmem
    exact .inl ⟨_, hread, ⟨p, by simp [hp], hobject⟩, hgranted⟩
  · obtain ⟨p, hp, hobject, hgranted⟩ := mem_addRules hwd hmem
    exact .inr ⟨⟨p, hp, hobject⟩, hgranted⟩

/-- Wherever a rule comes from, it is about one of the paths. -/
theorem exists_path_of_rulesFor (h : rulesFor K level paths = .ok rules) (hmem : rule ∈ rules) :
    ∃ p ∈ paths.all, K.pathFd p = .ok rule.object := by
  rcases made_of_rulesFor h hmem with ⟨rights, -, ⟨⟨p, hp, hobject⟩, -⟩⟩ | ⟨⟨p, hp, hobject⟩, -⟩
  · exact ⟨p, List.mem_append_left _ hp, hobject⟩
  · exact ⟨p, List.mem_append_right _ hp, hobject⟩

/-- Whoever may write has all of `write_bits` in a directory. -/
theorem writeParentDir_of_rulesFor (h : rulesFor K level paths = .ok rules) (hmem : rule ∈ rules)
    {r : Right} (hr : r ∈ rule.rights) (hnot : r ∉ readDirBits) :
    Made K level paths.writeParentDirs writeBits rule := by
  rcases made_of_rulesFor h hmem with ⟨rights, hrights, hmade⟩ | hmade
  · exact absurd (hrights r (K.asked hmade.granted r hr)) hnot
  · exact hmade

/-- What a sandbox that has been closed consists of. -/
theorem applySandbox_eq_ok (h : applySandbox K musl cfg = .ok (some D, outcome)) :
    ∃ paths level, sandboxPaths musl cfg = .ok paths ∧ K.create level = .ok D.files.handled ∧
      rulesFor K level paths = .ok D.files.rules ∧
      (outcome.status = .fullyEnforced → K.restrictSelf level = .ok .fullyEnforced) := by
  obtain ⟨paths, hpaths, h⟩ := bind_eq_ok h
  have h := eq_ok_of_mapError h
  have hat : ∀ {mode level}, applyAt K mode level paths = .ok (some D, outcome) →
      K.create level = .ok D.files.handled ∧ rulesFor K level paths = .ok D.files.rules ∧
      (outcome.status = .fullyEnforced → K.restrictSelf level = .ok .fullyEnforced) := by
    intro mode level h
    obtain ⟨-, -, h⟩ := bind_eq_ok h
    obtain ⟨-, -, h⟩ := bind_eq_ok h
    obtain ⟨-, -, h⟩ := bind_eq_ok h
    obtain ⟨handled, hhandled, h⟩ := bind_eq_ok h
    obtain ⟨rules, hrules, h⟩ := bind_eq_ok h
    obtain ⟨-, -, h⟩ := bind_eq_ok h
    obtain ⟨status, hstatus, h⟩ := bind_eq_ok h
    have hstatus := eq_ok_of_mapError hstatus
    cases h
    refine ⟨eq_ok_of_mapError hhandled, hrules, fun hfull => ?_⟩
    cases status with
    | fullyEnforced => exact hstatus
    | partiallyEnforced | notEnforced => cases hfull
  unfold apply at h
  split at h
  · cases h
  · exact ⟨paths, _, hpaths, hat h⟩
  · exact ⟨paths, _, hpaths, hat h⟩

/-! ### Behind the sandbox -/

/-- The kernel opens what is there. -/
structure Kernel.Sees (K : Kernel) (s : Landlock.State Bytes UInt8) : Prop where
  /-- A directory. -/
  dir : ∀ {p d}, K.pathFd p = .ok (.dir d) → d = p ∧ s.isDir p = true
  /-- A file. -/
  file : ∀ {p i}, K.pathFd p = .ok (.file i) → s.entry p = some i ∧ s.isDir p = false

variable {s : Landlock.State Bytes UInt8} {k : ℕ} {r : Right}

/-- Rules for names are about directories, and grant all of `write_bits`. -/
theorem reflects_of_applySandbox (hsees : K.Sees s)
    (h : applySandbox K musl cfg = .ok (some D, outcome)) (hfull : outcome.status = .fullyEnforced)
    (hr : r ∈ writeBits) : D.files.Reflects s.isDir r := by
  obtain ⟨paths, level, -, hcreate, hrules, hstatus⟩ := applySandbox_eq_ok h
  have hall := K.enforced (hstatus hfull) hcreate
  refine ⟨fun r' _ => hall r', fun rule hmem d hd => ?_, fun rule hmem hnames => ?_⟩
  · obtain ⟨p, -, hobject⟩ := exists_path_of_rulesFor hrules hmem
    rw [hd] at hobject
    obtain ⟨rfl, hdir⟩ := hsees.dir hobject
    exact hdir
  · obtain ⟨r', hr', hnot, hfile⟩ : ∃ r' ∈ rule.rights, r' ∉ readDirBits ∧ r' ∉ fileRights := by
      rcases hnames with hname | hname
      · exact ⟨_, hname, by decide, by decide⟩
      · exact ⟨_, hname, by decide, by decide⟩
    have hgranted := (writeParentDir_of_rulesFor hrules hmem hr' hnot).granted
    cases hobject : rule.object with
    | dir d =>
      rw [hobject] at hgranted
      exact ⟨K.onDir hcreate hgranted r hr (hall r), d, rfl⟩
    | file i =>
      rw [hobject] at hgranted
      exact absurd (K.onFile hgranted r' hr') hfile

/-- The file is not beneath any of the paths, by any of its names. -/
def Apart (paths : SandboxPaths) (s : Landlock.State Bytes UInt8) (k : ℕ) : Prop :=
  ∀ p, s.entry p = some k → ∀ d ∈ paths.all, ¬d <+: p

/-- A rule that covers a name of the file would put it beneath a path. -/
theorem Apart.not_permits (hsees : K.Sees s) (hapart : Apart paths s k)
    (hrules : rulesFor K level paths = .ok D.files.rules) (hhandled : r ∈ D.files.handled)
    {p : Path} (hp : s.entry p = some k) : ¬D.files.Permits s.entry p r := by
  intro hperm
  obtain ⟨rule, hmem, -, hcovers⟩ := hperm hhandled
  obtain ⟨q, hq, hobject⟩ := exists_path_of_rulesFor hrules hmem
  cases ho : rule.object with
  | dir d =>
    rw [ho] at hobject hcovers
    obtain ⟨rfl, -⟩ := hsees.dir hobject
    exact hapart p hp d hq hcovers
  | file i =>
    rw [ho] at hobject hcovers
    -- the rule is about this very file, so the path is one of its names
    have hik : some i = some k := Eq.trans (Eq.symm hcovers) hp
    cases hik
    exact hapart q (hsees.file hobject).1 q hq (List.prefix_refl q)

theorem Apart.not_reaches (hsees : K.Sees s) (hapart : Apart paths s k)
    (hrules : rulesFor K level paths = .ok D.files.rules) (hhandled : r ∈ D.files.handled)
    (hopen : ∀ h ∈ s.handles, h.inode ≠ k) : ¬Reaches D.files r s k := by
  rintro (⟨p, hp, hperm⟩ | ⟨h, hmem, hinode, -⟩)
  · exact hapart.not_permits hsees hrules hhandled hp hperm
  · exact hopen h hmem hinode

/-- The names of the file stay as they are. -/
theorem Apart.seals (hsees : K.Sees s) (hapart : Apart paths s k)
    (hrules : rulesFor K level paths = .ok D.files.rules) (hhandled : ∀ r, r ∈ D.files.handled)
    {p : Path} (hp : s.entry p = some k) : D.files.Seals p := by
  have hnot : ∀ {e r}, r ∉ readDirBits → r ∉ fileRights → ¬D.files.Permits e p.dropLast r := by
    intro e r hread hfile hperm
    obtain ⟨rule, hmem, hr, hcovers⟩ := hperm (hhandled r)
    have hmade := writeParentDir_of_rulesFor hrules hmem hr hread
    obtain ⟨q, hq, hobject⟩ := hmade.path
    cases ho : rule.object with
    | dir d =>
      rw [ho] at hobject hcovers
      obtain ⟨rfl, -⟩ := hsees.dir hobject
      exact hapart p hp d (List.mem_append_right _ hq)
        (List.IsPrefix.trans hcovers (List.dropLast_prefix p))
    | file i =>
      have hgranted := hmade.granted
      rw [ho] at hgranted
      exact hfile (K.onFile hgranted r hr)
  exact fun e => ⟨hnot (by decide) (by decide), hnot (by decide) (by decide)⟩

/-- **A key is out of reach.** The sandbox is closed and all of it is enforced; a file has no name
beneath a path that the sandbox was told of, and is not open. Then whatever the process does: what
it sees depends on nothing of the file but its size, and the file and its names stay as they
are. -/
theorem key_out_of_reach (hsees : K.Sees s)
    (h : applySandbox K musl cfg = .ok (some D, outcome))
    (hfull : outcome.status = .fullyEnforced) (hpaths : sandboxPaths musl cfg = .ok paths)
    (hapart : Apart paths s k) (hk : k < s.free) (hopen : ∀ h ∈ s.handles, h.inode ≠ k)
    (ops : List (Op Bytes UInt8)) :
    (∀ content, content.length = (s.content k).length →
        ((s.put k content).run D.files ops).2 = (s.run D.files ops).2) ∧
      (s.run D.files ops).1.content k = s.content k ∧
      ∀ p, s.entry p = some k → (s.run D.files ops).1.entry p = some k := by
  obtain ⟨paths', level, hpaths', hcreate, hrules, hstatus⟩ := applySandbox_eq_ok h
  cases hpaths.symm.trans hpaths'
  have hall := K.enforced (hstatus hfull) hcreate
  have hreflects : ∀ {r}, r ∈ writeBits → D.files.Reflects s.isDir r :=
    reflects_of_applySandbox hsees h hfull
  have hnot : ∀ r, ¬Reaches D.files r s k := fun r =>
    hapart.not_reaches hsees hrules (hall r) hopen
  refine ⟨fun content hlen => ?_, ?_, fun p hp => ?_⟩
  · have halike : Alike (· = k) s (s.put k content) := by
      refine ⟨rfl, rfl, rfl, rfl, fun i hi => by simp [Landlock.State.put, hi], fun i => ?_⟩
      by_cases hi : i = k
      · subst hi
        simpa [Landlock.State.put] using hlen
      · simp [Landlock.State.put, hi]
    refine (halike.run (hreflects (by decide)) ?_ ?_).1
    · rintro i rfl
      exact hnot _
    · rintro i rfl
      exact hk
  · exact content_of_run (hreflects (by decide)) (hreflects (by decide)) hk (hnot _) (hnot _)
  · rw [(hapart.seals hsees hrules hall hp).entry_of_run, hp]

/-- What a rule with these rights grants. -/
def ruleRights (rights : List Right) : Object Bytes → List Right
  | .dir _ => rights
  | .file _ => rights.filter (· ∈ fileRights)

theorem mem_of_mem_ruleRights {rights : List Right} {object : Object Bytes} :
    ∀ r ∈ ruleRights rights object, r ∈ rights := by
  intro r hr
  cases object with
  | dir d => exact hr
  | file i => exact List.mem_of_mem_filter hr

theorem mem_fileRights_of_mem_ruleRights {rights : List Right} {i : ℕ} :
    ∀ r ∈ ruleRights rights (.file i), r ∈ fileRights := by
  intro r hr
  simpa using (List.mem_filter.mp hr).2

/-- All rights. -/
def allRights : List Right :=
  [.execute, .writeFile, .readFile, .readDir, .removeDir, .removeFile, .makeChar, .makeDir,
    .makeReg, .makeSock, .makeFifo, .makeBlock, .makeSym, .refer, .truncate, .ioctlDev]

theorem mem_allRights (r : Right) : r ∈ allRights := by
  cases r <;> decide

/-- A kernel that supports everything, for the given files. -/
def plainKernel (s : Landlock.State Bytes UInt8) : Kernel where
  handleFs _ := .ok ()
  handleNet _ := .ok ()
  scope _ := .ok ()
  create _ := .ok allRights
  pathFd p :=
    if s.isDir p then .ok (.dir p)
    else match s.entry p with
      | some i => .ok (.file i)
      | none => .error .notFound
  addRule _ object rights := .ok (ruleRights rights object)
  addPort _ _ := .ok ()
  restrictSelf _ := .ok .fullyEnforced
  asked h := Except.ok.inj h ▸ mem_of_mem_ruleRights
  onFile h := Except.ok.inj h ▸ mem_fileRights_of_mem_ruleRights
  onDir _ h := Except.ok.inj h ▸ fun _ hr _ => hr
  enforced _ h := Except.ok.inj h ▸ mem_allRights

theorem plainKernel_sees (s : Landlock.State Bytes UInt8) : (plainKernel s).Sees s := by
  have hpath : ∀ p object, (plainKernel s).pathFd p = .ok object →
      (s.isDir p = true ∧ object = .dir p) ∨
        (s.isDir p = false ∧ ∃ i, s.entry p = some i ∧ object = .file i) := by
    intro p object h
    simp only [plainKernel] at h
    split at h
    · rename_i hdir
      cases h
      exact .inl ⟨hdir, rfl⟩
    · rename_i hdir
      split at h
      · rename_i i hi
        cases h
        exact .inr ⟨Bool.eq_false_iff.mpr hdir, i, hi, rfl⟩
      · cases h
  constructor
  · intro p d h
    rcases hpath p _ h with ⟨hdir, ho⟩ | ⟨-, i, -, ho⟩
    · cases ho
      exact ⟨rfl, hdir⟩
    · cases ho
  · intro p i h
    rcases hpath p _ h with ⟨-, ho⟩ | ⟨hdir, j, hj, ho⟩
    · cases ho
    · cases ho
      exact ⟨hj, hdir⟩

/-- `/etc/symbolon/broker.key`. -/
def brokerKeyPath : Path := [ascii "etc", ascii "symbolon", ascii "broker.key"]

/-- `/var/lib/symbolon`. -/
def stateDir : Path := [ascii "var", ascii "lib", ascii "symbolon"]

/-- A configuration with both state files in that directory. -/
def plainSandboxConfig (mode : SandboxMode) : SandboxConfig :=
  ⟨mode, [], stateDir ++ [ascii "clients.json"], stateDir ++ [ascii "psks"], none⟩

/-- The given files, the broker's key first, and the directories that matter. -/
def plainTree (files : List Path) : Landlock.State Bytes UInt8 where
  isDir p := p ∈ [stateDir, [ascii "etc", ascii "ssl", ascii "certs"]]
  entry p := (brokerKeyPath :: files).idxOf? p
  content i := if i = 0 then ascii "secret" else ascii "\x7b\x7d"
  free := files.length + 1
  handles := []

/-- The files of a deployment. -/
def deployed : List Path :=
  [stateDir ++ [ascii "clients.json"], stateDir ++ [ascii "psks"], [ascii "dev", ascii "urandom"]]

theorem exists_applySandbox_deployed :
    ∃ D, applySandbox (plainKernel (plainTree deployed)) true (plainSandboxConfig .required) =
      .ok (some D, ⟨6, .fullyEnforced, true, true, true⟩) :=
  ⟨_, rfl⟩

theorem key_out_of_reach_brokerKey :
    ∃ D, applySandbox (plainKernel (plainTree deployed)) true (plainSandboxConfig .required) =
        .ok (some D, ⟨6, .fullyEnforced, true, true, true⟩) ∧
      ∀ ops, (((plainTree deployed).put 0 (ascii "public")).run D.files ops).2 =
          ((plainTree deployed).run D.files ops).2 ∧
        ((plainTree deployed).run D.files ops).1.content 0 = ascii "secret" ∧
        ((plainTree deployed).run D.files ops).1.entry brokerKeyPath = some 0 := by
  obtain ⟨D, hD⟩ := exists_applySandbox_deployed
  refine ⟨D, hD, fun ops => ?_⟩
  -- the key has one name
  have hname : ∀ p, (plainTree deployed).entry p = some 0 → brokerKeyPath = p := fun p hp => by
    simpa [plainTree, List.idxOf?_cons] using hp
  obtain ⟨hseen, hcontent, hentry⟩ := key_out_of_reach (plainKernel_sees _) hD rfl rfl
    (fun p hp => hname p hp ▸ by decide) (by decide) (fun h hmem => by cases hmem) ops
  exact ⟨hseen _ (by decide), hcontent, hentry _ (by decide)⟩

/-! ### The atomic writes -/

/-- The files that the daemon writes: the state files and the pidfile. -/
def SandboxConfig.written (cfg : SandboxConfig) : List Path :=
  cfg.clientsFile :: cfg.pskFile :: cfg.pidfile.toList

/-- A call of `atomic_write`, with the identifier that it draws. -/
structure AtomicWrite where
  /-- `path`. -/
  path : Path
  /-- `content`. -/
  content : Bytes
  /-- What `Ulid::new` returns. -/
  ulid : Bytes

/-- The name of the temporary file. -/
def AtomicWrite.tmp (w : AtomicWrite) : Path :=
  w.path.dropLast ++ [w.path.getLastD [] ++ ascii ".tmp." ++ w.ulid]

/-- What a stage asks of the file system, where `fd` is the temporary file. Flushing needs no
right. -/
def AtomicWrite.op (w : AtomicWrite) (fd : ℕ) : WriteStage → Option (Op Bytes UInt8)
  | .open => some (.openFile w.tmp ⟨false, true, true, true⟩)
  | .write => some (.write fd w.content)
  | .rename => some (.rename w.tmp w.path)
  | .removeFile _ => some (.unlink w.tmp)
  | .openDir => some (.openDir w.path.dropLast)
  | .syncAll | .syncDir => none

/-- What else happens at a stage. -/
structure Turn where
  /-- What others do to the files before it is this one's turn. -/
  meanwhile : Landlock.State Bytes UInt8 → Landlock.State Bytes UInt8
  /-- The operation may fail though it is permitted, and leave whatever it leaves. -/
  fault : Option (IoError × (Landlock.State Bytes UInt8 → Landlock.State Bytes UInt8))

/-- How many stages are left at most. -/
def WriteStage.left : WriteStage → ℕ
  | .open => 6
  | .write => 5
  | .syncAll => 4
  | .rename => 3
  | .openDir => 2
  | .removeFile _ | .syncDir => 1

section AtomicWrite

variable {R : Ruleset Bytes} {errors : IoErrors} {turns : WriteStage → Turn} {w : AtomicWrite}

end AtomicWrite

theorem applySandbox_of_prepare {H : Host} {C : Codecs} {config : Config} {disk : Disk}
    {r : Setup × Tables} (h : prepare H C config disk = some (.ok r)) :
    H.applySandbox = .ok () := by
  simp only [prepare] at h
  split at h
  · cases h
  · split at h
    · cases h
    · split at h
      · cases h
      · cases h
      · simp only [sealPhase] at h
        split at h
        · cases h
        · assumption

/-- A sandbox that is not off can be closed only if the PSK file can be opened. -/
theorem pathFd_of_applySandbox {r : Option Domain × SandboxOutcome}
    (h : applySandbox K musl cfg = .ok r) (hon : cfg.sandbox ≠ .off) :
    ∃ object, K.pathFd cfg.pskFile = .ok object := by
  obtain ⟨D, hD⟩ : ∃ D, r.1 = some D := by
    obtain ⟨paths, -, h⟩ := bind_eq_ok h
    have h := eq_ok_of_mapError h
    have hat : ∀ {mode level}, applyAt K mode level paths = .ok r → ∃ D, r.1 = some D := by
      intro mode level h
      iterate 7 obtain ⟨_, -, h⟩ := bind_eq_ok h
      exact ⟨_, congrArg Prod.fst (Except.ok.inj h).symm⟩
    unfold apply at h
    split at h
    · rename_i hmode
      exact absurd hmode hon
    · exact hat h
    · exact hat h
  obtain ⟨domain, outcome⟩ := r
  cases hD
  obtain ⟨paths, level, hpaths, -, hrules, -⟩ := applySandbox_eq_ok h
  obtain ⟨rf, hrf, -⟩ := bind_eq_ok hrules
  have hmem : cfg.pskFile ∈ paths.readFiles := by
    obtain ⟨_, -, hpaths⟩ := bind_eq_ok hpaths
    obtain ⟨_, -, hpaths⟩ := bind_eq_ok hpaths
    obtain ⟨_, -, hpaths⟩ := bind_eq_ok hpaths
    cases hpaths
    simp
  obtain ⟨rule, -, hobject, -⟩ := exists_mem_addRules hrf hmem fun _ _ => rfl
  exact ⟨rule.object, hobject⟩

/-- The startup on a machine where closing the sandbox is this. -/
def Host.behind (H : Host) (K : Kernel) (message : ApplyError → Bytes) (musl : Bool)
    (cfg : SandboxConfig) : Host :=
  { H with applySandbox := ((Symbolon.applySandbox K musl cfg).map fun _ => ()).mapError message }

/-- **A missing PSK file.** `load_psk_store` takes it for an empty store. The startup fails all the
same, for the sandbox has to open the file; only without a sandbox it is not hindered, as long as
the paths have parents. -/
theorem prepare_of_no_pskFile {H : Host} {message : ApplyError → Bytes} {C : Codecs}
    {config : Config} {disk : Disk} (hdisk : disk.psks = none)
    (hmissing : K.pathFd cfg.pskFile = .error .notFound) :
    loadPskStore C.hex disk.psks = .ok ∅ ∧
      (cfg.sandbox ≠ .off →
        ∀ r, prepare (H.behind K message musl cfg) C config disk ≠ some (.ok r)) ∧
      (cfg.sandbox = .off → (∃ paths, sandboxPaths musl cfg = .ok paths) →
        prepare (H.behind K message musl cfg) C config disk =
          prepare { H with applySandbox := .ok () } C config disk) := by
  refine ⟨by rw [hdisk]; rfl, fun hon r h => ?_, fun hoff ⟨paths, hpaths⟩ => ?_⟩
  · have hclosed : ((applySandbox K musl cfg).map fun _ => ()) = .ok () :=
      eq_ok_of_mapError (applySandbox_of_prepare h)
    cases hr : applySandbox K musl cfg with
    | error e =>
      rw [hr] at hclosed
      cases hclosed
    | ok r' =>
      obtain ⟨object, hobject⟩ := pathFd_of_applySandbox hr hon
      rw [hmissing] at hobject
      cases hobject
  · have hopen : applySandbox K musl cfg = .ok (none, ⟨0, .off, false, false, false⟩) := by
      rw [applySandbox, hpaths, hoff]
      rfl
    rw [Host.behind, hopen]
    rfl

/-- A first startup, before there is a PSK file. -/
def firstStart (mode : SandboxMode) : Option (Except StartupError (Setup × Tables)) :=
  prepare (Admin.plainHost.behind (plainKernel (plainTree [stateDir ++ [ascii "clients.json"]]))
    (fun _ => []) true (plainSandboxConfig mode)) plainCodecs Admin.bareConfig
    ⟨none, Admin.emptyBoot.disk.clients⟩

theorem prepare_of_no_pskFile_fresh :
    loadPskStore plainCodecs.hex none = .ok ∅ ∧
      (¬∃ r, firstStart .bestEffort = some (.ok r)) ∧
      firstStart .off = prepare Admin.plainHost plainCodecs Admin.bareConfig
        ⟨none, Admin.emptyBoot.disk.clients⟩ := by
  refine ⟨rfl, not_exists.mpr ?_, ?_⟩
  · exact (prepare_of_no_pskFile rfl (by decide)).2.1 (by decide)
  · exact (prepare_of_no_pskFile rfl (by decide)).2.2 rfl ⟨_, rfl⟩

end Symbolon
