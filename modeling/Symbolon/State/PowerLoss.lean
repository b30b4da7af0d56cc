import Symbolon.State.Crash
import Symbolon.State.Storage

/-!
# What a power loss leaves

The daemon on a file system that may lose power (`Symbolon.Storage.Step`), started on files that
the disk has.

* A file is **never found torn** (`Symbolon.whole_of_powerLoss`): after a power loss each of the two
  is as it was to be seen at some moment of the run, and the daemon starts again.
* What was **acknowledged is not lost** (`Symbolon.kept_of_powerLoss`). When a call returns `Ok`, a
  power loss leaves exactly the tables in memory; from then on, whatever fails and however often
  the power does, the entry of the call's client stays until another call on it begins.
* Without failed writes every **listed client has a key** (`Symbolon.listed_of_powerLoss`), also
  when the two files are found at different ages.

A power loss may find the files at different ages because the directory is flushed once per
write. What makes the ages fit is the order of the two writes: when the second file of a call is
moved into place, the first has been flushed (`Symbolon.Flushed`), and so has one version.
-/

namespace Symbolon

open Text

variable {ν : Type} [DecidableEq ν] {C : Codecs} {L : Layout ν}

/-! ### Runs -/

/-- **The daemon is started on files that the disk has.** -/
structure Storage.Started (C : Codecs) (L : Layout ν) (s : Storage ν) : Prop where
  /-- The tables are what the files hold. -/
  started : Symbolon.Started C s.state
  /-- The files are what is seen. -/
  disk : s.state.disk = L.disk s.volume
  /-- The disk has them. -/
  holds : ∀ f, s.volume.Holds (L.path f) [s.volume.look (L.path f)]

section Runs

variable {s₀ s : Storage ν} {ls : List (Option Label)}

omit [DecidableEq ν] in
theorem Storage.Started.sound (h : s.Started C L) :
    s.Sound L fun f => [s.volume.look (L.path f)] :=
  ⟨h.holds, h.disk, fun _ hh => by rw [h.started.2.1] at hh; cases hh⟩

/-- The state is one the mutation machine reaches: a power loss is a start of the daemon. -/
theorem Storage.Started.reachable (hs₀ : s₀.Started C L) (hrun : Storage.Run C L s₀ ls s) :
    Reachable C s.state := by
  refine hrun.invariant (I := fun s => Reachable C s.state) (fun s l t hs hstep => ?_)
    ⟨s₀.state, [], hs₀.started, .nil _⟩
  cases hstep with
  | @state e o t garbage tmp hnext =>
    obtain ⟨b, ms, hb, hms⟩ := hs
    exact ⟨b, ms ++ [(e, o)], hb, hms.snoc hnext⟩
  | powerLoss hloss hload => exact ⟨_, [], ⟨hload, rfl, rfl⟩, .nil _⟩

/-- A content was to be seen in a file at some moment of a run. -/
def Storage.SeenIn (C : Codecs) (L : Layout ν) (s₀ : Storage ν) (ls : List (Option Label))
    (s : Storage ν) (f : File) (x : Option Bytes) : Prop :=
  ∃ ls₁ ls₂ s₁, ls = ls₁ ++ ls₂ ∧ Storage.Run C L s₀ ls₁ s₁ ∧ Storage.Run C L s₁ ls₂ s ∧
    x = s₁.state.disk.get f

theorem Storage.SeenIn.snoc {t : Storage ν} {l : Option Label} {f : File} {x : Option Bytes}
    (h : Storage.SeenIn C L s₀ ls s f x) (hstep : Storage.Step C L s l t) :
    Storage.SeenIn C L s₀ (ls ++ [l]) t f x := by
  obtain ⟨ls₁, ls₂, s₁, rfl, h₁, h₂, hx⟩ := h
  exact ⟨ls₁, ls₂ ++ [l], s₁, List.append_assoc .., h₁, h₂.snoc hstep, hx⟩

/-- **Every version was to be seen at some moment of the run.** -/
theorem Storage.Started.seen (hs₀ : s₀.Started C L) (hrun : Storage.Run C L s₀ ls s) :
    ∃ versions, s.Sound L versions ∧
      ∀ f x, x ∈ versions f → Storage.SeenIn C L s₀ ls s f x := by
  refine (hrun.history (P := fun past s => Storage.Run C L s₀ past s ∧ ∃ versions,
    s.Sound L versions ∧ ∀ f x, x ∈ versions f → Storage.SeenIn C L s₀ past s f x)
    (fun past s l t hP hstep => ?_) ⟨.nil _, _, hs₀.sound, fun f x hx => ?_⟩).2
  · obtain ⟨hpast, versions, hsound, hold⟩ := hP
    obtain ⟨versions', hsound', hnew⟩ := hstep.sound hsound
    refine ⟨hpast.snoc hstep, versions', hsound', fun f x hx => ?_⟩
    rcases hnew f x hx with hx | hx
    · exact (hold f x hx).snoc hstep
    · exact ⟨past ++ [l], [], t, (List.append_nil _).symm, hpast.snoc hstep, .nil _, hx⟩
  · rw [List.mem_singleton] at hx
    refine ⟨[], [], s₀, rfl, .nil _, .nil _, ?_⟩
    rw [hx, hs₀.disk, L.get_disk]

/-- A content of a file loads as the file's part of the tables. -/
def File.Loads (C : Codecs) (t : Tables) : File → Option Bytes → Prop
  | .psks, x => loadPskStore C.hex x = .ok t.psks
  | .clients, x => loadClients C.json x = .ok t.clients

theorem acquire_eq_ok_iff_loads {d : Disk} {t : Tables} :
    acquire C d = .ok t ↔ ∀ f : File, f.Loads C t (d.get f) := by
  rw [acquire_eq_ok_iff]
  exact ⟨fun h f => by cases f; exacts [h.1, h.2], fun h => ⟨h .psks, h .clients⟩⟩

/-- Two files that load, each by itself, load together. -/
theorem exists_acquire_of_loads {d : Disk} (h : ∀ f : File, ∃ t, f.Loads C t (d.get f)) :
    ∃ t, acquire C d = .ok t := by
  obtain ⟨tp, hp⟩ := h .psks
  obtain ⟨tc, hc⟩ := h .clients
  exact ⟨⟨tp.psks, tc.clients⟩, acquire_eq_ok_iff.mpr ⟨hp, hc⟩⟩

/-- Each file is found as it was to be seen at some moment. -/
theorem Storage.Started.seenIn_powerLoss (hs₀ : s₀.Started C L) (hrun : Storage.Run C L s₀ ls s)
    {v : Volume ν Bytes} (hloss : s.volume.PowerLoss v) (f : File) :
    Storage.SeenIn C L s₀ ls s f ((L.disk v).get f) := by
  obtain ⟨versions, hsound, hseen⟩ := hs₀.seen hrun
  exact hseen f _ ((hsound.powerLoss (t := s.state.tables) hloss s.tmp).2 f)

/-- What was seen loaded then, and loads now. -/
theorem Storage.Started.exists_acquire (hC : C.Lawful) (hs₀ : s₀.Started C L)
    (hrun : Storage.Run C L s₀ ls s) {v : Volume ν Bytes} (hloss : s.volume.PowerLoss v) :
    ∃ t, acquire C (L.disk v) = .ok t := by
  refine exists_acquire_of_loads fun f => ?_
  obtain ⟨ls₁, ls₂, s₁, -, h₁, -, hget⟩ := hs₀.seenIn_powerLoss hrun hloss f
  obtain ⟨d, hy, -⟩ := (hs₀.reachable h₁).synced hC
  rw [hget]
  exact ⟨d, acquire_eq_ok_iff_loads.mp hy.disk f⟩

/-- **A file is never found torn.** Start the daemon on files that the disk has, and take any run:
writes may fail at any stage, calls be dropped, the process die, the power fail. What is seen of
the two files is what the mutation machine says they hold. If the power fails now, each of them is
found as it was to be seen at some moment of the run, whole: never half written, never as what a
failed write left in a temporary file. So the daemon can start on what is left. -/
theorem whole_of_powerLoss (hC : C.Lawful) (hs₀ : s₀.Started C L)
    (hrun : Storage.Run C L s₀ ls s) :
    s.state.disk = L.disk s.volume ∧ ∀ v, s.volume.PowerLoss v →
      (∀ f, Storage.SeenIn C L s₀ ls s f ((L.disk v).get f)) ∧
        ∃ t, acquire C (L.disk v) = .ok t := by
  obtain ⟨versions, hsound, -⟩ := hs₀.seen hrun
  exact ⟨hsound.disk, fun v hloss =>
    ⟨hs₀.seenIn_powerLoss hrun hloss, hs₀.exists_acquire hC hrun hloss⟩⟩

/-- Files named by numbers, in one directory. -/
def plainLayout : Layout ℕ where
  path f := match f with
    | .psks => 0
    | .clients => 1
  parent _ := 2
  path_ne := by decide

/-- A disk that has two files. -/
def plainVolume (d : Disk) : Volume ℕ Bytes where
  inode i := ⟨(if i = 0 then d.psks else d.clients).getD [], true⟩
  free := 2
  entry n := match n with
    | 0 => d.psks.map fun _ => 0
    | 1 => d.clients.map fun _ => 1
    | _ => none
  older _ := []

/-- The daemon on such a disk. -/
def plainStorage (s : State) : Storage ℕ := ⟨s, plainVolume s.disk, 3⟩

theorem plainVolume_look (d : Disk) (f : File) :
    (plainVolume d).look (plainLayout.path f) = d.get f := by
  obtain ⟨psks, clients⟩ := d
  cases f
  · cases psks <;> rfl
  · cases clients <;> rfl

theorem plainStorage_started {s : State} (hs : Started C s) :
    (plainStorage s).Started C plainLayout := by
  refine ⟨hs, Disk.ext_get fun f => ?_, fun f => ⟨rfl, fun _ _ => rfl, fun i hi => ?_⟩⟩
  · rw [Layout.get_disk]
    exact (plainVolume_look s.disk f).symm
  · rw [Volume.entries, List.mem_cons] at hi
    rcases hi with hi | hi
    · cases f
      · obtain ⟨x, -, rfl⟩ := Option.map_eq_some_iff.mp hi.symm
        exact Nat.zero_lt_two
      · obtain ⟨x, -, rfl⟩ := Option.map_eq_some_iff.mp hi.symm
        exact Nat.one_lt_two
    · cases hi

theorem plainStorage_finite (s : State) : (plainStorage s).volume.names.Finite := by
  refine (Set.finite_lt_nat 2).subset fun n hn => ?_
  rcases n with - | - | n
  · exact Nat.zero_lt_two
  · exact Nat.one_lt_two
  · exact absurd rfl hn

/-- Enrolling `alice`, up to the moment the key file is in place and not flushed. -/
theorem whole_of_powerLoss_renamed :
    ∃ ls s, Storage.Run plainCodecs plainLayout (plainStorage (plainBoot (plainOrder []))) ls s ∧
      s.state.disk ≠ (plainBoot (plainOrder [])).disk ∧
      ∃ v t, s.volume.PowerLoss v ∧ acquire plainCodecs (plainLayout.disk v) = .ok t := by
  obtain ⟨ls, t, hrun, hdisk⟩ :=
    Lts.exists_run_of_exec (next plainCodecs) (plainBoot (plainOrder []))
      (.call enrollAlice :: .acquire enrollAlice .unixEpoch (plainOrder [alice]) ::
        List.replicate 4 (.ok (plainOrder [alice])))
      (fun t _ => t.disk ≠ (plainBoot (plainOrder [])).disk) (by decide +kernel)
  obtain ⟨s, hs, rfl⟩ := Storage.exists_run (L := plainLayout) hrun rfl (plainStorage_finite _)
  obtain ⟨v, hloss⟩ := s.volume.exists_powerLoss
  have hboot : Started plainCodecs (plainBoot (plainOrder [])) :=
    plainBoot_started (by decide) (by decide)
  obtain ⟨-, hwhole⟩ := whole_of_powerLoss plainCodecs_lawful (plainStorage_started hboot) hs
  obtain ⟨-, t, ht⟩ := hwhole v hloss
  exact ⟨_, s, hs, hdisk, v, t, hloss, ht⟩

end Runs

/-! ### The first file of a call is flushed before the second is written -/

/-- There are two files. -/
theorem File.eq_of_ne {f g k : File} (hf : f ≠ k) (hg : g ≠ k) : f = g := by
  cases f <;> cases g <;> cases k <;> first | rfl | exact absurd rfl hf | exact absurd rfl hg

/-- **A call that writes its second file has flushed the first.** -/
def Flushed (s : State) (versions : File → List (Option Bytes)) : Prop :=
  ∀ h f, s.holder = some h → h.before = some f → (versions f).length = 1

section Flushed

variable {s s' : State} {e : Event} {h : Holder} {versions : File → List (Option Bytes)} {f : File}

theorem length_keep_of_completes (hc : s.Completes e h) {x : Option Bytes}
    (hhead : (versions h.file).head? = some x) :
    (s.keep L e versions h.file).length = 1 := by
  obtain ⟨hh, hstage, order, rfl⟩ := hc
  simp only [State.keep, hh, Holder.keep, hstage, if_true]
  cases hv : versions h.file with
  | nil => simp [hv] at hhead
  | cons y ys => rfl

/-- A file that has one version keeps one, unless it is the one that is moved into place. -/
theorem length_keep (hlen : (versions f).length = 1)
    (hne : ∀ h, s.holder = some h → h.stage = .rename → f ≠ h.file) :
    (s.keep L e versions f).length = 1 := by
  obtain ⟨tables, disk, holder, waiting⟩ := s
  cases holder with
  | none => exact hlen
  | some h =>
    cases e with
    | ok order =>
      obtain ⟨call, file, stage, content⟩ := h
      cases stage with
      | rename =>
        simp only [State.keep, Holder.keep]
        rw [Function.update_of_ne (hne _ rfl rfl)]
        exact hlen
      | syncDir =>
        simp only [State.keep, Holder.keep]
        split
        · rw [List.length_take, hlen]
          rfl
        · exact hlen
      | _ => exact hlen
    | _ => exact hlen

theorem Proceeds.flushed (hp : Proceeds s e s') (hf : Flushed s versions)
    (hhead : ∀ f, (versions f).head? = some (s.disk.get f)) :
    Flushed s' (s.keep L e versions) := by
  intro h' f hh' hbefore
  cases hp with
  | @on h stage hh hadv hh₁ hdisk =>
    cases hh₁.symm.trans hh'
    refine length_keep (hf h f hh hbefore) fun h₁ hh₁ _ => ?_
    cases hh.symm.trans hh₁
    exact Holder.before_ne_file hbefore
  | ended _ hended _ =>
    obtain ⟨h, hcompletes, rfl⟩ := (hended h' hh').2 f hbefore
    exact length_keep_of_completes hcompletes (hhead h.file)
  | idle hidle hsame _ =>
    rw [hsame] at hh'
    refine length_keep (hf h' f hh' hbefore) fun h₁ hh₁ _ => ?_
    cases hh'.symm.trans hh₁
    exact Holder.before_ne_file hbefore

/-- **When a call returns `Ok`, both files have one version.** -/
theorem length_keep_of_ok {c : Call} (hnext : next C s e = some (s', .returned c (.ok ())))
    (hf : Flushed s versions) (hhead : ∀ f, (versions f).head? = some (s.disk.get f)) (f : File) :
    (s.keep L e versions f).length = 1 := by
  obtain ⟨h, f₁, hcompletes, hbefore⟩ := completes_of_ok hnext
  rcases eq_or_ne f h.file with rfl | hne
  · exact length_keep_of_completes hcompletes (hhead h.file)
  · rw [File.eq_of_ne hne (Holder.before_ne_file hbefore)]
    refine length_keep (hf h f₁ hcompletes.1 hbefore) fun h₁ hh₁ hstage => ?_
    cases hcompletes.1.symm.trans hh₁
    rw [hcompletes.2.1] at hstage
    cases hstage

end Flushed

section Acknowledged

variable {s₀ s t u : Storage ν} {ls : List (Option Label)} {l : Label} {call : Call}
  {versions : File → List (Option Bytes)}

theorem Storage.Started.flushed (hs₀ : s₀.Started C L) (hrun : Storage.Run C L s₀ ls s) :
    ∃ versions, s.Sound L versions ∧ Flushed s.state versions := by
  refine hrun.invariant (I := fun s => ∃ versions, s.Sound L versions ∧ Flushed s.state versions)
    (fun s l t hs hstep => ?_) ⟨_, hs₀.sound, fun h f hh => by rw [hs₀.started.2.1] at hh; cases hh⟩
  obtain ⟨versions, hsound, hflushed⟩ := hs
  cases hstep with
  | state garbage hnext hfresh htmp =>
    exact ⟨_, hsound.next hnext hfresh htmp, (proceeds_of_next hnext).flushed hflushed hsound.head⟩
  | powerLoss hloss hload =>
    exact ⟨_, (hsound.powerLoss hloss s.tmp).1, fun h f hh => by cases hh⟩

omit [DecidableEq ν] in
/-- A file that has one version is found as it is seen. -/
theorem Storage.Sound.get_of_length (hs : s.Sound L versions) {f : File}
    (hlen : (versions f).length = 1) {v : Volume ν Bytes} (hloss : s.volume.PowerLoss v) :
    (L.disk v).get f = s.state.disk.get f := by
  have hmem := (hs.powerLoss (t := s.state.tables) hloss s.tmp).2 f
  obtain ⟨x, hx⟩ := List.length_eq_one_iff.mp hlen
  have hhead := hs.head f
  rw [hx] at hmem hhead
  rw [List.mem_singleton.mp hmem]
  exact Option.some.inj hhead

/-! ### What is acknowledged is kept -/

/-- **An entry that every version has.** Each version of a file is the file's part of tables in
which the client has the entry. -/
structure Storage.Keeps (C : Codecs) (L : Layout ν) (c : Identity)
    (e : Option Psk × Option ResolvedClient) (s : Storage ν)
    (versions : File → List (Option Bytes)) : Prop where
  /-- The files hold their versions. -/
  sound : s.Sound L versions
  /-- The entry is settled. -/
  settled : ∃ d, Synced C s.state d ∧ (s.state.ledger d).Settled c e
  /-- Every version has it. -/
  kept : ∀ f x, x ∈ versions f → ∃ t : Tables, f.Loads C t x ∧ t.entry c = e

variable {c : Identity} {e : Option Psk × Option ResolvedClient}

omit [DecidableEq ν] in
/-- So has what a power loss leaves. -/
theorem Storage.Keeps.powerLoss (hs : s.Keeps C L c e versions) {v : Volume ν Bytes}
    (hloss : s.volume.PowerLoss v) : ∃ t, acquire C (L.disk v) = .ok t ∧ t.entry c = e := by
  have hmem := (hs.sound.powerLoss (t := s.state.tables) hloss s.tmp).2
  obtain ⟨tp, hp, hpe⟩ := hs.kept .psks _ (hmem .psks)
  obtain ⟨tc, hc, hce⟩ := hs.kept .clients _ (hmem .clients)
  have hpsk : tp.psks.lookup c = e.1 := congrArg Prod.fst hpe
  have hclient : tc.clients.lookup c = e.2 := congrArg Prod.snd hce
  exact ⟨⟨tp.psks, tc.clients⟩, acquire_eq_ok_iff.mpr ⟨hp, hc⟩, Prod.ext hpsk hclient⟩

/-- **The step lemma**: a settled entry stays, in memory and in every version. -/
theorem Storage.Step.keeps (hC : C.Lawful) {l : Option Label} (hstep : Storage.Step C L s l t)
    (hno : ∀ k, l = some k → ¬k.Begins c) (hs : s.Keeps C L c e versions) :
    ∃ versions', t.Keeps C L c e versions' := by
  cases hstep with
  | @state ev o t garbage tmp hnext hfresh htmp =>
    obtain ⟨d, hy, hset⟩ := hs.settled
    obtain ⟨d', hled, hy'⟩ := Step.tracks (l := (ev, o)) hnext fun _ => hy.disk
    have hset' := hled.settled (fun call hm => client_ne_of_not_begins (hno _ rfl) hm) hset
    have hsound := hs.sound.next hnext hfresh htmp
    refine ⟨_, hsound, ⟨d', hy' hC hy, hset'⟩, fun f x hx => ?_⟩
    rcases State.mem_keep hx with hx | hhead
    · exact hs.kept f x hx
    · cases (hsound.head f).symm.trans hhead
      exact ⟨d', acquire_eq_ok_iff_loads.mp (hy' hC hy).disk f, hset'.disk⟩
  | @powerLoss v t hloss hload =>
    obtain ⟨t', hload', hentry⟩ := hs.powerLoss hloss
    cases hload.symm.trans hload'
    refine ⟨_, (hs.sound.powerLoss hloss s.tmp).1, ⟨t, ⟨hload, fun _ hh => by cases hh⟩, ?_⟩,
      fun f x hx => ?_⟩
    · exact ⟨hentry, hentry, fun f hf => by cases hf⟩
    · rw [List.mem_singleton] at hx
      exact ⟨t, hx ▸ acquire_eq_ok_iff_loads.mp hload f, hentry⟩

theorem Storage.Run.keeps (hC : C.Lawful) (hrun : Storage.Run C L s ls t)
    (hno : ∀ k, some k ∈ ls → ¬k.Begins c) (hs : s.Keeps C L c e versions) :
    ∃ versions', t.Keeps C L c e versions' := by
  induction hrun generalizing versions with
  | nil => exact ⟨versions, hs⟩
  | cons hstep _ ih =>
    obtain ⟨versions', hs'⟩ := hstep.keeps hC (fun k hk => hno k (hk ▸ List.mem_cons_self)) hs
    exact ih (fun k hk => hno k (List.mem_cons_of_mem _ hk)) hs'

/-- **What is acknowledged is kept.** Start the daemon on files that the disk has, and take any run
at the end of which a call returns `Ok`. If the power fails then, the files load as exactly the
tables in memory. And in whatever follows, with writes that fail, calls that are dropped, crashes
and power losses, as long as no call on the same client gets past its check: the entry of the
client is the one the call left, in memory and in what another power loss would leave. -/
theorem kept_of_powerLoss (hC : C.Lawful) (hs₀ : s₀.Started C L)
    (hrun : Storage.Run C L s₀ ls s) (hstep : Storage.Step C L s (some l) u)
    (hl : l.2 = .returned call (.ok ())) :
    (∀ v, u.volume.PowerLoss v → acquire C (L.disk v) = .ok u.state.tables) ∧
      call.Done (u.state.tables.entry call.client) ∧
      ∀ ls' w, Storage.Run C L u ls' w → (∀ k, some k ∈ ls' → ¬k.Begins call.client) →
        w.state.tables.entry call.client = u.state.tables.entry call.client ∧
          ∀ v, w.volume.PowerLoss v → ∃ t, acquire C (L.disk v) = .ok t ∧
            t.entry call.client = u.state.tables.entry call.client := by
  obtain ⟨versions, hsound, hflushed⟩ := hs₀.flushed hrun
  cases hstep with
  | @state e o t garbage tmp hnext hfresh htmp =>
    cases (hl : o = _)
    obtain ⟨-, hy, hdone, hset⟩ :=
      settled_of_ok (l := (e, .returned call (.ok ()))) hC (hs₀.reachable hrun) hnext rfl
    have hsound' := hsound.next hnext hfresh htmp
    have hone := length_keep_of_ok (L := L) hnext hflushed hsound.head
    have hdisk : acquire C t.disk = .ok t.tables := hy.disk
    refine ⟨fun v hloss => ?_, hdone, fun ls' w hrun' hno => ?_⟩
    · rw [← hdisk]
      exact congrArg _ (Disk.ext_get fun f => hsound'.get_of_length (hone f) hloss)
    · have hkeeps : Storage.Keeps C L call.client (t.tables.entry call.client)
          ⟨t, s.state.effect L s.tmp garbage s.volume e, tmp⟩ (s.state.keep L e versions) := by
        refine ⟨hsound', ⟨t.tables, hy, hset⟩, fun f x hx => ⟨t.tables, ?_, rfl⟩⟩
        -- the one version is what is seen
        obtain ⟨y, hy₁⟩ := List.length_eq_one_iff.mp (hone f)
        have hhead := hsound'.head f
        rw [hy₁] at hx hhead
        cases List.mem_singleton.mp hx
        cases hhead
        exact acquire_eq_ok_iff_loads.mp hdisk f
      obtain ⟨versions', hkeeps'⟩ := Storage.Run.keeps hC hrun' hno hkeeps
      obtain ⟨d, -, hset'⟩ := hkeeps'.settled
      exact ⟨hset'.mem, fun v hloss => hkeeps'.powerLoss hloss⟩

/-- Two calls go through; the second is the last thing that happens. -/
theorem kept_of_powerLoss_enrolRevoke :
    ∃ ls s u,
      Storage.Run plainCodecs plainLayout (plainStorage (plainBoot (plainOrder [bob]))) ls s ∧
      (∃ e, Storage.Step plainCodecs plainLayout s (some (e, .returned (.revoke bob) (.ok ()))) u) ∧
      ∃ v, u.volume.PowerLoss v ∧
        acquire plainCodecs (plainLayout.disk v) = .ok u.state.tables := by
  obtain ⟨ls, t, hrun, ho⟩ :=
    Lts.exists_run_of_exec (next plainCodecs) (plainBoot (plainOrder [bob])) enrolRevoke
      (fun _ ls => ls[27]?.map Prod.snd = some (.returned (.revoke bob) (.ok ())))
      (by decide +kernel)
  obtain ⟨⟨e, o⟩, hl, rfl⟩ := Option.map_eq_some_iff.mp ho
  obtain ⟨w, hw, -⟩ := Storage.exists_run (L := plainLayout) hrun rfl (plainStorage_finite _)
  have hl' : (ls.map some)[27]? = some (some (e, .returned (.revoke bob) (.ok ()))) := by
    rw [List.getElem?_map, hl]
    rfl
  obtain ⟨s, u, hpre, hstep, -⟩ := hw.split_at hl'
  obtain ⟨v, hloss⟩ := u.volume.exists_powerLoss
  have hboot : Started plainCodecs (plainBoot (plainOrder [bob])) :=
    plainBoot_started (by decide) (by decide)
  exact ⟨_, s, u, hpre, ⟨e, hstep⟩, v, hloss,
    (kept_of_powerLoss plainCodecs_lawful (plainStorage_started hboot) hpre hstep rfl).1 v hloss⟩

end Acknowledged

/-! ### Without failed writes, every listed client has a key -/

/-- **The ages fit**: a client that some version of the list has is in every version of the
keys. -/
def Fits (C : Codecs) (versions : File → List (Option Bytes)) : Prop :=
  ∀ xp ∈ versions .psks, ∀ xc ∈ versions .clients, ∀ tp tc, File.psks.Loads C tp xp →
    File.clients.Loads C tc xc → ∀ x ∈ tc.clients, x ∈ tp.psks

/-- An enrolment writes the keys first: they are those on disk and the new one. -/
theorem Ledger.Clean.mem_psks_of_enroll {m d : Tables} {c x : Identity} {psk : Psk}
    {provider : ProviderKind} {note : Option Note}
    (h : Ledger.Clean ⟨m, d, some ⟨.enroll c psk provider note, .psks, false⟩⟩)
    (hx : x ∈ d.psks) : x ∈ m.psks := by
  rcases eq_or_ne c x with rfl | hne
  · exact Finmap.mem_iff.mpr ⟨psk, (h.written _ rfl).1.1⟩
  · exact (h.psks x fun f hf => by cases hf; exact hne).mpr hx

/-- A revocation writes the list first: it is the one on disk without the client. -/
theorem Ledger.Clean.mem_clients_of_revoke {m d : Tables} {c x : Identity}
    (h : Ledger.Clean ⟨m, d, some ⟨.revoke c, .clients, false⟩⟩)
    (hx : x ∈ m.clients.erase c) : x ∈ d.clients := by
  obtain ⟨hne, hmem⟩ := Finmap.mem_erase.mp hx
  exact (h.clients x fun f hf => by cases hf; exact hne.symm).mp hmem

section Fits

variable {s : State} {h : Holder} {d : Tables} {versions : File → List (Option Bytes)}

/-- What one version of the keys has to have, when there is one version. -/
theorem get_of_flushed {f : File} (hlen : (versions f).length = 1) {x : Option Bytes}
    (hx : x ∈ versions f) (hhead : (versions f).head? = some (s.disk.get f)) :
    x = s.disk.get f := by
  obtain ⟨y, hy⟩ := List.length_eq_one_iff.mp hlen
  rw [hy] at hx hhead
  rw [List.mem_singleton.mp hx]
  exact Option.some.inj hhead

/-- **Moving a file into place keeps the ages fitting.** The first file of a call fits every
version of the other; the second is only written when the other has one version. -/
theorem Fits.rename (hfit : Fits C versions) (hflushed : Flushed s versions)
    (hhead : ∀ f, (versions f).head? = some (s.disk.get f)) (hh : s.holder = some h)
    (hstage : h.stage = .rename) (hy : Synced C s d) (hc : (s.ledger d).Clean) :
    Fits C (Function.update versions h.file (some h.content :: versions h.file)) := by
  have hloads := acquire_eq_ok_iff_loads.mp hy.disk
  have hseen : ∀ f, s.disk.get f ∈ versions f := fun f => List.mem_of_head? (hhead f)
  have hpending := hy.pending h hh
  rw [State.ledger, hh] at hc
  obtain ⟨call, file, stage, content⟩ := h
  cases hstage
  replace hc : Ledger.Clean ⟨s.tables, d, some ⟨call, file, false⟩⟩ := hc
  intro xp hxp xc hxc tp tc htp htc x hx
  cases file with
  | psks =>
    rw [Function.update_self, List.mem_cons] at hxp
    rw [Function.update_of_ne File.noConfusion] at hxc
    rcases hxp with rfl | hxp
    · have hkeys : tp.psks = s.tables.psks := Except.ok.inj (htp.symm.trans hpending)
      rw [hkeys]
      cases call with
      | enroll client psk provider note =>
        exact hc.mem_psks_of_enroll (hfit _ (hseen .psks) xc hxc d tc (hloads .psks) htc x hx)
      | revoke client =>
        have hxc' := get_of_flushed (hflushed _ .clients hh rfl) hxc (hhead .clients)
        rw [hxc'] at htc
        have hlist : tc.clients = d.clients := Except.ok.inj (htc.symm.trans (hloads .clients))
        exact hc.listed_land (hlist ▸ hx : x ∈ d.clients)
    · exact hfit xp hxp xc hxc tp tc htp htc x hx
  | clients =>
    rw [Function.update_self, List.mem_cons] at hxc
    rw [Function.update_of_ne File.noConfusion] at hxp
    rcases hxc with rfl | hxc
    · have hlist : tc.clients = call.listed s.tables.clients :=
        Except.ok.inj (htc.symm.trans hpending)
      rw [hlist] at hx
      cases call with
      | enroll client psk provider note =>
        have hxp' := get_of_flushed (hflushed _ .psks hh rfl) hxp (hhead .psks)
        rw [hxp'] at htp
        have hkeys : tp.psks = d.psks := Except.ok.inj (htp.symm.trans (hloads .psks))
        rw [hkeys]
        exact hc.listed_land hx
      | revoke client =>
        exact hfit xp hxp _ (hseen .clients) tp d htp (hloads .clients) x
          (hc.mem_clients_of_revoke hx)
    · exact hfit xp hxp xc hxc tp tc htp htc x hx

/-- **A step keeps the ages fitting.** -/
theorem Fits.keep (hfit : Fits C versions) (hflushed : Flushed s versions)
    (hhead : ∀ f, (versions f).head? = some (s.disk.get f)) (hy : Synced C s d)
    (hc : (s.ledger d).Clean) (e : Event) : Fits C (s.keep L e versions) := by
  by_cases hren : ∃ h order, s.holder = some h ∧ e = .ok order ∧ h.stage = .rename
  · obtain ⟨h, order, hh, rfl, hstage⟩ := hren
    have hkeep : s.keep L (.ok order) versions =
        Function.update versions h.file (some h.content :: versions h.file) := by
      simp only [State.keep, hh, Holder.keep, hstage]
    rw [hkeep]
    exact hfit.rename hflushed hhead hh hstage hy hc
  · -- no version has been added
    have hsub : ∀ f x, x ∈ s.keep L e versions f → x ∈ versions f := fun f x hx => by
      rcases State.mem_keep hx with hx | hx
      · exact hx
      · rw [State.keep_of_not_rename fun h order hh he hstage => hren ⟨h, order, hh, he, hstage⟩]
          at hx
        exact List.mem_of_head? hx
    exact fun xp hxp xc hxc => hfit xp (hsub _ _ hxp) xc (hsub _ _ hxc)

end Fits

section Listed

variable {s₀ s t : Storage ν} {ls : List (Option Label)}

/-- **What holds along a run without failed writes**: the files hold versions whose ages fit, and
memory and disk agree on everybody but the client of the call in flight. -/
def Storage.Orderly (C : Codecs) (L : Layout ν) (s : Storage ν) : Prop :=
  ∃ versions d, s.Sound L versions ∧ Flushed s.state versions ∧ Fits C versions ∧
    Synced C s.state d ∧ (s.state.ledger d).Clean

omit [DecidableEq ν] in
/-- What a power loss leaves loads, and every listed client has a key. -/
theorem Storage.Orderly.powerLoss (hs : s.Orderly C L) {v : Volume ν Bytes}
    (hloss : s.volume.PowerLoss v) {d : Tables} (hload : acquire C (L.disk v) = .ok d) :
    ∀ x ∈ d.clients, x ∈ d.psks := by
  obtain ⟨versions, -, hsound, -, hfit, -⟩ := hs
  have hmem := (hsound.powerLoss (t := s.state.tables) hloss s.tmp).2
  have hloads := acquire_eq_ok_iff_loads.mp hload
  exact hfit _ (hmem .psks) _ (hmem .clients) d d (hloads .psks) (hloads .clients)

theorem Storage.Step.orderly (hC : C.Lawful) {l : Option Label} (hstep : Storage.Step C L s l t)
    (hclean : ∀ k, l = some k → k.Clean) (hs : s.Orderly C L) : t.Orderly C L := by
  cases hstep with
  | @state e o t garbage tmp hnext hfresh htmp =>
    obtain ⟨versions, d, hsound, hflushed, hfit, hy, hc⟩ := hs
    obtain ⟨d', hled, hy'⟩ := Step.tracks (l := (e, o)) hnext fun _ => hy.disk
    exact ⟨_, d', hsound.next hnext hfresh htmp,
      (proceeds_of_next hnext).flushed hflushed hsound.head,
      hfit.keep hflushed hsound.head hy hc e, hy' hC hy, hled.clean hC (hclean _ rfl).move hc⟩
  | @powerLoss v t hloss hload =>
    have hlisted := hs.powerLoss hloss hload
    obtain ⟨versions, -, hsound, -, hfit, -⟩ := hs
    obtain ⟨hsound', hmem⟩ := hsound.powerLoss (t := t) hloss s.tmp
    refine ⟨_, t, hsound', fun h f hh => (by cases hh), fun xp hxp xc hxc => ?_,
      ⟨hload, fun _ hh => by cases hh⟩, .of_eq rfl rfl hlisted⟩
    cases List.mem_singleton.mp hxp
    cases List.mem_singleton.mp hxc
    exact hfit _ (hmem .psks) _ (hmem .clients)

/-- **Every listed client has a key**, whatever ages the two files are found at. Start the daemon
on files that the disk has and in which every listed client has a key, and take any run in which no
write returns an error and no lock holder is dropped, with crashes and power losses anywhere.
If the power fails now, the files load, and every listed client has a key. -/
theorem listed_of_powerLoss (hC : C.Lawful) (hs₀ : s₀.Started C L)
    (hlisted : ∀ x ∈ s₀.state.tables.clients, x ∈ s₀.state.tables.psks)
    (hrun : Storage.Run C L s₀ ls s) (hclean : ∀ k, some k ∈ ls → k.Clean) {v : Volume ν Bytes}
    (hloss : s.volume.PowerLoss v) :
    ∃ d, acquire C (L.disk v) = .ok d ∧ ∀ x ∈ d.clients, x ∈ d.psks := by
  have hfree : (s₀.state.ledger s₀.state.tables).flight = none := by
    rw [State.ledger, hs₀.started.2.1]
    rfl
  have hloads := acquire_eq_ok_iff_loads.mp hs₀.started.1
  have horderly₀ : s₀.Orderly C L := by
    refine ⟨_, _, hs₀.sound, fun h f hh => ?_, fun xp hxp xc hxc tp tc htp htc => ?_,
      .of_started hs₀.started, .of_eq rfl hfree hlisted⟩
    · rw [hs₀.started.2.1] at hh
      cases hh
    · rw [List.mem_singleton] at hxp hxc
      rw [hxp, ← L.get_disk, ← hs₀.disk] at htp
      rw [hxc, ← L.get_disk, ← hs₀.disk] at htc
      have hkeys : tp.psks = _ := Except.ok.inj (htp.symm.trans (hloads .psks))
      have hlist : tc.clients = _ := Except.ok.inj (htc.symm.trans (hloads .clients))
      rw [hkeys, hlist]
      exact hlisted
  have horderly : s.Orderly C L :=
    hrun.history_of_forall (P := fun _ s => s.Orderly C L) (Q := fun l => ∀ k, l = some k → k.Clean)
      (fun _ s l t hs hl hstep => hstep.orderly hC hl hs)
      (fun l hl k hk => hclean k (hk ▸ hl)) horderly₀
  obtain ⟨d, hload⟩ := hs₀.exists_acquire hC hrun hloss
  exact ⟨d, hload, horderly.powerLoss hloss hload⟩

/-- The power fails in the middle of an enrolment. -/
theorem listed_of_powerLoss_halfEnrolment :
    ∃ ls s v d,
      Storage.Run plainCodecs plainLayout (plainStorage (plainBoot (plainOrder []))) ls s ∧
      ls.length = 8 ∧ s.volume.PowerLoss v ∧ acquire plainCodecs (plainLayout.disk v) = .ok d ∧
        ∀ x ∈ d.clients, x ∈ d.psks := by
  obtain ⟨ls, t, hrun, hlen, hsilent⟩ :=
    Lts.exists_run_of_exec (next plainCodecs) (plainBoot (plainOrder [])) halfEnrolment
      (fun _ ls => ls.length = 8 ∧ ∀ l ∈ ls, l.2 = .silent) (by decide +kernel)
  obtain ⟨s, hs, -⟩ := Storage.exists_run (L := plainLayout) hrun rfl (plainStorage_finite _)
  obtain ⟨v, hloss⟩ := s.volume.exists_powerLoss
  have hboot : Started plainCodecs (plainBoot (plainOrder [])) :=
    plainBoot_started (by decide) (by decide)
  have hclean : ∀ k : Label, some k ∈ ls.map some → k.Clean := fun k hk => by
    obtain ⟨l, hl, hlk⟩ := List.mem_map.mp hk
    cases hlk
    simp [Label.Clean, hsilent k hl]
  obtain ⟨d, hd, hlisted⟩ := listed_of_powerLoss plainCodecs_lawful (plainStorage_started hboot)
    (fun x hx => absurd hx Finmap.notMem_empty) hs hclean hloss
  exact ⟨_, s, v, d, hs, by rw [List.length_map, hlen], hloss, hd, hlisted⟩

end Listed

end Symbolon
