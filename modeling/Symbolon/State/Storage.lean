import Symbolon.Lib.Volume
import Symbolon.State.Ledger

/-!
# The atomic write, on a file system

`Symbolon.next` takes from the atomic write of `src/atomic_fs.rs` that a file has its old content
or its new one. Here the stages of the write are what they are, operations on a file system
(`Symbolon.Holder.effect`): create a temporary file next to the target, write it, flush it, move
it over the target, flush the directory. The file system is one that may lose power
(`Volume`). Around it the daemon runs as before, its calls fail and are dropped, and the
process dies and is started again; beside that, the power may fail at any moment and the daemon
be started on what is left (`Symbolon.Storage.Step`).

At every moment of every such run (`Symbolon.Storage.Sound`) the two files are seen as the
mutation machine says, and each **holds** its versions, all of them whole contents that the
file had. A write that goes through leaves one version, the one written.

The name of the temporary file is drawn at random (`Ulid::new`). That it is not the name of any
file there is, nor of a state file, is assumed.
-/

namespace Symbolon

open Text

/-- The content of a file. -/
def Disk.get (d : Disk) : File → Option Bytes
  | .psks => d.psks
  | .clients => d.clients

@[simp] theorem Disk.get_replace_self (d : Disk) (content : Bytes) (f : File) :
    (d.replace content f).get f = some content := by cases f <;> rfl

theorem Disk.get_replace_of_ne (d : Disk) (content : Bytes) {f g : File} (h : g ≠ f) :
    (d.replace content f).get g = d.get g := by
  cases f <;> cases g <;> first | rfl | exact absurd rfl h

theorem Disk.ext_get {d d' : Disk} (h : ∀ f, d.get f = d'.get f) : d = d' := by
  obtain ⟨psks, clients⟩ := d
  obtain ⟨psks', clients'⟩ := d'
  exact (Disk.mk.injEq ..).mpr ⟨h .psks, h .clients⟩

/-- **Where the files are.** -/
structure Layout (ν : Type) where
  /-- The path of a state file. -/
  path : File → ν
  /-- The directory of a path. -/
  parent : ν → ν
  /-- The files are two. -/
  path_ne : path .psks ≠ path .clients

theorem Layout.path_injective {ν : Type} (L : Layout ν) : Function.Injective L.path := by
  rintro (- | -) (- | -) h
  · rfl
  · exact absurd h L.path_ne
  · exact absurd h.symm L.path_ne
  · rfl

/-- The files, as they are seen. -/
def Layout.disk {ν : Type} (L : Layout ν) (v : Volume ν Bytes) : Disk :=
  ⟨v.look (L.path .psks), v.look (L.path .clients)⟩

theorem Layout.get_disk {ν : Type} (L : Layout ν) (v : Volume ν Bytes) (f : File) :
    (L.disk v).get f = v.look (L.path f) := by cases f <;> rfl

/-- The temporary file is there: it is file number `i`, and neither of the state files. -/
structure Layout.Draft {ν : Type} (L : Layout ν) (v : Volume ν Bytes) (tmp : ν) (i : ℕ) : Prop where
  /-- It has a name of its own. -/
  ne : ∀ f, tmp ≠ L.path f
  /-- The name is the file's. -/
  entry : v.entry tmp = some i
  /-- The number is taken. -/
  lt_free : i < v.free
  /-- The file is no version of a state file. -/
  foreign : ∀ f, v.Foreign (L.path f) i

theorem Layout.Draft.setInode {ν : Type} {L : Layout ν} {v : Volume ν Bytes} {tmp : ν} {i : ℕ}
    (h : L.Draft v tmp i) (f : Volume.Inode Bytes) : L.Draft (v.setInode i f) tmp i :=
  ⟨h.ne, h.entry, h.lt_free, h.foreign⟩

/-- **The daemon and its files.** -/
structure Storage (ν : Type) where
  /-- The tables and the calls. -/
  state : State
  /-- The file system. -/
  volume : Volume ν Bytes
  /-- The temporary file of the write that is made. -/
  tmp : ν

variable {ν : Type} [DecidableEq ν]

/-- **What a stage of a write does to the file system** when it succeeds. -/
def Holder.perform (L : Layout ν) (h : Holder) (tmp : ν) (v : Volume ν Bytes) : Volume ν Bytes :=
  match h.stage with
  | .open => v.create tmp []
  | .write => v.write tmp h.content
  | .syncAll => v.sync tmp
  | .rename => v.rename tmp (L.path h.file)
  | .removeFile _ => v.remove tmp
  | .openDir => v
  | .syncDir => v.syncDir fun n => L.parent n = L.parent (L.path h.file)

/-- **What an event does to the file system.** A write that is not waited for to its end may have
written anything; another operation that fails has done nothing. -/
def State.effect (L : Layout ν) (s : State) (tmp : ν) (garbage : Bytes) (v : Volume ν Bytes)
    (e : Event) : Volume ν Bytes :=
  match s.holder, e with
  | some h, .ok _ => h.perform L tmp v
  | some h, .err _ | some h, .cancel | some h, .crash =>
    if h.stage = .write then v.write tmp garbage else v
  | _, _ => v

/-- The name of a temporary file is new, when the file is about to be created. -/
def Layout.FreshTmp (L : Layout ν) (s : State) (v : Volume ν Bytes) (tmp : ν) : Prop :=
  ∀ h, s.holder = some h → h.stage = .open → v.entry tmp = none ∧ ∀ f, tmp ≠ L.path f

variable (C : Codecs) (L : Layout ν)

/-- **The steps of the daemon and its files.** -/
inductive Storage.Step (s : Storage ν) : Option Label → Storage ν → Prop
  /-- The daemon makes a step. The temporary file is the same until another is to be created. -/
  | state {e : Event} {o : Output} {s' : State} (garbage : Bytes) {tmp : ν}
      (h : next C s.state e = some (s', o))
      (hfresh : L.FreshTmp s' (s.state.effect L s.tmp garbage s.volume e) tmp)
      (htmp : tmp = s.tmp ∨ ∃ h, s'.holder = some h ∧ h.stage = .open) :
      Step s (some (e, o)) ⟨s', s.state.effect L s.tmp garbage s.volume e, tmp⟩
  /-- The power fails, and the daemon is started on what is left. -/
  | powerLoss {v : Volume ν Bytes} {t : Tables} (hloss : s.volume.PowerLoss v)
      (hload : acquire C (L.disk v) = .ok t) : Step s none ⟨⟨t, L.disk v, none, []⟩, v, s.tmp⟩

/-- The runs of the daemon and its files. -/
abbrev Storage.Run : Storage ν → List (Option Label) → Storage ν → Prop :=
  Lts.Run (Storage.Step C L)

/-! ### What a write has done so far -/

/-- **The temporary file of a write**, by its stage. -/
def Layout.Drafted (L : Layout ν) (h : Holder) (v : Volume ν Bytes) (tmp : ν) : Prop :=
  match h.stage with
  | .open => v.entry tmp = none ∧ ∀ f, tmp ≠ L.path f
  | .write | .removeFile _ => ∃ i, L.Draft v tmp i
  | .syncAll => ∃ i, L.Draft v tmp i ∧ v.inode i = ⟨h.content, false⟩
  | .rename => ∃ i, L.Draft v tmp i ∧ v.inode i = ⟨h.content, true⟩
  | .openDir | .syncDir => True

/-- **The files are seen as the machine says, and hold their versions.** -/
structure Storage.Sound (s : Storage ν) (versions : File → List (Option Bytes)) : Prop where
  /-- The versions. -/
  holds : ∀ f, s.volume.Holds (L.path f) (versions f)
  /-- What is seen. -/
  disk : s.state.disk = L.disk s.volume
  /-- The temporary file. -/
  drafted : ∀ h, s.state.holder = some h → L.Drafted h s.volume s.tmp

/-! ### What a step of the machine does to the write that is made -/

/-- The stages of a write that goes on, one after the other. -/
inductive Advances : WriteStage → Event → WriteStage → Prop
  | open (order : Order) : Advances .open (.ok order) .write
  | write (order : Order) : Advances .write (.ok order) .syncAll
  | syncAll (order : Order) : Advances .syncAll (.ok order) .rename
  | rename (order : Order) : Advances .rename (.ok order) .openDir
  | openDir (order : Order) : Advances .openDir (.ok order) .syncDir
  | failed (source : IoError) : Advances .rename (.err source) (.removeFile source)

/-- The file that the call has written before this one. -/
def Holder.before (h : Holder) : Option File :=
  match h.call, h.file with
  | .enroll .., .clients => some .psks
  | .revoke _, .psks => some .clients
  | _, _ => none

theorem Holder.before_ne_file {h : Holder} {f : File} (hf : h.before = some f) : f ≠ h.file := by
  obtain ⟨call, file, stage, content⟩ := h
  rintro rfl
  cases call <;> cases f <;> cases hf

/-- The write has come to its last stage, and that succeeds. -/
def State.Completes (s : State) (e : Event) (h : Holder) : Prop :=
  s.holder = some h ∧ h.stage = .syncDir ∧ ∃ order, e = .ok order

/-- **A step of the machine**: the write goes on, or it is over and maybe another is to begin, or
nothing has happened to it. -/
inductive Proceeds (s : State) (e : Event) (s' : State) : Prop
  /-- It goes on. -/
  | on {h : Holder} {stage : WriteStage} (hh : s.holder = some h) (hadv : Advances h.stage e stage)
      (hh' : s'.holder = some { h with stage := stage })
      (hdisk : s'.disk = if stage = .openDir then s.disk.replace h.content h.file else s.disk)
  /-- It is over, or there was none. -/
  | ended (hrename : ∀ h order, s.holder = some h → e = .ok order → h.stage ≠ .rename)
      (hh' : ∀ h', s'.holder = some h' → h'.stage = .open ∧
        ∀ f, h'.before = some f → ∃ h, s.Completes e h ∧ h.file = f)
      (hdisk : s'.disk = s.disk)
  /-- Nothing has happened to it. -/
  | idle (hidle : ∃ c, e = .call c ∨ e = .abandon c) (hh' : s'.holder = s.holder)
      (hdisk : s'.disk = s.disk)

section Inversion

variable {C} {s s' : State} {e : Event} {o : Output} {h : Holder}

theorem holder_of_start {c : Call} {now : OffsetDateTime} {order : Order}
    (hnext : start C s c now order = some (s', o)) :
    (∀ h, s'.holder = some h → h.stage = .open ∧ h.before = none) ∧ s'.disk = s.disk := by
  cases c with
  | enroll client psk provider note =>
    simp only [start] at hnext
    split at hnext
    · cases hnext
      exact ⟨fun h hh => (by cases hh), rfl⟩
    · split at hnext
      · cases hnext
        exact ⟨fun h hh => (by cases hh; exact ⟨rfl, rfl⟩), rfl⟩
      · cases hnext
  | revoke client =>
    simp only [start] at hnext
    split at hnext
    · cases hnext
      exact ⟨fun h hh => (by cases hh), rfl⟩
    · split at hnext
      · split at hnext <;> cases hnext
        · exact ⟨fun h hh => (by cases hh), rfl⟩
        · exact ⟨fun h hh => (by cases hh; exact ⟨rfl, rfl⟩), rfl⟩
      · cases hnext

theorem holder_of_written {order : Order} (hnext : written C s h order = some (s', o)) :
    (∀ h', s'.holder = some h' → h'.stage = .open ∧ h'.before = some h.file) ∧
      s'.disk = s.disk := by
  obtain ⟨call, file, stage, content⟩ := h
  cases call <;> cases file <;> simp only [written] at hnext
  · split at hnext
    · split at hnext <;> cases hnext
      · exact ⟨fun h hh => (by cases hh), rfl⟩
      · exact ⟨fun h hh => (by cases hh; exact ⟨rfl, rfl⟩), rfl⟩
    · cases hnext
  · cases hnext
    exact ⟨fun h hh => (by cases hh), rfl⟩
  · cases hnext
    exact ⟨fun h hh => (by cases hh), rfl⟩
  · split at hnext <;> cases hnext
    exact ⟨fun h hh => (by cases hh; exact ⟨rfl, rfl⟩), rfl⟩

/-- A step that gives the lock back. -/
theorem Proceeds.released (hrename : ∀ h order, s.holder = some h → e = .ok order →
    h.stage ≠ .rename) (hh' : s'.holder = none) (hdisk : s'.disk = s.disk) : Proceeds s e s' :=
  .ended hrename (fun h hh => by rw [hh'] at hh; cases hh) hdisk

theorem proceeds_of_ioOk {order : Order} (hh : s.holder = some h)
    (hnext : ioOk C s h order = some (s', o)) : Proceeds s (.ok order) s' := by
  have hrename : h.stage ≠ .rename → ∀ h₁ order₁, s.holder = some h₁ →
      Event.ok order = .ok order₁ → h₁.stage ≠ .rename := fun hne h₁ _ hh₁ _ => by
    cases hh.symm.trans hh₁
    exact hne
  obtain ⟨call, file, stage, content⟩ := h
  cases stage with
  | «open» =>
    cases hnext
    exact .on hh (.open order) rfl rfl
  | write =>
    cases hnext
    exact .on hh (.write order) rfl rfl
  | syncAll =>
    cases hnext
    exact .on hh (.syncAll order) rfl rfl
  | rename =>
    cases hnext
    exact .on hh (.rename order) rfl rfl
  | openDir =>
    cases hnext
    exact .on hh (.openDir order) rfl rfl
  | removeFile source =>
    cases hnext
    exact .released (hrename WriteStage.noConfusion) rfl rfl
  | syncDir =>
    obtain ⟨hopen, hdisk⟩ := holder_of_written hnext
    refine .ended (hrename WriteStage.noConfusion) (fun h' hh' => ⟨(hopen h' hh').1, ?_⟩) hdisk
    intro f hf
    exact ⟨_, ⟨hh, rfl, order, rfl⟩, Option.some.inj ((hopen h' hh').2.symm.trans hf)⟩

theorem proceeds_of_ioErr {source : IoError} (hh : s.holder = some h)
    (hnext : ioErr s h source = (s', o)) : Proceeds s (.err source) s' := by
  have hrename : ∀ h₁ order₁, s.holder = some h₁ → Event.err source = .ok order₁ →
      h₁.stage ≠ .rename := fun _ _ _ he => by cases he
  obtain ⟨call, file, stage, content⟩ := h
  cases stage with
  | rename =>
    cases hnext
    exact .on hh (.failed source) rfl rfl
  | _ =>
    cases hnext
    exact .released hrename rfl rfl

/-- **Every step of the machine is one of these.** -/
theorem proceeds_of_next (hnext : next C s e = some (s', o)) : Proceeds s e s' := by
  cases e with
  | call c =>
    cases hnext
    exact .idle ⟨c, .inl rfl⟩ rfl rfl
  | acquire c now order =>
    simp only [next] at hnext
    split at hnext
    · obtain ⟨hopen, hdisk⟩ := holder_of_start hnext
      refine .ended (fun _ _ _ he => by cases he) (fun h' hh' => ⟨(hopen h' hh').1, ?_⟩) hdisk
      intro f hf
      rw [(hopen h' hh').2] at hf
      cases hf
    · cases hnext
  | ok order =>
    simp only [next] at hnext
    split at hnext
    · cases hnext
    · rename_i h hh
      exact proceeds_of_ioOk hh hnext
  | err source =>
    simp only [next] at hnext
    split at hnext
    · cases hnext
    · rename_i h hh
      exact proceeds_of_ioErr hh (Option.some.inj hnext)
  | cancel =>
    simp only [next] at hnext
    split at hnext
    · cases hnext
    · cases hnext
      exact .released (fun _ _ _ he => by cases he) rfl rfl
  | abandon c =>
    simp only [next] at hnext
    split at hnext
    · cases hnext
      exact .idle ⟨c, .inr rfl⟩ rfl rfl
    · cases hnext
  | crash =>
    simp only [next] at hnext
    split at hnext
    · cases hnext
    · cases hnext
      exact .released (fun _ _ _ he => by cases he) rfl rfl

/-- **A call returns `Ok` when the second of its writes completes.** -/
theorem completes_of_ok {c : Call} (hnext : next C s e = some (s', .returned c (.ok ()))) :
    ∃ h f, s.Completes e h ∧ h.before = some f := by
  cases e with
  | ok order =>
    simp only [next] at hnext
    split at hnext
    · cases hnext
    · rename_i h hh
      obtain ⟨call, file, stage, content⟩ := h
      cases stage with
      | syncDir =>
        change written C s _ order = _ at hnext
        cases call <;> cases file <;> simp only [written] at hnext
        · split at hnext
          · split at hnext <;> cases hnext
          · cases hnext
        · exact ⟨_, _, ⟨hh, rfl, order, rfl⟩, rfl⟩
        · exact ⟨_, _, ⟨hh, rfl, order, rfl⟩, rfl⟩
        · split at hnext <;> cases hnext
      | _ => cases hnext
  | acquire c now order =>
    simp only [next] at hnext
    split at hnext
    · cases c <;> simp only [start] at hnext <;> split at hnext
      · cases hnext
      · split at hnext <;> cases hnext
      · cases hnext
      · split at hnext
        · split at hnext <;> cases hnext
        · cases hnext
    · cases hnext
  | err source =>
    simp only [next] at hnext
    split at hnext
    · cases hnext
    · rename_i h hh
      obtain ⟨call, file, stage, content⟩ := h
      cases stage <;> cases hnext
  | call c => cases hnext
  | cancel | abandon | crash =>
    simp only [next] at hnext
    split at hnext <;> cases hnext

end Inversion

/-! ### What a step does to the versions -/

/-- The versions after a stage of a write: the rename adds one, and flushing the directory leaves
the one that is seen. -/
def Holder.keep (h : Holder) (versions : File → List (Option Bytes)) :
    File → List (Option Bytes) :=
  match h.stage with
  | .rename => Function.update versions h.file (some h.content :: versions h.file)
  | .syncDir => fun f =>
    if L.parent (L.path f) = L.parent (L.path h.file) then (versions f).take 1 else versions f
  | _ => versions

/-- The versions after an event. -/
def State.keep (s : State) (e : Event) (versions : File → List (Option Bytes)) :
    File → List (Option Bytes) :=
  match s.holder, e with
  | some h, .ok _ => h.keep L versions
  | _, _ => versions

section Versions

variable {L} {v : Volume ν Bytes} {tmp : ν} {i : ℕ} {h : Holder}
  {versions : File → List (Option Bytes)}

theorem Layout.Draft.create (hnone : v.entry tmp = none) (hne : ∀ f, tmp ≠ L.path f)
    (hholds : ∀ f, v.Holds (L.path f) (versions f)) : L.Draft (v.create tmp []) tmp v.free := by
  obtain ⟨hentry, hfree⟩ := Volume.entry_create hnone ([] : Bytes)
  refine ⟨hne, hentry, by omega, fun f hmem => ?_⟩
  rw [Volume.entries_create_of_ne hnone (hne f).symm] at hmem
  exact Nat.lt_irrefl _ ((hholds f).lt_free _ hmem)

/-- **A stage that succeeds.** -/
theorem Holder.holds_perform (hholds : ∀ f, v.Holds (L.path f) (versions f))
    (hd : L.Drafted h v tmp) (f : File) :
    (h.perform L tmp v).Holds (L.path f) (h.keep L versions f) := by
  obtain ⟨call, file, stage, content⟩ := h
  cases stage with
  | «open» => exact (hholds f).create (hd.2 f).symm hd.1 []
  | write =>
    obtain ⟨i, hdraft⟩ := hd
    exact (hholds f).write hdraft.entry (hdraft.foreign f) content
  | syncAll =>
    obtain ⟨i, hdraft, -⟩ := hd
    exact (hholds f).sync hdraft.entry (hdraft.foreign f)
  | rename =>
    obtain ⟨i, hdraft, hinode⟩ := hd
    rcases eq_or_ne f file with rfl | hne
    · simp only [Holder.keep, Holder.perform, Function.update_self]
      exact (hholds f).rename (hdraft.ne f).symm hdraft.entry hinode hdraft.lt_free
    · simp only [Holder.keep, Holder.perform, Function.update_of_ne hne]
      exact (hholds f).rename_of_ne (hdraft.ne f).symm fun h => hne (L.path_injective h)
  | removeFile source =>
    obtain ⟨i, hdraft⟩ := hd
    exact (hholds f).remove (hdraft.ne f).symm
  | openDir => exact hholds f
  | syncDir =>
    simp only [Holder.keep, Holder.perform]
    split
    · rename_i hdir
      rw [(hholds f).take_one]
      exact (hholds f).syncDir (by simpa using hdir)
    · rename_i hdir
      exact (hholds f).syncDir_of_notMem (by simpa using hdir)

/-- **An event.** -/
theorem State.holds_effect {s : State} (hholds : ∀ f, v.Holds (L.path f) (versions f))
    (hd : ∀ h, s.holder = some h → L.Drafted h v tmp) (garbage : Bytes) (e : Event) (f : File) :
    (s.effect L tmp garbage v e).Holds (L.path f) (s.keep L e versions f) := by
  obtain ⟨tables, disk, holder, waiting⟩ := s
  cases holder with
  | none => exact hholds f
  | some h =>
    have hgarbage : (if h.stage = .write then v.write tmp garbage else v).Holds (L.path f)
        (versions f) := by
      split
      · rename_i hstage
        have hdraft := hd h rfl
        rw [Layout.Drafted, hstage] at hdraft
        obtain ⟨i, hdraft⟩ := hdraft
        exact (hholds f).write hdraft.entry (hdraft.foreign f) garbage
      · exact hholds f
    cases e with
    | ok order => exact Holder.holds_perform hholds (hd h rfl) f
    | err | cancel | crash => exact hgarbage
    | call | acquire | abandon => exact hholds f

/-- The temporary file, after a stage that succeeds or the rename that failed. -/
theorem Layout.Drafted.advance {e : Event} {stage : WriteStage} {s : State} (hh : s.holder = some h)
    (hadv : Advances h.stage e stage) (hholds : ∀ f, v.Holds (L.path f) (versions f))
    (hd : L.Drafted h v tmp) (garbage : Bytes) :
    L.Drafted { h with stage := stage } (s.effect L tmp garbage v e) tmp := by
  obtain ⟨tables, disk, holder, waiting⟩ := s
  obtain ⟨call, file, stage₀, content⟩ := h
  cases hh
  cases hadv with
  | «open» => exact ⟨v.free, .create hd.1 hd.2 hholds⟩
  | write =>
    obtain ⟨i, hdraft⟩ := hd
    simp only [State.effect, Holder.perform, Volume.write_of_entry hdraft.entry]
    exact ⟨i, hdraft.setInode _, Volume.inode_setInode_self _ _ _⟩
  | syncAll =>
    obtain ⟨i, hdraft, hinode⟩ := hd
    simp only [State.effect, Holder.perform, Volume.sync_of_entry hdraft.entry]
    refine ⟨i, hdraft.setInode _, ?_⟩
    rw [Volume.inode_setInode_self, hinode]
  | rename | openDir => trivial
  | failed =>
    obtain ⟨i, hdraft, -⟩ := hd
    exact ⟨i, hdraft⟩

theorem State.keep_of_not_rename {s : State} {e : Event}
    (hrename : ∀ h order, s.holder = some h → e = .ok order → h.stage ≠ .rename) (f : File) :
    (s.keep L e versions f).head? = (versions f).head? := by
  obtain ⟨tables, disk, holder, waiting⟩ := s
  cases holder with
  | none => rfl
  | some h =>
    cases e with
    | ok order =>
      obtain ⟨call, file, stage, content⟩ := h
      cases stage with
      | rename => exact absurd rfl (hrename _ order rfl rfl)
      | syncDir =>
        simp only [State.keep, Holder.keep]
        split
        · cases versions f <;> rfl
        · rfl
      | _ => rfl
    | _ => rfl

/-- What is seen after a step is the first of the versions. -/
theorem Proceeds.head_keep {s s' : State} {e : Event} (hp : Proceeds s e s')
    (hhead : ∀ f, (versions f).head? = some (s.disk.get f)) (f : File) :
    (s.keep L e versions f).head? = some (s'.disk.get f) := by
  cases hp with
  | @on h stage hh hadv hh' hdisk =>
    by_cases hstage : stage = .openDir
    · -- the rename
      rw [hdisk, if_pos hstage]
      obtain ⟨call, file, stage₀, content⟩ := h
      subst hstage
      cases hadv
      simp only [State.keep, hh, Holder.keep]
      rcases eq_or_ne f file with rfl | hne
      · rw [Function.update_self, Disk.get_replace_self]
        rfl
      · rw [Function.update_of_ne hne, Disk.get_replace_of_ne _ _ hne]
        exact hhead f
    · rw [hdisk, if_neg hstage, State.keep_of_not_rename ?_, hhead]
      rintro h₁ order hh₁ rfl hren
      cases hh.symm.trans hh₁
      rw [hren] at hadv
      cases hadv
      exact hstage rfl
  | ended hrename _ hdisk => rw [hdisk, State.keep_of_not_rename hrename, hhead]
  | idle hidle _ hdisk =>
    rw [hdisk, State.keep_of_not_rename ?_, hhead]
    rintro h₁ order - rfl
    obtain ⟨c, he | he⟩ := hidle <;> cases he

/-- **A version is one that was there, or what is seen now.** -/
theorem State.mem_keep {s : State} {e : Event} {f : File} {x : Option Bytes}
    (hx : x ∈ s.keep L e versions f) :
    x ∈ versions f ∨ (s.keep L e versions f).head? = some x := by
  obtain ⟨tables, disk, holder, waiting⟩ := s
  cases holder with
  | none => exact .inl hx
  | some h =>
    cases e with
    | ok order =>
      obtain ⟨call, file, stage, content⟩ := h
      cases stage with
      | rename =>
        simp only [State.keep, Holder.keep] at hx ⊢
        rcases eq_or_ne f file with rfl | hne
        · rw [Function.update_self] at hx ⊢
          rcases List.mem_cons.mp hx with rfl | hx
          · exact .inr rfl
          · exact .inl hx
        · rw [Function.update_of_ne hne] at hx
          exact .inl hx
      | syncDir =>
        simp only [State.keep, Holder.keep] at hx
        split at hx
        · exact .inl (List.mem_of_mem_take hx)
        · exact .inl hx
      | _ => exact .inl hx
    | _ => exact .inl hx

end Versions

/-! ### Every step keeps the files sound -/

section Steps

variable {C L} {s s' : Storage ν} {versions : File → List (Option Bytes)}

omit [DecidableEq ν] in
theorem Storage.Sound.head (hs : s.Sound L versions) (f : File) :
    (versions f).head? = some (s.state.disk.get f) := by
  rw [(hs.holds f).look, hs.disk, L.get_disk]

/-- **A step of the daemon.** -/
theorem Storage.Sound.next (hs : s.Sound L versions) {e : Event} {o : Output} {t : State}
    (hnext : Symbolon.next C s.state e = some (t, o)) {garbage : Bytes} {tmp : ν}
    (hfresh : L.FreshTmp t (s.state.effect L s.tmp garbage s.volume e) tmp)
    (htmp : tmp = s.tmp ∨ ∃ h, t.holder = some h ∧ h.stage = .open) :
    Storage.Sound L ⟨t, s.state.effect L s.tmp garbage s.volume e, tmp⟩
      (s.state.keep L e versions) := by
  have hp := proceeds_of_next hnext
  have hholds := State.holds_effect hs.holds hs.drafted garbage e
  have hopen : ∀ h, t.holder = some h → h.stage = .open →
      L.Drafted h (s.state.effect L s.tmp garbage s.volume e) tmp := fun h hh hstage => by
    rw [Layout.Drafted, hstage]
    exact hfresh h hh hstage
  refine ⟨hholds, Disk.ext_get fun f => ?_, fun h hh => ?_⟩
  · rw [L.get_disk]
    exact Option.some.inj ((hp.head_keep hs.head f).symm.trans (hholds f).look)
  · rcases htmp with rfl | ⟨h', hh', hstage⟩
    · cases hp with
      | @on h₀ stage hh₀ hadv hh' hdisk =>
        cases hh'.symm.trans hh
        exact (hs.drafted h₀ hh₀).advance hh₀ hadv hs.holds garbage
      | ended _ hh' _ => exact hopen h hh (hh' h hh).1
      | idle hidle hh' _ =>
        have heffect : s.state.effect L s.tmp garbage s.volume e = s.volume := by
          obtain ⟨c, rfl | rfl⟩ := hidle <;> rw [State.effect] <;> simp
        rw [heffect]
        exact hs.drafted h (hh' ▸ hh)
    · cases hh.symm.trans hh'
      exact hopen h hh hstage

omit [DecidableEq ν] in
/-- **A power loss.** -/
theorem Storage.Sound.powerLoss (hs : s.Sound L versions) {v : Volume ν Bytes} {t : Tables}
    (hloss : s.volume.PowerLoss v) (tmp : ν) :
    Storage.Sound L ⟨⟨t, L.disk v, none, []⟩, v, tmp⟩ (fun f => [(L.disk v).get f]) ∧
      ∀ f, (L.disk v).get f ∈ versions f := by
  refine ⟨⟨fun f => ?_, rfl, fun h hh => by cases hh⟩, fun f => ?_⟩
  all_goals
    obtain ⟨x, hx, hlook, hholds⟩ := (hs.holds f).powerLoss hloss
    rw [L.get_disk, hlook]
    assumption

/-- **The step lemma.** Every step keeps the files sound, and a version is one that was there or
what is seen now. -/
theorem Storage.Step.sound {l : Option Label} (h : Storage.Step C L s l s')
    (hs : s.Sound L versions) :
    ∃ versions', s'.Sound L versions' ∧
      ∀ f x, x ∈ versions' f → x ∈ versions f ∨ x = s'.state.disk.get f := by
  cases h with
  | @state e o t garbage tmp hnext hfresh htmp =>
    have hs' := hs.next hnext hfresh htmp
    refine ⟨_, hs', fun f x hx => (State.mem_keep hx).imp_right fun hhead => ?_⟩
    exact (Option.some.inj ((hs'.head f).symm.trans hhead)).symm
  | @powerLoss v t hloss hload =>
    exact ⟨_, (hs.powerLoss hloss s.tmp).1, fun f x hx => .inr (List.mem_singleton.mp hx)⟩

end Steps

/-! ### Every run of the machine is one on a file system -/

section Lift

variable {C L} {s : Storage ν}

theorem State.finite_effect {st : State} {tmp : ν} {v : Volume ν Bytes} (hv : v.names.Finite)
    (garbage : Bytes) (e : Event) : (st.effect L tmp garbage v e).names.Finite := by
  obtain ⟨tables, disk, holder, waiting⟩ := st
  cases holder with
  | none => exact hv
  | some h =>
    have hgarbage : (if h.stage = .write then v.write tmp garbage else v).names.Finite := by
      split
      · exact Volume.finite_write hv tmp garbage
      · exact hv
    cases e with
    | ok order =>
      obtain ⟨call, file, stage, content⟩ := h
      cases stage with
      | «open» => exact Volume.finite_create hv tmp []
      | write => exact Volume.finite_write hv tmp content
      | syncAll => exact Volume.finite_sync hv tmp
      | rename => exact Volume.finite_rename hv tmp (L.path file)
      | removeFile source => exact Volume.finite_setEntry hv tmp none
      | openDir | syncDir => exact hv
    | err | cancel | crash => exact hgarbage
    | call | acquire | abandon => exact hv

/-- **The file system takes nothing away**: where names do not run out, every run of the mutation
machine is a run on it. -/
theorem Storage.exists_run [Infinite ν] {st t : State} {ls : List Label}
    (hrun : Symbolon.Run C st ls t) (hs : s.state = st) (hv : s.volume.names.Finite) :
    ∃ u, Storage.Run C L s (ls.map some) u ∧ u.state = t := by
  induction hrun generalizing s with
  | nil => exact ⟨s, .nil s, hs⟩
  | @cons st st' t l ls hstep _ ih =>
    subst hs
    obtain ⟨e, o⟩ := l
    have hv' : (s.state.effect L s.tmp [] s.volume e).names.Finite := State.finite_effect hv [] e
    -- a name that is new, for the file that may be created next
    obtain ⟨n, hn⟩ := ((hv'.insert (L.path .psks)).insert (L.path .clients)).exists_notMem
    rw [Set.mem_insert_iff, Set.mem_insert_iff, not_or, not_or] at hn
    have hfresh : L.FreshTmp st' (s.state.effect L s.tmp [] s.volume e) n := fun _ _ _ =>
      ⟨not_not.mp hn.2.2, fun f => by cases f; exacts [hn.2.1, hn.1]⟩
    by_cases hopen : ∃ h, st'.holder = some h ∧ h.stage = .open
    · obtain ⟨u, hu, hut⟩ := ih (s := ⟨st', _, n⟩) rfl hv'
      exact ⟨u, .cons (.state [] hstep hfresh (.inr hopen)) hu, hut⟩
    · obtain ⟨u, hu, hut⟩ := ih (s := ⟨st', _, s.tmp⟩) rfl hv'
      have hsame : L.FreshTmp st' (s.state.effect L s.tmp [] s.volume e) s.tmp :=
        fun h hh hstage => absurd ⟨h, hh, hstage⟩ hopen
      exact ⟨u, .cons (.state [] hstep hsame (.inl rfl)) hu, hut⟩

end Lift

end Symbolon
