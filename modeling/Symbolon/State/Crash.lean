import Symbolon.State.Durability

/-!
# What a restart finds

Two questions about the files at an arbitrary moment.

*Crashes alone.* Enrolling writes the PSK file before the client list and revoking does
the opposite, so that a crash leaves a key without a client rather than a client without
a key. In runs in which no write fails and no lock holder is dropped that is all it
leaves: every listed client has a key at every moment, and a key without a client was
there from the start or belongs to a call that was in flight at a crash
(`Symbolon.crash_consistent`). The invariant (`Symbolon.Ledger.Clean`) is that memory and
disk agree on everybody but the client of the call in flight.

*Failures.* The operator is told that an enrolment failed. The files then authorise the
client all the same exactly when what failed was opening or flushing the directory
*after* the client list had been renamed into place
(`Symbolon.authorises_iff_failed_after_rename`): the error is reported, memory is rolled
back, and both files carry the client. `Symbolon.exists_failed_enroll_authorises` is such
a run.
-/

namespace Symbolon

variable {E : Prop} {c x : Identity} {m d : Tables} {call : Call}

/-! ### Runs without failures, on the ledger -/

/-- The moves of a run in which no write returns an error and no lock holder is
dropped. -/
def Move.Clean : Move → Prop
  | .returned _ result => ∀ e, result = .error e → e.refuses = true
  | .cancelled _ => False
  | _ => True

/-- **Memory and disk agree on everybody but the client of the call in flight**, and
every listed client has a key. -/
structure Ledger.Clean (a : Ledger) : Prop where
  /-- What has been written. -/
  written : a.Written
  /-- Every listed client has a key. -/
  listed : ∀ x ∈ a.disk.clients, x ∈ a.disk.psks
  /-- Agreement on keys. -/
  psks : ∀ x, (∀ f, a.flight = some f → f.call.client ≠ x) → (x ∈ a.mem.psks ↔ x ∈ a.disk.psks)
  /-- Agreement on clients. -/
  clients : ∀ x, (∀ f, a.flight = some f → f.call.client ≠ x) →
    (x ∈ a.mem.clients ↔ x ∈ a.disk.clients)

/-- A ledger with nothing in flight whose memory is its disk. -/
theorem Ledger.Clean.of_eq {a : Ledger} (heq : a.mem = a.disk) (hfree : a.flight = none)
    (hl : ∀ x ∈ a.disk.clients, x ∈ a.disk.psks) : a.Clean :=
  ⟨.of_free hfree, hl, fun x _ => by rw [heq], fun x _ => by rw [heq]⟩

/-- The rename keeps every listed client with a key. -/
theorem Ledger.Clean.listed_land {file : File} {x : Identity}
    (h : Ledger.Clean ⟨m, d, some ⟨call, file, false⟩⟩)
    (hx : x ∈ (Flight.land ⟨call, file, false⟩ m d).clients) :
    x ∈ (Flight.land ⟨call, file, false⟩ m d).psks := by
  have hw : Flight.Written ⟨call, file, false⟩ m d := h.written _ rfl
  have hother : call.client ≠ x → (x ∈ m.psks ↔ x ∈ d.psks) ∧ (x ∈ m.clients ↔ x ∈ d.clients) :=
    fun hne => ⟨h.psks x (fun f hf => by cases hf; exact hne),
      h.clients x (fun f hf => by cases hf; exact hne)⟩
  rcases call with ⟨client, psk, provider, note⟩ | client <;> cases file
  · -- the new client has its key in memory, the others on both sides
    rcases eq_or_ne client x with rfl | hne
    · exact Finmap.mem_iff.mpr ⟨psk, hw.1.1⟩
    · exact ((hother hne).1).mpr (h.listed x hx)
  · rcases eq_or_ne client x with rfl | hne
    · have hkey : client ∈ m.psks := Finmap.mem_iff.mpr ⟨psk, hw.1.1⟩
      exact (show d.psks = m.psks from hw.2.1) ▸ hkey
    · exact h.listed x ((hother hne).2.mp hx)
  · -- the revoked client is off the list already
    have hd : d.clients = m.clients.erase client := hw.2.1
    have hne : client ≠ x := by
      rintro rfl
      rw [show (Flight.land ⟨.revoke client, .psks, false⟩ m d).clients = d.clients from rfl, hd]
        at hx
      simp at hx
    exact ((hother hne).1).mpr (h.listed x hx)
  · obtain ⟨hne, hmem⟩ := Finmap.mem_erase.mp hx
    exact h.listed x ((hother hne.symm).2.mp hmem)

/-- **A step without failures keeps the agreement.** -/
theorem Ledger.Step.clean {a a' : Ledger} {mv : Move} (h : Ledger.Step E a mv a') (hE : E)
    (hmv : mv.Clean) (hc : a.Clean) : a'.Clean := by
  have hw := h.written hc.written
  cases h with
  | tau => exact hc
  | refuse => exact hc
  | @enrollBegin m d client psk provider note now hnew =>
    refine ⟨hw, hc.listed, fun x hx => ?_, fun x hx => ?_⟩
    · have hne : x ≠ client := fun he => hx _ rfl he.symm
      simpa [hne] using hc.psks x fun f hf => by cases hf
    · have hne : x ≠ client := fun he => hx _ rfl he.symm
      simpa [hne] using hc.clients x fun f hf => by cases hf
  | revokeBegin hknown =>
    exact ⟨hw, hc.listed, fun x _ => hc.psks x (fun f hf => by cases hf),
      fun x _ => hc.clients x (fun f hf => by cases hf)⟩
  | @land m d call file =>
    refine ⟨hw, fun x hx => hc.listed_land hx, fun x hx => ?_, fun x hx => ?_⟩
    · have hp := hc.psks x fun f hf => by cases hf; exact hx ⟨call, file, true⟩ rfl
      cases file with
      | psks => exact Iff.rfl
      | clients => exact hp
    · have hcl := hc.clients x fun f hf => by cases hf; exact hx ⟨call, file, true⟩ rfl
      have hne : call.client ≠ x := hx _ rfl
      cases file with
      | psks => exact hcl
      | clients =>
        cases call with
        | enroll => exact Iff.rfl
        | revoke client =>
          change x ∈ m.clients ↔ x ∈ m.clients.erase client
          simp [show x ≠ client from fun he => hne he.symm]
  | enrollNext =>
    exact ⟨hw, hc.listed,
      fun x hx => hc.psks x fun f hf => by cases hf; exact hx ⟨_, .clients, false⟩ rfl,
      fun x hx => hc.clients x fun f hf => by cases hf; exact hx ⟨_, .clients, false⟩ rfl⟩
  | @revokeNext m d client =>
    refine ⟨hw, hc.listed, fun x hx => ?_,
      fun x hx => hc.clients x fun f hf => by cases hf; exact hx ⟨_, .psks, false⟩ rfl⟩
    have hne : x ≠ client := fun he => hx _ rfl he.symm
    simpa [hne] using hc.psks x fun f hf => by cases hf; exact hx ⟨_, .psks, false⟩ rfl
  | enrollOk =>
    obtain ⟨heq, hfree⟩ := Ledger.Step.mem_eq_disk (E := E) .enrollOk hc.written
    exact .of_eq heq hfree hc.listed
  | revokeOk =>
    obtain ⟨heq, hfree⟩ := Ledger.Step.mem_eq_disk (E := E) .revokeOk hc.written
    exact .of_eq heq hfree hc.listed
  | encodeFail source hnE => exact absurd hE hnE
  | @fail m d f source =>
    obtain ⟨call, file, landed⟩ := f
    cases file <;> cases hmv _ rfl
  | cancel => exact hmv.elim
  | crash => exact .of_eq rfl rfl hc.listed

/-- A key on disk without a client. -/
def Tables.Orphan (t : Tables) (x : Identity) : Prop := x ∈ t.psks ∧ x ∉ t.clients

/-- Where an orphan comes from: it was one of `O`, or its client had a call in flight at
one of the crashes so far, or has one now. -/
def Ledger.OrphansFrom (O : Identity → Prop) (past : List Move) (a : Ledger) : Prop :=
  ∀ x, a.disk.Orphan x → O x ∨ (∃ call, .crashed (some call) ∈ past ∧ call.client = x) ∨
    ∃ f, a.flight = some f ∧ f.call.client = x

theorem Ledger.OrphansFrom.mono {O : Identity → Prop} {past : List Move} {mv : Move} {a a' : Ledger}
    (ho : a.OrphansFrom O past) (hx : a'.disk.Orphan x → a.disk.Orphan x)
    (hf : ∀ f, a.flight = some f → f.call.client = x →
      (∃ call, .crashed (some call) ∈ past ++ [mv] ∧ call.client = x) ∨
        ∃ f', a'.flight = some f' ∧ f'.call.client = x) (h : a'.disk.Orphan x) :
    O x ∨ (∃ call, .crashed (some call) ∈ past ++ [mv] ∧ call.client = x) ∨
      ∃ f, a'.flight = some f ∧ f.call.client = x := by
  rcases ho x (hx h) with h0 | ⟨call, hm, hcx⟩ | ⟨f, hfl, hfx⟩
  · exact .inl h0
  · exact .inr (.inl ⟨call, List.mem_append_left _ hm, hcx⟩)
  · exact .inr (hf f hfl hfx)

/-- The rename makes an orphan of nobody but the client of the call. -/
theorem Ledger.Clean.orphan_of_land {file : File}
    (h : Ledger.Clean ⟨m, d, some ⟨call, file, false⟩⟩) (hne : call.client ≠ x)
    (hx : (Flight.land ⟨call, file, false⟩ m d).Orphan x) : d.Orphan x := by
  have hp : x ∈ m.psks ↔ x ∈ d.psks := h.psks x fun f hf => by cases hf; exact hne
  have hcl : x ∈ m.clients ↔ x ∈ d.clients := h.clients x fun f hf => by cases hf; exact hne
  obtain ⟨hx₁, hx₂⟩ := hx
  cases file with
  | psks => exact ⟨hp.mp hx₁, hx₂⟩
  | clients =>
    refine ⟨hx₁, fun hmem => hx₂ ?_⟩
    cases call with
    | enroll => exact hcl.mpr hmem
    | revoke client => exact Finmap.mem_erase.mpr ⟨hne.symm, hcl.mpr hmem⟩

theorem Ledger.Step.orphansFrom {O : Identity → Prop} {past : List Move} {a a' : Ledger}
    {mv : Move} (h : Ledger.Step E a mv a') (hE : E) (hmv : mv.Clean) (hc : a.Clean)
    (ho : a.OrphansFrom O past) : a'.OrphansFrom O (past ++ [mv]) := by
  intro x
  cases h with
  | tau => exact ho.mono id fun f hf hx => .inr ⟨f, hf, hx⟩
  | refuse => exact ho.mono id fun f hf hx => .inr ⟨f, hf, hx⟩
  | enrollBegin => exact ho.mono id fun f hf hx => by cases hf
  | revokeBegin => exact ho.mono id fun f hf hx => by cases hf
  | @land m d call file =>
    intro hx
    rcases eq_or_ne call.client x with heq | hne
    · exact .inr (.inr ⟨_, rfl, heq⟩)
    · exact ho.mono (hc.orphan_of_land hne) (fun f hf he => by cases hf; exact absurd he hne) hx
  | enrollNext => exact ho.mono id fun f hf hx => by cases hf; exact .inr ⟨_, rfl, hx⟩
  | revokeNext => exact ho.mono id fun f hf hx => by cases hf; exact .inr ⟨_, rfl, hx⟩
  | @enrollOk m d client psk provider note =>
    -- the enrolled client is listed
    intro hx
    refine ho.mono id (fun f hf he => ?_) hx
    cases hf
    cases he
    obtain ⟨⟨-, now, hmem⟩, -, hd⟩ := hc.written _ rfl
    have hlisted : client ∈ d.clients := by
      rw [show d.clients = m.clients from hd rfl]
      exact Finmap.mem_iff.mpr ⟨_, hmem⟩
    exact absurd hlisted hx.2
  | @revokeOk m d client =>
    -- the revoked client has no key
    intro hx
    refine ho.mono id (fun f hf he => ?_) hx
    cases hf
    cases he
    obtain ⟨-, -, hgone, hd⟩ := hc.written _ rfl
    exact absurd hx.1 ((show d.psks = m.psks from hd rfl) ▸ hgone)
  | encodeFail source hnE => exact absurd hE hnE
  | @fail m d f source =>
    obtain ⟨call, file, landed⟩ := f
    cases file <;> cases hmv _ rfl
  | cancel => exact hmv.elim
  | crash =>
    refine ho.mono id fun f hf hx => .inl ⟨f.call, ?_, hx⟩
    cases hf
    simp

/-! ### Runs without failures, on the machine -/

/-- No write returns an error and no lock holder is dropped at this label. -/
def Label.Clean (l : Label) : Prop :=
  match l.2 with
  | .returned _ result => ∀ e, result = .error e → e.refuses = true
  | .cancelled _ => False
  | _ => True

theorem Label.Clean.move {l : Label} (h : l.Clean) : l.move.Clean := by
  obtain ⟨e, o⟩ := l
  cases o with
  | silent => cases e <;> trivial
  | returned c result => exact h
  | cancelled c => exact h
  | crashed c => trivial

variable {C : Codecs} {s s₀ s₁ s₂ t : State} {l : Label} {ls : List Label}

/-- **Crash consistency.** Start the daemon on files in which every listed client has a
key, and take any run in which no write returns an error and no lock holder is dropped,
with crashes and restarts anywhere. At every moment the files load, every listed client
has a key, and a key without a client was there at the start, or belongs to a client
with a call in flight at one of the crashes or right now. -/
theorem crash_consistent (hC : C.Lawful) (hs₀ : Started C s₀)
    (hlisted : ∀ x ∈ s₀.tables.clients, x ∈ s₀.tables.psks) (hrun : Run C s₀ ls s)
    (hclean : ∀ l ∈ ls, l.Clean) :
    ∃ d, acquire C s.disk = .ok d ∧ (∀ x ∈ d.clients, x ∈ d.psks) ∧
      ∀ x ∈ d.psks, x ∉ d.clients →
        (x ∈ s₀.tables.psks ∧ x ∉ s₀.tables.clients) ∨
          (∃ l ∈ ls, ∃ call, l.2 = .crashed (some call) ∧ call.client = x) ∨
            ∃ h, s.holder = some h ∧ h.call.client = x := by
  have hfree : (s₀.ledger s₀.tables).flight = none := by rw [State.ledger, hs₀.2.1]; rfl
  obtain ⟨d, hled, hy⟩ := Run.ledger hC hrun (.of_started hs₀)
  have hmoves : ∀ mv ∈ ls.map Label.move, mv.Clean := by
    intro mv hmv
    obtain ⟨l, hl, rfl⟩ := List.mem_map.mp hmv
    exact (hclean l hl).move
  obtain ⟨hc, ho⟩ := hled.history_of_forall
    (P := fun past a => a.Clean ∧ a.OrphansFrom s₀.tables.Orphan past)
    (fun past a mv a' hP hmv hstep => ⟨hstep.clean hC hmv hP.1, hstep.orphansFrom hC hmv hP.1 hP.2⟩)
    hmoves ⟨.of_eq rfl hfree hlisted, fun x hx => .inl hx⟩
  refine ⟨d, hy.disk, hc.listed, fun x hx hx' => ?_⟩
  rcases ho x ⟨hx, hx'⟩ with h0 | ⟨call, hm, hcx⟩ | ⟨f, hf, hfx⟩
  · exact .inl h0
  · obtain ⟨l, hl, hlm⟩ := List.mem_map.mp hm
    exact .inr (.inl ⟨l, hl, call, Label.output_of_move_crashed hlm, hcx⟩)
  · obtain ⟨h, hh, rfl⟩ := Option.map_eq_some_iff.mp hf
    exact .inr (.inr ⟨h, hh, hfx⟩)

/-- The enrolment of `alice` up to its second write. -/
def halfEnrolment : List Event :=
  .call (.enroll alice (Psk.filled 1) .github none) ::
    .acquire (.enroll alice (Psk.filled 1) .github none) .unixEpoch (plainOrder [alice]) ::
    writeThrough (plainOrder [alice])

theorem crash_consistent_halfEnrolment :
    ∃ ls s d, Run plainCodecs (plainBoot (plainOrder [])) ls s ∧ ls.length = 9 ∧
      acquire plainCodecs s.disk = .ok d ∧ d.Orphan alice ∧ (∀ x ∈ d.clients, x ∈ d.psks) := by
  obtain ⟨ls, s, hrun, hlen, hload, hclean⟩ :=
    Lts.exists_run_of_exec (next plainCodecs) (plainBoot (plainOrder []))
      (halfEnrolment ++ [.crash])
      (fun s ls => ls.length = 9 ∧
        acquire plainCodecs s.disk = .ok ⟨[⟨alice, Psk.filled 1⟩].toFinmap, ∅⟩ ∧
        ∀ l ∈ ls, l.2 = .silent ∨
          l.2 = .crashed (some (.enroll alice (Psk.filled 1) .github none)))
      (by decide +kernel)
  obtain ⟨d, hd, hlisted, -⟩ := crash_consistent plainCodecs_lawful
    (plainBoot_started (by decide) (by decide)) (fun x hx => absurd hx Finmap.notMem_empty)
    hrun (fun l hl => by rcases hclean l hl with h | h <;> simp [Label.Clean, h])
  cases hload.symm.trans hd
  exact ⟨ls, s, _, hrun, hlen, hload, ⟨by decide, by decide⟩, hlisted⟩

/-! ### A failed enrolment -/

/-- The enrolment of `c` is in flight, and the client list on disk has the client
exactly once it has been renamed into place. -/
def Ledger.Enrolling (call : Call) (a : Ledger) : Prop :=
  ∃ file landed, a.flight = some ⟨call, file, landed⟩ ∧
    (call.client ∈ a.disk.clients ↔ file = .clients ∧ landed = true)

/-- A silent step of an enrolment in flight. -/
theorem Ledger.Step.enrolling {a a' : Ledger} {psk : Psk} {provider : ProviderKind}
    {note : Option Note} (h : Ledger.Step E a .tau a') (hw : a.Written)
    (he : a.Enrolling (.enroll c psk provider note)) :
    a'.Enrolling (.enroll c psk provider note) := by
  obtain ⟨file, landed, hf, hiff⟩ := he
  cases h with
  | tau => exact ⟨file, landed, hf, hiff⟩
  | @land m d =>
    cases hf
    refine ⟨file, true, rfl, ?_⟩
    cases file with
    | psks =>
      have hno : c ∉ d.clients := by simpa using hiff
      exact iff_of_false hno (by simp)
    | clients =>
      obtain ⟨⟨-, now, hmem⟩, -⟩ := hw _ rfl
      exact iff_of_true (show c ∈ m.clients from Finmap.mem_iff.mpr ⟨_, hmem⟩) ⟨rfl, rfl⟩
  | enrollNext =>
    cases hf
    exact ⟨.clients, false, rfl, by simpa using hiff⟩
  | revokeNext => cases hf

/-- An enrolment that gets the lock is in flight. -/
theorem Ledger.Step.enrolling_of_began {a a' : Ledger} {psk : Psk} {provider : ProviderKind}
    {note : Option Note} (h : Ledger.Step E a (.began (.enroll c psk provider note)) a')
    (hnew : c ∉ a.disk.clients) : a'.Enrolling (.enroll c psk provider note) := by
  cases h
  exact ⟨.psks, false, rfl, iff_of_false hnew (by simp)⟩

/-- A call that returns an error leaves the disk alone. -/
theorem Ledger.Step.disk_eq_of_error {a a' : Ledger} {e : StateMutationError}
    (h : Ledger.Step E a (.returned call (.error e)) a') : a'.disk = a.disk := by
  generalize hm : Move.returned call (.error e) = mv at h
  cases h with
  | refuse | encodeFail | fail => rfl
  | _ => cases hm

/-- **After a failed enrolment the disk authorises the client exactly when the client
list was in place.** -/
theorem Ledger.Enrolling.authorises_iff {psk : Psk} {provider : ProviderKind} {note : Option Note}
    {a : Ledger} (he : a.Enrolling (.enroll c psk provider note)) (hw : a.Written) :
    a.disk.Authorises c ↔ ∃ f, a.flight = some f ∧ f.file = .clients ∧ f.landed = true := by
  obtain ⟨file, landed, hf, hiff⟩ := he
  constructor
  · intro h
    exact ⟨_, hf, hiff.mp h.2⟩
  · rintro ⟨f, hf', hfile⟩
    cases hf.symm.trans hf'
    obtain ⟨rfl, rfl⟩ := hfile
    obtain ⟨⟨hp, -⟩, hd, -⟩ := hw _ hf
    exact ⟨(show a.disk.psks = a.mem.psks from hd) ▸ Finmap.mem_iff.mpr ⟨psk, hp⟩,
      hiff.mpr ⟨rfl, rfl⟩⟩

theorem WriteStage.landed_iff {stage : WriteStage} :
    stage.landed = true ↔ stage = .openDir ∨ stage = .syncDir := by
  cases stage <;> simp [WriteStage.landed]

/-- The silent steps of an enrolment keep it in flight. -/
theorem enrolling_of_run (hC : C.Lawful) {psk : Psk} {provider : ProviderKind} {note : Option Note}
    (hrun : Run C s ls t) (hsilent : ∀ l ∈ ls, l.2 = .silent) (hy : Synced C s d)
    (hw : (s.ledger d).Written) (he : (s.ledger d).Enrolling (.enroll c psk provider note)) :
    ∃ d', Synced C t d' ∧ (t.ledger d').Written ∧
      (t.ledger d').Enrolling (.enroll c psk provider note) := by
  induction hrun generalizing d with
  | nil => exact ⟨d, hy, hw, he⟩
  | cons hstep _ ih =>
    obtain ⟨d₁, hled, hy₁⟩ := Step.tracks hstep fun _ => hy.disk
    have hw₁ := hled.written hw
    have hf := he.choose_spec.choose_spec.1
    rw [hled.move_eq_tau hf (hsilent _ List.mem_cons_self)] at hled
    exact ih (fun l hl => hsilent l (List.mem_cons_of_mem _ hl)) (hy₁ hC hy) hw₁
      (hled.enrolling hw he)

/-- **What a restart makes of a failed enrolment.** Take a reachable state in which `c` is
not in the client list on disk, an enrolment of `c` that gets the lock there, and any
way it can come to return an error. Restarting on the files as they then stand
authorises `c` if and only if the operation that failed was the opening or the flushing
of the directory in the write of the client list. -/
theorem authorises_iff_failed_after_rename (hC : C.Lawful) (hs : Reachable C s) {psk : Psk}
    {provider : ProviderKind} {note : Option Note} {now : OffsetDateTime} {order : Order}
    {e : StateMutationError} (hdisk : ∀ d, acquire C s.disk = .ok d → c ∉ d.clients)
    (hbegin : Step C s (.acquire (.enroll c psk provider note) now order, .silent) s₁)
    (hrun : Run C s₁ ls s₂) (hsilent : ∀ l ∈ ls, l.2 = .silent) (hstep : Step C s₂ l t)
    (hl : l.2 = .returned (.enroll c psk provider note) (.error e)) :
    ∃ d, acquire C t.disk = .ok d ∧
      (d.Authorises c ↔ ∃ h, s₂.holder = some h ∧ h.file = .clients ∧
        (h.stage = .openDir ∨ h.stage = .syncDir)) := by
  obtain ⟨d, hy, hw⟩ := hs.synced hC
  obtain ⟨d₁, hled₁, hy₁⟩ := Step.tracks hbegin fun _ => hy.disk
  have hw₁ := hled₁.written hw
  have he₁ : (s₁.ledger d₁).Enrolling (.enroll c psk provider note) :=
    hled₁.enrolling_of_began (hdisk d hy.disk)
  obtain ⟨d₂, hy₂, hw₂, he₂⟩ := enrolling_of_run hC hrun hsilent (hy₁ hC hy) hw₁ he₁
  obtain ⟨d₃, hled₃, hy₃⟩ := Step.tracks hstep fun _ => hy₂.disk
  refine ⟨d₃, (hy₃ hC hy₂).disk, ?_⟩
  have hmove : l.move = .returned (.enroll c psk provider note) (.error e) := by
    rw [Label.move, hl]
  rw [hmove] at hled₃
  have hd₃ : d₃ = d₂ := hled₃.disk_eq_of_error
  rw [hd₃]
  refine he₂.authorises_iff hw₂ |>.trans ⟨?_, ?_⟩
  · rintro ⟨f, hf, hfile, hlanded⟩
    obtain ⟨h, hh, rfl⟩ := Option.map_eq_some_iff.mp hf
    exact ⟨h, hh, hfile, WriteStage.landed_iff.mp hlanded⟩
  · rintro ⟨h, hh, hfile, hstage⟩
    exact ⟨h.flight, by simp [State.ledger, hh], hfile, WriteStage.landed_iff.mpr hstage⟩

/-- The call the next run is about. -/
abbrev enrollAlice : Call := .enroll alice (Psk.filled 1) .github none

/-- A daemon without clients, and the call queued. -/
def queuedEnrolment : State := { plainBoot (plainOrder []) with waiting := [enrollAlice] }

theorem queuedEnrolment_reachable : Reachable plainCodecs queuedEnrolment :=
  ⟨plainBoot (plainOrder []), [(.call enrollAlice, .silent)],
    plainBoot_started (by decide) (by decide), .single rfl⟩

/-- The enrolment fails to open the directory once the client list has been renamed into
place: its run, cut into the getting of the lock, the silent steps and the failure. -/
theorem exists_run_lateFailure :
    ∃ s₁ s₂ t ls l,
      Step plainCodecs queuedEnrolment
        (.acquire enrollAlice .unixEpoch (plainOrder [alice]), .silent) s₁ ∧
      Run plainCodecs s₁ ls s₂ ∧ (∀ l ∈ ls, l.2 = .silent) ∧ Step plainCodecs s₂ l t ∧
      l.2 = .returned enrollAlice (.error (.writeClients 24)) ∧
      acquire plainCodecs t.disk =
        .ok ⟨(plainOrder [alice]).psks.toFinmap, (plainOrder [alice]).clients.toFinmap⟩ := by
  obtain ⟨ls, u, hrun, hfirst, hsilent, hlast, hnil, hload⟩ :=
    Lts.exists_run_of_exec (next plainCodecs) queuedEnrolment
      (.acquire enrollAlice .unixEpoch (plainOrder [alice]) ::
        writeThrough (plainOrder [alice]) ++ List.replicate 4 (.ok ⟨[], []⟩) ++ [.err 24])
      (fun u ls => ls[0]? = some (.acquire enrollAlice .unixEpoch (plainOrder [alice]), .silent) ∧
        (∀ l ∈ (ls.drop 1).take 10, l.2 = .silent) ∧
        (ls.drop 1)[10]?.map Prod.snd = some (.returned enrollAlice (.error (.writeClients 24))) ∧
        (ls.drop 1).drop 11 = [] ∧
        acquire plainCodecs u.disk =
          .ok ⟨(plainOrder [alice]).psks.toFinmap, (plainOrder [alice]).clients.toFinmap⟩)
      (by decide +kernel)
  obtain ⟨s, s₁, hs, hbegin, hrest⟩ := hrun.split_at hfirst
  cases Lts.run_nil_iff.mp hs
  obtain ⟨l, hl, ho⟩ := Option.map_eq_some_iff.mp hlast
  obtain ⟨s₂, t, hmid, hstep, hend⟩ := hrest.split_at hl
  rw [hnil, Lts.run_nil_iff] at hend
  cases hend
  exact ⟨s₁, s₂, _, _, l, hbegin, hmid, hsilent, hstep, ho, hload⟩

theorem queuedEnrolment_notMem (d : Tables) (h : acquire plainCodecs queuedEnrolment.disk = .ok d) :
    alice ∉ d.psks ∧ alice ∉ d.clients := by
  have hstarted : Started plainCodecs (plainBoot (plainOrder [])) :=
    plainBoot_started (by decide) (by decide)
  cases hstarted.1.symm.trans h
  exact ⟨by decide, by decide⟩

theorem authorises_iff_failed_after_rename_lateFailure :
    ∃ s₂ t d l, Step plainCodecs s₂ l t ∧
      l.2 = .returned enrollAlice (.error (.writeClients 24)) ∧
      acquire plainCodecs t.disk = .ok d ∧
      (d.Authorises alice ↔ ∃ h, s₂.holder = some h ∧ h.file = .clients ∧
        (h.stage = .openDir ∨ h.stage = .syncDir)) := by
  obtain ⟨s₁, s₂, t, ls, l, hbegin, hrun, hsilent, hstep, hl, -⟩ := exists_run_lateFailure
  obtain ⟨d, hd, hiff⟩ := authorises_iff_failed_after_rename plainCodecs_lawful
    queuedEnrolment_reachable (fun d h => (queuedEnrolment_notMem d h).2) hbegin hrun hsilent
    hstep hl
  exact ⟨s₂, t, d, l, hstep, hl, hd, hiff⟩

/-- **A failed enrolment that a restart grants.** `alice` is in neither table and neither
file; its enrolment returns an error; and the files then authorise it. -/
theorem exists_failed_enroll_authorises :
    ∃ s s₁ s₂ t ls l d, Reachable plainCodecs s ∧ alice ∉ s.tables.psks ∧ alice ∉ s.tables.clients ∧
      (∀ d, acquire plainCodecs s.disk = .ok d → alice ∉ d.psks ∧ alice ∉ d.clients) ∧
      Step plainCodecs s (.acquire enrollAlice .unixEpoch (plainOrder [alice]), .silent) s₁ ∧
      Run plainCodecs s₁ ls s₂ ∧ (∀ l ∈ ls, l.2 = .silent) ∧ Step plainCodecs s₂ l t ∧
      l.2 = .returned enrollAlice (.error (.writeClients 24)) ∧
      acquire plainCodecs t.disk = .ok d ∧ d.Authorises alice := by
  obtain ⟨s₁, s₂, t, ls, l, hbegin, hrun, hsilent, hstep, hl, hload⟩ := exists_run_lateFailure
  exact ⟨queuedEnrolment, s₁, s₂, t, ls, l, _, queuedEnrolment_reachable, by decide, by decide,
    queuedEnrolment_notMem, hbegin, hrun, hsilent, hstep, hl, hload, by decide⟩

end Symbolon
