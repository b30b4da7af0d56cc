import Symbolon.State.Mutation

/-!
# The ledger: what enrolling and revoking are for

The machine of `Symbolon.next` moves bytes, stages and iteration orders. What matters
of a state is less (`Symbolon.Ledger`): the tables in memory, the tables a restart
would load, and – while a call holds the lock – which file it is replacing and whether
that file has been replaced. `Symbolon.Ledger.Step` says **everything one step can do**
to these; every invariant of the two operations is proved from it.

`Symbolon.Step.ledger` connects the two levels. The part about memory needs nothing of
the codecs. The part about the disk (`Symbolon.Synced`) needs them to round-trip: the
files then always load, and the content being written always loads as the tables it was
rendered from.
-/

namespace Symbolon

/-- A call holding the lock, as far as the ledger goes. -/
structure Flight where
  /-- The call. -/
  call : Call
  /-- The file it is replacing. -/
  file : File
  /-- Whether the file has been replaced. -/
  landed : Bool

/-- **The ledger.** -/
structure Ledger where
  /-- The tables in memory. -/
  mem : Tables
  /-- The tables a restart would load. -/
  disk : Tables
  /-- The holder of the lock. -/
  flight : Option Flight

/-- What a step of the machine is to the ledger. -/
inductive Move
  /-- Nothing visible. -/
  | tau
  /-- A call gets the lock and goes on to its first write. -/
  | began (c : Call)
  /-- A call returns. -/
  | returned (c : Call) (result : Except StateMutationError Unit)
  /-- A call that held the lock is dropped. -/
  | cancelled (c : Call)
  /-- The process dies and starts again. -/
  | crashed (inFlight : Option Call)

/-- The client table a call writes out: a revocation leaves its client out. -/
def Call.listed (clients : Table ResolvedClient) : Call → Table ResolvedClient
  | .enroll .. => clients
  | .revoke client => clients.erase client

/-- The disk once the file being replaced has been replaced. -/
def Flight.land (f : Flight) (mem disk : Tables) : Tables :=
  match f.file with
  | .psks => { disk with psks := mem.psks }
  | .clients => { disk with clients := f.call.listed mem.clients }

/-- The errors a call is turned away with. -/
def StateMutationError.refuses : StateMutationError → Bool
  | .clientAlreadyEnrolled _ | .unknownClient _ | .encodeClients _ => true
  | .writePsks _ | .writeClients _ => false

/-- **Everything a step can do to the ledger.** `E` says that the client list can always
be encoded. -/
inductive Ledger.Step (E : Prop) : Ledger → Move → Ledger → Prop
  /-- Nothing. -/
  | tau (a : Ledger) : Step E a .tau a
  /-- A call is turned away before its first write. -/
  | refuse {m d : Tables} (c : Call) {e : StateMutationError} (he : e.refuses = true) :
      Step E ⟨m, d, none⟩ (.returned c (.error e)) ⟨m, d, none⟩
  /-- An enrolment gets the lock: the client is new, and now in both tables. -/
  | enrollBegin {m d : Tables} {client : Identity} {psk : Psk} {provider : ProviderKind}
      {note : Option Note} (now : OffsetDateTime) (hnew : client ∉ m.clients) :
      Step E ⟨m, d, none⟩ (.began (.enroll client psk provider note))
        ⟨m.enrol client psk provider note now, d,
          some ⟨.enroll client psk provider note, .psks, false⟩⟩
  /-- A revocation gets the lock: the client is known. -/
  | revokeBegin {m d : Tables} {client : Identity} (hknown : client ∈ m.clients) :
      Step E ⟨m, d, none⟩ (.began (.revoke client)) ⟨m, d, some ⟨.revoke client, .clients, false⟩⟩
  /-- The rename. -/
  | land {m d : Tables} {c : Call} {file : File} :
      Step E ⟨m, d, some ⟨c, file, false⟩⟩ .tau
        ⟨m, Flight.land ⟨c, file, false⟩ m d, some ⟨c, file, true⟩⟩
  /-- An enrolment goes on to the client list. -/
  | enrollNext {m d : Tables} {client : Identity} {psk : Psk} {provider : ProviderKind}
      {note : Option Note} :
      Step E ⟨m, d, some ⟨.enroll client psk provider note, .psks, true⟩⟩ .tau
        ⟨m, d, some ⟨.enroll client psk provider note, .clients, false⟩⟩
  /-- A revocation drops the key and goes on to the PSK file. -/
  | revokeNext {m d : Tables} {client : Identity} :
      Step E ⟨m, d, some ⟨.revoke client, .clients, true⟩⟩ .tau
        ⟨m.erasePsk client, d, some ⟨.revoke client, .psks, false⟩⟩
  /-- An enrolment is committed. -/
  | enrollOk {m d : Tables} {client : Identity} {psk : Psk} {provider : ProviderKind}
      {note : Option Note} :
      Step E ⟨m, d, some ⟨.enroll client psk provider note, .clients, true⟩⟩
        (.returned (.enroll client psk provider note) (.ok ())) ⟨m, d, none⟩
  /-- A revocation drops the client and is done. -/
  | revokeOk {m d : Tables} {client : Identity} :
      Step E ⟨m, d, some ⟨.revoke client, .psks, true⟩⟩ (.returned (.revoke client) (.ok ()))
        ⟨m.eraseClient client, d, none⟩
  /-- An enrolment cannot encode the client list. -/
  | encodeFail {m d : Tables} {client : Identity} {psk : Psk} {provider : ProviderKind}
      {note : Option Note} (source : SerdeError) (hE : ¬E) :
      Step E ⟨m, d, some ⟨.enroll client psk provider note, .psks, true⟩⟩
        (.returned (.enroll client psk provider note) (.error (.encodeClients source)))
        ⟨(m.erasePsk client).eraseClient client, d, none⟩
  /-- The write in flight fails, before or after its rename. -/
  | fail {m d : Tables} {f : Flight} (source : IoError) :
      Step E ⟨m, d, some f⟩ (.returned f.call (.error (f.file.writeError source)))
        ⟨f.call.unwind m, d, none⟩
  /-- The handler of the call in flight is dropped. -/
  | cancel {m d : Tables} {f : Flight} :
      Step E ⟨m, d, some f⟩ (.cancelled f.call) ⟨f.call.unwind m, d, none⟩
  /-- The process dies and starts again. -/
  | crash {m d : Tables} {f : Option Flight} :
      Step E ⟨m, d, f⟩ (.crashed (f.map Flight.call)) ⟨d, d, none⟩

@[simp] theorem Tables.mem_enrol_psks {t : Tables} {c x : Identity} {psk : Psk}
    {provider : ProviderKind} {note : Option Note} {now : OffsetDateTime} :
    x ∈ (t.enrol c psk provider note now).psks ↔ x = c ∨ x ∈ t.psks := Finmap.mem_insert

@[simp] theorem Tables.mem_enrol_clients {t : Tables} {c x : Identity} {psk : Psk}
    {provider : ProviderKind} {note : Option Note} {now : OffsetDateTime} :
    x ∈ (t.enrol c psk provider note now).clients ↔ x = c ∨ x ∈ t.clients := Finmap.mem_insert

@[simp] theorem Tables.mem_erasePsk_psks {t : Tables} {c x : Identity} :
    x ∈ (t.erasePsk c).psks ↔ x ≠ c ∧ x ∈ t.psks := Finmap.mem_erase

@[simp] theorem Tables.erasePsk_clients (t : Tables) (c : Identity) :
    (t.erasePsk c).clients = t.clients := rfl

@[simp] theorem Tables.mem_eraseClient_clients {t : Tables} {c x : Identity} :
    x ∈ (t.eraseClient c).clients ↔ x ≠ c ∧ x ∈ t.clients := Finmap.mem_erase

@[simp] theorem Tables.eraseClient_psks (t : Tables) (c : Identity) :
    (t.eraseClient c).psks = t.psks := rfl

/-- What a call in flight has made sure of in memory: an enrolment has inserted its
client, a revocation has found it. -/
def Call.Standing (mem : Tables) : Call → Prop
  | .enroll c psk provider note =>
    mem.psks.lookup c = some psk ∧ ∃ now, mem.clients.lookup c = some ⟨[provider], now, note⟩
  | .revoke c => c ∈ mem.clients

/-- **What a call in flight has already written.** The lock is what makes this stable:
no other call touches the tables meanwhile. -/
def Flight.Written (f : Flight) (mem disk : Tables) : Prop :=
  f.call.Standing mem ∧
    match f.call, f.file with
    | .enroll .., .psks => f.landed = true → disk.psks = mem.psks
    | .enroll .., .clients => disk.psks = mem.psks ∧ (f.landed = true → disk.clients = mem.clients)
    | .revoke c, .clients => f.landed = true → disk.clients = mem.clients.erase c
    | .revoke c, .psks =>
      disk.clients = mem.clients.erase c ∧ c ∉ mem.psks ∧ (f.landed = true → disk.psks = mem.psks)

/-- The same for whatever is in flight. -/
def Ledger.Written (a : Ledger) : Prop := ∀ f, a.flight = some f → f.Written a.mem a.disk

theorem Ledger.Written.of_free {a : Ledger} (h : a.flight = none) : a.Written := fun f hf => by
  rw [h] at hf
  cases hf

theorem Ledger.Step.written {E : Prop} {a a' : Ledger} {m : Move} (h : Ledger.Step E a m a')
    (hw : a.Written) :
    a'.Written := by
  intro f hf
  cases h with
  | tau => exact hw f hf
  | enrollBegin now =>
    cases hf
    exact ⟨⟨Finmap.lookup_insert _, now, Finmap.lookup_insert _⟩, fun h => by cases h⟩
  | revokeBegin hknown =>
    cases hf
    exact ⟨hknown, fun h => by cases h⟩
  | @land m d c file =>
    cases hf
    have hpre : Flight.Written ⟨c, file, false⟩ m d := hw _ rfl
    refine ⟨hpre.1, ?_⟩
    rcases c with ⟨client, psk, provider, note⟩ | client <;> rcases file with _ | _
    · exact fun _ => rfl
    · exact ⟨hpre.2.1, fun _ => rfl⟩
    · exact ⟨hpre.2.1, hpre.2.2.1, fun _ => rfl⟩
    · exact fun _ => rfl
  | enrollNext =>
    cases hf
    obtain ⟨hst, hd⟩ := hw _ rfl
    exact ⟨hst, hd rfl, fun h => by cases h⟩
  | revokeNext =>
    cases hf
    obtain ⟨hst, hd⟩ := hw _ rfl
    exact ⟨hst, hd rfl, by simp, fun h => by cases h⟩
  | _ => cases hf

/-- The runs of the ledger. -/
abbrev Ledger.Run (E : Prop) : Ledger → List Move → Ledger → Prop := Lts.Run (Ledger.Step E)

/-! ### From the machine to the ledger -/

/-- What the holder of the lock is to the ledger. -/
def Holder.flight (h : Holder) : Flight := ⟨h.call, h.file, h.stage.landed⟩

/-- The ledger of a state whose files load as `d`. -/
def State.ledger (s : State) (d : Tables) : Ledger := ⟨s.tables, d, s.holder.map Holder.flight⟩

/-- What a label is to the ledger. -/
def Label.move (l : Label) : Move :=
  match l.2 with
  | .silent =>
    match l.1 with
    | .acquire c _ _ => .began c
    | _ => .tau
  | .returned c result => .returned c result
  | .cancelled c => .cancelled c
  | .crashed c => .crashed c

theorem Label.move_eq_began {l : Label} {call : Call} (h : l.move = .began call) :
    ∃ now order, l = (.acquire call now order, .silent) := by
  obtain ⟨e, o⟩ := l
  cases o with
  | silent =>
    cases e with
    | acquire c now order =>
      cases h
      exact ⟨now, order, rfl⟩
    | _ => cases h
  | _ => cases h

/-- While a call is in flight, a silent label is nothing to the ledger: no other call can get
the lock. -/
theorem Ledger.Step.move_eq_tau {E : Prop} {a a' : Ledger} {l : Label} {f : Flight}
    (h : Ledger.Step E a l.move a') (hf : a.flight = some f) (hl : l.2 = .silent) :
    l.move = .tau := by
  generalize hm : l.move = mv at h
  rw [Label.move, hl] at hm
  cases h with
  | tau | land | enrollNext | revokeNext => rfl
  | enrollBegin | revokeBegin => cases hf
  | _ =>
    dsimp only at hm
    split at hm <;> cases hm

theorem Label.output_of_move_crashed {l : Label} {c : Option Call} (h : l.move = .crashed c) :
    l.2 = .crashed c := by
  obtain ⟨e, o⟩ := l
  cases o with
  | crashed c =>
    cases h
    rfl
  | silent => cases e <;> cases h
  | _ => cases h

variable (C : Codecs)

/-- The content being written loads as the table it was rendered from. -/
def Holder.Loads (h : Holder) (t : Tables) : Prop :=
  match h.file with
  | .psks => loadPskStore C.hex (some h.content) = .ok t.psks
  | .clients => loadClients C.json (some h.content) = .ok (h.call.listed t.clients)

/-- **The files load as `d`**, and so will the file being written. -/
structure Synced (s : State) (d : Tables) : Prop where
  /-- The files. -/
  disk : acquire C s.disk = .ok d
  /-- The file being written. -/
  pending : ∀ h, s.holder = some h → h.Loads C s.tables

/-- One step of the machine is one step of the ledger, and keeps it in step with the
disk when the codecs round-trip. -/
def Tracks (s : State) (m : Move) (s' : State) (d : Tables) : Prop :=
  ∃ d', Ledger.Step C.Lawful (s.ledger d) m (s'.ledger d') ∧
    (C.Lawful → Synced C s d → Synced C s' d')

variable {C} {s s' : State} {d : Tables} {h : Holder} {order : Order} {o : Output}

theorem Synced.of_started (hs : Started C s) : Synced C s s.tables :=
  ⟨hs.1, fun h hh => by rw [hs.2.1] at hh; cases hh⟩

/-- Releasing the lock leaves nothing pending. -/
theorem Synced.release (hy : Synced C s d) {t : Tables} :
    Synced C { s with tables := t, holder := none } d :=
  ⟨hy.disk, fun _ hh => by cases hh⟩

/-- Beginning a write whose content loads. -/
theorem Synced.beginWrite (hy : Synced C s d) {t : Tables} {c : Call} {file : File}
    {content : Text.Bytes} (hl : Holder.Loads C ⟨c, file, .open, content⟩ t) :
    Synced C (s.beginWrite t c file content).1 d :=
  ⟨hy.disk, fun _ hh => by cases hh; exact hl⟩

/-- Moving the pending write to another stage. -/
theorem Synced.atStage (hy : Synced C s d) (hh : s.holder = some h) (stage : WriteStage) :
    Synced C (s.atStage h stage).1 d :=
  ⟨hy.disk, fun _ he => by cases he; exact hy.pending h hh⟩

/-- The rename. -/
theorem Synced.land (hy : Synced C s d) (hh : s.holder = some h) :
    Synced C { s with disk := s.disk.replace h.content h.file } (h.flight.land s.tables d) := by
  have hload := hy.pending h hh
  obtain ⟨hp, hc⟩ := acquire_eq_ok_iff.mp hy.disk
  refine ⟨acquire_eq_ok_iff.mpr ?_, hy.pending⟩
  rcases hf : h.file with _ | _
  · simp only [Holder.Loads, hf] at hload
    simpa only [Disk.replace, Flight.land, Holder.flight, hf] using ⟨hload, hc⟩
  · simp only [Holder.Loads, hf] at hload
    simpa only [Disk.replace, Flight.land, Holder.flight, hf] using ⟨hp, hload⟩

theorem loads_psks (hC : C.Lawful) {t : Tables} {c : Call}
    (ho : Finmap.Enumerates order.psks t.psks) :
    Holder.Loads C ⟨c, .psks, .open, PskStore.render C.hex order.psks⟩ t :=
  loadPskStore_render hC.hex ho

theorem loads_clients (hC : C.Lawful) {t : Tables} {c : Call} {skip : Option Identity}
    {content : Text.Bytes} (hskip : dropSkipped t.clients skip = c.listed t.clients)
    (ho : Finmap.Enumerates order.clients t.clients)
    (hr : renderClientsDoc C.json order.clients skip = .ok content) :
    Holder.Loads C ⟨c, .clients, .open, content⟩ t := by
  obtain ⟨bytes, hb, hl⟩ := loadClients_renderClientsDoc hC.json ho skip
  cases hb.symm.trans hr
  exact hl.trans (congrArg Except.ok hskip)

/-- Codecs that round-trip never fail to encode. -/
theorem not_lawful_of_render {t : Tables} {skip : Option Identity} {source : SerdeError}
    (ho : Finmap.Enumerates order.clients t.clients)
    (hr : renderClientsDoc C.json order.clients skip = .error source) : ¬C.Lawful := by
  intro hC
  obtain ⟨bytes, hb, -⟩ := loadClients_renderClientsDoc hC.json ho skip
  cases hb.symm.trans hr

/-- A step the ledger does not see, with the disk as it was. -/
theorem Tracks.stutter (hl : ∀ d, s'.ledger d = s.ledger d)
    (hy : C.Lawful → Synced C s d → Synced C s' d) : Tracks C s .tau s' d :=
  ⟨d, by rw [hl d]; exact .tau _, hy⟩

/-- From the lock to the first `await`. -/
theorem start_tracks {c : Call} {now : OffsetDateTime} (hfree : s.holder = none)
    (h : start C s c now order = some (s', o)) :
    Tracks C s (Label.move (.acquire c now order, o)) s' d := by
  have hled : ∀ d, s.ledger d = ⟨s.tables, d, none⟩ := fun d => by rw [State.ledger, hfree]; rfl
  have hrefuse : ∀ e : StateMutationError, e.refuses = true →
      Tracks C s (.returned c (.error e)) (s.finish s.tables c (.error e)).1 d :=
    fun e he => ⟨d, by rw [hled d]; exact .refuse c he, fun _ hy => hy.release⟩
  cases c with
  | enroll client psk provider note =>
    simp only [start] at h
    split at h
    · cases h
      exact hrefuse _ rfl
    · rename_i hnew
      split at h
      · rename_i ho
        cases h
        exact ⟨d, by rw [hled d]; exact .enrollBegin now hnew,
          fun hC hy => hy.beginWrite (loads_psks hC ho)⟩
      · cases h
  | revoke client =>
    simp only [start] at h
    split at h
    · cases h
      exact hrefuse _ rfl
    · rename_i hknown
      split at h
      · rename_i ho
        split at h
        · cases h
          exact hrefuse _ rfl
        · rename_i content hr
          cases h
          exact ⟨d, by rw [hled d]; exact .revokeBegin (not_not.mp hknown),
            fun hC hy => hy.beginWrite (loads_clients hC rfl ho hr)⟩
      · cases h

/-- From a finished write to the next `await`. -/
theorem written_tracks (hh : s.holder = some h) (hlanded : h.stage.landed = true)
    (hw : written C s h order = some (s', o)) :
    Tracks C s (Label.move (.ok order, o)) s' d := by
  obtain ⟨call, file, stage, content⟩ := h
  have hled : ∀ d, s.ledger d = ⟨s.tables, d, some ⟨call, file, true⟩⟩ := fun d => by
    rw [State.ledger, hh]
    simp only [Option.map_some, Holder.flight, hlanded]
  cases call with
  | enroll client psk provider note =>
    cases file with
    | psks =>
      simp only [written] at hw
      split at hw
      · rename_i ho
        split at hw
        · rename_i source hr
          cases hw
          refine ⟨d, ?_, fun _ hy => hy.release⟩
          rw [hled d]
          exact .encodeFail source (not_lawful_of_render ho hr)
        · rename_i bytes hr
          cases hw
          exact ⟨d, by rw [hled d]; exact .enrollNext,
            fun hC hy => hy.beginWrite (loads_clients hC rfl ho hr)⟩
      · cases hw
    | clients =>
      cases hw
      exact ⟨d, by rw [hled d]; exact .enrollOk, fun _ hy => hy.release⟩
  | revoke client =>
    cases file with
    | psks =>
      cases hw
      exact ⟨d, by rw [hled d]; exact .revokeOk, fun _ hy => hy.release⟩
    | clients =>
      simp only [written] at hw
      split at hw
      · rename_i ho
        cases hw
        exact ⟨d, by rw [hled d]; exact .revokeNext,
          fun hC hy => hy.beginWrite (loads_psks hC ho)⟩
      · cases hw

/-- A stage change that does not replace the file. -/
theorem atStage_tracks (hh : s.holder = some h) {stage : WriteStage}
    (hstage : stage.landed = h.stage.landed) : Tracks C s .tau (s.atStage h stage).1 d :=
  .stutter (fun d => by simp [State.ledger, State.atStage, Holder.flight, hh, hstage])
    fun _ hy => hy.atStage hh stage

theorem failed_tracks (hh : s.holder = some h) (source : IoError) :
    Tracks C s (.returned h.call (.error (h.file.writeError source))) (s.failed h source).1 d := by
  refine ⟨d, ?_, fun _ hy => hy.release⟩
  rw [State.ledger, hh]
  exact .fail (f := h.flight) source

/-- The rename succeeds. -/
theorem rename_tracks (hh : s.holder = some h) (hstage : h.stage = .rename) :
    Tracks C s .tau
      ({ s with disk := s.disk.replace h.content h.file }.atStage h .openDir).1 d := by
  refine ⟨h.flight.land s.tables d, ?_, fun _ hy => ?_⟩
  · have hf : h.flight = ⟨h.call, h.file, false⟩ := by
      simp [Holder.flight, hstage, WriteStage.landed]
    rw [State.ledger, hh, Option.map_some, hf]
    exact .land
  · exact (hy.land hh).atStage (h := h) hh .openDir

/-- The awaited operation succeeds. -/
theorem ioOk_tracks (hh : s.holder = some h) (hi : ioOk C s h order = some (s', o)) :
    Tracks C s (Label.move (.ok order, o)) s' d := by
  rcases hs : h.stage with _ | _ | _ | _ | source | _ | _ <;>
    simp only [ioOk, hs, WriteStage.succeed, reduceCtorEq, if_true, if_false] at hi
  case syncDir => exact written_tracks hh (by rw [hs]; rfl) hi
  case rename => cases hi; exact rename_tracks hh hs
  case removeFile => cases hi; exact failed_tracks hh source
  all_goals
    cases hi
    exact atStage_tracks hh (by rw [hs]; rfl)

/-- The awaited operation fails. -/
theorem ioErr_tracks (hh : s.holder = some h) (source : IoError) :
    Tracks C s (Label.move (.err source, (ioErr s h source).2)) (ioErr s h source).1 d := by
  rcases hs : h.stage with _ | _ | _ | _ | first | _ | _ <;> simp only [ioErr, hs, WriteStage.fail]
  case rename => exact atStage_tracks hh (by rw [hs]; rfl)
  case removeFile => exact failed_tracks hh first
  all_goals exact failed_tracks hh source

/-- **Every step of the machine is a step of the ledger.** For a crash, the ledger has
to know what the files load as. -/
theorem Step.tracks {l : Label} (h : Step C s l s')
    (hcrash : l.1 = .crash → acquire C s.disk = .ok d) : Tracks C s l.move s' d := by
  obtain ⟨e, o⟩ := l
  change next C s e = some (s', o) at h
  cases e with
  | call c =>
    cases h
    exact .stutter (fun _ => rfl) fun _ hy => ⟨hy.disk, hy.pending⟩
  | acquire c now order =>
    simp only [next] at h
    split at h
    · rename_i hfree
      obtain ⟨d', hl, hy⟩ :=
        start_tracks (s := { s with waiting := s.waiting.erase c }) (d := d) hfree.1 h
      exact ⟨d', hl, fun hC hs => hy hC ⟨hs.disk, hs.pending⟩⟩
    · cases h
  | ok order =>
    simp only [next] at h
    split at h
    · cases h
    · rename_i hd hh
      exact ioOk_tracks hh h
  | err source =>
    simp only [next] at h
    split at h
    · cases h
    · rename_i hd hh
      obtain ⟨rfl, rfl⟩ := Prod.mk.inj (Option.some.inj h)
      exact ioErr_tracks hh source
  | cancel =>
    simp only [next] at h
    split at h
    · cases h
    · rename_i hd hh
      cases h
      refine ⟨d, ?_, fun _ hy => hy.release⟩
      rw [State.ledger, hh]
      exact .cancel (f := hd.flight)
  | abandon c =>
    simp only [next] at h
    split at h
    · cases h
      exact .stutter (fun _ => rfl) fun _ hy => ⟨hy.disk, hy.pending⟩
    · cases h
  | crash =>
    have hd := hcrash rfl
    simp only [next, hd] at h
    cases h
    refine ⟨d, ?_, fun _ _ => ⟨hd, fun _ hh => by cases hh⟩⟩
    have hcall : s.holder.map Holder.call = (s.holder.map Holder.flight).map Flight.call := by
      rw [Option.map_map]; rfl
    rw [Label.move, hcall]
    exact .crash

/-- **A run of the machine is a run of the ledger**, and the files load all along. -/
theorem Run.ledger (hC : C.Lawful) {ls : List Label} (h : Run C s ls s') (hy : Synced C s d) :
    ∃ d', Ledger.Run C.Lawful (s.ledger d) (ls.map Label.move) (s'.ledger d') ∧ Synced C s' d' := by
  obtain ⟨a', hrun, d', rfl, hy'⟩ :=
    Lts.Run.simulate (Q := Ledger.Step C.Lawful) (f := Label.move)
      (I := fun s a => ∃ d, a = State.ledger s d ∧ Synced C s d)
      (fun s l s' a hrel hstep => by
        obtain ⟨d, rfl, hy⟩ := hrel
        obtain ⟨d', hl, hy'⟩ := Step.tracks hstep fun _ => hy.disk
        exact ⟨_, hl, d', rfl, hy' hC hy⟩)
      h ⟨d, rfl, hy⟩
  exact ⟨d', hrun, hy'⟩

/-- What holds in every reachable state: the files load, the content being written
will, and the call in flight has written what it has. -/
theorem Reachable.synced (hC : C.Lawful) (h : Reachable C s) :
    ∃ d, Synced C s d ∧ (s.ledger d).Written := by
  obtain ⟨s₀, ls, hs₀, hrun⟩ := h
  obtain ⟨d, hl, hy⟩ := Run.ledger hC hrun (.of_started hs₀)
  refine ⟨d, hy, hl.invariant (fun _ _ _ hw hs => hs.written hw) (.of_free ?_)⟩
  rw [State.ledger, hs₀.2.1]
  rfl

/-- The labels of a crash. -/
def Label.isCrash : Label → Bool
  | (_, .crashed _) => true
  | _ => false

theorem Label.isCrash_eq_false {l : Label} (h : ∀ c, l.2 ≠ .crashed c) : l.isCrash = false := by
  obtain ⟨e, o⟩ := l
  cases o with
  | crashed c => exact absurd rfl (h c)
  | _ => rfl

theorem Step.event_ne_crash {l : Label} (h : Step C s l s') (hl : l.isCrash = false) :
    l.1 ≠ .crash := by
  rintro he
  obtain ⟨e, o⟩ := l
  cases he
  change next C s .crash = some (s', o) at h
  simp only [next] at h
  split at h
  · cases h
  · cases h
    cases hl

/-- Without a crash, a step is one of the ledger, with any disk. -/
theorem Step.tracks_of_not_crash {l : Label} (h : Step C s l s') (hl : l.isCrash = false)
    (d : Tables) : ∃ d', Ledger.Step C.Lawful (s.ledger d) l.move (s'.ledger d') := by
  obtain ⟨d', hled, -⟩ := Step.tracks (d := d) h fun he => absurd he (h.event_ne_crash hl)
  exact ⟨d', hled⟩

theorem Step.tracks_of_silent {l : Label} (h : Step C s l s') (hl : l.2 = .silent) (d : Tables) :
    ∃ d', Ledger.Step C.Lawful (s.ledger d) l.move (s'.ledger d') :=
  h.tracks_of_not_crash (Label.isCrash_eq_false fun c => by simp [hl]) d

/-- **Without a crash, what the steps of the ledger keep is kept.** The ledger is carried along
with a disk that does not matter. -/
theorem Run.ledger_of_not_crash {P : Ledger → Prop} {ls : List Label} (h : Run C s ls s')
    (hcrash : ∀ l ∈ ls, l.isCrash = false)
    (hkeep : ∀ l ∈ ls, ∀ a a', Ledger.Step C.Lawful a l.move a' → P a → P a')
    (hs : P (s.ledger d)) : ∃ d', P (s'.ledger d') := by
  induction h generalizing d with
  | nil => exact ⟨d, hs⟩
  | @cons s t u l ls hstep _ ih =>
    rw [List.forall_mem_cons] at hcrash hkeep
    obtain ⟨d', hled⟩ := hstep.tracks_of_not_crash hcrash.1 d
    exact ih hcrash.2 hkeep.2 (hkeep.1 _ _ hled hs)

theorem Label.move_ne_crashed {l : Label} (hl : l.isCrash = false) (c : Option Call) :
    l.move ≠ .crashed c := by
  obtain ⟨e, o⟩ := l
  cases o with
  | crashed c => cases hl
  | silent => cases e <;> exact Move.noConfusion
  | _ => exact Move.noConfusion

/-! ### The queue -/

section Queue

variable {C : Codecs} {s s' : State} {o : Output}

theorem start_waiting {call : Call} {now : OffsetDateTime} {order : Order}
    (h : start C s call now order = some (s', o)) : s'.waiting = s.waiting := by
  cases call with
  | enroll client psk provider note =>
    simp only [start] at h
    split at h
    · cases h
      rfl
    · split at h
      · cases h
        rfl
      · cases h
  | revoke client =>
    simp only [start] at h
    split at h
    · cases h
      rfl
    · split at h
      · split at h <;> cases h <;> rfl
      · cases h

theorem written_waiting {hd : Holder} {order : Order} (h : written C s hd order = some (s', o)) :
    s'.waiting = s.waiting := by
  unfold written at h
  split at h
  · split at h
    · split at h <;> cases h <;> rfl
    · cases h
  · cases h
    rfl
  · dsimp only at h
    split at h
    · cases h
      rfl
    · cases h
  · cases h
    rfl

theorem ioOk_waiting {hd : Holder} {order : Order} (h : ioOk C s hd order = some (s', o)) :
    s'.waiting = s.waiting := by
  rcases hs : hd.stage with _ | _ | _ | _ | source | _ | _ <;>
    simp only [ioOk, hs, WriteStage.succeed, reduceCtorEq, if_true, if_false] at h
  case syncDir => exact written_waiting h
  all_goals
    cases h
    rfl

theorem ioErr_waiting {hd : Holder} {source : IoError} :
    (ioErr s hd source).1.waiting = s.waiting := by
  unfold ioErr
  split <;> rfl

/-- Only a call enters the queue. -/
theorem mem_waiting_of_next {e : Event} {call : Call} (hn : next C s e = some (s', o))
    (hmem : call ∈ s'.waiting) : call ∈ s.waiting ∨ e = .call call := by
  cases e with
  | call c =>
    cases hn
    rcases List.mem_append.mp hmem with hmem | hmem
    · exact .inl hmem
    · exact .inr (congrArg Event.call (List.mem_singleton.mp hmem).symm)
  | acquire c now order =>
    simp only [next] at hn
    split at hn
    · rw [start_waiting hn] at hmem
      exact .inl (List.mem_of_mem_erase hmem)
    · cases hn
  | ok order =>
    simp only [next] at hn
    split at hn
    · cases hn
    · exact .inl (ioOk_waiting hn ▸ hmem)
  | err source =>
    simp only [next] at hn
    split at hn
    · cases hn
    · have hw : s'.waiting = s.waiting :=
        (congrArg (fun r => r.1.waiting) (Option.some.inj hn)).symm.trans ioErr_waiting
      exact .inl (hw ▸ hmem)
  | cancel =>
    simp only [next] at hn
    split at hn <;> cases hn
    exact .inl hmem
  | abandon c =>
    simp only [next] at hn
    split at hn <;> cases hn
    exact .inl (List.mem_of_mem_erase hmem)
  | crash =>
    simp only [next] at hn
    split at hn <;> cases hn
    cases hmem

/-- A call that gets past its check was queued. -/
theorem Step.mem_waiting_of_began {call : Call} {l : Label} (hstep : Step C s l s')
    (hm : l.move = .began call) : call ∈ s.waiting := by
  obtain ⟨now, order, rfl⟩ := Label.move_eq_began hm
  change next C s (.acquire call now order) = some (s', .silent) at hstep
  simp only [next] at hstep
  split at hstep
  · rename_i hcond
    exact hcond.2
  · cases hstep

end Queue

end Symbolon
