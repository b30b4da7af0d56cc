import Symbolon.State.Ledger
import Symbolon.PlainCodec

/-!
# The two tables in lock-step

The comments on `SharedState` ask that the keys and the clients in memory be of the
same identities whenever no mutation holds the lock. Enrolling keeps that on every way
out, because its rollback guard removes the client from both tables. Revoking has no
guard, and removes the key before its second write and the client after it: **a
revocation that leaves during its PSK write without having succeeded takes the tables
out of step** (`Symbolon.Lossy`), and nothing else does.

So the lock-step rule holds along a run exactly when no step of the run is of that kind
(`Symbolon.lockstep_iff_not_lossy`), and there is a run with such a step
(`Symbolon.exists_run_not_lockstep`).
-/

namespace Symbolon

/-- The keys and the clients are of the same identities. -/
def Tables.Lockstep (t : Tables) : Prop := ∀ x, x ∈ t.psks ↔ x ∈ t.clients

/-- **The step that loses a client's key but not the client**: a revocation is inside
its PSK write, and returns an error or is dropped. -/
def Lossy (s : State) (l : Label) : Prop :=
  ∃ h client, s.holder = some h ∧ h.call = .revoke client ∧ h.file = .psks ∧
    (l.2 = .cancelled h.call ∨ ∃ e, l.2 = .returned h.call (.error e))

/-! ### On the ledger -/

/-- The step of `Symbolon.Lossy`, on the ledger. -/
def Ledger.Lossy (a : Ledger) (m : Move) : Prop :=
  ∃ f client, a.flight = some f ∧ f.call = .revoke client ∧ f.file = .psks ∧
    (m = .cancelled f.call ∨ ∃ e, m = .returned f.call (.error e))

/-- The relation between the tables, by what is in flight: only a revocation that has
come to its PSK write has them out of step, and only by its own client. -/
def Ledger.InStep (a : Ledger) : Prop :=
  ∀ x, x ∈ a.mem.psks ↔ x ∈ a.mem.clients ∧
    ∀ f, a.flight = some f → f.file = .psks → f.call ≠ .revoke x

theorem Ledger.InStep.lockstep {a : Ledger} (h : a.InStep) (hfree : a.flight = none) :
    a.mem.Lockstep := by
  intro x
  simpa [hfree] using h x

/-- Without a lossy step the relation is kept. -/
theorem Ledger.Step.inStep {E : Prop} {a a' : Ledger} {m : Move} (h : Ledger.Step E a m a')
    (hcrash : ∀ c, m ≠ .crashed c) (hlossy : ¬a.Lossy m) (hi : a.InStep) : a'.InStep := by
  -- leaving a call early: an enrolment rolls back, a revocation is not in its PSK write
  have hunwind : ∀ {m d : Tables} {f : Flight}, Ledger.InStep ⟨m, d, some f⟩ →
      (∀ client, f.call = .revoke client → f.file ≠ .psks) →
      Ledger.InStep ⟨f.call.unwind m, d, none⟩ := by
    rintro m d ⟨call, file, landed⟩ hi hnot x
    have hx := hi x
    cases call with
    | enroll client psk provider note =>
      simp only [Option.some.injEq, forall_eq', ne_eq, reduceCtorEq, not_false_eq_true,
        implies_true, and_true] at hx
      simp [Call.unwind, hx]
    | revoke client =>
      have hfile : file ≠ .psks := hnot client rfl
      simp only [Option.some.injEq, forall_eq', hfile, false_implies, and_true] at hx
      simp [Call.unwind, hx]
  intro x
  have hx := hi x
  cases h with
  | tau => exact hx
  | refuse => exact hx
  | enrollBegin now hnew =>
    simp only [reduceCtorEq, false_implies, implies_true, and_true] at hx
    simp [hx]
  | revokeBegin hknown => simpa using hx
  | land => simpa using hx
  | enrollNext => simpa using hx
  | revokeNext =>
    simp only [Option.some.injEq, forall_eq', reduceCtorEq, false_implies, and_true] at hx
    simp [hx, and_comm, eq_comm]
  | enrollOk => simpa using hx
  | revokeOk =>
    simp only [Option.some.injEq, forall_eq', forall_const, ne_eq, Call.revoke.injEq] at hx
    simp [hx, and_comm, eq_comm]
  | encodeFail =>
    simp only [Option.some.injEq, forall_eq', ne_eq, reduceCtorEq, not_false_eq_true, implies_true,
      and_true] at hx
    simp [hx]
  | fail source =>
    exact hunwind hi (fun client hc hf => hlossy ⟨_, client, rfl, hc, hf, .inr ⟨_, rfl⟩⟩) x
  | cancel =>
    exact hunwind hi (fun client hc hf => hlossy ⟨_, client, rfl, hc, hf, .inl rfl⟩) x
  | crash => exact absurd rfl (hcrash _)

/-- After a lossy step the tables are out of step, whatever happened before. -/
theorem Ledger.Step.not_lockstep_of_lossy {E : Prop} {a a' : Ledger} {m : Move}
    (h : Ledger.Step E a m a')
    (hw : a.Written) (hl : a.Lossy m) : a'.flight = none ∧ ¬a'.mem.Lockstep := by
  obtain ⟨f, client, hf, hcall, hfile, hm⟩ := hl
  have hwf := hw f hf
  rw [Flight.Written, hcall, hfile] at hwf
  obtain ⟨hmem, -, hgone, -⟩ := hwf
  have hstay : ∀ t : Tables, f.call.unwind t = t := fun t => by rw [hcall]; rfl
  have hbad : ¬a.mem.Lockstep := fun hs => hgone ((hs client).mpr hmem)
  cases h with
  | fail => cases hf; exact ⟨rfl, by rw [hstay]; exact hbad⟩
  | cancel => cases hf; exact ⟨rfl, by rw [hstay]; exact hbad⟩
  | encodeFail => cases hf; cases hcall
  | refuse => cases hf
  | enrollOk => simp at hm
  | revokeOk => simp at hm
  | _ => rcases hm with hm | ⟨e, hm⟩ <;> cases hm

/-! ### On the machine -/

variable {C : Codecs} {s s' : State} {d : Tables} {l : Label} {ls : List Label}

theorem State.ledger_flight_eq_none {s : State} {d : Tables} :
    (s.ledger d).flight = none ↔ s.holder = none := by
  simp [State.ledger]

/-- A lossy step of the machine is one of the ledger. -/
theorem lossy_iff (s : State) (l : Label) (d : Tables) : Lossy s l ↔ (s.ledger d).Lossy l.move := by
  obtain ⟨e, o⟩ := l
  constructor
  · rintro ⟨h, client, hh, hcall, hfile, ho⟩
    refine ⟨h.flight, client, by simp [State.ledger, hh], hcall, hfile, ?_⟩
    rcases ho with rfl | ⟨e', rfl⟩
    · exact .inl rfl
    · exact .inr ⟨e', rfl⟩
  · rintro ⟨f, client, hf, hcall, hfile, hm⟩
    obtain ⟨h, hh, rfl⟩ := Option.map_eq_some_iff.mp hf
    refine ⟨h, client, hh, hcall, hfile, ?_⟩
    rcases hm with hm | ⟨e', hm⟩
    · left
      cases o <;> cases e <;> simp_all [Label.move, Holder.flight]
    · right
      refine ⟨e', ?_⟩
      cases o <;> cases e <;> simp_all [Label.move, Holder.flight]

/-- Along a run without crashes and without lossy steps, the tables stay in step. The
ledger is carried along with a disk that does not matter. -/
theorem inStep_of_not_lossy (hrun : Run C s ls s') (hcrash : ∀ l ∈ ls, l.isCrash = false)
    (hlossy : ∀ pre l post t, ls = pre ++ l :: post → Run C s pre t → ¬Lossy t l)
    (hi : (s.ledger d).InStep) : ∃ d', (s'.ledger d').InStep := by
  induction hrun generalizing d with
  | nil => exact ⟨d, hi⟩
  | @cons s t u l ls hstep hrest ih =>
    have hl := hcrash l List.mem_cons_self
    obtain ⟨d₁, hled⟩ := hstep.tracks_of_not_crash hl d
    have hnot : ¬(s.ledger d).Lossy l.move :=
      fun hc => hlossy [] l ls s rfl (.nil s) ((lossy_iff s l d).mpr hc)
    refine ih (fun l' hl' => hcrash l' (List.mem_cons_of_mem _ hl')) ?_
      (hled.inStep (Label.move_ne_crashed hl) hnot hi)
    intro pre l' post v heq hpre
    exact hlossy (l :: pre) l' post v (by rw [heq]; rfl) (.cons hstep hpre)

/-- What a call in flight knows, along a run without crashes. -/
theorem written_of_run (hrun : Run C s ls s') (hcrash : ∀ l ∈ ls, l.isCrash = false)
    (hw : (s.ledger d).Written) : ∃ d', (s'.ledger d').Written :=
  hrun.ledger_of_not_crash hcrash (fun _ _ _ _ hled hw => hled.written hw) hw

/-- **The tables are in lock-step whenever the lock is free, exactly as long as no
revocation is lost in its PSK write.** Start from any state with a free lock and tables
in lock-step, and take any run of calls that succeed, fail at any operation of either
write, or are dropped at any `await`. -/
theorem lockstep_iff_not_lossy (hrun : Run C s ls s') (hcrash : ∀ l ∈ ls, l.isCrash = false)
    (hfree : s.holder = none) (hs : s.tables.Lockstep) :
    (∀ pre post t, ls = pre ++ post → Run C s pre t → t.holder = none → t.tables.Lockstep) ↔
      ∀ pre l post t, ls = pre ++ l :: post → Run C s pre t → ¬Lossy t l := by
  have hfl : (s.ledger s.tables).flight = none := State.ledger_flight_eq_none.mpr hfree
  constructor
  · intro hall pre l post t heq hpre hl
    have hmem : ∀ l' ∈ pre, l'.isCrash = false := fun l' hl' =>
      hcrash l' (by rw [heq]; exact List.mem_append_left _ hl')
    obtain ⟨d, hw⟩ := written_of_run (d := s.tables) hpre hmem (.of_free hfl)
    -- the run goes on with the lossy step
    rw [heq] at hrun
    obtain ⟨t', hpre', hrest⟩ := Lts.run_append_iff.mp hrun
    obtain ⟨u, hstep, -⟩ := Lts.run_cons_iff.mp hrest
    cases hpre.unique hpre'
    obtain ⟨d₁, hled⟩ := hstep.tracks_of_not_crash (hcrash l (by simp [heq])) d
    obtain ⟨hufree, hbad⟩ := hled.not_lockstep_of_lossy hw ((lossy_iff t l d).mp hl)
    exact hbad (hall (pre ++ [l]) post u (by simp [heq]) (hpre.snoc hstep)
      (State.ledger_flight_eq_none.mp hufree))
  · intro hlossy pre post t heq hpre htfree
    obtain ⟨d, hi⟩ := inStep_of_not_lossy (d := s.tables) hpre
      (fun l hl => hcrash l (by rw [heq]; exact List.mem_append_left _ hl))
      (fun pre' l post' v heq' hpre' =>
        hlossy pre' l (post' ++ post) v (by rw [heq, heq']; simp) hpre')
      (fun x => by simp [State.ledger, hfree, hs x])
    exact hi.lockstep (State.ledger_flight_eq_none.mpr htfree)

theorem plainBoot_lockstep (ids : List Identity) :
    (plainBoot (plainOrder ids)).tables.Lockstep := by
  intro x
  simp [plainBoot, plainOrder, Finmap.mem_list_toFinmap]

/-- A revocation of `alice` whose PSK write cannot create its temporary file. -/
def lostRevocation : List Event :=
  .call (.revoke alice) :: .acquire (.revoke alice) .unixEpoch (plainOrder [alice]) ::
    writeThrough ⟨[], []⟩ ++ [.err 28]

theorem lockstep_iff_not_lossy_lostRevocation :
    ∃ ls u, Run plainCodecs (plainBoot (plainOrder [alice])) ls u ∧ ls.length = 9 ∧
      ((∀ pre post t, ls = pre ++ post → Run plainCodecs (plainBoot (plainOrder [alice])) pre t →
          t.holder = none → t.tables.Lockstep) ↔
        ∀ pre l post t, ls = pre ++ l :: post →
          Run plainCodecs (plainBoot (plainOrder [alice])) pre t → ¬Lossy t l) := by
  obtain ⟨ls, u, hrun, hlen, hcrash⟩ :=
    Lts.exists_run_of_exec (next plainCodecs) (plainBoot (plainOrder [alice]))
      lostRevocation (fun _ ls => ls.length = 9 ∧ ∀ l ∈ ls, Label.isCrash l = false)
      (by decide +kernel)
  exact ⟨ls, u, hrun, hlen, lockstep_iff_not_lossy hrun hcrash rfl (plainBoot_lockstep _)⟩

/-- **A failed revocation takes the tables out of step**: from a started daemon with
one client, its lock free and its tables in lock-step, revoking the client with a
failing PSK write ends with the lock free, the client in the client table, and no key
for it. -/
theorem exists_run_not_lockstep :
    ∃ s ls u, Started plainCodecs s ∧ s.tables.Lockstep ∧ Run plainCodecs s ls u ∧
      (∀ l ∈ ls, l.isCrash = false) ∧ u.holder = none ∧ alice ∈ u.tables.clients ∧
      alice ∉ u.tables.psks ∧ ¬u.tables.Lockstep := by
  obtain ⟨ls, u, hrun, hcrash, hfree, hc, hp⟩ :=
    Lts.exists_run_of_exec (next plainCodecs) (plainBoot (plainOrder [alice]))
      lostRevocation
      (fun u ls => (∀ l ∈ ls, Label.isCrash l = false) ∧ u.holder = none ∧
        alice ∈ u.tables.clients ∧ alice ∉ u.tables.psks)
      (by decide +kernel)
  exact ⟨_, ls, u, plainBoot_started (by decide) (by decide), plainBoot_lockstep _, hrun, hcrash,
    hfree, hc, hp, fun h => hp ((h alice).mpr hc)⟩

end Symbolon
