import Symbolon.State.Crash

/-!
# The rollback of an enrolment

`enroll_client` inserts its client into both tables before the first write, and on every way
out but the successful one a guard removes it from both. That is meant to restore the tables,
and it does so **exactly when there was nothing to lose**
(`Symbolon.tables_restored_iff`): the check at the beginning looks at the client table only,
so an identity with a key and no client – an orphan, which a crash in the middle of an
enrolment leaves behind – passes it; the insertion then replaces the key, and the guard
removes it. `Symbolon.exists_rollback_loses_key` is such a run.
-/

namespace Symbolon

variable {E : Prop} {client : Identity} {psk : Psk} {provider : ProviderKind} {note : Option Note}
  {m t : Tables}

/-! ### On the tables -/

/-- What the guard leaves of what the insertion made. -/
theorem unwind_enrol (now : OffsetDateTime) :
    (Call.enroll client psk provider note).unwind (t.enrol client psk provider note now) =
      ⟨t.psks.erase client, t.clients.erase client⟩ :=
  (Tables.mk.injEq ..).mpr ⟨Finmap.erase_insert, Finmap.erase_insert⟩

theorem unwind_enrol_eq_iff (now : OffsetDateTime) :
    (Call.enroll client psk provider note).unwind (t.enrol client psk provider note now) = t ↔
      client ∉ t.psks ∧ client ∉ t.clients := by
  rw [unwind_enrol, ← Finmap.erase_eq_self_iff, ← Finmap.erase_eq_self_iff]
  exact ⟨fun h => ⟨congrArg Tables.psks h, congrArg Tables.clients h⟩,
    fun ⟨hp, hc⟩ => (Tables.mk.injEq ..).mpr ⟨hp, hc⟩⟩

/-! ### On the ledger -/

/-- The call is in flight, and these are the tables in memory. -/
def Ledger.Trying (call : Call) (m : Tables) (a : Ledger) : Prop :=
  a.mem = m ∧ ∃ f, a.flight = some f ∧ f.call = call

theorem Ledger.Step.trying_of_began {a a' : Ledger}
    (h : Ledger.Step E a (.began (.enroll client psk provider note)) a') :
    client ∉ a.mem.clients ∧
      ∃ now, a'.Trying (.enroll client psk provider note)
        (a.mem.enrol client psk provider note now) := by
  cases h with
  | enrollBegin now hnew => exact ⟨hnew, now, rfl, _, rfl, rfl⟩

/-- The silent steps of an enrolment touch the disk only. -/
theorem Ledger.Step.trying {a a' : Ledger} (h : Ledger.Step E a .tau a')
    (ht : a.Trying (.enroll client psk provider note) m) :
    a'.Trying (.enroll client psk provider note) m := by
  obtain ⟨hm, f, hf, hcall⟩ := ht
  cases h with
  | tau => exact ⟨hm, f, hf, hcall⟩
  | land | enrollNext =>
    cases hf
    exact ⟨hm, _, rfl, hcall⟩
  | revokeNext =>
    cases hf
    cases hcall

/-- A call that returns an error or is dropped has its guard dropped. -/
theorem Ledger.Step.mem_eq_unwind {a a' : Ledger} {call : Call} {mv : Move}
    (h : Ledger.Step E a mv a') (ht : a.Trying call m)
    (hmv : (∃ e, mv = .returned call (.error e)) ∨ mv = .cancelled call) :
    a'.mem = call.unwind m := by
  obtain ⟨rfl, f, hf, rfl⟩ := ht
  cases h with
  | fail | cancel | encodeFail =>
    cases hf
    rfl
  | refuse => cases hf
  | _ => simp at hmv

/-! ### On the machine -/

/-- **A call that does not succeed**, from the moment it gets the lock to the moment it
returns an error or is dropped. -/
inductive Attempt (call : Call) : List Label → Prop
  /-- It is turned away at once. -/
  | refused {now : OffsetDateTime} {order : Order} {e : StateMutationError} :
      Attempt call [(.acquire call now order, .returned call (.error e))]
  /-- It goes on to its writes, and leaves at one of their awaits. -/
  | left {now : OffsetDateTime} {order : Order} {ls : List Label} {l : Label}
      (hsilent : ∀ k ∈ ls, k.2 = .silent)
      (hleft : (∃ e, l.2 = .returned call (.error e)) ∨ l.2 = .cancelled call) :
      Attempt call ((.acquire call now order, .silent) :: ls ++ [l])

variable {C : Codecs} {s u : State} {ls : List Label}

/-- An enrolment is turned away only because the client is there. -/
theorem Step.of_refused {now : OffsetDateTime} {order : Order} {e : StateMutationError}
    (h : Step C s (.acquire (.enroll client psk provider note) now order,
      .returned (.enroll client psk provider note) (.error e)) u) :
    client ∈ s.tables.clients ∧ u.tables = s.tables := by
  change next C s _ = some (u, _) at h
  simp only [next] at h
  split at h
  · simp only [start] at h
    split at h
    · rename_i hmem
      cases h
      exact ⟨hmem, rfl⟩
    · split at h <;> cases h
  · cases h

theorem trying_of_run {d : Tables} (hrun : Run C s ls u) (hsilent : ∀ l ∈ ls, l.2 = .silent)
    (ht : (s.ledger d).Trying (.enroll client psk provider note) m) :
    ∃ d', (u.ledger d').Trying (.enroll client psk provider note) m := by
  have hcrash : ∀ l ∈ ls, l.isCrash = false := fun l hl =>
    Label.isCrash_eq_false fun c => by simp [hsilent l hl]
  refine hrun.ledger_of_not_crash hcrash (fun l hl a a' hled ha => ?_) ht
  rw [hled.move_eq_tau ha.2.choose_spec.1 (hsilent l hl)] at hled
  exact hled.trying ha

/-- **A failed enrolment restores the tables exactly when the client was turned away or had
no key.** Whatever the state, whatever fails, and wherever the call is dropped. -/
theorem tables_restored_iff (hrun : Run C s ls u)
    (ha : Attempt (.enroll client psk provider note) ls) :
    u.tables = s.tables ↔ client ∈ s.tables.clients ∨ client ∉ s.tables.psks := by
  cases ha with
  | refused =>
    obtain ⟨hmem, htables⟩ := Step.of_refused (Lts.run_singleton_iff.mp hrun)
    exact iff_of_true htables (.inl hmem)
  | @left now order ls l hsilent hleft =>
    obtain ⟨s₁, hbegin, hrest⟩ := Lts.run_cons_iff.mp hrun
    obtain ⟨s₂, hmid, hlast⟩ := Lts.run_append_iff.mp hrest
    have hlast := Lts.run_singleton_iff.mp hlast
    obtain ⟨d₁, hled₁⟩ := hbegin.tracks_of_silent rfl s.tables
    obtain ⟨hnew, now', ht₁⟩ := hled₁.trying_of_began
    obtain ⟨d₂, ht₂⟩ := trying_of_run hmid hsilent ht₁
    have hcrash : l.isCrash = false := Label.isCrash_eq_false fun c => by
      obtain ⟨e, he⟩ | he := hleft <;> simp [he]
    obtain ⟨d₃, hled₃⟩ := hlast.tracks_of_not_crash hcrash d₂
    have hmove : (∃ e, l.move = .returned (.enroll client psk provider note) (.error e)) ∨
        l.move = .cancelled (.enroll client psk provider note) := by
      obtain ⟨e, he⟩ | he := hleft
      · exact .inl ⟨e, by rw [Label.move, he]⟩
      · exact .inr (by rw [Label.move, he])
    have hu : u.tables = (Call.enroll client psk provider note).unwind
        (s.tables.enrol client psk provider note now') := hled₃.mem_eq_unwind ht₂ hmove
    have hnew : client ∉ s.tables.clients := hnew
    rw [hu, unwind_enrol_eq_iff, and_iff_left hnew, or_iff_right hnew]

/-! ### A key that is lost -/

/-- Another enrolment of `alice`, with another key. -/
abbrev enrollAliceAgain : Call := .enroll alice (Psk.filled 2) .github none

/-- A daemon that has a key of `alice` and no client, and the enrolment queued. -/
def orphanAlice : State :=
  { plainBoot ⟨(plainOrder [alice]).psks, []⟩ with waiting := [enrollAliceAgain] }

/-- An earlier enrolment that a crash cuts off between its writes leads there. -/
theorem orphanAlice_reachable : Reachable plainCodecs orphanAlice := by
  obtain ⟨ls, u, hrun, rfl⟩ :=
    Lts.exists_run_of_exec (next plainCodecs) (plainBoot (plainOrder []))
      (halfEnrolment ++ [.crash, .call enrollAliceAgain]) (fun u _ => u = orphanAlice)
      (by decide +kernel)
  exact ⟨_, ls, plainBoot_started (by decide) (by decide), hrun⟩

/-- The enrolment gets the lock and cannot create the PSK file. -/
theorem exists_run_orphanAlice :
    ∃ ls u, Run plainCodecs orphanAlice ls u ∧ Attempt enrollAliceAgain ls ∧
      alice ∉ u.tables.psks := by
  obtain ⟨ls, u, hrun, hls, hlost⟩ :=
    Lts.exists_run_of_exec (next plainCodecs) orphanAlice
      [.acquire enrollAliceAgain .unixEpoch ⟨[⟨alice, Psk.filled 2⟩], []⟩, .err 28]
      (fun u ls => ls =
          (.acquire enrollAliceAgain .unixEpoch ⟨[⟨alice, Psk.filled 2⟩], []⟩, .silent) :: [] ++
            [(.err 28, .returned enrollAliceAgain (.error (.writePsks 28)))] ∧
        alice ∉ u.tables.psks)
      (by decide +kernel)
  have ha : Attempt enrollAliceAgain ls :=
    hls ▸ .left (fun _ h => absurd h List.not_mem_nil) (.inl ⟨_, rfl⟩)
  exact ⟨ls, u, hrun, ha, hlost⟩

theorem tables_restored_iff_orphanAlice :
    ∃ ls u, Run plainCodecs orphanAlice ls u ∧ Attempt enrollAliceAgain ls ∧
      (u.tables = orphanAlice.tables ↔
        alice ∈ orphanAlice.tables.clients ∨ alice ∉ orphanAlice.tables.psks) := by
  obtain ⟨ls, u, hrun, ha, -⟩ := exists_run_orphanAlice
  exact ⟨ls, u, hrun, ha, tables_restored_iff hrun ha⟩

/-- **A failed enrolment that does not restore the tables**: in a state that a crash has led
to, the key of `alice` is in memory; the enrolment of `alice` returns an error; and the key
is gone. -/
theorem exists_rollback_loses_key :
    ∃ s ls u, Reachable plainCodecs s ∧ Run plainCodecs s ls u ∧ Attempt enrollAliceAgain ls ∧
      s.tables.psks.lookup alice = some (Psk.filled 1) ∧ u.tables.psks.lookup alice = none ∧
      u.tables ≠ s.tables := by
  obtain ⟨ls, u, hrun, ha, hlost⟩ := exists_run_orphanAlice
  have hkey : orphanAlice.tables.psks.lookup alice = some (Psk.filled 1) := by decide +kernel
  refine ⟨orphanAlice, ls, u, orphanAlice_reachable, hrun, ha, hkey,
    Finmap.lookup_eq_none.mpr hlost, fun heq => hlost ?_⟩
  rw [heq]
  exact Finmap.mem_iff.mpr ⟨_, hkey⟩

end Symbolon
