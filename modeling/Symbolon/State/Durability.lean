import Symbolon.State.Ledger
import Symbolon.PlainCodec

/-!
# Acknowledged mutations are durable

When `enroll_client` or `revoke_client` returns `Ok`, the two files load as exactly the
tables in memory, whatever failed, was dropped or crashed before
(`Symbolon.acquire_eq_tables_of_ok`). The two writes of a call are rendered at different
moments; that they fit together is the lock's doing, and it is `Symbolon.Ledger.Written`
that says so.

No update is lost either. What an acknowledged call has done to its client
(`Symbolon.Call.Done`) is still there, in memory and on disk, after any run in which no
call on the same client gets past its check again: the other calls may succeed, fail or
be dropped, and the process may restart (`Symbolon.Ledger.Step.settled`).
-/

namespace Symbolon

/-- What the two tables say of a client. -/
def Tables.entry (t : Tables) (c : Identity) : Option Psk × Option ResolvedClient :=
  (t.psks.lookup c, t.clients.lookup c)

/-- **What a call that returned `Ok` has done** to the entry of its client. -/
def Call.Done (e : Option Psk × Option ResolvedClient) : Call → Prop
  | .enroll _ psk provider note => ∃ now, e = (some psk, some ⟨[provider], now, note⟩)
  | .revoke _ => e = (none, none)

/-! ### On the ledger -/

/-- **Acknowledged, memory and disk agree.** -/
theorem Ledger.Step.mem_eq_disk {E : Prop} {a a' : Ledger} {c : Call}
    (h : Ledger.Step E a (.returned c (.ok ())) a') (hw : a.Written) :
    a'.mem = a'.disk ∧ a'.flight = none := by
  cases h with
  | @enrollOk m d =>
    obtain ⟨-, hp, hc⟩ := hw _ rfl
    refine ⟨?_, rfl⟩
    cases m
    cases d
    exact (Tables.mk.injEq ..).mpr ⟨hp.symm, (hc rfl).symm⟩
  | @revokeOk m d client =>
    obtain ⟨-, hc, -, hp⟩ := hw _ rfl
    refine ⟨?_, rfl⟩
    cases m
    cases d
    exact (Tables.mk.injEq ..).mpr ⟨(hp rfl).symm, hc.symm⟩

/-- What an acknowledged call has done in memory. -/
theorem Ledger.Step.done {E : Prop} {a a' : Ledger} {c : Call}
    (h : Ledger.Step E a (.returned c (.ok ())) a') (hw : a.Written) :
    c.Done (a'.mem.entry c.client) := by
  cases h with
  | enrollOk =>
    obtain ⟨⟨hp, now, hc⟩, -⟩ := hw _ rfl
    exact ⟨now, Prod.ext hp hc⟩
  | revokeOk =>
    obtain ⟨-, -, hgone, -⟩ := hw _ rfl
    exact Prod.ext (Finmap.lookup_eq_none.mpr hgone) (Finmap.lookup_erase _ _)

/-- A client whose entry is settled: memory and disk have it, and no call in flight is
about it. -/
structure Ledger.Settled (c : Identity) (e : Option Psk × Option ResolvedClient) (a : Ledger) :
    Prop where
  /-- The entry in memory. -/
  mem : a.mem.entry c = e
  /-- The entry on disk. -/
  disk : a.disk.entry c = e
  /-- No call in flight is about the client. -/
  notInFlight : ∀ f, a.flight = some f → f.call.client ≠ c

variable {c x : Identity} {t m d : Tables} {call : Call}

theorem entry_enrol_of_ne {psk : Psk} {provider : ProviderKind} {note : Option Note}
    {now : OffsetDateTime} (h : x ≠ c) : (t.enrol x psk provider note now).entry c = t.entry c :=
  Prod.ext (Finmap.lookup_insert_of_ne _ h.symm) (Finmap.lookup_insert_of_ne _ h.symm)

theorem entry_erasePsk_of_ne (h : x ≠ c) : (t.erasePsk x).entry c = t.entry c :=
  Prod.ext (Finmap.lookup_erase_ne h.symm) rfl

theorem entry_eraseClient_of_ne (h : x ≠ c) : (t.eraseClient x).entry c = t.entry c :=
  Prod.ext rfl (Finmap.lookup_erase_ne h.symm)

theorem entry_unwind_of_ne (h : call.client ≠ c) : (call.unwind t).entry c = t.entry c := by
  cases call with
  | enroll client psk provider note =>
    exact (entry_eraseClient_of_ne (x := client) h).trans (entry_erasePsk_of_ne h)
  | revoke => rfl

theorem lookup_listed_of_ne (h : call.client ≠ c) {clients : Table ResolvedClient} :
    (call.listed clients).lookup c = clients.lookup c := by
  cases call with
  | enroll => rfl
  | revoke => exact Finmap.lookup_erase_ne (Ne.symm h)

/-- **One step leaves a settled entry alone**, unless it is a call on that client getting
past its check. -/
theorem Ledger.Step.settled {E : Prop} {e : Option Psk × Option ResolvedClient} {a a' : Ledger}
    {mv : Move} (h : Ledger.Step E a mv a') (hno : ∀ call, mv = .began call → call.client ≠ c)
    (hs : a.Settled c e) : a'.Settled c e := by
  obtain ⟨hm, hd, hf⟩ := hs
  -- a call that leaves early, or returns, is not about the client
  have hleave : ∀ {m d : Tables} {f : Flight}, m.entry c = e → d.entry c = e →
      f.call.client ≠ c → Ledger.Settled c e ⟨f.call.unwind m, d, none⟩ :=
    fun hm hd hne => ⟨(entry_unwind_of_ne hne).trans hm, hd, fun f hf => by cases hf⟩
  cases h with
  | tau => exact ⟨hm, hd, hf⟩
  | refuse => exact ⟨hm, hd, hf⟩
  | enrollBegin now hnew =>
    have hne := hno _ rfl
    exact ⟨(entry_enrol_of_ne hne).trans hm, hd, fun f hf => by cases hf; exact hne⟩
  | revokeBegin hknown =>
    have hne := hno _ rfl
    exact ⟨hm, hd, fun f hf => by cases hf; exact hne⟩
  | @land m d call file =>
    have hne : call.client ≠ c := hf _ rfl
    refine ⟨hm, ?_, fun f hf => by cases hf; exact hne⟩
    obtain ⟨hm₁, hm₂⟩ := Prod.mk.inj hm
    obtain ⟨hd₁, hd₂⟩ := Prod.mk.inj hd
    cases file with
    | psks => exact Prod.ext hm₁ hd₂
    | clients => exact Prod.ext hd₁ ((lookup_listed_of_ne hne).trans hm₂)
  | enrollNext => exact ⟨hm, hd, fun f hf' => by cases hf'; exact hf ⟨_, .psks, true⟩ rfl⟩
  | revokeNext =>
    have hne := hf _ rfl
    exact ⟨(entry_erasePsk_of_ne hne).trans hm, hd, fun f hf' => by cases hf'; exact hne⟩
  | enrollOk => exact ⟨hm, hd, fun f hf => by cases hf⟩
  | revokeOk =>
    exact ⟨(entry_eraseClient_of_ne (hf _ rfl)).trans hm, hd, fun f hf => by cases hf⟩
  | encodeFail => exact hleave (f := ⟨_, .psks, true⟩) hm hd (hf _ rfl)
  | fail => exact hleave hm hd (hf _ rfl)
  | cancel => exact hleave hm hd (hf _ rfl)
  | crash => exact ⟨hd, hd, fun f hf => by cases hf⟩

/-! ### On the machine -/

/-- A call on `c` gets the lock and past its check. -/
def Label.Begins (c : Identity) (l : Label) : Prop :=
  match l with
  | (.acquire call _ _, .silent) => call.client = c
  | _ => False

variable {C : Codecs} {s s₀ s₁ u : State} {l : Label} {ls : List Label}

theorem client_ne_of_not_begins (h : ¬l.Begins c) (hm : l.move = .began call) :
    call.client ≠ c := by
  obtain ⟨now, order, rfl⟩ := Label.move_eq_began hm
  exact h

/-- The entry of a client that is settled stays through a run in which no call on it
gets past its check. -/
theorem settled_of_run (hC : C.Lawful) {e : Option Psk × Option ResolvedClient}
    (hrun : Run C s ls u) (hy : Synced C s d) (hs : (s.ledger d).Settled c e)
    (hno : ∀ l ∈ ls, ¬l.Begins c) : ∃ d', Synced C u d' ∧ (u.ledger d').Settled c e := by
  induction hrun generalizing d with
  | nil => exact ⟨d, hy, hs⟩
  | cons hstep _ ih =>
    obtain ⟨d₁, hled, hy₁⟩ := Step.tracks hstep fun _ => hy.disk
    exact ih (hy₁ hC hy)
      (hled.settled (fun call hm => client_ne_of_not_begins (hno _ List.mem_cons_self) hm) hs)
      fun l hl => hno l (List.mem_cons_of_mem _ hl)

/-- An acknowledged step: the files load as the tables, and the call's entry is
settled. -/
theorem settled_of_ok (hC : C.Lawful) (hs : Reachable C s) (hstep : Step C s l u)
    (hl : l.2 = .returned call (.ok ())) :
    u.holder = none ∧ Synced C u u.tables ∧ call.Done (u.tables.entry call.client) ∧
      (u.ledger u.tables).Settled call.client (u.tables.entry call.client) := by
  obtain ⟨d, hy, hw⟩ := hs.synced hC
  obtain ⟨d', hled, hy'⟩ := Step.tracks hstep fun _ => hy.disk
  have hm : l.move = .returned call (.ok ()) := by rw [Label.move, hl]
  rw [hm] at hled
  obtain ⟨heq, hfree⟩ := hled.mem_eq_disk hw
  cases (heq : u.tables = d')
  exact ⟨by simpa [State.ledger] using hfree, hy' hC hy, hled.done hw, rfl, rfl,
    fun f hf => by rw [hfree] at hf; cases hf⟩

/-- **Acknowledged mutations are on disk, and none is lost.** Whenever a call returns
`Ok`, the lock is free and the files load as exactly the tables in memory. And whatever
call returned `Ok` earlier in the run, if no call on its client has got past its check
since, its effect is in the tables: the entry is the one the call left, key, providers,
enrolment time and note. -/
theorem acquire_eq_tables_of_ok (hC : C.Lawful) (hs₀ : Started C s₀) (hrun : Run C s₀ ls s)
    (hstep : Step C s l u) (hl : l.2 = .returned call (.ok ())) :
    u.holder = none ∧ acquire C u.disk = .ok u.tables ∧
      ∀ pre l' post s₁ call', ls ++ [l] = pre ++ l' :: post → Run C s₀ (pre ++ [l']) s₁ →
        l'.2 = .returned call' (.ok ()) → (∀ k ∈ post, ¬k.Begins call'.client) →
          u.tables.entry call'.client = s₁.tables.entry call'.client ∧
            call'.Done (u.tables.entry call'.client) := by
  obtain ⟨hfree, hy, -⟩ := settled_of_ok hC ⟨s₀, ls, hs₀, hrun⟩ hstep hl
  refine ⟨hfree, hy.disk, ?_⟩
  intro pre l' post s₁ call' heq hpre hl' hno
  have hwhole := hrun.snoc hstep
  rw [heq, List.append_cons] at hwhole
  obtain ⟨s₁', hpre', hpost⟩ := Lts.run_append_iff.mp hwhole
  cases hpre.unique hpre'
  obtain ⟨t', hrun', hstep'⟩ := Lts.run_append_iff.mp hpre
  obtain ⟨hfree₁, hy₁, hdone, hset⟩ :=
    settled_of_ok hC ⟨s₀, pre, hs₀, hrun'⟩ (Lts.run_singleton_iff.mp hstep') hl'
  obtain ⟨d, -, hset'⟩ := settled_of_run hC hpost hy₁ hset hno
  have hentry : u.tables.entry call'.client = s₁.tables.entry call'.client := hset'.mem
  exact ⟨hentry, hentry ▸ hdone⟩

/-- Two calls, on `alice` and on `bob`, that both go through while the other is queued. -/
def enrolRevoke : List Event :=
  .call (.enroll alice (Psk.filled 1) .github none) :: .call (.revoke bob) ::
    .acquire (.enroll alice (Psk.filled 1) .github none) .unixEpoch (plainOrder [alice, bob]) ::
    writeThrough (plainOrder [alice, bob]) ++ writeThrough ⟨[], []⟩ ++
    .acquire (.revoke bob) .unixEpoch (plainOrder [alice, bob]) ::
    writeThrough (plainOrder [alice]) ++ writeThrough ⟨[], []⟩

theorem acquire_eq_tables_enrolRevoke :
    ∃ s u l ls, Run plainCodecs (plainBoot (plainOrder [bob])) ls s ∧ Step plainCodecs s l u ∧
      l.2 = .returned (.revoke bob) (.ok ()) ∧ acquire plainCodecs u.disk = .ok u.tables ∧
      alice ∈ u.tables.clients := by
  obtain ⟨ls, u, hrun, ho, hnil, hmem⟩ :=
    Lts.exists_run_of_exec (next plainCodecs) (plainBoot (plainOrder [bob]))
      enrolRevoke
      (fun u ls => ls[27]?.map Prod.snd = some (.returned (.revoke bob) (.ok ())) ∧
        ls.drop 28 = [] ∧ alice ∈ u.tables.clients)
      (by decide +kernel)
  obtain ⟨l, hl, ho⟩ := Option.map_eq_some_iff.mp ho
  obtain ⟨s, t, hpre, hstep, hpost⟩ := hrun.split_at hl
  rw [hnil, Lts.run_nil_iff] at hpost
  cases hpost
  exact ⟨s, u, l, _, hpre, hstep, ho, (acquire_eq_tables_of_ok plainCodecs_lawful
    (plainBoot_started (by decide) (by decide)) hpre hstep ho).2.1, hmem⟩

end Symbolon
