import Symbolon.State.Ledger
import Symbolon.PlainCodec

/-!
# Revocation across failures and restarts

A revocation that has replaced the client list and dropped the key from memory – it
returned `Ok`, or it failed in its PSK write – should be permanent: nobody authorises the
client again but a later call to enrol it. The comment on `revoke_client` says why, for the case
of the failed write: the key left on disk is unreachable on the next start because the
client list no longer carries the identity.

That is so until the client list is written again. After the failed write the client is
still in the client table in memory, so the next revocation – of *another* client –
renders it back into the file (`Symbolon.StaleRewrite`), and a restart then finds it in
both files: `Symbolon.exists_run_authorises_again`. An enrolment in between does no harm,
since it writes the PSK file first, without the key.

An enrolment of the client that was called before the revocation returned, and still waits for
the lock, brings the client back as well, without a later call. If none is queued at the
return, then in a run with no such rewrite the revocation is permanent through any failure,
any dropped handler and any number of crashes
(`Symbolon.not_authorises_of_no_staleRewrite`). The invariant (`Symbolon.Ledger.Barred`)
is that the client is missing from both client lists, or from both stores, or from the
store in memory and the list on disk with nothing on its way to the disk that names it.
-/

namespace Symbolon

/-- The calls that enrol `c`. -/
def Call.Enrolls (c : Identity) : Call → Prop
  | .enroll client .. => client = c
  | .revoke _ => False

instance (c : Identity) : DecidablePred (Call.Enrolls c)
  | .enroll client .. => inferInstanceAs (Decidable (client = c))
  | .revoke _ => inferInstanceAs (Decidable False)

/-! ### On the ledger -/

/-- **The client cannot come back.** -/
structure Ledger.Barred (c : Identity) (a : Ledger) : Prop where
  /-- It is not being enrolled. -/
  notEnrolling : ∀ f, a.flight = some f → ¬f.call.Enrolls c
  /-- It is missing where it would be needed. -/
  missing : (c ∉ a.mem.clients ∧ c ∉ a.disk.clients) ∨ (c ∉ a.mem.psks ∧ c ∉ a.disk.psks) ∨
    (c ∉ a.mem.psks ∧ c ∉ a.disk.clients ∧
      ∀ f, a.flight = some f → f.call = .revoke c ∨ (f.file = .psks ∧ f.landed = false))

theorem Ledger.Barred.not_authorises {c : Identity} {a : Ledger} (h : a.Barred c) :
    ¬a.mem.Authorises c ∧ ¬a.disk.Authorises c := by
  rcases h.missing with ⟨hm, hd⟩ | ⟨hm, hd⟩ | ⟨hm, hd, -⟩
  · exact ⟨fun h => hm h.2, fun h => hd h.2⟩
  · exact ⟨fun h => hm h.1, fun h => hd h.1⟩
  · exact ⟨fun h => hm h.1, fun h => hd h.2⟩

/-- With the lock free, nothing is on its way to the disk. -/
theorem Ledger.Barred.of_free {c : Identity} {m d : Tables}
    (h : (c ∉ m.clients ∧ c ∉ d.clients) ∨ (c ∉ m.psks ∧ c ∉ d.psks) ∨
      (c ∉ m.psks ∧ c ∉ d.clients)) : Ledger.Barred c ⟨m, d, none⟩ where
  notEnrolling f hf := by cases hf
  missing := by
    rcases h with hcl | hps | ⟨hm, hd⟩
    · exact .inl hcl
    · exact .inr (.inl hps)
    · exact .inr (.inr ⟨hm, hd, fun f hf => by cases hf⟩)

/-- What the revocation of another client needs to know before it begins. -/
def Ledger.NoStale (c : Identity) (a : Ledger) (m : Move) : Prop :=
  (∀ call, m = .began call → ¬call.Enrolls c) ∧
    ∀ x, m = .began (.revoke x) → x ≠ c → c ∈ a.mem.clients → c ∉ a.disk.psks

/-- Leaving a call early leaves no more than there was. -/
theorem mem_unwind_psks {call : Call} {t : Tables} {c : Identity} (h : c ∉ t.psks) :
    c ∉ (call.unwind t).psks := by
  cases call with
  | enroll => simp [Call.unwind, h]
  | revoke => exact h

theorem mem_unwind_clients {call : Call} {t : Tables} {c : Identity} (h : c ∉ t.clients) :
    c ∉ (call.unwind t).clients := by
  cases call with
  | enroll => simp [Call.unwind, h]
  | revoke => exact h

theorem Ledger.Barred.unwind {c : Identity} {m d : Tables} {f : Flight}
    (h : Ledger.Barred c ⟨m, d, some f⟩) : Ledger.Barred c ⟨f.call.unwind m, d, none⟩ := by
  refine .of_free ?_
  rcases h.missing with ⟨hm, hd⟩ | ⟨hm, hd⟩ | ⟨hm, hd, -⟩
  · exact .inl ⟨mem_unwind_clients hm, hd⟩
  · exact .inr (.inl ⟨mem_unwind_psks hm, hd⟩)
  · exact .inr (.inr ⟨mem_unwind_psks hm, hd⟩)

/-- The rename keeps the client out. In the third case it brings the PSK file in line
with memory, or writes the client list of the client's own revocation. -/
theorem Ledger.Barred.land {c : Identity} {m d : Tables} {call : Call} {file : File}
    (h : Ledger.Barred c ⟨m, d, some ⟨call, file, false⟩⟩) :
    Ledger.Barred c ⟨m, Flight.land ⟨call, file, false⟩ m d, some ⟨call, file, true⟩⟩ where
  notEnrolling f hf := by
    cases hf
    exact h.notEnrolling ⟨call, file, false⟩ rfl
  missing := by
    rcases h.missing with ⟨hm, hd⟩ | ⟨hm, hd⟩ | ⟨hm, hd, hfl⟩ <;> cases file
    · exact .inl ⟨hm, hd⟩
    · refine .inl ⟨hm, ?_⟩
      cases call with
      | enroll => exact hm
      | revoke x => simpa [Flight.land, Call.listed] using fun _ => hm
    · exact .inr (.inl ⟨hm, hm⟩)
    · exact .inr (.inl ⟨hm, hd⟩)
    · exact .inr (.inl ⟨hm, hm⟩)
    · rcases hfl _ rfl with hcall | ⟨hfile, -⟩
      · cases hcall
        exact .inr (.inr ⟨hm, by simp [Flight.land, Call.listed],
          fun f hf => by cases hf; exact .inl rfl⟩)
      · cases hfile

/-- **One step keeps the client out**, as long as it is not enrolled and its entry is not
written back. -/
theorem Ledger.Step.barred {E : Prop} {c : Identity} {a a' : Ledger} {m : Move}
    (h : Ledger.Step E a m a')
    (hno : a.NoStale c m) (hb : a.Barred c) : a'.Barred c := by
  cases h with
  | tau => exact hb
  | refuse => exact hb
  | @enrollBegin m d client psk provider note now hnew =>
    have hne : c ≠ client := fun he => hno.1 _ rfl he.symm
    refine ⟨fun f hf => by cases hf; exact fun he => hne he.symm, ?_⟩
    rcases hb.missing with ⟨hm, hd⟩ | ⟨hm, hd⟩ | ⟨hm, hd, -⟩
    · exact .inl ⟨by simp [hne, hm], hd⟩
    · exact .inr (.inl ⟨by simp [hne, hm], hd⟩)
    · exact .inr (.inr ⟨by simp [hne, hm], hd, fun f hf => by cases hf; exact .inr ⟨rfl, rfl⟩⟩)
  | @revokeBegin m d x hknown =>
    refine ⟨fun f hf => by cases hf; exact id, ?_⟩
    rcases hb.missing with hcl | hps | ⟨hm, hd, -⟩
    · exact .inl hcl
    · exact .inr (.inl hps)
    · -- the client is out of the store in memory: either nothing will name it, or this
      -- is its own revocation, or its key is gone from the disk too
      by_cases hcm : c ∈ m.clients
      · rcases eq_or_ne x c with rfl | hx
        · exact .inr (.inr ⟨hm, hd, fun f hf => by cases hf; exact .inl rfl⟩)
        · exact .inr (.inl ⟨hm, hno.2 x rfl hx hcm⟩)
      · exact .inl ⟨hcm, hd⟩
  | land => exact hb.land
  | enrollNext =>
    refine ⟨fun f hf => by cases hf; exact hb.notEnrolling ⟨_, .psks, true⟩ rfl, ?_⟩
    rcases hb.missing with hcl | hps | ⟨-, -, hfl⟩
    · exact .inl hcl
    · exact .inr (.inl hps)
    · rcases hfl _ rfl with he | ⟨-, he⟩ <;> cases he
  | revokeNext =>
    refine ⟨fun f hf => by cases hf; exact id, ?_⟩
    rcases hb.missing with hcl | ⟨hm, hd⟩ | ⟨hm, hd, -⟩
    · exact .inl hcl
    · exact .inr (.inl ⟨by simp [hm], hd⟩)
    · exact .inr (.inr ⟨by simp [hm], hd, fun f hf => by cases hf; exact .inr ⟨rfl, rfl⟩⟩)
  | enrollOk =>
    refine .of_free ?_
    rcases hb.missing with hcl | hps | ⟨hm, hd, -⟩
    · exact .inl hcl
    · exact .inr (.inl hps)
    · exact .inr (.inr ⟨hm, hd⟩)
  | revokeOk =>
    refine .of_free ?_
    rcases hb.missing with ⟨hm, hd⟩ | hps | ⟨hm, hd, -⟩
    · exact .inl ⟨by simp [hm], hd⟩
    · exact .inr (.inl hps)
    · exact .inr (.inr ⟨hm, hd⟩)
  | encodeFail => exact hb.unwind
  | fail => exact hb.unwind
  | cancel => exact hb.unwind
  | crash =>
    refine .of_free ?_
    rcases hb.missing with ⟨-, hd⟩ | ⟨-, hd⟩ | ⟨-, hd, -⟩
    · exact .inl ⟨hd, hd⟩
    · exact .inr (.inl ⟨hd, hd⟩)
    · exact .inl ⟨hd, hd⟩

/-- The results of a revocation that has replaced the client list and dropped the key
from memory: success, and a failed PSK write. -/
def TookEffect (result : Except StateMutationError Unit) : Prop :=
  result = .ok () ∨ ∃ source, result = .error (.writePsks source)

/-- A revocation that has come to its PSK write has its client out of the list on
disk. -/
theorem Flight.Written.notMem_disk {c : Identity} {landed : Bool} {m d : Tables}
    (h : Flight.Written ⟨.revoke c, .psks, landed⟩ m d) : c ∉ d.clients := by
  obtain ⟨-, hd, -⟩ := h
  rw [hd]
  simp

/-- Such a return bars the client. -/
theorem Ledger.Step.barred_of_tookEffect {E : Prop} {c : Identity} {a a' : Ledger}
    {result : Except StateMutationError Unit}
    (h : Ledger.Step E a (.returned (.revoke c) result) a')
    (hr : TookEffect result) (hw : a.Written) : a'.Barred c := by
  generalize hm : Move.returned (.revoke c) result = mv at h
  cases h with
  | revokeOk =>
    cases hm
    exact .of_free (.inl ⟨by simp, (hw _ rfl).notMem_disk⟩)
  | @fail m d f source =>
    obtain ⟨call, file, landed⟩ := f
    obtain ⟨rfl, rfl⟩ := Move.returned.inj hm
    -- only a PSK write fails this way
    cases file with
    | psks =>
      have hwf : Flight.Written ⟨.revoke c, .psks, landed⟩ m d := hw _ rfl
      exact .of_free (.inr (.inr ⟨hwf.2.2.1, hwf.notMem_disk⟩))
    | clients => rcases hr with hr | ⟨e, hr⟩ <;> cases hr
  | refuse call he =>
    obtain ⟨rfl, rfl⟩ := Move.returned.inj hm
    rcases hr with hr | ⟨e, hr⟩ <;> cases hr
    cases he
  | _ => cases hm

/-! ### On the machine -/

variable (C : Codecs)

/-- **The step that writes a revoked client back**: the revocation of another client
goes on to its first write while `c` is still in the client table in memory and still
has a key in the PSK file. -/
def StaleRewrite (c : Identity) (s : State) (l : Label) : Prop :=
  match l with
  | (.acquire (.revoke x) _ _, .silent) =>
    x ≠ c ∧ c ∈ s.tables.clients ∧ ∃ psks, loadPskStore C.hex s.disk.psks = .ok psks ∧ c ∈ psks
  | _ => False

/-- `enroll_client(c)` is called. -/
def Label.Reenrols (c : Identity) (l : Label) : Prop :=
  match l.1 with
  | .call call => call.Enrolls c
  | _ => False

instance (c : Identity) : DecidablePred (Label.Reenrols c)
  | (.call call, _) => inferInstanceAs (Decidable (call.Enrolls c))
  | (.acquire .., _) | (.ok _, _) | (.err _, _) | (.cancel, _) | (.abandon _, _) | (.crash, _) =>
    inferInstanceAs (Decidable False)

variable {C} {c : Identity} {s s' t u : State} {l : Label} {ls : List Label}

/-- No enrolment of `c` is queued. -/
def State.Unqueued (c : Identity) (s : State) : Prop := ∀ call ∈ s.waiting, ¬call.Enrolls c

/-- Only a call puts one there. -/
theorem State.Unqueued.step (h : s.Unqueued c) (hstep : Step C s l t) (hen : ¬l.Reenrols c) :
    t.Unqueued c := by
  obtain ⟨e, o⟩ := l
  intro call hmem he
  rcases mem_waiting_of_next hstep hmem with hold | rfl
  · exact h call hold he
  · exact hen he

theorem State.Unqueued.run (h : s.Unqueued c) (hrun : Run C s ls t)
    (hen : ∀ l ∈ ls, ¬l.Reenrols c) : t.Unqueued c :=
  hrun.history_of_forall (P := fun _ u => u.Unqueued c)
    (fun _ _ _ _ hu hl hstep => hu.step hstep hl) hen h

/-- In the middle of a run in which none is called. -/
theorem State.Unqueued.of_getElem? {n : ℕ} (h : s.Unqueued c) (hno : ∀ l ∈ ls, ¬l.Reenrols c)
    (hpre : Run C s (ls.take n) t) (hl : ls[n]? = some l) (hstep : Step C t l u) : u.Unqueued c :=
  (h.run hpre fun k hk => hno k (List.mem_of_mem_take hk)).step hstep
    (hno l (List.mem_of_getElem? hl))

theorem State.Unqueued.noStale {d : Tables} (h : s.Unqueued c) (hstep : Step C s l t)
    (hd : acquire C s.disk = .ok d) (hst : ¬StaleRewrite C c s l) :
    (s.ledger d).NoStale c l.move := by
  constructor
  · intro call hm
    exact h call (hstep.mem_waiting_of_began hm)
  · intro x hm hx hmem hdisk
    obtain ⟨now, order, rfl⟩ := Label.move_eq_began hm
    exact hst ⟨hx, hmem, d.psks, (acquire_eq_ok_iff.mp hd).1, hdisk⟩

/-- **A revocation that took effect is permanent**, through failed writes, dropped
handlers and restarts, if no enrolment of the client is queued when it returns, in every run in
which none is called and no step is a stale rewrite: neither the tables in memory nor the files
authorise the client. -/
theorem not_authorises_of_no_staleRewrite (hC : C.Lawful) (hs : Reachable C s)
    {result : Except StateMutationError Unit} (hstep : Step C s l t)
    (hl : l.2 = .returned (.revoke c) result) (hr : TookEffect result) (hq : t.Unqueued c)
    (hrun : Lts.Run (Lts.restrict (Step C) fun s l => ¬l.Reenrols c ∧ ¬StaleRewrite C c s l)
      t ls u) :
    ¬u.tables.Authorises c ∧ ∃ d, acquire C u.disk = .ok d ∧ ¬d.Authorises c := by
  obtain ⟨d, hy, hw⟩ := hs.synced hC
  obtain ⟨d₁, hled, hy₁⟩ := Step.tracks hstep fun _ => hy.disk
  have hmove : l.move = .returned (.revoke c) result := by rw [Label.move, hl]
  rw [hmove] at hled
  have hb : (t.ledger d₁).Barred c := hled.barred_of_tookEffect hr hw
  obtain ⟨-, d', hy', hb'⟩ := hrun.invariant
    (I := fun s => s.Unqueued c ∧ ∃ d, Synced C s d ∧ (s.ledger d).Barred c)
    (fun s l s' hI hstep => by
      obtain ⟨hq, d, hy, hb⟩ := hI
      obtain ⟨d', hled, hy'⟩ := Step.tracks hstep.1 fun _ => hy.disk
      have hno := hq.noStale hstep.1 hy.disk hstep.2.2
      exact ⟨hq.step hstep.1 hstep.2.1, d', hy' hC hy, hled.barred hno hb⟩)
    ⟨hq, d₁, hy₁ hC hy, hb⟩
  exact ⟨hb'.not_authorises.1, d', hy'.disk, hb'.not_authorises.2⟩

/-- A revocation of `alice`, with `bob` enrolled too, that fails to create the temporary
file of its PSK write. -/
def failedRevocation : List Event :=
  .call (.revoke alice) :: .acquire (.revoke alice) .unixEpoch (plainOrder [alice, bob]) ::
    writeThrough (plainOrder [bob]) ++ [.err 28]

theorem plainBoot_alice_bob_started : Started plainCodecs (plainBoot (plainOrder [alice, bob])) :=
  plainBoot_started (by decide) (by decide)

theorem unqueued_plainBoot (order : Order) : (plainBoot order).Unqueued c :=
  fun _ hmem => absurd hmem List.not_mem_nil

/-- The result of `Symbolon.failedRevocation`. -/
abbrev failedOutput : Output := .returned (.revoke alice) (.error (.writePsks 28))

theorem not_authorises_after_failed_write_and_crash :
    ∃ s t u l, Reachable plainCodecs s ∧ Step plainCodecs s l t ∧ l.2 = failedOutput ∧
      t.Unqueued alice ∧ Step plainCodecs t (.crash, .crashed none) u ∧
      ¬u.tables.Authorises alice := by
  obtain ⟨ls, u, hrun, ho, hno, hcrash⟩ :=
    Lts.exists_run_of_exec (next plainCodecs) (plainBoot (plainOrder [alice, bob]))
      (failedRevocation ++ [.crash])
      (fun _ ls => ls[8]?.map Prod.snd = some failedOutput ∧
        (∀ l ∈ ls, ¬Label.Reenrols alice l) ∧ ls.drop 9 = [(.crash, .crashed none)])
      (by decide +kernel)
  obtain ⟨l, hl, ho⟩ := Option.map_eq_some_iff.mp ho
  obtain ⟨s, t, hpre, hstep, hpost⟩ := hrun.split_at hl
  rw [hcrash] at hpost
  obtain ⟨u', hcr, hu⟩ := Lts.run_cons_iff.mp hpost
  have hs : Reachable plainCodecs s := ⟨_, _, plainBoot_alice_bob_started, hpre⟩
  have hq : t.Unqueued alice := (unqueued_plainBoot _).of_getElem? hno hpre hl hstep
  refine ⟨s, t, u', l, hs, hstep, ho, hq, hcr, ?_⟩
  exact (not_authorises_of_no_staleRewrite plainCodecs_lawful hs hstep ho (.inr ⟨28, rfl⟩) hq
    (.single ⟨hcr, id, id⟩)).1

/-- **A revoked client comes back.** The revocation of `alice` fails in its PSK write.
The revocation of `bob` then replaces the client list, with `alice` in it, and the
process dies. After the restart `alice` is authorised, and nobody has called to enrol it. -/
theorem exists_run_authorises_again :
    ∃ s t u l ls, Reachable plainCodecs s ∧ Step plainCodecs s l t ∧ l.2 = failedOutput ∧
      t.Unqueued alice ∧ Run plainCodecs t ls u ∧ (∀ l ∈ ls, ¬l.Reenrols alice) ∧
      u.tables.Authorises alice := by
  obtain ⟨ls, u, hrun, ho, hno, hauth⟩ :=
    Lts.exists_run_of_exec (next plainCodecs) (plainBoot (plainOrder [alice, bob]))
      (failedRevocation ++
        .call (.revoke bob) :: .acquire (.revoke bob) .unixEpoch (plainOrder [alice, bob]) ::
          writeThrough ⟨[], []⟩ ++ [.crash])
      (fun u ls => ls[8]?.map Prod.snd = some failedOutput ∧
        (∀ l ∈ ls, ¬Label.Reenrols alice l) ∧ u.tables.Authorises alice)
      (by decide +kernel)
  obtain ⟨l, hl, ho⟩ := Option.map_eq_some_iff.mp ho
  obtain ⟨s, t, hpre, hstep, hpost⟩ := hrun.split_at hl
  have hq : t.Unqueued alice := (unqueued_plainBoot _).of_getElem? hno hpre hl hstep
  exact ⟨s, t, u, l, _, ⟨_, _, plainBoot_alice_bob_started, hpre⟩, hstep, ho, hq, hpost,
    fun k hk => hno k (List.mem_of_mem_drop hk), hauth⟩

end Symbolon
