import Symbolon.Daemon.Mint
import Symbolon.State.Durability

/-!
# Mints after a revocation

The tables are consulted once per connection, when the session asks for the key; the
mint comes several `await`s later. So a connection that was authorised before a
revocation mints after it, although `revoke_client` has returned `Ok`
(`Symbolon.exists_mint_after_revoke`).

That is the only way, together with an enrolment of the same client that was already
queued on the lock: when the revocation returns and neither is there
(`Symbolon.Quiesced`), nothing is minted for the client until it is enrolled again
(`Symbolon.no_mint_after_revoke`). The reason is that its entry is settled at nothing
(`Symbolon.Ledger.Settled`), so no connection can be named after it any more.
-/

namespace Symbolon

open Text

variable {S : Snow} {cfg : Setup} {d d₀ d₁ d₂ d₃ d' : Daemon S} {l k : DaemonLabel S}
  {ls past pre : List (DaemonLabel S)} {c : Identity} {C : Codecs} {s s' : State} {o : Output}

/-- A provider's `mint` is called on behalf of `c`: by a connection that goes by its name,
or by the admin operation. -/
def MintsFor (c : Identity) (d : Daemon S) (l : DaemonLabel S) : Prop :=
  (∃ i conn provider path, d.conns[i]? = some conn ∧ conn.clientName = some c.str ∧
    .mint provider path ∈ l.acts i) ∨
  ∃ path provider, l.2 = .adminMint c path (.ok provider)

/-- `revoke_client(c)` returns `Ok`. -/
def ReturnsRevoked (c : Identity) (l : DaemonLabel S) : Prop :=
  ∃ e, l.state = some (e, .returned (.revoke c) (.ok ()))

/-- `enroll_client(c)` is called. -/
def CallsEnroll (c : Identity) (l : DaemonLabel S) : Prop :=
  ∃ psk provider note, l.1 = .admin (.call (.enroll c psk provider note))

/-- **Nothing is left over for `c`**: every connection that goes by its name is closed or
has minted, and no enrolment of it is queued. -/
structure Quiesced (c : Identity) (past : List (DaemonLabel S)) (d : Daemon S) : Prop where
  /-- Every connection of `c` is closed or has minted. -/
  conns : ∀ i conn, d.conns[i]? = some conn → conn.clientName = some c.str →
    conn.pc = .closed ∨ mints (actsOf i past) ≠ []
  /-- No enrolment of `c` is queued. -/
  queue : ∀ call ∈ d.state.waiting, call = .revoke call.client ∨ call.client ≠ c

/-! ### Who gets past the check -/

/-- While `c` is not enrolled and no enrolment of it is queued, no call on it gets past its
check. -/
theorem client_ne_of_began {call : Call} {l : Label} (hstep : Step C s l s')
    (hclient : c ∉ s.tables.clients)
    (hqueue : ∀ call ∈ s.waiting, call = .revoke call.client ∨ call.client ≠ c)
    (hm : l.move = .began call) : call.client ≠ c := by
  have hmem := Step.mem_waiting_of_began hstep hm
  obtain ⟨now, order, rfl⟩ := Label.move_eq_began hm
  intro hc
  change next C s (.acquire call now order) = some (s', .silent) at hstep
  simp only [next] at hstep
  split at hstep
  · obtain hrev | hne := hqueue call hmem
    · rw [hrev, hc] at hstep
      simp only [start, if_pos hclient] at hstep
      cases hstep
    · exact hne hc
  · cases hstep

/-! ### After the revocation -/

/-- What holds from the return of the revocation on. -/
structure Shut (cfg : Setup) (c : Identity) (past : List (DaemonLabel S)) (d : Daemon S) : Prop
    extends Quiesced c past d where
  /-- The entry of `c` is settled at nothing, in memory and on disk. -/
  settled : ∃ disk, Synced cfg.codecs d.state disk ∧
    (d.state.ledger disk).Settled c (none, none)

theorem Shut.not_mem (h : Shut cfg c past d) : c ∉ d.state.tables.clients := by
  obtain ⟨disk, -, hset⟩ := h.settled
  exact Finmap.lookup_eq_none.mp (congrArg Prod.snd hset.mem)

/-- A step of the mutation machine keeps the entry settled and the queue clear. -/
theorem Shut.state_step {e : Event} (hC : cfg.codecs.Lawful) (h : Shut cfg c past d)
    (hn : next cfg.codecs d.state e = some (s', o))
    (hcall : ∀ psk provider note, e ≠ .call (.enroll c psk provider note)) :
    (∀ call ∈ s'.waiting, call = .revoke call.client ∨ call.client ≠ c) ∧
      ∃ disk, Synced cfg.codecs s' disk ∧ (s'.ledger disk).Settled c (none, none) := by
  constructor
  · intro call hmem
    rcases mem_waiting_of_next hn hmem with hold | rfl
    · exact h.queue call hold
    · cases call with
      | enroll client psk provider note =>
        refine .inr fun hc => hcall psk provider note ?_
        rw [← hc]
        rfl
      | revoke client => exact .inl rfl
  · obtain ⟨disk, hy, hset⟩ := h.settled
    have hstep : Step cfg.codecs d.state (e, o) s' := hn
    obtain ⟨disk', hled, hy'⟩ := Step.tracks hstep fun _ => hy.disk
    exact ⟨disk', hy' hC hy,
      hled.settled (fun call hm => client_ne_of_began hstep h.not_mem h.queue hm) hset⟩

/-- **One step keeps it so**, unless it is a call to enrol `c`. -/
theorem Shut.step (hC : cfg.codecs.Lawful) (h : Shut cfg c past d) (hstep : Daemon.Step cfg d l d')
    (hcall : ¬CallsEnroll c l) : Shut cfg c (past ++ [l]) d' := by
  -- what has minted has minted
  have hmints : ∀ i, mints (actsOf i past) ≠ [] → mints (actsOf i (past ++ [l])) ≠ [] := by
    intro i hne hnil
    rw [actsOf_snoc, mints, List.filterMap_append] at hnil
    exact hne (List.append_eq_nil_iff.mp hnil).1
  have hconns := h.conns
  cases hstep.moves with
  | admin hn he =>
    obtain ⟨hqueue, hset⟩ := h.state_step hC hn fun psk provider note heq =>
      hcall ⟨psk, provider, note, congrArg DaemonEvent.admin heq⟩
    exact ⟨⟨fun i conn hi hname => (hconns i conn hi hname).imp id (hmints i), hqueue⟩, hset⟩
  | adminMint =>
    exact ⟨⟨fun i conn hi hname => (hconns i conn hi hname).imp id (hmints i), h.queue⟩, h.settled⟩
  | accept =>
    refine ⟨⟨fun i conn hi hname => ?_, h.queue⟩, h.settled⟩
    rcases Nat.lt_or_ge i d.conns.length with hlt | hge
    · rw [List.getElem?_append_left hlt] at hi
      exact (hconns i conn hi hname).imp id (hmints i)
    · rw [List.getElem?_append_right hge, List.getElem?_singleton] at hi
      split at hi
      · -- a connection that was just accepted has no name
        cases hi
        unfold Conn.accept at hname
        split at hname <;> cases hname
      · cases hi
  | @conn j e conn₀ conn' limiter acts running hj hn =>
    refine ⟨⟨fun i conn hi hname => ?_, h.queue⟩, h.settled⟩
    by_cases hij : j = i
    · subst hij
      rw [List.getElem?_set_self (List.getElem?_eq_some_iff.mp hj).1] at hi
      cases hi
      obtain hcl | hsame | ⟨identity, hmem, hid⟩ := next_clientName hn
      · exact .inl hcl
      · obtain hcl | hne := hconns j conn₀ hj (hsame ▸ hname)
        · rw [next_closed hcl] at hn
          cases hn
        · exact .inr (hmints j hne)
      · cases Identity.str_injective (Option.some.inj (hid.symm.trans hname))
        exact absurd hmem h.not_mem
    · rw [List.getElem?_set_ne hij] at hi
      exact (hconns i conn hi hname).imp id (hmints i)
  | crash hn =>
    obtain ⟨hqueue, hset⟩ := h.state_step hC hn fun psk provider note heq => by cases heq
    refine ⟨⟨fun i conn hi _ => ?_, hqueue⟩, hset⟩
    rw [List.getElem?_map] at hi
    obtain ⟨conn₀, -, rfl⟩ := Option.map_eq_some_iff.mp hi
    exact .inl rfl

/-- **No mint for a revoked client.** When `revoke_client(c)` returns `Ok` and nothing is
left over for `c`, then from that moment on, whatever the connections and the admin calls
do and however often the process dies, no step calls a provider's `mint` on behalf of `c`,
as long as `enroll_client(c)` is not called. -/
theorem no_mint_after_revoke (hC : cfg.codecs.Lawful) (h₀ : Daemon.Started cfg d₀)
    (hrun : Daemon.Run cfg d₀ (pre ++ [l]) d₁) (hrev : ReturnsRevoked c l)
    (hq : Quiesced c (pre ++ [l]) d₁) (hrun' : Daemon.Run cfg d₁ ls d₂)
    (hno : ∀ k ∈ ls, ¬CallsEnroll c k) (hstep : Daemon.Step cfg d₂ k d₃) : ¬MintsFor c d₂ k := by
  have hshut : Shut cfg c (pre ++ [l]) d₁ := by
    obtain ⟨e, hl⟩ := hrev
    have hstate := Daemon.Run.state hrun
    rw [List.filterMap_append, List.filterMap_cons_some hl, List.filterMap_nil] at hstate
    obtain ⟨s, hpre, hlast⟩ := Lts.run_append_iff.mp hstate
    obtain ⟨-, hy, hdone, hset⟩ := settled_of_ok hC ⟨_, _, h₀.1, hpre⟩
      (Lts.run_singleton_iff.mp hlast) rfl
    exact ⟨hq, _, hy, hdone ▸ hset⟩
  have hshut' : Shut cfg c ((pre ++ [l]) ++ ls) d₂ :=
    hrun'.history_of_forall_from (fun past d e t hp hne hs => hp.step hC hs hne) hno hshut
  rintro (⟨i, conn, provider, path, hi, hname, hm⟩ | ⟨path, provider, hmint⟩)
  · have hmint := mem_mints_of_mem hm
    obtain ⟨conn₀, conn', e, limiter, hi₀, hi', hn⟩ :=
      hstep.conn_of_acts (.inr (List.ne_nil_of_mem hmint))
    cases hi.symm.trans hi₀
    obtain hcl | hne := hshut'.conns i conn hi hname
    · rw [next_closed hcl] at hn
      cases hn
    · -- a second mint on the same connection
      have hs := (Daemon.Run.staged h₀ ((hrun.append hrun').snoc hstep)).stage i conn' hi'
      have hle := hs.summary.length_mints_le
      rw [actsOf_snoc, mints, List.filterMap_append, List.length_append] at hle
      have h₁ := List.length_pos_iff.mpr hne
      have h₂ := List.length_pos_of_mem hmint
      unfold mints at h₁ h₂
      omega
  · cases hstep.moves with
    | adminMint kind client path' =>
      obtain ⟨rfl, -, hres⟩ := DaemonOutput.adminMint.inj hmint
      rw [Setup.handleMint, if_pos hshut'.not_mem] at hres
      cases hres
    | _ => cases hmint

/-! ### `alice` is revoked -/

/-- `alice` is revoked, and both writes go through. -/
def revokeAlice : List (DaemonEvent S) :=
  (.call (.revoke alice) :: .acquire (.revoke alice) .unixEpoch (plainOrder [alice]) ::
    writeThrough ⟨[], []⟩ ++ writeThrough ⟨[], []⟩).map .admin

/-- Not an admin call. -/
def DaemonLabel.isWire (l : DaemonLabel S) : Bool :=
  match l.1 with
  | .accept | .conn .. => true
  | _ => false

theorem not_callsEnroll_of_isWire (h : l.isWire = true) : ¬CallsEnroll c l := by
  obtain ⟨e, o⟩ := l
  rintro ⟨psk, provider, note, rfl⟩
  cases h

/-- `alice` is revoked and comes back: the daemon goes through the handshake with another
key, and does not mint. -/
theorem no_mint_after_revoke_alice :
    ∃ (pre ls : List (DaemonLabel (noise plainPrimitives))) (l k : _) (d₁ d₂ d₃ : _),
      Daemon.Run plainSetup plainDaemon (pre ++ [l]) d₁ ∧ ReturnsRevoked alice l ∧
      Daemon.Run plainSetup d₁ ls d₂ ∧ Daemon.Step plainSetup d₂ k d₃ ∧ ¬MintsFor alice d₂ k := by
  obtain ⟨ls₁, d₁, hrun, ⟨ho, hnil, hconns, hwait⟩, hrest⟩ :=
    Lts.exists_run_of_exec (Daemon.next plainSetup) plainDaemon revokeAlice
      (fun u ls => ((ls[13]?.bind DaemonLabel.state).map Prod.snd =
          some (.returned (.revoke alice) (.ok ())) ∧ ls.drop 14 = [] ∧ u.conns.length = 0 ∧
          u.state.waiting = []) ∧
        ((Lts.exec (Daemon.next plainSetup) u
          (plainHandshake ++ (arrive 0 plainAsk).take 2)).any fun r =>
            r.2.all DaemonLabel.isWire &&
              (Daemon.next plainSetup r.1 (.conn 0 (.read plainAsk))).isSome) = true)
      (by decide +kernel)
  obtain ⟨⟨d₂, ls₂⟩, hexec, hlast⟩ := (Option.any_eq_true _ _).mp hrest
  obtain ⟨hwire, hsome⟩ := Bool.and_eq_true_iff.mp hlast
  obtain ⟨⟨d₃, o⟩, hstep⟩ := Option.isSome_iff_exists.mp hsome
  obtain ⟨⟨e, out⟩, hl, ho⟩ := Option.map_eq_some_iff.mp ho
  obtain ⟨l, hl, hstate⟩ := Option.bind_eq_some_iff.mp hl
  obtain ⟨s, t, hpre, hstep₁, hpost⟩ := hrun.split_at hl
  rw [hnil, Lts.run_nil_iff] at hpost
  cases hpost
  cases ho
  have hq : Quiesced alice (ls₁.take 13 ++ [l]) d₁ := by
    refine ⟨fun i conn hi _ => ?_, fun call hcall => ?_⟩
    · rw [List.length_eq_zero_iff.mp hconns] at hi
      cases hi
    · rw [hwait] at hcall
      cases hcall
  refine ⟨_, ls₂, l, (.conn 0 (.read plainAsk), o), d₁, d₂, d₃, hpre.snoc hstep₁, ⟨e, hstate⟩,
    Lts.run_of_exec hexec, hstep, ?_⟩
  exact no_mint_after_revoke plainCodecs_lawful plainDaemon_started (hpre.snoc hstep₁)
    ⟨e, hstate⟩ hq
    (Lts.run_of_exec hexec) (fun k hk => not_callsEnroll_of_isWire (List.all_eq_true.mp hwire k hk))
    hstep

/-- **A revoked client is still minted for.** `alice` completes the handshake, is revoked,
and the revocation returns `Ok`; then the request arrives on the same connection, and the
provider is called. -/
theorem exists_mint_after_revoke :
    ∃ (pre ls : List (DaemonLabel (noise plainPrimitives))) (l k : _) (d₁ d₂ d₃ : _),
      Daemon.Started plainSetup plainDaemon ∧
      Daemon.Run plainSetup plainDaemon (pre ++ [l]) d₁ ∧ ReturnsRevoked alice l ∧
      Daemon.Run plainSetup d₁ ls d₂ ∧ (∀ k ∈ ls, ¬CallsEnroll alice k) ∧
      Daemon.Step plainSetup d₂ k d₃ ∧ MintsFor alice d₂ k := by
  obtain ⟨ls, d₂, hrun, ho, hwire, hname, hmint⟩ :=
    Lts.exists_run_of_exec (Daemon.next plainSetup) plainDaemon
      (plainHandshake ++ revokeAlice ++ (arrive 0 plainAsk).take 3)
      (fun u ls => (ls[22]?.bind DaemonLabel.state).map Prod.snd =
          some (.returned (.revoke alice) (.ok ())) ∧ (ls.drop 23).all DaemonLabel.isWire = true ∧
        u.conns[0]?.map Conn.clientName = some (some alice.str) ∧
        (Daemon.next plainSetup u (plainTurn 0)).map Prod.snd =
          some (.conn 0 [.mint ⟨.github, ascii "github.com"⟩ (ascii "o/r")]))
      (by decide +kernel)
  obtain ⟨⟨e, out⟩, hl, ho⟩ := Option.map_eq_some_iff.mp ho
  obtain ⟨l, hl, hstate⟩ := Option.bind_eq_some_iff.mp hl
  obtain ⟨s, d₁, hpre, hstep₁, hpost⟩ := hrun.split_at hl
  obtain ⟨conn, hconn, hname⟩ := Option.map_eq_some_iff.mp hname
  obtain ⟨⟨d₃, o⟩, hstep, hout⟩ := Option.map_eq_some_iff.mp hmint
  cases ho
  refine ⟨_, _, l, (plainTurn 0, o), d₁, d₂, d₃, plainDaemon_started, hpre.snoc hstep₁,
    ⟨e, hstate⟩, hpost,
    fun k hk => not_callsEnroll_of_isWire (List.all_eq_true.mp hwire k hk), hstep, ?_⟩
  refine .inl ⟨0, conn, ⟨.github, ascii "github.com"⟩, ascii "o/r", hconn, hname, ?_⟩
  cases hout
  exact List.mem_singleton_self _

end Symbolon
