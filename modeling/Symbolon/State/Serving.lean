import Symbolon.State.Durability

/-!
# Serving one call

A call is queued, gets the lock, writes its two files and returns. While it is being served
nothing else is seen of the machine (`Symbolon.Returns`): other calls may be queued, and dropped
from the queue, but none of them gets the lock, because the lock is released by what is seen.

So serving a call touches its own client only, in memory and on disk
(`Symbolon.Returns.untouched`). A call that is not refused and whose writes succeed returns `Ok`
(`Symbolon.Returns.eq_ok`), and every such call can be served to its end
(`Symbolon.servable_of_not_refused`).
-/

namespace Symbolon

variable {E : Prop} {a a' : Ledger} {f : Flight} {call : Call}
  {result : Except StateMutationError Unit}

/-! ### On the ledger -/

/-- A silent step leaves the lock with the call that has it. -/
theorem Ledger.Step.call_of_tau (h : Ledger.Step E a .tau a') (hf : a.flight = some f) :
    ∃ f', a'.flight = some f' ∧ f'.call = f.call := by
  cases h with
  | tau => exact ⟨f, hf, rfl⟩
  | land | enrollNext | revokeNext =>
    cases hf
    exact ⟨_, rfl, rfl⟩

theorem Ledger.Step.call_of_began (h : Ledger.Step E a (.began call) a') :
    ∃ f, a'.flight = some f ∧ f.call = call := by
  cases h with
  | enrollBegin | revokeBegin => exact ⟨_, rfl, rfl⟩

/-- Only the call that has the lock returns. -/
theorem Ledger.Step.call_of_returned (h : Ledger.Step E a (.returned call result) a')
    (hf : a.flight = some f) : f.call = call := by
  cases h with
  | refuse => cases hf
  | enrollOk | revokeOk | encodeFail | fail =>
    cases hf
    rfl

/-! ### On the machine -/

/-- **A call is served**: it returns, and nothing is seen before that. -/
inductive Returns (call : Call) (result : Except StateMutationError Unit) : List Label → Prop
  /-- It returns. -/
  | last {l : Label} (hl : l.2 = .returned call result) : Returns call result [l]
  /-- Nothing is seen. -/
  | cons {l : Label} {ls : List Label} (hl : l.2 = .silent) (hr : Returns call result ls) :
      Returns call result (l :: ls)

variable {C : Codecs} {s t u : State} {d : Tables} {l : Label} {ls pre post : List Label}
  {x : Identity}

theorem Returns.isCrash_eq_false (hr : Returns call result ls) : ∀ l ∈ ls, l.isCrash = false := by
  induction hr with
  | last hl => exact List.forall_mem_singleton.mpr (Label.isCrash_eq_false fun c => by simp [hl])
  | cons hl _ ih =>
    exact List.forall_mem_cons.mpr ⟨Label.isCrash_eq_false fun c => by simp [hl], ih⟩

/-- The call that has the lock is the one that returns. -/
theorem Returns.call_eq (hr : Returns call result ls) (hrun : Run C s ls u)
    (hf : (s.ledger d).flight = some f) : f.call = call := by
  induction hr generalizing s d f with
  | @last l hl =>
    obtain ⟨d', hled⟩ := (Lts.run_singleton_iff.mp hrun).tracks_of_not_crash
      (Label.isCrash_eq_false fun c => by simp [hl]) d
    rw [Label.move, hl] at hled
    exact hled.call_of_returned hf
  | cons hl _ ih =>
    obtain ⟨t, hstep, hrest⟩ := Lts.run_cons_iff.mp hrun
    obtain ⟨d', hled⟩ := hstep.tracks_of_silent hl d
    rw [hled.move_eq_tau hf hl] at hled
    obtain ⟨f', hf', hcall⟩ := hled.call_of_tau hf
    exact hcall ▸ ih hrest hf'

/-- And no other gets it. -/
theorem Returns.client_eq (hr : Returns call result ls) (hrun : Run C s ls u) :
    ∀ l ∈ ls, l.Begins x → x = call.client := by
  induction hr generalizing s with
  | @last l hl =>
    obtain ⟨e, o⟩ := l
    simp only [List.mem_singleton, forall_eq]
    cases hl
    intro hb
    cases e <;> cases hb
  | @cons l ls hl hr ih =>
    obtain ⟨t, hstep, hrest⟩ := Lts.run_cons_iff.mp hrun
    refine List.forall_mem_cons.mpr ⟨fun hb => ?_, ih hrest⟩
    obtain ⟨d', hled⟩ := hstep.tracks_of_silent hl s.tables
    obtain ⟨e, o⟩ := l
    cases hl
    cases e with
    | acquire c now order =>
      have hbegan : Ledger.Step C.Lawful _ (.began c) _ := hled
      obtain ⟨f, hf, hc⟩ := hbegan.call_of_began
      rw [← hr.call_eq hrest hf, hc]
      exact Eq.symm hb
    | _ => cases hb

/-- The entry of a client stays in memory through a run without a crash in which no call on it
gets past its check. -/
theorem entry_of_run (hrun : Run C s ls u) (hcrash : ∀ l ∈ ls, l.isCrash = false)
    (hs : (s.ledger d).Settled x (s.tables.entry x)) (hno : ∀ l ∈ ls, ¬l.Begins x) :
    u.tables.entry x = s.tables.entry x := by
  have hkeep : ∀ l ∈ ls, ∀ a a', Ledger.Step C.Lawful a l.move a' →
      a.Settled x (s.tables.entry x) → a'.Settled x (s.tables.entry x) := by
    intro l hl a a' hled ha
    exact hled.settled (fun call hm => client_ne_of_not_begins (hno l hl) hm) ha
  obtain ⟨d', h⟩ := hrun.ledger_of_not_crash hcrash hkeep hs
  exact h.mem

/-- **Nothing of a client has been touched**: its entry in memory is the one it was, and the
files still have it if they had it. -/
def Untouched (C : Codecs) (s t : State) (x : Identity) : Prop :=
  t.tables.entry x = s.tables.entry x ∧
    ∀ d, acquire C s.disk = .ok d → d.entry x = s.tables.entry x →
      ∃ d', acquire C t.disk = .ok d' ∧ d'.entry x = s.tables.entry x

theorem Untouched.trans (h : Untouched C s t x) (h' : Untouched C t u x) : Untouched C s u x := by
  refine ⟨h'.1.trans h.1, fun d hd hentry => ?_⟩
  obtain ⟨d₁, hd₁, hentry₁⟩ := h.2 d hd hentry
  obtain ⟨d₂, hd₂, hentry₂⟩ := h'.2 d₁ hd₁ (hentry₁.trans h.1.symm)
  exact ⟨d₂, hd₂, hentry₂.trans h.1⟩

/-- Serving a call touches no other client, at any moment. -/
theorem Returns.untouched (hC : C.Lawful) (hs : Reachable C s) (hr : Returns call result ls)
    (hrun : Run C s ls u) (hls : ls = pre ++ post) (hpre : Run C s pre t)
    (hx : x ≠ call.client) : Untouched C s t x := by
  have hmem : ∀ l ∈ pre, l ∈ ls := fun l hl => by
    rw [hls]
    exact List.mem_append_left _ hl
  have hno : ∀ l ∈ pre, ¬l.Begins x := fun l hl hb => hx (hr.client_eq hrun l (hmem l hl) hb)
  have hflight : ∀ d f, (s.ledger d).flight = some f → f.call.client ≠ x := fun d f hf => by
    rw [hr.call_eq hrun hf]
    exact hx.symm
  refine ⟨?_, fun d hd hentry => ?_⟩
  · exact entry_of_run (d := s.tables) hpre
      (fun l hl => hr.isCrash_eq_false l (hmem l hl)) ⟨rfl, rfl, hflight _⟩ hno
  · obtain ⟨d₀, hy, -⟩ := hs.synced hC
    cases hd.symm.trans hy.disk
    obtain ⟨d', hy', hset⟩ := settled_of_run hC hpre hy ⟨rfl, hentry, hflight _⟩ hno
    exact ⟨d', hy'.disk, hset.disk⟩

theorem Reachable.run (hs : Reachable C s) (hrun : Run C s ls u) : Reachable C u := by
  obtain ⟨s₀, past, hs₀, hpast⟩ := hs
  exact ⟨s₀, past ++ ls, hs₀, hpast.append hrun⟩

/-- What an acknowledged call leaves. -/
theorem Returns.done (hC : C.Lawful) (hs : Reachable C s) (hr : Returns call (.ok ()) ls)
    (hrun : Run C s ls u) :
    u.holder = none ∧ acquire C u.disk = .ok u.tables ∧ call.Done (u.tables.entry call.client) := by
  induction hr generalizing s with
  | last hl =>
    obtain ⟨hfree, hy, hdone, -⟩ := settled_of_ok hC hs (Lts.run_singleton_iff.mp hrun) hl
    exact ⟨hfree, hy.disk, hdone⟩
  | cons _ _ ih =>
    obtain ⟨t, hstep, hrest⟩ := Lts.run_cons_iff.mp hrun
    exact ih (hs.run (.single hstep)) hrest

/-! ### Calls that go through -/

/-- The check at the beginning of a call turns it away. -/
def Call.Refused (t : Tables) : Call → Prop
  | .enroll client .. => client ∈ t.clients
  | .revoke client => client ∉ t.clients

/-- No operation on a file fails. -/
def WritesSucceed (ls : List Label) : Prop := ∀ l ∈ ls, ∀ source, l.1 ≠ .err source

/-- A state in which nothing stands in the way of a call: it has passed its check or will, and
no write has failed. -/
structure Going (call : Call) (s : State) : Prop where
  /-- The check. -/
  admitted : s.holder = none → ¬call.Refused s.tables
  /-- The writes. -/
  unbroken : ∀ h, s.holder = some h → ∀ source, h.stage ≠ .removeFile source

theorem Going.beginWrite {c : Call} {file : File} {content : Text.Bytes} {m : Tables} :
    Going call (s.beginWrite m c file content).1 :=
  ⟨fun h => (by cases h), fun h hh source => by cases hh; exact WriteStage.noConfusion⟩

theorem Going.atStage {h : Holder} {stage : WriteStage}
    (hstage : ∀ source, stage ≠ .removeFile source) : Going call (s.atStage h stage).1 :=
  ⟨fun h => (by cases h), fun h hh => by cases hh; exact hstage⟩

/-- What a step makes of such a state: another one if nothing is seen, and `Ok` if the call
returns. -/
def Goes (call : Call) (p : State × Output) : Prop :=
  (p.2 = .silent → Going call p.1) ∧ ∀ result, p.2 = .returned call result → result = .ok ()

theorem Goes.of_going {p : State × Output} (hp : p.2 = .silent) (h : Going call p.1) :
    Goes call p :=
  ⟨fun _ => h, fun _ hr => by rw [hp] at hr; cases hr⟩

theorem start_goes (hC : C.Lawful) {c : Call} {now : OffsetDateTime} {order : Order}
    {p : State × Output} (hadm : ¬call.Refused s.tables) (h : start C s c now order = some p) :
    Goes call p := by
  -- a refusal of this call is excluded; one of another call is none of its business
  have hrefuse : ∀ e, (c = call → False) → Goes call (s.finish s.tables c (.error e)) :=
    fun e hne => ⟨fun ho => (by cases ho), fun r hr => by cases hr; exact (hne rfl).elim⟩
  cases c with
  | enroll client psk provider note =>
    simp only [start] at h
    split at h
    · rename_i hmem
      cases h
      exact hrefuse _ (by rintro rfl; exact hadm hmem)
    · split at h
      · cases h
        exact .of_going rfl .beginWrite
      · cases h
  | revoke client =>
    simp only [start] at h
    split at h
    · rename_i hmem
      cases h
      exact hrefuse _ (by rintro rfl; exact hadm hmem)
    · split at h
      · rename_i ho
        split at h
        · rename_i source hr
          exact absurd hC (not_lawful_of_render ho hr)
        · cases h
          exact .of_going rfl .beginWrite
      · cases h

theorem written_goes (hC : C.Lawful) {h : Holder} {order : Order} {p : State × Output}
    (hw : written C s h order = some p) : Goes call p := by
  have hok : ∀ t c, Goes call (s.finish t c (.ok ())) :=
    fun t c => ⟨fun ho => (by cases ho), fun r hr => by cases hr; rfl⟩
  obtain ⟨c, file, stage, content⟩ := h
  cases c <;> cases file <;> simp only [written] at hw
  · split at hw
    · rename_i ho
      split at hw
      · rename_i source hr
        exact absurd hC (not_lawful_of_render ho hr)
      · cases hw
        exact .of_going rfl .beginWrite
    · cases hw
  · cases hw
    exact hok _ _
  · cases hw
    exact hok _ _
  · split at hw
    · cases hw
      exact .of_going rfl .beginWrite
    · cases hw

theorem ioOk_goes (hC : C.Lawful) {h : Holder} {order : Order} {p : State × Output}
    (hstage : ∀ source, h.stage ≠ .removeFile source) (hi : ioOk C s h order = some p) :
    Goes call p := by
  rcases hs : h.stage with _ | _ | _ | _ | source | _ | _ <;>
    simp only [ioOk, hs, WriteStage.succeed, reduceCtorEq, if_true, if_false] at hi
  case removeFile => exact absurd hs (hstage source)
  case syncDir => exact written_goes hC hi
  all_goals
    cases hi
    exact .of_going rfl (.atStage fun _ => WriteStage.noConfusion)

/-- **One step of a call that goes through.** -/
theorem Step.goes (hC : C.Lawful) (h : Step C s l u) (hg : Going call s)
    (herr : ∀ source, l.1 ≠ .err source) : Goes call (u, l.2) := by
  obtain ⟨e, o⟩ := l
  change next C s e = some (u, o) at h
  cases e with
  | call c =>
    cases h
    exact .of_going rfl ⟨hg.admitted, hg.unbroken⟩
  | acquire c now order =>
    simp only [next] at h
    split at h
    · rename_i hfree
      exact start_goes (s := { s with waiting := s.waiting.erase c }) hC (hg.admitted hfree.1) h
    · cases h
  | ok order =>
    simp only [next] at h
    split at h
    · cases h
    · rename_i hd hh
      exact ioOk_goes hC (hg.unbroken hd hh) h
  | err source => exact absurd rfl (herr source)
  | cancel =>
    simp only [next] at h
    split at h <;> cases h
    exact ⟨fun ho => (by cases ho), fun r hr => by cases hr⟩
  | abandon c =>
    simp only [next] at h
    split at h <;> cases h
    exact .of_going rfl ⟨hg.admitted, hg.unbroken⟩
  | crash =>
    simp only [next] at h
    split at h <;> cases h
    exact ⟨fun ho => (by cases ho), fun r hr => by cases hr⟩

/-- **A call that is not refused and whose writes succeed returns `Ok`.** -/
theorem Returns.eq_ok (hC : C.Lawful) (hr : Returns call result ls) (hrun : Run C s ls u)
    (hg : Going call s) (hok : WritesSucceed ls) : result = .ok () := by
  induction hr generalizing s with
  | @last l hl =>
    exact ((Lts.run_singleton_iff.mp hrun).goes hC hg (hok l List.mem_cons_self)).2 _ hl
  | @cons l ls hl _ ih =>
    obtain ⟨t, hstep, hrest⟩ := Lts.run_cons_iff.mp hrun
    exact ih hrest ((hstep.goes hC hg (hok l List.mem_cons_self)).1 hl)
      fun k hk => hok k (List.mem_cons_of_mem _ hk)

/-! ### Serving a call to its end -/

/-- What is left of a run that serves a call. -/
def Servable (C : Codecs) (call : Call) (s : State) : Prop :=
  ∃ ls u, Run C s ls u ∧ Returns call (.ok ()) ls ∧ WritesSucceed ls

theorem Servable.cons {e : Event} (h : next C s e = some (t, .silent))
    (he : ∀ source, e ≠ .err source) (hs : Servable C call t) : Servable C call s := by
  obtain ⟨ls, u, hrun, hr, hok⟩ := hs
  exact ⟨(e, .silent) :: ls, u, .cons h hrun, .cons rfl hr, List.forall_mem_cons.mpr ⟨he, hok⟩⟩

theorem Servable.last {e : Event} (h : next C s e = some (t, .returned call (.ok ())))
    (he : ∀ source, e ≠ .err source) : Servable C call s :=
  ⟨[(e, _)], t, .single h, .last rfl, List.forall_mem_singleton.mpr he⟩

/-- A write whose operations succeed comes to its end. -/
theorem servable_of_written {m : Tables} {disk : Disk} {waiting : List Call} {file : File}
    {content : Text.Bytes}
    (hw : ∀ disk, ∃ order p, written C ⟨m, disk, some ⟨call, file, .syncDir, content⟩, waiting⟩
        ⟨call, file, .syncDir, content⟩ order = some p ∧
      (p.2 = .returned call (.ok ()) ∨ p.2 = .silent ∧ Servable C call p.1)) :
    Servable C call ⟨m, disk, some ⟨call, file, .open, content⟩, waiting⟩ := by
  have hok : ∀ order source, Event.ok order ≠ .err source := fun _ _ => Event.noConfusion
  have hio : ∀ {s t : State}, next C s (.ok ⟨[], []⟩) = some (t, .silent) →
      Servable C call t → Servable C call s := fun h => .cons h (hok _)
  refine hio rfl (hio rfl (hio rfl (hio rfl (hio rfl ?_))))
  obtain ⟨order, ⟨t, o⟩, hwritten, rfl | ⟨rfl, ht⟩⟩ := hw _
  · exact .last (e := .ok order) hwritten (hok _)
  · exact .cons (e := .ok order) hwritten (hok _) ht

/-- A queued call gets the lock. -/
theorem servable_of_start {m : Tables} {disk : Disk} {waiting : List Call} (now : OffsetDateTime)
    (order : Order) (hmem : call ∈ waiting)
    (hstart : start C ⟨m, disk, none, waiting.erase call⟩ call now order = some (t, .silent))
    (ht : Servable C call t) : Servable C call ⟨m, disk, none, waiting⟩ :=
  .cons (e := .acquire call now order) (by simp [next, hmem, hstart])
    (fun _ => Event.noConfusion) ht

/-- **Every call that is not refused can be served**, as soon as the lock is free. -/
theorem servable_of_not_refused (hC : C.Lawful) (hfree : s.holder = none)
    (hadm : ¬call.Refused s.tables) : Servable C call s := by
  obtain ⟨m, disk, holder, waiting⟩ := s
  cases hfree
  refine .cons (e := .call call) rfl (fun _ => Event.noConfusion) ?_
  have hqueued : call ∈ waiting ++ [call] := List.mem_append_right _ (List.mem_singleton_self _)
  cases call with
  | enroll client psk provider note =>
    obtain ⟨psks, hpsks⟩ :=
      Finmap.exists_enumerates (m.enrol client psk provider note .unixEpoch).psks
    obtain ⟨clients, hclients⟩ :=
      Finmap.exists_enumerates (m.enrol client psk provider note .unixEpoch).clients
    obtain ⟨content, hrender, -⟩ := loadClients_renderClientsDoc hC.json hclients none
    have hnew : client ∉ m.clients := hadm
    refine servable_of_start .unixEpoch ⟨psks, clients⟩ hqueued
      (by simp only [start, if_neg hnew, if_pos hpsks, State.beginWrite]; rfl) ?_
    refine servable_of_written fun disk => ⟨⟨psks, clients⟩, _,
      by simp only [written, if_pos hclients, hrender]; rfl, .inr ⟨rfl, ?_⟩⟩
    exact servable_of_written fun disk => ⟨⟨[], []⟩, _, rfl, .inl rfl⟩
  | revoke client =>
    obtain ⟨clients, hclients⟩ := Finmap.exists_enumerates m.clients
    obtain ⟨psks, hpsks⟩ := Finmap.exists_enumerates (m.erasePsk client).psks
    obtain ⟨content, hrender, -⟩ := loadClients_renderClientsDoc hC.json hclients (some client)
    have hknown : ¬client ∉ m.clients := hadm
    refine servable_of_start .unixEpoch ⟨psks, clients⟩ hqueued
      (by simp only [start, if_neg hknown, if_pos hclients, hrender, State.beginWrite]; rfl) ?_
    refine servable_of_written fun disk => ⟨⟨psks, clients⟩, _,
      by simp only [written, if_pos hpsks]; rfl, .inr ⟨rfl, ?_⟩⟩
    exact servable_of_written fun disk => ⟨⟨[], []⟩, _, rfl, .inl rfl⟩

end Symbolon
