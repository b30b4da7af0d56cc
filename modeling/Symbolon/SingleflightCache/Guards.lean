import Symbolon.SingleflightCache.With

/-!
# Guards and listeners

Two questions about the memo under concurrent calls: does every call that waits get woken,
and does every key have one resolver at most?

Waking rests on the guards. The map is not to be relied on: `invalidate` removes the mark of
a resolution that is still going on, and the next call to claim the key puts a mark of its
own there. But a guard holds its event itself, and notifies it whatever the map says. So
what is kept along every run (`Symbolon.SingleflightCache.Flights.Guarded`) is that an event
which the map has, or a call listens to, is one whose guard is alive. When the guard goes, it
wakes every listener and takes the last reference to its event off the map, and **nobody is
left behind, and nobody comes after** (`Symbolon.SingleflightCache.Flights.every_waiter_woken`).

One resolver a key is another matter. A mark that `invalidate` has removed no longer keeps
the next call from resolving the key as well; then two resolutions run at once, and the first
of the two guards to go takes the other's mark with it
(`Symbolon.SingleflightCache.Flights.exists_two_resolvers`). **As long as a key is never
invalidated while it is in flight, it has one resolver at most, and a guard only ever replaces
its own mark** (`Symbolon.SingleflightCache.Flights.one_resolver_of_no_invalidate_inFlight`).
-/

namespace Symbolon

namespace SingleflightCache

namespace Flights

universe u v w

variable {K : Type u} {V : Type v} {E : Type w}

/-- Call `i` is resolving `key`, and holds the guard of `event`. -/
def Guard (c : Flights K V E) (i : ℕ) (key : K) (event : EventId) : Prop :=
  c.tasks[i]? = some ⟨key, .resolving event⟩

/-- Call `i` listens to `event` for `key`, and has not been notified. -/
def Listens (c : Flights K V E) (i : ℕ) (key : K) (event : EventId) : Prop :=
  c.tasks[i]? = some ⟨key, .waiting event false⟩

/-! ### How the calls move -/

section Moving

variable {c c₁ : Flights K V E} {i j : ℕ} {key k : K} {event ev : EventId} {pc : WithPc V E}

theorem getElem?_setPc_self {t : WithCall K V E} (h : c.tasks[i]? = some t) :
    (c.setPc i pc).tasks[i]? = some ⟨t.key, pc⟩ := by
  simp [setPc, h]

theorem getElem?_setPc_of_ne (h : i ≠ j) : (c.setPc i pc).tasks[j]? = c.tasks[j]? := by
  simp [setPc, h]

/-- A notification moves nobody out of a resolution or into one. -/
theorem wakeUp_eq_resolving_iff {t : WithCall K V E} :
    wakeUp ev t = ⟨k, .resolving event⟩ ↔ t = ⟨k, .resolving event⟩ := by
  obtain ⟨key, pc⟩ := t
  cases pc with
  | waiting ev' notified =>
    simp only [wakeUp]
    split <;> simp
  | running | resolving | returned | dropped => simp [wakeUp]

/-- Whoever still listens after a notification listens to another event. -/
theorem wakeUp_eq_waiting_iff {t : WithCall K V E} :
    wakeUp ev t = ⟨k, .waiting event false⟩ ↔ t = ⟨k, .waiting event false⟩ ∧ event ≠ ev := by
  obtain ⟨key, pc⟩ := t
  cases pc with
  | waiting ev' notified =>
    simp only [wakeUp]
    split
    · rename_i heq
      simp only [WithCall.mk.injEq, WithPc.waiting.injEq, Bool.true_eq_false, and_false, false_iff]
      rintro ⟨⟨-, rfl, -⟩, hne⟩
      exact hne heq
    · rename_i hne
      simp only [WithCall.mk.injEq, WithPc.waiting.injEq, iff_self_and]
      rintro ⟨-, rfl, -⟩
      exact hne
  | running | resolving | returned | dropped => simp [wakeUp]

theorem guard_notify_iff : (c.notify ev).Guard j k event ↔ c.Guard j k event := by
  rw [Guard, Guard, notify, List.getElem?_map, Option.map_eq_some_iff]
  simp only [wakeUp_eq_resolving_iff, exists_eq_right]

theorem listens_notify_iff :
    (c.notify ev).Listens j k event ↔ c.Listens j k event ∧ event ≠ ev := by
  rw [Listens, Listens, notify, List.getElem?_map, Option.map_eq_some_iff]
  constructor
  · rintro ⟨t, ht, hw⟩
    obtain ⟨rfl, hne⟩ := wakeUp_eq_waiting_iff.mp hw
    exact ⟨ht, hne⟩
  · rintro ⟨ht, hne⟩
    exact ⟨_, ht, wakeUp_eq_waiting_iff.mpr ⟨rfl, hne⟩⟩

/-- A call that moves keeps the others where they are. -/
theorem guard_setPc_iff_of_ne (h : i ≠ j) : (c.setPc i pc).Guard j k event ↔ c.Guard j k event := by
  rw [Guard, getElem?_setPc_of_ne h, Guard]

theorem listens_setPc_iff_of_ne (h : i ≠ j) :
    (c.setPc i pc).Listens j k event ↔ c.Listens j k event := by
  rw [Listens, getElem?_setPc_of_ne h, Listens]

/-- A call holds a guard after it has moved if that is where it has moved to. -/
theorem guard_setPc_self {t : WithCall K V E} (ht : c.tasks[i]? = some t) :
    (c.setPc i pc).Guard i k event ↔ t.key = k ∧ pc = .resolving event := by
  rw [Guard, getElem?_setPc_self ht, Option.some.injEq, WithCall.mk.injEq]

theorem listens_setPc_self {t : WithCall K V E} (ht : c.tasks[i]? = some t) :
    (c.setPc i pc).Listens i k event ↔ t.key = k ∧ pc = .waiting event false := by
  rw [Listens, getElem?_setPc_self ht, Option.some.injEq, WithCall.mk.injEq]

variable {e : WithEvent K V E}

theorem Enters.cache (he : Enters c e c₁ i key) : c₁.cache = c.cache := by
  cases he with
  | call | wake => rfl

/-- Whoever claims neither resolves nor listens, and nobody else has moved. -/
theorem Enters.getElem? (he : Enters c e c₁ i key) :
    (∃ pc, c₁.tasks[i]? = some ⟨key, pc⟩) ∧ (∀ k event, ¬c.Guard i k event) ∧
      (∀ k event, ¬c.Listens i k event) ∧ ∀ j, i ≠ j → c₁.tasks[j]? = c.tasks[j]? := by
  cases he with
  | call =>
    refine ⟨⟨.running, by simp⟩, fun k event h => ?_, fun k event h => ?_, fun j hj => ?_⟩
    · simp [Guard] at h
    · simp [Listens] at h
    · rcases Nat.lt_or_ge j c.tasks.length with hlt | hge
      · exact List.getElem?_append_left hlt
      · have hout : c.tasks.length + 1 ≤ j := by omega
        rw [List.getElem?_eq_none (by simpa using hout), List.getElem?_eq_none (by omega)]
  | wake ht =>
    refine ⟨⟨_, ht⟩, fun k event h => ?_, fun k event h => ?_, fun j _ => rfl⟩
    · cases Option.some.inj (ht.symm.trans h)
    · cases Option.some.inj (ht.symm.trans h)

/-- The guards after a claim. -/
theorem Enters.guard_iff (he : Enters c e c₁ i key) :
    (c₁.setPc i pc).Guard j k event ↔
      c.Guard j k event ∨ j = i ∧ k = key ∧ pc = .resolving event := by
  obtain ⟨⟨pc₀, ht⟩, hguard, -, hother⟩ := he.getElem?
  rcases eq_or_ne i j with rfl | hne
  · simp [guard_setPc_self ht, hguard, eq_comm]
  · rw [guard_setPc_iff_of_ne hne, Guard, hother j hne, Guard]
    simp [hne.symm]

/-- The listeners after a claim. -/
theorem Enters.listens_iff (he : Enters c e c₁ i key) :
    (c₁.setPc i pc).Listens j k event ↔
      c.Listens j k event ∨ j = i ∧ k = key ∧ pc = .waiting event false := by
  obtain ⟨⟨pc₀, ht⟩, -, hlistens, hother⟩ := he.getElem?
  rcases eq_or_ne i j with rfl | hne
  · simp [listens_setPc_self ht, hlistens, eq_comm]
  · rw [listens_setPc_iff_of_ne hne, Listens, hother j hne, Listens]
    simp [hne.symm]

variable [DecidableEq K]

/-- The guards after one of them has been dropped. -/
theorem guard_release_iff {value : Option V} (hg : c.Guard i key ev) (hpc : pc.Over) :
    ((c.release key ev value).setPc i pc).Guard j k event ↔ j ≠ i ∧ c.Guard j k event := by
  have hrel : ∀ {j k event}, (c.release key ev value).Guard j k event ↔ c.Guard j k event :=
    guard_notify_iff
  rcases eq_or_ne i j with rfl | hne
  · have hover : pc ≠ .resolving event := by
      rintro rfl
      cases hpc
    simp [guard_setPc_self (hrel.mpr hg), hover]
  · rw [guard_setPc_iff_of_ne hne, hrel, and_iff_right hne.symm]

/-- **The listeners after a guard has been dropped**: nobody listens to its event. -/
theorem listens_release_iff {value : Option V} (hg : c.Guard i key ev) (hpc : pc.Over) :
    ((c.release key ev value).setPc i pc).Listens j k event ↔
      c.Listens j k event ∧ event ≠ ev := by
  have hrel : (c.release key ev value).Listens j k event ↔ c.Listens j k event ∧ event ≠ ev :=
    listens_notify_iff
  have hi : (c.release key ev value).Guard i key ev := guard_notify_iff.mpr hg
  rcases eq_or_ne i j with rfl | hne
  · have hover : pc ≠ .waiting event false := by
      rintro rfl
      cases hpc
    have hnot : ¬c.Listens i k event := fun h => by cases Option.some.inj (hg.symm.trans h)
    simp [listens_setPc_self hi, hover, hnot]
  · rw [listens_setPc_iff_of_ne hne, hrel]

/-- **Whoever listened to the event of a guard that has been dropped is woken.** -/
theorem getElem?_release_of_listens {value : Option V} (hg : c.Guard i key ev)
    (hl : c.Listens j k ev) :
    ((c.release key ev value).setPc i pc).tasks[j]? = some ⟨k, .waiting ev true⟩ := by
  have hne : i ≠ j := by
    rintro rfl
    cases Option.some.inj (hg.symm.trans hl)
  have hl' : c.tasks[j]? = some ⟨k, .waiting ev false⟩ := hl
  rw [getElem?_setPc_of_ne hne]
  simp [release, notify, hl', wakeUp]

theorem lookup_release_of_ne {value : Option V} (h : k ≠ key) :
    ((c.release key ev value).setPc i pc).cache.entries.lookup k = c.cache.entries.lookup k := by
  cases value with
  | none => exact Finmap.lookup_erase_ne h
  | some v => exact Finmap.lookup_insert_of_ne _ h

/-- **The marks after a guard has been dropped**: there is none under its key. -/
theorem inFlight_release_iff {value : Option V} :
    ((c.release key ev value).setPc i pc).cache.InFlight k event ↔
      k ≠ key ∧ c.cache.InFlight k event := by
  cases value with
  | none => exact inFlight_releaseFailed_iff
  | some v => exact inFlight_releaseDone_iff

theorem nextEvent_release {value : Option V} :
    ((c.release key ev value).setPc i pc).cache.nextEvent = c.cache.nextEvent := by
  cases value with
  | none | some => rfl

end Moving

/-! ### What a step does to the guards -/

variable [DecidableEq K] {c c' : Flights K V E} {l : WithEvent K V E × WithOutput}
  {ls : List (WithEvent K V E × WithOutput)}

/-- **What a step does to guards, marks and listeners.** -/
inductive Effect (c c' : Flights K V E) (l : WithEvent K V E × WithOutput) : Prop
  /-- No guard comes or goes. A mark can go, if its key is invalidated, and whoever begins to
  listen has found the event in the map. -/
  | keep (hguard : ∀ {j k ev}, c'.Guard j k ev ↔ c.Guard j k ev)
      (hmark : ∀ {k ev}, c'.cache.InFlight k ev ↔ c.cache.InFlight k ev ∧ l.1 ≠ .invalidate k)
      (hlistens : ∀ {j k ev}, c'.Listens j k ev →
        c.Listens j k ev ∨ l.2 = .listens ev ∧ c.cache.InFlight k ev)
      (hnext : c'.cache.nextEvent = c.cache.nextEvent)
      (hout : l.2 = .hit ∨ l.2 = .quiet ∨ ∃ k ev, l.2 = .listens ev ∧ c.cache.InFlight k ev)
  /-- A guard comes, with a new event, for a key that the map does not have. -/
  | resolve (i : ℕ) (key : K) (hout : l.2 = .resolves c.cache.nextEvent)
      (hnone : c.cache.entries.lookup key = none)
      (hguard : ∀ {j k ev}, c'.Guard j k ev ↔
        c.Guard j k ev ∨ j = i ∧ k = key ∧ ev = c.cache.nextEvent)
      (hmark : ∀ {k ev}, c'.cache.InFlight k ev ↔
        if k = key then ev = c.cache.nextEvent else c.cache.InFlight k ev)
      (hlistens : ∀ {j k ev}, c'.Listens j k ev ↔ c.Listens j k ev)
      (hnext : c'.cache.nextEvent = c.cache.nextEvent + 1)
  /-- A guard goes. -/
  | release (i : ℕ) (key : K) (event : EventId) (hout : l.2 = .releases event)
      (hguard : c.Guard i key event)
      (hguard' : ∀ {j k ev}, c'.Guard j k ev ↔ j ≠ i ∧ c.Guard j k ev)
      (hmark : ∀ {k ev}, c'.cache.InFlight k ev ↔ k ≠ key ∧ c.cache.InFlight k ev)
      (hlistens : ∀ {j k ev}, c'.Listens j k ev ↔ c.Listens j k ev ∧ ev ≠ event)
      (hwoken : ∀ {j k}, c.Listens j k event → c'.tasks[j]? = some ⟨k, .waiting event true⟩)
      (hentries : ∀ {k}, k ≠ key → c'.cache.entries.lookup k = c.cache.entries.lookup k)
      (hnext : c'.cache.nextEvent = c.cache.nextEvent)

omit [DecidableEq K] in
theorem Enters.ne_invalidate {c₁ : Flights K V E} {e : WithEvent K V E} {i : ℕ} {key k : K}
    (he : Enters c e c₁ i key) : e ≠ .invalidate k := by
  cases he with
  | call | wake => simp

theorem Step.effect (hstep : Step c l c') : Effect c c' l := by
  cases hstep.moves with
  | @hit e c₁ i key value he hm =>
    refine .keep (he.guard_iff.trans (by simp)) ?_ (fun hl => ?_) (congrArg _ he.cache) (.inl rfl)
    · intro k ev
      simp [setPc, he.cache, he.ne_invalidate]
    · exact .inl (by simpa using he.listens_iff.mp hl)
  | @listen e c₁ i key event he hm =>
    rw [he.cache] at hm
    refine .keep (he.guard_iff.trans (by simp)) ?_ (fun hl => ?_) (congrArg _ he.cache)
      (.inr (.inr ⟨key, event, rfl, hm⟩))
    · intro k ev
      simp [setPc, he.cache, he.ne_invalidate]
    · rcases he.listens_iff.mp hl with hold | ⟨-, rfl, hpc⟩
      · exact .inl hold
      · cases hpc
        exact .inr ⟨rfl, hm⟩
  | @resolve e c₁ i key he hm =>
    rw [he.cache] at hm ⊢
    refine .resolve i key rfl hm ?_ inFlight_mark_iff ?_ rfl
    · intro j k ev
      refine (Enters.guard_iff he).trans (or_congr_right ?_)
      rw [WithPc.resolving.injEq, eq_comm (a := c.cache.nextEvent)]
    · intro j k ev
      exact (Enters.listens_iff he).trans (by simp)
  | @release e i key event pc value ht hpc =>
    exact .release i key event rfl ht (guard_release_iff ht hpc) inFlight_release_iff
      (listens_release_iff ht hpc) (getElem?_release_of_listens ht) lookup_release_of_ne
      nextEvent_release
  | @leave i key event notified ht =>
    have hguard : ∀ {j k ev}, (c.setPc i .dropped).Guard j k ev ↔ c.Guard j k ev := by
      intro j k ev
      rcases eq_or_ne i j with rfl | hne
      · have hnot : ¬c.Guard i k ev := fun h => by cases Option.some.inj (ht.symm.trans h)
        simp [guard_setPc_self ht, hnot]
      · exact guard_setPc_iff_of_ne hne
    refine .keep hguard (by simp [setPc]) (fun {j k ev} hl => .inl ?_) rfl (.inr (.inl rfl))
    rcases eq_or_ne i j with rfl | hne
    · simp [listens_setPc_self ht] at hl
    · exact (listens_setPc_iff_of_ne hne).mp hl
  | invalidate key =>
    refine .keep Iff.rfl ?_ .inl rfl (.inr (.inl rfl))
    intro k ev
    rw [inFlight_invalidate_iff, and_comm]
    simp [eq_comm]

/-! ### Every event has its guard -/

/-- **An event that the map has, or that a call listens to, has its guard**, and an event has
one guard at most. -/
structure Guarded (c : Flights K V E) : Prop where
  /-- Guards are not from the future. -/
  lt : ∀ {i k event}, c.Guard i k event → event < c.cache.nextEvent
  /-- An event has one guard at most. -/
  unique : ∀ {i j k k' event}, c.Guard i k event → c.Guard j k' event → i = j
  /-- A mark in the map has its guard. -/
  mark : ∀ {k event}, c.cache.InFlight k event → ∃ j, c.Guard j k event
  /-- A listener has its guard. -/
  listener : ∀ {i k event}, c.Listens i k event → ∃ j, c.Guard j k event

theorem Guarded.new : (Flights.new : Flights K V E).Guarded where
  lt h := by cases h
  unique h := by cases h
  mark h := absurd h not_inFlight_new
  listener h := by cases h

omit [DecidableEq K] in
/-- A guard for another key, or of another event, is another guard. -/
theorem Guard.ne_of_ne {i j : ℕ} {k k' : K} {ev ev' : EventId}
    (hi : c.Guard i k ev) (hj : c.Guard j k' ev') (hne : k ≠ k' ∨ ev ≠ ev') : j ≠ i := by
  rintro rfl
  cases Option.some.inj (hi.symm.trans hj)
  rcases hne with hne | hne <;> exact hne rfl

/-- **A step keeps the guards.** -/
theorem Guarded.step (h : c.Guarded) (hstep : Step c l c') : c'.Guarded := by
  cases hstep.effect with
  | keep hguard hmark hlistens hnext hout =>
    refine ⟨fun hg => ?_, fun hi hj => h.unique (hguard.mp hi) (hguard.mp hj), fun hm => ?_,
      fun hl => ?_⟩
    · rw [hnext]
      exact h.lt (hguard.mp hg)
    · obtain ⟨j, hg⟩ := h.mark (hmark.mp hm).1
      exact ⟨j, hguard.mpr hg⟩
    · -- a new listener has found the event in the map
      rcases hlistens hl with hold | ⟨-, hm⟩
      · obtain ⟨j, hg⟩ := h.listener hold
        exact ⟨j, hguard.mpr hg⟩
      · obtain ⟨j, hg⟩ := h.mark hm
        exact ⟨j, hguard.mpr hg⟩
  | resolve i key hout hnone hguard hmark hlistens hnext =>
    refine ⟨fun hg => ?_, fun hi hj => ?_, fun {k ev} hm => ?_, fun hl => ?_⟩
    · rw [hnext]
      rcases hguard.mp hg with hold | ⟨-, -, rfl⟩
      · exact Nat.lt_succ_of_lt (h.lt hold)
      · exact Nat.lt_succ_self _
    · -- the event is new, so no old guard has it
      rcases hguard.mp hi with hi | ⟨rfl, -, rfl⟩ <;> rcases hguard.mp hj with hj | ⟨rfl, -, heq⟩
      · exact h.unique hi hj
      · exact absurd (h.lt hi) (heq ▸ Nat.lt_irrefl _)
      · exact absurd (h.lt hj) (Nat.lt_irrefl _)
      · rfl
    · have hm' := hmark.mp hm
      split at hm'
      · rename_i hk
        exact ⟨i, hguard.mpr (.inr ⟨rfl, hk, hm'⟩)⟩
      · obtain ⟨j, hg⟩ := h.mark hm'
        exact ⟨j, hguard.mpr (.inl hg)⟩
    · obtain ⟨j, hg⟩ := h.listener (hlistens.mp hl)
      exact ⟨j, hguard.mpr (.inl hg)⟩
  | release i key event hout hi hguard hmark hlistens hwoken hentries hnext =>
    refine ⟨fun hg => ?_, fun hj hj' => h.unique (hguard.mp hj).2 (hguard.mp hj').2,
      fun hm => ?_, fun hl => ?_⟩
    · rw [hnext]
      exact h.lt (hguard.mp hg).2
    · obtain ⟨hk, hm⟩ := hmark.mp hm
      obtain ⟨j, hg⟩ := h.mark hm
      exact ⟨j, hguard.mpr ⟨hi.ne_of_ne hg (.inl hk.symm), hg⟩⟩
    · obtain ⟨hl, hev⟩ := hlistens.mp hl
      obtain ⟨j, hg⟩ := h.listener hl
      exact ⟨j, hguard.mpr ⟨hi.ne_of_ne hg (.inr hev.symm), hg⟩⟩

theorem guarded_of_run (hrun : Run Flights.new ls c) : c.Guarded :=
  hrun.invariant (fun _ _ _ h hstep => h.step hstep) .new

/-! ### Nobody is left behind -/

/-- The guard of an event has come and gone. -/
structure Gone (c : Flights K V E) (event : EventId) : Prop where
  /-- The guards that there are. -/
  guarded : c.Guarded
  /-- It has come. -/
  lt : event < c.cache.nextEvent
  /-- It has gone. -/
  notGuard : ∀ {j k}, ¬c.Guard j k event

theorem Gone.not_inFlight {event : EventId} (h : c.Gone event) {k : K} :
    ¬c.cache.InFlight k event := by
  intro hm
  obtain ⟨j, hg⟩ := h.guarded.mark hm
  exact h.notGuard hg

theorem Gone.not_listens {event : EventId} (h : c.Gone event) {i : ℕ} {k : K} :
    ¬c.Listens i k event := by
  intro hl
  obtain ⟨j, hg⟩ := h.guarded.listener hl
  exact h.notGuard hg

/-- A guard that has gone does not come back, and nobody begins to listen to its event. -/
theorem Gone.step {event : EventId} (h : c.Gone event) (hstep : Step c l c') :
    c'.Gone event ∧ l.2 ≠ .listens event := by
  have hguarded := h.guarded.step hstep
  cases hstep.effect with
  | keep hguard hmark hlistens hnext hout =>
    refine ⟨⟨hguarded, hnext ▸ h.lt, fun hg => h.notGuard (hguard.mp hg)⟩, fun hl => ?_⟩
    rcases hout with ho | ho | ⟨k, ev, ho, hm⟩
    · cases ho.symm.trans hl
    · cases ho.symm.trans hl
    · cases ho.symm.trans hl
      exact h.not_inFlight hm
  | resolve i key hout hnone hguard hmark hlistens hnext =>
    refine ⟨⟨hguarded, ?_, fun hg => ?_⟩, fun hl => by cases hout.symm.trans hl⟩
    · rw [hnext]
      exact Nat.lt_succ_of_lt h.lt
    · -- a new guard has a new event
      rcases hguard.mp hg with hold | ⟨-, -, heq⟩
      · exact h.notGuard hold
      · exact absurd h.lt (heq ▸ Nat.lt_irrefl _)
  | release i key ev hout hi hguard hmark hlistens hwoken hentries hnext =>
    refine ⟨⟨hguarded, hnext ▸ h.lt, fun hg => h.notGuard (hguard.mp hg).2⟩, fun hl => ?_⟩
    cases hout.symm.trans hl

theorem Gone.run {event : EventId} (h : c.Gone event) (hrun : Run c ls c') :
    c'.Gone event ∧ ∀ l ∈ ls, l.2 ≠ .listens event := by
  refine hrun.history (P := fun ls c => c.Gone event ∧ ∀ l ∈ ls, l.2 ≠ .listens event) ?_
    ⟨h, fun l hl => by cases hl⟩
  rintro past c l c' ⟨hgone, hpast⟩ hstep
  obtain ⟨hgone', hl⟩ := hgone.step hstep
  refine ⟨hgone', fun l' hl' => ?_⟩
  rcases List.mem_append.mp hl' with hold | hnew
  · exact hpast l' hold
  · rw [List.mem_singleton.mp hnew]
    exact hl

/-- A guard that is dropped has gone. -/
theorem Guarded.gone_of_releases {event : EventId} (h : c.Guarded) (hstep : Step c l c')
    (hl : l.2 = .releases event) : c'.Gone event := by
  have hguarded := h.step hstep
  cases hstep.effect with
  | keep hguard hmark hlistens hnext hout =>
    rcases hout with ho | ho | ⟨k, ev, ho, -⟩ <;> cases ho.symm.trans hl
  | resolve i key hout => cases hout.symm.trans hl
  | release i key ev hout hi hguard hmark hlistens hwoken hentries hnext =>
    cases hout.symm.trans hl
    refine ⟨hguarded, hnext ▸ h.lt hi, fun {j k} hg => ?_⟩
    obtain ⟨hne, hj⟩ := hguard.mp hg
    exact hne (h.unique hj hi)

/-- **Every waiter is woken.** In every state that calls, resolutions, cancellations and
invalidations can lead to,

* a call that waits and has not been notified listens to an event whose guard is alive;
* a guard goes only in a step that notifies its event. That step wakes all who listen to the
  event and leaves no mark of it in the map, and from then on nobody begins to listen to it,
  and nobody listens to it;
* a call that has been notified can run, and claims its key again. -/
theorem every_waiter_woken (hrun : Run Flights.new ls c) :
    (∀ i k event, c.Listens i k event → ∃ j, c.Guard j k event) ∧
    (∀ l c', Step c l c' →
      (∀ j k event, c.Guard j k event → ¬c'.Guard j k event → l.2 = .releases event) ∧
      ∀ event, l.2 = .releases event →
        (∀ i k, c.Listens i k event → c'.tasks[i]? = some ⟨k, .waiting event true⟩) ∧
        (∀ k, ¬c'.cache.InFlight k event) ∧
        ∀ ls' c'', Run c' ls' c'' →
          (∀ l' ∈ ls', l'.2 ≠ .listens event) ∧ ∀ i k, ¬c''.Listens i k event) ∧
    ∀ i k event, c.tasks[i]? = some ⟨k, .waiting event true⟩ →
      c.next (.wake i) = some (c.claim i k) := by
  have hguarded := guarded_of_run hrun
  refine ⟨fun i k event hl => hguarded.listener hl, fun l c' hstep => ⟨?_, ?_⟩, ?_⟩
  · intro j k event hg hnot
    cases hstep.effect with
    | keep hguard => exact absurd (hguard.mpr hg) hnot
    | resolve i key hout hnone hguard => exact absurd (hguard.mpr (.inl hg)) hnot
    | release i key ev hout hi hguard =>
      rcases eq_or_ne j i with rfl | hne
      · cases Option.some.inj (hi.symm.trans hg)
        exact hout
      · exact absurd (hguard.mpr ⟨hne, hg⟩) hnot
  · intro event hl
    have hgone := hguarded.gone_of_releases hstep hl
    refine ⟨fun i k hlistens => ?_, fun k => hgone.not_inFlight, fun ls' c'' hrun' => ?_⟩
    · cases hstep.effect with
      | keep hguard hmark hlistens hnext hout =>
        rcases hout with ho | ho | ⟨k, ev, ho, -⟩ <;> cases ho.symm.trans hl
      | resolve i key hout => cases hout.symm.trans hl
      | release i key ev hout hi hguard hmark hlistens' hwoken =>
        cases hout.symm.trans hl
        exact hwoken hlistens
    · obtain ⟨hgone'', hnone⟩ := hgone.run hrun'
      exact ⟨hnone, fun i k => hgone''.not_listens⟩
  · intro i k event ht
    simp [next, ht]

/-- Two calls for one key: the second listens to the first, and is woken by it. -/
theorem every_waiter_woken_second :
    ∃ (ls : List (WithEvent Unit ℕ Unit × WithOutput)) (c c' : Flights Unit ℕ Unit),
      Run .new ls c ∧ c.Listens 1 () 0 ∧ (∃ j, c.Guard j () 0) ∧
        Step c (.resolved 0 (.ok 7), .releases 0) c' ∧
        c'.tasks[1]? = some ⟨(), .waiting 0 true⟩ := by
  obtain ⟨c, c', hrun, hlistens, hstep⟩ : ∃ c c', Run (.new : Flights Unit ℕ Unit)
      [(.call (), .resolves 0), (.call (), .listens 0)] c ∧ c.Listens 1 () 0 ∧
        Step c (.resolved 0 (.ok 7), .releases 0) c' :=
    ⟨_, _, .cons rfl (.cons rfl (.nil _)), rfl, rfl⟩
  obtain ⟨hguard, hmoves, -⟩ := every_waiter_woken hrun
  obtain ⟨hwoken, -⟩ := (hmoves _ c' hstep).2 0 rfl
  exact ⟨_, c, c', hrun, hlistens, hguard 1 () 0 hlistens, hstep, hwoken 1 () hlistens⟩

/-! ### One resolver a key -/

/-- The step invalidates a key that is in flight. -/
def InvalidatesInFlight (c : Flights K V E) (l : WithEvent K V E × WithOutput) : Prop :=
  ∃ key event, l.1 = .invalidate key ∧ c.cache.InFlight key event

/-- The steps that do not. -/
def OrderlyStep : Flights K V E → WithEvent K V E × WithOutput → Flights K V E → Prop :=
  Lts.restrict Step fun c l => ¬c.InvalidatesInFlight l

theorem Step.orderly (h : Step c l c')
    (hl : ∀ key event, l.1 = .invalidate key → ¬c.cache.InFlight key event) :
    OrderlyStep c l c' :=
  ⟨h, fun ⟨key, event, he, hm⟩ => hl key event he hm⟩

/-- Every guard has its mark in the map. -/
structure Marked (c : Flights K V E) : Prop where
  /-- Every mark has its guard. -/
  guarded : c.Guarded
  /-- Every guard has its mark. -/
  marked : ∀ {i k event}, c.Guard i k event → c.cache.InFlight k event

/-- The mark of a key is of one event, and the event has one guard. -/
theorem Marked.unique (h : c.Marked) {i j : ℕ} {k : K} {event event' : EventId}
    (hi : c.Guard i k event) (hj : c.Guard j k event') : i = j := by
  have hmarks := Option.some.inj ((h.marked hi).symm.trans (h.marked hj))
  cases hmarks
  exact h.guarded.unique hi hj

theorem Marked.step (h : c.Marked) (hstep : OrderlyStep c l c') : c'.Marked := by
  obtain ⟨hstep, horderly⟩ := hstep
  refine ⟨h.guarded.step hstep, fun {i k event} hg => ?_⟩
  cases hstep.effect with
  | keep hguard hmark hlistens hnext hout =>
    have hm := h.marked (hguard.mp hg)
    exact hmark.mpr ⟨hm, fun he => horderly ⟨k, event, he, hm⟩⟩
  | resolve i key hout hnone hguard hmark hlistens hnext =>
    refine hmark.mpr ?_
    rcases hguard.mp hg with hold | ⟨-, rfl, rfl⟩
    · -- the key that was claimed had no mark, so it is not this one
      have hne : k ≠ key := by
        rintro rfl
        cases hnone.symm.trans (h.marked hold)
      rw [if_neg hne]
      exact h.marked hold
    · rw [if_pos rfl]
  | release i key ev hout hi hguard hmark hlistens hwoken hentries hnext =>
    obtain ⟨hne, hold⟩ := hguard.mp hg
    refine hmark.mpr ⟨fun hk => ?_, h.marked hold⟩
    subst hk
    exact hne (h.unique hold hi)

/-- **One resolver a key**, as long as no key is invalidated while it is in flight: along
every such run, every resolution under way has its mark in the map, no key has two, and
whatever entry a guard changes when it goes is its own mark. -/
theorem one_resolver_of_no_invalidate_inFlight (hrun : Lts.Run OrderlyStep Flights.new ls c) :
    (∀ i k event, c.Guard i k event → c.cache.InFlight k event) ∧
    (∀ i j k event event', c.Guard i k event → c.Guard j k event' → i = j) ∧
    ∀ l c', Step c l c' → ∀ i k event, c.Guard i k event → ¬c'.Guard i k event →
      ∀ k', c'.cache.entries.lookup k' ≠ c.cache.entries.lookup k' →
        k' = k ∧ c.cache.InFlight k' event := by
  have hmarked : c.Marked :=
    hrun.invariant (fun _ _ _ h hstep => h.step hstep) ⟨.new, fun h => by cases h⟩
  refine ⟨fun i k event hg => hmarked.marked hg, fun i j k event event' hi hj =>
    hmarked.unique hi hj, ?_⟩
  intro l c' hstep i k event hg hnot k' hk'
  cases hstep.effect with
  | keep hguard => exact absurd (hguard.mpr hg) hnot
  | resolve j key hout hnone hguard => exact absurd (hguard.mpr (.inl hg)) hnot
  | release j key ev hout hj hguard hmark hlistens hwoken hentries hnext =>
    rcases eq_or_ne i j with rfl | hne
    · cases Option.some.inj (hj.symm.trans hg)
      obtain rfl : k' = k := by
        by_contra hne
        exact hk' (hentries hne)
      exact ⟨rfl, hmarked.marked hg⟩
    · exact absurd (hguard.mpr ⟨hne, hg⟩) hnot

/-- A key is resolved, invalidated, and resolved again. -/
theorem one_resolver_after_invalidate :
    ∃ (ls : List (WithEvent Unit ℕ Unit × WithOutput)) (c : Flights Unit ℕ Unit),
      Lts.Run OrderlyStep .new ls c ∧ c.Guard 1 () 1 ∧ c.cache.InFlight () 1 := by
  obtain ⟨c, hrun, hguard⟩ : ∃ c, Lts.Run OrderlyStep (.new : Flights Unit ℕ Unit)
      [(.call (), .resolves 0), (.resolved 0 (.ok 7), .releases 0), (.invalidate (), .quiet),
        (.call (), .resolves 1)] c ∧ c.Guard 1 () 1 := by
    refine ⟨_, .cons (Step.orderly rfl ?_) (.cons (Step.orderly rfl ?_)
      (.cons (Step.orderly rfl ?_) (.cons (Step.orderly rfl ?_) (.nil _)))), rfl⟩
    · intro key event he
      cases he
    · intro key event he
      cases he
    · -- the key has been resolved by then
      intro key event he hm
      cases hm
    · intro key event he
      cases he
  exact ⟨_, c, hrun, hguard, (one_resolver_of_no_invalidate_inFlight hrun).1 1 () 1 hguard⟩

/-- A key is invalidated while it is in flight, and the next call resolves it as well. When the
first resolution fails, its guard takes the mark of the second off the map. -/
theorem exists_two_resolvers :
    ∃ (ls : List (WithEvent Unit ℕ Unit × WithOutput)) (c c' : Flights Unit ℕ Unit),
      Run .new ls c ∧ c.Guard 0 () 0 ∧ c.Guard 1 () 1 ∧ c.cache.InFlight () 1 ∧
        Step c (.resolved 0 (.error ()), .releases 0) c' ∧ c'.Guard 1 () 1 ∧
        c'.cache.entries.lookup () = none := by
  refine ⟨[(.call (), .resolves 0), (.invalidate (), .quiet), (.call (), .resolves 1)], _, _,
    .cons rfl (.cons rfl (.cons rfl (.nil _))), rfl, rfl, ?_, rfl, rfl, ?_⟩
  · rfl
  · rfl

end Flights

end SingleflightCache

end Symbolon
