import Mathlib.Data.List.Basic
import Mathlib.Logic.Relation

/-!
# Runs of a labelled transition system

A system is a relation `R s e t`: in state `s`, the label `e` – an event of the
environment together with whatever the system emits while handling it – leads to
`t`. A *run* (`Lts.Run`) is a list of labels read from left to right. Nothing here
knows what the states or the labels are; every safety property further up is one
of the rules of this file applied to a step lemma.

* `Lts.Run.invariant` – what one step preserves, a run preserves.
* `Lts.Run.history` – the same for a property of the state *and* of the labels
  read so far. This is the rule behind “this can only happen after that”.
* `Lts.Run.countP_add_le` – what takes from a budget at every step happens at most so often.
* `Lts.Run.length_add_le` – steps that all lower the work left come to an end.
* `Lts.restrict` – the runs whose steps all meet a condition.
* `Lts.Run.simulate` – a forward simulation carries runs to runs.
* `Lts.Run.unique` – a system given by a function is deterministic.
* `Lts.exec` – the runs of a system given by a function, computed.
* `Lts.exec_map_obs_eq` – two runs side by side show the same.
-/

namespace Lts

variable {σ τ ε δ : Type*}

/-- **A run**: the labels read, from the first state to the last. -/
inductive Run (R : σ → ε → σ → Prop) : σ → List ε → σ → Prop
  /-- Nothing has happened. -/
  | nil (s : σ) : Run R s [] s
  /-- One step, then the rest of the run. -/
  | cons {s t u : σ} {e : ε} {es : List ε} : R s e t → Run R t es u → Run R s (e :: es) u

variable {R : σ → ε → σ → Prop}

theorem Run.single {s t : σ} {e : ε} (h : R s e t) : Run R s [e] t := .cons h (.nil t)

@[simp] theorem run_nil_iff {s t : σ} : Run R s [] t ↔ s = t :=
  ⟨fun h => by cases h; rfl, fun h => h ▸ .nil s⟩

theorem run_cons_iff {s u : σ} {e : ε} {es : List ε} :
    Run R s (e :: es) u ↔ ∃ t, R s e t ∧ Run R t es u := by
  constructor
  · rintro (_ | ⟨h, hr⟩)
    exact ⟨_, h, hr⟩
  · rintro ⟨t, h, hr⟩
    exact .cons h hr

theorem run_singleton_iff {s u : σ} {e : ε} : Run R s [e] u ↔ R s e u := by
  simp [run_cons_iff]

theorem run_append_iff {s u : σ} {es fs : List ε} :
    Run R s (es ++ fs) u ↔ ∃ t, Run R s es t ∧ Run R t fs u := by
  induction es generalizing s with
  | nil => simp
  | cons e es ih =>
    simp only [List.cons_append, run_cons_iff, ih]
    constructor
    · rintro ⟨t, h, v, hr, hr'⟩
      exact ⟨v, ⟨t, h, hr⟩, hr'⟩
    · rintro ⟨v, ⟨t, h, hr⟩, hr'⟩
      exact ⟨t, h, v, hr, hr'⟩

theorem Run.append {s t u : σ} {es fs : List ε} (h : Run R s es t) (h' : Run R t fs u) :
    Run R s (es ++ fs) u :=
  run_append_iff.mpr ⟨t, h, h'⟩

theorem Run.snoc {s t u : σ} {es : List ε} {e : ε} (h : Run R s es t) (h' : R t e u) :
    Run R s (es ++ [e]) u :=
  h.append (.single h')

/-- A log, cut around one of its entries. -/
theorem eq_take_append_cons {es : List ε} {e : ε} {i : ℕ} (hi : es[i]? = some e) :
    es = es.take i ++ e :: es.drop (i + 1) := by
  obtain ⟨hlt, rfl⟩ := List.getElem?_eq_some_iff.mp hi
  rw [← List.drop_eq_getElem_cons hlt, List.take_append_drop]

/-- A run, cut around one of its steps. -/
theorem Run.split_at {s u : σ} {es : List ε} {e : ε} {i : ℕ} (h : Run R s es u)
    (hi : es[i]? = some e) :
    ∃ t t', Run R s (es.take i) t ∧ R t e t' ∧ Run R t' (es.drop (i + 1)) u := by
  rw [eq_take_append_cons hi] at h
  obtain ⟨t, hpre, hrest⟩ := run_append_iff.mp h
  obtain ⟨t', hr, hpost⟩ := run_cons_iff.mp hrest
  exact ⟨t, t', hpre, hr, hpost⟩

/-- A run, cut at one of the things it shows, when every step shows a list of things. -/
theorem Run.split_flatten {α : Type*} {R : σ → List α → σ → Prop} {s t : σ} {ms : List (List α)}
    (h : Run R s ms t) {past future : List α} {a : α} (hflat : ms.flatten = past ++ a :: future) :
    ∃ ms₁ m₁ m₂ ms₂ s₁ s₂, Run R s ms₁ s₁ ∧ R s₁ (m₁ ++ a :: m₂) s₂ ∧ Run R s₂ ms₂ t ∧
      past = ms₁.flatten ++ m₁ ∧ future = m₂ ++ ms₂.flatten := by
  induction h generalizing past with
  | nil => simp at hflat
  | @cons s s' t m ms hstep hrun ih =>
    rw [List.flatten_cons] at hflat
    obtain ⟨rest, rfl, hrest⟩ | ⟨rest, rfl, hrest⟩ := List.append_eq_append_iff.mp hflat
    · -- it is further on
      obtain ⟨ms₁, m₁, m₂, ms₂, s₁, s₂, hrun₁, hstep', hrun₂, rfl, rfl⟩ := ih hrest
      exact ⟨m :: ms₁, m₁, m₂, ms₂, s₁, s₂, .cons hstep hrun₁, hstep', hrun₂, by simp, rfl⟩
    · rcases rest with - | ⟨b, rest⟩
      · -- it is the first thing after this step
        obtain ⟨ms₁, m₁, m₂, ms₂, s₁, s₂, hrun₁, hstep', hrun₂, hpast, rfl⟩ :=
          ih (hrest.symm.trans (List.nil_append _).symm)
        refine ⟨_ :: ms₁, m₁, m₂, ms₂, s₁, s₂, .cons hstep hrun₁, hstep', hrun₂, ?_, rfl⟩
        simpa using hpast
      · obtain ⟨rfl, rfl⟩ := List.cons.inj hrest
        exact ⟨[], past, rest, ms, s, s', .nil s, hstep, hrun, rfl, rfl⟩

/-- A run of a system is a run of every system with more steps. -/
theorem Run.mono {Q : σ → ε → σ → Prop} (hsub : ∀ s e t, R s e t → Q s e t) {s t : σ}
    {es : List ε} (h : Run R s es t) : Run Q s es t := by
  induction h with
  | nil => exact .nil _
  | cons hr _ ih => exact .cons (hsub _ _ _ hr) ih

/-- **What one step preserves, a run preserves.** -/
theorem Run.invariant {I : σ → Prop} (hstep : ∀ s e t, I s → R s e t → I t) {s t : σ}
    {es : List ε} (h : Run R s es t) (hs : I s) : I t := by
  induction h with
  | nil => exact hs
  | cons hr _ ih => exact ih (hstep _ _ _ hs hr)

/-- The rule for a property of the state and of the labels already read, along a run all
of whose labels meet a condition. The induction is on the labels *still* to be read, so
the property is stated for an arbitrary past. -/
theorem Run.history_of_forall_from {P : List ε → σ → Prop} {Q : ε → Prop}
    (hstep : ∀ past s e t, P past s → Q e → R s e t → P (past ++ [e]) t) {s t : σ} {es : List ε}
    (h : Run R s es t) (hes : ∀ e ∈ es, Q e) {past : List ε} (hp : P past s) :
    P (past ++ es) t := by
  induction h generalizing past with
  | nil => simpa using hp
  | cons hr _ ih =>
    have hhead := hstep past _ _ _ hp (hes _ List.mem_cons_self) hr
    simpa using ih (fun e he => hes e (List.mem_cons_of_mem _ he)) hhead

/-- The history rule for runs all of whose labels meet a condition. -/
theorem Run.history_of_forall {P : List ε → σ → Prop} {Q : ε → Prop}
    (hstep : ∀ past s e t, P past s → Q e → R s e t → P (past ++ [e]) t) {s t : σ} {es : List ε}
    (h : Run R s es t) (hes : ∀ e ∈ es, Q e) (h0 : P [] s) : P es t := by
  simpa using h.history_of_forall_from hstep hes h0

/-- **The history rule**: a property of the labels read so far and of the state
they lead to holds along a run as soon as every step extends it. -/
theorem Run.history {P : List ε → σ → Prop}
    (hstep : ∀ past s e t, P past s → R s e t → P (past ++ [e]) t) {s t : σ} {es : List ε}
    (h : Run R s es t) (h0 : P [] s) : P es t :=
  h.history_of_forall (Q := fun _ => True) (fun past s e t hp _ hr => hstep past s e t hp hr)
    (fun _ _ => trivial) h0

/-- **The budget rule**: if every step with the property takes one off a budget, and no step
adds to it, there are at most as many of them as the budget was. -/
theorem Run.countP_add_le {p : ε → Bool} {budget : σ → ℕ}
    (hstep : ∀ s e t, R s e t → (if p e then 1 else 0) + budget t ≤ budget s) {s t : σ}
    {es : List ε} (h : Run R s es t) : es.countP p + budget t ≤ budget s := by
  induction h with
  | nil => simp
  | @cons s t u e es hr _ ih =>
    have := hstep s e t hr
    rw [List.countP_cons]
    omega

/-- **The termination rule**: if every step from a state with the invariant keeps it and
lowers the work that is left, a run has no more steps than there was work. -/
theorem Run.length_add_le {I : σ → Prop} {work : σ → ℕ}
    (hstep : ∀ s e t, I s → R s e t → I t ∧ work t < work s) {s t : σ} {es : List ε}
    (h : Run R s es t) (hs : I s) : I t ∧ es.length + work t ≤ work s := by
  induction h with
  | nil => exact ⟨hs, Nat.le_of_eq (Nat.zero_add _)⟩
  | @cons s t u e es hr _ ih =>
    obtain ⟨ht, hlt⟩ := hstep s e t hs hr
    obtain ⟨hu, hle⟩ := ih ht
    rw [List.length_cons]
    exact ⟨hu, by omega⟩

/-- So there is a run to a state without a step. -/
theorem exists_stuck {I : σ → Prop} {work : σ → ℕ}
    (hstep : ∀ s e t, I s → R s e t → I t ∧ work t < work s) {s : σ} (hs : I s) :
    ∃ es t, Run R s es t ∧ ∀ e u, ¬R t e u := by
  induction hn : work s using Nat.strongRecOn generalizing s with
  | ind n ih =>
    subst hn
    by_cases hstuck : ∀ e u, ¬R s e u
    · exact ⟨[], s, .nil s, hstuck⟩
    · simp only [not_forall, not_not] at hstuck
      obtain ⟨e, u, hr⟩ := hstuck
      obtain ⟨hu, hlt⟩ := hstep s e u hs hr
      obtain ⟨es, t, hrun, hend⟩ := ih (work u) hlt hu rfl
      exact ⟨e :: es, t, .cons hr hrun, hend⟩

/-! ### Runs whose steps meet a condition -/

/-- The system in which only the steps that meet the condition `C` are taken. The
condition sees the state before the step and the label, never the state after. -/
def restrict (R : σ → ε → σ → Prop) (C : σ → ε → Prop) : σ → ε → σ → Prop :=
  fun s e t => R s e t ∧ C s e

/-! ### Forward simulations -/

/-- **A forward simulation carries runs to runs**: every step of the first system is
matched by one step of the second, whose label is the image of the first's. -/
theorem Run.simulate {Q : τ → δ → τ → Prop} {f : ε → δ} {I : σ → τ → Prop}
    (hsim : ∀ s e s' t, I s t → R s e s' → ∃ t', Q t (f e) t' ∧ I s' t') {s s' : σ} {t : τ}
    {es : List ε} (h : Run R s es s') (ht : I s t) :
    ∃ t', Run Q t (es.map f) t' ∧ I s' t' := by
  induction h generalizing t with
  | nil => exact ⟨t, .nil t, ht⟩
  | cons hr _ ih =>
    obtain ⟨t₁, hq, hrel⟩ := hsim _ _ _ _ ht hr
    obtain ⟨t', hrun, hrel'⟩ := ih hrel
    exact ⟨t', .cons hq hrun, hrel'⟩

/-! ### Systems given by a function -/

/-- The transition relation of a system given by a function from the state and the
event to the next state and what is emitted; a label is the event with its output. -/
def ofFun (next : σ → ε → Option (σ × δ)) : σ → ε × δ → σ → Prop :=
  fun s l t => next s l.1 = some (t, l.2)

/-- Such a system is deterministic: the labels of a run determine where it leads. -/
theorem Run.unique {next : σ → ε → Option (σ × δ)} {s t u : σ} {ls : List (ε × δ)}
    (h : Run (ofFun next) s ls t) (h' : Run (ofFun next) s ls u) : t = u := by
  induction h with
  | nil => exact run_nil_iff.mp h'
  | cons hr _ ih =>
    obtain ⟨v, hr', hrest⟩ := run_cons_iff.mp h'
    cases Option.some.inj (hr.symm.trans hr')
    exact ih hrest

/-- Run the events of a list in order, collecting the labels. -/
def exec (next : σ → ε → Option (σ × δ)) : σ → List ε → Option (σ × List (ε × δ))
  | s, [] => some (s, [])
  | s, e :: es =>
    match next s e with
    | none => none
    | some (t, d) =>
      match exec next t es with
      | none => none
      | some (u, ls) => some (u, (e, d) :: ls)

/-- What `Lts.exec` computes is a run. -/
theorem run_of_exec {next : σ → ε → Option (σ × δ)} :
    ∀ {s u : σ} {es : List ε} {ls : List (ε × δ)}, exec next s es = some (u, ls) →
      Run (ofFun next) s ls u
  | s, u, [], ls, h => by
    simp only [exec, Option.some.injEq, Prod.mk.injEq] at h
    obtain ⟨rfl, rfl⟩ := h
    exact .nil s
  | s, u, e :: es, ls, h => by
    rcases hn : next s e with - | ⟨t, d⟩
    · simp [exec, hn] at h
    · rcases hr : exec next t es with - | ⟨v, ls'⟩
      · simp [exec, hn, hr] at h
      · simp only [exec, hn, hr, Option.some.injEq, Prod.mk.injEq] at h
        obtain ⟨rfl, rfl⟩ := h
        exact .cons hn (run_of_exec hr)

/-- A computed run with a property that can be decided. -/
theorem exists_run_of_exec (next : σ → ε → Option (σ × δ)) (s : σ) (es : List ε)
    (P : σ → List (ε × δ) → Prop) [∀ u ls, Decidable (P u ls)]
    (h : (exec next s es).any (fun r => decide (P r.1 r.2)) = true) :
    ∃ ls u, Run (ofFun next) s ls u ∧ P u ls := by
  obtain ⟨⟨u, ls⟩, hr, hp⟩ := (Option.any_eq_true _ _).mp h
  exact ⟨ls, u, run_of_exec hr, of_decide_eq_true hp⟩

/-! ### Two runs side by side -/

section Twin

variable {ω : Type*}

/-- Every state the events lead to is good. -/
def Stays (next : σ → ε → Option (σ × δ)) (Good : σ → Prop) : σ → List ε → Prop
  | _, [] => True
  | s, e :: es =>
    match next s e with
    | none => True
    | some (t, _) => Good t ∧ Stays next Good t es

instance Stays.decidable {next : σ → ε → Option (σ × δ)} {Good : σ → Prop} [DecidablePred Good] :
    ∀ (s : σ) (es : List ε), Decidable (Stays next Good s es)
  | _, [] => .isTrue trivial
  | s, e :: es =>
    match h : next s e with
    | none => .isTrue (by simp [Stays, h])
    | some (t, _) =>
      have : Decidable (Stays next Good t es) := Stays.decidable t es
      decidable_of_iff (Good t ∧ Stays next Good t es) (by simp [Stays, h])

/-- Two steps show the same and lead to related states; if one is impossible, so is the
other. Nothing is asked once a state is no longer good. -/
def Matches (obs : δ → ω) (Good : σ → Prop) (Rel : σ → σ → Prop) :
    Option (σ × δ) → Option (σ × δ) → Prop
  | none, none => True
  | some (s, d), some (t, d') => Good s → Good t → obs d = obs d' ∧ Rel s t
  | _, _ => False

/-- **Two runs driven by related events from related states show the same**, if every
pair of related steps does. -/
theorem exec_map_obs_eq {next : σ → ε → Option (σ × δ)} {obs : δ → ω} {Good : σ → Prop}
    {Rel : σ → σ → Prop} {Ev : ε → ε → Prop}
    (hstep : ∀ s t e f, Rel s t → Ev e f → Matches obs Good Rel (next s e) (next t f))
    {es fs : List ε} (hev : List.Forall₂ Ev es fs) {s t : σ} (hrel : Rel s t)
    (hs : Stays next Good s es) (ht : Stays next Good t fs) :
    (exec next s es).map (fun r => r.2.map fun l => obs l.2) =
      (exec next t fs).map (fun r => r.2.map fun l => obs l.2) := by
  induction hev generalizing s t with
  | nil => rfl
  | @cons e f es fs hef _ ih =>
    have hm := hstep s t e f hrel hef
    rcases hn : next s e with - | ⟨s', d⟩ <;> rcases hn' : next t f with - | ⟨t', d'⟩
    · simp [exec, hn, hn']
    · simp [hn, hn', Matches] at hm
    · simp [hn, hn', Matches] at hm
    · simp only [Stays, hn] at hs
      simp only [Stays, hn'] at ht
      rw [hn, hn'] at hm
      obtain ⟨hobs, hrel'⟩ := hm hs.1 ht.1
      have hih := ih hrel' hs.2 ht.2
      simp only [exec, hn, hn']
      generalize exec next s' es = x at hih ⊢
      generalize exec next t' fs = y at hih ⊢
      rcases x with - | ⟨u, ls⟩ <;> rcases y with - | ⟨v, ks⟩
      · rfl
      · cases hih
      · cases hih
      · have hls := Option.some.inj hih
        exact congrArg some (congrArg₂ List.cons hobs hls)

end Twin

end Lts
