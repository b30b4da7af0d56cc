import Mathlib.Algebra.Order.Ring.Nat
import Symbolon.Lib.Run

/-!
# One worker and its callers

A **call** prepares a request, puts it into a queue and waits. One **worker** takes the requests
in order, works on each with a device that nobody else touches, and hands the result to the call
over a channel that is good for one value; the call makes its answer of it. Callers come and
leave at any time. At the first failure the worker hands it over, shuts its end of the device and
stops; the jobs that are left are dropped, and whoever waits for one of them, or comes later, is
told that the worker is dead.

What a call does and what is done for one job are parameters (`Worker.Service`): the stages of
the work, and what the device does of itself. That a service answers requests (`Worker.Serves`)
is a statement about one job and a device at rest, without callers and queues. From it follows
for all runs

* that **no caller gets the answer to another's request** (`Worker.Sound.of_run`),
* that **after a failure no caller gets an answer** (`Worker.unanswered_of_run`), and
* that **no caller waits for ever**: while one waits there is a step to take
  (`Worker.Sound.exists_step`), and there are only so many before somebody calls again
  (`Worker.length_le_work`).
-/

namespace Worker

variable {γ ρ β α ε ω δ ℓ : Type*}

/-! ### The machine -/

/-- A channel for one value. -/
inductive Oneshot (β ε : Type*)
  /-- Nothing has been sent. -/
  | empty
  /-- The result. -/
  | value (result : Except ε β)
  /-- The sender is gone. -/
  | closed

/-- What the receiver gets, when it gets something. -/
def Oneshot.received (dead : ε) : Oneshot β ε → Option (Except ε β)
  | .empty => none
  | .value result => some result
  | .closed => some (.error dead)

/-- What has become of a call. -/
inductive Status (ρ α ε : Type*)
  /-- It waits, and has its request at hand. -/
  | waiting (request : ρ)
  /-- The caller has left. -/
  | left
  /-- It has returned. -/
  | done (outcome : Except ε α)

/-- A call that was made. -/
structure Caller (γ ρ β α ε : Type*) where
  /-- Which. -/
  call : γ
  /-- Its channel. -/
  reply : Oneshot β ε
  /-- What has become of it. -/
  status : Status ρ α ε

/-- A request, with the call that waits for the result. -/
structure Job (ρ : Type*) where
  /-- The call. -/
  caller : ℕ
  /-- The request. -/
  request : ρ

/-- Where the worker is. -/
inductive Phase (ρ β ε ω : Type*)
  /-- It waits for a job. -/
  | idle
  /-- It works on one. -/
  | working (job : Job ρ) (stage : ω)
  /-- It hands over the result. -/
  | replying (job : Job ρ) (result : Except ε β)
  /-- It stops. -/
  | closing
  /-- It is gone, and its end of the queue with it. -/
  | gone

/-- The job in hand. -/
def Phase.inHand : Phase ρ β ε ω → List (Job ρ)
  | .working job _ | .replying job _ => [job]
  | .idle | .closing | .gone => []

/-- **The worker, its device and its callers.** -/
structure State (γ ρ β α ε ω δ : Type*) where
  /-- The calls, in their order. -/
  calls : List (Caller γ ρ β α ε)
  /-- The jobs that wait for the worker. -/
  queue : List (Job ρ)
  /-- Nobody will call again. -/
  dropped : Bool
  /-- The worker. -/
  phase : Phase ρ β ε ω
  /-- Its device. -/
  device : δ

/-- Nothing has happened. -/
def State.init (device : δ) : State γ ρ β α ε ω δ := ⟨[], [], false, .idle, device⟩

/-- The jobs that have not been replied to. -/
def State.jobs (s : State γ ρ β α ε ω δ) : List (Job ρ) := s.phase.inHand ++ s.queue

/-- **What a call does, and what is done for one job.** -/
structure Service (γ ρ β α ε ω δ ℓ : Type*) where
  /-- What a caller is told when the worker is gone. -/
  dead : ε
  /-- What a call does before there is a job for it. -/
  prepare : γ → Except ε ρ
  /-- What it makes of the result. -/
  finish : ρ → β → Except ε α
  /-- The stage that the work on a request begins with. -/
  first : ρ → ω
  /-- A step of the work: it goes on, or has a result. -/
  work : ω → δ → ℓ → ω ⊕ Except ε β → δ → Prop
  /-- A step of the device by itself. -/
  alone : δ → ℓ → δ → Prop
  /-- The worker's end of the device is shut. -/
  shut : δ → δ
  /-- The worker can go when its end is shut. -/
  Released : δ → Prop

/-- What happens. -/
inductive Label (γ ℓ : Type*)
  /-- A call is made. -/
  | call (call : γ)
  /-- A caller leaves. -/
  | leave (i : ℕ)
  /-- A call gets its result, and returns. -/
  | wake (i : ℕ)
  /-- Nobody will call again. -/
  | drop
  /-- The worker asks for the next job. -/
  | take
  /-- The worker works. -/
  | work (l : ℓ)
  /-- The device does something. -/
  | alone (l : ℓ)
  /-- The worker hands over a result. -/
  | reply
  /-- The worker is gone. -/
  | close

section Machine

variable (S : Service γ ρ β α ε ω δ ℓ)

/-- The worker goes on, or stops after a failure. -/
def State.deliver (s : State γ ρ β α ε ω δ) (job : Job ρ) (result : Except ε β) :
    State γ ρ β α ε ω δ :=
  { s with
    calls := s.calls.modify job.caller ({ · with reply := .value result })
    phase := match result with
      | .ok _ => .idle
      | .error _ => .closing
    device := match result with
      | .ok _ => s.device
      | .error _ => S.shut s.device }

/-- The jobs that are left are dropped, and the senders in them. -/
def State.close (s : State γ ρ β α ε ω δ) : State γ ρ β α ε ω δ :=
  { s with
    calls := s.calls.mapIdx fun i c =>
      if i ∈ s.queue.map Job.caller then { c with reply := .closed } else c
    queue := []
    phase := .gone }

/-- **The steps.** -/
inductive Step (s : State γ ρ β α ε ω δ) : Label γ ℓ → State γ ρ β α ε ω δ → Prop
  /-- A call has no request to make. -/
  | refused {c : γ} {e : ε} (hopen : s.dropped = false) (hprepare : S.prepare c = .error e) :
      Step s (.call c) { s with calls := s.calls ++ [⟨c, .closed, .done (.error e)⟩] }
  /-- There is nobody to do it. -/
  | dead {c : γ} {r : ρ} (hopen : s.dropped = false) (hprepare : S.prepare c = .ok r)
      (hgone : s.phase = .gone) :
      Step s (.call c) { s with calls := s.calls ++ [⟨c, .closed, .done (.error S.dead)⟩] }
  /-- A request is queued. -/
  | queued {c : γ} {r : ρ} (hopen : s.dropped = false) (hprepare : S.prepare c = .ok r)
      (hlive : s.phase ≠ .gone) :
      Step s (.call c)
        { s with
          calls := s.calls ++ [⟨c, .empty, .waiting r⟩]
          queue := s.queue ++ [⟨s.calls.length, r⟩] }
  /-- A caller leaves. -/
  | leave {i : ℕ} {c : Caller γ ρ β α ε} {r : ρ} (hc : s.calls[i]? = some c)
      (hwait : c.status = .waiting r) :
      Step s (.leave i) { s with calls := s.calls.modify i ({ · with status := .left }) }
  /-- A call returns. -/
  | wake {i : ℕ} {c : Caller γ ρ β α ε} {r : ρ} {result : Except ε β}
      (hc : s.calls[i]? = some c) (hwait : c.status = .waiting r)
      (hres : c.reply.received S.dead = some result) :
      Step s (.wake i)
        { s with
          calls := s.calls.modify i ({ · with status := .done (result.bind (S.finish r)) }) }
  /-- Nobody will call again; nobody waits, either. -/
  | drop (hopen : s.dropped = false)
      (hidle : ∀ (i : ℕ) (c : Caller γ ρ β α ε), s.calls[i]? = some c →
        ∀ r, c.status ≠ .waiting r) :
      Step s .drop { s with dropped := true }
  /-- The worker takes a job. -/
  | take {job : Job ρ} {queue : List (Job ρ)} (hp : s.phase = .idle)
      (hq : s.queue = job :: queue) :
      Step s .take { s with queue := queue, phase := .working job (S.first job.request) }
  /-- The queue is empty and closed. -/
  | finish (hp : s.phase = .idle) (hq : s.queue = []) (hdropped : s.dropped = true) :
      Step s .take { s with phase := .closing, device := S.shut s.device }
  /-- The work goes on. -/
  | work {job : Job ρ} {stage stage' : ω} {l : ℓ} {d : δ} (hp : s.phase = .working job stage)
      (hw : S.work stage s.device l (.inl stage') d) :
      Step s (.work l) { s with phase := .working job stage', device := d }
  /-- The work has a result. -/
  | result {job : Job ρ} {stage : ω} {l : ℓ} {result : Except ε β} {d : δ}
      (hp : s.phase = .working job stage) (hw : S.work stage s.device l (.inr result) d) :
      Step s (.work l) { s with phase := .replying job result, device := d }
  /-- The device does something. -/
  | alone {l : ℓ} {d : δ} (ha : S.alone s.device l d) : Step s (.alone l) { s with device := d }
  /-- The result is handed over, whether somebody waits for it or not. -/
  | reply {job : Job ρ} {result : Except ε β} (hp : s.phase = .replying job result) :
      Step s .reply (s.deliver S job result)
  /-- The worker is gone. -/
  | close (hp : s.phase = .closing) (hreleased : S.Released s.device) : Step s .close s.close

/-- The runs. -/
abbrev Run : State γ ρ β α ε ω δ → List (Label γ ℓ) → State γ ρ β α ε ω δ → Prop :=
  Lts.Run (Step S)

end Machine

variable {S : Service γ ρ β α ε ω δ ℓ} {s t : State γ ρ β α ε ω δ} {l : Label γ ℓ}

/-! ### What becomes of a call -/

/-- **What becomes of a call in a step.** -/
inductive Becomes (S : Service γ ρ β α ε ω δ ℓ) (s : State γ ρ β α ε ω δ) (i : ℕ)
    (d : Caller γ ρ β α ε) : Prop
  /-- Nothing. -/
  | same (hc : s.calls[i]? = some d)
  /-- It is new, and has failed. -/
  | failed {c : γ} {e : ε} (hd : d = ⟨c, .closed, .done (.error e)⟩)
  /-- It is new, and queued. -/
  | queued {c : γ} {r : ρ} (hprepare : S.prepare c = .ok r) (hd : d = ⟨c, .empty, .waiting r⟩)
  /-- The caller has left. -/
  | left {c : Caller γ ρ β α ε} (hc : s.calls[i]? = some c) (hd : d = { c with status := .left })
  /-- It has returned. -/
  | woken {c : Caller γ ρ β α ε} {r : ρ} {result : Except ε β} (hc : s.calls[i]? = some c)
      (hwait : c.status = .waiting r) (hres : c.reply.received S.dead = some result)
      (hd : d = { c with status := .done (result.bind (S.finish r)) })
  /-- It has been handed a result. -/
  | replied {c : Caller γ ρ β α ε} {job : Job ρ} {result : Except ε β}
      (hc : s.calls[i]? = some c) (hp : s.phase = .replying job result) (hi : i = job.caller)
      (hd : d = { c with reply := .value result })
  /-- Its job has been dropped. -/
  | closed {c : Caller γ ρ β α ε} (hc : s.calls[i]? = some c) (hd : d = { c with reply := .closed })

section Calls

variable {calls : List (Caller γ ρ β α ε)} {i j : ℕ} {c d : Caller γ ρ β α ε}
  {f : Caller γ ρ β α ε → Caller γ ρ β α ε}

/-- One call is changed. -/
theorem getElem?_modify_cases (h : (calls.modify j f)[i]? = some d) :
    i ≠ j ∧ calls[i]? = some d ∨ i = j ∧ ∃ c, calls[i]? = some c ∧ d = f c := by
  rw [List.getElem?_modify] at h
  obtain ⟨c, hc, rfl⟩ := Option.map_eq_some_iff.mp h
  by_cases hij : j = i
  · rw [if_pos hij]
    exact .inr ⟨hij.symm, c, hc, rfl⟩
  · rw [if_neg hij]
    exact .inl ⟨Ne.symm hij, hc⟩

/-- A call is added. -/
theorem getElem?_snoc_cases (h : (calls ++ [c])[i]? = some d) :
    calls[i]? = some d ∨ i = calls.length ∧ d = c := by
  rcases Nat.lt_or_ge i calls.length with hlt | hge
  · rw [List.getElem?_append_left hlt] at h
    exact .inl h
  · rw [List.getElem?_append_right hge, List.getElem?_singleton] at h
    split at h
    · rename_i hi
      exact .inr ⟨by omega, (Option.some.inj h).symm⟩
    · cases h

end Calls

theorem Step.becomes (h : Step S s l t) {i : ℕ} {d : Caller γ ρ β α ε}
    (hd : t.calls[i]? = some d) : Becomes S s i d := by
  cases h with
  | refused _ _ | dead _ _ _ =>
    rcases getElem?_snoc_cases hd with hc | ⟨-, hd⟩
    · exact .same hc
    · exact .failed hd
  | queued _ hprepare _ =>
    rcases getElem?_snoc_cases hd with hc | ⟨-, hd⟩
    · exact .same hc
    · exact .queued hprepare hd
  | leave hc hwait =>
    rcases getElem?_modify_cases hd with ⟨-, hc⟩ | ⟨rfl, c, hc, hd⟩
    · exact .same hc
    · exact .left hc hd
  | wake hc hwait hres =>
    rcases getElem?_modify_cases hd with ⟨-, hc⟩ | ⟨rfl, c', hc', hd⟩
    · exact .same hc
    · cases hc.symm.trans hc'
      exact .woken hc hwait hres hd
  | reply hp =>
    rcases getElem?_modify_cases hd with ⟨-, hc⟩ | ⟨hi, c, hc, hd⟩
    · exact .same hc
    · exact .replied hc hp hi hd
  | close hp _ =>
    rw [State.close, List.getElem?_mapIdx] at hd
    obtain ⟨c, hc, rfl⟩ := Option.map_eq_some_iff.mp hd
    split
    · exact .closed hc rfl
    · exact .same hc
  | _ => exact .same hd

/-- A call stays the call that it is. -/
theorem Step.call_eq (h : Step S s l t) {i : ℕ} {c : Caller γ ρ β α ε}
    (hc : s.calls[i]? = some c) : ∃ d, t.calls[i]? = some d ∧ d.call = c.call := by
  have hmodify : ∀ (j : ℕ) (f : Caller γ ρ β α ε → Caller γ ρ β α ε),
      (∀ c, (f c).call = c.call) →
      ∃ d, (s.calls.modify j f)[i]? = some d ∧ d.call = c.call := fun j f hf => by
    rw [List.getElem?_modify, hc]
    by_cases hij : j = i
    · exact ⟨f c, by simp [hij], hf c⟩
    · exact ⟨c, by simp [hij], rfl⟩
  have hsnoc : ∀ c' : Caller γ ρ β α ε, (s.calls ++ [c'])[i]? = some c := fun c' => by
    rw [List.getElem?_append_left (List.getElem?_eq_some_iff.mp hc).1, hc]
  cases h with
  | refused | dead | queued => exact ⟨c, hsnoc _, rfl⟩
  | leave | wake | reply => exact hmodify _ _ fun _ => rfl
  | close =>
    refine ⟨if i ∈ s.queue.map Job.caller then { c with reply := .closed } else c, ?_, ?_⟩
    · rw [State.close, List.getElem?_mapIdx, hc]
      rfl
    · split <;> rfl
  | _ => exact ⟨c, hc, rfl⟩

/-! ### Whose answer it is -/

/-- **A service that answers requests.** `Rest` are the devices at rest, `On` says that the work
on a request is on its course, and `Shut` are the devices whose end is shut. -/
structure Serves (S : Service γ ρ β α ε ω δ ℓ) (Answers : ρ → β → Prop) (Rest : δ → Prop)
    (On : ω → ρ → δ → Prop) (Shut : δ → Prop) : Prop where
  /-- Work begins with a device at rest. -/
  first : ∀ r d, Rest d → On (S.first r) r d
  /-- It stays on its course. -/
  work : ∀ stage r d l stage' d', On stage r d → S.work stage d l (.inl stage') d' →
    On stage' r d'
  /-- Its result is an answer, and leaves the device at rest. -/
  result : ∀ stage r d l b d', On stage r d → S.work stage d l (.inr (.ok b)) d' →
    Answers r b ∧ Rest d'
  /-- A device at rest stays so. -/
  alone_rest : ∀ d l d', Rest d → S.alone d l d' → Rest d'
  /-- The device does not throw the work off its course. -/
  alone_on : ∀ stage r d l d', On stage r d → S.alone d l d' → On stage r d'
  /-- An end is shut for good. -/
  shut : ∀ d, Shut (S.shut d)
  /-- Whatever the device does. -/
  alone_shut : ∀ d l d', Shut d → S.alone d l d' → Shut d'

section Sound

variable (S : Service γ ρ β α ε ω δ ℓ) (Answers : ρ → β → Prop) (Rest : δ → Prop)
  (On : ω → ρ → δ → Prop) (Shut : δ → Prop)

/-- What a call has heard is an answer to its own request, or a failure. -/
structure Caller.Own (c : Caller γ ρ β α ε) : Prop where
  /-- What it waits with. -/
  waiting : ∀ r, c.status = .waiting r → S.prepare c.call = .ok r
  /-- What it was handed. -/
  value : ∀ b, c.reply = .value (.ok b) → ∃ r, S.prepare c.call = .ok r ∧ Answers r b
  /-- What it returned. -/
  done : ∀ a, c.status = .done (.ok a) → ∃ r b, S.prepare c.call = .ok r ∧ Answers r b ∧
    S.finish r b = .ok a

/-- The work in hand is on its course. -/
def State.OnCourse (s : State γ ρ β α ε ω δ) : Prop :=
  match s.phase with
  | .idle => Rest s.device
  | .working job stage => On stage job.request s.device
  | .replying job (.ok b) => Answers job.request b ∧ Rest s.device
  | .closing => Shut s.device
  | .replying _ (.error _) | .gone => True

/-- **Nothing is lost**: a job is for a call, and asks what the call asks; a call that waits for
its reply has a job. -/
structure State.Books (s : State γ ρ β α ε ω δ) : Prop where
  /-- The jobs. -/
  job : ∀ job ∈ s.jobs, ∃ c, s.calls[job.caller]? = some c ∧ S.prepare c.call = .ok job.request
  /-- Who waits for a reply. -/
  owned : ∀ (i : ℕ) (c : Caller γ ρ β α ε), s.calls[i]? = some c → c.reply = .empty →
    i ∈ s.jobs.map Job.caller
  /-- When the worker is gone, so is the queue. -/
  gone : s.phase = .gone → s.queue = []

/-- **The invariant.** -/
structure Sound (s : State γ ρ β α ε ω δ) : Prop where
  /-- The calls. -/
  own : ∀ (i : ℕ) (c : Caller γ ρ β α ε), s.calls[i]? = some c → c.Own S Answers
  /-- The work. -/
  onCourse : s.OnCourse Answers Rest On Shut
  /-- The queue. -/
  books : s.Books S

end Sound

section Steps

variable {Answers : ρ → β → Prop} {Rest : δ → Prop} {On : ω → ρ → δ → Prop} {Shut : δ → Prop}

theorem value_of_received {dead : ε} {reply : Oneshot β ε} {b : β}
    (h : reply.received dead = some (.ok b)) : reply = .value (.ok b) := by
  cases reply with
  | empty => cases h
  | value result => rw [Option.some.inj h]
  | closed => cases h

/-- A call that returns an answer has made it of a result. -/
theorem exists_of_bind_eq_ok {result : Except ε β} {f : β → Except ε α} {a : α}
    (h : result.bind f = .ok a) : ∃ b, result = .ok b ∧ f b = .ok a := by
  cases result with
  | error e => cases h
  | ok b => exact ⟨b, rfl, h⟩

theorem Step.own (h : Step S s l t) (hs : Sound S Answers Rest On Shut s) {i : ℕ}
    {d : Caller γ ρ β α ε} (hd : t.calls[i]? = some d) : d.Own S Answers := by
  cases h.becomes hd with
  | same hc => exact hs.own i d hc
  | failed hd =>
    subst hd
    exact ⟨fun r hr => (by cases hr), fun b hb => (by cases hb), fun a ha => (by cases ha)⟩
  | queued hprepare hd =>
    subst hd
    refine ⟨fun r hr => ?_, fun b hb => (by cases hb), fun a ha => (by cases ha)⟩
    cases hr
    exact hprepare
  | left hc hd =>
    subst hd
    exact ⟨fun r hr => (by cases hr), (hs.own i _ hc).value, fun a ha => (by cases ha)⟩
  | woken hc hwait hres hd =>
    subst hd
    have hown := hs.own i _ hc
    refine ⟨fun r hr => (by cases hr), hown.value, fun a ha => ?_⟩
    obtain ⟨b, rfl, hfinish⟩ := exists_of_bind_eq_ok (Status.done.inj ha)
    obtain ⟨r, hprepare, hanswer⟩ := hown.value b (value_of_received hres)
    cases hprepare.symm.trans (hown.waiting _ hwait)
    exact ⟨_, b, hprepare, hanswer, hfinish⟩
  | @replied c job result hc hp hi hd =>
    subst hd
    have hown := hs.own i _ hc
    refine ⟨hown.waiting, fun b hb => ?_, hown.done⟩
    cases Oneshot.value.inj hb
    -- the job in hand is this call's
    have hmem : job ∈ s.jobs := by simp [State.jobs, hp, Phase.inHand]
    obtain ⟨c', hc', hprepare⟩ := hs.books.job job hmem
    cases (hi ▸ hc).symm.trans hc'
    have hcourse := hs.onCourse
    simp only [State.OnCourse, hp] at hcourse
    exact ⟨job.request, hprepare, hcourse.1⟩
  | closed hc hd =>
    subst hd
    exact ⟨(hs.own i _ hc).waiting, fun b hb => (by cases hb), (hs.own i _ hc).done⟩

theorem Step.onCourse (hS : Serves S Answers Rest On Shut) (h : Step S s l t)
    (hs : s.OnCourse Answers Rest On Shut) : t.OnCourse Answers Rest On Shut := by
  cases h with
  | refused | dead | queued | leave | wake | drop => exact hs
  | take hp hq =>
    simp only [State.OnCourse, hp] at hs
    exact hS.first _ _ hs
  | finish => exact hS.shut _
  | work hp hw =>
    simp only [State.OnCourse, hp] at hs
    exact hS.work _ _ _ _ _ _ hs hw
  | @result job stage l result d hp hw =>
    simp only [State.OnCourse, hp] at hs
    cases result with
    | ok b => exact hS.result _ _ _ _ _ _ hs hw
    | error e => trivial
  | alone ha =>
    simp only [State.OnCourse] at hs ⊢
    split at hs
    · exact hS.alone_rest _ _ _ hs ha
    · exact hS.alone_on _ _ _ _ _ hs ha
    · exact ⟨hs.1, hS.alone_rest _ _ _ hs.2 ha⟩
    · exact hS.alone_shut _ _ _ hs ha
    all_goals trivial
  | @reply job result hp =>
    simp only [State.OnCourse, hp] at hs
    cases result with
    | ok b => exact hs.2
    | error e => exact hS.shut _
  | close => trivial

/-- The books say nothing of the statuses, nor of the device. -/
theorem State.Books.of_jobs (hs : s.Books S) (h : Step S s l t) (hjobs : t.jobs = s.jobs)
    (hempty : ∀ (i : ℕ) (d : Caller γ ρ β α ε), t.calls[i]? = some d → d.reply = .empty →
      ∃ c, s.calls[i]? = some c ∧ c.reply = .empty)
    (hgone : t.phase = .gone → t.queue = []) : t.Books S := by
  refine ⟨fun job hjob => ?_, fun i d hd hd' => ?_, hgone⟩
  · obtain ⟨c, hc, hprepare⟩ := hs.job job (hjobs ▸ hjob)
    obtain ⟨d, hd, hcall⟩ := h.call_eq hc
    exact ⟨d, hd, hcall ▸ hprepare⟩
  · obtain ⟨c, hc, hc'⟩ := hempty i d hd hd'
    exact hjobs ▸ hs.owned i c hc hc'

theorem Step.books (h : Step S s l t) (hs : s.Books S) : t.Books S := by
  have hsame := hs.of_jobs h
  have hcall : ∀ job ∈ s.jobs,
      ∃ d, t.calls[job.caller]? = some d ∧ S.prepare d.call = .ok job.request := by
    intro job hjob
    obtain ⟨c, hc, hprepare⟩ := hs.job job hjob
    obtain ⟨d, hd, heq⟩ := h.call_eq hc
    exact ⟨d, hd, heq ▸ hprepare⟩
  cases h with
  | refused _ _ | dead _ _ _ =>
    refine hsame rfl (fun i d hd hempty => ?_) hs.gone
    rcases getElem?_snoc_cases hd with hc | ⟨-, rfl⟩
    · exact ⟨d, hc, hempty⟩
    · cases hempty
  | @queued c r hopen hprepare hlive =>
    have hjobs : ({ s with
        calls := s.calls ++ [⟨c, .empty, .waiting r⟩]
        queue := s.queue ++ [⟨s.calls.length, r⟩] } : State γ ρ β α ε ω δ).jobs =
        s.jobs ++ [⟨s.calls.length, r⟩] := (List.append_assoc ..).symm
    refine ⟨fun job hjob => ?_, fun i d hd hempty => ?_, fun hgone => absurd hgone hlive⟩
    · rcases List.mem_append.mp (hjobs ▸ hjob) with hold | hnew
      · exact hcall job hold
      · rw [List.mem_singleton.mp hnew]
        exact ⟨_, List.getElem?_concat_length, hprepare⟩
    · rw [hjobs, List.map_append, List.mem_append]
      rcases getElem?_snoc_cases hd with hc | ⟨rfl, -⟩
      · exact .inl (hs.owned i d hc hempty)
      · exact .inr (List.mem_singleton_self _)
  | leave _ _ | wake _ _ _ =>
    refine hsame rfl (fun i d hd hempty => ?_) hs.gone
    rcases getElem?_modify_cases hd with ⟨-, hc⟩ | ⟨rfl, c, hc, rfl⟩
    · exact ⟨d, hc, hempty⟩
    · exact ⟨c, hc, hempty⟩
  -- the job in hand passes from one stage to the next
  | take hp hq =>
    exact hsame (by simp [State.jobs, hp, hq, Phase.inHand]) (fun i d hd he => ⟨d, hd, he⟩) nofun
  | finish hp hq _ =>
    exact hsame (by simp [State.jobs, hp, hq, Phase.inHand]) (fun i d hd he => ⟨d, hd, he⟩) nofun
  | work hp _ =>
    exact hsame (by simp [State.jobs, hp, Phase.inHand]) (fun i d hd he => ⟨d, hd, he⟩) nofun
  | result hp _ =>
    exact hsame (by simp [State.jobs, hp, Phase.inHand]) (fun i d hd he => ⟨d, hd, he⟩) nofun
  | drop => exact hsame rfl (fun i d hd he => ⟨d, hd, he⟩) hs.gone
  | alone => exact hsame rfl (fun i d hd he => ⟨d, hd, he⟩) hs.gone
  | @reply job result hp =>
    -- the call in hand has its reply now
    have hjobs : s.jobs = job :: (s.deliver S job result).jobs := by
      simp only [State.jobs, State.deliver, hp]
      cases result <;> rfl
    refine ⟨fun job' hjob' => hcall job' (hjobs ▸ List.mem_cons_of_mem _ hjob'),
      fun i d hd hempty => ?_, fun hgone => ?_⟩
    · rcases getElem?_modify_cases hd with ⟨hne, hc⟩ | ⟨-, c, hc, rfl⟩
      · have hmem := hs.owned i d hc hempty
        rw [hjobs, List.map_cons, List.mem_cons] at hmem
        exact hmem.resolve_left hne
      · cases hempty
    · cases result <;> cases hgone
  | close hp _ =>
    have hjobs : s.jobs = s.queue := by simp [State.jobs, hp, Phase.inHand]
    refine ⟨fun job hjob => absurd hjob List.not_mem_nil, fun i d hd hempty => ?_, fun _ => rfl⟩
    -- who is in the queue is told that the worker is gone
    rw [State.close, List.getElem?_mapIdx] at hd
    obtain ⟨c, hc, rfl⟩ := Option.map_eq_some_iff.mp hd
    split at hempty
    · cases hempty
    · rename_i hnot
      exact absurd (hjobs ▸ hs.owned i c hc hempty) hnot

theorem Sound.step (hS : Serves S Answers Rest On Shut) (hs : Sound S Answers Rest On Shut s)
    (h : Step S s l t) : Sound S Answers Rest On Shut t :=
  ⟨fun _ _ hd => h.own hs hd, h.onCourse hS hs.onCourse, h.books hs.books⟩

/-- **No caller gets the answer to another's request.** -/
theorem Sound.of_run (hS : Serves S Answers Rest On Shut) {d : δ} (hd : Rest d)
    {ls : List (Label γ ℓ)} (h : Run S (.init d) ls s) : Sound S Answers Rest On Shut s := by
  refine h.invariant (fun _ _ _ hs hstep => hs.step hS hstep) ⟨fun i c hc => ?_, hd, ?_⟩
  · simp [State.init] at hc
  · exact ⟨fun job hjob => absurd hjob List.not_mem_nil,
      fun i c hc => by simp [State.init] at hc, nofun⟩

end Steps

/-! ### After a failure -/

/-- The worker has failed, or has stopped. -/
def Phase.GivesUp : Phase ρ β ε ω → Prop
  | .replying _ (.error _) | .closing | .gone => True
  | .idle | .working .. | .replying _ (.ok _) => False

/-- The call has no answer. -/
structure Caller.Unanswered (c : Caller γ ρ β α ε) : Prop where
  /-- It was not handed one. -/
  value : ∀ b, c.reply ≠ .value (.ok b)
  /-- It has not returned one. -/
  done : ∀ a, c.status ≠ .done (.ok a)

theorem Step.givesUp (h : Step S s l t) (hs : s.phase.GivesUp) : t.phase.GivesUp := by
  cases h with
  | take hp _ => rw [hp] at hs; exact hs.elim
  | work hp _ => rw [hp] at hs; exact hs.elim
  | result hp _ => rw [hp] at hs; exact hs.elim
  | @reply job result hp =>
    rw [hp] at hs
    cases result with
    | ok b => exact hs.elim
    | error e => trivial
  | finish => trivial
  | close => trivial
  | _ => exact hs

/-- Once the worker gives up, a call without an answer stays without. -/
theorem Step.unanswered (h : Step S s l t) (hs : s.phase.GivesUp) {i : ℕ}
    (hi : ∀ c, s.calls[i]? = some c → c.Unanswered) {d : Caller γ ρ β α ε}
    (hd : t.calls[i]? = some d) : d.Unanswered := by
  cases h.becomes hd with
  | same hc => exact hi d hc
  | failed hd | queued _ hd =>
    subst hd
    exact ⟨fun b hb => (by cases hb), fun a ha => (by cases ha)⟩
  | left hc hd =>
    subst hd
    exact ⟨(hi _ hc).value, fun a ha => by cases ha⟩
  | woken hc _ hres hd =>
    subst hd
    refine ⟨(hi _ hc).value, fun a ha => ?_⟩
    obtain ⟨b, rfl, -⟩ := exists_of_bind_eq_ok (Status.done.inj ha)
    exact (hi _ hc).value b (value_of_received hres)
  | replied hc hp _ hd =>
    -- what is handed over is the failure
    subst hd
    refine ⟨fun b hb => ?_, (hi _ hc).done⟩
    cases Oneshot.value.inj hb
    rw [hp] at hs
    exact hs
  | closed hc hd =>
    subst hd
    exact ⟨fun b hb => (by cases hb), (hi _ hc).done⟩

/-- **After a failure no caller gets an answer.** -/
theorem unanswered_of_run {ls : List (Label γ ℓ)} (h : Run S s ls t) (hs : s.phase.GivesUp) {i : ℕ}
    (hi : ∀ c, s.calls[i]? = some c → c.Unanswered) {d : Caller γ ρ β α ε}
    (hd : t.calls[i]? = some d) : d.Unanswered := by
  have hinv : t.phase.GivesUp ∧ ∀ c, t.calls[i]? = some c → c.Unanswered :=
    h.invariant (I := fun u => u.phase.GivesUp ∧ ∀ c, u.calls[i]? = some c → c.Unanswered)
      (fun _ _ _ hu hstep => ⟨hstep.givesUp hu.1, fun _ hc => hstep.unanswered hu.1 hu.2 hc⟩)
      ⟨hs, hi⟩
  exact hinv.2 d hd

/-- So it returns an error, if it returns. -/
theorem Caller.Unanswered.exists_error {c : Caller γ ρ β α ε} (h : c.Unanswered)
    {outcome : Except ε α} (hdone : c.status = .done outcome) : ∃ e, outcome = .error e := by
  cases outcome with
  | error e => exact ⟨e, rfl⟩
  | ok a => exact absurd hdone (h.done a)

/-! ### Nobody waits for ever -/

/-- **How much there is to do.** Steps with a label that `stalls` do not count. -/
structure Effort (S : Service γ ρ β α ε ω δ ℓ) where
  /-- The steps that get nowhere. -/
  stalls : ℓ → Prop
  /-- How much is left of a job. -/
  need : ω → δ → ℕ
  /-- How much a device has to do that nobody waits for. -/
  spare : δ → ℕ
  /-- How much a request takes. -/
  cost : ρ → ℕ
  /-- A job takes no more than its request does. -/
  first : ∀ r d, need (S.first r) d ≤ cost r + spare d
  /-- Work takes something off. -/
  work : ∀ stage d l stage' d', ¬stalls l → S.work stage d l (.inl stage') d' →
    need stage' d' < need stage d
  /-- So does a result. -/
  result : ∀ stage d l result d', S.work stage d l (.inr result) d' → spare d' < need stage d
  /-- So does the device, if somebody waits for it. -/
  alone_need : ∀ stage d l d', ¬stalls l → S.alone d l d' → need stage d' < need stage d
  /-- And if nobody does. -/
  alone_spare : ∀ d l d', ¬stalls l → S.alone d l d' → spare d' < spare d
  /-- A shut end leaves it no more. -/
  shut : ∀ d, spare (S.shut d) ≤ spare d

/-- Nobody calls, leaves or drops the worker, and what is done for a job is such. -/
def Label.Within (P : ℓ → Prop) : Label γ ℓ → Prop
  | .call _ | .leave _ | .drop => False
  | .work l | .alone l => P l
  | .wake _ | .take | .reply | .close => True

/-- A call that waits. -/
def Caller.waits (c : Caller γ ρ β α ε) : Bool :=
  match c.status with
  | .waiting _ => true
  | _ => false

/-- What is left of the job in hand. -/
def State.inHand (E : Effort S) (s : State γ ρ β α ε ω δ) : ℕ :=
  match s.phase with
  | .idle => 2 + E.spare s.device
  | .working _ stage => 3 + E.need stage s.device
  | .replying .. => 3 + E.spare s.device
  | .closing => 1 + E.spare s.device
  | .gone => E.spare s.device

/-- What a job in the queue takes. -/
def Job.cost (E : Effort S) (job : Job ρ) : ℕ := 2 + E.cost job.request

/-- **The most steps that are left** before somebody calls. -/
def State.work (E : Effort S) (s : State γ ρ β α ε ω δ) : ℕ :=
  s.calls.countP Caller.waits + (s.queue.map (Job.cost E)).sum + s.inHand E

section Effort

variable {E : Effort S}

/-- One call fewer waits when one returns. -/
theorem countP_waits_modify_lt {calls : List (Caller γ ρ β α ε)} {i : ℕ} {c : Caller γ ρ β α ε}
    {f : Caller γ ρ β α ε → Caller γ ρ β α ε} (hc : calls[i]? = some c) (hwait : c.waits = true)
    (hf : (f c).waits = false) :
    (calls.modify i f).countP Caller.waits < calls.countP Caller.waits := by
  induction calls generalizing i with
  | nil => simp at hc
  | cons d calls ih =>
    cases i with
    | zero =>
      cases hc
      simp [List.modify_zero_cons, hwait, hf]
    | succ i =>
      rw [List.getElem?_cons_succ] at hc
      have := ih hc
      simp only [List.modify_succ_cons, List.countP_cons]
      omega

theorem countP_waits_modify {calls : List (Caller γ ρ β α ε)} {i : ℕ}
    {f : Caller γ ρ β α ε → Caller γ ρ β α ε} (hf : ∀ c, (f c).waits = c.waits) :
    (calls.modify i f).countP Caller.waits = calls.countP Caller.waits := by
  induction calls generalizing i with
  | nil => cases i <;> rfl
  | cons d calls ih =>
    cases i with
    | zero => simp [List.modify_zero_cons, List.countP_cons, hf]
    | succ i => simp only [List.modify_succ_cons, List.countP_cons, ih]

theorem countP_waits_mapIdx {calls : List (Caller γ ρ β α ε)}
    {f : ℕ → Caller γ ρ β α ε → Caller γ ρ β α ε} (hf : ∀ i c, (f i c).waits = c.waits) :
    (calls.mapIdx f).countP Caller.waits = calls.countP Caller.waits := by
  induction calls generalizing f with
  | nil => rfl
  | cons c calls ih =>
    rw [List.mapIdx_cons, List.countP_cons, List.countP_cons, hf, ih fun i c => hf (i + 1) c]

/-- The worker gets on, and nobody calls or returns. -/
theorem work_lt_of_inHand (hwaits : t.calls.countP Caller.waits = s.calls.countP Caller.waits)
    (hqueue : t.queue = s.queue) (hhand : t.inHand E < s.inHand E) : t.work E < s.work E := by
  rw [State.work, State.work, hwaits, hqueue]
  omega

/-- **Every step but a call, a leave and a stall takes something off the work.** -/
theorem Step.work_lt (h : Step S s l t) (hl : l.Within fun l => ¬E.stalls l) :
    t.work E < s.work E := by
  cases h with
  | refused | dead | queued | leave | drop => exact hl.elim
  | @wake i c r result hc hwait hres =>
    have hlt := countP_waits_modify_lt
      (f := ({ · with status := .done (result.bind (S.finish r)) })) hc
      (by rw [Caller.waits, hwait]) rfl
    exact Nat.add_lt_add_right (Nat.add_lt_add_right hlt _) _
  | @take job queue hp hq =>
    have hfirst := E.first job.request s.device
    simp only [State.work, State.inHand, hp, hq, List.map_cons, List.sum_cons, Job.cost]
    omega
  | finish hp hq hdropped =>
    refine work_lt_of_inHand rfl rfl ?_
    have := E.shut s.device
    simp only [State.inHand, hp]
    omega
  | work hp hw =>
    refine work_lt_of_inHand rfl rfl ?_
    have := E.work _ _ _ _ _ hl hw
    simp only [State.inHand, hp]
    omega
  | result hp hw =>
    refine work_lt_of_inHand rfl rfl ?_
    have := E.result _ _ _ _ _ hw
    simp only [State.inHand, hp]
    omega
  | alone ha =>
    refine work_lt_of_inHand rfl rfl ?_
    have hspare := E.alone_spare _ _ _ hl ha
    simp only [State.inHand]
    split
    · omega
    · rename_i stage _
      have := E.alone_need stage _ _ _ hl ha
      omega
    all_goals omega
  | @reply job result hp =>
    refine work_lt_of_inHand (countP_waits_modify fun _ => rfl) rfl ?_
    have := E.shut s.device
    cases result <;> simp only [State.inHand, State.deliver, hp] <;> omega
  | close hp _ =>
    have hwaits : s.close.calls.countP Caller.waits = s.calls.countP Caller.waits :=
      countP_waits_mapIdx fun i c => by split <;> rfl
    simp only [State.work, hwaits, State.inHand, hp]
    simp only [State.close, List.map_nil, List.sum_nil]
    omega

theorem length_le_work {ls : List (Label γ ℓ)}
    (h : Lts.Run (Lts.restrict (Step S) fun _ l => l.Within fun l => ¬E.stalls l) s ls t) :
    ls.length ≤ s.work E := by
  have hle : True ∧ ls.length + t.work E ≤ s.work E := h.length_add_le (I := fun _ => True)
    (fun _ _ _ hs hstep => ⟨hs, hstep.1.work_lt hstep.2⟩) trivial
  omega

end Effort

/-- **While a call waits there is a step to take**, if there always is one for the work in hand,
and one until the worker can go. -/
theorem Sound.exists_step {Answers : ρ → β → Prop} {Rest : δ → Prop} {On : ω → ρ → δ → Prop}
    {Shut : δ → Prop} (Smooth : δ → ℓ → Prop)
    (hlive : ∀ stage r d, On stage r d → ∃ l, Smooth d l ∧
      ((∃ x d', S.work stage d l x d') ∨ ∃ d', S.alone d l d'))
    (hgo : ∀ d, Shut d → S.Released d ∨ ∃ l, Smooth d l ∧ ∃ d', S.alone d l d')
    (hs : Sound S Answers Rest On Shut s) {i : ℕ} {c : Caller γ ρ β α ε}
    (hc : s.calls[i]? = some c) {r : ρ} (hwait : c.status = .waiting r) :
    ∃ l t, Step S s l t ∧ l.Within (Smooth s.device) := by
  rcases hreply : c.reply.received S.dead with - | result
  · have hempty : c.reply = .empty := by
      cases hr : c.reply with
      | empty => rfl
      | _ => rw [hr] at hreply; cases hreply
    have hmem := hs.books.owned i c hc hempty
    have hcourse := hs.onCourse
    cases hp : s.phase with
    | idle =>
      cases hq : s.queue with
      | nil => simp [State.jobs, hp, hq, Phase.inHand] at hmem
      | cons job queue => exact ⟨.take, _, .take hp hq, trivial⟩
    | working job stage =>
      simp only [State.OnCourse, hp] at hcourse
      obtain ⟨l, hsmooth, ⟨x, d', hw⟩ | ⟨d', ha⟩⟩ := hlive _ _ _ hcourse
      · cases x with
        | inl stage' => exact ⟨.work l, _, .work hp hw, hsmooth⟩
        | inr result => exact ⟨.work l, _, .result hp hw, hsmooth⟩
      · exact ⟨.alone l, _, .alone ha, hsmooth⟩
    | replying job result => exact ⟨.reply, _, .reply hp, trivial⟩
    | closing =>
      simp only [State.OnCourse, hp] at hcourse
      rcases hgo _ hcourse with hreleased | ⟨l, hsmooth, d', ha⟩
      · exact ⟨.close, _, .close hp hreleased, trivial⟩
      · exact ⟨.alone l, _, .alone ha, hsmooth⟩
    | gone => simp [State.jobs, hp, hs.books.gone hp, Phase.inHand] at hmem
  · exact ⟨.wake i, _, .wake hc hwait hreply, trivial⟩

end Worker
