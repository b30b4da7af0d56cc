import Symbolon.Daemon.Audit
import Symbolon.RateLimit.Restarts

/-!
# The log under a flood of unknown identities

Whoever knows the broker's public key can make it ask for the keys of identities that do not
exist, as fast as the network allows, and every such probe is worth a line of the log. The
probes of all connections go through one limiter. What `Symbolon.TokenBucket.Paced` says of
that limiter alone is said here of the daemon: of every run of it, with any number of
connections and admin calls interleaved, and with restarts, each of which begins with a full
bucket (`Symbolon.unknown_lines_paced`).

Between two restarts nothing is hidden either: every probe is in the log, or in the count that
a later line reports, or in the count that is still pending; and a probe has no line of its own
only if that would exceed the pace (`Symbolon.unknown_probes_accounted`).

The link between the two is that the limiter of a daemon is, at every moment, the fresh limiter
after calls at the times of the probes since it was made (`Symbolon.Daemon.Run.tallied`).
-/

namespace Symbolon

open Text

/-! ### The lines and the probes of a connection -/

/-- The `identity_unknown` lines among what was done. -/
def unknownLines (acts : List Act) : List LogLine := acts.filterMap fun
  | .log line => if line.evt = .identityUnknown then some line else none
  | _ => none

/-- The line for a probe that the limiter admits. -/
def unknownLine (identity : Identity) (suppressed : ℕ) : LogLine :=
  { evt := .identityUnknown, pskIdentity := some identity, suppressed := some suppressed }

section Connections

variable {S : Snow} {providers : List Provider} {sh : Shared} {c c' : Conn S} {e : ConnEvent S}
  {limiter : Limiter} {acts acts' : List Act} {line : LogLine}

/-- **A probe**: the session asks for the key of an identity, and there is none. -/
def Conn.probe (t : Tables) (c : Conn S) : ConnEvent S → Option (Instant × Identity)
  | .run now _ _ =>
    match c.pc, c.sess with
    | .top, .needPsk _ identity =>
      if (t.psks.lookup identity).isNone then some (now, identity) else none
    | _, _ => none
  | _ => none

theorem unknownLines_append :
    unknownLines (acts ++ acts') = unknownLines acts ++ unknownLines acts' :=
  List.filterMap_append

theorem unknownLines_cons {a : Act} (ha : a.isLog = false) :
    unknownLines (a :: acts) = unknownLines acts := by
  cases a with
  | log line => cases ha
  | _ => rfl

theorem unknownLines_fail (hline : line.evt ≠ .identityUnknown) :
    unknownLines (c.fail line).2 = [] := by
  simp [unknownLines, Conn.fail, hline]

theorem logSessionFailure_ne_identityUnknown {ε : Type} (phase : Phase)
    (clientName : Option Bytes) (err : SessionError ε) :
    (logSessionFailure phase clientName err).evt ≠ .identityUnknown := by
  cases err with
  | frameTooBig got => cases phase <;> simp [logSessionFailure]
  | _ => simp [logSessionFailure]

theorem logPhaseEof_ne_identityUnknown (phase : Phase) (clientName : Option Bytes) :
    (logPhaseEof phase clientName).evt ≠ .identityUnknown := by
  cases phase <;> simp [logPhaseEof]

theorem logMintError_ne_identityUnknown (client host path : Bytes) (err : ProviderError) :
    (logMintError client host path err).evt ≠ .identityUnknown := by
  cases err <;> simp [logMintError]

theorem unknownLines_continueWith {phase : RState S → Phase}
    {r : RState S × Except (SessionError S.Err) Unit} :
    unknownLines (c.continueWith phase r).2 = [] := by
  obtain ⟨sess, err | u⟩ := r
  · exact unknownLines_fail (logSessionFailure_ne_identityUnknown _ _ _)
  · rfl

theorem unknownLines_request {bytes : Bytes} :
    unknownLines (c.request providers bytes).2 = [] := by
  unfold Conn.request
  split
  · exact unknownLines_fail (by simp)
  · split
    · exact unknownLines_fail (by simp)
    · split
      · exact unknownLines_fail (by simp)
      · split
        · exact unknownLines_fail (by simp)
        · rfl

theorem unknownLines_minted {request : Request} {result : Except ProviderError MintOutcome} :
    unknownLines (c.minted request result).2 = [] := by
  cases result with
  | error err =>
    have hfail := unknownLines_fail (c := c)
      (logMintError_ne_identityUnknown (c.clientName.getD []) request.host request.path err)
    simp only [Conn.minted, unknownLines_append, hfail, List.append_nil]
    split <;> rfl
  | ok outcome =>
    simp only [Conn.minted]
    split
    · exact unknownLines_fail (logSessionFailure_ne_identityUnknown _ _ _)
    · rfl

theorem unknownLines_flushed : unknownLines c.flushed.2 = [] := by
  unfold Conn.flushed
  split <;> rfl

/-- **What an event of a connection means for the limiter.** -/
inductive Conn.Heeds (sh : Shared) (c : Conn S) (e : ConnEvent S) (limiter : Limiter)
    (acts : List Act) : Prop
  /-- It is no probe. -/
  | pass (hprobe : c.probe sh.tables e = none) (hlimiter : limiter = sh.limiter)
      (hlines : unknownLines acts = [])
  /-- It is a probe, and the limiter says whether it is logged. -/
  | probe {now : Instant} {identity : Identity} {random : Except String Psk} {seed : S.Seed}
      (he : e = .run now random seed)
      (hprobe : c.probe sh.tables e = some (now, identity))
      (hlimiter : limiter = (sh.limiter.tryAcquire now).1)
      (hlines : unknownLines acts =
        (sh.limiter.tryAcquire now).2.toList.map (unknownLine identity))

/-- The choice of a key calls the limiter exactly if there is none. -/
theorem choosePsk_limiter (sh : Shared) (c : Conn S) (identity : Identity) (now : Instant)
    (random : Except String Psk) :
    (sh.tables.psks.lookup identity ≠ none ∧
      (c.choosePsk sh identity now random).2.1 = sh.limiter ∧
      unknownLines (c.choosePsk sh identity now random).2.2.2.2 = []) ∨
    (sh.tables.psks.lookup identity = none ∧
      (c.choosePsk sh identity now random).2.1 = (sh.limiter.tryAcquire now).1 ∧
      unknownLines (c.choosePsk sh identity now random).2.2.2.2 =
        (sh.limiter.tryAcquire now).2.toList.map (unknownLine identity)) := by
  unfold Conn.choosePsk
  split
  · rename_i hlook _
    exact .inl ⟨by simp [hlook], rfl, rfl⟩
  · rename_i hlook _
    exact .inl ⟨by simp [hlook], rfl, rfl⟩
  · rename_i hlook
    refine .inr ⟨hlook, ?_⟩
    split
    · rename_i hacq
      exact ⟨by rw [hacq], by rw [hacq]; rfl⟩
    · rename_i hacq
      exact ⟨by rw [hacq], by rw [hacq]; rfl⟩

/-- The rest of the `NeedPsk` arm leaves the limiter alone. -/
theorem needPsk_limiter (sh : Shared) (c : Conn S) (identity : Identity) (now : Instant)
    (random : Except String Psk) (seed : S.Seed) :
    (c.needPsk sh identity now random seed).2.1 = (c.choosePsk sh identity now random).2.1 ∧
      unknownLines (c.needPsk sh identity now random seed).2.2 =
        unknownLines (c.choosePsk sh identity now random).2.2.2.2 := by
  unfold Conn.needPsk
  split
  · rename_i c₁ lim err known acts₁ hch
    rw [hch]
    have hfail : unknownLines (c₁.fail
        { evt := .handshakeFailed, reason := some "rng_unavailable" }).2 = [] :=
      unknownLines_fail (by simp)
    exact ⟨rfl, by rw [unknownLines_append, hfail, List.append_nil]⟩
  · rename_i c₁ lim psk known acts₁ hch
    rw [hch]
    refine ⟨rfl, ?_⟩
    rw [unknownLines_append, unknownLines_cons rfl, unknownLines_continueWith, List.append_nil]

theorem Conn.probe_eq_none (h : ∀ hs identity, c.sess ≠ .needPsk hs identity) (t : Tables) :
    c.probe t e = none := by
  cases e with
  | run now random seed =>
    simp only [Conn.probe]
    split
    · rename_i hs identity _ hsess
      exact absurd hsess (h hs identity)
    · rfl
  | _ => rfl

theorem Conn.probe_needPsk {hs : S.Hs} {identity : Identity} (hpc : c.pc = .top)
    (hsess : c.sess = .needPsk hs identity) (t : Tables) (now : Instant)
    (random : Except String Psk) (seed : S.Seed) :
    c.probe t (.run now random seed) =
      if t.psks.lookup identity = none then some (now, identity) else none := by
  simp only [Conn.probe, hpc, hsess, Option.isNone_iff_eq_none]

/-- A turn of the loop is a probe only in the `NeedPsk` arm. -/
theorem turn_heeds (providers : List Provider) (sh : Shared) (now : Instant)
    (random : Except String Psk) (seed : S.Seed) (hpc : c.pc = .top) :
    Conn.Heeds sh c (.run now random seed) (c.turn providers sh now random seed).2.1
      (c.turn providers sh now random seed).2.2 := by
  -- every step but `NeedPsk` is a step of a session that does not ask for a key
  have hpass : ∀ {sess r limiter acts}, Responder.step c.sess = (sess, r) →
      (∀ identity, r ≠ .ok (.needPsk identity)) → limiter = sh.limiter → unknownLines acts = [] →
      Conn.Heeds sh c (.run now random seed) limiter acts := by
    intro sess r limiter acts hstep hr hlimiter hlines
    refine .pass (Conn.probe_eq_none (fun hs identity hsess => ?_) _) hlimiter hlines
    rw [hsess] at hstep
    cases hstep
    exact hr identity rfl
  unfold Conn.turn
  split
  · rename_i sess err hstep
    exact hpass hstep (fun _ h => by cases h) rfl
      (unknownLines_fail (c := { c with sess }) (logSessionFailure_ne_identityUnknown _ _ _))
  · rename_i sess step hstep
    dsimp only
    split
    · refine hpass hstep (fun _ h => by cases h) ?_ ?_ <;> split
      · rfl
      · rfl
      · rw [unknownLines_cons rfl, unknownLines_cons rfl, unknownLines_continueWith]
      · rfl
    · rename_i identity
      obtain ⟨hs, hsess⟩ := Responder.step_eq_needPsk hstep
      have hprobe := Conn.probe_needPsk hpc hsess sh.tables now random seed
      obtain ⟨hlimiter, hlines⟩ := needPsk_limiter sh { c with sess } identity now random seed
      rcases choosePsk_limiter sh { c with sess } identity now random with
        ⟨hlook, hlim, hnone⟩ | ⟨hlook, hlim, hsome⟩
      · exact .pass (hprobe.trans (if_neg hlook)) (hlimiter.trans hlim) (hlines.trans hnone)
      · exact .probe rfl (hprobe.trans (if_pos hlook)) (hlimiter.trans hlim) (hlines.trans hsome)
    · refine hpass hstep (fun _ h => by cases h) ?_ ?_ <;> split
      · rfl
      · rfl
      · exact unknownLines_continueWith
      · rfl
    · exact hpass hstep (fun _ h => by cases h) rfl unknownLines_request
    · exact hpass hstep (fun _ h => by cases h) rfl rfl

/-- **Every event of a connection heeds the limiter.** -/
theorem next_heeds (hn : c.next providers sh e = some (c', limiter, acts)) :
    Conn.Heeds sh c e limiter acts := by
  have hpass : ∀ {e : ConnEvent S} {acts : List Act},
      (∀ now random seed, e ≠ .run now random seed) → unknownLines acts = [] →
      Conn.Heeds sh c e sh.limiter acts := by
    intro e acts he hlines
    refine .pass ?_ rfl hlines
    cases e with
    | run now random seed => exact absurd rfl (he now random seed)
    | _ => rfl
  unfold Conn.next at hn
  split at hn
  · rename_i now random seed hpc
    have hturn := turn_heeds providers sh now random seed hpc
    rwa [Option.some.inj hn] at hturn
  · split at hn
    · cases hn
    · split at hn
      · cases hn
        exact hpass (fun _ _ _ h => by cases h) rfl
      · cases hn
        exact hpass (fun _ _ _ h => by cases h)
          ((unknownLines_cons rfl).trans unknownLines_continueWith)
  · cases hn
    exact hpass (fun _ _ _ h => by cases h)
      (unknownLines_fail (c := c) (logPhaseEof_ne_identityUnknown _ _))
  · cases hn
    exact hpass (fun _ _ _ h => by cases h)
      (unknownLines_fail (c := c) (logPhaseEof_ne_identityUnknown _ _))
  · split at hn
    · cases hn
    · split at hn
      · cases hn
        exact hpass (fun _ _ _ h => by cases h) rfl
      · cases hn
        exact hpass (fun _ _ _ h => by cases h)
          ((unknownLines_cons rfl).trans unknownLines_continueWith)
  · cases hn
    exact hpass (fun _ _ _ h => by cases h) (unknownLines_fail (c := c) (by simp))
  · cases hn
    exact hpass (fun _ _ _ h => by cases h)
      ((unknownLines_cons rfl).trans unknownLines_minted)
  · cases hn
    exact hpass (fun _ _ _ h => by cases h) unknownLines_flushed
  all_goals first
    | cases hn
      exact hpass (fun _ _ _ h => by cases h) rfl
    | cases hn

end Connections

/-! ### The lines and the probes of a daemon -/

section Daemons

variable {S : Snow} {cfg : Setup} {d d₀ d' : Daemon S} {l : DaemonLabel S}
  {ls ls' : List (DaemonLabel S)} {t : Instant}

/-- The reading of the clock that comes with an event. -/
def DaemonEvent.now : DaemonEvent S → Option Instant
  | .conn _ (.run now _ _) => some now
  | .crash now => some now
  | _ => none

/-- When the process is started again. -/
def DaemonEvent.restart : DaemonEvent S → Option Instant
  | .crash now => some now
  | _ => none

/-- The `identity_unknown` lines of a step, and when they were written. -/
def DaemonLabel.unknownLines (l : DaemonLabel S) : List (Instant × LogLine) :=
  match l.2 with
  | .conn _ acts => (Symbolon.unknownLines acts).map fun line => (l.1.now.getD 0, line)
  | _ => []

theorem DaemonLabel.unknownLines_conn (e : DaemonEvent S) (i : ℕ) (acts : List Act) :
    DaemonLabel.unknownLines (e, .conn i acts) =
      (Symbolon.unknownLines acts).map fun line => (e.now.getD 0, line) :=
  rfl

/-- The readings of the clock along a run. -/
def readings (ls : List (DaemonLabel S)) : List Instant := ls.filterMap fun l => l.1.now

/-- The restarts of a run. -/
def restarts (ls : List (DaemonLabel S)) : List Instant := ls.filterMap fun l => l.1.restart

/-- The `identity_unknown` lines of a run. -/
def logged (ls : List (DaemonLabel S)) : List (Instant × LogLine) :=
  ls.flatMap DaemonLabel.unknownLines

namespace Daemon

/-- The event is a probe of one of the connections. -/
def probe (d : Daemon S) : DaemonEvent S → Option (Instant × Identity)
  | .conn i e => (d.conns[i]?).bind fun c => c.probe d.state.tables e
  | _ => none

/-- The probes of a run. -/
def probes (cfg : Setup) : Daemon S → List (DaemonLabel S) → List (Instant × Identity)
  | _, [] => []
  | d, l :: ls => (d.probe l.1).toList ++
    match d.next cfg l.1 with
    | some (d', _) => probes cfg d' ls
    | none => []

/-- **What a step of the daemon means for the limiter.** -/
inductive Heeds (d : Daemon S) (l : DaemonLabel S) (d' : Daemon S) : Prop
  /-- Nothing. -/
  | pass (hrestart : l.1.restart = none) (hprobe : d.probe l.1 = none)
      (hlimiter : d'.limiter = d.limiter) (hlines : l.unknownLines = [])
  /-- A connection probes. -/
  | probe {now : Instant} {identity : Identity} (hrestart : l.1.restart = none)
      (hnow : l.1.now = some now) (hprobe : d.probe l.1 = some (now, identity))
      (hlimiter : d'.limiter = (d.limiter.tryAcquire now).1)
      (hlines : l.unknownLines =
        (d.limiter.tryAcquire now).2.toList.map fun n => (now, unknownLine identity n))
  /-- There is a new one. -/
  | restart {now : Instant} (hrestart : l.1.restart = some now) (hnow : l.1.now = some now)
      (hprobe : d.probe l.1 = none) (hlimiter : d'.limiter = freshLimiter now)
      (hlines : l.unknownLines = [])

theorem unknownLines_accept (key : BrokerPrivateKey) :
    Symbolon.unknownLines (Conn.accept S key).2 = [] := by
  unfold Conn.accept
  split <;> rfl

theorem Step.heeds (h : Step cfg d l d') : Heeds d l d' := by
  cases h.moves with
  | admin hn he => exact .pass rfl rfl rfl rfl
  | adminMint => exact .pass rfl rfl rfl rfl
  | accept =>
    refine .pass rfl rfl rfl ?_
    rw [DaemonLabel.unknownLines_conn, unknownLines_accept]
    rfl
  | @conn i e c c' limiter acts running hi hn =>
    have hd : d.probe (.conn i e) = c.probe d.state.tables e := by rw [probe, hi]; rfl
    cases next_heeds hn with
    | pass hprobe hlimiter hlines =>
      refine .pass ?_ (hd.trans hprobe) hlimiter ?_
      · cases e <;> rfl
      · rw [DaemonLabel.unknownLines_conn, hlines]
        rfl
    | probe he hprobe hlimiter hlines =>
      subst he
      refine .probe rfl rfl (hd.trans hprobe) hlimiter ?_
      rw [DaemonLabel.unknownLines_conn, hlines, List.map_map]
      rfl
  | crash hn => exact .restart rfl rfl rfl rfl rfl

theorem probes_append (hrun : Run cfg d ls d') :
    probes cfg d (ls ++ ls') = probes cfg d ls ++ probes cfg d' ls' := by
  induction hrun with
  | nil => rfl
  | @cons d d₁ d' l ls hstep _ ih =>
    have hnext : d.next cfg l.1 = some (d₁, l.2) := hstep
    rw [List.cons_append, probes, probes, hnext, List.append_assoc]
    exact congrArg _ ih

theorem probes_singleton : probes cfg d [l] = (d.probe l.1).toList := by
  rw [probes]
  split
  · exact List.append_nil _
  · exact List.append_nil _

end Daemon

theorem logged_snoc : logged (ls ++ [l]) = logged ls ++ l.unknownLines := by
  rw [logged, List.flatMap_append, List.flatMap_singleton]
  rfl

theorem readings_snoc : readings (ls ++ [l]) = readings ls ++ l.1.now.toList := by
  rw [readings, List.filterMap_append]
  cases h : l.1.now <;> simp [readings, h]

theorem restarts_snoc : restarts (ls ++ [l]) = restarts ls ++ l.1.restart.toList := by
  rw [restarts, List.filterMap_append]
  cases h : l.1.restart <;> simp [restarts, h]

/-! ### The limiter of a daemon is a history of calls -/

/-- **The limiter since it was made at `t`**: it has been called at the times of the probes, and
the lines are what it let through. -/
structure Tally (t : Instant) (probes : List (Instant × Identity))
    (lines : List (Instant × LogLine)) (limiter : Limiter) : Prop where
  /-- It has been called at the times of the probes. -/
  limiter_eq : limiter = ((freshLimiter t).calls (probes.map Prod.fst)).1
  /-- The lines were written when it admitted a probe. -/
  times_eq : lines.map Prod.fst =
    TokenBucket.admitted ((freshLimiter t).calls (probes.map Prod.fst)).2
  /-- They report what it returned. -/
  suppressed_eq : lines.filterMap (fun line => line.2.suppressed) =
    ((freshLimiter t).calls (probes.map Prod.fst)).2.filterMap Prod.snd

theorem Tally.fresh : Tally t [] [] (freshLimiter t) := ⟨rfl, rfl, rfl⟩

/-- One more probe. -/
theorem Tally.probe {probes : List (Instant × Identity)} {lines : List (Instant × LogLine)}
    {limiter : Limiter} {now : Instant} (h : Tally t probes lines limiter) (identity : Identity) :
    Tally t (probes ++ [(now, identity)])
      (lines ++ (limiter.tryAcquire now).2.toList.map fun n => (now, unknownLine identity n))
      (limiter.tryAcquire now).1 := by
  obtain ⟨rfl, htimes, hsuppressed⟩ := h
  have hcalls : (freshLimiter t).calls ((probes ++ [(now, identity)]).map Prod.fst) =
      TokenBucket.call ((freshLimiter t).calls (probes.map Prod.fst)) now := by
    rw [List.map_append]
    exact TokenBucket.calls_concat
  refine ⟨by rw [hcalls]; rfl, ?_, ?_⟩
  · rw [hcalls, TokenBucket.admitted_call, List.map_append, htimes]
    cases (((freshLimiter t).calls (probes.map Prod.fst)).1.tryAcquire now).2 <;> rfl
  · rw [hcalls, TokenBucket.call, List.filterMap_append, List.filterMap_append, hsuppressed]
    cases (((freshLimiter t).calls (probes.map Prod.fst)).1.tryAcquire now).2 <;> rfl

/-- **Along a run without a restart, the limiter is a history of the probes.** -/
theorem Daemon.Run.tallied (hrun : Daemon.Run cfg d ls d') (hd : d.limiter = freshLimiter t)
    (hlife : restarts ls = []) : Tally t (Daemon.probes cfg d ls) (logged ls) d'.limiter := by
  induction ls using List.reverseRecOn generalizing d' with
  | nil =>
    cases hrun
    rw [hd]
    exact .fresh
  | append_singleton ls l ih =>
    obtain ⟨d₁, hrun₁, hstep⟩ := Lts.run_append_iff.mp hrun
    rw [restarts_snoc, List.append_eq_nil_iff] at hlife
    have ih := ih hrun₁ hlife.1
    rw [Daemon.probes_append hrun₁, Daemon.probes_singleton, logged_snoc]
    cases (Lts.run_singleton_iff.mp hstep).heeds with
    | pass _ hprobe hlimiter hlines =>
      rw [hprobe, hlines, hlimiter, Option.toList_none, List.append_nil, List.append_nil]
      exact ih
    | probe _ _ hprobe hlimiter hlines =>
      rw [hprobe, hlines, hlimiter]
      exact ih.probe _
    | restart hrestart => simp [hrestart] at hlife

/-! ### The pace of a daemon -/

theorem freshLimiter_toInt (t : Instant) :
    (freshLimiter t).toInt =
      TokenBucket.ofBurst unknownIdentityLogRefill unknownIdentityLogBurst t := by
  rw [TokenBucket.ofBurst]
  rfl

/-- The lines since the limiter was made keep the pace. -/
theorem Tally.paced {probes : List (Instant × Identity)} {lines : List (Instant × LogLine)}
    {limiter : Limiter} (h : Tally t probes lines limiter)
    (hs : (t :: probes.map Prod.fst).Pairwise (· ≤ ·)) :
    TokenBucket.Paced unknownIdentityLogRefill unknownIdentityLogBurst
      ((lines.map Prod.fst).map Nat.cast) := by
  obtain ⟨hfirst, hrest⟩ := List.pairwise_cons.mp hs
  rw [h.times_eq, ← TokenBucket.admitted_toInt, freshLimiter_toInt]
  refine TokenBucket.paced_calls (by decide) (by decide) ?_ ?_
  · intro x hx
    obtain ⟨y, hy, rfl⟩ := List.mem_map.mp hx
    exact Int.ofNat_le.mpr (hfirst y hy)
  · exact hrest.map _ fun _ _ hle => Int.ofNat_le.mpr hle

/-- **A process that runs**: when it was started, what came before it, and what it has been
asked and has written since. -/
structure Daemon.Life (t₀ : Instant) (ls : List (DaemonLabel S)) (d : Daemon S) where
  /-- When it was started. -/
  start : Instant
  /-- The lines of its predecessors. -/
  earlier : List (Instant × LogLine)
  /-- The probes of it. -/
  probes : List (Instant × Identity)
  /-- Its lines. -/
  lines : List (Instant × LogLine)
  /-- These are all lines. -/
  logged_eq : logged ls = earlier ++ lines
  /-- Its limiter has answered the probes. -/
  tally : Tally start probes lines d.limiter
  /-- It was started when the clock was read. -/
  start_mem : start ∈ t₀ :: readings ls
  /-- Its predecessors wrote when they had read the clock. -/
  earlier_mem : ∀ x ∈ earlier.map Prod.fst, x ∈ readings ls
  /-- The probes came with a reading of it. -/
  probes_mem : ∀ x ∈ probes.map Prod.fst, x ∈ readings ls
  /-- Time does not run backwards in it. -/
  sorted : (start :: probes.map Prod.fst).Pairwise (· ≤ ·)
  /-- Whatever it adds to the log at the pace of one limiter, the whole keeps to. -/
  extend : ∀ later : List ℤ,
    TokenBucket.Paced unknownIdentityLogRefill unknownIdentityLogBurst later →
    (∀ x ∈ later, (start : ℤ) ≤ x) →
    TokenBucket.PacedBetween unknownIdentityLogRefill unknownIdentityLogBurst
      ((restarts ls).map Nat.cast) ((earlier.map Prod.fst).map Nat.cast ++ later)

namespace Daemon.Life

variable {t₀ : Instant}

/-- Its lines are older than the clock. -/
theorem lines_mem (y : Life t₀ ls d) : ∀ x ∈ y.lines.map Prod.fst, x ∈ y.probes.map Prod.fst := by
  rw [y.tally.times_eq]
  exact fun x hx => TokenBucket.admitted_sublist.subset hx

/-- **All lines keep the pace.** -/
theorem paced (y : Life t₀ ls d) :
    TokenBucket.PacedBetween unknownIdentityLogRefill unknownIdentityLogBurst
      ((restarts ls).map Nat.cast) (((logged ls).map Prod.fst).map Nat.cast) := by
  rw [y.logged_eq, List.map_append, List.map_append]
  refine y.extend _ (y.tally.paced y.sorted) fun x hx => ?_
  obtain ⟨n, hn, rfl⟩ := List.mem_map.mp hx
  exact Int.ofNat_le.mpr ((List.pairwise_cons.mp y.sorted).1 n (y.lines_mem n hn))

/-- The first process. -/
def first (hd : d.limiter = freshLimiter t₀) : Life t₀ [] d where
  start := t₀
  earlier := []
  probes := []
  lines := []
  logged_eq := rfl
  tally := hd ▸ .fresh
  start_mem := List.mem_cons_self
  earlier_mem := by simp
  probes_mem := by simp
  sorted := List.pairwise_singleton _ _
  extend _ hlater _ := hlater.between

/-- **From step to step.** A probe is a call of the limiter; a crash makes the process a
predecessor. -/
theorem step (y : Life t₀ ls d) (hstep : Daemon.Step cfg d l d')
    (hs : (t₀ :: readings (ls ++ [l])).Pairwise (· ≤ ·)) : Nonempty (Life t₀ (ls ++ [l]) d') := by
  have hmono : ∀ x ∈ readings ls, x ∈ readings (ls ++ [l]) := by
    intro x hx
    rw [readings_snoc]
    exact List.mem_append_left _ hx
  have hpast : ∀ {now}, l.1.now = some now → ∀ x ∈ t₀ :: readings ls, x ≤ now := by
    intro now hnow x hx
    rw [readings_snoc, hnow, ← List.cons_append] at hs
    exact (List.pairwise_append.mp hs).2.2 x hx now (List.mem_singleton_self _)
  have hstart : ∀ x ∈ t₀ :: readings ls, x ∈ t₀ :: readings (ls ++ [l]) := fun x hx =>
    (List.mem_cons.mp hx).elim (· ▸ List.mem_cons_self) fun h => List.mem_cons_of_mem _ (hmono x h)
  cases hstep.heeds with
  | pass hrestart hprobe hlimiter hlines =>
    refine ⟨y.start, y.earlier, y.probes, y.lines, ?_, hlimiter ▸ y.tally, hstart _ y.start_mem,
      fun x hx => hmono x (y.earlier_mem x hx), fun x hx => hmono x (y.probes_mem x hx), y.sorted,
      ?_⟩
    · rw [logged_snoc, hlines, List.append_nil, y.logged_eq]
    · rw [restarts_snoc, hrestart, Option.toList_none, List.append_nil]
      exact y.extend
  | @probe now identity hrestart hnow hprobe hlimiter hlines =>
    refine ⟨y.start, y.earlier, y.probes ++ [(now, identity)], y.lines ++ l.unknownLines, ?_, ?_,
      hstart _ y.start_mem, fun x hx => hmono x (y.earlier_mem x hx), ?_, ?_, ?_⟩
    · rw [logged_snoc, y.logged_eq, List.append_assoc]
    · rw [hlimiter, hlines]
      exact y.tally.probe identity
    · intro x hx
      rw [List.map_append, List.mem_append] at hx
      rcases hx with hx | hx
      · exact hmono x (y.probes_mem x hx)
      · rw [List.mem_singleton.mp hx, readings_snoc, hnow]
        exact List.mem_append_right _ (List.mem_singleton_self _)
    · rw [List.map_append, ← List.cons_append]
      refine List.pairwise_append.mpr ⟨y.sorted, List.pairwise_singleton _ _, ?_⟩
      intro x hx z hz
      rw [List.mem_singleton.mp hz]
      rcases List.mem_cons.mp hx with rfl | hx
      · exact hpast hnow _ y.start_mem
      · exact hpast hnow _ (List.mem_cons_of_mem _ (y.probes_mem x hx))
    · rw [restarts_snoc, hrestart, Option.toList_none, List.append_nil]
      exact y.extend
  | @restart now hrestart hnow _ hlimiter hlines =>
    have hlogged : ∀ x ∈ (logged ls).map Prod.fst, x ∈ readings ls := by
      intro x hx
      rw [y.logged_eq, List.map_append, List.mem_append] at hx
      exact hx.elim (y.earlier_mem x) fun h => y.probes_mem x (y.lines_mem x h)
    refine ⟨now, logged ls, [], [], ?_, hlimiter ▸ .fresh, ?_,
      fun x hx => hmono x (hlogged x hx), by simp, List.pairwise_singleton _ _, ?_⟩
    · rw [logged_snoc, hlines]
    · rw [readings_snoc, hnow]
      exact List.mem_cons_of_mem _ (List.mem_append_right _ (List.mem_singleton_self _))
    · intro later hlater hge
      rw [restarts_snoc, hrestart, Option.toList_some, List.map_append]
      refine y.paced.restart hlater (by decide) (by decide) (fun x hx => ?_) hge
      obtain ⟨n, hn, rfl⟩ := List.mem_map.mp hx
      exact Int.ofNat_le.mpr (hpast hnow n (List.mem_cons_of_mem _ (hlogged n hn)))

end Daemon.Life

/-- **At every moment there is a process that runs.** -/
theorem Daemon.Run.life {t₀ : Instant} (hrun : Daemon.Run cfg d ls d')
    (hd : d.limiter = freshLimiter t₀) (hs : (t₀ :: readings ls).Pairwise (· ≤ ·)) :
    Nonempty (Daemon.Life t₀ ls d') := by
  induction ls using List.reverseRecOn generalizing d' with
  | nil =>
    cases hrun
    exact ⟨.first hd⟩
  | append_singleton ls l ih =>
    obtain ⟨d₁, hrun₁, hstep⟩ := Lts.run_append_iff.mp hrun
    have hs' : (t₀ :: readings ls).Pairwise (· ≤ ·) := by
      rw [readings_snoc, ← List.cons_append] at hs
      exact (List.pairwise_append.mp hs).1
    obtain ⟨y⟩ := ih hrun₁ hs'
    exact y.step (Lts.run_singleton_iff.mp hstep) hs

/-- How many of the instants lie in a window. -/
def within (a b : Instant) (times : List Instant) : ℕ := times.countP fun t => a ≤ t ∧ t ≤ b

theorem inWindow_natCast (a b : Instant) (times : List Instant) :
    TokenBucket.inWindow a b (times.map Nat.cast) = within a b times := by
  rw [TokenBucket.inWindow, within, List.countP_map]
  refine List.countP_congr fun x _ => ?_
  simp

/-- **The log is not flooded.** In every run of a daemon, with a clock that does not run
backwards: in no window of time are there more `identity_unknown` lines than the burst, once and
once more for every restart in the window, and one per interval of the window. -/
theorem unknown_lines_paced {t₀ : Instant} (hd : d.limiter = freshLimiter t₀)
    (hrun : Daemon.Run cfg d ls d') (hs : (t₀ :: readings ls).Pairwise (· ≤ ·))
    {a b : Instant} (hab : a ≤ b) :
    within a b ((logged ls).map Prod.fst) ≤
      (1 + within a b (restarts ls)) * unknownIdentityLogBurst +
        (b - a) / unknownIdentityLogRefill := by
  obtain ⟨y⟩ := hrun.life hd hs
  have h := y.paced a b (Int.ofNat_le.mpr hab)
  rw [inWindow_natCast, inWindow_natCast, ← Nat.cast_sub hab] at h
  exact_mod_cast h

/-- The bound for one more line, counted from zero. -/
theorem conforms_natCast {interval burst now : ℕ} {times : List ℕ} (hle : ∀ s ∈ times, s ≤ now) :
    TokenBucket.Conforms interval burst (times.map Nat.cast) now ↔
      ∀ before s after, times = before ++ s :: after →
        after.length + 2 ≤ burst + (now - s) / interval := by
  have hbound : ∀ (n s : ℕ), s ≤ now →
      (((n : ℤ) + 1) + 1 ≤ (burst : ℤ) + ((now : ℤ) - s) / interval ↔
        n + 2 ≤ burst + (now - s) / interval) := by
    intro n s hs
    rw [← Nat.cast_sub hs, add_assoc]
    norm_cast
  constructor
  · rintro h before s after rfl
    have hlast := h (before.map Nat.cast) s (after.map Nat.cast) (by simp)
    rw [List.length_map] at hlast
    exact (hbound after.length s (hle s (by simp))).mp hlast
  · intro h before s after heq
    obtain ⟨before', rest, rfl, rfl, hrest⟩ := List.map_eq_append_iff.mp heq
    obtain ⟨s', after', rfl, rfl, rfl⟩ := List.map_eq_cons_iff.mp hrest
    rw [List.length_map]
    exact (hbound after'.length s' (hle s' (by simp))).mpr (h before' s' after' rfl)

/-- The limiter admits one more probe exactly if the lines so far leave room for it. -/
theorem Tally.isSome_iff {probes : List (Instant × Identity)} {lines : List (Instant × LogLine)}
    {limiter : Limiter} {now : Instant} (h : Tally t probes lines limiter)
    (hs : (t :: probes.map Prod.fst ++ [now]).Pairwise (· ≤ ·)) :
    (limiter.tryAcquire now).2.isSome ↔
      ∀ before s after, lines.map Prod.fst = before ++ s :: after →
        after.length + 2 ≤ unknownIdentityLogBurst + (now - s) / unknownIdentityLogRefill := by
  obtain ⟨hsorted, -, hnow⟩ := List.pairwise_append.mp hs
  have hpast : ∀ x ∈ t :: probes.map Prod.fst, x ≤ now := fun x hx =>
    hnow x hx now (List.mem_singleton_self _)
  have hsub : ∀ x ∈ lines.map Prod.fst, x ∈ probes.map Prod.fst := by
    rw [h.times_eq]
    exact fun x hx => TokenBucket.admitted_sublist.subset hx
  have hfirst : ∀ x ∈ ((probes.map Prod.fst).map Nat.cast : List ℤ), (t : ℤ) ≤ x := by
    intro x hx
    obtain ⟨n, hn, rfl⟩ := List.mem_map.mp hx
    exact Int.ofNat_le.mpr ((List.pairwise_cons.mp hsorted).1 n hn)
  have hcalls := TokenBucket.calls_toInt (freshLimiter t) (probes.map Prod.fst)
  rw [freshLimiter_toInt] at hcalls
  have hiff : ((limiter.toInt).tryAcquire (now : ℤ)).2.isSome ↔
      TokenBucket.Conforms unknownIdentityLogRefill unknownIdentityLogBurst
        ((lines.map Prod.fst).map Nat.cast) now := by
    rw [h.times_eq, ← TokenBucket.admitted_toInt, freshLimiter_toInt, h.limiter_eq]
    have hI : (0 : ℤ) < unknownIdentityLogRefill := by decide
    have hN : (1 : ℤ) ≤ unknownIdentityLogBurst := by decide
    have hconforms := TokenBucket.tryAcquire_isSome_iff_conforms hI hN hfirst
      (Int.ofNat_le.mpr (hpast t List.mem_cons_self))
    rwa [hcalls] at hconforms ⊢
  rw [TokenBucket.tryAcquire_toInt] at hiff
  exact hiff.trans (conforms_natCast fun x hx => hpast x (List.mem_cons_of_mem _ (hsub x hx)))

/-- A daemon in the clear that knows nobody. -/
def emptyDaemon : Daemon (noise plainPrimitives) :=
  ⟨plainBoot (plainOrder []), freshLimiter 0, [], none⟩

/-- Connection `i` claims to be `alice`. -/
def stranger (i : ℕ) : List (DaemonEvent (noise plainPrimitives)) :=
  .accept :: plainTurn i :: arrive i plainHello ++ [plainTurn i]

theorem unknown_lines_paced_strangers :
    ∃ ls d, Daemon.Run plainSetup emptyDaemon ls d ∧ (logged ls).length = 10 ∧
      within 0 0 ((logged ls).map Prod.fst) ≤
        (1 + within 0 0 (restarts ls)) * unknownIdentityLogBurst +
          (0 - 0) / unknownIdentityLogRefill := by
  obtain ⟨ls, d, hrun, hlen, hs⟩ :=
    Lts.exists_run_of_exec (Daemon.next plainSetup) emptyDaemon
      ((List.range 12).flatMap stranger)
      (fun _ ls => (logged ls).length = 10 ∧ (0 :: readings ls).Pairwise (· ≤ ·))
      (by decide +kernel)
  exact ⟨ls, d, hrun, hlen, unknown_lines_paced rfl hrun hs le_rfl⟩

/-- **Nothing is hidden.** Since the process was started: its `identity_unknown` lines, what they
report as suppressed and what is pending are all probes, if there are fewer than the counter can
count. And the next probe goes without a line only if it exceeds the pace: only if since some
line, itself and the probe included, there are more than the burst and the intervals passed. -/
theorem unknown_probes_accounted {t₀ : Instant} (hd : d.limiter = freshLimiter t₀)
    (hrun : Daemon.Run cfg d ls d') (hlife : restarts ls = [])
    (hs : (t₀ :: (Daemon.probes cfg d ls).map Prod.fst).Pairwise (· ≤ ·))
    (hlen : (Daemon.probes cfg d ls).length ≤ u64Max) :
    (logged ls).length + ((logged ls).filterMap fun line => line.2.suppressed).sum +
        d'.limiter.suppressed = (Daemon.probes cfg d ls).length ∧
      ∀ l d'' now identity, Daemon.Step cfg d' l d'' → d'.probe l.1 = some (now, identity) →
        (∀ x ∈ t₀ :: (Daemon.probes cfg d ls).map Prod.fst, x ≤ now) →
        (l.unknownLines = [] ↔
          ∃ before s after, (logged ls).map Prod.fst = before ++ s :: after ∧
            unknownIdentityLogBurst + (now - s) / unknownIdentityLogRefill < after.length + 2) := by
  have htally := hrun.tallied hd hlife
  refine ⟨?_, fun l d'' now identity hstep hprobe hpast => ?_⟩
  · have hfit : ((Daemon.probes cfg d ls).map Prod.fst).length ≤ u64Max := by
      rwa [List.length_map]
    have hfresh : (freshLimiter t₀).suppressed = 0 := rfl
    have hcount := TokenBucket.admitted_add_reported_add_suppressed hfresh hfit
    rw [← htally.times_eq, ← htally.limiter_eq, TokenBucket.reported, ← htally.suppressed_eq,
      List.length_map, List.length_map] at hcount
    exact hcount
  · have hs' : (t₀ :: (Daemon.probes cfg d ls).map Prod.fst ++ [now]).Pairwise (· ≤ ·) := by
      refine List.pairwise_append.mpr ⟨hs, List.pairwise_singleton _ _, fun x hx z hz => ?_⟩
      rw [List.mem_singleton.mp hz]
      exact hpast x hx
    have hiff := (htally.isSome_iff hs').not
    cases hstep.heeds with
    | pass _ hnone => rw [hprobe] at hnone; cases hnone
    | @probe now' identity' _ _ hprobe' _ hlines =>
      rw [hprobe] at hprobe'
      cases hprobe'
      rw [hlines, List.map_eq_nil_iff, Option.toList_eq_nil_iff, ← Option.not_isSome_iff_eq_none,
        hiff]
      push Not
      rfl
    | restart _ _ hnone => rw [hprobe] at hnone; cases hnone

theorem unknown_probes_accounted_strangers :
    ∃ ls d, Daemon.Run plainSetup emptyDaemon ls d ∧
      (Daemon.probes plainSetup emptyDaemon ls).length = 12 ∧ d.limiter.suppressed = 2 ∧
      (logged ls).length + ((logged ls).filterMap fun line => line.2.suppressed).sum +
        d.limiter.suppressed = 12 := by
  obtain ⟨ls, d, hrun, hlife, hs, hprobes, hpending⟩ :=
    Lts.exists_run_of_exec (Daemon.next plainSetup) emptyDaemon
      ((List.range 12).flatMap stranger)
      (fun d ls => restarts ls = [] ∧
        (0 :: (Daemon.probes plainSetup emptyDaemon ls).map Prod.fst).Pairwise (· ≤ ·) ∧
        (Daemon.probes plainSetup emptyDaemon ls).length = 12 ∧ d.limiter.suppressed = 2)
      (by decide +kernel)
  have hall := (unknown_probes_accounted rfl hrun hlife hs (by rw [hprobes]; decide)).1
  exact ⟨ls, d, hrun, hprobes, hpending, hall.trans hprobes⟩

end Daemons

end Symbolon
