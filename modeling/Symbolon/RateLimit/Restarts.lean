import Symbolon.RateLimit.Window

/-!
# Rate limiters that are made anew

A process that is started again has a new limiter, with a full bucket. Events that limiters
admitted one after the other keep a pace all the same: in every window of time there is at most a
burst more for each restart in it (`Symbolon.TokenBucket.PacedBetween.restart`).

The rest is accounting: a limiter over instants counted from zero is one over the integers
(`Symbolon.TokenBucket.calls_toInt`), and what it admitted, what it has reported as refused and
what is pending are all calls (`Symbolon.TokenBucket.admitted_add_reported_add_suppressed`).
-/

namespace Symbolon

namespace TokenBucket

/-! ### Limiters that are made anew -/

section Restarts

variable {interval burst t a b : ℤ} {restarts events later : List ℤ}

/-- The pace of events that limiters admitted one after the other: every restart is worth a
burst. -/
def PacedBetween (interval burst : ℤ) (restarts events : List ℤ) : Prop :=
  ∀ a b, a ≤ b →
    (inWindow a b events : ℤ) ≤ (1 + inWindow a b restarts) * burst + (b - a) / interval

theorem Paced.between (h : Paced interval burst events) :
    PacedBetween interval burst [] events := by
  intro a b hab
  have := h a b hab
  simpa [inWindow] using this

theorem inWindow_append :
    inWindow a b (events ++ later) = inWindow a b events + inWindow a b later :=
  List.countP_append

theorem inWindow_eq_zero (h : ∀ x ∈ events, a ≤ x → b < x) : inWindow a b events = 0 := by
  refine List.countP_eq_zero.mpr fun x hx hin => ?_
  obtain ⟨hax, hxb⟩ := of_decide_eq_true hin
  exact absurd hxb (not_le.mpr (h x hx hax))

/-- A window that is cut off where the events end loses none of them. -/
theorem inWindow_le_inWindow {a' b' : ℤ}
    (h : ∀ x ∈ events, a ≤ x → x ≤ b → a' ≤ x ∧ x ≤ b') :
    inWindow a b events ≤ inWindow a' b' events := by
  refine List.countP_mono_left fun x hx hin => ?_
  obtain ⟨hax, hxb⟩ := of_decide_eq_true hin
  exact decide_eq_true (h x hx hax hxb)

theorem ediv_add_ediv_le (hI : 0 < interval) :
    (t - a) / interval + (b - t) / interval ≤ (b - a) / interval := by
  rw [Int.le_ediv_iff_mul_le hI, add_mul]
  have h₁ := Int.ediv_mul_le (t - a) hI.ne'
  have h₂ := Int.ediv_mul_le (b - t) hI.ne'
  linarith

/-- **A restart at `t`**: the events before it keep the pace, those after it too. A window around
`t` is cut in two there. -/
theorem PacedBetween.restart (h : PacedBetween interval burst restarts events)
    (hlater : Paced interval burst later) (hI : 0 < interval) (hN : 1 ≤ burst)
    (hle : ∀ x ∈ events, x ≤ t) (hge : ∀ x ∈ later, t ≤ x) :
    PacedBetween interval burst (restarts ++ [t]) (events ++ later) := by
  intro a b hab
  rw [inWindow_append, inWindow_append]
  push_cast
  have hk : (0 : ℤ) ≤ inWindow a b restarts := Int.natCast_nonneg _
  rcases lt_or_ge t a with hta | hat
  · -- the window begins after the restart
    have hzero : inWindow a b events = 0 :=
      inWindow_eq_zero fun x hx hax => absurd (hle x hx) (not_le.mpr (hta.trans_le hax))
    have hw := hlater a b hab
    have hmul : 0 ≤ (inWindow a b restarts + inWindow a b [t] : ℤ) * burst :=
      mul_nonneg (add_nonneg hk (Int.natCast_nonneg _)) (by linarith)
    rw [hzero]
    push_cast
    linarith
  · rcases lt_or_ge b t with hbt | htb
    · -- it ends before the restart
      have hzero : inWindow a b later = 0 :=
        inWindow_eq_zero fun x hx _ => hbt.trans_le (hge x hx)
      have hw := h a b hab
      have hmul : 0 ≤ (inWindow a b [t] : ℤ) * burst :=
        mul_nonneg (Int.natCast_nonneg _) (by linarith)
      rw [hzero]
      push_cast
      linarith
    · have hone : inWindow a b [t] = 1 := by simp [inWindow, hat, htb]
      have hbefore : inWindow a b events ≤ inWindow a t events :=
        inWindow_le_inWindow fun x hx hax _ => ⟨hax, hle x hx⟩
      have hafter : inWindow a b later ≤ inWindow t b later :=
        inWindow_le_inWindow fun x hx _ hxb => ⟨hge x hx, hxb⟩
      have hrestarts : inWindow a t restarts ≤ inWindow a b restarts :=
        inWindow_le_inWindow fun x _ hax hxt => ⟨hax, hxt.trans htb⟩
      have hw := h a t hat
      have hw' := hlater t b htb
      have hdiv : (t - a) / interval + (b - t) / interval ≤ (b - a) / interval :=
        ediv_add_ediv_le hI
      have hmul : (inWindow a t restarts : ℤ) * burst ≤ inWindow a b restarts * burst :=
        mul_le_mul_of_nonneg_right (by exact_mod_cast hrestarts) (by linarith)
      zify at hbefore hafter
      rw [hone]
      push_cast
      linarith

end Restarts

/-! ### Instants that are counted from zero -/

section Cast

variable {b : TokenBucket ℕ ℕ} {times : List ℕ}

/-- The bucket over the integers. -/
def toInt (b : TokenBucket ℕ ℕ) : TokenBucket ℤ ℤ :=
  ⟨b.refillInterval, b.burstTolerance, b.tat, b.suppressed⟩

theorem tryAcquire_toInt (now : ℕ) :
    b.toInt.tryAcquire (now : ℤ) = ((b.tryAcquire now).1.toInt, (b.tryAcquire now).2) := by
  have hcond : ((b.tat : ℤ) ≤ (now : ℤ) + (b.burstTolerance : ℤ)) ↔
      b.tat ≤ now + b.burstTolerance := by norm_cast
  simp only [tryAcquire, toInt, hcond]
  split
  · simp
  · rfl

theorem calls_toInt (b : TokenBucket ℕ ℕ) (times : List ℕ) :
    b.toInt.calls (times.map Nat.cast) =
      ((b.calls times).1.toInt, (b.calls times).2.map fun c => ((c.1 : ℤ), c.2)) := by
  induction times using List.reverseRecOn with
  | nil => rfl
  | append_singleton times now ih =>
    rw [List.map_append, List.map_singleton, calls_concat, calls_concat, ih, call, call,
      tryAcquire_toInt, List.map_append, List.map_singleton]

theorem admitted_toInt :
    admitted (b.toInt.calls (times.map Nat.cast)).2 =
      (admitted (b.calls times).2).map Nat.cast := by
  rw [calls_toInt, admitted, admitted, List.filter_map, List.map_map, List.map_map]
  rfl

end Cast

/-! ### What the calls come to -/

section Count

variable {T D : Type} [LinearOrder T] [HAdd T D T] {b : TokenBucket T D} {times : List T}

/-- Every call is admitted or refused. -/
theorem admitted_add_refused :
    (admitted (b.calls times).2).length + refused (b.calls times).2 = times.length := by
  induction times using List.reverseRecOn with
  | nil => rfl
  | append_singleton times now ih =>
    rw [calls_concat, admitted_call, call, refused, List.countP_append, ← refused]
    cases (b.calls times).1.tryAcquire now with
    | mk b' outcome =>
      cases outcome <;> simp <;> omega

/-- The count has not grown past the number of calls. -/
theorem suppressed_calls_le :
    (b.calls times).1.suppressed ≤ b.suppressed + times.length := by
  induction times using List.reverseRecOn with
  | nil => exact Nat.le_refl _
  | append_singleton times now ih =>
    rw [calls_concat, call, tryAcquire, List.length_append, List.length_singleton]
    split
    · exact Nat.zero_le _
    · have := Nat.min_le_left ((b.calls times).1.suppressed + 1) u64Max
      dsimp only
      omega

/-- What was admitted, what the admitted ones reported and what is pending are all calls, if
there were fewer than the counter can count. -/
theorem admitted_add_reported_add_suppressed (hb : b.suppressed = 0)
    (hlen : times.length ≤ u64Max) :
    (admitted (b.calls times).2).length + reported (b.calls times).2 +
      (b.calls times).1.suppressed = times.length := by
  have hreported : reported (b.calls times).2 + (b.calls times).1.suppressed =
      refused (b.calls times).2 := by
    refine reported_add_suppressed (fun before now hp _ => ?_) hb
    have hle : (b.calls before).1.suppressed ≤ b.suppressed + before.length := suppressed_calls_le
    have hlt := hp.length_le
    rw [List.length_append, List.length_singleton] at hlt
    omega
  have hall : (admitted (b.calls times).2).length + refused (b.calls times).2 = times.length :=
    admitted_add_refused
  omega

end Count

end TokenBucket

end Symbolon
