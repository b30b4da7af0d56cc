import Symbolon.RateLimit
import Mathlib.Algebra.Order.Ring.Int
import Mathlib.Data.List.Induction
import Mathlib.Data.List.Infix
import Mathlib.Tactic.Linarith
import Mathlib.Tactic.Ring

/-!
# The rate limiter counts

`Symbolon.TokenBucket` keeps one instant and no history. This file unrolls the instant into
the history of admitted events, over integer time: **the bucket's instant is the latest of
`s + n * I`, over the admitted events at `s` of which there were `n` from then on**
(`Symbolon.TokenBucket.Tracks`). A bucket for bursts of `N`, whose tolerance is
`(N - 1) * I`, therefore admits an event at `t` iff each such `n` is, with the new event, at
most `N + ⌊(t - s) / I⌋`.

That is the limiter that an operator has in mind: in any window of time `[a, b]` there are
at most `N + ⌊(b - a) / I⌋` admitted events, and no event is refused that would have kept to
this. What has been refused is accounted for by the counts that the admitted events report,
and by the count that is still pending.
-/

namespace Symbolon

namespace TokenBucket

/-! ### Histories of calls -/

section Histories

variable {T D : Type} [LinearOrder T] [HAdd T D T]

/-- One call, logged with its time and its outcome. -/
def call (s : TokenBucket T D × List (T × Option ℕ)) (now : T) :
    TokenBucket T D × List (T × Option ℕ) :=
  ((s.1.tryAcquire now).1, s.2 ++ [(now, (s.1.tryAcquire now).2)])

/-- The bucket after calls at the given times, and the log of their outcomes. -/
def calls (b : TokenBucket T D) (times : List T) : TokenBucket T D × List (T × Option ℕ) :=
  times.foldl call (b, [])

/-- The times of the admitted events. -/
def admitted (log : List (T × Option ℕ)) : List T :=
  (log.filter fun c => c.2.isSome).map Prod.fst

/-- How many events the admitted ones have reported as refused. -/
def reported (log : List (T × Option ℕ)) : ℕ := (log.filterMap Prod.snd).sum

/-- How many events were refused. -/
def refused (log : List (T × Option ℕ)) : ℕ := log.countP fun c => c.2.isNone

variable {b : TokenBucket T D} {times : List T} {now : T}

theorem calls_concat : b.calls (times ++ [now]) = call (b.calls times) now := by
  rw [calls, List.foldl_append]
  rfl

theorem admitted_call (s : TokenBucket T D × List (T × Option ℕ)) :
    admitted (call s now).2 =
      admitted s.2 ++ if (s.1.tryAcquire now).2.isSome then [now] else [] := by
  rw [call, admitted, admitted, List.filter_append, List.map_append]
  split <;> simp [*]

/-- The admitted events are some of the calls. -/
theorem admitted_sublist : (admitted (b.calls times).2).Sublist times := by
  induction times using List.reverseRecOn with
  | nil => exact .slnil
  | append_singleton times now ih =>
    rw [calls_concat, admitted_call]
    refine ih.append ?_
    split
    · exact .refl _
    · exact List.nil_sublist _

/-- **Nothing that is refused goes unreported**, as long as the counter is not full when an
event is refused. -/
theorem reported_add_suppressed
    (hfull : ∀ before now, before ++ [now] <+: times →
      ((b.calls before).1.tryAcquire now).2 = none → (b.calls before).1.suppressed < u64Max)
    (hb : b.suppressed = 0) :
    reported (b.calls times).2 + (b.calls times).1.suppressed = refused (b.calls times).2 := by
  induction times using List.reverseRecOn with
  | nil => rw [calls, List.foldl_nil, hb]; rfl
  | append_singleton times now ih =>
    have ih := ih fun before t h => hfull before t (h.trans (List.prefix_append _ _))
    have hlast := hfull times now (List.prefix_refl _)
    rw [calls_concat]
    simp only [call, reported, refused, tryAcquire] at ih hlast ⊢
    rw [List.filterMap_append, List.countP_append, List.sum_append]
    split
    · simpa using ih
    · rename_i htat
      rw [if_neg htat] at hlast
      have hlt := hlast rfl
      simp
      omega

end Histories

/-! ### The instant, unrolled -/

variable {t₀ tat now interval burst : ℤ} {events : List ℤ}

/-- **What the instant of the bucket stands for**: no admitted event puts it later, and one
of them, or else the construction, puts it where it is. -/
structure Tracks (interval t₀ : ℤ) (events : List ℤ) (tat : ℤ) : Prop where
  le : ∀ {before s after}, events = before ++ s :: after → s + (after.length + 1) * interval ≤ tat
  attained : events = [] ∧ tat = t₀ ∨
    ∃ before s after, events = before ++ s :: after ∧ tat = s + (after.length + 1) * interval

/-- The bound that an event at `now` has to keep to, behind the admitted ones. -/
def Conforms (interval burst : ℤ) (events : List ℤ) (now : ℤ) : Prop :=
  ∀ before s after, events = before ++ s :: after →
    (after.length + 1 : ℤ) + 1 ≤ burst + (now - s) / interval

theorem tracks_nil : Tracks interval t₀ [] t₀ where
  le h := by simp at h
  attained := .inl ⟨rfl, rfl⟩

/-- An admitted event moves the instant on. -/
theorem Tracks.concat (h : Tracks interval t₀ events tat) (hnow : t₀ ≤ now) :
    Tracks interval t₀ (events ++ [now]) (max tat now + interval) where
  le {before s after} he := by
    rcases List.eq_nil_or_concat after with rfl | ⟨after', last, rfl⟩
    · obtain ⟨-, hs⟩ := List.append_inj' he rfl
      rw [← List.singleton_inj.mp hs]
      simp
    · have he' : events ++ [now] = (before ++ s :: after') ++ [last] := by
        rw [he, List.concat_eq_append, List.append_assoc, List.cons_append]
      have hle := h.le (List.append_inj' he' rfl).1
      have hmax : tat ≤ max tat now := le_max_left _ _
      rw [List.length_concat]
      push_cast
      linarith
  attained := by
    rcases le_total tat now with htat | htat
    · -- the schedule is behind: it starts anew from this event
      refine .inr ⟨events, now, [], rfl, ?_⟩
      rw [max_eq_right htat]
      simp
    · rcases h.attained with ⟨rfl, rfl⟩ | ⟨before, s, after, rfl, rfl⟩
      · refine .inr ⟨[], now, [], rfl, ?_⟩
        rw [max_eq_right hnow]
        simp
      · refine .inr ⟨before, s, after ++ [now], by simp, ?_⟩
        rw [max_eq_left htat, List.length_append, List.length_singleton]
        push_cast
        ring

/-- The bucket admits an event iff the event keeps to the bound. -/
theorem Tracks.le_add_tolerance_iff (h : Tracks interval t₀ events tat) (hI : 0 < interval)
    (hN : 1 ≤ burst) (hnow : t₀ ≤ now) :
    tat ≤ now + (burst - 1) * interval ↔ Conforms interval burst events now := by
  -- one event's share of the bound, without the division
  have hshare : ∀ (s n : ℤ),
      n + 1 ≤ burst + (now - s) / interval ↔ s + n * interval ≤ now + (burst - 1) * interval := by
    intro s n
    rw [← sub_le_iff_le_add', Int.le_ediv_iff_mul_le hI]
    constructor <;> intro hle <;> linarith
  constructor
  · intro hle before s after he
    exact (hshare s _).mpr ((h.le he).trans hle)
  · intro hc
    rcases h.attained with ⟨-, rfl⟩ | ⟨before, s, after, he, rfl⟩
    · have : 0 ≤ (burst - 1) * interval := mul_nonneg (by linarith) hI.le
      linarith
    · exact (hshare s _).mp (hc before s after he)

section Burst

variable {times : List ℤ}

/-- The bucket that admits bursts of `burst` events, and one event per interval thereafter. -/
def ofBurst (interval burst t₀ : ℤ) : TokenBucket ℤ ℤ := new interval ((burst - 1) * interval) t₀

theorem calls_ofBurst_config :
    ((ofBurst interval burst t₀).calls times).1.refillInterval = interval ∧
      ((ofBurst interval burst t₀).calls times).1.burstTolerance = (burst - 1) * interval := by
  induction times using List.reverseRecOn with
  | nil => exact ⟨rfl, rfl⟩
  | append_singleton times now ih =>
    rw [calls_concat, call, tryAcquire]
    split <;> exact ih

theorem tryAcquire_isSome_iff :
    (((ofBurst interval burst t₀).calls times).1.tryAcquire now).2.isSome ↔
      ((ofBurst interval burst t₀).calls times).1.tat ≤ now + (burst - 1) * interval := by
  rw [tryAcquire, calls_ofBurst_config.2]
  split <;> simp [*]

/-- Along every history, the instant stands for the admitted events. -/
theorem tracks_calls (h₀ : ∀ t ∈ times, t₀ ≤ t) :
    Tracks interval t₀ (admitted ((ofBurst interval burst t₀).calls times).2)
      ((ofBurst interval burst t₀).calls times).1.tat := by
  induction times using List.reverseRecOn with
  | nil => exact tracks_nil
  | append_singleton times now ih =>
    have ih := ih fun t ht => h₀ t (List.mem_append_left _ ht)
    have hnow : t₀ ≤ now := h₀ now (by simp)
    have hI : ((ofBurst interval burst t₀).calls times).1.refillInterval = interval :=
      calls_ofBurst_config.1
    rw [calls_concat, admitted_call]
    split
    · rename_i hacc
      rw [call, tryAcquire, calls_ofBurst_config.2, if_pos (tryAcquire_isSome_iff.mp hacc), hI]
      exact ih.concat hnow
    · rename_i hacc
      rw [call, tryAcquire, calls_ofBurst_config.2, if_neg (mt tryAcquire_isSome_iff.mpr hacc),
        List.append_nil]
      exact ih

/-- **A call is admitted iff it keeps to the bound.** -/
theorem tryAcquire_isSome_iff_conforms (hI : 0 < interval) (hN : 1 ≤ burst)
    (h₀ : ∀ t ∈ times, t₀ ≤ t) (hnow : t₀ ≤ now) :
    (((ofBurst interval burst t₀).calls times).1.tryAcquire now).2.isSome ↔
      Conforms interval burst (admitted ((ofBurst interval burst t₀).calls times).2) now := by
  rw [tryAcquire_isSome_iff]
  exact (tracks_calls h₀).le_add_tolerance_iff hI hN hnow

end Burst

/-! ### Windows of time -/

/-- How many of the events lie in the window. -/
def inWindow (a b : ℤ) (events : List ℤ) : ℕ := events.countP fun t => a ≤ t ∧ t ≤ b

/-- The events keep to the bound in every window. -/
def Paced (interval burst : ℤ) (events : List ℤ) : Prop :=
  ∀ a b, a ≤ b → (inWindow a b events : ℤ) ≤ burst + (b - a) / interval

/-- In order of time, the events of a window that ends with the last of them are the last
ones. -/
theorem inWindow_eq_zero_or_split (hs : events.Pairwise (· ≤ ·)) (a b : ℤ) :
    inWindow a b events = 0 ∨
      ∃ before s after, events = before ++ s :: after ∧ a ≤ s ∧
        inWindow a b events ≤ after.length + 1 := by
  induction events with
  | nil => exact .inl rfl
  | cons t events ih =>
    by_cases hat : a ≤ t
    · exact .inr ⟨[], t, events, rfl, hat, List.countP_le_length⟩
    · have hskip : inWindow a b (t :: events) = inWindow a b events := by
        rw [inWindow, List.countP_cons_of_neg (by simp [hat])]
        rfl
      rw [hskip]
      rcases ih (List.pairwise_cons.mp hs).2 with h | ⟨before, s, after, rfl, has, hle⟩
      · exact .inl h
      · exact .inr ⟨t :: before, s, after, rfl, has, hle⟩

theorem paced_nil (hI : 0 < interval) (hN : 1 ≤ burst) : Paced interval burst [] := by
  intro a b hab
  have hdiv : 0 ≤ (b - a) / interval := Int.ediv_nonneg (sub_nonneg.mpr hab) hI.le
  simp only [inWindow, List.countP_nil, Nat.cast_zero]
  linarith

/-- An event that keeps to the bound behind the others keeps the pace. -/
theorem Paced.concat (h : Paced interval burst events) (hI : 0 < interval) (hN : 1 ≤ burst)
    (hs : events.Pairwise (· ≤ ·)) (hc : Conforms interval burst events now) :
    Paced interval burst (events ++ [now]) := by
  intro a b hab
  rw [inWindow, List.countP_append, List.countP_singleton]
  split
  · rename_i hin
    obtain ⟨han, hnb⟩ : a ≤ now ∧ now ≤ b := by simpa using hin
    have hmono : ∀ {s}, a ≤ s → (now - s) / interval ≤ (b - a) / interval := fun has =>
      Int.ediv_le_ediv hI (by linarith)
    have hdiv : 0 ≤ (b - a) / interval := Int.ediv_nonneg (sub_nonneg.mpr hab) hI.le
    rcases inWindow_eq_zero_or_split hs a b with h0 | ⟨before, s, after, he, has, hle⟩
    · rw [← inWindow, h0]
      push_cast
      linarith
    · have hlast := hc before s after he
      have hle' : (inWindow a b events : ℤ) ≤ after.length + 1 := by exact_mod_cast hle
      have := hmono has
      rw [← inWindow]
      push_cast
      linarith
  · exact h a b hab

/-- Behind events in order of time, an event that keeps the pace keeps to the bound. -/
theorem conforms_of_paced (hs : (events ++ [now]).Pairwise (· ≤ ·))
    (h : Paced interval burst (events ++ [now])) : Conforms interval burst events now := by
  rintro before s after rfl
  obtain ⟨hs', -, hnow⟩ := List.pairwise_append.mp hs
  have hsn : s ≤ now := hnow s (by simp) now (by simp)
  -- the window from `s` to `now` has all of them from `s` on
  have hall : ∀ t ∈ s :: after ++ [now], s ≤ t ∧ t ≤ now := by
    intro t ht
    rcases List.mem_append.mp ht with ht | ht
    · refine ⟨?_, hnow t (List.mem_append_right _ ht) now (by simp)⟩
      rcases List.mem_cons.mp ht with rfl | ht
      · exact le_rfl
      · exact (List.pairwise_cons.mp (List.pairwise_append.mp hs').2.1).1 t ht
    · rw [List.mem_singleton.mp ht]
      exact ⟨hsn, le_rfl⟩
  have hcount : after.length + 1 + 1 ≤ inWindow s now (before ++ s :: after ++ [now]) := by
    have hlen : (s :: after ++ [now]).countP (fun t => s ≤ t ∧ t ≤ now) = after.length + 1 + 1 := by
      rw [List.countP_eq_length.mpr fun t ht => decide_eq_true (hall t ht)]
      simp
    rw [inWindow, List.append_assoc, List.countP_append, hlen]
    exact Nat.le_add_left _ _
  have := h s now hsn
  have hcount' : ((after.length + 1 + 1 : ℕ) : ℤ) ≤ _ := Int.ofNat_le.mpr hcount
  push_cast at hcount'
  linarith

variable {times : List ℤ}

/-- Along every history, the admitted events keep the pace. -/
theorem paced_calls (hI : 0 < interval) (hN : 1 ≤ burst) (h₀ : ∀ t ∈ times, t₀ ≤ t)
    (hs : times.Pairwise (· ≤ ·)) :
    Paced interval burst (admitted ((ofBurst interval burst t₀).calls times).2) := by
  induction times using List.reverseRecOn with
  | nil => exact paced_nil hI hN
  | append_singleton times now ih =>
    obtain ⟨hs', -, -⟩ := List.pairwise_append.mp hs
    have h₀' : ∀ t ∈ times, t₀ ≤ t := fun t ht => h₀ t (List.mem_append_left _ ht)
    have ih := ih h₀' hs'
    rw [calls_concat, admitted_call]
    split
    · rename_i hacc
      refine ih.concat hI hN (hs'.sublist admitted_sublist) ?_
      exact (tryAcquire_isSome_iff_conforms hI hN h₀' (h₀ now (by simp))).mp hacc
    · rwa [List.append_nil]

/-- **The limiter admits bursts of `burst` and one event per interval, exactly.** Of calls in
order of time, none before the construction: a call is admitted iff for each admitted one
the number from it onward, and one more, is at most the burst and the intervals passed since;
in no window are more admitted than the burst and its intervals; a call is admitted if that
would keep to this; and what the admitted calls report as refused, with what is pending, is
what was refused, unless the counter was full when a call was refused. -/
theorem tryAcquire_exact (interval burst t₀ : ℤ) (hI : 0 < interval) (hN : 1 ≤ burst)
    (times : List ℤ) (now : ℤ) (hs : (t₀ :: times ++ [now]).Pairwise (· ≤ ·)) :
    let run := (new interval ((burst - 1) * interval) t₀ : TokenBucket ℤ ℤ).calls
    ((((run times).1.tryAcquire now).2.isSome ↔
        ∀ before s after, admitted (run times).2 = before ++ s :: after →
          (after.length + 1 : ℤ) + 1 ≤ burst + (now - s) / interval) ∧
      (∀ a b, a ≤ b → (inWindow a b (admitted (run times).2) : ℤ) ≤ burst + (b - a) / interval) ∧
      ((∀ a b, a ≤ b →
          (inWindow a b (admitted (run times).2 ++ [now]) : ℤ) ≤ burst + (b - a) / interval) →
        ((run times).1.tryAcquire now).2.isSome)) ∧
    ((∀ before t, before ++ [t] <+: times → ((run before).1.tryAcquire t).2 = none →
        (run before).1.suppressed < u64Max) →
      reported (run times).2 + (run times).1.suppressed = refused (run times).2) := by
  obtain ⟨hs', -, hnow⟩ := List.pairwise_append.mp hs
  obtain ⟨h₀, hs''⟩ := List.pairwise_cons.mp hs'
  have hstart : t₀ ≤ now := hnow t₀ (by simp) now (by simp)
  have hiff := tryAcquire_isSome_iff_conforms hI hN h₀ hstart
  refine ⟨⟨hiff, paced_calls hI hN h₀ hs'', fun hp => hiff.mpr (conforms_of_paced ?_ hp)⟩,
    fun hfull => reported_add_suppressed hfull rfl⟩
  exact (List.pairwise_cons.mp hs).2.sublist (admitted_sublist.append (.refl _))

/-- Bursts of two, one event in six units of time, and calls at 0, 0, 0, 1 and 6: the third
and the fourth are refused, and the fifth reports them. -/
theorem tryAcquire_exact_two :
    let run := (new 6 6 0 : TokenBucket ℤ ℤ).calls [0, 0, 0, 1, 6]
    admitted run.2 = [0, 0, 6] ∧
      (∀ a b, a ≤ b → (inWindow a b (admitted run.2) : ℤ) ≤ 2 + (b - a) / 6) ∧
      reported run.2 + run.1.suppressed = refused run.2 := by
  have h := tryAcquire_exact 6 2 0 (by decide) (by decide) [0, 0, 0, 1, 6] 7 (by decide)
  refine ⟨by decide, h.1.2.1, h.2 fun before t hp _ => ?_⟩
  have hmem : before ∈ [0, 0, 0, 1, 6].inits :=
    (List.mem_inits _ _).mpr ((List.prefix_append _ _).trans hp)
  have hall : ∀ p ∈ ([0, 0, 0, 1, 6] : List ℤ).inits,
      ((new 6 6 0 : TokenBucket ℤ ℤ).calls p).1.suppressed < u64Max := by decide
  exact hall before hmem

end TokenBucket

end Symbolon
