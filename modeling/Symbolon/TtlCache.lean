import Mathlib.Data.Finmap
import Mathlib.Data.List.Sort
import Mathlib.Data.Prod.Lex

/-!
# The cache with expiry times

`TtlCache` of `src/ttl_cache.rs`: a map from keys to values with an expiry, and a queue of
expirations with the earliest first. Nothing runs in the background. Every `insert` and
every `get_with_expiry` first reads the clock and *sweeps*: it takes expirations off the
queue as long as they are due, and evicts the entry of the key if the entry still has that
expiry. An expiration whose entry is gone, or has been replaced, is a *tombstone*, and is
dropped silently.

The queue is a `BinaryHeap` of `Reverse((T, K))`, of which only the order matters: it is a
list here, sorted by expiry and then by key.

That the queue accounts for every entry is a field of the structure
(`Symbolon.TtlCache.covered`), so there is no cache without it. It makes the sweep exact:
**after a sweep, the entries are the former ones that are not yet due**
(`Symbolon.TtlCache.holds_sweep_iff`), whatever tombstones there are, and however the clock
has moved.
-/

namespace Symbolon

universe u v w

variable {K : Type u} {V : Type v} {T : Type w} [LinearOrder K] [LinearOrder T]

namespace TtlCache

/-- An expiration takes the entry of its key with it, if the entry still has that expiry. -/
def evict (entries : Finmap fun _ : K => V × T) (e : T ×ₗ K) : Finmap fun _ : K => V × T :=
  if (entries.lookup (ofLex e).2).map Prod.snd = some (ofLex e).1 then entries.erase (ofLex e).2
  else entries

/-- **The sweep**, over the queue. -/
def sweepQueue (now : T) : (Finmap fun _ : K => V × T) → List (T ×ₗ K) →
    (Finmap fun _ : K => V × T) × List (T ×ₗ K)
  | entries, [] => (entries, [])
  | entries, e :: queue =>
    if (ofLex e).1 ≤ now then sweepQueue now (evict entries e) queue else (entries, e :: queue)

/-- What an expiration leaves. -/
theorem lookup_evict {entries : Finmap fun _ : K => V × T} {e : T ×ₗ K} {k : K} {v : V} {t : T} :
    (evict entries e).lookup k = some (v, t) ↔
      entries.lookup k = some (v, t) ∧ e ≠ toLex (t, k) := by
  unfold evict
  rcases eq_or_ne (ofLex e).2 k with hk | hk
  · split
    · rename_i ht
      rw [hk] at ht
      rw [← hk, Finmap.lookup_erase, hk]
      constructor
      · intro h
        cases h
      · rintro ⟨hl, hne⟩
        rw [hl, Option.map_some, Option.some.injEq] at ht
        exact absurd (ofLex.injective (Prod.ext ht.symm hk)) hne
    · rename_i ht
      rw [hk] at ht
      refine (and_iff_left_of_imp fun hl he => ht ?_).symm
      rw [hl, he]
      rfl
  · have hne : e ≠ toLex (t, k) := fun he => hk (by rw [he]; rfl)
    split
    · rw [Finmap.lookup_erase_ne hk.symm, and_iff_left hne]
    · rw [and_iff_left hne]

/-- What is swept off a sorted queue is what is due. -/
theorem mem_sweepQueue_iff {now : T} {queue : List (T ×ₗ K)} (hs : queue.Pairwise (· ≤ ·))
    {entries : Finmap fun _ : K => V × T} {e : T ×ₗ K} :
    e ∈ (sweepQueue now entries queue).2 ↔ e ∈ queue ∧ now < (ofLex e).1 := by
  induction queue generalizing entries with
  | nil => simp [sweepQueue]
  | cons d queue ih =>
    obtain ⟨hd, hs'⟩ := List.pairwise_cons.mp hs
    by_cases hdue : (ofLex d).1 ≤ now
    · rw [sweepQueue, if_pos hdue, ih hs', List.mem_cons]
      refine ⟨fun ⟨hq, hn⟩ => ⟨.inr hq, hn⟩, fun ⟨hq, hn⟩ => ⟨hq.resolve_left ?_, hn⟩⟩
      rintro rfl
      exact absurd hdue (not_le.mpr hn)
    · -- the queue is sorted, so nothing behind `d` is due either
      rw [sweepQueue, if_neg hdue]
      refine (and_iff_left_of_imp fun he => ?_).symm
      have hlt : now < (ofLex d).1 := not_le.mp hdue
      rcases List.mem_cons.mp he with rfl | hq
      · exact hlt
      · exact hlt.trans_le (Prod.Lex.monotone_fst d e (hd e hq))

/-- What a sweep leaves of the entries is what no expiration on the queue has taken. -/
theorem lookup_sweepQueue {now : T} {queue : List (T ×ₗ K)} (hs : queue.Pairwise (· ≤ ·))
    {entries : Finmap fun _ : K => V × T} {k : K} {v : V} {t : T} :
    ((sweepQueue now entries queue).1).lookup k = some (v, t) ↔
      entries.lookup k = some (v, t) ∧ (toLex (t, k) ∈ queue → now < t) := by
  induction queue generalizing entries with
  | nil => simp [sweepQueue]
  | cons d queue ih =>
    obtain ⟨hd, hs'⟩ := List.pairwise_cons.mp hs
    by_cases hdue : (ofLex d).1 ≤ now
    · rw [sweepQueue, if_pos hdue, ih hs', lookup_evict, and_assoc, List.mem_cons]
      refine and_congr_right fun _ =>
        ⟨fun ⟨hne, hq⟩ hmem => ?_, fun hq => ⟨?_, fun h => hq (.inr h)⟩⟩
      · exact hq (hmem.resolve_left fun h => hne h.symm)
      · rintro rfl
        exact absurd hdue (not_le.mpr (hq (.inl rfl)))
    · rw [sweepQueue, if_neg hdue]
      refine (and_iff_left_of_imp fun _ hq => ?_).symm
      have hmem : toLex (t, k) ∈ (sweepQueue now entries (d :: queue)).2 := by
        rwa [sweepQueue, if_neg hdue]
      exact ((mem_sweepQueue_iff hs).mp hmem).2

theorem sorted_sweepQueue {now : T} {queue : List (T ×ₗ K)} (hs : queue.Pairwise (· ≤ ·))
    {entries : Finmap fun _ : K => V × T} :
    (sweepQueue now entries queue).2.Pairwise (· ≤ ·) := by
  induction queue generalizing entries with
  | nil => exact hs
  | cons d queue ih =>
    rw [sweepQueue]
    split
    · exact ih (List.pairwise_cons.mp hs).2
    · exact hs

end TtlCache

variable (K V T) in
/-- **The cache.** -/
structure TtlCache where
  /-- The entries, with their expiry. -/
  entries : Finmap fun _ : K => V × T
  /-- The expirations, the earliest first. -/
  expirations : List (T ×ₗ K)
  /-- The queue is sorted. -/
  sorted : expirations.Pairwise (· ≤ ·)
  /-- The queue has the expiration of every entry. -/
  covered : ∀ {k v t}, entries.lookup k = some (v, t) → toLex (t, k) ∈ expirations

namespace TtlCache

variable (c : TtlCache K V T)

/-- The empty cache. -/
def new : TtlCache K V T := ⟨∅, [], .nil, fun h => by simp at h⟩

/-- Evict what is due. -/
def sweep (now : T) : TtlCache K V T where
  entries := (sweepQueue now c.entries c.expirations).1
  expirations := (sweepQueue now c.entries c.expirations).2
  sorted := sorted_sweepQueue c.sorted
  covered h := by
    obtain ⟨hl, hq⟩ := (lookup_sweepQueue c.sorted).mp h
    exact (mem_sweepQueue_iff c.sorted).mpr ⟨c.covered hl, hq (c.covered hl)⟩

/-- Sweep, and look a key up. -/
def getWithExpiry (now : T) (key : K) : TtlCache K V T × Option (V × T) :=
  (c.sweep now, (c.sweep now).entries.lookup key)

/-- Sweep, and put a value under a key. -/
def insert (now : T) (key : K) (value : V) (expiresAt : T) : TtlCache K V T where
  entries := (c.sweep now).entries.insert key (value, expiresAt)
  expirations := (c.sweep now).expirations.orderedInsert (· ≤ ·) (toLex (expiresAt, key))
  sorted := (c.sweep now).sorted.orderedInsert _ _
  covered {k v t} h := by
    rw [List.mem_orderedInsert]
    rcases eq_or_ne k key with rfl | hk
    · rw [Finmap.lookup_insert] at h
      cases h
      exact .inl rfl
    · rw [Finmap.lookup_insert_of_ne _ hk] at h
      exact .inr ((c.sweep now).covered h)

/-- Drop the entry of a key; its expiration stays behind. -/
def invalidate (key : K) : TtlCache K V T where
  entries := c.entries.erase key
  expirations := c.expirations
  sorted := c.sorted
  covered {k v t} h := by
    rcases eq_or_ne k key with rfl | hk
    · rw [Finmap.lookup_erase] at h
      cases h
    · rw [Finmap.lookup_erase_ne hk] at h
      exact c.covered h

/-- The cache has this value for the key, with this expiry. -/
def Holds (k : K) (v : V) (t : T) : Prop := c.entries.lookup k = some (v, t)

variable {c} {now : T} {key k : K} {value v : V} {expiresAt t : T}

theorem not_holds_new : ¬(new : TtlCache K V T).Holds k v t := by
  simp [Holds, new]

/-- **A sweep leaves what is not yet due.** -/
theorem holds_sweep_iff : (c.sweep now).Holds k v t ↔ c.Holds k v t ∧ now < t := by
  rw [Holds, sweep, lookup_sweepQueue c.sorted]
  exact and_congr_right fun h => ⟨fun hq => hq (c.covered h), fun hn _ => hn⟩

/-- **What is found is what the cache has, unless it is due.** -/
theorem getWithExpiry_eq_some_iff :
    (c.getWithExpiry now key).2 = some (v, t) ↔ c.Holds key v t ∧ now < t :=
  holds_sweep_iff

theorem holds_insert_iff :
    (c.insert now key value expiresAt).Holds k v t ↔
      if k = key then value = v ∧ expiresAt = t else c.Holds k v t ∧ now < t := by
  rw [Holds, insert]
  split
  · rename_i hk
    rw [hk, Finmap.lookup_insert, Option.some.injEq, Prod.mk.injEq]
  · rename_i hk
    rw [Finmap.lookup_insert_of_ne _ hk]
    exact holds_sweep_iff

theorem holds_invalidate_iff : (c.invalidate key).Holds k v t ↔ k ≠ key ∧ c.Holds k v t := by
  rw [Holds, invalidate]
  rcases eq_or_ne k key with rfl | hk
  · simp
  · rw [Finmap.lookup_erase_ne hk, and_iff_right hk, Holds]

end TtlCache

end Symbolon
