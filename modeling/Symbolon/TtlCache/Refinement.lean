import Symbolon.TtlCache

/-!
# The cache as a plain map with expiry

What the cache of `Symbolon.TtlCache` is for, said without its queue: an `insert` puts a
value under a key until a given instant, an `invalidate` takes it away, and a
`get_with_expiry` finds the value of **the latest `insert` of the key** that no
`invalidate` of the key has followed (`Symbolon.TtlCache.Latest`), provided that the instant
has not come.

The clock is read by every `insert` and every `get_with_expiry`, and nothing is assumed of
its readings. A reading at or after the expiry of an entry evicts the entry for good, so
what a history of calls leaves in the cache is exact only with the readings in it: **an
entry is there iff its insert is the latest of its key and every reading since then was
before its expiry** (`Symbolon.TtlCache.holds_run_iff`). If the readings never decrease, the
last one decides for all of them.
-/

namespace Symbolon

universe u v w

namespace TtlCache

variable {K : Type u} {V : Type v} {T : Type w}

variable (K V T) in
/-- A call to the cache, with the clock reading that it takes. -/
inductive Op
  /-- `insert`. -/
  | insert (now : T) (key : K) (value : V) (expiresAt : T)
  /-- `get_with_expiry`. -/
  | getWithExpiry (now : T) (key : K)
  /-- `invalidate`, which does not read the clock. -/
  | invalidate (key : K)

namespace Op

/-- The clock reading of a call. -/
def reading : Op K V T → Option T
  | insert now _ _ _ => some now
  | getWithExpiry now _ => some now
  | invalidate _ => none

/-- The call says anew what is under the key. -/
def Settles (k : K) : Op K V T → Prop
  | insert _ key _ _ => key = k
  | getWithExpiry _ _ => False
  | invalidate key => key = k

end Op

/-- There was an `insert` of this value, and all calls after it have the property. -/
def Since (p : Op K V T → Prop) (ops : List (Op K V T)) (k : K) (v : V) (t : T) : Prop :=
  ∃ before now after, ops = before ++ .insert now k v t :: after ∧ ∀ op ∈ after, p op

/-- **The latest `insert` of the key**, not followed by an `invalidate` of it, had this value
and this expiry. -/
def Latest (ops : List (Op K V T)) (k : K) (v : V) (t : T) : Prop :=
  Since (fun op => ¬op.Settles k) ops k v t

/-- The clock readings of a history, in order. -/
def readings (ops : List (Op K V T)) : List T := ops.filterMap Op.reading

variable {ops : List (Op K V T)} {op : Op K V T} {p q : Op K V T → Prop}
  {k : K} {v : V} {now t : T}

theorem not_since_nil : ¬Since p ([] : List (Op K V T)) k v t := by
  rintro ⟨before, now, after, h, -⟩
  exact List.append_ne_nil_of_right_ne_nil before (List.cons_ne_nil _ after) h.symm

/-- The history grows at its end: either the last call is the `insert`, or it is one of
those after it. -/
theorem since_concat_iff :
    Since p (ops ++ [op]) k v t ↔ (∃ now, op = .insert now k v t) ∨ p op ∧ Since p ops k v t := by
  constructor
  · rintro ⟨before, now, after, h, hafter⟩
    rcases List.eq_nil_or_concat after with rfl | ⟨after', last, rfl⟩
    · obtain ⟨-, hop⟩ := List.append_inj' h rfl
      exact .inl ⟨now, List.singleton_inj.mp hop⟩
    · have h' : ops ++ [op] = (before ++ .insert now k v t :: after') ++ [last] := by
        rw [h, List.concat_eq_append, List.append_assoc, List.cons_append]
      obtain ⟨hops, hlast⟩ := List.append_inj' h' rfl
      rw [List.singleton_inj] at hlast
      refine .inr ⟨hafter op (by simp [hlast]), before, now, after', hops, fun o ho => ?_⟩
      exact hafter o (by simp [ho])
  · rintro (⟨now, rfl⟩ | ⟨hop, before, now, after, rfl, hafter⟩)
    · exact ⟨ops, now, [], rfl, fun _ h => absurd h List.not_mem_nil⟩
    · refine ⟨before, now, after ++ [op], by simp, fun o ho => ?_⟩
      rcases List.mem_append.mp ho with ho | ho
      · exact hafter o ho
      · rwa [List.mem_singleton.mp ho]

theorem Since.mono (h : Since p ops k v t) (hpq : ∀ op ∈ ops, p op → q op) :
    Since q ops k v t := by
  obtain ⟨before, now, after, rfl, hafter⟩ := h
  refine ⟨before, now, after, rfl, fun op hop => hpq op ?_ (hafter op hop)⟩
  exact List.mem_append_right _ (List.mem_cons_of_mem _ hop)

variable [LinearOrder K] [LinearOrder T]

/-- What a call makes of the cache. -/
def Op.exec (c : TtlCache K V T) : Op K V T → TtlCache K V T
  | insert now key value expiresAt => c.insert now key value expiresAt
  | getWithExpiry now key => (c.getWithExpiry now key).1
  | invalidate key => c.invalidate key

/-- The cache after a history of calls. -/
def run (ops : List (Op K V T)) : TtlCache K V T := ops.foldl Op.exec new

/-- One call keeps an entry, unless it says anew what is under the key or finds the entry
due. -/
theorem holds_exec_iff {c : TtlCache K V T} :
    (op.exec c).Holds k v t ↔ (∃ now, op = .insert now k v t) ∨
      (¬op.Settles k ∧ ∀ now, op.reading = some now → now < t) ∧ c.Holds k v t := by
  cases op with
  | insert now key value expiresAt =>
    rw [Op.exec, holds_insert_iff]
    rcases eq_or_ne k key with rfl | hk
    · simp [Op.Settles]
    · simp [Op.Settles, Op.reading, hk, hk.symm, and_comm]
  | getWithExpiry now key =>
    rw [Op.exec, getWithExpiry, holds_sweep_iff]
    simp [Op.Settles, Op.reading, and_comm]
  | invalidate key =>
    rw [Op.exec, holds_invalidate_iff]
    simp [Op.Settles, Op.reading, eq_comm]

/-- **What a history leaves in the cache.** The clock may have run backwards in between. -/
theorem holds_run_iff :
    (run ops).Holds k v t ↔
      Since (fun op => ¬op.Settles k ∧ ∀ now, op.reading = some now → now < t) ops k v t := by
  induction ops using List.reverseRecOn with
  | nil => exact iff_of_false not_holds_new not_since_nil
  | append_singleton ops op ih =>
    rw [since_concat_iff, ← ih, run, List.foldl_append]
    exact holds_exec_iff

/-- **The cache refines a plain map with expiry.** Whatever the clock does, what is found is
the latest insert of the key, and it is not due. If the clock never goes back, that is found
exactly when it is so: neither a tombstone, nor a re-insert, nor the sweep for another key
takes an entry that is not due. -/
theorem getWithExpiry_run (ops : List (Op K V T)) (now : T) (k : K) (v : V) (t : T) :
    (((run ops).getWithExpiry now k).2 = some (v, t) → Latest ops k v t ∧ now < t) ∧
      ((readings ops ++ [now]).Pairwise (· ≤ ·) →
        (((run ops).getWithExpiry now k).2 = some (v, t) ↔ Latest ops k v t ∧ now < t)) := by
  rw [getWithExpiry_eq_some_iff, holds_run_iff]
  have hlatest : Since (fun op => ¬op.Settles k ∧ ∀ now, op.reading = some now → now < t) ops k v t
      → Latest ops k v t := fun h => h.mono fun _ _ hp => hp.1
  refine ⟨And.imp_left hlatest, fun hmono => ⟨And.imp_left hlatest, ?_⟩⟩
  rintro ⟨hl, hlt⟩
  refine ⟨hl.mono fun op hop hs => ⟨hs, fun r hr => ?_⟩, hlt⟩
  -- every reading of the history is at most the last one
  have hle : r ≤ now := by
    refine (List.pairwise_append.mp hmono).2.2 r ?_ now (List.mem_singleton.mpr rfl)
    exact List.mem_filterMap.mpr ⟨op, hop, hr⟩
  exact hle.trans_lt hlt

/-- A key that is inserted, invalidated and inserted again with the same expiry is found
until then, for all that the first expiration is still in the queue. -/
theorem getWithExpiry_run_tombstone :
    let ops : List (Op ℕ ℕ ℕ) :=
      [.insert 0 1 10 5, .invalidate 1, .insert 1 1 20 5, .getWithExpiry 3 2]
    ((run ops).getWithExpiry 4 1).2 = some (20, 5) :=
  ((getWithExpiry_run _ 4 1 20 5).2 (by decide)).mpr
    ⟨⟨[.insert 0 1 10 5, .invalidate 1], 1, [.getWithExpiry 3 2], rfl, by simp [Op.Settles]⟩,
      by decide⟩

end TtlCache

end Symbolon
