import Mathlib.Data.Finmap

/-!
# Collecting entries into a map, refusing duplicates

A loader reads entries one after the other and inserts each into a map, giving up
when a key is already there. `Finmap.collect` is that loop. What it returns does not
depend on the order of the entries: it succeeds exactly when the keys are pairwise
distinct, and then the map has exactly these entries (`Finmap.collect_eq_some_iff`).
So a map written out in *any* iteration order – `Finmap.Enumerates` – is read back
as itself (`Finmap.Enumerates.collect_eq`).
-/

universe u v

namespace Finmap

variable {α : Type u} {β : α → Type v}

/-- An iteration order of a map: a list with exactly its entries, each once. -/
def Enumerates (l : List (Sigma β)) (m : Finmap β) : Prop := (l : Multiset (Sigma β)) = m.entries

instance [DecidableEq α] [∀ a, DecidableEq (β a)] (l : List (Sigma β)) (m : Finmap β) :
    Decidable (Enumerates l m) := inferInstanceAs (Decidable (_ = _))

theorem exists_enumerates (m : Finmap β) : ∃ l, Enumerates l m := Quot.exists_rep m.entries

theorem Enumerates.nodupKeys {l : List (Sigma β)} {m : Finmap β} (h : Enumerates l m) :
    l.NodupKeys := by
  have hn := m.nodupKeys
  rw [← h] at hn
  exact Multiset.coe_nodupKeys.mp hn

variable [DecidableEq α]

theorem mem_entries_iff {m : Finmap β} {a : α} {b : β a} :
    ⟨a, b⟩ ∈ m.entries ↔ m.lookup a = some b := by
  induction m using Finmap.induction_on with
  | H l =>
    rw [lookup_toFinmap, AList.toFinmap_entries, Multiset.mem_coe]
    exact AList.mem_lookup_iff.symm

theorem Enumerates.mem_iff {l : List (Sigma β)} {m : Finmap β} (h : Enumerates l m) {a : α}
    {b : β a} : ⟨a, b⟩ ∈ l ↔ m.lookup a = some b := by
  rw [← mem_entries_iff, ← h, Multiset.mem_coe]

/-- Removing a key changes nothing iff it is not there. -/
theorem erase_eq_self_iff {m : Finmap β} {a : α} : m.erase a = m ↔ a ∉ m := by
  constructor
  · intro h hmem
    rw [← h] at hmem
    exact (mem_erase.mp hmem).1 rfl
  · intro h
    refine ext_lookup fun x => ?_
    rcases eq_or_ne x a with rfl | hx
    · rw [lookup_erase, lookup_eq_none.mpr h]
    · exact lookup_erase_ne hx

/-- Removing a key undoes inserting it, up to what was there before. -/
theorem erase_insert {m : Finmap β} {a : α} {b : β a} : (m.insert a b).erase a = m.erase a := by
  refine ext_lookup fun x => ?_
  rcases eq_or_ne x a with rfl | hx
  · rw [lookup_erase, lookup_erase]
  · rw [lookup_erase_ne hx, lookup_erase_ne hx, lookup_insert_of_ne _ hx]

/-- Insert the entries of a list into a map one after the other, giving up at the
first key that is already present. -/
def collectInto (m : Finmap β) : List (Sigma β) → Option (Finmap β)
  | [] => some m
  | ⟨a, b⟩ :: l => if a ∈ m then none else collectInto (m.insert a b) l

/-- Collect the entries of a list into a map, refusing a repeated key. -/
def collect (l : List (Sigma β)) : Option (Finmap β) := collectInto ∅ l

/-- The invariant of the loop: the entries collected are those already there and
those of the list, and no key came up twice. -/
theorem collectInto_eq_some_iff {l : List (Sigma β)} :
    ∀ {m m' : Finmap β}, collectInto m l = some m' ↔
      (l.NodupKeys ∧ ∀ s ∈ l, s.1 ∉ m) ∧ m'.entries = m.entries + l := by
  induction l with
  | nil =>
    intro m m'
    simp only [collectInto, Option.some.injEq, List.nodupKeys_nil, List.not_mem_nil, false_imp_iff,
      implies_true, and_self, true_and, Multiset.coe_nil, add_zero]
    exact ⟨fun h => h ▸ rfl, fun h => Finmap.ext h.symm⟩
  | cons s l ih =>
    intro m m'
    obtain ⟨a, b⟩ := s
    simp only [collectInto]
    by_cases ha : a ∈ m
    · rw [if_pos ha]
      simp [ha]
    · rw [if_neg ha, ih, entries_insert_of_notMem ha, List.nodupKeys_cons]
      have hcons : (⟨a, b⟩ ::ₘ m.entries) + (l : Multiset (Sigma β)) =
          m.entries + ((⟨a, b⟩ :: l : List (Sigma β)) : Multiset (Sigma β)) := by
        rw [← Multiset.cons_coe, Multiset.cons_add, Multiset.add_cons]
      rw [hcons]
      refine and_congr_left fun _ => ?_
      constructor
      · rintro ⟨hn, hm⟩
        refine ⟨⟨fun hmem => ?_, hn⟩, fun s hs => ?_⟩
        · obtain ⟨b', hb'⟩ := List.exists_of_mem_keys hmem
          exact hm ⟨a, b'⟩ hb' (mem_insert.mpr (Or.inl rfl))
        · rcases List.mem_cons.mp hs with rfl | hs
          · exact ha
          · exact fun hc => hm s hs (mem_insert.mpr (Or.inr hc))
      · rintro ⟨⟨hn, hl⟩, hm⟩
        refine ⟨hl, fun s hs hc => ?_⟩
        rcases mem_insert.mp hc with heq | hc
        · have hk : s.1 ∈ l.keys := List.mem_keys_of_mem hs
          exact hn (show a ∈ l.keys from heq ▸ hk)
        · exact hm s (List.mem_cons_of_mem _ hs) hc

/-- **Collecting succeeds exactly when no key repeats**, and then the list is an
iteration order of the map. -/
theorem collect_eq_some_iff {l : List (Sigma β)} {m : Finmap β} :
    collect l = some m ↔ l.NodupKeys ∧ Enumerates l m := by
  rw [collect, collectInto_eq_some_iff]
  have h0 : (∅ : Finmap β).entries = 0 := rfl
  simp only [notMem_empty, not_false_eq_true, implies_true, and_true, h0, zero_add, Enumerates]
  exact and_congr_right fun _ => eq_comm

/-- **A map written out in any order is collected back.** -/
theorem Enumerates.collect_eq {l : List (Sigma β)} {m : Finmap β} (h : Enumerates l m) :
    collect l = some m :=
  collect_eq_some_iff.mpr ⟨h.nodupKeys, h⟩

/-- A list with no repeated key is an iteration order of the map made of it. -/
theorem enumerates_toFinmap {l : List (Sigma β)} (h : l.NodupKeys) : Enumerates l l.toFinmap := by
  obtain ⟨m, hm⟩ : ∃ m, collect l = some m :=
    ⟨⟨_, Multiset.coe_nodupKeys.mpr h⟩, collect_eq_some_iff.mpr ⟨h, rfl⟩⟩
  have he := (collect_eq_some_iff.mp hm).2
  have hmm : m = l.toFinmap := by
    refine ext_lookup fun a => Option.ext fun b => ?_
    rw [← he.mem_iff, dlookup_list_toFinmap]
    exact (List.mem_dlookup_iff h).symm
  exact hmm ▸ he

/-- Removing a key from an iteration order leaves an iteration order of the map
without that key. -/
theorem Enumerates.filter_ne {l : List (Sigma β)} {m : Finmap β} (h : Enumerates l m) (a : α) :
    Enumerates (l.filter fun s => s.1 ≠ a) (m.erase a) := by
  have hn : (l.filter fun s => s.1 ≠ a).NodupKeys := h.nodupKeys.sublist List.filter_sublist
  obtain ⟨m', hm'⟩ : ∃ m', collect (l.filter fun s => s.1 ≠ a) = some m' :=
    ⟨⟨_, Multiset.coe_nodupKeys.mpr hn⟩, collect_eq_some_iff.mpr ⟨hn, rfl⟩⟩
  have he := (collect_eq_some_iff.mp hm').2
  have hmm : m' = m.erase a := by
    refine ext_lookup fun x => Option.ext fun b => ?_
    rw [← he.mem_iff, List.mem_filter, h.mem_iff]
    rcases eq_or_ne x a with rfl | hx
    · simp
    · simp [hx, lookup_erase_ne hx]
  exact hmm ▸ he

end Finmap
