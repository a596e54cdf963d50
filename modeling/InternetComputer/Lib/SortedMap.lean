import Mathlib

/-!
# Sorted maps

A finite map kept as its entries in strictly increasing key order, the order being a field of
the structure: the way a `BTreeMap` is iterated, and a flat map of sorted keys.

* `get?`, `keys`, `insert`, `filter`, `erase`, and **`get?_eq_some_iff`**;
* `sumValues`, **`sumValues_insert_add`**: a sum over the values moves by what a write moves;
* `ext_get?`; `Counts`, a map of counts without zero entries.
-/

/-- The entries of a map, in strictly increasing key order. -/
structure SortedMap (κ ν : Type) [LinearOrder κ] where
  entries : List (κ × ν)
  sorted : entries.Pairwise fun a b => a.1 < b.1

namespace SortedMap

variable {κ ν : Type} [LinearOrder κ]

/-- The empty map. -/
def empty : SortedMap κ ν := ⟨[], List.Pairwise.nil⟩

/-- The keys, in increasing order. -/
def keys (m : SortedMap κ ν) : List κ := m.entries.map Prod.fst

/-- The value of a key. -/
def get? (m : SortedMap κ ν) (k : κ) : Option ν :=
  (m.entries.find? fun e => e.1 = k).map Prod.snd

@[simp]
theorem get?_empty (k : κ) : (empty : SortedMap κ ν).get? k = none := rfl

theorem keys_sorted (m : SortedMap κ ν) : m.keys.Pairwise (· < ·) :=
  List.pairwise_map.mpr m.sorted

theorem nodup_keys (m : SortedMap κ ν) : m.keys.Nodup :=
  m.keys_sorted.imp ne_of_lt

theorem find?_eq_some_iff {es : List (κ × ν)} (hes : (es.map Prod.fst).Nodup) {k : κ}
    {v : ν} : ((es.find? fun e => e.1 = k).map Prod.snd) = some v ↔ (k, v) ∈ es := by
  induction es with
  | nil => simp
  | cons e es ih =>
    obtain ⟨k', v'⟩ := e
    rw [List.map_cons, List.nodup_cons] at hes
    by_cases hk : k' = k
    · subst hk
      have hnot : ∀ w, (k', w) ∉ es := fun w hw => hes.1 (List.mem_map.mpr ⟨_, hw, rfl⟩)
      simp only [List.find?_cons, decide_true, Option.map_some, Option.some.injEq,
        List.mem_cons, Prod.mk.injEq, true_and]
      constructor
      · intro h
        exact Or.inl h.symm
      · rintro (h | h)
        · exact h.symm
        · exact absurd h (hnot v)
    · simp only [List.find?_cons, hk, decide_false, List.mem_cons, Prod.mk.injEq, Ne.symm hk,
        false_and, false_or]
      exact ih hes.2

theorem get?_eq_some_iff (m : SortedMap κ ν) {k : κ} {v : ν} :
    m.get? k = some v ↔ (k, v) ∈ m.entries :=
  find?_eq_some_iff m.nodup_keys

theorem mem_keys_iff (m : SortedMap κ ν) {k : κ} : k ∈ m.keys ↔ (m.get? k).isSome := by
  rw [Option.isSome_iff_exists]
  simp only [keys, List.mem_map, get?_eq_some_iff]
  constructor
  · rintro ⟨⟨k', v⟩, hmem, rfl⟩
    exact ⟨v, hmem⟩
  · rintro ⟨v, hmem⟩
    exact ⟨(k, v), hmem, rfl⟩

theorem ext_entries {m m' : SortedMap κ ν} (h : m.entries = m'.entries) : m = m' := by
  cases m
  cases m'
  cases h
  rfl

theorem ext_get? {m m' : SortedMap κ ν} (h : ∀ k, m.get? k = m'.get? k) : m = m' := by
  apply ext_entries
  have hmem : ∀ e, e ∈ m.entries ↔ e ∈ m'.entries := fun e => by
    rw [← get?_eq_some_iff, ← get?_eq_some_iff, h]
  have hnodup : ∀ m : SortedMap κ ν, m.entries.Nodup :=
    fun m => m.sorted.imp fun {a b} hlt (he : a = b) => lt_irrefl _ (he ▸ hlt)
  exact ((List.perm_ext_iff_of_nodup (hnodup m) (hnodup m')).mpr hmem).eq_of_pairwise
    (fun _ _ _ _ h₁ h₂ => absurd (h₁.trans h₂) (lt_irrefl _)) m.sorted m'.sorted

/-! ## Insertion -/

/-- Insertion of an entry at its place in a sorted list, replacing the entry of its key. -/
def insertList (k : κ) (v : ν) : List (κ × ν) → List (κ × ν)
  | [] => [(k, v)]
  | e :: es => if k < e.1 then (k, v) :: e :: es
    else if k = e.1 then (k, v) :: es
    else e :: insertList k v es

theorem mem_insertList {k : κ} {v : ν} {e : κ × ν} :
    ∀ {es : List (κ × ν)}, es.Pairwise (fun a b => a.1 < b.1) →
      (e ∈ insertList k v es ↔ e = (k, v) ∨ (e ∈ es ∧ e.1 ≠ k))
  | [], _ => by simp [insertList]
  | e' :: es, hes => by
    rw [List.pairwise_cons] at hes
    unfold insertList
    split_ifs with hlt heq
    · -- every later key is above `k`
      have hne : ∀ e ∈ e' :: es, e.1 ≠ k := by
        intro e he
        rcases List.mem_cons.mp he with rfl | he
        · exact ne_of_gt hlt
        · exact ne_of_gt (lt_trans hlt (hes.1 e he))
      constructor
      · intro h
        rcases List.mem_cons.mp h with h | h
        · exact Or.inl h
        · exact Or.inr ⟨h, hne e h⟩
      · rintro (h | ⟨h, -⟩)
        · exact List.mem_cons.mpr (Or.inl h)
        · exact List.mem_cons_of_mem _ h
    · subst heq
      have hne : ∀ e ∈ es, e.1 ≠ e'.1 := fun e he => ne_of_gt (hes.1 e he)
      simp only [List.mem_cons]
      constructor
      · rintro (h | h)
        · exact Or.inl h
        · exact Or.inr ⟨Or.inr h, hne e h⟩
      · rintro (h | ⟨rfl | h, hk⟩)
        · exact Or.inl h
        · exact absurd rfl hk
        · exact Or.inr h
    · have hne : e'.1 ≠ k := Ne.symm heq
      rw [List.mem_cons, List.mem_cons, mem_insertList hes.2]
      constructor
      · rintro (rfl | h | h)
        · exact Or.inr ⟨Or.inl rfl, hne⟩
        · exact Or.inl h
        · exact Or.inr ⟨Or.inr h.1, h.2⟩
      · rintro (h | ⟨rfl | h, hk⟩)
        · exact Or.inr (Or.inl h)
        · exact Or.inl rfl
        · exact Or.inr (Or.inr ⟨h, hk⟩)

theorem sorted_insertList {k : κ} {v : ν} :
    ∀ {es : List (κ × ν)}, es.Pairwise (fun a b => a.1 < b.1) →
      (insertList k v es).Pairwise (fun a b => a.1 < b.1)
  | [], _ => by simp [insertList]
  | e' :: es, hes => by
    have hes' := hes
    rw [List.pairwise_cons] at hes
    unfold insertList
    split_ifs with hlt heq
    · exact List.Pairwise.cons (fun e he => by
        rcases List.mem_cons.mp he with rfl | he
        · exact hlt
        · exact lt_trans hlt (hes.1 e he)) hes'
    · subst heq
      exact List.Pairwise.cons hes.1 hes.2
    · -- `e'` stays in front: it is below `k` and below the rest
      have hgt : e'.1 < k := lt_of_le_of_ne (not_lt.mp hlt) (Ne.symm heq)
      refine List.Pairwise.cons (fun e he => ?_) (sorted_insertList hes.2)
      rcases (mem_insertList hes.2).mp he with rfl | ⟨he, -⟩
      · exact hgt
      · exact hes.1 e he

/-- `BTreeMap::insert`. -/
def insert (m : SortedMap κ ν) (k : κ) (v : ν) : SortedMap κ ν :=
  ⟨insertList k v m.entries, sorted_insertList m.sorted⟩

theorem get?_insert (m : SortedMap κ ν) (k : κ) (v : ν) (k' : κ) :
    (m.insert k v).get? k' = if k' = k then some v else m.get? k' := by
  cases hget : m.get? k' with
  | none =>
    split_ifs with hk
    · subst hk
      rw [get?_eq_some_iff]
      exact (mem_insertList m.sorted).mpr (Or.inl rfl)
    · rw [Option.eq_none_iff_forall_ne_some]
      intro w hw
      rcases (mem_insertList m.sorted).mp ((get?_eq_some_iff _).mp hw) with h | ⟨h, -⟩
      · exact hk (Prod.mk.inj h).1
      · exact absurd ((get?_eq_some_iff m).mpr h) (by simp [hget])
  | some w =>
    split_ifs with hk
    · subst hk
      rw [get?_eq_some_iff]
      exact (mem_insertList m.sorted).mpr (Or.inl rfl)
    · rw [get?_eq_some_iff]
      exact (mem_insertList m.sorted).mpr (Or.inr ⟨(get?_eq_some_iff m).mp hget, hk⟩)

theorem insertList_of_lt {k : κ} {v : ν} :
    ∀ {es : List (κ × ν)}, (∀ e ∈ es, e.1 < k) → insertList k v es = es ++ [(k, v)]
  | [], _ => rfl
  | e :: es, h => by
    have he := h e List.mem_cons_self
    rw [insertList, if_neg (lt_asymm he), if_neg (ne_of_gt he), List.cons_append,
      insertList_of_lt fun e' he' => h e' (List.mem_cons_of_mem e he')]

theorem entries_insert_of_lt (m : SortedMap κ ν) {k : κ} (v : ν) (h : ∀ k' ∈ m.keys, k' < k) :
    (m.insert k v).entries = m.entries ++ [(k, v)] :=
  insertList_of_lt fun e he => h e.1 (List.mem_map_of_mem he)

theorem insertList_insertList {k : κ} {v w : ν} :
    ∀ es : List (κ × ν), insertList k v (insertList k w es) = insertList k v es
  | [] => by simp [insertList]
  | e :: es => by
    by_cases hlt : k < e.1
    · simp [insertList, hlt]
    · by_cases heq : k = e.1
      · subst heq
        simp [insertList]
      · simp [insertList, hlt, heq, insertList_insertList es]

@[simp]
theorem insert_insert (m : SortedMap κ ν) (k : κ) (v w : ν) :
    (m.insert k w).insert k v = m.insert k v :=
  ext_entries (insertList_insertList m.entries)

theorem insertList_of_mem {k : κ} {v : ν} :
    ∀ {es : List (κ × ν)}, es.Pairwise (fun a b => a.1 < b.1) → (k, v) ∈ es → insertList k v es = es
  | [], _, h => absurd h List.not_mem_nil
  | e :: es, hes, h => by
    rw [List.pairwise_cons] at hes
    rcases List.mem_cons.mp h with rfl | h
    · simp [insertList]
    · have hlt : e.1 < k := hes.1 _ h
      simp [insertList, not_lt.mpr hlt.le, ne_of_gt hlt, insertList_of_mem hes.2 h]

theorem insert_of_get? {m : SortedMap κ ν} {k : κ} {v : ν} (h : m.get? k = some v) :
    m.insert k v = m :=
  ext_entries (insertList_of_mem m.sorted ((get?_eq_some_iff m).mp h))

theorem mem_keys_insert (m : SortedMap κ ν) (k : κ) (v : ν) (k' : κ) :
    k' ∈ (m.insert k v).keys ↔ k' = k ∨ k' ∈ m.keys := by
  rw [mem_keys_iff, mem_keys_iff, get?_insert]
  split_ifs with h <;> simp [h]

theorem mem_keys_insert_of_mem {m : SortedMap κ ν} {k : κ} (v : ν) (hk : k ∈ m.keys) (k' : κ) :
    k' ∈ (m.insert k v).keys ↔ k' ∈ m.keys := by
  rw [mem_keys_insert]
  exact ⟨fun h => h.elim (· ▸ hk) id, .inr⟩

theorem entries_foldl_insert_of_sorted : ∀ (es : List (κ × ν)) (m : SortedMap κ ν),
    (m.entries ++ es).Pairwise (fun a b => a.1 < b.1) →
      (es.foldl (fun m e => m.insert e.1 e.2) m).entries = m.entries ++ es
  | [], m, _ => by simp
  | e :: es, m, h => by
    have hlt : ∀ k' ∈ m.keys, k' < e.1 := by
      intro k' hk'
      obtain ⟨e', he', rfl⟩ := List.mem_map.mp hk'
      exact (List.pairwise_append.mp h).2.2 e' he' e List.mem_cons_self
    have hins := entries_insert_of_lt m e.2 hlt
    rw [List.foldl_cons, entries_foldl_insert_of_sorted es _ (by rwa [hins, List.append_assoc]),
      hins, List.append_assoc, List.singleton_append]

theorem mem_keys_foldl_insert (k : κ) : ∀ (es : List (κ × ν)) (m : SortedMap κ ν),
    k ∈ (es.foldl (fun m e => m.insert e.1 e.2) m).keys ↔ k ∈ m.keys ∨ k ∈ es.map Prod.fst
  | [], m => by simp
  | e :: es, m => by
    rw [List.foldl_cons, mem_keys_foldl_insert k es, mem_keys_insert, List.map_cons,
      List.mem_cons, @or_comm (k = e.1), or_assoc]

/-! ## Filtering -/

/-- `BTreeMap::retain`: the entries that satisfy `p`. -/
def filter (m : SortedMap κ ν) (p : κ → ν → Bool) : SortedMap κ ν :=
  ⟨m.entries.filter fun e => p e.1 e.2, m.sorted.filter _⟩

theorem get?_filter (m : SortedMap κ ν) (p : κ → ν → Bool) (k : κ) :
    (m.filter p).get? k = (m.get? k).filter (p k) := by
  cases hget : m.get? k with
  | none =>
    rw [Option.filter_none, Option.eq_none_iff_forall_ne_some]
    intro w hw
    have hmem := List.mem_filter.mp ((get?_eq_some_iff _).mp hw)
    exact absurd ((get?_eq_some_iff m).mpr hmem.1) (by simp [hget])
  | some w =>
    have hmem := (get?_eq_some_iff m).mp hget
    rw [Option.filter_some]
    split_ifs with hp
    · exact (get?_eq_some_iff _).mpr (List.mem_filter.mpr ⟨hmem, hp⟩)
    · rw [Option.eq_none_iff_forall_ne_some]
      intro w' hw'
      have hmem' := List.mem_filter.mp ((get?_eq_some_iff _).mp hw')
      have hw : w' = w := Option.some.inj
        (((get?_eq_some_iff m).mpr hmem'.1).symm.trans hget)
      subst hw
      exact hp hmem'.2

/-- `BTreeMap::remove`: the map without the entry of key `k`. -/
def erase (m : SortedMap κ ν) (k : κ) : SortedMap κ ν :=
  m.filter fun k' _ => k' != k

theorem get?_erase (m : SortedMap κ ν) (k k' : κ) :
    (m.erase k).get? k' = if k' = k then none else m.get? k' := by
  rw [erase, get?_filter]
  by_cases hk : k' = k
  · cases m.get? k' <;> simp [hk]
  · cases m.get? k' <;> simp [hk]

theorem mem_keys_erase (m : SortedMap κ ν) (k k' : κ) :
    k' ∈ (m.erase k).keys ↔ k' ∈ m.keys ∧ k' ≠ k := by
  rw [mem_keys_iff, mem_keys_iff, get?_erase]
  split_ifs with h <;> simp [h]

theorem mem_keys_foldl_erase (k : κ) : ∀ (ks : List κ) (m : SortedMap κ ν),
    k ∈ (ks.foldl erase m).keys ↔ k ∈ m.keys ∧ k ∉ ks
  | [], m => by simp
  | k' :: ks, m => by
    rw [List.foldl_cons, mem_keys_foldl_erase k ks, mem_keys_erase, List.mem_cons, not_or,
      and_assoc]

theorem get?_foldl_erase (k : κ) : ∀ (ks : List κ) (m : SortedMap κ ν),
    (ks.foldl erase m).get? k = if k ∈ ks then none else m.get? k
  | [], m => by simp
  | k' :: ks, m => by
    rw [List.foldl_cons, get?_foldl_erase k ks, get?_erase]
    by_cases h : k = k' <;> simp [h]

theorem get?_foldl_insert_of_not_mem {k : κ} : ∀ (es : List (κ × ν)) (m : SortedMap κ ν),
    k ∉ es.map Prod.fst → (es.foldl (fun m e => m.insert e.1 e.2) m).get? k = m.get? k
  | [], _, _ => rfl
  | e :: es, m, h => by
    rw [List.map_cons, List.mem_cons, not_or] at h
    rw [List.foldl_cons, get?_foldl_insert_of_not_mem es _ h.2, get?_insert, if_neg h.1]

theorem get?_foldl_insert_of_mem {k : κ} {v : ν} : ∀ (es : List (κ × ν)) (m : SortedMap κ ν),
    (es.map Prod.fst).Nodup → (k, v) ∈ es →
      (es.foldl (fun m e => m.insert e.1 e.2) m).get? k = some v
  | [], _, _, h => absurd h List.not_mem_nil
  | e :: es, m, hnd, hmem => by
    rw [List.map_cons, List.nodup_cons] at hnd
    rw [List.foldl_cons]
    rcases List.mem_cons.mp hmem with rfl | hmem
    · rw [get?_foldl_insert_of_not_mem es _ hnd.1, get?_insert, if_pos rfl]
    · exact get?_foldl_insert_of_mem es _ hnd.2 hmem

/-! ## Sums over the values -/

section Sums

variable {M : Type} [AddCommMonoid M]

/-- The sum of `g` over the values, in key order. -/
def sumValues (m : SortedMap κ ν) (g : ν → M) : M := (m.entries.map fun e => g e.2).sum

@[simp]
theorem sumValues_empty (g : ν → M) : (empty : SortedMap κ ν).sumValues g = 0 := rfl

theorem sum_insertList_add (g : ν → M) {k : κ} {v : ν} :
    ∀ {es : List (κ × ν)}, es.Pairwise (fun a b => a.1 < b.1) →
      ((insertList k v es).map fun e => g e.2).sum +
          (((es.find? fun e => e.1 = k).map Prod.snd).map g).getD 0 =
        (es.map fun e => g e.2).sum + g v
  | [], _ => by simp [insertList]
  | e :: es, hes => by
    rw [List.pairwise_cons] at hes
    by_cases hlt : k < e.1
    · -- every key of the list is above `k`
      have hnone : ∀ e' ∈ e :: es, e'.1 ≠ k := by
        intro e' he'
        rcases List.mem_cons.mp he' with rfl | he'
        · exact ne_of_gt hlt
        · exact ne_of_gt (lt_trans hlt (hes.1 e' he'))
      have hfind : (e :: es).find? (fun e => e.1 = k) = none :=
        List.find?_eq_none.mpr fun e' he' => by simpa using hnone e' he'
      rw [hfind]
      simp only [insertList, hlt, if_true, List.map_cons, List.sum_cons, Option.map_none,
        Option.getD_none, add_zero]
      exact add_comm _ _
    · by_cases heq : k = e.1
      · subst heq
        simp only [insertList, hlt, if_false, if_true, List.map_cons, List.sum_cons,
          List.find?_cons, decide_true, Option.map_some, Option.getD_some]
        rw [add_comm (g v), add_assoc, add_comm _ (g e.2), ← add_assoc, add_comm (g e.2)]
      · have hne : ¬ e.1 = k := Ne.symm heq
        simp only [insertList, hlt, heq, if_false, List.map_cons, List.sum_cons,
          List.find?_cons, hne, decide_false]
        rw [add_assoc, sum_insertList_add g hes.2, add_assoc]

theorem sumValues_insert_add (m : SortedMap κ ν) (k : κ) (v : ν) (g : ν → M) :
    (m.insert k v).sumValues g + ((m.get? k).map g).getD 0 = m.sumValues g + g v :=
  sum_insertList_add g m.sorted

theorem sumValues_insert_of_get?_none {m : SortedMap κ ν} {k : κ} (v : ν) (g : ν → M)
    (hget : m.get? k = none) : (m.insert k v).sumValues g = m.sumValues g + g v := by
  have h := m.sumValues_insert_add k v g
  rwa [hget, Option.map_none, Option.getD_none, add_zero] at h

theorem eq_sumValues_insert {M : Type} [AddCancelCommMonoid M] {m : SortedMap κ ν} {k : κ}
    {v v' : ν} {g : ν → M} {a a' : M} (hget : m.get? k = some v) (ha : a = m.sumValues g)
    (h : a' + g v = a + g v') : a' = (m.insert k v').sumValues g := by
  have hins := m.sumValues_insert_add k v' g
  rw [hget, Option.map_some, Option.getD_some, ← ha, ← h] at hins
  exact (add_right_cancel hins).symm

variable [Preorder M] [IsOrderedAddMonoid M]

theorem le_sumValues {m : SortedMap κ ν} {g : ν → M} (hg : ∀ v, 0 ≤ g v) {k : κ} {v : ν}
    (h : m.get? k = some v) : g v ≤ m.sumValues g := by
  apply List.single_le_sum
  · intro x hx
    obtain ⟨e, -, rfl⟩ := List.mem_map.mp hx
    exact hg e.2
  · exact List.mem_map.mpr ⟨(k, v), (get?_eq_some_iff m).mp h, rfl⟩

end Sums

theorem sumValues_eq_sum_keys {M : Type} [AddCommMonoid M] (m : SortedMap κ ν) (g : ν → M)
    {l : List κ} (hl : l.Nodup) (hmem : ∀ k ∈ l, (m.get? k).isSome)
    (hsupp : ∀ k v, m.get? k = some v → g v ≠ 0 → k ∈ l) :
    m.sumValues g = (l.map fun k => ((m.get? k).map g).getD 0).sum := by
  classical
  -- the value of each key, read through `get?`
  have hkeys : m.sumValues g = (m.keys.map fun k => ((m.get? k).map g).getD 0).sum := by
    unfold sumValues keys
    rw [List.map_map]
    congr 1
    apply List.map_congr_left
    intro e he
    simp [(get?_eq_some_iff m).mpr he]
  rw [hkeys, ← List.sum_toFinset _ m.nodup_keys, ← List.sum_toFinset _ hl]
  symm
  apply Finset.sum_subset
  · intro k hk
    rw [List.mem_toFinset] at hk ⊢
    exact (mem_keys_iff m).mpr (hmem k hk)
  · intro k hk hkl
    rw [List.mem_toFinset] at hk hkl
    obtain ⟨v, hv⟩ := Option.isSome_iff_exists.mp ((mem_keys_iff m).mp hk)
    rw [hv, Option.map_some, Option.getD_some]
    by_contra hne
    exact hkl (hsupp k v hv hne)

/-! ## Counts -/

section Counts

/-- The map holds the non-zero counts `f k` and no other entry. -/
def Counts (m : SortedMap κ ℕ) (f : κ → ℕ) : Prop :=
  ∀ k, m.get? k = if f k = 0 then none else some (f k)

variable {m m' : SortedMap κ ℕ} {f : κ → ℕ}

theorem counts_empty : Counts (empty : SortedMap κ ℕ) fun _ => 0 := fun _ => rfl

theorem Counts.eq (h : Counts m f) (h' : Counts m' f) : m = m' :=
  ext_get? fun k => (h k).trans (h' k).symm

theorem Counts.ne_zero (h : Counts m f) {k : κ} {v : ℕ} (hv : m.get? k = some v) : v ≠ 0 := by
  rw [h k] at hv
  split_ifs at hv with hk
  exact (Option.some.inj hv) ▸ hk

theorem Counts.get?_of_ne_zero (h : Counts m f) {k : κ} (hk : f k ≠ 0) : m.get? k = some (f k) := by
  rw [h k, if_neg hk]

theorem Counts.congr (h : Counts m f) {g : κ → ℕ} (hfg : ∀ k, f k = g k) : Counts m g := by
  rwa [show f = g from funext hfg] at h

theorem Counts.insert_add (h : Counts m f) (k : κ) {n : ℕ} (hn : 0 < n) :
    Counts (m.insert k ((m.get? k).getD 0 + n)) fun k' => f k' + if k' = k then n else 0 := by
  intro k'
  rw [get?_insert]
  by_cases hk : k' = k
  · subst hk
    have hpos : f k' + n ≠ 0 := by omega
    simp only [if_true, hpos, if_false, h k']
    split_ifs with h0 <;> simp [h0]
  · simp only [hk, if_false, add_zero, h k']

/-- A count of `k` lowered by at most itself: its entry is written, or dropped at zero. -/
theorem Counts.sub (h : Counts m f) {k : κ} {n v : ℕ} (hv : m.get? k = some v) (hn : n ≤ f k) :
    Counts (if v - n = 0 then m.erase k else m.insert k (v - n))
      fun k' => f k' - if k' = k then n else 0 := by
  have hfk : v = f k := by
    rw [h k] at hv
    split_ifs at hv
    exact (Option.some.inj hv).symm
  subst hfk
  intro k'
  dsimp only
  by_cases hk : k' = k
  · subst hk
    simp only [if_true]
    split_ifs <;> simp [get?_erase, get?_insert]
  · have hget : (if f k - n = 0 then m.erase k else m.insert k (f k - n)).get? k' = m.get? k' := by
      split_ifs <;> simp [get?_erase, get?_insert, hk]
    simp only [hk, if_false, Nat.sub_zero, hget, h k']

end Counts

end SortedMap
