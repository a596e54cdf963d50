import InternetComputer.PageMap.WellFormed
import InternetComputer.Lib.Bounds

/-!
# Keys in order: `min_key`, `max_key`, `bounds` and the iterator

The leaves of a well-formed tree, from left to right, are in strictly increasing key order
(`sorted_toList`). `min_key` and `max_key` find the least and the greatest key, and `bounds` the
nearest keys at most and at least a key (`bounds_spec`). `IntMapIter::next` yields the entries
from left to right (`descend_spec`, `collect_new`).
-/

namespace IC.PageMap

open Bits Bounds

namespace Tree

variable {T : Type}

/-- The keys of a tree, as a set. -/
def keySet (t : Tree T) : Set UInt64 := {x | x ∈ t.keys}

@[simp] theorem mem_keySet {t : Tree T} {x : UInt64} : x ∈ t.keySet ↔ x ∈ t.keys := Iff.rfl

theorem keySet_branch (p : UInt64) (b : UInt8) (left right : Tree T) :
    (branch p b left right).keySet = left.keySet ∪ right.keySet := by
  ext x
  simp [keySet]

/-! ## The order of the entries -/

/-- **The entries of a well-formed tree are in strictly increasing key order.** -/
theorem sorted_toList : ∀ {t : Tree T}, t.WellFormed → t.toList.Pairwise fun a b => a.1 < b.1
  | .empty, _ => List.Pairwise.nil
  | .leaf _ _, _ => List.pairwise_singleton _ _
  | .branch _ _ left right, ⟨hl, hr, h⟩ => by
    rw [toList, List.pairwise_append]
    exact ⟨sorted_toList hl, sorted_toList hr, fun a ha b hb =>
      h.lt_of_mem (List.mem_map_of_mem ha) (List.mem_map_of_mem hb)⟩

theorem nodup_keys {t : Tree T} (h : t.WellFormed) : t.keys.Nodup :=
  List.pairwise_map.mpr ((sorted_toList h).imp UInt64.ne_of_lt)

/-- **The entries of a well-formed tree are those of the map it stands for.** -/
theorem mem_toList_iff : ∀ {t : Tree T}, t.WellFormed →
    ∀ {k : UInt64} {v : T}, (k, v) ∈ t.toList ↔ t.abs k = some v
  | .empty, _, _, _ => by simp [toList, abs]
  | .leaf k' v', _, k, v => by
    by_cases hk : k = k'
    · subst hk
      simp [toList, abs, eq_comm]
    · simp [toList, abs, hk]
  | .branch _ _ left right, ⟨hl, hr, h⟩, k, v => by
    rw [toList, List.mem_append, abs_branch, Option.or_eq_some_iff, mem_toList_iff hl,
      mem_toList_iff hr]
    constructor
    · rintro (hk | hk)
      · exact Or.inl hk
      · -- a right key is not a left key
        have hkr : k ∈ right.keys := isSome_abs_iff.mp (by rw [hk]; rfl)
        exact Or.inr ⟨abs_eq_none_of_not_mem fun hkl => h.not_mem_right hkl hkr, hk⟩
    · rintro (hk | ⟨-, hk⟩)
      · exact Or.inl hk
      · exact Or.inr hk

/-! ## The least and the greatest key -/

theorem keys_ne_nil_of_len_pos {t : Tree T} (h : 0 < t.len) : ∃ x, x ∈ t.keys :=
  List.exists_mem_of_ne_nil _ (len_pos_iff.mp h)

/-- **`min_key` finds the least key.** -/
theorem isSmallest_minKey : ∀ {t : Tree T}, t.WellFormed → IsSmallest t.keySet t.minKey
  | .empty, _ => fun _ hy => List.not_mem_nil hy
  | .leaf k _, _ => ⟨List.mem_singleton_self k, fun y hy => by
      rw [mem_keySet, keys_leaf, List.mem_singleton] at hy
      rw [hy]
      exact UInt64.le_refl k⟩
  | .branch _ _ left right, ⟨hl, hr, h⟩ => by
    rw [minKey, keySet_branch]
    have hmin := isSmallest_minKey hl
    cases hm : left.minKey with
    | none =>
      -- the left child is not empty
      rw [hm] at hmin
      obtain ⟨x, hx⟩ := keys_ne_nil_of_len_pos h.left_pos
      exact absurd hx (hmin x)
    | some m =>
      rw [hm] at hmin
      exact hmin.union_of_lower fun z hz y hy => UInt64.le_of_lt (h.lt_of_mem hz hy)

/-- **`max_key` finds the greatest key.** -/
theorem isLargest_maxKey : ∀ {t : Tree T}, t.WellFormed → IsLargest t.keySet t.maxKey
  | .empty, _ => fun _ hy => List.not_mem_nil hy
  | .leaf k _, _ => ⟨List.mem_singleton_self k, fun y hy => by
      rw [mem_keySet, keys_leaf, List.mem_singleton] at hy
      rw [hy]
      exact UInt64.le_refl k⟩
  | .branch _ _ left right, ⟨hl, hr, h⟩ => by
    rw [maxKey, keySet_branch]
    have hmax := isLargest_maxKey hr
    cases hm : right.maxKey with
    | none =>
      rw [hm] at hmax
      obtain ⟨x, hx⟩ := keys_ne_nil_of_len_pos h.right_pos
      exact absurd hx (hmax x)
    | some m =>
      rw [hm] at hmax
      exact hmax.union_of_upper fun z hz y hy => UInt64.le_of_lt (h.lt_of_mem hz hy)

/-! ## Bounds -/

namespace BranchInv

variable {p : UInt64} {b : UInt8} {left right : Tree T} {key y : UInt64}

theorem mask_eq_of_mem (h : BranchInv p b left right) (hy : y ∈ (branch p b left right).keys) :
    mask y b = p := by
  rw [keys_branch, List.mem_append] at hy
  rcases hy with hy | hy
  · exact beq_iff_eq.mp (h.left_keys y hy).1
  · exact beq_iff_eq.mp (h.right_keys y hy).1

theorem lt_of_mask_lt (h : BranchInv p b left right) (hk : mask key b < p)
    (hy : y ∈ (branch p b left right).keys) : key < y := by
  rw [← h.mask_eq_of_mem hy, UInt64.lt_iff_toNat_lt, toNat_mask h.bit_le, toNat_mask h.bit_le,
    shiftRight_shiftLeft_lt_iff] at hk
  exact UInt64.lt_iff_toNat_lt.mpr (lt_of_shiftRight_lt hk)

theorem lt_of_lt_mask (h : BranchInv p b left right) (hk : p < mask key b)
    (hy : y ∈ (branch p b left right).keys) : y < key := by
  rw [← h.mask_eq_of_mem hy, UInt64.lt_iff_toNat_lt, toNat_mask h.bit_le, toNat_mask h.bit_le,
    shiftRight_shiftLeft_lt_iff] at hk
  exact UInt64.lt_iff_toNat_lt.mpr (lt_of_shiftRight_lt hk)

theorem lt_of_mem_right (h : BranchInv p b left right) (hm : mask key b = p)
    (hbit : key &&& (1 <<< b.toUInt64) = 0) (hy : y ∈ right.keys) : key < y := by
  have hkp := (matchesPrefix_iff h.bit_le h.mask_eq).mp (beq_iff_eq.mpr hm)
  exact UInt64.lt_iff_toNat_lt.mpr (lt_of_testBit_of_shiftRight_eq
    (hkp.trans (h.right_agree hy).symm) ((and_one_shiftLeft_eq_zero_iff h.bit_le).mp hbit)
    (h.right_testBit hy))

theorem lt_of_mem_left (h : BranchInv p b left right) (hm : mask key b = p)
    (hbit : ¬key &&& (1 <<< b.toUInt64) = 0) (hy : y ∈ left.keys) : y < key := by
  have hkp := (matchesPrefix_iff h.bit_le h.mask_eq).mp (beq_iff_eq.mpr hm)
  rw [and_one_shiftLeft_eq_zero_iff h.bit_le, Bool.not_eq_false] at hbit
  exact UInt64.lt_iff_toNat_lt.mpr (lt_of_testBit_of_shiftRight_eq
    ((h.left_agree hy).trans hkp.symm) (h.left_testBit hy) hbit)

end BranchInv

/-- **`bounds` finds the largest key at most the given one and the smallest key at least it.** -/
theorem bounds_spec : ∀ {t : Tree T}, t.WellFormed → ∀ key : UInt64,
    IsMaxBelow t.keySet key (t.bounds key).1 ∧ IsMinAbove t.keySet key (t.bounds key).2
  | .empty, _, _ => ⟨fun _ hy => absurd hy List.not_mem_nil, fun _ hy => absurd hy List.not_mem_nil⟩
  | .leaf k v, _, key => by
    have hk : ∀ y ∈ (leaf k v).keySet, y = k := fun y hy => List.mem_singleton.mp hy
    rw [bounds]
    split
    · rename_i hc
      have hlt := Std.compare_eq_lt.mp hc
      exact ⟨fun y hy => by rw [hk y hy]; exact UInt64.not_le.mpr hlt,
        List.mem_singleton_self k, UInt64.le_of_lt hlt,
        fun y hy _ => by rw [hk y hy]; exact UInt64.le_refl k⟩
    · rename_i hc
      have he := Std.compare_eq_iff_eq.mp hc
      subst he
      exact ⟨⟨List.mem_singleton_self key, UInt64.le_refl key,
          fun y hy _ => by rw [hk y hy]; exact UInt64.le_refl key⟩,
        List.mem_singleton_self key, UInt64.le_refl key,
          fun y hy _ => by rw [hk y hy]; exact UInt64.le_refl key⟩
    · rename_i hc
      have hlt := Std.compare_eq_gt.mp hc
      exact ⟨⟨List.mem_singleton_self k, UInt64.le_of_lt hlt,
          fun y hy _ => by rw [hk y hy]; exact UInt64.le_refl k⟩,
        fun y hy => by rw [hk y hy]; exact UInt64.not_le.mpr hlt⟩
  | .branch p b left right, ⟨hl, hr, h⟩, key => by
    have hwf : (branch p b left right).WellFormed := ⟨hl, hr, h⟩
    rw [bounds]
    split
    · -- the masked key is below the prefix: the whole tree is above the key
      rename_i hc
      have hlt : ∀ y ∈ (branch p b left right).keySet, key < y :=
        fun y hy => h.lt_of_mask_lt (Std.compare_eq_lt.mp hc) hy
      exact ⟨fun y hy => UInt64.not_le.mpr (hlt y hy),
        (isSmallest_minKey hwf).isMinAbove fun y hy => UInt64.le_of_lt (hlt y hy)⟩
    · -- the masked key is above the prefix: the whole tree is below the key
      rename_i hc
      have hgt : ∀ y ∈ (branch p b left right).keySet, y < key :=
        fun y hy => h.lt_of_lt_mask (Std.compare_eq_gt.mp hc) hy
      exact ⟨(isLargest_maxKey hwf).isMaxBelow fun y hy => UInt64.le_of_lt (hgt y hy),
        fun y hy => UInt64.not_le.mpr (hgt y hy)⟩
    · rename_i hc
      have hm := Std.compare_eq_iff_eq.mp hc
      rw [keySet_branch]
      split_ifs with hbit
      · -- the key's branching bit is clear: search the left child, the right one is above
        have hgt : ∀ y ∈ right.keySet, key < y := fun y hy => h.lt_of_mem_right hm hbit hy
        have hlu : ∀ z ∈ left.keySet, ∀ y ∈ right.keySet, z ≤ y :=
          fun z hz y hy => UInt64.le_of_lt (h.lt_of_mem hz hy)
        obtain ⟨hs, he⟩ := bounds_spec hl key
        rcases hb : left.bounds key with ⟨start, endKey⟩
        rw [hb] at hs he
        cases endKey with
        | none =>
          exact ⟨hs.union_right fun y hy => UInt64.not_le.mpr (hgt y hy),
            (isSmallest_minKey hr).isMinAbove_union he fun y hy => UInt64.le_of_lt (hgt y hy)⟩
        | some e =>
          exact ⟨hs.union_right fun y hy => UInt64.not_le.mpr (hgt y hy), he.union_of_lower hlu⟩
      · -- the key's branching bit is set: search the right child, the left one is below
        have hlt : ∀ y ∈ left.keySet, y < key := fun y hy => h.lt_of_mem_left hm hbit hy
        have hlu : ∀ z ∈ left.keySet, ∀ y ∈ right.keySet, z ≤ y :=
          fun z hz y hy => UInt64.le_of_lt (h.lt_of_mem hz hy)
        obtain ⟨hs, he⟩ := bounds_spec hr key
        rcases hb : right.bounds key with ⟨start, endKey⟩
        rw [hb] at hs he
        cases start with
        | none =>
          exact ⟨(isLargest_maxKey hl).isMaxBelow_union hs fun y hy => UInt64.le_of_lt (hlt y hy),
            he.union_left fun y hy => UInt64.not_le.mpr (hlt y hy)⟩
        | some s =>
          exact ⟨hs.union_of_upper hlu, he.union_left fun y hy => UInt64.not_le.mpr (hlt y hy)⟩

end Tree

/-! ## Iteration -/

namespace IntMapIter

variable {T : Type}

open Tree

theorem descend_ne_branch : ∀ (p : Tree T) (stack : List (Tree T)) (q : UInt64) (b : UInt8)
    (left right : Tree T), (descend p stack).1 ≠ .branch q b left right
  | .empty, _, _, _, _, _ => by simp [descend]
  | .leaf _ _, _, _, _, _, _ => by simp [descend]
  | .branch _ _ left' right', stack, q, b, left, right => by
    rw [descend]
    exact descend_ne_branch left' (right' :: stack) q b left right

/-- **The loop of `next` on a tree that is not empty stops at its leftmost leaf**, with the right
subtrees it passed pushed on the stack: the leaf's entry and then their entries are those of the
tree. -/
theorem descend_spec : ∀ {p : Tree T}, p.WellFormed → 0 < p.len → ∀ stack : List (Tree T),
    ∃ k v rest, descend p stack = (.leaf k v, rest ++ stack) ∧
      p.toList = (k, v) :: rest.flatMap toList ∧ ∀ q ∈ rest, q.WellFormed ∧ 0 < q.len
  | .leaf k v, _, _, stack => ⟨k, v, [], rfl, rfl, fun _ hq => absurd hq List.not_mem_nil⟩
  | .branch _ _ left right, ⟨hl, hr, h⟩, _, stack => by
    obtain ⟨k, v, rest, hd, hlist, hrest⟩ := descend_spec hl h.left_pos (right :: stack)
    refine ⟨k, v, rest ++ [right], ?_, ?_, ?_⟩
    · rw [descend, hd, List.append_assoc, List.singleton_append]
    · rw [toList, hlist, List.flatMap_append, List.flatMap_singleton, List.cons_append]
    · intro q hq
      rcases List.mem_append.mp hq with hq | hq
      · exact hrest q hq
      · rw [List.mem_singleton.mp hq]
        exact ⟨hr, h.right_pos⟩

theorem len_eq_succ_of_descend {p : Tree T} {k : UInt64} {v : T} {rest : List (Tree T)}
    (hlist : p.toList = (k, v) :: rest.flatMap toList) : p.len = (rest.map len).sum + 1 := by
  have hlen : ∀ q : Tree T, q.len = q.toList.length := fun q => by
    rw [len_eq_length_keys, keys, List.length_map]
  rw [hlen, hlist, List.length_cons, List.length_flatMap]
  congr 2
  exact List.map_congr_left fun q _ => (hlen q).symm

/-- **An iterator over a stack of non-empty trees yields their entries in turn**. -/
theorem collect_eq : ∀ (fuel : ℕ) (stack : List (Tree T)),
    (∀ q ∈ stack, q.WellFormed ∧ 0 < q.len) → (stack.map len).sum < fuel →
    collect fuel ⟨stack⟩ = some (stack.flatMap toList)
  | 0, _, _, hfuel => absurd hfuel (Nat.not_lt_zero _)
  | fuel + 1, [], _, _ => rfl
  | fuel + 1, p :: stack, hstack, hfuel => by
    obtain ⟨hp, hpos⟩ := hstack p List.mem_cons_self
    obtain ⟨k, v, rest, hd, hlist, hrest⟩ := descend_spec hp hpos stack
    have hnext : next ⟨p :: stack⟩ = (some (k, v), ⟨rest ++ stack⟩) := by
      simp only [next, hd]
    -- the stack left holds one entry fewer
    have hlen := len_eq_succ_of_descend hlist
    have hrec := collect_eq fuel (rest ++ stack)
      (fun q hq => (List.mem_append.mp hq).elim (hrest q)
        (fun hq => hstack q (List.mem_cons_of_mem p hq)))
      (by rw [List.map_append, List.sum_append]; rw [List.map_cons, List.sum_cons] at hfuel; omega)
    rw [collect, hnext]
    simp only [hrec, Option.map_eq_map, Option.map_some, List.flatMap_cons, hlist,
      List.flatMap_append, List.cons_append]

/-- **The iterator of a well-formed tree yields its entries from left to right, and stops**. -/
theorem collect_new {t : Tree T} (h : t.WellFormed) :
    collect (t.len + 1) (new t) = some t.toList := by
  cases t with
  | empty => rfl
  | leaf k v => exact collect_eq 2 [leaf k v] (fun q hq => by
      rw [List.mem_singleton.mp hq]; exact ⟨trivial, Nat.one_pos⟩) (by simp [len])
  | branch p b left right =>
    have hpos : 0 < (branch p b left right).len := Nat.add_pos_left h.2.2.left_pos _
    have heq := collect_eq ((branch p b left right).len + 1) [branch p b left right]
      (fun q hq => by rw [List.mem_singleton.mp hq]; exact ⟨h, hpos⟩) (by simp)
    rw [List.flatMap_singleton] at heq
    exact heq

end IntMapIter

end IC.PageMap
