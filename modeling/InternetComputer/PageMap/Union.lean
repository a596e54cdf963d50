import InternetComputer.PageMap.WellFormed

/-!
# The union of two Patricia trees

`Tree::union` has five cases for two branches; the case equations are stated once, and each
result is one induction along `Tree.union.induct`. Two facts about numbers carry the branch
cases (`BranchInv.nested_keys`, `BranchInv.apart`); with them, the union of well-formed trees keeps
the invariants (`wellFormed_union`) and stands for the union of the two maps, the first one's
value winning on a collision (`abs_union`).
-/

namespace IC.PageMap

open Bits

namespace Tree

variable {T : Type}

/-! ## The cases of two branches -/

section Cases

variable {p0 p1 : UInt64} {b0 b1 : UInt8} {left0 right0 left1 right1 : Tree T}

theorem union_branch_same (h : p0 = p1 ∧ b0 = b1) :
    (branch p0 b0 left0 right0).union (branch p1 b1 left1 right1) =
      branch p0 b0 (left0.union left1) (right0.union right1) := by
  rw [union.eq_5, if_pos h]

theorem union_branch_below_left (h₀ : ¬(p0 = p1 ∧ b0 = b1))
    (h₁ : b0 > b1 ∧ matchesPrefix p1 p0 b0 = true) (h₂ : p1 &&& (1 <<< b0.toUInt64) = 0) :
    (branch p0 b0 left0 right0).union (branch p1 b1 left1 right1) =
      branch p0 b0 (left0.union (branch p1 b1 left1 right1)) right0 := by
  rw [union.eq_5, if_neg h₀, if_pos h₁]
  exact if_pos h₂

theorem union_branch_below_right (h₀ : ¬(p0 = p1 ∧ b0 = b1))
    (h₁ : b0 > b1 ∧ matchesPrefix p1 p0 b0 = true) (h₂ : ¬p1 &&& (1 <<< b0.toUInt64) = 0) :
    (branch p0 b0 left0 right0).union (branch p1 b1 left1 right1) =
      branch p0 b0 left0 (right0.union (branch p1 b1 left1 right1)) := by
  rw [union.eq_5, if_neg h₀, if_pos h₁]
  exact if_neg h₂

theorem union_branch_above_left (h₀ : ¬(p0 = p1 ∧ b0 = b1))
    (h₁ : ¬(b0 > b1 ∧ matchesPrefix p1 p0 b0 = true))
    (h₂ : b1 > b0 ∧ matchesPrefix p0 p1 b1 = true) (h₃ : p0 &&& (1 <<< b1.toUInt64) = 0) :
    (branch p0 b0 left0 right0).union (branch p1 b1 left1 right1) =
      branch p1 b1 ((branch p0 b0 left0 right0).union left1) right1 := by
  rw [union.eq_5, if_neg h₀, if_neg h₁, if_pos h₂]
  exact if_pos h₃

theorem union_branch_above_right (h₀ : ¬(p0 = p1 ∧ b0 = b1))
    (h₁ : ¬(b0 > b1 ∧ matchesPrefix p1 p0 b0 = true))
    (h₂ : b1 > b0 ∧ matchesPrefix p0 p1 b1 = true) (h₃ : ¬p0 &&& (1 <<< b1.toUInt64) = 0) :
    (branch p0 b0 left0 right0).union (branch p1 b1 left1 right1) =
      branch p1 b1 left1 ((branch p0 b0 left0 right0).union right1) := by
  rw [union.eq_5, if_neg h₀, if_neg h₁, if_pos h₂]
  exact if_neg h₃

theorem union_branch_apart (h₀ : ¬(p0 = p1 ∧ b0 = b1))
    (h₁ : ¬(b0 > b1 ∧ matchesPrefix p1 p0 b0 = true))
    (h₂ : ¬(b1 > b0 ∧ matchesPrefix p0 p1 b1 = true)) :
    (branch p0 b0 left0 right0).union (branch p1 b1 left1 right1) =
      join p0 (branch p0 b0 left0 right0) p1 (branch p1 b1 left1 right1) := by
  rw [union.eq_5, if_neg h₀, if_neg h₁, if_neg h₂]

end Cases

/-! ## Keys -/

/-- **The keys of a union are those of both trees.** -/
theorem mem_keys_union {x : UInt64} :
    ∀ {a b : Tree T}, x ∈ (a.union b).keys ↔ x ∈ a.keys ∨ x ∈ b.keys := by
  intro a b
  induction a, b using union.induct with
  | case1 t => simp [union.eq_1]
  | case2 t ht => simp [union.eq_2 _ ht]
  | case3 k v t ht => rw [union.eq_3 _ _ _ ht, mem_keys_insert, keys_leaf, List.mem_singleton]
  | case4 t k v ht hl hget =>
    rw [union.eq_4 _ _ _ ht hl, if_pos hget, keys_leaf, List.mem_singleton]
    have hk := mem_keys_of_get hget
    constructor
    · exact Or.inl
    · rintro (hx | rfl)
      · exact hx
      · exact hk
  | case5 t k v ht hl hget =>
    rw [union.eq_4 _ _ _ ht hl, if_neg hget, mem_keys_insert, keys_leaf, List.mem_singleton,
      or_comm]
  | case6 p0 b0 left0 right0 p1 b1 left1 right1 h ihl ihr =>
    simp only [union_branch_same h, keys_branch, List.mem_append, ihl, ihr, or_assoc, or_left_comm]
  | case7 p0 b0 left0 right0 p1 b1 left1 right1 h₀ h₁ t h₂ ih =>
    simp only [t] at ih
    simp only [union_branch_below_left h₀ h₁ h₂, keys_branch, List.mem_append, ih, or_assoc,
      or_comm, or_left_comm]
  | case8 p0 b0 left0 right0 p1 b1 left1 right1 h₀ h₁ t h₂ ih =>
    simp only [t] at ih
    simp only [union_branch_below_right h₀ h₁ h₂, keys_branch, List.mem_append, ih, or_assoc]
  | case9 p0 b0 left0 right0 p1 b1 left1 right1 h₀ h₁ h₂ s h₃ ih =>
    simp only [s] at ih
    simp only [union_branch_above_left h₀ h₁ h₂ h₃, keys_branch, List.mem_append, ih, or_assoc]
  | case10 p0 b0 left0 right0 p1 b1 left1 right1 h₀ h₁ h₂ s h₃ ih =>
    simp only [s] at ih
    simp only [union_branch_above_right h₀ h₁ h₂ h₃, keys_branch, List.mem_append, ih, or_assoc, or_left_comm]
  | case11 p0 b0 left0 right0 p1 b1 left1 right1 h₀ h₁ h₂ =>
    rw [union_branch_apart h₀ h₁ h₂, mem_keys_join]

theorem len_union_pos_left {a b : Tree T} (h : 0 < a.len) : 0 < (a.union b).len := by
  obtain ⟨x, hx⟩ := List.exists_mem_of_ne_nil _ (len_pos_iff.mp h)
  exact len_pos_of_mem (mem_keys_union.mpr (Or.inl hx))

theorem len_union_pos_right {a b : Tree T} (h : 0 < b.len) : 0 < (a.union b).len := by
  obtain ⟨x, hx⟩ := List.exists_mem_of_ne_nil _ (len_pos_iff.mp h)
  exact len_pos_of_mem (mem_keys_union.mpr (Or.inr hx))

/-! ## Nested and apart branches -/

namespace BranchInv

variable {p q : UInt64} {b c : UInt8} {left right left' right' : Tree T}

theorem nested_keys (hout : BranchInv p b left right) (hin : BranchInv q c left' right')
    (hlt : c < b) (hm : matchesPrefix q p b = true) {x : UInt64}
    (hx : x ∈ (branch q c left' right').keys) :
    matchesPrefix x p b = true ∧ x.toNat.testBit b.toNat = q.toNat.testBit b.toNat := by
  have hcb : c.toNat + 1 ≤ b.toNat := UInt8.lt_iff_toNat_lt.mp hlt
  have hxq : x.toNat >>> b.toNat = q.toNat >>> b.toNat := shiftRight_eq_of_le hcb (hin.agree hx)
  have hqp := (matchesPrefix_iff hout.bit_le hout.mask_eq).mp hm
  refine ⟨(matchesPrefix_iff hout.bit_le hout.mask_eq).mpr ?_, ?_⟩
  · exact (shiftRight_eq_of_le (Nat.le_succ _) hxq).trans hqp
  · exact testBit_eq_of_shiftRight_eq hxq (Nat.le_refl _)

/-- **Two branches of which neither lies below the other disagree above both branching bits.** -/
theorem apart (h0 : BranchInv p b left right) (h1 : BranchInv q c left' right')
    (h₀ : ¬(p = q ∧ b = c)) (h₁ : ¬(b > c ∧ matchesPrefix q p b = true))
    (h₂ : ¬(c > b ∧ matchesPrefix p q c = true)) :
    p.toNat >>> (b.toNat + 1) ≠ q.toNat >>> (b.toNat + 1) ∧
      p.toNat >>> (c.toNat + 1) ≠ q.toNat >>> (c.toNat + 1) := by
  -- the pair of bits decides which of the two disagreements is the first
  rcases Nat.lt_trichotomy c.toNat b.toNat with hcb | hbc | hbc
  · have hlt : c < b := UInt8.lt_iff_toNat_lt.mpr hcb
    have hne : q.toNat >>> (b.toNat + 1) ≠ p.toNat >>> (b.toNat + 1) :=
      fun he => h₁ ⟨hlt, (matchesPrefix_iff h0.bit_le h0.mask_eq).mpr he⟩
    exact ⟨Ne.symm hne, fun he => hne (shiftRight_eq_of_le (by omega) he).symm⟩
  · have hbc' : b = c := UInt8.toNat_inj.mp hbc.symm
    subst hbc'
    have hpq : p ≠ q := fun he => h₀ ⟨he, rfl⟩
    have hne : p.toNat >>> (b.toNat + 1) ≠ q.toNat >>> (b.toNat + 1) := by
      intro he
      apply hpq
      rw [← h0.mask_eq, ← h1.mask_eq]
      exact (mask_eq_mask_iff h0.bit_le).mpr he
    exact ⟨hne, hne⟩
  · have hlt : b < c := UInt8.lt_iff_toNat_lt.mpr hbc
    have hne : p.toNat >>> (c.toNat + 1) ≠ q.toNat >>> (c.toNat + 1) :=
      fun he => h₂ ⟨hlt, (matchesPrefix_iff h1.bit_le h1.mask_eq).mpr he⟩
    exact ⟨fun he => hne (shiftRight_eq_of_le (by omega) he), hne⟩

end BranchInv

/-! ## The invariants -/

/-- **The union of two well-formed trees is well formed.** -/
theorem wellFormed_union :
    ∀ {a b : Tree T}, a.WellFormed → b.WellFormed → (a.union b).WellFormed := by
  intro a b
  induction a, b using union.induct with
  | case1 t => exact fun _ hb => by rwa [union.eq_1]
  | case2 t ht => exact fun ha _ => by rwa [union.eq_2 _ ht]
  | case3 k v t ht => exact fun _ hb => by rw [union.eq_3 _ _ _ ht]; exact wellFormed_insert hb
  | case4 t k v ht hl hget => exact fun ha _ => by rwa [union.eq_4 _ _ _ ht hl, if_pos hget]
  | case5 t k v ht hl hget =>
    exact fun ha _ => by rw [union.eq_4 _ _ _ ht hl, if_neg hget]; exact wellFormed_insert ha
  | case6 p0 b0 left0 right0 p1 b1 left1 right1 h ihl ihr =>
    rintro ⟨hl0, hr0, h0⟩ ⟨hl1, hr1, h1⟩
    obtain ⟨rfl, rfl⟩ := h
    rw [union_branch_same ⟨rfl, rfl⟩]
    refine ⟨ihl hl0 hl1, ihr hr0 hr1,
      { h0 with
        left_pos := len_union_pos_left h0.left_pos
        right_pos := len_union_pos_left h0.right_pos
        left_keys := fun x hx => ?_
        right_keys := fun x hx => ?_ }⟩
    · rcases mem_keys_union.mp hx with hx | hx
      · exact h0.left_keys x hx
      · exact h1.left_keys x hx
    · rcases mem_keys_union.mp hx with hx | hx
      · exact h0.right_keys x hx
      · exact h1.right_keys x hx
  | case7 p0 b0 left0 right0 p1 b1 left1 right1 h₀ h₁ t h₂ ih =>
    simp only [t] at ih
    rintro ⟨hl0, hr0, h0⟩ ⟨hl1, hr1, h1⟩
    rw [union_branch_below_left h₀ h₁ h₂]
    have hbit := (and_one_shiftLeft_eq_zero_iff h0.bit_le).mp h₂
    refine ⟨ih hl0 ⟨hl1, hr1, h1⟩, hr0,
      { h0 with
        left_pos := len_union_pos_left h0.left_pos
        left_keys := fun x hx => ?_ }⟩
    rcases mem_keys_union.mp hx with hx | hx
    · exact h0.left_keys x hx
    · obtain ⟨hm, hx⟩ := h0.nested_keys h1 h₁.1 h₁.2 hx
      exact ⟨hm, (and_one_shiftLeft_eq_zero_iff h0.bit_le).mpr (hx.trans hbit)⟩
  | case8 p0 b0 left0 right0 p1 b1 left1 right1 h₀ h₁ t h₂ ih =>
    simp only [t] at ih
    rintro ⟨hl0, hr0, h0⟩ ⟨hl1, hr1, h1⟩
    rw [union_branch_below_right h₀ h₁ h₂]
    have hbit : p1.toNat.testBit b0.toNat = true := by
      rwa [and_one_shiftLeft_eq_zero_iff h0.bit_le, Bool.not_eq_false] at h₂
    refine ⟨hl0, ih hr0 ⟨hl1, hr1, h1⟩,
      { h0 with
        right_pos := len_union_pos_left h0.right_pos
        right_keys := fun x hx => ?_ }⟩
    rcases mem_keys_union.mp hx with hx | hx
    · exact h0.right_keys x hx
    · obtain ⟨hm, hx⟩ := h0.nested_keys h1 h₁.1 h₁.2 hx
      refine ⟨hm, ?_⟩
      rw [Ne, and_one_shiftLeft_eq_zero_iff h0.bit_le, hx, hbit]
      decide
  | case9 p0 b0 left0 right0 p1 b1 left1 right1 h₀ h₁ h₂ s h₃ ih =>
    simp only [s] at ih
    rintro ⟨hl0, hr0, h0⟩ ⟨hl1, hr1, h1⟩
    rw [union_branch_above_left h₀ h₁ h₂ h₃]
    have hbit := (and_one_shiftLeft_eq_zero_iff h1.bit_le).mp h₃
    refine ⟨ih ⟨hl0, hr0, h0⟩ hl1, hr1,
      { h1 with
        left_pos := len_union_pos_right h1.left_pos
        left_keys := fun x hx => ?_ }⟩
    rcases mem_keys_union.mp hx with hx | hx
    · obtain ⟨hm, hx⟩ := h1.nested_keys h0 h₂.1 h₂.2 hx
      exact ⟨hm, (and_one_shiftLeft_eq_zero_iff h1.bit_le).mpr (hx.trans hbit)⟩
    · exact h1.left_keys x hx
  | case10 p0 b0 left0 right0 p1 b1 left1 right1 h₀ h₁ h₂ s h₃ ih =>
    simp only [s] at ih
    rintro ⟨hl0, hr0, h0⟩ ⟨hl1, hr1, h1⟩
    rw [union_branch_above_right h₀ h₁ h₂ h₃]
    have hbit : p0.toNat.testBit b1.toNat = true := by
      rwa [and_one_shiftLeft_eq_zero_iff h1.bit_le, Bool.not_eq_false] at h₃
    refine ⟨hl1, ih ⟨hl0, hr0, h0⟩ hr1,
      { h1 with
        right_pos := len_union_pos_right h1.right_pos
        right_keys := fun x hx => ?_ }⟩
    rcases mem_keys_union.mp hx with hx | hx
    · obtain ⟨hm, hx⟩ := h1.nested_keys h0 h₂.1 h₂.2 hx
      refine ⟨hm, ?_⟩
      rw [Ne, and_one_shiftLeft_eq_zero_iff h1.bit_le, hx, hbit]
      decide
    · exact h1.right_keys x hx
  | case11 p0 b0 left0 right0 p1 b1 left1 right1 h₀ h₁ h₂ =>
    rintro ⟨hl0, hr0, h0⟩ ⟨hl1, hr1, h1⟩
    rw [union_branch_apart h₀ h₁ h₂]
    -- the prefixes disagree above both bits, so the new branch sits above both trees
    obtain ⟨hne0, hne1⟩ := h0.apart h1 h₀ h₁ h₂
    have hpq : p0 ≠ p1 := fun he => hne0 (by rw [he])
    have hd := (branchingBit_spec hpq).2
    refine wellFormed_join ⟨hl0, hr0, h0⟩ ⟨hl1, hr1, h1⟩
      (Nat.add_pos_left h0.left_pos _) (Nat.add_pos_left h1.left_pos _) hpq ?_ ?_
    · exact fun x hx => shiftRight_eq_of_le (hd.le_of_shiftRight_ne hne0) (h0.agree hx)
    · exact fun x hx => shiftRight_eq_of_le (hd.le_of_shiftRight_ne hne1) (h1.agree hx)

/-! ## The map of a union -/

namespace BranchInv

variable {p : UInt64} {b : UInt8} {left right : Tree T} {x : UInt64}

theorem abs_right_eq_none (h : BranchInv p b left right) (hx : x &&& (1 <<< b.toUInt64) = 0) :
    right.abs x = none :=
  abs_eq_none_of_not_mem fun hk => (h.right_keys x hk).2 hx

theorem abs_left_eq_none (h : BranchInv p b left right) (hx : ¬x &&& (1 <<< b.toUInt64) = 0) :
    left.abs x = none :=
  abs_eq_none_of_not_mem fun hk => hx (h.left_keys x hk).2

end BranchInv

theorem abs_eq_none_of_testBit_ne {t : Tree T} {x : UInt64} {i : ℕ}
    (h : ∀ y ∈ t.keys, y.toNat.testBit i ≠ x.toNat.testBit i) : t.abs x = none :=
  abs_eq_none_of_not_mem fun hx => h x hx rfl

/-- **The union of two well-formed trees stands for the union of their maps**, left-biased. -/
theorem abs_union : ∀ {a b : Tree T}, a.WellFormed → b.WellFormed →
    ∀ x, (a.union b).abs x = (a.abs x).or (b.abs x) := by
  intro a b
  induction a, b using union.induct with
  | case1 t => exact fun _ _ x => by rw [union.eq_1, abs, Option.none_or]
  | case2 t ht => exact fun _ _ x => by rw [union.eq_2 _ ht, abs, Option.or_none]
  | case3 k v t ht =>
    intro _ hb x
    rw [union.eq_3 _ _ _ ht, abs_insert hb, abs]
    by_cases hx : x = k
    · subst hx
      simp
    · simp [hx]
  | case4 t k v ht hl hget =>
    intro ha _ x
    rw [union.eq_4 _ _ _ ht hl, if_pos hget, abs]
    by_cases hx : x = k
    · subst hx
      rw [← get_eq_abs ha]
      obtain ⟨w, hw⟩ := Option.isSome_iff_exists.mp hget
      simp [hw]
    · simp [hx]
  | case5 t k v ht hl hget =>
    intro ha _ x
    rw [union.eq_4 _ _ _ ht hl, if_neg hget, abs_insert ha, abs]
    by_cases hx : x = k
    · subst hx
      rw [← get_eq_abs ha, Option.not_isSome_iff_eq_none.mp hget]
      simp
    · simp [hx]
  | case6 p0 b0 left0 right0 p1 b1 left1 right1 h ihl ihr =>
    rintro ⟨hl0, hr0, h0⟩ ⟨hl1, hr1, h1⟩ x
    obtain ⟨rfl, rfl⟩ := h
    rw [union_branch_same ⟨rfl, rfl⟩, abs_branch p0 b0 (left0.union left1) (right0.union right1),
      ihl hl0 hl1, ihr hr0 hr1, abs_branch p0 b0 left0 right0, abs_branch p0 b0 left1 right1]
    -- the key's branching bit rules out one child of each tree
    by_cases hx : x &&& (1 <<< b0.toUInt64) = 0
    · rw [h0.abs_right_eq_none hx, h1.abs_right_eq_none hx]
      simp
    · rw [h0.abs_left_eq_none hx, h1.abs_left_eq_none hx]
      simp
  | case7 p0 b0 left0 right0 p1 b1 left1 right1 h₀ h₁ t h₂ ih =>
    simp only [t] at ih
    rintro ⟨hl0, hr0, h0⟩ ⟨hl1, hr1, h1⟩ x
    rw [union_branch_below_left h₀ h₁ h₂, abs_branch p0 b0 (left0.union _) right0,
      ih hl0 ⟨hl1, hr1, h1⟩ x, abs_branch p0 b0 left0 right0]
    have hbit := (and_one_shiftLeft_eq_zero_iff h0.bit_le).mp h₂
    by_cases hx : x &&& (1 <<< b0.toUInt64) = 0
    · rw [h0.abs_right_eq_none hx]
      simp
    · -- the second tree's keys have the bit clear, the key has it set
      have hxbit : x.toNat.testBit b0.toNat = true := by
        rwa [and_one_shiftLeft_eq_zero_iff h0.bit_le, Bool.not_eq_false] at hx
      rw [abs_eq_none_of_testBit_ne (t := branch p1 b1 left1 right1) fun y hy => by
        rw [(h0.nested_keys h1 h₁.1 h₁.2 hy).2, hbit, hxbit]; decide]
      simp
  | case8 p0 b0 left0 right0 p1 b1 left1 right1 h₀ h₁ t h₂ ih =>
    simp only [t] at ih
    rintro ⟨hl0, hr0, h0⟩ ⟨hl1, hr1, h1⟩ x
    rw [union_branch_below_right h₀ h₁ h₂, abs_branch p0 b0 left0 (right0.union _),
      ih hr0 ⟨hl1, hr1, h1⟩ x, abs_branch p0 b0 left0 right0, Option.or_assoc]
  | case9 p0 b0 left0 right0 p1 b1 left1 right1 h₀ h₁ h₂ s h₃ ih =>
    simp only [s] at ih
    rintro ⟨hl0, hr0, h0⟩ ⟨hl1, hr1, h1⟩ x
    rw [union_branch_above_left h₀ h₁ h₂ h₃, abs_branch p1 b1 (_ : Tree T) right1,
      ih ⟨hl0, hr0, h0⟩ hl1 x, abs_branch p1 b1 left1 right1, Option.or_assoc]
  | case10 p0 b0 left0 right0 p1 b1 left1 right1 h₀ h₁ h₂ s h₃ ih =>
    simp only [s] at ih
    rintro ⟨hl0, hr0, h0⟩ ⟨hl1, hr1, h1⟩ x
    rw [union_branch_above_right h₀ h₁ h₂ h₃, abs_branch p1 b1 left1 (_ : Tree T),
      ih ⟨hl0, hr0, h0⟩ hr1 x, abs_branch p1 b1 left1 right1]
    have hbit : p0.toNat.testBit b1.toNat = true := by
      rwa [and_one_shiftLeft_eq_zero_iff h1.bit_le, Bool.not_eq_false] at h₃
    by_cases hx : x &&& (1 <<< b1.toUInt64) = 0
    · -- the first tree's keys have the bit set, the key has it clear
      have hxbit := (and_one_shiftLeft_eq_zero_iff h1.bit_le).mp hx
      rw [abs_eq_none_of_testBit_ne (t := branch p0 b0 left0 right0) fun y hy => by
        rw [(h1.nested_keys h0 h₂.1 h₂.2 hy).2, hbit, hxbit]; decide]
      simp
    · rw [h1.abs_left_eq_none hx]
      simp
  | case11 p0 b0 left0 right0 p1 b1 left1 right1 h₀ h₁ h₂ =>
    rintro ⟨hl0, hr0, h0⟩ ⟨hl1, hr1, h1⟩ x
    rw [union_branch_apart h₀ h₁ h₂]
    obtain ⟨hne0, hne1⟩ := h0.apart h1 h₀ h₁ h₂
    have hpq : p0 ≠ p1 := fun he => hne0 (by rw [he])
    have hd := (branchingBit_spec hpq).2
    exact abs_join (fun _ hy => not_mem_of_agree hd
      (fun y hy => shiftRight_eq_of_le (hd.le_of_shiftRight_ne hne0) (h0.agree hy))
      (fun y hy => shiftRight_eq_of_le (hd.le_of_shiftRight_ne hne1) (h1.agree hy)) hy) x

end Tree

end IC.PageMap
