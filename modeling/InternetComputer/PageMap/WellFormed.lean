import InternetComputer.PageMap.IntMap

/-!
# The invariants of a Patricia tree

The doc comment of `Tree::Branch` lists what every branch keeps; `BranchInv` states it in the
source's terms and `WellFormed` asks it of every branch. A tree stands for the map `abs`: on a
well-formed tree `get` computes it (`get_eq_abs`), `insert` updates it (`abs_insert`) and keeps
the invariants (`wellFormed_insert`), through `join` (`wellFormed_join`, `abs_join`).
-/

namespace IC.PageMap

open Bits

namespace Tree

variable {T : Type}

/-! ## Entries, keys and the map a tree stands for -/

/-- The entries of the leaves, from left to right. -/
def toList : Tree T → List (UInt64 × T)
  | .empty => []
  | .leaf k v => [(k, v)]
  | .branch _ _ left right => left.toList ++ right.toList

/-- The keys of the leaves, from left to right. -/
def keys (t : Tree T) : List UInt64 := t.toList.map Prod.fst

/-- The map a tree stands for: the value of the leaf of each key. -/
def abs : Tree T → UInt64 → Option T
  | .empty, _ => none
  | .leaf k v, key => if key = k then some v else none
  | .branch _ _ left right, key => (left.abs key).or (right.abs key)

@[simp] theorem keys_empty : (empty : Tree T).keys = [] := rfl

@[simp] theorem keys_leaf (k : UInt64) (v : T) : (leaf k v).keys = [k] := rfl

@[simp] theorem keys_branch (p : UInt64) (b : UInt8) (left right : Tree T) :
    (branch p b left right).keys = left.keys ++ right.keys :=
  List.map_append ..

theorem abs_branch (p : UInt64) (b : UInt8) (left right : Tree T) (key : UInt64) :
    (branch p b left right).abs key = (left.abs key).or (right.abs key) := rfl

theorem len_eq_length_keys : ∀ t : Tree T, t.len = t.keys.length
  | .empty => rfl
  | .leaf _ _ => rfl
  | .branch _ _ left right => by
    rw [len, keys_branch, List.length_append, len_eq_length_keys left, len_eq_length_keys right]

theorem len_pos_iff {t : Tree T} : 0 < t.len ↔ t.keys ≠ [] := by
  rw [len_eq_length_keys, List.length_pos_iff]

theorem len_pos_of_mem {t : Tree T} {key : UInt64} (h : key ∈ t.keys) : 0 < t.len :=
  len_pos_iff.mpr (List.ne_nil_of_mem h)

theorem isSome_abs_iff : ∀ {t : Tree T} {key : UInt64}, (t.abs key).isSome ↔ key ∈ t.keys
  | .empty, _ => by simp [abs]
  | .leaf k v, key => by by_cases h : key = k <;> simp [abs, h]
  | .branch _ _ left right, key => by
    rw [abs, Option.isSome_or, keys_branch, List.mem_append, Bool.or_eq_true, isSome_abs_iff,
      isSome_abs_iff]

theorem abs_eq_none_of_not_mem {t : Tree T} {key : UInt64} (h : key ∉ t.keys) :
    t.abs key = none :=
  Option.not_isSome_iff_eq_none.mp fun hs => h (isSome_abs_iff.mp hs)

theorem mem_keys_of_get : ∀ {t : Tree T} {key : UInt64}, (t.get key).isSome → key ∈ t.keys
  | .empty, _, h => absurd h (by simp [get])
  | .leaf k v, key, h => by
    by_cases hk : key = k
    · simp [hk]
    · simp [get, hk] at h
  | .branch p b left right, key, h => by
    rw [get] at h
    rw [keys_branch, List.mem_append]
    split_ifs at h with hm hbit
    · exact absurd h (by simp)
    · exact Or.inl (mem_keys_of_get h)
    · exact Or.inr (mem_keys_of_get h)

/-! ## The invariants -/

/-- The invariants of `Tree::Branch` in its doc comment, "`== 1`" read as `!= 0`. -/
structure BranchInv (branchPrefix : UInt64) (branchingBit : UInt8) (left right : Tree T) :
    Prop where
  left_pos : 0 < left.len
  right_pos : 0 < right.len
  left_keys : ∀ k ∈ left.keys, matchesPrefix k branchPrefix branchingBit = true ∧
    k &&& (1 <<< branchingBit.toUInt64) = 0
  right_keys : ∀ k ∈ right.keys, matchesPrefix k branchPrefix branchingBit = true ∧
    k &&& (1 <<< branchingBit.toUInt64) ≠ 0
  bit_le : branchingBit ≤ 63
  mask_eq : mask branchPrefix branchingBit = branchPrefix

/-- Every branch of the tree keeps the invariants of `Tree::Branch`. -/
def WellFormed : Tree T → Prop
  | .empty => True
  | .leaf _ _ => True
  | .branch p b left right => left.WellFormed ∧ right.WellFormed ∧ BranchInv p b left right

namespace BranchInv

variable {p : UInt64} {b : UInt8} {left right : Tree T} {k k' : UInt64}

theorem left_agree (h : BranchInv p b left right) (hk : k ∈ left.keys) :
    k.toNat >>> (b.toNat + 1) = p.toNat >>> (b.toNat + 1) :=
  (matchesPrefix_iff h.bit_le h.mask_eq).mp (h.left_keys k hk).1

theorem right_agree (h : BranchInv p b left right) (hk : k ∈ right.keys) :
    k.toNat >>> (b.toNat + 1) = p.toNat >>> (b.toNat + 1) :=
  (matchesPrefix_iff h.bit_le h.mask_eq).mp (h.right_keys k hk).1

/-- **Every key of a branch agrees with its prefix above the branching bit.** -/
theorem agree (h : BranchInv p b left right) (hk : k ∈ (branch p b left right).keys) :
    k.toNat >>> (b.toNat + 1) = p.toNat >>> (b.toNat + 1) := by
  rw [keys_branch, List.mem_append] at hk
  rcases hk with hk | hk
  · exact h.left_agree hk
  · exact h.right_agree hk

theorem left_testBit (h : BranchInv p b left right) (hk : k ∈ left.keys) :
    k.toNat.testBit b.toNat = false :=
  (and_one_shiftLeft_eq_zero_iff h.bit_le).mp (h.left_keys k hk).2

theorem right_testBit (h : BranchInv p b left right) (hk : k ∈ right.keys) :
    k.toNat.testBit b.toNat = true := by
  have hne := (h.right_keys k hk).2
  rw [Ne, and_one_shiftLeft_eq_zero_iff h.bit_le, Bool.not_eq_false] at hne
  exact hne

/-- **The left keys of a branch are below its right keys.** -/
theorem lt_of_mem (h : BranchInv p b left right) (hk : k ∈ left.keys) (hk' : k' ∈ right.keys) :
    k < k' :=
  UInt64.lt_iff_toNat_lt.mpr (lt_of_testBit_of_shiftRight_eq
    ((h.left_agree hk).trans (h.right_agree hk').symm) (h.left_testBit hk) (h.right_testBit hk'))

theorem not_mem_right (h : BranchInv p b left right) (hk : k ∈ left.keys) : k ∉ right.keys :=
  fun hk' => UInt64.lt_irrefl k (h.lt_of_mem hk hk')

theorem of_agree (hb : b ≤ 63) (hp : mask p b = p) (hl : 0 < left.len) (hr : 0 < right.len)
    (hkl : ∀ k ∈ left.keys, k.toNat >>> (b.toNat + 1) = p.toNat >>> (b.toNat + 1) ∧
      k.toNat.testBit b.toNat = false)
    (hkr : ∀ k ∈ right.keys, k.toNat >>> (b.toNat + 1) = p.toNat >>> (b.toNat + 1) ∧
      k.toNat.testBit b.toNat = true) :
    BranchInv p b left right where
  left_pos := hl
  right_pos := hr
  left_keys k hk :=
    ⟨(matchesPrefix_iff hb hp).mpr (hkl k hk).1, (and_one_shiftLeft_eq_zero_iff hb).mpr (hkl k hk).2⟩
  right_keys k hk := by
    refine ⟨(matchesPrefix_iff hb hp).mpr (hkr k hk).1, ?_⟩
    rw [Ne, and_one_shiftLeft_eq_zero_iff hb, (hkr k hk).2]
    decide
  bit_le := hb
  mask_eq := hp

end BranchInv

/-- **`get` computes the map a well-formed tree stands for.** -/
theorem get_eq_abs : ∀ {t : Tree T}, t.WellFormed → ∀ key, t.get key = t.abs key
  | .empty, _, _ => rfl
  | .leaf _ _, _, _ => rfl
  | .branch p b left right, ⟨hl, hr, h⟩, key => by
    rw [get, abs]
    by_cases hm : matchesPrefix key p b = true
    · rw [if_neg (by simp [hm])]
      -- the branching bit of the key sends it to the only child that may hold it
      by_cases hbit : key &&& (1 <<< b.toUInt64) = 0
      · have hnr : key ∉ right.keys := fun hk => (h.right_keys key hk).2 hbit
        rw [if_pos hbit, get_eq_abs hl, abs_eq_none_of_not_mem hnr, Option.or_none]
      · have hnl : key ∉ left.keys := fun hk => hbit (h.left_keys key hk).2
        rw [if_neg hbit, get_eq_abs hr, abs_eq_none_of_not_mem hnl, Option.none_or]
    · have hnl : key ∉ left.keys := fun hk => hm (h.left_keys key hk).1
      have hnr : key ∉ right.keys := fun hk => hm (h.right_keys key hk).1
      rw [if_pos (by simp [hm]), abs_eq_none_of_not_mem hnl, abs_eq_none_of_not_mem hnr,
        Option.none_or]

/-! ## Joining two trees -/

section Join

variable {p0 p1 : UInt64} {t0 t1 : Tree T}

@[simp] theorem mem_keys_join {x : UInt64} :
    x ∈ (join p0 t0 p1 t1).keys ↔ x ∈ t0.keys ∨ x ∈ t1.keys := by
  simp only [join]
  split_ifs <;> simp [or_comm]

theorem not_mem_of_agree {d : ℕ} (hd : IsHighestDiff p0.toNat p1.toNat d)
    (hk0 : ∀ x ∈ t0.keys, x.toNat >>> d = p0.toNat >>> d)
    (hk1 : ∀ x ∈ t1.keys, x.toNat >>> d = p1.toNat >>> d) {x : UInt64} (hx : x ∈ t0.keys) :
    x ∉ t1.keys :=
  fun hx' => hd.testBit_ne_of_shiftRight_eq (hk0 x hx) (hk1 x hx') rfl

theorem abs_join (hdisj : ∀ x ∈ t0.keys, x ∉ t1.keys) (key : UInt64) :
    (join p0 t0 p1 t1).abs key = (t0.abs key).or (t1.abs key) := by
  -- a key of neither tree, or of one only: the order of the children does not matter
  have hone : t0.abs key = none ∨ t1.abs key = none := by
    by_cases hk : key ∈ t0.keys
    · exact Or.inr (abs_eq_none_of_not_mem (hdisj key hk))
    · exact Or.inl (abs_eq_none_of_not_mem hk)
  simp only [join]
  split_ifs
  · rfl
  · rcases hone with h | h <;> simp [abs, h]

/-- **`join` of two well-formed trees keeps the invariants**. -/
theorem wellFormed_join (h0 : t0.WellFormed) (h1 : t1.WellFormed) (hl0 : 0 < t0.len)
    (hl1 : 0 < t1.len) (hne : p0 ≠ p1)
    (hk0 : ∀ x ∈ t0.keys, x.toNat >>> (branchingBit p0 p1).toNat =
      p0.toNat >>> (branchingBit p0 p1).toNat)
    (hk1 : ∀ x ∈ t1.keys, x.toNat >>> (branchingBit p0 p1).toNat =
      p1.toNat >>> (branchingBit p0 p1).toNat) :
    (join p0 t0 p1 t1).WellFormed := by
  obtain ⟨hb, hd⟩ := branchingBit_spec hne
  have hp : mask (mask p0 (branchingBit p0 p1)) (branchingBit p0 p1) = mask p0 (branchingBit p0 p1) :=
    mask_mask hb
  have hmask : (mask p0 (branchingBit p0 p1)).toNat >>> ((branchingBit p0 p1).toNat + 1) =
      p0.toNat >>> ((branchingBit p0 p1).toNat + 1) := by
    rw [toNat_mask hb, Nat.shiftLeft_shiftRight]
  -- each key agrees with its tree's prefix above the bit, where the prefixes agree, and at it
  have hkey0 : ∀ x ∈ t0.keys, x.toNat >>> ((branchingBit p0 p1).toNat + 1) =
      (mask p0 (branchingBit p0 p1)).toNat >>> ((branchingBit p0 p1).toNat + 1) ∧
      x.toNat.testBit (branchingBit p0 p1).toNat = p0.toNat.testBit (branchingBit p0 p1).toNat :=
    fun x hx => ⟨(shiftRight_eq_of_le (Nat.le_succ _) (hk0 x hx)).trans hmask.symm,
      testBit_eq_of_shiftRight_eq (hk0 x hx) (Nat.le_refl _)⟩
  have hkey1 : ∀ x ∈ t1.keys, x.toNat >>> ((branchingBit p0 p1).toNat + 1) =
      (mask p0 (branchingBit p0 p1)).toNat >>> ((branchingBit p0 p1).toNat + 1) ∧
      x.toNat.testBit (branchingBit p0 p1).toNat = p1.toNat.testBit (branchingBit p0 p1).toNat :=
    fun x hx => ⟨((shiftRight_eq_of_le (Nat.le_succ _) (hk1 x hx)).trans hd.shiftRight_eq.symm).trans
      hmask.symm, testBit_eq_of_shiftRight_eq (hk1 x hx) (Nat.le_refl _)⟩
  have hbits := hd.testBit_ne
  simp only [join]
  split_ifs with hbit
  · rw [and_one_shiftLeft_eq_zero_iff hb] at hbit
    rw [hbit] at hbits
    have hp1 : p1.toNat.testBit (branchingBit p0 p1).toNat = true := by simpa using hbits.symm
    exact ⟨h0, h1, BranchInv.of_agree hb hp hl0 hl1
      (fun x hx => ⟨(hkey0 x hx).1, (hkey0 x hx).2.trans hbit⟩)
      (fun x hx => ⟨(hkey1 x hx).1, (hkey1 x hx).2.trans hp1⟩)⟩
  · rw [and_one_shiftLeft_eq_zero_iff hb, Bool.not_eq_false] at hbit
    rw [hbit] at hbits
    have hp1 : p1.toNat.testBit (branchingBit p0 p1).toNat = false := by simpa using hbits.symm
    exact ⟨h1, h0, BranchInv.of_agree hb hp hl1 hl0
      (fun x hx => ⟨(hkey1 x hx).1, (hkey1 x hx).2.trans hp1⟩)
      (fun x hx => ⟨(hkey0 x hx).1, (hkey0 x hx).2.trans hbit⟩)⟩

end Join

/-! ## Insertion -/

section Insert

variable {key : UInt64} {value : T}

theorem mem_keys_insert {x : UInt64} :
    ∀ {t : Tree T}, x ∈ (t.insert key value).keys ↔ x = key ∨ x ∈ t.keys
  | .empty => by simp [insert]
  | .leaf k v => by
    by_cases hk : k = key
    · subst hk
      simp [insert]
    · simp [insert, hk]
  | .branch p b left right => by
    rw [insert]
    split_ifs <;> simp [mem_keys_insert (t := left), mem_keys_insert (t := right)] <;> tauto

theorem len_insert_pos {t : Tree T} : 0 < (t.insert key value).len :=
  len_pos_of_mem (mem_keys_insert.mpr (Or.inl rfl))

private theorem le_branchingBit_of_not_matches {p : UInt64} {b : UInt8} {left right : Tree T}
    (h : BranchInv p b left right) (hm : ¬matchesPrefix key p b = true) :
    key ≠ p ∧ b.toNat + 1 ≤ (branchingBit key p).toNat := by
  have hne : key.toNat >>> (b.toNat + 1) ≠ p.toNat >>> (b.toNat + 1) :=
    fun he => hm ((matchesPrefix_iff h.bit_le h.mask_eq).mpr he)
  have hkp : key ≠ p := fun he => hne (by rw [he])
  exact ⟨hkp, (branchingBit_spec hkp).2.le_of_shiftRight_ne hne⟩

/-- **`insert` keeps the invariants.** -/
theorem wellFormed_insert : ∀ {t : Tree T}, t.WellFormed → (t.insert key value).WellFormed
  | .empty, _ => trivial
  | .leaf k v, _ => by
    rw [insert]
    split_ifs with hk
    · trivial
    · refine wellFormed_join ?_ ?_ Nat.one_pos Nat.one_pos (Ne.symm hk) ?_ ?_
      · trivial
      · trivial
      · intro x hx
        rw [List.mem_singleton.mp hx]
      · intro x hx
        rw [List.mem_singleton.mp hx]
  | .branch p b left right, ⟨hl, hr, h⟩ => by
    rw [insert]
    split_ifs with hm hbit
    · refine ⟨wellFormed_insert hl, hr, { h with left_pos := len_insert_pos, left_keys := ?_ }⟩
      intro x hx
      rcases mem_keys_insert.mp hx with rfl | hx
      · exact ⟨hm, hbit⟩
      · exact h.left_keys x hx
    · refine ⟨hl, wellFormed_insert hr, { h with right_pos := len_insert_pos, right_keys := ?_ }⟩
      intro x hx
      rcases mem_keys_insert.mp hx with rfl | hx
      · exact ⟨hm, hbit⟩
      · exact h.right_keys x hx
    · -- the key leaves the branch: a new branch above both, at their highest differing bit
      obtain ⟨hkp, hle⟩ := le_branchingBit_of_not_matches h hm
      refine wellFormed_join ?_ ?_ Nat.one_pos (Nat.add_pos_left h.left_pos _) hkp ?_ ?_
      · trivial
      · exact ⟨hl, hr, h⟩
      · intro x hx
        rw [List.mem_singleton.mp hx]
      · intro x hx
        exact shiftRight_eq_of_le hle (h.agree hx)

/-- **`insert` updates the map a well-formed tree stands for.** -/
theorem abs_insert : ∀ {t : Tree T}, t.WellFormed →
    (t.insert key value).abs = Function.update t.abs key (some value)
  | .empty, _ => by
    funext x
    by_cases hx : x = key <;> simp [insert, abs, hx]
  | .leaf k v, _ => by
    funext x
    rw [insert]
    split_ifs with hk
    · subst hk
      by_cases hx : x = k <;> simp [abs, hx]
    · rw [abs_join (fun y hy hy' => hk (by simp_all))]
      by_cases hx : x = key
      · simp [abs, hx]
      · simp [abs, hx]
  | .branch p b left right, ⟨hl, hr, h⟩ => by
    funext x
    rw [insert]
    split_ifs with hm hbit
    · have hrec := abs_insert hl
      by_cases hx : x = key
      · subst hx
        rw [Function.update_self, abs, hrec, Function.update_self, Option.some_or]
      · rw [Function.update_of_ne hx, abs, abs, hrec, Function.update_of_ne hx]
    · -- the key is not a left key, since its branching bit is set
      have hnl : key ∉ left.keys := fun hk => hbit (h.left_keys key hk).2
      have hrec := abs_insert hr
      by_cases hx : x = key
      · subst hx
        rw [Function.update_self, abs, hrec, Function.update_self, abs_eq_none_of_not_mem hnl,
          Option.none_or]
      · rw [Function.update_of_ne hx, abs, abs, hrec, Function.update_of_ne hx]
    · have hn : key ∉ (branch p b left right).keys := by
        rw [keys_branch, List.mem_append]
        rintro (hk | hk)
        · exact hm (h.left_keys key hk).1
        · exact hm (h.right_keys key hk).1
      rw [abs_join (fun y hy => by rw [List.mem_singleton.mp hy]; exact hn)]
      by_cases hx : x = key
      · subst hx
        simp [abs]
      · simp [abs, hx]

end Insert

end Tree

end IC.PageMap
