import Mathlib
import InternetComputer.Lib.Bits

/-!
# `IntMap`: big-endian Patricia trees

The persistent map with `u64` keys of `page_map/int_map.rs` (Okasaki and Gill, "Fast Mergeable
Integer Maps"): a `Tree` is empty, a leaf, or a branch on a bit of the keys. The children of a
branch are held by value: `with_arc` is `Arc::make_mut` and `take_arc` clones. The bit operations
are those of the source on `UInt64`; their meaning in numbers is stated below the definitions
(`toNat_mask`, `and_one_shiftLeft_eq_zero_iff`, `branchingBit_spec`).
-/

namespace IC.PageMap

open Bits

/-! ## Bit patterns -/

/-- `u64::leading_zeros`. -/
def leadingZeros (x : UInt64) : UInt32 := UInt32.ofNat x.toBitVec.clz.toNat

/-- `branching_bit`: the most significant bit in which two bit patterns disagree. -/
def branchingBit (p0 p1 : UInt64) : UInt8 :=
  let zs := leadingZeros (p0 ^^^ p1)
  (63 - zs).toUInt8

/-- `mask`: the key with all its bits at or lower than the branching bit cleared. -/
def mask (key : UInt64) (branchingBit : UInt8) : UInt64 :=
  let m : UInt64 := 1 <<< branchingBit.toUInt64
  key &&& ~~~(m ||| (m - 1))

/-- `matches_prefix`: the key agrees with the branch prefix above the branching bit. -/
def matchesPrefix (key branchPrefix : UInt64) (branchingBit : UInt8) : Bool :=
  mask key branchingBit == branchPrefix

/-! ## Trees -/

/-- `Tree`: big-endian Patricia trees. -/
inductive Tree (T : Type) where
  | empty
  | leaf (key : UInt64) (value : T)
  | branch (branchPrefix : UInt64) (branchingBit : UInt8) (left right : Tree T)
  deriving Repr, DecidableEq

namespace Tree

variable {T : Type}

/-- `join`: a branch over `t0` and `t1`, split at the prefixes' highest differing bit. -/
def join (p0 : UInt64) (t0 : Tree T) (p1 : UInt64) (t1 : Tree T) : Tree T :=
  let b := branchingBit p0 p1
  if p0 &&& (1 <<< b.toUInt64) = 0 then .branch (mask p0 b) b t0 t1
  else .branch (mask p0 b) b t1 t0

/-- `Tree::get`. -/
def get : Tree T → UInt64 → Option T
  | .empty, _ => none
  | .leaf k v, key => if key = k then some v else none
  | .branch branchPrefix branchingBit left right, key =>
    if !matchesPrefix key branchPrefix branchingBit then none
    else if key &&& (1 <<< branchingBit.toUInt64) = 0 then left.get key
    else right.get key

/-- `Tree::min_key`: down the left children to a leaf. -/
def minKey : Tree T → Option UInt64
  | .empty => none
  | .leaf k _ => some k
  | .branch _ _ left _ => left.minKey

/-- `Tree::max_key`: down the right children to a leaf. -/
def maxKey : Tree T → Option UInt64
  | .empty => none
  | .leaf k _ => some k
  | .branch _ _ _ right => right.maxKey

/-- `Tree::bounds`: the largest key at most `key` and the smallest key at least `key`. -/
def bounds : Tree T → UInt64 → Option UInt64 × Option UInt64
  | .empty, _ => (none, none)
  | .leaf k _, key =>
    match compare key k with
    | .lt => (none, some k)
    | .eq => (some key, some key)
    | .gt => (some k, none)
  | .branch branchPrefix branchingBit left right, key =>
    match compare (mask key branchingBit) branchPrefix with
    | .lt => (none, left.minKey)
    | .gt => (right.maxKey, none)
    | .eq =>
      if key &&& (1 <<< branchingBit.toUInt64) = 0 then
        let (start, endKey) := left.bounds key
        if endKey.isNone then (start, right.minKey) else (start, endKey)
      else
        let (start, endKey) := right.bounds key
        if start.isNone then (left.maxKey, endKey) else (start, endKey)

/-- `Tree::insert`. -/
def insert : Tree T → UInt64 → T → Tree T
  | .empty, key, value => .leaf key value
  | .leaf k v, key, value =>
    if k = key then .leaf k value else join key (.leaf key value) k (.leaf k v)
  | .branch branchPrefix branchingBit left right, key, value =>
    if matchesPrefix key branchPrefix branchingBit then
      if key &&& (1 <<< branchingBit.toUInt64) = 0 then
        .branch branchPrefix branchingBit (left.insert key value) right
      else
        .branch branchPrefix branchingBit left (right.insert key value)
    else
      join key (.leaf key value) branchPrefix (.branch branchPrefix branchingBit left right)

/-- `Tree::union`: the entries of both trees, those of the first on a collision. -/
def union : Tree T → Tree T → Tree T
  | .empty, t => t
  | t, .empty => t
  | .leaf k v, t => t.insert k v
  | t, .leaf k v => if (t.get k).isSome then t else t.insert k v
  | .branch p0 b0 left0 right0, .branch p1 b1 left1 right1 =>
    if p0 = p1 ∧ b0 = b1 then
      .branch p0 b0 (left0.union left1) (right0.union right1)
    else if b0 > b1 ∧ matchesPrefix p1 p0 b0 = true then
      -- the second tree lies below one child of the first
      let t := Tree.branch p1 b1 left1 right1
      if p1 &&& (1 <<< b0.toUInt64) = 0 then .branch p0 b0 (left0.union t) right0
      else .branch p0 b0 left0 (right0.union t)
    else if b1 > b0 ∧ matchesPrefix p0 p1 b1 = true then
      let s := Tree.branch p0 b0 left0 right0
      if p0 &&& (1 <<< b1.toUInt64) = 0 then .branch p1 b1 (s.union left1) right1
      else .branch p1 b1 left1 (s.union right1)
    else
      join p0 (.branch p0 b0 left0 right0) p1 (.branch p1 b1 left1 right1)

/-- `Tree::len`. -/
def len : Tree T → ℕ
  | .empty => 0
  | .leaf _ _ => 1
  | .branch _ _ left right => left.len + right.len

end Tree

/-! ## Iteration -/

/-- `IntMapIter`: the stack of subtrees not visited yet, the one to visit first at the head. -/
structure IntMapIter (T : Type) where
  stack : List (Tree T)

namespace IntMapIter

variable {T : Type}

/-- `IntMapIter::new`. -/
def new (root : Tree T) : IntMapIter T := ⟨[root]⟩

/-- The loop of `IntMapIter::next`: down to the leftmost subtree, pushing the right subtrees. -/
def descend : Tree T → List (Tree T) → Tree T × List (Tree T)
  | .empty, stack => (.empty, stack)
  | .leaf k v, stack => (.leaf k v, stack)
  | .branch _ _ left right, stack => descend left (right :: stack)

/-- `IntMapIter::next`; its `unreachable!()` arm is never taken (`descend_ne_branch`). -/
def next (it : IntMapIter T) : Option (UInt64 × T) × IntMapIter T :=
  match it.stack with
  | [] => (none, it)
  | p :: stack =>
    match descend p stack with
    | (.empty, stack) => (none, ⟨stack⟩)
    | (.leaf k v, stack) => (some (k, v), ⟨stack⟩)
    | (.branch _ _ _ _, stack) => (none, ⟨stack⟩)

/-- The entries `next` yields up to its first `None`, within `fuel` calls. -/
def collect : ℕ → IntMapIter T → Option (List (UInt64 × T))
  | 0, _ => none
  | fuel + 1, it =>
    match it.next with
    | (none, _) => some []
    | (some e, it) => (e :: ·) <$> collect fuel it

end IntMapIter

/-! ## Maps -/

/-- `IntMap`: a purely functional persistent sorted map with an integer key. -/
structure IntMap (T : Type) where
  tree : Tree T

namespace IntMap

variable {T : Type}

/-- `IntMap::new`. -/
def new : IntMap T := ⟨.empty⟩

/-- `IntMap::get`. -/
def get (m : IntMap T) (key : UInt64) : Option T := m.tree.get key

/-- `IntMap::bounds`. -/
def bounds (m : IntMap T) (key : UInt64) : Option UInt64 × Option UInt64 := m.tree.bounds key

/-- `IntMap::insert`. -/
def insert (m : IntMap T) (key : UInt64) (value : T) : IntMap T := ⟨m.tree.insert key value⟩

/-- `IntMap::union`: the entries of both maps, those of `m` on a collision. -/
def union (m other : IntMap T) : IntMap T := ⟨m.tree.union other.tree⟩

/-- `IntMap::iter`. -/
def iter (m : IntMap T) : IntMapIter T := IntMapIter.new m.tree

/-- `IntMap::len`. -/
def len (m : IntMap T) : ℕ := m.tree.len

/-- `IntMap::is_empty`. -/
def isEmpty (m : IntMap T) : Bool :=
  match m.tree with
  | .empty => true
  | _ => false

/-- `FromIterator for IntMap`: the entries inserted in turn into a new map. -/
def fromIter (iter : List (UInt64 × T)) : IntMap T :=
  iter.foldl (fun m e => m.insert e.1 e.2) new

end IntMap

/-! ## The bit operations in numbers -/

theorem toNat_one_shiftLeft {b : UInt8} (hb : b ≤ 63) :
    ((1 : UInt64) <<< b.toUInt64).toNat = 2 ^ b.toNat := by
  have hb' : b.toNat < 64 := by
    have := UInt8.le_iff_toNat_le.mp hb
    simp only [UInt8.reduceToNat] at this
    omega
  rw [UInt64.toNat_shiftLeft, UInt8.toNat_toUInt64, Nat.mod_eq_of_lt hb', UInt64.toNat_one,
    Nat.one_shiftLeft, Nat.mod_eq_of_lt (Nat.pow_lt_pow_right (by decide) hb')]

/-- **The test `key & (1 << b) == 0` reads bit `b` of the key.** -/
theorem and_one_shiftLeft_eq_zero_iff {key : UInt64} {b : UInt8} (hb : b ≤ 63) :
    key &&& (1 <<< b.toUInt64) = 0 ↔ key.toNat.testBit b.toNat = false := by
  rw [← UInt64.toNat_inj, UInt64.toNat_and, toNat_one_shiftLeft hb, Nat.and_two_pow,
    UInt64.toNat_zero]
  cases key.toNat.testBit b.toNat <;> simp

/-- **`mask` clears the bits at or below the branching bit.** -/
theorem toNat_mask {key : UInt64} {b : UInt8} (hb : b ≤ 63) :
    (mask key b).toNat = (key.toNat >>> (b.toNat + 1)) <<< (b.toNat + 1) := by
  have hm := toNat_one_shiftLeft hb
  have hpos : (1 : UInt64) ≤ 1 <<< b.toUInt64 := by
    rw [UInt64.le_iff_toNat_le, hm, UInt64.toNat_one]
    exact Nat.one_le_two_pow
  have hlow : ((1 <<< b.toUInt64) ||| (1 <<< b.toUInt64 - 1) : UInt64).toNat =
      2 ^ b.toNat ||| (2 ^ b.toNat - 1) := by
    rw [UInt64.toNat_or, UInt64.toNat_sub_of_le _ _ hpos, hm, UInt64.toNat_one]
  have hlowlt : 2 ^ b.toNat ||| (2 ^ b.toNat - 1) < 2 ^ 64 := by
    rw [← hlow]
    exact UInt64.toNat_lt_size _
  apply Nat.eq_of_testBit_eq
  intro i
  rw [mask, UInt64.toNat_and, UInt64.toNat_not, hlow,
    show UInt64.size - 1 - (2 ^ b.toNat ||| 2 ^ b.toNat - 1) =
      2 ^ 64 - ((2 ^ b.toNat ||| 2 ^ b.toNat - 1) + 1) by simp only [UInt64.size]; omega,
    Nat.testBit_and, Nat.testBit_two_pow_sub_succ hlowlt, Nat.testBit_or, Nat.testBit_two_pow,
    Nat.testBit_two_pow_sub_one, testBit_shiftRight_shiftLeft]
  have hb' : b.toNat ≤ 63 := by
    have := UInt8.le_iff_toNat_le.mp hb
    simpa using this
  by_cases hi : i < 64
  · by_cases hbi : b.toNat < i
    · simp [hi, show b.toNat + 1 ≤ i by omega, show b.toNat ≠ i by omega,
        show ¬i < b.toNat by omega]
    · by_cases hbeq : b.toNat = i
      · simp [hbeq]
      · simp [show ¬b.toNat + 1 ≤ i by omega, show i < b.toNat by omega]
  · have hkey : key.toNat.testBit i = false :=
      Nat.testBit_lt_two_pow (Nat.lt_of_lt_of_le (UInt64.toNat_lt key)
        (Nat.pow_le_pow_right (show 2 > 0 by decide) (Nat.le_of_not_lt hi)))
    simp [hi, hkey]

theorem mask_mask {key : UInt64} {b : UInt8} (hb : b ≤ 63) : mask (mask key b) b = mask key b := by
  rw [← UInt64.toNat_inj, toNat_mask hb, toNat_mask hb, Nat.shiftLeft_shiftRight]

theorem mask_eq_mask_iff {key key' : UInt64} {b : UInt8} (hb : b ≤ 63) :
    mask key b = mask key' b ↔ key.toNat >>> (b.toNat + 1) = key'.toNat >>> (b.toNat + 1) := by
  rw [← UInt64.toNat_inj, toNat_mask hb, toNat_mask hb, shiftRight_shiftLeft_inj]

/-- **A key matches a masked prefix exactly when it agrees with it above the branching bit.** -/
theorem matchesPrefix_iff {key branchPrefix : UInt64} {b : UInt8} (hb : b ≤ 63)
    (hp : mask branchPrefix b = branchPrefix) :
    matchesPrefix key branchPrefix b = true ↔
      key.toNat >>> (b.toNat + 1) = branchPrefix.toNat >>> (b.toNat + 1) := by
  rw [matchesPrefix, beq_iff_eq, ← mask_eq_mask_iff hb, hp]

/-- **`branching_bit` of two different patterns is the highest bit at which they differ.** -/
theorem branchingBit_spec {p0 p1 : UInt64} (hne : p0 ≠ p1) :
    branchingBit p0 p1 ≤ 63 ∧ IsHighestDiff p0.toNat p1.toNat (branchingBit p0 p1).toNat := by
  have hz : (p0 ^^^ p1).toBitVec ≠ 0#64 := by
    intro h
    rw [UInt64.toBitVec_xor, BitVec.xor_eq_zero_iff] at h
    exact hne (UInt64.toBitVec_inj.mp h)
  obtain ⟨c, hc⟩ : ∃ c, (p0 ^^^ p1).toBitVec.clz.toNat = c := ⟨_, rfl⟩
  have hclz : c < 64 := hc ▸ BitVec.lt_def.mp (BitVec.clz_lt_iff_ne_zero.mpr hz)
  have hlo : 2 ^ (63 - c) ≤ p0.toNat ^^^ p1.toNat := by
    have := BitVec.two_pow_sub_clz_le_toNat_of_ne_zero (by decide) hz
    rwa [hc, UInt64.toNat_toBitVec, UInt64.toNat_xor] at this
  have hhi : p0.toNat ^^^ p1.toNat < 2 ^ (63 - c + 1) := by
    have := BitVec.toNat_lt_two_pow_sub_clz (x := (p0 ^^^ p1).toBitVec)
    rwa [hc, UInt64.toNat_toBitVec, UInt64.toNat_xor, show 64 - c = 63 - c + 1 by omega] at this
  have hzs : (leadingZeros (p0 ^^^ p1)).toNat = c :=
    hc ▸ UInt32.toNat_ofNat_of_lt' (Nat.lt_trans (hc ▸ hclz) (by decide))
  have hd : (branchingBit p0 p1).toNat = 63 - c := by
    have hle : leadingZeros (p0 ^^^ p1) ≤ 63 := by
      rw [UInt32.le_iff_toNat_le, hzs]
      simp only [UInt32.reduceToNat]
      omega
    rw [branchingBit, UInt32.toNat_toUInt8, UInt32.toNat_sub_of_le _ _ hle, hzs]
    simp only [UInt32.reduceToNat]
    omega
  refine ⟨?_, ?_⟩
  · rw [UInt8.le_iff_toNat_le, hd]
    simp only [UInt8.reduceToNat]
    omega
  · rw [hd]
    exact isHighestDiff_of_xor hlo hhi

end IC.PageMap
