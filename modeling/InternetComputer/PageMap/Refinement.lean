import Mathlib
import InternetComputer.PageMap.Union
import InternetComputer.PageMap.Order

/-!
# `IntMap` refines a finite map

The maps that `IntMap::new`, `insert`, `union` and `FromIterator` build keep the invariants of
`Tree::Branch`, and act on the map their tree stands for, `IntMap.abs`, as a finite map from `u64`
keys does (`IntMap.IsFiniteMap`): `get`, `insert`, `union` (the receiver wins a collision), `len`,
`is_empty`, `iter` in increasing key order, and `bounds`. `IntMap.Valid` carries the invariants as
a field. The model holds every tree by value, so an operation on one version leaves every other
as it is.
-/

namespace IC.PageMap

open Bounds

namespace Tree

variable {T : Type}

theorem coe_toFinset_keys (t : Tree T) : (t.keys.toFinset : Set UInt64) = t.keySet := by
  ext x
  simp

theorem eq_empty_iff_keys_eq_nil : ∀ {t : Tree T}, t.WellFormed → (t = .empty ↔ t.keys = [])
  | .empty, _ => by simp
  | .leaf _ _, _ => by simp
  | .branch _ _ _ _, ⟨_, _, h⟩ => by simp [len_pos_iff.mp h.left_pos]

end Tree

namespace IntMap

variable {T : Type}

/-- The map an `IntMap` stands for. -/
def abs (m : IntMap T) : UInt64 → Option T := m.tree.abs

/-- The keys that have a value in the map. -/
def dom (m : IntMap T) : Set UInt64 := {key | (m.abs key).isSome}

/-- The entries of the map in the order of the leaves of its tree. -/
def toList (m : IntMap T) : List (UInt64 × T) := m.tree.toList

theorem dom_eq_keySet (m : IntMap T) : m.dom = m.tree.keySet := by
  ext key
  exact Tree.isSome_abs_iff

theorem isEmpty_eq_true_iff (m : IntMap T) : m.isEmpty = true ↔ m.tree = .empty := by
  rcases m with ⟨_ | _ | _⟩ <;> simp [isEmpty]

/-! ## Reachable maps -/

/-- The maps built from `IntMap::new` by `insert` and `union`. -/
inductive Reachable : IntMap T → Prop
  | new : Reachable new
  | insert {m : IntMap T} (key : UInt64) (value : T) : Reachable m → Reachable (m.insert key value)
  | union {m other : IntMap T} : Reachable m → Reachable other → Reachable (m.union other)

theorem Reachable.foldl_insert : ∀ (iter : List (UInt64 × T)) {m : IntMap T}, m.Reachable →
    (iter.foldl (fun m e => m.insert e.1 e.2) m).Reachable
  | [], _, h => h
  | e :: iter, _, h => Reachable.foldl_insert iter (.insert e.1 e.2 h)

theorem Reachable.fromIter (iter : List (UInt64 × T)) : (fromIter iter).Reachable :=
  Reachable.foldl_insert iter .new

/-! ## Maps that carry their invariants -/

/-- A map whose tree keeps the invariants of `Tree::Branch`. -/
structure Valid (T : Type) where
  map : IntMap T
  wellFormed : map.tree.WellFormed

namespace Valid

variable (m other : Valid T)

def new : Valid T := ⟨IntMap.new, trivial⟩

def insert (key : UInt64) (value : T) : Valid T :=
  ⟨m.map.insert key value, Tree.wellFormed_insert m.wellFormed⟩

def union : Valid T := ⟨m.map.union other.map, Tree.wellFormed_union m.wellFormed other.wellFormed⟩

theorem get_eq_abs (key : UInt64) : m.map.get key = m.map.abs key :=
  Tree.get_eq_abs m.wellFormed key

theorem abs_insert (key : UInt64) (value : T) :
    (m.insert key value).map.abs = Function.update m.map.abs key (some value) :=
  Tree.abs_insert m.wellFormed

theorem abs_union : (m.union other).map.abs = fun key => (m.map.abs key).or (other.map.abs key) :=
  funext (Tree.abs_union m.wellFormed other.wellFormed)

theorem len_eq_ncard : m.map.len = m.map.dom.ncard :=
  calc m.map.len = m.map.tree.keys.length := Tree.len_eq_length_keys _
    _ = m.map.tree.keys.toFinset.card :=
      (List.toFinset_card_of_nodup (Tree.nodup_keys m.wellFormed)).symm
    _ = m.map.dom.ncard := by
      rw [dom_eq_keySet, ← Tree.coe_toFinset_keys, Set.ncard_coe_finset]

theorem isEmpty_iff : m.map.isEmpty = true ↔ m.map.dom = ∅ := by
  rw [isEmpty_eq_true_iff, Tree.eq_empty_iff_keys_eq_nil m.wellFormed, dom_eq_keySet,
    Set.eq_empty_iff_forall_notMem, List.eq_nil_iff_forall_not_mem]
  rfl

theorem collect_iter : m.map.iter.collect (m.map.len + 1) = some m.map.toList :=
  IntMapIter.collect_new m.wellFormed

theorem sorted_toList : m.map.toList.Pairwise fun a b => a.1 < b.1 :=
  Tree.sorted_toList m.wellFormed

theorem mem_toList_iff (key : UInt64) (value : T) :
    (key, value) ∈ m.map.toList ↔ m.map.abs key = some value :=
  Tree.mem_toList_iff m.wellFormed

theorem bounds_eq (key : UInt64) :
    m.map.bounds key = (maxBelow m.map.dom key, minAbove m.map.dom key) := by
  obtain ⟨hbelow, habove⟩ := Tree.bounds_spec m.wellFormed key
  rw [dom_eq_keySet, ← hbelow.eq_maxBelow, ← habove.eq_minAbove]
  rfl

end Valid

/-- **Every reachable map keeps the invariants of `Tree::Branch`**. -/
theorem exists_valid_of_reachable {m : IntMap T} (h : m.Reachable) : ∃ v : Valid T, v.map = m := by
  induction h with
  | new => exact ⟨.new, rfl⟩
  | insert key value _ ih =>
    obtain ⟨v, rfl⟩ := ih
    exact ⟨v.insert key value, rfl⟩
  | union _ _ ih ih' =>
    obtain ⟨v, rfl⟩ := ih
    obtain ⟨v', rfl⟩ := ih'
    exact ⟨v.union v', rfl⟩

/-! ## The finite map -/

/-- What a map from `u64` keys promises, over the map `abs` that an `IntMap` stands for. -/
structure IsFiniteMap (m : IntMap T) : Prop where
  wellFormed : m.tree.WellFormed
  get_eq : ∀ key, m.get key = m.abs key
  abs_insert : ∀ key value, (m.insert key value).abs = Function.update m.abs key (some value)
  abs_union : ∀ other : IntMap T, other.Reachable →
    (m.union other).abs = fun key => (m.abs key).or (other.abs key)
  len_eq : m.len = m.dom.ncard
  isEmpty_iff : m.isEmpty = true ↔ m.dom = ∅
  collect_iter : m.iter.collect (m.len + 1) = some m.toList
  sorted : m.toList.Pairwise fun a b => a.1 < b.1
  mem_toList_iff : ∀ key value, (key, value) ∈ m.toList ↔ m.abs key = some value
  bounds_eq : ∀ key, m.bounds key = (maxBelow m.dom key, minAbove m.dom key)

theorem Valid.isFiniteMap (v : Valid T) : v.map.IsFiniteMap where
  wellFormed := v.wellFormed
  get_eq := v.get_eq_abs
  abs_insert := v.abs_insert
  abs_union other hother := by
    obtain ⟨v', rfl⟩ := exists_valid_of_reachable hother
    exact v.abs_union v'
  len_eq := v.len_eq_ncard
  isEmpty_iff := v.isEmpty_iff
  collect_iter := v.collect_iter
  sorted := v.sorted_toList
  mem_toList_iff := v.mem_toList_iff
  bounds_eq := v.bounds_eq

/-- **`IntMap` refines a finite map from `u64` keys**: every map built by `new`, `insert`, `union`
and `FromIterator` keeps the invariants and behaves as its finite map. -/
theorem intMap_refines_finiteMap {m : IntMap T} (hm : m.Reachable) : m.IsFiniteMap := by
  obtain ⟨v, rfl⟩ := exists_valid_of_reachable hm
  exact v.isFiniteMap

theorem intMap_refines_finiteMap_at_union :
    let m : IntMap ℕ := (new.insert 7 1).union (fromIter [(3, 2), (7, 3)])
    m.Reachable ∧ m.IsFiniteMap :=
  have hm : ((new.insert 7 1).union (fromIter [(3, 2), (7, 3)]) : IntMap ℕ).Reachable :=
    .union (.insert 7 1 .new) (Reachable.fromIter _)
  ⟨hm, intMap_refines_finiteMap hm⟩

example : ((fromIter [(5, 50), (1, 10), (9, 90)] : IntMap ℕ).bounds 6) = (some 5, some 9) := by
  decide

end IntMap

end IC.PageMap
