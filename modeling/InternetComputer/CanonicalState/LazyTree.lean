import InternetComputer.TreeHash.LabeledTree
import InternetComputer.Lib.SortedMap

/-!
# Lazy trees

`LazyTree` of the canonical state: a blob, or a fork that lists its labels and gives the subtree
of a label on demand. `materialize_partial` builds from a lazy tree the labeled tree of the paths
of a pattern, the tree that `read_state` certifies.

* `LazyTree`, and `LazyTree.WellFormed`: every fork lists its labels in strictly increasing
  order and has a subtree at exactly those labels;
* `materialize`, `materializePartial`, with **`materializePartial_prefix`**: every leaf path of
  the result extends a leaf path of the pattern;
* the forks of the source: `FiniteMap.toFork`, and `mapTransformFork` over a `LabelLike` key,
  with `wellFormed_toFork` and **`wellFormed_mapTransformFork`**.
-/

namespace IC.CanonicalState

open IC.TreeHash

/-- `LazyTree`: a blob, or a fork with its labels and the subtree of a label. -/
inductive LazyTree where
  | blob (bytes : List UInt8)
  | fork (labels : List Label) (edge : Label → Option LazyTree)

namespace LazyTree

/-- Every fork lists its labels in increasing order, with a subtree at exactly those. -/
inductive WellFormed : LazyTree → Prop
  | blob (bytes : List UInt8) : WellFormed (.blob bytes)
  | fork {labels : List Label} {edge : Label → Option LazyTree} :
      labels.Pairwise (· < ·) → (∀ l, (edge l).isSome ↔ l ∈ labels) →
      (∀ l t, edge l = some t → WellFormed t) → WellFormed (.fork labels edge)

theorem WellFormed.labels_sorted {labels : List Label} {edge : Label → Option LazyTree}
    (h : WellFormed (.fork labels edge)) : labels.Pairwise (· < ·) := by
  cases h with
  | fork hsorted _ _ => exact hsorted

/-- `LazyFork::edge` of a fork, and nothing below a blob. -/
def edgeAt : LazyTree → Label → Option LazyTree
  | .fork _ edge, l => edge l
  | .blob _, _ => none

theorem WellFormed.of_edgeAt {t t' : LazyTree} {l : Label} (h : WellFormed t)
    (hl : t.edgeAt l = some t') : WellFormed t' := by
  cases h with
  | blob bytes => cases hl
  | fork _ _ hsub => exact hsub l t' hl

/-! ## Materialization -/

mutual
/-- `materialize`: the whole tree, without its empty forks. -/
def materialize : LazyTree → Option (LabeledTree (List UInt8))
  | .blob bytes => some (.leaf bytes)
  | .fork labels edge =>
    let children := labels.filterMap fun l => (materializeEdge (edge l)).map (l, ·)
    if children.isEmpty then none else some (.subTree (FlatMap.fromKeyValues children))

/-- `materialize` of the subtree at a label, if any. -/
def materializeEdge : Option LazyTree → Option (LabeledTree (List UInt8))
  | none => none
  | some t => materialize t
end

mutual
/-- `materialize_partial`: the paths of the tree that extend the paths of the pattern. -/
def materializePartial : LazyTree → LabeledTree Unit → Option (LabeledTree (List UInt8))
  | t, .leaf () => t.materialize
  | .blob _, .subTree _ => none
  | .fork _ edge, .subTree children =>
    let subtrees := materializeChildren edge children
    if subtrees.isEmpty then none else some (.subTree (FlatMap.fromKeyValues subtrees))

/-- The `filter_map` of `materialize_partial` over the children of a pattern. -/
def materializeChildren (edge : Label → Option LazyTree) :
    List (Label × LabeledTree Unit) → List (Label × LabeledTree (List UInt8))
  | [] => []
  | (label, pattern) :: children =>
    match (edge label).bind fun t => t.materializePartial pattern with
    | some t => (label, t) :: materializeChildren edge children
    | none => materializeChildren edge children
end

theorem mem_materializeChildren {edge : Label → Option LazyTree} {label : Label}
    {r : LabeledTree (List UInt8)} :
    ∀ {children : List (Label × LabeledTree Unit)}, (label, r) ∈ materializeChildren edge children →
      ∃ pattern t, (label, pattern) ∈ children ∧ edge label = some t ∧
        t.materializePartial pattern = some r
  | [], h => by simp [materializeChildren] at h
  | (l, pattern) :: children, h => by
    rw [materializeChildren] at h
    split at h
    · rename_i t' ht'
      rcases List.mem_cons.mp h with h | h
      · obtain ⟨rfl, rfl⟩ := Prod.mk.inj h
        obtain ⟨t, hedge, ht⟩ := Option.bind_eq_some_iff.mp ht'
        exact ⟨pattern, t, List.mem_cons_self, hedge, ht⟩
      · obtain ⟨p, t, hp, hedge, ht⟩ := mem_materializeChildren h
        exact ⟨p, t, List.mem_cons_of_mem _ hp, hedge, ht⟩
    · obtain ⟨p, t, hp, hedge, ht⟩ := mem_materializeChildren h
      exact ⟨p, t, List.mem_cons_of_mem _ hp, hedge, ht⟩

theorem materializePartial_prefix : ∀ {pattern : LabeledTree Unit} {t : LazyTree}
    {r : LabeledTree (List UInt8)}, t.materializePartial pattern = some r →
    ∀ q ∈ r.leafPaths, ∃ p ∈ pattern.leafPaths, p <+: q
  | .leaf (), _, _, _ => fun _ _ => ⟨[], by simp, List.nil_prefix⟩
  | .subTree _, .blob _, _, h => by simp [materializePartial] at h
  | .subTree children, .fork _ edge, r, h => by
    rw [materializePartial] at h
    split_ifs at h
    cases h
    intro q hq
    obtain ⟨l, c, q', hlc, hq', rfl⟩ := LabeledTree.mem_leafPaths_subTree.mp hq
    obtain ⟨pattern, t, hlp, -, hpat⟩ := mem_materializeChildren (FlatMap.mem_fromKeyValues hlc)
    -- the child's leaf path extends one of the child pattern, by recursion on the pattern
    obtain ⟨p', hp', hpre⟩ := materializePartial_prefix hpat q' hq'
    exact ⟨l :: p', LabeledTree.mem_leafPaths_subTree.mpr ⟨l, pattern, p', hlp, hp', rfl⟩,
      List.cons_prefix_cons.mpr ⟨rfl, hpre⟩⟩
termination_by pattern => pattern
decreasing_by
  have := List.sizeOf_lt_of_mem hlp
  simp only [Prod.mk.sizeOf_spec] at this
  simp only [LabeledTree.subTree.sizeOf_spec]
  omega

end LazyTree

/-! ## Forks -/

open LazyTree

/-- `FiniteMap`: subtrees by label, for forks whose labels are known in advance. -/
abbrev FiniteMap := SortedMap Label LazyTree

namespace FiniteMap

/-- `FiniteMap::with` and `FiniteMap::with_tree` alike: the subtree at a label. -/
def withTree (m : FiniteMap) (label : Label) (tree : LazyTree) : FiniteMap :=
  m.insert label tree

/-- `FiniteMap::with_tree_if`: the subtree at a label, if the condition holds. -/
def withTreeIf (m : FiniteMap) (condition : Bool) (label : Label) (tree : LazyTree) : FiniteMap :=
  if condition then m.insert label tree else m

/-- `fork(FiniteMap)`: the labels of the map, and their subtrees. -/
def toFork (m : FiniteMap) : LazyTree := .fork m.keys m.get?

/-- Every subtree of the map is well formed. -/
def AllWellFormed (m : FiniteMap) : Prop := ∀ l t, m.get? l = some t → WellFormed t

theorem allWellFormed_empty : AllWellFormed SortedMap.empty := by
  intro l t h
  simp [SortedMap.get?, SortedMap.empty] at h

theorem AllWellFormed.withTree {m : FiniteMap} (hm : AllWellFormed m) {label : Label}
    {tree : LazyTree} (ht : WellFormed tree) : AllWellFormed (m.withTree label tree) := by
  intro l t h
  rw [FiniteMap.withTree, SortedMap.get?_insert] at h
  split_ifs at h
  · exact Option.some.inj h ▸ ht
  · exact hm l t h

theorem AllWellFormed.withTreeIf {m : FiniteMap} (hm : AllWellFormed m) (condition : Bool)
    {label : Label} {tree : LazyTree} (ht : WellFormed tree) :
    AllWellFormed (m.withTreeIf condition label tree) := by
  unfold FiniteMap.withTreeIf
  split_ifs
  · exact hm.withTree ht
  · exact hm

theorem wellFormed_toFork {m : FiniteMap} (h : AllWellFormed m) : WellFormed (toFork m) :=
  WellFormed.fork m.keys_sorted (fun _ => m.mem_keys_iff.symm) h

end FiniteMap

/-- `LabelLike`: a partial conversion between keys and labels. -/
class LabelLike (κ : Type) where
  toLabel : κ → Label
  fromLabel : Label → Option κ

/-- A `LabelLike` conversion whose partial inverse reads back a key from its label only. -/
class LawfulLabelLike (κ : Type) [LabelLike κ] : Prop where
  fromLabel_toLabel : ∀ k : κ, LabelLike.fromLabel (LabelLike.toLabel k) = some k
  toLabel_of_fromLabel : ∀ (l : Label) (k : κ), LabelLike.fromLabel l = some k →
    LabelLike.toLabel k = l

section MapTransformFork

variable {κ ν : Type} [LinearOrder κ] [LabelLike κ]

/-- `MapTransformFork`: at the label of each key of a map, the tree of its entry. -/
def mapTransformFork (map : SortedMap κ ν) (mkTree : κ → ν → LazyTree) : LazyTree :=
  .fork (map.keys.map LabelLike.toLabel) fun l =>
    (LabelLike.fromLabel l).bind fun k => (map.get? k).map (mkTree k)

theorem isSome_edge_mapTransformFork [LawfulLabelLike κ] (map : SortedMap κ ν)
    (mkTree : κ → ν → LazyTree) (l : Label) :
    ((LabelLike.fromLabel l).bind fun k => (map.get? k).map (mkTree k)).isSome ↔
      l ∈ map.keys.map LabelLike.toLabel := by
  rw [List.mem_map]
  constructor
  · intro h
    obtain ⟨t, ht⟩ := Option.isSome_iff_exists.mp h
    obtain ⟨k, hk, hmap⟩ := Option.bind_eq_some_iff.mp ht
    obtain ⟨v, hv, -⟩ := Option.map_eq_some_iff.mp hmap
    exact ⟨k, map.mem_keys_iff.mpr (by simp [hv]),
      LawfulLabelLike.toLabel_of_fromLabel l k hk⟩
  · rintro ⟨k, hk, rfl⟩
    obtain ⟨v, hv⟩ := Option.isSome_iff_exists.mp (map.mem_keys_iff.mp hk)
    simp [LawfulLabelLike.fromLabel_toLabel, hv]

theorem wellFormed_mapTransformFork [LawfulLabelLike κ] {map : SortedMap κ ν}
    {mkTree : κ → ν → LazyTree}
    (hmono : ∀ a ∈ map.keys, ∀ b ∈ map.keys, a < b →
      LabelLike.toLabel a < LabelLike.toLabel b)
    (htrees : ∀ k v, map.get? k = some v → WellFormed (mkTree k v)) :
    WellFormed (mapTransformFork map mkTree) := by
  refine WellFormed.fork ?_ (isSome_edge_mapTransformFork map mkTree) ?_
  · exact List.pairwise_map.mpr (map.keys_sorted.imp_of_mem fun ha hb hab => hmono _ ha _ hb hab)
  · intro l t ht
    obtain ⟨k, -, hmap⟩ := Option.bind_eq_some_iff.mp ht
    obtain ⟨v, hv, rfl⟩ := Option.map_eq_some_iff.mp hmap
    exact htrees k v hv

end MapTransformFork

end IC.CanonicalState
