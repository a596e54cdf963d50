import Mathlib
import InternetComputer.Lib.Bytes
import InternetComputer.Lib.Rust

/-!
# Labeled trees

`LabeledTree` of `ic-crypto-tree-hash`: leaves carry values and inner nodes map strictly
increasing labels to subtrees. `sparse_labeled_tree_from_paths` turns sorted paths into the tree
of those paths, a walk stopped at a leaf.

* `childInduction`, induction over the children of every subtree; `leafPaths`, `lookupPath`;
* `insertPath_leafPaths`, `insertPath_subTree`: the walk of one path;
* **`mem_leafPaths_sparseLabeledTreeFromPaths`**: once some path is not empty, every leaf path of
  the sparse tree is one of the paths.
-/

namespace IC.TreeHash

/-- `Label`: a byte string; labels compare as byte strings. -/
abbrev Label := List UInt8

/-- `Path`: a sequence of labels, compared lexicographically. -/
abbrev Path := List Label

/-- The label of an ASCII text, as the source writes `Label::from("time")`. -/
def Label.ofString (s : String) : Label := s.toList.map Char.toUInt8

example : Label.ofString "time" = [116, 105, 109, 101] := by decide

/-- `LabeledTree`: a leaf with a value, or a node whose children are listed by label. -/
inductive LabeledTree (α : Type) where
  | leaf (value : α)
  | subTree (children : List (Label × LabeledTree α))
  deriving Repr

/-! ## The children of a node

The children of a node are a `FlatMap`: keys in strictly increasing order. Its lookup is a
binary search; over distinct keys it finds the entry that `List.lookup` finds. -/

namespace FlatMap

variable {β : Type}

/-- `FlatMap::contains_key`. -/
def containsKey (m : List (Label × β)) (key : Label) : Bool := (m.lookup key).isSome

/-- `FlatMap::try_append`: append an entry whose key is above the last one, or give it back. -/
def tryAppend (m : List (Label × β)) (key : Label) (value : β) : Option (List (Label × β)) :=
  match m.getLast? with
  | some (last, _) => if last < key then some (m ++ [(key, value)]) else none
  | none => some [(key, value)]

/-- Writing through `FlatMap::get_mut`: the entry of `key` gets `value`. -/
def set (m : List (Label × β)) (key : Label) (value : β) : List (Label × β) :=
  m.map fun e => if e.1 = key then (key, value) else e

/-- `FlatMap::split_off`: the entries before `key`, and those from it on. -/
def splitOff (m : List (Label × β)) (key : Label) : List (Label × β) × List (Label × β) :=
  let idx := m.countP fun e => e.1 < key
  (m.take idx, m.drop idx)

/-- `FlatMap::from_key_values`: the pairs sorted by key, stably, the first of each key. -/
def fromKeyValues (kv : List (Label × β)) : List (Label × β) :=
  (kv.insertionSort fun a b => a.1 ≤ b.1).foldl
    (fun m e => match tryAppend m e.1 e.2 with
      | some m' => m'
      | none => m) []

theorem mem_of_lookup_eq_some {m : List (Label × β)} {key : Label} {v : β}
    (h : m.lookup key = some v) : (key, v) ∈ m := by
  induction m with
  | nil => simp at h
  | cons e m ih =>
    obtain ⟨k, w⟩ := e
    by_cases hk : key = k
    · subst hk
      simp only [List.lookup_cons, beq_self_eq_true, Option.some.injEq] at h
      exact h ▸ List.mem_cons_self
    · have hb : (key == k) = false := by simpa using hk
      simp only [List.lookup_cons, hb] at h
      exact List.mem_cons_of_mem _ (ih h)

theorem tryAppend_eq_some {m m' : List (Label × β)} {key : Label} {value : β}
    (h : tryAppend m key value = some m') : m' = m ++ [(key, value)] := by
  unfold tryAppend at h
  split at h
  · split_ifs at h
    exact (Option.some.inj h).symm
  · rename_i hlast
    rw [List.getLast?_eq_none_iff] at hlast
    subst hlast
    exact (Option.some.inj h).symm

theorem mem_foldl_tryAppend {s : List (Label × β)} :
    ∀ (kv m : List (Label × β)), (∀ e ∈ m, e ∈ s) → (∀ e ∈ kv, e ∈ s) →
      ∀ e ∈ kv.foldl (fun m e => match tryAppend m e.1 e.2 with
        | some m' => m'
        | none => m) m, e ∈ s
  | [], m, hm, _ => hm
  | e :: kv, m, hm, hkv => by
    rw [List.foldl_cons]
    refine mem_foldl_tryAppend kv _ ?_ (fun x hx => hkv x (List.mem_cons_of_mem _ hx))
    split
    · rename_i m' hm'
      rw [tryAppend_eq_some hm']
      intro x hx
      rcases List.mem_append.mp hx with hx | hx
      · exact hm x hx
      · rw [List.mem_singleton.mp hx]
        exact hkv e List.mem_cons_self
    · exact hm

theorem mem_fromKeyValues {kv : List (Label × β)} {e : Label × β} (h : e ∈ fromKeyValues kv) :
    e ∈ kv :=
  (List.perm_insertionSort _ kv).mem_iff.mp
    (mem_foldl_tryAppend _ [] (fun _ hx => absurd hx List.not_mem_nil) (fun _ hx => hx) e h)

theorem mem_set {m : List (Label × β)} {key : Label} {value : β} {e : Label × β}
    (h : e ∈ set m key value) : e = (key, value) ∨ (e ∈ m ∧ e.1 ≠ key) := by
  obtain ⟨e', he', rfl⟩ := List.mem_map.mp h
  split_ifs with hk
  · exact Or.inl rfl
  · exact Or.inr ⟨he', hk⟩

theorem mem_keys_set {m : List (Label × β)} {key k : Label} {value : β}
    (h : k ∈ m.map Prod.fst) : k ∈ (set m key value).map Prod.fst := by
  obtain ⟨e, he, rfl⟩ := List.mem_map.mp h
  refine List.mem_map.mpr ⟨if e.1 = key then (key, value) else e, List.mem_map_of_mem he, ?_⟩
  split_ifs with hk
  · exact hk.symm
  · rfl

theorem key_mem_set {m : List (Label × β)} {key : Label} {value v : β}
    (h : (key, v) ∈ m) : key ∈ (set m key value).map Prod.fst :=
  mem_keys_set (List.mem_map_of_mem (f := Prod.fst) h)

end FlatMap

/-! ## Leaf paths -/

variable {α : Type}

mutual
/-- The paths from the root to the leaves. -/
def LabeledTree.leafPaths : LabeledTree α → List Path
  | .leaf _ => [[]]
  | .subTree children => LabeledTree.childrenLeafPaths children

/-- The leaf paths below a list of children, each behind its label. -/
def LabeledTree.childrenLeafPaths : List (Label × LabeledTree α) → List Path
  | [] => []
  | (l, t) :: children => t.leafPaths.map (l :: ·) ++ LabeledTree.childrenLeafPaths children
end

namespace LabeledTree

mutual
theorem childInduction {P : LabeledTree α → Prop} (leaf : ∀ v, P (.leaf v))
    (subTree : ∀ children, (∀ c ∈ children, P c.2) → P (.subTree children)) : ∀ t, P t
  | .leaf v => leaf v
  | .subTree children => subTree children (childInduction_children leaf subTree children)

theorem childInduction_children {P : LabeledTree α → Prop} (leaf : ∀ v, P (.leaf v))
    (subTree : ∀ children, (∀ c ∈ children, P c.2) → P (.subTree children)) :
    ∀ children : List (Label × LabeledTree α), ∀ c ∈ children, P c.2
  | [], _, h => absurd h List.not_mem_nil
  | (_, t) :: children, c, h => by
    rcases List.mem_cons.mp h with rfl | h
    · exact childInduction leaf subTree t
    · exact childInduction_children leaf subTree children c h
end

theorem mem_childrenLeafPaths {children : List (Label × LabeledTree α)} {p : Path} :
    p ∈ childrenLeafPaths children ↔ ∃ l t q, (l, t) ∈ children ∧ q ∈ t.leafPaths ∧ p = l :: q := by
  induction children with
  | nil => simp [childrenLeafPaths]
  | cons c children ih =>
    obtain ⟨l, t⟩ := c
    simp only [childrenLeafPaths, List.mem_append, List.mem_map, ih, List.mem_cons,
      Prod.mk.injEq]
    constructor
    · rintro (⟨q, hq, rfl⟩ | ⟨l', t', q, hmem, hq, rfl⟩)
      · exact ⟨l, t, q, Or.inl ⟨rfl, rfl⟩, hq, rfl⟩
      · exact ⟨l', t', q, Or.inr hmem, hq, rfl⟩
    · rintro ⟨l', t', q, ⟨rfl, rfl⟩ | hmem, hq, rfl⟩
      · exact Or.inl ⟨q, hq, rfl⟩
      · exact Or.inr ⟨l', t', q, hmem, hq, rfl⟩

theorem mem_leafPaths_subTree {children : List (Label × LabeledTree α)} {p : Path} :
    p ∈ (subTree children).leafPaths ↔
      ∃ l t q, (l, t) ∈ children ∧ q ∈ t.leafPaths ∧ p = l :: q := by
  rw [leafPaths]
  exact mem_childrenLeafPaths

@[simp]
theorem leafPaths_leaf (a : α) : (leaf a).leafPaths = [[]] := by
  rw [leafPaths]

@[simp]
theorem leafPaths_subTree_nil : (subTree [] : LabeledTree α).leafPaths = [] := by
  rw [leafPaths, childrenLeafPaths]

/-- `root == LabeledTree::SubTree(FlatMap::new())`. -/
def isEmptySubTree : LabeledTree α → Bool
  | .subTree [] => true
  | _ => false

/-- `lookup_path`: the subtree at a path, each label looked up among the children. -/
def lookupPath : LabeledTree α → Path → Option (LabeledTree α)
  | t, [] => some t
  | .leaf _, _ :: _ => none
  | .subTree children, label :: path => (children.lookup label).bind fun t => lookupPath t path

end LabeledTree

/-! ## The sparse tree of a list of paths -/

open LabeledTree

/-- The first step of a walk at a node: the label appended when missing. -/
def appendLabel (m : List (Label × LabeledTree Unit)) (label : Label) (last : Bool) :
    Except String (List (Label × LabeledTree Unit)) :=
  if FlatMap.containsKey m label then pure m
  else Rust.expect (FlatMap.tryAppend m label (if last then .leaf () else .subTree []))
    "Could not append label to map"

/-- The walk of one path in `sparse_labeled_tree_from_paths`: it stops at a leaf, and otherwise
appends the label if missing and goes on into its child. -/
def insertPath : LabeledTree Unit → Path → Except String (LabeledTree Unit)
  | .leaf (), _ => pure (.leaf ())
  | .subTree m, [] => pure (.subTree m)
  | .subTree m, label :: rest => do
    let m ← appendLabel m label rest.isEmpty
    let child ← Rust.expect (m.lookup label) "Could not get label from map"
    let child ← insertPath child rest
    pure (.subTree (FlatMap.set m label child))

/-- `sparse_labeled_tree_from_paths`: the paths sorted, by `List.insertionSort`, and walked into
the tree one after the other; a tree left empty is a leaf. -/
def sparseLabeledTreeFromPaths (paths : List Path) : Except String (LabeledTree Unit) := do
  let root ← (paths.insertionSort (· ≤ ·)).foldlM insertPath (.subTree [])
  pure (if root.isEmptySubTree then .leaf () else root)

example :
    (sparseLabeledTreeFromPaths [[[1], [2]], [[1], [3]], [[1], [2], [4]]]).toOption.map
      leafPaths = some [[[1], [2]], [[1], [3]]] := by decide

theorem appendLabel_eq_ok {m m₁ : List (Label × LabeledTree Unit)} {label : Label} {rest : Path}
    (h : appendLabel m label rest.isEmpty = .ok m₁) :
    ∀ e ∈ m₁, e ∈ m ∨ (e.1 = label ∧ ∀ q ∈ e.2.leafPaths, q = rest) := by
  intro e he
  unfold appendLabel at h
  by_cases hc : FlatMap.containsKey m label = true
  · rw [if_pos hc, Except.pure_eq_ok] at h
    exact Or.inl (h ▸ he)
  · rw [if_neg hc, Rust.expect_eq_ok] at h
    rw [FlatMap.tryAppend_eq_some h, List.mem_append, List.mem_singleton] at he
    rcases he with he | rfl
    · exact Or.inl he
    · refine Or.inr ⟨rfl, fun q hq => ?_⟩
      by_cases hrest : rest.isEmpty = true
      · rw [if_pos hrest, leafPaths_leaf, List.mem_singleton] at hq
        rw [hq, List.isEmpty_iff.mp hrest]
      · rw [if_neg hrest, leafPaths_subTree_nil] at hq
        exact absurd hq List.not_mem_nil

theorem appendLabel_keys {m m₁ : List (Label × LabeledTree Unit)} {label : Label} {last : Bool}
    (h : appendLabel m label last = .ok m₁) : ∀ k ∈ m.map Prod.fst, k ∈ m₁.map Prod.fst := by
  intro k hk
  unfold appendLabel at h
  by_cases hc : FlatMap.containsKey m label = true
  · rw [if_pos hc, Except.pure_eq_ok] at h
    exact h ▸ hk
  · rw [if_neg hc, Rust.expect_eq_ok] at h
    rw [FlatMap.tryAppend_eq_some h, List.map_append]
    exact List.mem_append_left _ hk

theorem insertPath_leafPaths : ∀ {t t' : LabeledTree Unit} {p : Path}, insertPath t p = .ok t' →
    ∀ q ∈ t'.leafPaths, q ∈ t.leafPaths ∨ q = p
  | .leaf (), t', p, h => by
    rw [insertPath, Except.pure_eq_ok] at h
    subst h
    exact fun q hq => Or.inl hq
  | .subTree m, t', [], h => by
    rw [insertPath, Except.pure_eq_ok] at h
    subst h
    exact fun q hq => Or.inl hq
  | .subTree m, t', label :: rest, h => by
    rw [insertPath] at h
    obtain ⟨m₁, hm₁, h⟩ := Except.bind_eq_ok.mp h
    obtain ⟨child, hchild, h⟩ := Except.bind_eq_ok.mp h
    obtain ⟨child', hchild', h⟩ := Except.bind_eq_ok.mp h
    rw [Except.pure_eq_ok] at h
    subst h
    have hentries := appendLabel_eq_ok hm₁
    have hmem := FlatMap.mem_of_lookup_eq_some (Rust.expect_eq_ok.mp hchild)
    intro q hq
    obtain ⟨l, c, r, hlc, hr, rfl⟩ := mem_leafPaths_subTree.mp hq
    rcases FlatMap.mem_set hlc with hlc | ⟨hlc, hl⟩
    · -- the child of the walk: its old leaf paths, or the rest of the path
      obtain ⟨rfl, rfl⟩ := Prod.mk.inj hlc
      rcases insertPath_leafPaths hchild' r hr with hr | rfl
      · rcases hentries _ hmem with hold | ⟨-, hnew⟩
        · exact Or.inl (mem_leafPaths_subTree.mpr ⟨l, child, r, hold, hr, rfl⟩)
        · exact Or.inr (by rw [hnew r hr])
      · exact Or.inr rfl
    · rcases hentries _ hlc with hold | ⟨hkey, -⟩
      · exact Or.inl (mem_leafPaths_subTree.mpr ⟨l, c, r, hold, hr, rfl⟩)
      · exact absurd hkey hl

theorem insertPath_subTree {m : List (Label × LabeledTree Unit)} {t' : LabeledTree Unit}
    {p : Path} (h : insertPath (.subTree m) p = .ok t') :
    ∃ m', t' = .subTree m' ∧ (∀ k ∈ m.map Prod.fst, k ∈ m'.map Prod.fst) ∧
      ∀ label rest, p = label :: rest → label ∈ m'.map Prod.fst := by
  cases p with
  | nil =>
    rw [insertPath, Except.pure_eq_ok] at h
    exact ⟨m, h.symm, fun k hk => hk, fun _ _ h => nomatch h⟩
  | cons label rest =>
    rw [insertPath] at h
    obtain ⟨m₁, hm₁, h⟩ := Except.bind_eq_ok.mp h
    obtain ⟨child, hchild, h⟩ := Except.bind_eq_ok.mp h
    obtain ⟨child', -, h⟩ := Except.bind_eq_ok.mp h
    rw [Except.pure_eq_ok] at h
    have hmem := FlatMap.mem_of_lookup_eq_some (Rust.expect_eq_ok.mp hchild)
    refine ⟨_, h.symm, fun k hk => FlatMap.mem_keys_set (appendLabel_keys hm₁ k hk), ?_⟩
    rintro l r ⟨rfl, rfl⟩
    exact FlatMap.key_mem_set hmem

theorem foldlM_insertPath : ∀ (paths : List Path) {m : List (Label × LabeledTree Unit)}
    {t : LabeledTree Unit}, paths.foldlM insertPath (.subTree m) = .ok t →
    ∃ m', t = .subTree m' ∧ (∀ q ∈ t.leafPaths, q ∈ (subTree m).leafPaths ∨ q ∈ paths) ∧
      ((m ≠ [] ∨ ∃ p ∈ paths, p ≠ []) → m' ≠ [])
  | [], m, t, h => by
    rw [List.foldlM_nil, Except.pure_eq_ok] at h
    subst h
    refine ⟨m, rfl, fun q hq => Or.inl hq, ?_⟩
    rintro (hm | ⟨p, hp, -⟩)
    · exact hm
    · simp at hp
  | p :: paths, m, t, h => by
    rw [List.foldlM_cons] at h
    obtain ⟨t₁, ht₁, h⟩ := Except.bind_eq_ok.mp h
    obtain ⟨m₁, rfl, hkeys, hfirst⟩ := insertPath_subTree ht₁
    obtain ⟨m', rfl, hleaves, hne⟩ := foldlM_insertPath paths h
    refine ⟨m', rfl, fun q hq => ?_, fun hpaths => hne ?_⟩
    · rcases hleaves q hq with hq | hq
      · rcases insertPath_leafPaths ht₁ q hq with hq | rfl
        · exact Or.inl hq
        · exact Or.inr List.mem_cons_self
      · exact Or.inr (List.mem_cons_of_mem _ hq)
    · -- the node has a child: one it had, or the first label of a path
      have hne_nil : ∀ {k : Label}, k ∈ m₁.map Prod.fst → m₁ ≠ [] := by
        rintro k hk rfl
        simp at hk
      rcases hpaths with hm | ⟨p', hp', hp'ne⟩
      · obtain ⟨e, he⟩ := List.exists_mem_of_ne_nil m hm
        exact Or.inl (hne_nil (hkeys e.1 (List.mem_map_of_mem he)))
      · rcases List.mem_cons.mp hp' with rfl | hp'
        · obtain ⟨label, rest, rfl⟩ := List.exists_cons_of_ne_nil hp'ne
          exact Or.inl (hne_nil (hfirst label rest rfl))
        · exact Or.inr ⟨p', hp', hp'ne⟩

theorem isEmptySubTree_subTree {m : List (Label × LabeledTree Unit)} (hm : m ≠ []) :
    (subTree m).isEmptySubTree = false := by
  cases m with
  | nil => exact absurd rfl hm
  | cons e m => rfl

theorem mem_leafPaths_sparseLabeledTreeFromPaths {paths : List Path} {t : LabeledTree Unit}
    (h : sparseLabeledTreeFromPaths paths = .ok t) (hne : ∃ p ∈ paths, p ≠ []) :
    ∀ q ∈ t.leafPaths, q ∈ paths := by
  have hperm := List.perm_insertionSort (· ≤ ·) paths
  unfold sparseLabeledTreeFromPaths at h
  obtain ⟨root, hroot, h⟩ := Except.bind_eq_ok.mp h
  rw [Except.pure_eq_ok] at h
  obtain ⟨m', rfl, hleaves, hm'⟩ := foldlM_insertPath _ hroot
  -- the root has a child, so it is not replaced by a leaf
  have hm'ne : m' ≠ [] := by
    obtain ⟨p, hp, hpne⟩ := hne
    exact hm' (Or.inr ⟨p, hperm.mem_iff.mpr hp, hpne⟩)
  rw [isEmptySubTree_subTree hm'ne] at h
  subst h
  intro q hq
  rcases hleaves q hq with hq | hq
  · simp at hq
  · exact hperm.mem_iff.mp hq

end IC.TreeHash
