import InternetComputer.TreeHash.MixedHashTree

/-!
# Hash trees and their builder

`HashTree` of `ic-crypto-tree-hash`: the labeled tree with a digest at every node, each `SubTree`
turned into forks paired left to right. `HashTreeBuilderImpl` builds it from a stream of calls
that walks a tree.

* `intoHashTree`; `HashTreeBuilderImpl`, `BuilderOp`, `run`, `buildOps`;
* **`run_buildOps`**: over a tree whose labels increase, the builder makes `hashTreeOf`.
-/

namespace IC.TreeHash

/-- `HashTree`, with digests of type `D`. -/
inductive HashTree (D : Type) where
  | leaf (digest : D)
  | fork (digest : D) (leftTree rightTree : HashTree D)
  | node (digest : D) (label : Label) (hashTree : HashTree D)
  deriving DecidableEq

variable {D : Type}

/-- `HashTree::digest`. -/
def HashTree.digest : HashTree D → D
  | .leaf digest | .fork digest _ _ | .node digest _ _ => digest

section Build

variable (H : HashFns D)

/-- `into_hash_node`. -/
def intoHashNode (label : Label) (hashTree : HashTree D) : HashTree D :=
  .node (H.computeNodeDigest label hashTree.digest) label hashTree

/-- `into_fork`. -/
def intoFork (leftTree rightTree : HashTree D) : HashTree D :=
  .fork (H.computeForkDigest leftTree.digest rightTree.digest) leftTree rightTree

/-- One pass of `into_hash_tree`: trees paired into forks, a last odd one carried over. -/
def pairTrees : List (HashTree D) → List (HashTree D)
  | l :: r :: ts => intoFork H l r :: pairTrees ts
  | ts => ts

theorem length_pairTrees : ∀ ts : List (HashTree D), (pairTrees H ts).length = (ts.length + 1) / 2
  | l :: r :: ts => by
    have := length_pairTrees ts
    simp only [pairTrees, List.length_cons] at this ⊢
    omega
  | [] => by simp [pairTrees]
  | [_] => by simp [pairTrees]

/-- The loop of `into_hash_tree` over the passes, until one tree is left. -/
def combineTrees (ts : List (HashTree D)) (hts : ts ≠ []) : HashTree D :=
  if hone : ts.length = 1 then ts.head hts
  else
    have hlen := length_pairTrees H ts
    combineTrees (pairTrees H ts) (List.ne_nil_of_length_pos (by
      have := List.length_pos_of_ne_nil hts
      omega))
termination_by ts.length
decreasing_by
  have := List.length_pos_of_ne_nil hts
  omega

/-- `into_hash_tree`: the forks over the trees, or the leaf of the empty subtree's digest. -/
def intoHashTree (ts : List (HashTree D)) : HashTree D :=
  if hts : ts = [] then .leaf H.emptySubtreeHash else combineTrees H ts hts

end Build

/-! ## The builder -/

/-- `ActiveNode`: a node under construction with the label above it. -/
inductive ActiveNode (D : Type) where
  | leaf (hasher : List UInt8) (label : Label)
  | subTree (children : List (Label × LabeledTree D)) (label : Label)
      (hashNodes : List (Label × HashTree D))
  | undefined (label : Label)

/-- `HashTreeBuilderImpl`, its path of nodes innermost first. -/
structure HashTreeBuilderImpl (D : Type) where
  labeledTree : Option (LabeledTree D)
  hashTree : Option (HashTree D)
  currPath : List (ActiveNode D)

/-- `WitnessGeneratorImpl`. -/
structure WitnessGeneratorImpl (D : Type) where
  origTree : LabeledTree D
  hashTree : HashTree D

/-- The calls of `HashTreeBuilder`. -/
inductive BuilderOp where
  | startLeaf
  | writeLeaf (bytes : List UInt8)
  | finishLeaf
  | startSubtree
  | newEdge (edgeLabel : Label)
  | finishSubtree

namespace HashTreeBuilderImpl

variable (H : HashFns D)

/-- `HashTreeBuilderImpl::new`. -/
def new : HashTreeBuilderImpl D := ⟨none, none, [.undefined (Label.ofString "ROOT")]⟩

/-- A finished node: the result at the root, or one more child of the subtree below. -/
def finishNode (b : HashTreeBuilderImpl D) (path : List (ActiveNode D)) (childLabel : Label)
    (labeledTree : LabeledTree D) (hashTree : HashTree D) :
    Except String (HashTreeBuilderImpl D) :=
  match path with
  | [] => pure { b with labeledTree := some labeledTree, hashTree := some hashTree, currPath := [] }
  | .subTree children label hashNodes :: path =>
    let hashNode := intoHashNode H childLabel hashTree
    let node := ActiveNode.subTree (children ++ [(childLabel, labeledTree)]) label
      (hashNodes ++ [(childLabel, hashNode)])
    pure { b with currPath := node :: path }
  | _ :: _ => .error "Invalid state, expected SubTree-node."

/-- `HashTreeBuilder::start_leaf`. -/
def startLeaf (b : HashTreeBuilderImpl D) : Except String (HashTreeBuilderImpl D) :=
  match b.currPath with
  | [] => .error "Construction completed."
  | .undefined label :: path => pure { b with currPath := .leaf [] label :: path }
  | _ :: _ => .error "Invalid operation, expected Undefined-node."

/-- `HashTreeBuilder::write_leaf`. -/
def writeLeaf (b : HashTreeBuilderImpl D) (bytes : List UInt8) :
    Except String (HashTreeBuilderImpl D) :=
  match b.currPath with
  | [] => .error "Construction completed."
  | .leaf hasher label :: path => pure { b with currPath := .leaf (hasher ++ bytes) label :: path }
  | _ :: _ => .error "Invalid operation, expected Leaf-node."

/-- `HashTreeBuilder::finish_leaf`. -/
def finishLeaf (b : HashTreeBuilderImpl D) : Except String (HashTreeBuilderImpl D) :=
  match b.currPath with
  | [] => .error "Construction completed."
  | .leaf hasher childLabel :: path =>
    let digest := H.computeLeafDigest hasher
    finishNode H b path childLabel (.leaf digest) (.leaf digest)
  | _ :: _ => .error "Invalid operation, expected Leaf-node."

/-- `HashTreeBuilder::start_subtree`. -/
def startSubtree (b : HashTreeBuilderImpl D) : Except String (HashTreeBuilderImpl D) :=
  match b.currPath with
  | [] => .error "Construction completed."
  | .undefined label :: path => pure { b with currPath := .subTree [] label [] :: path }
  | _ :: _ => .error "Invalid operation, expected Undefined-node."

/-- `HashTreeBuilder::new_edge`. -/
def newEdge (b : HashTreeBuilderImpl D) (edgeLabel : Label) :
    Except String (HashTreeBuilderImpl D) :=
  match b.currPath with
  | [] => .error "Construction completed."
  | .subTree children label hashNodes :: path =>
    pure { b with currPath := .undefined edgeLabel :: .subTree children label hashNodes :: path }
  | _ :: _ => .error "Invalid operation, expected SubTree-node."

/-- `HashTreeBuilder::finish_subtree`. -/
def finishSubtree (b : HashTreeBuilderImpl D) : Except String (HashTreeBuilderImpl D) :=
  match b.currPath with
  | [] => .error "Construction completed."
  | .subTree finishedChildren finishedLabel finishedHashNodes :: path =>
    let finishedChildrenMap := FlatMap.fromKeyValues finishedChildren
    let hashTrees := (FlatMap.fromKeyValues finishedHashNodes).map Prod.snd
    finishNode H b path finishedLabel (.subTree finishedChildrenMap) (intoHashTree H hashTrees)
  | _ :: _ => .error "Invalid operation, expected SubTree-node."

/-- One call. -/
def step (b : HashTreeBuilderImpl D) : BuilderOp → Except String (HashTreeBuilderImpl D)
  | .startLeaf => startLeaf b
  | .writeLeaf bytes => writeLeaf b bytes
  | .finishLeaf => finishLeaf H b
  | .startSubtree => startSubtree b
  | .newEdge edgeLabel => newEdge b edgeLabel
  | .finishSubtree => finishSubtree H b

/-- A stream of calls, stopped by the first panic. -/
def run (b : HashTreeBuilderImpl D) (ops : List BuilderOp) : Except String (HashTreeBuilderImpl D) :=
  ops.foldlM (step H) b

/-- `HashTreeBuilder::witness_generator`. -/
def witnessGenerator (b : HashTreeBuilderImpl D) : Option (WitnessGeneratorImpl D) :=
  match b.labeledTree, b.hashTree with
  | some origTree, some hashTree => some ⟨origTree, hashTree⟩
  | _, _ => none

end HashTreeBuilderImpl

mutual
/-- The calls that build a labeled tree: a leaf written at once, a subtree edge by edge. -/
def buildOps : LabeledTree (List UInt8) → List BuilderOp
  | .leaf bytes => [.startLeaf, .writeLeaf bytes, .finishLeaf]
  | .subTree children => .startSubtree :: buildChildrenOps children ++ [.finishSubtree]

/-- The calls of the children of a subtree. -/
def buildChildrenOps : List (Label × LabeledTree (List UInt8)) → List BuilderOp
  | [] => []
  | (label, t) :: children => .newEdge label :: buildOps t ++ buildChildrenOps children
end

/-! ## What the builder makes of a labeled tree -/

section Spec

variable (H : HashFns D)

mutual
/-- The labeled tree of the leaves' digests. -/
def digestTree : LabeledTree (List UInt8) → LabeledTree D
  | .leaf bytes => .leaf (H.computeLeafDigest bytes)
  | .subTree children => .subTree (digestChildren children)

def digestChildren : List (Label × LabeledTree (List UInt8)) → List (Label × LabeledTree D)
  | [] => []
  | (label, t) :: children => (label, digestTree t) :: digestChildren children
end

mutual
/-- The hash tree of a labeled tree. -/
def hashTreeOf : LabeledTree (List UInt8) → HashTree D
  | .leaf bytes => .leaf (H.computeLeafDigest bytes)
  | .subTree children => intoHashTree H ((hashNodes children).map Prod.snd)

/-- The labeled nodes of the children, each the node over the child's hash tree. -/
def hashNodes : List (Label × LabeledTree (List UInt8)) → List (Label × HashTree D)
  | [] => []
  | (label, t) :: children => (label, intoHashNode H label (hashTreeOf t)) :: hashNodes children
end

end Spec

/-- The labels of every `SubTree` strictly increase. -/
inductive LabeledTree.Sorted {α : Type} : LabeledTree α → Prop
  | leaf (value : α) : Sorted (.leaf value)
  | subTree {children : List (Label × LabeledTree α)} :
      MixedHashTree.SortedKeys children → (∀ c ∈ children, Sorted c.2) → Sorted (.subTree children)

namespace FlatMap

open MixedHashTree

variable {β : Type}

theorem tryAppend_of_sortedKeys {m : List (Label × β)} {key : Label} {value : β}
    (h : SortedKeys (m ++ [(key, value)])) : tryAppend m key value = some (m ++ [(key, value)]) := by
  unfold tryAppend
  split
  · next last v hlast =>
    obtain ⟨init, rfl⟩ := List.getLast?_eq_some_iff.mp hlast
    unfold SortedKeys at h
    rw [List.map_append, List.pairwise_append] at h
    rw [if_pos (h.2.2 last (by simp) key (by simp))]
  · next hlast =>
    rw [List.getLast?_eq_none_iff] at hlast
    subst hlast
    rfl

theorem foldl_tryAppend_of_sortedKeys : ∀ (kv : List (Label × β)) {acc : List (Label × β)},
    SortedKeys (acc ++ kv) →
    kv.foldl (fun m e => match tryAppend m e.1 e.2 with
      | some m' => m'
      | none => m) acc = acc ++ kv
  | [], acc, _ => by simp
  | (key, value) :: kv, acc, h => by
    have hfirst : SortedKeys (acc ++ [(key, value)]) := by
      unfold SortedKeys at h ⊢
      rw [← List.singleton_append, ← List.append_assoc, List.map_append] at h
      exact (List.pairwise_append.mp h).1
    rw [List.foldl_cons, tryAppend_of_sortedKeys hfirst,
      foldl_tryAppend_of_sortedKeys kv (by rwa [List.append_assoc, List.singleton_append]),
      List.append_assoc, List.singleton_append]

/-- **`from_key_values` keeps a list of increasing keys as it is.** -/
theorem fromKeyValues_of_sortedKeys {kv : List (Label × β)} (h : SortedKeys kv) :
    fromKeyValues kv = kv := by
  have hle : kv.Pairwise fun a b => a.1 ≤ b.1 := by
    unfold SortedKeys at h
    rw [List.pairwise_map] at h
    exact h.imp le_of_lt
  rw [fromKeyValues, hle.insertionSort_eq]
  exact foldl_tryAppend_of_sortedKeys kv (by rwa [List.nil_append])

end FlatMap

/-! ## The shape of a hash tree -/

namespace HashTree

/-- The labeled nodes of one level of a hash tree, left to right. -/
def levelNodes : HashTree D → List (Label × HashTree D)
  | .fork _ leftTree rightTree => leftTree.levelNodes ++ rightTree.levelNodes
  | .node _ label hashTree => [(label, hashTree)]
  | .leaf _ => []

/-- A fork or a node: the hash tree of a `SubTree` with children. -/
def IsLevel : HashTree D → Prop
  | .leaf _ => False
  | _ => True

/-- The digests are those the parts compute, and the labels of a level increase. -/
def Valid (H : HashFns D) : HashTree D → Prop
  | .leaf _ => True
  | .fork digest leftTree rightTree =>
    digest = H.computeForkDigest leftTree.digest rightTree.digest ∧ leftTree.IsLevel ∧
      rightTree.IsLevel ∧ (∀ a ∈ leftTree.levelNodes, ∀ b ∈ rightTree.levelNodes, a.1 < b.1) ∧
      leftTree.Valid H ∧ rightTree.Valid H
  | .node digest label hashTree =>
    digest = H.computeNodeDigest label hashTree.digest ∧ hashTree.Valid H

open MixedHashTree in
theorem sortedKeys_levelNodes {H : HashFns D} : ∀ {h : HashTree D}, h.Valid H →
    SortedKeys h.levelNodes
  | .leaf _, _ => List.Pairwise.nil
  | .node _ _ _, _ => List.pairwise_singleton _ _
  | .fork _ l r, ⟨_, _, _, hlr, hl, hr⟩ => by
    unfold SortedKeys
    rw [levelNodes, List.map_append, List.pairwise_append]
    refine ⟨sortedKeys_levelNodes hl, sortedKeys_levelNodes hr, ?_⟩
    simp only [List.mem_map]
    rintro _ ⟨a, ha, rfl⟩ _ ⟨b, hb, rfl⟩
    exact hlr a ha b hb

end HashTree

/-! ## The hash tree of a labeled tree is valid -/

section Valid

open MixedHashTree HashTree

variable {H : HashFns D}

/-- What `into_hash_tree` combines: levels, valid, whose labels increase across the list. -/
def LevelList (H : HashFns D) (ts : List (HashTree D)) : Prop :=
  (∀ x ∈ ts, x.IsLevel ∧ x.Valid H) ∧ SortedKeys (ts.flatMap levelNodes)

theorem levelList_pairTrees : ∀ {ts : List (HashTree D)}, LevelList H ts →
    LevelList H (pairTrees H ts) ∧ (pairTrees H ts).flatMap levelNodes = ts.flatMap levelNodes
  | l :: r :: ts, ⟨hts, hsorted⟩ => by
    have hsplit : SortedKeys (l.levelNodes ++ (r.levelNodes ++ ts.flatMap levelNodes)) := by
      simpa only [List.flatMap_cons] using hsorted
    unfold SortedKeys at hsplit
    rw [List.map_append, List.map_append, List.pairwise_append, List.pairwise_append] at hsplit
    obtain ⟨-, ⟨-, hrest, -⟩, hlr⟩ := hsplit
    obtain ⟨⟨hrest', -⟩, hflat⟩ :=
      levelList_pairTrees (show LevelList H ts from ⟨fun x hx => hts x (by simp [hx]), hrest⟩)
    have hfork : (intoFork H l r).IsLevel ∧ (intoFork H l r).Valid H := by
      refine ⟨trivial, rfl, (hts l (by simp)).1, (hts r (by simp)).1, ?_, (hts l (by simp)).2,
        (hts r (by simp)).2⟩
      intro a ha b hb
      exact hlr a.1 (List.mem_map_of_mem ha) b.1 (List.mem_append_left _ (List.mem_map_of_mem hb))
    have hflat' : (pairTrees H (l :: r :: ts)).flatMap levelNodes =
        (l :: r :: ts).flatMap levelNodes := by
      simp only [pairTrees, intoFork, List.flatMap_cons, levelNodes, hflat, List.append_assoc]
    refine ⟨⟨fun x hx => ?_, by rw [hflat']; exact hsorted⟩, hflat'⟩
    rw [pairTrees, List.mem_cons] at hx
    rcases hx with rfl | hx
    · exact hfork
    · exact hrest' x hx
  | [], h => ⟨by simpa [pairTrees] using h, by simp [pairTrees]⟩
  | [_], h => ⟨by simpa [pairTrees] using h, by simp [pairTrees]⟩

/-- **The forks over a list of levels form one level**, valid, with their labels in order. -/
theorem combineTrees_spec (ts : List (HashTree D)) (hts : ts ≠ []) (h : LevelList H ts) :
    (combineTrees H ts hts).IsLevel ∧ (combineTrees H ts hts).Valid H ∧
      (combineTrees H ts hts).levelNodes = ts.flatMap levelNodes := by
  induction ts, hts using combineTrees.induct H with
  | case1 ts hts hone =>
    rw [combineTrees, dif_pos hone]
    obtain ⟨x, rfl⟩ := List.length_eq_one_iff.mp hone
    exact ⟨(h.1 x (by simp)).1, (h.1 x (by simp)).2, by simp⟩
  | case2 ts hts hone _ ih =>
    rw [combineTrees, dif_neg hone]
    obtain ⟨hpair, hflat⟩ := levelList_pairTrees h
    rw [← hflat]
    exact ih hpair

theorem hashNodes_eq_map (H : HashFns D) : ∀ cs : List (Label × LabeledTree (List UInt8)),
    hashNodes H cs = cs.map fun c => (c.1, intoHashNode H c.1 (hashTreeOf H c.2))
  | [] => rfl
  | (label, t) :: cs => by rw [hashNodes, hashNodes_eq_map H cs, List.map_cons]

theorem digestChildren_eq_map (H : HashFns D) : ∀ cs : List (Label × LabeledTree (List UInt8)),
    digestChildren H cs = cs.map fun c => (c.1, digestTree H c.2)
  | [] => rfl
  | (label, t) :: cs => by rw [digestChildren, digestChildren_eq_map H cs, List.map_cons]

@[simp]
theorem hashTreeOf_leaf (bytes : List UInt8) :
    hashTreeOf H (.leaf bytes) = .leaf (H.computeLeafDigest bytes) := by
  rw [hashTreeOf]

@[simp]
theorem hashTreeOf_subTree_nil : hashTreeOf H (.subTree []) = .leaf H.emptySubtreeHash := by
  rw [hashTreeOf, hashNodes, List.map_nil, intoHashTree, dif_pos rfl]

theorem hashTreeOf_subTree {cs : List (Label × LabeledTree (List UInt8))} (hcs : cs ≠ [])
    (hkeys : SortedKeys cs) (hvalid : ∀ c ∈ cs, (hashTreeOf H c.2).Valid H) :
    (hashTreeOf H (.subTree cs)).IsLevel ∧ (hashTreeOf H (.subTree cs)).Valid H ∧
      (hashTreeOf H (.subTree cs)).levelNodes = cs.map fun c => (c.1, hashTreeOf H c.2) := by
  have hnodes : ((hashNodes H cs).map Prod.snd).flatMap levelNodes =
      cs.map fun c => (c.1, hashTreeOf H c.2) := by
    rw [hashNodes_eq_map, List.map_map, List.flatMap_map]
    simp [intoHashNode, levelNodes, ← List.map_eq_flatMap]
  have hne : (hashNodes H cs).map Prod.snd ≠ [] := by
    simpa [hashNodes_eq_map] using hcs
  have hlist : LevelList H ((hashNodes H cs).map Prod.snd) := by
    refine ⟨fun x hx => ?_, ?_⟩
    · rw [hashNodes_eq_map, List.map_map, List.mem_map] at hx
      obtain ⟨c, hc, rfl⟩ := hx
      exact ⟨trivial, rfl, hvalid c hc⟩
    · unfold SortedKeys at hkeys ⊢
      rwa [hnodes, List.map_map]
  rw [hashTreeOf, intoHashTree, dif_neg hne, ← hnodes]
  exact combineTrees_spec _ hne hlist

/-- **The hash tree of a sorted labeled tree is valid.** -/
theorem valid_hashTreeOf {t : LabeledTree (List UInt8)} (ht : t.Sorted) : (hashTreeOf H t).Valid H := by
  induction ht with
  | leaf bytes => simp [Valid]
  | @subTree cs hkeys _ ih =>
    rcases cs with _ | ⟨c, cs⟩
    · simp [Valid]
    · exact (hashTreeOf_subTree (List.cons_ne_nil _ _) hkeys ih).2.1

end Valid

/-! ## A run of the builder over a labeled tree -/

namespace HashTreeBuilderImpl

variable (H : HashFns D)

theorem run_append (b : HashTreeBuilderImpl D) (xs ys : List BuilderOp) :
    run H b (xs ++ ys) = run H b xs >>= fun b' => run H b' ys :=
  List.foldlM_append

@[simp]
theorem run_cons (b : HashTreeBuilderImpl D) (op : BuilderOp) (ops : List BuilderOp) :
    run H b (op :: ops) = step H b op >>= fun b' => run H b' ops :=
  List.foldlM_cons

@[simp]
theorem run_nil (b : HashTreeBuilderImpl D) : run H b [] = pure b := rfl

theorem finishNode_eq (b : HashTreeBuilderImpl D) (path : List (ActiveNode D)) (childLabel : Label)
    (labeledTree : LabeledTree D) (hashTree : HashTree D) :
    finishNode H b path childLabel labeledTree hashTree =
      finishNode H ⟨b.labeledTree, b.hashTree, []⟩ path childLabel labeledTree hashTree := by
  rcases path with _ | ⟨_ | _ | _, _⟩ <;> rfl

theorem map_fst_digestChildren : ∀ cs : List (Label × LabeledTree (List UInt8)),
    (digestChildren H cs).map Prod.fst = cs.map Prod.fst
  | [] => rfl
  | (label, t) :: cs => by
    rw [digestChildren, List.map_cons, List.map_cons, map_fst_digestChildren cs]

theorem map_fst_hashNodes : ∀ cs : List (Label × LabeledTree (List UInt8)),
    (hashNodes H cs).map Prod.fst = cs.map Prod.fst
  | [] => rfl
  | (label, t) :: cs => by
    rw [hashNodes, List.map_cons, List.map_cons, map_fst_hashNodes cs]

mutual
/-- **The calls of a labeled tree build its labeled tree of digests and its hash tree** on any
stack; the recursion follows the tree. -/
theorem run_buildOps : ∀ t : LabeledTree (List UInt8), t.Sorted →
    ∀ (lt : Option (LabeledTree D)) (ht : Option (HashTree D)) (label : Label)
      (path : List (ActiveNode D)),
    run H ⟨lt, ht, .undefined label :: path⟩ (buildOps t) =
      finishNode H ⟨lt, ht, []⟩ path label (digestTree H t) (hashTreeOf H t)
  | .leaf bytes, _, lt, ht, label, path => by
    simp only [buildOps, run_cons, step, startLeaf, writeLeaf, finishLeaf, run_nil,
      List.nil_append, pure_bind, bind_pure]
    rw [digestTree, hashTreeOf]
    exact finishNode_eq H _ _ _ _ _
  | .subTree children, .subTree hkeys hchildren, lt, ht, label, path => by
    rw [buildOps, run_append, run_cons, step, startSubtree]
    simp only [pure_bind]
    rw [run_buildChildrenOps children hchildren, Except.ok_bind, run_cons]
    simp only [run_nil, bind_pure, step, finishSubtree, List.nil_append]
    rw [FlatMap.fromKeyValues_of_sortedKeys (by
        unfold MixedHashTree.SortedKeys; rwa [map_fst_digestChildren]),
      FlatMap.fromKeyValues_of_sortedKeys (by
        unfold MixedHashTree.SortedKeys; rwa [map_fst_hashNodes]),
      digestTree, hashTreeOf]
    exact finishNode_eq H _ _ _ _ _

theorem run_buildChildrenOps : ∀ cs : List (Label × LabeledTree (List UInt8)),
    (∀ c ∈ cs, c.2.Sorted) →
    ∀ (lt : Option (LabeledTree D)) (ht : Option (HashTree D)) (children) (label : Label) (nodes)
      (path : List (ActiveNode D)),
    run H ⟨lt, ht, .subTree children label nodes :: path⟩ (buildChildrenOps cs) =
      .ok ⟨lt, ht, .subTree (children ++ digestChildren H cs) label (nodes ++ hashNodes H cs) :: path⟩
  | [], _, lt, ht, children, label, nodes, path => by
    rw [buildChildrenOps, run_nil, digestChildren, hashNodes, List.append_nil, List.append_nil]
    rfl
  | (edge, t) :: cs, hcs, lt, ht, children, label, nodes, path => by
    rw [buildChildrenOps, run_append, run_cons, step, newEdge]
    simp only [pure_bind]
    rw [run_buildOps t (hcs _ List.mem_cons_self)]
    simp only [finishNode, pure_bind]
    rw [run_buildChildrenOps cs (fun c hc => hcs c (List.mem_cons_of_mem _ hc)), digestChildren,
      hashNodes, List.append_assoc, List.append_assoc, List.singleton_append,
      List.singleton_append]
end

/-- **The builder run over a labeled tree gives a witness generator over its trees**. -/
theorem witnessGenerator_run_buildOps {t : LabeledTree (List UInt8)} (ht : t.Sorted) :
    ∃ b, run H new (buildOps t) = .ok b ∧
      b.witnessGenerator = some ⟨digestTree H t, hashTreeOf H t⟩ := by
  refine ⟨_, run_buildOps H t ht none none _ [], rfl⟩

end HashTreeBuilderImpl

end IC.TreeHash
