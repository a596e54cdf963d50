import InternetComputer.TreeHash.MixedHashTree
import InternetComputer.Lib.Lists

/-!
# Witnesses

`Witness` of `ic-crypto-tree-hash`: the part of a hash tree that proves some partial data, with
the digests of what is left out and `Known` where the caller provides the data. `prune_witness`
replaces every part that the data covers by its digest, walking the forks of each level while it
consumes the children of the matching `SubTree` in order.

* `Witness.Prunes`, what it takes for one level of a witness to prune to a digest;
* `Witness.Computes`, and **`merge_spec`**: two witnesses that prove one digest merge without a
  panic;
* **`prunes_merge`**: the merge of two witnesses that prune a partial tree to one digest prunes
  it to that digest, when the labels of the merge increase along every level;
* `merge_combines_proofs`, and `merge_of_crossed_proofs_fails`.
-/

namespace IC.TreeHash

/-- `Witness`, with digests of type `D`. -/
inductive Witness (D : Type) where
  | fork (leftTree rightTree : Witness D)
  | node (label : Label) (subWitness : Witness D)
  | pruned (digest : D)
  | known
  deriving DecidableEq

/-- `TreeHashError`. -/
inductive TreeHashError where
  | inconsistentPartialTree (offendingPath : List Label)
  | invalidArgument (info : String)
  deriving DecidableEq

/-- The children of a `LabeledTree::SubTree` of data. -/
abbrev Children := List (Label × LabeledTree (List UInt8))

variable {D : Type}

/-- `Witness::merge`; witnesses of different shapes panic. -/
def Witness.merge : Witness D → Witness D → Except String (Witness D)
  | .pruned _, r => .ok r
  | l, .pruned _ => .ok l
  | .known, .known => .ok .known
  | .fork ll lr, .fork rl rr => do
    let leftTree ← merge ll rl
    let rightTree ← merge lr rr
    pure (.fork leftTree rightTree)
  | .node label lw, .node _ rw => do
    let subWitness ← merge lw rw
    pure (.node label subWitness)
  | _, _ => .error "inconsistent witnesses"

/-- `prune_witness_impl`, given the level's pruning `subtree`: a `Known` empty subtree or leaf
becomes its digest, and a `SubTree`'s children must all be consumed. -/
def pruneWitnessImplWith (H : HashFns D)
    (subtree : Children → List Label → Except TreeHashError (Witness D × Children))
    (witness : Witness D) (partialTree : LabeledTree (List UInt8)) (currPath : List Label) :
    Except TreeHashError (Witness D) :=
  match partialTree with
  | .subTree [] =>
    match witness with
    | .known => .ok (.pruned H.emptySubtreeHash)
    | _ => .error (.inconsistentPartialTree currPath)
  | .subTree children =>
    match witness with
    | .fork .. | .node .. => do
      let (res, rest) ← subtree children currPath
      match rest with
      | (label, _) :: _ => .error (.inconsistentPartialTree (currPath ++ [label]))
      | [] => .ok res
    | .pruned _ | .known => .error (.inconsistentPartialTree currPath)
  | .leaf v =>
    match witness with
    | .fork .. | .node .. => .error (.inconsistentPartialTree currPath)
    | .pruned _ => .ok witness
    | .known => .ok (.pruned (H.computeLeafDigest v))

/-- `prune_witness_subtree`: one level of a witness pruned with a `SubTree`'s children, returning
those not consumed; a fork of two pruned sides becomes pruned. -/
def pruneWitnessSubtree (H : HashFns D) :
    Witness D → Children → List Label → Except TreeHashError (Witness D × Children)
  | .fork leftTree rightTree, children, currPath => do
    let (left, children) ← pruneWitnessSubtree H leftTree children currPath
    let (right, children) ← pruneWitnessSubtree H rightTree children currPath
    match left, right with
    | .pruned leftDigest, .pruned rightDigest =>
      pure (.pruned (H.computeForkDigest leftDigest rightDigest), children)
    | _, _ => pure (.fork left right, children)
  | .node label subWitness, children, currPath =>
    match children with
    | (treeLabel, child) :: rest =>
      if treeLabel = label then do
        let res ← pruneWitnessImplWith H (pruneWitnessSubtree H subWitness) subWitness child
          (currPath ++ [label])
        match res with
        | .pruned digest => pure (.pruned (H.computeNodeDigest label digest), rest)
        | res => pure (.node label res, rest)
      else pure (.node label subWitness, children)
    | [] => pure (.node label subWitness, [])
  | .pruned digest, children, _ => pure (.pruned digest, children)
  | .known, _, currPath => .error (.inconsistentPartialTree currPath)

/-- `prune_witness_impl`. -/
def pruneWitnessImpl (H : HashFns D) (witness : Witness D) (partialTree : LabeledTree (List UInt8))
    (currPath : List Label) : Except TreeHashError (Witness D) :=
  pruneWitnessImplWith H (pruneWitnessSubtree H witness) witness partialTree currPath

/-- `prune_witness`. -/
def pruneWitness (H : HashFns D) (witness : Witness D) (partialTree : LabeledTree (List UInt8)) :
    Except TreeHashError (Witness D) :=
  pruneWitnessImpl H witness partialTree []

/-- `path_to_first_known`. -/
def pathToFirstKnown : Witness D → Option (List Label)
  | .known => some []
  | .fork leftTree rightTree => (pathToFirstKnown leftTree).or (pathToFirstKnown rightTree)
  | .node label subWitness => (pathToFirstKnown subWitness).map (label :: ·)
  | .pruned _ => none

/-- `sub_witness`: the sub-witness of the node of `lbl` on this level. -/
def subWitness : Witness D → Label → Option (Witness D)
  | .fork leftTree rightTree, lbl => (subWitness leftTree lbl).or (subWitness rightTree lbl)
  | .node label subWitness, lbl => if label = lbl then some subWitness else none
  | _, _ => none

/-- `first_sub_witness`: the leftmost node of this level, with its label. -/
def firstSubWitness : Witness D → Option (Label × Witness D)
  | .fork leftTree rightTree => (firstSubWitness leftTree).or (firstSubWitness rightTree)
  | .node label subWitness => some (label, subWitness)
  | _ => none

/-- `recompute_digest`: the digest of the witness pruned with the partial tree. -/
def recomputeDigest (H : HashFns D) (partialTree : LabeledTree (List UInt8))
    (witness : Witness D) : Except TreeHashError D := do
  let pruned ← pruneWitness H witness partialTree
  match pruned with
  | .pruned digest => .ok digest
  | _ => .error (.inconsistentPartialTree ((pathToFirstKnown pruned).getD []))

/-- `WitnessBuilder`: the constructors of one representation of witnesses. -/
structure WitnessBuilder (D T : Type) where
  makeEmpty : T
  makeNode : Label → T → T
  makeFork : T → T → T
  makeLeaf : List UInt8 → T
  makePruned : D → T
  mergeTrees : T → T → Except String T

/-- `impl WitnessBuilder for Witness`. -/
def Witness.builder : WitnessBuilder D (Witness D) :=
  ⟨.known, .node, .fork, fun _ => .known, .pruned, Witness.merge⟩

/-- `impl WitnessBuilder for MixedHashTree`: the data itself. -/
def MixedHashTree.builder [DecidableEq D] : WitnessBuilder D (MixedHashTree D) :=
  ⟨.empty, .labeled, .fork, .leaf, .pruned, MixedHashTree.merge⟩

namespace Witness

/-- The labels of the nodes of one level of a witness, left to right. -/
def nodeLabels : Witness D → List Label
  | .fork leftTree rightTree => leftTree.nodeLabels ++ rightTree.nodeLabels
  | .node label _ => [label]
  | _ => []

/-- The labels of every level increase from left to right, as the labels of a `SubTree` do. -/
def labelsSorted : Witness D → Bool
  | .fork leftTree rightTree => leftTree.labelsSorted && rightTree.labelsSorted &&
      leftTree.nodeLabels.all fun a => rightTree.nodeLabels.all fun b => decide (a < b)
  | .node _ subWitness => subWitness.labelsSorted
  | _ => true

/-- The nodes of one level of a witness, left to right, with the witness under each. -/
def levelEntries : Witness D → List (Label × Witness D)
  | .fork leftTree rightTree => leftTree.levelEntries ++ rightTree.levelEntries
  | .node label subWitness => [(label, subWitness)]
  | _ => []

/-- Whether a witness holds data: a `Known` marker in it. -/
def hasKnown : Witness D → Bool
  | .known => true
  | .fork leftTree rightTree => leftTree.hasKnown || rightTree.hasKnown
  | .node _ subWitness => subWitness.hasKnown
  | .pruned _ => false

/-! ## Pruning, level by level -/

variable {H : HashFns D}

theorem pruneWitnessImplWith_path
    {subtree : Children → List Label → Except TreeHashError (Witness D × Children)}
    (hsub : ∀ cs p p' r, subtree cs p = .ok r → subtree cs p' = .ok r)
    {w : Witness D} {t : LabeledTree (List UInt8)} {p p' : List Label} {r : Witness D}
    (h : pruneWitnessImplWith H subtree w t p = .ok r) :
    pruneWitnessImplWith H subtree w t p' = .ok r := by
  rcases t with v | _ | ⟨c, cs⟩
  · cases w <;> first | exact h | cases h
  · cases w <;> first | exact h | cases h
  · cases w with
    | pruned e => cases h
    | known => cases h
    | _ =>
      simp only [pruneWitnessImplWith] at h ⊢
      obtain ⟨⟨res, rest⟩, hs, h⟩ := Except.bind_eq_ok.mp h
      rw [hsub _ _ _ _ hs, Except.ok_bind]
      rcases rest with _ | ⟨_, _⟩
      · exact h
      · cases h

theorem pruneWitnessSubtree_path (w : Witness D) :
    ∀ (cs : Children) (p p' : List Label) (r : Witness D × Children),
      pruneWitnessSubtree H w cs p = .ok r → pruneWitnessSubtree H w cs p' = .ok r := by
  induction w with
  | fork l r ihl ihr =>
    intro cs p p' res h
    simp only [pruneWitnessSubtree] at h ⊢
    obtain ⟨⟨left, cs₁⟩, h₁, h⟩ := Except.bind_eq_ok.mp h
    obtain ⟨⟨right, cs₂⟩, h₂, h⟩ := Except.bind_eq_ok.mp h
    rw [ihl _ _ _ _ h₁, Except.ok_bind, ihr _ _ _ _ h₂, Except.ok_bind]
    exact h
  | node label w ih =>
    intro cs p p' res h
    rcases cs with _ | ⟨⟨treeLabel, child⟩, rest⟩
    · exact h
    · simp only [pruneWitnessSubtree] at h ⊢
      split_ifs at h ⊢
      · obtain ⟨sub, hsub, h⟩ := Except.bind_eq_ok.mp h
        rw [pruneWitnessImplWith_path ih hsub, Except.ok_bind]
        exact h
      · exact h
  | pruned d => exact fun _ _ _ _ h => h
  | known => exact fun _ _ _ _ h => by cases h

theorem pruneWitnessImpl_path {w : Witness D} {t : LabeledTree (List UInt8)} {p p' : List Label}
    {r : Witness D} (h : pruneWitnessImpl H w t p = .ok r) : pruneWitnessImpl H w t p' = .ok r :=
  pruneWitnessImplWith_path (pruneWitnessSubtree_path w) h

/-- One level of a witness prunes to `d` and consumes exactly `children`. -/
inductive Prunes (H : HashFns D) : Witness D → Children → D → Prop
  | pruned (d : D) : Prunes H (.pruned d) [] d
  | fork {l r : Witness D} {cl cr : Children} {dl dr : D} :
      Prunes H l cl dl → Prunes H r cr dr →
      Prunes H (.fork l r) (cl ++ cr) (H.computeForkDigest dl dr)
  | node {label : Label} {w : Witness D} {child : LabeledTree (List UInt8)} {d : D} :
      pruneWitnessImpl H w child [] = .ok (.pruned d) →
      Prunes H (.node label w) [(label, child)] (H.computeNodeDigest label d)

/-- **One level prunes to a digest exactly when it consumes children as `Prunes` says.** -/
theorem pruneWitnessSubtree_eq_pruned_iff {w : Witness D} {cs rest : Children} {p : List Label}
    {d : D} :
    pruneWitnessSubtree H w cs p = .ok (.pruned d, rest) ↔ ∃ pre, cs = pre ++ rest ∧ Prunes H w pre d := by
  constructor
  · intro h
    induction w generalizing cs p d rest with
    | fork l r ihl ihr =>
      simp only [pruneWitnessSubtree] at h
      obtain ⟨⟨left, cs₁⟩, h₁, h⟩ := Except.bind_eq_ok.mp h
      obtain ⟨⟨right, cs₂⟩, h₂, h⟩ := Except.bind_eq_ok.mp h
      -- the fork is pruned only when both of its sides are
      rcases left with _ | _ | dl | _ <;> rcases right with _ | _ | dr | _ <;> cases h
      obtain ⟨pl, rfl, hl⟩ := ihl h₁
      obtain ⟨pr, rfl, hr⟩ := ihr h₂
      exact ⟨pl ++ pr, by rw [List.append_assoc], .fork hl hr⟩
    | node label w ih =>
      rcases cs with _ | ⟨⟨treeLabel, child⟩, cs⟩
      · cases h
      simp only [pruneWitnessSubtree] at h
      split_ifs at h with hlabel
      · obtain ⟨sub, hsub, h⟩ := Except.bind_eq_ok.mp h
        rcases sub with _ | _ | e | _ <;> cases h
        subst hlabel
        exact ⟨[(treeLabel, child)], rfl, .node (pruneWitnessImpl_path hsub)⟩
      · cases h
    | pruned e =>
      cases h
      exact ⟨[], rfl, .pruned _⟩
    | known => cases h
  · rintro ⟨pre, rfl, hpre⟩
    induction hpre generalizing rest p with
    | pruned e => rfl
    | fork _ _ ihl ihr =>
      simp only [pruneWitnessSubtree, List.append_assoc]
      rw [ihl, Except.ok_bind, ihr, Except.ok_bind]
      rfl
    | node hsub =>
      simp only [pruneWitnessSubtree, List.cons_append, List.nil_append, if_pos]
      rw [show pruneWitnessImplWith H _ _ _ _ = _ from pruneWitnessImpl_path hsub, Except.ok_bind]
      rfl

/-- What it takes for a witness to prune a partial tree to `d`. -/
def PrunesTo (H : HashFns D) (w : Witness D) : LabeledTree (List UInt8) → D → Prop
  | .leaf v, d => (w = .known ∧ d = H.computeLeafDigest v) ∨ w = .pruned d
  | .subTree [], d => w = .known ∧ d = H.emptySubtreeHash
  | .subTree (c :: cs), d => Prunes H w (c :: cs) d

theorem Prunes.eq_nil_of_pruned {e d : D} {cs : Children} (h : Prunes H (.pruned e) cs d) :
    cs = [] ∧ d = e := by
  cases h
  exact ⟨rfl, rfl⟩

theorem pruneWitnessImplWith_subTree_eq_ok {w : Witness D} (hw : ∀ e, w ≠ .pruned e)
    (hk : w ≠ .known) {cs : Children} (hcs : cs ≠ []) {p : List Label} {r : Witness D} :
    pruneWitnessImpl H w (.subTree cs) p = .ok r ↔ pruneWitnessSubtree H w cs p = .ok (r, []) := by
  obtain ⟨c, cs, rfl⟩ := List.exists_cons_of_ne_nil hcs
  have hbody : pruneWitnessImpl H w (.subTree (c :: cs)) p =
      (pruneWitnessSubtree H w (c :: cs) p >>= fun x => match x with
        | (res, rest) => match rest with
          | (label, _) :: _ => .error (.inconsistentPartialTree (p ++ [label]))
          | [] => .ok res) := by
    cases w with
    | pruned e => exact absurd rfl (hw e)
    | known => exact absurd rfl hk
    | _ => rfl
  rw [hbody]
  constructor
  · intro h
    obtain ⟨⟨res, rest⟩, hs, h⟩ := Except.bind_eq_ok.mp h
    rcases rest with _ | ⟨_, _⟩
    · cases h
      exact hs
    · cases h
  · intro h
    rw [h]
    rfl

/-- **A witness prunes a partial tree to a digest exactly as `PrunesTo` says.** -/
theorem pruneWitnessImpl_eq_pruned_iff {w : Witness D} {t : LabeledTree (List UInt8)}
    {p : List Label} {d : D} : pruneWitnessImpl H w t p = .ok (.pruned d) ↔ PrunesTo H w t d := by
  rcases t with v | _ | ⟨c, cs⟩
  · cases w <;> simp [pruneWitnessImpl, pruneWitnessImplWith, PrunesTo, eq_comm]
  · cases w <;> simp [pruneWitnessImpl, pruneWitnessImplWith, PrunesTo, eq_comm]
  · rw [PrunesTo]
    cases w with
    | pruned e =>
      refine iff_of_false (fun h => by cases h) fun h => ?_
      exact List.cons_ne_nil _ _ h.eq_nil_of_pruned.1
    | known => exact iff_of_false (fun h => by cases h) fun h => by cases h
    | _ =>
      rw [pruneWitnessImplWith_subTree_eq_ok (fun _ => by simp) (by simp) (List.cons_ne_nil _ _),
        pruneWitnessSubtree_eq_pruned_iff]
      simp only [List.append_nil, exists_eq_left']

/-! ## What a witness proves -/

/-- The digests a witness can prove. -/
inductive Computes (H : HashFns D) : Witness D → D → Prop
  | pruned (d : D) : Computes H (.pruned d) d
  | empty : Computes H .known H.emptySubtreeHash
  | leaf (v : List UInt8) : Computes H .known (H.computeLeafDigest v)
  | fork {l r : Witness D} {dl dr : D} :
      Computes H l dl → Computes H r dr → Computes H (.fork l r) (H.computeForkDigest dl dr)
  | node {label : Label} {w : Witness D} {d : D} :
      Computes H w d → Computes H (.node label w) (H.computeNodeDigest label d)

theorem computes_of_prunesTo {w : Witness D} (hlevel : ∀ {cs d}, Prunes H w cs d → Computes H w d)
    {t : LabeledTree (List UInt8)} {d : D} (h : PrunesTo H w t d) : Computes H w d := by
  rcases t with v | _ | ⟨c, cs⟩
  · rcases h with ⟨rfl, rfl⟩ | rfl
    · exact .leaf v
    · exact .pruned d
  · obtain ⟨rfl, rfl⟩ := h
    exact .empty
  · exact hlevel h

theorem computes_of_prunes : ∀ (w : Witness D) {cs : Children} {d : D},
    Prunes H w cs d → Computes H w d
  | .fork l r, _, _, .fork hl hr => .fork (computes_of_prunes l hl) (computes_of_prunes r hr)
  | .node _ w, _, _, .node hsub =>
    .node (computes_of_prunesTo (computes_of_prunes w) (pruneWitnessImpl_eq_pruned_iff.mp hsub))
  | .pruned _, _, _, .pruned _ => .pruned _

theorem Prunes.map_fst {w : Witness D} {cs : Children} {d : D} (h : Prunes H w cs d) :
    cs.map Prod.fst = w.nodeLabels := by
  induction h with
  | pruned => rfl
  | fork _ _ ihl ihr => rw [List.map_append, ihl, ihr, nodeLabels]
  | node => rfl

/-! ## Merging witnesses -/

@[simp] theorem merge_pruned_left (d : D) (r : Witness D) : (pruned d).merge r = .ok r := by
  cases r <;> rfl

theorem merge_pruned_right {l : Witness D} (hl : ∀ e, l ≠ .pruned e) (d : D) :
    l.merge (.pruned d) = .ok l := by
  cases l with
  | pruned e => exact absurd rfl (hl e)
  | _ => rfl

theorem mem_nodeLabels_merge : ∀ {x y z : Witness D}, x.merge y = .ok z →
    ∀ a ∈ x.nodeLabels, a ∈ z.nodeLabels
  | .fork xl xr, y, z, h, a, ha => by
    cases y with
    | pruned d =>
      cases h
      exact ha
    | fork yl yr =>
      simp only [merge] at h
      obtain ⟨zl, hzl, h⟩ := Except.bind_eq_ok.mp h
      obtain ⟨zr, hzr, h⟩ := Except.bind_eq_ok.mp h
      cases h
      simp only [nodeLabels, List.mem_append] at ha ⊢
      exact ha.imp (mem_nodeLabels_merge hzl a) (mem_nodeLabels_merge hzr a)
    | _ => cases h
  | .node label xs, y, z, h, a, ha => by
    cases y with
    | pruned d =>
      cases h
      exact ha
    | node _ ys =>
      simp only [merge] at h
      obtain ⟨zs, -, h⟩ := Except.bind_eq_ok.mp h
      cases h
      exact ha
    | _ => cases h
  | .pruned _, _, _, _, _, ha => absurd ha List.not_mem_nil
  | .known, _, _, _, _, ha => absurd ha List.not_mem_nil

section Injective

variable (hH : H.Injective)
include hH

/-- **Witnesses that can prove one digest merge without a panic**, into a proof of it. -/
theorem merge_spec {x y : Witness D} {d e : D} (hx : Computes H x d) (hy : Computes H y e)
    (hde : d = e) : ∃ z, x.merge y = .ok z ∧ Computes H z d := by
  induction hx generalizing y e with
  | pruned d => exact ⟨y, merge_pruned_left d y, hde ▸ hy⟩
  | empty =>
    cases hy with
    | pruned e => exact ⟨.known, rfl, .empty⟩
    | empty => exact ⟨.known, rfl, .empty⟩
    | leaf v => exact absurd hde (hH.empty_ne_leaf v)
    | fork _ _ => exact absurd hde (hH.empty_ne_fork _ _)
    | node _ => exact absurd hde (hH.empty_ne_node _ _)
  | leaf v =>
    cases hy with
    | pruned e => exact ⟨.known, rfl, .leaf v⟩
    | empty => exact absurd hde.symm (hH.empty_ne_leaf v)
    | leaf v' => exact ⟨.known, rfl, .leaf v⟩
    | fork _ _ => exact absurd hde (hH.leaf_ne_fork _ _ _)
    | node _ => exact absurd hde (hH.leaf_ne_node _ _ _)
  | fork hl hr ihl ihr =>
    cases hy with
    | pruned e => exact ⟨_, rfl, .fork hl hr⟩
    | empty => exact absurd hde.symm (hH.empty_ne_fork _ _)
    | leaf v => exact absurd hde.symm (hH.leaf_ne_fork _ _ _)
    | fork hl' hr' =>
      obtain ⟨h₁, h₂⟩ := hH.fork_inj _ _ _ _ hde
      obtain ⟨zl, hzl, hcl⟩ := ihl hl' h₁
      obtain ⟨zr, hzr, hcr⟩ := ihr hr' h₂
      exact ⟨.fork zl zr, by rw [merge, hzl, Except.ok_bind, hzr]; rfl, .fork hcl hcr⟩
    | node _ => exact absurd hde.symm (hH.node_ne_fork _ _ _ _)
  | node hw ih =>
    cases hy with
    | pruned e => exact ⟨_, rfl, .node hw⟩
    | empty => exact absurd hde.symm (hH.empty_ne_node _ _)
    | leaf v => exact absurd hde.symm (hH.leaf_ne_node _ _ _)
    | fork _ _ => exact absurd hde (hH.node_ne_fork _ _ _ _)
    | node hw' =>
      obtain ⟨-, hd⟩ := hH.node_inj _ _ _ _ hde
      obtain ⟨z, hz, hc⟩ := ih hw' hd
      exact ⟨.node _ z, by rw [merge, hz]; rfl, .node hc⟩

theorem merge_comm {x y : Witness D} {d e : D} (hx : Computes H x d) (hy : Computes H y e)
    (hde : d = e) : x.merge y = y.merge x := by
  induction hx generalizing y e with
  | pruned d =>
    cases hy with
    | pruned e => rw [hde]
    | _ => rfl
  | empty =>
    cases hy with
    | leaf v => exact absurd hde (hH.empty_ne_leaf v)
    | fork _ _ => exact absurd hde (hH.empty_ne_fork _ _)
    | node _ => exact absurd hde (hH.empty_ne_node _ _)
    | _ => rfl
  | leaf v =>
    cases hy with
    | empty => exact absurd hde.symm (hH.empty_ne_leaf v)
    | fork _ _ => exact absurd hde (hH.leaf_ne_fork _ _ _)
    | node _ => exact absurd hde (hH.leaf_ne_node _ _ _)
    | _ => rfl
  | fork hl hr ihl ihr =>
    cases hy with
    | pruned e => rfl
    | empty => exact absurd hde.symm (hH.empty_ne_fork _ _)
    | leaf v => exact absurd hde.symm (hH.leaf_ne_fork _ _ _)
    | fork hl' hr' =>
      obtain ⟨h₁, h₂⟩ := hH.fork_inj _ _ _ _ hde
      simp only [merge, ihl hl' h₁, ihr hr' h₂]
    | node _ => exact absurd hde.symm (hH.node_ne_fork _ _ _ _)
  | node hw ih =>
    cases hy with
    | pruned e => rfl
    | empty => exact absurd hde.symm (hH.empty_ne_node _ _)
    | leaf v => exact absurd hde.symm (hH.leaf_ne_node _ _ _)
    | fork _ _ => exact absurd hde (hH.node_ne_fork _ _ _ _)
    | node hw' =>
      obtain ⟨rfl, hd⟩ := hH.node_inj _ _ _ _ hde
      simp only [merge, ih hw' hd]

end Injective

theorem labelsSorted_fork {l r : Witness D} : (fork l r).labelsSorted = true ↔
    l.labelsSorted = true ∧ r.labelsSorted = true ∧
      ∀ a ∈ l.nodeLabels, ∀ b ∈ r.nodeLabels, a < b := by
  simp [labelsSorted, and_assoc]

/-- Two witnesses pruning `t` to one digest merge into one that does, when sorted. -/
def MergePrunes (H : HashFns D) (t : LabeledTree (List UInt8)) : Prop :=
  ∀ {x y z : Witness D} {d : D}, pruneWitnessImpl H x t [] = .ok (.pruned d) →
    pruneWitnessImpl H y t [] = .ok (.pruned d) → x.merge y = .ok z → z.labelsSorted = true →
    pruneWitnessImpl H z t [] = .ok (.pruned d)

section Injective

variable (hH : H.Injective)
include hH

theorem mem_nodeLabels_merge_of_prunes {x y z : Witness D} {cx cy : Children} {d : D}
    (hx : Prunes H x cx d) (hy : Prunes H y cy d) (h : x.merge y = .ok z) :
    ∀ e ∈ cx ++ cy, e.1 ∈ z.nodeLabels := by
  intro e he
  rcases List.mem_append.mp he with he | he
  · exact mem_nodeLabels_merge h _ (hx.map_fst ▸ List.mem_map_of_mem he)
  · rw [merge_comm hH (computes_of_prunes _ hx) (computes_of_prunes _ hy) rfl] at h
    exact mem_nodeLabels_merge h _ (hy.map_fst ▸ List.mem_map_of_mem he)

/-- **One level of a sorted merge prunes the children both witnesses prune**: a child between two
different cuts would be consumed on both sides, against the order of its labels. -/
theorem prunes_merge_level : ∀ (x : Witness D) {y z : Witness D} {cs cs' : Children} {d d' : D},
    Prunes H x cs d → Prunes H y cs' d' → cs = cs' → d = d' → x.merge y = .ok z →
    z.labelsSorted = true → (∀ c ∈ cs, MergePrunes H c.2) → Prunes H z cs d
  | .pruned _, _, _, _, _, _, _, hx, hy, hcs, hd, h, _, _ => by
    obtain ⟨rfl, rfl⟩ := hx.eq_nil_of_pruned
    cases h
    rw [hcs, hd]
    exact hy
  | .fork xl xr, y, z, _, _, _, _, .fork hl hr, hy, hcs, hd, h, hsorted, hchildren => by
    cases y with
    | pruned e =>
      cases h
      exact .fork hl hr
    | fork yl yr =>
      cases hy with
      | fork hl' hr' =>
        simp only [merge] at h
        obtain ⟨zl, hzl, h⟩ := Except.bind_eq_ok.mp h
        obtain ⟨zr, hzr, h⟩ := Except.bind_eq_ok.mp h
        cases h
        obtain ⟨rfl, rfl⟩ := hH.fork_inj _ _ _ _ hd
        obtain ⟨hsl, hsr, hlt⟩ := labelsSorted_fork.mp hsorted
        obtain ⟨rfl, rfl⟩ := List.append_inj_of_separated (R := fun a b => a.1 < b.1)
          (fun a => lt_irrefl a.1) hcs fun a ha b hb =>
            hlt _ (mem_nodeLabels_merge_of_prunes hH hl hl' hzl a ha) _
              (mem_nodeLabels_merge_of_prunes hH hr hr' hzr b hb)
        exact .fork
          (prunes_merge_level xl hl hl' rfl rfl hzl hsl
            fun c hc => hchildren c (List.mem_append_left _ hc))
          (prunes_merge_level xr hr hr' rfl rfl hzr hsr
            fun c hc => hchildren c (List.mem_append_right _ hc))
    | _ => cases h
  | .node label xs, y, z, _, _, _, _, .node hsub, hy, hcs, hd, h, hsorted, hchildren => by
    cases y with
    | pruned e =>
      obtain ⟨hnil, -⟩ := hy.eq_nil_of_pruned
      exact absurd (hcs.trans hnil) (List.cons_ne_nil _ _)
    | node b ys =>
      cases hy with
      | node hsub' =>
        simp only [List.cons.injEq, Prod.mk.injEq, and_true] at hcs
        obtain ⟨rfl, rfl⟩ := hcs
        obtain ⟨-, rfl⟩ := hH.node_inj _ _ _ _ hd
        simp only [merge] at h
        obtain ⟨zs, hzs, h⟩ := Except.bind_eq_ok.mp h
        cases h
        exact .node (hchildren _ (List.mem_singleton_self _) hsub hsub' hzs hsorted)
    | _ => cases h

/-- **A sorted merge prunes every partial tree both witnesses prune**, by induction on the tree,
the children of a subtree by `prunes_merge_level`. -/
theorem prunes_merge (t : LabeledTree (List UInt8)) : MergePrunes H t := by
  induction t using LabeledTree.childInduction with
  | leaf v =>
    intro x y z d hx hy h _
    rw [pruneWitnessImpl_eq_pruned_iff] at hx hy ⊢
    rcases hx with ⟨rfl, rfl⟩ | rfl
    · rcases hy with ⟨rfl, -⟩ | rfl
      · cases h
        exact .inl ⟨rfl, rfl⟩
      · cases h
        exact .inl ⟨rfl, rfl⟩
    · cases h
      exact hy
  | subTree children ih =>
    intro x y z d hx hy h hsorted
    rw [pruneWitnessImpl_eq_pruned_iff] at hx hy ⊢
    rcases children with _ | ⟨c, cs⟩
    · obtain ⟨rfl, rfl⟩ := hx
      obtain ⟨rfl, -⟩ := hy
      cases h
      exact ⟨rfl, rfl⟩
    · exact prunes_merge_level hH x hx hy rfl rfl h hsorted ih

end Injective

theorem recomputeDigest_eq_ok {t : LabeledTree (List UInt8)} {w : Witness D} {d : D} :
    recomputeDigest H t w = .ok d ↔ pruneWitness H w t = .ok (.pruned d) := by
  rw [recomputeDigest]
  constructor
  · intro h
    obtain ⟨pruned, hp, h⟩ := Except.bind_eq_ok.mp h
    rcases pruned with _ | _ | e | _ <;> cases h
    exact hp
  · intro h
    rw [h]
    rfl

end Witness

open Witness in
/-- **Merging proofs of one tree**, under an injective hash: merged trees keep the digest and the
data of both, and merged witnesses recompute the digest when their labels are sorted. -/
theorem merge_combines_proofs [DecidableEq D] {H : HashFns D} (hH : H.Injective) :
    (∀ l r : MixedHashTree D, l.digest H = r.digest H →
      ∃ m, l.merge r = .ok m ∧ m.digest H = l.digest H ∧
        ((∃ mt, m.toLabeledTree = .ok mt) → ∀ (p : Path) (v : List UInt8),
          ((∃ lt, l.toLabeledTree = .ok lt ∧ lt.lookupPath p = some (.leaf v)) ∨
              ∃ rt, r.toLabeledTree = .ok rt ∧ rt.lookupPath p = some (.leaf v)) →
            ∃ mt, m.toLabeledTree = .ok mt ∧ mt.lookupPath p = some (.leaf v))) ∧
    ∀ (t : LabeledTree (List UInt8)) (x y : Witness D) (h : D),
      recomputeDigest H t x = .ok h → recomputeDigest H t y = .ok h →
        ∃ z, x.merge y = .ok z ∧ (z.labelsSorted = true → recomputeDigest H t z = .ok h) := by
  refine ⟨fun l r hd => ?_, fun t x y h hx hy => ?_⟩
  · obtain ⟨m, hm, hdm⟩ := MixedHashTree.merge_spec hH l r hd
    refine ⟨m, hm, hdm, fun hconv p v hv => MixedHashTree.lookupLeaf_eq_some.mp ?_⟩
    -- the data at a path is what the converted tree's lookup finds there
    have hboth := MixedHashTree.lookupLeaf_merge hH hd hm hconv p v
    rcases hv with hv | hv
    · exact hboth.1 (MixedHashTree.lookupLeaf_eq_some.mpr hv)
    · exact hboth.2 (MixedHashTree.lookupLeaf_eq_some.mpr hv)
  · rw [recomputeDigest_eq_ok] at hx hy
    have hcx := computes_of_prunesTo (computes_of_prunes x) (pruneWitnessImpl_eq_pruned_iff.mp hx)
    have hcy := computes_of_prunesTo (computes_of_prunes y) (pruneWitnessImpl_eq_pruned_iff.mp hy)
    obtain ⟨z, hz, -⟩ := merge_spec hH hcx hcy rfl
    exact ⟨z, hz, fun hsorted => recomputeDigest_eq_ok.mpr (prunes_merge hH t hx hy hz hsorted)⟩

/-- Two proofs of the data at labels [1] and [2], each pruning the other's leaf, merge into a proof
of both: the merged tree finds both leaves, and the merged witness recomputes the digest. -/
theorem merge_combines_proofs_at_two_leaves :
    let l : MixedHashTree HashTerm := .fork (.labeled [1] (.leaf [5])) (.pruned (.node [2] (.leaf [7])))
    let r : MixedHashTree HashTerm := .fork (.pruned (.node [1] (.leaf [5]))) (.labeled [2] (.leaf [7]))
    let t : LabeledTree (List UInt8) := .subTree [([1], .leaf [5]), ([2], .leaf [7])]
    let lhs : Witness HashTerm := .fork (.node [1] .known) (.node [2] (.pruned (.leaf [7])))
    let rhs : Witness HashTerm := .fork (.node [1] (.pruned (.leaf [5]))) (.node [2] .known)
    (∃ m, l.merge r = .ok m ∧ ∃ mt, m.toLabeledTree = .ok mt ∧
      mt.lookupPath [[1]] = some (.leaf [5]) ∧ mt.lookupPath [[2]] = some (.leaf [7])) ∧
    ∃ z, lhs.merge rhs = .ok z ∧ z.labelsSorted = true ∧ recomputeDigest HashTerm.hashFns t z =
      .ok (.fork (.node [1] (.leaf [5])) (.node [2] (.leaf [7]))) := by
  intro l r t lhs rhs
  obtain ⟨hmix, hwit⟩ := merge_combines_proofs HashTerm.injective
  obtain ⟨m, hm, -, hlook⟩ := hmix l r rfl
  obtain rfl : m = .fork (.labeled [1] (.leaf [5])) (.labeled [2] (.leaf [7])) :=
    Except.ok.inj (hm.symm.trans rfl)
  -- each leaf is found in the tree that did not prune it
  obtain ⟨mt, hmt, h₁⟩ := hlook ⟨_, rfl⟩ [[1]] [5] (.inl ⟨_, rfl, rfl⟩)
  obtain ⟨mt', hmt', h₂⟩ := hlook ⟨_, rfl⟩ [[2]] [7] (.inr ⟨_, rfl, rfl⟩)
  obtain rfl : mt' = mt := Except.ok.inj (hmt'.symm.trans hmt)
  obtain ⟨z, hz, hrec⟩ := hwit t lhs rhs _ rfl rfl
  obtain rfl : z = .fork (.node [1] .known) (.node [2] .known) := Except.ok.inj (hz.symm.trans rfl)
  exact ⟨⟨_, hm, _, hmt, h₁, h₂⟩, _, hz, rfl, hrec rfl⟩

/-- **Merges of proofs whose labels come out of order**: the merged trees list [2] before [1] and
do not convert, and the merged witnesses recompute nothing. -/
theorem merge_of_crossed_proofs_fails :
    let l : MixedHashTree HashTerm :=
      .fork (.pruned (.node [2] (.leaf [7]))) (.labeled [1] (.leaf [5]))
    let r : MixedHashTree HashTerm :=
      .fork (.labeled [2] (.leaf [7])) (.pruned (.node [1] (.leaf [5])))
    let m : MixedHashTree HashTerm := .fork (.labeled [2] (.leaf [7])) (.labeled [1] (.leaf [5]))
    let n : HashTerm := .node [1] (.leaf [5])
    let t : LabeledTree (List UInt8) := .subTree [([1], .leaf [5])]
    let lhs : Witness HashTerm := .fork (.pruned n) (.node [1] .known)
    let rhs : Witness HashTerm := .fork (.node [1] .known) (.pruned n)
    (l.digest HashTerm.hashFns = r.digest HashTerm.hashFns ∧
      l.toLabeledTree = .ok (.subTree [([1], .leaf [5])]) ∧
      r.toLabeledTree = .ok (.subTree [([2], .leaf [7])]) ∧
      (LabeledTree.subTree [([1], .leaf [5])]).lookupPath [[1]] = some (.leaf [5]) ∧
      l.merge r = .ok m ∧ m.toLabeledTree = .error (.labelsNotSorted [1])) ∧
    (recomputeDigest HashTerm.hashFns t lhs = .ok (.fork n n) ∧
      recomputeDigest HashTerm.hashFns t rhs = .ok (.fork n n) ∧
      lhs.merge rhs = .ok (.fork (.node [1] .known) (.node [1] .known)) ∧
      recomputeDigest HashTerm.hashFns t (.fork (.node [1] .known) (.node [1] .known)) =
        .error (.inconsistentPartialTree [[1]])) := by
  intro l r m n t lhs rhs
  exact ⟨⟨rfl, rfl, rfl, rfl, rfl, rfl⟩, rfl, rfl, rfl, rfl⟩

end IC.TreeHash
