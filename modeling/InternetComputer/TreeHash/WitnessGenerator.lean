import InternetComputer.TreeHash.HashTree
import InternetComputer.TreeHash.Witness

/-!
# The witness generator

`WitnessGeneratorImpl::witness` of `ic-crypto-tree-hash`: the witness of a partial tree in the
hash tree a builder made. Each `SubTree` is looked up in the tree of digests, the children's
witnesses are made first, and a fork whose range holds no label of the children is pruned.

* `LabeledTree.restrict` and `HashTree.selectionWitness`: the witness of a selection of paths;
* `witnessForSubtree_eq`, and **`witnessImpl_restrict`**: over the tree of a builder, the
  generator makes the witness of the selection of any partial tree it is given.
-/

namespace IC.TreeHash

variable {D T : Type}

/-! ## The walk of one level -/

/-- `smallest_label`. -/
def smallestLabel : HashTree D → Except String Label
  | .fork _ leftTree _ => smallestLabel leftTree
  | .node _ label _ => pure label
  | .leaf _ => .error "Inconsistent HashTree, expected HashTree::Node"

/-- `largest_label`. -/
def largestLabel : HashTree D → Except String Label
  | .fork _ _ rightTree => largestLabel rightTree
  | .node _ label _ => pure label
  | .leaf _ => .error "Inconsistent HashTree, expected HashTree::Node"

/-- `any_is_in_range`. -/
def anyIsInRange (hashTree : HashTree D) (labels : List Label) : Except String Bool := do
  let smallest ← smallestLabel hashTree
  let largest ← largestLabel hashTree
  pure (labels.any fun label => decide (smallest ≤ label) && decide (label ≤ largest))

/-- `find_missing_label`. -/
def findMissingLabel (neededLabels : List Label) (map : List (Label × LabeledTree D)) :
    Option Label :=
  neededLabels.find? fun label => (map.lookup label).isNone

namespace FlatMap

/-- `FlatMap::remove`: the value of the key, and the map without its entry. -/
def remove {β : Type} (m : List (Label × β)) (key : Label) : Option β × List (Label × β) :=
  (m.lookup key, m.eraseP fun e => e.1 = key)

end FlatMap

/-- `find_subtree_node`: the hash tree below the node of a label. -/
def findSubtreeNode (targetLabel : Label) : HashTree D → Except String (HashTree D)
  | .node _ label hashTree =>
    if targetLabel = label then pure hashTree
    else .error "Pre-condition failed, hash tree does not contain the label"
  | .fork _ leftTree rightTree => do
    let largestLeft ← largestLabel leftTree
    if targetLabel ≤ largestLeft then findSubtreeNode targetLabel leftTree
    else findSubtreeNode targetLabel rightTree
  | .leaf _ => .error "Inconsistent state, unexpectedly reached leaf"

/-- `witness_for_subtree`: the witness of one level. -/
def witnessForSubtree (B : WitnessBuilder D T) :
    HashTree D → List (Label × T) → Except String (T × List (Label × T))
  | .fork digest leftTree rightTree, subWitnesses => do
    if ← anyIsInRange (.fork digest leftTree rightTree) (subWitnesses.map Prod.fst) then
      let (leftWitness, subWitnesses) ← witnessForSubtree B leftTree subWitnesses
      let (rightWitness, subWitnesses) ← witnessForSubtree B rightTree subWitnesses
      pure (B.makeFork leftWitness rightWitness, subWitnesses)
    else pure (B.makePruned digest, subWitnesses)
  | .node digest label hashTree, subWitnesses => do
    if ← anyIsInRange (.node digest label hashTree) (subWitnesses.map Prod.fst) then
      match FlatMap.remove subWitnesses label with
      | (some subWitness, subWitnesses) => pure (B.makeNode label subWitness, subWitnesses)
      | (none, subWitnesses) => pure (B.makePruned digest, subWitnesses)
    else pure (B.makePruned digest, subWitnesses)
  | .leaf digest, subWitnesses => do
    if ← anyIsInRange (.leaf digest) (subWitnesses.map Prod.fst) then .error "Unexpectedly reached"
    else pure (B.makePruned digest, subWitnesses)

mutual
/-- `WitnessGeneratorImpl::witness_impl`. A panic is `Sum.inl`, an error `Sum.inr`. -/
def witnessImpl (B : WitnessBuilder D T) :
    LabeledTree (List UInt8) → LabeledTree D → HashTree D → List Label →
      Except (String ⊕ TreeHashError) T
  | .subTree [], origTree, _, currPath =>
    match origTree with
    | .subTree [] => pure B.makeEmpty
    | _ => .error (.inr (.inconsistentPartialTree currPath))
  | .subTree children, .subTree origChildren, hashTree, currPath =>
    match findMissingLabel (children.map Prod.fst) origChildren with
    | some missingLabel => .error (.inr (.inconsistentPartialTree (currPath ++ [missingLabel])))
    | none => do
      let subWitnesses ← witnessChildren B children origChildren hashTree currPath []
      let (witness, _) ← (witnessForSubtree B hashTree subWitnesses).mapError .inl
      pure witness
  | .subTree _, .leaf _, _, currPath => .error (.inr (.inconsistentPartialTree currPath))
  | .leaf data, .leaf _, _, _ => pure (B.makeLeaf data)
  | .leaf _, .subTree _, _, _ =>
    .error (.inl "inconsistent structures, not a leaf in the original labeled tree.")

/-- The loop of `witness_impl` over the children: the sub-witness of each, appended to the map. -/
def witnessChildren (B : WitnessBuilder D T) :
    List (Label × LabeledTree (List UInt8)) → List (Label × LabeledTree D) → HashTree D →
      List Label → List (Label × T) → Except (String ⊕ TreeHashError) (List (Label × T))
  | [], _, _, _, subWitnesses => pure subWitnesses
  | (label, child) :: children, origChildren, hashTree, currPath, subWitnesses => do
    let origChild ← (Rust.expect (origChildren.lookup label) "Could not get label").mapError .inl
    let subtree ← (findSubtreeNode label hashTree).mapError .inl
    let subWitness ← witnessImpl B child origChild subtree (currPath ++ [label])
    let subWitnesses ← (Rust.expect (FlatMap.tryAppend subWitnesses label subWitness)
      "Tree is not sorted at path").mapError .inl
    witnessChildren B children origChildren hashTree currPath subWitnesses
end

/-- `WitnessGenerator::witness`. -/
def WitnessGeneratorImpl.witness (g : WitnessGeneratorImpl D)
    (partialTree : LabeledTree (List UInt8)) : Except (String ⊕ TreeHashError) (Witness D) :=
  witnessImpl Witness.builder partialTree g.origTree g.hashTree []

/-- `WitnessGenerator::mixed_hash_tree`. -/
def WitnessGeneratorImpl.mixedHashTree [DecidableEq D] (g : WitnessGeneratorImpl D)
    (partialTree : LabeledTree (List UInt8)) : Except (String ⊕ TreeHashError) (MixedHashTree D) :=
  witnessImpl MixedHashTree.builder partialTree g.origTree g.hashTree []

/-! ## Selections of paths -/

/-- The paths below a label: those that start with it, without it. -/
def below (label : Label) (paths : List Path) : List Path :=
  paths.filterMap fun p =>
    match p with
    | l :: q => if l = label then some q else none
    | [] => none

mutual
/-- The paths a partial tree can select: those of the leaves and of the empty subtrees. -/
def LabeledTree.endPaths {α : Type} : LabeledTree α → List Path
  | .leaf _ => [[]]
  | .subTree [] => [[]]
  | .subTree (c :: cs) => LabeledTree.childrenEndPaths (c :: cs)

/-- The end paths below a list of children, each behind its label. -/
def LabeledTree.childrenEndPaths {α : Type} : List (Label × LabeledTree α) → List Path
  | [] => []
  | (l, t) :: children => t.endPaths.map (l :: ·) ++ LabeledTree.childrenEndPaths children
end

mutual
/-- The partial tree of a selection of end paths. -/
def LabeledTree.restrict {α : Type} : LabeledTree α → List Path → LabeledTree α
  | .leaf value, _ => .leaf value
  | .subTree children, paths => .subTree (LabeledTree.restrictChildren children paths)

def LabeledTree.restrictChildren {α : Type} :
    List (Label × LabeledTree α) → List Path → List (Label × LabeledTree α)
  | [], _ => []
  | (l, t) :: children, paths =>
    if below l paths = [] then LabeledTree.restrictChildren children paths
    else (l, t.restrict (below l paths)) :: LabeledTree.restrictChildren children paths
end

/-- The witness of a selection of paths in a hash tree. -/
def HashTree.selectionWitness : HashTree D → List Path → Witness D
  | .leaf digest, paths => if paths = [] then .pruned digest else .known
  | .fork digest leftTree rightTree, paths =>
    if (leftTree.levelNodes ++ rightTree.levelNodes).any fun n => !(below n.1 paths).isEmpty then
      .fork (leftTree.selectionWitness paths) (rightTree.selectionWitness paths)
    else .pruned digest
  | .node digest label hashTree, paths =>
    if below label paths = [] then .pruned digest
    else .node label (hashTree.selectionWitness (below label paths))

/-! ## Maps of increasing keys -/

namespace FlatMap

open MixedHashTree

variable {β : Type}

theorem lookup_isSome_of_mem {m : List (Label × β)} {key : Label} (h : key ∈ m.map Prod.fst) :
    (m.lookup key).isSome := by
  obtain ⟨e, he, rfl⟩ := List.mem_map.mp h
  exact List.lookup_isSome_iff.mpr ⟨e, he, beq_self_eq_true _⟩

theorem lookup_eq_none_of_not_mem {m : List (Label × β)} {key : Label}
    (h : key ∉ m.map Prod.fst) : m.lookup key = none := by
  induction m with
  | nil => rfl
  | cons e m ih =>
    obtain ⟨k, v⟩ := e
    rw [List.map_cons, List.mem_cons, not_or] at h
    rw [List.lookup_cons, beq_false_of_ne h.1]
    exact ih h.2

theorem lookup_filter {m : List (Label × β)} {key : Label} {p : Label × β → Bool}
    (h : ∀ e ∈ m, e.1 = key → p e = true) : (m.filter p).lookup key = m.lookup key := by
  induction m with
  | nil => rfl
  | cons e m ih =>
    obtain ⟨k, v⟩ := e
    have ih' := ih fun e' he' => h e' (List.mem_cons_of_mem _ he')
    by_cases hkey : k = key
    · subst hkey
      rw [List.filter_cons_of_pos (h _ List.mem_cons_self rfl), List.lookup_cons,
        List.lookup_cons, beq_self_eq_true]
    · rw [List.lookup_cons, beq_false_of_ne (Ne.symm hkey)]
      by_cases hp : p (k, v) = true
      · rw [List.filter_cons_of_pos hp, List.lookup_cons, beq_false_of_ne (Ne.symm hkey), ih']
      · rw [List.filter_cons_of_neg hp, ih']

theorem sortedKeys_filter {m : List (Label × β)} (h : SortedKeys m) (p : Label × β → Bool) :
    SortedKeys (m.filter p) :=
  h.sublist ((List.filter_sublist).map Prod.fst)

theorem eraseP_eq_filter : ∀ {m : List (Label × β)}, SortedKeys m → ∀ key : Label,
    m.eraseP (fun e => e.1 = key) = m.filter fun e => e.1 ≠ key
  | [], _, _ => rfl
  | (k, v) :: m, h, key => by
    unfold SortedKeys at h
    rw [List.map_cons, List.pairwise_cons] at h
    by_cases hk : k = key
    · subst hk
      rw [List.eraseP_cons_of_pos (by simp), List.filter_cons_of_neg (by simp)]
      -- every later key is above the removed one
      refine (List.filter_eq_self.mpr fun e he => ?_).symm
      have := h.1 e.1 (List.mem_map_of_mem he)
      simpa using ne_of_gt this
    · rw [List.eraseP_cons_of_neg (by simpa using hk), List.filter_cons_of_pos (by simpa using hk),
        eraseP_eq_filter h.2 key]

end FlatMap

/-! ## The labels of a level -/

namespace HashTree

/-- The labels of one level, left to right. -/
def levelLabels (h : HashTree D) : List Label := h.levelNodes.map Prod.fst

@[simp]
theorem levelLabels_fork (digest : D) (l r : HashTree D) :
    (HashTree.fork digest l r).levelLabels = l.levelLabels ++ r.levelLabels := by
  simp [levelLabels, levelNodes]

@[simp]
theorem levelLabels_node (digest : D) (label : Label) (h : HashTree D) :
    (HashTree.node digest label h).levelLabels = [label] := rfl

section Valid

variable {H : HashFns D}

theorem Valid.lt_of_fork {digest : D} {l r : HashTree D} (h : (HashTree.fork digest l r).Valid H)
    {a b : Label} (ha : a ∈ l.levelLabels) (hb : b ∈ r.levelLabels) : a < b := by
  obtain ⟨_, _, _, hlr, _, _⟩ := h
  obtain ⟨x, hx, rfl⟩ := List.mem_map.mp ha
  obtain ⟨y, hy, rfl⟩ := List.mem_map.mp hb
  exact hlr x hx y hy

theorem smallestLabel_largestLabel : ∀ {h : HashTree D}, h.IsLevel → h.Valid H →
    ∃ s l, smallestLabel h = .ok s ∧ largestLabel h = .ok l ∧ s ∈ h.levelLabels ∧
      l ∈ h.levelLabels ∧ ∀ a ∈ h.levelLabels, s ≤ a ∧ a ≤ l
  | .leaf _, hl, _ => absurd hl id
  | .node _ label _, _, _ => ⟨label, label, rfl, rfl, by simp, by simp, by simp⟩
  | .fork d lt rt, _, hv => by
    obtain ⟨_, hll, hrl, _, hlv, hrv⟩ := id hv
    obtain ⟨s, l₁, hs, -, hsm, hl₁m, hlb⟩ := smallestLabel_largestLabel hll hlv
    obtain ⟨s₂, l, -, hl, hs₂m, hlm, hrb⟩ := smallestLabel_largestLabel hrl hrv
    refine ⟨s, l, hs, hl, by simp [hsm], by simp [hlm], fun a ha => ?_⟩
    rw [levelLabels_fork, List.mem_append] at ha
    rcases ha with ha | ha
    · have hl₁l : l₁ < l := lt_of_lt_of_le (hv.lt_of_fork hl₁m hs₂m) (hrb s₂ hs₂m).2
      exact ⟨(hlb a ha).1, le_trans (hlb a ha).2 hl₁l.le⟩
    · exact ⟨le_of_lt (hv.lt_of_fork hsm ha), (hrb a ha).2⟩

/-- **The range check of a level finds the keys that are its labels**. -/
theorem anyIsInRange_eq {h : HashTree D} (hl : h.IsLevel) (hv : h.Valid H) {keys : List Label}
    (hgap : ∀ k ∈ keys, ∀ a ∈ h.levelLabels, ∀ b ∈ h.levelLabels, a ≤ k → k ≤ b →
      k ∈ h.levelLabels) :
    anyIsInRange h keys = .ok (keys.any fun k => decide (k ∈ h.levelLabels)) := by
  obtain ⟨s, l, hs, hl', hsm, hlm, hbounds⟩ := smallestLabel_largestLabel hl hv
  have hany : (keys.any fun k => decide (s ≤ k) && decide (k ≤ l)) =
      keys.any fun k => decide (k ∈ h.levelLabels) := by
    rw [Bool.eq_iff_iff, List.any_eq_true, List.any_eq_true]
    refine exists_congr fun k => and_congr_right fun hk => ?_
    rw [Bool.and_eq_true, decide_eq_true_iff, decide_eq_true_iff, decide_eq_true_iff]
    exact ⟨fun ⟨hsk, hkl⟩ => hgap k hk s hsm l hlm hsk hkl, fun hk' => hbounds k hk'⟩
  rw [anyIsInRange, hs, Except.ok_bind, hl', Except.ok_bind, hany]
  rfl

/-- **`find_subtree_node` finds the node of any label of a valid level.** -/
theorem findSubtreeNode_of_mem : ∀ {h : HashTree D}, h.Valid H → ∀ {label : Label}
    {inner : HashTree D}, (label, inner) ∈ h.levelNodes → findSubtreeNode label h = .ok inner
  | .leaf _, _, _, _, hmem => absurd hmem List.not_mem_nil
  | .node _ label' inner', _, label, inner, hmem => by
    rw [levelNodes, List.mem_singleton, Prod.mk.injEq] at hmem
    obtain ⟨rfl, rfl⟩ := hmem
    rw [findSubtreeNode, if_pos rfl]
    rfl
  | .fork d lt rt, hv, label, inner, hmem => by
    obtain ⟨_, hll, _, _, hlv, hrv⟩ := id hv
    obtain ⟨_s, l, -, hl, -, hlm, hlb⟩ := smallestLabel_largestLabel hll hlv
    have hlabel : label ∈ (HashTree.fork d lt rt).levelLabels := List.mem_map_of_mem hmem
    rw [findSubtreeNode, hl, Except.ok_bind]
    rw [levelNodes, List.mem_append] at hmem
    rcases hmem with hmem | hmem
    · rw [if_pos (hlb label (List.mem_map_of_mem hmem)).2]
      exact findSubtreeNode_of_mem hlv hmem
    · rw [if_neg (not_le.mpr (hv.lt_of_fork hlm (List.mem_map_of_mem hmem)))]
      exact findSubtreeNode_of_mem hrv hmem

end Valid

end HashTree

/-! ## One level of the walk -/

section Level

open MixedHashTree HashTree

variable {H : HashFns D} (A : List Path)

/-- The sub-witnesses a level is given, one per selected label. -/
def SubWitnessesOf (h : HashTree D) (sw : List (Label × Witness D)) : Prop :=
  ∀ n ∈ h.levelNodes, sw.lookup n.1 =
    if below n.1 A = [] then none else some (n.2.selectionWitness (below n.1 A))

theorem SubWitnessesOf.mem_keys_iff {h : HashTree D} {sw : List (Label × Witness D)}
    (hsw : SubWitnessesOf A h sw) {n : Label × HashTree D} (hn : n ∈ h.levelNodes) :
    n.1 ∈ sw.map Prod.fst ↔ below n.1 A ≠ [] := by
  constructor
  · intro hk hb
    have := FlatMap.lookup_isSome_of_mem hk
    rw [hsw n hn, if_pos hb] at this
    exact Bool.false_ne_true this
  · intro hb
    by_contra hk
    have := FlatMap.lookup_eq_none_of_not_mem hk
    rw [hsw n hn, if_neg hb] at this
    exact Option.some_ne_none _ this

theorem SubWitnessesOf.any_eq {h : HashTree D} {sw : List (Label × Witness D)}
    (hsw : SubWitnessesOf A h sw) :
    ((sw.map Prod.fst).any fun k => decide (k ∈ h.levelLabels)) =
      h.levelNodes.any fun n => !(below n.1 A).isEmpty := by
  rw [Bool.eq_iff_iff, List.any_eq_true, List.any_eq_true]
  constructor
  · rintro ⟨k, hk, hkl⟩
    obtain ⟨n, hn, rfl⟩ := List.mem_map.mp (of_decide_eq_true hkl)
    exact ⟨n, hn, by simpa [List.isEmpty_iff] using (hsw.mem_keys_iff A hn).mp hk⟩
  · rintro ⟨n, hn, hb⟩
    refine ⟨n.1, (hsw.mem_keys_iff A hn).mpr (by simpa [List.isEmpty_iff] using hb), ?_⟩
    exact decide_eq_true (List.mem_map_of_mem hn)

/-- **One level of `witness_for_subtree` makes the witness of the selection**, taking its labels'
sub-witnesses out of the map; the induction follows the forks of the level. -/
theorem witnessForSubtree_eq : ∀ {h : HashTree D}, h.IsLevel → h.Valid H →
    ∀ {sw : List (Label × Witness D)}, SortedKeys sw →
    (∀ k ∈ sw.map Prod.fst, ∀ a ∈ h.levelLabels, ∀ b ∈ h.levelLabels, a ≤ k → k ≤ b →
      k ∈ h.levelLabels) →
    SubWitnessesOf A h sw →
    witnessForSubtree Witness.builder h sw =
      .ok (h.selectionWitness A, sw.filter fun e => e.1 ∉ h.levelLabels)
  | .leaf _, hl, _, _, _, _, _ => absurd hl id
  | .node d label inner, hl, hv, sw, hsorted, hgap, hsw => by
    have hnode : (label, inner) ∈ (HashTree.node d label inner).levelNodes := List.mem_singleton_self _
    rw [witnessForSubtree, anyIsInRange_eq hl hv hgap, Except.ok_bind]
    by_cases hk : label ∈ sw.map Prod.fst
    · -- the node is selected: its sub-witness is taken out of the map
      have hb := (hsw.mem_keys_iff A hnode).mp hk
      rw [if_pos (List.any_eq_true.mpr ⟨label, hk, by simp⟩), FlatMap.remove, hsw _ hnode,
        if_neg hb, selectionWitness, if_neg hb, FlatMap.eraseP_eq_filter hsorted]
      simp [Witness.builder]
    · have hb : below label A = [] := by
        by_contra hb
        exact hk ((hsw.mem_keys_iff A hnode).mpr hb)
      have hall : ∀ e ∈ sw, e.1 ≠ label := fun e he h => hk (h ▸ List.mem_map_of_mem he)
      rw [if_neg (by simpa using hk), selectionWitness, if_pos hb]
      simp only [levelLabels_node, List.mem_singleton]
      rw [List.filter_eq_self.mpr (by simpa using hall)]
      rfl
  | .fork d l r, hl, hv, sw, hsorted, hgap, hsw => by
    obtain ⟨_, hll, hrl, _, hlv, hrv⟩ := id hv
    rw [witnessForSubtree, anyIsInRange_eq hl hv hgap, Except.ok_bind, hsw.any_eq]
    by_cases hany : ((HashTree.fork d l r).levelNodes.any fun n => !(below n.1 A).isEmpty) = true
    · -- the left side takes its labels out of the map, the right side the rest
      have hgapl : ∀ k ∈ sw.map Prod.fst, ∀ a ∈ l.levelLabels, ∀ b ∈ l.levelLabels, a ≤ k →
          k ≤ b → k ∈ l.levelLabels := by
        intro k hk a ha b hb hak hkb
        have hk' := hgap k hk a (by simp [ha]) b (by simp [hb]) hak hkb
        rw [levelLabels_fork, List.mem_append] at hk'
        exact hk'.resolve_right fun hkr => absurd hkb (not_le.mpr (hv.lt_of_fork hb hkr))
      have hswl : SubWitnessesOf A l sw := fun n hn => hsw n (by simp [levelNodes, hn])
      rw [if_pos hany, witnessForSubtree_eq hll hlv hsorted hgapl hswl, Except.ok_bind]
      have hgapr : ∀ k ∈ (sw.filter fun e => e.1 ∉ l.levelLabels).map Prod.fst,
          ∀ a ∈ r.levelLabels, ∀ b ∈ r.levelLabels, a ≤ k → k ≤ b → k ∈ r.levelLabels := by
        intro k hk a ha b hb hak hkb
        obtain ⟨e, he, rfl⟩ := List.mem_map.mp hk
        rw [List.mem_filter, decide_eq_true_iff] at he
        have hk' := hgap e.1 (List.mem_map_of_mem he.1) a (by simp [ha]) b (by simp [hb]) hak hkb
        rw [levelLabels_fork, List.mem_append] at hk'
        exact hk'.resolve_left he.2
      have hswr : SubWitnessesOf A r (sw.filter fun e => e.1 ∉ l.levelLabels) := by
        intro n hn
        rw [FlatMap.lookup_filter fun e _ he => ?_]
        · exact hsw n (by simp [levelNodes, hn])
        · rw [decide_eq_true_iff, he]
          exact fun hnl => lt_irrefl _ (hv.lt_of_fork hnl (List.mem_map_of_mem hn))
      dsimp only
      rw [witnessForSubtree_eq hrl hrv (FlatMap.sortedKeys_filter hsorted _) hgapr hswr,
        Except.ok_bind]
      rw [selectionWitness, if_pos (by simpa [levelNodes] using hany), List.filter_filter]
      simp only [Witness.builder, levelLabels_fork, List.mem_append, not_or]
      congr 3
      funext e
      simp [Bool.and_comm]
    · rw [if_neg hany, selectionWitness, if_neg (by simpa [levelNodes] using hany)]
      -- no key of the map is a label of the level
      have hall : ∀ e ∈ sw, e.1 ∉ (HashTree.fork d l r).levelLabels := by
        intro e he hel
        obtain ⟨n, hn, hne⟩ := List.mem_map.mp hel
        exact hany (List.any_eq_true.mpr ⟨n, hn, by
          simpa [List.isEmpty_iff, hne] using (hsw.mem_keys_iff A hn).mp
            (hne ▸ List.mem_map_of_mem he)⟩)
      rw [List.filter_eq_self.mpr (by simpa using hall)]
      rfl

end Level

/-! ## Selections in a labeled tree -/

namespace LabeledTree

open MixedHashTree

variable {α : Type}

@[simp]
theorem mem_below {label : Label} {paths : List Path} {q : Path} :
    q ∈ below label paths ↔ label :: q ∈ paths := by
  unfold below
  rw [List.mem_filterMap]
  constructor
  · rintro ⟨_ | ⟨l, q'⟩, hp, h⟩
    · cases h
    · dsimp only at h
      split_ifs at h with hl
      cases h
      exact hl ▸ hp
  · intro h
    exact ⟨label :: q, h, by simp⟩

theorem mem_childrenEndPaths {children : List (Label × LabeledTree α)} {p : Path} :
    p ∈ childrenEndPaths children ↔ ∃ l t q, (l, t) ∈ children ∧ q ∈ t.endPaths ∧ p = l :: q := by
  induction children with
  | nil => simp [childrenEndPaths]
  | cons c children ih =>
    obtain ⟨l, t⟩ := c
    simp only [childrenEndPaths, List.mem_append, List.mem_map, ih, List.mem_cons,
      Prod.mk.injEq]
    constructor
    · rintro (⟨q, hq, rfl⟩ | ⟨l', t', q, hmem, hq, rfl⟩)
      · exact ⟨l, t, q, Or.inl ⟨rfl, rfl⟩, hq, rfl⟩
      · exact ⟨l', t', q, Or.inr hmem, hq, rfl⟩
    · rintro ⟨l', t', q, ⟨rfl, rfl⟩ | hmem, hq, rfl⟩
      · exact Or.inl ⟨q, hq, rfl⟩
      · exact Or.inr ⟨l', t', q, hmem, hq, rfl⟩

theorem endPaths_subTree {children : List (Label × LabeledTree α)} (h : children ≠ []) :
    (subTree children).endPaths = childrenEndPaths children := by
  obtain ⟨c, cs, rfl⟩ := List.exists_cons_of_ne_nil h
  rw [endPaths]

theorem below_subset_endPaths {children : List (Label × LabeledTree α)} (hkeys : SortedKeys children)
    {l : Label} {t : LabeledTree α} (hmem : (l, t) ∈ children) {paths : List Path}
    (hpaths : ∀ p ∈ paths, p ∈ childrenEndPaths children) : ∀ q ∈ below l paths, q ∈ t.endPaths := by
  intro q hq
  obtain ⟨l', t', q', hmem', hq', hp⟩ := mem_childrenEndPaths.mp (hpaths _ (mem_below.mp hq))
  obtain ⟨rfl, rfl⟩ := List.cons.inj hp
  -- one label has one child
  have ht : t = t' := Option.some.inj
    ((lookup_eq_of_mem hkeys hmem).symm.trans (lookup_eq_of_mem hkeys hmem'))
  exact ht ▸ hq'

theorem below_eq_nil_of_restrictChildren {children : List (Label × LabeledTree α)}
    {paths : List Path} (h : restrictChildren children paths = []) :
    ∀ c ∈ children, below c.1 paths = [] := by
  induction children with
  | nil => exact fun c hc => absurd hc List.not_mem_nil
  | cons c children ih =>
    obtain ⟨l, t⟩ := c
    rw [restrictChildren] at h
    split_ifs at h with hb
    · intro c' hc'
      rcases List.mem_cons.mp hc' with rfl | hc'
      · exact hb
      · exact ih h c' hc'

theorem restrictChildren_ne_nil {children : List (Label × LabeledTree α)} {paths : List Path}
    (hne : paths ≠ []) (hpaths : ∀ p ∈ paths, p ∈ childrenEndPaths children) :
    restrictChildren children paths ≠ [] := by
  intro h
  obtain ⟨p, hp⟩ := List.exists_mem_of_ne_nil paths hne
  obtain ⟨l, t, q, hmem, -, rfl⟩ := mem_childrenEndPaths.mp (hpaths p hp)
  exact List.ne_nil_of_mem (mem_below.mpr hp) (below_eq_nil_of_restrictChildren h _ hmem)

theorem map_fst_restrictChildren_sublist :
    ∀ (children : List (Label × LabeledTree α)) (paths : List Path),
      List.Sublist ((restrictChildren children paths).map Prod.fst) (children.map Prod.fst)
  | [], _ => List.Sublist.slnil
  | (l, t) :: children, paths => by
    rw [restrictChildren]
    split_ifs
    · exact (map_fst_restrictChildren_sublist children paths).cons _
    · exact (map_fst_restrictChildren_sublist children paths).cons₂ _

end LabeledTree

/-! ## The witness of a partial tree -/

section Generator

open MixedHashTree HashTree LabeledTree

variable (H : HashFns D)

/-- The sub-witnesses of a selection for the children of a `SubTree`, in order. -/
def selectedWitnesses (children : Children) (paths : List Path) : List (Label × Witness D) :=
  children.filterMap fun c =>
    if below c.1 paths = [] then none
    else some (c.1, (hashTreeOf H c.2).selectionWitness (below c.1 paths))

theorem map_fst_selectedWitnesses_sublist (paths : List Path) : ∀ children : Children,
    List.Sublist ((selectedWitnesses H children paths).map Prod.fst) (children.map Prod.fst)
  | [] => List.Sublist.slnil
  | (l, t) :: children => by
    rw [selectedWitnesses, List.filterMap_cons]
    split_ifs
    · exact (map_fst_selectedWitnesses_sublist paths children).cons _
    · exact (map_fst_selectedWitnesses_sublist paths children).cons₂ _

theorem lookup_selectedWitnesses (paths : List Path) : ∀ {children : Children},
    SortedKeys children → ∀ {l : Label} {t : LabeledTree (List UInt8)}, (l, t) ∈ children →
    (selectedWitnesses H children paths).lookup l =
      if below l paths = [] then none
      else some ((hashTreeOf H t).selectionWitness (below l paths))
  | [], _, _, _, hmem => absurd hmem List.not_mem_nil
  | (k, u) :: children, hs, l, t, hmem => by
    have hs' := hs
    unfold SortedKeys at hs'
    rw [List.map_cons, List.pairwise_cons] at hs'
    rw [selectedWitnesses, List.filterMap_cons]
    rcases List.mem_cons.mp hmem with heq | hmem
    · obtain ⟨rfl, rfl⟩ := Prod.mk.inj heq
      split_ifs with hb
      · -- the later keys are above this one
        refine FlatMap.lookup_eq_none_of_not_mem fun hk => lt_irrefl l (hs'.1 l ?_)
        exact (map_fst_selectedWitnesses_sublist H paths children).subset hk
      · simp
    · have hkl : k < l := hs'.1 l (List.mem_map_of_mem hmem)
      have ih := lookup_selectedWitnesses paths hs'.2 hmem
      by_cases hbk : below k paths = []
      · simp only [hbk, ↓reduceIte]
        exact ih
      · simp only [hbk, ↓reduceIte, List.lookup_cons, beq_false_of_ne (ne_of_gt hkl)]
        exact ih

theorem witnessChildren_restrict (paths : List Path) {orig : List (Label × LabeledTree D)}
    {h : HashTree D} (horig : SortedKeys orig) (hh : h.Valid H) (p : List Label) :
    ∀ (children : Children) (acc : List (Label × Witness D)),
      (∀ c ∈ children, (c.1, digestTree H c.2) ∈ orig ∧ (c.1, hashTreeOf H c.2) ∈ h.levelNodes ∧
        (below c.1 paths ≠ [] →
          witnessImpl Witness.builder (c.2.restrict (below c.1 paths)) (digestTree H c.2)
            (hashTreeOf H c.2) (p ++ [c.1]) =
            .ok ((hashTreeOf H c.2).selectionWitness (below c.1 paths)))) →
      (acc.map Prod.fst ++ children.map Prod.fst).Pairwise (· < ·) →
      witnessChildren Witness.builder (restrictChildren children paths) orig h p acc =
        .ok (acc ++ selectedWitnesses H children paths)
  | [], acc, _, _ => by
    rw [restrictChildren, witnessChildren, selectedWitnesses, List.filterMap_nil, List.append_nil]
    rfl
  | (l, t) :: children, acc, hcs, hkeys => by
    obtain ⟨horigmem, hnode, hwit⟩ := hcs _ List.mem_cons_self
    have hrest : ∀ c ∈ children, _ := fun c hc => hcs c (List.mem_cons_of_mem _ hc)
    rw [List.map_cons, List.pairwise_append, List.pairwise_cons] at hkeys
    rw [restrictChildren]
    by_cases hb : below l paths = []
    · rw [if_pos hb, witnessChildren_restrict paths horig hh p children acc hrest
        (List.pairwise_append.mpr ⟨hkeys.1, hkeys.2.1.2, fun a ha b hb' =>
          hkeys.2.2 a ha b (List.mem_cons_of_mem _ hb')⟩)]
      simp [selectedWitnesses, hb]
    · have happend : SortedKeys (acc ++ [(l, (hashTreeOf H t).selectionWitness (below l paths))]) := by
        unfold SortedKeys
        rw [List.map_append, List.pairwise_append]
        exact ⟨hkeys.1, List.pairwise_singleton _ _, fun a ha b hb' => by
          rw [List.map_singleton, List.mem_singleton] at hb'
          exact hb' ▸ hkeys.2.2 a ha l List.mem_cons_self⟩
      rw [if_neg hb, witnessChildren, lookup_eq_of_mem horig horigmem]
      simp only [Rust.expect, Except.mapError, Except.ok_bind]
      rw [findSubtreeNode_of_mem hh hnode]
      simp only [Except.ok_bind]
      rw [hwit hb]
      simp only [Except.ok_bind]
      rw [FlatMap.tryAppend_of_sortedKeys happend]
      simp only [Except.ok_bind]
      rw [witnessChildren_restrict paths horig hh p children _ hrest (by
        rw [List.map_append, List.map_singleton, List.append_assoc, List.singleton_append]
        exact List.pairwise_append.mpr ⟨hkeys.1, List.pairwise_cons.mpr hkeys.2.1, hkeys.2.2⟩)]
      simp [selectedWitnesses, hb]

/-- **The generator makes the witness of the selection of a partial tree**, at every path, over a
sorted labeled tree; the induction is on the tree, a level by `witnessForSubtree_eq`. -/
theorem witnessImpl_restrict {t : LabeledTree (List UInt8)} (ht : t.Sorted) :
    ∀ {paths : List Path}, paths ≠ [] → (∀ q ∈ paths, q ∈ t.endPaths) → ∀ p : List Label,
      witnessImpl Witness.builder (t.restrict paths) (digestTree H t) (hashTreeOf H t) p =
        .ok ((hashTreeOf H t).selectionWitness paths) := by
  induction ht with
  | leaf bytes =>
    intro paths hne _ p
    rw [restrict, digestTree, hashTreeOf_leaf, witnessImpl, selectionWitness, if_neg hne]
    rfl
  | @subTree cs hkeys hcs ih =>
    intro paths hne hpaths p
    rcases cs with _ | ⟨c, cs'⟩
    · rw [restrict, restrictChildren, digestTree, digestChildren, hashTreeOf_subTree_nil,
        witnessImpl, selectionWitness, if_neg hne]
      rfl
    · have hne' : c :: cs' ≠ [] := List.cons_ne_nil _ _
      rw [endPaths_subTree hne'] at hpaths
      obtain ⟨r, rs, hrc⟩ := List.exists_cons_of_ne_nil (restrictChildren_ne_nil hne hpaths)
      have hlevel := hashTreeOf_subTree (H := H) hne' hkeys fun c hc => valid_hashTreeOf (hcs c hc)
      have horig : SortedKeys (digestChildren H (c :: cs')) := by
        unfold SortedKeys
        rwa [HashTreeBuilderImpl.map_fst_digestChildren]
      have hmissing : findMissingLabel ((restrictChildren (c :: cs') paths).map Prod.fst)
          (digestChildren H (c :: cs')) = none := by
        rw [findMissingLabel, List.find?_eq_none]
        intro x hx
        have := FlatMap.lookup_isSome_of_mem (show x ∈ (digestChildren H (c :: cs')).map Prod.fst by
          rw [HashTreeBuilderImpl.map_fst_digestChildren]
          exact (map_fst_restrictChildren_sublist _ _).subset hx)
        simpa [Option.isSome_iff_ne_none] using this
      have hchildren := witnessChildren_restrict H paths horig hlevel.2.1 p (c :: cs') []
        (fun c hc => ⟨by rw [digestChildren_eq_map]; exact List.mem_map_of_mem hc,
          by rw [hlevel.2.2]; exact List.mem_map_of_mem hc,
          fun hb => ih c hc hb (below_subset_endPaths hkeys hc hpaths) _⟩)
        (by rwa [List.map_nil, List.nil_append])
      rw [List.nil_append] at hchildren
      have hsubtree := witnessForSubtree_eq paths hlevel.1 hlevel.2.1
        (show SortedKeys (selectedWitnesses H (c :: cs') paths) from
          hkeys.sublist (map_fst_selectedWitnesses_sublist H paths _))
        (fun k hk _ _ _ _ _ _ => by
          simpa [levelLabels, hlevel.2.2, List.map_map, Function.comp_def] using
            (map_fst_selectedWitnesses_sublist H paths _).subset hk)
        (fun n hn => by
          rw [hlevel.2.2] at hn
          obtain ⟨c, hc, rfl⟩ := List.mem_map.mp hn
          exact lookup_selectedWitnesses H paths hkeys hc)
      rw [restrict, hrc, digestTree, witnessImpl]
      · rw [← hrc, hmissing]
        dsimp only
        rw [hchildren, Except.ok_bind, hsubtree]
        rfl
      · exact List.cons_ne_nil _ _

end Generator

end IC.TreeHash
