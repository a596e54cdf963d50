import InternetComputer.TreeHash.LabeledTree

/-!
# Mixed hash trees

`MixedHashTree` of `ic-crypto-tree-hash`: forks, labeled nodes, leaves, empty and pruned
subtrees. Digests are computed by the four domain-separated hashes of `tree_hash.rs`
(`HashFns`); `HashFns.Injective` is a hash without collisions.

* `digest`, `merge`, `toLabeledTree`, `lookupLeaf`;
* **`merge_spec`**: under an injective hash, trees of equal digest merge without a panic and keep
  the digest; `merge_comm`;
* **`lookupLeaf_merge`**: the data of either tree is found in the merge, when it converts.
-/

namespace IC.TreeHash

/-- `MixedHashTree`, with digests of type `D`. -/
inductive MixedHashTree (D : Type) where
  | empty
  | fork (left right : MixedHashTree D)
  | labeled (label : Label) (subtree : MixedHashTree D)
  | leaf (data : List UInt8)
  | pruned (digest : D)
  deriving DecidableEq

/-- `empty_subtree_hash`, `compute_leaf_digest`, `compute_node_digest` and
`compute_fork_digest`: SHA-256 in the domains of the empty subtree, the leaf, the labeled node and
the fork. -/
structure HashFns (D : Type) where
  emptySubtreeHash : D
  computeLeafDigest : List UInt8 → D
  computeNodeDigest : Label → D → D
  computeForkDigest : D → D → D

/-- A hash with no collision within a domain and none across two domains. -/
structure HashFns.Injective {D : Type} (H : HashFns D) : Prop where
  leaf_inj : ∀ a b, H.computeLeafDigest a = H.computeLeafDigest b → a = b
  node_inj : ∀ l d l' d', H.computeNodeDigest l d = H.computeNodeDigest l' d' → l = l' ∧ d = d'
  fork_inj : ∀ a b a' b', H.computeForkDigest a b = H.computeForkDigest a' b' → a = a' ∧ b = b'
  empty_ne_leaf : ∀ v, H.emptySubtreeHash ≠ H.computeLeafDigest v
  empty_ne_node : ∀ l d, H.emptySubtreeHash ≠ H.computeNodeDigest l d
  empty_ne_fork : ∀ a b, H.emptySubtreeHash ≠ H.computeForkDigest a b
  leaf_ne_node : ∀ v l d, H.computeLeafDigest v ≠ H.computeNodeDigest l d
  leaf_ne_fork : ∀ v a b, H.computeLeafDigest v ≠ H.computeForkDigest a b
  node_ne_fork : ∀ l d a b, H.computeNodeDigest l d ≠ H.computeForkDigest a b

/-- The free term algebra of the four hashes: a digest is the term that computed it. -/
inductive HashTerm where
  | empty
  | leaf (data : List UInt8)
  | node (label : Label) (digest : HashTerm)
  | fork (left right : HashTerm)
  deriving DecidableEq

instance : Inhabited HashTerm := ⟨.empty⟩

/-- The hashes of `HashTerm`: its constructors. -/
def HashTerm.hashFns : HashFns HashTerm := ⟨.empty, .leaf, .node, .fork⟩

theorem HashTerm.injective : HashTerm.hashFns.Injective where
  leaf_inj _ _ h := HashTerm.leaf.inj h
  node_inj _ _ _ _ h := HashTerm.node.inj h
  fork_inj _ _ _ _ h := HashTerm.fork.inj h
  empty_ne_leaf _ := HashTerm.noConfusion
  empty_ne_node _ _ := HashTerm.noConfusion
  empty_ne_fork _ _ := HashTerm.noConfusion
  leaf_ne_node _ _ _ := HashTerm.noConfusion
  leaf_ne_fork _ _ _ := HashTerm.noConfusion
  node_ne_fork _ _ _ _ := HashTerm.noConfusion

/-- `InvalidHashTreeError`. -/
inductive InvalidHashTreeError where
  | unlabeledLeaf
  | labelsNotSorted (label : Label)
  deriving DecidableEq

namespace MixedHashTree

variable {D : Type}

/-- `MixedHashTree::digest`. -/
def digest (H : HashFns D) : MixedHashTree D → D
  | .empty => H.emptySubtreeHash
  | .fork left right => H.computeForkDigest (left.digest H) (right.digest H)
  | .labeled label subtree => H.computeNodeDigest label (subtree.digest H)
  | .leaf data => H.computeLeafDigest data
  | .pruned digest => digest

/-- `MixedHashTree::merge`; trees of different shapes panic. -/
def merge [DecidableEq D] : MixedHashTree D → MixedHashTree D → Except String (MixedHashTree D)
  | .pruned l, .pruned r => if l = r then .ok (.pruned l) else .ok (.pruned r)
  | .pruned _, r => .ok r
  | l, .pruned _ => .ok l
  | .empty, .empty => .ok .empty
  | .fork l₁ l₂, .fork r₁ r₂ => do
    let m₁ ← merge l₁ r₁
    let m₂ ← merge l₂ r₂
    pure (.fork m₁ m₂)
  | .labeled label l, .labeled rlabel r =>
    if label = rlabel then do
      let m ← merge l r
      pure (.labeled label m)
    else .error "inconsistent trees"
  | .leaf l, .leaf r => if l = r then .ok (.leaf l) else .error "inconsistent trees"
  | _, _ => .error "inconsistent trees"

/-! ## Merging trees of one digest -/

@[simp] theorem merge_pruned_left [DecidableEq D] (d : D) (r : MixedHashTree D) :
    merge (.pruned d) r = .ok r := by
  cases r <;> simp [merge]

theorem merge_pruned_right [DecidableEq D] {l : MixedHashTree D} (hl : ∀ e, l ≠ .pruned e)
    (d : D) : merge l (.pruned d) = .ok l := by
  cases l with
  | pruned e => exact absurd rfl (hl e)
  | _ => rfl

section Merge

variable [DecidableEq D] {H : HashFns D} (hH : H.Injective)
include hH

/-- **Merging trees of one digest**: under an injective hash they have one shape wherever neither
is pruned, so `merge` does not panic and keeps their digest. -/
theorem merge_spec (l : MixedHashTree D) : ∀ r : MixedHashTree D, l.digest H = r.digest H →
    ∃ m, merge l r = .ok m ∧ m.digest H = l.digest H := by
  induction l with
  | pruned d => exact fun r h => ⟨r, merge_pruned_left d r, h.symm⟩
  | empty =>
    intro r h
    cases r with
    | pruned d => exact ⟨.empty, rfl, rfl⟩
    | empty => exact ⟨.empty, rfl, rfl⟩
    | fork a b => exact absurd h (hH.empty_ne_fork _ _)
    | labeled label t => exact absurd h (hH.empty_ne_node _ _)
    | leaf data => exact absurd h (hH.empty_ne_leaf _)
  | fork l₁ l₂ ih₁ ih₂ =>
    intro r h
    cases r with
    | pruned d => exact ⟨_, merge_pruned_right (fun _ => by simp) d, rfl⟩
    | empty => exact absurd h.symm (hH.empty_ne_fork _ _)
    | fork r₁ r₂ =>
      obtain ⟨h₁, h₂⟩ := hH.fork_inj _ _ _ _ h
      obtain ⟨m₁, hm₁, hd₁⟩ := ih₁ r₁ h₁
      obtain ⟨m₂, hm₂, hd₂⟩ := ih₂ r₂ h₂
      refine ⟨.fork m₁ m₂, by rw [merge, hm₁, Except.ok_bind, hm₂]; rfl, ?_⟩
      simp only [digest, hd₁, hd₂]
    | labeled label t => exact absurd h.symm (hH.node_ne_fork _ _ _ _)
    | leaf data => exact absurd h.symm (hH.leaf_ne_fork _ _ _)
  | labeled label l ih =>
    intro r h
    cases r with
    | pruned d => exact ⟨_, merge_pruned_right (fun _ => by simp) d, rfl⟩
    | empty => exact absurd h.symm (hH.empty_ne_node _ _)
    | fork r₁ r₂ => exact absurd h (hH.node_ne_fork _ _ _ _)
    | labeled rlabel r =>
      obtain ⟨rfl, hd⟩ := hH.node_inj _ _ _ _ h
      obtain ⟨m, hm, hdm⟩ := ih r hd
      refine ⟨.labeled label m, by rw [merge, if_pos rfl, hm, Except.ok_bind]; rfl, ?_⟩
      simp only [digest, hdm]
    | leaf data => exact absurd h.symm (hH.leaf_ne_node _ _ _)
  | leaf data =>
    intro r h
    cases r with
    | pruned d => exact ⟨_, merge_pruned_right (fun _ => by simp) d, rfl⟩
    | empty => exact absurd h.symm (hH.empty_ne_leaf _)
    | fork r₁ r₂ => exact absurd h (hH.leaf_ne_fork _ _ _)
    | labeled label t => exact absurd h (hH.leaf_ne_node _ _ _)
    | leaf data' =>
      obtain rfl := hH.leaf_inj _ _ h
      exact ⟨.leaf data, by rw [merge, if_pos rfl], rfl⟩

theorem merge_comm (l : MixedHashTree D) : ∀ r : MixedHashTree D, l.digest H = r.digest H →
    merge l r = merge r l := by
  induction l with
  | pruned d =>
    intro r h
    cases r with
    | pruned e =>
      obtain rfl : d = e := h
      rfl
    | _ => rfl
  | empty =>
    intro r h
    cases r with
    | pruned d => rfl
    | empty => rfl
    | fork a b => exact absurd h (hH.empty_ne_fork _ _)
    | labeled label t => exact absurd h (hH.empty_ne_node _ _)
    | leaf data => exact absurd h (hH.empty_ne_leaf _)
  | fork l₁ l₂ ih₁ ih₂ =>
    intro r h
    cases r with
    | pruned d => rfl
    | empty => exact absurd h.symm (hH.empty_ne_fork _ _)
    | fork r₁ r₂ =>
      obtain ⟨h₁, h₂⟩ := hH.fork_inj _ _ _ _ h
      simp only [merge, ih₁ r₁ h₁, ih₂ r₂ h₂]
    | labeled label t => exact absurd h.symm (hH.node_ne_fork _ _ _ _)
    | leaf data => exact absurd h.symm (hH.leaf_ne_fork _ _ _)
  | labeled label l ih =>
    intro r h
    cases r with
    | pruned d => rfl
    | empty => exact absurd h.symm (hH.empty_ne_node _ _)
    | fork r₁ r₂ => exact absurd h (hH.node_ne_fork _ _ _ _)
    | labeled rlabel r =>
      obtain ⟨rfl, hd⟩ := hH.node_inj _ _ _ _ h
      simp only [merge, ih r hd]
    | leaf data => exact absurd h.symm (hH.leaf_ne_node _ _ _)
  | leaf data =>
    intro r h
    cases r with
    | pruned d => rfl
    | empty => exact absurd h.symm (hH.empty_ne_leaf _)
    | fork r₁ r₂ => exact absurd h (hH.leaf_ne_fork _ _ _)
    | labeled label t => exact absurd h (hH.leaf_ne_node _ _ _)
    | leaf data' =>
      obtain rfl := hH.leaf_inj _ _ h
      rfl

end Merge

/-! ## The data of a tree -/

mutual
/-- `collect_children`: the labeled nodes below forks, appended by `FlatMap::try_append`. -/
def collectChildren : MixedHashTree D → List (Label × LabeledTree (List UInt8)) →
    Except InvalidHashTreeError (List (Label × LabeledTree (List UInt8)))
  | .leaf _, _ => .error .unlabeledLeaf
  | .labeled label subtree, children => do
    let t ← toLabeledTree subtree
    match FlatMap.tryAppend children label t with
    | some children => .ok children
    | none => .error (.labelsNotSorted label)
  | .fork left right, children => do
    let children ← collectChildren left children
    collectChildren right children
  | .pruned _, children => .ok children
  | .empty, children => .ok children

/-- `TryFrom<MixedHashTree> for LabeledTree<Vec<u8>>`: a leaf, or the subtree of the labeled nodes
below the root, the first `collect_children` step unfolded (`toLabeledTree_eq_collectChildren`). -/
def toLabeledTree : MixedHashTree D → Except InvalidHashTreeError (LabeledTree (List UInt8))
  | .leaf data => .ok (.leaf data)
  | .labeled label subtree => do
    let t ← toLabeledTree subtree
    pure (.subTree [(label, t)])
  | .fork left right => do
    let children ← collectChildren left []
    let children ← collectChildren right children
    pure (.subTree children)
  | .pruned _ => .ok (.subTree [])
  | .empty => .ok (.subTree [])
end

theorem toLabeledTree_eq_collectChildren {t : MixedHashTree D}
    (ht : (∃ label subtree, t = .labeled label subtree) ∨ ∃ left right, t = .fork left right) :
    t.toLabeledTree = (t.collectChildren []).map .subTree := by
  rcases ht with ⟨label, subtree, rfl⟩ | ⟨left, right, rfl⟩
  · rw [toLabeledTree, collectChildren]
    cases subtree.toLabeledTree <;> rfl
  · rw [toLabeledTree, collectChildren]
    cases left.collectChildren [] with
    | error e => rfl
    | ok children => cases right.collectChildren children <;> rfl

/-- The data at a path of the labeled tree a mixed tree converts to, when it is a leaf. -/
def lookupLeaf (t : MixedHashTree D) (path : Path) : Option (List UInt8) :=
  match t.toLabeledTree with
  | .ok lt =>
    match lt.lookupPath path with
    | some (.leaf data) => some data
    | _ => none
  | .error _ => none

/-- The labeled nodes below forks, in order: the children that `collect_children` converts. -/
def labeledChildren : MixedHashTree D → List (Label × MixedHashTree D)
  | .fork left right => left.labeledChildren ++ right.labeledChildren
  | .labeled label subtree => [(label, subtree)]
  | _ => []

/-- A child converted from a labeled node: the same label, and the conversion of its subtree. -/
def Converts (e : Label × MixedHashTree D) (c : Label × LabeledTree (List UInt8)) : Prop :=
  e.1 = c.1 ∧ e.2.toLabeledTree = .ok c.2

/-- Keys in strictly increasing order, as a `FlatMap` keeps them. -/
def SortedKeys {β : Type} (m : List (Label × β)) : Prop := (m.map Prod.fst).Pairwise (· < ·)

theorem sortedKeys_tryAppend {β : Type} {m m' : List (Label × β)} {key : Label} {value : β}
    (hm : SortedKeys m) (h : FlatMap.tryAppend m key value = some m') : SortedKeys m' := by
  rw [FlatMap.tryAppend_eq_some h]
  unfold FlatMap.tryAppend at h
  unfold SortedKeys at hm ⊢
  rw [List.map_append, List.pairwise_append]
  refine ⟨hm, List.pairwise_singleton _ _, fun x hx y hy => ?_⟩
  rw [List.mem_singleton.mp hy]
  split at h
  · next last v hlast =>
    split_ifs at h with hlt
    obtain ⟨init, rfl⟩ := List.getLast?_eq_some_iff.mp hlast
    rw [List.map_append, List.map_singleton, List.pairwise_append] at hm
    rw [List.map_append, List.map_singleton, List.mem_append, List.mem_singleton] at hx
    rcases hx with hx | rfl
    · exact lt_trans (hm.2.2 x hx last (List.mem_singleton_self _)) hlt
    · exact hlt
  · next hlast =>
    rw [List.getLast?_eq_none_iff] at hlast
    simp [hlast] at hx

theorem collectChildren_eq_ok : ∀ (t : MixedHashTree D) {children cs :
    List (Label × LabeledTree (List UInt8))}, t.collectChildren children = .ok cs →
    SortedKeys children → SortedKeys cs ∧
      ∃ conv, cs = children ++ conv ∧ List.Forall₂ Converts t.labeledChildren conv
  | .leaf _, _, _, h, _ => by cases h
  | .labeled label subtree, children, cs, h, hsorted => by
    rw [collectChildren] at h
    obtain ⟨T, hT, h⟩ := Except.bind_eq_ok.mp h
    split at h
    · next children' happend =>
      cases h
      exact ⟨sortedKeys_tryAppend hsorted happend, [(label, T)], FlatMap.tryAppend_eq_some happend,
        .cons ⟨rfl, hT⟩ .nil⟩
    · cases h
  | .fork left right, children, cs, h, hsorted => by
    rw [collectChildren] at h
    obtain ⟨cs₁, h₁, h₂⟩ := Except.bind_eq_ok.mp h
    obtain ⟨hsorted₁, conv₁, rfl, hconv₁⟩ := collectChildren_eq_ok left h₁ hsorted
    obtain ⟨hsorted₂, conv₂, rfl, hconv₂⟩ := collectChildren_eq_ok right h₂ hsorted₁
    exact ⟨hsorted₂, conv₁ ++ conv₂, List.append_assoc _ _ _, List.rel_append hconv₁ hconv₂⟩
  | .pruned _, children, cs, h, hsorted => by
    cases h
    exact ⟨hsorted, [], (List.append_nil _).symm, .nil⟩
  | .empty, children, cs, h, hsorted => by
    cases h
    exact ⟨hsorted, [], (List.append_nil _).symm, .nil⟩

theorem toLabeledTree_eq_ok {t : MixedHashTree D} {lt : LabeledTree (List UInt8)}
    (h : t.toLabeledTree = .ok lt) :
    (∃ data, t = .leaf data ∧ lt = .leaf data) ∨
      ∃ cs, lt = .subTree cs ∧ SortedKeys cs ∧ List.Forall₂ Converts t.labeledChildren cs := by
  cases t with
  | leaf data =>
    cases h
    exact .inl ⟨data, rfl, rfl⟩
  | labeled label subtree =>
    rw [toLabeledTree] at h
    obtain ⟨T, hT, h⟩ := Except.bind_eq_ok.mp h
    cases h
    exact .inr ⟨[(label, T)], rfl, List.pairwise_singleton _ _, .cons ⟨rfl, hT⟩ .nil⟩
  | fork left right =>
    rw [toLabeledTree_eq_collectChildren (.inr ⟨left, right, rfl⟩)] at h
    obtain ⟨cs, hcs, rfl⟩ := Except.map_eq_ok.mp h
    obtain ⟨hsorted, conv, hconv_eq, hconv⟩ := collectChildren_eq_ok _ hcs List.Pairwise.nil
    rw [List.nil_append] at hconv_eq
    subst hconv_eq
    exact .inr ⟨_, rfl, hsorted, hconv⟩
  | pruned d =>
    cases h
    exact .inr ⟨[], rfl, List.Pairwise.nil, .nil⟩
  | empty =>
    cases h
    exact .inr ⟨[], rfl, List.Pairwise.nil, .nil⟩

theorem forall₂_exists_of_mem_left {α β : Type} {R : α → β → Prop} :
    ∀ {l₁ : List α} {l₂ : List β}, List.Forall₂ R l₁ l₂ → ∀ {x}, x ∈ l₁ → ∃ y ∈ l₂, R x y
  | _, _, .nil, _, hx => absurd hx List.not_mem_nil
  | _, _, .cons hxy h, x, hx => by
    rcases List.mem_cons.mp hx with rfl | hx
    · exact ⟨_, List.mem_cons_self, hxy⟩
    · obtain ⟨y, hy, hr⟩ := forall₂_exists_of_mem_left h hx
      exact ⟨y, List.mem_cons_of_mem _ hy, hr⟩

theorem forall₂_exists_of_mem_right {α β : Type} {R : α → β → Prop} :
    ∀ {l₁ : List α} {l₂ : List β}, List.Forall₂ R l₁ l₂ → ∀ {y}, y ∈ l₂ → ∃ x ∈ l₁, R x y
  | _, _, .nil, _, hy => absurd hy List.not_mem_nil
  | _, _, .cons hxy h, y, hy => by
    rcases List.mem_cons.mp hy with rfl | hy
    · exact ⟨_, List.mem_cons_self, hxy⟩
    · obtain ⟨x, hx, hr⟩ := forall₂_exists_of_mem_right h hy
      exact ⟨x, List.mem_cons_of_mem _ hx, hr⟩

theorem lookup_eq_of_mem {β : Type} : ∀ {cs : List (Label × β)} {a : Label} {T : β},
    SortedKeys cs → (a, T) ∈ cs → cs.lookup a = some T
  | [], _, _, _, h => absurd h List.not_mem_nil
  | (k, T') :: cs, a, T, hs, h => by
    unfold SortedKeys at hs
    rw [List.map_cons, List.pairwise_cons] at hs
    rcases List.mem_cons.mp h with h | h
    · obtain ⟨rfl, rfl⟩ := Prod.mk.inj h
      simp
    · have hka : k < a := hs.1 a (List.mem_map_of_mem (f := Prod.fst) h)
      have hne : (a == k) = false := beq_false_of_ne (ne_of_lt hka).symm
      rw [List.lookup_cons, hne]
      exact lookup_eq_of_mem hs.2 h

theorem lookupLeaf_eq_some {t : MixedHashTree D} {p : Path} {v : List UInt8} :
    t.lookupLeaf p = some v ↔
      ∃ lt, t.toLabeledTree = .ok lt ∧ lt.lookupPath p = some (.leaf v) := by
  unfold lookupLeaf
  cases t.toLabeledTree with
  | error e => simp
  | ok lt =>
    simp only [Except.ok.injEq, exists_eq_left']
    split
    · next data h => rw [h, Option.some.injEq, Option.some.injEq, LabeledTree.leaf.injEq]
    · next h => simp only [reduceCtorEq, false_iff]; exact fun h' => h _ h'

theorem lookupLeaf_nil_eq_some {t : MixedHashTree D} {v : List UInt8} :
    t.lookupLeaf [] = some v ↔ t = .leaf v := by
  rw [lookupLeaf_eq_some]
  constructor
  · rintro ⟨lt, ht, hp⟩
    rw [LabeledTree.lookupPath, Option.some.injEq] at hp
    subst hp
    rcases toLabeledTree_eq_ok ht with ⟨data, rfl, hlt⟩ | ⟨cs, hlt, -⟩
    · rw [LabeledTree.leaf.injEq] at hlt
      rw [hlt]
    · cases hlt
  · rintro rfl
    exact ⟨.leaf v, rfl, rfl⟩

theorem lookupLeaf_cons_eq_some {t : MixedHashTree D} {a : Label} {p : Path} {v : List UInt8}
    (h : t.lookupLeaf (a :: p) = some v) :
    ∃ s T, (a, s) ∈ t.labeledChildren ∧ s.toLabeledTree = .ok T ∧
      T.lookupPath p = some (.leaf v) := by
  obtain ⟨lt, ht, hp⟩ := lookupLeaf_eq_some.mp h
  rcases toLabeledTree_eq_ok ht with ⟨data, rfl, rfl⟩ | ⟨cs, rfl, -, hconv⟩
  · simp [LabeledTree.lookupPath] at hp
  · rw [LabeledTree.lookupPath] at hp
    obtain ⟨T, hT, hpT⟩ := Option.bind_eq_some_iff.mp hp
    have hmem := FlatMap.mem_of_lookup_eq_some hT
    obtain ⟨⟨a', s⟩, hs, ha, hs'⟩ := forall₂_exists_of_mem_right hconv hmem
    obtain rfl : a' = a := ha
    exact ⟨s, T, hs, hs', hpT⟩

theorem converts_of_mem {t s : MixedHashTree D} {lt : LabeledTree (List UInt8)} {a : Label}
    (ht : t.toLabeledTree = .ok lt) (hs : (a, s) ∈ t.labeledChildren) :
    ∃ T, s.toLabeledTree = .ok T := by
  rcases toLabeledTree_eq_ok ht with ⟨data, rfl, -⟩ | ⟨cs, -, -, hconv⟩
  · simp [labeledChildren] at hs
  · obtain ⟨c, -, -, hc⟩ := forall₂_exists_of_mem_left hconv hs
    exact ⟨c.2, hc⟩

theorem lookupLeaf_cons_of_mem {t s : MixedHashTree D} {lt T : LabeledTree (List UInt8)}
    {a : Label} {p : Path} {v : List UInt8} (ht : t.toLabeledTree = .ok lt)
    (hs : (a, s) ∈ t.labeledChildren) (hT : s.toLabeledTree = .ok T)
    (hp : T.lookupPath p = some (.leaf v)) : t.lookupLeaf (a :: p) = some v := by
  rcases toLabeledTree_eq_ok ht with ⟨data, rfl, -⟩ | ⟨cs, rfl, hsorted, hconv⟩
  · simp [labeledChildren] at hs
  · obtain ⟨⟨a', T'⟩, hc, rfl, hT'⟩ := forall₂_exists_of_mem_left hconv hs
    rw [hT, Except.ok.injEq] at hT'
    subst hT'
    refine lookupLeaf_eq_some.mpr ⟨_, ht, ?_⟩
    rw [LabeledTree.lookupPath, lookup_eq_of_mem hsorted hc]
    exact hp

/-! ## The data of a merge -/

section MergeData

variable [DecidableEq D]

theorem merge_leaf_left {data : List UInt8} {r m : MixedHashTree D}
    (h : merge (.leaf data) r = .ok m) : m = .leaf data := by
  cases r with
  | leaf data' =>
    rw [merge] at h
    split_ifs at h
    cases h
    rfl
  | pruned d =>
    cases h
    rfl
  | _ => cases h

theorem mem_labeledChildren_merge : ∀ {x y z : MixedHashTree D}, merge x y = .ok z →
    ∀ {a s}, (a, s) ∈ x.labeledChildren →
      ∃ s', (a, s') ∈ z.labeledChildren ∧ (s' = s ∨ ∃ t, merge s t = .ok s')
  | .labeled label subtree, y, z, h, a, s, hmem => by
    simp only [labeledChildren, List.mem_singleton, Prod.mk.injEq] at hmem
    obtain ⟨rfl, rfl⟩ := hmem
    cases y with
    | pruned d =>
      cases h
      exact ⟨s, List.mem_singleton_self _, .inl rfl⟩
    | labeled rlabel r =>
      rw [merge] at h
      split_ifs at h
      obtain ⟨m, hm, h⟩ := Except.bind_eq_ok.mp h
      obtain rfl := Except.pure_eq_ok.mp h
      exact ⟨m, List.mem_singleton_self _, .inr ⟨r, hm⟩⟩
    | _ => cases h
  | .fork x₁ x₂, y, z, h, a, s, hmem => by
    cases y with
    | pruned d =>
      cases h
      exact ⟨s, hmem, .inl rfl⟩
    | fork y₁ y₂ =>
      rw [merge] at h
      obtain ⟨m₁, hm₁, h⟩ := Except.bind_eq_ok.mp h
      obtain ⟨m₂, hm₂, h⟩ := Except.bind_eq_ok.mp h
      obtain rfl := Except.pure_eq_ok.mp h
      rcases List.mem_append.mp hmem with hmem | hmem
      · obtain ⟨s', hs', hmerged⟩ := mem_labeledChildren_merge hm₁ hmem
        exact ⟨s', List.mem_append_left _ hs', hmerged⟩
      · obtain ⟨s', hs', hmerged⟩ := mem_labeledChildren_merge hm₂ hmem
        exact ⟨s', List.mem_append_right _ hs', hmerged⟩
    | _ => cases h
  | .empty, _, _, _, _, _, hmem => absurd hmem List.not_mem_nil
  | .leaf _, _, _, _, _, _, hmem => absurd hmem List.not_mem_nil
  | .pruned _, _, _, _, _, _, hmem => absurd hmem List.not_mem_nil

/-- **The data of the left tree is in the merge**, at the same paths, when the merge converts. -/
theorem lookupLeaf_merge_left : ∀ (p : Path) {l r m : MixedHashTree D}, merge l r = .ok m →
    (∃ lt, m.toLabeledTree = .ok lt) → ∀ {v}, l.lookupLeaf p = some v → m.lookupLeaf p = some v
  | [], _, _, _, h, _, v, hl => by
    rw [lookupLeaf_nil_eq_some] at hl ⊢
    subst hl
    exact merge_leaf_left h
  | a :: p, _, _, _, h, ⟨lt, hm⟩, v, hl => by
    obtain ⟨s, T, hs, hT, hp⟩ := lookupLeaf_cons_eq_some hl
    obtain ⟨s', hs', hmerged⟩ := mem_labeledChildren_merge h hs
    obtain ⟨T', hT'⟩ := converts_of_mem hm hs'
    have hp' : T'.lookupPath p = some (.leaf v) := by
      rcases hmerged with rfl | ⟨t, hst⟩
      · rw [hT, Except.ok.injEq] at hT'
        rw [← hT']
        exact hp
      · obtain ⟨T'', hT'', hp''⟩ := lookupLeaf_eq_some.mp
          (lookupLeaf_merge_left p hst ⟨T', hT'⟩ (lookupLeaf_eq_some.mpr ⟨T, hT, hp⟩))
        rw [hT', Except.ok.injEq] at hT''
        rw [hT'']
        exact hp''
    exact lookupLeaf_cons_of_mem hm hs' hT' hp'

/-- **The data of both trees is in the merge**: on trees of one digest under an injective hash,
a merge that converts has at every path the data either tree has there. -/
theorem lookupLeaf_merge {H : HashFns D} (hH : H.Injective) {l r m : MixedHashTree D}
    (hd : l.digest H = r.digest H) (h : merge l r = .ok m) (hm : ∃ lt, m.toLabeledTree = .ok lt)
    (p : Path) (v : List UInt8) :
    (l.lookupLeaf p = some v → m.lookupLeaf p = some v) ∧
      (r.lookupLeaf p = some v → m.lookupLeaf p = some v) := by
  have h' : merge r l = .ok m := by rw [← merge_comm hH l r hd]; exact h
  exact ⟨lookupLeaf_merge_left p h hm, lookupLeaf_merge_left p h' hm⟩

end MergeData

end MixedHashTree

end IC.TreeHash
