import InternetComputer.CanonicalState.LazyTree
import InternetComputer.TreeHash.Witness

/-!
# The compact hash tree of the canonical state

`HashTree` of `canonical_state/src/hash_tree.rs`: parallel arrays of leaves, forks and labeled
nodes. `hash_lazy_tree` preallocates the labels of a fork as consecutive nodes and pairs them into
forks; `witness` finds each label of a partial tree by binary search, and proves an absent one by
its neighbours.

* `hashLazyTree`, `witness`;
* **`witness_panics_below_empty_subtree`**: the proof of absence below an empty subtree reads an
  empty range of labels, and panics.

A `NodeId` packs its kind and a thirty-bit index into a `u32`, as the source does.
-/

namespace IC.CanonicalState

open IC.TreeHash

/-- `LEAF_MASK`, `NODE_MASK`, `FORK_MASK` and `INDEX_MASK`: the two top bits of a `NodeId` are its
kind, the other thirty its index. -/
def leafMask : UInt32 := 0x40000000

def nodeMask : UInt32 := 0x80000000

def forkMask : UInt32 := 0xc0000000

def indexMask : UInt32 := 0x3fffffff

/-- `NodeKind`. -/
inductive NodeKind where
  | empty
  | fork
  | leaf
  | node
  deriving DecidableEq

/-- `NodeId`, a `u32`. -/
structure NodeId where
  bits : UInt32
  deriving DecidableEq

namespace NodeId

/-- `NodeId::empty`. -/
def empty : NodeId := ⟨0⟩

/-- `NodeId::fork`: `FORK_MASK | idx as u32`, so an index of thirty bits or more spills into the
kind. The same for `leaf` and `node`. -/
def fork (idx : ℕ) : NodeId := ⟨forkMask ||| UInt32.ofNat idx⟩

def leaf (idx : ℕ) : NodeId := ⟨leafMask ||| UInt32.ofNat idx⟩

def node (idx : ℕ) : NodeId := ⟨nodeMask ||| UInt32.ofNat idx⟩

/-- `NodeId::kind`. -/
def kind (n : NodeId) : NodeKind :=
  if n.bits &&& forkMask == forkMask then .fork
  else if n.bits &&& nodeMask == nodeMask then .node
  else if n.bits &&& leafMask == leafMask then .leaf
  else .empty

/-- `NodeId::index`. -/
def index (n : NodeId) : ℕ := (n.bits &&& indexMask).toNat

end NodeId

/-- `HashTree`: the root, its labels' range, and the arrays of leaves, forks and labeled nodes. -/
structure HashTree (D : Type) where
  root : NodeId
  rootLabelsRange : ℕ × ℕ
  leafDigests : List D
  forkDigests : List D
  forkLeftChildren : List NodeId
  forkRightChildren : List NodeId
  nodeDigests : List D
  nodeLabels : List Label
  nodeChildren : List NodeId
  nodeChildrenLabelsRanges : List (ℕ × ℕ)

/-- `HashTreeView`: a node with its digest and its parts. -/
inductive HashTreeView (D : Type) where
  | empty
  | leaf (digest : D)
  | fork (digest : D) (left right : NodeId)
  | node (digest : D) (label : Label) (child : NodeId)

/-- `Vec::resize`. -/
def resize {α : Type} (v : List α) (n : ℕ) (a : α) : List α :=
  v.take n ++ List.replicate (n - v.length) a

namespace HashTree

variable {D : Type}

/-- `HashTree::default()`. -/
def empty : HashTree D := ⟨.empty, (0, 0), [], [], [], [], [], [], [], []⟩

/-- `HashTree::new_fork`. -/
def newFork (ht : HashTree D) (d : D) (l r : NodeId) : NodeId × HashTree D :=
  (.fork ht.forkDigests.length,
    { ht with forkDigests := ht.forkDigests ++ [d], forkLeftChildren := ht.forkLeftChildren ++ [l],
              forkRightChildren := ht.forkRightChildren ++ [r] })

/-- `HashTree::new_leaf`. -/
def newLeaf (ht : HashTree D) (d : D) : NodeId × HashTree D :=
  (.leaf ht.leafDigests.length, { ht with leafDigests := ht.leafDigests ++ [d] })

/-- `HashTree::preallocate_nodes`: the labels appended as nodes, with the digest
`Digest([0; 32])` (here `default`), no child and no children yet, and their range recorded as
the labels of `parent`. -/
def preallocateNodes [Inhabited D] (ht : HashTree D) (labels : List Label) (parent : NodeId) :
    Except String ((ℕ × ℕ) × HashTree D) := do
  let oldLen := ht.nodeLabels.length
  let nodeLabels := ht.nodeLabels ++ labels
  let newLen := nodeLabels.length
  let ht := { ht with
    nodeLabels
    nodeDigests := resize ht.nodeDigests newLen default
    nodeChildren := resize ht.nodeChildren newLen .empty
    nodeChildrenLabelsRanges := resize ht.nodeChildrenLabelsRanges newLen (0, 0) }
  if parent = .empty then
    pure ((oldLen, newLen), { ht with rootLabelsRange := (oldLen, newLen) })
  else do
    let ranges ← Rust.set ht.nodeChildrenLabelsRanges parent.index (oldLen, newLen)
    pure ((oldLen, newLen), { ht with nodeChildrenLabelsRanges := ranges })

/-- `HashTree::node_labels_range`. -/
def nodeLabelsRange (ht : HashTree D) (parent : NodeId) : Except String (ℕ × ℕ) :=
  if parent = .empty then pure ht.rootLabelsRange
  else Rust.index ht.nodeChildrenLabelsRanges parent.index

/-- `HashTree::digest`; `EMPTY_HASH` is the digest of the empty subtree. -/
def digest (H : HashFns D) (ht : HashTree D) (n : NodeId) : Except String D :=
  match n.kind with
  | .fork => Rust.index ht.forkDigests n.index
  | .node => Rust.index ht.nodeDigests n.index
  | .leaf => Rust.index ht.leafDigests n.index
  | .empty => pure H.emptySubtreeHash

/-- `HashTree::view`. -/
def view (ht : HashTree D) (n : NodeId) : Except String (HashTreeView D) :=
  let idx := n.index
  match n.kind with
  | .fork => do
    let d ← Rust.index ht.forkDigests idx
    let l ← Rust.index ht.forkLeftChildren idx
    let r ← Rust.index ht.forkRightChildren idx
    pure (.fork d l r)
  | .node => do
    let d ← Rust.index ht.nodeDigests idx
    let label ← Rust.index ht.nodeLabels idx
    let child ← Rust.index ht.nodeChildren idx
    pure (.node d label child)
  | .leaf => do
    let d ← Rust.index ht.leafDigests idx
    pure (.leaf d)
  | .empty => pure .empty

/-- `HashTree::root_hash`. -/
def rootHash (H : HashFns D) (ht : HashTree D) : Except String D := ht.digest H ht.root

end HashTree

/-! ## Building the hash tree of a lazy tree -/

section Build

variable {D : Type} (H : HashFns D)

/-- One pass of `hash_lazy_tree` pairing nodes into forks, a last odd one carried over. -/
def pairForks : List NodeId → HashTree D → Except String (List NodeId × HashTree D)
  | l :: r :: nodes, ht => do
    let dl ← ht.digest H l
    let dr ← ht.digest H r
    let (fork, ht) := ht.newFork (H.computeForkDigest dl dr) l r
    let (next, ht) ← pairForks nodes ht
    pure (fork :: next, ht)
  | [l], ht => pure ([l], ht)
  | [], ht => pure ([], ht)

theorem length_pairForks : ∀ {nodes next : List NodeId} {ht ht' : HashTree D},
    pairForks H nodes ht = .ok (next, ht') → next.length = (nodes.length + 1) / 2
  | l :: r :: nodes, next, ht, ht', h => by
    simp only [pairForks] at h
    obtain ⟨dl, -, h⟩ := Except.bind_eq_ok.mp h
    obtain ⟨dr, -, h⟩ := Except.bind_eq_ok.mp h
    obtain ⟨⟨rest, ht''⟩, hrest, h⟩ := Except.bind_eq_ok.mp h
    cases h
    have := length_pairForks hrest
    simp only [List.length_cons] at this ⊢
    omega
  | [l], next, ht, ht', h => by
    cases h
    simp
  | [], next, ht, ht', h => by
    cases h
    simp

/-- The loop of `hash_lazy_tree` over the passes, until one node is left. -/
def combineForks (nodes : List NodeId) (hnodes : nodes ≠ []) (ht : HashTree D) :
    Except String (NodeId × HashTree D) :=
  match h : pairForks H nodes ht with
  | .error e => .error e
  | .ok (next, ht) =>
    if hone : next.length = 1 then pure (next.head (List.ne_nil_of_length_eq_add_one hone), ht)
    else
      have hlen := length_pairForks H h
      combineForks next (List.ne_nil_of_length_pos (by
        have := List.length_pos_of_ne_nil hnodes
        omega)) ht
termination_by nodes.length
decreasing_by
  have := List.length_pos_of_ne_nil hnodes
  omega

variable [Inhabited D]

mutual
/-- `go` of `hash_lazy_tree`: a blob is a leaf; a fork builds the child of each label below
`parent` and pairs the nodes into forks; a fork without labels is the empty tree. -/
def hashGo : LazyTree → HashTree D → NodeId → Except String (NodeId × HashTree D)
  | .blob bytes, ht, _ => pure (ht.newLeaf (H.computeLeafDigest bytes))
  | .fork labels edge, ht, parent => do
    let ((start, stop), ht) ← ht.preallocateNodes labels parent
    let (nodes, ht) ← (List.range' start (stop - start)).foldlM
      (fun (acc : List NodeId × HashTree D) i => do
        let (nodes, ht) := acc
        let label ← Rust.index ht.nodeLabels i
        let (child, ht) ← hashEdge (edge label) ht (.node i)
        let label ← Rust.index ht.nodeLabels i
        let childDigest ← ht.digest H child
        let nodeDigests ← Rust.set ht.nodeDigests i (H.computeNodeDigest label childDigest)
        let nodeChildren ← Rust.set ht.nodeChildren i child
        pure (nodes ++ [.node i], { ht with nodeDigests, nodeChildren })) ([], ht)
    match nodes with
    | [] => pure (.empty, ht)
    | n :: ns => combineForks H (n :: ns) (List.cons_ne_nil _ _) ht

/-- `f.edge(label).expect("missing fork tree")`, built below `parent`. -/
def hashEdge : Option LazyTree → HashTree D → NodeId → Except String (NodeId × HashTree D)
  | none, _, _ => .error "missing fork tree"
  | some t, ht, parent => hashGo t ht parent
end

/-- `hash_lazy_tree`. -/
def hashLazyTree (t : LazyTree) : Except String (HashTree D) := do
  let (root, ht) ← hashGo H t HashTree.empty .empty
  pure { ht with root }

end Build

/-! ## Witnesses -/

/-- `usize::is_power_of_two`. -/
def isPowerOfTwo (n : ℕ) : Bool := n != 0 && 2 ^ n.log2 == n

/-- `32 - (size as u32).leading_zeros()`: the number of bits of `size` cut to 32 bits. -/
def bitWidth (size : ℕ) : ℕ := if size % 2 ^ 32 = 0 then 0 else (size % 2 ^ 32).log2 + 1

theorem two_pow_lt_of_not_isPowerOfTwo {size : ℕ} (hpow : ¬ isPowerOfTwo size = true)
    (hk : bitWidth size ≠ 0) : 2 ^ (bitWidth size - 1) < size := by
  have hx : size % 2 ^ 32 ≠ 0 := fun h => hk (by rw [bitWidth, if_pos h])
  have hwidth : bitWidth size - 1 = (size % 2 ^ 32).log2 := by
    rw [bitWidth, if_neg hx, Nat.add_sub_cancel]
  have hle : 2 ^ (size % 2 ^ 32).log2 ≤ size % 2 ^ 32 := Nat.log2_self_le hx
  have hmod : size % 2 ^ 32 ≤ size := Nat.mod_le size _
  rw [hwidth]
  rcases Nat.lt_or_ge (size % 2 ^ 32) size with hlt | hge
  · omega
  · -- the size fits in 32 bits, so a mask equal to it would make it a power of two
    have heq : size % 2 ^ 32 = size := by omega
    rw [heq] at hle ⊢
    refine lt_of_le_of_ne hle fun hpow2 => hpow ?_
    simp [isPowerOfTwo, hpow2, show size ≠ 0 by omega]

theorem half_lt_of_isPowerOfTwo {size : ℕ} (hpow : isPowerOfTwo size = true) : size / 2 < size := by
  have : size ≠ 0 := by simp_all [isPowerOfTwo]
  omega

theorem sub_two_pow_lt_of_not_isPowerOfTwo {size : ℕ} (hpow : ¬ isPowerOfTwo size = true)
    (hk : bitWidth size ≠ 0) : size - 2 ^ (bitWidth size - 1) < size := by
  have := two_pow_lt_of_not_isPowerOfTwo hpow hk
  have := Nat.one_le_two_pow (n := bitWidth size - 1)
  omega

section Witness

variable {D T : Type} (B : WitnessBuilder D T) (H : HashFns D) (ht : HashTree D)

/-- `add_forks`: the forks above the `offset`-th of `size` nodes of one level, the other side of
each pruned; the side is read off `offset` and the powers of two of `size`. -/
def addForks (pos : NodeId) (offset size : ℕ) (subwitness : T) : Except String T := do
  match ← ht.view pos with
  | .fork _ l r =>
    if hpow : isPowerOfTwo size then
      let h := size / 2
      if offset < h then do
        let left ← addForks l offset h subwitness
        let dr ← ht.digest H r
        pure (B.makeFork left (B.makePruned dr))
      else do
        let dl ← ht.digest H l
        let right ← addForks r (offset - h) h subwitness
        pure (B.makeFork (B.makePruned dl) right)
    else if hk : bitWidth size = 0 then .error "attempt to subtract with overflow"
    else
      let mask := 2 ^ (bitWidth size - 1)
      if offset < mask then do
        let left ← addForks l offset mask subwitness
        let dr ← ht.digest H r
        pure (B.makeFork left (B.makePruned dr))
      else do
        let dl ← ht.digest H l
        let right ← addForks r (offset - mask) (size - mask) subwitness
        pure (B.makeFork (B.makePruned dl) right)
  | _ => pure subwitness
termination_by size
decreasing_by
  all_goals first
    | exact half_lt_of_isPowerOfTwo hpow
    | exact two_pow_lt_of_not_isPowerOfTwo hpow hk
    | exact sub_two_pow_lt_of_not_isPowerOfTwo hpow hk

/-- The labels `node_labels[start..stop]`, or a panic. -/
def sliceRange (labels : List Label) (start stop : ℕ) : Except String (List Label) :=
  if start ≤ stop ∧ stop ≤ labels.length then .ok ((labels.drop start).take (stop - start))
  else .error "range index out of range for slice"

/-- `slice::binary_search` on increasing labels: the offset of `l`, or where it would go. -/
def binarySearch (labels : List Label) (l : Label) : Except ℕ ℕ :=
  match labels.findIdx? (· = l) with
  | some offset => .ok offset
  | none => .error (labels.countP (· < l))

/-- `child_witness`, given `goChild`: the node of label `l` among the children of `parent` with
the forks above it, or, for an absent label, the pruned nodes next to where it would be. -/
def childWitnessWith (goChild : NodeId → NodeId → Except String T) (parent pos : NodeId)
    (l : Label) : Except String T := do
  let (start, stop) ← ht.nodeLabelsRange parent
  if stop < start then .error "attempt to subtract with overflow" else
  let len := stop - start
  let labels ← sliceRange ht.nodeLabels start stop
  match binarySearch labels l with
  | .ok offset => do
    let idx := start + offset
    let child ← Rust.index ht.nodeChildren idx
    let sub ← goChild (.node idx) child
    let subwitness := B.makeNode l sub
    if pos.kind = .node then pure subwitness
    else addForks B H ht pos offset len subwitness
  | .error offset =>
    let prunedLabelAt (o : ℕ) : Except String T := do
      let label ← Rust.index ht.nodeLabels (start + o)
      let child ← Rust.index ht.nodeChildren (start + o)
      let d ← ht.digest H child
      addForks B H ht pos o len (B.makeNode label (B.makePruned d))
    if offset = 0 then prunedLabelAt offset
    else if offset = len then prunedLabelAt (offset - 1)
    else do
      let before ← prunedLabelAt (offset - 1)
      let after ← prunedLabelAt offset
      B.mergeTrees before after

mutual
/-- `go` of `HashTree::witness`: the children of a subtree folded by `merge_trees`. -/
def witnessGo (parent pos : NodeId) : LabeledTree (List UInt8) → Except String T
  | .leaf data =>
    if pos.kind = .leaf then pure (B.makeLeaf data)
    else .error "inconsistent tree structure: not a leaf in the original tree"
  | .subTree children => do
    let d ← ht.digest H pos
    witnessChildren parent pos children (B.makePruned d)

/-- The fold of `go` over the children of a subtree. -/
def witnessChildren (parent pos : NodeId) :
    List (Label × LabeledTree (List UInt8)) → T → Except String T
  | [], acc => pure acc
  | (l, t) :: children, acc => do
    let w ← childWitnessWith B H ht (fun parent pos => witnessGo parent pos t) parent pos l
    let acc ← B.mergeTrees acc w
    witnessChildren parent pos children acc
end

/-- `HashTree::witness`. -/
def HashTree.witness (partialTree : LabeledTree (List UInt8)) : Except String T :=
  witnessGo B H ht .empty ht.root partialTree

end Witness

/-- **A proof of absence below an empty subtree panics**: `child_witness` finds the empty range
of the root's labels and reads `node_labels[0]` of the empty hash tree. -/
theorem witness_panics_below_empty_subtree :
    let t : LazyTree := .fork [] fun _ => none
    let p : LabeledTree (List UInt8) := .subTree [([1], .leaf [])]
    t.WellFormed ∧ t.edgeAt [1] = none ∧ hashLazyTree HashTerm.hashFns t = .ok HashTree.empty ∧
      HashTree.empty.witness MixedHashTree.builder HashTerm.hashFns p =
        .error "index out of bounds" := by
  intro t p
  exact ⟨.fork (by simp) (by simp) (by simp), rfl, rfl, rfl⟩

end IC.CanonicalState
