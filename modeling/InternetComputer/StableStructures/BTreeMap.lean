import InternetComputer.StableStructures.Allocator
import InternetComputer.Lib.Bytes

/-!
# `StableBTreeMap`

A B-tree of minimum degree `B` over byte-string keys, after Cormen et al., each node a chunk of
the allocator. Each function returns the map with its result, or the message of a panic; a
recursion over the tree takes fuel, the number of allocated chunks plus one.

* `Node.save`, `Node.load`, `search`; `insert`, `insertNonfull`, `splitChild`; `get`,
  `containsKey`, `len`; `remove`, `removeHelper`, `merge`;
* `StableBTreeMap.execute`, `run`: a sequence of calls, a panic leaving the map as it was.
-/

namespace IC.StableStructures

/-- `B`, the minimum degree. -/
def B : ℕ := 6

/-- `CAPACITY`, the most entries a node holds. -/
def capacity : ℕ := 2 * B - 1

/-- `size_of::<NodeHeader>()`: 3 + 1 + 1 + 2 packed bytes. -/
def nodeHeaderSize : ℕ := 7

/-- The message of a recursion that ran out of fuel, which the source's do not do. -/
def outOfFuel : String := "out of fuel"

/-- `binary_search_by(|e| e.0.cmp(key))` over entries in increasing key order. -/
def search : List (Key × Value) → Key → Except ℕ ℕ
  | [], _ => .error 0
  | e :: es, key =>
    if e.1 = key then .ok 0
    else if key < e.1 then .error 0
    else match search es key with
      | .ok idx => .ok (idx + 1)
      | .error idx => .error (idx + 1)

/-- The check of `Node::save` that the keys strictly increase. -/
def keysIncrease : List (Key × Value) → Bool
  | a :: b :: rest => decide (a.1 < b.1) && keysIncrease (b :: rest)
  | _ => true

theorem keysIncrease_eq_true_iff :
    ∀ {entries : List (Key × Value)}, keysIncrease entries = true ↔
      entries.IsChain fun a b => a.1 < b.1
  | [] => by simp [keysIncrease]
  | [_] => by simp [keysIncrease]
  | a :: b :: rest => by
    rw [keysIncrease, Bool.and_eq_true, decide_eq_true_iff, keysIncrease_eq_true_iff,
      List.isChain_cons_cons]

namespace Node

/-- `Node::size`: the header, room for `CAPACITY` entries and for `CAPACITY + 1` children. -/
def size (maxKeySize maxValueSize : ℕ) : ℕ :=
  nodeHeaderSize + capacity * (4 + maxKeySize + maxValueSize + 4) + (capacity + 1) * 8

/-- `Node::is_full`. -/
def isFull (n : Node) : Bool := decide (capacity ≤ n.entries.length)

/-- `Node::swap_entry`: the entry at `idx` replaced, and returned. -/
def swapEntry (n : Node) (idx : ℕ) (entry : Key × Value) : Except String (Node × (Key × Value)) := do
  let old ← Rust.index n.entries idx
  pure ({ n with entries := n.entries.set idx entry }, old)

/-- `Node::save`, with its checks of the node's shape. -/
def save (n : Node) (m : Memory) : Except String Memory := do
  match n.nodeType with
  | .leaf => Rust.assert n.children.isEmpty "assertion failed: self.children.is_empty()"
  | .internal =>
    Rust.assert (n.children.length == n.entries.length + 1) "assertion failed: \x60(left == right)\x60"
  Rust.assert (!n.entries.isEmpty || !n.children.isEmpty)
    "assertion failed: !self.entries.is_empty() || !self.children.is_empty()"
  Rust.assert (keysIncrease n.entries)
    "assertion failed: self.entries.windows(2).all(|e| e[0].0 < e[1].0)"
  pure { m with nodes := Function.update m.nodes n.address (some n) }

/-- `Node::load`: the node saved at the address. -/
def load (m : Memory) (address : Address) : Except String Node := do
  let n ← Rust.expect (m.nodes address) "Bad magic."
  pure { n with address }

/-- `Node::get_max`: the last entry of the subtree, down the last children. -/
def getMax (m : Memory) : ℕ → Node → Except String (Key × Value)
  | 0, _ => .error outOfFuel
  | fuel + 1, n =>
    match n.nodeType with
    | .leaf => Rust.expect n.entries.getLast? "A node can never be empty"
    | .internal => do
      let lastChild ← Rust.expect n.children.getLast? "An internal node must have children."
      let child ← load m lastChild
      getMax m fuel child

/-- `Node::get_min`: the first entry of the subtree, down the first children. -/
def getMin (m : Memory) : ℕ → Node → Except String (Key × Value)
  | 0, _ => .error outOfFuel
  | fuel + 1, n =>
    match n.nodeType with
    | .leaf => Rust.index n.entries 0
    | .internal => do
      let firstChild ← Rust.index n.children 0
      let child ← load m firstChild
      getMin m fuel child

end Node

/-- `InsertError`. -/
inductive InsertError where
  | keyTooLarge (given max : ℕ)
  | valueTooLarge (given max : ℕ)
  deriving DecidableEq, Repr

/-- `StableBTreeMap`: the root, the bounds, the allocator, the length and the memory. -/
structure StableBTreeMap where
  rootAddr : Address
  maxKeySize : ℕ
  maxValueSize : ℕ
  allocator : Allocator
  length : ℕ
  memory : Memory

namespace StableBTreeMap

/-- `StableBTreeMap::save`: the header written at address zero. -/
def save (t : StableBTreeMap) : StableBTreeMap :=
  { t with memory := { t.memory with
    btreeHeader := some ⟨t.maxKeySize, t.maxValueSize, t.rootAddr, t.length⟩ } }

/-- `StableBTreeMap::new`: an empty map, its allocator right after its header. -/
def new (memory : Memory) (maxKeySize maxValueSize : ℕ) : StableBTreeMap :=
  let allocatorAddr := 0 + btreeHeaderSize
  let (allocator, memory) :=
    Allocator.new memory allocatorAddr (Node.size maxKeySize maxValueSize)
  (⟨NULL, maxKeySize, maxValueSize, allocator, 0, memory⟩ : StableBTreeMap).save

/-- `StableBTreeMap::load`: the map whose headers the memory holds. -/
def load (memory : Memory) : Except String StableBTreeMap := do
  let header ← Rust.expect memory.btreeHeader "Bad magic."
  let allocator ← Allocator.load memory (0 + btreeHeaderSize)
  pure ⟨header.rootAddr, header.maxKeySize, header.maxValueSize, allocator, header.length, memory⟩

/-- `allocate_node`: an empty node in a new chunk. -/
def allocateNode (t : StableBTreeMap) (nodeType : NodeType) :
    Except String (StableBTreeMap × Node) := do
  let (allocator, memory, address) ← t.allocator.allocate t.memory
  pure ({ t with allocator, memory }, ⟨address, [], [], nodeType⟩)

/-- `load_node`. -/
def loadNode (t : StableBTreeMap) (address : Address) : Except String Node :=
  Node.load t.memory address

/-- `node.save(&self.memory)`. -/
def saveNode (t : StableBTreeMap) (n : Node) : Except String StableBTreeMap := do
  let memory ← n.save t.memory
  pure { t with memory }

/-- `self.allocator.deallocate(address)`. -/
def deallocate (t : StableBTreeMap) (address : Address) : Except String StableBTreeMap := do
  let (allocator, memory) ← t.allocator.deallocate t.memory address
  pure { t with allocator, memory }

/-- The fuel of a recursion over the tree, bounding its height. -/
def fuel (t : StableBTreeMap) : ℕ := t.allocator.numAllocatedChunks + 1

/-! ## Insertion -/

/-- `split_child`: the full child at `fullChildIdx` of a node that is not full is split around
its median entry, which moves up into the node, the entries and children above it going to a new
sibling. -/
def splitChild (t : StableBTreeMap) (node : Node) (fullChildIdx : ℕ) :
    Except String (StableBTreeMap × Node) := do
  Rust.assert (!node.isFull) "assertion failed: !node.is_full()"
  let fullChild ← t.loadNode (← Rust.index node.children fullChildIdx)
  Rust.assert fullChild.isFull "assertion failed: full_child.is_full()"
  let (t, sibling) ← t.allocateNode fullChild.nodeType
  let (kept, moved) ← Rust.splitOff fullChild.entries B
  let fullChild := { fullChild with entries := kept }
  let sibling := { sibling with entries := moved }
  let (fullChild, sibling) ← if fullChild.nodeType = .internal then do
      let (kept, moved) ← Rust.splitOff fullChild.children B
      pure ({ fullChild with children := kept }, { sibling with children := moved })
    else pure (fullChild, sibling)
  let children ← Rust.insert node.children (fullChildIdx + 1) sibling.address
  let node := { node with children }
  let median ← Rust.expect fullChild.entries.getLast? "A full child cannot be empty"
  let fullChild := { fullChild with entries := fullChild.entries.dropLast }
  let entries ← Rust.insert node.entries fullChildIdx median
  let node := { node with entries }
  let t ← t.saveNode sibling
  let t ← t.saveNode fullChild
  let t ← t.saveNode node
  pure (t, node)

/-- `insert_nonfull`: a full child on the way down is split first. -/
def insertNonfull : ℕ → StableBTreeMap → Node → Key → Value →
    Except String (StableBTreeMap × Option Value)
  | 0, _, _, _, _ => .error outOfFuel
  | fuel + 1, t, node, key, value => do
    Rust.assert (!node.isFull) "assertion failed: !node.is_full()"
    match search node.entries key with
    | .ok idx =>
      let (node, (_, previousValue)) ← node.swapEntry idx (key, value)
      let t ← t.saveNode node
      pure (t, some previousValue)
    | .error idx =>
      match node.nodeType with
      | .leaf =>
        let entries ← Rust.insert node.entries idx (key, value)
        let node := { node with entries }
        let t ← t.saveNode node
        pure ({ t with length := t.length + 1 }.save, none)
      | .internal => do
        let child ← t.loadNode (← Rust.index node.children idx)
        let (t, child) ← if child.isFull then do
            let (t, node) ← t.splitChild node idx
            -- the search again, where `Ok` and `Err` both give the child to go down
            let idx := match search node.entries key with
              | .ok idx => idx
              | .error idx => idx
            let child ← t.loadNode (← Rust.index node.children idx)
            pure (t, child)
          else pure (t, child)
        Rust.assert (!child.isFull) "assertion failed: !child.is_full()"
        insertNonfull fuel t child key value

/-- `StableBTreeMap::insert`: a full root is split under a new root first. -/
def insert (t : StableBTreeMap) (key : Key) (value : Value) :
    Except String (StableBTreeMap × Except InsertError (Option Value)) := do
  if key.length > t.maxKeySize then
    return (t, .error (.keyTooLarge key.length t.maxKeySize))
  if value.length > t.maxValueSize then
    return (t, .error (.valueTooLarge value.length t.maxValueSize))
  let fuel := t.fuel
  let (t, root) ← if t.rootAddr = NULL then do
      let (t, node) ← t.allocateNode .leaf
      pure ({ t with rootAddr := node.address }.save, node)
    else do
      let root ← t.loadNode t.rootAddr
      if root.isFull then do
        let (t, newRoot) ← t.allocateNode .internal
        let newRoot := { newRoot with children := newRoot.children ++ [t.rootAddr] }
        let t := { t with rootAddr := newRoot.address }.save
        t.splitChild newRoot 0
      else pure (t, root)
  let (t, previous) ← t.insertNonfull fuel root key value
  pure (t, .ok previous)

/-! ## Reads -/

/-- `get_helper`: the value of the key in the subtree, found where the search stops. -/
def getHelper (t : StableBTreeMap) : ℕ → Address → Key → Except String (Option Value)
  | 0, _, _ => .error outOfFuel
  | fuel + 1, nodeAddr, key => do
    let node ← t.loadNode nodeAddr
    match search node.entries key with
    | .ok idx => do
      let entry ← Rust.index node.entries idx
      pure (some entry.2)
    | .error idx =>
      match node.nodeType with
      | .leaf => pure none
      | .internal => t.getHelper fuel (← Rust.index node.children idx) key

/-- `StableBTreeMap::get`. -/
def get (t : StableBTreeMap) (key : Key) : Except String (Option Value) :=
  if t.rootAddr = NULL then pure none else t.getHelper t.fuel t.rootAddr key

/-- `contains_key`. -/
def containsKey (t : StableBTreeMap) (key : Key) : Except String Bool :=
  (t.get key).map Option.isSome

/-- `is_empty`. -/
def isEmpty (t : StableBTreeMap) : Bool := t.length == 0

/-- `len`. -/
def len (t : StableBTreeMap) : ℕ := t.length

/-! ## Removal -/

/-- `merge`: `source` merged into `into` around the median; `source` is freed. -/
def merge (t : StableBTreeMap) (source into : Node) (median : Key × Value) :
    Except String (StableBTreeMap × Node) := do
  Rust.assert (source.nodeType == into.nodeType) "assertion failed: \x60(left == right)\x60"
  Rust.assert (!source.entries.isEmpty) "assertion failed: !source.entries.is_empty()"
  Rust.assert (!into.entries.isEmpty) "assertion failed: !into.entries.is_empty()"
  let sourceFirst ← Rust.index source.entries 0
  let intoFirst ← Rust.index into.entries 0
  let (lower, higher) := if sourceFirst.1 < intoFirst.1 then (source, into) else (into, source)
  let lower := { lower with
    entries := lower.entries ++ [median] ++ higher.entries
    address := into.address
    children := lower.children ++ higher.children }
  let t ← t.saveNode lower
  let t ← t.deallocate source.address
  pure (t, lower)

/-- Case 1 of `remove_helper`: the key is removed from the leaf. -/
def removeFromLeaf (t : StableBTreeMap) (node : Node) (idx : ℕ) :
    Except String (StableBTreeMap × Option Value) := do
  let ((_, value), entries) ← Rust.remove node.entries idx
  let node := { node with entries }
  let t := { t with length := t.length - 1 }
  let t ← if node.entries.isEmpty then do
      Rust.assert (node.address == t.rootAddr)
        "Removal can only result in an empty leaf node if that node is the root"
      let t ← t.deallocate node.address
      pure { t with rootAddr := NULL }
    else t.saveNode node
  pure (t.save, some value)

/-- Case 2.c of `remove_helper`: both children around the key have `B - 1` entries, so the right
is merged into the left around it, and the removal goes on in the merged child. -/
def mergeAroundKey (t : StableBTreeMap) (node : Node) (idx : ℕ) (leftChild rightChild : Node) :
    Except String (StableBTreeMap × Address) := do
  Rust.assert (leftChild.entries.length == B - 1) "assertion failed: \x60(left == right)\x60"
  Rust.assert (rightChild.entries.length == B - 1) "assertion failed: \x60(left == right)\x60"
  let (median, entries) ← Rust.remove node.entries idx
  let node := { node with entries }
  let (t, newChild) ← t.merge rightChild leftChild median
  let (_, children) ← Rust.remove node.children (idx + 1)
  let node := { node with children }
  let t ← if node.entries.isEmpty then do
      Rust.assert (node.address == t.rootAddr) "assertion failed: \x60(left == right)\x60"
      Rust.assert (node.children == [newChild.address]) "assertion failed: \x60(left == right)\x60"
      let t := { t with rootAddr := newChild.address }
      let t ← t.deallocate node.address
      pure t.save
    else pure t
  let t ← t.saveNode node
  let t ← t.saveNode newChild
  pure (t, newChild.address)

/-- Case 3.a (left) of `remove_helper`: the child has `B - 1` entries and its left sibling `B`, so
the sibling's last entry moves up and the separator down into the child. -/
def rotateFromLeft (t : StableBTreeMap) (node : Node) (idx : ℕ) (child leftSibling : Node) :
    Except String StableBTreeMap := do
  let leftSiblingEntry ← Rust.expect leftSibling.entries.getLast?
    "called \x60Option::unwrap()\x60 on a \x60None\x60 value"
  let leftSibling := { leftSibling with entries := leftSibling.entries.dropLast }
  let (node, parentEntry) ← node.swapEntry (idx - 1) leftSiblingEntry
  let entries ← Rust.insert child.entries 0 parentEntry
  let child := { child with entries }
  let (leftSibling, child) ← match leftSibling.children.getLast? with
    | some lastChild => do
      Rust.assert (leftSibling.nodeType == .internal) "assertion failed: \x60(left == right)\x60"
      Rust.assert (child.nodeType == .internal) "assertion failed: \x60(left == right)\x60"
      let children ← Rust.insert child.children 0 lastChild
      pure ({ leftSibling with children := leftSibling.children.dropLast }, { child with children })
    | none => do
      Rust.assert (leftSibling.nodeType == .leaf) "assertion failed: \x60(left == right)\x60"
      Rust.assert (child.nodeType == .leaf) "assertion failed: \x60(left == right)\x60"
      pure (leftSibling, child)
  let t ← t.saveNode leftSibling
  let t ← t.saveNode child
  t.saveNode node

/-- Case 3.a (right) of `remove_helper`, from a right sibling with at least `B` entries. -/
def rotateFromRight (t : StableBTreeMap) (node : Node) (idx : ℕ) (child rightSibling : Node) :
    Except String StableBTreeMap := do
  let (rightSiblingEntry, entries) ← Rust.remove rightSibling.entries 0
  let rightSibling := { rightSibling with entries }
  let (node, parentEntry) ← node.swapEntry idx rightSiblingEntry
  let child := { child with entries := child.entries ++ [parentEntry] }
  let (rightSibling, child) ← match rightSibling.nodeType with
    | .internal => do
      Rust.assert (child.nodeType == .internal) "assertion failed: \x60(left == right)\x60"
      let (firstChild, children) ← Rust.remove rightSibling.children 0
      pure ({ rightSibling with children }, { child with children := child.children ++ [firstChild] })
    | .leaf => do
      Rust.assert (child.nodeType == .leaf) "assertion failed: \x60(left == right)\x60"
      pure (rightSibling, child)
  let t ← t.saveNode rightSibling
  let t ← t.saveNode child
  t.saveNode node

/-- Case 3.b of `remove_helper`: the child is merged into a sibling around their separator, a node
left empty is freed (the sibling becoming the root), and the removal goes on in the sibling. -/
def mergeIntoSibling (t : StableBTreeMap) (node : Node) (idx entryIdx : ℕ) (child sibling : Node) :
    Except String (StableBTreeMap × Address) := do
  let (median, entries) ← Rust.remove node.entries entryIdx
  let node := { node with entries }
  let (t, _) ← t.merge child sibling median
  let (_, children) ← Rust.remove node.children idx
  let node := { node with children }
  let t ← if node.entries.isEmpty then do
      let t ← t.deallocate node.address
      if node.address = t.rootAddr then pure { t with rootAddr := sibling.address }.save
      else pure t
    else t.saveNode node
  pure (t, sibling.address)

/-- `remove_helper`: the key removed from the subtree of the node. -/
def removeHelper : ℕ → StableBTreeMap → Address → Key →
    Except String (StableBTreeMap × Option Value)
  | 0, _, _, _ => .error outOfFuel
  | fuel + 1, t, nodeAddr, key => do
    let node ← t.loadNode nodeAddr
    if node.address ≠ t.rootAddr then
      Rust.assert (decide (B ≤ node.entries.length))
        "assertion failed: node.entries.len() >= B as usize"
    match node.nodeType, search node.entries key with
    | .leaf, .ok idx => t.removeFromLeaf node idx
    | .leaf, .error _ => pure (t, none)
    | .internal, .ok idx => do
      -- case 2: the key is in the internal node
      let leftChild ← t.loadNode (← Rust.index node.children idx)
      if B ≤ leftChild.entries.length then do
        -- case 2.a: the key's predecessor takes its place
        let predecessor ← leftChild.getMax t.memory fuel
        let (t, removed) ← t.removeHelper fuel (← Rust.index node.children idx) predecessor.1
        match removed with
        | none => pure (t, none)
        | some _ => do
          let (node, (_, oldValue)) ← node.swapEntry idx predecessor
          let t ← t.saveNode node
          pure (t, some oldValue)
      else do
        let rightChild ← t.loadNode (← Rust.index node.children (idx + 1))
        if B ≤ rightChild.entries.length then do
          -- case 2.b: the key's successor takes its place
          let successor ← rightChild.getMin t.memory fuel
          let (t, removed) ← t.removeHelper fuel (← Rust.index node.children (idx + 1))
            successor.1
          match removed with
          | none => pure (t, none)
          | some _ => do
            let (node, (_, oldValue)) ← node.swapEntry idx successor
            let t ← t.saveNode node
            pure (t, some oldValue)
        else do
          let (t, newChildAddr) ← t.mergeAroundKey node idx leftChild rightChild
          t.removeHelper fuel newChildAddr key
    | .internal, .error idx => do
      -- case 3: the key is not in the internal node, and if anywhere under child `idx`
      let childAddr ← Rust.index node.children idx
      let child ← t.loadNode childAddr
      if B ≤ child.entries.length then t.removeHelper fuel childAddr key
      else do
        let leftSibling ← if idx > 0 then
            some <$> t.loadNode (← Rust.index node.children (idx - 1))
          else pure none
        let rightSibling ← if idx + 1 < node.children.length then
            some <$> t.loadNode (← Rust.index node.children (idx + 1))
          else pure none
        match leftSibling, rightSibling with
        | some leftSibling, rightSibling =>
          if B ≤ leftSibling.entries.length then do
            let t ← t.rotateFromLeft node idx child leftSibling
            t.removeHelper fuel child.address key
          else match rightSibling with
            | some rightSibling =>
              if B ≤ rightSibling.entries.length then do
                let t ← t.rotateFromRight node idx child rightSibling
                t.removeHelper fuel child.address key
              else do
                let (t, siblingAddr) ← t.mergeIntoSibling node idx (idx - 1) child leftSibling
                t.removeHelper fuel siblingAddr key
            | none => do
              let (t, siblingAddr) ← t.mergeIntoSibling node idx (idx - 1) child leftSibling
              t.removeHelper fuel siblingAddr key
        | none, some rightSibling =>
          if B ≤ rightSibling.entries.length then do
            let t ← t.rotateFromRight node idx child rightSibling
            t.removeHelper fuel child.address key
          else do
            let (t, siblingAddr) ← t.mergeIntoSibling node idx idx child rightSibling
            t.removeHelper fuel siblingAddr key
        | none, none =>
          .error "internal error: entered unreachable code: At least one of the siblings must exist."

/-- `StableBTreeMap::remove`: the previous value of the key. -/
def remove (t : StableBTreeMap) (key : Key) : Except String (StableBTreeMap × Option Value) :=
  if t.rootAddr = NULL then pure (t, none) else t.removeHelper t.fuel t.rootAddr key

/-! ## Runs -/

/-- A call of the map: an insert, a remove, or a load from its memory. -/
inductive Call where
  | insert (key : Key) (value : Value)
  | remove (key : Key)
  | load

/-- The map after a call; a panic traps and leaves it as it was. -/
def execute (t : StableBTreeMap) : Call → StableBTreeMap
  | .insert key value =>
    match t.insert key value with
    | .ok (t', _) => t'
    | .error _ => t
  | .remove key =>
    match t.remove key with
    | .ok (t', _) => t'
    | .error _ => t
  | .load =>
    match load t.memory with
    | .ok t' => t'
    | .error _ => t

/-- The map after a sequence of calls. -/
def run (t : StableBTreeMap) (calls : List Call) : StableBTreeMap :=
  calls.foldl execute t

/-! ## A key overwritten at the median of a full child

`insert_nonfull` looks for the key in a node, and splits the child it goes down to if that child
is full. When the key is the median of that child, the split moves the stored entry up into the
node, and the search again finds it there: `Ok(idx)`, whose index is that of the left half. The
entry then goes into the left half as a new key. -/

/-- Keys `[1]` to `[17]` inserted in order; inserting `[12]`, a full leaf's median, again returns
no previous value, counts it twice, and `get` reads the old value. -/
theorem insert_median_of_full_child_adds_duplicate :
    let t : StableBTreeMap := (new Memory.empty 1 1).run
      ((List.range' 1 17).map fun i => .insert [UInt8.ofNat i] [])
    t.get [12] = .ok (some []) ∧ t.len = 17 ∧
      ((t.insert [12] [1]).map fun r => r.2) = .ok (.ok none) ∧
      ((t.insert [12] [1]).map fun r => r.1.len) = .ok 18 ∧
      ((t.insert [12] [1]).bind fun r => r.1.get [12]) = .ok (some []) := by
  decide

/-- After that insert, removing `[7]` and then `[13]` merges a child holding the separator `[12]`
with its sibling, and the merged node, with `[12]` twice, fails `Node::save`. -/
theorem reinserted_median_breaks_key_order :
    let t : StableBTreeMap := (new Memory.empty 1 1).run
      ((List.range' 1 17).map (fun i => .insert [UInt8.ofNat i] []) ++ [.insert [12] [1]])
    ((t.loadNode t.rootAddr).map fun root => root.entries.map Prod.fst) = .ok [[6], [12]] ∧
    ((t.loadNode t.rootAddr).bind fun root => (Rust.index root.children 1).bind fun child =>
      (t.loadNode child).map fun n => n.entries.map Prod.fst) =
        .ok [[7], [8], [9], [10], [11], [12]] ∧
    (((t.remove [7]).bind fun r => r.1.remove [13]).map fun r => r.2) =
      .error "assertion failed: self.entries.windows(2).all(|e| e[0].0 < e[1].0)" := by
  decide

end StableBTreeMap

end IC.StableStructures
