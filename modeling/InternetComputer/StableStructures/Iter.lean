import InternetComputer.StableStructures.BTreeMap

/-!
# Iterating over a `StableBTreeMap`

`Iter` walks the tree in order with a stack of cursors. `range(prefix, offset)` goes down to where
`prefix ++ offset` would be, and the iterator stops at the first entry that does not start with
`prefix`. The walk yields a key as often as the tree holds it, so after the insertion that re-adds
the median of a full child, `range` yields that key twice (`range_yields_key_twice`).
-/

namespace IC.StableStructures

/-- `Index`: a child or an entry of a node. -/
inductive Index where
  | child (i : ℕ)
  | entry (i : ℕ)

/-- `Cursor`: a node's address, or a loaded node and what to visit next. -/
inductive Cursor where
  | address (address : Address)
  | node (node : Node) (next : Index)

/-- `Iter`: the stack of cursors, the prefix, and the offset. -/
structure Iter where
  cursors : List Cursor
  prefixKey : Option Key
  offset : Option Key

namespace Iter

/-- Where to start in a node: its first child, or in a leaf its first entry. -/
def firstIndex (node : Node) : Index :=
  match node.nodeType with
  | .internal => .child 0
  | .leaf => .entry 0

/-- Where to go on after the entry `entryIdx`: the child after it, or in a leaf the next entry. -/
def afterEntry (node : Node) (entryIdx : ℕ) : Index :=
  match node.nodeType with
  | .internal => .child (entryIdx + 1)
  | .leaf => .entry (entryIdx + 1)

/-- What `next` does with an entry: return it, or, with a prefix, stop and clear the cursors at a
key without the prefix or below `prefix ++ offset`. -/
def yieldEntry (it : Iter) (entry : Key × Value) : Option (Key × Value) × Iter :=
  match it.prefixKey with
  | some pfx =>
    if !pfx.isPrefixOf entry.1 then (none, { it with cursors := [] })
    else match it.offset with
      | some offset =>
        if entry.1 < pfx ++ offset then (none, { it with cursors := [] }) else (some entry, it)
      | none => (some entry, it)
  | none => (some entry, it)

/-- `Iter::next`: pop the top cursor, push a loaded node's first place or a child, or take an
entry and push the place after it; each push calls `next` again, on a unit of fuel. -/
def next (t : StableBTreeMap) : ℕ → Iter → Except String (Option (Key × Value) × Iter)
  | 0, _ => .error outOfFuel
  | fuel + 1, it =>
    match it.cursors with
    | [] => pure (none, it)
    | .address address :: rest =>
      if address ≠ NULL then do
        let node ← t.loadNode address
        next t fuel { it with cursors := .node node (firstIndex node) :: rest }
      else next t fuel { it with cursors := rest }
    | .node node (.child childIdx) :: rest => do
      let childAddress ← Rust.expect node.children[childIdx]?
        "Iterating over children went out of bounds."
      next t fuel { it with cursors := .address childAddress :: .node node (.entry childIdx) :: rest }
    | .node node (.entry entryIdx) :: rest =>
      if node.entries.length ≤ entryIdx then next t fuel { it with cursors := rest }
      else do
        let (node, entry) ← node.swapEntry entryIdx ([], [])
        pure (yieldEntry { it with cursors := .node node (afterEntry node entryIdx) :: rest } entry)

/-- The entries the iterator returns until `None`, at most `count`. -/
def toList (t : StableBTreeMap) (fuel : ℕ) : ℕ → Iter → Except String (List (Key × Value))
  | 0, _ => .error outOfFuel
  | count + 1, it => do
    let (entry, it) ← it.next t fuel
    match entry with
    | none => pure []
    | some entry => do
      let rest ← toList t fuel count it
      pure (entry :: rest)

end Iter

namespace StableBTreeMap

/-- `iter`: from the root, with no prefix. -/
def iter (t : StableBTreeMap) : Iter := ⟨[.address t.rootAddr], none, none⟩

/-- The loop of `range`: the place of `prefix ++ offset` in each node, down to a leaf. -/
def rangeLoop (t : StableBTreeMap) (pfx : Key) (offset : Option Key) :
    ℕ → Node → List Cursor → Except String Iter
  | 0, _, _ => .error outOfFuel
  | fuel + 1, node, cursors => do
    let pivot := match offset with
      | some offset => pfx ++ offset
      | none => pfx
    let idx := match search node.entries pivot with
      | .ok idx => idx
      | .error idx => idx
    let child ← match node.nodeType with
      | .internal => do
        let childAddress ← Rust.index node.children idx
        let child ← t.loadNode childAddress
        pure (some child)
      | .leaf => pure none
    let cursors := match node.entries[idx]? with
      | some entry => if pfx.isPrefixOf entry.1 then .node node (.entry idx) :: cursors else cursors
      | none => cursors
    match child with
    | none => pure ⟨cursors, some pfx, offset⟩
    | some child => rangeLoop t pfx offset fuel child cursors

/-- `range(prefix, offset)`. -/
def range (t : StableBTreeMap) (pfx : Key) (offset : Option Key) : Except String Iter :=
  if t.rootAddr = NULL then pure ⟨[], none, none⟩
  else do
    let root ← t.loadNode t.rootAddr
    rangeLoop t pfx offset t.fuel root []

/-! ## A key yielded twice

After keys `[1]` to `[17]`, the root holds `[6]` and `[12]`, and inserting `[12]` again puts a
second `[12]` into the leaf below the root's `[12]`, as `insert_nonfull` splits that full leaf.
`range([12], None)` goes down to that leaf, leaving a cursor at the root's `[12]` and one at the
leaf's, and yields both. -/

/-- After `[12]` is inserted twice, `range([12], None)` yields `[12]` twice. -/
theorem range_yields_key_twice :
    let t₀ : StableBTreeMap := (new Memory.empty 1 1).run
      ((List.range' 1 17).map fun i => .insert [UInt8.ofNat i] [])
    let t := t₀.run [.insert [12] [1]]
    ((t₀.range [12] none).bind fun it => it.toList t₀ t₀.fuel 19) = .ok [([12], [])] ∧
      ((t.range [12] none).bind fun it => it.toList t t.fuel 19) =
        .ok [([12], [1]), ([12], [])] := by
  decide

end StableBTreeMap

end IC.StableStructures
