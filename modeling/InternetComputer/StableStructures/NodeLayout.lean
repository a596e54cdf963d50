import InternetComputer.StableStructures.ByteMemory
import InternetComputer.StableStructures.BTreeMap

/-!
# The byte layout of a node

`Node::save` and `Node::load` of `node.rs`, byte by byte over a `Memory`: the header (`BTN`, the
version, the node type and the number of entries), each entry's key and value sizes and slots,
and the children, eight bytes each.

* `layoutSlots`, `save_eq_writes`: `save` writes the slots of the layout in turn;
* `load_of_reads`: `load` reads back a node whose layout reads back;
* `Node.save_eq_ok_iff`, `save_refines`: a save at bytes is a save of the node store.
-/

namespace IC.StableStructures

open Layout

/-- `MAGIC`: `b"BTN"`. -/
def magic : List UInt8 := [66, 84, 78]

/-- `LAYOUT_VERSION`. -/
def layoutVersion : UInt8 := 1

/-- `LEAF_NODE_TYPE`. -/
def leafNodeType : UInt8 := 0

/-- `INTERNAL_NODE_TYPE`. -/
def internalNodeType : UInt8 := 1

/-- `NodeHeader`, `repr(packed)`. -/
structure NodeHeader where
  magic : List UInt8
  version : UInt8
  nodeType : UInt8
  numEntries : UInt16

namespace NodeHeader

/-- The bytes of a packed header, as `write_struct` writes them. -/
def bytes (h : NodeHeader) : List UInt8 :=
  h.magic ++ [h.version, h.nodeType] ++ Bytes.toLeBytes 2 h.numEntries.toNat

/-- The header `read_struct` reads from its bytes. -/
def ofBytes (bs : List UInt8) : NodeHeader :=
  ⟨bs.take 3, bs.getD 3 0, bs.getD 4 0, UInt16.ofNat (Bytes.ofLeBytes ((bs.drop 5).take 2))⟩

theorem length_bytes {h : NodeHeader} (hmagic : h.magic.length = 3) :
    h.bytes.length = nodeHeaderSize := by
  simp [bytes, hmagic, nodeHeaderSize]

theorem ofBytes_bytes {h : NodeHeader} (hmagic : h.magic.length = 3) : ofBytes h.bytes = h := by
  obtain ⟨m, version, nodeType, numEntries⟩ := h
  have hnum : (UInt16.ofNat (Bytes.ofLeBytes (Bytes.toLeBytes 2 numEntries.toNat))) = numEntries := by
    rw [Bytes.ofLeBytes_toLeBytes numEntries.toNat_lt]
    exact UInt16.ofNat_toNat
  have htake : (Bytes.toLeBytes 2 numEntries.toNat).take 2 = Bytes.toLeBytes 2 numEntries.toNat :=
    List.take_of_length_le (by simp)
  match m, hmagic with
  | [a, b, c], _ => simp [ofBytes, bytes, htake, hnum]

end NodeHeader

/-- The byte of a node type in the header. -/
def nodeTypeByte : NodeType → UInt8
  | .leaf => leafNodeType
  | .internal => internalNodeType

/-- The header `Node::save` writes. -/
def Node.header (n : Node) : NodeHeader :=
  ⟨magic, layoutVersion, nodeTypeByte n.nodeType, UInt16.ofNat n.entries.length⟩

variable {σ : Type} (M : MemoryOps σ)

/-- `read_u32`: four bytes, little-endian. -/
def readU32 (memory : σ) (addr : ℕ) : Except String UInt32 := do
  let buf ← M.read memory addr 4
  pure (UInt32.ofNat (Bytes.ofLeBytes buf))

/-- `read_u64`: eight bytes, little-endian. -/
def readU64 (memory : σ) (addr : ℕ) : Except String UInt64 := do
  let buf ← M.read memory addr 8
  pure (UInt64.ofNat (Bytes.ofLeBytes buf))

/-- `write_u32`: four bytes, little-endian. -/
def writeU32 (memory : σ) (addr : ℕ) (val : UInt32) : Except String σ :=
  write M memory addr (Bytes.toLeBytes 4 val.toNat)

/-- The checks of `Node::save`. -/
def Node.saveChecks (n : Node) : Except String Unit := do
  match n.nodeType with
  | .leaf => Rust.assert n.children.isEmpty "assertion failed: self.children.is_empty()"
  | .internal =>
    Rust.assert (n.children.length == n.entries.length + 1) "assertion failed: \x60(left == right)\x60"
  Rust.assert (!n.entries.isEmpty || !n.children.isEmpty)
    "assertion failed: !self.entries.is_empty() || !self.children.is_empty()"
  Rust.assert (keysIncrease n.entries)
    "assertion failed: self.entries.windows(2).all(|e| e[0].0 < e[1].0)"

theorem Node.save_eq_ok {n : Node} (hchecks : n.saveChecks = .ok ()) (m : Memory) :
    Node.save n m = .ok { m with nodes := Function.update m.nodes n.address (some n) } := by
  have hsave : Node.save n m =
      n.saveChecks >>= fun _ => pure { m with nodes := Function.update m.nodes n.address (some n) } := by
    obtain ⟨address, entries, children, nodeType⟩ := n
    cases nodeType <;> simp only [Node.save, Node.saveChecks, bind_assoc]
  rw [hsave, hchecks, Except.ok_bind]
  rfl

theorem Node.load_save_eq_ok (n : Node) (m : Memory) :
    Node.load { m with nodes := Function.update m.nodes n.address (some n) } n.address = .ok n := by
  simp [Node.load, Rust.expect]

namespace NodeLayout

/-! ## Node::save -/

/-- The loop of `Node::save` over the entries from `offset` on, each key and value after its size
in a slot of its maximum size; it returns the memory and the offset after them. -/
def saveEntries (address : Address) (maxKeySize maxValueSize : UInt32) :
    List (Key × Value) → σ → ℕ → Except String (σ × ℕ)
  | [], memory, offset => pure (memory, offset)
  | (key, value) :: entries, memory, offset => do
    let memory ← writeU32 M memory (address + offset) (UInt32.ofNat key.length)
    let offset := offset + 4
    let memory ← write M memory (address + offset) key
    let offset := offset + maxKeySize.toNat
    let memory ← writeU32 M memory (address + offset) (UInt32.ofNat value.length)
    let offset := offset + 4
    let memory ← write M memory (address + offset) value
    let offset := offset + maxValueSize.toNat
    saveEntries address maxKeySize maxValueSize entries memory offset

/-- The loop of `Node::save` over the children's addresses. -/
def saveChildren (address : Address) : List Address → σ → ℕ → Except String σ
  | [], memory, _ => pure memory
  | child :: children, memory, offset => do
    let memory ← write M memory (address + offset) (Bytes.toLeBytes 8 child)
    saveChildren address children memory (offset + 8)

/-- `Node::save`: the checks, the header, the entries and the children. -/
def save (n : Node) (maxKeySize maxValueSize : UInt32) (memory : σ) : Except String σ := do
  n.saveChecks
  let memory ← write M memory n.address n.header.bytes
  let (memory, offset) ← saveEntries M n.address maxKeySize maxValueSize n.entries memory
    nodeHeaderSize
  saveChildren M n.address n.children memory offset

/-! ## Node::load -/

/-- The loop of `Node::load` over the `count` entries. -/
def loadEntries (memory : σ) (address : Address) (maxKeySize maxValueSize : UInt32) :
    ℕ → List (Key × Value) → ℕ → Except String (List (Key × Value) × ℕ)
  | 0, entries, offset => pure (entries, offset)
  | count + 1, entries, offset => do
    let keySize ← readU32 M memory (address + offset)
    let offset := offset + 4
    let key ← M.read memory (address + offset) keySize.toNat
    let offset := offset + maxKeySize.toNat
    let valueSize ← readU32 M memory (address + offset)
    let offset := offset + 4
    let value ← M.read memory (address + offset) valueSize.toNat
    let offset := offset + maxValueSize.toNat
    loadEntries memory address maxKeySize maxValueSize count (entries ++ [(key, value)]) offset

/-- The loop of `Node::load` over the `count` children, from `offset` on. -/
def loadChildren (memory : σ) (address : Address) :
    ℕ → List Address → ℕ → Except String (List Address × ℕ)
  | 0, children, offset => pure (children, offset)
  | count + 1, children, offset => do
    let child ← readU64 M memory (address + offset)
    loadChildren memory address count (children ++ [child.toNat]) (offset + 8)

/-- `Node::load`: header, entries, children, and the node type last. -/
def load (address : Address) (memory : σ) (maxKeySize maxValueSize : UInt32) :
    Except String Node := do
  let headerBytes ← M.read memory address nodeHeaderSize
  let header := NodeHeader.ofBytes headerBytes
  Rust.assert (header.magic == magic) "Bad magic."
  Rust.assert (header.version == layoutVersion) "Unsupported version."
  let (entries, offset) ← loadEntries M memory address maxKeySize maxValueSize
    header.numEntries.toNat [] nodeHeaderSize
  let children ←
    if header.nodeType == internalNodeType then do
      let (children, _) ← loadChildren M memory address (header.numEntries.toNat + 1) [] offset
      Rust.assert (children.length == entries.length + 1) "assertion failed: \x60(left == right)\x60"
      pure children
    else pure []
  let nodeType ←
    if header.nodeType == leafNodeType then pure NodeType.leaf
    else if header.nodeType == internalNodeType then pure NodeType.internal
    else .error ("internal error: entered unreachable code: Unknown node type " ++
      toString header.nodeType)
  pure ⟨address, entries, children, nodeType⟩

/-! ## The layout -/

/-- The slots of an entry: the size of its key, its key, the size of its value, its value. -/
def entrySlots (maxKeySize maxValueSize : ℕ) (entry : Key × Value) : List (List UInt8 × ℕ) :=
  [(Bytes.toLeBytes 4 (UInt32.ofNat entry.1.length).toNat, 4), (entry.1, maxKeySize),
    (Bytes.toLeBytes 4 (UInt32.ofNat entry.2.length).toNat, 4), (entry.2, maxValueSize)]

/-- The slot of a child: its address in eight bytes. -/
def childSlot (child : Address) : List UInt8 × ℕ := (Bytes.toLeBytes 8 child, 8)

/-- The slots of a node: the header, the entries, the children. -/
def layoutSlots (n : Node) (maxKeySize maxValueSize : ℕ) : List (List UInt8 × ℕ) :=
  (n.header.bytes, nodeHeaderSize) ::
    (n.entries.flatMap (entrySlots maxKeySize maxValueSize) ++ n.children.map childSlot)

theorem saveEntries_eq (address : Address) (maxKeySize maxValueSize : UInt32) :
    ∀ (entries : List (Key × Value)) (memory : σ) (offset : ℕ),
      saveEntries M address maxKeySize maxValueSize entries memory offset =
        writes M memory (place (address + offset)
            (entries.flatMap (entrySlots maxKeySize.toNat maxValueSize.toNat))) >>= fun m =>
          pure (m, offset + width (entries.flatMap (entrySlots maxKeySize.toNat maxValueSize.toNat)))
  | [], memory, offset => rfl
  | (key, value) :: entries, memory, offset => by
    have hw : width (entrySlots maxKeySize.toNat maxValueSize.toNat (key, value)) =
        4 + maxKeySize.toNat + 4 + maxValueSize.toNat := by
      simp only [entrySlots, width, List.map_cons, List.map_nil, List.sum_cons, List.sum_nil]
      omega
    rw [saveEntries, List.flatMap_cons, place_append, writes_append, width_append, hw]
    simp only [entrySlots, place, writes_cons, writes_nil, writeU32, bind_assoc, Except.ok_bind,
      saveEntries_eq address maxKeySize maxValueSize entries, Nat.add_assoc]

theorem saveChildren_eq (address : Address) :
    ∀ (children : List Address) (memory : σ) (offset : ℕ),
      saveChildren M address children memory offset =
        writes M memory (place (address + offset) (children.map childSlot))
  | [], memory, offset => rfl
  | child :: children, memory, offset => by
    simp only [saveChildren, List.map_cons, place, writes_cons, saveChildren_eq address children,
      childSlot, Nat.add_assoc]

/-- **`Node::save` writes the slots of the node in turn**, once its checks pass. -/
theorem save_eq_writes {n : Node} (maxKeySize maxValueSize : UInt32) (memory : σ)
    (hchecks : n.saveChecks = .ok ()) :
    save M n maxKeySize maxValueSize memory =
      writes M memory (place n.address (layoutSlots n maxKeySize.toNat maxValueSize.toNat)) := by
  rw [save, hchecks, Except.ok_bind]
  simp only [layoutSlots, place, writes_cons, place_append, writes_append, saveEntries_eq,
    saveChildren_eq, bind_assoc, pure_bind, Nat.add_assoc]

/-! ## Reading the layout back -/

variable {M}

theorem readU32_of_read {memory : σ} {addr x : ℕ}
    (h : M.read memory addr 4 = .ok (Bytes.toLeBytes 4 (UInt32.ofNat x).toNat)) :
    readU32 M memory addr = .ok (UInt32.ofNat x) := by
  rw [readU32, h, Except.ok_bind,
    Bytes.ofLeBytes_toLeBytes (show (UInt32.ofNat x).toNat < 256 ^ 4 from UInt32.toNat_lt _),
    UInt32.ofNat_toNat]
  rfl

theorem readU64_of_read {memory : σ} {addr x : ℕ} (hx : x < 2 ^ 64)
    (h : M.read memory addr 8 = .ok (Bytes.toLeBytes 8 x)) :
    readU64 M memory addr = .ok (UInt64.ofNat x) := by
  rw [readU64, h, Except.ok_bind, Bytes.ofLeBytes_toLeBytes (show x < 256 ^ 8 from hx)]
  rfl

theorem loadEntries_of_reads {memory : σ} {address : Address} {maxKeySize maxValueSize : UInt32} :
    ∀ (entries acc : List (Key × Value)) (offset : ℕ),
      (∀ e ∈ entries, e.1.length < 2 ^ 32 ∧ e.2.length < 2 ^ 32) →
      (∀ w ∈ place (address + offset)
          (entries.flatMap (entrySlots maxKeySize.toNat maxValueSize.toNat)),
        M.read memory w.1 w.2.length = .ok w.2) →
      loadEntries M memory address maxKeySize maxValueSize entries.length acc offset =
        .ok (acc ++ entries,
          offset + width (entries.flatMap (entrySlots maxKeySize.toNat maxValueSize.toNat)))
  | [], acc, offset, _, _ => by
    rw [List.length_nil, loadEntries, List.append_nil, List.flatMap_nil]
    rfl
  | (key, value) :: entries, acc, offset, hlen, hreads => by
    have hw : width (entrySlots maxKeySize.toNat maxValueSize.toNat (key, value)) =
        4 + maxKeySize.toNat + 4 + maxValueSize.toNat := by
      simp only [entrySlots, width, List.map_cons, List.map_nil, List.sum_cons, List.sum_nil]
      omega
    rw [List.flatMap_cons, place_append, hw] at hreads
    have hhead : ∀ w ∈ place (address + offset)
        (entrySlots maxKeySize.toNat maxValueSize.toNat (key, value)),
        M.read memory w.1 w.2.length = .ok w.2 := fun w hw => hreads w (List.mem_append_left _ hw)
    obtain ⟨hk, hv⟩ := hlen (key, value) List.mem_cons_self
    -- the four slots of the entry, read at the offsets `Node::load` reads them at
    have h₁ : readU32 M memory (address + offset) = .ok (UInt32.ofNat key.length) :=
      readU32_of_read (by
        simpa using hhead (address + offset, Bytes.toLeBytes 4 (UInt32.ofNat key.length).toNat)
          (by simp [place, entrySlots]))
    have h₂ : M.read memory (address + (offset + 4)) key.length = .ok key := by
      rw [← Nat.add_assoc]
      exact hhead (address + offset + 4, key) (by simp [place, entrySlots])
    have h₃ : readU32 M memory (address + (offset + 4 + maxKeySize.toNat)) =
        .ok (UInt32.ofNat value.length) := by
      rw [← Nat.add_assoc, ← Nat.add_assoc]
      exact readU32_of_read (by
        simpa using hhead (address + offset + 4 + maxKeySize.toNat,
          Bytes.toLeBytes 4 (UInt32.ofNat value.length).toNat) (by simp [place, entrySlots]))
    have h₄ : M.read memory (address + (offset + 4 + maxKeySize.toNat + 4)) value.length =
        .ok value := by
      rw [← Nat.add_assoc, ← Nat.add_assoc, ← Nat.add_assoc]
      exact hhead (address + offset + 4 + maxKeySize.toNat + 4, value)
        (by simp [place, entrySlots])
    have hrest := loadEntries_of_reads entries (acc ++ [(key, value)])
      (offset + 4 + maxKeySize.toNat + 4 + maxValueSize.toNat)
      (fun e he => hlen e (List.mem_cons_of_mem _ he))
      (fun w hw => hreads w (List.mem_append_right _ (by
        simpa only [Nat.add_assoc] using hw)))
    rw [List.length_cons, loadEntries]
    simp only [h₁, Except.ok_bind, UInt32.toNat_ofNat_of_lt' hk, h₂, h₃,
      UInt32.toNat_ofNat_of_lt' hv, h₄, hrest, List.append_assoc, List.singleton_append,
      List.flatMap_cons, width_append, hw]
    congr 2
    omega

theorem loadChildren_of_reads {memory : σ} {address : Address} :
    ∀ (children acc : List Address) (offset : ℕ), (∀ c ∈ children, c < 2 ^ 64) →
      (∀ w ∈ place (address + offset) (children.map childSlot),
        M.read memory w.1 w.2.length = .ok w.2) →
      loadChildren M memory address children.length acc offset =
        .ok (acc ++ children, offset + 8 * children.length)
  | [], acc, offset, _, _ => by
    rw [List.length_nil, loadChildren, List.append_nil]
    rfl
  | child :: children, acc, offset, haddr, hreads => by
    rw [List.map_cons, place] at hreads
    have h₁ : readU64 M memory (address + offset) = .ok (UInt64.ofNat child) :=
      readU64_of_read (haddr child List.mem_cons_self)
        (by simpa [childSlot] using hreads _ List.mem_cons_self)
    have hrest := loadChildren_of_reads children (acc ++ [child]) (offset + 8)
      (fun c hc => haddr c (List.mem_cons_of_mem _ hc))
      (fun w hw => hreads w (List.mem_cons_of_mem _ (by
        simpa only [childSlot, Nat.add_assoc] using hw)))
    rw [List.length_cons, loadChildren]
    simp only [h₁, Except.ok_bind, UInt64.toNat_ofNat_of_lt' (haddr child List.mem_cons_self),
      hrest, List.append_assoc, List.singleton_append]
    congr 2
    omega

/-- **`Node::load` reads back a node whose layout reads back**: fewer than `2 ^ 16` entries, keys
and values below `2 ^ 32` bytes, and the children its type asks for. -/
theorem load_of_reads {n : Node} {memory : σ} {maxKeySize maxValueSize : UInt32}
    (hlen : n.entries.length < 2 ^ 16)
    (hkv : ∀ e ∈ n.entries, e.1.length < 2 ^ 32 ∧ e.2.length < 2 ^ 32)
    (hchildren : n.children.length =
      match n.nodeType with
      | .leaf => 0
      | .internal => n.entries.length + 1)
    (haddr : ∀ c ∈ n.children, c < 2 ^ 64)
    (hreads : ∀ w ∈ place n.address (layoutSlots n maxKeySize.toNat maxValueSize.toNat),
      M.read memory w.1 w.2.length = .ok w.2) :
    load M n.address memory maxKeySize maxValueSize = .ok n := by
  rw [layoutSlots, place, place_append] at hreads
  have hheader : M.read memory n.address nodeHeaderSize = .ok n.header.bytes := by
    rw [← NodeHeader.length_bytes (h := n.header) rfl]
    exact hreads _ List.mem_cons_self
  have hnum : n.header.numEntries.toNat = n.entries.length := UInt16.toNat_ofNat_of_lt' hlen
  have hentries : loadEntries M memory n.address maxKeySize maxValueSize n.entries.length []
      nodeHeaderSize = .ok ([] ++ n.entries, nodeHeaderSize +
        width (n.entries.flatMap (entrySlots maxKeySize.toNat maxValueSize.toNat))) :=
    loadEntries_of_reads n.entries [] nodeHeaderSize hkv
      (fun w hw => hreads w (List.mem_cons_of_mem _ (List.mem_append_left _ hw)))
  have hchildren' : loadChildren M memory n.address n.children.length [] (nodeHeaderSize +
      width (n.entries.flatMap (entrySlots maxKeySize.toNat maxValueSize.toNat))) =
      .ok ([] ++ n.children, _) := loadChildren_of_reads n.children [] _ haddr
    (fun w hw => hreads w (List.mem_cons_of_mem _ (List.mem_append_right _ (by
      simpa only [Nat.add_assoc] using hw))))
  have hmagic : (n.header.magic == magic) = true := beq_self_eq_true magic
  have hversion : (n.header.version == layoutVersion) = true := beq_self_eq_true layoutVersion
  rw [load, hheader, Except.ok_bind, NodeHeader.ofBytes_bytes rfl]
  dsimp only
  rw [hnum, hmagic, hversion]
  simp only [Rust.assert, if_true, Except.ok_bind, hentries, List.nil_append]
  obtain ⟨address, entries, children, nodeType⟩ := n
  -- the header's node type decides whether the children are read
  cases nodeType with
  | leaf =>
    have hnil : children = [] := List.eq_nil_of_length_eq_zero hchildren
    subst hnil
    rfl
  | internal =>
    simp only at hchildren hchildren'
    rw [hchildren] at hchildren'
    simp [Node.header, nodeTypeByte, leafNodeType, internalNodeType, hchildren', hchildren]

/-! ## Save, then load -/

theorem saveChecks_eq_ok_iff {n : Node} :
    n.saveChecks = .ok () ↔
      n.children.length = (match n.nodeType with
        | .leaf => 0
        | .internal => n.entries.length + 1) ∧
      (n.entries ≠ [] ∨ n.children ≠ []) ∧ n.entries.IsChain fun a b => a.1 < b.1 := by
  rw [← keysIncrease_eq_true_iff]
  obtain ⟨address, entries, children, nodeType⟩ := n
  cases nodeType <;>
    simp [Node.saveChecks, Except.bind_eq_ok, List.isEmpty_iff, List.length_eq_zero_iff]

theorem slots_fit {n : Node} {maxKeySize maxValueSize : ℕ}
    (hkv : ∀ e ∈ n.entries, e.1.length ≤ maxKeySize ∧ e.2.length ≤ maxValueSize) :
    ∀ s ∈ layoutSlots n maxKeySize maxValueSize, s.1.length ≤ s.2 := by
  intro s hs
  rw [layoutSlots, List.mem_cons, List.mem_append, List.mem_flatMap, List.mem_map] at hs
  rcases hs with rfl | ⟨e, he, hs⟩ | ⟨c, -, rfl⟩
  · exact (NodeHeader.length_bytes rfl).le
  · obtain ⟨hk, hv⟩ := hkv e he
    simp only [entrySlots, List.mem_cons, List.not_mem_nil, or_false] at hs
    rcases hs with rfl | rfl | rfl | rfl <;> simp [hk, hv]
  · simp [childSlot]

theorem width_layoutSlots (n : Node) (maxKeySize maxValueSize : ℕ) :
    width (layoutSlots n maxKeySize maxValueSize) = nodeHeaderSize +
      n.entries.length * (4 + maxKeySize + maxValueSize + 4) + n.children.length * 8 := by
  have hentry : ∀ e : Key × Value, width (entrySlots maxKeySize maxValueSize e) =
      4 + maxKeySize + maxValueSize + 4 := fun e => by
    simp only [entrySlots, width, List.map_cons, List.map_nil, List.sum_cons, List.sum_nil]
    omega
  have hentries : ∀ es : List (Key × Value), width (es.flatMap (entrySlots maxKeySize maxValueSize)) =
      es.length * (4 + maxKeySize + maxValueSize + 4) := by
    intro es
    induction es with
    | nil => simp [width]
    | cons e es ih =>
      rw [List.flatMap_cons, width_append, hentry, ih, List.length_cons, Nat.succ_mul]
      omega
  have hchildren : ∀ cs : List Address, width (cs.map childSlot) = cs.length * 8 := by
    intro cs
    induction cs with
    | nil => simp [width]
    | cons c cs ih =>
      rw [List.map_cons, width_cons, ih, List.length_cons, childSlot, Nat.succ_mul]
      omega
  rw [layoutSlots, width_cons, width_append, hentries, hchildren]
  show nodeHeaderSize + _ = _
  omega

/-- **A node of at most `CAPACITY` entries lies within `Node::size`.** -/
theorem width_layoutSlots_le {n : Node} (maxKeySize maxValueSize : ℕ)
    (hcap : n.entries.length ≤ capacity) (hchildren : n.children.length ≤ n.entries.length + 1) :
    width (layoutSlots n maxKeySize maxValueSize) ≤ Node.size maxKeySize maxValueSize := by
  rw [width_layoutSlots, Node.size]
  have h₁ := Nat.mul_le_mul_right (4 + maxKeySize + maxValueSize + 4) hcap
  have h₂ := Nat.mul_le_mul_right 8 (hchildren.trans (Nat.add_le_add_right hcap 1))
  omega

theorem save_eq_error {n : Node} {maxKeySize maxValueSize : UInt32} {memory : σ} {e : String}
    (h : n.saveChecks = .error e) : save M n maxKeySize maxValueSize memory = .error e := by
  rw [save, h]
  rfl

theorem saveChecks_of_save {n : Node} {maxKeySize maxValueSize : UInt32} {s s' : σ}
    (h : save M n maxKeySize maxValueSize s = .ok s') : n.saveChecks = .ok () := by
  obtain ⟨⟨⟩, hchecks, -⟩ := Except.bind_eq_ok.mp h
  exact hchecks

theorem length_children_le {n : Node} (h : n.saveChecks = .ok ()) :
    n.children.length ≤ n.entries.length + 1 := by
  have hshape := (saveChecks_eq_ok_iff.mp h).1
  cases hn : n.nodeType <;> simp only [hn] at hshape <;> omega

section Lawful

variable {bytes : σ → List UInt8}

theorem save_spec (hM : M.Lawful bytes) {n : Node} {maxKeySize maxValueSize : UInt32} {s s' : σ}
    (h : save M n maxKeySize maxValueSize s = .ok s') :
    ∃ e, (∀ w ∈ place n.address (layoutSlots n maxKeySize.toNat maxValueSize.toNat),
        Within (bytes s ++ e) w ∧ w.1 + w.2.length < 2 ^ 64) ∧
      bytes s' = writeAll (bytes s ++ e)
        (place n.address (layoutSlots n maxKeySize.toNat maxValueSize.toNat)) := by
  rw [save_eq_writes M maxKeySize maxValueSize s (saveChecks_of_save h)] at h
  exact hM.writes_spec h

/-- **Load after save**: a node whose keys and values fit their slots reads back as it was saved. -/
theorem load_save (hM : M.Lawful bytes) {n : Node} {maxKeySize maxValueSize : UInt32} {s s' : σ}
    (hcap : n.entries.length ≤ capacity)
    (hkv : ∀ e ∈ n.entries, e.1.length ≤ maxKeySize.toNat ∧ e.2.length ≤ maxValueSize.toNat)
    (haddr : ∀ c ∈ n.children, c < 2 ^ 64) (h : save M n maxKeySize maxValueSize s = .ok s') :
    load M n.address s' maxKeySize maxValueSize = .ok n := by
  have hshape := (saveChecks_eq_ok_iff.mp (saveChecks_of_save h)).1
  obtain ⟨e, hwithin, hbytes⟩ := save_spec hM h
  have hlen : (bytes s').length = (bytes s ++ e).length := by
    rw [hbytes, length_writeAll fun w hw => (hwithin w hw).1]
  have hcap16 : n.entries.length < 2 ^ 16 := lt_of_le_of_lt hcap (by decide)
  have hkv32 : ∀ e ∈ n.entries, e.1.length < 2 ^ 32 ∧ e.2.length < 2 ^ 32 := fun e he =>
    ⟨lt_of_le_of_lt (hkv e he).1 maxKeySize.toNat_lt, lt_of_le_of_lt (hkv e he).2 maxValueSize.toNat_lt⟩
  apply load_of_reads hcap16 hkv32 hshape haddr
  intro w hw
  rw [hM.read_eq s' w.1 w.2.length (hlen ▸ (hwithin w hw).1) (hwithin w hw).2, hbytes,
    readAt_writeAll_of_mem (pairwise_before_place (slots_fit hkv)) (fun x hx => (hwithin x hx).1) hw]

/-- **Save writes no byte outside the node's chunk**, `Node::size` bytes from its address. -/
theorem save_frame (hM : M.Lawful bytes) {n : Node} {maxKeySize maxValueSize : UInt32} {s s' : σ}
    (hcap : n.entries.length ≤ capacity)
    (hkv : ∀ e ∈ n.entries, e.1.length ≤ maxKeySize.toNat ∧ e.2.length ≤ maxValueSize.toNat)
    (h : save M n maxKeySize maxValueSize s = .ok s') :
    ∀ i < (bytes s).length,
      (i < n.address ∨ n.address + Node.size maxKeySize.toNat maxValueSize.toNat ≤ i) →
      (bytes s')[i]? = (bytes s)[i]? := by
  intro i hi hout
  obtain ⟨e, hwithin, hbytes⟩ := save_spec hM h
  have hwidth := width_layoutSlots_le maxKeySize.toNat maxValueSize.toNat hcap
    (length_children_le (saveChecks_of_save h))
  rw [hbytes, getElem?_writeAll_of_outside (fun w hw => (hwithin w hw).1), List.getElem?_append_left hi]
  intro w hw
  -- every chunk lies between the node's address and the end of its slots
  have hstart := offset_le_of_mem_place hw
  have hend := end_le_of_mem_place (slots_fit hkv) hw
  -- the bound on the chunk is stated at the type of addresses, which omega does not see through
  unfold Address at hout
  omega

theorem save_of_within (hM : M.Lawful bytes) {n : Node} {maxKeySize maxValueSize : UInt32} {s : σ}
    (hchecks : n.saveChecks = .ok ()) (hcap : n.entries.length ≤ capacity)
    (hkv : ∀ e ∈ n.entries, e.1.length ≤ maxKeySize.toNat ∧ e.2.length ≤ maxValueSize.toNat)
    (hroom : n.address + Node.size maxKeySize.toNat maxValueSize.toNat ≤
      M.size s * WASM_PAGE_SIZE)
    (h64 : M.size s * WASM_PAGE_SIZE < 2 ^ 64) :
    ∃ s', save M n maxKeySize maxValueSize s = .ok s' := by
  have hwidth := width_layoutSlots_le maxKeySize.toNat maxValueSize.toNat hcap
    (length_children_le hchecks)
  have hin : ∀ w ∈ place n.address (layoutSlots n maxKeySize.toNat maxValueSize.toNat),
      w.1 + w.2.length ≤ M.size s * WASM_PAGE_SIZE := fun w hw => by
    have := end_le_of_mem_place (slots_fit hkv) hw
    exact Nat.le_trans this (Nat.le_trans (Nat.add_le_add_left hwidth _) hroom)
  obtain ⟨s', hs', -⟩ := hM.writes_of_within hin h64
  rw [save_eq_writes M maxKeySize maxValueSize s hchecks]
  exact ⟨s', hs'⟩

/-- **The byte-level save refines the structured one** on any structured memory, and the node
reads back from the bytes as `Node::load` reads it. -/
theorem save_refines (hM : M.Lawful bytes) {n : Node} {maxKeySize maxValueSize : UInt32} {s s' : σ}
    (hcap : n.entries.length ≤ capacity)
    (hkv : ∀ e ∈ n.entries, e.1.length ≤ maxKeySize.toNat ∧ e.2.length ≤ maxValueSize.toNat)
    (haddr : ∀ c ∈ n.children, c < 2 ^ 64) (h : save M n maxKeySize maxValueSize s = .ok s')
    (m : Memory) :
    ∃ m', Node.save n m = .ok m' ∧
      load M n.address s' maxKeySize maxValueSize = Node.load m' n.address := by
  refine ⟨_, Node.save_eq_ok (saveChecks_of_save h) m, ?_⟩
  rw [load_save hM hcap hkv haddr h, Node.load_save_eq_ok]

/-- **Node encoding round trip**: a node within its sizes and in key order reads back after a
save, which writes only within `Node::size` bytes and does not panic within the memory. -/
theorem node_save_load_roundtrip (hM : M.Lawful bytes) (n : Node)
    (maxKeySize maxValueSize : UInt32) (hcap : n.entries.length ≤ capacity)
    (hsorted : n.entries.IsChain fun a b => a.1 < b.1)
    (hkv : ∀ e ∈ n.entries, e.1.length ≤ maxKeySize.toNat ∧ e.2.length ≤ maxValueSize.toNat)
    (hchildren : n.children.length = match n.nodeType with
      | .leaf => 0
      | .internal => n.entries.length + 1)
    (hnonempty : n.entries ≠ [] ∨ n.children ≠ []) (haddr : ∀ c ∈ n.children, c < 2 ^ 64) :
    (∀ s s', save M n maxKeySize maxValueSize s = .ok s' →
      load M n.address s' maxKeySize maxValueSize = .ok n ∧
      ∀ i < (bytes s).length,
        (i < n.address ∨ n.address + Node.size maxKeySize.toNat maxValueSize.toNat ≤ i) →
        (bytes s')[i]? = (bytes s)[i]?) ∧
    (∀ s, n.address + Node.size maxKeySize.toNat maxValueSize.toNat ≤ M.size s * WASM_PAGE_SIZE →
      M.size s * WASM_PAGE_SIZE < 2 ^ 64 → ∃ s', save M n maxKeySize maxValueSize s = .ok s') := by
  have hchecks : n.saveChecks = .ok () := saveChecks_eq_ok_iff.mpr ⟨hchildren, hnonempty, hsorted⟩
  refine ⟨fun s s' h => ⟨load_save hM hcap hkv haddr h, save_frame hM hcap hkv h⟩, ?_⟩
  intro s hroom h64
  exact save_of_within hM hchecks hcap hkv hroom h64

end Lawful

/-- An internal node of two entries and three children meets the conditions of the round trip;
saved at address 0 of a page of zeros, it loads back. -/
theorem node_save_load_roundtrip_at_internal_node :
    let n : Node := ⟨0, [([1], [2]), ([3], [4, 5])], [100, 200, 300], .internal⟩
    (n.entries.length ≤ capacity ∧ (n.entries.IsChain fun a b => a.1 < b.1) ∧
      (∀ e ∈ n.entries, e.1.length ≤ (2 : UInt32).toNat ∧ e.2.length ≤ (2 : UInt32).toNat) ∧
      (n.children.length = match n.nodeType with
        | .leaf => 0
        | .internal => n.entries.length + 1) ∧
      (n.entries ≠ [] ∨ n.children ≠ []) ∧ ∀ c ∈ n.children, c < 2 ^ 64) ∧
    ∃ s', save VectorMemory.ops n 2 2 (List.replicate WASM_PAGE_SIZE 0) = .ok s' ∧
      load VectorMemory.ops n.address s' 2 2 = .ok n := by
  intro n
  have hcap : n.entries.length ≤ capacity := by decide
  have hsorted : n.entries.IsChain fun a b => a.1 < b.1 := by decide
  have hkv : ∀ e ∈ n.entries, e.1.length ≤ (2 : UInt32).toNat ∧ e.2.length ≤ (2 : UInt32).toNat := by
    decide
  have hchildren : n.children.length = match n.nodeType with
      | .leaf => 0
      | .internal => n.entries.length + 1 := rfl
  have hnonempty : n.entries ≠ [] ∨ n.children ≠ [] := Or.inl (List.cons_ne_nil _ _)
  have haddr : ∀ c ∈ n.children, c < 2 ^ 64 := by decide
  have hrt := node_save_load_roundtrip VectorMemory.lawful n 2 2 hcap hsorted hkv hchildren
    hnonempty haddr
  have hpage : VectorMemory.ops.size (List.replicate WASM_PAGE_SIZE 0) = 1 := by
    show (List.replicate WASM_PAGE_SIZE 0).length / WASM_PAGE_SIZE = 1
    rw [List.length_replicate]
    exact Nat.div_self (by decide)
  obtain ⟨s', hs'⟩ := hrt.2 (List.replicate WASM_PAGE_SIZE 0) (by rw [hpage]; decide)
    (by rw [hpage]; decide)
  exact ⟨⟨hcap, hsorted, hkv, hchildren, hnonempty, haddr⟩, s', hs', (hrt.1 _ _ hs').1⟩

/-- **The empty leaf is not saved**: `Node::save` panics on it. -/
theorem save_empty_leaf_panics :
    let n : Node := ⟨0, [], [], .leaf⟩
    (n.entries.length ≤ capacity ∧ (n.entries.IsChain fun a b => a.1 < b.1) ∧
      (∀ e ∈ n.entries, e.1.length ≤ (1 : UInt32).toNat ∧ e.2.length ≤ (1 : UInt32).toNat) ∧
      (n.children.length = match n.nodeType with
        | .leaf => 0
        | .internal => n.entries.length + 1) ∧ ∀ c ∈ n.children, c < 2 ^ 64) ∧
    save VectorMemory.ops n 1 1 (List.replicate WASM_PAGE_SIZE 0) =
      .error "assertion failed: !self.entries.is_empty() || !self.children.is_empty()" := by
  intro n
  refine ⟨⟨Nat.zero_le _, List.IsChain.nil, fun e he => absurd he List.not_mem_nil, rfl,
    fun c hc => absurd hc List.not_mem_nil⟩, save_eq_error rfl⟩

end NodeLayout

end IC.StableStructures
