import InternetComputer.Lib.Rust
import Mathlib

/-!
# The stable memory of a B-tree map, and its chunk allocator

`StableBTreeMap` keeps its header, the allocator's header and the allocator's chunks in one stable
memory, modelled as what was written to it, structure by structure; a read of a structure never
written is a bad magic number, and panics. `Allocator` hands out chunks from a free list threaded
through the chunk headers, whose last chunk is the one at the high-water mark.

* `Allocator.new`, `Allocator.load`, `Allocator.allocate`, `Allocator.deallocate`.
-/

namespace IC.StableStructures

/-- `Address`: a byte offset in the stable memory. -/
abbrev Address := ℕ

/-- `NULL`, the address no structure is at. -/
def NULL : Address := 0

/-- `Key`, `Value`: byte strings. -/
abbrev Key := List UInt8

abbrev Value := List UInt8

/-- `NodeType`. -/
inductive NodeType where
  | leaf
  | internal
  deriving DecidableEq, Repr

/-- `Node`: its address, entries in increasing key order, and children. -/
structure Node where
  address : Address
  entries : List (Key × Value)
  children : List Address
  nodeType : NodeType
  deriving DecidableEq, Repr

/-- `ChunkHeader`: whether the chunk is allocated, and the next chunk of the free list. -/
structure ChunkHeader where
  allocated : Bool
  next : Address
  deriving DecidableEq, Repr

/-- `ChunkHeader::null`: a free chunk at the end of the free list. -/
def ChunkHeader.null : ChunkHeader := ⟨false, NULL⟩

/-- `BTreeHeader`, without its magic, version and reserved bytes. -/
structure BTreeHeader where
  maxKeySize : ℕ
  maxValueSize : ℕ
  rootAddr : Address
  length : ℕ
  deriving DecidableEq, Repr

/-- `AllocatorHeader`, without its magic, version and padding. -/
structure AllocatorHeader where
  allocationSize : ℕ
  numAllocatedChunks : ℕ
  freeListHead : Address
  deriving DecidableEq, Repr

/-- `size_of::<BTreeHeader>()`: 3 + 1 + 4 + 4 + 8 + 8 + 24 packed bytes. -/
def btreeHeaderSize : ℕ := 52

/-- `size_of::<AllocatorHeader>()`: 3 + 1 + 4 + 8 + 8 + 8 + 16 packed bytes. -/
def allocatorHeaderSize : ℕ := 48

/-- `size_of::<ChunkHeader>()`: 3 + 1 + 1 + 3 + 8 packed bytes. -/
def chunkHeaderSize : ℕ := 16

/-- The stable memory, as the structures written to it. -/
structure Memory where
  btreeHeader : Option BTreeHeader
  allocatorHeader : Option AllocatorHeader
  chunks : Address → Option ChunkHeader
  nodes : Address → Option Node

namespace Memory

/-- A memory nothing was written to. -/
def empty : Memory := ⟨none, none, fun _ => none, fun _ => none⟩

/-- `ChunkHeader::save`. -/
def saveChunk (m : Memory) (address : Address) (chunk : ChunkHeader) : Memory :=
  { m with chunks := Function.update m.chunks address (some chunk) }

/-- `ChunkHeader::load`: a chunk header that was never written has a bad magic. -/
def loadChunk (m : Memory) (address : Address) : Except String ChunkHeader :=
  Rust.expect (m.chunks address) "Bad magic."

end Memory

/-- `Allocator`: its header's address, chunk size, allocated count, and free list head. -/
structure Allocator where
  headerAddr : Address
  allocationSize : ℕ
  numAllocatedChunks : ℕ
  freeListHead : Address
  deriving DecidableEq, Repr

namespace Allocator

/-- `chunk_size`: a chunk header and the room handed out. -/
def chunkSize (a : Allocator) : ℕ := a.allocationSize + chunkHeaderSize

/-- `Allocator::save`. -/
def save (a : Allocator) (m : Memory) : Memory :=
  { m with allocatorHeader := some ⟨a.allocationSize, a.numAllocatedChunks, a.freeListHead⟩ }

/-- `Allocator::new`: one free chunk, right after the header. -/
def new (m : Memory) (addr : Address) (allocationSize : ℕ) : Allocator × Memory :=
  let freeListHead := addr + allocatorHeaderSize
  let m := m.saveChunk freeListHead ChunkHeader.null
  let a : Allocator := ⟨addr, allocationSize, 0, freeListHead⟩
  (a, a.save m)

/-- `Allocator::load`. -/
def load (m : Memory) (addr : Address) : Except String Allocator := do
  let header ← Rust.expect m.allocatorHeader "Bad magic."
  pure ⟨addr, header.allocationSize, header.numAllocatedChunks, header.freeListHead⟩

/-- `Allocator::allocate`: the head of the free list. -/
def allocate (a : Allocator) (m : Memory) : Except String (Allocator × Memory × Address) := do
  let chunkAddr := a.freeListHead
  let chunk ← m.loadChunk chunkAddr
  Rust.assert (!chunk.allocated) "Attempting to allocate an already allocated chunk."
  let m := m.saveChunk chunkAddr { chunk with allocated := true }
  let (freeListHead, m) :=
    if chunk.next ≠ NULL then (chunk.next, m)
    else (a.freeListHead + a.chunkSize,
      m.saveChunk (a.freeListHead + a.chunkSize) ChunkHeader.null)
  let a := { a with freeListHead, numAllocatedChunks := a.numAllocatedChunks + 1 }
  pure (a, a.save m, chunkAddr + chunkHeaderSize)

/-- `Allocator::deallocate`: the chunk goes to the head of the free list. -/
def deallocate (a : Allocator) (m : Memory) (address : Address) :
    Except String (Allocator × Memory) := do
  let chunkAddr := address - chunkHeaderSize
  let chunk ← m.loadChunk chunkAddr
  Rust.assert chunk.allocated "assertion failed: chunk.allocated"
  let m := m.saveChunk chunkAddr { allocated := false, next := a.freeListHead }
  let a := { a with freeListHead := chunkAddr, numAllocatedChunks := a.numAllocatedChunks - 1 }
  pure (a, a.save m)

end Allocator

end IC.StableStructures
