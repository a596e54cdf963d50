import InternetComputer.StableStructures.Allocator
import Mathlib

/-!
# The chunks of the allocator are handed out once

The allocator lays its chunks out one after the other from the end of its header. At every
reachable state some chunks `0..n` have been laid out; each is allocated or on the free list,
whose chunks are linked in list order and end at chunk `n`, the high-water mark.

* `FreeChain`, `Inv`, and the step lemmas `Inv.allocate`, `Inv.deallocate`;
* **`allocator_run_disjoint`**: after any valid sequence from `Allocator.new`, the next `allocate`
  succeeds with an address not allocated, the allocated chunks are apart, the count is right,
  and `Allocator.load` gives the allocator back.
-/

namespace IC.StableStructures

namespace Memory

theorem loadChunk_eq_ok {m : Memory} {x : Address} {c : ChunkHeader} (h : m.chunks x = some c) :
    m.loadChunk x = .ok c := by
  simp [loadChunk, Rust.expect, h]

end Memory

namespace Allocator

/-- The address of chunk `i`. -/
def chunkAddr (a : Allocator) (i : ℕ) : ℕ :=
  a.headerAddr + allocatorHeaderSize + i * a.chunkSize

/-- The address handed out for chunk `i`, past its header. -/
def userAddr (a : Allocator) (i : ℕ) : ℕ := a.chunkAddr i + chunkHeaderSize

theorem chunkSize_pos (a : Allocator) : 0 < a.chunkSize := by
  unfold chunkSize chunkHeaderSize
  omega

theorem chunkAddr_injective (a : Allocator) : Function.Injective a.chunkAddr := by
  intro i j h
  unfold chunkAddr at h
  exact Nat.eq_of_mul_eq_mul_right a.chunkSize_pos (by omega)

theorem userAddr_injective (a : Allocator) : Function.Injective a.userAddr :=
  fun _ _ h => a.chunkAddr_injective (by unfold userAddr at h; omega)

theorem chunkAddr_ne_NULL (a : Allocator) (i : ℕ) : a.chunkAddr i ≠ NULL := by
  unfold chunkAddr NULL allocatorHeaderSize
  omega

theorem chunkAddr_succ (a : Allocator) (i : ℕ) :
    a.chunkAddr (i + 1) = a.chunkAddr i + a.chunkSize := by
  unfold chunkAddr
  rw [Nat.succ_mul]
  omega

theorem userAddr_add_le (a : Allocator) {i j : ℕ} (hij : i < j) :
    a.userAddr i + a.allocationSize ≤ a.userAddr j := by
  have hmul : (i + 1) * a.chunkSize ≤ j * a.chunkSize := Nat.mul_le_mul_right _ hij
  rw [Nat.succ_mul] at hmul
  unfold userAddr chunkAddr chunkSize at *
  omega

/-- **The regions handed out for two chunks are apart.** -/
theorem disjoint_userRegion (a : Allocator) {i j : ℕ} (hij : i ≠ j) :
    Disjoint (Set.Ico (a.userAddr i) (a.userAddr i + a.allocationSize))
      (Set.Ico (a.userAddr j) (a.userAddr j + a.allocationSize)) := by
  rw [Set.Ico_disjoint_Ico]
  rcases Nat.lt_or_gt_of_ne hij with h | h
  · have := a.userAddr_add_le h
    omega
  · have := a.userAddr_add_le h
    omega

end Allocator

/-! ## The invariant -/

theorem chunkAddr_update_ne (a : Allocator) (chunks : Address → Option ChunkHeader)
    (c : Option ChunkHeader) {i j : ℕ} (hji : j ≠ i) :
    Function.update chunks (a.chunkAddr i) c (a.chunkAddr j) = chunks (a.chunkAddr j) :=
  Function.update_of_ne (fun heq => hji (a.chunkAddr_injective heq)) _ _

/-- The free list in memory, chunk by chunk, ending at chunk `n`. -/
def FreeChain (chunkAddr : ℕ → ℕ) (chunks : Address → Option ChunkHeader) (n : ℕ) :
    List ℕ → Prop
  | [] => chunks (chunkAddr n) = some ChunkHeader.null
  | i :: free => chunks (chunkAddr i) = some ⟨false, chunkAddr (free.headD n)⟩ ∧
      FreeChain chunkAddr chunks n free

theorem freeChain_cons {chunkAddr : ℕ → ℕ} {chunks : Address → Option ChunkHeader} {n i : ℕ}
    {free : List ℕ} :
    FreeChain chunkAddr chunks n (i :: free) ↔
      chunks (chunkAddr i) = some ⟨false, chunkAddr (free.headD n)⟩ ∧
        FreeChain chunkAddr chunks n free := Iff.rfl

/-- A chunk header saved at a chunk off the free list leaves the list as it was. -/
theorem FreeChain.update {a : Allocator} {chunks : Address → Option ChunkHeader} {n i : ℕ}
    (c : Option ChunkHeader) :
    ∀ {free : List ℕ}, i ∉ n :: free → FreeChain a.chunkAddr chunks n free →
      FreeChain a.chunkAddr (Function.update chunks (a.chunkAddr i) c) n free
  | [], hi, h => by
    show Function.update chunks (a.chunkAddr i) c (a.chunkAddr n) = _
    rw [chunkAddr_update_ne a chunks c (i := i) (j := n)
      fun hn => hi (List.mem_cons.mpr (.inl hn.symm))]
    exact h
  | j :: free, hi, h => by
    have hji : j ≠ i := fun hj => hi (hj ▸ List.mem_cons_of_mem _ List.mem_cons_self)
    have hrest : i ∉ n :: free := fun hmem => hi (by
      rcases List.mem_cons.mp hmem with rfl | hmem
      · exact List.mem_cons_self
      · exact List.mem_cons_of_mem _ (List.mem_cons_of_mem _ hmem))
    refine freeChain_cons.mpr ⟨?_, FreeChain.update c hrest h.2⟩
    rw [chunkAddr_update_ne a chunks c hji]
    exact h.1

/-- The chunks `used` are allocated in memory. -/
def Allocated (chunkAddr : ℕ → ℕ) (chunks : Address → Option ChunkHeader) (used : List ℕ) :
    Prop :=
  ∀ i ∈ used, ∃ next, chunks (chunkAddr i) = some ⟨true, next⟩

/-- A chunk header saved at a chunk not in `used` leaves them allocated. -/
theorem Allocated.update {a : Allocator} {chunks : Address → Option ChunkHeader}
    {used : List ℕ} {i : ℕ} (h : Allocated a.chunkAddr chunks used) (hi : i ∉ used)
    (c : Option ChunkHeader) : Allocated a.chunkAddr (Function.update chunks (a.chunkAddr i) c) used := by
  intro j hj
  rw [chunkAddr_update_ne a chunks c (i := i) (j := j) fun hji => hi (hji ▸ hj)]
  exact h j hj

/-- **The allocator's invariant** over the chunks `0..n`. -/
structure Inv (a : Allocator) (m : Memory) (n : ℕ) (free used : List ℕ) : Prop where
  perm : (free ++ used).Perm (List.range n)
  head : a.freeListHead = a.chunkAddr (free.headD n)
  chain : FreeChain a.chunkAddr m.chunks n free
  allocated : Allocated a.chunkAddr m.chunks used
  count : a.numAllocatedChunks = used.length
  saved : m.allocatorHeader = some ⟨a.allocationSize, a.numAllocatedChunks, a.freeListHead⟩

namespace Inv

variable {a : Allocator} {m : Memory} {n : ℕ} {free used : List ℕ}

theorem nodup (h : Inv a m n free used) : (free ++ used).Nodup :=
  h.perm.nodup_iff.mpr List.nodup_range

theorem lt_of_mem (h : Inv a m n free used) {i : ℕ} (hi : i ∈ free ++ used) : i < n :=
  List.mem_range.mp (h.perm.subset hi)

theorem not_mem_used_of_mem_free (h : Inv a m n free used) {i : ℕ} (hi : i ∈ free) : i ∉ used :=
  fun hu => (List.nodup_append.mp h.nodup).2.2 i hi i hu rfl

end Inv

theorem inv_new (m : Memory) (addr allocationSize : ℕ) :
    Inv (Allocator.new m addr allocationSize).1 (Allocator.new m addr allocationSize).2 0 [] [] where
  perm := by simp
  head := by simp [Allocator.new, Allocator.chunkAddr]
  chain := by
    show Function.update m.chunks (addr + allocatorHeaderSize) (some ChunkHeader.null)
      (addr + allocatorHeaderSize + 0 * _) = _
    simp
  allocated := by simp [Allocated]
  count := rfl
  saved := rfl

/-! ## Each call keeps the invariant -/

/-- Two allocators over the same chunks. -/
structure SameLayout (a a' : Allocator) : Prop where
  headerAddr : a'.headerAddr = a.headerAddr
  allocationSize : a'.allocationSize = a.allocationSize

theorem SameLayout.userAddr {a a' : Allocator} (h : SameLayout a a') :
    a'.userAddr = a.userAddr := by
  funext i
  simp only [Allocator.userAddr, Allocator.chunkAddr, Allocator.chunkSize, h.headerAddr,
    h.allocationSize]

namespace Inv

variable {a : Allocator} {m : Memory} {n : ℕ} {free used : List ℕ}

theorem allocate_cons {i : ℕ} (h : Inv a m n (i :: free) used) :
    ∃ a' m', a.allocate m = .ok (a', m', a.userAddr i) ∧ SameLayout a a' ∧
      Inv a' m' n free (i :: used) := by
  obtain ⟨hchunk, hchain⟩ := freeChain_cons.mp h.chain
  have hhead : a.freeListHead = a.chunkAddr i := h.head
  have hnext : a.chunkAddr (free.headD n) ≠ NULL := a.chunkAddr_ne_NULL _
  have hnodup := h.nodup
  rw [List.cons_append, List.nodup_cons] at hnodup
  -- chunk `i` is neither on the rest of the list nor the tail nor allocated
  have hi_free : i ∉ n :: free := fun hi => by
    rcases List.mem_cons.mp hi with rfl | hi
    · exact Nat.lt_irrefl i (h.lt_of_mem List.mem_cons_self)
    · exact hnodup.1 (List.mem_append_left _ hi)
  have hi_used : i ∉ used := fun hi => hnodup.1 (List.mem_append_right _ hi)
  let a' : Allocator := { a with
    freeListHead := a.chunkAddr (free.headD n)
    numAllocatedChunks := a.numAllocatedChunks + 1 }
  refine ⟨a', a'.save (m.saveChunk (a.chunkAddr i) ⟨true, a.chunkAddr (free.headD n)⟩), ?_,
    ⟨rfl, rfl⟩, ⟨List.perm_middle.trans h.perm, rfl, hchain.update _ hi_free, ?_, ?_, rfl⟩⟩
  · simp only [Allocator.allocate, hhead, Memory.loadChunk_eq_ok hchunk, Except.ok_bind,
      Rust.assert, Bool.not_false, if_true, ne_eq, hnext, not_false_eq_true]
    rfl
  · intro j hj
    rcases List.mem_cons.mp hj with rfl | hj
    · exact ⟨_, Function.update_self _ _ _⟩
    · exact h.allocated.update hi_used _ j hj
  · show a.numAllocatedChunks + 1 = (i :: used).length
    rw [h.count, List.length_cons]

theorem allocate_nil (h : Inv a m n [] used) :
    ∃ a' m', a.allocate m = .ok (a', m', a.userAddr n) ∧ SameLayout a a' ∧
      Inv a' m' (n + 1) [] (n :: used) := by
  have htail : m.chunks (a.chunkAddr n) = some ChunkHeader.null := h.chain
  have hhead : a.freeListHead = a.chunkAddr n := h.head
  have hused_lt : ∀ j ∈ used, j < n := fun j hj => h.lt_of_mem (List.mem_append_right _ hj)
  let a' : Allocator := { a with
    freeListHead := a.chunkAddr n + a.chunkSize
    numAllocatedChunks := a.numAllocatedChunks + 1 }
  let m₁ := m.saveChunk (a.chunkAddr n) ⟨true, NULL⟩
  refine ⟨a', a'.save (m₁.saveChunk (a.chunkAddr n + a.chunkSize) ChunkHeader.null), ?_,
    ⟨rfl, rfl⟩, ⟨?_, (a.chunkAddr_succ n).symm, ?_, ?_, ?_, rfl⟩⟩
  · simp only [Allocator.allocate, hhead, Memory.loadChunk_eq_ok htail, Except.ok_bind,
      Rust.assert, ChunkHeader.null, Bool.not_false, if_true, ne_eq, not_true_eq_false, if_false]
    rfl
  · -- the tail joins the allocated chunks, which were all the chunks below it
    rw [List.nil_append, List.range_succ]
    exact (List.perm_append_singleton n used).symm.trans
      (List.Perm.append_right [n] (by simpa using h.perm))
  · show Function.update m₁.chunks (a.chunkAddr n + a.chunkSize) (some ChunkHeader.null)
      (a.chunkAddr (n + 1)) = _
    rw [a.chunkAddr_succ, Function.update_self]
  · have hn : n + 1 ∉ n :: used := fun hmem => by
      rcases List.mem_cons.mp hmem with hn | hmem
      · omega
      · exact Nat.lt_asymm (hused_lt _ hmem) (Nat.lt_succ_self n)
    rw [show a.chunkAddr n + a.chunkSize = a.chunkAddr (n + 1) from (a.chunkAddr_succ n).symm]
    refine Allocated.update (fun j hj => ?_) hn _
    rcases List.mem_cons.mp hj with rfl | hj
    · exact ⟨_, Function.update_self _ _ _⟩
    · exact h.allocated.update (fun hn => Nat.lt_irrefl n (hused_lt n hn)) _ j hj
  · show a.numAllocatedChunks + 1 = (n :: used).length
    rw [h.count, List.length_cons]

/-- **The step of `allocate`**: it hands out a chunk not allocated, and keeps the invariant. -/
theorem allocate (h : Inv a m n free used) :
    ∃ a' m' i n' free', a.allocate m = .ok (a', m', a.userAddr i) ∧ i ∉ used ∧
      SameLayout a a' ∧ Inv a' m' n' free' (i :: used) := by
  cases free with
  | nil =>
    obtain ⟨a', m', halloc, hsame, h'⟩ := h.allocate_nil
    exact ⟨a', m', n, n + 1, [], halloc,
      fun hn => Nat.lt_irrefl n (h.lt_of_mem (List.mem_append_right _ hn)), hsame, h'⟩
  | cons i free =>
    obtain ⟨a', m', halloc, hsame, h'⟩ := h.allocate_cons
    exact ⟨a', m', i, n, free, halloc, h.not_mem_used_of_mem_free List.mem_cons_self, hsame, h'⟩

/-- **The step of `deallocate`**: an allocated chunk goes to the head of the free list. -/
theorem deallocate (h : Inv a m n free used) {i : ℕ} (hi : i ∈ used) :
    ∃ a' m', a.deallocate m (a.userAddr i) = .ok (a', m') ∧ SameLayout a a' ∧
      Inv a' m' n (i :: free) (used.erase i) := by
  obtain ⟨next, hchunk⟩ := h.allocated i hi
  have hused_nodup : used.Nodup := (List.nodup_append.mp h.nodup).2.1
  have hi_free : i ∉ n :: free := fun hmem => by
    rcases List.mem_cons.mp hmem with rfl | hmem
    · exact Nat.lt_irrefl i (h.lt_of_mem (List.mem_append_right _ hi))
    · exact h.not_mem_used_of_mem_free hmem hi
  have haddr : a.userAddr i - chunkHeaderSize = a.chunkAddr i := by
    unfold Allocator.userAddr
    omega
  let a' : Allocator := { a with
    freeListHead := a.chunkAddr i
    numAllocatedChunks := a.numAllocatedChunks - 1 }
  refine ⟨a', a'.save (m.saveChunk (a.chunkAddr i) ⟨false, a.freeListHead⟩), ?_, ⟨rfl, rfl⟩,
    ⟨?_, rfl, freeChain_cons.mpr ⟨?_, h.chain.update _ hi_free⟩, ?_, ?_, rfl⟩⟩
  · simp only [Allocator.deallocate, haddr, Memory.loadChunk_eq_ok hchunk, Except.ok_bind,
      Rust.assert, if_true]
    rfl
  · -- the chunk moves from `used` to the head of `free`
    exact List.perm_middle.symm.trans
      ((List.Perm.append_left free (List.perm_cons_erase hi).symm).trans h.perm)
  · show Function.update m.chunks (a.chunkAddr i) _ (a.chunkAddr i) = _
    rw [Function.update_self, h.head]
    rfl
  · exact Allocated.update (fun j hj => h.allocated j (List.mem_of_mem_erase hj))
      hused_nodup.not_mem_erase _
  · show a.numAllocatedChunks - 1 = (used.erase i).length
    rw [h.count, List.length_erase_of_mem hi]

end Inv

/-! ## Runs of calls -/

/-- A call to the allocator. -/
inductive Call where
  | allocate
  | deallocate (address : Address)
  deriving DecidableEq, Repr

/-- The calls run in order, with the addresses they leave allocated. -/
def run : Allocator → Memory → List Address → List Call →
    Except String (Allocator × Memory × List Address)
  | a, m, live, [] => pure (a, m, live)
  | a, m, live, .allocate :: calls => do
    let (a, m, address) ← a.allocate m
    run a m (address :: live) calls
  | a, m, live, .deallocate address :: calls => do
    let (a, m) ← a.deallocate m address
    run a m (live.erase address) calls

/-- The calls deallocate only addresses allocated at the time. -/
def Valid : Allocator → Memory → List Address → List Call → Prop
  | _, _, _, [] => True
  | a, m, live, .allocate :: calls =>
    match a.allocate m with
    | .ok (a, m, address) => Valid a m (address :: live) calls
    | .error _ => True
  | a, m, live, .deallocate address :: calls =>
    address ∈ live ∧ match a.deallocate m address with
      | .ok (a, m) => Valid a m (live.erase address) calls
      | .error _ => True

instance decidableValid : ∀ (a : Allocator) (m : Memory) (live : List Address) (calls : List Call),
    Decidable (Valid a m live calls)
  | _, _, _, [] => isTrue trivial
  | a, m, live, .allocate :: calls =>
    match h : a.allocate m with
    | .ok (a', m', address) =>
      have := decidableValid a' m' (address :: live) calls
      decidable_of_iff (Valid a' m' (address :: live) calls) (by rw [Valid, h])
    | .error _ => isTrue (by rw [Valid, h]; trivial)
  | a, m, live, .deallocate address :: calls =>
    match h : a.deallocate m address with
    | .ok (a', m') =>
      have := decidableValid a' m' (live.erase address) calls
      decidable_of_iff (address ∈ live ∧ Valid a' m' (live.erase address) calls)
        (by rw [Valid, h])
    | .error _ => decidable_of_iff (address ∈ live) (by simp only [Valid, h, and_true])

/-- Two chunks allocated, the first given back and handed out again. -/
example : (run (Allocator.new Memory.empty 52 10).1 (Allocator.new Memory.empty 52 10).2 []
    [.allocate, .allocate, .deallocate 116, .allocate]).map (·.2.2) = .ok [116, 142] := by
  decide

/-- **The run lemma**: valid calls do not panic and keep the invariant. -/
theorem Inv.run_ok {a : Allocator} {m : Memory} {n : ℕ} {free used : List ℕ}
    (h : Inv a m n free used) :
    ∀ (calls : List Call), Valid a m (used.map a.userAddr) calls →
      ∃ a' m' n' free' used', run a m (used.map a.userAddr) calls =
        .ok (a', m', used'.map a.userAddr) ∧ SameLayout a a' ∧ Inv a' m' n' free' used'
  | [], _ => ⟨a, m, n, free, used, rfl, ⟨rfl, rfl⟩, h⟩
  | .allocate :: calls, hvalid => by
    obtain ⟨a₁, m₁, i, n₁, free₁, halloc, -, hsame₁, h₁⟩ := h.allocate
    simp only [Valid, halloc] at hvalid
    have hlive : a.userAddr i :: used.map a.userAddr = (i :: used).map a₁.userAddr := by
      rw [hsame₁.userAddr, List.map_cons]
    rw [hlive] at hvalid
    obtain ⟨a', m', n', free', used', hrun, hsame, h'⟩ := h₁.run_ok calls hvalid
    refine ⟨a', m', n', free', used', ?_, ⟨?_, ?_⟩, h'⟩
    · rw [run, halloc, Except.ok_bind]
      dsimp only
      rw [hlive, hrun, hsame₁.userAddr]
    · rw [hsame.headerAddr, hsame₁.headerAddr]
    · rw [hsame.allocationSize, hsame₁.allocationSize]
  | .deallocate address :: calls, hvalid => by
    obtain ⟨hmem, hvalid⟩ := hvalid
    obtain ⟨i, hi, rfl⟩ := List.mem_map.mp hmem
    obtain ⟨a₁, m₁, hdealloc, hsame₁, h₁⟩ := h.deallocate hi
    simp only [hdealloc] at hvalid
    have hlive : (used.map a.userAddr).erase (a.userAddr i) = (used.erase i).map a₁.userAddr := by
      rw [hsame₁.userAddr, List.map_erase a.userAddr_injective]
    rw [hlive] at hvalid
    obtain ⟨a', m', n', free', used', hrun, hsame, h'⟩ := h₁.run_ok calls hvalid
    refine ⟨a', m', n', free', used', ?_, ⟨?_, ?_⟩, h'⟩
    · rw [run, hdealloc, Except.ok_bind]
      dsimp only
      rw [hlive, hrun, hsame₁.userAddr]
    · rw [hsame.headerAddr, hsame₁.headerAddr]
    · rw [hsame.allocationSize, hsame₁.allocationSize]

/-- **The allocator hands out disjoint chunks** along any run from `Allocator.new`: `allocate`
gives a fresh address, the chunks are apart and past the header, and `Allocator.load` reads back. -/
theorem allocator_run_disjoint (m : Memory) (addr allocationSize : ℕ) (calls : List Call)
    (hvalid : Valid (Allocator.new m addr allocationSize).1 (Allocator.new m addr allocationSize).2
      [] calls) :
    ∃ a m' live, run (Allocator.new m addr allocationSize).1
        (Allocator.new m addr allocationSize).2 [] calls = .ok (a, m', live) ∧
      (∃ a'' m'' address, a.allocate m' = .ok (a'', m'', address) ∧ address ∉ live) ∧
      live.Nodup ∧
      live.Pairwise (fun x y => Disjoint (Set.Ico x (x + allocationSize))
        (Set.Ico y (y + allocationSize))) ∧
      (∀ x ∈ live, addr + allocatorHeaderSize ≤ x) ∧
      a.numAllocatedChunks = live.length ∧
      Allocator.load m' addr = .ok a := by
  obtain ⟨a, m', n, free, used, hrun, hsame, h⟩ :=
    (inv_new m addr allocationSize).run_ok calls hvalid
  have hsize : a.allocationSize = allocationSize := hsame.allocationSize
  have haddr : a.headerAddr = addr := hsame.headerAddr
  have hnodup : used.Nodup := (List.nodup_append.mp h.nodup).2.1
  refine ⟨a, m', used.map a.userAddr, ?_, ?_, List.Nodup.map a.userAddr_injective hnodup, ?_, ?_,
    ?_, ?_⟩
  · rw [hsame.userAddr]
    exact hrun
  · obtain ⟨a'', m'', i, -, -, halloc, hi, -, -⟩ := h.allocate
    exact ⟨a'', m'', a.userAddr i, halloc,
      fun hmem => hi ((List.mem_map.mp hmem).elim fun j hj => a.userAddr_injective hj.2 ▸ hj.1)⟩
  · rw [List.pairwise_map, ← hsize]
    exact hnodup.imp fun hij => a.disjoint_userRegion hij
  · intro x hx
    obtain ⟨i, -, rfl⟩ := List.mem_map.mp hx
    rw [← haddr]
    unfold Allocator.userAddr Allocator.chunkAddr
    omega
  · rw [h.count, List.length_map]
  · simp only [Allocator.load, Rust.expect, h.saved, ← haddr]
    rfl

/-- Two chunks allocated, the first given back and allocated again. -/
theorem allocator_run_disjoint_reuse :
    Valid (Allocator.new Memory.empty 52 10).1 (Allocator.new Memory.empty 52 10).2 []
        [.allocate, .allocate, .deallocate 116, .allocate] ∧
      ∃ a m' live, run (Allocator.new Memory.empty 52 10).1 (Allocator.new Memory.empty 52 10).2
          [] [.allocate, .allocate, .deallocate 116, .allocate] = .ok (a, m', live) ∧
        (∃ a'' m'' address, a.allocate m' = .ok (a'', m'', address) ∧ address ∉ live) ∧
        live.Nodup ∧
        live.Pairwise (fun x y => Disjoint (Set.Ico x (x + 10)) (Set.Ico y (y + 10))) ∧
        (∀ x ∈ live, 52 + allocatorHeaderSize ≤ x) ∧
        a.numAllocatedChunks = live.length ∧
        Allocator.load m' 52 = .ok a :=
  ⟨by decide, allocator_run_disjoint Memory.empty 52 10 _ (by decide)⟩

end IC.StableStructures
