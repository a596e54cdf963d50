import InternetComputer.Lib.Rust
import Mathlib

/-!
# Memories counted in pages, and `RestrictedMemory`

The `Memory` trait of `lib.rs`, its `VectorMemory`, and `RestrictedMemory`, which shows the pages
`start..end` of another memory as a memory of its own.

* `GrowsAsDocumented`, and `VectorMemory.growsAsDocumented`;
* **`RestrictedMemory.growsCapped_of_start_le`**: once the underlying memory reaches `start`,
  `grow` behaves as in a memory capped at `end - start` pages;
* **`restrictedGrow_exceeds_range`**: below `start`, `grow` returns `0` where it should return
  `-1`, and grows the underlying memory past `end`.
-/

namespace IC.StableStructures

/-- `WASM_PAGE_SIZE`. -/
def WASM_PAGE_SIZE : ℕ := 65536

/-- The operations of the `Memory` trait over a state `σ`: `size`, `grow` with its `i64` result,
`read` and `write`; an access out of bounds panics. -/
structure MemoryOps (σ : Type) where
  size : σ → ℕ
  grow : σ → ℕ → Int × σ
  read : σ → ℕ → ℕ → Except String (List UInt8)
  write : σ → ℕ → List UInt8 → Except String σ

section Contract

variable {σ : Type} (M : MemoryOps σ)

/-- What the doc comment of `Memory::grow` asks. -/
def GrowsAsDocumented : Prop :=
  ∀ s pages, M.grow s pages = (-1, s) ∨
    (M.grow s pages).1 = M.size s ∧ M.size (M.grow s pages).2 = M.size s + pages

/-- `grow pages` from `s` behaves as in a memory capped at `cap` pages: a non-negative result is the
old size, and a grow past `cap` returns `-1` and changes nothing. -/
structure GrowsCapped (cap : ℕ) (s : σ) (pages : ℕ) : Prop where
  ok : 0 ≤ (M.grow s pages).1 → (M.grow s pages).1 = M.size s ∧
    M.size (M.grow s pages).2 = M.size s + pages ∧ M.size (M.grow s pages).2 ≤ cap
  full : cap < M.size s + pages → M.grow s pages = (-1, s)

namespace GrowsCapped

variable {M} {cap : ℕ} {s : σ} {pages : ℕ}

theorem of_refused (h : M.grow s pages = (-1, s)) : GrowsCapped M cap s pages where
  ok hr := by
    rw [h] at hr
    exact absurd hr (show ¬(0 : Int) ≤ -1 by decide)
  full _ := h

theorem of_grown (s' : σ) (h : M.grow s pages = ((M.size s : Int), s'))
    (hs' : M.size s' = M.size s + pages) (hcap : M.size s' ≤ cap) : GrowsCapped M cap s pages where
  ok _ := by
    rw [h]
    exact ⟨rfl, hs', hcap⟩
  full hfull := absurd hcap (by omega)

end GrowsCapped

variable {M}

theorem GrowsAsDocumented.cases (hM : GrowsAsDocumented M) (s : σ) (pages : ℕ) :
    ∃ r s', M.grow s pages = (r, s') ∧
      (r = -1 ∧ s' = s ∨ r = M.size s ∧ M.size s' = M.size s + pages) := by
  refine ⟨(M.grow s pages).1, (M.grow s pages).2, rfl, ?_⟩
  rcases hM s pages with hfail | hgrown
  · rw [hfail]
    exact .inl ⟨rfl, rfl⟩
  · exact .inr hgrown

end Contract

/-! ## `VectorMemory` -/

namespace VectorMemory

/-- `MAX_PAGES`: the pages whose bytes an `i64` can count. -/
def MAX_PAGES : ℕ := (2 ^ 63 - 1) / WASM_PAGE_SIZE

/-- `Vec::resize` with zeros: cut to `n` bytes, or filled up to `n` with zeros. -/
def resize (v : List UInt8) (n : ℕ) : List UInt8 := v.take n ++ List.replicate (n - v.length) 0

/-- `size`: the whole pages of the vector. -/
def size (v : List UInt8) : ℕ := v.length / WASM_PAGE_SIZE

/-- `grow`: the vector resized, unless that overflows or exceeds `MAX_PAGES`. -/
def grow (v : List UInt8) (pages : ℕ) : Int × List UInt8 :=
  let size := size v
  if size + pages < 2 ^ 64 then
    let n := size + pages
    if n > MAX_PAGES then (-1, v)
    else (size, resize v (n * WASM_PAGE_SIZE))
  else (-1, v)

/-- `read`: the bytes `offset..offset + len`, which must lie in the vector. -/
def read (v : List UInt8) (offset len : ℕ) : Except String (List UInt8) := do
  Rust.assert (decide (offset + len < 2 ^ 64)) "read: out of bounds"
  Rust.assert (decide (offset + len ≤ v.length)) "read: out of bounds"
  pure ((v.drop offset).take len)

/-- `write`: the bytes at `offset` replaced by `src`, within the vector. -/
def write (v : List UInt8) (offset : ℕ) (src : List UInt8) : Except String (List UInt8) := do
  Rust.assert (decide (offset + src.length < 2 ^ 64)) "write: out of bounds"
  Rust.assert (decide (offset + src.length ≤ v.length)) "write: out of bounds"
  pure (v.take offset ++ src ++ v.drop (offset + src.length))

/-- `impl Memory for RefCell<Vec<u8>>`. -/
def ops : MemoryOps (List UInt8) := ⟨size, grow, read, write⟩

theorem length_resize (v : List UInt8) (n : ℕ) : (resize v n).length = n := by
  unfold resize
  rw [List.length_append, List.length_take, List.length_replicate]
  omega

theorem size_resize (v : List UInt8) (n : ℕ) :
    size (resize v (n * WASM_PAGE_SIZE)) = n := by
  rw [size, length_resize, Nat.mul_div_cancel _ (by decide)]

theorem grow_of_le {v : List UInt8} {pages : ℕ} (h : size v + pages ≤ MAX_PAGES) :
    grow v pages = ((size v : Int), resize v ((size v + pages) * WASM_PAGE_SIZE)) := by
  have hlt : size v + pages < 2 ^ 64 := lt_of_le_of_lt h (by decide)
  simp only [grow, if_pos hlt, if_neg (not_lt.mpr h)]

theorem read_eq_ok {v : List UInt8} {offset len : ℕ} (h : offset + len ≤ v.length)
    (h64 : offset + len < 2 ^ 64) : read v offset len = .ok ((v.drop offset).take len) := by
  simp only [read, Rust.assert, decide_eq_true h64, decide_eq_true h, if_true]
  rfl

theorem write_eq_ok {v : List UInt8} {offset : ℕ} {src : List UInt8}
    (h : offset + src.length ≤ v.length) (h64 : offset + src.length < 2 ^ 64) :
    write v offset src = .ok (v.take offset ++ src ++ v.drop (offset + src.length)) := by
  simp only [write, Rust.assert, decide_eq_true h64, decide_eq_true h, if_true]
  rfl

/-- **The vector memory grows as the trait documents.** -/
theorem growsAsDocumented : GrowsAsDocumented ops := by
  intro v pages
  show grow v pages = (-1, v) ∨ (grow v pages).1 = size v ∧ size (grow v pages).2 = size v + pages
  by_cases h : size v + pages ≤ MAX_PAGES
  · right
    rw [grow_of_le h]
    exact ⟨rfl, size_resize v _⟩
  · left
    unfold grow
    dsimp only
    split_ifs <;> first | rfl | omega

end VectorMemory

/-! ## `RestrictedMemory` -/

/-- `core::ops::Range<u64>` of pages: `start..stop`. -/
structure PageRange where
  start : ℕ
  stop : ℕ
  deriving DecidableEq, Repr

/-- `RestrictedMemory`: the pages `pageRange` of the memory `memory`. -/
structure RestrictedMemory (σ : Type) where
  pageRange : PageRange
  memory : σ

namespace RestrictedMemory

variable {σ : Type} (M : MemoryOps σ)

/-- `RestrictedMemory::new`, whose assertion keeps the range's offsets from overflowing. -/
def new (memory : σ) (pageRange : PageRange) : Except String (RestrictedMemory σ) := do
  Rust.assert (decide (pageRange.stop < (2 ^ 64 - 1) / WASM_PAGE_SIZE))
    "assertion failed: page_range.end < u64::MAX / WASM_PAGE_SIZE"
  pure ⟨pageRange, memory⟩

/-- `size` of a restricted memory. -/
def size (m : RestrictedMemory σ) : ℕ :=
  let baseSize := M.size m.memory
  if baseSize < m.pageRange.start then 0
  else if baseSize > m.pageRange.stop then m.pageRange.stop - m.pageRange.start
  else baseSize - m.pageRange.start

/-- `grow`: below the range it grows the memory up to `start` and `delta` pages more; past it only
a grow by zero succeeds; in it, a grow within the pages left. -/
def grow (m : RestrictedMemory σ) (delta : ℕ) : Int × RestrictedMemory σ :=
  let baseSize := M.size m.memory
  if baseSize < m.pageRange.start then
    let (r, memory) := M.grow m.memory (m.pageRange.start - baseSize + delta)
    (min r 0, { m with memory })
  else if baseSize ≥ m.pageRange.stop then
    if delta = 0 then ((m.pageRange.stop - m.pageRange.start : ℕ), m) else (-1, m)
  else
    let pagesLeft := m.pageRange.stop - baseSize
    if pagesLeft < delta then (-1, m)
    else
      let (r, memory) := M.grow m.memory delta
      if r < 0 then (r, { m with memory })
      else (r - m.pageRange.start, { m with memory })

/-- `read`, at the offset moved to the start of the range. -/
def read (m : RestrictedMemory σ) (offset len : ℕ) : Except String (List UInt8) :=
  M.read m.memory (m.pageRange.start * WASM_PAGE_SIZE + offset) len

/-- `write`, at the offset moved to the start of the range. -/
def write (m : RestrictedMemory σ) (offset : ℕ) (src : List UInt8) :
    Except String (RestrictedMemory σ) := do
  let memory ← M.write m.memory (m.pageRange.start * WASM_PAGE_SIZE + offset) src
  pure { m with memory }

/-- `impl Memory for RestrictedMemory<M>`. -/
def ops : MemoryOps (RestrictedMemory σ) := ⟨size M, grow M, read M, write M⟩

variable {M}

theorem size_le (m : RestrictedMemory σ) : size M m ≤ m.pageRange.stop - m.pageRange.start := by
  unfold size
  dsimp only
  split_ifs <;> omega

@[simp]
theorem ops_size : (ops M).size = size M := rfl

@[simp]
theorem ops_grow : (ops M).grow = grow M := rfl

theorem size_of_mem_range {r : PageRange} {s : σ} (h1 : r.start ≤ M.size s) (h2 : M.size s ≤ r.stop) :
    size M ⟨r, s⟩ = M.size s - r.start := by
  unfold size
  dsimp only
  split_ifs <;> omega

theorem size_of_stop_le {r : PageRange} {s : σ} (hs : r.start ≤ r.stop) (h : r.stop ≤ M.size s) :
    size M ⟨r, s⟩ = r.stop - r.start := by
  unfold size
  dsimp only
  split_ifs <;> omega

theorem growsCapped_of_stop_le {m : RestrictedMemory σ} (hs : m.pageRange.start ≤ m.pageRange.stop)
    (hstop : m.pageRange.stop ≤ M.size m.memory) (delta : ℕ) :
    GrowsCapped (ops M) (m.pageRange.stop - m.pageRange.start) m delta := by
  have hsize : size M m = m.pageRange.stop - m.pageRange.start := size_of_stop_le hs hstop
  by_cases h0 : delta = 0
  · subst h0
    refine GrowsCapped.of_grown m ?_ rfl (le_of_eq hsize)
    show grow M m 0 = (((size M m : ℕ) : Int), m)
    simp only [grow, if_neg (not_lt.mpr (le_trans hs hstop)), if_pos hstop, hsize, if_true]
  · refine GrowsCapped.of_refused ?_
    show grow M m delta = (-1, m)
    simp only [grow, if_neg (not_lt.mpr (le_trans hs hstop)), if_pos hstop, if_neg h0]

theorem growsCapped_of_lt_stop (hM : GrowsAsDocumented M) {m : RestrictedMemory σ}
    (hstart : m.pageRange.start ≤ M.size m.memory) (hstop : M.size m.memory < m.pageRange.stop)
    (delta : ℕ) : GrowsCapped (ops M) (m.pageRange.stop - m.pageRange.start) m delta := by
  have hsize : size M m = M.size m.memory - m.pageRange.start :=
    size_of_mem_range hstart hstop.le
  by_cases hleft : m.pageRange.stop - M.size m.memory < delta
  · -- more than the pages left: refused before the underlying memory is asked
    refine GrowsCapped.of_refused ?_
    show grow M m delta = (-1, m)
    simp only [grow, if_neg (not_lt.mpr hstart), if_neg (not_le.mpr hstop), if_pos hleft]
  obtain ⟨r, s', hg, ⟨rfl, rfl⟩ | ⟨rfl, hs'⟩⟩ := hM.cases m.memory delta
  · -- the underlying memory refuses, and stays as it was
    refine GrowsCapped.of_refused ?_
    show grow M m delta = (-1, m)
    simp only [grow, if_neg (not_lt.mpr hstart), if_neg (not_le.mpr hstop), if_neg hleft, hg,
      if_pos (show (-1 : Int) < 0 by decide)]
  · -- the underlying memory grows, and returns its size before
    have hafter : size M ⟨m.pageRange, s'⟩ = size M m + delta := by
      rw [size_of_mem_range (by omega) (by omega), hs', hsize]
      omega
    refine GrowsCapped.of_grown ⟨m.pageRange, s'⟩ ?_ hafter (by rw [ops_size, hafter, hsize]; omega)
    show grow M m delta = (((size M m : ℕ) : Int), (⟨m.pageRange, s'⟩ : RestrictedMemory σ))
    have hnn : ¬((M.size m.memory : ℕ) : Int) < 0 := by omega
    simp only [grow, if_neg (not_lt.mpr hstart), if_neg (not_le.mpr hstop), if_neg hleft, hg,
      if_neg hnn, hsize, Prod.mk.injEq, and_true]
    omega

/-- **Once the memory reaches the range, it grows as one capped at the range's pages.** -/
theorem growsCapped_of_start_le (hM : GrowsAsDocumented M) {m : RestrictedMemory σ}
    (hs : m.pageRange.start ≤ m.pageRange.stop) (hstart : m.pageRange.start ≤ M.size m.memory)
    (delta : ℕ) : GrowsCapped (ops M) (m.pageRange.stop - m.pageRange.start) m delta := by
  rcases lt_or_ge (M.size m.memory) m.pageRange.stop with hstop | hstop
  · exact growsCapped_of_lt_stop hM hstart hstop delta
  · exact growsCapped_of_stop_le hs hstop delta

end RestrictedMemory

/-! ## `write`, growing on demand -/

section Write

variable {σ : Type} (M : MemoryOps σ)

/-- `write` of `lib.rs`: the memory grown by the pages the bytes need past its end, which must
succeed, and then the bytes written. -/
def write (memory : σ) (offset : ℕ) (bytes : List UInt8) : Except String σ := do
  Rust.assert (decide (offset + bytes.length < 2 ^ 64)) "Address space overflow"
  let lastByte := offset + bytes.length
  let sizePages := M.size memory
  Rust.assert (decide (sizePages * WASM_PAGE_SIZE < 2 ^ 64)) "Address space overflow"
  let sizeBytes := sizePages * WASM_PAGE_SIZE
  let memory ←
    if sizeBytes < lastByte then do
      let diffBytes := lastByte - sizeBytes
      Rust.assert (decide (diffBytes + (WASM_PAGE_SIZE - 1) < 2 ^ 64)) "Address space overflow"
      let diffPages := (diffBytes + (WASM_PAGE_SIZE - 1)) / WASM_PAGE_SIZE
      let (r, memory) := M.grow memory diffPages
      Rust.assert (r != -1) s!"Failed to grow memory from {sizePages} pages to {sizePages + diffPages} pages (delta = {diffPages} pages)."
      pure memory
    else pure memory
  M.write memory offset bytes

variable {M}

end Write

/-! ## Growing past the range from below it -/

/-- Pages `1..2` of an empty vector memory. -/
def pageOneMemory : RestrictedMemory (List UInt8) := ⟨⟨1, 2⟩, []⟩

theorem grow_pageOneMemory : RestrictedMemory.grow VectorMemory.ops pageOneMemory 2 =
    (0, ⟨⟨1, 2⟩, VectorMemory.resize [] (3 * WASM_PAGE_SIZE)⟩) := rfl

/-- **A restricted memory grows past its range**: `grow(2)` over pages `1..2` grows the vector
memory to three pages and returns `0`, where a capped memory refuses. -/
theorem restrictedGrow_exceeds_range :
    RestrictedMemory.new [] ⟨1, 2⟩ = .ok pageOneMemory ∧
      (RestrictedMemory.grow VectorMemory.ops pageOneMemory 2).1 = 0 ∧
      RestrictedMemory.size VectorMemory.ops
        (RestrictedMemory.grow VectorMemory.ops pageOneMemory 2).2 = 1 ∧
      VectorMemory.size (RestrictedMemory.grow VectorMemory.ops pageOneMemory 2).2.memory = 3 ∧
      ¬GrowsCapped (RestrictedMemory.ops VectorMemory.ops) (2 - 1) pageOneMemory 2 := by
  have hgrow := grow_pageOneMemory
  have hsize : VectorMemory.size (VectorMemory.resize [] (3 * WASM_PAGE_SIZE)) = 3 :=
    VectorMemory.size_resize [] 3
  refine ⟨rfl, by rw [hgrow], ?_, by rw [hgrow]; exact hsize, fun hcap => ?_⟩
  · rw [hgrow]
    have hstop : (⟨1, 2⟩ : PageRange).stop ≤
        VectorMemory.ops.size (VectorMemory.resize [] (3 * WASM_PAGE_SIZE)) := by
      show 2 ≤ VectorMemory.size _
      rw [hsize]
      decide
    exact RestrictedMemory.size_of_stop_le (by decide) hstop
  · -- a memory capped at the one page of the range refuses the grow
    have hrefused := hcap.full (by decide)
    rw [RestrictedMemory.ops_grow, hgrow] at hrefused
    exact absurd hrefused (by simp)


end IC.StableStructures
