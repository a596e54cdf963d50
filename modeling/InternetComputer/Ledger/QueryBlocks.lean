import InternetComputer.Ledger.Ledger

/-!
# Querying blocks

`query_blocks` of `main.rs` with the range arithmetic of `range_utils.rs`: the requested range is
cut to the local blocks and to `MAX_BLOCKS_PER_REQUEST` of them, and the part of the request
before them is answered by the archive ranges it meets. Heights saturate where `range_utils`
saturates; offsets into the local blocks are 32-bit `usize`.

* **`queryBlocks_eq_ok`**: a request that starts at most at the chain length does not trap;
  **`queryBlocks_eq_error`**: one that starts past it traps;
* `mem_archivedBlocks_iff`, `archivedBlocks_pairwise_disjoint`: the archive ranges returned
  cover the heights before the local blocks once each;
* **`queryBlocks_traps_or_overreaches`**.
-/

namespace IC.LedgerCanister

/-- `u64::MAX`. -/
def u64Max : ℕ := 2 ^ 64 - 1

/-- `std::ops::Range<u64>`. -/
structure Range where
  start : ℕ
  «end» : ℕ
  deriving DecidableEq, Repr

/-- `Range::is_empty`. -/
def Range.isEmpty (r : Range) : Bool := !decide (r.start < r.«end»)

/-- `Range::contains`. -/
def Range.Contains (r : Range) (h : ℕ) : Prop := r.start ≤ h ∧ h < r.«end»

namespace RangeUtils

/-- `make_range`: `len` integers from `start`, cut at `u64::MAX`. -/
def makeRange (start len : ℕ) : Range := ⟨start, min (start + len) u64Max⟩

/-- `intersect`. -/
def intersect (l r : Range) : Range := ⟨max l.start r.start, min l.«end» r.«end»⟩

/-- `range_len`, saturating at zero. -/
def rangeLen (r : Range) : ℕ := r.«end» - r.start

/-- `head`: the first `n` integers of the range at most. -/
def head (r : Range) (n : ℕ) : Range := ⟨r.start, min r.«end» (min (r.start + n) u64Max)⟩

end RangeUtils

open RangeUtils

/-- `MAX_BLOCKS_PER_REQUEST`. -/
def maxBlocksPerRequest : ℕ := 2000

/-- `u64 as usize` on a 32-bit target: the low 32 bits. -/
def usizeOfU64 (x : ℕ) : ℕ := x % 2 ^ 32

/-- `ArchivedBlocksRange`: a range of heights and the archive node to ask. -/
structure ArchivedBlocksRange (κ : Type) where
  start : ℕ
  length : ℕ
  canisterId : κ
  method : String
  deriving DecidableEq, Repr

/-- `QueryBlocksResponse`, without the certificate. -/
structure QueryBlocksResponse (α κ : Type) where
  chainLength : ℕ
  blocks : List (Block α)
  firstBlockIndex : ℕ
  archivedBlocks : List (ArchivedBlocksRange κ)
  deriving DecidableEq, Repr

/-- `Blockchain::local_block_range`: the heights of the blocks not archived. -/
def Blockchain.localBlockRange {α : Type} (bc : Blockchain α) : Range :=
  ⟨bc.numArchivedBlocks, bc.numArchivedBlocks + bc.blocks.length⟩

variable {α κ : Type}

/-- The archive range of one archive node within the request; the `to + 1` of `u64` wraps. -/
def archivedRange (archivedBlocksRange : Range) (entry : (ℕ × ℕ) × κ) :
    Option (ArchivedBlocksRange κ) :=
  let slice := intersect ⟨entry.1.1, (entry.1.2 + 1) % 2 ^ 64⟩ archivedBlocksRange
  if !slice.isEmpty then some ⟨slice.start, rangeLen slice, entry.2, "get_blocks"⟩ else none

/-- `query_blocks`, over the archive's index of node ranges and canisters. -/
def queryBlocks (bc : Blockchain α) (archiveIndex : List ((ℕ × ℕ) × κ)) (start length : ℕ) :
    Except String (QueryBlocksResponse α κ) := do
  let requestedRange := makeRange start length
  let localRange := bc.localBlockRange
  let effectiveLocalRange := head (intersect requestedRange localRange) maxBlocksPerRequest
  let localStart := usizeOfU64 (effectiveLocalRange.start - localRange.start)
  let localEnd := (localStart + rangeLen effectiveLocalRange) % 2 ^ 32
  let localBlocks ← Rust.slice bc.blocks localStart localEnd
  let archivedBlocksRange : Range := ⟨requestedRange.start, effectiveLocalRange.start⟩
  let archivedBlocks := archiveIndex.filterMap (archivedRange archivedBlocksRange)
  pure ⟨bc.chainLength, localBlocks, effectiveLocalRange.start, archivedBlocks⟩

/-- The range of local blocks `query_blocks` answers with. -/
def effectiveLocalRange (bc : Blockchain α) (start length : ℕ) : Range :=
  head (intersect (makeRange start length) bc.localBlockRange) maxBlocksPerRequest

theorem effectiveLocalRange_start (bc : Blockchain α) (start length : ℕ) :
    (effectiveLocalRange bc start length).start = max start bc.numArchivedBlocks := rfl

/-- The local range answered is within the request and holds at most `MAX_BLOCKS_PER_REQUEST`. -/
theorem effectiveLocalRange_end_le (bc : Blockchain α) (start length : ℕ) :
    (effectiveLocalRange bc start length).«end» ≤ min start u64Max + length ∧
      (effectiveLocalRange bc start length).«end» ≤ bc.numArchivedBlocks + bc.blocks.length ∧
      rangeLen (effectiveLocalRange bc start length) ≤ maxBlocksPerRequest := by
  simp only [effectiveLocalRange, head, intersect, makeRange, Blockchain.localBlockRange,
    rangeLen]
  omega

theorem localSlice_eq (bc : Blockchain α) {start : ℕ} (length : ℕ)
    (hstart : start ≤ bc.chainLength) (hlen : bc.blocks.length < 2 ^ 32) :
    Rust.slice bc.blocks
        (usizeOfU64 ((effectiveLocalRange bc start length).start - bc.numArchivedBlocks))
        ((usizeOfU64 ((effectiveLocalRange bc start length).start - bc.numArchivedBlocks) +
          rangeLen (effectiveLocalRange bc start length)) % 2 ^ 32) =
      .ok ((bc.blocks.drop ((effectiveLocalRange bc start length).start -
        bc.numArchivedBlocks)).take (rangeLen (effectiveLocalRange bc start length))) := by
  have hend := (effectiveLocalRange_end_le bc start length).2.1
  have hstartEq := effectiveLocalRange_start bc start length
  generalize effectiveLocalRange bc start length = r at hend hstartEq ⊢
  unfold Blockchain.chainLength at hstart
  unfold rangeLen
  have hcast : usizeOfU64 (r.start - bc.numArchivedBlocks) = r.start - bc.numArchivedBlocks :=
    Nat.mod_eq_of_lt (by omega)
  rw [hcast, Nat.mod_eq_of_lt (by omega), Rust.slice, if_neg (by omega), if_neg (by omega),
    Nat.add_sub_cancel_left]

/-- **Up to the end of the chain, `query_blocks` does not trap**: it answers with the chain length,
the local blocks of the effective range from its start, and the archive ranges before that
start. -/
theorem queryBlocks_eq_ok (bc : Blockchain α) (archiveIndex : List ((ℕ × ℕ) × κ))
    {start : ℕ} (length : ℕ) (hstart : start ≤ bc.chainLength)
    (hlen : bc.blocks.length < 2 ^ 32) :
    queryBlocks bc archiveIndex start length =
      .ok ⟨bc.chainLength,
        (bc.blocks.drop ((effectiveLocalRange bc start length).start - bc.numArchivedBlocks)).take
          (rangeLen (effectiveLocalRange bc start length)),
        (effectiveLocalRange bc start length).start,
        archiveIndex.filterMap (archivedRange ⟨start, (effectiveLocalRange bc start length).start⟩)⟩ := by
  have hslice := localSlice_eq bc length hstart hlen
  simp only [queryBlocks]
  rw [show head (intersect (makeRange start length) bc.localBlockRange) maxBlocksPerRequest =
    effectiveLocalRange bc start length from rfl,
    show bc.localBlockRange.start = bc.numArchivedBlocks from rfl, hslice]
  rfl

/-- **Past the end of the chain, `query_blocks` traps**: the local range starts past the local
blocks, and so does the empty slice it takes, unless the offset wraps. -/
theorem queryBlocks_eq_error (bc : Blockchain α) (archiveIndex : List ((ℕ × ℕ) × κ))
    {start : ℕ} (length : ℕ) (hstart : bc.chainLength < start)
    (hoff : start - bc.numArchivedBlocks < 2 ^ 32) :
    queryBlocks bc archiveIndex start length = .error "range end index out of range for slice" := by
  have hend := (effectiveLocalRange_end_le bc start length).2.1
  have hstartEq := effectiveLocalRange_start bc start length
  unfold Blockchain.chainLength at hstart
  simp only [queryBlocks]
  rw [show head (intersect (makeRange start length) bc.localBlockRange) maxBlocksPerRequest =
    effectiveLocalRange bc start length from rfl,
    show bc.localBlockRange.start = bc.numArchivedBlocks from rfl]
  generalize effectiveLocalRange bc start length = r at hend hstartEq ⊢
  -- the range is empty and starts at the request, past the last local block
  have hlen : rangeLen r = 0 := by
    unfold rangeLen
    omega
  have hcast : usizeOfU64 (r.start - bc.numArchivedBlocks) = r.start - bc.numArchivedBlocks :=
    Nat.mod_eq_of_lt (by omega)
  rw [hlen, hcast, Nat.add_zero, Nat.mod_eq_of_lt (by omega), Rust.slice, if_neg (by omega),
    if_pos (by omega)]
  rfl

/-! ## The archive ranges -/

theorem archivedRange_eq_some {r' : Range} {entry : (ℕ × ℕ) × κ} {r : ArchivedBlocksRange κ}
    (h : archivedRange r' entry = some r) :
    r.start = max entry.1.1 r'.start ∧
      r.start + r.length = min ((entry.1.2 + 1) % 2 ^ 64) r'.«end» ∧ 0 < r.length ∧
      r.canisterId = entry.2 ∧ r.method = "get_blocks" := by
  unfold archivedRange at h
  by_cases hne : max entry.1.1 r'.start < min ((entry.1.2 + 1) % 2 ^ 64) r'.«end»
  · simp only [intersect, Range.isEmpty, hne, decide_true, Bool.not_true, Bool.not_false,
      if_true, Option.some.injEq] at h
    subst h
    refine ⟨rfl, ?_, ?_, rfl, rfl⟩ <;> simp only [rangeLen] <;> omega
  · simp only [intersect, Range.isEmpty, Bool.not_not] at h
    split_ifs at h with hlt
    exact absurd (of_decide_eq_true hlt) hne

theorem archivedRange_eq_none {r' : Range} {entry : (ℕ × ℕ) × κ}
    (h : archivedRange r' entry = none) :
    min ((entry.1.2 + 1) % 2 ^ 64) r'.«end» ≤ max entry.1.1 r'.start := by
  unfold archivedRange at h
  by_cases hne : max entry.1.1 r'.start < min ((entry.1.2 + 1) % 2 ^ 64) r'.«end»
  · simp only [intersect, Range.isEmpty, Bool.not_not] at h
    split_ifs at h with hlt
    exact absurd (decide_eq_true hne) hlt
  · omega

theorem covers_archivedRange_iff {r' : Range} {entry : (ℕ × ℕ) × κ} {height : ℕ} :
    (∃ r, archivedRange r' entry = some r ∧ r.start ≤ height ∧ height < r.start + r.length) ↔
      r'.Contains height ∧ entry.1.1 ≤ height ∧ height < (entry.1.2 + 1) % 2 ^ 64 := by
  unfold Range.Contains
  constructor
  · rintro ⟨r, hr, hlo, hhi⟩
    obtain ⟨hstart, hend, -⟩ := archivedRange_eq_some hr
    omega
  · rintro ⟨⟨hlo, hhi⟩, hfrom, hto⟩
    cases hr : archivedRange r' entry with
    | none =>
      have := archivedRange_eq_none hr
      omega
    | some r =>
      obtain ⟨hstart, hend, -⟩ := archivedRange_eq_some hr
      exact ⟨r, rfl, by omega, by omega⟩

/-- **The archive ranges cover the heights before the local blocks that an archive node has.** -/
theorem mem_archivedBlocks_iff {r' : Range} {archiveIndex : List ((ℕ × ℕ) × κ)} {height : ℕ} :
    (∃ r ∈ archiveIndex.filterMap (archivedRange r'), r.start ≤ height ∧
        height < r.start + r.length) ↔
      r'.Contains height ∧ ∃ entry ∈ archiveIndex, entry.1.1 ≤ height ∧
        height < (entry.1.2 + 1) % 2 ^ 64 := by
  simp only [List.mem_filterMap]
  constructor
  · rintro ⟨r, ⟨entry, hentry, hr⟩, hcover⟩
    obtain ⟨hc, hfrom, hto⟩ := covers_archivedRange_iff.mp ⟨r, hr, hcover⟩
    exact ⟨hc, entry, hentry, hfrom, hto⟩
  · rintro ⟨hc, entry, hentry, hfrom, hto⟩
    obtain ⟨r, hr, hcover⟩ := covers_archivedRange_iff.mpr ⟨hc, hfrom, hto⟩
    exact ⟨r, ⟨entry, hentry, hr⟩, hcover⟩

/-- Over archive nodes whose ranges do not overlap, the archive ranges do not overlap. -/
theorem archivedBlocks_pairwise_disjoint {r' : Range} {archiveIndex : List ((ℕ × ℕ) × κ)}
    (hindex : archiveIndex.Pairwise fun a b =>
      (a.1.2 + 1) % 2 ^ 64 ≤ b.1.1 ∨ (b.1.2 + 1) % 2 ^ 64 ≤ a.1.1) :
    (archiveIndex.filterMap (archivedRange r')).Pairwise fun a b =>
      a.start + a.length ≤ b.start ∨ b.start + b.length ≤ a.start := by
  apply hindex.filterMap
  intro a b hab r hr r' hr'
  obtain ⟨hstart, hend, -⟩ := archivedRange_eq_some hr
  obtain ⟨hstart', hend', -⟩ := archivedRange_eq_some hr'
  omega

/-! ## The request past the chain, and before the local blocks -/

/-- A chain of ten blocks, all archived. -/
def archivedChain : Blockchain ℕ := ⟨[], none, ⟨0⟩, 10⟩

/-- **`query_blocks` traps past the chain, and answers beyond a request**: the archive part is
cut at the start of the local range, not at the end of the request. -/
theorem queryBlocks_traps_or_overreaches :
    queryBlocks (Blockchain.default : Blockchain ℕ) ([] : List ((ℕ × ℕ) × ℕ)) 1 1 =
        .error "range end index out of range for slice" ∧
      makeRange 0 1 = ⟨0, 1⟩ ∧
      queryBlocks archivedChain [((0, 9), 0)] 0 1 =
        .ok ⟨10, [], 10, [⟨0, 10, 0, "get_blocks"⟩]⟩ :=
  ⟨rfl, rfl, rfl⟩

end IC.LedgerCanister
