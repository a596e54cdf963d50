import Mathlib

/-!
# Blocks, shares and a replica's consensus pool

The artifacts that notarization and finalization use, and the `PoolReader` queries of
`consensus/pool_reader.rs`. A block is identified with its hash and carries its parent; the
catch-up package is the genesis block at height `0`.

* `Block`, `Share`, `Pool` and its updates, which only add artifacts (`Pool.Le`);
* `getNotarizedHeight`, `getNotarizedBlocks`, `getNotarizationShares`, `getFinalizationShares`,
  and their monotonicity in the pool.
-/

namespace IC.Consensus

/-- A block: the genesis block, or one on top of `parent` with its maker's rank. -/
inductive Block where
  | genesis
  | mk (parent : Block) (rank : ℕ) (payload : ℕ)
  deriving DecidableEq, Repr

namespace Block

/-- The height of a block above genesis. -/
def height : Block → ℕ
  | genesis => 0
  | mk parent _ _ => parent.height + 1

/-- The rank of the block maker that proposed the block. -/
def rank : Block → ℕ
  | genesis => 0
  | mk _ rank _ => rank

/-- `b.IsAncestor b'`: `b` is `b'` or one of its ancestors. -/
def IsAncestor (b : Block) : Block → Prop
  | genesis => b = genesis
  | mk parent rank payload => b = mk parent rank payload ∨ b.IsAncestor parent

instance decIsAncestor (b : Block) : (b' : Block) → Decidable (b.IsAncestor b')
  | genesis => inferInstanceAs (Decidable (b = genesis))
  | mk parent rank payload =>
    have := decIsAncestor b parent
    inferInstanceAs (Decidable (b = mk parent rank payload ∨ b.IsAncestor parent))

/-- The ancestor of `b` at height `h`, for `h ≤ b.height`. -/
def ancestorAt (b : Block) (h : ℕ) : Block :=
  match b with
  | genesis => genesis
  | mk parent rank payload =>
    if parent.height + 1 ≤ h then mk parent rank payload else parent.ancestorAt h

@[simp] theorem height_mk (parent : Block) (rank payload : ℕ) :
    (mk parent rank payload).height = parent.height + 1 := rfl

theorem isAncestor_refl (b : Block) : b.IsAncestor b := by
  cases b with
  | genesis => rfl
  | mk parent rank payload => exact Or.inl rfl

theorem ancestorAt_spec (b : Block) {h : ℕ} (hh : h ≤ b.height) :
    (b.ancestorAt h).height = h ∧ (b.ancestorAt h).IsAncestor b := by
  induction b with
  | genesis =>
    have h0 : h = 0 := by simp only [height] at hh; omega
    subst h0
    exact ⟨rfl, rfl⟩
  | mk parent rank payload ih =>
    simp only [ancestorAt]
    split_ifs with hle
    · exact ⟨by simp only [height_mk] at hh ⊢; omega, isAncestor_refl _⟩
    · have hp : h ≤ parent.height := by simp only [height_mk] at hh; omega
      exact ⟨(ih hp).1, Or.inr (ih hp).2⟩

end Block

/-- The content `(height, block)` of a notarization or finalization share, with its signer. -/
structure Share (ν : Type) where
  height : ℕ
  block : Block
  signer : ν
  deriving DecidableEq

/-- The validated part of a replica's consensus pool. -/
structure Pool (ν : Type) where
  /-- Heights of the validated random beacons. -/
  beacons : List ℕ
  /-- Validated block proposals, in the pool's iteration order. -/
  proposals : List Block
  /-- Blocks with a validated (aggregated) notarization. -/
  notarizations : List Block
  /-- Blocks with a validated (aggregated) finalization. -/
  finalizations : List Block
  notarizationShares : List (Share ν)
  finalizationShares : List (Share ν)

namespace Pool

variable {ν : Type}

/-- The pool a replica starts from: nothing beyond the catch-up package. -/
def empty : Pool ν := ⟨[], [], [], [], [], []⟩

/-- `p ≤ p'`: every artifact of `p` is in `p'`. -/
structure Le (p p' : Pool ν) : Prop where
  beacons : ∀ x ∈ p.beacons, x ∈ p'.beacons
  proposals : ∀ x ∈ p.proposals, x ∈ p'.proposals
  notarizations : ∀ x ∈ p.notarizations, x ∈ p'.notarizations
  finalizations : ∀ x ∈ p.finalizations, x ∈ p'.finalizations
  notarizationShares : ∀ x ∈ p.notarizationShares, x ∈ p'.notarizationShares
  finalizationShares : ∀ x ∈ p.finalizationShares, x ∈ p'.finalizationShares

theorem Le.refl (p : Pool ν) : p.Le p := ⟨fun _ h => h, fun _ h => h, fun _ h => h,
  fun _ h => h, fun _ h => h, fun _ h => h⟩

/-- Add a validated random beacon. -/
def addBeacon (p : Pool ν) (h : ℕ) : Pool ν := { p with beacons := p.beacons.insert h }

/-- Add a validated block proposal. -/
def addProposal (p : Pool ν) (b : Block) : Pool ν := { p with proposals := p.proposals.insert b }

/-- Add a validated notarization. -/
def addNotarization (p : Pool ν) (b : Block) : Pool ν :=
  { p with notarizations := p.notarizations.insert b }

/-- Add a validated finalization. -/
def addFinalization (p : Pool ν) (b : Block) : Pool ν :=
  { p with finalizations := p.finalizations.insert b }

theorem le_addBeacon (p : Pool ν) (h : ℕ) : p.Le (p.addBeacon h) :=
  ⟨fun _ hx => List.mem_insert_of_mem hx, fun _ hx => hx, fun _ hx => hx, fun _ hx => hx,
    fun _ hx => hx, fun _ hx => hx⟩

theorem le_addProposal (p : Pool ν) (b : Block) : p.Le (p.addProposal b) :=
  ⟨fun _ hx => hx, fun _ hx => List.mem_insert_of_mem hx, fun _ hx => hx, fun _ hx => hx,
    fun _ hx => hx, fun _ hx => hx⟩

theorem le_addNotarization (p : Pool ν) (b : Block) : p.Le (p.addNotarization b) :=
  ⟨fun _ hx => hx, fun _ hx => hx, fun _ hx => List.mem_insert_of_mem hx, fun _ hx => hx,
    fun _ hx => hx, fun _ hx => hx⟩

theorem le_addFinalization (p : Pool ν) (b : Block) : p.Le (p.addFinalization b) :=
  ⟨fun _ hx => hx, fun _ hx => hx, fun _ hx => hx, fun _ hx => List.mem_insert_of_mem hx,
    fun _ hx => hx, fun _ hx => hx⟩

@[simp] theorem addNotarization_notarizations (p : Pool ν) (b : Block) :
    (p.addNotarization b).notarizations = p.notarizations.insert b := rfl

variable [DecidableEq ν]

/-- Add notarization shares. -/
def addNotarizationShares (p : Pool ν) (ss : List (Share ν)) : Pool ν :=
  { p with notarizationShares := p.notarizationShares ∪ ss }

/-- Add finalization shares. -/
def addFinalizationShares (p : Pool ν) (ss : List (Share ν)) : Pool ν :=
  { p with finalizationShares := p.finalizationShares ∪ ss }

theorem le_addNotarizationShares (p : Pool ν) (ss : List (Share ν)) :
    p.Le (p.addNotarizationShares ss) :=
  ⟨fun _ hx => hx, fun _ hx => hx, fun _ hx => hx, fun _ hx => hx,
    fun _ hx => List.mem_union_left hx _, fun _ hx => hx⟩

theorem le_addFinalizationShares (p : Pool ν) (ss : List (Share ν)) :
    p.Le (p.addFinalizationShares ss) :=
  ⟨fun _ hx => hx, fun _ hx => hx, fun _ hx => hx, fun _ hx => hx, fun _ hx => hx,
    fun _ hx => List.mem_union_left hx _⟩

@[simp] theorem addNotarizationShares_notarizationShares (p : Pool ν) (ss : List (Share ν)) :
    (p.addNotarizationShares ss).notarizationShares = p.notarizationShares ∪ ss := rfl

@[simp] theorem addFinalizationShares_finalizationShares (p : Pool ν) (ss : List (Share ν)) :
    (p.addFinalizationShares ss).finalizationShares = p.finalizationShares ∪ ss := rfl

end Pool

/-! ## Pool queries -/

section Reader

variable {ν : Type}

/-- The greatest height in a list of blocks, `0` (the catch-up height) when there is none. -/
def maxHeight (bs : List Block) : ℕ := bs.foldr (fun b m => max b.height m) 0

theorem le_maxHeight {bs : List Block} {b : Block} (hb : b ∈ bs) : b.height ≤ maxHeight bs := by
  induction bs with
  | nil => cases hb
  | cons x xs ih =>
    simp only [maxHeight, List.foldr_cons] at ih ⊢
    rcases List.mem_cons.mp hb with rfl | hb
    · exact Nat.le_max_left _ _
    · exact Nat.le_trans (ih hb) (Nat.le_max_right _ _)

theorem maxHeight_le {bs : List Block} {m : ℕ} (h : ∀ b ∈ bs, b.height ≤ m) :
    maxHeight bs ≤ m := by
  induction bs with
  | nil => exact Nat.zero_le m
  | cons x xs ih =>
    simp only [maxHeight, List.foldr_cons] at ih ⊢
    exact Nat.max_le.mpr ⟨h x List.mem_cons_self, ih fun b hb => h b (List.mem_cons_of_mem x hb)⟩

theorem maxHeight_mono {bs bs' : List Block} (h : ∀ b ∈ bs, b ∈ bs') :
    maxHeight bs ≤ maxHeight bs' :=
  maxHeight_le fun b hb => le_maxHeight (h b hb)

/-- `PoolReader::get_notarized_height`. -/
def getNotarizedHeight (pool : Pool ν) : ℕ := maxHeight pool.notarizations

/-- `PoolReader::get_finalized_height`: the height of the finalized tip. -/
def getFinalizedHeight (pool : Pool ν) : ℕ := maxHeight pool.finalizations

/-- `PoolReader::get_notarized_blocks`. -/
def getNotarizedBlocks (pool : Pool ν) (h : ℕ) : List Block :=
  if h = 0 then [Block.genesis] else pool.notarizations.filter (·.height = h)

/-- `PoolReader::get_random_beacon`, one beacon per height. -/
def getRandomBeacon (pool : Pool ν) (h : ℕ) : Option ℕ :=
  if h = 0 ∨ h ∈ pool.beacons then some h else none

/-- `PoolReader::get_notarization_shares`. -/
def getNotarizationShares (pool : Pool ν) (h : ℕ) : List (Share ν) :=
  pool.notarizationShares.filter (·.height = h)

/-- `PoolReader::get_finalization_shares` over the range `from ..= to`. -/
def getFinalizationShares (pool : Pool ν) (hFrom hTo : ℕ) : List (Share ν) :=
  pool.finalizationShares.filter fun s => hFrom ≤ s.height ∧ s.height ≤ hTo

theorem getNotarizedHeight_mono {p p' : Pool ν} (h : p.Le p') :
    getNotarizedHeight p ≤ getNotarizedHeight p' :=
  maxHeight_mono h.notarizations

theorem mem_getNotarizedBlocks {pool : Pool ν} {h : ℕ} {b : Block} (hh : 1 ≤ h)
    (hb : b ∈ getNotarizedBlocks pool h) : b ∈ pool.notarizations ∧ b.height = h := by
  rw [getNotarizedBlocks, if_neg (by omega)] at hb
  simpa using hb

end Reader

end IC.Consensus
