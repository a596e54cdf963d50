import InternetComputer.Ledger.Balances

/-!
# Transactions, blocks and the chain

The chain of the ledger canister's `lib.rs`: timestamps with the panicking addition of a
duration, transactions, blocks, and `Blockchain::add_block`. Hashes are natural numbers computed
by two functions of the model, `Hashing`: the hash of a transaction and the hash of an encoded
block. Encoding a block is taken to succeed, and an encoded block is the block itself.

* `TimeStamp`, `Duration`, `TimeStamp.addDuration`;
* `Memo`, `Transaction`, `Block`, `Hashing`;
* `Blockchain`, `Blockchain.addBlock`, `chainLength`.
-/

namespace IC.LedgerCanister

/-- `std::time::Duration`, in nanoseconds. -/
abbrev Duration := ℕ

/-- `TimeStamp`: nanoseconds since the Unix epoch. -/
structure TimeStamp where
  timestampNanos : UInt64
  deriving DecidableEq, Repr

namespace TimeStamp

/-- The nanoseconds as a natural number. -/
def nanos (t : TimeStamp) : ℕ := t.timestampNanos.toNat

theorem nanos_injective : Function.Injective nanos := fun a b h => by
  cases a
  cases b
  exact congrArg TimeStamp.mk (UInt64.toNat_inj.mp h)

/-- The derived order of `TimeStamp` compares the nanoseconds. -/
instance : LinearOrder TimeStamp := LinearOrder.lift' nanos nanos_injective

theorem lt_iff_nanos_lt {a b : TimeStamp} : a < b ↔ a.nanos < b.nanos := Iff.rfl

theorem le_iff_nanos_le {a b : TimeStamp} : a ≤ b ↔ a.nanos ≤ b.nanos := Iff.rfl

/-- `impl Add<Duration> for TimeStamp`: past `u64::MAX` nanoseconds it panics. -/
def addDuration (t : TimeStamp) (d : Duration) : Except String TimeStamp :=
  if t.nanos + d < 2 ^ 64 then .ok ⟨UInt64.ofNat (t.nanos + d)⟩
  else .error "called `Result::unwrap()` on an `Err` value: TryFromIntError(())"

theorem addDuration_eq_ok_iff {t t' : TimeStamp} {d : Duration} :
    t.addDuration d = .ok t' ↔ t.nanos + d < 2 ^ 64 ∧ t'.nanos = t.nanos + d := by
  unfold addDuration
  split_ifs with h
  · rw [Except.ok.injEq]
    constructor
    · rintro rfl
      exact ⟨h, UInt64.toNat_ofNat_of_lt' h⟩
    · rintro ⟨-, ht⟩
      exact nanos_injective (by rw [ht]; exact UInt64.toNat_ofNat_of_lt' h)
  · simp only [false_iff, not_and]
    exact fun h' => absurd h' h

end TimeStamp

/-- `ic_constants::PERMITTED_DRIFT`: sixty seconds. -/
def permittedDrift : Duration := 60 * 10 ^ 9

/-- `Memo`. -/
structure Memo where
  memo : UInt64
  deriving DecidableEq, Repr

/-- `Transaction`: an operation with the metadata the client attached to it. -/
structure Transaction (α : Type) where
  operation : Operation α
  memo : Memo
  createdAtTime : TimeStamp
  deriving DecidableEq, Repr

/-- `Block`: a transaction with the hash of the previous block and the time it was added. -/
structure Block (α : Type) where
  parentHash : Option ℕ
  transaction : Transaction α
  timestamp : TimeStamp
  deriving DecidableEq, Repr

/-- `Block::new_from_transaction`. -/
def Block.newFromTransaction {α : Type} (parentHash : Option ℕ) (transaction : Transaction α)
    (timestamp : TimeStamp) : Block α :=
  ⟨parentHash, transaction, timestamp⟩

/-- `Transaction::hash` and the hash of an encoded block, SHA-256 over their encodings. -/
structure Hashing (α : Type) where
  transaction : Transaction α → ℕ
  block : Block α → ℕ

/-- `Blockchain`. The archive is left out: only `num_archived_blocks` of it is read here. -/
structure Blockchain (α : Type) where
  blocks : List (Block α)
  lastHash : Option ℕ
  lastTimestamp : TimeStamp
  numArchivedBlocks : ℕ

namespace Blockchain

variable {α : Type}

/-- `Blockchain::default`: no block, the timestamp of the Unix epoch. -/
def default : Blockchain α := ⟨[], none, ⟨0⟩, 0⟩

/-- `Blockchain::chain_length`. -/
def chainLength (bc : Blockchain α) : ℕ := bc.numArchivedBlocks + bc.blocks.length

/-- `Blockchain::add_block`: a block on the last hash, not older than the tip; its height. -/
def addBlock (H : Hashing α) (bc : Blockchain α) (block : Block α) :
    Except String (ℕ × Blockchain α) :=
  if block.parentHash ≠ bc.lastHash then
    .error "Cannot apply block because its parent hash doesn't match."
  else if block.timestamp < bc.lastTimestamp then
    .error "Cannot apply block because its timestamp is older than the previous tip."
  else
    let bc := { bc with lastHash := some (H.block block), lastTimestamp := block.timestamp,
                        blocks := bc.blocks ++ [block] }
    .ok (bc.chainLength - 1, bc)

end Blockchain

end IC.LedgerCanister
