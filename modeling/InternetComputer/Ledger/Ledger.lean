import InternetComputer.Ledger.Chain

/-!
# The ledger

`Ledger` of the ledger canister's `lib.rs` and the functions that change it: purging the
deduplication window, throttling, `add_payment_with_timestamp` with the burns that trim the
accounts, `add_block`, `from_init`, `change_notification_state`, and the part of the canister's
`notify` that runs before its call to the notified canister.

A function that may panic returns `Except String`; one that also returns a `Result` returns it
beside the ledger it leaves.

* `Ledger`, `Ledger.default`, `TransferError`, `PaymentError`;
* `purgeOldTransactions`, `throttle`, `maxRate`;
* `addPaymentWithTimestamp`, `recordPayment`, `trimAccounts`;
* `addBlock`, `fromInit`, `changeNotificationState`, `notify`.
-/

namespace IC.LedgerCanister

/-- `TransactionInfo`: an entry of the deduplication window. -/
structure TransactionInfo where
  blockTimestamp : TimeStamp
  transactionHash : ℕ
  deriving DecidableEq, Repr

/-- `Ledger`, without the fields no modelled function reads. -/
structure Ledger (α : Type) where
  balances : Balances α
  blockchain : Blockchain α
  maximumNumberOfAccounts : ℕ
  accountsOverflowTrimQuantity : ℕ
  mintingAccountId : Option α
  blocksNotified : Finset ℕ
  transactionWindow : Duration
  transactionsByHash : AList fun _ : ℕ => ℕ
  transactionsByHeight : List TransactionInfo
  maxTransactionsInWindow : ℕ
  transferFee : Tokens

/-- `TransferError`. -/
inductive TransferError where
  | badFee (expectedFee : Tokens)
  | insufficientFunds (balance : Tokens)
  | txTooOld (allowedWindowNanos : UInt64)
  | txCreatedInFuture
  | txDuplicate (duplicateOf : ℕ)
  deriving DecidableEq, Repr

/-- `PaymentError`. -/
inductive PaymentError where
  | reject (msg : String)
  | transferError (e : TransferError)
  deriving DecidableEq, Repr

/-- `Ledger::MAX_TRANSACTIONS_TO_PURGE`. -/
def maxTransactionsToPurge : ℕ := 100000

/-- `Ledger::DEFAULT_MAX_TRANSACTIONS_IN_WINDOW`. -/
def defaultMaxTransactionsInWindow : ℕ := 3000000

/-- `usize::MAX` on the canister's 32-bit WebAssembly. -/
def usizeMax : ℕ := 2 ^ 32 - 1

namespace Ledger

variable {α : Type} [DecidableEq α]

/-- `Ledger::default`. -/
def default : Ledger α where
  balances := Balances.new
  blockchain := Blockchain.default
  maximumNumberOfAccounts := 28000000
  accountsOverflowTrimQuantity := 100000
  mintingAccountId := none
  blocksNotified := ∅
  transactionWindow := 24 * 60 * 60 * 10 ^ 9
  transactionsByHash := ∅
  transactionsByHeight := []
  maxTransactionsInWindow := defaultMaxTransactionsInWindow
  transferFee := ⟨10000⟩

/-- `Ledger::purge_old_transactions` from count `cnt`: remove the front of the window while it is
too old, at most `MAX_TRANSACTIONS_TO_PURGE`, forgetting their notifications. -/
def purgeLoop (now : TimeStamp) (cnt : ℕ) (l : Ledger α) : Except String (ℕ × Ledger α) :=
  match h : l.transactionsByHeight with
  | [] => .ok (cnt, l)
  | info :: rest => do
    let t ← info.blockTimestamp.addDuration l.transactionWindow
    let t ← t.addDuration permittedDrift
    if t ≥ now then .ok (cnt, l)
    else
      let removed := l.transactionsByHash.lookup info.transactionHash
      if removed.isNone then .error "assertion failed: removed.is_some()"
      else
        let l' := { l with
          transactionsByHash := l.transactionsByHash.erase info.transactionHash
          blocksNotified :=
            match removed with
            | some bh => l.blocksNotified.erase bh
            | none => l.blocksNotified
          transactionsByHeight := rest }
        if cnt + 1 ≥ maxTransactionsToPurge then .ok (cnt + 1, l')
        else purgeLoop now (cnt + 1) l'
termination_by l.transactionsByHeight.length
decreasing_by simp [h]

/-- `Ledger::purge_old_transactions`: the ledger after the purge and the number purged. -/
def purgeOldTransactions (l : Ledger α) (now : TimeStamp) : Except String (ℕ × Ledger α) :=
  purgeLoop now 0 l

/-- `max_rate` of `Ledger::throttle` in exact arithmetic: `⌈0.5 M / W⌉`, saturated as a float cast
to `usize`; a window of zero gives infinity, or `NaN`, cast to zero, when `M` is zero too. -/
def maxRate (maxTransactionsInWindow : ℕ) (transactionWindow : Duration) : ℕ :=
  if transactionWindow = 0 then (if maxTransactionsInWindow = 0 then 0 else usizeMax)
  else min ((maxTransactionsInWindow * 10 ^ 9 + 2 * transactionWindow - 1) /
    (2 * transactionWindow)) usizeMax

/-- `Ledger::throttle`: past half the window's capacity, at most `max_rate` per second. -/
def throttle (l : Ledger α) (now : TimeStamp) : Except String Bool :=
  let numInWindow := l.transactionsByHeight.length
  if numInWindow ≥ l.maxTransactionsInWindow / 2 then
    let maxRate := maxRate l.maxTransactionsInWindow l.transactionWindow
    let t := ((l.transactionsByHeight[numInWindow - maxRate]?).map
      TransactionInfo.blockTimestamp).getD ⟨0⟩
    do
      let t ← t.addDuration (10 ^ 9)
      pure (decide (t > now))
  else .ok false

variable [LinearOrder α]

/-- The trimming loop of `add_payment_with_timestamp`: burn each selected account. -/
def trimAccounts (H : Hashing α) (now : TimeStamp) (l : Ledger α) :
    List (Tokens × α) → Except String (Ledger α)
  | [] => .ok l
  | (balance, account) :: toTrim => do
    let operation := Operation.burn account balance
    let (r, balances) ← l.balances.addPayment operation
    let _ ← Rust.expectOk r "failed to burn funds that must have existed"
    let block := Block.newFromTransaction l.blockchain.lastHash ⟨operation, ⟨0⟩, now⟩ now
    let (_, blockchain) ← Rust.expectOk (l.blockchain.addBlock H block)
      "called `Result::unwrap()` on an `Err` value"
    trimAccounts H now { l with balances, blockchain } toTrim

/-- The end of `add_payment_with_timestamp` once admitted: the payment applied, its block added and
recorded in the window, and the accounts trimmed when there are too many. -/
def recordPayment (H : Hashing α) (l : Ledger α) (payment : Operation α)
    (transaction : Transaction α) (now : TimeStamp) :
    Except String (Except PaymentError (ℕ × ℕ) × Ledger α) := do
  let transactionHash := H.transaction transaction
  let block := Block.newFromTransaction l.blockchain.lastHash transaction now
  let blockTimestamp := block.timestamp
  let (r, balances) ← l.balances.addPayment payment
  let l := { l with balances }
  match r with
  | .error (.insufficientFunds balance) =>
    pure (.error (.transferError (.insufficientFunds balance)), l)
  | .ok () =>
    let (height, blockchain) ← Rust.expectOk (l.blockchain.addBlock H block) "failed to add block"
    let l := { l with
      blockchain
      transactionsByHash := l.transactionsByHash.insert transactionHash height
      transactionsByHeight := l.transactionsByHeight ++ [⟨blockTimestamp, transactionHash⟩] }
    let toTrim :=
      if l.balances.store.entries.length ≥
          l.maximumNumberOfAccounts + l.accountsOverflowTrimQuantity then
        l.balances.selectAccountsToTrim l.accountsOverflowTrimQuantity
      else []
    let l ← trimAccounts H now l toTrim
    let lastHash ← Rust.expect l.blockchain.lastHash "called `Option::unwrap()` on a `None` value"
    pure (.ok (height, lastHash), l)

/-- `Ledger::add_payment_with_timestamp`: purge, check, then record. -/
def addPaymentWithTimestamp (H : Hashing α) (l : Ledger α) (memo : Memo) (payment : Operation α)
    (createdAtTime : Option TimeStamp) (now : TimeStamp) :
    Except String (Except PaymentError (ℕ × ℕ) × Ledger α) := do
  let (numPruned, l) ← l.purgeOldTransactions now
  let createdAtTime := createdAtTime.getD now
  let expiry ← createdAtTime.addDuration l.transactionWindow
  if expiry < now then
    pure (.error (.transferError (.txTooOld (UInt64.ofNat l.transactionWindow))), l)
  else
    let horizon ← now.addDuration permittedDrift
    if createdAtTime > horizon then
      pure (.error (.transferError .txCreatedInFuture), l)
    else
      -- if some transactions were pruned, this one is let through
      let throttled ← (if numPruned = 0 then l.throttle now else pure false)
      if throttled then
        pure (.error (.reject ("Too many transactions in replay prevention window, " ++
          "ledger is throttling, please retry later")), l)
      else
        let transaction : Transaction α := ⟨payment, memo, createdAtTime⟩
        match l.transactionsByHash.lookup (H.transaction transaction) with
        | some blockHeight => pure (.error (.transferError (.txDuplicate blockHeight)), l)
        | none => l.recordPayment H payment transaction now

/-- `Ledger::add_block`: a block made elsewhere, applied to the balances and appended. -/
def addBlock (H : Hashing α) (l : Ledger α) (block : Block α) :
    Except String (Except String ℕ × Ledger α) := do
  let (r, balances) ← l.balances.addPayment block.transaction.operation
  let l := { l with balances }
  match r with
  | .error _ => pure (.error "failed to execute transfer", l)
  | .ok () =>
    match l.blockchain.addBlock H block with
    | .error e => pure (.error e, l)
    | .ok (height, blockchain) => pure (.ok height, { l with blockchain })

/-- `Ledger::from_init`: each initial balance is minted at `timestamp`. -/
def fromInit (H : Hashing α) (l : Ledger α) (initialValues : List (α × Tokens))
    (mintingAccount : α) (timestamp : TimeStamp) (transactionWindow : Option Duration)
    (transferFee : Option Tokens) : Except String (Ledger α) := do
  let l := { l with
    balances := { l.balances with tokenPool := Tokens.MAX }
    mintingAccountId := some mintingAccount
    transactionWindow := transactionWindow.getD l.transactionWindow }
  let l ← initialValues.foldlM (fun l (to_, amount) => do
      let (r, l) ← l.addPaymentWithTimestamp H ⟨0⟩ (.mint to_ amount) none timestamp
      let _ ← Rust.expectOk r "Creating account failed"
      pure l) l
  pure { l with transferFee := transferFee.getD l.transferFee }

/-- `Ledger::change_notification_state` for a block younger than the window. -/
def changeNotificationState (l : Ledger α) (height : ℕ) (blockTimestamp : TimeStamp)
    (newState : Bool) (now : TimeStamp) : Except String (Except String Unit × Ledger α) := do
  let expiry ← blockTimestamp.addDuration l.transactionWindow
  if expiry ≤ now then
    let secs := l.transactionWindow / 10 ^ 9
    pure (.error s!"You cannot send a notification for a transaction that is more than {secs} seconds old", l)
  else
    let isNotified := decide (height ∈ l.blocksNotified)
    match isNotified, newState with
    | true, true | false, false =>
      pure (.error s!"The notification state is already {isNotified}", l)
    | true, false => pure (.ok (), { l with blocksNotified := l.blocksNotified.erase height })
    | false, true => pure (.ok (), { l with blocksNotified := insert height l.blocksNotified })

/-- The part of `notify` before its call out: the fee check, the mark, a transfer of zero. -/
def notify (H : Hashing α) (l : Ledger α) (blockHeight : ℕ) (blockTimestamp : TimeStamp)
    (maxFee : Tokens) (expectedFrom expectedTo : α) (now : TimeStamp) :
    Except String (Ledger α) := do
  if maxFee ≠ l.transferFee then throw "Transfer fee should be the ledger's transfer fee"
  let (r, l) ← l.changeNotificationState blockHeight blockTimestamp true now
  let _ ← Rust.expectOk r "Notification failed"
  let (r, l) ← l.addPaymentWithTimestamp H ⟨UInt64.ofNat blockHeight⟩
    (.transfer expectedFrom expectedTo Tokens.ZERO maxFee) none now
  let _ ← Rust.expectOk r "Transfer failed"
  pure l

end Ledger

end IC.LedgerCanister
