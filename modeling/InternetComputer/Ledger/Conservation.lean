import InternetComputer.Ledger.Ledger
import InternetComputer.Ledger.Refinement

/-!
# Token conservation

The ledger after `from_init` on `Ledger::default`, then any calls of
`add_payment_with_timestamp`, `add_block`, `change_notification_state` and the ledger part of
`notify`, where a call that panics is rolled back. In every such state the balances keep their
invariant: the balances in the store and the pool make `u64::MAX` e8s, and no account holds zero.

* `Call`, `Call.apply`, `Reachable`;
* frame lemmas: the purge and the notification state leave the balances alone;
* `Valid.trimAccounts`, `Valid.recordPayment`, `Valid.addPaymentWithTimestamp`, and one such
  lemma for each other call;
* **`Reachable.valid`**, and the theorem on `add_payment` in every reachable state.
-/

namespace IC.LedgerCanister

variable {α : Type} [LinearOrder α]

/-- A call that changes the ledger. -/
inductive Call (α : Type) where
  | addPaymentWithTimestamp (memo : Memo) (payment : Operation α)
      (createdAtTime : Option TimeStamp) (now : TimeStamp)
  | addBlock (block : Block α)
  | changeNotificationState (height : ℕ) (blockTimestamp : TimeStamp) (newState : Bool)
      (now : TimeStamp)
  | notify (blockHeight : ℕ) (blockTimestamp : TimeStamp) (maxFee : Tokens)
      (expectedFrom expectedTo : α) (now : TimeStamp)

/-- The ledger a call leaves, or its panic. -/
def Call.apply (H : Hashing α) (l : Ledger α) : Call α → Except String (Ledger α)
  | .addPaymentWithTimestamp memo payment createdAtTime now =>
    Prod.snd <$> l.addPaymentWithTimestamp H memo payment createdAtTime now
  | .addBlock block => Prod.snd <$> l.addBlock H block
  | .changeNotificationState height blockTimestamp newState now =>
    Prod.snd <$> l.changeNotificationState height blockTimestamp newState now
  | .notify blockHeight blockTimestamp maxFee expectedFrom expectedTo now =>
    l.notify H blockHeight blockTimestamp maxFee expectedFrom expectedTo now

/-- The states of the ledger: `from_init` on `Ledger::default`, then calls that do not panic. -/
inductive Reachable (H : Hashing α) : Ledger α → Prop
  | init {l : Ledger α} (initialValues : List (α × Tokens)) (mintingAccount : α)
      (timestamp : TimeStamp) (transactionWindow : Option Duration) (transferFee : Option Tokens)
      (h : Ledger.default.fromInit H initialValues mintingAccount timestamp transactionWindow
        transferFee = .ok l) : Reachable H l
  | step {l l' : Ledger α} (c : Call α) (hl : Reachable H l) (h : c.apply H l = .ok l') :
      Reachable H l'

namespace Ledger

variable {H : Hashing α} {l l' : Ledger α} {now : TimeStamp}

/-! ## Frames -/

omit [LinearOrder α] in
theorem purgeLoop_frame {cnt n : ℕ} {l₀ l₁ : Ledger α} (h : l₀.purgeLoop now cnt = .ok (n, l₁)) :
    l₁.balances = l₀.balances ∧ l₁.blockchain = l₀.blockchain ∧
      l₁.transactionWindow = l₀.transactionWindow := by
  fun_induction purgeLoop now cnt l₀ with
  | case1 cnt l hq =>
    obtain ⟨-, rfl⟩ := Prod.mk.inj (Except.ok.inj h)
    exact ⟨rfl, rfl, rfl⟩
  | case2 cnt l info rest hq ih =>
    obtain ⟨t, -, h⟩ := Except.bind_eq_ok.mp h
    obtain ⟨t', -, h⟩ := Except.bind_eq_ok.mp h
    dsimp only at h ih
    -- the failed assertion is an error, and `split_ifs` discards it
    split_ifs at h
    · obtain ⟨-, rfl⟩ := Prod.mk.inj (Except.ok.inj h)
      exact ⟨rfl, rfl, rfl⟩
    · obtain ⟨-, rfl⟩ := Prod.mk.inj (Except.ok.inj h)
      exact ⟨rfl, rfl, rfl⟩
    · exact ih h

omit [LinearOrder α] in
theorem purgeOldTransactions_frame {n : ℕ} (h : l.purgeOldTransactions now = .ok (n, l')) :
    l'.balances = l.balances ∧ l'.blockchain = l.blockchain ∧
      l'.transactionWindow = l.transactionWindow :=
  purgeLoop_frame h

omit [LinearOrder α] in
theorem changeNotificationState_balances {height : ℕ} {blockTimestamp : TimeStamp}
    {newState : Bool} {r : Except String Unit}
    (h : l.changeNotificationState height blockTimestamp newState now = .ok (r, l')) :
    l'.balances = l.balances := by
  unfold changeNotificationState at h
  obtain ⟨expiry, -, h⟩ := Except.bind_eq_ok.mp h
  dsimp only at h
  split_ifs at h
  · obtain ⟨-, rfl⟩ := Prod.mk.inj (Except.pure_eq_ok.mp h)
    rfl
  · split at h <;> obtain ⟨-, rfl⟩ := Prod.mk.inj (Except.pure_eq_ok.mp h) <;> rfl

end Ledger

/-! ## The calls keep the invariant of the balances -/

namespace Balances.Valid

variable {H : Hashing α} {l l' : Ledger α} {now : TimeStamp}

theorem trimAccounts : ∀ {l : Ledger α} {toTrim : List (Tokens × α)},
    l.balances.Valid → l.trimAccounts H now toTrim = .ok l' → l'.balances.Valid
  | l, [], hb, h => by
    rw [Ledger.trimAccounts] at h
    exact Except.ok.inj h ▸ hb
  | l, (balance, account) :: toTrim, hb, h => by
    rw [Ledger.trimAccounts] at h
    obtain ⟨⟨r, balances⟩, hpay, h⟩ := Except.bind_eq_ok.mp h
    obtain ⟨-, -, h⟩ := Except.bind_eq_ok.mp h
    dsimp only at h
    obtain ⟨x, -, h⟩ := Except.bind_eq_ok.mp h
    exact trimAccounts (l := { l with balances, blockchain := x.2 }) (hb.addPayment hpay) h

theorem recordPayment {payment : Operation α} {transaction : Transaction α}
    {r : Except PaymentError (ℕ × ℕ)} (hb : l.balances.Valid)
    (h : l.recordPayment H payment transaction now = .ok (r, l')) : l'.balances.Valid := by
  unfold Ledger.recordPayment at h
  dsimp only at h
  obtain ⟨⟨r₁, balances⟩, hpay, h⟩ := Except.bind_eq_ok.mp h
  have hb₁ := hb.addPayment hpay
  dsimp only at h
  split at h
  · obtain ⟨-, rfl⟩ := Prod.mk.inj (Except.pure_eq_ok.mp h)
    exact hb₁
  · obtain ⟨added, -, h⟩ := Except.bind_eq_ok.mp h
    obtain ⟨l₂, htrim, h⟩ := Except.bind_eq_ok.mp h
    obtain ⟨lastHash, -, h⟩ := Except.bind_eq_ok.mp h
    obtain ⟨-, rfl⟩ := Prod.mk.inj (Except.pure_eq_ok.mp h)
    exact hb₁.trimAccounts htrim

theorem addPaymentWithTimestamp {memo : Memo} {payment : Operation α}
    {createdAtTime : Option TimeStamp} {r : Except PaymentError (ℕ × ℕ)}
    (hb : l.balances.Valid)
    (h : l.addPaymentWithTimestamp H memo payment createdAtTime now = .ok (r, l')) :
    l'.balances.Valid := by
  unfold Ledger.addPaymentWithTimestamp at h
  obtain ⟨⟨numPruned, l₁⟩, hpurge, h⟩ := Except.bind_eq_ok.mp h
  have hb₁ : l₁.balances.Valid := (Ledger.purgeOldTransactions_frame hpurge).1 ▸ hb
  dsimp only at h
  obtain ⟨expiry, -, h⟩ := Except.bind_eq_ok.mp h
  -- every refusal returns the purged ledger
  split at h
  · obtain ⟨-, rfl⟩ := Prod.mk.inj (Except.pure_eq_ok.mp h)
    exact hb₁
  obtain ⟨horizon, -, h⟩ := Except.bind_eq_ok.mp h
  split at h
  · obtain ⟨-, rfl⟩ := Prod.mk.inj (Except.pure_eq_ok.mp h)
    exact hb₁
  obtain ⟨throttled, -, h⟩ := Except.bind_eq_ok.mp h
  split at h
  · obtain ⟨-, rfl⟩ := Prod.mk.inj (Except.pure_eq_ok.mp h)
    exact hb₁
  split at h
  · obtain ⟨-, rfl⟩ := Prod.mk.inj (Except.pure_eq_ok.mp h)
    exact hb₁
  · exact hb₁.recordPayment h

theorem addBlock {block : Block α} {r : Except String ℕ} (hb : l.balances.Valid)
    (h : l.addBlock H block = .ok (r, l')) : l'.balances.Valid := by
  unfold Ledger.addBlock at h
  obtain ⟨⟨r₁, balances⟩, hpay, h⟩ := Except.bind_eq_ok.mp h
  have hb₁ := hb.addPayment hpay
  dsimp only at h
  split at h
  · obtain ⟨-, rfl⟩ := Prod.mk.inj (Except.pure_eq_ok.mp h)
    exact hb₁
  · split at h <;> obtain ⟨-, rfl⟩ := Prod.mk.inj (Except.pure_eq_ok.mp h) <;> exact hb₁

theorem notify {blockHeight : ℕ} {blockTimestamp : TimeStamp} {maxFee : Tokens}
    {expectedFrom expectedTo : α} (hb : l.balances.Valid)
    (h : l.notify H blockHeight blockTimestamp maxFee expectedFrom expectedTo now = .ok l') :
    l'.balances.Valid := by
  unfold Ledger.notify at h
  split_ifs at h
  · cases h
  obtain ⟨⟨r₁, l₁⟩, hchange, h⟩ := Except.bind_eq_ok.mp h
  have hb₁ : l₁.balances.Valid := Ledger.changeNotificationState_balances hchange ▸ hb
  obtain ⟨-, -, h⟩ := Except.bind_eq_ok.mp h
  obtain ⟨⟨r₂, l₂⟩, hpay, h⟩ := Except.bind_eq_ok.mp h
  obtain ⟨-, -, h⟩ := Except.bind_eq_ok.mp h
  obtain rfl := Except.pure_eq_ok.mp h
  exact hb₁.addPaymentWithTimestamp hpay

theorem fromInit {initialValues : List (α × Tokens)} {mintingAccount : α}
    {timestamp : TimeStamp} {transactionWindow : Option Duration} {transferFee : Option Tokens}
    (h : Ledger.default.fromInit H initialValues mintingAccount timestamp transactionWindow
      transferFee = .ok l') : l'.balances.Valid := by
  unfold Ledger.fromInit at h
  obtain ⟨l₁, hfold, h⟩ := Except.bind_eq_ok.mp h
  obtain rfl := Except.pure_eq_ok.mp h
  -- each initial balance is a mint on valid balances
  refine Except.foldlM_invariant (P := fun l => l.balances.Valid) initialValues ?_
    Balances.new_valid hfold
  intro l₀ v _ l₂ hb₀ hstep
  obtain ⟨⟨r, l₃⟩, hpay, hstep⟩ := Except.bind_eq_ok.mp hstep
  obtain ⟨-, -, hstep⟩ := Except.bind_eq_ok.mp hstep
  obtain rfl := Except.pure_eq_ok.mp hstep
  exact hb₀.addPaymentWithTimestamp hpay

end Balances.Valid

theorem Call.valid {H : Hashing α} {l l' : Ledger α} (c : Call α) (hb : l.balances.Valid)
    (h : c.apply H l = .ok l') : l'.balances.Valid := by
  cases c with
  | addPaymentWithTimestamp memo payment createdAtTime now =>
    obtain ⟨⟨r, l₁⟩, h₁, rfl⟩ := Except.map_eq_ok.mp h
    exact hb.addPaymentWithTimestamp h₁
  | addBlock block =>
    obtain ⟨⟨r, l₁⟩, h₁, rfl⟩ := Except.map_eq_ok.mp h
    exact hb.addBlock h₁
  | changeNotificationState height blockTimestamp newState now =>
    obtain ⟨⟨r, l₁⟩, h₁, rfl⟩ := Except.map_eq_ok.mp h
    exact Ledger.changeNotificationState_balances h₁ ▸ hb
  | notify blockHeight blockTimestamp maxFee expectedFrom expectedTo now =>
    exact hb.notify h

/-- **Every reachable state keeps the invariant of the balances.** -/
theorem Reachable.valid {H : Hashing α} {l : Ledger α} (hl : Reachable H l) : l.balances.Valid := by
  induction hl with
  | init _ _ _ _ _ h => exact Balances.Valid.fromInit h
  | step c _ h ih => exact c.valid ih h

/-- **Tokens are conserved in every reachable state**: the store and the pool make `u64::MAX`
e8s, `add_payment` does what the operation says or refuses a debit, and `total_supply` adds up. -/
theorem reachable_tokens_conserved {H : Hashing α} {l : Ledger α} (hl : Reachable H l) :
    ((l.balances.store.entries.map fun e => e.2.toNat).sum + l.balances.tokenPool.toNat =
        Tokens.MAX.toNat ∧ l.balances.store.NoZero) ∧
    (∀ op, Balances.paymentOutcome (l.balances.addPayment op) = op.apply l.balances.holdings) ∧
    (∀ op e b', l.balances.addPayment op = .ok (.error e, b') → b' = l.balances) ∧
    (∀ op msg, l.balances.addPayment op = .error msg ↔
      (∃ to_ amount, op = .mint to_ amount ∧ l.balances.tokenPool < amount) ∧
        msg = "total token supply exceeded") ∧
    ∃ t, l.balances.totalSupply = .ok t ∧
      t.toNat = (l.balances.store.entries.map fun e => e.2.toNat).sum := by
  have hb := hl.valid
  have hcons := hb.supply_add_tokenPool
  rw [Balances.holdings_supply, ← Tokens.toNat_MAX] at hcons
  obtain ⟨t, ht, htval⟩ := hb.totalSupply
  rw [Balances.holdings_supply] at htval
  exact ⟨⟨hcons, hb.noZero⟩, Balances.paymentOutcome_addPayment hb,
    fun _ _ _ h => Balances.addPayment_refused hb h, Balances.addPayment_eq_error_iff hb,
    t, ht, htval⟩

/-- The ledger of `from_init` with no initial balance. -/
def initLedger : Ledger ℕ := { Ledger.default with mintingAccountId := some 0 }

/-- A hashing that sends everything to zero. -/
def zeroHashing : Hashing ℕ := ⟨fun _ => 0, fun _ => 0⟩

theorem initLedger_reachable (H : Hashing ℕ) : Reachable H initLedger :=
  .init [] 0 ⟨0⟩ none none rfl

/-- A hashing that tells transactions apart by their memos. -/
def memoHashing : Hashing ℕ := ⟨fun t => t.memo.memo.toNat, fun _ => 0⟩

/-- `from_init` gives account 1 100 e8s, a transfer of 30 to account 2 pays a fee of 10, and
account 2 burns 5: the ledger is reachable, and its total supply is the 85 e8s of its balances. -/
theorem reachable_tokens_conserved_after_payments :
    let run := do
      let l ← (Ledger.default : Ledger ℕ).fromInit memoHashing [(1, ⟨100⟩)] 0 ⟨0⟩ none none
      let l ← (Call.addPaymentWithTimestamp ⟨1⟩ (.transfer 1 2 ⟨30⟩ ⟨10⟩) none ⟨1⟩).apply
        memoHashing l
      (Call.addPaymentWithTimestamp ⟨2⟩ (.burn 2 ⟨5⟩) none ⟨2⟩).apply memoHashing l
    ∃ l, run = .ok l ∧ Reachable memoHashing l ∧
      (l.balances.store.entries.map fun e => e.2.toNat).sum + l.balances.tokenPool.toNat =
        Tokens.MAX.toNat ∧
      l.balances.totalSupply = .ok ⟨85⟩ ∧ (l.balances.store.entries.map fun e => e.2.toNat).sum = 85 := by
  intro run
  obtain ⟨l, hrun, hsupply⟩ := Except.exists_eq_ok_of_toOption_map
    (p := fun l => decide (l.balances.totalSupply = .ok ⟨85⟩)) (x := run) (by decide +kernel)
  obtain ⟨l₁, h₁, hrest⟩ := Except.bind_eq_ok.mp hrun
  obtain ⟨l₂, h₂, h₃⟩ := Except.bind_eq_ok.mp hrest
  have hl : Reachable memoHashing l := .step _ (.step _ (.init _ _ _ _ _ h₁) h₂) h₃
  obtain ⟨t, ht, htval⟩ := (reachable_tokens_conserved hl).2.2.2.2
  rw [of_decide_eq_true hsupply, Except.ok.injEq] at ht
  subst ht
  exact ⟨l, hrun, hl, (reachable_tokens_conserved hl).1.1, of_decide_eq_true hsupply, htval.symm⟩

/-- A burn of zero from an account without an entry is refused with a balance of zero. -/
theorem burn_zero_from_absent_refused :
    ∃ l, Reachable zeroHashing l ∧ ¬ l.balances.accountBalance 0 < Tokens.ZERO ∧
      l.balances.addPayment (.burn 0 Tokens.ZERO) =
        .ok (.error (.insufficientFunds Tokens.ZERO), l.balances) :=
  ⟨initLedger, initLedger_reachable zeroHashing, by decide, rfl⟩

end IC.LedgerCanister
