import InternetComputer.Ledger.Dedup

/-!
# The throttle of the replay prevention window

`Ledger::throttle` as `add_payment_with_timestamp` uses it: the first half of
`max_transactions_in_window` is admitted freely, and past it a call is throttled while the
`max_rate`-th last entry of the window is younger than a second, `max_rate = ⌈0.5 M / W⌉`. A call
that purged entries is let through.

* `addPaymentWithTimestamp_ok_throttle`, `throttle_eq_ok_false`: past half the window, a call
  admitted without a purge comes a second after the `max_rate`-th last entry;
* **`throttle_admits_three_in_window`**: with `M = 2` and `W = 3` seconds, three calls a second
  apart are all admitted within one window.
-/

namespace IC.LedgerCanister

variable {α : Type} [LinearOrder α] {H : Hashing α}

/-! ## What the throttle lets through -/

/-- **A call admitted without a purge was not throttled.** -/
theorem addPaymentWithTimestamp_ok_throttle {l l' : Ledger α} {c : PaymentCall α}
    {height hash : ℕ}
    (h : l.addPaymentWithTimestamp H c.memo c.payment c.createdAtTime c.now =
      .ok (.ok (height, hash), l')) :
    ∃ n l₁, l.purgeOldTransactions c.now = .ok (n, l₁) ∧ (n = 0 → l₁.throttle c.now = .ok false) := by
  unfold Ledger.addPaymentWithTimestamp at h
  obtain ⟨⟨n, l₁⟩, hpurge, h⟩ := Except.bind_eq_ok.mp h
  refine ⟨n, l₁, hpurge, fun hn => ?_⟩
  dsimp only at h
  obtain ⟨expiry, -, h⟩ := Except.bind_eq_ok.mp h
  split at h
  · cases Prod.mk.inj (Except.pure_eq_ok.mp h) |>.1
  obtain ⟨horizon, -, h⟩ := Except.bind_eq_ok.mp h
  split at h
  · cases Prod.mk.inj (Except.pure_eq_ok.mp h) |>.1
  obtain ⟨throttled, hthrottle, h⟩ := Except.bind_eq_ok.mp h
  split at h
  · cases Prod.mk.inj (Except.pure_eq_ok.mp h) |>.1
  · rename_i hnot
    rw [hthrottle, Bool.eq_false_iff.mpr hnot]

omit [LinearOrder α] in
/-- **Past half of the window, a call let through comes a second after the `max_rate`-th last**. -/
theorem throttle_eq_ok_false {l : Ledger α} {now : TimeStamp} (h : l.throttle now = .ok false)
    (hhalf : l.maxTransactionsInWindow / 2 ≤ l.transactionsByHeight.length) :
    ((l.transactionsByHeight[l.transactionsByHeight.length -
        Ledger.maxRate l.maxTransactionsInWindow l.transactionWindow]?).map
      TransactionInfo.blockTimestamp |>.getD ⟨0⟩).nanos + 10 ^ 9 ≤ now.nanos := by
  unfold Ledger.throttle at h
  dsimp only at h
  rw [if_pos hhalf] at h
  obtain ⟨t, ht, h⟩ := Except.bind_eq_ok.mp h
  rw [TimeStamp.addDuration_eq_ok_iff] at ht
  have hle : ¬ t > now := by simpa using Except.pure_eq_ok.mp h
  rw [gt_iff_lt, TimeStamp.lt_iff_nanos_lt] at hle
  omega

/-! ## Three calls in a window of two -/

/-- A ledger that admits two transactions in a window of three seconds. -/
def throttleLedger : Ledger ℕ :=
  { Ledger.default with maxTransactionsInWindow := 2, transactionWindow := 3 * 10 ^ 9 }

/-- Mints of one e8 to account 1, at the seconds 0, 1 and 2, each with its own memo. -/
def throttleCalls : List (PaymentCall ℕ) :=
  [0, 1, 2].map fun i => ⟨⟨UInt64.ofNat i⟩, .mint 1 ⟨1⟩, none, ⟨UInt64.ofNat (i * 10 ^ 9)⟩⟩

/-- **The throttle lets three transactions through within one window of two**: `max_rate` is
`⌈1/3⌉ = 1`, and each call a second after the last is admitted. -/
theorem throttle_admits_three_in_window :
    throttleLedger.maxTransactionsInWindow = 2 ∧ throttleLedger.transactionWindow = 3 * 10 ^ 9 ∧
      Ledger.maxRate 2 (3 * 10 ^ 9) = 1 ∧
      ∃ l t log, PaymentRun encodeHashing throttleLedger l t log ∧ log.length = 3 ∧
        (∀ a ∈ log, a.time.nanos < throttleLedger.transactionWindow) ∧
        l.blockchain.blocks.map (fun b => b.timestamp.nanos) = [0, 10 ^ 9, 2 * 10 ^ 9] := by
  refine ⟨rfl, rfl, by decide, ?_⟩
  have hok : (match runPayments encodeHashing throttleLedger throttleCalls with
      | .ok (rs, l) =>
        (admittedOf throttleCalls rs).map (fun a => a.time.nanos) == [0, 10 ^ 9, 2 * 10 ^ 9] &&
          l.blockchain.blocks.map (fun b => b.timestamp.nanos) == [0, 10 ^ 9, 2 * 10 ^ 9]
      | .error _ => false) = true := by decide +kernel
  rcases hres : runPayments encodeHashing throttleLedger throttleCalls with e | ⟨rs, l⟩
  · rw [hres] at hok
    cases hok
  rw [hres, Bool.and_eq_true, beq_iff_eq, beq_iff_eq] at hok
  obtain ⟨t, hrun⟩ := PaymentRun.nil.of_runPayments (by decide) hres
  rw [List.nil_append] at hrun
  refine ⟨l, t, _, hrun, ?_, fun a ha => ?_, hok.2⟩
  · rw [← List.length_map (fun a => a.time.nanos), hok.1]
    rfl
  · have htime := List.mem_map_of_mem (f := fun a : Admitted ℕ => a.time.nanos) ha
    rw [hok.1] at htime
    simp only [List.mem_cons, List.not_mem_nil, or_false] at htime
    rcases htime with h | h | h <;> rw [h] <;> decide

end IC.LedgerCanister
