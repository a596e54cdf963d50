import InternetComputer.Ledger.Conservation
import Mathlib

/-!
# The deduplication window

`add_payment_with_timestamp` refuses a transaction it admitted before while it could still pass
its age check. Runs are calls at non-decreasing times that do not panic (`PaymentRun`), from an
empty window.

* `purgeLoop_spec`, `purgeLoop_error`: what a purge removes, and that it panics only where a time
  overflows;
* `runPayments`, `PaymentRun.of_runPayments`: calls at non-decreasing times that compute to
  results are a run;
* `addPaymentWithTimestamp_cases`: what one call does; **`addPayment_panics_on_late_createdAtTime`**;
* `WindowOk`, the invariant of the window, with its step lemmas and `PaymentRun.windowOk`;
* **`paymentRun_dedup`**, and **`trimBurn_repeated`**: trimming burns can repeat a transaction.
-/

namespace IC.LedgerCanister

variable {α : Type} [LinearOrder α]

theorem TimeStamp.addDuration_eq_error {t : TimeStamp} {d : Duration} {msg : String}
    (h : t.addDuration d = .error msg) :
    msg ≠ "assertion failed: removed.is_some()" ∧ 2 ^ 64 ≤ t.nanos + d := by
  unfold TimeStamp.addDuration at h
  split_ifs at h with hfit
  obtain rfl := (Except.error.inj h).symm
  exact ⟨by decide, by omega⟩

/-! ## Runs of `add_payment_with_timestamp` -/

/-- A call of `add_payment_with_timestamp`. -/
structure PaymentCall (α : Type) where
  memo : Memo
  payment : Operation α
  createdAtTime : Option TimeStamp
  now : TimeStamp

/-- A transaction the ledger admitted: under the height of its block, by a call at `time`. -/
structure Admitted (α : Type) where
  transaction : Transaction α
  height : ℕ
  time : TimeStamp

namespace PaymentCall

/-- The transaction a call submits. -/
def transaction (c : PaymentCall α) : Transaction α :=
  ⟨c.payment, c.memo, c.createdAtTime.getD c.now⟩

/-- What a call admitted, read off its result. -/
def admitted (c : PaymentCall α) : Except PaymentError (ℕ × ℕ) → List (Admitted α)
  | .ok (height, _) => [⟨c.transaction, height, c.now⟩]
  | .error _ => []

end PaymentCall

/-- Runs of calls of `add_payment_with_timestamp` from `l₀` at non-decreasing times, a call
that panics being no part of a run: the ledger, the time of the last call and the transactions
admitted. -/
inductive PaymentRun (H : Hashing α) (l₀ : Ledger α) :
    Ledger α → TimeStamp → List (Admitted α) → Prop
  | nil : PaymentRun H l₀ l₀ ⟨0⟩ []
  | call {l l' : Ledger α} {t : TimeStamp} {log : List (Admitted α)} (c : PaymentCall α)
      {r : Except PaymentError (ℕ × ℕ)} (hrun : PaymentRun H l₀ l t log) (ht : t ≤ c.now)
      (h : l.addPaymentWithTimestamp H c.memo c.payment c.createdAtTime c.now = .ok (r, l')) :
      PaymentRun H l₀ l' c.now (log ++ c.admitted r)

/-! ## Runs of calls -/

/-- The calls of `add_payment_with_timestamp` one after the other. -/
def runPayments (H : Hashing α) :
    Ledger α → List (PaymentCall α) → Except String (List (Except PaymentError (ℕ × ℕ)) × Ledger α)
  | l, [] => .ok ([], l)
  | l, c :: cs => do
    let (r, l) ← l.addPaymentWithTimestamp H c.memo c.payment c.createdAtTime c.now
    let (rs, l) ← runPayments H l cs
    pure (r :: rs, l)

/-- What calls admitted, read off their results. -/
def admittedOf : List (PaymentCall α) → List (Except PaymentError (ℕ × ℕ)) → List (Admitted α)
  | c :: cs, r :: rs => c.admitted r ++ admittedOf cs rs
  | _, _ => []

/-- **Calls at non-decreasing times that compute to results extend a run.** -/
theorem PaymentRun.of_runPayments {H : Hashing α} {l₀ l : Ledger α} {t : TimeStamp}
    {log : List (Admitted α)}
    (hrun : PaymentRun H l₀ l t log) :
    ∀ {cs : List (PaymentCall α)} {rs : List (Except PaymentError (ℕ × ℕ))} {l' : Ledger α},
      List.IsChain (· ≤ ·) (t :: cs.map PaymentCall.now) → runPayments H l cs = .ok (rs, l') →
      ∃ t', PaymentRun H l₀ l' t' (log ++ admittedOf cs rs)
  | [], rs, l', _, h => by
    obtain ⟨rfl, rfl⟩ := Prod.mk.inj (Except.ok.inj h)
    exact ⟨t, by simpa [admittedOf] using hrun⟩
  | c :: cs, rs, l', hchain, h => by
    rw [List.map_cons, List.isChain_cons_cons] at hchain
    unfold runPayments at h
    obtain ⟨⟨r, l₁⟩, hcall, h⟩ := Except.bind_eq_ok.mp h
    obtain ⟨⟨rs', l₂⟩, hrest, h⟩ := Except.bind_eq_ok.mp h
    obtain ⟨rfl, rfl⟩ := Prod.mk.inj (Except.pure_eq_ok.mp h)
    have hrun₁ : PaymentRun H l₀ l₁ c.now (log ++ c.admitted r) := hrun.call c hchain.1 hcall
    obtain ⟨t', hrun'⟩ := of_runPayments hrun₁ hchain.2 hrest
    exact ⟨t', by simpa [admittedOf, List.append_assoc] using hrun'⟩

namespace Ledger

variable {H : Hashing α} {l l' : Ledger α} {now : TimeStamp}

/-! ## The two indexes of the window -/

/-- The hashes of the window, in the order of `transactions_by_height`. -/
def windowHashes (l : Ledger α) : List ℕ :=
  l.transactionsByHeight.map TransactionInfo.transactionHash

/-- The two indexes of the window hold the same hashes, `transactions_by_height` each once. -/
structure Indexed (l : Ledger α) : Prop where
  nodup : l.windowHashes.Nodup
  keys : ∀ k, (l.transactionsByHash.lookup k).isSome ↔ k ∈ l.windowHashes

omit [LinearOrder α] in
theorem Indexed.purgeStep (hi : l.Indexed) {info : TransactionInfo} {rest : List TransactionInfo}
    (hq : l.transactionsByHeight = info :: rest) (notified : Finset ℕ) :
    Indexed { l with
      transactionsByHash := l.transactionsByHash.erase info.transactionHash
      blocksNotified := notified
      transactionsByHeight := rest } := by
  have hnodup := hi.nodup
  simp only [windowHashes, hq, List.map_cons, List.nodup_cons] at hnodup
  refine ⟨hnodup.2, fun k => ?_⟩
  simp only [windowHashes]
  by_cases hk : k = info.transactionHash
  · subst hk
    simp only [AList.lookup_erase, Option.isSome_none, Bool.false_eq_true, false_iff]
    exact hnodup.1
  · rw [AList.lookup_erase_ne hk, hi.keys k]
    simp [windowHashes, hq, hk]

/-! ## The purge -/

omit [LinearOrder α] in
/-- **What a purge removes**: a prefix of the window older than the window and the drift, at most
`MAX_TRANSACTIONS_TO_PURGE` from `cnt`, and their hashes. -/
theorem purgeLoop_spec {cnt n : ℕ} {l₀ l₁ : Ledger α} (h : l₀.purgeLoop now cnt = .ok (n, l₁)) :
    ∃ k, n = cnt + k ∧ (cnt < maxTransactionsToPurge → n ≤ maxTransactionsToPurge) ∧
      l₁.transactionsByHeight = l₀.transactionsByHeight.drop k ∧
      (∀ j, l₁.transactionsByHash.lookup j =
        if j ∈ (l₀.transactionsByHeight.take k).map TransactionInfo.transactionHash then none
        else l₀.transactionsByHash.lookup j) ∧
      ∀ info ∈ l₀.transactionsByHeight.take k,
        info.blockTimestamp.nanos + l₀.transactionWindow + permittedDrift < now.nanos := by
  fun_induction purgeLoop now cnt l₀ with
  | case1 cnt l hq =>
    obtain ⟨rfl, rfl⟩ := Prod.mk.inj (Except.ok.inj h)
    exact ⟨0, rfl, Nat.le_of_lt, by simp, by simp, by simp⟩
  | case2 cnt l info rest hq ih =>
    obtain ⟨t, ht, h⟩ := Except.bind_eq_ok.mp h
    obtain ⟨t', ht', h⟩ := Except.bind_eq_ok.mp h
    rw [TimeStamp.addDuration_eq_ok_iff] at ht ht'
    dsimp only at h ih
    split_ifs at h with hnow hnone hcnt
    · -- a recent front entry stops the purge
      obtain ⟨rfl, rfl⟩ := Prod.mk.inj (Except.ok.inj h)
      exact ⟨0, rfl, Nat.le_of_lt, by simp, by simp, by simp⟩
    · -- the count reaches the cap after this entry
      obtain ⟨rfl, rfl⟩ := Prod.mk.inj (Except.ok.inj h)
      have hold : info.blockTimestamp.nanos + l.transactionWindow + permittedDrift < now.nanos := by
        simp only [ge_iff_le, TimeStamp.le_iff_nanos_le, not_le] at hnow
        omega
      refine ⟨1, rfl, fun _ => by omega, by simp [hq], fun j => ?_, by simpa [hq] using hold⟩
      by_cases hj : j = info.transactionHash
      · subst hj
        simp [hq]
      · simp [hq, AList.lookup_erase_ne hj, hj]
    · obtain ⟨k, rfl, hle, hheight, hhash, htime⟩ := ih h
      have hold : info.blockTimestamp.nanos + l.transactionWindow + permittedDrift < now.nanos := by
        simp only [ge_iff_le, TimeStamp.le_iff_nanos_le, not_le] at hnow
        omega
      refine ⟨k + 1, by omega, fun _ => hle (by omega), by simpa [hq] using hheight,
        fun j => ?_, ?_⟩
      · simp only [hhash j, hq, List.take_succ_cons, List.map_cons, List.mem_cons]
        by_cases hj : j = info.transactionHash
        · subst hj
          simp
        · simp [AList.lookup_erase_ne hj, hj]
      · rw [hq, List.take_succ_cons]
        rintro x (_ | ⟨_, hx⟩)
        · exact hold
        · exact htime x hx

omit [LinearOrder α] in
/-- **The assertion of the purge does not fire**; a purge panics only where a time overflows. -/
theorem purgeLoop_error {cnt : ℕ} {e : String} :
    ∀ {l : Ledger α}, l.Indexed → l.purgeLoop now cnt = .error e →
      e ≠ "assertion failed: removed.is_some()" ∧ ∃ info ∈ l.transactionsByHeight,
        2 ^ 64 ≤ info.blockTimestamp.nanos + l.transactionWindow + permittedDrift := by
  intro l
  fun_induction purgeLoop now cnt l with
  | case1 cnt l hq =>
    intro _ h
    exact absurd h (by simp)
  | case2 cnt l info rest hq ih =>
    intro hi h
    have hinfo : info ∈ l.transactionsByHeight := hq ▸ List.mem_cons_self
    cases ht : info.blockTimestamp.addDuration l.transactionWindow with
    | error msg =>
      rw [ht, Except.error_bind] at h
      obtain rfl := Except.error.inj h
      obtain ⟨hmsg, hfit⟩ := TimeStamp.addDuration_eq_error ht
      exact ⟨hmsg, info, hinfo, by omega⟩
    | ok t =>
      rw [ht, Except.ok_bind] at h
      have ht₁ := (TimeStamp.addDuration_eq_ok_iff.mp ht).2
      cases ht' : t.addDuration permittedDrift with
      | error msg =>
        rw [ht', Except.error_bind] at h
        obtain rfl := Except.error.inj h
        obtain ⟨hmsg, hfit⟩ := TimeStamp.addDuration_eq_error ht'
        exact ⟨hmsg, info, hinfo, by omega⟩
      | ok t' =>
        rw [ht', Except.ok_bind] at h
        dsimp only at h ih
        split_ifs at h with hnow hnone hcnt
        · -- the hash of the front entry is in `transactions_by_hash`
          have hsome := (hi.keys info.transactionHash).mpr
            (List.mem_map_of_mem (f := TransactionInfo.transactionHash) hinfo)
          exact absurd hsome (by simpa using hnone)
        · obtain ⟨hmsg, info', hinfo', hfit⟩ := ih (hi.purgeStep hq _) h
          exact ⟨hmsg, info', hq ▸ List.mem_cons_of_mem _ hinfo', hfit⟩

/-! ## What a call does to the window and the chain -/

omit [LinearOrder α] in
theorem blockchain_addBlock_eq_ok {bc bc' : Blockchain α} {block : Block α} {height : ℕ}
    (h : bc.addBlock H block = .ok (height, bc')) :
    bc'.blocks = bc.blocks ++ [block] ∧ bc'.numArchivedBlocks = bc.numArchivedBlocks ∧
      height = bc.numArchivedBlocks + bc.blocks.length := by
  unfold Blockchain.addBlock at h
  split_ifs at h
  obtain ⟨rfl, rfl⟩ := Prod.mk.inj (Except.ok.inj h)
  refine ⟨rfl, rfl, ?_⟩
  simp only [Blockchain.chainLength, List.length_append, List.length_singleton]
  omega

theorem trimAccounts_frame :
    ∀ {l : Ledger α} {toTrim : List (Tokens × α)}, l.trimAccounts H now toTrim = .ok l' →
      l'.transactionsByHash = l.transactionsByHash ∧
      l'.transactionsByHeight = l.transactionsByHeight ∧
      l'.transactionWindow = l.transactionWindow ∧
      l'.blockchain.numArchivedBlocks = l.blockchain.numArchivedBlocks ∧
      l'.blocksNotified = l.blocksNotified ∧ ∃ new, l'.blockchain.blocks = l.blockchain.blocks ++ new
  | l, [], h => by
    rw [Ledger.trimAccounts] at h
    obtain rfl := Except.ok.inj h
    exact ⟨rfl, rfl, rfl, rfl, rfl, [], by simp⟩
  | l, (balance, account) :: toTrim, h => by
    rw [Ledger.trimAccounts] at h
    obtain ⟨⟨r, balances⟩, -, h⟩ := Except.bind_eq_ok.mp h
    obtain ⟨-, -, h⟩ := Except.bind_eq_ok.mp h
    dsimp only at h
    obtain ⟨⟨height, bc⟩, hadd, h⟩ := Except.bind_eq_ok.mp h
    obtain ⟨hblocks, harchived, -⟩ := blockchain_addBlock_eq_ok (Rust.expectOk_eq_ok.mp hadd)
    obtain ⟨hhash, hheight, hwindow, harchived', hnotified, new, hnew⟩ := trimAccounts_frame h
    refine ⟨hhash, hheight, hwindow, harchived'.trans harchived, hnotified,
      Block.newFromTransaction l.blockchain.lastHash ⟨.burn account balance, ⟨0⟩, now⟩ now :: new, ?_⟩
    rw [hnew]
    simp [hblocks]

/-- **What the end of `add_payment_with_timestamp` does**: a refused payment leaves the window and
the chain; an admitted one appends its block and records its hash, then the trimming burns. -/
theorem recordPayment_cases {payment : Operation α} {transaction : Transaction α}
    {r : Except PaymentError (ℕ × ℕ)} (h : l.recordPayment H payment transaction now = .ok (r, l')) :
    l'.blocksNotified = l.blocksNotified ∧ l'.transactionWindow = l.transactionWindow ∧
      l'.blockchain.numArchivedBlocks = l.blockchain.numArchivedBlocks ∧
      ((∃ e, r = .error e) ∧ l'.transactionsByHash = l.transactionsByHash ∧
          l'.transactionsByHeight = l.transactionsByHeight ∧ l'.blockchain = l.blockchain ∨
        ∃ height hash, r = .ok (height, hash) ∧
          height = l.blockchain.numArchivedBlocks + l.blockchain.blocks.length ∧
          l'.transactionsByHash = l.transactionsByHash.insert (H.transaction transaction) height ∧
          l'.transactionsByHeight = l.transactionsByHeight ++ [⟨now, H.transaction transaction⟩] ∧
          ∃ new, l'.blockchain.blocks = l.blockchain.blocks ++
            Block.newFromTransaction l.blockchain.lastHash transaction now :: new) := by
  unfold Ledger.recordPayment at h
  dsimp only at h
  obtain ⟨⟨r₁, balances⟩, -, h⟩ := Except.bind_eq_ok.mp h
  dsimp only at h
  split at h
  · obtain ⟨rfl, rfl⟩ := Prod.mk.inj (Except.pure_eq_ok.mp h)
    exact ⟨rfl, rfl, rfl, .inl ⟨⟨_, rfl⟩, rfl, rfl, rfl⟩⟩
  · obtain ⟨⟨height, bc⟩, hadd, h⟩ := Except.bind_eq_ok.mp h
    obtain ⟨hblocks, harchived, hheight⟩ := blockchain_addBlock_eq_ok (Rust.expectOk_eq_ok.mp hadd)
    obtain ⟨l₂, htrim, h⟩ := Except.bind_eq_ok.mp h
    obtain ⟨lastHash, -, h⟩ := Except.bind_eq_ok.mp h
    obtain ⟨rfl, rfl⟩ := Prod.mk.inj (Except.pure_eq_ok.mp h)
    obtain ⟨hhash, hbyHeight, hwindow, harchived', hnotified, new, hnew⟩ := trimAccounts_frame htrim
    refine ⟨hnotified, hwindow, harchived'.trans harchived, .inr ⟨height, lastHash, rfl, hheight, hhash,
      hbyHeight, new, ?_⟩⟩
    rw [hnew, hblocks, List.append_assoc, List.singleton_append]

/-- **How a call of `add_payment_with_timestamp` ends**: a refusal returns the purged ledger;
otherwise the checks passed, the hash is new to the window, and `recordPayment` ends it. -/
theorem addPaymentWithTimestamp_eq {c : PaymentCall α} {r : Except PaymentError (ℕ × ℕ)}
    (h : l.addPaymentWithTimestamp H c.memo c.payment c.createdAtTime c.now = .ok (r, l')) :
    ∃ n l₁, l.purgeOldTransactions c.now = .ok (n, l₁) ∧
      ((∃ e, r = .error e) ∧ l' = l₁ ∨
        c.now.nanos ≤ c.transaction.createdAtTime.nanos + l₁.transactionWindow ∧
        c.transaction.createdAtTime.nanos ≤ c.now.nanos + permittedDrift ∧
        l₁.transactionsByHash.lookup (H.transaction c.transaction) = none ∧
        l₁.recordPayment H c.payment c.transaction c.now = .ok (r, l')) := by
  unfold Ledger.addPaymentWithTimestamp at h
  obtain ⟨⟨n, l₁⟩, hpurge, h⟩ := Except.bind_eq_ok.mp h
  refine ⟨n, l₁, hpurge, ?_⟩
  dsimp only at h
  obtain ⟨expiry, hexpiry, h⟩ := Except.bind_eq_ok.mp h
  rw [TimeStamp.addDuration_eq_ok_iff] at hexpiry
  -- each refusal returns the purged ledger
  split at h
  · obtain ⟨rfl, rfl⟩ := Prod.mk.inj (Except.pure_eq_ok.mp h)
    exact .inl ⟨⟨_, rfl⟩, rfl⟩
  rename_i hold
  obtain ⟨horizon, hhorizon, h⟩ := Except.bind_eq_ok.mp h
  rw [TimeStamp.addDuration_eq_ok_iff] at hhorizon
  split at h
  · obtain ⟨rfl, rfl⟩ := Prod.mk.inj (Except.pure_eq_ok.mp h)
    exact .inl ⟨⟨_, rfl⟩, rfl⟩
  rename_i hfuture
  obtain ⟨throttled, -, h⟩ := Except.bind_eq_ok.mp h
  split at h
  · obtain ⟨rfl, rfl⟩ := Prod.mk.inj (Except.pure_eq_ok.mp h)
    exact .inl ⟨⟨_, rfl⟩, rfl⟩
  split at h
  · obtain ⟨rfl, rfl⟩ := Prod.mk.inj (Except.pure_eq_ok.mp h)
    exact .inl ⟨⟨_, rfl⟩, rfl⟩
  rename_i hnone
  simp only [TimeStamp.lt_iff_nanos_lt, not_lt] at hold
  simp only [gt_iff_lt, TimeStamp.lt_iff_nanos_lt, not_lt] at hfuture
  have hcreated : c.transaction.createdAtTime = c.createdAtTime.getD c.now := rfl
  refine .inr ⟨?_, ?_, hnone, h⟩ <;> rw [hcreated] <;> omega

/-- **What a call of `add_payment_with_timestamp` does** after the purge: a refusal leaves the
window and the chain; an admission appends the block and records its hash under its height. -/
theorem addPaymentWithTimestamp_cases {c : PaymentCall α} {r : Except PaymentError (ℕ × ℕ)}
    (h : l.addPaymentWithTimestamp H c.memo c.payment c.createdAtTime c.now = .ok (r, l')) :
    ∃ n l₁, l.purgeOldTransactions c.now = .ok (n, l₁) ∧ l'.blocksNotified = l₁.blocksNotified ∧
      l'.transactionWindow = l.transactionWindow ∧
      l'.blockchain.numArchivedBlocks = l.blockchain.numArchivedBlocks ∧
      ((∃ e, r = .error e) ∧ l'.transactionsByHash = l₁.transactionsByHash ∧
          l'.transactionsByHeight = l₁.transactionsByHeight ∧ l'.blockchain = l.blockchain ∨
        ∃ height hash, r = .ok (height, hash) ∧
          c.now.nanos ≤ c.transaction.createdAtTime.nanos + l.transactionWindow ∧
          c.transaction.createdAtTime.nanos ≤ c.now.nanos + permittedDrift ∧
          l₁.transactionsByHash.lookup (H.transaction c.transaction) = none ∧
          height = l.blockchain.numArchivedBlocks + l.blockchain.blocks.length ∧
          l'.transactionsByHash = l₁.transactionsByHash.insert (H.transaction c.transaction) height ∧
          l'.transactionsByHeight = l₁.transactionsByHeight ++ [⟨c.now, H.transaction c.transaction⟩] ∧
          ∃ new, l'.blockchain.blocks = l.blockchain.blocks ++
            Block.newFromTransaction l.blockchain.lastHash c.transaction c.now :: new) := by
  obtain ⟨n, l₁, hpurge, hcall⟩ := addPaymentWithTimestamp_eq h
  obtain ⟨-, hchain, hwindow⟩ := purgeOldTransactions_frame hpurge
  refine ⟨n, l₁, hpurge, ?_⟩
  rcases hcall with ⟨hr, rfl⟩ | ⟨hold, hfuture, hnone, hrecord⟩
  · exact ⟨rfl, hwindow, congrArg Blockchain.numArchivedBlocks hchain, .inl ⟨hr, rfl, rfl, hchain⟩⟩
  obtain ⟨hnotified, hwindow', harchived, hrecord⟩ := recordPayment_cases hrecord
  refine ⟨hnotified, hwindow'.trans hwindow, harchived.trans (congrArg Blockchain.numArchivedBlocks hchain), ?_⟩
  rcases hrecord with ⟨hr, hhash, hheight, hbc⟩ | ⟨height, hash, hr, hh, hhash, hheight, new, hnew⟩
  · exact .inl ⟨hr, hhash, hheight, hbc.trans hchain⟩
  · rw [hchain] at hh hnew
    rw [hwindow] at hold
    exact .inr ⟨height, hash, hr, hold, hfuture, hnone, hh, hhash, hheight, new, hnew⟩

/-- **A creation time near `u64::MAX` makes the call panic**: the window is added to
`created_at_time` before any check, and the sum does not fit a `TimeStamp`. -/
theorem addPayment_panics_on_late_createdAtTime :
    ((Ledger.default : Ledger ℕ).addPaymentWithTimestamp zeroHashing ⟨0⟩
        (.transfer 1 2 ⟨0⟩ ⟨10000⟩) (some ⟨UInt64.ofNat (2 ^ 64 - 1)⟩) ⟨0⟩).map Prod.fst =
      .error "called `Result::unwrap()` on an `Err` value: TryFromIntError(())" := by
  decide +kernel

/-! ## The invariant of the window -/

/-- The window after a run up to `t` that admitted `log`: its indexes agree and are in time order,
and each admitted transaction is in its block and in the window or too old to pass again. -/
structure WindowOk (H : Hashing α) (l : Ledger α) (t : TimeStamp) (log : List (Admitted α)) :
    Prop where
  indexed : l.Indexed
  sorted : l.transactionsByHeight.Pairwise fun a b => a.blockTimestamp ≤ b.blockTimestamp
  le_time : ∀ info ∈ l.transactionsByHeight, info.blockTimestamp ≤ t
  time_le : ∀ a ∈ log, a.time ≤ t
  drift : ∀ a ∈ log, a.transaction.createdAtTime.nanos ≤ a.time.nanos + permittedDrift
  admitted : ∀ a ∈ log,
    ((⟨a.time, H.transaction a.transaction⟩ : TransactionInfo) ∈ l.transactionsByHeight ∧
      l.transactionsByHash.lookup (H.transaction a.transaction) = some a.height) ∨
    a.transaction.createdAtTime.nanos + l.transactionWindow < t.nanos
  distinct : (log.map Admitted.transaction).Nodup
  blocks : ∀ a ∈ log, l.blockchain.numArchivedBlocks ≤ a.height ∧
    (l.blockchain.blocks[a.height - l.blockchain.numArchivedBlocks]?).map Block.transaction =
      some a.transaction

variable {t : TimeStamp} {log : List (Admitted α)}

omit [LinearOrder α] in
theorem windowOk_empty (hhash : l.transactionsByHash = ∅) (hheight : l.transactionsByHeight = []) :
    WindowOk H l ⟨0⟩ [] where
  indexed := ⟨by simp [windowHashes, hheight], fun k => by simp [windowHashes, hhash, hheight]⟩
  sorted := by simp [hheight]
  le_time := by simp [hheight]
  time_le := by simp
  drift := by simp
  admitted := by simp
  distinct := List.nodup_nil
  blocks := by simp

omit [LinearOrder α] in
theorem WindowOk.congr (hw : WindowOk H l t log)
    (hhash : l'.transactionsByHash = l.transactionsByHash)
    (hheight : l'.transactionsByHeight = l.transactionsByHeight)
    (hwindow : l'.transactionWindow = l.transactionWindow) (hchain : l'.blockchain = l.blockchain) :
    WindowOk H l' t log where
  indexed := ⟨by rw [windowHashes, hheight]; exact hw.indexed.nodup,
    fun k => by rw [windowHashes, hhash, hheight]; exact hw.indexed.keys k⟩
  sorted := by rw [hheight]; exact hw.sorted
  le_time := by rw [hheight]; exact hw.le_time
  time_le := hw.time_le
  drift := hw.drift
  admitted := by rw [hheight, hhash, hwindow]; exact hw.admitted
  distinct := hw.distinct
  blocks := by rw [hchain]; exact hw.blocks

omit [LinearOrder α] in
/-- **The purge keeps the invariant**: a transaction whose entry it removes was admitted too long
ago to pass the age check now. -/
theorem WindowOk.purge (hw : WindowOk H l t log) (ht : t ≤ now) {n : ℕ} {l₁ : Ledger α}
    (h : l.purgeOldTransactions now = .ok (n, l₁)) : WindowOk H l₁ now log := by
  obtain ⟨k, -, -, hheight, hhash, hold⟩ := purgeLoop_spec h
  obtain ⟨-, hchain, hwindow⟩ := purgeOldTransactions_frame h
  -- the purged prefix and the rest of the window have no hash in common
  have hsplit := List.take_append_drop k l.transactionsByHeight
  have hnodup := hw.indexed.nodup
  rw [windowHashes, ← hsplit, List.map_append, List.nodup_append] at hnodup
  obtain ⟨-, hrest, hapart⟩ := hnodup
  have hkept : ∀ j ∈ (l.transactionsByHeight.drop k).map TransactionInfo.transactionHash,
      l₁.transactionsByHash.lookup j = l.transactionsByHash.lookup j := by
    intro j hj
    rw [hhash j, if_neg fun hj' => hapart j hj' j hj rfl]
  have hle : t.nanos ≤ now.nanos := ht
  refine ⟨⟨?_, fun j => ?_⟩, ?_, ?_, fun a ha => Nat.le_trans (hw.time_le a ha) hle, hw.drift,
    fun a ha => ?_, hw.distinct, ?_⟩
  · rw [windowHashes, hheight]
    exact hrest
  · rw [windowHashes, hheight]
    by_cases hj : j ∈ (l.transactionsByHeight.take k).map TransactionInfo.transactionHash
    · rw [hhash j, if_pos hj]
      simpa using fun hj' => hapart j hj j hj' rfl
    · have hall := congrArg (List.map TransactionInfo.transactionHash) hsplit
      rw [List.map_append] at hall
      rw [hhash j, if_neg hj, hw.indexed.keys j, windowHashes, ← hall, List.mem_append]
      exact or_iff_right hj
  · rw [hheight]
    exact hw.sorted.sublist (List.drop_sublist _ _)
  · rw [hheight]
    exact fun info hinfo => Nat.le_trans (hw.le_time info (List.mem_of_mem_drop hinfo)) hle
  · rcases hw.admitted a ha with ⟨hmem, hlook⟩ | hlate
    · rw [← hsplit, List.mem_append] at hmem
      rcases hmem with hmem | hmem
      · -- purged: its block is older than the window and the drift
        have hpurged : a.time.nanos + l.transactionWindow + permittedDrift < now.nanos :=
          hold _ hmem
        have hdrift := hw.drift a ha
        exact .inr (by rw [hwindow]; omega)
      · refine .inl ⟨hheight ▸ hmem, ?_⟩
        rw [hkept _ (List.mem_map_of_mem (f := TransactionInfo.transactionHash) hmem), hlook]
    · exact .inr (by rw [hwindow]; omega)
  · rw [hchain]
    exact hw.blocks

/-- **A call keeps the invariant**: a refusal leaves the purged window; an admission's hash is new
to the run, and it is recorded at the back of the window. -/
theorem WindowOk.addPaymentWithTimestamp (hw : WindowOk H l t log) {c : PaymentCall α}
    (ht : t ≤ c.now) {r : Except PaymentError (ℕ × ℕ)}
    (h : l.addPaymentWithTimestamp H c.memo c.payment c.createdAtTime c.now = .ok (r, l')) :
    WindowOk H l' c.now (log ++ c.admitted r) := by
  obtain ⟨n, l₁, hpurge, -, hwindow, harchived, hcases⟩ := addPaymentWithTimestamp_cases h
  have hw₁ := hw.purge ht hpurge
  obtain ⟨-, hchain, hwindow₁⟩ := purgeOldTransactions_frame hpurge
  rcases hcases with ⟨⟨e, rfl⟩, hhash, hheight, hbc⟩ |
    ⟨height, hash, rfl, hage, hfuture, hnone, hh, hhash, hheight, new, hnew⟩
  · rw [PaymentCall.admitted, List.append_nil]
    exact hw₁.congr hhash hheight (hwindow.trans hwindow₁.symm) (hbc.trans hchain.symm)
  -- the hash of the admitted transaction is not in the purged window
  have hfresh : H.transaction c.transaction ∉ l₁.windowHashes := by
    rw [← hw₁.indexed.keys, hnone]
    exact Bool.false_ne_true
  have hnew_tx : c.transaction ∉ log.map Admitted.transaction := by
    rw [List.mem_map]
    rintro ⟨a, ha, hatx⟩
    rcases hw₁.admitted a ha with ⟨-, hlook⟩ | hlate
    · rw [hatx, hnone] at hlook
      exact absurd hlook (by simp)
    · rw [hatx, hwindow₁] at hlate
      omega
  have hwindow' : l'.transactionWindow = l₁.transactionWindow := hwindow.trans hwindow₁.symm
  refine ⟨⟨?_, fun j => ?_⟩, ?_, ?_, ?_, ?_, ?_, ?_, ?_⟩
  · rw [windowHashes, hheight, List.map_append, List.nodup_append]
    refine ⟨hw₁.indexed.nodup, List.nodup_singleton _, fun x hx y hy hxy => hfresh ?_⟩
    rw [List.map_singleton, List.mem_singleton] at hy
    rw [hxy, hy] at hx
    exact hx
  · rw [windowHashes, hheight, hhash, List.map_append, List.mem_append]
    by_cases hj : j = H.transaction c.transaction
    · subst hj
      simp
    · rw [AList.lookup_insert_ne hj, hw₁.indexed.keys j]
      simp [windowHashes, hj]
  · rw [hheight, List.pairwise_append]
    refine ⟨hw₁.sorted, List.pairwise_singleton _ _, fun a ha b hb => ?_⟩
    rw [List.mem_singleton] at hb
    rw [hb]
    exact hw₁.le_time a ha
  · rw [hheight]
    intro info hinfo
    rcases List.mem_append.mp hinfo with hinfo | hinfo
    · exact hw₁.le_time info hinfo
    · rw [List.mem_singleton.mp hinfo]
  · intro a ha
    rcases List.mem_append.mp ha with ha | ha
    · exact hw₁.time_le a ha
    · rw [PaymentCall.admitted, List.mem_singleton] at ha
      rw [ha]
  · intro a ha
    rcases List.mem_append.mp ha with ha | ha
    · exact hw₁.drift a ha
    · rw [PaymentCall.admitted, List.mem_singleton] at ha
      rw [ha]
      exact hfuture
  · intro a ha
    rw [hheight, hhash, hwindow']
    rcases List.mem_append.mp ha with ha | ha
    · rcases hw₁.admitted a ha with ⟨hmem, hlook⟩ | hlate
      · -- an entry still in the window keeps its height: the new hash is another one
        have hne : H.transaction a.transaction ≠ H.transaction c.transaction := by
          intro heq
          rw [heq, hnone] at hlook
          exact absurd hlook (by simp)
        exact .inl ⟨List.mem_append_left _ hmem, by rw [AList.lookup_insert_ne hne, hlook]⟩
      · exact .inr hlate
    · rw [PaymentCall.admitted, List.mem_singleton] at ha
      subst ha
      exact .inl ⟨List.mem_append_right _ List.mem_cons_self, AList.lookup_insert _⟩
  · rw [List.map_append, List.nodup_append]
    refine ⟨hw₁.distinct, List.nodup_singleton _, fun x hx y hy hxy => ?_⟩
    rw [PaymentCall.admitted, List.map_singleton, List.mem_singleton] at hy
    rw [hxy, hy] at hx
    exact hnew_tx hx
  · intro a ha
    rw [hnew, harchived]
    rcases List.mem_append.mp ha with ha | ha
    · -- the blocks before the call stay where they were
      obtain ⟨hle, hblock⟩ := hw.blocks a ha
      refine ⟨hle, ?_⟩
      obtain ⟨b, hb, -⟩ := Option.map_eq_some_iff.mp hblock
      rw [List.getElem?_append_left (List.getElem?_eq_some_iff.mp hb).1]
      exact hblock
    · rw [PaymentCall.admitted, List.mem_singleton] at ha
      subst ha
      dsimp only
      have hidx : height - l.blockchain.numArchivedBlocks = l.blockchain.blocks.length := by omega
      refine ⟨by omega, ?_⟩
      rw [hidx, List.getElem?_append_right (Nat.le_refl _), Nat.sub_self, List.getElem?_cons_zero]
      rfl

/-! ## A transaction submitted again -/

theorem TimeStamp.addDuration_ok {t : TimeStamp} {d : Duration} (h : t.nanos + d < 2 ^ 64) :
    ∃ t', t.addDuration d = .ok t' ∧ t'.nanos = t.nanos + d :=
  ⟨⟨UInt64.ofNat (t.nanos + d)⟩, TimeStamp.addDuration_eq_ok_iff.mpr
    ⟨h, UInt64.toNat_ofNat_of_lt' h⟩, UInt64.toNat_ofNat_of_lt' h⟩

omit [LinearOrder α] in
theorem throttle_ok (hle : ∀ info ∈ l.transactionsByHeight, info.blockTimestamp ≤ now)
    (hfit : now.nanos + 10 ^ 9 < 2 ^ 64) : ∃ b, l.throttle now = .ok b := by
  unfold Ledger.throttle
  dsimp only
  split_ifs
  · have hread : ∀ i : ℕ, (((l.transactionsByHeight[i]?).map TransactionInfo.blockTimestamp).getD
        ⟨0⟩).nanos ≤ now.nanos := by
      intro i
      cases hi : l.transactionsByHeight[i]? with
      | none => exact Nat.zero_le _
      | some info => exact hle info (List.mem_of_getElem? hi)
    obtain ⟨t', ht', -⟩ := TimeStamp.addDuration_ok
      (Nat.lt_of_le_of_lt (Nat.add_le_add_right (hread _) _) hfit)
    rw [ht']
    exact ⟨_, rfl⟩
  · exact ⟨false, rfl⟩

/-- **A transaction admitted in the run, submitted again within the age check, is refused as a
duplicate of its block**, unless throttled, and without a panic while the times fit a `u64`. -/
theorem WindowOk.resubmit (hw : WindowOk H l t log) {a : Admitted α} (ha : a ∈ log)
    {c : PaymentCall α} (ht : t ≤ c.now) (htx : c.transaction = a.transaction)
    (hage : c.now.nanos ≤ a.transaction.createdAtTime.nanos + l.transactionWindow)
    (hfit : c.now.nanos + l.transactionWindow + permittedDrift < 2 ^ 64) :
    ∃ r l', l.addPaymentWithTimestamp H c.memo c.payment c.createdAtTime c.now = .ok (r, l') ∧
      (r = .error (.transferError (.txDuplicate a.height)) ∨
        r = .error (.reject ("Too many transactions in replay prevention window, " ++
          "ledger is throttling, please retry later"))) := by
  have hle : t.nanos ≤ c.now.nanos := ht
  -- the purge does not panic: no entry is later than `t`
  obtain ⟨⟨n, l₁⟩, hpurge⟩ : ∃ p, l.purgeOldTransactions c.now = .ok p := by
    cases hp : l.purgeOldTransactions c.now with
    | ok p => exact ⟨p, rfl⟩
    | error e =>
      obtain ⟨-, info, hinfo, hover⟩ := purgeLoop_error hw.indexed hp
      have hinfo_le : info.blockTimestamp.nanos ≤ t.nanos := hw.le_time info hinfo
      omega
  have hw₁ := hw.purge ht hpurge
  obtain ⟨-, -, hwindow₁⟩ := purgeOldTransactions_frame hpurge
  -- the entry of the transaction is still in the window
  have hlook : l₁.transactionsByHash.lookup (H.transaction a.transaction) = some a.height := by
    rcases hw₁.admitted a ha with ⟨-, hlook⟩ | hlate
    · exact hlook
    · rw [hwindow₁] at hlate
      omega
  have hcreated : c.createdAtTime.getD c.now = a.transaction.createdAtTime :=
    congrArg Transaction.createdAtTime htx
  have hdrift : a.transaction.createdAtTime.nanos ≤ c.now.nanos + permittedDrift :=
    Nat.le_trans (hw.drift a ha) (Nat.add_le_add_right (Nat.le_trans (hw.time_le a ha) hle) _)
  obtain ⟨expiry, hexpiry, hexpiry'⟩ := TimeStamp.addDuration_ok
    (t := a.transaction.createdAtTime) (d := l₁.transactionWindow) (by rw [hwindow₁]; omega)
  obtain ⟨horizon, hhorizon, hhorizon'⟩ := TimeStamp.addDuration_ok
    (t := c.now) (d := permittedDrift) (by omega)
  obtain ⟨throttled, hthrottled⟩ := throttle_ok hw₁.le_time
    (by simp only [permittedDrift] at hfit; omega)
  unfold Ledger.addPaymentWithTimestamp
  rw [hpurge, Except.ok_bind]
  dsimp only
  rw [hcreated, hexpiry, Except.ok_bind,
    if_neg (by rw [TimeStamp.lt_iff_nanos_lt, hexpiry', hwindow₁]; omega), hhorizon,
    Except.ok_bind, if_neg (by rw [gt_iff_lt, TimeStamp.lt_iff_nanos_lt, hhorizon']; omega)]
  have htx' : (⟨c.payment, c.memo, a.transaction.createdAtTime⟩ : Transaction α) = a.transaction := by
    rw [← hcreated]
    exact htx
  rw [htx', hlook]
  -- whether the ledger throttles or not, the call is a refusal
  obtain ⟨b, hb⟩ : ∃ b, (if n = 0 then l₁.throttle c.now else pure false) = Except.ok b := by
    split_ifs
    · exact ⟨throttled, hthrottled⟩
    · exact ⟨false, rfl⟩
  rw [hb, Except.ok_bind]
  cases b
  · exact ⟨_, _, rfl, .inl rfl⟩
  · exact ⟨_, _, rfl, .inr rfl⟩

end Ledger

/-! ## Deduplication over a run -/

/-- What the deduplication window guarantees after a run that admitted `log`: distinct admitted
transactions in their blocks, resubmissions refused, and purges of old entries only. -/
structure Deduplicates (H : Hashing α) (l : Ledger α) (t : TimeStamp) (log : List (Admitted α)) :
    Prop where
  distinct : (log.map Admitted.transaction).Nodup
  blocks : ∀ a ∈ log, l.blockchain.numArchivedBlocks ≤ a.height ∧
    (l.blockchain.blocks[a.height - l.blockchain.numArchivedBlocks]?).map Block.transaction =
      some a.transaction
  resubmit : ∀ a ∈ log, ∀ c : PaymentCall α, t ≤ c.now → c.transaction = a.transaction →
    c.now.nanos ≤ a.transaction.createdAtTime.nanos + l.transactionWindow →
    c.now.nanos + l.transactionWindow + permittedDrift < 2 ^ 64 →
    ∃ r l', l.addPaymentWithTimestamp H c.memo c.payment c.createdAtTime c.now = .ok (r, l') ∧
      (r = .error (.transferError (.txDuplicate a.height)) ∨
        r = .error (.reject ("Too many transactions in replay prevention window, " ++
          "ledger is throttling, please retry later")))
  keys : ∀ k, (l.transactionsByHash.lookup k).isSome ↔
    k ∈ l.transactionsByHeight.map TransactionInfo.transactionHash
  nodup : (l.transactionsByHeight.map TransactionInfo.transactionHash).Nodup
  sorted : l.transactionsByHeight.Pairwise fun a b => a.blockTimestamp ≤ b.blockTimestamp
  noAssert : ∀ now, l.purgeOldTransactions now ≠ .error "assertion failed: removed.is_some()"
  purge : ∀ now n l', l.purgeOldTransactions now = .ok (n, l') →
    n ≤ maxTransactionsToPurge ∧ l'.transactionsByHeight = l.transactionsByHeight.drop n ∧
    ∀ info ∈ l.transactionsByHeight.take n,
      info.blockTimestamp.nanos + l.transactionWindow + permittedDrift < now.nanos

namespace Ledger

variable {H : Hashing α} {l : Ledger α} {t : TimeStamp} {log : List (Admitted α)}

theorem WindowOk.deduplicates (hw : WindowOk H l t log) : Deduplicates H l t log where
  distinct := hw.distinct
  blocks := hw.blocks
  resubmit _ ha _ ht htx hage hfit := hw.resubmit ha ht htx hage hfit
  keys := hw.indexed.keys
  nodup := hw.indexed.nodup
  sorted := hw.sorted
  noAssert _ herr := (purgeLoop_error hw.indexed herr).1 rfl
  purge now n l' h := by
    obtain ⟨k, hk, hle, hheight, -, hold⟩ := purgeLoop_spec h
    rw [Nat.zero_add] at hk
    subst hk
    exact ⟨hle (by decide), hheight, hold⟩

end Ledger

/-- **The run lemma**: every run from an empty window keeps the invariant. -/
theorem PaymentRun.windowOk {H : Hashing α} {l₀ l : Ledger α} {t : TimeStamp}
    {log : List (Admitted α)} (hhash : l₀.transactionsByHash = ∅)
    (hheight : l₀.transactionsByHeight = []) (hrun : PaymentRun H l₀ l t log) :
    Ledger.WindowOk H l t log := by
  induction hrun with
  | nil => exact Ledger.windowOk_empty hhash hheight
  | call c hrun ht h ih => exact ih.addPaymentWithTimestamp ht h

theorem paymentRun_dedup {H : Hashing α} {l₀ l : Ledger α} {t : TimeStamp}
    {log : List (Admitted α)} (hhash : l₀.transactionsByHash = ∅)
    (hheight : l₀.transactionsByHeight = []) (hrun : PaymentRun H l₀ l t log) :
    Deduplicates H l t log :=
  (hrun.windowOk hhash hheight).deduplicates

/-- A mint, the same mint again a nanosecond later, and a mint with another memo, from
`Ledger::default`: the repeat is refused as a duplicate of block 0, and the run deduplicates. -/
theorem paymentRun_dedup_resubmitted :
    let c₁ : PaymentCall ℕ := ⟨⟨0⟩, .mint 1 ⟨10⟩, some ⟨1⟩, ⟨1⟩⟩
    let cs := [c₁, { c₁ with now := ⟨2⟩ }, { c₁ with memo := ⟨1⟩, now := ⟨3⟩ }]
    ∃ rs l t, runPayments memoHashing Ledger.default cs = .ok (rs, l) ∧
      rs.map Except.isOk = [true, false, true] ∧
      rs[1]? = some (.error (.transferError (.txDuplicate 0))) ∧
      PaymentRun memoHashing Ledger.default l t (admittedOf cs rs) ∧
      Deduplicates memoHashing l t (admittedOf cs rs) := by
  intro c₁ cs
  have htest : ((runPayments memoHashing Ledger.default cs).toOption.map fun p =>
      decide (p.1.map Except.isOk = [true, false, true] ∧
        p.1[1]? = some (.error (.transferError (.txDuplicate 0))))) = some true := by
    decide +kernel
  obtain ⟨p, hrun, hok⟩ := Except.exists_eq_ok_of_toOption_map htest
  obtain ⟨h₁, h₂⟩ := of_decide_eq_true hok
  obtain ⟨t, hpay⟩ := PaymentRun.nil.of_runPayments (by decide) hrun
  rw [List.nil_append] at hpay
  exact ⟨p.1, p.2, t, hrun, h₁, h₂, hpay, paymentRun_dedup rfl rfl hpay⟩

/-! ## The trimming burns -/

/-- The fields of an operation, paired into one number. -/
def Operation.encode : Operation ℕ → ℕ
  | .burn from_ amount => Nat.pair 0 (Nat.pair from_ amount.toNat)
  | .mint to_ amount => Nat.pair 1 (Nat.pair to_ amount.toNat)
  | .transfer from_ to_ amount fee =>
    Nat.pair 2 (Nat.pair from_ (Nat.pair to_ (Nat.pair amount.toNat fee.toNat)))

/-- The fields of a transaction, paired into one number: an injective hash. -/
def Transaction.encode (T : Transaction ℕ) : ℕ :=
  Nat.pair T.operation.encode (Nat.pair T.memo.memo.toNat T.createdAtTime.nanos)

theorem Operation.encode_injective : Function.Injective Operation.encode := by
  intro x y h
  cases x <;> cases y <;> simp_all [Operation.encode, Nat.pair_eq_pair, Tokens.toNat_injective.eq_iff]

theorem Transaction.encode_injective : Function.Injective Transaction.encode := by
  rintro ⟨op, ⟨memo⟩, ⟨time⟩⟩ ⟨op', ⟨memo'⟩, ⟨time'⟩⟩ h
  simp only [Transaction.encode, TimeStamp.nanos, Nat.pair_eq_pair, UInt64.toNat_inj] at h
  obtain ⟨hop, rfl, rfl⟩ := h
  rw [Operation.encode_injective hop]

/-- Hashing by `Transaction.encode`. -/
def encodeHashing : Hashing ℕ := ⟨Transaction.encode, fun _ => 0⟩

/-- `Ledger::default` with the limits on accounts lowered, as the ledger's trimming test does. -/
def trimLedger : Ledger ℕ :=
  { Ledger.default with maximumNumberOfAccounts := 0, accountsOverflowTrimQuantity := 1 }

/-- **Trimming burns can repeat a transaction**: two mints at one time with different memos each
take the account past the limit, and each appends the same burn. -/
theorem trimBurn_repeated :
    Function.Injective encodeHashing.transaction ∧
    (do
      let (r₁, l₁) ← trimLedger.addPaymentWithTimestamp encodeHashing ⟨0⟩ (.mint 1 ⟨5⟩) none ⟨0⟩
      let (r₂, l₂) ← l₁.addPaymentWithTimestamp encodeHashing ⟨1⟩ (.mint 1 ⟨5⟩) none ⟨0⟩
      pure (r₁.isOk, r₂.isOk, l₂.blockchain.blocks.map Block.transaction)) =
      (Except.ok (true, true, [⟨.mint 1 ⟨5⟩, ⟨0⟩, ⟨0⟩⟩, ⟨.burn 1 ⟨5⟩, ⟨0⟩, ⟨0⟩⟩,
        ⟨.mint 1 ⟨5⟩, ⟨1⟩, ⟨0⟩⟩, ⟨.burn 1 ⟨5⟩, ⟨0⟩, ⟨0⟩⟩]) : Except String _) :=
  ⟨Transaction.encode_injective, by decide +kernel⟩

end IC.LedgerCanister
