import InternetComputer.Ledger.Balances

/-!
# The balances refine the holdings

On balances that keep their invariant, `Balances::add_payment` does to the holdings what the
operation says: it refuses exactly the debits the holdings refuse, with the account's balance, it
panics exactly on a mint of more than the pool, and otherwise it moves the amounts of the
operation. A refused payment leaves the balances as they were, and every payment keeps the
invariant.

* `debit_eq`, `credit_eq`: the two store updates without their closures;
* `debit_refines`, `credit_refines`: one debit and one credit on the holdings;
* **`paymentOutcome_addPayment`**: `add_payment` refines `Operation.apply`;
* `addPayment_refused`, **`Valid.addPayment`**.
-/

namespace IC.LedgerCanister

namespace Balances

variable {α : Type} [DecidableEq α] {b : Balances α}

/-! ## The store updates -/

theorem debit_eq (b : Balances α) (a : α) (d : Tokens) :
    b.debit a d =
      match b.store.lookup a with
      | none => .error (.insufficientFunds Tokens.ZERO)
      | some w =>
        if w < d then .error (.insufficientFunds w)
        else .ok (⟨w.e8s - d.e8s⟩, { b with store := b.store.setNonzero a ⟨w.e8s - d.e8s⟩ }) := by
  unfold debit
  split
  next e he =>
    have hf := BalancesStore.update_eq_error_iff.mp he
    cases hl : b.store.lookup a with
    | none =>
      rw [hl] at hf
      cases hf
      rfl
    | some w =>
      rw [hl] at hf
      dsimp only at hf ⊢
      -- the branch of the other outcome contradicts `hf`
      split_ifs at hf ⊢
      cases hf
      rfl
  next v st he =>
    obtain ⟨hf, rfl⟩ := BalancesStore.update_eq_ok_iff.mp he
    cases hl : b.store.lookup a with
    | none =>
      rw [hl] at hf
      cases hf
    | some w =>
      rw [hl] at hf
      dsimp only at hf ⊢
      split_ifs at hf ⊢
      cases hf
      rfl

theorem credit_eq (b : Balances α) (a : α) (x : Tokens) :
    b.credit a x =
      match x.add (b.accountBalance a) with
      | .ok c => .ok { b with store := b.store.setNonzero a c }
      | .error _ => .error "bug: overflow in credit" := by
  unfold credit accountBalance BalancesStore.getBalance
  split
  next e he =>
    have hf := BalancesStore.update_eq_error_iff.mp he
    revert hf
    cases x.add ((b.store.lookup a).getD Tokens.ZERO) with
    | ok c => exact fun hf => by cases hf
    | error e' => exact fun hf => by cases hf; rfl
  next v st he =>
    obtain ⟨hf, rfl⟩ := BalancesStore.update_eq_ok_iff.mp he
    revert hf
    cases x.add ((b.store.lookup a).getD Tokens.ZERO) with
    | ok c => exact fun hf => by cases hf; rfl
    | error e' => exact fun hf => by cases hf

/-! ## One debit and one credit on the holdings -/

theorem accountBalance_of_lookup {a : α} {w : Tokens} (h : b.store.lookup a = some w) :
    b.accountBalance a = w := by
  rw [accountBalance, BalancesStore.getBalance, h]
  rfl

theorem accountBalance_of_lookup_none {a : α} (h : b.store.lookup a = none) :
    b.accountBalance a = 0 := by
  rw [accountBalance, BalancesStore.getBalance, h]
  rfl

theorem debit_refines (hz : b.store.NoZero) (a : α) (d : Tokens) :
    match b.debit a d with
    | .ok (_, b') => b.holdings.debit a d.toNat = .ok b'.holdings ∧ b'.store.NoZero ∧
        b'.tokenPool = b.tokenPool
    | .error (.insufficientFunds x) => b.holdings.debit a d.toNat = .error x.toNat ∧
        x = b.accountBalance a := by
  rw [debit_eq]
  cases hl : b.store.lookup a with
  | none =>
    have hbal := accountBalance_of_lookup_none hl
    refine ⟨Holdings.debit_eq_error_iff.mpr ⟨Or.inl ?_, ?_⟩, hbal.symm⟩ <;>
      simp [hbal]
  | some w =>
    have hbal := accountBalance_of_lookup hl
    dsimp only
    split_ifs with hlt
    · refine ⟨Holdings.debit_eq_error_iff.mpr ⟨Or.inr ?_, ?_⟩, hbal.symm⟩ <;>
        simp [hbal, ← Tokens.lt_iff_toNat_lt, hlt]
    · have hle : d.toNat ≤ w.toNat := Nat.not_lt.mp hlt
      have hw : w.toNat ≠ 0 := fun h0 => hz a w hl (Tokens.eq_zero_iff.mpr h0)
      refine ⟨?_, AList.noZero_setNonzero hz, rfl⟩
      have hsub : (⟨w.e8s - d.e8s⟩ : Tokens).toNat = w.toNat - d.toNat :=
        UInt64.toNat_sub_of_le _ _ (UInt64.le_iff_toNat_le.mpr hle)
      unfold Holdings.debit
      rw [holdings_balances_apply, hbal, if_neg (by omega), holdings_setNonzero, hsub]

theorem credit_refines (hz : b.store.NoZero) {a : α} {x : Tokens}
    (hx : x.toNat + (b.accountBalance a).toNat < 2 ^ 64) :
    ∃ b', b.credit a x = .ok b' ∧ b'.holdings = b.holdings.credit a x.toNat ∧
      b'.store.NoZero ∧ b'.tokenPool = b.tokenPool := by
  obtain ⟨c, hc, hcval⟩ := Tokens.exists_add_eq_ok hx
  refine ⟨{ b with store := b.store.setNonzero a c }, by rw [credit_eq, hc], ?_,
    AList.noZero_setNonzero hz, rfl⟩
  rw [holdings_setNonzero, hcval, Holdings.credit, holdings_balances_apply, Nat.add_comm]

/-! ## The three operations -/

theorem addPayment_transfer (hb : b.Valid) (from_ to_ : α) (amount fee : Tokens) :
    match b.addPayment (.transfer from_ to_ amount fee) with
    | .error _ => False
    | .ok (.error (.insufficientFunds x), b') =>
      b' = b ∧ b.holdings.transfer from_ to_ amount.toNat fee.toNat = .error x.toNat
    | .ok (.ok (), b') =>
      b'.store.NoZero ∧ b.holdings.transfer from_ to_ amount.toNat fee.toNat = .ok b'.holdings := by
  have hcons := hb.supply_add_tokenPool
  unfold addPayment
  dsimp only
  cases hadd : amount.add fee with
  | error e =>
    -- the debit exceeds every balance
    have hover := Tokens.add_eq_error_iff.mp ⟨e, hadd⟩
    have hlt := Tokens.toNat_lt (b.accountBalance from_)
    have hdebit : b.holdings.debit from_ (amount.toNat + fee.toNat) =
        .error (b.accountBalance from_).toNat :=
      Holdings.debit_eq_error_iff.mpr ⟨Or.inr (by rw [holdings_balances_apply]; omega),
        by rw [holdings_balances_apply]⟩
    exact ⟨rfl, by rw [Holdings.transfer, hdebit]; rfl⟩
  | ok d =>
    have hd := (Tokens.add_eq_ok_iff.mp hadd).2
    have href := debit_refines hb.noZero from_ d
    dsimp only
    cases hdeb : b.debit from_ d with
    | error e =>
      cases e with
      | insufficientFunds x =>
        rw [hdeb] at href
        exact ⟨rfl, by rw [Holdings.transfer, ← hd, href.1]; rfl⟩
    | ok r =>
      obtain ⟨_, b₁⟩ := r
      rw [hdeb] at href
      obtain ⟨hdebit, hz₁, hpool₁⟩ := href
      obtain ⟨hle, hsupply, -, -⟩ := Holdings.debit_eq_ok hdebit
      have hbal := Holdings.balance_le_supply (s := b.holdings) from_
      -- the credit and the fee fit in a `u64`, for the supply is at most `u64::MAX`
      have hto := Holdings.balance_le_supply (s := b₁.holdings) to_
      rw [holdings_balances_apply] at hto
      obtain ⟨b₂, hcredit, hholdings₂, hz₂, hpool₂⟩ :=
        credit_refines hz₁ (a := to_) (x := amount) (by omega)
      have hfee : b₂.tokenPool.toNat + fee.toNat < 2 ^ 64 := by
        rw [hpool₂, hpool₁]
        omega
      obtain ⟨p, hp, hpval⟩ := Tokens.exists_add_eq_ok hfee
      have hassign : b₂.tokenPool.addAssign fee = .ok p := by rw [Tokens.addAssign, hp]; rfl
      simp only [hcredit, hassign, bind, Except.bind, pure, Except.pure]
      refine ⟨hz₂, ?_⟩
      rw [Holdings.transfer, ← hd, hdebit]
      simp only [bind, Except.bind, pure, Except.pure, Except.ok.injEq]
      change _ = (⟨b₂.holdings.balances, p.toNat⟩ : Holdings α)
      rw [hholdings₂, hpval, hpool₂]
      rfl

theorem addPayment_burn (hb : b.Valid) (from_ : α) (amount : Tokens) :
    match b.addPayment (.burn from_ amount) with
    | .error _ => False
    | .ok (.error (.insufficientFunds x), b') =>
      b' = b ∧ b.holdings.burn from_ amount.toNat = .error x.toNat
    | .ok (.ok (), b') =>
      b'.store.NoZero ∧ b.holdings.burn from_ amount.toNat = .ok b'.holdings := by
  have hcons := hb.supply_add_tokenPool
  have href := debit_refines hb.noZero from_ amount
  unfold addPayment
  dsimp only
  cases hdeb : b.debit from_ amount with
  | error e =>
    cases e with
    | insufficientFunds x =>
      rw [hdeb] at href
      exact ⟨rfl, by rw [Holdings.burn, href.1]; rfl⟩
  | ok r =>
    obtain ⟨_, b₁⟩ := r
    rw [hdeb] at href
    obtain ⟨hdebit, hz₁, hpool₁⟩ := href
    obtain ⟨hle, hsupply, -, -⟩ := Holdings.debit_eq_ok hdebit
    have hbal := Holdings.balance_le_supply (s := b.holdings) from_
    have hsum : b₁.tokenPool.toNat + amount.toNat < 2 ^ 64 := by
      rw [hpool₁]
      omega
    obtain ⟨p, hp, hpval⟩ := Tokens.exists_add_eq_ok hsum
    have hassign : b₁.tokenPool.addAssign amount = .ok p := by rw [Tokens.addAssign, hp]; rfl
    simp only [hassign, bind, Except.bind, pure, Except.pure]
    refine ⟨hz₁, ?_⟩
    rw [Holdings.burn, hdebit]
    simp only [bind, Except.bind, pure, Except.pure, Except.ok.injEq]
    change _ = (⟨b₁.holdings.balances, p.toNat⟩ : Holdings α)
    rw [hpval]
    rfl

theorem addPayment_mint (hb : b.Valid) (to_ : α) (amount : Tokens) :
    match b.addPayment (.mint to_ amount) with
    | .error msg => b.holdings.mint to_ amount.toNat = none ∧ msg = "total token supply exceeded"
    | .ok (.error _, _) => False
    | .ok (.ok (), b') => b'.store.NoZero ∧ b.holdings.mint to_ amount.toNat = some b'.holdings := by
  have hcons := hb.supply_add_tokenPool
  unfold addPayment
  dsimp only
  cases hsub : b.tokenPool.sub amount with
  | error e =>
    have hlt := Tokens.sub_eq_error_iff.mp ⟨e, hsub⟩
    simp only [Rust.expectOk, bind, Except.bind]
    rw [Holdings.mint, if_pos (by rw [holdings_pool]; exact hlt)]
    exact ⟨rfl, trivial⟩
  | ok p =>
    obtain ⟨hle, hpval⟩ := Tokens.sub_eq_ok_iff.mp hsub
    have hbal := Holdings.balance_le_supply (s := b.holdings) to_
    rw [holdings_balances_apply] at hbal
    obtain ⟨b₁, hcredit, hholdings₁, hz₁, hpool₁⟩ :=
      credit_refines (b := { b with tokenPool := p }) hb.noZero (a := to_) (x := amount)
        (by change amount.toNat + (b.accountBalance to_).toNat < 2 ^ 64; omega)
    simp only [Rust.expectOk, hcredit, bind, Except.bind, pure, Except.pure]
    refine ⟨hz₁, ?_⟩
    rw [Holdings.mint, if_neg (by rw [holdings_pool]; omega), hholdings₁]
    change _ = some ((⟨b.holdings.balances, p.toNat⟩ : Holdings α).credit to_ amount.toNat)
    rw [hpval]
    rfl

/-! ## `add_payment` -/

/-- **`add_payment` refines `Operation.apply`** on valid balances. -/
theorem paymentOutcome_addPayment (hb : b.Valid) (op : Operation α) :
    paymentOutcome (b.addPayment op) = op.apply b.holdings := by
  cases op with
  | transfer from_ to_ amount fee =>
    have h := addPayment_transfer hb from_ to_ amount fee
    split at h
    next => exact h.elim
    next heq => rw [heq, paymentOutcome, Operation.apply, h.2]
    next heq => rw [heq, paymentOutcome, Operation.apply, h.2]
  | burn from_ amount =>
    have h := addPayment_burn hb from_ amount
    split at h
    next => exact h.elim
    next heq => rw [heq, paymentOutcome, Operation.apply, h.2]
    next heq => rw [heq, paymentOutcome, Operation.apply, h.2]
  | mint to_ amount =>
    have h := addPayment_mint hb to_ amount
    split at h
    next heq => rw [heq, paymentOutcome, Operation.apply, h.1]; rfl
    next => exact h.elim
    next heq => rw [heq, paymentOutcome, Operation.apply, h.2]; rfl

theorem addPayment_refused (hb : b.Valid) {op : Operation α} {e : BalanceError}
    {b' : Balances α} (h : b.addPayment op = .ok (.error e, b')) : b' = b := by
  cases e with
  | insufficientFunds x =>
    cases op with
    | transfer from_ to_ amount fee =>
      have hspec := addPayment_transfer hb from_ to_ amount fee
      rw [h] at hspec
      exact hspec.1
    | burn from_ amount =>
      have hspec := addPayment_burn hb from_ amount
      rw [h] at hspec
      exact hspec.1
    | mint to_ amount =>
      have hspec := addPayment_mint hb to_ amount
      rw [h] at hspec
      exact hspec.elim

/-- **Every payment keeps the invariant of the balances.** -/
theorem Valid.addPayment (hb : b.Valid) {op : Operation α} {r : Except BalanceError Unit}
    {b' : Balances α} (h : b.addPayment op = .ok (r, b')) : b'.Valid := by
  cases r with
  | error e => exact addPayment_refused hb h ▸ hb
  | ok u =>
    cases op with
    | transfer from_ to_ amount fee =>
      have hspec := addPayment_transfer hb from_ to_ amount fee
      rw [h] at hspec
      exact ⟨hb.conserved.transfer hspec.2, hspec.1⟩
    | burn from_ amount =>
      have hspec := addPayment_burn hb from_ amount
      rw [h] at hspec
      exact ⟨hb.conserved.burn hspec.2, hspec.1⟩
    | mint to_ amount =>
      have hspec := addPayment_mint hb to_ amount
      rw [h] at hspec
      exact ⟨hb.conserved.mint hspec.2, hspec.1⟩

theorem addPayment_eq_error_iff (hb : b.Valid) (op : Operation α) (msg : String) :
    b.addPayment op = .error msg ↔
      (∃ to_ amount, op = .mint to_ amount ∧ b.tokenPool < amount) ∧
        msg = "total token supply exceeded" := by
  constructor
  · intro hmsg
    cases op with
    | transfer from_ to_ amount fee =>
      have hspec := addPayment_transfer hb from_ to_ amount fee
      rw [hmsg] at hspec
      exact hspec.elim
    | burn from_ amount =>
      have hspec := addPayment_burn hb from_ amount
      rw [hmsg] at hspec
      exact hspec.elim
    | mint to_ amount =>
      have hspec := addPayment_mint hb to_ amount
      rw [hmsg] at hspec
      obtain ⟨hnone, rfl⟩ := hspec
      refine ⟨⟨to_, amount, rfl, ?_⟩, rfl⟩
      rw [Holdings.mint] at hnone
      split_ifs at hnone with hlt
      exact hlt
  · rintro ⟨⟨to_, amount, rfl, hlt⟩, rfl⟩
    have hspec := addPayment_mint hb to_ amount
    cases hres : b.addPayment (.mint to_ amount) with
    | error msg =>
      rw [hres] at hspec
      rw [hspec.2]
    | ok r =>
      obtain ⟨r, b'⟩ := r
      rw [hres] at hspec
      cases r with
      | error e => exact hspec.elim
      | ok u =>
        have hmint := hspec.2
        rw [Holdings.mint, if_pos (by exact hlt)] at hmint
        cases hmint

theorem Valid.totalSupply (hb : b.Valid) :
    ∃ t, b.totalSupply = .ok t ∧ t.toNat = b.holdings.supply := by
  have hcons := hb.supply_add_tokenPool
  obtain ⟨t, ht, htval⟩ := Tokens.exists_sub_eq_ok (a := Tokens.MAX) (b := b.tokenPool)
    (by rw [Tokens.toNat_MAX]; omega)
  refine ⟨t, by rw [Balances.totalSupply, ht]; rfl, ?_⟩
  rw [htval, Tokens.toNat_MAX]
  omega

end Balances

end IC.LedgerCanister
