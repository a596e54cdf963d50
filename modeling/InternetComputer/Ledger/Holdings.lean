import InternetComputer.Lib.Collections
import InternetComputer.Lib.Rust

/-!
# Holdings

What the ledger's balances are for, in exact arithmetic. Each account holds a natural number of
e8s, finitely many accounts hold any, and the pool holds the tokens not minted yet. A debit needs
funds on the account; a transfer moves its amount and pays its fee into the pool, a burn returns
its amount to the pool and a mint takes its amount from there. Every operation keeps the supply
plus the pool.

* `Holdings`, `Holdings.supply`, `Holdings.Conserved`;
* `debit`, `credit`, `transfer`, `burn`, `mint`;
* **`Conserved.transfer`**, **`Conserved.burn`**, **`Conserved.mint`**: the sum of the supply and
  the pool is kept.
-/

namespace IC.LedgerCanister

/-- The balances of the accounts and the pool of unminted tokens. -/
structure Holdings (α : Type) where
  balances : α →₀ ℕ
  pool : ℕ

namespace Holdings

variable {α : Type} (s : Holdings α)

/-- The tokens in circulation. -/
def supply : ℕ := s.balances.sum fun _ v => v

/-- Every token is on an account or in the pool, and there are `cap` of them. -/
def Conserved (cap : ℕ) : Prop := s.supply + s.pool = cap

/-- Take `d` from account `a`; an account without funds cannot be debited, not even by zero. -/
noncomputable def debit (a : α) (d : ℕ) : Except ℕ (Holdings α) :=
  if s.balances a = 0 ∨ s.balances a < d then .error (s.balances a)
  else .ok { s with balances := s.balances.update a (s.balances a - d) }

/-- Put `x` on account `a`. -/
noncomputable def credit (a : α) (x : ℕ) : Holdings α :=
  { s with balances := s.balances.update a (s.balances a + x) }

/-- Move `amount` from `src` to `dst` and pay `fee` into the pool. -/
noncomputable def transfer (src dst : α) (amount fee : ℕ) : Except ℕ (Holdings α) := do
  let s ← s.debit src (amount + fee)
  pure { s.credit dst amount with pool := s.pool + fee }

/-- Return `amount` from `src` to the pool. -/
noncomputable def burn (src : α) (amount : ℕ) : Except ℕ (Holdings α) := do
  let s ← s.debit src amount
  pure { s with pool := s.pool + amount }

/-- Take `amount` from the pool to `dst`, if the pool holds it. -/
noncomputable def mint (dst : α) (amount : ℕ) : Option (Holdings α) :=
  if s.pool < amount then none else some { s.credit dst amount with pool := s.pool - amount }

variable {s}

theorem balance_le_supply (a : α) : s.balances a ≤ s.supply := Finsupp.apply_le_sum s.balances a

theorem supply_update_add (a : α) (v : ℕ) :
    { s with balances := s.balances.update a v }.supply + s.balances a = s.supply + v :=
  Finsupp.sum_update_add s.balances a v _ (fun _ => rfl) (fun _ _ _ => rfl)

theorem debit_eq_error_iff {a : α} {d b : ℕ} :
    s.debit a d = .error b ↔ (s.balances a = 0 ∨ s.balances a < d) ∧ b = s.balances a := by
  unfold debit
  split_ifs with h
  · simp only [Except.error.injEq, h, true_and]
    exact eq_comm
  · simp only [h, false_and]

theorem debit_eq_ok {a : α} {d : ℕ} {s' : Holdings α} (h : s.debit a d = .ok s') :
    d ≤ s.balances a ∧ s'.supply + d = s.supply ∧ s'.pool = s.pool ∧
      s'.balances = s.balances.update a (s.balances a - d) := by
  unfold debit at h
  split_ifs at h with hd
  obtain rfl := (Except.ok.inj h).symm
  have hupd := supply_update_add (s := s) a (s.balances a - d)
  refine ⟨by omega, ?_, rfl, rfl⟩
  omega

theorem supply_credit (a : α) (x : ℕ) : (s.credit a x).supply = s.supply + x := by
  have h := supply_update_add (s := s) a (s.balances a + x)
  unfold credit
  omega

theorem Conserved.transfer {cap : ℕ} (hs : s.Conserved cap) {src dst : α} {amount fee : ℕ}
    {s' : Holdings α} (h : s.transfer src dst amount fee = .ok s') : s'.Conserved cap := by
  obtain ⟨s₁, hdebit, hpure⟩ := Except.bind_eq_ok.mp h
  obtain rfl := Except.pure_eq_ok.mp hpure
  obtain ⟨-, hsupply, hpool, -⟩ := debit_eq_ok hdebit
  have hcredit := supply_credit (s := s₁) dst amount
  unfold Conserved at hs ⊢
  change (s₁.credit dst amount).supply + (s₁.pool + fee) = cap
  omega

theorem Conserved.burn {cap : ℕ} (hs : s.Conserved cap) {src : α} {amount : ℕ}
    {s' : Holdings α} (h : s.burn src amount = .ok s') : s'.Conserved cap := by
  obtain ⟨s₁, hdebit, hpure⟩ := Except.bind_eq_ok.mp h
  obtain rfl := Except.pure_eq_ok.mp hpure
  obtain ⟨-, hsupply, hpool, -⟩ := debit_eq_ok hdebit
  unfold Conserved at hs ⊢
  change s₁.supply + (s₁.pool + amount) = cap
  omega

theorem Conserved.mint {cap : ℕ} (hs : s.Conserved cap) {dst : α} {amount : ℕ}
    {s' : Holdings α} (h : s.mint dst amount = some s') : s'.Conserved cap := by
  unfold Holdings.mint at h
  split_ifs at h with hpool
  obtain rfl := (Option.some.inj h).symm
  have hcredit := supply_credit (s := s) dst amount
  unfold Conserved at hs ⊢
  change (s.credit dst amount).supply + (s.pool - amount) = cap
  omega

end Holdings

end IC.LedgerCanister
