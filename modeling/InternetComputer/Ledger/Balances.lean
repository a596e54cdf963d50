import InternetComputer.Ledger.Tokens
import InternetComputer.Ledger.Holdings
import Mathlib

/-!
# Balances

`Balances` of the ledger canister's `lib.rs`: the balances of the accounts in a `HashMap` updated
through its entry API, and the pool of tokens not minted yet.

* `Operation`, `BalanceError`, `BalancesStore.update`;
* `Balances.addPayment`, `debit`, `credit`, `accountBalance`, `totalSupply`,
  `selectAccountsToTrim`;
* `Balances.holdings`: the holdings the balances stand for; `Operation.apply`: what an operation
  does to them;
* `Balances.Valid`: supply plus pool is `u64::MAX` and no account holds zero.
-/

namespace IC.LedgerCanister

/-- `Operation`. The source's field `from` is a keyword of Lean and is written `from_`. -/
inductive Operation (α : Type) where
  | burn (from_ : α) (amount : Tokens)
  | mint (to_ : α) (amount : Tokens)
  | transfer (from_ to_ : α) (amount fee : Tokens)
  deriving DecidableEq, Repr

/-- `BalanceError`. -/
inductive BalanceError where
  | insufficientFunds (balance : Tokens)
  deriving DecidableEq, Repr

/-- The `HashMap` of `BalancesStore` as an association list, its order standing for the map's. -/
abbrev BalancesStore (α : Type) := AList fun _ : α => Tokens

variable {α : Type} [DecidableEq α]

namespace BalancesStore

/-- `BalancesStore::get_balance`. -/
def getBalance (s : BalancesStore α) (k : α) : Option Tokens := s.lookup k

/-- `BalancesStore::update`: a new value of zero removes the entry or inserts none. -/
def update {ε : Type} (s : BalancesStore α) (k : α) (f : Option Tokens → Except ε Tokens) :
    Except ε (Tokens × BalancesStore α) :=
  match s.lookup k with
  | some v =>
    match f (some v) with
    | .error e => .error e
    | .ok newV => .ok (newV, if newV ≠ Tokens.ZERO then s.insert k newV else s.erase k)
  | none =>
    match f none with
    | .error e => .error e
    | .ok newV => .ok (newV, if newV ≠ Tokens.ZERO then s.insert k newV else s)

theorem update_eq_ok_iff {ε : Type} {s : BalancesStore α} {k : α}
    {f : Option Tokens → Except ε Tokens} {v : Tokens} {s' : BalancesStore α} :
    s.update k f = .ok (v, s') ↔ f (s.lookup k) = .ok v ∧ s' = s.setNonzero k v := by
  unfold update AList.setNonzero
  have hzero : Tokens.ZERO = 0 := rfl
  cases hl : s.lookup k with
  | some w =>
    dsimp only
    cases f (some w) with
    | error e => simp
    | ok newV =>
      simp only [Except.ok.injEq, Prod.mk.injEq, hzero]
      constructor
      · rintro ⟨rfl, rfl⟩
        exact ⟨rfl, by split_ifs <;> simp_all⟩
      · rintro ⟨rfl, rfl⟩
        exact ⟨rfl, by split_ifs <;> simp_all⟩
  | none =>
    have hk : k ∉ s := AList.lookup_eq_none.mp hl
    dsimp only
    cases f none with
    | error e => simp
    | ok newV =>
      simp only [Except.ok.injEq, Prod.mk.injEq, hzero]
      constructor
      · rintro ⟨rfl, rfl⟩
        exact ⟨rfl, by split_ifs <;> simp_all [AList.erase_of_notMem hk]⟩
      · rintro ⟨rfl, rfl⟩
        exact ⟨rfl, by split_ifs <;> simp_all [AList.erase_of_notMem hk]⟩

theorem update_eq_error_iff {ε : Type} {s : BalancesStore α} {k : α}
    {f : Option Tokens → Except ε Tokens} {e : ε} :
    s.update k f = .error e ↔ f (s.lookup k) = .error e := by
  unfold update
  cases s.lookup k <;> dsimp only <;> split <;> simp_all

end BalancesStore

/-- `Balances`: the store of the account balances and the pool of tokens not minted yet. -/
structure Balances (α : Type) where
  store : BalancesStore α
  tokenPool : Tokens

namespace Balances

/-- `Balances::new`: no account, and every token in the pool. -/
def new : Balances α := ⟨∅, Tokens.MAX⟩

/-- `Balances::account_balance`: zero without an entry. -/
def accountBalance (b : Balances α) (account : α) : Tokens :=
  (b.store.getBalance account).getD Tokens.ZERO

/-- `Balances::debit`; the checked subtraction as the `u64` difference. -/
def debit (b : Balances α) (from_ : α) (amount : Tokens) :
    Except BalanceError (Tokens × Balances α) :=
  match b.store.update from_ (fun prev =>
      match prev with
      | none => .error (.insufficientFunds Tokens.ZERO)
      | some balance =>
        if balance < amount then .error (.insufficientFunds balance)
        else .ok ⟨balance.e8s - amount.e8s⟩) with
  | .error e => .error e
  | .ok (newBalance, store) => .ok (newBalance, { b with store })

/-- `Balances::credit`. The closure cannot fail; its `expect` on the sum panics. -/
def credit (b : Balances α) (to_ : α) (amount : Tokens) : Except String (Balances α) :=
  match b.store.update to_ (fun prev =>
      Rust.expectOk (amount.add (prev.getD Tokens.ZERO)) "bug: overflow in credit") with
  | .error msg => .error msg
  | .ok (_, store) => .ok { b with store }

/-- `Balances::add_payment`; a panic is an error of the outer `Except`. -/
def addPayment (b : Balances α) (payment : Operation α) :
    Except String (Except BalanceError Unit × Balances α) :=
  match payment with
  | .transfer from_ to_ amount fee =>
    match amount.add fee with
    -- no account can hold more than `u64::MAX`
    | .error _ => .ok (.error (.insufficientFunds (b.accountBalance from_)), b)
    | .ok debitAmount =>
      match b.debit from_ debitAmount with
      | .error e => .ok (.error e, b)
      | .ok (_, b) => do
        let b ← b.credit to_ amount
        let tokenPool ← b.tokenPool.addAssign fee
        pure (.ok (), { b with tokenPool })
  | .burn from_ amount =>
    match b.debit from_ amount with
    | .error e => .ok (.error e, b)
    | .ok (_, b) => do
      let tokenPool ← b.tokenPool.addAssign amount
      pure (.ok (), { b with tokenPool })
  | .mint to_ amount => do
    let tokenPool ← Rust.expectOk (b.tokenPool.sub amount) "total token supply exceeded"
    let b ← { b with tokenPool }.credit to_ amount
    pure (.ok (), b)

/-- `Balances::total_supply`: the tokens not in the pool. -/
def totalSupply (b : Balances α) : Except String Tokens :=
  Rust.expectOk (Tokens.MAX.sub b.tokenPool) ("It is expected that the token_pool is always " ++
    "smaller than or equal to Tokens::MAX, yet subtracting it lead to the following error")

/-- `select_accounts_to_trim`: up to `numAccounts` lowest balances, by a max-heap. -/
def selectAccountsToTrim [LinearOrder α] (b : Balances α) (numAccounts : ℕ) :
    List (Tokens × α) :=
  let entries := b.store.entries.map fun e => toLex (e.2, e.1)
  let toTrim := (entries.take numAccounts).foldl MaxHeap.push []
  -- an account lower than the greatest of the heap replaces it
  let toTrim := (entries.drop numAccounts).foldl (fun toTrim x =>
      match MaxHeap.peek toTrim with
      | some greatest =>
        if (ofLex x).1 < (ofLex greatest).1 then MaxHeap.pop (MaxHeap.push toTrim x) else toTrim
      | none => toTrim) toTrim
  toTrim.map ofLex

omit [DecidableEq α] in
theorem selectAccountsToTrim_eq [LinearOrder α] (b : Balances α) (numAccounts : ℕ) :
    b.selectAccountsToTrim numAccounts =
      (((b.store.entries.map fun e => toLex (e.2, e.1)).drop numAccounts).foldl
        (MaxHeap.replaceStep fun x => (ofLex x).1)
        ((b.store.entries.map fun e => toLex (e.2, e.1)).take numAccounts).reverse).map ofLex := by
  rw [selectAccountsToTrim, MaxHeap.foldl_push, List.append_nil]
  congr 2
  funext toTrim x
  rw [MaxHeap.replaceStep]
  cases MaxHeap.peek toTrim <;> rfl

omit [DecidableEq α] in
/-- **`select_accounts_to_trim` selects the lowest balances**: the accounts it selects and those
it leaves out make up the store, it selects `min numAccounts` of them, and no account left out
holds less than a selected one. -/
theorem selectAccountsToTrim_lowest [LinearOrder α] (b : Balances α) (numAccounts : ℕ) :
    ∃ rest : List (Tokens × α),
      (b.selectAccountsToTrim numAccounts ++ rest).Perm (b.store.entries.map fun e => (e.2, e.1)) ∧
      (b.selectAccountsToTrim numAccounts).length = min numAccounts b.store.entries.length ∧
      ∀ x ∈ rest, ∀ y ∈ b.selectAccountsToTrim numAccounts, y.1 ≤ x.1 := by
  set entries := b.store.entries.map fun e => toLex (e.2, e.1) with hentries
  -- the first `numAccounts` entries fill the heap, and the others pass through it
  obtain ⟨ds, hperm, hlen, hkeeps⟩ := MaxHeap.foldl_replaceStep (fun x : Tokens ×ₗ α => (ofLex x).1)
    Prod.Lex.monotone_fst_ofLex (entries.drop numAccounts)
    (MaxHeap.keepsLeast_nil _ (entries.take numAccounts).reverse)
  have hsplit : ((entries.take numAccounts).reverse ++ [] ++ entries.drop numAccounts).Perm
      entries := by
    rw [List.append_nil]
    refine ((List.reverse_perm _).append_right _).trans ?_
    rw [List.take_append_drop]
  have hback : entries.map ofLex = b.store.entries.map fun e => (e.2, e.1) := by
    simp [hentries, Function.comp_def]
  rw [selectAccountsToTrim_eq]
  refine ⟨ds.map ofLex, ?_, ?_, fun x hx y hy => ?_⟩
  · rw [← List.map_append, ← hback]
    exact (hperm.trans hsplit).map ofLex
  · rw [List.length_map, hlen, List.length_reverse, List.length_take, hentries, List.length_map]
  · obtain ⟨d, hd, rfl⟩ := List.mem_map.mp hx
    obtain ⟨z, hz, rfl⟩ := List.mem_map.mp hy
    exact hkeeps d hd z hz

/-! ## Holdings -/

/-- The holdings the balances stand for. -/
noncomputable def holdings (b : Balances α) : Holdings α :=
  ⟨b.store.lookupFinsupp.mapRange Tokens.toNat Tokens.toNat_zero, b.tokenPool.toNat⟩

/-- The invariant of the balances: supply and pool make `u64::MAX` e8s, no account holds zero. -/
structure Valid (b : Balances α) : Prop where
  conserved : b.holdings.Conserved Tokens.MAX.toNat
  noZero : b.store.NoZero

@[simp]
theorem holdings_balances_apply (b : Balances α) (a : α) :
    b.holdings.balances a = (b.accountBalance a).toNat := by
  simp only [holdings, Finsupp.mapRange_apply, AList.lookupFinsupp_apply, accountBalance,
    BalancesStore.getBalance]
  rfl

omit [DecidableEq α] in
@[simp]
theorem holdings_pool (b : Balances α) : b.holdings.pool = b.tokenPool.toNat := rfl

/-- The supply and the pool of valid balances make `u64::MAX` e8s. -/
theorem Valid.supply_add_tokenPool {b : Balances α} (hb : b.Valid) :
    b.holdings.supply + b.tokenPool.toNat = 2 ^ 64 - 1 :=
  hb.conserved

theorem holdings_supply (b : Balances α) :
    b.holdings.supply = (b.store.entries.map fun e => e.2.toNat).sum := by
  rw [Holdings.supply, holdings, Finsupp.sum_mapRange_index (fun _ => rfl)]
  exact AList.sum_lookupFinsupp Tokens.toNat Tokens.toNat_zero

theorem holdings_setNonzero (b : Balances α) (a : α) (v : Tokens) :
    { b with store := b.store.setNonzero a v }.holdings =
      { b.holdings with balances := b.holdings.balances.update a v.toNat } := by
  simp only [holdings, AList.lookupFinsupp_setNonzero, Finsupp.mapRange_update]

theorem new_valid : (new : Balances α).Valid where
  conserved := by
    simp [Holdings.Conserved, Holdings.supply, holdings, new]
  noZero := AList.noZero_empty

/-- What a run of `add_payment` shows of the holdings. -/
noncomputable def paymentOutcome :
    Except String (Except BalanceError Unit × Balances α) → Option (Except ℕ (Holdings α))
  | .error _ => none
  | .ok (.error (.insufficientFunds balance), _) => some (.error balance.toNat)
  | .ok (.ok (), b) => some (.ok b.holdings)

end Balances

namespace Operation

/-- What an operation does to the holdings; `none` where the code panics. -/
noncomputable def apply (op : Operation α) (s : Holdings α) : Option (Except ℕ (Holdings α)) :=
  match op with
  | .transfer from_ to_ amount fee => some (s.transfer from_ to_ amount.toNat fee.toNat)
  | .burn from_ amount => some (s.burn from_ amount.toNat)
  | .mint to_ amount => (s.mint to_ amount.toNat).map .ok

end Operation

end IC.LedgerCanister
