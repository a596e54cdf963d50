import InternetComputer.Lib.Rust
import Mathlib

/-!
# Tokens

The ledger's amounts, `tokens.rs`: a `u64` count of e8s with checked addition and subtraction,
whose assigning forms panic on overflow.

* `Tokens`, `Tokens.MAX`, `Tokens.ZERO`, the order of the count;
* `Tokens.add`, `Tokens.sub` (`Result`), `Tokens.addAssign`, `Tokens.subAssign` (panicking);
* `Tokens.toNat` and the value lemmas `add_eq_ok_iff`, `sub_eq_ok_iff`, `addAssign_eq_ok_iff`.
-/

namespace IC.LedgerCanister

/-- `Tokens`: a number of 10^-8 tokens. -/
structure Tokens where
  e8s : UInt64
  deriving DecidableEq, Repr

namespace Tokens

/-- The count as a natural number. -/
def toNat (t : Tokens) : ℕ := t.e8s.toNat

/-- `Tokens::MAX`: `u64::MAX` e8s. -/
def MAX : Tokens := ⟨0xFFFFFFFFFFFFFFFF⟩

/-- `Tokens::ZERO`. -/
def ZERO : Tokens := ⟨0⟩

instance : Zero Tokens := ⟨ZERO⟩

theorem toNat_injective : Function.Injective toNat := fun a b h => by
  cases a
  cases b
  exact congrArg Tokens.mk (UInt64.toNat_inj.mp h)

/-- The derived `Ord` of `Tokens` compares the counts. -/
instance : LinearOrder Tokens := LinearOrder.lift' toNat toNat_injective

@[simp]
theorem toNat_mk (e : UInt64) : (⟨e⟩ : Tokens).toNat = e.toNat := rfl

theorem toNat_lt (t : Tokens) : t.toNat < 2 ^ 64 := UInt64.toNat_lt t.e8s

@[simp]
theorem toNat_zero : (0 : Tokens).toNat = 0 := rfl

@[simp]
theorem toNat_ZERO : ZERO.toNat = 0 := rfl

@[simp]
theorem toNat_MAX : MAX.toNat = 2 ^ 64 - 1 := rfl

theorem lt_iff_toNat_lt {a b : Tokens} : a < b ↔ a.toNat < b.toNat := Iff.rfl

theorem eq_zero_iff {t : Tokens} : t = 0 ↔ t.toNat = 0 := by
  rw [← toNat_zero, toNat_injective.eq_iff]

/-- `impl Add for Tokens`: the sum, or an error when the count overflows. -/
def add (a b : Tokens) : Except String Tokens :=
  let x := a.e8s
  let y := b.e8s
  match Rust.checkedAdd x y with
  | some e8s => .ok ⟨e8s⟩
  | none => .error s!"Add Token {x} + {y} failed because the underlying u64 overflowed"

/-- `impl Sub for Tokens`: the difference, or an error when the count underflows. -/
def sub (a b : Tokens) : Except String Tokens :=
  let x := a.e8s
  let y := b.e8s
  match Rust.checkedSub x y with
  | some e8s => .ok ⟨e8s⟩
  | none => .error s!"Subtracting Token {x} - {y} failed because the underlying u64 underflowed"

/-- `impl AddAssign for Tokens`: panics where `add` fails. -/
def addAssign (a b : Tokens) : Except String Tokens := Rust.expectOk (a.add b) "+= panicked"

/-- `impl SubAssign for Tokens`: panics where `sub` fails. -/
def subAssign (a b : Tokens) : Except String Tokens := Rust.expectOk (a.sub b) "-= panicked"

theorem add_eq_ok_iff {a b c : Tokens} :
    a.add b = .ok c ↔ a.toNat + b.toNat < 2 ^ 64 ∧ c.toNat = a.toNat + b.toNat := by
  unfold add
  dsimp only
  cases h : Rust.checkedAdd a.e8s b.e8s with
  | none =>
    have hle := Rust.checkedAdd_eq_none_iff.mp h
    simp only [reduceCtorEq, false_iff, not_and, toNat]
    omega
  | some e =>
    obtain ⟨hlt, he⟩ := Rust.checkedAdd_eq_some_iff.mp h
    simp only [Except.ok.injEq, toNat]
    constructor
    · rintro rfl
      exact ⟨hlt, he⟩
    · rintro ⟨-, hc⟩
      exact toNat_injective (by rw [toNat_mk, he]; exact hc.symm)

theorem add_eq_error_iff {a b : Tokens} :
    (∃ e, a.add b = .error e) ↔ 2 ^ 64 ≤ a.toNat + b.toNat := by
  unfold add
  dsimp only
  cases h : Rust.checkedAdd a.e8s b.e8s with
  | none => simpa [toNat] using Rust.checkedAdd_eq_none_iff.mp h
  | some e =>
    have hlt := (Rust.checkedAdd_eq_some_iff.mp h).1
    simp only [reduceCtorEq, exists_false, false_iff, not_le, toNat]
    exact hlt

theorem sub_eq_ok_iff {a b c : Tokens} :
    a.sub b = .ok c ↔ b.toNat ≤ a.toNat ∧ c.toNat = a.toNat - b.toNat := by
  unfold sub
  dsimp only
  cases h : Rust.checkedSub a.e8s b.e8s with
  | none =>
    have hlt := Rust.checkedSub_eq_none_iff.mp h
    simp only [reduceCtorEq, false_iff, not_and, toNat]
    omega
  | some e =>
    obtain ⟨hle, he⟩ := Rust.checkedSub_eq_some_iff.mp h
    simp only [Except.ok.injEq, toNat]
    constructor
    · rintro rfl
      exact ⟨hle, he⟩
    · rintro ⟨-, hc⟩
      exact toNat_injective (by rw [toNat_mk, he]; exact hc.symm)

theorem sub_eq_error_iff {a b : Tokens} :
    (∃ e, a.sub b = .error e) ↔ a.toNat < b.toNat := by
  unfold sub
  dsimp only
  cases h : Rust.checkedSub a.e8s b.e8s with
  | none => simpa [toNat] using Rust.checkedSub_eq_none_iff.mp h
  | some e =>
    have hle := (Rust.checkedSub_eq_some_iff.mp h).1
    simp only [reduceCtorEq, exists_false, false_iff, not_lt, toNat]
    exact hle

theorem addAssign_eq_ok_iff {a b c : Tokens} :
    a.addAssign b = .ok c ↔ a.toNat + b.toNat < 2 ^ 64 ∧ c.toNat = a.toNat + b.toNat := by
  rw [addAssign, Rust.expectOk_eq_ok, add_eq_ok_iff]

theorem exists_add_eq_ok {a b : Tokens} (h : a.toNat + b.toNat < 2 ^ 64) :
    ∃ c, a.add b = .ok c ∧ c.toNat = a.toNat + b.toNat := by
  cases hadd : a.add b with
  | error e => exact absurd (add_eq_error_iff.mp ⟨e, hadd⟩) (Nat.not_le.mpr h)
  | ok c => exact ⟨c, rfl, (add_eq_ok_iff.mp hadd).2⟩

theorem exists_sub_eq_ok {a b : Tokens} (h : b.toNat ≤ a.toNat) :
    ∃ c, a.sub b = .ok c ∧ c.toNat = a.toNat - b.toNat := by
  cases hsub : a.sub b with
  | error e => exact absurd (sub_eq_error_iff.mp ⟨e, hsub⟩) (Nat.not_lt.mpr h)
  | ok c => exact ⟨c, rfl, (sub_eq_ok_iff.mp hsub).2⟩

end Tokens

end IC.LedgerCanister
