import Mathlib

/-!
# Bits of natural numbers

Two numbers agree from bit `c` up when `x >>> c = y >>> c`: every bit from `c` on is the same
(`shiftRight_eq_iff`). Clearing the bits below `c` is `(x >>> c) <<< c`, and the numbers so
cleared compare as their high parts do.

The highest bit at which two numbers differ, `IsHighestDiff x y d`, is what a big-endian
Patricia tree branches on: above it the numbers agree, at it they differ, so the one with a
`0` there is the smaller (`IsHighestDiff.lt_of_testBit`), and any `c` from which they do not
agree lies at or below it (`IsHighestDiff.le_of_shiftRight_ne`). It is the highest set bit of
their exclusive or (`isHighestDiff_of_xor`).
-/

namespace Bits

/-! ## Agreement from a bit up -/

theorem shiftRight_eq_iff {x y c : ℕ} :
    x >>> c = y >>> c ↔ ∀ i, c ≤ i → x.testBit i = y.testBit i := by
  constructor
  · intro h i hi
    have hbit := congrArg (fun z => z.testBit (i - c)) h
    simp only [Nat.testBit_shiftRight, Nat.add_sub_cancel' hi] at hbit
    exact hbit
  · intro h
    apply Nat.eq_of_testBit_eq
    intro i
    rw [Nat.testBit_shiftRight, Nat.testBit_shiftRight]
    exact h (c + i) (Nat.le_add_right c i)

theorem testBit_eq_of_shiftRight_eq {x y c i : ℕ} (h : x >>> c = y >>> c) (hi : c ≤ i) :
    x.testBit i = y.testBit i :=
  shiftRight_eq_iff.mp h i hi

theorem shiftRight_eq_of_le {x y c d : ℕ} (hcd : c ≤ d) (h : x >>> c = y >>> c) :
    x >>> d = y >>> d :=
  shiftRight_eq_iff.mpr fun _ hi => testBit_eq_of_shiftRight_eq h (Nat.le_trans hcd hi)

/-! ## Clearing the low bits -/

theorem testBit_shiftRight_shiftLeft (x c i : ℕ) :
    ((x >>> c) <<< c).testBit i = (decide (c ≤ i) && x.testBit i) := by
  rw [Nat.testBit_shiftLeft, Nat.testBit_shiftRight]
  by_cases hi : c ≤ i
  · rw [Nat.add_sub_cancel' hi]
  · simp [hi]

theorem shiftRight_shiftLeft_inj {x y c : ℕ} :
    (x >>> c) <<< c = (y >>> c) <<< c ↔ x >>> c = y >>> c := by
  constructor
  · intro h
    have := congrArg (· >>> c) h
    simpa only [Nat.shiftLeft_shiftRight] using this
  · intro h
    rw [h]

theorem shiftRight_shiftLeft_lt_iff {x y c : ℕ} :
    (x >>> c) <<< c < (y >>> c) <<< c ↔ x >>> c < y >>> c := by
  rw [Nat.shiftLeft_eq, Nat.shiftLeft_eq]
  exact Nat.mul_lt_mul_right (Nat.two_pow_pos c)

/-! ## Order -/

theorem lt_of_shiftRight_lt {x y c : ℕ} (h : x >>> c < y >>> c) : x < y := by
  rw [Nat.shiftRight_eq_div_pow, Nat.shiftRight_eq_div_pow] at h
  exact Nat.lt_of_div_lt_div h

theorem lt_of_testBit_of_shiftRight_eq {x y d : ℕ} (h : x >>> (d + 1) = y >>> (d + 1))
    (hx : x.testBit d = false) (hy : y.testBit d = true) : x < y :=
  Nat.lt_of_testBit d hx hy fun _ hj => testBit_eq_of_shiftRight_eq h hj

/-! ## The highest bit at which two numbers differ -/

/-- `d` is the highest bit at which `x` and `y` differ. -/
structure IsHighestDiff (x y d : ℕ) : Prop where
  shiftRight_eq : x >>> (d + 1) = y >>> (d + 1)
  testBit_ne : x.testBit d ≠ y.testBit d

namespace IsHighestDiff

variable {x y d : ℕ}

theorem symm (h : IsHighestDiff x y d) : IsHighestDiff y x d :=
  ⟨h.shiftRight_eq.symm, fun he => h.testBit_ne he.symm⟩

theorem le_of_shiftRight_ne (h : IsHighestDiff x y d) {c : ℕ} (hc : x >>> c ≠ y >>> c) : c ≤ d := by
  apply Nat.le_of_not_lt
  intro hlt
  exact hc (shiftRight_eq_of_le hlt h.shiftRight_eq)

theorem lt_of_testBit (h : IsHighestDiff x y d) (hx : x.testBit d = false) : x < y := by
  have hy : y.testBit d = true := by
    cases hyd : y.testBit d
    · exact absurd (hx.trans hyd.symm) h.testBit_ne
    · rfl
  exact lt_of_testBit_of_shiftRight_eq h.shiftRight_eq hx hy

theorem testBit_ne_of_shiftRight_eq (h : IsHighestDiff x y d) {z w : ℕ}
    (hz : z >>> d = x >>> d) (hw : w >>> d = y >>> d) : z.testBit d ≠ w.testBit d := by
  rw [testBit_eq_of_shiftRight_eq hz (Nat.le_refl d), testBit_eq_of_shiftRight_eq hw (Nat.le_refl d)]
  exact h.testBit_ne

end IsHighestDiff

theorem isHighestDiff_of_xor {x y d : ℕ} (hle : 2 ^ d ≤ x ^^^ y) (hlt : x ^^^ y < 2 ^ (d + 1)) :
    IsHighestDiff x y d := by
  constructor
  · apply shiftRight_eq_iff.mpr
    intro i hi
    have hzero : (x ^^^ y).testBit i = false :=
      Nat.testBit_lt_two_pow (Nat.lt_of_lt_of_le hlt (Nat.pow_le_pow_right (by decide) hi))
    rw [Nat.testBit_xor] at hzero
    revert hzero
    cases x.testBit i <;> cases y.testBit i <;> decide
  · have hone := Nat.testBit_of_two_pow_le_and_two_pow_add_one_gt hle hlt
    rw [Nat.testBit_xor] at hone
    revert hone
    cases x.testBit d <;> cases y.testBit d <;> decide

end Bits
