import Mathlib

/-!
# Byte strings

Bytes are `UInt8`, byte strings `List UInt8`, ordered as `[u8]` is in Rust. Unsigned integers
are written as big-endian or little-endian bytes, or in LEB128.

* **`ofBeBytes_toBeBytes`**, **`toBeBytes_lt_toBeBytes`**: below `256 ^ w`, big-endian bytes of
  width `w` are ordered as the numbers are;
* `toLeBytes`, `ofLeBytes`; **`ofLeb128_leb128`**, and what makes LEB128 the shortest encoding;
* `List.append_lt_append_right_iff`, `List.append_lt_append_iff_of_length_eq`: the order of byte
  strings under a common suffix and of equal-length prefixes.
-/

instance UInt8.instLinearOrder : LinearOrder UInt8 where
  le_refl := UInt8.le_refl
  le_trans _ _ _ := UInt8.le_trans
  le_antisymm _ _ := UInt8.le_antisymm
  le_total := UInt8.le_total
  lt_iff_le_not_ge a b := by
    rw [UInt8.lt_iff_toNat_lt, UInt8.le_iff_toNat_le, UInt8.le_iff_toNat_le]
    omega
  toDecidableLE := inferInstance
  toDecidableLT := inferInstance
  toDecidableEq := inferInstance

namespace List

variable {α : Type} [LinearOrder α]

theorem append_lt_append_right_iff :
    ∀ {l₁ l₂ : List α} (s : List α), l₁.length = l₂.length → (l₁ ++ s < l₂ ++ s ↔ l₁ < l₂)
  | [], [], s, _ => by simp
  | a :: l₁, b :: l₂, s, h => by
    simp only [List.cons_append, List.cons_lt_cons_iff,
      append_lt_append_right_iff s (Nat.succ.inj h)]

theorem append_lt_append_iff_of_length_eq : ∀ {p₁ p₂ : List α} (s₁ s₂ : List α),
    p₁.length = p₂.length → (p₁ ++ s₁ < p₂ ++ s₂ ↔ p₁ < p₂ ∨ (p₁ = p₂ ∧ s₁ < s₂))
  | [], [], s₁, s₂, _ => by simp
  | a :: p₁, b :: p₂, s₁, s₂, h => by
    rw [cons_append, cons_append, cons_lt_cons_iff, cons_lt_cons_iff, cons.injEq,
      append_lt_append_iff_of_length_eq s₁ s₂ (Nat.succ.inj h)]
    constructor
    · rintro (hab | ⟨rfl, hp | ⟨rfl, hs⟩⟩)
      · exact Or.inl (Or.inl hab)
      · exact Or.inl (Or.inr ⟨rfl, hp⟩)
      · exact Or.inr ⟨⟨rfl, rfl⟩, hs⟩
    · rintro ((hab | ⟨rfl, hp⟩) | ⟨⟨rfl, rfl⟩, hs⟩)
      · exact Or.inl hab
      · exact Or.inr ⟨rfl, Or.inl hp⟩
      · exact Or.inr ⟨rfl, Or.inr ⟨rfl, hs⟩⟩

end List

namespace Bytes

/-! ## Big-endian bytes -/

/-- The `w` big-endian bytes of `n`: `to_be_bytes` of a `w`-byte unsigned integer. -/
def toBeBytes : ℕ → ℕ → List UInt8
  | 0, _ => []
  | w + 1, n => UInt8.ofNat (n / 256 ^ w) :: toBeBytes w (n % 256 ^ w)

/-- `from_be_bytes`: the number whose big-endian bytes these are. -/
def ofBeBytes : List UInt8 → ℕ
  | [] => 0
  | b :: bs => b.toNat * 256 ^ bs.length + ofBeBytes bs

@[simp]
theorem length_toBeBytes (w n : ℕ) : (toBeBytes w n).length = w := by
  induction w generalizing n with
  | zero => rfl
  | succ w ih => simp [toBeBytes, ih]

theorem ofBeBytes_lt : ∀ bs : List UInt8, ofBeBytes bs < 256 ^ bs.length
  | [] => by simp [ofBeBytes]
  | b :: bs => by
    have hb : b.toNat < 256 := b.toNat_lt
    have hbs := ofBeBytes_lt bs
    have : b.toNat * 256 ^ bs.length + ofBeBytes bs < (b.toNat + 1) * 256 ^ bs.length := by
      rw [Nat.succ_mul]
      omega
    calc ofBeBytes (b :: bs) < (b.toNat + 1) * 256 ^ bs.length := this
      _ ≤ 256 * 256 ^ bs.length := Nat.mul_le_mul_right _ hb
      _ = 256 ^ (b :: bs).length := by simp [pow_succ, Nat.mul_comm]

theorem toNat_ofNat_div {n w : ℕ} (h : n < 256 ^ (w + 1)) :
    (UInt8.ofNat (n / 256 ^ w)).toNat = n / 256 ^ w := by
  have hq : n / 256 ^ w < 256 := by
    rw [Nat.div_lt_iff_lt_mul (Nat.pow_pos (by decide : 0 < 256))]
    simpa [pow_succ, Nat.mul_comm] using h
  simp [Nat.mod_eq_of_lt hq]

theorem ofBeBytes_toBeBytes : ∀ {w n : ℕ}, n < 256 ^ w → ofBeBytes (toBeBytes w n) = n
  | 0, n, h => by simp_all [toBeBytes, ofBeBytes]
  | w + 1, n, h => by
    have hmod : n % 256 ^ w < 256 ^ w := Nat.mod_lt _ (Nat.pow_pos (by decide : 0 < 256))
    simp only [toBeBytes, ofBeBytes, length_toBeBytes, toNat_ofNat_div h,
      ofBeBytes_toBeBytes hmod]
    exact Nat.div_add_mod' n (256 ^ w)

theorem toBeBytes_ofBeBytes : ∀ bs : List UInt8, toBeBytes bs.length (ofBeBytes bs) = bs
  | [] => rfl
  | b :: bs => by
    have hlt := ofBeBytes_lt bs
    have hpos : 0 < 256 ^ bs.length := Nat.pow_pos (by decide : 0 < 256)
    have hdiv : (b.toNat * 256 ^ bs.length + ofBeBytes bs) / 256 ^ bs.length = b.toNat := by
      rw [Nat.add_comm, Nat.add_mul_div_right _ _ hpos, Nat.div_eq_of_lt hlt, Nat.zero_add]
    have hmod : (b.toNat * 256 ^ bs.length + ofBeBytes bs) % 256 ^ bs.length = ofBeBytes bs := by
      rw [Nat.add_comm, Nat.add_mul_mod_self_right, Nat.mod_eq_of_lt hlt]
    simp only [List.length_cons, toBeBytes, ofBeBytes, hdiv, hmod, toBeBytes_ofBeBytes bs,
      UInt8.ofNat_toNat]

theorem toBeBytes_lt_toBeBytes : ∀ {w n m : ℕ}, n < m → m < 256 ^ w →
    toBeBytes w n < toBeBytes w m
  | 0, n, m, hnm, hm => by simp at hm; omega
  | w + 1, n, m, hnm, hm => by
    have hn : n < 256 ^ (w + 1) := lt_trans hnm hm
    have hpos : 0 < 256 ^ w := Nat.pow_pos (by decide : 0 < 256)
    simp only [toBeBytes]
    -- the high bytes decide, unless they are equal and the low bytes do
    rcases Nat.lt_or_ge (n / 256 ^ w) (m / 256 ^ w) with hq | hq
    · apply List.Lex.rel
      rw [UInt8.lt_iff_toNat_lt, toNat_ofNat_div hn, toNat_ofNat_div hm]
      exact hq
    · have heq : n / 256 ^ w = m / 256 ^ w :=
        le_antisymm (Nat.div_le_div_right hnm.le) hq
      have hr : n % 256 ^ w < m % 256 ^ w := by
        have := Nat.div_add_mod n (256 ^ w)
        have := Nat.div_add_mod m (256 ^ w)
        rw [heq] at *
        omega
      rw [heq]
      exact List.Lex.cons (toBeBytes_lt_toBeBytes hr (Nat.mod_lt _ hpos))

theorem ofBeBytes_inj {bs cs : List UInt8} (h : bs.length = cs.length) :
    ofBeBytes bs = ofBeBytes cs ↔ bs = cs := by
  constructor
  · intro heq
    rw [← toBeBytes_ofBeBytes bs, ← toBeBytes_ofBeBytes cs, heq, h]
  · rintro rfl
    rfl

theorem ofBeBytes_lt_ofBeBytes_iff {bs cs : List UInt8} (h : bs.length = cs.length) :
    ofBeBytes bs < ofBeBytes cs ↔ bs < cs := by
  have hmono : ∀ {bs cs : List UInt8}, bs.length = cs.length →
      ofBeBytes bs < ofBeBytes cs → bs < cs := by
    intro bs cs h hlt
    have := toBeBytes_lt_toBeBytes hlt (h ▸ ofBeBytes_lt cs)
    rwa [toBeBytes_ofBeBytes, h, toBeBytes_ofBeBytes] at this
  refine ⟨hmono h, fun hlt => ?_⟩
  rcases lt_trichotomy (ofBeBytes bs) (ofBeBytes cs) with h' | h' | h'
  · exact h'
  · exact absurd ((ofBeBytes_inj h).mp h' ▸ hlt) (lt_irrefl _)
  · exact absurd (hmono h.symm h') (not_lt.mpr hlt.le)

/-! ## Little-endian bytes -/

/-- The `w` little-endian bytes of `n`: `to_le_bytes` of a `w`-byte unsigned integer. -/
def toLeBytes (w n : ℕ) : List UInt8 := (toBeBytes w n).reverse

/-- `from_le_bytes`. -/
def ofLeBytes (bs : List UInt8) : ℕ := ofBeBytes bs.reverse

@[simp]
theorem length_toLeBytes (w n : ℕ) : (toLeBytes w n).length = w := by
  rw [toLeBytes, List.length_reverse, length_toBeBytes]

theorem ofLeBytes_toLeBytes {w n : ℕ} (h : n < 256 ^ w) : ofLeBytes (toLeBytes w n) = n := by
  rw [ofLeBytes, toLeBytes, List.reverse_reverse, ofBeBytes_toBeBytes h]

/-! ## LEB128 -/

/-- `leb128::write::unsigned`: seven bits a byte, low bits first. -/
def leb128 (n : ℕ) : List UInt8 :=
  if n < 128 then [UInt8.ofNat n]
  else UInt8.ofNat (n % 128 + 128) :: leb128 (n / 128)
termination_by n
decreasing_by omega

/-- Unsigned LEB128 decoding: seven bits a byte, low bits first. -/
def ofLeb128 : List UInt8 → ℕ
  | [] => 0
  | b :: bs => b.toNat % 128 + 128 * ofLeb128 bs

theorem leb128_of_lt {n : ℕ} (h : n < 128) : leb128 n = [UInt8.ofNat n] := by
  rw [leb128, if_pos h]

theorem leb128_of_le {n : ℕ} (h : 128 ≤ n) :
    leb128 n = UInt8.ofNat (n % 128 + 128) :: leb128 (n / 128) := by
  rw [leb128, if_neg (by omega)]

theorem toNat_ofNat_of_lt {m : ℕ} (h : m < 256) : (UInt8.ofNat m).toNat = m := by
  simp
  omega

/-- **LEB128 decodes back.** -/
theorem ofLeb128_leb128 (n : ℕ) : ofLeb128 (leb128 n) = n := by
  induction n using Nat.strong_induction_on with
  | _ n ih =>
    by_cases h : n < 128
    · rw [leb128_of_lt h, ofLeb128, ofLeb128, toNat_ofNat_of_lt (by omega)]
      omega
    · rw [leb128_of_le (by omega), ofLeb128, ih (n / 128) (by omega),
        toNat_ofNat_of_lt (by omega)]
      omega

theorem length_leb128_le {k : ℕ} : ∀ {n : ℕ}, n < 128 ^ (k + 1) → (leb128 n).length ≤ k + 1 := by
  induction k with
  | zero =>
    intro n h
    rw [leb128_of_lt (by simpa using h)]
    simp
  | succ k ih =>
    intro n h
    by_cases hn : n < 128
    · rw [leb128_of_lt hn]
      simp
    · have hdiv : n / 128 < 128 ^ (k + 1) := by
        rw [Nat.div_lt_iff_lt_mul (by decide), ← pow_succ]
        exact h
      rw [leb128_of_le (by omega), List.length_cons]
      have := ih hdiv
      omega

theorem leb128_ne_nil (n : ℕ) : leb128 n ≠ [] := by
  by_cases h : n < 128
  · rw [leb128_of_lt h]
    exact List.cons_ne_nil _ _
  · rw [leb128_of_le (by omega)]
    exact List.cons_ne_nil _ _

theorem leb128_dropLast_high (n : ℕ) : ∀ b ∈ (leb128 n).dropLast, 128 ≤ b.toNat := by
  induction n using Nat.strong_induction_on with
  | _ n ih =>
    by_cases h : n < 128
    · rw [leb128_of_lt h]
      simp
    · rw [leb128_of_le (by omega), List.dropLast_cons_of_ne_nil (leb128_ne_nil _)]
      intro b hb
      rcases List.mem_cons.mp hb with rfl | hb
      · rw [toNat_ofNat_of_lt (by omega)]
        omega
      · exact ih (n / 128) (by omega) b hb

theorem leb128_getLast? (n : ℕ) :
    ∃ b, (leb128 n).getLast? = some b ∧ b.toNat < 128 ∧ (b.toNat = 0 → n = 0) := by
  induction n using Nat.strong_induction_on with
  | _ n ih =>
    by_cases h : n < 128
    · rw [leb128_of_lt h]
      refine ⟨UInt8.ofNat n, rfl, ?_, ?_⟩ <;> rw [toNat_ofNat_of_lt (by omega)] <;> omega
    · obtain ⟨b, hb, hlt, hzero⟩ := ih (n / 128) (by omega)
      rw [leb128_of_le (by omega), List.getLast?_cons, hb]
      exact ⟨b, rfl, hlt, fun h0 => absurd (hzero h0) (by omega)⟩

end Bytes
