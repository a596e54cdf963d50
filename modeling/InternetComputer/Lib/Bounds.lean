import Mathlib

/-!
# Nearest elements below and above a point

For a set `s` and a point `k`, `IsMaxBelow s k o` says that `o` is the largest element of `s` at
most `k`, or `none` when no element of `s` is at most `k`; `IsMinAbove s k o` says the same of the
smallest element at least `k`. `IsSmallest s o` and `IsLargest s o` say that `o` is the least or
the greatest element of `s`, or `none` when `s` is empty. Over an antisymmetric order each names at
most one answer, the classical `maxBelow s k` and `minAbove s k` (`IsMaxBelow.eq_maxBelow`).

A search that splits a set into a lower part `l` and an upper part `u` answers from one part and
falls back on the other: the lemmas below say when the answer of a part, or the extreme element of
the other part, is the answer for `l ∪ u`.
-/

namespace Bounds

variable {α : Type} [LE α]

/-- `o` is the largest element of `s` at most `k`, or `none` when there is none. -/
def IsMaxBelow (s : Set α) (k : α) : Option α → Prop
  | none => ∀ y ∈ s, ¬y ≤ k
  | some x => x ∈ s ∧ x ≤ k ∧ ∀ y ∈ s, y ≤ k → y ≤ x

/-- `o` is the smallest element of `s` at least `k`, or `none` when there is none. -/
def IsMinAbove (s : Set α) (k : α) : Option α → Prop
  | none => ∀ y ∈ s, ¬k ≤ y
  | some x => x ∈ s ∧ k ≤ x ∧ ∀ y ∈ s, k ≤ y → x ≤ y

/-- `o` is the least element of `s`, or `none` when `s` is empty. -/
def IsSmallest (s : Set α) : Option α → Prop
  | none => ∀ y, y ∉ s
  | some x => x ∈ s ∧ ∀ y ∈ s, x ≤ y

/-- `o` is the greatest element of `s`, or `none` when `s` is empty. -/
def IsLargest (s : Set α) : Option α → Prop
  | none => ∀ y, y ∉ s
  | some x => x ∈ s ∧ ∀ y ∈ s, y ≤ x

open Classical in
/-- The largest element of `s` at most `k`. -/
noncomputable def maxBelow (s : Set α) (k : α) : Option α :=
  if h : ∃ x, IsMaxBelow s k (some x) then some h.choose else none

open Classical in
/-- The smallest element of `s` at least `k`. -/
noncomputable def minAbove (s : Set α) (k : α) : Option α :=
  if h : ∃ x, IsMinAbove s k (some x) then some h.choose else none

variable {s l u : Set α} {k : α}

/-! ## Uniqueness -/

section Antisymm

variable [Std.Antisymm (α := α) (· ≤ ·)]

theorem IsMaxBelow.eq_maxBelow {o : Option α} (h : IsMaxBelow s k o) : o = maxBelow s k := by
  cases o with
  | none =>
    have hn : ¬∃ x, IsMaxBelow s k (some x) := fun ⟨x, hx⟩ => h x hx.1 hx.2.1
    rw [maxBelow, dif_neg hn]
  | some x =>
    have he : ∃ x, IsMaxBelow s k (some x) := ⟨x, h⟩
    have hc := he.choose_spec
    rw [maxBelow, dif_pos he]
    exact congrArg some (Std.Antisymm.antisymm _ _ (hc.2.2 x h.1 h.2.1) (h.2.2 _ hc.1 hc.2.1))

theorem IsMinAbove.eq_minAbove {o : Option α} (h : IsMinAbove s k o) : o = minAbove s k := by
  cases o with
  | none =>
    have hn : ¬∃ x, IsMinAbove s k (some x) := fun ⟨x, hx⟩ => h x hx.1 hx.2.1
    rw [minAbove, dif_neg hn]
  | some x =>
    have he : ∃ x, IsMinAbove s k (some x) := ⟨x, h⟩
    have hc := he.choose_spec
    rw [minAbove, dif_pos he]
    exact congrArg some (Std.Antisymm.antisymm _ _ (h.2.2 _ hc.1 hc.2.1) (hc.2.2 x h.1 h.2.1))

end Antisymm

/-! ## Splitting a set into a lower and an upper part -/

theorem IsMaxBelow.union_right {o : Option α} (h : IsMaxBelow l k o) (hu : ∀ y ∈ u, ¬y ≤ k) :
    IsMaxBelow (l ∪ u) k o := by
  cases o with
  | none => exact fun y hy => hy.elim (h y) (hu y)
  | some x =>
    refine ⟨Or.inl h.1, h.2.1, fun y hy hyk => ?_⟩
    rcases hy with hy | hy
    · exact h.2.2 y hy hyk
    · exact absurd hyk (hu y hy)

theorem IsMaxBelow.union_left {o : Option α} (h : IsMaxBelow u k o) (hl : ∀ y ∈ l, ¬y ≤ k) :
    IsMaxBelow (l ∪ u) k o := by
  rw [Set.union_comm]
  exact h.union_right hl

theorem IsMinAbove.union_left {o : Option α} (h : IsMinAbove u k o) (hl : ∀ y ∈ l, ¬k ≤ y) :
    IsMinAbove (l ∪ u) k o := by
  cases o with
  | none => exact fun y hy => hy.elim (hl y) (h y)
  | some x =>
    refine ⟨Or.inr h.1, h.2.1, fun y hy hky => ?_⟩
    rcases hy with hy | hy
    · exact absurd hky (hl y hy)
    · exact h.2.2 y hy hky

theorem IsMinAbove.union_right {o : Option α} (h : IsMinAbove l k o) (hu : ∀ y ∈ u, ¬k ≤ y) :
    IsMinAbove (l ∪ u) k o := by
  rw [Set.union_comm]
  exact h.union_left hu

theorem IsMinAbove.union_of_lower {x : α} (h : IsMinAbove l k (some x))
    (hlu : ∀ z ∈ l, ∀ y ∈ u, z ≤ y) : IsMinAbove (l ∪ u) k (some x) := by
  refine ⟨Or.inl h.1, h.2.1, fun y hy hky => ?_⟩
  rcases hy with hy | hy
  · exact h.2.2 y hy hky
  · exact hlu x h.1 y hy

theorem IsMaxBelow.union_of_upper {x : α} (h : IsMaxBelow u k (some x))
    (hlu : ∀ z ∈ l, ∀ y ∈ u, z ≤ y) : IsMaxBelow (l ∪ u) k (some x) := by
  refine ⟨Or.inr h.1, h.2.1, fun y hy hyk => ?_⟩
  rcases hy with hy | hy
  · exact hlu y hy x h.1
  · exact h.2.2 y hy hyk

theorem IsSmallest.isMinAbove_union {o : Option α} (h : IsSmallest u o) (hl : ∀ y ∈ l, ¬k ≤ y)
    (hu : ∀ y ∈ u, k ≤ y) : IsMinAbove (l ∪ u) k o := by
  cases o with
  | none => exact fun y hy => hy.elim (hl y) (fun hyu => absurd hyu (h y))
  | some x =>
    refine ⟨Or.inr h.1, hu x h.1, fun y hy hky => ?_⟩
    rcases hy with hy | hy
    · exact absurd hky (hl y hy)
    · exact h.2 y hy

theorem IsLargest.isMaxBelow_union {o : Option α} (h : IsLargest l o) (hu : ∀ y ∈ u, ¬y ≤ k)
    (hl : ∀ y ∈ l, y ≤ k) : IsMaxBelow (l ∪ u) k o := by
  cases o with
  | none => exact fun y hy => hy.elim (fun hyl => absurd hyl (h y)) (hu y)
  | some x =>
    refine ⟨Or.inl h.1, hl x h.1, fun y hy hyk => ?_⟩
    rcases hy with hy | hy
    · exact h.2 y hy
    · exact absurd hyk (hu y hy)

theorem IsSmallest.isMinAbove {o : Option α} (h : IsSmallest s o) (hs : ∀ y ∈ s, k ≤ y) :
    IsMinAbove s k o := by
  cases o with
  | none => exact fun y hy => absurd hy (h y)
  | some x => exact ⟨h.1, hs x h.1, fun y hy _ => h.2 y hy⟩

theorem IsLargest.isMaxBelow {o : Option α} (h : IsLargest s o) (hs : ∀ y ∈ s, y ≤ k) :
    IsMaxBelow s k o := by
  cases o with
  | none => exact fun y hy => absurd hy (h y)
  | some x => exact ⟨h.1, hs x h.1, fun y hy _ => h.2 y hy⟩

theorem IsSmallest.union_of_lower {x : α} (h : IsSmallest l (some x))
    (hlu : ∀ z ∈ l, ∀ y ∈ u, z ≤ y) : IsSmallest (l ∪ u) (some x) := by
  refine ⟨Or.inl h.1, fun y hy => ?_⟩
  rcases hy with hy | hy
  · exact h.2 y hy
  · exact hlu x h.1 y hy

theorem IsLargest.union_of_upper {x : α} (h : IsLargest u (some x))
    (hlu : ∀ z ∈ l, ∀ y ∈ u, z ≤ y) : IsLargest (l ∪ u) (some x) := by
  refine ⟨Or.inr h.1, fun y hy => ?_⟩
  rcases hy with hy | hy
  · exact hlu y hy x h.1
  · exact h.2 y hy

end Bounds
