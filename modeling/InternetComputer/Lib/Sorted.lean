import Mathlib

/-!
# Strictly increasing lists

Facts about strictly increasing lists over a linear order, of the kind a queue of indices needs:
removing a prefix below a bound is a filter, and filters by adjacent intervals append; and the
elements of a list at indices below its length, which appending does not change.

* `Pairwise.dropWhile_lt`: `dropWhile (· < t)` keeps the elements from `t` on;
* `Pairwise.filter_lt_append`: the elements below `a`, then those in `[a, b)`, are those below `b`;
* `all_zip_shift_lt_iff`: comparing each element with the next one, and the last with a bound,
  checks that the list followed by the bound is strictly increasing;
* `pairwise_lt_append_singleton`, `filterMap_getElem?_append`.
-/

namespace List

variable {β : Type} [LinearOrder β] {l : List β}

-- inside `Pairwise`, `decide` would name `List.Pairwise.decide`
theorem Pairwise.dropWhile_lt (h : l.Pairwise (· < ·)) (t : β) :
    l.dropWhile (fun x => Decidable.decide (x < t)) =
      l.filter fun x => Decidable.decide (t ≤ x) := by
  induction l with
  | nil => rfl
  | cons x xs ih =>
    rw [List.pairwise_cons] at h
    by_cases hx : x < t
    · rw [List.dropWhile_cons_of_pos (by simpa using hx), ih h.2,
        List.filter_cons_of_neg (by simpa using hx)]
    · rw [List.dropWhile_cons_of_neg (by simpa using hx),
        List.filter_cons_of_pos (by simpa using le_of_not_gt hx)]
      -- every later element is above `x`, hence from `t` on
      have hall : ∀ y ∈ xs, Decidable.decide (t ≤ y) = true := fun y hy =>
        decide_eq_true (le_of_lt (lt_of_le_of_lt (le_of_not_gt hx) (h.1 y hy)))
      rw [List.filter_eq_self.mpr hall]

theorem Pairwise.filter_lt_append (h : l.Pairwise (· < ·)) {a b : β} (hab : a ≤ b) :
    l.filter (fun x => Decidable.decide (x < a)) ++
        l.filter (fun x => Decidable.decide (a ≤ x ∧ x < b)) =
      l.filter fun x => Decidable.decide (x < b) := by
  induction l with
  | nil => rfl
  | cons x xs ih =>
    rw [List.pairwise_cons] at h
    by_cases hx : x < a
    · rw [List.filter_cons_of_pos (by simpa using hx),
        List.filter_cons_of_neg (by simp [not_le_of_gt hx]),
        List.filter_cons_of_pos (by simpa using lt_of_lt_of_le hx hab), List.cons_append, ih h.2]
    · -- `x` and every later element are from `a` on
      have hnone : xs.filter (fun y => Decidable.decide (y < a)) = [] :=
        List.filter_eq_nil_iff.mpr fun y hy => by
          simpa using le_of_lt (lt_of_le_of_lt (le_of_not_gt hx) (h.1 y hy))
      have hrest : xs.filter (fun y => Decidable.decide (a ≤ y ∧ y < b)) =
          xs.filter fun y => Decidable.decide (y < b) :=
        List.filter_congr fun y hy => by
          simp [le_of_lt (lt_of_le_of_lt (le_of_not_gt hx) (h.1 y hy))]
      rw [List.filter_cons_of_neg (by simpa using hx), hnone, List.nil_append]
      by_cases hxb : x < b
      · rw [List.filter_cons_of_pos (by simpa using ⟨le_of_not_gt hx, hxb⟩),
          List.filter_cons_of_pos (by simpa using hxb), hrest]
      · rw [List.filter_cons_of_neg (by simp [hxb]), List.filter_cons_of_neg (by simpa using hxb),
          hrest]

theorem all_zip_shift_lt_iff (e : β) :
    ∀ l : List β, (l.zip (l.drop 1 ++ [e])).all (fun p => decide (p.1 < p.2)) = true ↔
      (l ++ [e]).Pairwise (· < ·)
  | [] => by simp
  | [x] => by simp
  | x :: y :: ys => by
    have ih := all_zip_shift_lt_iff e (y :: ys)
    show (decide (x < y) && ((y :: ys).zip ((y :: ys).drop 1 ++ [e])).all _) = true ↔ _
    rw [Bool.and_eq_true, ih, decide_eq_true_iff, List.cons_append (a := x), List.pairwise_cons]
    constructor
    · -- `x` is below `y`, hence below every later element
      rintro ⟨hxy, hrest⟩
      refine ⟨fun z hz => ?_, hrest⟩
      rw [List.cons_append, List.pairwise_cons] at hrest
      rw [List.cons_append] at hz
      rcases List.mem_cons.mp hz with rfl | hz
      · exact hxy
      · exact lt_trans hxy (hrest.1 z hz)
    · rintro ⟨hx, hrest⟩
      exact ⟨hx y (by simp), hrest⟩

theorem pairwise_lt_append_singleton {e : β} :
    (l ++ [e]).Pairwise (· < ·) ↔ l.Pairwise (· < ·) ∧ ∀ x ∈ l, x < e := by
  simp [List.pairwise_append]

theorem filterMap_getElem?_append {α : Type} {xs ys : List α} {is : List ℕ}
    (h : ∀ i ∈ is, i < xs.length) :
    is.filterMap (fun i => (xs ++ ys)[i]?) = is.filterMap fun i => xs[i]? :=
  List.filterMap_congr fun i hi => List.getElem?_append_left (h i hi)

end List
