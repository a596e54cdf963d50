import Mathlib

/-!
# Histories of a growing value

The recorded values of a variable that only grows under a preorder-like relation `r`, oldest
first, for protocols in which one party reads an older state of another. A value read from the
history is below every later one and below the current value, and appending a value above the
current one keeps the history.

* `IsHistory r h cur`: `h` is pairwise related and ends in `cur`;
* `IsHistory.singleton`, `IsHistory.snoc`;
* `IsHistory.rel_of_mem`, `IsHistory.rel_getElem`, `IsHistory.rel_of_getElem?`: what reading
  the history gives.
-/

/-- `h` records the values of a variable growing under `r`, oldest first, up to `cur`. -/
structure IsHistory {β : Type} (r : β → β → Prop) (h : List β) (cur : β) : Prop where
  pairwise : h.Pairwise r
  getLast_eq : h.getLast? = some cur

namespace IsHistory

variable {β : Type} {r : β → β → Prop} {h : List β} {cur : β}

theorem singleton (x : β) : IsHistory r [x] x := ⟨List.pairwise_singleton r x, rfl⟩

theorem mem_cur (hh : IsHistory r h cur) : cur ∈ h := List.mem_of_getLast? hh.getLast_eq

theorem rel_of_mem [Std.Refl r] (hh : IsHistory r h cur) {a : β} (ha : a ∈ h) : r a cur := by
  obtain ⟨init, rfl⟩ := List.getLast?_eq_some_iff.mp hh.getLast_eq
  rcases List.mem_append.mp ha with ha | ha
  · exact (List.pairwise_append.mp hh.pairwise).2.2 a ha cur List.mem_cons_self
  · rw [List.mem_singleton.mp ha]
    exact refl_of r cur

theorem rel_getElem [Std.Refl r] (hh : IsHistory r h cur) {i j : ℕ} (hi : i < h.length)
    (hj : j < h.length) (hij : i ≤ j) : r h[i] h[j] := by
  rcases Nat.lt_or_eq_of_le hij with hlt | rfl
  · exact List.pairwise_iff_getElem.mp hh.pairwise i j _ hj hlt
  · exact refl_of r _

theorem rel_of_getElem? [Std.Refl r] (hh : IsHistory r h cur) {i j : ℕ} {a b : β}
    (ha : h[i]? = some a) (hb : h[j]? = some b) (hij : i ≤ j) : r a b := by
  obtain ⟨hi, rfl⟩ := List.getElem?_eq_some_iff.mp ha
  obtain ⟨hj, rfl⟩ := List.getElem?_eq_some_iff.mp hb
  exact hh.rel_getElem hi hj hij

theorem snoc [Std.Refl r] [IsTrans β r] (hh : IsHistory r h cur) {new : β} (hnew : r cur new) :
    IsHistory r (h ++ [new]) new := by
  refine ⟨List.pairwise_append.mpr ⟨hh.pairwise, List.pairwise_singleton r new, ?_⟩, ?_⟩
  · intro a ha b hb
    rw [List.mem_singleton.mp hb]
    exact trans_of r (hh.rel_of_mem ha) hnew
  · rw [List.getLast?_append, List.getLast?_singleton]
    rfl

end IsHistory
