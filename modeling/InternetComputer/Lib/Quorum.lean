import Mathlib

/-!
# Quorum intersection

Two subsets of one finite committee that are together larger than the committee plus a set of
faulty members share a member outside the faulty set. This is the counting step of every
Byzantine quorum argument.

* `card_add_card_sub_le_card_inter`: two subsets of `C` overlap in `#A + #B - #C` members;
* **`exists_mem_inter_not_mem`**: the overlap has a member outside `D` once
  `#C + #D < #A + #B`.
-/

namespace Quorum

variable {α : Type*} [DecidableEq α]

theorem card_add_card_sub_le_card_inter {A B C : Finset α} (hA : A ⊆ C) (hB : B ⊆ C) :
    A.card + B.card - C.card ≤ (A ∩ B).card := by
  have hunion := Finset.card_union_add_card_inter A B
  have hle : (A ∪ B).card ≤ C.card := Finset.card_le_card (Finset.union_subset hA hB)
  omega

/-- **Quorum intersection.** Two subsets of a committee `C` with `#C + #D < #A + #B` have a
common member that is not in `D`. -/
theorem exists_mem_inter_not_mem {A B C D : Finset α} (hA : A ⊆ C) (hB : B ⊆ C)
    (hcard : C.card + D.card < A.card + B.card) : ∃ x ∈ A, x ∈ B ∧ x ∉ D := by
  have hinter := card_add_card_sub_le_card_inter hA hB
  have hsdiff := Finset.le_card_sdiff D (A ∩ B)
  have hpos : 0 < ((A ∩ B) \ D).card := by omega
  obtain ⟨x, hx⟩ := Finset.card_pos.mp hpos
  rw [Finset.mem_sdiff, Finset.mem_inter] at hx
  exact ⟨x, hx.1.1, hx.1.2, hx.2⟩

end Quorum
