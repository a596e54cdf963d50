import Mathlib

/-!
# Committee sizes and notarization committee membership

The subnet-size arithmetic of `types/src/consensus.rs` and `consensus/membership.rs`, and the
membership test of the notarization committee on the shuffled node list.

* `getFaultsTolerated`, `getCommitteeSize`, `getNotarizationThresholdForSubnetOfSize`;
* `threshold_eq`: the notarization threshold is `2 f + 1` of a committee of `3 f + 1`;
* **`committee_add_faults_lt`**: two thresholds exceed the committee plus the faulty nodes;
* `nodeBelongsToNotarizationCommittee`, **`nodeBelongs_iff_mem_take`**: the committee is the first
  `getCommitteeSize n` shuffled nodes.
-/

namespace IC.Consensus

/-- `get_faults_tolerated`: the upper limit of faulty participants for `n` participants. -/
def getFaultsTolerated (n : ℕ) : ℕ := (max n 1 - 1) / 3

/-- `get_committee_size`: the size of the committee given the number of nodes on the subnet. -/
def getCommitteeSize (nodesOnSubnet : ℕ) : ℕ :=
  3 * getFaultsTolerated nodesOnSubnet + 1

/-- `get_notarization_threshold_for_subnet_of_size`. -/
def getNotarizationThresholdForSubnetOfSize (subnetSize : ℕ) : ℕ :=
  getCommitteeSize subnetSize - getFaultsTolerated (getCommitteeSize subnetSize)

theorem getFaultsTolerated_getCommitteeSize (n : ℕ) :
    getFaultsTolerated (getCommitteeSize n) = getFaultsTolerated n := by
  rw [getCommitteeSize]
  generalize getFaultsTolerated n = f
  unfold getFaultsTolerated
  omega

theorem threshold_eq (n : ℕ) :
    getNotarizationThresholdForSubnetOfSize n = 2 * getFaultsTolerated n + 1 := by
  rw [getNotarizationThresholdForSubnetOfSize, getFaultsTolerated_getCommitteeSize,
    getCommitteeSize]
  omega

/-- **Two notarization thresholds exceed the committee plus the tolerated faults.** -/
theorem committee_add_faults_lt (n : ℕ) :
    getCommitteeSize n + getFaultsTolerated n < 2 * getNotarizationThresholdForSubnetOfSize n := by
  rw [threshold_eq, getCommitteeSize]
  omega

theorem faults_lt_threshold (n : ℕ) :
    getFaultsTolerated n < getNotarizationThresholdForSubnetOfSize n := by
  rw [threshold_eq]
  omega

/-! ## Membership -/

section Membership

variable {ν : Type} [DecidableEq ν]

/-- `Membership::node_belongs_to_notarization_committee`, given the shuffled nodes. -/
def nodeBelongsToNotarizationCommittee (shuffledNodes : List ν) (nodeId : ν) : Bool :=
  match shuffledNodes.idxOf? nodeId with
  | some i => decide (i < getCommitteeSize shuffledNodes.length)
  | none => false

/-- **The notarization committee is the first `getCommitteeSize n` shuffled nodes.** -/
theorem nodeBelongs_iff_mem_take (shuffledNodes : List ν) (nodeId : ν) :
    nodeBelongsToNotarizationCommittee shuffledNodes nodeId = true ↔
      nodeId ∈ shuffledNodes.take (getCommitteeSize shuffledNodes.length) := by
  unfold nodeBelongsToNotarizationCommittee
  cases hpos : shuffledNodes.idxOf? nodeId with
  | none =>
    have hnot : nodeId ∉ shuffledNodes := List.idxOf?_eq_none_iff.mp hpos
    simp only [Bool.false_eq_true, false_iff]
    exact fun h => hnot (List.mem_of_mem_take h)
  | some i =>
    have hmem : nodeId ∈ shuffledNodes := List.isSome_idxOf?.mp (by rw [hpos]; rfl)
    have hidx : shuffledNodes.idxOf nodeId = i := by
      rw [List.idxOf_eq_getD_idxOf?, hpos]
      rfl
    rw [decide_eq_true_iff, List.mem_take_iff_idxOf_lt hmem, hidx]

end Membership

end IC.Consensus
