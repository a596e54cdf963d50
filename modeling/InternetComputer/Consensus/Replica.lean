import InternetComputer.Consensus.Committee
import InternetComputer.Consensus.Pool

/-!
# The notary and the finalizer of a replica

`Notary::on_state_change` and `Finalizer::pick_block_to_finality_sign`, as pure functions of the
replica's pool; the subnet fixes the shuffled node lists.

* **`Notary.mem_onStateChange`**: an honest notary signs only at `notarized_height + 1`;
* **`Finalizer.mem_onStateChange`**: an honest finalizer signs only notarized blocks up to the
  notarized height that its own notarization shares agree with.
-/

namespace IC.Consensus

/-- A subnet: its nodes, and the order `get_shuffled_nodes` puts them in. -/
structure Subnet (ν : Type) where
  nodes : List ν
  getShuffledNodes : ℕ → ℕ → List ν
  perm : ∀ h beacon, (getShuffledNodes h beacon).Perm nodes

variable {ν : Type} [DecidableEq ν]

namespace Subnet

variable (S : Subnet ν)

/-- The subnet size `n`. -/
def size : ℕ := S.nodes.length

/-- The notarization committee at height `h`, sampled from the beacon at `h - 1`. -/
def committee (h : ℕ) : Finset ν :=
  ((S.getShuffledNodes h (h - 1)).take (getCommitteeSize S.size)).toFinset

/-- The threshold `t` of notarizations and finalizations. -/
def threshold : ℕ := getNotarizationThresholdForSubnetOfSize S.size

theorem card_committee_le (h : ℕ) : (S.committee h).card ≤ getCommitteeSize S.size := by
  refine (List.toFinset_card_le _).trans ?_
  exact List.length_take_le _ _

end Subnet

/-! ## The notary -/

/-- One step of the fold of `find_lowest_ranked_proposals`. -/
def lowestRankStep (acc : Option ℕ × List Block) (proposal : Block) : Option ℕ × List Block :=
  match acc.1 with
  | none => (some proposal.rank, [proposal])
  | some bestRank =>
    if bestRank > proposal.rank then (some proposal.rank, [proposal])
    else if proposal.rank = bestRank then (acc.1, acc.2 ++ [proposal])
    else acc

/-- `find_lowest_ranked_proposals`: the validated proposals of lowest rank at height `h`. -/
def findLowestRankedProposals (pool : Pool ν) (h : ℕ) : List Block :=
  ((pool.proposals.filter (·.height = h)).foldl lowestRankStep (none, [])).2

theorem mem_foldl_lowestRankStep (l : List Block) (acc : Option ℕ × List Block) {b : Block}
    (hb : b ∈ (l.foldl lowestRankStep acc).2) : b ∈ acc.2 ∨ b ∈ l := by
  induction l generalizing acc with
  | nil => exact Or.inl hb
  | cons x xs ih =>
    rcases ih _ hb with h | h
    · unfold lowestRankStep at h
      split at h
      · simp only [List.mem_singleton] at h
        exact Or.inr (h ▸ List.mem_cons_self)
      · split_ifs at h
        · simp only [List.mem_singleton] at h
          exact Or.inr (h ▸ List.mem_cons_self)
        · rcases List.mem_append.mp h with h | h
          · exact Or.inl h
          · simp only [List.mem_singleton] at h
            exact Or.inr (h ▸ List.mem_cons_self)
        · exact Or.inl h
    · exact Or.inr (List.mem_cons_of_mem x h)

omit [DecidableEq ν] in
theorem mem_findLowestRankedProposals {pool : Pool ν} {h : ℕ} {b : Block}
    (hb : b ∈ findLowestRankedProposals pool h) : b ∈ pool.proposals ∧ b.height = h := by
  rcases mem_foldl_lowestRankStep _ _ hb with hb | hb
  · cases hb
  · simpa using hb

/-- `Notary::is_proposal_already_notarized_by_me`. -/
def isProposalAlreadyNotarizedByMe (me : ν) (pool : Pool ν) (proposal : Block) : Bool :=
  ((getNotarizationShares pool proposal.height).filter (·.signer = me)).any
    (·.block = proposal)

/-- `Notary::notarize_block`: the share on `(block.height, crypto_hash(block))`. -/
def notarizeBlock (me : ν) (block : Block) : Share ν := ⟨block.height, block, me⟩

namespace Notary

variable (S : Subnet ν) (me : ν)

/-- `Notary::is_notary`, for the previous beacon at height `previousBeacon`. -/
def isNotary (previousBeacon : ℕ) : Bool :=
  nodeBelongsToNotarizationCommittee (S.getShuffledNodes (previousBeacon + 1) previousBeacon) me

/-- The body of the loop over the lowest ranked proposals; `timeToNotarize` is the clock test. -/
def notarizeStep (timeToNotarize : ℕ → ℕ → Bool) (pool : Pool ν) (height : ℕ)
    (shares : List (Share ν)) (proposal : Block) : List (Share ν) :=
  if timeToNotarize height proposal.rank then
    if !isProposalAlreadyNotarizedByMe me pool proposal then shares ++ [notarizeBlock me proposal]
    else shares
  else shares

/-- `Notary::on_state_change`. -/
def onStateChange (timeToNotarize : ℕ → ℕ → Bool) (pool : Pool ν) : List (Share ν) :=
  let notarizedHeight := getNotarizedHeight pool
  match getRandomBeacon pool notarizedHeight with
  | none => []
  | some previousBeacon =>
    if !isNotary S me previousBeacon then []
    else
      let height := notarizedHeight + 1
      (findLowestRankedProposals pool height).foldl
        (notarizeStep me timeToNotarize pool height) []

theorem mem_foldl_notarizeStep (τ : ℕ → ℕ → Bool) (pool : Pool ν) (height : ℕ)
    (l : List Block) (acc : List (Share ν)) {s : Share ν}
    (hs : s ∈ l.foldl (notarizeStep me τ pool height) acc) :
    s ∈ acc ∨ ∃ b ∈ l, s = notarizeBlock me b := by
  induction l generalizing acc with
  | nil => exact Or.inl hs
  | cons x xs ih =>
    rcases ih _ hs with h | ⟨b, hb, rfl⟩
    · unfold notarizeStep at h
      split_ifs at h
      · rcases List.mem_append.mp h with h | h
        · exact Or.inl h
        · exact Or.inr ⟨x, List.mem_cons_self, List.mem_singleton.mp h⟩
      · exact Or.inl h
      · exact Or.inl h
    · exact Or.inr ⟨b, List.mem_cons_of_mem x hb, rfl⟩

/-- **An honest notary signs only blocks at height `notarized_height + 1`.** -/
theorem mem_onStateChange {τ : ℕ → ℕ → Bool} {pool : Pool ν} {s : Share ν}
    (hs : s ∈ onStateChange S me τ pool) :
    s.signer = me ∧ s.height = getNotarizedHeight pool + 1 ∧ s.block.height = s.height := by
  unfold onStateChange at hs
  dsimp only at hs
  split at hs
  · cases hs
  · split_ifs at hs
    · cases hs
    · rcases mem_foldl_notarizeStep me τ pool _ _ [] hs with h | ⟨b, hb, rfl⟩
      · cases h
      · exact ⟨rfl, (mem_findLowestRankedProposals hb).2, rfl⟩

end Notary

/-! ## The finalizer -/

section Finalizer

variable (S : Subnet ν) (me : ν)

/-- `Finalizer::pick_block_to_finality_sign`; no notarized block panics. -/
def pickBlockToFinalitySign (pool : Pool ν) (h : ℕ) : Except String (Option Block) :=
  match getRandomBeacon pool (h - 1) with
  | none => pure none
  | some previousBeacon =>
    if !nodeBelongsToNotarizationCommittee (S.getShuffledNodes h previousBeacon) me then
      pure none
    else if (getFinalizationShares pool h h).any (·.signer = me) then pure none
    else
      match getNotarizedBlocks pool h with
      | [] => throw "Trying to finalize height but no notarized block found"
      | [notarizedBlock] =>
        if (getNotarizationShares pool h).any
            (fun x => x.signer = me ∧ x.block ≠ notarizedBlock) then pure none
        else pure (some notarizedBlock)
      | _ :: _ :: _ => pure none

/-- `Finalizer::finalize_height`: the share on `(height, crypto_hash(block))`. -/
def finalizeHeight (pool : Pool ν) (height : ℕ) : Except String (Option (Share ν)) := do
  let block ← pickBlockToFinalitySign S me pool height
  pure (block.map fun b => ⟨height, b, me⟩)

/-- The `filter_map` over the heights to finalize, stopping at the first panic. -/
def finalizeHeights (pool : Pool ν) : List ℕ → Except String (List (Share ν))
  | [] => pure []
  | h :: hs => do
    let share ← finalizeHeight S me pool h
    let rest ← finalizeHeights pool hs
    pure (share.toList ++ rest)

/-- `Finalizer::on_state_change`: shares for `finalized_height + 1 ..= notarized_height`. -/
def Finalizer.onStateChange (pool : Pool ν) : Except String (List (Share ν)) :=
  finalizeHeights S me pool
    (List.range' (getFinalizedHeight pool + 1) (getNotarizedHeight pool - getFinalizedHeight pool))

/-- What a finality-signed block satisfies at the moment it is picked. -/
structure FinalitySignable (pool : Pool ν) (h : ℕ) (b : Block) : Prop where
  notarized : b ∈ getNotarizedBlocks pool h
  agrees : ∀ x ∈ pool.notarizationShares, x.signer = me → x.height = h → x.block = b

theorem pickBlockToFinalitySign_spec {pool : Pool ν} {h : ℕ} {b : Block}
    (hpick : pickBlockToFinalitySign S me pool h = .ok (some b)) :
    FinalitySignable me pool h b := by
  unfold pickBlockToFinalitySign at hpick
  simp only [pure, Except.pure, throw, throwThe, MonadExceptOf.throw] at hpick
  split at hpick
  · cases hpick
  · split_ifs at hpick
    · cases hpick
    · cases hpick
    · split at hpick
      · cases hpick
      · rename_i notarizedBlock hblocks
        split_ifs at hpick with hother
        · cases hpick
        · obtain rfl : notarizedBlock = b := by injection hpick with hpick; injection hpick
          refine ⟨by rw [hblocks]; exact List.mem_singleton_self _, fun x hx hme hh => ?_⟩
          have hx' : x ∈ getNotarizationShares pool h :=
            List.mem_filter.mpr ⟨hx, by simpa using hh⟩
          by_contra hne
          exact hother (List.any_eq_true.mpr ⟨x, hx', by simpa using ⟨hme, hne⟩⟩)
      · cases hpick

theorem finalizeHeight_spec {pool : Pool ν} {h : ℕ} {s : Share ν}
    (hf : finalizeHeight S me pool h = .ok (some s)) :
    s.height = h ∧ s.signer = me ∧ pickBlockToFinalitySign S me pool h = .ok (some s.block) := by
  unfold finalizeHeight at hf
  simp only [bind, Except.bind, pure, Except.pure] at hf
  split at hf
  · cases hf
  · rename_i block hpick
    cases block with
    | none => cases hf
    | some b =>
      cases hf
      exact ⟨rfl, rfl, hpick⟩

theorem mem_finalizeHeights {pool : Pool ν} (hs : List ℕ) {shares : List (Share ν)}
    (hfin : finalizeHeights S me pool hs = .ok shares) {s : Share ν} (hmem : s ∈ shares) :
    s.height ∈ hs ∧ s.signer = me ∧ FinalitySignable me pool s.height s.block := by
  induction hs generalizing shares with
  | nil =>
    cases hfin
    cases hmem
  | cons h hs ih =>
    simp only [finalizeHeights, bind, Except.bind, pure, Except.pure] at hfin
    split at hfin
    · cases hfin
    · rename_i share hshare
      split at hfin
      · cases hfin
      · rename_i rest hrest
        cases hfin
        rcases List.mem_append.mp hmem with hmem | hmem
        · cases share with
          | none => cases hmem
          | some share =>
            rw [Option.toList_some, List.mem_singleton] at hmem
            subst hmem
            obtain ⟨hh, hme, hpick⟩ := finalizeHeight_spec S me hshare
            rw [hh]
            exact ⟨List.mem_cons_self, hme, pickBlockToFinalitySign_spec S me hpick⟩
        · obtain ⟨h1, h2, h3⟩ := ih hrest hmem
          exact ⟨List.mem_cons_of_mem h h1, h2, h3⟩

/-- **An honest finalizer signs only notarized blocks its own notarization shares agree with.** -/
theorem Finalizer.mem_onStateChange {pool : Pool ν} {shares : List (Share ν)}
    (hfin : Finalizer.onStateChange S me pool = .ok shares) {s : Share ν} (hmem : s ∈ shares) :
    s.signer = me ∧ 1 ≤ s.height ∧ s.height ≤ getNotarizedHeight pool ∧
      FinalitySignable me pool s.height s.block := by
  obtain ⟨hh, hme, hsign⟩ := mem_finalizeHeights S me _ hfin hmem
  rw [List.mem_range'_1] at hh
  exact ⟨hme, by omega, by omega, hsign⟩

end Finalizer

end IC.Consensus
