import InternetComputer.Lib.Quorum
import InternetComputer.Consensus.Run

/-!
# Finalization safety

With at most `f` Byzantine nodes, a block that `t` members finality-signed at height `h` is the
only block of height `h` that ever obtains `t` notarization shares, and finalized blocks lie on
one chain when notarized blocks have notarized parents. Two quorums of `2 f + 1` intersect in an
honest node, which never notarizes and finality-signs two blocks of one height (`SafetyInv`).

* `SafetyInv.init`, `SafetyInv.step`, **`safetyInv_run`**;
* **`eq_of_finalized_of_notarized`**, **`isAncestor_of_finalized`**;
* **`finalization_safety`**: both, over every execution.
-/

namespace IC.Consensus

variable {ν : Type} [DecidableEq ν] (S : Subnet ν) (byz : Finset ν)

/-- What every reachable world satisfies, about the honest nodes. -/
structure SafetyInv (w : World ν) : Prop where
  /-- An honest node's notarization shares are in its own pool. -/
  ownShares : ∀ s ∈ w.notarizationShares, s.signer ∉ byz →
    s ∈ (w.pools s.signer).notarizationShares
  /-- An honest node finality-signs only up to its notarized height. -/
  finalizedBelow : ∀ s ∈ w.finalizationShares, s.signer ∉ byz →
    s.height ≤ getNotarizedHeight (w.pools s.signer)
  /-- An honest node's notarization shares of a height name the block it finality-signed. -/
  agree : ∀ s ∈ w.finalizationShares, s.signer ∉ byz → ∀ s' ∈ w.notarizationShares,
    s'.signer = s.signer → s'.height = s.height → s'.block = s.block
  /-- A notarization in a pool is backed by `t` committee shares. -/
  backed : ∀ i, ∀ b ∈ (w.pools i).notarizations, Notarized S w b.height b
  /-- An honest node finality-signs notarized blocks of the height, above genesis. -/
  finalizedNotarized : ∀ s ∈ w.finalizationShares, s.signer ∉ byz →
    1 ≤ s.height ∧ s.block.height = s.height ∧ Notarized S w s.height s.block

theorem SafetyInv.init : SafetyInv S byz (World.init : World ν) where
  ownShares _ h := absurd h (Finset.notMem_empty _)
  finalizedBelow _ h := absurd h (Finset.notMem_empty _)
  agree _ h := absurd h (Finset.notMem_empty _)
  backed _ _ h := absurd h List.not_mem_nil
  finalizedNotarized _ h := absurd h (Finset.notMem_empty _)

/-! ## One step -/

section Step

variable {S byz} {w : World ν} (hI : SafetyInv S byz w) (a : Action ν)
include hI

theorem SafetyInv.ownShares_step :
    ∀ s ∈ (step S byz w a).notarizationShares, s.signer ∉ byz →
      s ∈ ((step S byz w a).pools s.signer).notarizationShares := by
  intro s hs hh
  rcases mem_step_notarizationShares hs with hs | hb | ⟨τ, rfl, -, hmem⟩
  · exact (pools_le_step w a s.signer).notarizationShares _ (hI.ownShares s hs hh)
  · exact absurd hb hh
  · exact mem_pool_step_notary hh hmem

theorem SafetyInv.finalizedBelow_step :
    ∀ s ∈ (step S byz w a).finalizationShares, s.signer ∉ byz →
      s.height ≤ getNotarizedHeight ((step S byz w a).pools s.signer) := by
  intro s hs hh
  have hmono := getNotarizedHeight_mono (@pools_le_step _ _ S byz w a s.signer)
  rcases mem_step_finalizationShares hs with hs | hb | ⟨shares, -, -, hfin, hmem⟩
  · exact le_trans (hI.finalizedBelow s hs hh) hmono
  · exact absurd hb hh
  · exact le_trans (Finalizer.mem_onStateChange S s.signer hfin hmem).2.2.1 hmono

theorem SafetyInv.agree_step :
    ∀ s ∈ (step S byz w a).finalizationShares, s.signer ∉ byz →
      ∀ s' ∈ (step S byz w a).notarizationShares,
        s'.signer = s.signer → s'.height = s.height → s'.block = s.block := by
  intro s hs hh s' hs' hsig hht
  have hh' : s'.signer ∉ byz := hsig ▸ hh
  rcases mem_step_finalizationShares hs with hs | hb | ⟨shares, ha, -, hfin, hmem⟩
  · rcases mem_step_notarizationShares hs' with hs' | hb' | ⟨τ, -, -, hmem'⟩
    · exact hI.agree s hs hh s' hs' hsig hht
    · exact absurd hb' hh'
    · -- the notary signs above its notarized height, the old finalization share below it
      have hup := (Notary.mem_onStateChange S s'.signer hmem').2.1
      have hdown := hI.finalizedBelow s hs hh
      rw [hsig] at hup
      omega
  · exact absurd hb hh
  · rcases mem_step_notarizationShares hs' with hs' | hb' | ⟨τ, ha', -, -⟩
    · -- the finalizer saw the node's own notarization share in its pool
      have hown := hI.ownShares s' hs' hh'
      rw [hsig] at hown
      exact (Finalizer.mem_onStateChange S s.signer hfin hmem).2.2.2.agrees s' hown hsig hht
    · exact absurd hb' hh'
    · rw [ha] at ha'
      cases ha'

theorem SafetyInv.backed_step :
    ∀ i, ∀ b ∈ ((step S byz w a).pools i).notarizations, Notarized S (step S byz w a) b.height b := by
  intro i b hb
  rcases mem_step_notarizations hb with hb | hn
  · exact (hI.backed i b hb).step a
  · exact hn.step a

theorem SafetyInv.finalizedNotarized_step :
    ∀ s ∈ (step S byz w a).finalizationShares, s.signer ∉ byz →
      1 ≤ s.height ∧ s.block.height = s.height ∧
        Notarized S (step S byz w a) s.height s.block := by
  intro s hs hh
  rcases mem_step_finalizationShares hs with hs | hb | ⟨shares, -, -, hfin, hmem⟩
  · obtain ⟨h1, h2, h3⟩ := hI.finalizedNotarized s hs hh
    exact ⟨h1, h2, h3.step a⟩
  · exact absurd hb hh
  · obtain ⟨-, hpos, -, hsign⟩ := Finalizer.mem_onStateChange S s.signer hfin hmem
    obtain ⟨hb, hht⟩ := mem_getNotarizedBlocks hpos hsign.notarized
    have hn := hI.backed s.signer s.block hb
    rw [hht] at hn
    exact ⟨hpos, hht, hn.step a⟩

/-- **The invariant is preserved by every step.** -/
theorem SafetyInv.step : SafetyInv S byz (step S byz w a) where
  ownShares := hI.ownShares_step a
  finalizedBelow := hI.finalizedBelow_step a
  agree := hI.agree_step a
  backed := hI.backed_step a
  finalizedNotarized := hI.finalizedNotarized_step a

end Step

theorem safetyInv_foldl (acts : List (Action ν)) :
    ∀ w, SafetyInv S byz w → SafetyInv S byz (acts.foldl (step S byz) w) := by
  induction acts with
  | nil => exact fun _ hI => hI
  | cons a acts ih => exact fun w hI => ih _ (hI.step a)

/-- **Every world of every execution satisfies the invariant.** -/
theorem safetyInv_run (acts : List (Action ν)) : SafetyInv S byz (run S byz acts) :=
  safetyInv_foldl S byz acts _ (SafetyInv.init S byz)

/-! ## Quorums -/

/-- Every notarized block above genesis has a notarized parent. -/
def NotarizedParents (w : World ν) : Prop :=
  ∀ parent rank payload, Notarized S w (parent.height + 1) (Block.mk parent rank payload) →
    1 ≤ parent.height → Notarized S w parent.height parent


section Quorums

variable {S byz} {w : World ν}

/-- **A finalization and a notarization at one height name the same block.** -/
theorem eq_of_finalized_of_notarized (hbyz : byz.card ≤ getFaultsTolerated S.size)
    (hI : SafetyInv S byz w) {h : ℕ} {b b' : Block} (hfin : Finalized S w h b)
    (hnot : Notarized S w h b') : b' = b := by
  have hF : finalizationSigners S w h b ⊆ S.committee h := Finset.filter_subset _ _
  have hN : notarizationSigners S w h b' ⊆ S.committee h := Finset.filter_subset _ _
  have hcard : (S.committee h).card + byz.card <
      (finalizationSigners S w h b).card + (notarizationSigners S w h b').card := by
    have hc := S.card_committee_le h
    have hq := committee_add_faults_lt S.size
    unfold Finalized Notarized Subnet.threshold at *
    omega
  -- an honest node signed both
  obtain ⟨i, hiF, hiN, hib⟩ := Quorum.exists_mem_inter_not_mem hF hN hcard
  have hsF : (⟨h, b, i⟩ : Share ν) ∈ w.finalizationShares := (Finset.mem_filter.mp hiF).2
  have hsN : (⟨h, b', i⟩ : Share ν) ∈ w.notarizationShares := (Finset.mem_filter.mp hiN).2
  exact hI.agree _ hsF hib _ hsN rfl rfl

theorem notarized_of_finalized (hbyz : byz.card ≤ getFaultsTolerated S.size)
    (hI : SafetyInv S byz w) {h : ℕ} {b : Block} (hfin : Finalized S w h b) :
    1 ≤ h ∧ b.height = h ∧ Notarized S w h b := by
  have hlt : byz.card < (finalizationSigners S w h b).card := by
    have ht := faults_lt_threshold S.size
    unfold Finalized Subnet.threshold at hfin
    omega
  -- some honest node finality-signed it
  obtain ⟨i, hiF, hib⟩ := Finset.exists_mem_notMem_of_card_lt_card hlt
  exact hI.finalizedNotarized ⟨h, b, i⟩ (Finset.mem_filter.mp hiF).2 hib

theorem notarized_ancestorAt (hpar : NotarizedParents S w) (b : Block)
    (hb : Notarized S w b.height b) {h : ℕ} (h1 : 1 ≤ h) (hh : h ≤ b.height) :
    Notarized S w h (b.ancestorAt h) := by
  induction b with
  | genesis =>
    simp only [Block.height] at hh
    omega
  | mk parent rank payload ih =>
    simp only [Block.ancestorAt]
    split_ifs with hle
    · have hheight : h = parent.height + 1 := by simp only [Block.height_mk] at hh; omega
      rw [hheight]
      exact hb
    · have hp : h ≤ parent.height := by omega
      exact ih (hpar parent rank payload hb (by omega)) hp

/-- **Finalized blocks lie on one chain.** -/
theorem isAncestor_of_finalized (hbyz : byz.card ≤ getFaultsTolerated S.size)
    (hI : SafetyInv S byz w) (hpar : NotarizedParents S w) {h h' : ℕ} {b b' : Block}
    (hfin : Finalized S w h b) (hfin' : Finalized S w h' b') (hle : h ≤ h') :
    b.IsAncestor b' := by
  obtain ⟨h1, -, -⟩ := notarized_of_finalized hbyz hI hfin
  obtain ⟨-, hb', hn'⟩ := notarized_of_finalized hbyz hI hfin'
  rw [← hb'] at hn' hle
  obtain ⟨hheight, hanc⟩ := b'.ancestorAt_spec hle
  have hn := notarized_ancestorAt hpar b' hn' h1 hle
  rw [← eq_of_finalized_of_notarized hbyz hI hfin hn]
  exact hanc

end Quorums

/-- **Finalization safety.** With at most `f` Byzantine nodes, a block finalized at height `h` is
the only one there with `t` notarization shares, and finalized blocks lie on one chain. -/
theorem finalization_safety (hbyz : byz.card ≤ getFaultsTolerated S.size) :
    (∀ (acts more : List (Action ν)) (h : ℕ) (b b' : Block),
      (Finalized S (run S byz acts) h b ∧ Notarized S (run S byz (acts ++ more)) h b') ∨
        (Notarized S (run S byz acts) h b' ∧ Finalized S (run S byz (acts ++ more)) h b) →
      b' = b) ∧
    (∀ (acts : List (Action ν)), NotarizedParents S (run S byz acts) →
      ∀ (h h' : ℕ) (b b' : Block), Finalized S (run S byz acts) h b →
        Finalized S (run S byz acts) h' b' → h ≤ h' → b.IsAncestor b') := by
  refine ⟨fun acts more h b b' hboth => ?_, fun acts hpar h h' b b' hfin hfin' hle =>
    isAncestor_of_finalized hbyz (safetyInv_run S byz acts) hpar hfin hfin' hle⟩
  -- both facts persist to the later world
  have hlater : ∀ (w : World ν) (more : List (Action ν)),
      (∀ h b, Finalized S w h b → Finalized S (more.foldl (step S byz) w) h b) ∧
      (∀ h b, Notarized S w h b → Notarized S (more.foldl (step S byz) w) h b) := by
    intro w more
    induction more generalizing w with
    | nil => exact ⟨fun _ _ hf => hf, fun _ _ hn => hn⟩
    | cons a more ih => exact ⟨fun h b hf => (ih _).1 h b (hf.step a),
        fun h b hn => (ih _).2 h b (hn.step a)⟩
  have hrun : run S byz (acts ++ more) = more.foldl (step S byz) (run S byz acts) := by
    rw [run, run, List.foldl_append]
  have hI := safetyInv_run S byz (acts ++ more)
  rw [hrun] at hboth hI
  rcases hboth with ⟨hfin, hnot⟩ | ⟨hnot, hfin⟩
  · exact eq_of_finalized_of_notarized hbyz hI ((hlater _ more).1 h b hfin) hnot
  · exact eq_of_finalized_of_notarized hbyz hI hfin ((hlater _ more).2 h b' hnot)

/-- A subnet of four nodes, ranked in the same order at every height. -/
def fourNodes : Subnet ℕ := ⟨[0, 1, 2, 3], fun _ _ => [0, 1, 2, 3], fun _ _ => List.Perm.refl _⟩

/-- Nodes 0, 1 and 2 notarize and finalize the block `b` at height 1, while the Byzantine node 3
signs shares for a rival `b'`: `b` is finalized, and no later world notarizes `b'`. -/
theorem finalization_safety_fourNodes :
    let b : Block := .mk .genesis 0 0
    let b' : Block := .mk .genesis 1 0
    let acts : List (Action ℕ) :=
      ([0, 1, 2].flatMap fun i => [.receiveProposal i b, .notary i fun _ _ => true]) ++
        [.byzantineNotarizationShare ⟨1, b', 3⟩, .byzantineFinalizationShare ⟨1, b', 3⟩] ++
        [0, 1, 2].flatMap fun i => [.receiveNotarization i b, .finalizer i]
    ({3} : Finset ℕ).card ≤ getFaultsTolerated fourNodes.size ∧
      Finalized fourNodes (run fourNodes {3} acts) 1 b ∧
      ∀ more, ¬Notarized fourNodes (run fourNodes {3} (acts ++ more)) 1 b' := by
  intro b b' acts
  have hfin : Finalized fourNodes (run fourNodes {3} acts) 1 b := by decide
  exact ⟨by decide, hfin, fun more hn => absurd
    ((finalization_safety fourNodes {3} (by decide)).1 acts more 1 b b' (.inl ⟨hfin, hn⟩))
    (by decide)⟩

end IC.Consensus
