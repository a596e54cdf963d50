import InternetComputer.Consensus.Replica

/-!
# Executions of a subnet

A world holds every replica's pool and every share signed so far. A step is a replica running its
notary or finalizer, receiving an artifact, or a Byzantine node signing any share. Signatures
cannot be forged, and pools only grow.

* `World`, `Action`, `step`, `run`; `Notarized`, `Finalized`, with their frame lemmas;
* **`mem_step_notarizationShares`**, **`mem_step_finalizationShares`**: a new share is Byzantine,
  or comes from the signer's own step.
-/

namespace IC.Consensus

variable {ν : Type} [DecidableEq ν]

/-- The replicas' pools and every share signed so far, by honest and Byzantine nodes alike. -/
structure World (ν : Type) where
  pools : ν → Pool ν
  notarizationShares : Finset (Share ν)
  finalizationShares : Finset (Share ν)

/-- Every pool holds only the catch-up package, and nothing is signed. -/
def World.init : World ν := ⟨fun _ => Pool.empty, ∅, ∅⟩

/-- One step of an execution. `timeToNotarize` is the outcome of the notary's clock checks. -/
inductive Action (ν : Type) where
  | notary (i : ν) (timeToNotarize : ℕ → ℕ → Bool)
  | finalizer (i : ν)
  | receiveBeacon (i : ν) (h : ℕ)
  | receiveProposal (i : ν) (b : Block)
  | receiveNotarizationShare (i : ν) (s : Share ν)
  | receiveFinalizationShare (i : ν) (s : Share ν)
  | receiveNotarization (i : ν) (b : Block)
  | receiveFinalization (i : ν) (b : Block)
  | byzantineNotarizationShare (s : Share ν)
  | byzantineFinalizationShare (s : Share ν)

variable (S : Subnet ν) (byz : Finset ν)

/-- The committee members that signed a notarization share on `(h, b)`. -/
def notarizationSigners (w : World ν) (h : ℕ) (b : Block) : Finset ν :=
  (S.committee h).filter fun i => (⟨h, b, i⟩ : Share ν) ∈ w.notarizationShares

/-- The committee members that signed a finalization share on `(h, b)`. -/
def finalizationSigners (w : World ν) (h : ℕ) (b : Block) : Finset ν :=
  (S.committee h).filter fun i => (⟨h, b, i⟩ : Share ν) ∈ w.finalizationShares

/-- `b` obtained `t` notarization shares at height `h` from committee members. -/
def Notarized (w : World ν) (h : ℕ) (b : Block) : Prop :=
  S.threshold ≤ (notarizationSigners S w h b).card

/-- `b` obtained `t` finalization shares at height `h` from committee members. -/
def Finalized (w : World ν) (h : ℕ) (b : Block) : Prop :=
  S.threshold ≤ (finalizationSigners S w h b).card

instance (w : World ν) (h : ℕ) (b : Block) : Decidable (Notarized S w h b) :=
  inferInstanceAs (Decidable (_ ≤ _))

instance (w : World ν) (h : ℕ) (b : Block) : Decidable (Finalized S w h b) :=
  inferInstanceAs (Decidable (_ ≤ _))

/-- The notarization shares action `a` signs in `w`. -/
def signedNotarizationShares (w : World ν) : Action ν → Finset (Share ν)
  | .notary i timeToNotarize =>
    if i ∈ byz then ∅ else (Notary.onStateChange S i timeToNotarize (w.pools i)).toFinset
  | .byzantineNotarizationShare s => if s.signer ∈ byz then {s} else ∅
  | _ => ∅

/-- The finalization shares action `a` signs in `w`; a replica that panics signs nothing. -/
def signedFinalizationShares (w : World ν) : Action ν → Finset (Share ν)
  | .finalizer i =>
    if i ∈ byz then ∅
    else
      match Finalizer.onStateChange S i (w.pools i) with
      | .error _ => ∅
      | .ok shares => shares.toFinset
  | .byzantineFinalizationShare s => if s.signer ∈ byz then {s} else ∅
  | _ => ∅

/-- How action `a` changes the pool of the replica it runs on. -/
def poolUpdate (w : World ν) : Action ν → Pool ν → Pool ν
  | .notary i timeToNotarize, p =>
    if i ∈ byz then p
    else p.addNotarizationShares (Notary.onStateChange S i timeToNotarize (w.pools i))
  | .finalizer i, p =>
    if i ∈ byz then p
    else
      match Finalizer.onStateChange S i (w.pools i) with
      | .error _ => p
      | .ok shares => p.addFinalizationShares shares
  | .receiveBeacon _ h, p => p.addBeacon h
  | .receiveProposal _ b, p => p.addProposal b
  | .receiveNotarizationShare _ s, p =>
    if s ∈ w.notarizationShares then p.addNotarizationShares [s] else p
  | .receiveFinalizationShare _ s, p =>
    if s ∈ w.finalizationShares then p.addFinalizationShares [s] else p
  | .receiveNotarization _ b, p => if Notarized S w b.height b then p.addNotarization b else p
  | .receiveFinalization _ b, p => if Finalized S w b.height b then p.addFinalization b else p
  | .byzantineNotarizationShare _, p => p
  | .byzantineFinalizationShare _, p => p

/-- The replica an action runs on. -/
def Action.replica : Action ν → Option ν
  | .notary i _ | .finalizer i | .receiveBeacon i _ | .receiveProposal i _
  | .receiveNotarizationShare i _ | .receiveFinalizationShare i _ | .receiveNotarization i _
  | .receiveFinalization i _ => some i
  | .byzantineNotarizationShare _ | .byzantineFinalizationShare _ => none

/-- One step of an execution: a replica updates its pool and the new shares are signed. -/
def step (w : World ν) (a : Action ν) : World ν where
  pools j := if a.replica = some j then poolUpdate S byz w a (w.pools j) else w.pools j
  notarizationShares := w.notarizationShares ∪ signedNotarizationShares S byz w a
  finalizationShares := w.finalizationShares ∪ signedFinalizationShares S byz w a

/-- The world after the actions `acts`. -/
def run (acts : List (Action ν)) : World ν := acts.foldl (step S byz) World.init

/-! ## Frame lemmas -/

section Frame

variable {S byz}

theorem le_poolUpdate (w : World ν) (a : Action ν) (p : Pool ν) :
    p.Le (poolUpdate S byz w a p) := by
  cases a with
  | notary i τ =>
    simp only [poolUpdate]
    split_ifs
    · exact Pool.Le.refl p
    · exact Pool.le_addNotarizationShares p _
  | finalizer i =>
    simp only [poolUpdate]
    split_ifs
    · exact Pool.Le.refl p
    · split
      · exact Pool.Le.refl p
      · exact Pool.le_addFinalizationShares p _
  | receiveBeacon i h => exact Pool.le_addBeacon p h
  | receiveProposal i b => exact Pool.le_addProposal p b
  | receiveNotarizationShare i s =>
    simp only [poolUpdate]
    split_ifs
    · exact Pool.le_addNotarizationShares p _
    · exact Pool.Le.refl p
  | receiveFinalizationShare i s =>
    simp only [poolUpdate]
    split_ifs
    · exact Pool.le_addFinalizationShares p _
    · exact Pool.Le.refl p
  | receiveNotarization i b =>
    simp only [poolUpdate]
    split_ifs
    · exact Pool.le_addNotarization p b
    · exact Pool.Le.refl p
  | receiveFinalization i b =>
    simp only [poolUpdate]
    split_ifs
    · exact Pool.le_addFinalization p b
    · exact Pool.Le.refl p
  | byzantineNotarizationShare s => exact Pool.Le.refl p
  | byzantineFinalizationShare s => exact Pool.Le.refl p

theorem pools_le_step (w : World ν) (a : Action ν) (j : ν) :
    (w.pools j).Le ((step S byz w a).pools j) := by
  simp only [step]
  split_ifs
  · exact le_poolUpdate w a _
  · exact Pool.Le.refl _

theorem notarizationShares_subset_step (w : World ν) (a : Action ν) :
    w.notarizationShares ⊆ (step S byz w a).notarizationShares :=
  Finset.subset_union_left

theorem finalizationShares_subset_step (w : World ν) (a : Action ν) :
    w.finalizationShares ⊆ (step S byz w a).finalizationShares :=
  Finset.subset_union_left

theorem notarizationSigners_mono {w w' : World ν}
    (h : w.notarizationShares ⊆ w'.notarizationShares) (ht : ℕ) (b : Block) :
    notarizationSigners S w ht b ⊆ notarizationSigners S w' ht b := by
  intro i hi
  rw [notarizationSigners, Finset.mem_filter] at hi ⊢
  exact ⟨hi.1, h hi.2⟩

theorem finalizationSigners_mono {w w' : World ν}
    (h : w.finalizationShares ⊆ w'.finalizationShares) (ht : ℕ) (b : Block) :
    finalizationSigners S w ht b ⊆ finalizationSigners S w' ht b := by
  intro i hi
  rw [finalizationSigners, Finset.mem_filter] at hi ⊢
  exact ⟨hi.1, h hi.2⟩

theorem Notarized.step {w : World ν} {ht : ℕ} {b : Block} (hn : Notarized S w ht b)
    (a : Action ν) : Notarized S (step S byz w a) ht b :=
  le_trans hn (Finset.card_le_card
    (notarizationSigners_mono (notarizationShares_subset_step w a) ht b))

theorem Finalized.step {w : World ν} {ht : ℕ} {b : Block} (hf : Finalized S w ht b)
    (a : Action ν) : Finalized S (step S byz w a) ht b :=
  le_trans hf (Finset.card_le_card
    (finalizationSigners_mono (finalizationShares_subset_step w a) ht b))

end Frame

/-! ## What a step signs -/

section Inversion

variable {S byz}

/-- **A new notarization share is Byzantine, or its signer's notary step produced it.** -/
theorem mem_step_notarizationShares {w : World ν} {a : Action ν} {s : Share ν}
    (hs : s ∈ (step S byz w a).notarizationShares) :
    s ∈ w.notarizationShares ∨ s.signer ∈ byz ∨
      ∃ τ, a = .notary s.signer τ ∧ s.signer ∉ byz ∧
        s ∈ Notary.onStateChange S s.signer τ (w.pools s.signer) := by
  rcases Finset.mem_union.mp hs with hs | hs
  · exact Or.inl hs
  · right
    cases a with
    | notary i τ =>
      simp only [signedNotarizationShares] at hs
      split_ifs at hs with hi
      · cases hs
      · have hmem := List.mem_toFinset.mp hs
        obtain rfl := (Notary.mem_onStateChange S i hmem).1
        exact Or.inr ⟨τ, rfl, hi, hmem⟩
    | byzantineNotarizationShare s' =>
      simp only [signedNotarizationShares] at hs
      split_ifs at hs with hb
      · obtain rfl := Finset.mem_singleton.mp hs
        exact Or.inl hb
      · cases hs
    | _ => cases hs

/-- **A new finalization share is Byzantine, or its signer's finalizer step produced it.** -/
theorem mem_step_finalizationShares {w : World ν} {a : Action ν} {s : Share ν}
    (hs : s ∈ (step S byz w a).finalizationShares) :
    s ∈ w.finalizationShares ∨ s.signer ∈ byz ∨
      ∃ shares, a = .finalizer s.signer ∧ s.signer ∉ byz ∧
        Finalizer.onStateChange S s.signer (w.pools s.signer) = .ok shares ∧ s ∈ shares := by
  rcases Finset.mem_union.mp hs with hs | hs
  · exact Or.inl hs
  · right
    cases a with
    | finalizer i =>
      simp only [signedFinalizationShares] at hs
      split_ifs at hs with hi
      · cases hs
      · cases hfin : Finalizer.onStateChange S i (w.pools i) with
        | error e => simp only [hfin] at hs; cases hs
        | ok shares =>
          simp only [hfin] at hs
          have hmem := List.mem_toFinset.mp hs
          obtain rfl := (Finalizer.mem_onStateChange S i hfin hmem).1
          exact Or.inr ⟨shares, rfl, hi, hfin, hmem⟩
    | byzantineFinalizationShare s' =>
      simp only [signedFinalizationShares] at hs
      split_ifs at hs with hb
      · obtain rfl := Finset.mem_singleton.mp hs
        exact Or.inl hb
      · cases hs
    | _ => cases hs

theorem mem_pool_step_notary {w : World ν} {i : ν} {τ : ℕ → ℕ → Bool} (hi : i ∉ byz)
    {s : Share ν} (hs : s ∈ Notary.onStateChange S i τ (w.pools i)) :
    s ∈ ((step S byz w (.notary i τ)).pools i).notarizationShares := by
  simp only [step, Action.replica, if_true, poolUpdate, if_neg hi,
    Pool.addNotarizationShares_notarizationShares]
  exact List.mem_union_right _ hs

theorem mem_poolUpdate_notarizations {w : World ν} {a : Action ν} {p : Pool ν} {b : Block}
    (hb : b ∈ (poolUpdate S byz w a p).notarizations) :
    b ∈ p.notarizations ∨ Notarized S w b.height b := by
  cases a with
  | receiveNotarization j b' =>
    simp only [poolUpdate] at hb
    split_ifs at hb with hn
    · rcases List.mem_insert_iff.mp hb with rfl | hb
      · exact Or.inr hn
      · exact Or.inl hb
    · exact Or.inl hb
  | notary i τ =>
    simp only [poolUpdate] at hb
    split_ifs at hb <;> exact Or.inl hb
  | finalizer i =>
    simp only [poolUpdate] at hb
    split_ifs at hb
    · exact Or.inl hb
    · split at hb <;> exact Or.inl hb
  | receiveNotarizationShare i s =>
    simp only [poolUpdate] at hb
    split_ifs at hb <;> exact Or.inl hb
  | receiveFinalizationShare i s =>
    simp only [poolUpdate] at hb
    split_ifs at hb <;> exact Or.inl hb
  | receiveFinalization i b' =>
    simp only [poolUpdate] at hb
    split_ifs at hb <;> exact Or.inl hb
  | _ => exact Or.inl hb

theorem mem_step_notarizations {w : World ν} {a : Action ν} {i : ν} {b : Block}
    (hb : b ∈ ((step S byz w a).pools i).notarizations) :
    b ∈ (w.pools i).notarizations ∨ Notarized S w b.height b := by
  simp only [step] at hb
  split_ifs at hb
  · exact mem_poolUpdate_notarizations hb
  · exact Or.inl hb

end Inversion

end IC.Consensus
