import InternetComputer.TreeHash.PruneSelection
import InternetComputer.TreeHash.SparseTree

/-!
# Partial trees of a selection of paths

The partial trees the tests of `prune_witness` build: the sparse tree of a list of paths, and the
tree pruned down to it by `prune_labeled_tree`, which over a sorted tree is the restriction
`LabeledTree.restrict` of the selection.

* `pruneLabeledTreeImpl_eq`, **`partialTree_eq_restrict`**;
* **`pruneWitness_moves_data`**: the witness of the paths `A` pruned with the partial tree of a part
  `B` is the witness of `A` without `B`; `pruneWitness_of_empty_selection_succeeds`.
-/

namespace IC.TreeHash

open MixedHashTree LabeledTree

variable {D : Type}

/-! ## `prune_labeled_tree` -/

mutual
/-- `prune_labeled_tree_impl`: the tree cut down to the selection. -/
def pruneLabeledTreeImpl {T U : Type} :
    LabeledTree T → LabeledTree U → List Label → Except TreeHashError (LabeledTree T)
  | tree, .leaf _, _ =>
    match tree with
    | .leaf _ => pure tree
    | .subTree _ => pure (.subTree [])
  | .subTree children, .subTree selectionChildren, path => do
    let res ← pruneSelectionChildren children selectionChildren path []
    pure (.subTree (FlatMap.fromKeyValues res))
  | .leaf _, .subTree _, path => .error (.inconsistentPartialTree path)

/-- The loop of `prune_labeled_tree_impl` over the selected children. -/
def pruneSelectionChildren {T U : Type} :
    List (Label × LabeledTree T) → List (Label × LabeledTree U) → List Label →
      List (Label × LabeledTree T) → Except TreeHashError (List (Label × LabeledTree T))
  | _, [], _, res => pure res
  | children, (k, selV) :: selectionChildren, path, res =>
    match FlatMap.remove children k with
    | (some v, children) => do
      let v ← pruneLabeledTreeImpl v selV (path ++ [k])
      pruneSelectionChildren children selectionChildren path (res ++ [(k, v)])
    | (none, _) => .error (.inconsistentPartialTree (path ++ [k]))
end

/-- `prune_labeled_tree`. -/
def pruneLabeledTree {T U : Type} (tree : LabeledTree T) (selection : LabeledTree U) :
    Except TreeHashError (LabeledTree T) :=
  pruneLabeledTreeImpl tree selection []

/-- `LabeledTreeFixture::partial_tree`: the tree pruned to the paths' sparse tree. -/
def partialTree (tree : LabeledTree (List UInt8)) (paths : List Path) :
    Except String (LabeledTree (List UInt8)) := do
  let selection ← sparseLabeledTreeFromPaths paths
  Rust.expectOk (pruneLabeledTree tree selection) "called `Result::unwrap()` on an `Err` value"

namespace LabeledTree

variable {α β : Type}

theorem below_map_cons (k l : Label) (qs : List Path) :
    below k (qs.map (l :: ·)) = if l = k then qs else [] := by
  induction qs with
  | nil => split_ifs <;> rfl
  | cons q qs ih =>
    rw [List.map_cons]
    by_cases hl : l = k
    · subst hl
      rw [below_cons_self, ih, if_pos rfl, if_pos rfl]
    · rw [below_cons_of_ne hl, ih, if_neg hl, if_neg hl]

theorem below_childrenLeafPaths_of_not_mem {k : Label} :
    ∀ {cs : List (Label × LabeledTree α)}, k ∉ cs.map Prod.fst → below k (childrenLeafPaths cs) = []
  | [], _ => rfl
  | (l, t) :: cs, hk => by
    rw [List.map_cons, List.mem_cons, not_or] at hk
    rw [childrenLeafPaths, below, List.filterMap_append, ← below, ← below, below_map_cons,
      if_neg (Ne.symm hk.1), below_childrenLeafPaths_of_not_mem hk.2, List.nil_append]

theorem below_childrenLeafPaths {k : Label} {s : LabeledTree α} :
    ∀ {cs : List (Label × LabeledTree α)}, SortedKeys cs → (k, s) ∈ cs →
    below k (childrenLeafPaths cs) = s.leafPaths
  | [], _, hmem => absurd hmem List.not_mem_nil
  | (l, t) :: cs, hs, hmem => by
    unfold SortedKeys at hs
    rw [List.map_cons, List.pairwise_cons] at hs
    rw [childrenLeafPaths, below, List.filterMap_append, ← below, ← below, below_map_cons]
    rcases List.mem_cons.mp hmem with heq | hmem
    · obtain ⟨rfl, rfl⟩ := Prod.mk.inj heq
      rw [if_pos rfl, below_childrenLeafPaths_of_not_mem fun hk => lt_irrefl k (hs.1 k hk),
        List.append_nil]
    · have hlk : l ≠ k := ne_of_lt (hs.1 k (List.mem_map_of_mem hmem))
      rw [if_neg hlk, List.nil_append, below_childrenLeafPaths hs.2 hmem]

theorem restrictChildren_mem {paths : List Path} {k : Label} {u : LabeledTree α} :
    ∀ {cs : List (Label × LabeledTree α)}, (k, u) ∈ cs → below k paths ≠ [] →
    (k, u.restrict (below k paths)) ∈ restrictChildren cs paths
  | [], hmem, _ => absurd hmem List.not_mem_nil
  | (l, t) :: cs, hmem, hb => by
    rw [restrictChildren]
    rcases List.mem_cons.mp hmem with heq | hmem
    · obtain ⟨rfl, rfl⟩ := Prod.mk.inj heq
      rw [if_neg hb]
      exact List.mem_cons_self
    · split_ifs
      · exact restrictChildren_mem hmem hb
      · exact List.mem_cons_of_mem _ (restrictChildren_mem hmem hb)

end LabeledTree

theorem eq_of_sortedKeys_of_mem_iff {β : Type} : ∀ {l₁ l₂ : List (Label × β)}, SortedKeys l₁ →
    SortedKeys l₂ → (∀ e, e ∈ l₁ ↔ e ∈ l₂) → l₁ = l₂
  | [], [], _, _, _ => rfl
  | [], b :: _, _, _, h => absurd ((h b).mpr List.mem_cons_self) List.not_mem_nil
  | a :: _, [], _, _, h => absurd ((h a).mp List.mem_cons_self) List.not_mem_nil
  | a :: l₁, b :: l₂, h₁, h₂, h => by
    unfold SortedKeys at h₁ h₂
    rw [List.map_cons, List.pairwise_cons] at h₁ h₂
    -- the heads are the least entries of both
    have hab : a = b := by
      by_contra hab
      have ha : a ∈ l₂ := ((List.mem_cons.mp ((h a).mp List.mem_cons_self)).resolve_left hab)
      have hb : b ∈ l₁ :=
        (List.mem_cons.mp ((h b).mpr List.mem_cons_self)).resolve_left (Ne.symm hab)
      exact lt_asymm (h₁.1 _ (List.mem_map_of_mem hb)) (h₂.1 _ (List.mem_map_of_mem ha))
    subst hab
    refine congrArg _ (eq_of_sortedKeys_of_mem_iff h₁.2 h₂.2 fun e => ⟨fun he => ?_, fun he => ?_⟩)
    · exact (List.mem_cons.mp ((h e).mp (List.mem_cons_of_mem _ he))).resolve_left fun hea =>
        lt_irrefl a.1 (hea ▸ h₁.1 _ (List.mem_map_of_mem he))
    · exact (List.mem_cons.mp ((h e).mpr (List.mem_cons_of_mem _ he))).resolve_left fun hea =>
        lt_irrefl a.1 (hea ▸ h₂.1 _ (List.mem_map_of_mem he))

theorem pruneSelectionChildren_eq {α : Type} (tcs : List (Label × LabeledTree α)) (p : List Label) :
    ∀ (scs : List (Label × LabeledTree Unit)) (rem acc : List (Label × LabeledTree α)),
      SortedKeys rem → (∀ e ∈ rem, e ∈ tcs) → SortedKeys scs →
      (∀ e ∈ scs, ∃ u, (e.1, u) ∈ rem ∧
        pruneLabeledTreeImpl u e.2 (p ++ [e.1]) = .ok (u.restrict e.2.leafPaths)) →
      ∃ R, pruneSelectionChildren rem scs p acc = .ok (acc ++ R) ∧
        R.map Prod.fst = scs.map Prod.fst ∧
        ∀ e ∈ R, ∃ u s, (e.1, u) ∈ tcs ∧ (e.1, s) ∈ scs ∧ e.2 = u.restrict s.leafPaths
  | [], rem, acc, _, _, _, _ => ⟨[], by rw [pruneSelectionChildren, List.append_nil]; rfl, rfl,
      by simp⟩
  | (k, s) :: scs, rem, acc, hrem, hsub, hs, hall => by
    obtain ⟨u, hu, hprune⟩ := hall (k, s) List.mem_cons_self
    have hs' := hs
    unfold SortedKeys at hs'
    rw [List.map_cons, List.pairwise_cons] at hs'
    -- the later labels stay in the map
    have hall' : ∀ e ∈ scs, ∃ u, (e.1, u) ∈ rem.eraseP (fun e => e.1 = k) ∧
        pruneLabeledTreeImpl u e.2 (p ++ [e.1]) = .ok (u.restrict e.2.leafPaths) := by
      intro e he
      obtain ⟨u', hu', hprune'⟩ := hall e (List.mem_cons_of_mem _ he)
      refine ⟨u', (List.mem_eraseP_of_neg ?_).mpr hu', hprune'⟩
      simpa using ne_of_gt (hs'.1 e.1 (List.mem_map_of_mem he))
    obtain ⟨R, hR, hkeys, hvals⟩ := pruneSelectionChildren_eq tcs p scs _
      (acc ++ [(k, u.restrict s.leafPaths)]) (hrem.sublist (List.eraseP_sublist.map _))
      (fun e he => hsub e (List.eraseP_subset he)) hs'.2 hall'
    refine ⟨(k, u.restrict s.leafPaths) :: R, ?_, by rw [List.map_cons, hkeys]; rfl, ?_⟩
    · rw [pruneSelectionChildren, FlatMap.remove, lookup_eq_of_mem hrem hu]
      dsimp only
      rw [hprune, Except.ok_bind, hR, List.append_assoc, List.singleton_append]
    · intro e he
      rcases List.mem_cons.mp he with rfl | he
      · exact ⟨u, s, hsub _ hu, List.mem_cons_self, rfl⟩
      · obtain ⟨u', s', hu', hs'', hv⟩ := hvals e he
        exact ⟨u', s', hu', List.mem_cons_of_mem _ hs'', hv⟩

/-- **Pruning a sorted tree to a full selection is the restriction to its leaf paths.** -/
theorem pruneLabeledTreeImpl_eq {α : Type} {sel : LabeledTree Unit} (hfull : sel.Full) :
    sel.Sorted → ∀ {t : LabeledTree α}, t.Sorted → (∀ q ∈ sel.leafPaths, q ∈ t.endPaths) →
    ∀ p : List Label, pruneLabeledTreeImpl t sel p = .ok (t.restrict sel.leafPaths) := by
  induction hfull with
  | leaf v =>
    intro _ t _ hpaths p
    have hnil : [] ∈ t.endPaths := hpaths [] (by simp)
    rcases t with v' | _ | ⟨c, cs⟩
    · rfl
    · rfl
    · rw [endPaths] at hnil
      obtain ⟨_, _, _, _, _, h⟩ := mem_childrenEndPaths.mp hnil
      cases h
  | @subTree scs hne hfulls ih =>
    intro hsorted t ht hpaths p
    obtain _ | ⟨hskeys, hschildren⟩ := hsorted
    -- the selection has a path below a label, so the tree is a subtree with children
    obtain ⟨⟨k, s⟩, hks⟩ := List.exists_mem_of_ne_nil scs hne
    obtain ⟨q, hq⟩ := List.exists_mem_of_ne_nil _ (Full.leafPaths_ne_nil (hfulls _ hks))
    have hkq := hpaths _ (mem_leafPaths_subTree.mpr ⟨k, s, q, hks, hq, rfl⟩)
    obtain _ | ⟨htkeys, htchildren⟩ := ht
    · simp [endPaths] at hkq
    rename_i tcs
    rcases tcs with _ | ⟨c, cs⟩
    · simp [endPaths] at hkq
    rw [endPaths] at hpaths
    obtain ⟨R, hR, hkeys, hvals⟩ := pruneSelectionChildren_eq (c :: cs) p scs (c :: cs) []
      htkeys (fun _ he => he) hskeys fun e he => by
        obtain ⟨q, hq⟩ := List.exists_mem_of_ne_nil _ (Full.leafPaths_ne_nil (hfulls e he))
        obtain ⟨l, u, q', hu, -, hlq⟩ := mem_childrenEndPaths.mp
          (hpaths _ (mem_leafPaths_subTree.mpr ⟨e.1, e.2, q, he, hq, rfl⟩))
        obtain ⟨rfl, rfl⟩ := List.cons.inj hlq
        refine ⟨u, hu, ih e he (hschildren e he) (htchildren _ hu) (fun q' hq' => ?_) _⟩
        refine below_subset_endPaths htkeys hu hpaths q' ?_
        rw [leafPaths, below_childrenLeafPaths hskeys he]
        exact hq'
    have hRkeys : SortedKeys R := by
      unfold SortedKeys
      rw [hkeys]
      exact hskeys
    rw [pruneLabeledTreeImpl, hR, List.nil_append, Except.ok_bind,
      FlatMap.fromKeyValues_of_sortedKeys hRkeys, restrict]
    -- both lists hold the restrictions of the selected children, in increasing order
    refine congrArg (fun cs => Except.ok (LabeledTree.subTree cs)) (eq_of_sortedKeys_of_mem_iff hRkeys
      (htkeys.sublist (map_fst_restrictChildren_sublist _ _)) fun e => ⟨fun he => ?_, fun he => ?_⟩)
    · obtain ⟨l, v⟩ := e
      obtain ⟨u, s, hu, hs, rfl⟩ := hvals _ he
      have hbelow := below_childrenLeafPaths hskeys hs
      rw [leafPaths, ← hbelow]
      refine restrictChildren_mem hu ?_
      rw [hbelow]
      exact Full.leafPaths_ne_nil (hfulls _ hs)
    · obtain ⟨l, v⟩ := e
      obtain ⟨u, hu, hb, rfl⟩ := mem_restrictChildren he
      rw [leafPaths] at hb ⊢
      have hl : l ∈ scs.map Prod.fst := by
        by_contra hl
        exact hb (below_childrenLeafPaths_of_not_mem hl)
      obtain ⟨e', he', hel⟩ := List.mem_map.mp (hkeys ▸ hl : l ∈ R.map Prod.fst)
      obtain ⟨u', s', hu', hs', hv'⟩ := hvals e' he'
      rw [hel] at hu' hs'
      have hu'u : u' = u := Option.some.inj
        ((lookup_eq_of_mem htkeys hu').symm.trans (lookup_eq_of_mem htkeys hu))
      rw [below_childrenLeafPaths hskeys hs']
      rw [show e' = (l, u'.restrict s'.leafPaths) from Prod.ext hel hv', hu'u] at he'
      exact he'

/-! ## End paths and restrictions -/

namespace LabeledTree

variable {α : Type}

theorem endPaths_prefix {t : LabeledTree α} (ht : t.Sorted) :
    ∀ {p q : Path}, p ∈ t.endPaths → q ∈ t.endPaths → p <+: q → p = q := by
  induction ht with
  | leaf v =>
    intro p q hp hq _
    rw [endPaths, List.mem_singleton] at hp hq
    rw [hp, hq]
  | @subTree children hkeys _ ih =>
    intro p q hp hq hpq
    rcases children with _ | ⟨c, cs⟩
    · rw [endPaths, List.mem_singleton] at hp hq
      rw [hp, hq]
    rw [endPaths] at hp hq
    obtain ⟨l, u, p', hu, hp', rfl⟩ := mem_childrenEndPaths.mp hp
    obtain ⟨l', u', q', hu', hq', rfl⟩ := mem_childrenEndPaths.mp hq
    obtain ⟨rfl, hpq'⟩ := List.cons_prefix_cons.mp hpq
    obtain rfl : u = u' := Option.some.inj
      ((lookup_eq_of_mem hkeys hu).symm.trans (lookup_eq_of_mem hkeys hu'))
    rw [ih _ hu hp' hq' hpq']

mutual
theorem restrict_congr : ∀ (t : LabeledTree α) {P Q : List Path}, (∀ q, q ∈ P ↔ q ∈ Q) →
    t.restrict P = t.restrict Q
  | .leaf _, _, _, _ => rfl
  | .subTree cs, _, _, h => by rw [restrict, restrict, restrictChildren_congr cs h]
theorem restrictChildren_congr : ∀ (cs : List (Label × LabeledTree α)) {P Q : List Path},
    (∀ q, q ∈ P ↔ q ∈ Q) → restrictChildren cs P = restrictChildren cs Q
  | [], _, _, _ => rfl
  | (l, t) :: cs, P, Q, h => by
    have hb : ∀ q, q ∈ below l P ↔ q ∈ below l Q := fun q => by rw [mem_below, mem_below, h]
    have hnil : below l P = [] ↔ below l Q = [] := by
      simp only [List.eq_nil_iff_forall_not_mem, hb]
    rw [restrictChildren, restrictChildren, restrictChildren_congr cs h, restrict_congr t hb]
    by_cases hP : below l P = []
    · rw [if_pos hP, if_pos (hnil.mp hP)]
    · rw [if_neg hP, if_neg (mt hnil.mpr hP)]
end

end LabeledTree

/-- **The partial tree of a selection of end paths is the restriction to it.** -/
theorem partialTree_eq_restrict {t : LabeledTree (List UInt8)} (ht : t.Sorted) {paths : List Path}
    (hne : paths ≠ []) (hpaths : ∀ q ∈ paths, q ∈ t.endPaths) :
    partialTree t paths = .ok (t.restrict paths) := by
  obtain ⟨sel, hsel, hs, hfull, hleaves⟩ := sparseLabeledTreeFromPaths_spec hne
    fun q hq r hr => endPaths_prefix ht (hpaths q hq) (hpaths r hr)
  have hprune := pruneLabeledTreeImpl_eq hfull hs ht (fun q hq => hpaths q ((hleaves q).mp hq)) []
  rw [partialTree, hsel, Except.ok_bind, pruneLabeledTree, hprune, restrict_congr t hleaves]
  rfl

/-! ## Pruning the witness of a selection -/

theorem mem_removeAll_of_mem {q : Path} {A B : List Path} (hA : q ∈ A) (hB : q ∉ B) :
    q ∈ A.removeAll B := by
  simp [List.removeAll, hA, hB]

theorem mem_of_mem_removeAll {q : Path} {A B : List Path} (h : q ∈ A.removeAll B) : q ∈ A := by
  simp only [List.removeAll, List.mem_filter] at h
  exact h.1

/-- **A builder's witness pruned by another selection**: by a part of it, the witness of the paths
left; by all of it, the root digest; by a path outside it, an error. -/
theorem pruneWitness_moves_data (H : HashFns D) {t : LabeledTree (List UInt8)} (ht : t.Sorted)
    {A : List Path} (hA : A ≠ []) (hAt : ∀ q ∈ A, q ∈ t.endPaths) :
    ∃ b gen, HashTreeBuilderImpl.run H HashTreeBuilderImpl.new (buildOps t) = .ok b ∧
      b.witnessGenerator = some gen ∧
      ∃ pa wa, partialTree t A = .ok pa ∧ gen.witness pa = .ok wa ∧
        (∀ B : List Path, B ≠ [] → (∀ q ∈ B, q ∈ A) → (∃ q ∈ A, q ∉ B) →
          ∃ pb pd wd, partialTree t B = .ok pb ∧ partialTree t (A.removeAll B) = .ok pd ∧
            gen.witness pd = .ok wd ∧ pruneWitness H wa pb = .ok wd) ∧
        pruneWitness H wa pa = .ok (.pruned gen.hashTree.digest) ∧
        (∀ B : List Path, (∀ q ∈ B, q ∈ t.endPaths) → (∃ q ∈ B, q ∉ A) →
          ∃ pb e, partialTree t B = .ok pb ∧ pruneWitness H wa pb = .error e) := by
  obtain ⟨b, hrun, hgen⟩ := HashTreeBuilderImpl.witnessGenerator_run_buildOps H ht
  -- a selection has the restriction as partial tree, and the generator its selection witness
  have hpart : ∀ {P : List Path}, P ≠ [] → (∀ q ∈ P, q ∈ t.endPaths) →
      partialTree t P = .ok (t.restrict P) := fun hP hPt => partialTree_eq_restrict ht hP hPt
  have hwit : ∀ {P : List Path}, P ≠ [] → (∀ q ∈ P, q ∈ t.endPaths) →
      WitnessGeneratorImpl.witness ⟨digestTree H t, hashTreeOf H t⟩ (t.restrict P) =
        .ok ((hashTreeOf H t).selectionWitness P) := fun hP hPt => witnessImpl_restrict H ht hP hPt []
  refine ⟨b, _, hrun, hgen, _, _, hpart hA hAt, hwit hA hAt, ?_, ?_, ?_⟩
  · rintro B hB hBA ⟨q, hqA, hqB⟩
    have hD : A.removeAll B ≠ [] := List.ne_nil_of_mem (mem_removeAll_of_mem hqA hqB)
    have hDt : ∀ q ∈ A.removeAll B, q ∈ t.endPaths := fun q hq => hAt q (mem_of_mem_removeAll hq)
    exact ⟨_, _, _, hpart hB fun q hq => hAt q (hBA q hq), hpart hD hDt, hwit hD hDt,
      pruneWitnessImpl_restrict ht hA hB hAt hBA []⟩
  · rw [pruneWitness, pruneWitnessImpl_restrict ht hA hA hAt (fun _ hq => hq),
      removeAll_eq_nil (fun _ hq => hq), HashTree.selectionWitness_nil]
  · rintro B hBt ⟨q, hqB, hqA⟩
    cases hres : pruneWitness H ((hashTreeOf H t).selectionWitness A) (t.restrict B) with
    | ok r => exact absurd hres (pruneWitnessImpl_restrict_ne ht hA hAt hBt ⟨q, hqB, hqA⟩ [] r)
    | error e => exact ⟨_, e, hpart (List.ne_nil_of_mem hqB) hBt, hres⟩

theorem pruneWitness_moves_data_at_two_children :
    let t : LabeledTree (List UInt8) := .subTree [([1], .leaf [5]), ([2], .subTree [])]
    ∃ b gen, HashTreeBuilderImpl.run HashTerm.hashFns HashTreeBuilderImpl.new (buildOps t) =
        .ok b ∧ b.witnessGenerator = some gen ∧
      ∃ pa wa, partialTree t [[[1]], [[2]]] = .ok pa ∧ gen.witness pa = .ok wa ∧
        pruneWitness HashTerm.hashFns wa pa = .ok (.pruned gen.hashTree.digest) := by
  have ht : LabeledTree.Sorted (.subTree [([1], .leaf [5]), ([2], .subTree [])] :
      LabeledTree (List UInt8)) := by
    refine .subTree (by unfold SortedKeys; decide) fun c hc => ?_
    rcases List.mem_pair.mp hc with rfl | rfl
    · exact .leaf _
    · exact .subTree (by simp [SortedKeys]) (by simp)
  obtain ⟨b, gen, hrun, hgen, pa, wa, hpa, hwa, -, hall, -⟩ :=
    pruneWitness_moves_data HashTerm.hashFns ht (A := [[[1]], [[2]]]) (by simp) (by decide)
  exact ⟨b, gen, hrun, hgen, pa, wa, hpa, hwa, hall⟩

/-- **The empty selection**: the sparse trees of no path and of the empty path are both leaves,
and pruning the leaf's witness by the second gives the root digest, not an error. -/
theorem pruneWitness_of_empty_selection_succeeds :
    let t : LabeledTree (List UInt8) := .leaf [5]
    ∃ b gen, HashTreeBuilderImpl.run HashTerm.hashFns HashTreeBuilderImpl.new (buildOps t) =
        .ok b ∧ b.witnessGenerator = some gen ∧
      partialTree t [] = .ok t ∧ partialTree t [[]] = .ok t ∧ gen.witness t = .ok .known ∧
      pruneWitness HashTerm.hashFns .known t = .ok (.pruned gen.hashTree.digest) := by
  obtain ⟨b, hrun, hgen⟩ :=
    HashTreeBuilderImpl.witnessGenerator_run_buildOps HashTerm.hashFns (.leaf [5])
  exact ⟨b, _, hrun, hgen, rfl, rfl, rfl, rfl⟩

end IC.TreeHash
