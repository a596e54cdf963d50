import InternetComputer.TreeHash.WitnessGenerator

/-!
# Pruning the witness of a selection

Pruning the witness of a selection of paths with the partial tree of a smaller selection gives
the witness of what is left; with a path it does not hold, it fails.

* `selectionWitness_eq_pruned_iff`, `pruneWitnessSubtree_selection`: one level of the pruning;
* **`pruneWitnessImpl_restrict`**: the witness of `A` pruned with the partial tree of `B ⊆ A` is
  the witness of `A` without `B`; **`pruneWitnessImpl_restrict_ne`**: else the pruning fails.
-/

namespace IC.TreeHash

variable {D : Type}

open MixedHashTree LabeledTree

/-! ## The witness of a selection -/

theorem removeAll_cons (p : Path) (paths removed : List Path) :
    (p :: paths).removeAll removed =
      if p ∈ removed then paths.removeAll removed else p :: paths.removeAll removed := by
  by_cases hp : p ∈ removed <;> simp [List.removeAll, hp]

@[simp]
theorem below_cons_self (label : Label) (q : Path) (paths : List Path) :
    below label ((label :: q) :: paths) = q :: below label paths := by
  simp [below]

@[simp]
theorem below_cons_of_ne {label l : Label} (hl : l ≠ label) (q : Path) (paths : List Path) :
    below label ((l :: q) :: paths) = below label paths := by
  simp [below, hl]

@[simp]
theorem below_cons_nil (label : Label) (paths : List Path) :
    below label ([] :: paths) = below label paths := by
  simp [below]

theorem below_removeAll (label : Label) : ∀ paths removed : List Path,
    below label (paths.removeAll removed) = (below label paths).removeAll (below label removed)
  | [], _ => rfl
  | p :: paths, removed => by
    have ih := below_removeAll label paths removed
    rw [removeAll_cons]
    rcases p with _ | ⟨l, q⟩
    · split_ifs <;> simp [ih]
    · by_cases hl : l = label
      · subst hl
        by_cases hq : l :: q ∈ removed
        · rw [if_pos hq, below_cons_self, removeAll_cons, if_pos (mem_below.mpr hq), ih]
        · rw [if_neg hq, below_cons_self, below_cons_self, removeAll_cons,
            if_neg (mt mem_below.mp hq), ih]
      · split_ifs <;> simp [below_cons_of_ne hl, ih]

namespace HashTree

theorem selectionWitness_fork (d : D) (l r : HashTree D) (paths : List Path) :
    (HashTree.fork d l r).selectionWitness paths =
      if ((l.levelNodes ++ r.levelNodes).any fun n => !(below n.1 paths).isEmpty) = true then
        .fork (l.selectionWitness paths) (r.selectionWitness paths)
      else .pruned d := rfl

theorem selectionWitness_node (d : D) (label : Label) (inner : HashTree D) (paths : List Path) :
    (HashTree.node d label inner).selectionWitness paths =
      if below label paths = [] then .pruned d
      else .node label (inner.selectionWitness (below label paths)) := rfl

@[simp]
theorem selectionWitness_nil : ∀ h : HashTree D, h.selectionWitness [] = .pruned h.digest
  | .leaf _ => rfl
  | .fork _ _ _ => by simp [selectionWitness, below, digest]
  | .node _ _ _ => by simp [selectionWitness, below, digest]

theorem digest_of_selectionWitness_eq_pruned {h : HashTree D} {paths : List Path} {e : D}
    (hw : h.selectionWitness paths = .pruned e) : e = h.digest := by
  cases h with
  | leaf d =>
    unfold selectionWitness at hw
    split_ifs at hw
    cases hw
    rfl
  | fork d l r =>
    unfold selectionWitness at hw
    split_ifs at hw
    cases hw
    rfl
  | node d label inner =>
    unfold selectionWitness at hw
    split_ifs at hw
    cases hw
    rfl

/-- **The witness of a level is pruned exactly when nothing below its labels is selected.** -/
theorem selectionWitness_eq_pruned_iff {h : HashTree D} (hl : h.IsLevel) {paths : List Path} :
    (∃ e, h.selectionWitness paths = .pruned e) ↔ ∀ n ∈ h.levelNodes, below n.1 paths = [] := by
  cases h with
  | leaf d => exact absurd hl id
  | fork d l r =>
    rw [selectionWitness]
    by_cases hany : ((l.levelNodes ++ r.levelNodes).any fun n => !(below n.1 paths).isEmpty) = true
    · rw [if_pos hany]
      obtain ⟨n, hn, hb⟩ := List.any_eq_true.mp hany
      refine iff_of_false (by rintro ⟨e, he⟩; cases he) fun hall => ?_
      simp [hall n (by simpa [levelNodes] using hn)] at hb
    · rw [if_neg hany]
      refine iff_of_true ⟨d, rfl⟩ fun n hn => ?_
      by_contra hb
      exact hany (List.any_eq_true.mpr ⟨n, by simpa [levelNodes] using hn, by simpa using hb⟩)
  | node d label inner =>
    simp only [selectionWitness, levelNodes, List.mem_singleton, forall_eq]
    split_ifs with hb
    · exact iff_of_true ⟨d, rfl⟩ hb
    · exact iff_of_false (by rintro ⟨e, he⟩; cases he) hb

theorem selectionWitness_ne_known {h : HashTree D} (hl : h.IsLevel) (paths : List Path) :
    h.selectionWitness paths ≠ .known := by
  cases h with
  | leaf d => exact absurd hl id
  | fork d l r =>
    unfold selectionWitness
    split_ifs <;> simp
  | node d label inner =>
    unfold selectionWitness
    split_ifs <;> simp

theorem nodeLabels_selectionWitness : ∀ (h : HashTree D) (paths : List Path),
    ∀ a ∈ (h.selectionWitness paths).nodeLabels, a ∈ h.levelLabels
  | .leaf d, paths, a, ha => by
    unfold selectionWitness at ha
    split_ifs at ha <;> simp [Witness.nodeLabels] at ha
  | .fork d l r, paths, a, ha => by
    unfold selectionWitness at ha
    split_ifs at ha
    · rw [Witness.nodeLabels, List.mem_append] at ha
      rw [levelLabels_fork, List.mem_append]
      exact ha.imp (nodeLabels_selectionWitness l paths a) (nodeLabels_selectionWitness r paths a)
    · simp [Witness.nodeLabels] at ha
  | .node d label inner, paths, a, ha => by
    unfold selectionWitness at ha
    split_ifs at ha <;> simpa [Witness.nodeLabels] using ha

end HashTree

/-! ## What one level consumes -/

namespace Witness

variable {H : HashFns D}

/-- **A level consumes a prefix of the children, each of them at a node of its label.** -/
theorem pruneWitnessSubtree_consumes : ∀ (w : Witness D) {cs : Children} {p : List Label}
    {r : Witness D} {cs' : Children}, pruneWitnessSubtree H w cs p = .ok (r, cs') →
    ∃ pre, cs = pre ++ cs' ∧ ∀ e ∈ pre, e.1 ∈ w.nodeLabels
  | .fork l r, cs, p, res, cs', h => by
    simp only [pruneWitnessSubtree] at h
    obtain ⟨⟨left, cs₁⟩, h₁, h⟩ := Except.bind_eq_ok.mp h
    obtain ⟨⟨right, cs₂⟩, h₂, h⟩ := Except.bind_eq_ok.mp h
    have hrest : cs₂ = cs' := by
      split at h <;> exact (Prod.mk.inj (Except.ok.inj h)).2
    subst hrest
    obtain ⟨pl, rfl, hpl⟩ := pruneWitnessSubtree_consumes l h₁
    obtain ⟨pr, rfl, hpr⟩ := pruneWitnessSubtree_consumes r h₂
    refine ⟨pl ++ pr, (List.append_assoc _ _ _).symm, fun e he => ?_⟩
    rw [nodeLabels, List.mem_append]
    exact (List.mem_append.mp he).imp (hpl e) (hpr e)
  | .node label w, cs, p, res, cs', h => by
    rcases cs with _ | ⟨⟨treeLabel, child⟩, rest⟩
    · cases h
      exact ⟨[], rfl, by simp⟩
    · simp only [pruneWitnessSubtree] at h
      split_ifs at h with hlabel
      · obtain ⟨sub, -, h⟩ := Except.bind_eq_ok.mp h
        have hrest : rest = cs' := by
          split at h <;> exact (Prod.mk.inj (Except.ok.inj h)).2
        subst hrest hlabel
        exact ⟨[(treeLabel, child)], rfl, by simp [nodeLabels]⟩
      · cases h
        exact ⟨[], rfl, by simp⟩
  | .pruned d, cs, p, res, cs', h => by
    cases h
    exact ⟨[], rfl, by simp⟩
  | .known, _, _, _, _, h => by cases h

theorem pruneWitnessSubtree_rest_eq {w : Witness D} {e : Label × LabeledTree (List UInt8)}
    {cs : Children} {p : List Label} {r : Witness D} {cs' : Children}
    (he : e.1 ∉ w.nodeLabels) (h : pruneWitnessSubtree H w (e :: cs) p = .ok (r, cs')) :
    cs' = e :: cs := by
  obtain ⟨pre, hpre, hlabels⟩ := pruneWitnessSubtree_consumes w h
  rcases pre with _ | ⟨e', pre⟩
  · exact hpre.symm
  · obtain ⟨rfl, -⟩ := List.cons.inj hpre
    exact absurd (hlabels e List.mem_cons_self) he

end Witness

/-! ## One level of the pruning -/

section Level

open HashTree Witness

variable {H : HashFns D} (A B : List Path)

/-- The children of the partial tree of `B` at a level. -/
def LevelChildren (x : HashTree D) (bs : Children) : Prop :=
  bs.map Prod.fst = x.levelLabels.filter fun l => below l B ≠ []

/-- What the nodes of a level do when pruned, for `B ⊆ A`: the witness of `A` below a node prunes
with the child of `B` to the witness of `A` without `B`. -/
structure NodesPrune (x : HashTree D) (bs : Children) : Prop where
  subset : ∀ n ∈ x.levelNodes, below n.1 B ≠ [] → below n.1 A ≠ []
  prune : ∀ n ∈ x.levelNodes, ∀ c, (n.1, c) ∈ bs → ∀ p,
    pruneWitnessImpl H (n.2.selectionWitness (below n.1 A)) c p =
      .ok (n.2.selectionWitness (below n.1 (A.removeAll B)))
  ne_pruned : ∀ n ∈ x.levelNodes, below n.1 (A.removeAll B) ≠ [] →
    ∀ e, n.2.selectionWitness (below n.1 (A.removeAll B)) ≠ .pruned e

theorem NodesPrune.of_sub {x y : HashTree D} {bs bs' : Children} (h : NodesPrune (H := H) A B x bs)
    (hsub : ∀ n ∈ y.levelNodes, n ∈ x.levelNodes) (hbs : ∀ c ∈ bs', c ∈ bs) :
    NodesPrune (H := H) A B y bs' :=
  ⟨fun n hn => h.subset n (hsub n hn), fun n hn c hc => h.prune n (hsub n hn) c (hbs _ hc),
    fun n hn => h.ne_pruned n (hsub n hn)⟩

/-- The children of a fork's level split into those of its two sides. -/
theorem LevelChildren.split {d : D} {l r : HashTree D} {bs : Children}
    (h : LevelChildren B (.fork d l r) bs) :
    ∃ bl br, bs = bl ++ br ∧ LevelChildren B l bl ∧ LevelChildren B r br := by
  unfold LevelChildren at h
  rw [levelLabels_fork, List.filter_append] at h
  obtain ⟨bl, br, rfl, hl, hr⟩ := List.map_eq_append_iff.mp h
  exact ⟨bl, br, rfl, hl, hr⟩

/-- **One level of the witness of `A`, pruned with the children of `B ⊆ A`, is the level of the
witness of `A` without `B`**, and consumes exactly those children. -/
theorem pruneWitnessSubtree_selection : ∀ {x : HashTree D}, x.IsLevel → x.Valid H →
    ∀ {bs : Children}, LevelChildren B x bs → NodesPrune (H := H) A B x bs →
    ∀ (rest : Children), (∀ e ∈ rest.head?, ∀ a ∈ x.levelLabels, a < e.1) → ∀ p : List Label,
    pruneWitnessSubtree H (x.selectionWitness A) (bs ++ rest) p =
      .ok (x.selectionWitness (A.removeAll B), rest)
  | .leaf _, hl, _, _, _, _, _, _, _ => absurd hl id
  | .node d label inner, _, hv, bs, hbs, hnodes, rest, hrest, p => by
    have hnode : (label, inner) ∈ (HashTree.node d label inner).levelNodes :=
      List.mem_singleton_self _
    unfold LevelChildren at hbs
    by_cases hB : below label B = []
    · -- nothing of the node is pruned
      have hbs' : bs.map Prod.fst = [] := by simpa [hB] using hbs
      obtain rfl := List.map_eq_nil_iff.mp hbs'
      have hAB : below label (A.removeAll B) = below label A := by
        rw [below_removeAll, hB, List.removeAll_nil]
      rw [List.nil_append, selectionWitness_node, selectionWitness_node, hAB]
      split_ifs with hA
      · rfl
      · rcases rest with _ | ⟨⟨k, c⟩, rest⟩
        · rfl
        · have hk : label < k := hrest _ rfl label (by simp)
          simp only [pruneWitnessSubtree, if_neg (ne_of_lt hk).symm]
          rfl
    · -- the node takes the child of its label
      have hbs' : bs.map Prod.fst = [label] := by simpa [hB] using hbs
      obtain ⟨⟨k, c⟩, rfl, hk⟩ := List.map_eq_singleton_iff.mp hbs'
      obtain rfl : k = label := hk
      have hA := hnodes.subset _ hnode hB
      have hprune := hnodes.prune _ hnode c (List.mem_singleton_self _) (p ++ [k])
      dsimp only at hA hprune
      rw [selectionWitness_node, if_neg hA, List.singleton_append]
      simp only [pruneWitnessSubtree, if_pos rfl, ↓reduceIte]
      rw [show pruneWitnessImplWith H _ _ c (p ++ [k]) = _ from hprune, Except.ok_bind]
      by_cases hAB : below k (A.removeAll B) = []
      · rw [selectionWitness_node, if_pos hAB, hAB, selectionWitness_nil, hv.1]
        rfl
      · have hne := hnodes.ne_pruned _ hnode hAB
        rw [selectionWitness_node, if_neg hAB]
        split
        · next e he => exact absurd he (hne e)
        · rfl
  | .fork d l r, hl, hv, bs, hbs, hnodes, rest, hrest, p => by
    obtain ⟨hd, hll, hrl, -, hlv, hrv⟩ := id hv
    obtain ⟨bl, br, rfl, hbl, hbr⟩ := hbs.split
    have hsubl : ∀ n ∈ l.levelNodes, n ∈ (HashTree.fork d l r).levelNodes := by
      intro n hn
      simp [levelNodes, hn]
    have hsubr : ∀ n ∈ r.levelNodes, n ∈ (HashTree.fork d l r).levelNodes := by
      intro n hn
      simp [levelNodes, hn]
    by_cases hsel : ∃ e, (HashTree.fork d l r).selectionWitness A = .pruned e
    · -- nothing below the fork is selected, so nothing is pruned and nothing is left
      have hnone := (selectionWitness_eq_pruned_iff hl).mp hsel
      have hbs_nil : bl ++ br = [] := by
        have hfilter : (HashTree.fork d l r).levelLabels.filter (fun l => below l B ≠ []) = [] := by
          rw [List.filter_eq_nil_iff]
          intro a ha
          obtain ⟨n, hn, rfl⟩ := List.mem_map.mp ha
          simpa using fun hB => hnodes.subset n hn hB (hnone n hn)
        unfold LevelChildren at hbl hbr
        rw [levelLabels_fork, List.filter_append, List.append_eq_nil_iff] at hfilter
        rw [List.append_eq_nil_iff, ← List.map_eq_nil_iff, ← List.map_eq_nil_iff (l := br), hbl,
          hbr]
        exact hfilter
      have hAB : ∃ e, (HashTree.fork d l r).selectionWitness (A.removeAll B) = .pruned e := by
        refine (selectionWitness_eq_pruned_iff hl).mpr fun n hn => ?_
        rw [below_removeAll, hnone n hn]
        rfl
      obtain ⟨e, he⟩ := hsel
      obtain ⟨e', he'⟩ := hAB
      rw [he, he', hbs_nil, List.nil_append, digest_of_selectionWitness_eq_pruned he,
        digest_of_selectionWitness_eq_pruned he']
      rfl
    · -- the fork is kept: each side prunes its own children
      have hfork : (HashTree.fork d l r).selectionWitness A =
          .fork (l.selectionWitness A) (r.selectionWitness A) := by
        rw [selectionWitness_fork]
        split_ifs with hany
        · rfl
        · exact absurd ⟨d, by rw [selectionWitness_fork, if_neg hany]⟩ hsel
      have hrestl : ∀ e ∈ (br ++ rest).head?, ∀ a ∈ l.levelLabels, a < e.1 := by
        intro e he a ha
        rcases br with _ | ⟨b, br⟩
        · exact hrest e he a (by simp [ha])
        · obtain rfl := Option.some.inj he
          have hb : b.1 ∈ r.levelLabels := by
            unfold LevelChildren at hbr
            exact List.mem_of_mem_filter (hbr ▸ List.mem_map_of_mem List.mem_cons_self)
          exact hv.lt_of_fork ha hb
      have hrestr : ∀ e ∈ rest.head?, ∀ a ∈ r.levelLabels, a < e.1 :=
        fun e he a ha => hrest e he a (by simp [ha])
      rw [hfork, List.append_assoc]
      simp only [pruneWitnessSubtree]
      rw [pruneWitnessSubtree_selection hll hlv hbl
          (hnodes.of_sub A B hsubl fun c hc => List.mem_append_left _ hc) _ hrestl,
        Except.ok_bind]
      dsimp only
      rw [pruneWitnessSubtree_selection hrl hrv hbr
          (hnodes.of_sub A B hsubr fun c hc => List.mem_append_right _ hc) _ hrestr,
        Except.ok_bind]
      dsimp only
      split
      · -- both sides pruned: so is the fork, to its digest
        next el er hel her =>
        have hAB : ∃ e, (HashTree.fork d l r).selectionWitness (A.removeAll B) = .pruned e := by
          refine (selectionWitness_eq_pruned_iff hl).mpr fun n hn => ?_
          simp only [levelNodes, List.mem_append] at hn
          rcases hn with hn | hn
          · exact (selectionWitness_eq_pruned_iff hll).mp ⟨el, hel⟩ n hn
          · exact (selectionWitness_eq_pruned_iff hrl).mp ⟨er, her⟩ n hn
        obtain ⟨e, he⟩ := hAB
        rw [he, digest_of_selectionWitness_eq_pruned he, digest_of_selectionWitness_eq_pruned hel,
          digest_of_selectionWitness_eq_pruned her, HashTree.digest, hd]
        rfl
      · next hnot =>
        have hkept : (HashTree.fork d l r).selectionWitness (A.removeAll B) =
            .fork (l.selectionWitness (A.removeAll B)) (r.selectionWitness (A.removeAll B)) := by
          rw [selectionWitness_fork]
          split_ifs with hany
          · rfl
          · -- no path is left below the fork, so both sides are pruned
            have hnone : ∀ n ∈ (HashTree.fork d l r).levelNodes, below n.1 (A.removeAll B) = [] := by
              intro n hn
              by_contra hb
              exact hany (List.any_eq_true.mpr ⟨n, by simpa [levelNodes] using hn,
                by simpa using hb⟩)
            obtain ⟨el, hel⟩ := (selectionWitness_eq_pruned_iff hll).mpr
              fun n hn => hnone n (hsubl n hn)
            obtain ⟨er, her⟩ := (selectionWitness_eq_pruned_iff hrl).mpr
              fun n hn => hnone n (hsubr n hn)
            exact absurd (hnot el er) (by simp [hel, her])
        rw [hkept]
        rfl

/-- A level fails at a node when `B` selects below it what `A` cannot prune. -/
def NodeFails (bs : Children) (n : Label × HashTree D) : Prop :=
  below n.1 B ≠ [] ∧ (below n.1 A = [] ∨
    ∀ c, (n.1, c) ∈ bs → ∀ p r, pruneWitnessImpl H (n.2.selectionWitness (below n.1 A)) c p ≠ .ok r)

theorem LevelChildren.mem_levelLabels {x : HashTree D} {bs : Children} (h : LevelChildren B x bs)
    {e : Label × LabeledTree (List UInt8)} (he : e ∈ bs) : e.1 ∈ x.levelLabels := by
  unfold LevelChildren at h
  exact List.mem_of_mem_filter (h ▸ List.mem_map_of_mem he)

theorem LevelChildren.ne_nil {x : HashTree D} {bs : Children} (h : LevelChildren B x bs)
    {n : Label × HashTree D} (hn : n ∈ x.levelNodes) (hB : below n.1 B ≠ []) : bs ≠ [] := by
  rintro rfl
  unfold LevelChildren at h
  have : n.1 ∈ x.levelLabels.filter fun l => below l B ≠ [] :=
    List.mem_filter.mpr ⟨List.mem_map_of_mem hn, decide_eq_true hB⟩
  rw [← h] at this
  exact List.not_mem_nil this

theorem append_eq_append_of_labels {L : List Label} {pre cs bl mid : Children}
    (hpre : ∀ e ∈ pre, e.1 ∈ L) (hmid : ∀ e ∈ mid.head?, e.1 ∉ L) (h : pre ++ cs = bl ++ mid) :
    ∃ bl₂, bl = pre ++ bl₂ ∧ cs = bl₂ ++ mid := by
  rcases List.append_eq_append_iff.mp h with ⟨a, hbl, hcs⟩ | ⟨c, hpre', hmid'⟩
  · exact ⟨a, hbl, hcs⟩
  · rcases c with _ | ⟨e, c⟩
    · exact ⟨[], by simpa using hpre'.symm, by simpa using hmid'.symm⟩
    · exact absurd (hpre e (hpre' ▸ List.mem_append_right _ List.mem_cons_self))
        (hmid e (by rw [hmid']; rfl))

/-- **A level of the witness of `A` fails on `B`'s children when it fails at a node**. -/
theorem pruneWitnessSubtree_selection_ne : ∀ {x : HashTree D}, x.IsLevel → x.Valid H →
    ∀ {bs : Children}, LevelChildren B x bs →
    (∃ n ∈ x.levelNodes, NodeFails (H := H) A B bs n) →
    ∀ (rest : Children), (∀ e ∈ rest.head?, ∀ a ∈ x.levelLabels, a < e.1) →
    ∀ (p : List Label) (r : Witness D),
    pruneWitnessSubtree H (x.selectionWitness A) (bs ++ rest) p ≠ .ok (r, rest)
  | .leaf _, hl, _, _, _, _, _, _, _, _ => absurd hl id
  | .node d label inner, _, _, bs, hbs, ⟨n, hn, hB, hfail⟩, rest, _, p, r => by
    rw [levelNodes, List.mem_singleton] at hn
    subst hn
    unfold LevelChildren at hbs
    have hbs' : bs.map Prod.fst = [label] := by simpa [hB] using hbs
    obtain ⟨⟨k, c⟩, rfl, hk⟩ := List.map_eq_singleton_iff.mp hbs'
    obtain rfl : k = label := hk
    rw [selectionWitness_node, List.singleton_append]
    split_ifs with hA
    · -- a pruned node leaves its child behind
      intro h
      cases h
    · simp only [pruneWitnessSubtree, ↓reduceIte]
      intro h
      obtain ⟨res, hres, -⟩ := Except.bind_eq_ok.mp h
      exact (hfail.resolve_left hA) c (List.mem_singleton_self _) _ res hres
  | .fork d l r, hl, hv, bs, hbs, ⟨n, hn, hfails⟩, rest, hrest, p, res => by
    obtain ⟨_, hll, hrl, -, hlv, hrv⟩ := id hv
    obtain ⟨bl, br, rfl, hbl, hbr⟩ := hbs.split
    by_cases hsel : ∃ e, (HashTree.fork d l r).selectionWitness A = .pruned e
    · -- a pruned fork leaves its children behind
      obtain ⟨e, he⟩ := hsel
      have hne := LevelChildren.ne_nil B hbs hn hfails.1
      rw [he]
      intro h
      have hlen := congrArg List.length (Prod.mk.inj (Except.ok.inj h)).2
      simp only [List.length_append] at hlen
      exact hne (List.append_eq_nil_iff.mpr ⟨List.eq_nil_of_length_eq_zero (by omega),
        List.eq_nil_of_length_eq_zero (by omega)⟩)
    · have hfork : (HashTree.fork d l r).selectionWitness A =
          .fork (l.selectionWitness A) (r.selectionWitness A) := by
        rw [selectionWitness_fork]
        split_ifs with hany
        · rfl
        · exact absurd ⟨d, by rw [selectionWitness_fork, if_neg hany]⟩ hsel
      have hrestl : ∀ e ∈ (br ++ rest).head?, ∀ a ∈ l.levelLabels, a < e.1 := by
        intro e he a ha
        rcases br with _ | ⟨b, br⟩
        · exact hrest e he a (by simp [ha])
        · obtain rfl := Option.some.inj he
          exact hv.lt_of_fork ha (LevelChildren.mem_levelLabels B hbr List.mem_cons_self)
      have hrestr : ∀ e ∈ rest.head?, ∀ a ∈ r.levelLabels, a < e.1 :=
        fun e he a ha => hrest e he a (by simp [ha])
      rw [hfork, List.append_assoc]
      simp only [pruneWitnessSubtree]
      intro h
      obtain ⟨⟨left, cs₁⟩, h₁, h⟩ := Except.bind_eq_ok.mp h
      obtain ⟨⟨right, cs₂⟩, h₂, h⟩ := Except.bind_eq_ok.mp h
      have hcs₂ : cs₂ = rest := by
        split at h <;> exact (Prod.mk.inj (Except.ok.inj h)).2
      subst hcs₂
      -- the left side consumes a prefix of its own children
      obtain ⟨pre, hpre, hprelabels⟩ := Witness.pruneWitnessSubtree_consumes _ h₁
      obtain ⟨bl₂, rfl, rfl⟩ := append_eq_append_of_labels
        (L := l.levelLabels) (fun e he => nodeLabels_selectionWitness l A e.1 (hprelabels e he))
        (fun e he hel => lt_irrefl _ (hrestl e he e.1 hel)) hpre.symm
      rcases bl₂ with _ | ⟨b, bl₂⟩
      · -- all of them: the failing node is on one side, which then fails
        rw [List.nil_append] at h₂
        rw [List.append_nil] at h₁ hbl hfails
        rw [levelNodes, List.mem_append] at hn
        rcases hn with hn | hn
        · exact pruneWitnessSubtree_selection_ne hll hlv hbl ⟨n, hn, fun hB => hfails.1 hB,
            hfails.2.imp id fun hc c hmem => hc c (List.mem_append_left _ hmem)⟩ _ hrestl p left h₁
        · exact pruneWitnessSubtree_selection_ne hrl hrv hbr ⟨n, hn, fun hB => hfails.1 hB,
            hfails.2.imp id fun hc c hmem => hc c (List.mem_append_right _ hmem)⟩ _ hrestr p right h₂
      · -- some of them: the right side has no node of the next label, and consumes nothing
        have hb : b.1 ∈ l.levelLabels :=
          LevelChildren.mem_levelLabels B hbl (List.mem_append_right _ List.mem_cons_self)
        have hbr' : b.1 ∉ (r.selectionWitness A).nodeLabels := fun hbr' =>
          lt_irrefl _ (hv.lt_of_fork hb (nodeLabels_selectionWitness r A b.1 hbr'))
        have := Witness.pruneWitnessSubtree_rest_eq hbr' h₂
        have hlen := congrArg List.length this
        simp only [List.append_eq, List.length_append, List.length_cons] at hlen
        omega

end Level

/-! ## The pruning of the witness of a selection -/

namespace LabeledTree

variable {α : Type}

theorem map_fst_restrictChildren : ∀ (children : List (Label × LabeledTree α)) (paths : List Path),
    (restrictChildren children paths).map Prod.fst =
      (children.map Prod.fst).filter fun l => below l paths ≠ []
  | [], _ => rfl
  | (l, t) :: children, paths => by
    rw [restrictChildren, List.map_cons, List.filter_cons]
    by_cases hb : below l paths = []
    · rw [if_pos hb, map_fst_restrictChildren children paths]
      simp [hb]
    · rw [if_neg hb, List.map_cons, map_fst_restrictChildren children paths]
      simp [hb]

theorem mem_restrictChildren : ∀ {children : List (Label × LabeledTree α)} {paths : List Path}
    {l : Label} {t' : LabeledTree α}, (l, t') ∈ restrictChildren children paths →
    ∃ t, (l, t) ∈ children ∧ below l paths ≠ [] ∧ t' = t.restrict (below l paths)
  | [], _, _, _, h => absurd h List.not_mem_nil
  | (k, t) :: children, paths, l, t', h => by
    rw [restrictChildren] at h
    split_ifs at h with hb
    · obtain ⟨u, hu, hlb, rfl⟩ := mem_restrictChildren h
      exact ⟨u, List.mem_cons_of_mem _ hu, hlb, rfl⟩
    · rcases List.mem_cons.mp h with heq | h
      · obtain ⟨rfl, rfl⟩ := Prod.mk.inj heq
        exact ⟨t, List.mem_cons_self, hb, rfl⟩
      · obtain ⟨u, hu, hlb, rfl⟩ := mem_restrictChildren h
        exact ⟨u, List.mem_cons_of_mem _ hu, hlb, rfl⟩

theorem eq_restrict_of_mem_restrictChildren {children : List (Label × LabeledTree α)}
    (hkeys : SortedKeys children) {paths : List Path} {l : Label} {t t' : LabeledTree α}
    (ht : (l, t) ∈ children) (ht' : (l, t') ∈ restrictChildren children paths) :
    below l paths ≠ [] ∧ t' = t.restrict (below l paths) := by
  obtain ⟨u, hu, hb, rfl⟩ := mem_restrictChildren ht'
  have hut : u = t := Option.some.inj
    ((lookup_eq_of_mem hkeys hu).symm.trans (lookup_eq_of_mem hkeys ht))
  exact ⟨hb, hut ▸ rfl⟩

end LabeledTree

theorem removeAll_eq_nil {paths removed : List Path} (h : ∀ q ∈ paths, q ∈ removed) :
    paths.removeAll removed = [] := by
  rw [List.removeAll, List.filter_eq_nil_iff]
  intro q hq
  simp [h q hq]

section Tree

open HashTree Witness

variable {H : HashFns D}

theorem selectionWitness_ne_pruned {t : LabeledTree (List UInt8)} (ht : t.Sorted)
    {paths : List Path} (hne : paths ≠ []) (hpaths : ∀ q ∈ paths, q ∈ t.endPaths) (e : D) :
    (hashTreeOf H t).selectionWitness paths ≠ .pruned e := by
  obtain _ | ⟨hkeys, hcs⟩ := ht
  · rw [hashTreeOf_leaf, selectionWitness, if_neg hne]
    intro h
    cases h
  · rename_i cs
    rcases cs with _ | ⟨c, cs'⟩
    · rw [hashTreeOf_subTree_nil, selectionWitness, if_neg hne]
      intro h
      cases h
    · have hlevel := hashTreeOf_subTree (H := H) (List.cons_ne_nil c cs') hkeys
        fun c hc => valid_hashTreeOf (hcs c hc)
      rw [endPaths_subTree (List.cons_ne_nil c cs')] at hpaths
      intro he
      obtain ⟨q, hq⟩ := List.exists_mem_of_ne_nil paths hne
      obtain ⟨l, u, q', hmem, -, rfl⟩ := mem_childrenEndPaths.mp (hpaths q hq)
      have hnone := (selectionWitness_eq_pruned_iff hlevel.1).mp ⟨e, he⟩ (l, hashTreeOf H u)
        (by rw [hlevel.2.2]; exact List.mem_map_of_mem hmem)
      exact List.ne_nil_of_mem (mem_below.mpr hq) hnone

theorem subTree_level {cs : Children} (hcs : cs ≠ []) (ht : (LabeledTree.subTree cs).Sorted) :
    (hashTreeOf H (.subTree cs)).IsLevel ∧ (hashTreeOf H (.subTree cs)).Valid H ∧
      (hashTreeOf H (.subTree cs)).levelNodes = cs.map fun c => (c.1, hashTreeOf H c.2) := by
  obtain _ | ⟨hkeys, hchildren⟩ := ht
  exact hashTreeOf_subTree hcs hkeys fun c hc => valid_hashTreeOf (hchildren c hc)

/-- **The witness of `A`, pruned with the partial tree of `B ⊆ A`, is the witness of `A` without
`B`**; the induction is on the tree, a `SubTree` pruned level by level. -/
theorem pruneWitnessImpl_restrict {t : LabeledTree (List UInt8)} (ht : t.Sorted) :
    ∀ {A B : List Path}, A ≠ [] → B ≠ [] → (∀ q ∈ A, q ∈ t.endPaths) → (∀ q ∈ B, q ∈ A) →
    ∀ p : List Label, pruneWitnessImpl H ((hashTreeOf H t).selectionWitness A) (t.restrict B) p =
      .ok ((hashTreeOf H t).selectionWitness (A.removeAll B)) := by
  induction ht with
  | leaf bytes =>
    intro A B hA hB hAt hBA p
    -- the only end path is the empty one, selected by both
    have hall : ∀ q ∈ A, q ∈ B := by
      obtain ⟨q, hq⟩ := List.exists_mem_of_ne_nil B hB
      have hq' : q = [] := by simpa [endPaths] using hAt q (hBA q hq)
      intro q' hq'A
      have : q' = [] := by simpa [endPaths] using hAt q' hq'A
      exact this ▸ hq' ▸ hq
    rw [removeAll_eq_nil hall, selectionWitness_nil, hashTreeOf_leaf, selectionWitness,
      if_neg hA, restrict]
    rfl
  | @subTree cs hkeys hcs ih =>
    intro A B hA hB hAt hBA p
    rcases cs with _ | ⟨c, cs'⟩
    · have hall : ∀ q ∈ A, q ∈ B := by
        obtain ⟨q, hq⟩ := List.exists_mem_of_ne_nil B hB
        have hq' : q = [] := by simpa [endPaths] using hAt q (hBA q hq)
        intro q' hq'A
        have : q' = [] := by simpa [endPaths] using hAt q' hq'A
        exact this ▸ hq' ▸ hq
      rw [removeAll_eq_nil hall, selectionWitness_nil, hashTreeOf_subTree_nil, selectionWitness,
        if_neg hA, restrict, restrictChildren]
      rfl
    · have hne : c :: cs' ≠ [] := List.cons_ne_nil _ _
      have hlevel := subTree_level (H := H) hne (.subTree hkeys hcs)
      rw [endPaths_subTree hne] at hAt
      have hBt : ∀ q ∈ B, q ∈ childrenEndPaths (c :: cs') := fun q hq => hAt q (hBA q hq)
      have hbs := restrictChildren_ne_nil hB hBt
      rw [restrict, pruneWitnessImplWith_subTree_eq_ok
        (selectionWitness_ne_pruned (.subTree hkeys hcs) hA (by rwa [endPaths_subTree hne]))
        (selectionWitness_ne_known hlevel.1 A) hbs, ← List.append_nil (restrictChildren _ _)]
      refine pruneWitnessSubtree_selection A B hlevel.1 hlevel.2.1 ?_ ?_ [] (by simp) p
      · unfold LevelChildren
        rw [map_fst_restrictChildren, levelLabels, hlevel.2.2, List.map_map]
        rfl
      · -- every node prunes with the child of its label
        refine ⟨fun n hn hnB => ?_, fun n hn c' hc' p' => ?_, fun n hn hnAB e => ?_⟩ <;>
          rw [hlevel.2.2] at hn
        · obtain ⟨q, hq⟩ := List.exists_mem_of_ne_nil _ hnB
          exact List.ne_nil_of_mem (mem_below.mpr (hBA _ (mem_below.mp hq)))
        · obtain ⟨u, hu, rfl⟩ := List.mem_map.mp hn
          obtain ⟨hb, rfl⟩ := eq_restrict_of_mem_restrictChildren hkeys hu hc'
          have hAu := below_subset_endPaths hkeys hu hAt
          rw [below_removeAll]
          refine ih u hu ?_ hb hAu (fun q hq => ?_) p'
          · obtain ⟨q, hq⟩ := List.exists_mem_of_ne_nil _ hb
            exact List.ne_nil_of_mem (mem_below.mpr (hBA _ (mem_below.mp hq)))
          · exact mem_below.mpr (hBA _ (mem_below.mp hq))
        · obtain ⟨u, hu, rfl⟩ := List.mem_map.mp hn
          refine selectionWitness_ne_pruned (hcs u hu) hnAB (fun q hq => ?_) e
          refine below_subset_endPaths hkeys hu hAt q ?_
          rw [below_removeAll] at hq
          exact List.mem_of_mem_filter hq

/-- **Pruning the witness of `A` by a selection with a path outside `A` fails**. -/
theorem pruneWitnessImpl_restrict_ne {t : LabeledTree (List UInt8)} (ht : t.Sorted) :
    ∀ {A B : List Path}, A ≠ [] → (∀ q ∈ A, q ∈ t.endPaths) → (∀ q ∈ B, q ∈ t.endPaths) →
    (∃ q ∈ B, q ∉ A) → ∀ (p : List Label) (r : Witness D),
    pruneWitnessImpl H ((hashTreeOf H t).selectionWitness A) (t.restrict B) p ≠ .ok r := by
  induction ht with
  | leaf bytes =>
    -- the only end path is the empty one, selected by `A`
    intro A B hA hAt hBt ⟨q, hqB, hqA⟩
    obtain ⟨q', hq'⟩ := List.exists_mem_of_ne_nil A hA
    have h1 : q = [] := by simpa [endPaths] using hBt q hqB
    have h2 : q' = [] := by simpa [endPaths] using hAt q' hq'
    exact absurd (h1 ▸ h2 ▸ hq') hqA
  | @subTree cs hkeys hcs ih =>
    intro A B hA hAt hBt ⟨q, hqB, hqA⟩ p r
    rcases cs with _ | ⟨c, cs'⟩
    · obtain ⟨q', hq'⟩ := List.exists_mem_of_ne_nil A hA
      have h1 : q = [] := by simpa [endPaths] using hBt q hqB
      have h2 : q' = [] := by simpa [endPaths] using hAt q' hq'
      exact absurd (h1 ▸ h2 ▸ hq') hqA
    · have hne : c :: cs' ≠ [] := List.cons_ne_nil _ _
      have hlevel := subTree_level (H := H) hne (.subTree hkeys hcs)
      rw [endPaths_subTree hne] at hAt hBt
      have hbs := restrictChildren_ne_nil (List.ne_nil_of_mem hqB) hBt
      rw [restrict, ne_eq, pruneWitnessImplWith_subTree_eq_ok
        (selectionWitness_ne_pruned (.subTree hkeys hcs) hA (by rwa [endPaths_subTree hne]))
        (selectionWitness_ne_known hlevel.1 A) hbs, ← List.append_nil (restrictChildren _ _)]
      -- the level fails at the label of the path outside `A`
      obtain ⟨l, u, q', hmem, hq', rfl⟩ := mem_childrenEndPaths.mp (hBt _ hqB)
      refine pruneWitnessSubtree_selection_ne A B hlevel.1 hlevel.2.1 ?_
        ⟨(l, hashTreeOf H u), by rw [hlevel.2.2]; exact List.mem_map_of_mem hmem,
          List.ne_nil_of_mem (mem_below.mpr hqB), ?_⟩ [] (by simp) p r
      · unfold LevelChildren
        rw [map_fst_restrictChildren, levelLabels, hlevel.2.2, List.map_map]
        rfl
      · by_cases hAl : below l A = []
        · exact Or.inl hAl
        · refine Or.inr fun c' hc' p' r' => ?_
          obtain ⟨-, rfl⟩ := eq_restrict_of_mem_restrictChildren hkeys hmem hc'
          exact ih (l, u) hmem hAl (below_subset_endPaths hkeys hmem hAt)
            (below_subset_endPaths hkeys hmem hBt)
            ⟨q', mem_below.mpr hqB, fun h => hqA (mem_below.mp h)⟩ p' r'

end Tree

end IC.TreeHash
