import InternetComputer.TreeHash.WitnessGenerator

/-!
# The sparse tree of a list of paths

What `sparse_labeled_tree_from_paths` computes for every list of paths: the paths are sorted, a
walk that meets a leaf stops there, and the empty path walks nothing.

* `insertPath_spec`, `foldlM_insertPath_spec`: one walk, and the walks of sorted paths;
* **`sparseLabeledTreeFromPaths_eq`**: the leaf paths are the non-empty paths with no non-empty
  proper prefix among the paths; `sparseLabeledTreeFromPaths_ignores_empty_path`.
-/

namespace IC.TreeHash

open MixedHashTree LabeledTree

/-! ## Full trees -/

/-- No subtree is empty: the tree of a selection of paths, each ending at a leaf. -/
inductive LabeledTree.Full {α : Type} : LabeledTree α → Prop
  | leaf (value : α) : Full (.leaf value)
  | subTree {children : List (Label × LabeledTree α)} :
      children ≠ [] → (∀ c ∈ children, Full c.2) → Full (.subTree children)

namespace LabeledTree

variable {α : Type}

theorem Full.leafPaths_ne_nil : ∀ {t : LabeledTree α}, t.Full → t.leafPaths ≠ []
  | .leaf _, _ => by simp
  | .subTree children, .subTree hne hchildren => by
    obtain ⟨⟨l, c⟩, hc⟩ := List.exists_mem_of_ne_nil children hne
    obtain ⟨q, hq⟩ := List.exists_mem_of_ne_nil _ (leafPaths_ne_nil (hchildren _ hc))
    exact List.ne_nil_of_mem (mem_leafPaths_subTree.mpr ⟨l, c, q, hc, hq, rfl⟩)

theorem Full.isEmptySubTree {t : LabeledTree Unit} (h : t.Full) : t.isEmptySubTree = false := by
  obtain _ | ⟨hne, -⟩ := h
  · rfl
  · exact isEmptySubTree_subTree hne

end LabeledTree

/-! ## Paths and children -/

theorem nil_le_path (p : Path) : [] ≤ p := by
  rcases p with _ | ⟨a, p⟩
  · exact le_rfl
  · exact (List.nil_lt_cons a p).le

theorem eq_nil_of_le_nil {p : Path} (h : p ≤ []) : p = [] := le_antisymm h (nil_le_path p)

theorem le_of_isPrefix {r p : Path} (h : r <+: p) : r ≤ p := by
  obtain ⟨s, rfl⟩ := h
  rcases s with _ | ⟨a, s⟩
  · rw [List.append_nil]
  · have hlt : r ++ [] < r ++ a :: s := List.append_left_lt (List.nil_lt_cons a s)
    rw [List.append_nil] at hlt
    exact hlt.le

theorem head_le_of_cons_le {k l : Label} {q r : Path} (h : k :: q ≤ l :: r) : k ≤ l := by
  rcases le_iff_lt_or_eq.mp h with h | h
  · rcases List.cons_lt_cons_iff.mp h with h | ⟨rfl, -⟩
    · exact h.le
    · exact le_rfl
  · exact (List.cons.inj h).1.le

theorem cons_le_cons_self_iff {l : Label} {q r : Path} : l :: q ≤ l :: r ↔ q ≤ r := by
  rw [le_iff_lt_or_eq, le_iff_lt_or_eq, List.cons_lt_cons_self]
  simp only [List.cons.injEq, true_and]

namespace FlatMap

variable {β : Type}

theorem map_fst_set (m : List (Label × β)) (key : Label) (value : β) :
    (set m key value).map Prod.fst = m.map Prod.fst := by
  rw [set, List.map_map]
  refine List.map_congr_left fun e _ => ?_
  simp only [Function.comp_apply]
  split_ifs with h
  · exact h.symm
  · rfl

theorem lookup_set (m : List (Label × β)) (key l : Label) (value : β) :
    (set m key value).lookup l =
      if l = key then (m.lookup key).map fun _ => value else m.lookup l := by
  induction m with
  | nil => split_ifs <;> rfl
  | cons e m ih =>
    obtain ⟨k, v⟩ := e
    by_cases hk : k = key
    · -- the head is the entry written
      subst hk
      have hhead : set ((k, v) :: m) k value = (k, value) :: set m k value := by simp [set]
      rw [hhead]
      by_cases hl : l = k
      · subst hl
        simp
      · simp [List.lookup_cons, beq_false_of_ne hl, ih, hl]
    · have hhead : set ((k, v) :: m) key value = (k, v) :: set m key value := by simp [set, hk]
      rw [hhead]
      by_cases hlk : l = k
      · subst hlk
        simp [hk]
      · by_cases hl : l = key
        · subst hl
          simp [List.lookup_cons, beq_false_of_ne hlk, ih]
        · simp [List.lookup_cons, beq_false_of_ne hlk, ih, hl]

end FlatMap

namespace LabeledTree

variable {α : Type}

theorem mem_leafPaths_iff_lookup {m : List (Label × LabeledTree α)} (hm : SortedKeys m) {q : Path} :
    q ∈ (subTree m).leafPaths ↔ ∃ l r c, m.lookup l = some c ∧ r ∈ c.leafPaths ∧ q = l :: r := by
  rw [mem_leafPaths_subTree]
  constructor
  · rintro ⟨l, c, r, hc, hr, rfl⟩
    exact ⟨l, r, c, lookup_eq_of_mem hm hc, hr, rfl⟩
  · rintro ⟨l, r, c, hc, hr, rfl⟩
    exact ⟨l, c, r, FlatMap.mem_of_lookup_eq_some hc, hr, rfl⟩

theorem mem_leafPaths_set {m : List (Label × LabeledTree α)} {label : Label}
    {child child' : LabeledTree α} {rest : Path} {fresh : Prop} (hm : SortedKeys m)
    (hchild : m.lookup label = some child)
    (hleaves : ∀ r, r ∈ child'.leafPaths ↔ r ∈ child.leafPaths ∨ (r = rest ∧ fresh)) (q : Path) :
    q ∈ (subTree (FlatMap.set m label child')).leafPaths ↔
      q ∈ (subTree m).leafPaths ∨ (q = label :: rest ∧ fresh) := by
  have hs : SortedKeys (FlatMap.set m label child') := by
    unfold SortedKeys
    rw [FlatMap.map_fst_set]
    exact hm
  have hset : (FlatMap.set m label child').lookup label = some child' := by
    rw [FlatMap.lookup_set, if_pos rfl, hchild, Option.map_some]
  rw [mem_leafPaths_iff_lookup hs, mem_leafPaths_iff_lookup hm]
  constructor
  · rintro ⟨l, r, c, hc, hr, rfl⟩
    by_cases hl : l = label
    · subst hl
      obtain rfl := Option.some.inj (hc.symm.trans hset)
      rcases (hleaves r).mp hr with hr | ⟨rfl, hfresh⟩
      · exact Or.inl ⟨l, r, child, hchild, hr, rfl⟩
      · exact Or.inr ⟨rfl, hfresh⟩
    · rw [FlatMap.lookup_set, if_neg hl] at hc
      exact Or.inl ⟨l, r, c, hc, hr, rfl⟩
  · rintro (⟨l, r, c, hc, hr, rfl⟩ | ⟨rfl, hfresh⟩)
    · by_cases hl : l = label
      · subst hl
        obtain rfl := Option.some.inj (hc.symm.trans hchild)
        exact ⟨l, r, child', hset, (hleaves r).mpr (Or.inl hr), rfl⟩
      · exact ⟨l, r, c, by rw [FlatMap.lookup_set, if_neg hl, hc], hr, rfl⟩
    · exact ⟨label, rest, child', hset, (hleaves rest).mpr (Or.inr ⟨rfl, hfresh⟩), rfl⟩

theorem mem_leafPaths_of_entries {m m₁ : List (Label × LabeledTree α)} {label : Label}
    {child : LabeledTree α} (hsub : ∀ e ∈ m, e ∈ m₁) (hsup : ∀ e ∈ m₁, e ∈ m ∨ e = (label, child))
    (hmem : (label, child) ∈ m₁) (q : Path) :
    q ∈ (subTree m₁).leafPaths ↔
      q ∈ (subTree m).leafPaths ∨ ∃ r ∈ child.leafPaths, q = label :: r := by
  rw [mem_leafPaths_subTree, mem_leafPaths_subTree]
  constructor
  · rintro ⟨l, c, r, hc, hr, rfl⟩
    rcases hsup _ hc with hc | hc
    · exact Or.inl ⟨l, c, r, hc, hr, rfl⟩
    · obtain ⟨rfl, rfl⟩ := Prod.mk.inj hc
      exact Or.inr ⟨r, hr, rfl⟩
  · rintro (⟨l, c, r, hc, hr, rfl⟩ | ⟨r, hr, rfl⟩)
    · exact ⟨l, c, r, hsub _ hc, hr, rfl⟩
    · exact ⟨label, child, r, hmem, hr, rfl⟩

end LabeledTree

/-! ## One walk -/

theorem appendLabel_spec {m : List (Label × LabeledTree Unit)} {label : Label} (last : Bool)
    (hm : SortedKeys m) (hle : ∀ k ∈ m.map Prod.fst, k ≤ label) :
    ∃ m₁ child, appendLabel m label last = .ok m₁ ∧ SortedKeys m₁ ∧
      m₁.lookup label = some child ∧ (∀ e ∈ m, e ∈ m₁) ∧ (∀ e ∈ m₁, e ∈ m ∨ e = (label, child)) ∧
      ((label, child) ∈ m ∨
        label ∉ m.map Prod.fst ∧ child = if last then .leaf () else .subTree []) := by
  by_cases hc : FlatMap.containsKey m label = true
  · obtain ⟨child, hchild⟩ := Option.isSome_iff_exists.mp hc
    exact ⟨m, child, by rw [appendLabel, if_pos hc]; rfl, hm, hchild, fun _ he => he,
      fun _ he => Or.inl he, Or.inl (FlatMap.mem_of_lookup_eq_some hchild)⟩
  · have hfresh : label ∉ m.map Prod.fst := fun hk => hc (FlatMap.lookup_isSome_of_mem hk)
    have hlt : ∀ k ∈ m.map Prod.fst, k < label := fun k hk =>
      lt_of_le_of_ne (hle k hk) fun hkl => hfresh (hkl ▸ hk)
    have hs : SortedKeys (m ++ [(label, if last then .leaf () else .subTree [])]) := by
      unfold SortedKeys
      rw [List.map_append, List.pairwise_append]
      refine ⟨hm, List.pairwise_singleton _ _, fun a ha b hb => ?_⟩
      rw [List.map_singleton, List.mem_singleton] at hb
      exact hb ▸ hlt a ha
    refine ⟨_, _, by rw [appendLabel, if_neg hc, FlatMap.tryAppend_of_sortedKeys hs]; rfl, hs,
      lookup_eq_of_mem hs (List.mem_append_right _ (List.mem_singleton_self _)),
      fun e he => List.mem_append_left _ he, fun e he => ?_, Or.inr ⟨hfresh, rfl⟩⟩
    rcases List.mem_append.mp he with he | he
    · exact Or.inl he
    · exact Or.inr (List.mem_singleton.mp he)

/-- **One walk** into a sorted tree ends at a new leaf, unless a leaf path is a prefix of it and
the walk stops there; by induction on the path. -/
theorem insertPath_spec : ∀ (p : Path) {T : LabeledTree Unit}, T.Sorted →
    (T.Full ∨ T = .subTree [] ∧ p ≠ []) → (∀ q ∈ T.leafPaths, q ≤ p) →
    ∃ T', insertPath T p = .ok T' ∧ T'.Sorted ∧ T'.Full ∧
      ∀ q, q ∈ T'.leafPaths ↔ q ∈ T.leafPaths ∨ (q = p ∧ ∀ r ∈ T.leafPaths, ¬ r <+: p)
  | p, .leaf (), _, _, _ => by
    refine ⟨.leaf (), by cases p <;> rfl, .leaf (), .leaf (), fun q => ?_⟩
    simp [leafPaths_leaf, List.nil_prefix]
  | [], .subTree m, _, hT, hle => by
    rcases hT with hfull | ⟨-, hne⟩
    · obtain ⟨q, hq⟩ := List.exists_mem_of_ne_nil _ hfull.leafPaths_ne_nil
      obtain ⟨l, c, r, -, -, rfl⟩ := mem_leafPaths_subTree.mp hq
      exact nomatch eq_nil_of_le_nil (hle _ hq)
    · exact absurd rfl hne
  | label :: rest, .subTree m, hs, hT, hle => by
    obtain _ | ⟨hkeys, hchildren⟩ := hs
    have hfulls : ∀ c ∈ m, c.2.Full := by
      rcases hT with hfull | ⟨h, -⟩
      · obtain _ | ⟨-, hfulls⟩ := hfull
        exact hfulls
      · cases h
        exact fun _ h => absurd h List.not_mem_nil
    have hkle : ∀ k ∈ m.map Prod.fst, k ≤ label := by
      intro k hk
      obtain ⟨⟨k, c⟩, hc, rfl⟩ := List.mem_map.mp hk
      obtain ⟨r, hr⟩ := List.exists_mem_of_ne_nil _ (hfulls _ hc).leafPaths_ne_nil
      exact head_le_of_cons_le (hle _ (mem_leafPaths_subTree.mpr ⟨k, c, r, hc, hr, rfl⟩))
    obtain ⟨m₁, child, happ, hkeys₁, hchild, hsub, hsup, hcases⟩ :=
      appendLabel_spec rest.isEmpty hkeys hkle
    have hentries := mem_leafPaths_of_entries hsub hsup (FlatMap.mem_of_lookup_eq_some hchild)
    have hchild_pre : child.Sorted ∧ (child.Full ∨ child = .subTree [] ∧ rest ≠ []) ∧
        ∀ q ∈ child.leafPaths, q ≤ rest := by
      rcases hcases with hold | ⟨-, rfl⟩
      · exact ⟨hchildren _ hold, Or.inl (hfulls _ hold), fun q hq => cons_le_cons_self_iff.mp
          (hle _ (mem_leafPaths_subTree.mpr ⟨_, _, q, hold, hq, rfl⟩))⟩
      · cases hrest : rest.isEmpty
        · refine ⟨.subTree (by simp [SortedKeys]) (by simp), Or.inr ⟨rfl, ?_⟩, by simp⟩
          simpa using hrest
        · rw [List.isEmpty_iff.mp hrest]
          exact ⟨.leaf (), Or.inl (.leaf ()), by simp⟩
    obtain ⟨hcs, hcT, hcle⟩ := hchild_pre
    obtain ⟨child', hins, hs', hfull', hleaves'⟩ := insertPath_spec rest hcs hcT hcle
    have hset : ∀ c ∈ FlatMap.set m₁ label child', c = (label, child') ∨ c ∈ m := by
      intro c hc
      rcases FlatMap.mem_set hc with rfl | ⟨hc, hcl⟩
      · exact Or.inl rfl
      · exact Or.inr ((hsup c hc).resolve_right fun h => hcl (by rw [h]))
    refine ⟨.subTree (FlatMap.set m₁ label child'), ?_, ?_, ?_, fun q => ?_⟩
    · rw [insertPath, happ, Except.ok_bind, hchild]
      change Except.ok child >>= _ = _
      rw [Except.ok_bind, hins, Except.ok_bind]
      rfl
    · refine .subTree (by unfold SortedKeys; rw [FlatMap.map_fst_set]; exact hkeys₁) fun c hc => ?_
      rcases hset c hc with rfl | hc
      · exact hs'
      · exact hchildren c hc
    · refine .subTree (fun h => ?_) fun c hc => ?_
      · rw [← List.map_eq_nil_iff (f := Prod.fst), FlatMap.map_fst_set, List.map_eq_nil_iff] at h
        simp [h] at hchild
      · rcases hset c hc with rfl | hc
        · exact hfull'
        · exact hfulls c hc
    · rw [mem_leafPaths_set hkeys₁ hchild hleaves', hentries]
      rcases hcases with hold | ⟨hfresh, rfl⟩
      · -- an old child: the leaf paths below the label are the node's
        have hin : ∀ r ∈ child.leafPaths, label :: r ∈ (subTree m).leafPaths := fun r hr =>
          mem_leafPaths_subTree.mpr ⟨_, _, r, hold, hr, rfl⟩
        have hcond : (∀ r ∈ child.leafPaths, ¬ r <+: rest) ↔
            ∀ r ∈ (subTree m).leafPaths, ¬ r <+: label :: rest := by
          constructor
          · intro h r hr hpre
            obtain ⟨l, c, r', hc, hr', rfl⟩ := mem_leafPaths_subTree.mp hr
            obtain ⟨rfl, hpre'⟩ := List.cons_prefix_cons.mp hpre
            obtain rfl : c = child := Option.some.inj
              ((lookup_eq_of_mem hkeys hc).symm.trans (lookup_eq_of_mem hkeys hold))
            exact h r' hr' hpre'
          · intro h r hr hpre
            exact h _ (hin r hr) ((List.prefix_cons_inj label).mpr hpre)
        rw [hcond]
        constructor
        · rintro ((hq | ⟨r, hr, rfl⟩) | hq)
          · exact Or.inl hq
          · exact Or.inl (hin r hr)
          · exact Or.inr hq
        · rintro (hq | hq)
          · exact Or.inl (Or.inl hq)
          · exact Or.inr hq
      · have hcond : ∀ r ∈ (subTree m).leafPaths, ¬ r <+: label :: rest := by
          intro r hr hpre
          obtain ⟨l, c, r', hc, -, rfl⟩ := mem_leafPaths_subTree.mp hr
          obtain ⟨rfl, -⟩ := List.cons_prefix_cons.mp hpre
          exact hfresh (List.mem_map_of_mem hc)
        cases hrest : rest.isEmpty
        · simp [leafPaths_subTree_nil, and_iff_left hcond]
        · rw [List.isEmpty_iff.mp hrest] at hcond ⊢
          simp [leafPaths_leaf, and_iff_left hcond]

/-! ## The walks of sorted paths -/

theorem foldlM_insertPath_filter : ∀ ps : List Path, ps.Pairwise (· ≤ ·) →
    ps.foldlM insertPath (.subTree []) =
      (ps.filter fun p => !p.isEmpty).foldlM insertPath (.subTree [])
  | [], _ => rfl
  | p :: ps, hsorted => by
    rw [List.pairwise_cons] at hsorted
    rcases p with _ | ⟨l, p⟩
    · rw [List.foldlM_cons, List.filter_cons_of_neg (by simp)]
      exact foldlM_insertPath_filter ps hsorted.2
    · have hps : ps.filter (fun p => !p.isEmpty) = ps := List.filter_eq_self.mpr fun r hr => by
        rcases r with _ | ⟨a, r⟩
        · exact absurd (eq_nil_of_le_nil (hsorted.1 [] hr)) (List.cons_ne_nil _ _)
        · rfl
      rw [List.filter_cons_of_pos (by simp), hps]

theorem mem_after_walk_iff {L L₁ ps : List Path} {p : Path}
    (hL₁ : ∀ q, q ∈ L₁ ↔ q ∈ L ∨ (q = p ∧ ∀ r ∈ L, ¬ r <+: p)) (hp : ∀ r ∈ ps, p ≤ r)
    (q : Path) :
    (q ∈ L₁ ∨ (q ∈ ps ∧ ∀ r, r ∈ L₁ ∨ r ∈ ps → r <+: q → r = q)) ↔
      (q ∈ L ∨ (q ∈ p :: ps ∧ ∀ r, r ∈ L ∨ r ∈ p :: ps → r <+: q → r = q)) := by
  constructor
  · rintro (hq | ⟨hq, hmin⟩)
    · rcases (hL₁ q).mp hq with hq | ⟨rfl, hfresh⟩
      · exact Or.inl hq
      · refine Or.inr ⟨List.mem_cons_self, fun r hr hpre => ?_⟩
        rcases hr with hr | hr
        · exact absurd hpre (hfresh r hr)
        · rcases List.mem_cons.mp hr with rfl | hr
          · rfl
          · exact le_antisymm (le_of_isPrefix hpre) (hp r hr)
    · refine Or.inr ⟨List.mem_cons_of_mem _ hq, fun r hr hpre => ?_⟩
      rcases hr with hr | hr
      · exact hmin r (Or.inl ((hL₁ r).mpr (Or.inl hr))) hpre
      rcases List.mem_cons.mp hr with rfl | hr
      · by_cases hr₁ : r ∈ L₁
        · exact hmin r (Or.inl hr₁) hpre
        -- the walked path stopped at a leaf path, which is then `q`
        have hbelow : ∃ r' ∈ L, r' <+: r := by
          by_contra hno
          push Not at hno
          exact hr₁ ((hL₁ r).mpr (Or.inr ⟨rfl, hno⟩))
        obtain ⟨r', hr', hpre'⟩ := hbelow
        obtain rfl := hmin r' (Or.inl ((hL₁ r').mpr (Or.inl hr'))) (hpre'.trans hpre)
        exact le_antisymm (le_of_isPrefix hpre) (le_of_isPrefix hpre')
      · exact hmin r (Or.inr hr) hpre
  · rintro (hq | ⟨hq, hmin⟩)
    · exact Or.inl ((hL₁ q).mpr (Or.inl hq))
    rcases List.mem_cons.mp hq with rfl | hq
    · refine Or.inl ((hL₁ q).mpr ?_)
      by_cases hbelow : ∃ r ∈ L, r <+: q
      · obtain ⟨r, hr, hpre⟩ := hbelow
        exact Or.inl (hmin r (Or.inl hr) hpre ▸ hr)
      · push Not at hbelow
        exact Or.inr ⟨rfl, hbelow⟩
    · refine Or.inr ⟨hq, fun r hr hpre => ?_⟩
      rcases hr with hr | hr
      · rcases (hL₁ r).mp hr with hr | ⟨rfl, -⟩
        · exact hmin r (Or.inl hr) hpre
        · exact hmin r (Or.inr List.mem_cons_self) hpre
      · exact hmin r (Or.inr (List.mem_cons_of_mem _ hr)) hpre

/-- **The walks of sorted non-empty paths**: a sorted node whose leaf paths are the old ones and
the walked ones with no proper prefix among them. -/
theorem foldlM_insertPath_spec : ∀ (ps : List Path) {T : LabeledTree Unit}, T.Sorted →
    (T.Full ∨ T = .subTree []) → ps.Pairwise (· ≤ ·) → (∀ p ∈ ps, p ≠ []) →
    (∀ q ∈ T.leafPaths, ∀ p ∈ ps, q ≤ p) →
    ∃ T', ps.foldlM insertPath T = .ok T' ∧ T'.Sorted ∧ (T'.Full ∨ T' = T ∧ ps = []) ∧
      ∀ q, q ∈ T'.leafPaths ↔ q ∈ T.leafPaths ∨
        (q ∈ ps ∧ ∀ r, r ∈ T.leafPaths ∨ r ∈ ps → r <+: q → r = q)
  | [], T, hs, _, _, _, _ => ⟨T, rfl, hs, Or.inr ⟨rfl, rfl⟩, fun q => by simp⟩
  | p :: ps, T, hs, hT, hsorted, hne, hle => by
    rw [List.pairwise_cons] at hsorted
    have hp : p ∈ p :: ps := List.mem_cons_self
    obtain ⟨T₁, hins, hs₁, hfull₁, hleaves₁⟩ := insertPath_spec p hs
      (hT.imp_right fun h => ⟨h, hne p hp⟩) (fun q hq => hle q hq p hp)
    obtain ⟨T', hrun, hs', hfull', hleaves'⟩ := foldlM_insertPath_spec ps hs₁ (Or.inl hfull₁)
      hsorted.2 (fun p hp => hne p (List.mem_cons_of_mem _ hp))
      (fun q hq r hr => by
        rcases (hleaves₁ q).mp hq with hq | ⟨rfl, -⟩
        · exact hle q hq r (List.mem_cons_of_mem _ hr)
        · exact hsorted.1 r hr)
    refine ⟨T', by rw [List.foldlM_cons, hins, Except.ok_bind]; exact hrun, hs',
      Or.inl (hfull'.elim id fun h => h.1 ▸ hfull₁), fun q => ?_⟩
    rw [hleaves']
    exact mem_after_walk_iff hleaves₁ hsorted.1 q

/-- **The sparse tree of a list of paths**, by its leaf paths. -/
theorem sparseLabeledTreeFromPaths_eq (paths : List Path) :
    ∃ sel, sparseLabeledTreeFromPaths paths = .ok sel ∧ sel.Sorted ∧ sel.Full ∧
      (sel = .leaf () ↔ ∀ p ∈ paths, p = []) ∧
      ∀ q, q ∈ sel.leafPaths ↔ ((∀ p ∈ paths, p = []) ∧ q = []) ∨
        (q ∈ paths ∧ q ≠ [] ∧ ∀ r ∈ paths, r ≠ [] → r <+: q → r = q) := by
  have hperm := List.perm_insertionSort (· ≤ ·) paths
  have hsorted := List.pairwise_insertionSort (· ≤ ·) paths
  have hfilter := foldlM_insertPath_filter _ hsorted
  have hmem : ∀ q, q ∈ (paths.insertionSort (· ≤ ·)).filter (fun p => !p.isEmpty) ↔
      q ∈ paths ∧ q ≠ [] := fun q => by simp [hperm.mem_iff]
  by_cases hall : ∀ p ∈ paths, p = []
  · have hnil : (paths.insertionSort (· ≤ ·)).filter (fun p => !p.isEmpty) = [] :=
      List.eq_nil_iff_forall_not_mem.mpr fun q hq => ((hmem q).mp hq).2 (hall q ((hmem q).mp hq).1)
    refine ⟨.leaf (), ?_, .leaf (), .leaf (), iff_of_true rfl hall, fun q => ?_⟩
    · rw [sparseLabeledTreeFromPaths, hfilter, hnil]
      rfl
    · rw [leafPaths_leaf, List.mem_singleton]
      constructor
      · exact fun hq => Or.inl ⟨hall, hq⟩
      · rintro (⟨-, hq⟩ | ⟨hq, hne, -⟩)
        · exact hq
        · exact absurd (hall q hq) hne
  · obtain ⟨T, hrun, hs, hfull, hleaves⟩ := foldlM_insertPath_spec _
      (.subTree (by simp [SortedKeys]) (by simp)) (Or.inr rfl) (hsorted.filter _)
      (fun p hp => ((hmem p).mp hp).2) (by simp)
    obtain ⟨m', rfl, -, -⟩ := foldlM_insertPath _ hrun
    have hTfull : (subTree m').Full := hfull.resolve_right fun ⟨_, h⟩ => hall fun p hp => by
      by_contra hne
      exact List.not_mem_nil (h ▸ (hmem p).mpr ⟨hp, hne⟩)
    refine ⟨_, ?_, hs, hTfull, iff_of_false (nomatch ·) hall, fun q => ?_⟩
    · rw [sparseLabeledTreeFromPaths, hfilter, hrun, Except.ok_bind, hTfull.isEmptySubTree]
      rfl
    · rw [hleaves, leafPaths_subTree_nil]
      simp [hmem, hall, and_assoc]

/-- **The empty path is no prefix to the walks**: listed with another path, it is dropped. -/
theorem sparseLabeledTreeFromPaths_ignores_empty_path :
    ([] : Path) <+: [[1]] ∧
      sparseLabeledTreeFromPaths [[], [[1]]] = .ok (.subTree [([1], .leaf ())]) ∧
      (LabeledTree.subTree [([1], .leaf ())] : LabeledTree Unit).leafPaths = [[[1]]] :=
  ⟨List.nil_prefix, rfl, rfl⟩

/-- **The sparse tree of a non-empty, prefix-free list of paths** has the paths as leaf paths. -/
theorem sparseLabeledTreeFromPaths_spec {paths : List Path} (hne : paths ≠ [])
    (hpf : ∀ q ∈ paths, ∀ r ∈ paths, q <+: r → q = r) :
    ∃ sel, sparseLabeledTreeFromPaths paths = .ok sel ∧ sel.Sorted ∧ sel.Full ∧
      ∀ q, q ∈ sel.leafPaths ↔ q ∈ paths := by
  obtain ⟨sel, hsel, hs, hfull, -, hleaves⟩ := sparseLabeledTreeFromPaths_eq paths
  refine ⟨sel, hsel, hs, hfull, fun q => ?_⟩
  rw [hleaves]
  by_cases hnil : [] ∈ paths
  · have hall : ∀ p ∈ paths, p = [] := fun p hp => (hpf [] hnil p hp List.nil_prefix).symm
    constructor
    · rintro (⟨-, rfl⟩ | ⟨hq, -⟩)
      · exact hnil
      · exact hq
    · exact fun hq => Or.inl ⟨hall, hall q hq⟩
  · have hsome : ¬ ∀ p ∈ paths, p = [] := fun hall => by
      obtain ⟨p, hp⟩ := List.exists_mem_of_ne_nil _ hne
      exact hnil (hall p hp ▸ hp)
    constructor
    · rintro (⟨hall, -⟩ | ⟨hq, -⟩)
      · exact absurd hall hsome
      · exact hq
    · exact fun hq => Or.inr ⟨hq, fun h => hnil (h ▸ hq), fun r hr _ hpre => hpf r hr q hq hpre⟩

end IC.TreeHash
