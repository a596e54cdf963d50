import InternetComputer.Registry.Registry
import InternetComputer.Lib.VersionedMap
import InternetComputer.Lib.Lists

/-!
# The registry refines a versioned history

The registry's meaning is a history: the non-empty batches it accepted, in order, each a list of
writes. Version `v` of the map is the first `v` batches applied to the empty map; the store is
that history seen key by key, each value tagged with its batch's version.

* `Refines`: the store, the version and the changelog read off a history;
* **`refines_maybeApplyMutationInternal`**, **`refines_upgrade`**: a call keeps the relation;
* **`Refines.get_map_value`**, **`Refines.getChangesSince_spec`**: the reads from the relation;
* **`refines_run`**, **`registry_refines_versionedHistory`**: every run of calls from a new
  registry.

Versions are natural numbers: a `u64` version would wrap only after `2^64` batches.
-/

namespace IC.RegistryCanister

open Registry

/-! ## The history -/

/-- The write a mutation of a known type makes. -/
def writeOf (m : RegistryMutation) : Write Key (List UInt8) :=
  if m.mutationType = MutationType.delete.toI32 then .remove m.key else .set m.key m.value

/-- The history of the accepted batches. -/
def historyOf (h : List (List RegistryMutation)) : History Key (List UInt8) :=
  h.map fun b => b.map writeOf

/-- The value a mutation appends to its key's values at a version. -/
def toValue (version : ℕ) (m : RegistryMutation) : RegistryValue :=
  ⟨m.value, version, decide (m.mutationType = MutationType.delete.toI32)⟩

/-- A key's values in the history: each of its mutations with its batch's version, in order. -/
def valuesOf (h : List (List RegistryMutation)) (k : Key) : List RegistryValue :=
  ((tagFrom 1 h).filter fun e => decide (e.2.key = k)).map fun e => toValue e.1 e.2

/-- What a list of a key's values holds: the last, unless it is a deletion marker. -/
def lastValue (values : List RegistryValue) : Option (List UInt8) :=
  (values.getLast?.filter fun value => !value.deletionMarker).map RegistryValue.value

/-- The type of a logged mutation. -/
def normalizedType (m : RegistryMutation) : RegistryMutation :=
  { m with mutationType := if m.mutationType = MutationType.delete.toI32
    then MutationType.delete.toI32 else MutationType.upsert.toI32 }

/-- The changelog entry of a batch: sorted by key, stably, with every write an upsert. -/
def changelogBatch (b : List RegistryMutation) : List RegistryMutation :=
  (b.mergeSort fun l r => decide (l.key ≤ r.key)).map normalizedType

/-- The changelog of a history: each batch's entry under its version. -/
def changelogOf (h : List (List RegistryMutation)) : List (ℕ × List RegistryMutation) :=
  (h.zipIdx 1).map fun e => (e.2, changelogBatch e.1)

/-- A mutation the state before its batch admits. -/
def Admissible (s : Key → Option (List UInt8)) (m : RegistryMutation) : Prop :=
  (MutationType.fromI32 m.mutationType = some .insert → s m.key = none) ∧
  (MutationType.fromI32 m.mutationType = some .update → (s m.key).isSome) ∧
  (MutationType.fromI32 m.mutationType = some .delete → (s m.key).isSome)

/-- The store, the version and the changelog of a registry are those of the history. -/
structure Refines (r : Registry) (h : List (List RegistryMutation)) : Prop where
  version : r.version = h.length
  store : ∀ k, (r.store.get? k).getD [] = valuesOf h k
  nonempty : ∀ k values, r.store.get? k = some values → values ≠ []
  changelog : r.changelog.entries = changelogOf h

/-- Every batch of the history is non-empty, with mutations of known types only. -/
def WellFormed (h : List (List RegistryMutation)) : Prop :=
  ∀ b ∈ h, b ≠ [] ∧ ∀ m ∈ b, (MutationType.fromI32 m.mutationType).isSome

/-- Every batch was admitted by the state before it. -/
def AdmittedInOrder (h : List (List RegistryMutation)) : Prop :=
  ∀ e ∈ h.zipIdx, ∀ m ∈ e.1, Admissible ((historyOf h).stateAt e.2) m

/-- A change's version lies in `(version, version + maxVersions]`, and is a `u64`. -/
def inWindow (version : ℕ) (maxVersions : Option ℕ) (w : ℕ) : Bool :=
  decide (version < w) && (match maxVersions with
    | some maxVersions => decide (w ≤ version + maxVersions)
    | none => true) && decide (w ≤ u64Max)

/-- The values of a window, newest first. -/
def window (version : ℕ) (maxVersions : Option ℕ) (values : List RegistryValue) :
    List RegistryValue :=
  (values.filter fun value => inWindow version maxVersions value.version).reverse

/-- The batches a run accepts that are not empty: those whose call did not panic. -/
def acceptedBatches (checkInvariants : RegistrySnapshot → Except String Unit) :
    Registry → List Call → List (List RegistryMutation)
  | _, [] => []
  | r, .upgrade :: calls => acceptedBatches checkInvariants (r.execute checkInvariants .upgrade) calls
  | r, .mutate mutations :: calls =>
    match r.maybeApplyMutationInternal checkInvariants mutations with
    | .ok r' => (if mutations.isEmpty then [] else [mutations]) ++
        acceptedBatches checkInvariants r' calls
    | .error _ => acceptedBatches checkInvariants r calls

/-! ## A key's values -/

section Values

variable {h : List (List RegistryMutation)} {k : Key}

theorem valuesOf_append_singleton (h : List (List RegistryMutation)) (b : List RegistryMutation)
    (k : Key) : valuesOf (h ++ [b]) k =
      valuesOf h k ++ (b.filter fun m => decide (m.key = k)).map (toValue (h.length + 1)) := by
  rw [valuesOf, tagFrom_append, List.filter_append, List.map_append, ← valuesOf, Nat.add_comm]
  congr 1
  simp [tagFrom, List.filter_map, Function.comp_def]

theorem pairwise_valuesOf : (valuesOf h k).Pairwise fun a b => a.version ≤ b.version :=
  List.pairwise_map.mpr ((pairwise_tagFrom 1 h).sublist List.filter_sublist)

theorem version_le_of_mem_valuesOf {x : RegistryValue} (hx : x ∈ valuesOf h k) :
    x.version ≤ h.length := by
  obtain ⟨e, he, rfl⟩ := List.mem_map.mp hx
  have := mem_tagFrom (List.mem_filter.mp he).1
  simp only [toValue]
  omega

theorem stateAt_historyOf (h : List (List RegistryMutation)) (v : ℕ) (k : Key) :
    (historyOf h).stateAt v k =
      lastValue ((valuesOf h k).filter fun x => decide (x.version ≤ v)) := by
  rw [stateAt_eq_lastTagged, historyOf, tagFrom_map, valuesOf, lastValue, List.filter_map,
    List.filter_map, List.filter_filter, List.getLast?_map, List.getLast?_map, Option.map_map]
  have hkey : ∀ m : RegistryMutation, (writeOf m).key = m.key := by
    intro m
    unfold writeOf
    split_ifs <;> rfl
  have hfilter : ((tagFrom 1 h).filter ((fun e => decide (e.1 ≤ v ∧ e.2.key = k)) ∘
      fun e => (e.1, writeOf e.2))) = (tagFrom 1 h).filter
        fun e => (((fun x => decide (x.version ≤ v)) ∘ fun e => toValue e.1 e.2) e &&
          decide (e.2.key = k)) := by
    apply List.filter_congr
    intro e _
    simp [hkey, toValue]
  rw [hfilter]
  cases (List.filter _ (tagFrom 1 h)).getLast? with
  | none => rfl
  | some e =>
    -- a delete leaves nothing, any other write its value
    simp only [Option.map_some, Option.getD_some, Function.comp, toValue, writeOf]
    by_cases hdel : e.2.mutationType = MutationType.delete.toI32
    · simp [hdel, Write.value?]
    · simp [hdel, Write.value?]

theorem map_fst_changelogOf (h : List (List RegistryMutation)) :
    (changelogOf h).map Prod.fst = List.range' 1 h.length := by
  suffices ∀ n, ((h.zipIdx n).map fun e => (e.2, changelogBatch e.1)).map Prod.fst =
      List.range' n h.length from this 1
  induction h with
  | nil => intro n; rfl
  | cons b h ih =>
    intro n
    rw [List.zipIdx_cons, List.map_cons, List.map_cons, ih (n + 1), List.length_cons,
      List.range'_succ]

theorem changelogOf_append_singleton (h : List (List RegistryMutation))
    (b : List RegistryMutation) :
    changelogOf (h ++ [b]) = changelogOf h ++ [(h.length + 1, changelogBatch b)] := by
  rw [changelogOf, List.zipIdx_append, List.map_append, ← changelogOf, Nat.add_comm]
  rfl

end Values

/-! ## Appending a batch -/

section Store

variable {r r' : Registry} {h : List (List RegistryMutation)}

theorem toValue_normalizedType (version : ℕ) (m : RegistryMutation) :
    toValue version (normalizedType m) = toValue version m := by
  unfold toValue normalizedType
  simp only [MutationType.toI32]
  by_cases hdel : m.mutationType = 2
  · simp [hdel]
  · simp [hdel]

theorem normalizedType_normalizedType (m : RegistryMutation) :
    normalizedType (normalizedType m) = normalizedType m := by
  unfold normalizedType
  simp only [MutationType.toI32]
  by_cases hdel : m.mutationType = 2
  · simp [hdel]
  · simp [hdel]

theorem key_le_trans (a b c : RegistryMutation) (hab : decide (a.key ≤ b.key) = true)
    (hbc : decide (b.key ≤ c.key) = true) : decide (a.key ≤ c.key) = true := by
  simp only [decide_eq_true_eq] at hab hbc ⊢
  exact le_trans hab hbc

theorem key_le_total (a b : RegistryMutation) :
    (decide (a.key ≤ b.key) || decide (b.key ≤ a.key)) = true := by
  simpa using le_total a.key b.key

theorem filter_changelogBatch (b : List RegistryMutation) (k : Key) :
    (changelogBatch b).filter (fun m => decide (m.key = k)) =
      (b.filter fun m => decide (m.key = k)).map normalizedType := by
  rw [changelogBatch, List.filter_map]
  have hkey : (fun m => decide (m.key = k)) ∘ normalizedType = fun m => decide (m.key = k) := rfl
  rw [hkey, List.filter_mergeSort key_le_trans key_le_total]
  intro a b ha hb
  simp only [decide_eq_true_eq] at ha hb ⊢
  rw [ha, hb]

theorem changelogBatch_changelogBatch (b : List RegistryMutation) :
    changelogBatch (changelogBatch b) = changelogBatch b := by
  have hsorted : (changelogBatch b).Pairwise fun l r => decide (l.key ≤ r.key) := by
    rw [changelogBatch, List.pairwise_map]
    exact List.pairwise_mergeSort key_le_trans key_le_total b
  rw [changelogBatch, List.mergeSort_of_pairwise hsorted, changelogBatch, List.map_map]
  congr 1
  funext m
  exact normalizedType_normalizedType m

theorem normalizeMutationType_eq_ok {m m' : RegistryMutation}
    (h : normalizeMutationType m = .ok m') :
    (MutationType.fromI32 m.mutationType).isSome ∧ m' = normalizedType m := by
  unfold normalizeMutationType at h
  obtain ⟨t, ht, h⟩ := Except.bind_eq_ok.mp h
  rw [Rust.expect_eq_ok] at ht
  rw [Except.pure_eq_ok] at h
  subst h
  refine ⟨by simp [ht], ?_⟩
  unfold normalizedType
  -- the type read back decides between delete and upsert
  rw [MutationType.fromI32_eq_some.mp ht]
  cases t <;> simp [MutationType.toI32]

theorem mapM_normalizeMutationType_eq_ok : ∀ {ms ms' : List RegistryMutation},
    ms.mapM normalizeMutationType = .ok ms' →
      (∀ m ∈ ms, (MutationType.fromI32 m.mutationType).isSome) ∧ ms' = ms.map normalizedType
  | [], ms', h => by
    rw [List.mapM_nil, Except.pure_eq_ok] at h
    exact ⟨by simp, h.symm⟩
  | m :: ms, ms', h => by
    rw [List.mapM_cons] at h
    obtain ⟨m', hm, h⟩ := Except.bind_eq_ok.mp h
    obtain ⟨ms'', hms, h⟩ := Except.bind_eq_ok.mp h
    rw [Except.pure_eq_ok] at h
    obtain ⟨hknown, rfl⟩ := normalizeMutationType_eq_ok hm
    obtain ⟨hknowns, rfl⟩ := mapM_normalizeMutationType_eq_ok hms
    exact ⟨List.forall_mem_cons.mpr ⟨hknown, hknowns⟩, h.symm⟩

theorem mapM_normalizeMutationType_of_known : ∀ {ms : List RegistryMutation},
    (∀ m ∈ ms, (MutationType.fromI32 m.mutationType).isSome) →
      ms.mapM normalizeMutationType = .ok (ms.map normalizedType)
  | [], _ => rfl
  | m :: ms, hknown => by
    obtain ⟨t, ht⟩ := Option.isSome_iff_exists.mp (hknown m List.mem_cons_self)
    have hm : normalizeMutationType m = .ok (normalizedType m) := by
      unfold normalizeMutationType normalizedType
      rw [ht, MutationType.fromI32_eq_some.mp ht]
      cases t <;> simp [MutationType.toI32, Rust.expect]
    rw [List.mapM_cons, hm, Except.ok_bind,
      mapM_normalizeMutationType_of_known fun m' hm' => hknown m' (List.mem_cons_of_mem m hm')]
    rfl

/-- The registry after a batch is logged and appended at a version. -/
def appendBatch (r : Registry) (b : List RegistryMutation) (version : ℕ) : Registry :=
  { r with
    changelog := r.changelog.insert version (changelogBatch b)
    store := (changelogBatch b).foldl (pushValue version) r.store }

theorem applyMutationsAsVersion_eq_ok {ms : List RegistryMutation} {version : ℕ}
    (h : r.applyMutationsAsVersion ms version = .ok r') :
    (∀ m ∈ ms, (MutationType.fromI32 m.mutationType).isSome) ∧ r' = appendBatch r ms version := by
  unfold applyMutationsAsVersion at h
  obtain ⟨ms', hms, h⟩ := Except.bind_eq_ok.mp h
  rw [Except.pure_eq_ok] at h
  obtain ⟨hknown, rfl⟩ := mapM_normalizeMutationType_eq_ok hms
  refine ⟨fun m hm => hknown m ((List.mergeSort_perm ms _).mem_iff.mpr hm), ?_⟩
  rw [← h]
  rfl

theorem applyMutationsAsVersion_of_known {ms : List RegistryMutation} (version : ℕ)
    (hknown : ∀ m ∈ ms, (MutationType.fromI32 m.mutationType).isSome) :
    r.applyMutationsAsVersion ms version = .ok (appendBatch r ms version) := by
  unfold applyMutationsAsVersion
  dsimp only
  rw [mapM_normalizeMutationType_of_known
    fun m hm => hknown m ((List.mergeSort_perm ms _).mem_iff.mp hm)]
  rfl

theorem get?_foldl_pushValue (version : ℕ) (k : Key) : ∀ (ms : List RegistryMutation)
    (store : SortedMap Key (List RegistryValue)),
    ((ms.foldl (pushValue version) store).get? k).getD [] =
      (store.get? k).getD [] ++ (ms.filter fun m => decide (m.key = k)).map (toValue version)
  | [], store => by simp
  | m :: ms, store => by
    rw [List.foldl_cons, get?_foldl_pushValue version k ms, pushValue, SortedMap.get?_insert]
    by_cases hk : k = m.key
    · subst hk
      simp [toValue]
    · simp [hk, Ne.symm hk]

theorem get?_foldl_pushValue_eq_some {version : ℕ} {k : Key} {values : List RegistryValue} :
    ∀ (ms : List RegistryMutation) (store : SortedMap Key (List RegistryValue)),
      (ms.foldl (pushValue version) store).get? k = some values →
        store.get? k = some values ∨ values ≠ []
  | [], store, h => Or.inl h
  | m :: ms, store, h => by
    rw [List.foldl_cons] at h
    rcases get?_foldl_pushValue_eq_some ms _ h with h | h
    · rw [pushValue, SortedMap.get?_insert] at h
      by_cases hk : k = m.key
      · rw [if_pos hk, Option.some.injEq] at h
        exact Or.inr (h ▸ by simp)
      · rw [if_neg hk] at h
        exact Or.inl h
    · exact Or.inr h

theorem Refines.keys_lt (hR : Refines r h) : ∀ v ∈ r.changelog.keys, v < h.length + 1 := by
  intro v hv
  rw [SortedMap.keys, hR.changelog, map_fst_changelogOf, List.mem_range'_1] at hv
  omega

theorem Refines.appendBatch (hR : Refines r h) (b : List RegistryMutation) :
    Refines { appendBatch r b (h.length + 1) with version := h.length + 1 } (h ++ [b]) where
  version := by simp
  store k := by
    simp only [RegistryCanister.appendBatch]
    rw [get?_foldl_pushValue, hR.store, filter_changelogBatch, List.map_map,
      valuesOf_append_singleton]
    congr 2
    funext m
    exact toValue_normalizedType _ m
  nonempty k values hget := by
    rcases get?_foldl_pushValue_eq_some _ _ hget with h | h
    · exact hR.nonempty k values h
    · exact h
  changelog := by
    simp only [RegistryCanister.appendBatch]
    rw [SortedMap.entries_insert_of_lt _ _ hR.keys_lt, hR.changelog,
      changelogOf_append_singleton]

theorem refines_new : Refines new [] where
  version := rfl
  store _ := rfl
  nonempty _ _ h := by cases h
  changelog := rfl

end Store

/-! ## Accepting a batch -/

section Steps

variable {r r' : Registry} {h : List (List RegistryMutation)}

theorem maybeApplyMutationInternal_eq_ok {ck : RegistrySnapshot → Except String Unit}
    {ms : List RegistryMutation} (hok : r.maybeApplyMutationInternal ck ms = .ok r') :
    r.verifyMutationType ms = [] ∧ r.applyMutations ms = .ok r' := by
  unfold maybeApplyMutationInternal at hok
  dsimp only at hok
  split at hok
  · -- a rejected batch panics
    obtain ⟨_, -, hok⟩ := Except.bind_eq_ok.mp hok
    cases hok
  · rename_i hempty
    obtain ⟨_, -, hok⟩ := Except.bind_eq_ok.mp hok
    exact ⟨by simpa using hempty, hok⟩

theorem Refines.getLast (hR : Refines r h) (k : Key) : r.getLast k = (valuesOf h k).getLast? := by
  unfold Registry.getLast
  rw [← hR.store k]
  cases r.store.get? k <;> rfl

theorem stateAt_historyOf_length (h : List (List RegistryMutation)) (k : Key) :
    (historyOf h).stateAt h.length k = lastValue (valuesOf h k) := by
  rw [stateAt_historyOf, List.filter_eq_self.mpr]
  intro x hx
  simpa using version_le_of_mem_valuesOf hx

theorem Refines.verifyMutation_eq_none (hR : Refines r h) {m : RegistryMutation}
    (hm : r.verifyMutation m = none) :
    (MutationType.fromI32 m.mutationType).isSome ∧
      Admissible ((historyOf h).stateAt h.length) m := by
  have hlatest : ((r.getLast m.key).filter fun value => !value.deletionMarker).map
      RegistryValue.value = (historyOf h).stateAt h.length m.key := by
    rw [hR.getLast, stateAt_historyOf_length]
    rfl
  unfold verifyMutation at hm
  dsimp only at hm
  unfold Admissible
  rw [← hlatest]
  cases ht : MutationType.fromI32 m.mutationType with
  | none =>
    rw [ht] at hm
    cases hm
  | some t =>
    rw [ht] at hm
    cases hl : (r.getLast m.key).filter fun value => !value.deletionMarker <;> rw [hl] at hm <;>
      cases t <;> simp at hm ⊢

theorem stateAt_historyOf_append (h : List (List RegistryMutation)) (b : List RegistryMutation)
    {v : ℕ} (hv : v ≤ h.length) :
    (historyOf (h ++ [b])).stateAt v = (historyOf h).stateAt v := by
  rw [historyOf, List.map_append, ← historyOf]
  exact History.stateAt_append _ (by rwa [historyOf, List.length_map])

theorem WellFormed.append_singleton (hwf : WellFormed h) {b : List RegistryMutation}
    (hne : b ≠ []) (hknown : ∀ m ∈ b, (MutationType.fromI32 m.mutationType).isSome) :
    WellFormed (h ++ [b]) := by
  intro b' hb'
  rcases List.mem_append.mp hb' with hb' | hb'
  · exact hwf b' hb'
  · rw [List.mem_singleton.mp hb']
    exact ⟨hne, hknown⟩

theorem AdmittedInOrder.append_singleton (hadm : AdmittedInOrder h) {b : List RegistryMutation}
    (hb : ∀ m ∈ b, Admissible ((historyOf h).stateAt h.length) m) :
    AdmittedInOrder (h ++ [b]) := by
  intro e he m hm
  rw [List.zipIdx_append, List.mem_append] at he
  rcases he with he | he
  · -- an earlier batch sees the same versions as before
    have hlt := (List.mem_zipIdx he).2.1
    rw [stateAt_historyOf_append h b (by omega)]
    exact hadm e he m hm
  · obtain rfl : e = (b, h.length) := by simpa using he
    rw [stateAt_historyOf_append h b le_rfl]
    exact hb m hm

theorem refines_maybeApplyMutationInternal {ck : RegistrySnapshot → Except String Unit}
    {ms : List RegistryMutation} (hR : Refines r h) (hwf : WellFormed h)
    (hadm : AdmittedInOrder h) (hok : r.maybeApplyMutationInternal ck ms = .ok r') :
    Refines r' (h ++ if ms.isEmpty then [] else [ms]) ∧
      WellFormed (h ++ if ms.isEmpty then [] else [ms]) ∧
      AdmittedInOrder (h ++ if ms.isEmpty then [] else [ms]) := by
  obtain ⟨hverify, happly⟩ := maybeApplyMutationInternal_eq_ok hok
  have hchecked : ∀ m ∈ ms, r.verifyMutation m = none :=
    List.filterMap_eq_nil_iff.mp hverify
  unfold applyMutations at happly
  split at happly
  · rename_i hempty
    rw [Except.pure_eq_ok] at happly
    subst happly
    rw [if_pos hempty, List.append_nil]
    exact ⟨hR, hwf, hadm⟩
  · rename_i hempty
    obtain ⟨hknown, rfl⟩ := applyMutationsAsVersion_eq_ok happly
    rw [if_neg hempty, hR.version]
    exact ⟨hR.appendBatch ms, hwf.append_singleton (by simpa using hempty) hknown,
      hadm.append_singleton fun m hm => (hR.verifyMutation_eq_none (hchecked m hm)).2⟩

/-! ## Upgrades -/

theorem appendBatch_changelogBatch (b : List RegistryMutation) (version : ℕ) :
    appendBatch r (changelogBatch b) version = appendBatch r b version := by
  rw [appendBatch, appendBatch, changelogBatch_changelogBatch]

theorem known_of_mem_changelogBatch {b : List RegistryMutation} {m : RegistryMutation}
    (hm : m ∈ changelogBatch b) : (MutationType.fromI32 m.mutationType).isSome := by
  obtain ⟨m₀, -, rfl⟩ := List.mem_map.mp hm
  unfold normalizedType
  split_ifs <;> rfl

theorem foldlM_replayEntry : ∀ (h₂ h₁ : List (List RegistryMutation)) (r : Registry),
    Refines r h₁ → ∃ r', ((h₂.zipIdx (h₁.length + 1)).map fun e =>
      (⟨e.2, changelogBatch e.1⟩ : ChangelogEntry)).foldlM replayEntry (r, h₁.length) =
        .ok (r', (h₁ ++ h₂).length) ∧ Refines r' (h₁ ++ h₂)
  | [], h₁, r, hR => ⟨r, by simp, by simpa using hR⟩
  | b :: h₂, h₁, r, hR => by
    -- no version is missing before the entry, so nothing is filled in
    have hreplay : replayEntry (r, h₁.length) ⟨h₁.length + 1, changelogBatch b⟩ =
        .ok ({ appendBatch r b (h₁.length + 1) with version := h₁.length + 1 },
          h₁.length + 1) := by
      unfold replayEntry fillVersions
      dsimp only
      rw [Nat.sub_self, List.range'_zero, List.foldlM_nil, pure_bind,
        applyMutationsAsVersion_of_known _ fun _ => known_of_mem_changelogBatch,
        appendBatch_changelogBatch]
      rfl
    obtain ⟨r', hfold, hR'⟩ := foldlM_replayEntry h₂ (h₁ ++ [b]) _ (hR.appendBatch b)
    refine ⟨r', ?_, by simpa using hR'⟩
    rw [List.zipIdx_cons, List.map_cons, List.foldlM_cons, hreplay, Except.ok_bind]
    simpa using hfold

theorem refines_upgrade (hR : Refines r h) :
    ∃ r', new.fromSerializableForm r.serializableForm = .ok r' ∧ Refines r' h := by
  obtain ⟨r', hfold, hR'⟩ := foldlM_replayEntry h [] new refines_new
  rw [List.length_nil, Nat.zero_add, List.nil_append] at hfold
  rw [List.nil_append] at hR'
  refine ⟨r', ?_, hR'⟩
  have hentries : r.serializableForm.changelog = (h.zipIdx 1).map fun e =>
      (⟨e.2, changelogBatch e.1⟩ : ChangelogEntry) := by
    rw [serializableForm, serializableFormAt, hR.changelog, changelogOf, List.map_map]
    rfl
  -- the fresh registry passes the assertions, and the representation is the changelog one
  have hfresh : new.store.entries = [] ∧ new.changelog.entries = [] ∧ new.version = 0 :=
    ⟨rfl, rfl, rfl⟩
  unfold fromSerializableForm
  rw [hentries]
  simp [hfresh, serializableForm, serializableFormAt, ReprVersion.toI32, ReprVersion.fromI32,
    hfold]

/-! ## Reads -/

theorem Refines.get_map_value (hR : Refines r h) (k : Key) (v : ℕ) :
    (r.get k v).map RegistryValue.value = (historyOf h).stateAt v k := by
  rw [stateAt_historyOf, ← hR.store k]
  unfold Registry.get lastValue
  cases r.store.get? k with
  | none => rfl
  | some values =>
    -- the backward scan finds the last value at or below the version
    rw [Option.getD_some, List.getLast?_filter]
    cases hfind : values.reverse.find? fun value => decide (value.version ≤ v) with
    | none => simp [hfind]
    | some value => cases hdel : value.deletionMarker <;> simp [hfind, hdel]

theorem getChangesSince_eq (r : Registry) (version : ℕ) (maxVersions : Option ℕ) :
    ∃ maxVersion, (∀ w, inWindow version maxVersions w = decide (version < w ∧ w ≤ maxVersion)) ∧
      r.getChangesSince version maxVersions = (r.store.entries.map fun e =>
        (⟨e.1, (e.2.reverse.dropWhile fun value => decide (maxVersion < value.version)).takeWhile
          fun value => decide (version < value.version)⟩ : RegistryDelta)).filter
        fun delta => !delta.values.isEmpty := by
  cases maxVersions with
  | some maxVersions =>
    exact ⟨min (version + maxVersions) u64Max, fun w => by simp [inWindow, Bool.and_assoc], rfl⟩
  | none => exact ⟨u64Max, fun w => by simp [inWindow], rfl⟩

theorem takeWhile_dropWhile_reverse {values : List RegistryValue}
    (hsorted : values.Pairwise fun a b => a.version ≤ b.version) {version maxVersion : ℕ}
    {maxVersions : Option ℕ}
    (hmax : ∀ w, inWindow version maxVersions w = decide (version < w ∧ w ≤ maxVersion)) :
    (values.reverse.dropWhile fun value => decide (maxVersion < value.version)).takeWhile
      (fun value => decide (version < value.version)) = window version maxVersions values := by
  rw [List.takeWhile_dropWhile_eq_filter (List.pairwise_reverse.mpr hsorted), window,
    List.filter_reverse]
  congr 1
  apply List.filter_congr
  intro value _
  rw [hmax]

theorem Refines.eq_valuesOf_of_mem (hR : Refines r h) {e : Key × List RegistryValue}
    (he : e ∈ r.store.entries) : e.2 = valuesOf h e.1 := by
  have := hR.store e.1
  rwa [(SortedMap.get?_eq_some_iff _).mpr he, Option.getD_some] at this

theorem Refines.getChangesSince_spec (hR : Refines r h) (version : ℕ) (maxVersions : Option ℕ) :
    (∀ d ∈ r.getChangesSince version maxVersions,
      d.values = window version maxVersions (valuesOf h d.key) ∧ d.values ≠ []) ∧
    (∀ k, window version maxVersions (valuesOf h k) ≠ [] →
      ∃ d ∈ r.getChangesSince version maxVersions, d.key = k) ∧
    ((r.getChangesSince version maxVersions).map RegistryDelta.key).Pairwise (· < ·) := by
  obtain ⟨maxVersion, hmax, hchanges⟩ := getChangesSince_eq r version maxVersions
  have hwindow : ∀ e ∈ r.store.entries, (e.2.reverse.dropWhile fun value =>
      decide (maxVersion < value.version)).takeWhile
        (fun value => decide (version < value.version)) =
          window version maxVersions (valuesOf h e.1) := by
    intro e he
    rw [hR.eq_valuesOf_of_mem he]
    exact takeWhile_dropWhile_reverse pairwise_valuesOf hmax
  rw [hchanges]
  refine ⟨?_, ?_, ?_⟩
  · intro d hd
    obtain ⟨hd, hne⟩ := List.mem_filter.mp hd
    obtain ⟨e, he, rfl⟩ := List.mem_map.mp hd
    exact ⟨hwindow e he, by simpa using hne⟩
  · intro k hk
    -- a key with a non-empty window has values, so an entry
    have hvalues : valuesOf h k ≠ [] := fun hnil => hk (by rw [hnil]; rfl)
    have hget : r.store.get? k = some (valuesOf h k) := by
      have := hR.store k
      cases hk' : r.store.get? k with
      | none => rw [hk'] at this; exact absurd this.symm hvalues
      | some values => rw [hk', Option.getD_some] at this; rw [this]
    have he := (SortedMap.get?_eq_some_iff _).mp hget
    refine ⟨_, List.mem_filter.mpr ⟨List.mem_map.mpr ⟨_, he, rfl⟩, ?_⟩, rfl⟩
    have hw := hwindow _ he
    dsimp only at hw ⊢
    rw [hw]
    simpa using hk
  · -- the deltas' keys are a sublist of the store's sorted keys
    rw [List.filter_map, List.map_map]
    exact r.store.keys_sorted.sublist (List.filter_sublist.map _)

theorem Refines.map_fst_drop_changelog (hR : Refines r h) (version : ℕ) :
    (r.changelog.entries.drop version).map Prod.fst =
      List.range' (version + 1) (h.length - version) := by
  rw [List.map_drop, hR.changelog, map_fst_changelogOf, List.drop_range', Nat.mul_one,
    Nat.add_comm]

end Steps

/-! ## Runs -/


theorem refines_run (ck : RegistrySnapshot → Except String Unit) :
    ∀ (calls : List Call) (r : Registry) (h : List (List RegistryMutation)),
      Refines r h → WellFormed h → AdmittedInOrder h →
        Refines (r.run ck calls) (h ++ acceptedBatches ck r calls) ∧
          WellFormed (h ++ acceptedBatches ck r calls) ∧
          AdmittedInOrder (h ++ acceptedBatches ck r calls)
  | [], r, h, hR, hwf, hadm => by
    rw [acceptedBatches, List.append_nil]
    exact ⟨hR, hwf, hadm⟩
  | .upgrade :: calls, r, h, hR, hwf, hadm => by
    obtain ⟨r', hupgrade, hR'⟩ := refines_upgrade hR
    have hexecute : r.execute ck .upgrade = r' := by rw [execute, hupgrade]
    rw [run, List.foldl_cons, ← run, acceptedBatches, hexecute]
    exact refines_run ck calls r' h hR' hwf hadm
  | .mutate ms :: calls, r, h, hR, hwf, hadm => by
    rw [run, List.foldl_cons, ← run, acceptedBatches]
    cases hok : r.maybeApplyMutationInternal ck ms with
    | error e =>
      -- the panic traps, and the registry is as it was
      have hexecute : r.execute ck (.mutate ms) = r := by rw [execute, hok]
      rw [hexecute]
      exact refines_run ck calls r h hR hwf hadm
    | ok r' =>
      have hexecute : r.execute ck (.mutate ms) = r' := by rw [execute, hok]
      obtain ⟨hR', hwf', hadm'⟩ := refines_maybeApplyMutationInternal hR hwf hadm hok
      rw [hexecute, ← List.append_assoc]
      exact refines_run ck calls r' _ hR' hwf' hadm'

/-- The registry refines the versioned history of the non-empty batches it accepted, over every
run of batches and upgrades from a new registry. -/
theorem registry_refines_versionedHistory (ck : RegistrySnapshot → Except String Unit)
    (calls : List Call) :
    let r := new.run ck calls
    let h := acceptedBatches ck new calls
    r.latestVersion = h.length ∧ WellFormed h ∧ AdmittedInOrder h ∧
    (∀ k v, (r.get k v).map RegistryValue.value = (historyOf h).stateAt v k) ∧
    (∀ version maxVersions,
      (∀ d ∈ r.getChangesSince version maxVersions,
        d.values = window version maxVersions (valuesOf h d.key) ∧ d.values ≠ []) ∧
      (∀ k, window version maxVersions (valuesOf h k) ≠ [] →
        ∃ d ∈ r.getChangesSince version maxVersions, d.key = k) ∧
      ((r.getChangesSince version maxVersions).map RegistryDelta.key).Pairwise (· < ·)) ∧
    r.changelog.keys = List.range' 1 h.length ∧
    (∀ version, (r.changelog.entries.drop version).map Prod.fst =
      List.range' (version + 1) (h.length - version)) := by
  intro r h
  have hrun := refines_run ck calls new [] refines_new (by simp [WellFormed])
    (by simp [AdmittedInOrder])
  rw [List.nil_append] at hrun
  obtain ⟨hR, hwf, hadm⟩ := hrun
  refine ⟨hR.version, hwf, hadm, hR.get_map_value, hR.getChangesSince_spec, ?_,
    hR.map_fst_drop_changelog⟩
  rw [SortedMap.keys, hR.changelog, map_fst_changelogOf]

end IC.RegistryCanister
