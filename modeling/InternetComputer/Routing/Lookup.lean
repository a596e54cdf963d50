import InternetComputer.Routing.Route

/-!
# Ranges in the order of ids

`lookup_in_ranges` takes the last range not above `[canister_id, u64::MAX]`: on non-empty disjoint
ranges that end at or below `u64::MAX`, the one that holds the id (`lookupInRanges_eq_valueAt`).
A range that ends above `u64::MAX`, at a longer id, is missed (`lookupInRanges_misses_long_end`).

* **`lookupInRanges_exact`**: `lookup_in_ranges` and `route` find the range that holds the id;
* **`areDisjoint_iff`**: `are_disjoint` holds exactly when no ranges of the two lists share an id;
* **`rangeSetHelpers_exact`**: on well-formed sets, `are_disjoint` and `is_subset_of` decide
  that no id is in both and that each range lies in one range of the other.
-/

namespace IC.Routing

open IC.State RoutingTable

namespace CanisterIdRange

variable {a b r : CanisterIdRange} {c : CanisterId}

/-- The range holds the id. -/
def Contains (r : CanisterIdRange) (c : CanisterId) : Prop := r.start ≤ c ∧ c ≤ r.«end»

instance (r : CanisterIdRange) (c : CanisterId) : Decidable (r.Contains c) :=
  inferInstanceAs (Decidable (_ ∧ _))

theorem Separated.not_contains (h : a.Separated b) (ha : a.Contains c) : ¬b.Contains c := by
  rintro ⟨hb₁, hb₂⟩
  rcases h with h | h
  · exact absurd (lt_of_le_of_lt ha.2 h) (not_lt.mpr hb₁)
  · exact absurd (lt_of_le_of_lt hb₂ h) (not_lt.mpr ha.1)

theorem not_separated_iff (ha : a.NonEmpty) (hb : b.NonEmpty) :
    ¬a.Separated b ↔ ∃ c, a.Contains c ∧ b.Contains c := by
  constructor
  · intro h
    have h₁ : b.start ≤ a.«end» := not_lt.mp fun h' => h (Or.inl h')
    have h₂ : a.start ≤ b.«end» := not_lt.mp fun h' => h (Or.inr h')
    exact ⟨max a.start b.start, ⟨le_max_left _ _, max_le ha h₁⟩, ⟨le_max_right _ _, max_le h₂ hb⟩⟩
  · rintro ⟨c, hac, hbc⟩ h
    exact h.not_contains hac hbc

theorem le_probe_iff_start_le (hr : r.«end» ≤ canisterIdFromU64 u64Max) :
    r ≤ ⟨c, canisterIdFromU64 u64Max⟩ ↔ r.start ≤ c := by
  rw [le_iff]
  constructor
  · rintro (h | ⟨h, -⟩)
    · exact h.le
    · exact h.le
  · intro h
    rcases h.lt_or_eq with h | h
    · exact Or.inl h
    · exact Or.inr ⟨h, hr⟩

/-- A non-empty range is held by another exactly when both its ends are. -/
theorem forall_contains_iff (ha : a.NonEmpty) :
    (∀ c, a.Contains c → b.Contains c) ↔ b.start ≤ a.start ∧ a.«end» ≤ b.«end» := by
  constructor
  · intro h
    exact ⟨(h a.start ⟨le_rfl, ha⟩).1, (h a.«end» ⟨ha, le_rfl⟩).2⟩
  · rintro ⟨h₁, h₂⟩ c ⟨hc₁, hc₂⟩
    exact ⟨h₁.trans hc₁, hc₂.trans h₂⟩

end CanisterIdRange

open CanisterIdRange

/-! ## The range that holds an id -/

section ValueAt

variable {ν : Type}

/-- The value of the first range of the entries that holds the id. -/
def valueAt (es : List (CanisterIdRange × ν)) (c : CanisterId) : Option ν :=
  (es.find? fun e => decide (e.1.Contains c)).map Prod.snd

theorem valueAt_eq_none_iff {es : List (CanisterIdRange × ν)} {c : CanisterId} :
    valueAt es c = none ↔ ∀ e ∈ es, ¬e.1.Contains c := by
  simp [valueAt]

theorem valueAt_eq_some_iff {m : SortedMap CanisterIdRange ν} (hv : ValidRanges m.keys)
    {c : CanisterId} {v : ν} : valueAt m.entries c = some v ↔ ∃ k, m.get? k = some v ∧ k.Contains c := by
  unfold valueAt
  constructor
  · intro h
    obtain ⟨e, he, rfl⟩ := Option.map_eq_some_iff.mp h
    exact ⟨e.1, m.get?_eq_some_iff.mpr (List.mem_of_find?_eq_some he),
      by simpa using List.find?_some he⟩
  · rintro ⟨k, hk, hkc⟩
    have hkm := m.get?_eq_some_iff.mp hk
    have hsome : (m.entries.find? fun e => decide (e.1.Contains c)).isSome :=
      List.find?_isSome.mpr ⟨_, hkm, by simpa using hkc⟩
    obtain ⟨e, he⟩ := Option.isSome_iff_exists.mp hsome
    have hem := List.mem_of_find?_eq_some he
    have hek : e.1 = k := by
      by_contra hne
      exact (hv.2 _ (List.mem_map_of_mem hem) _ (List.mem_map_of_mem hkm) hne).not_contains
        (by simpa using List.find?_some he) hkc
    have hget : m.get? e.1 = some e.2 := m.get?_eq_some_iff.mpr hem
    rw [hek, hk] at hget
    rw [he, Option.map_some, hget]

/-- **`lookup_in_ranges` at any id**, on non-empty disjoint ranges ending by `u64::MAX`. -/
theorem lookupInRanges_eq_valueAt {m : SortedMap CanisterIdRange ν} (hv : ValidRanges m.keys)
    (hmax : ∀ k ∈ m.keys, k.«end» ≤ canisterIdFromU64 u64Max) (c : CanisterId) :
    lookupInRanges m c = .ok (valueAt m.entries c) := by
  -- the entries not above the probe are those that start at or below the id
  have hfilter : (m.entries.filter fun e => decide (e.1 ≤ ⟨c, canisterIdFromU64 u64Max⟩)) =
      m.entries.filter fun e => decide (e.1.start ≤ c) :=
    List.filter_congr fun e he =>
      decide_eq_decide.mpr (le_probe_iff_start_le (hmax _ (List.mem_map_of_mem he)))
  have hordered : (m.entries.filter fun e => decide (e.1.start ≤ c)).Pairwise
      fun a b => a.1.«end» < b.1.start :=
    hv.pairwise_entries.sublist List.filter_sublist
  unfold lookupInRanges
  rw [hfilter]
  cases hlast : (m.entries.filter fun e => decide (e.1.start ≤ c)).getLast? with
  | none =>
    have hnil := List.getLast?_eq_none_iff.mp hlast
    refine congrArg Except.ok (valueAt_eq_none_iff.mpr fun e he hec => ?_).symm
    exact absurd (List.mem_filter.mpr ⟨he, by simpa using hec.1⟩) (hnil ▸ List.not_mem_nil)
  | some last =>
    obtain ⟨k, v⟩ := last
    obtain ⟨hkm, hks⟩ := List.mem_filter.mp (List.mem_of_getLast? hlast)
    have hks' : k.start ≤ c := by simpa using hks
    have hassert : Rust.assert (decide (k.start ≤ c))
        "assertion failed: interval.start <= canister_id" = .ok () :=
      Rust.assert_eq_ok.mpr (decide_eq_true hks')
    simp only [hassert, Except.ok_bind]
    by_cases hkc : c ≤ k.«end»
    · rw [if_pos hkc, (valueAt_eq_some_iff hv).mpr ⟨k, m.get?_eq_some_iff.mpr hkm, hks', hkc⟩]
      rfl
    · -- the last range that starts at or below the id ends below it, and so do those before it
      rw [if_neg hkc]
      refine congrArg Except.ok (valueAt_eq_none_iff.mpr fun e he hec => ?_).symm
      have hef : e ∈ m.entries.filter fun e => decide (e.1.start ≤ c) :=
        List.mem_filter.mpr ⟨he, by simpa using hec.1⟩
      rcases hordered.rel_getLast? hlast e hef with rfl | hlt
      · exact hkc hec.2
      · exact absurd (lt_of_le_of_lt hec.2 hlt) (not_lt.mpr hks')

/-- What a lookup of `c` in `m` is to return. -/
def FindsRange (r : Except String (Option ν)) (m : SortedMap CanisterIdRange ν) (c : CanisterId) :
    Prop :=
  (∀ v, r = .ok (some v) ↔ ∃ k, m.get? k = some v ∧ k.Contains c) ∧
    (r = .ok none ↔ ∀ k ∈ m.keys, ¬k.Contains c)

theorem findsRange_valueAt {m : SortedMap CanisterIdRange ν} (hv : ValidRanges m.keys)
    (c : CanisterId) : FindsRange (.ok (valueAt m.entries c)) m c := by
  refine ⟨fun v => ?_, ?_⟩
  · rw [← valueAt_eq_some_iff hv]
    exact ⟨fun h => Except.ok.inj h, fun h => congrArg Except.ok h⟩
  · rw [SortedMap.keys, List.forall_mem_map]
    exact ⟨fun h => valueAt_eq_none_iff.mp (Except.ok.inj h),
      fun h => congrArg Except.ok (valueAt_eq_none_iff.mpr h)⟩

end ValueAt

theorem route_of_not_subnet {t : RoutingTable} {p : PrincipalId}
    (hp : ∀ e ∈ t.map.entries, e.2 ≠ p) : t.route p = lookupInRanges t.map p := by
  unfold RoutingTable.route
  rw [List.find?_eq_none.mpr]
  intro s hs
  obtain ⟨e, he, rfl⟩ := List.mem_map.mp hs
  simpa using hp e he

/-- **`lookup_in_ranges` is exact** on non-empty disjoint ranges up to `u64::MAX`, and so is
`RoutingTable::route` at a principal that is not a subnet's id. -/
theorem lookupInRanges_exact :
    (∀ {ν : Type} (m : SortedMap CanisterIdRange ν), ValidRanges m.keys →
      (∀ k ∈ m.keys, k.«end» ≤ canisterIdFromU64 u64Max) →
      ∀ c, FindsRange (lookupInRanges m c) m c) ∧
    ∀ t : RoutingTable, ValidRanges t.map.keys →
      (∀ k ∈ t.map.keys, k.«end» ≤ canisterIdFromU64 u64Max) →
      ∀ p : PrincipalId, (∀ e ∈ t.map.entries, e.2 ≠ p) → FindsRange (t.route p) t.map p := by
  refine ⟨fun m hv hmax c => ?_, fun t hv hmax p hp => ?_⟩
  · rw [lookupInRanges_eq_valueAt hv hmax c]
    exact findsRange_valueAt hv c
  · rw [route_of_not_subnet hp, lookupInRanges_eq_valueAt hv hmax p]
    exact findsRange_valueAt hv p

/-- In the table of `[5, 9]`, `[20, 30]` and `[40, 40]` (as `from_u64` ids), the lookup of 25
gives the value of the range that holds it, and that of 12, in a gap, none: no range holds it. -/
theorem lookupInRanges_exact_at_three_ranges :
    let m : SortedMap CanisterIdRange ℕ :=
      ((SortedMap.empty.insert (makeRange 5 9) 1).insert (makeRange 20 30) 2).insert
        (makeRange 40 40) 3
    ValidRanges m.keys ∧ (∀ k ∈ m.keys, k.«end» ≤ canisterIdFromU64 u64Max) ∧
      lookupInRanges m (canisterIdFromU64 25) = .ok (some 2) ∧
      (∃ k, m.get? k = some 2 ∧ k.Contains (canisterIdFromU64 25)) ∧
      lookupInRanges m (canisterIdFromU64 12) = .ok none ∧
      ∀ k ∈ m.keys, ¬k.Contains (canisterIdFromU64 12) := by
  intro m
  have hv : ValidRanges m.keys := by decide
  have hmax : ∀ k ∈ m.keys, k.«end» ≤ canisterIdFromU64 u64Max := by decide
  have h₁ : lookupInRanges m (canisterIdFromU64 25) = .ok (some 2) := by decide
  have h₂ : lookupInRanges m (canisterIdFromU64 12) = .ok none := by decide
  exact ⟨hv, hmax, h₁, ((lookupInRanges_exact.1 m hv hmax _).1 2).mp h₁, h₂,
    (lookupInRanges_exact.1 m hv hmax _).2.mp h₂⟩

/-- A range from an id to above `u64::MAX` holds the id, and `lookup_in_ranges` does not find it:
`[from_u64(5), x]`, `x` of eleven bytes, is above the probe of `from_u64(5)`. -/
theorem lookupInRanges_misses_long_end :
    let x : CanisterId := ⟨List.replicate 11 0, by decide⟩
    let m : SortedMap CanisterIdRange ℕ := SortedMap.empty.insert ⟨canisterIdFromU64 5, x⟩ 1
    ValidRanges m.keys ∧ m.get? ⟨canisterIdFromU64 5, x⟩ = some 1 ∧
      (⟨canisterIdFromU64 5, x⟩ : CanisterIdRange).Contains (canisterIdFromU64 5) ∧
      lookupInRanges m (canisterIdFromU64 5) = .ok none := by
  decide

/-! ## `are_disjoint` -/

/-- **`are_disjoint` is exact on well-formed lists**: it holds exactly when every range of one is
separated from every range of the other. -/
theorem areDisjoint_iff : ∀ (ls rs : List CanisterIdRange),
    (ls.Pairwise fun a b => a.«end» < b.start) → (rs.Pairwise fun a b => a.«end» < b.start) →
    (∀ l ∈ ls, l.NonEmpty) → (∀ r ∈ rs, r.NonEmpty) →
    (areDisjoint ls rs = true ↔ ∀ l ∈ ls, ∀ r ∈ rs, l.Separated r) := by
  intro ls rs
  induction ls, rs using areDisjoint.induct with
  | case1 l ls r rs hlr ih =>
    -- `l` ends before `r` starts, and so before every later range starts
    intro hls hrs hlne hrne
    have hl : ∀ r' ∈ r :: rs, l.Separated r' := by
      intro r' hr'
      rcases List.mem_cons.mp hr' with rfl | hr'
      · exact Or.inl hlr
      · exact Or.inl (lt_trans hlr (lt_of_le_of_lt (hrne r List.mem_cons_self)
          (List.rel_of_pairwise_cons hrs hr')))
    rw [areDisjoint, if_pos hlr, ih hls.of_cons hrs (fun l' hl' => hlne l' (List.mem_cons_of_mem l hl')) hrne,
      List.forall_mem_cons]
    exact ⟨fun h => ⟨hl, h⟩, fun h => h.2⟩
  | case2 l ls r rs hlr hrl ih =>
    -- `r` ends before `l` starts, and so before every later range starts
    intro hls hrs hlne hrne
    have hr : ∀ l' ∈ l :: ls, l'.Separated r := by
      intro l' hl'
      rcases List.mem_cons.mp hl' with rfl | hl'
      · exact Or.inr hrl
      · exact Or.inr (lt_trans hrl (lt_of_le_of_lt (hlne l List.mem_cons_self)
          (List.rel_of_pairwise_cons hls hl')))
    rw [areDisjoint, if_neg hlr, if_pos hrl,
      ih hls hrs.of_cons hlne (fun r' hr' => hrne r' (List.mem_cons_of_mem r hr'))]
    constructor
    · intro h l' hl' r' hr'
      rcases List.mem_cons.mp hr' with rfl | hr'
      · exact hr l' hl'
      · exact h l' hl' r' hr'
    · exact fun h l' hl' r' hr' => h l' hl' r' (List.mem_cons_of_mem r hr')
  | case3 l ls r rs hlr hrl =>
    intro _ _ _ _
    rw [areDisjoint, if_neg hlr, if_neg hrl]
    simp only [Bool.false_eq_true, false_iff, not_forall]
    exact ⟨l, List.mem_cons_self, r, List.mem_cons_self, fun h => h.elim hlr hrl⟩
  | case4 ls rs hnil =>
    intro _ _ _ _
    cases ls with
    | nil => simp [areDisjoint]
    | cons l ls =>
      cases rs with
      | nil => simp [areDisjoint]
      | cons r rs => exact absurd rfl (hnil l ls r rs rfl)

/-! ## `is_subset_of` -/

/-- **`is_subset_of` is exact on well-formed lists**: it holds exactly when every range of the
first list lies, end to end, in a range of the second. -/
theorem isSubsetOf_iff : ∀ (ls rs : List CanisterIdRange),
    (ls.Pairwise fun a b => a.«end» < b.start) → (rs.Pairwise fun a b => a.«end» < b.start) →
    (∀ l ∈ ls, l.NonEmpty) →
    (isSubsetOf ls rs = true ↔ ∀ l ∈ ls, ∃ r ∈ rs, r.start ≤ l.start ∧ l.«end» ≤ r.«end») := by
  intro ls rs
  induction ls, rs using isSubsetOf.induct with
  | case1 rs =>
    intro _ _ _
    simp [isSubsetOf]
  | case2 l ls =>
    intro _ _ _
    rw [isSubsetOf]
    simp only [Bool.false_eq_true, false_iff]
    exact fun h => by simpa using h l List.mem_cons_self
  | case3 l ls r rs hheld ih =>
    -- `r` holds `l`, and stays the first candidate for the next ranges
    intro hls hrs hne
    rw [isSubsetOf, if_pos hheld,
      ih hls.of_cons hrs (fun l' hl' => hne l' (List.mem_cons_of_mem l hl')), List.forall_mem_cons]
    exact ⟨fun h => ⟨⟨r, List.mem_cons_self, hheld⟩, h⟩, fun h => h.2⟩
  | case4 l ls r rs hheld ih =>
    -- `r` does not hold `l`, and so holds no later range either
    intro hls hrs hne
    rw [isSubsetOf, if_neg hheld, ih hls hrs.of_cons hne]
    constructor
    · exact fun h l' hl' => (h l' hl').imp fun r' hr' => ⟨List.mem_cons_of_mem r hr'.1, hr'.2⟩
    intro h
    obtain ⟨rₗ, hrₗ, hstart, -⟩ : ∃ r' ∈ rs, r'.start ≤ l.start ∧ l.«end» ≤ r'.«end» := by
      obtain ⟨r', hr', hheld'⟩ := h l List.mem_cons_self
      rcases List.mem_cons.mp hr' with rfl | hr'
      · exact absurd hheld' hheld
      · exact ⟨r', hr', hheld'⟩
    intro l' hl'
    obtain ⟨r', hr', hheld'⟩ := h l' hl'
    rcases List.mem_cons.mp hr' with rfl | hr'
    · rcases List.mem_cons.mp hl' with rfl | hl''
      · exact absurd hheld' hheld
      -- `r'` ends before `rₗ` starts, which is before `l'` starts
      have hlt : l'.«end» < l'.start := calc
        l'.«end» ≤ r'.«end» := hheld'.2
        _ < rₗ.start := List.rel_of_pairwise_cons hrs hrₗ
        _ ≤ l.start := hstart
        _ ≤ l.«end» := hne l List.mem_cons_self
        _ < l'.start := List.rel_of_pairwise_cons hls hl''
      exact absurd (hne l' hl') (not_le.mpr hlt)
    · exact ⟨r', hr', hheld'⟩

/-- Ranges of two lists are pairwise apart exactly when no id is in a range of both. -/
theorem forall_separated_iff {ls rs : List CanisterIdRange} (hlne : ∀ l ∈ ls, l.NonEmpty)
    (hrne : ∀ r ∈ rs, r.NonEmpty) :
    (∀ l ∈ ls, ∀ r ∈ rs, l.Separated r) ↔
      ¬∃ c, (∃ l ∈ ls, l.Contains c) ∧ ∃ r ∈ rs, r.Contains c := by
  constructor
  · rintro hsep ⟨c, ⟨l, hl, hlc⟩, r, hr, hrc⟩
    exact (hsep l hl r hr).not_contains hlc hrc
  · intro hno l hl r hr
    by_contra hsep
    obtain ⟨c, hlc, hrc⟩ := (not_separated_iff (hlne l hl) (hrne r hr)).mp hsep
    exact hno ⟨c, ⟨l, hl, hlc⟩, r, hr, hrc⟩

/-- **The two-pointer range-set helpers are exact on well-formed ranges**: `are_disjoint` holds
exactly when no id is in both, and `is_subset_of` when each range lies in one of the second. -/
theorem rangeSetHelpers_exact (ls rs : CanisterIdRanges) (hls : ls.wellFormed = .ok ())
    (hrs : rs.wellFormed = .ok ()) :
    (areDisjoint ls.ranges rs.ranges = true ↔
      ¬∃ c, (∃ l ∈ ls.ranges, l.Contains c) ∧ ∃ r ∈ rs.ranges, r.Contains c) ∧
    (isSubsetOf ls.ranges rs.ranges = true ↔
      ∀ l ∈ ls.ranges, ∃ r ∈ rs.ranges, ∀ c, l.Contains c → r.Contains c) := by
  obtain ⟨hlne, hlchain⟩ := (CanisterIdRanges.wellFormed_eq_ok_iff ls).mp hls
  obtain ⟨hrne, hrchain⟩ := (CanisterIdRanges.wellFormed_eq_ok_iff rs).mp hrs
  have hlp := pairwise_of_isChain hlne hlchain
  have hrp := pairwise_of_isChain hrne hrchain
  refine ⟨?_, ?_⟩
  · rw [areDisjoint_iff _ _ hlp hrp hlne hrne]
    exact forall_separated_iff hlne hrne
  · rw [isSubsetOf_iff _ _ hlp hrp hlne]
    exact forall₂_congr fun l hl =>
      exists_congr fun r => and_congr_right fun _ => (forall_contains_iff (hlne l hl)).symm

/-- `[2, 3], [12, 14]` lies within `[0, 9], [10, 20], [30, 40]`, each of its ranges in one, and
shares an id with `[5, 6], [13, 13]`, which the pointers meet only at the second ranges. -/
theorem rangeSetHelpers_exact_at_two_ranges :
    let ls : CanisterIdRanges := ⟨[makeRange 2 3, makeRange 12 14]⟩
    let rs : CanisterIdRanges := ⟨[makeRange 0 9, makeRange 10 20, makeRange 30 40]⟩
    let qs : CanisterIdRanges := ⟨[makeRange 5 6, makeRange 13 13]⟩
    (∀ l ∈ ls.ranges, ∃ r ∈ rs.ranges, ∀ c, l.Contains c → r.Contains c) ∧
      ∃ c, (∃ l ∈ ls.ranges, l.Contains c) ∧ ∃ q ∈ qs.ranges, q.Contains c := by
  intro ls rs qs
  have hls : ls.wellFormed = .ok () := by decide
  refine ⟨(rangeSetHelpers_exact ls rs hls (by decide)).2.mp (by decide +kernel), ?_⟩
  exact not_not.mp (mt (rangeSetHelpers_exact ls qs hls (by decide)).1.mpr (by decide +kernel))

end IC.Routing
