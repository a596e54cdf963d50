import InternetComputer.Routing.Optimize

/-!
# `insert` adds one route or refuses

`RoutingTable::insert` refuses an empty range, and one that `are_disjoint` finds to overlap the
table, and leaves the table as it was; on a well-formed table that is exactly a range that shares
an id with a range of the table (`insert_refuses_iff`). Otherwise it inserts the range and
optimizes. On ranges made by `from_u64`, the new range sends its numbers to the subnet and leaves
every other number where it was sent (`routeIn_insert`), and `optimize` keeps that; so
`lookup_in_ranges` changes at the ids made by `from_u64` in the new range and at no other such id.
At the ids between two numbers it can change too: a new range that touches a range of its subnet
is merged with it, and the merged range takes in the ids between them
(`insert_captures_between`).
-/

namespace IC.Routing

open IC.State CanisterIdRange RoutingTable

variable {t : RoutingTable} {range : CanisterIdRange} {subnetId : SubnetId}

/-- A range that shares an id with a range of the table, or is empty: what `insert` refuses. -/
def Refused (t : RoutingTable) (range : CanisterIdRange) : Prop :=
  range.«end» < range.start ∨ ∃ c, range.Contains c ∧ ∃ k ∈ t.map.keys, k.Contains c

theorem areDisjoint_single_iff (hv : ValidRanges t.map.keys) (hne : range.NonEmpty) :
    areDisjoint [range] t.map.keys = true ↔ ¬∃ c, range.Contains c ∧ ∃ k ∈ t.map.keys, k.Contains c := by
  rw [areDisjoint_iff [range] t.map.keys (List.pairwise_singleton _ _) (hv.pairwise t.map.keys_sorted)
    (by simpa using hne) hv.1, List.forall_mem_singleton]
  constructor
  · rintro h ⟨c, hrc, k, hk, hkc⟩
    exact (h k hk).not_contains hrc hkc
  · intro h k hk
    by_contra hsep
    obtain ⟨c, hrc, hkc⟩ := (not_separated_iff hne (hv.1 k hk)).mp hsep
    exact h ⟨c, hrc, k, hk, hkc⟩

/-- **`insert` refuses exactly the ranges that are empty or overlap the table**. -/
theorem insert_refuses_iff (hwf : t.WellFormed) :
    (∃ e, t.insert range subnetId = .ok (t, .error e)) ↔ Refused t range := by
  unfold RoutingTable.insert Refused
  split_ifs with hempty hdisj
  · exact ⟨fun _ => Or.inl hempty, fun _ => ⟨_, rfl⟩⟩
  · have hne : range.NonEmpty := not_lt.mp hempty
    refine ⟨fun _ => Or.inr ?_, fun _ => ⟨_, rfl⟩⟩
    by_contra hover
    exact absurd ((areDisjoint_single_iff hwf.1 hne).mpr hover) (by simpa using hdisj)
  · have hne : range.NonEmpty := not_lt.mp hempty
    have hdisj' : areDisjoint [range] t.map.keys = true := by simpa using hdisj
    refine ⟨fun ⟨e, h⟩ => ?_, fun h => ?_⟩
    · obtain ⟨t'', -, h⟩ := Except.bind_eq_ok.mp h
      simp at h
    · rcases h with h | h
      · exact absurd h hempty
      · exact absurd h ((areDisjoint_single_iff hwf.1 hne).mp hdisj')

theorem routeIn_insert {m : SortedMap CanisterIdRange SubnetId}
    (hinv : Apart (m.insert range subnetId).keys) (hold : Apart m.keys) (n : ℕ) :
    routeIn (m.insert range subnetId).entries n =
      if range.Covers n then some subnetId else routeIn m.entries n := by
  have hrange : range ∈ (m.insert range subnetId).keys :=
    (SortedMap.mem_keys_insert _ _ _ _).mpr (Or.inl rfl)
  refine Option.ext fun w => ?_
  rw [routeIn_eq_some_iff hinv]
  simp only [Routes, SortedMap.get?_insert]
  split_ifs with hrn
  · -- the new range holds the number, and so no other range does
    constructor
    · rintro ⟨k, hk, hkn⟩
      split_ifs at hk with hkr
      · exact hk
      · have hkm : k ∈ (m.insert range subnetId).keys := (SortedMap.mem_keys_insert _ _ _ _).mpr
          (Or.inr (List.mem_map_of_mem (m.get?_eq_some_iff.mp hk)))
        exact absurd (hinv.covers_unique hkm hrange hkn hrn) hkr
    · intro hw
      exact ⟨range, by rw [if_pos rfl, hw], hrn⟩
  · rw [routeIn_eq_some_iff hold]
    constructor
    · rintro ⟨k, hk, hkn⟩
      split_ifs at hk with hkr
      · exact absurd (hkr ▸ hkn) hrn
      · exact ⟨k, hk, hkn⟩
    · rintro ⟨k, hk, hkn⟩
      exact ⟨k, by rw [if_neg (show k ≠ range from fun hkr => hrn (hkr ▸ hkn)), hk], hkn⟩

theorem insert_spec (subnetId : SubnetId) (hwf : t.WellFormed) (hd : ∀ k ∈ t.map.keys, k.U64DerivedEnds)
    (hrd : range.U64DerivedEnds) (hacc : ¬Refused t range) :
    ∃ t', t.insert range subnetId = .ok (t', .ok ()) ∧ (∀ k ∈ t'.map.keys, k.U64DerivedEnds) ∧
      Apart t'.map.keys ∧
      ∀ n, routeIn t'.map.entries n = if range.Covers n then some subnetId else routeIn t.map.entries n := by
  have hempty : ¬range.«end» < range.start := fun h => hacc (Or.inl h)
  have hne : range.NonEmpty := not_lt.mp hempty
  have hdisj : areDisjoint [range] t.map.keys = true :=
    (areDisjoint_single_iff hwf.1 hne).mpr fun h => hacc (Or.inr h)
  -- the table with the range inserted: valid ranges made by `from_u64`
  have hv₁ := validRanges_insert subnetId hwf.1 hne hdisj
  have hd₁ : ∀ k ∈ (t.map.insert range subnetId).keys, k.U64DerivedEnds := fun k hk => by
    rcases (SortedMap.mem_keys_insert _ _ _ _).mp hk with rfl | hk
    · exact hrd
    · exact hd k hk
  obtain ⟨t', hopt, hwf', hd', hroute⟩ :=
    optimize_spec (t := ⟨t.map.insert range subnetId⟩) hv₁ hd₁
  have hins : t.insert range subnetId = .ok (t', .ok ()) := by
    unfold RoutingTable.insert
    rw [if_neg hempty, if_neg (by simp [hdisj]), hopt]
    rfl
  refine ⟨t', hins, hd', apart_of_u64Derived hwf'.1 hd', fun n => ?_⟩
  rw [hroute n]
  exact routeIn_insert (apart_of_u64Derived hv₁ hd₁) (apart_of_u64Derived hwf.1 hd) n

/-- **`insert` adds exactly one route or refuses**: refused exactly for an empty or overlapping
range, leaving the table; accepted, `lookup_in_ranges` changes only on the range. -/
theorem insert_adds_one_route (hwf : t.wellFormed = .ok (.ok ())) (range : CanisterIdRange)
    (subnetId : SubnetId) :
    ((∃ e, t.insert range subnetId = .ok (t, .error e)) ↔ Refused t range) ∧
    ((∀ k ∈ t.map.keys, k.U64DerivedEnds) → range.U64DerivedEnds → ¬Refused t range →
      ∃ t', t.insert range subnetId = .ok (t', .ok ()) ∧ ∀ c, U64Derived c →
        lookupInRanges t'.map c =
          if range.Contains c then .ok (some subnetId) else lookupInRanges t.map c) := by
  have hwf' := (wellFormed_eq_ok_iff t).mp hwf
  refine ⟨insert_refuses_iff hwf', fun hd hrd hacc => ?_⟩
  obtain ⟨t', hins, hd', hinv', hroute⟩ := insert_spec subnetId hwf' hd hrd hacc
  refine ⟨t', hins, ?_⟩
  rintro c ⟨n, hn, rfl⟩
  have hcov : range.Contains (canisterIdFromU64 n) ↔ range.Covers n := (covers_iff hrd hn).symm
  rw [lookupInRanges_eq_routeIn hinv' hd' hn, lookupInRanges_eq_routeIn
    (apart_of_u64Derived hwf'.1 hd) hd hn, hroute n]
  by_cases hc : range.Covers n
  · rw [if_pos hc, if_pos (hcov.mpr hc)]
  · rw [if_neg hc, if_neg fun h => hc (hcov.mp h)]

/-- The range `[from_u64(5), from_u64(9)]` inserted next to `[from_u64(0), from_u64(4)]`. -/
theorem insert_adds_one_route_at_neighbour :
    let t : RoutingTable := ⟨SortedMap.empty.insert (makeRange 0 4) ⟨[1], by decide⟩⟩
    t.wellFormed = .ok (.ok ()) ∧
      (((∃ e, t.insert (makeRange 5 9) ⟨[2], by decide⟩ = .ok (t, .error e)) ↔
        Refused t (makeRange 5 9)) ∧
      ((∀ k ∈ t.map.keys, k.U64DerivedEnds) → (makeRange 5 9).U64DerivedEnds →
        ¬Refused t (makeRange 5 9) →
        ∃ t', t.insert (makeRange 5 9) ⟨[2], by decide⟩ = .ok (t', .ok ()) ∧ ∀ c, U64Derived c →
          lookupInRanges t'.map c = if (makeRange 5 9).Contains c then .ok (some ⟨[2], by decide⟩)
            else lookupInRanges t.map c)) := by
  intro t
  have hwf : t.wellFormed = .ok (.ok ()) := by decide
  exact ⟨hwf, insert_adds_one_route hwf _ _⟩

/-- A range inserted next to a range of its subnet changes the route of an id between them, `c`
with the number 0 and the last bytes `[1, 2]`: the merged range holds it. -/
theorem insert_captures_between :
    let t : RoutingTable := ⟨SortedMap.empty.insert (makeRange 0 0) ⟨[1], by decide⟩⟩
    let c : CanisterId := ⟨Bytes.toBeBytes 8 0 ++ [1, 2], by decide⟩
    t.wellFormed = .ok (.ok ()) ∧ ¬Refused t (makeRange 1 1) ∧ ¬(makeRange 1 1).Contains c ∧
      lookupInRanges t.map c = .ok none ∧
      ∃ t', t.insert (makeRange 1 1) ⟨[1], by decide⟩ = .ok (t', .ok ()) ∧
        lookupInRanges t'.map c = .ok (some ⟨[1], by decide⟩) := by
  intro t c
  have hwf : t.wellFormed = .ok (.ok ()) := by decide
  have hkeys : t.map.keys = [makeRange 0 0] := by decide
  -- `are_disjoint` is computed through what it decides, the separation of the two ranges
  have hdisj : areDisjoint [makeRange 1 1] t.map.keys = true := by
    rw [hkeys, areDisjoint_iff _ _ (List.pairwise_singleton _ _) (List.pairwise_singleton _ _)
      (by decide) (by decide)]
    decide
  have hrun : ((⟨t.map.insert (makeRange 1 1) ⟨[1], by decide⟩⟩ : RoutingTable).optimize >>=
      fun t' => lookupInRanges t'.map c) = .ok (some ⟨[1], by decide⟩) := by
    decide
  obtain ⟨t', hopt, hlook⟩ := Except.bind_eq_ok.mp hrun
  have hins : t.insert (makeRange 1 1) ⟨[1], by decide⟩ = .ok (t', .ok ()) := by
    unfold RoutingTable.insert
    rw [if_neg (by decide), if_neg (by simp [hdisj]), hopt]
    rfl
  have hacc : ¬Refused t (makeRange 1 1) := by
    rintro (h | h)
    · exact absurd h (by decide)
    · exact (areDisjoint_single_iff ((wellFormed_eq_ok_iff t).mp hwf).1 (by decide)).mp hdisj h
  exact ⟨hwf, hacc, by decide, by decide, t', hins, hlook⟩

end IC.Routing
