import Mathlib
import InternetComputer.Routing.Lookup

/-!
# `locate`, and the canister ids a subnet hands out

`CanisterIdRanges::locate` counts through the ids of the ranges. On well-formed ranges whose ends
are made by `CanisterId::from_u64`:

* **`locate_eq`**, **`totalCount_eq`**, **`sorted_allNumbers`**, **`mem_allNumbers`**: `locate` yields
  the ids made by `from_u64` in the ranges, in increasing order, and no other;
* **`generateRun_eq`**: `generate_new_canister_id` returns `locate` at the counter modulo `2^64`.
-/

namespace IC.Routing

open IC.State CanisterIdRange

namespace CanisterIdRanges

/-- The numbers a range covers, from its start to its end. -/
def numbersOf (r : CanisterIdRange) : List ℕ :=
  List.range' (u64Of r.start) (1 + u64Of r.«end» - u64Of r.start)

/-- The numbers the ranges cover, in the order `locate` walks them. -/
def allNumbers (rs : CanisterIdRanges) : List ℕ := rs.ranges.flatMap numbersOf

/-- The id `locate` gives at `loc`: the one made by `from_u64` of the `loc`-th number. -/
def idAt (rs : CanisterIdRanges) (loc : ℕ) : CanisterId :=
  canisterIdFromU64 (rs.allNumbers.getD loc 0)

variable {rs : CanisterIdRanges}

theorem mem_numbersOf {r : CanisterIdRange} {n : ℕ} : n ∈ numbersOf r ↔ r.Covers n := by
  simp only [numbersOf, List.mem_range'_1, Covers]
  omega

theorem mem_allNumbers {n : ℕ} : n ∈ rs.allNumbers ↔ ∃ r ∈ rs.ranges, r.Covers n := by
  simp [allNumbers, mem_numbersOf]

theorem le_u64Max_of_mem_allNumbers {n : ℕ} (h : n ∈ rs.allNumbers) : n ≤ u64Max := by
  obtain ⟨r, -, hr⟩ := mem_allNumbers.mp h
  exact hr.2.trans (u64Of_le_u64Max r.«end»)

theorem idAt_eq {loc : ℕ} (h : loc < rs.allNumbers.length) :
    rs.idAt loc = canisterIdFromU64 rs.allNumbers[loc] := by
  simp [idAt, h]

/-! ## `total_count` and `locate` -/

theorem rangeLength_of_tenByteEnds {r : CanisterIdRange} (hr : r.TenByteEnds) :
    rangeLength r = .ok (numbersOf r).length := by
  simp [rangeLength, canisterIdIntoU64_of_tenBytes hr.1, canisterIdIntoU64_of_tenBytes hr.2,
    numbersOf]

theorem foldlM_rangeLength (ranges : List CanisterIdRange) (h : ∀ r ∈ ranges, r.TenByteEnds)
    (sum : ℕ) :
    ranges.foldlM (fun sum range => do
      let len ← rangeLength range
      pure (sum + len)) sum = .ok (sum + (ranges.flatMap numbersOf).length) := by
  induction ranges generalizing sum with
  | nil => rfl
  | cons r ranges ih =>
    rw [List.foldlM_cons, rangeLength_of_tenByteEnds (h r List.mem_cons_self), Except.ok_bind,
      pure_bind, ih (fun r' hr' => h r' (List.mem_cons_of_mem r hr')), List.flatMap_cons,
      List.length_append, Nat.add_assoc]

theorem totalCount_eq (h : ∀ r ∈ rs.ranges, r.TenByteEnds) :
    rs.totalCount = .ok rs.allNumbers.length := by
  rw [totalCount, foldlM_rangeLength rs.ranges h, Nat.zero_add]
  rfl

theorem locateLoop_eq (total : ℕ) (ranges : List CanisterIdRange)
    (h : ∀ r ∈ ranges, r.TenByteEnds) (loc : ℕ) (hloc : loc < (ranges.flatMap numbersOf).length) :
    locateLoop total loc ranges = .ok (canisterIdFromU64 (ranges.flatMap numbersOf)[loc]) := by
  induction ranges generalizing loc with
  | nil => simp at hloc
  | cons r ranges ih =>
    have hr := h r List.mem_cons_self
    simp only [List.flatMap_cons] at hloc ⊢
    rw [locateLoop, rangeLength_of_tenByteEnds hr, Except.ok_bind]
    by_cases hl : loc < (numbersOf r).length
    · rw [if_pos hl, canisterIdIntoU64_of_tenBytes hr.1, Except.ok_bind,
        List.getElem_append_left hl]
      simp [numbersOf]
    · have hlen : (numbersOf r).length ≤ loc := Nat.le_of_not_lt hl
      rw [if_neg hl, List.getElem_append_right hlen]
      rw [List.length_append] at hloc
      exact ih (fun r' hr' => h r' (List.mem_cons_of_mem r hr')) _ (by omega)

theorem locate_eq (h : ∀ r ∈ rs.ranges, r.TenByteEnds) {loc : ℕ}
    (hloc : loc < rs.allNumbers.length) : rs.locate loc = .ok (rs.idAt loc) := by
  rw [locate, totalCount_eq h, Except.ok_bind, Rust.assert, if_pos (decide_eq_true hloc),
    Except.ok_bind, idAt_eq hloc]
  exact locateLoop_eq _ rs.ranges h loc hloc

/-! ## The numbers of well-formed ranges -/

section WellFormedRanges

variable (hwf : rs.wellFormed = .ok ()) (hd : ∀ r ∈ rs.ranges, r.U64DerivedEnds)
include hwf hd

theorem sorted_allNumbers : rs.allNumbers.Pairwise (· < ·) := by
  obtain ⟨hne, hchain⟩ := (CanisterIdRanges.wellFormed_eq_ok_iff rs).mp hwf
  have hlt : rs.ranges.Pairwise fun a b => u64Of a.«end» < u64Of b.start :=
    (pairwise_of_isChain hne hchain).imp_of_mem fun ha hb hab =>
      (lt_iff_of_u64Derived (hd _ ha).2 (hd _ hb).1).mp hab
  rw [allNumbers, List.pairwise_flatMap]
  refine ⟨fun r _ => List.pairwise_lt_range', hlt.imp fun hab x hx y hy => ?_⟩
  rw [mem_numbersOf] at hx hy
  exact lt_of_le_of_lt hx.2 (lt_of_lt_of_le hab hy.1)

theorem length_allNumbers_le : rs.allNumbers.length ≤ 2 ^ 64 := by
  have hnd : rs.allNumbers.Nodup := (sorted_allNumbers hwf hd).imp ne_of_lt
  calc rs.allNumbers.length = rs.allNumbers.toFinset.card := (List.toFinset_card_of_nodup hnd).symm
    _ ≤ (Finset.range (2 ^ 64)).card := Finset.card_le_card fun n hn => by
        have hn' := le_u64Max_of_mem_allNumbers (List.mem_toFinset.mp hn)
        rw [u64Max] at hn'
        rw [Finset.mem_range]
        omega
    _ = 2 ^ 64 := Finset.card_range _

theorem idAt_strictMonoOn : StrictMonoOn rs.idAt (Set.Iio rs.allNumbers.length) := by
  intro i hi j hj hij
  have hmem : ∀ k (hk : k < rs.allNumbers.length), rs.allNumbers[k] ≤ u64Max := fun k hk =>
    le_u64Max_of_mem_allNumbers (List.getElem_mem hk)
  rw [idAt_eq hi, idAt_eq hj, lt_iff_of_u64Derived (u64Derived_canisterIdFromU64 (hmem i hi))
    (u64Derived_canisterIdFromU64 (hmem j hj)), u64Of_canisterIdFromU64 (hmem i hi),
    u64Of_canisterIdFromU64 (hmem j hj)]
  exact List.pairwise_iff_getElem.mp (sorted_allNumbers hwf hd) i j hi hj hij

omit hwf in
theorem image_idAt :
    rs.idAt '' Set.Iio rs.allNumbers.length =
      {c | U64Derived c ∧ ∃ r ∈ rs.ranges, r.Contains c} := by
  ext c
  constructor
  · rintro ⟨loc, hloc, rfl⟩
    have hmem : rs.allNumbers[loc] ∈ rs.allNumbers := List.getElem_mem hloc
    have hmax := le_u64Max_of_mem_allNumbers hmem
    obtain ⟨r, hr, hc⟩ := mem_allNumbers.mp hmem
    rw [idAt_eq hloc]
    exact ⟨u64Derived_canisterIdFromU64 hmax, r, hr, (covers_iff (hd r hr) hmax).mp hc⟩
  · rintro ⟨⟨n, hn, rfl⟩, r, hr, hc⟩
    have hmem : n ∈ rs.allNumbers := mem_allNumbers.mpr ⟨r, hr, (covers_iff (hd r hr) hn).mpr hc⟩
    obtain ⟨loc, hloc, rfl⟩ := List.mem_iff_getElem.mp hmem
    exact ⟨loc, hloc, idAt_eq hloc⟩

end WellFormedRanges

end CanisterIdRanges

open CanisterIdRanges RoutingTable

/-! ## The ranges of a subnet -/

namespace RoutingTable

variable {t : RoutingTable} {s : SubnetId}

theorem mem_ranges {r : CanisterIdRange} : r ∈ (t.ranges s).ranges ↔ (r, s) ∈ t.map.entries := by
  simp only [ranges, List.mem_filterMap, Option.ite_none_right_eq_some, Option.some.injEq]
  constructor
  · rintro ⟨e, he, hs, rfl⟩
    rw [← hs]
    exact he
  · intro h
    exact ⟨(r, s), h, rfl, rfl⟩

theorem u64DerivedEnds_of_mem_ranges (hd : ∀ k ∈ t.map.keys, k.U64DerivedEnds) :
    ∀ r ∈ (t.ranges s).ranges, r.U64DerivedEnds := fun r hr =>
  hd r (List.mem_map_of_mem (mem_ranges.mp hr))

theorem wellFormed_ranges (hwf : t.WellFormed) : (t.ranges s).wellFormed = .ok () := by
  rw [CanisterIdRanges.wellFormed_eq_ok_iff]
  refine ⟨fun r hr => hwf.1.1 r (List.mem_map_of_mem (mem_ranges.mp hr)), ?_⟩
  apply List.Pairwise.isChain
  show (t.map.entries.filterMap _).Pairwise _
  rw [List.pairwise_filterMap]
  refine (ValidRanges.pairwise_entries hwf.1).imp fun hab b hb b' hb' => ?_
  simp only [Option.ite_none_right_eq_some, Option.some.injEq] at hb hb'
  rw [← hb.2, ← hb'.2]
  exact hab

theorem lookupInRanges_of_mem_allNumbers (hwf : t.WellFormed)
    (hd : ∀ k ∈ t.map.keys, k.U64DerivedEnds) {n : ℕ} (hn : n ∈ (t.ranges s).allNumbers) :
    lookupInRanges t.map (canisterIdFromU64 n) = .ok (some s) := by
  obtain ⟨r, hr, hc⟩ := mem_allNumbers.mp hn
  have happ := apart_of_u64Derived hwf.1 hd
  rw [lookupInRanges_eq_routeIn happ hd (le_u64Max_of_mem_allNumbers hn),
    (routeIn_eq_some_iff happ).mpr ⟨r, t.map.get?_eq_some_iff.mpr (mem_ranges.mp hr), hc⟩]

end RoutingTable

/-! ## `generate_new_canister_id` -/

/-- `CanisterManagerError::SubnetOutOfCanisterIds`, the error of `generate_new_canister_id`. -/
inductive CanisterManagerError where
  | subnetOutOfCanisterIds (allowed : ℕ)
  deriving DecidableEq

/-- What `generate_new_canister_id` reads and writes of the `SystemMetadata`. -/
structure CanisterIdState where
  routingTable : RoutingTable
  generatedIdCounter : UInt64

/-- `CanisterManager::generate_new_canister_id`: `locate` at the counter, which goes up by one. -/
def generateNewCanisterId (ownSubnetId : SubnetId) (state : CanisterIdState) :
    Except String (Except CanisterManagerError CanisterId × CanisterIdState) := do
  let canisterIdRanges := state.routingTable.ranges ownSubnetId
  let totalCount ← canisterIdRanges.totalCount
  if totalCount ≤ state.generatedIdCounter.toNat then
    pure (.error (.subnetOutOfCanisterIds totalCount), state)
  else do
    let canisterId ← canisterIdRanges.locate state.generatedIdCounter.toNat
    pure (.ok canisterId, { state with generatedIdCounter := state.generatedIdCounter + 1 })

/-- `n` calls of `generate_new_canister_id` in a row, each on the state the last one left. -/
def generateRun (ownSubnetId : SubnetId) :
    ℕ → CanisterIdState →
      Except String (List (Except CanisterManagerError CanisterId) × CanisterIdState)
  | 0, state => pure ([], state)
  | n + 1, state => do
    let (result, state') ← generateNewCanisterId ownSubnetId state
    let (results, state'') ← generateRun ownSubnetId n state'
    pure (result :: results, state'')

section Generate

variable {t : RoutingTable} {s : SubnetId} (hd : ∀ k ∈ t.map.keys, k.U64DerivedEnds)
include hd

theorem generateNewCanisterId_eq (k : ℕ) :
    generateNewCanisterId s ⟨t, UInt64.ofNat k⟩ =
      if (t.ranges s).allNumbers.length ≤ k % 2 ^ 64 then
        .ok (.error (.subnetOutOfCanisterIds (t.ranges s).allNumbers.length), ⟨t, UInt64.ofNat k⟩)
      else .ok (.ok ((t.ranges s).idAt (k % 2 ^ 64)), ⟨t, UInt64.ofNat (k + 1)⟩) := by
  have hten : ∀ r ∈ (t.ranges s).ranges, r.TenByteEnds := fun r hr =>
    (RoutingTable.u64DerivedEnds_of_mem_ranges hd r hr).tenByteEnds
  have hk : (UInt64.ofNat k).toNat = k % 2 ^ 64 := UInt64.toNat_ofNat
  rw [generateNewCanisterId]
  simp only [totalCount_eq hten, Except.ok_bind, hk]
  split_ifs with hout
  · rfl
  · rw [locate_eq hten (Nat.lt_of_not_le hout), Except.ok_bind, UInt64.ofNat_add]
    rfl

/-- **A run of calls** returns the ids `locate` gives while the counter stays in range. -/
theorem generateRun_eq (n k : ℕ)
    (hn : ∀ i, k ≤ i → i < k + n → i % 2 ^ 64 < (t.ranges s).allNumbers.length) :
    generateRun s n ⟨t, UInt64.ofNat k⟩ =
      .ok ((List.range' k n).map fun i => .ok ((t.ranges s).idAt (i % 2 ^ 64)),
        ⟨t, UInt64.ofNat (k + n)⟩) := by
  induction n generalizing k with
  | zero => rfl
  | succ n ih =>
    have hk := hn k le_rfl (by omega)
    rw [generateRun, generateNewCanisterId_eq hd, if_neg (Nat.not_le_of_lt hk),
      Except.ok_bind]
    simp only
    rw [ih (k + 1) fun i hi hi' => hn i (by omega) (by omega), Except.ok_bind,
      List.range'_succ, List.map_cons, Nat.add_right_comm]
    rfl

end Generate

/-- **`locate` enumerates the ranges**, strictly increasing on `[0, total_count)`, and
`generate_new_canister_id` returns `total_count` distinct routed ids, then runs out or wraps. -/
theorem locate_enumerates_ranges :
    (∀ rs : CanisterIdRanges, rs.wellFormed = .ok () → (∀ r ∈ rs.ranges, r.U64DerivedEnds) →
      ∃ total, rs.totalCount = .ok total ∧ total ≤ 2 ^ 64 ∧
        (∀ loc < total, rs.locate loc = .ok (rs.idAt loc)) ∧
        StrictMonoOn rs.idAt (Set.Iio total) ∧
        rs.idAt '' Set.Iio total = {c | U64Derived c ∧ ∃ r ∈ rs.ranges, r.Contains c}) ∧
    ∀ (t : RoutingTable) (s : SubnetId), t.wellFormed = .ok (.ok ()) →
      (∀ k ∈ t.map.keys, k.U64DerivedEnds) →
      ∃ total, (t.ranges s).totalCount = .ok total ∧
        (∀ n ≤ total, ∃ ids : List CanisterId,
          generateRun s n ⟨t, 0⟩ = .ok (ids.map Except.ok, ⟨t, UInt64.ofNat n⟩) ∧ ids.Nodup ∧
          ∀ c ∈ ids, lookupInRanges t.map c = .ok (some s) ∧
            ((∀ e ∈ t.map.entries, e.2 ≠ c) → t.route c = .ok (some s))) ∧
        (total < 2 ^ 64 → generateNewCanisterId s ⟨t, UInt64.ofNat total⟩ =
          .ok (.error (.subnetOutOfCanisterIds total), ⟨t, UInt64.ofNat total⟩)) ∧
        (total = 2 ^ 64 → ∀ n, generateRun s n ⟨t, 0⟩ =
          .ok ((List.range n).map fun i => .ok ((t.ranges s).idAt (i % 2 ^ 64)),
            ⟨t, UInt64.ofNat n⟩)) := by
  refine ⟨fun rs hwf hd => ?_, fun t s htwf hd => ?_⟩
  · have hten : ∀ r ∈ rs.ranges, r.TenByteEnds := fun r hr => (hd r hr).tenByteEnds
    exact ⟨_, totalCount_eq hten, length_allNumbers_le hwf hd, fun loc hloc => locate_eq hten hloc,
      idAt_strictMonoOn hwf hd, image_idAt hd⟩
  have hwf := (RoutingTable.wellFormed_eq_ok_iff t).mp htwf
  have hrwf := RoutingTable.wellFormed_ranges (s := s) hwf
  have hrd := RoutingTable.u64DerivedEnds_of_mem_ranges (s := s) hd
  have hlen := length_allNumbers_le hrwf hrd
  have h0 : (0 : UInt64) = UInt64.ofNat 0 := rfl
  refine ⟨_, totalCount_eq fun r hr => (hrd r hr).tenByteEnds, fun n hn => ?_, fun hlt => ?_,
    fun htot n => ?_⟩
  · -- below `total_count` the counter never wraps, so the ids are those of `locate`
    have hmod : ∀ i < n, i % 2 ^ 64 = i := fun i hi => Nat.mod_eq_of_lt (by omega)
    refine ⟨(List.range n).map (t.ranges s).idAt, ?_, ?_, ?_⟩
    · have hrun := generateRun_eq (s := s) hd n 0 fun i _ hi => by rw [hmod i (by omega)]; omega
      rw [Nat.zero_add, ← List.range_eq_range'] at hrun
      rw [h0, hrun, List.map_map]
      congr 2
      exact List.map_congr_left fun i hi => by rw [hmod i (List.mem_range.mp hi)]; rfl
    · refine List.Nodup.map_on (fun i hi j hj hij => ?_) List.nodup_range
      exact (idAt_strictMonoOn hrwf hrd).injOn (by simp at hi ⊢; omega) (by simp at hj ⊢; omega) hij
    · intro c hc
      obtain ⟨i, hi, rfl⟩ := List.mem_map.mp hc
      have hil : i < (t.ranges s).allNumbers.length := by simp at hi; omega
      have hlookup : lookupInRanges t.map ((t.ranges s).idAt i) = .ok (some s) := by
        rw [idAt_eq hil]
        exact RoutingTable.lookupInRanges_of_mem_allNumbers hwf hd (List.getElem_mem hil)
      exact ⟨hlookup, fun hp => (route_of_not_subnet hp).trans hlookup⟩
  · rw [generateNewCanisterId_eq hd, Nat.mod_eq_of_lt hlt, if_pos le_rfl]
  · have hrun := generateRun_eq (s := s) hd n 0 fun i _ _ => by
      rw [htot]
      exact Nat.mod_lt i (Nat.two_pow_pos 64)
    rw [Nat.zero_add, ← List.range_eq_range'] at hrun
    rw [h0, hrun]

theorem locate_enumerates_ranges_at_two_ranges :
    let s : SubnetId := ⟨[1], by decide⟩
    let t : RoutingTable := ⟨(SortedMap.empty.insert (makeRange 0 1) s).insert (makeRange 5 6) s⟩
    t.wellFormed = .ok (.ok ()) ∧ (t.ranges s).wellFormed = .ok () ∧
      ∃ total, (t.ranges s).totalCount = .ok total ∧
        StrictMonoOn (t.ranges s).idAt (Set.Iio total) ∧
        ∃ ids : List CanisterId,
          generateRun s total ⟨t, 0⟩ = .ok (ids.map Except.ok, ⟨t, UInt64.ofNat total⟩) ∧
            ids.Nodup := by
  intro s t
  have hwf : t.wellFormed = .ok (.ok ()) := by decide
  have hrwf : (t.ranges s).wellFormed = .ok () := by decide
  have hkeys : t.map.keys = [makeRange 0 1, makeRange 5 6] := by decide
  have hd : ∀ k ∈ t.map.keys, k.U64DerivedEnds := by
    rw [hkeys]
    simp only [List.mem_cons, List.not_mem_nil, or_false]
    rintro k (rfl | rfl) <;> exact makeRange_u64DerivedEnds (by decide) (by decide)
  obtain ⟨total, htot, -, -, hmono, -⟩ :=
    locate_enumerates_ranges.1 _ hrwf (RoutingTable.u64DerivedEnds_of_mem_ranges hd)
  obtain ⟨total', htot', hrun, -, -⟩ := locate_enumerates_ranges.2 t s hwf hd
  obtain rfl : total' = total := Except.ok.inj (htot'.symm.trans htot)
  obtain ⟨ids, hids, hnd, -⟩ := hrun total' le_rfl
  exact ⟨hwf, hrwf, total', htot', hmono, ids, hids, hnd⟩

/-- `locate` yields only ids made by `from_u64`, missing `c` between two of them. -/
theorem locate_misses_between :
    let rs : CanisterIdRanges := ⟨[makeRange 0 1]⟩
    let c : CanisterId := ⟨Bytes.toBeBytes 8 0 ++ [1, 2], by decide⟩
    rs.wellFormed = .ok () ∧ (makeRange 0 1).U64DerivedEnds ∧ (makeRange 0 1).Contains c ∧
      rs.totalCount = .ok 2 ∧ rs.locate 0 = .ok (canisterIdFromU64 0) ∧
      rs.locate 1 = .ok (canisterIdFromU64 1) ∧ c ≠ canisterIdFromU64 0 ∧
      c ≠ canisterIdFromU64 1 :=
  ⟨by decide, makeRange_u64DerivedEnds (by decide) (by decide), by decide, by decide, by decide,
    by decide, by decide, by decide⟩

end IC.Routing
