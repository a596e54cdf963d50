import InternetComputer.Routing.AssignRanges

/-!
# Where the routing table sends an id

On a table whose ranges are apart in number and made by `from_u64`, the range `lookup_in_ranges`
finds for an id is the one whose numbers hold the id's number: `routeIn`
(`lookupInRanges_eq_routeIn`). `assign_range` sends the numbers of the new range to the
destination and every other number where the table sent it, and `optimize` keeps every route.

* **`assignRanges_reroutes`**: `assign_ranges` of ranges made by `from_u64` reroutes exactly the
  ids in them; **`assignRanges_drops_neighbour`**: other range ends can take a neighbour's route.
-/

namespace IC.Routing

open IC.State CanisterIdRange RoutingTable

namespace CanisterIdRange

/-- The numbers of the range hold `n`. -/
def Covers (r : CanisterIdRange) (n : ℕ) : Prop := u64Of r.start ≤ n ∧ n ≤ u64Of r.«end»

instance (r : CanisterIdRange) (n : ℕ) : Decidable (r.Covers n) :=
  inferInstanceAs (Decidable (_ ∧ _))

/-- A range made by `from_u64` that holds a number. -/
structure FromU64 (r : CanisterIdRange) : Prop where
  nonEmpty : u64Of r.start ≤ u64Of r.«end»
  derived : r.U64DerivedEnds

variable {a b r : CanisterIdRange} {n : ℕ}

theorem U64Separated.not_covers (h : a.U64Separated b) (ha : a.Covers n) : ¬b.Covers n := by
  unfold U64Separated at h
  unfold Covers at ha ⊢
  omega

theorem covers_iff (hr : r.U64DerivedEnds) (hn : n ≤ u64Max) :
    r.Covers n ↔ r.start ≤ canisterIdFromU64 n ∧ canisterIdFromU64 n ≤ r.«end» := by
  have hdn := u64Derived_canisterIdFromU64 hn
  rw [le_iff_of_u64Derived hr.1 hdn, le_iff_of_u64Derived hdn hr.2, u64Of_canisterIdFromU64 hn]
  rfl

theorem covers_makeRange {a b : ℕ} (ha : a ≤ u64Max) (hb : b ≤ u64Max) :
    (makeRange a b).Covers n ↔ a ≤ n ∧ n ≤ b := by
  simp only [Covers, makeRange_start, makeRange_end, u64Of_canisterIdFromU64 ha,
    u64Of_canisterIdFromU64 hb]

end CanisterIdRange

theorem Apart.covers_unique {ks : List CanisterIdRange} (h : Apart ks) {a b : CanisterIdRange}
    (ha : a ∈ ks) (hb : b ∈ ks) {n : ℕ} (han : a.Covers n) (hbn : b.Covers n) : a = b := by
  by_contra hab
  exact (h.u64Separated a ha b hb hab).not_covers han hbn

/-! ## Routes by number -/

section RouteIn

variable {ν : Type}

/-- The value entries send the number `n` to: that of the first range whose numbers hold `n`. -/
def routeIn (es : List (CanisterIdRange × ν)) (n : ℕ) : Option ν :=
  (es.find? fun e => decide (e.1.Covers n)).map Prod.snd

@[simp]
theorem routeIn_nil (n : ℕ) : routeIn ([] : List (CanisterIdRange × ν)) n = none := rfl

theorem routeIn_cons (e : CanisterIdRange × ν) (es : List (CanisterIdRange × ν)) (n : ℕ) :
    routeIn (e :: es) n = if e.1.Covers n then some e.2 else routeIn es n := by
  unfold routeIn
  by_cases h : e.1.Covers n <;> simp [h]

theorem routeIn_append (l₁ l₂ : List (CanisterIdRange × ν)) (n : ℕ) :
    routeIn (l₁ ++ l₂) n = (routeIn l₁ n).or (routeIn l₂ n) := by
  induction l₁ with
  | nil => simp
  | cons e es ih =>
    rw [List.cons_append, routeIn_cons, routeIn_cons, ih]
    split_ifs <;> rfl

theorem routeIn_eq_none {es : List (CanisterIdRange × ν)} {n : ℕ}
    (h : ∀ e ∈ es, ¬e.1.Covers n) : routeIn es n = none := by
  unfold routeIn
  rw [List.find?_eq_none.mpr fun e he => by simpa using h e he, Option.map_none]

/-- The number `n` lies in a range of the map whose value is `w`. -/
def Routes (m : SortedMap CanisterIdRange ν) (n : ℕ) (w : ν) : Prop :=
  ∃ k, m.get? k = some w ∧ k.Covers n

theorem routeIn_eq_some_iff {m : SortedMap CanisterIdRange ν} (hm : Apart m.keys) {n : ℕ}
    {w : ν} : routeIn m.entries n = some w ↔ Routes m n w := by
  unfold routeIn Routes
  constructor
  · intro h
    obtain ⟨e, he, rfl⟩ := Option.map_eq_some_iff.mp h
    exact ⟨e.1, m.get?_eq_some_iff.mpr (List.mem_of_find?_eq_some he),
      by simpa using List.find?_some he⟩
  · rintro ⟨k, hk, hkn⟩
    have hkm := m.get?_eq_some_iff.mp hk
    have hsome : (m.entries.find? fun e => decide (e.1.Covers n)).isSome :=
      List.find?_isSome.mpr ⟨_, hkm, by simpa using hkn⟩
    obtain ⟨e, he⟩ := Option.isSome_iff_exists.mp hsome
    have hem := List.mem_of_find?_eq_some he
    have hek : e.1 = k := hm.covers_unique (List.mem_map_of_mem hem) (List.mem_map_of_mem hkm)
      (by simpa using List.find?_some he) hkn
    have hget : m.get? e.1 = some e.2 := m.get?_eq_some_iff.mpr hem
    rw [hek, hk] at hget
    rw [he, Option.map_some, hget]

end RouteIn

/-! ## `lookup_in_ranges` -/

theorem le_probe_iff {k : CanisterIdRange} (hk : k.U64DerivedEnds) {n : ℕ} (hn : n ≤ u64Max) :
    k ≤ ⟨canisterIdFromU64 n, canisterIdFromU64 u64Max⟩ ↔ u64Of k.start ≤ n := by
  have hdn := u64Derived_canisterIdFromU64 hn
  have hdmax := u64Derived_canisterIdFromU64 (le_refl u64Max)
  have hend := u64Of_le_u64Max k.«end»
  rw [CanisterIdRange.le_iff, lt_iff_of_u64Derived hk.1 hdn, eq_iff_of_u64Derived hk.1 hdn,
    le_iff_of_u64Derived hk.2 hdmax, u64Of_canisterIdFromU64 hn,
    u64Of_canisterIdFromU64 (le_refl u64Max)]
  omega

/-- **`lookup_in_ranges` at an id made by `from_u64`**, on a map of ranges apart in number and
made by `from_u64`: it does not panic, and finds the value of the range that holds the id's
number. -/
theorem lookupInRanges_eq_routeIn {ν : Type} {m : SortedMap CanisterIdRange ν}
    (hm : Apart m.keys) (hd : ∀ k ∈ m.keys, k.U64DerivedEnds) {n : ℕ} (hn : n ≤ u64Max) :
    lookupInRanges m (canisterIdFromU64 n) = .ok (routeIn m.entries n) := by
  have hdn := u64Derived_canisterIdFromU64 hn
  -- the entries not above the probe are those that start at or below `n`
  have hfilter : (m.entries.filter fun e =>
      decide (e.1 ≤ ⟨canisterIdFromU64 n, canisterIdFromU64 u64Max⟩)) =
      m.entries.filter fun e => decide (u64Of e.1.start ≤ n) :=
    List.filter_congr fun e he => decide_eq_decide.mpr (le_probe_iff (hd _ (List.mem_map_of_mem he)) hn)
  have hordered : (m.entries.filter fun e => decide (u64Of e.1.start ≤ n)).Pairwise
      fun a b => u64Of a.1.«end» < u64Of b.1.start :=
    hm.pairwise_u64.sublist List.filter_sublist
  unfold lookupInRanges
  rw [hfilter]
  cases hlast : (m.entries.filter fun e => decide (u64Of e.1.start ≤ n)).getLast? with
  | none =>
    -- no range starts at or below `n`
    have hnil := List.getLast?_eq_none_iff.mp hlast
    refine congrArg Except.ok (routeIn_eq_none fun e he hen => ?_).symm
    exact absurd (List.mem_filter.mpr ⟨he, by simpa using hen.1⟩) (hnil ▸ List.not_mem_nil)
  | some last =>
    obtain ⟨k, v⟩ := last
    obtain ⟨hkm, hks⟩ := List.mem_filter.mp (List.mem_of_getLast? hlast)
    have hkd := hd k (List.mem_map_of_mem hkm)
    have hks' : u64Of k.start ≤ n := by simpa using hks
    have hstart : k.start ≤ canisterIdFromU64 n :=
      (le_iff_of_u64Derived hkd.1 hdn).mpr (by rw [u64Of_canisterIdFromU64 hn]; exact hks')
    have hassert : Rust.assert (decide (k.start ≤ canisterIdFromU64 n))
        "assertion failed: interval.start <= canister_id" = .ok () :=
      Rust.assert_eq_ok.mpr (decide_eq_true hstart)
    simp only [hassert, Except.ok_bind]
    by_cases hkn : n ≤ u64Of k.«end»
    · -- the last range that starts at or below `n` holds it
      have hcov : k.Covers n := ⟨hks', hkn⟩
      rw [if_pos ((covers_iff hkd hn).mp hcov).2,
        (routeIn_eq_some_iff hm).mpr ⟨k, m.get?_eq_some_iff.mpr hkm, hcov⟩]
      rfl
    · -- it ends below `n`, and the ranges before it end below its start
      rw [if_neg fun h => hkn ((covers_iff hkd hn).mpr ⟨hstart, h⟩).2]
      refine congrArg Except.ok (routeIn_eq_none fun e he hen => ?_).symm
      have hef : e ∈ m.entries.filter fun e => decide (u64Of e.1.start ≤ n) :=
        List.mem_filter.mpr ⟨he, by simpa using hen.1⟩
      rcases hordered.rel_getLast? hlast e hef with rfl | hlt
      · exact hkn hen.2
      · exact absurd (lt_of_le_of_lt hen.2 hlt) (not_lt.mpr hks')

/-! ## What the loop of `assign_range` does with subnets -/

section Loop

variable {rStart rEnd : ℕ}

theorem IsPiece.covers {k p : CanisterIdRange} (h : IsPiece rStart rEnd k p) {n : ℕ}
    (hp : p.Covers n) : k.Covers n := by
  have hw := h.within
  unfold Covers at hp ⊢
  omega

theorem AssignRangeLoopSpec.nodup_toAdd {vs : List (CanisterIdRange × SubnetId)}
    {toRemove : List CanisterIdRange} {toAdd : List (CanisterIdRange × SubnetId)}
    (s : AssignRangeLoopSpec rStart rEnd vs toRemove toAdd) : (toAdd.map Prod.fst).Nodup :=
  List.pairwise_map.mpr (s.ordered.imp_of_mem fun hp _ hpq heq => by
    obtain ⟨k, -, hpiece⟩ := s.piece _ hp
    have hne := hpiece.nonEmpty
    rw [heq] at hpq hne
    omega)

/-- What the loop returns over `vs`: each piece keeps the subnet of the range it is cut from, and a
removed range's ids outside `rStart..rEnd` lie in a piece of its subnet. -/
structure AssignRangeLoopCover (rStart rEnd : ℕ) (vs : List (CanisterIdRange × SubnetId))
    (toRemove : List CanisterIdRange) (toAdd : List (CanisterIdRange × SubnetId)) : Prop where
  value : ∀ p ∈ toAdd, ∃ e ∈ vs, e.2 = p.2 ∧ IsPiece rStart rEnd e.1 p.1
  cover : ∀ e ∈ vs, e.1 ∈ toRemove → ∀ n, e.1.Covers n → n < rStart ∨ rEnd < n →
    ∃ p ∈ toAdd, p.2 = e.2 ∧ p.1.Covers n

theorem assignRangeLoopCover_nil (vs : List (CanisterIdRange × SubnetId)) :
    AssignRangeLoopCover rStart rEnd vs [] [] :=
  ⟨by simp, by simp⟩

theorem AssignRangeLoopCover.skip {k : CanisterIdRange} {v : SubnetId}
    {rest : List (CanisterIdRange × SubnetId)} {rem : List CanisterIdRange}
    {add : List (CanisterIdRange × SubnetId)} (c : AssignRangeLoopCover rStart rEnd rest rem add)
    (hk : k ∉ rem) : AssignRangeLoopCover rStart rEnd ((k, v) :: rest) rem add where
  value p hp := by
    obtain ⟨e, he, h⟩ := c.value p hp
    exact ⟨e, List.mem_cons_of_mem _ he, h⟩
  cover e he hrem := by
    rcases List.mem_cons.mp he with rfl | he
    · exact absurd hrem hk
    · exact c.cover e he hrem

theorem AssignRangeLoopCover.cons {k : CanisterIdRange} {v : SubnetId}
    {rest : List (CanisterIdRange × SubnetId)} {rem : List CanisterIdRange}
    {add : List (CanisterIdRange × SubnetId)} (c : AssignRangeLoopCover rStart rEnd rest rem add)
    (ps : List (CanisterIdRange × SubnetId)) (hps : ∀ p ∈ ps, p.2 = v ∧ IsPiece rStart rEnd k p.1)
    (hcov : ∀ n, k.Covers n → n < rStart ∨ rEnd < n → ∃ p ∈ ps, p.1.Covers n)
    (hrest : ∀ e ∈ rest, e.1 ≠ k) :
    AssignRangeLoopCover rStart rEnd ((k, v) :: rest) (k :: rem) (ps ++ add) where
  value p hp := by
    rcases List.mem_append.mp hp with hp | hp
    · exact ⟨(k, v), List.mem_cons_self, (hps p hp).1.symm, (hps p hp).2⟩
    · obtain ⟨e, he, h⟩ := c.value p hp
      exact ⟨e, List.mem_cons_of_mem _ he, h⟩
  cover e he hrem n hn hout := by
    rcases List.mem_cons.mp he with rfl | he
    · obtain ⟨p, hp, hpn⟩ := hcov n hn hout
      exact ⟨p, List.mem_append_left _ hp, (hps p hp).1, hpn⟩
    · obtain ⟨p, hp, h⟩ := c.cover e he ((List.mem_cons.mp hrem).resolve_left (hrest e he)) n hn hout
      exact ⟨p, List.mem_append_right _ hp, h⟩

theorem AssignRangeLoopCover.stop {k : CanisterIdRange} {v : SubnetId}
    {rest : List (CanisterIdRange × SubnetId)} (ps : List (CanisterIdRange × SubnetId))
    (hps : ∀ p ∈ ps, p.2 = v ∧ IsPiece rStart rEnd k p.1)
    (hcov : ∀ n, k.Covers n → n < rStart ∨ rEnd < n → ∃ p ∈ ps, p.1.Covers n)
    (hrest : ∀ e ∈ rest, e.1 ≠ k) : AssignRangeLoopCover rStart rEnd ((k, v) :: rest) [k] ps := by
  have c := (assignRangeLoopCover_nil rest).cons ps hps hcov hrest
  rwa [List.append_nil] at c

/-- **The loop of `assign_range` for subnets**, over ten-byte non-empty increasing ranges. -/
theorem assignRangeLoop_cover (hr : rStart ≤ rEnd) : ∀ {vs : List (CanisterIdRange × SubnetId)}
    {toRemove : List CanisterIdRange} {toAdd : List (CanisterIdRange × SubnetId)},
    (∀ e ∈ vs, e.1.TenByteEnds) → (∀ e ∈ vs, u64Of e.1.start ≤ u64Of e.1.«end») →
    (vs.Pairwise fun a b => u64Of a.1.«end» < u64Of b.1.start) →
    assignRangeLoop rStart rEnd vs = .ok (toRemove, toAdd) →
    AssignRangeLoopCover rStart rEnd vs toRemove toAdd
  | [], _, _, _, _, _, h => by
    rw [assignRangeLoop] at h
    obtain ⟨rfl, rfl⟩ := Prod.mk.inj (Except.pure_eq_ok.mp h)
    exact assignRangeLoopCover_nil []
  | (k, v) :: rest, _, _, hten, hne, hsep, h => by
    have hk : k.TenByteEnds := hten (k, v) List.mem_cons_self
    have hkne : u64Of k.start ≤ u64Of k.«end» := hne (k, v) List.mem_cons_self
    have htenRest := fun e he => hten e (List.mem_cons_of_mem (k, v) he)
    have hneRest := fun e he => hne e (List.mem_cons_of_mem (k, v) he)
    have hsepRest : ∀ e ∈ rest, u64Of k.«end» < u64Of e.1.start := (List.pairwise_cons.mp hsep).1
    -- the ranges after `k` start above it, so none is `k`
    have hrestNe : ∀ e ∈ rest, e.1 ≠ k := fun e he hek => by
      have h₁ := hsepRest e he
      rw [hek] at h₁
      omega
    have hkmax := u64Of_le_u64Max k.«end»
    have hstart : u64Of k.start ≤ u64Max := le_trans hkne hkmax
    rcases assignRangeLoop_cons_eq_ok hk h with
      ⟨h₁, h₂, h₃, rem, add, hrec, rfl, rfl⟩ | ⟨h₁, h₂, rem, hrec, rfl⟩ |
      ⟨h₁, h₂, rfl, rfl⟩ | ⟨h₁, h₂, h₃, rfl, rfl⟩ | ⟨h₁, hrec⟩
    · -- `k` sticks out on the left: its left part holds what it holds outside the new range
      refine (assignRangeLoop_cover hr htenRest hneRest hsep.of_cons hrec).cons _
        (fun p hp => ?_) (fun n hn hout => ⟨_, List.mem_singleton_self _, ?_⟩) hrestNe
      · obtain rfl := List.mem_singleton.mp hp
        exact ⟨rfl, isPiece_makeRange (by omega) (by omega) ⟨le_rfl, by omega⟩ (Or.inl (by omega))⟩
      · unfold Covers at hn
        exact (covers_makeRange hstart (by omega)).mpr (by omega)
    · -- `k` lies within the new range, which holds all it holds
      refine (assignRangeLoop_cover hr htenRest hneRest hsep.of_cons hrec).cons [] (by simp)
        (fun n hn hout => ?_) hrestNe
      unfold Covers at hn
      omega
    · -- `k` sticks out on both sides: its two parts hold what it holds outside the new range
      refine AssignRangeLoopCover.stop _ (fun p hp => ?_) (fun n hn hout => ?_) hrestNe
      · simp only [List.mem_cons, List.not_mem_nil, or_false] at hp
        rcases hp with rfl | rfl
        · exact ⟨rfl, isPiece_makeRange (by omega) (by omega) ⟨le_rfl, by omega⟩ (Or.inl (by omega))⟩
        · exact ⟨rfl, isPiece_makeRange (by omega) hkmax ⟨by omega, le_rfl⟩ (Or.inr (by omega))⟩
      · unfold Covers at hn
        rcases hout with hout | hout
        · exact ⟨_, List.mem_cons_self, (covers_makeRange hstart (by omega)).mpr (by omega)⟩
        · exact ⟨_, List.mem_cons_of_mem _ List.mem_cons_self,
            (covers_makeRange (by omega) hkmax).mpr (by omega)⟩
    · -- `k` sticks out on the right: its right part holds what it holds above the new range
      refine AssignRangeLoopCover.stop _ (fun p hp => ?_)
        (fun n hn hout => ⟨_, List.mem_singleton_self _, ?_⟩) hrestNe
      · obtain rfl := List.mem_singleton.mp hp
        exact ⟨rfl, isPiece_makeRange (by omega) hkmax ⟨by omega, le_rfl⟩ (Or.inr (by omega))⟩
      · unfold Covers at hn
        exact (covers_makeRange (by omega) hkmax).mpr (by omega)
    · -- `k` lies apart from the new range and stays: the loop removes only later ranges
      refine (assignRangeLoop_cover hr htenRest hneRest hsep.of_cons hrec).skip fun hkrem => ?_
      obtain ⟨e, he, hek⟩ := List.mem_map.mp
        ((assignRangeLoop_spec hr htenRest hneRest hsep.of_cons hrec).removed k hkrem)
      exact hrestNe e he hek

end Loop

/-! ## One range assigned -/

section AssignRange

variable {t t' : RoutingTable} {range : CanisterIdRange} {destination : SubnetId}

theorem routes_assignRange (hinv : Apart t.map.keys)
    (hder : ∀ k ∈ t.map.keys, range ≤ k → k.U64DerivedEnds) (hne : range.NonEmpty)
    (h : t.assignRange range destination = .ok t') (n : ℕ) (w : SubnetId) :
    Routes t'.map n w ↔ range.Covers n ∧ w = destination ∨ ¬range.Covers n ∧ Routes t.map n w := by
  obtain ⟨hr, visited, toRemove, toAdd, hw, rfl⟩ := assignRange_walk hinv hder hne h
  have hvisited : ∀ e ∈ visited, e.1 ∈ t.map.keys := fun e he =>
    List.mem_map_of_mem (hw.mem_entries e he)
  have c := assignRangeLoop_cover (hne.u64Of_le hr)
    (fun e he => hinv.tenByteEnds _ (hvisited e he))
    (fun e he => (hinv.nonEmpty _ (hvisited e he)).u64Of_le (hinv.tenByteEnds _ (hvisited e he)))
    hw.ordered hw.loop
  -- the table less the ranges removed, with the pieces: a piece has its subnet, and another
  -- range its old one unless it was removed
  have hpiece : ∀ p ∈ toAdd, (toAdd.foldl (fun m e => m.insert e.1 e.2)
      (toRemove.foldl SortedMap.erase t.map)).get? p.1 = some p.2 := fun p hp =>
    SortedMap.get?_foldl_insert_of_mem _ _ hw.spec.nodup_toAdd hp
  have hother : ∀ k, k ∉ toAdd.map Prod.fst → (toAdd.foldl (fun m e => m.insert e.1 e.2)
      (toRemove.foldl SortedMap.erase t.map)).get? k =
      if k ∈ toRemove then none else t.map.get? k := fun k hk => by
    rw [SortedMap.get?_foldl_insert_of_not_mem _ _ hk, SortedMap.get?_foldl_erase]
    split_ifs <;> rfl
  simp only [Routes, SortedMap.get?_insert]
  constructor
  · rintro ⟨k, hk, hkn⟩
    split_ifs at hk with hkr
    · exact Or.inl ⟨hkr ▸ hkn, (Option.some.inj hk).symm⟩
    by_cases hadd : k ∈ toAdd.map Prod.fst
    · -- a piece, apart from the range, of the subnet of the range it was cut from
      obtain ⟨p, hp, rfl⟩ := List.mem_map.mp hadd
      obtain rfl : p.2 = w := Option.some.inj ((hpiece p hp).symm.trans hk)
      obtain ⟨e, he, hev, hpe⟩ := c.value p hp
      refine Or.inr ⟨(show p.1.U64Separated range from hpe.apart).not_covers hkn, e.1, ?_,
        hpe.covers hkn⟩
      rw [← hev]
      exact t.map.get?_eq_some_iff.mpr (hw.mem_entries e he)
    · -- an old range that stays, apart from the range
      rw [hother k hadd] at hk
      split_ifs at hk with hrem
      have hkt : k ∈ t.map.keys := List.mem_map_of_mem (t.map.get?_eq_some_iff.mp hk)
      exact Or.inr ⟨(hw.kept k hkt hrem).not_covers hkn, k, hk, hkn⟩
  · rintro (⟨hrn, rfl⟩ | ⟨hrn, k, hk, hkn⟩)
    · exact ⟨range, by rw [if_pos rfl], hrn⟩
    have hkt : k ∈ t.map.keys := List.mem_map_of_mem (t.map.get?_eq_some_iff.mp hk)
    have hout : n < u64Of range.start ∨ u64Of range.«end» < n := by
      unfold Covers at hrn
      omega
    by_cases hrem : k ∈ toRemove
    · -- removed: a piece of its subnet holds the number
      obtain ⟨e, he, rfl⟩ := List.mem_map.mp (hw.spec.removed _ hrem)
      have hew : e.2 = w :=
        Option.some.inj ((t.map.get?_eq_some_iff.mpr (hw.mem_entries e he)).symm.trans hk)
      obtain ⟨p, hp, hpv, hpn⟩ := c.cover e he hrem n hkn hout
      refine ⟨p.1, ?_, hpn⟩
      rw [if_neg (show p.1 ≠ range from fun h => hrn (h ▸ hpn)), hpiece p hp, hpv, hew]
    · -- kept: no piece has its range, since pieces lie within ranges removed
      have hadd : k ∉ toAdd.map Prod.fst := fun hadd => by
        obtain ⟨p, hp, rfl⟩ := List.mem_map.mp hadd
        obtain ⟨k₀, hk₀, hpiece₀⟩ := hw.spec.piece p hp
        obtain ⟨e, he, rfl⟩ := List.mem_map.mp (hw.spec.removed _ hk₀)
        exact hrem (hinv.covers_unique (hvisited e he) hkt (hpiece₀.covers hkn) hkn ▸ hk₀)
      refine ⟨k, ?_, hkn⟩
      rw [if_neg (show k ≠ range from fun h => hrn (h ▸ hkn)), hother k hadd, if_neg hrem, hk]

/-- **One range assigned, by number**: its numbers go to the destination, others stay. -/
theorem routeIn_assignRange (hinv : Apart t.map.keys)
    (hder : ∀ k ∈ t.map.keys, range ≤ k → k.U64DerivedEnds) (hne : range.NonEmpty)
    (h : t.assignRange range destination = .ok t') (n : ℕ) :
    routeIn t'.map.entries n =
      if range.Covers n then some destination else routeIn t.map.entries n := by
  have hinv' := (assignRange_spec hinv hder hne h).1
  refine Option.ext fun w => ?_
  rw [routeIn_eq_some_iff hinv', routes_assignRange hinv hder hne h]
  split_ifs with hrn
  · simp [hrn, eq_comm]
  · simp [hrn, routeIn_eq_some_iff hinv]

theorem assignRange_u64DerivedEnds (hinv : Apart t.map.keys)
    (hd : ∀ k ∈ t.map.keys, k.U64DerivedEnds) (hne : range.NonEmpty)
    (hrd : range.U64DerivedEnds) (h : t.assignRange range destination = .ok t') :
    ∀ k ∈ t'.map.keys, k.U64DerivedEnds := by
  obtain ⟨-, visited, toRemove, toAdd, hw, rfl⟩ :=
    assignRange_walk hinv (fun k hk _ => hd k hk) hne h
  intro k hk
  rw [SortedMap.mem_keys_insert, SortedMap.mem_keys_foldl_insert,
    SortedMap.mem_keys_foldl_erase] at hk
  rcases hk with rfl | ⟨hk, -⟩ | hk
  · exact hrd
  · exact hd k hk
  · obtain ⟨p, hp, rfl⟩ := List.mem_map.mp hk
    obtain ⟨k₀, -, hpiece⟩ := hw.spec.piece p hp
    exact hpiece.derived

end AssignRange

theorem foldlM_assignRange_routeIn (destination : SubnetId) : ∀ (rs : List CanisterIdRange)
    {t t' : RoutingTable}, Apart t.map.keys → (∀ k ∈ t.map.keys, k.U64DerivedEnds) →
    (∀ r ∈ rs, r.NonEmpty ∧ r.U64DerivedEnds) →
    rs.foldlM (fun t range => t.assignRange range destination) t = .ok t' →
    Apart t'.map.keys ∧ (∀ k ∈ t'.map.keys, k.U64DerivedEnds) ∧
      ∀ n, routeIn t'.map.entries n =
        if ∃ r ∈ rs, r.Covers n then some destination else routeIn t.map.entries n
  | [], _, _, hinv, hd, _, h => by
    rw [List.foldlM_nil] at h
    obtain rfl := Except.pure_eq_ok.mp h
    exact ⟨hinv, hd, fun n => by simp⟩
  | r :: rs, t, t', hinv, hd, hrs, h => by
    rw [List.foldlM_cons] at h
    obtain ⟨t₁, hstep, hrest⟩ := Except.bind_eq_ok.mp h
    obtain ⟨hne, hrd⟩ := hrs r List.mem_cons_self
    have hder : ∀ k ∈ t.map.keys, r ≤ k → k.U64DerivedEnds := fun k hk _ => hd k hk
    obtain ⟨hinv', hd', hroute⟩ := foldlM_assignRange_routeIn destination rs
      (assignRange_spec hinv hder hne hstep).1 (assignRange_u64DerivedEnds hinv hd hne hrd hstep)
      (fun r' hr' => hrs r' (List.mem_cons_of_mem r hr')) hrest
    refine ⟨hinv', hd', fun n => ?_⟩
    rw [hroute n, routeIn_assignRange hinv hder hne hstep n]
    by_cases h₁ : r.Covers n <;> by_cases h₂ : ∃ r' ∈ rs, r'.Covers n <;> simp [h₁, h₂]

/-! ## `optimize` -/

section Optimize

variable {acc acc' : List (CanisterIdRange × SubnetId)} {e : CanisterIdRange × SubnetId}

theorem optimizeStep_eq_ok (h : RoutingTable.optimizeStep acc e = .ok acc') :
    acc' = acc ++ [e] ∨ ∃ init lastRange, acc = init ++ [(lastRange, e.2)] ∧
      u64Of lastRange.«end» + 1 = u64Of e.1.start ∧
      acc' = init ++ [(⟨lastRange.start, e.1.«end»⟩, e.2)] := by
  unfold RoutingTable.optimizeStep at h
  cases hl : acc.getLast? with
  | none =>
    rw [hl] at h
    exact Or.inl (Except.pure_eq_ok.mp h).symm
  | some last =>
    obtain ⟨lastRange, lastSubnet⟩ := last
    rw [hl] at h
    obtain ⟨init, rfl⟩ := List.getLast?_eq_some_iff.mp hl
    obtain ⟨x, hx, h⟩ := Except.bind_eq_ok.mp h
    obtain ⟨y, hy, h⟩ := Except.bind_eq_ok.mp h
    obtain ⟨-, rfl⟩ := canisterIdIntoU64_eq_ok.mp hx
    obtain ⟨-, rfl⟩ := canisterIdIntoU64_eq_ok.mp hy
    split at h
    · next hm =>
      obtain ⟨rfl, hjoin⟩ := hm
      refine Or.inr ⟨init, lastRange, rfl, hjoin, ?_⟩
      rw [← Except.pure_eq_ok.mp h, List.dropLast_concat]
    · exact Or.inl (Except.pure_eq_ok.mp h).symm

theorem optimizeStep_fromU64 (hacc : ∀ a ∈ acc ++ [e], a.1.FromU64)
    (h : RoutingTable.optimizeStep acc e = .ok acc') : ∀ a ∈ acc', a.1.FromU64 := by
  rcases optimizeStep_eq_ok h with rfl | ⟨init, lastRange, rfl, hjoin, rfl⟩
  · exact hacc
  intro a ha
  rcases List.mem_append.mp ha with ha | ha
  · exact hacc a (List.mem_append_left _ (List.mem_append_left _ ha))
  obtain rfl := List.mem_singleton.mp ha
  have hl : lastRange.FromU64 := hacc (lastRange, e.2) (List.mem_append_left _
    (List.mem_append_right _ (List.mem_singleton_self _)))
  have he : e.1.FromU64 := hacc e (List.mem_append_right _ (List.mem_singleton_self _))
  have hle : u64Of lastRange.«end» ≤ u64Of e.1.«end» := by
    have := he.nonEmpty
    omega
  exact ⟨le_trans hl.nonEmpty hle, hl.derived.1, he.derived.2⟩

theorem routeIn_optimizeStep (hacc : ∀ a ∈ acc ++ [e], a.1.FromU64)
    (h : RoutingTable.optimizeStep acc e = .ok acc') (n : ℕ) :
    routeIn acc' n = routeIn (acc ++ [e]) n := by
  rcases optimizeStep_eq_ok h with rfl | ⟨init, lastRange, rfl, hjoin, rfl⟩
  · rfl
  have hl : lastRange.FromU64 := hacc (lastRange, e.2) (List.mem_append_left _
    (List.mem_append_right _ (List.mem_singleton_self _)))
  have he : e.1.FromU64 := hacc e (List.mem_append_right _ (List.mem_singleton_self _))
  have hmerged : (⟨lastRange.start, e.1.«end»⟩ : CanisterIdRange).Covers n ↔
      lastRange.Covers n ∨ e.1.Covers n := by
    have h₁ := hl.nonEmpty
    have h₂ := he.nonEmpty
    simp only [Covers]
    omega
  rw [List.append_assoc, routeIn_append, routeIn_append, List.singleton_append, routeIn_cons,
    routeIn_cons, routeIn_cons]
  by_cases h₁ : lastRange.Covers n
  · rw [if_pos (hmerged.mpr (Or.inl h₁)), if_pos h₁]
  · by_cases h₂ : e.1.Covers n
    · rw [if_pos (hmerged.mpr (Or.inr h₂)), if_neg h₁, if_pos h₂]
    · rw [if_neg fun h => (hmerged.mp h).elim h₁ h₂, if_neg h₁, if_neg h₂]

theorem foldlM_optimizeStep_routeIn : ∀ (es : List (CanisterIdRange × SubnetId))
    {acc out : List (CanisterIdRange × SubnetId)}, (∀ a ∈ acc ++ es, a.1.FromU64) →
    es.foldlM RoutingTable.optimizeStep acc = .ok out →
    (∀ a ∈ out, a.1.FromU64) ∧ ∀ n, routeIn out n = routeIn (acc ++ es) n
  | [], acc, out, hacc, h => by
    rw [List.foldlM_nil] at h
    obtain rfl := Except.pure_eq_ok.mp h
    exact ⟨by simpa using hacc, fun n => by rw [List.append_nil]⟩
  | e :: es, acc, out, hacc, h => by
    rw [List.foldlM_cons] at h
    obtain ⟨acc₁, hstep, hrest⟩ := Except.bind_eq_ok.mp h
    have hstepIn : ∀ a ∈ acc ++ [e], a.1.FromU64 := fun a ha =>
      hacc a (by rw [← List.singleton_append, ← List.append_assoc]; exact List.mem_append_left _ ha)
    have hacc₁ : ∀ a ∈ acc₁ ++ es, a.1.FromU64 := fun a ha => by
      rcases List.mem_append.mp ha with ha | ha
      · exact optimizeStep_fromU64 hstepIn hstep a ha
      · exact hacc a (List.mem_append_right _ (List.mem_cons_of_mem e ha))
    obtain ⟨hout, hroute⟩ := foldlM_optimizeStep_routeIn es hacc₁ hrest
    refine ⟨hout, fun n => ?_⟩
    rw [hroute n, routeIn_append, routeIn_optimizeStep hstepIn hstep n, ← routeIn_append,
      List.append_assoc, List.singleton_append]

end Optimize

theorem Apart.fromU64 {ν : Type} {m : SortedMap CanisterIdRange ν} (h : Apart m.keys)
    (hd : ∀ k ∈ m.keys, k.U64DerivedEnds) {a : CanisterIdRange × ν} (ha : a ∈ m.entries) :
    a.1.FromU64 :=
  have hk := List.mem_map_of_mem (f := Prod.fst) ha
  ⟨(h.nonEmpty _ hk).u64Of_le (h.tenByteEnds _ hk), hd _ hk⟩

/-- **`optimize` routes as before** on a table of ranges apart and made by `from_u64`. -/
theorem routeIn_optimize {t t' : RoutingTable} (hinv : Apart t.map.keys)
    (hd : ∀ k ∈ t.map.keys, k.U64DerivedEnds) (h : t.optimize = .ok t') :
    (∀ k ∈ t'.map.keys, k.U64DerivedEnds) ∧ ∀ n, routeIn t'.map.entries n = routeIn t.map.entries n := by
  have hopt := h
  unfold RoutingTable.optimize at h
  obtain ⟨out, hfold, h⟩ := Except.bind_eq_ok.mp h
  obtain rfl := Except.pure_eq_ok.mp h
  have hv := hinv.validRanges
  have hne : ∀ e ∈ t.map.entries, e.1.NonEmpty := fun e he => hv.1 e.1 (List.mem_map_of_mem he)
  have hentries : (collectMap out).entries = out := collectMap_entries_of_sorted
    (foldlM_optimizeStep_spec _ optimized_nil hne hv.pairwise_entries.isChain (by simp)
      hfold).pairwise_lt
  obtain ⟨hout, hroute⟩ := foldlM_optimizeStep_routeIn t.map.entries
    (fun a ha => hinv.fromU64 hd (by simpa using ha)) hfold
  refine ⟨fun k hk => ?_, fun n => ?_⟩
  · obtain ⟨a, ha, rfl⟩ := List.mem_map.mp hk
    exact (hout a (hentries ▸ ha)).derived
  · show routeIn (collectMap out).entries n = _
    rw [hentries, hroute n, List.nil_append]

/-! ## `assign_ranges` -/

/-- **`assign_ranges` reroutes exactly the ids of the ranges assigned**, to the destination, and
leaves every other lookup of an id made by `from_u64`. -/
theorem assignRanges_reroutes {t t' : RoutingTable} {ranges : CanisterIdRanges}
    {destination : SubnetId} (hwf : t.wellFormed = .ok (.ok ()))
    (hd : ∀ k ∈ t.map.keys, k.U64DerivedEnds) (hranges : ranges.wellFormed = .ok ())
    (hrd : ∀ r ∈ ranges.ranges, r.U64DerivedEnds)
    (h : t.assignRanges ranges destination = .ok (t', .ok ())) (c : CanisterId)
    (hc : U64Derived c) :
    ((∃ r ∈ ranges.ranges, r.start ≤ c ∧ c ≤ r.«end») →
      lookupInRanges t'.map c = .ok (some destination)) ∧
    ((¬∃ r ∈ ranges.ranges, r.start ≤ c ∧ c ≤ r.«end») →
      lookupInRanges t'.map c = lookupInRanges t.map c) := by
  obtain ⟨n, hn, rfl⟩ := hc
  unfold RoutingTable.assignRanges at h
  rw [hranges] at h
  obtain ⟨t₁, hfold, h⟩ := Except.bind_eq_ok.mp h
  obtain ⟨t₂, hopt, h⟩ := Except.bind_eq_ok.mp h
  obtain rfl : t₂ = t' := (Prod.mk.inj (Except.pure_eq_ok.mp h)).1
  have hinv := apart_of_u64Derived ((wellFormed_eq_ok_iff t).mp hwf).1 hd
  have hne := ((CanisterIdRanges.wellFormed_eq_ok_iff ranges).mp hranges).1
  -- the ranges assigned in turn, then `optimize`, send the numbers as the statement's ids
  obtain ⟨hinv₁, hd₁, hroute₁⟩ := foldlM_assignRange_routeIn destination ranges.ranges hinv hd
    (fun r hr => ⟨hne r hr, hrd r hr⟩) hfold
  obtain ⟨hd', hroute'⟩ := routeIn_optimize hinv₁ hd₁ hopt
  have hinv' := apart_of_u64Derived (wellFormed_optimize hinv₁.validRanges hopt).1 hd'
  have hcov : (∃ r ∈ ranges.ranges, r.start ≤ canisterIdFromU64 n ∧
      canisterIdFromU64 n ≤ r.«end») ↔ ∃ r ∈ ranges.ranges, r.Covers n :=
    exists_congr fun r => and_congr_right fun hr => (covers_iff (hrd r hr) hn).symm
  rw [lookupInRanges_eq_routeIn hinv' hd' hn, lookupInRanges_eq_routeIn hinv hd hn, hroute' n,
    hroute₁ n, hcov]
  exact ⟨fun hin => by rw [if_pos hin], fun hout => by rw [if_neg hout]⟩

/-- Two ranges of two subnets, and a range across both assigned to a third. -/
theorem assignRanges_reroutes_two_subnets :
    let t : RoutingTable := ⟨(SortedMap.empty.insert (makeRange 0 9) ⟨[1], by decide⟩).insert
      (makeRange 10 19) ⟨[2], by decide⟩⟩
    ∃ t', t.assignRanges ⟨[makeRange 5 12]⟩ ⟨[3], by decide⟩ = .ok (t', .ok ()) ∧
      lookupInRanges t'.map (canisterIdFromU64 7) = .ok (some ⟨[3], by decide⟩) ∧
      lookupInRanges t'.map (canisterIdFromU64 15) = lookupInRanges t.map (canisterIdFromU64 15) := by
  intro t
  have hkeys : t.map.keys = [makeRange 0 9, makeRange 10 19] := by decide
  have hd : ∀ k ∈ t.map.keys, k.U64DerivedEnds := by
    rw [hkeys]
    simp only [List.mem_cons, List.not_mem_nil, or_false]
    rintro k (rfl | rfl) <;> exact makeRange_u64DerivedEnds (by decide) (by decide)
  have hrd : ∀ r ∈ [makeRange 5 12], r.U64DerivedEnds := by
    simp only [List.mem_singleton]
    rintro r rfl
    exact makeRange_u64DerivedEnds (by decide) (by decide)
  have hrun : (t.assignRanges ⟨[makeRange 5 12]⟩ ⟨[3], by decide⟩).map Prod.snd = .ok (.ok ()) := by
    decide
  obtain ⟨⟨t', res⟩, hassign, rfl⟩ := Except.map_eq_ok.mp hrun
  have hre := assignRanges_reroutes (by decide) hd (by decide) hrd hassign
  refine ⟨t', hassign, (hre _ (u64Derived_canisterIdFromU64 (by decide))).1
    ⟨makeRange 5 12, List.mem_singleton_self _, by decide⟩,
    (hre _ (u64Derived_canisterIdFromU64 (by decide))).2 (by decide)⟩

/-- A range whose ends `from_u64` did not make loses the route of its neighbour: assigning `[x, x]`
cuts the range of `from_u64(5)`, and the range found for it is `[x, x]`. -/
theorem assignRanges_drops_neighbour :
    let t : RoutingTable := ⟨SortedMap.empty.insert (makeRange 0 10) ⟨[1], by decide⟩⟩
    let x : CanisterId := ⟨Bytes.toBeBytes 8 5 ++ [0, 0], by decide⟩
    t.wellFormed = .ok (.ok ()) ∧ (∀ k ∈ t.map.keys, k.U64DerivedEnds) ∧
      CanisterIdRanges.wellFormed ⟨[⟨x, x⟩]⟩ = .ok () ∧ U64Derived (canisterIdFromU64 5) ∧
      ¬(x ≤ canisterIdFromU64 5 ∧ canisterIdFromU64 5 ≤ x) ∧
      lookupInRanges t.map (canisterIdFromU64 5) = .ok (some ⟨[1], by decide⟩) ∧
      ∃ t', t.assignRanges ⟨[⟨x, x⟩]⟩ ⟨[3], by decide⟩ = .ok (t', .ok ()) ∧
        lookupInRanges t'.map (canisterIdFromU64 5) = .ok none := by
  intro t x
  have hkeys : t.map.keys = [makeRange 0 10] := by decide
  have hrun : (t.assignRanges ⟨[⟨x, x⟩]⟩ ⟨[3], by decide⟩ >>= fun r =>
      (lookupInRanges r.1.map (canisterIdFromU64 5)).map fun o => (r.2, o)) =
      .ok (.ok (), none) := by
    decide
  obtain ⟨⟨t', res⟩, hassign, hlook⟩ := Except.bind_eq_ok.mp hrun
  obtain ⟨o, hlook, ho⟩ := Except.map_eq_ok.mp hlook
  obtain ⟨rfl, rfl⟩ := Prod.mk.inj ho
  refine ⟨by decide, ?_, by decide, u64Derived_canisterIdFromU64 (by decide), by decide,
    by decide, t', hassign, hlook⟩
  rw [hkeys]
  simp only [List.mem_singleton]
  rintro k rfl
  exact makeRange_u64DerivedEnds (by decide) (by decide)

end IC.Routing
