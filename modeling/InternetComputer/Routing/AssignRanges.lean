import InternetComputer.Routing.WellFormed

/-!
# `assign_ranges` keeps the routing table well formed

`assign_range` walks the ranges that overlap the new range and cuts what each leaves outside it
into pieces made by `from_u64`. The cut is arithmetic on the numbers `canister_id_into_u64` reads,
so the invariant of the walk (`Apart`) is that the ranges are apart in number.

* **`assignRangeLoop_spec`**, **`assignRange_spec`**: what the loop cuts and keeps;
* **`wellFormed_assignRanges`**: an `assign_ranges` that returns `Ok` on a well-formed table of
  ranges made by `from_u64` leaves it well formed.
-/

namespace IC.Routing

open IC.State CanisterIdRange RoutingTable

@[simp]
theorem makeRange_start (a b : ℕ) : (makeRange a b).start = canisterIdFromU64 a := rfl

@[simp]
theorem makeRange_end (a b : ℕ) : (makeRange a b).«end» = canisterIdFromU64 b := rfl

theorem makeRange_u64DerivedEnds {a b : ℕ} (ha : a ≤ u64Max) (hb : b ≤ u64Max) :
    (makeRange a b).U64DerivedEnds :=
  ⟨u64Derived_canisterIdFromU64 ha, u64Derived_canisterIdFromU64 hb⟩

theorem rangeInclusive_eq_ok {ν : Type} {m : SortedMap CanisterIdRange ν}
    {lo hi : CanisterIdRange} {vs : List (CanisterIdRange × ν)} :
    rangeInclusive m lo hi = .ok vs ↔
      lo ≤ hi ∧ vs = m.entries.filter fun e => decide (lo ≤ e.1 ∧ e.1 ≤ hi) := by
  unfold rangeInclusive
  split_ifs with h
  · simp [not_le.mpr h]
  · simp [not_lt.mp h, eq_comm]

/-! ## The loop of `assign_range` -/

section Loop

variable {rStart rEnd : ℕ}

/-- A piece the loop cuts from the range `k`. -/
structure IsPiece (rStart rEnd : ℕ) (k p : CanisterIdRange) : Prop where
  derived : p.U64DerivedEnds
  nonEmpty : u64Of p.start ≤ u64Of p.«end»
  apart : u64Of p.«end» < rStart ∨ rEnd < u64Of p.start
  within : u64Of k.start ≤ u64Of p.start ∧ u64Of p.«end» ≤ u64Of k.«end»

theorem isPiece_makeRange {k : CanisterIdRange} {a b : ℕ} (hab : a ≤ b) (hb : b ≤ u64Max)
    (hk : u64Of k.start ≤ a ∧ b ≤ u64Of k.«end») (happ : b < rStart ∨ rEnd < a) :
    IsPiece rStart rEnd k (makeRange a b) := by
  have ha : a ≤ u64Max := le_trans hab hb
  refine ⟨makeRange_u64DerivedEnds ha hb, ?_, ?_, ?_⟩ <;>
    simp only [makeRange_start, makeRange_end, u64Of_canisterIdFromU64 ha,
      u64Of_canisterIdFromU64 hb] <;> assumption

theorem IsPiece.rangeNonEmpty {k p : CanisterIdRange} (h : IsPiece rStart rEnd k p) :
    p.NonEmpty :=
  not_lt.mp fun hlt =>
    absurd h.nonEmpty (not_le.mpr ((lt_iff_of_u64Derived h.derived.2 h.derived.1).mp hlt))

/-- What the loop returns over `vs`: ranges to remove among them, those kept apart from
`rStart..rEnd`, and pieces cut from the removed ones, in increasing order. -/
structure AssignRangeLoopSpec (rStart rEnd : ℕ) (vs : List (CanisterIdRange × SubnetId))
    (toRemove : List CanisterIdRange) (toAdd : List (CanisterIdRange × SubnetId)) : Prop where
  removed : ∀ k ∈ toRemove, k ∈ vs.map Prod.fst
  kept : ∀ e ∈ vs, e.1 ∉ toRemove → u64Of e.1.«end» < rStart ∨ rEnd < u64Of e.1.start
  piece : ∀ p ∈ toAdd, ∃ k ∈ toRemove, IsPiece rStart rEnd k p.1
  ordered : toAdd.Pairwise fun p q => u64Of p.1.«end» < u64Of q.1.start

theorem assignRangeLoop_cons_eq_ok {k : CanisterIdRange} {v : SubnetId}
    {rest : List (CanisterIdRange × SubnetId)} {toRemove : List CanisterIdRange}
    {toAdd : List (CanisterIdRange × SubnetId)} (hk : k.TenByteEnds)
    (h : assignRangeLoop rStart rEnd ((k, v) :: rest) = .ok (toRemove, toAdd)) :
    (u64Of k.start < rStart ∧ rStart ≤ u64Of k.«end» ∧ u64Of k.«end» ≤ rEnd ∧
      ∃ rem add, assignRangeLoop rStart rEnd rest = .ok (rem, add) ∧ toRemove = k :: rem ∧
        toAdd = (makeRange (u64Of k.start) (rStart - 1), v) :: add) ∨
    (rStart ≤ u64Of k.start ∧ u64Of k.«end» ≤ rEnd ∧
      ∃ rem, assignRangeLoop rStart rEnd rest = .ok (rem, toAdd) ∧ toRemove = k :: rem) ∨
    (u64Of k.start < rStart ∧ rEnd < u64Of k.«end» ∧ toRemove = [k] ∧
      toAdd = [(makeRange (u64Of k.start) (rStart - 1), v),
        (makeRange (rEnd + 1) (u64Of k.«end»), v)]) ∨
    (rStart ≤ u64Of k.start ∧ u64Of k.start ≤ rEnd ∧ rEnd < u64Of k.«end» ∧ toRemove = [k] ∧
      toAdd = [(makeRange (rEnd + 1) (u64Of k.«end»), v)]) ∨
    ((u64Of k.«end» < rStart ∨ rEnd < u64Of k.start) ∧
      assignRangeLoop rStart rEnd rest = .ok (toRemove, toAdd)) := by
  rw [assignRangeLoop, canisterIdIntoU64_of_tenBytes hk.1, Except.ok_bind,
    canisterIdIntoU64_of_tenBytes hk.2, Except.ok_bind] at h
  split_ifs at h with h₁ h₂ h₃ h₄
  · obtain ⟨⟨rem, add⟩, hrec, h⟩ := Except.bind_eq_ok.mp h
    obtain ⟨rfl, rfl⟩ := Prod.mk.inj (Except.pure_eq_ok.mp h)
    exact Or.inl ⟨h₁.1, h₁.2.1, h₁.2.2, rem, add, hrec, rfl, rfl⟩
  · obtain ⟨⟨rem, add⟩, hrec, h⟩ := Except.bind_eq_ok.mp h
    obtain ⟨rfl, rfl⟩ := Prod.mk.inj (Except.pure_eq_ok.mp h)
    exact Or.inr (Or.inl ⟨h₂.1, h₂.2, rem, hrec, rfl⟩)
  · obtain ⟨rfl, rfl⟩ := Prod.mk.inj (Except.pure_eq_ok.mp h)
    exact Or.inr (Or.inr (Or.inl ⟨h₃.1, h₃.2, rfl, rfl⟩))
  · obtain ⟨rfl, rfl⟩ := Prod.mk.inj (Except.pure_eq_ok.mp h)
    exact Or.inr (Or.inr (Or.inr (Or.inl ⟨h₄.1, h₄.2.1, h₄.2.2, rfl, rfl⟩)))
  · obtain ⟨u, hu, h⟩ := Except.bind_eq_ok.mp h
    exact Or.inr (Or.inr (Or.inr (Or.inr ⟨by simpa using Rust.assert_eq_ok.mp hu, h⟩)))

theorem assignRangeLoopSpec_nil : AssignRangeLoopSpec rStart rEnd [] [] [] :=
  ⟨by simp, by simp, by simp, List.Pairwise.nil⟩

theorem AssignRangeLoopSpec.skip {k : CanisterIdRange} {v : SubnetId}
    {rest : List (CanisterIdRange × SubnetId)} {rem : List CanisterIdRange}
    {add : List (CanisterIdRange × SubnetId)} (s : AssignRangeLoopSpec rStart rEnd rest rem add)
    (hk : u64Of k.«end» < rStart ∨ rEnd < u64Of k.start) :
    AssignRangeLoopSpec rStart rEnd ((k, v) :: rest) rem add where
  removed k' hk' := List.mem_cons_of_mem _ (s.removed k' hk')
  kept e he hrem := by
    rcases List.mem_cons.mp he with rfl | he
    · exact hk
    · exact s.kept e he hrem
  piece := s.piece
  ordered := s.ordered

theorem AssignRangeLoopSpec.cons {k : CanisterIdRange} {v : SubnetId}
    {rest : List (CanisterIdRange × SubnetId)} {rem : List CanisterIdRange}
    {add : List (CanisterIdRange × SubnetId)} (s : AssignRangeLoopSpec rStart rEnd rest rem add)
    (ps : List (CanisterIdRange × SubnetId)) (hps : ∀ p ∈ ps, IsPiece rStart rEnd k p.1)
    (hpo : ps.Pairwise fun p q => u64Of p.1.«end» < u64Of q.1.start)
    (hsep : ∀ e ∈ rest, u64Of k.«end» < u64Of e.1.start) :
    AssignRangeLoopSpec rStart rEnd ((k, v) :: rest) (k :: rem) (ps ++ add) where
  removed k' hk' := by
    rcases List.mem_cons.mp hk' with rfl | hk'
    · exact List.mem_cons_self
    · exact List.mem_cons_of_mem _ (s.removed k' hk')
  kept e he hrem := by
    rcases List.mem_cons.mp he with rfl | he
    · exact absurd List.mem_cons_self hrem
    · exact s.kept e he fun h => hrem (List.mem_cons_of_mem _ h)
  piece p hp := by
    rcases List.mem_append.mp hp with hp | hp
    · exact ⟨k, List.mem_cons_self, hps p hp⟩
    · obtain ⟨k', hk', hpiece⟩ := s.piece p hp
      exact ⟨k', List.mem_cons_of_mem _ hk', hpiece⟩
  ordered := by
    refine List.pairwise_append.mpr ⟨hpo, s.ordered, fun p hp q hq => ?_⟩
    -- a piece of `k` ends before the ranges after `k` start, and so before their pieces
    obtain ⟨k', hk', hpiece⟩ := s.piece q hq
    obtain ⟨e, he, rfl⟩ := List.mem_map.mp (s.removed k' hk')
    have h₁ := hsep e he
    have h₂ := (hps p hp).within.2
    have h₃ := hpiece.within.1
    omega

theorem AssignRangeLoopSpec.stop {k : CanisterIdRange} {v : SubnetId}
    {rest : List (CanisterIdRange × SubnetId)} (ps : List (CanisterIdRange × SubnetId))
    (hps : ∀ p ∈ ps, IsPiece rStart rEnd k p.1)
    (hpo : ps.Pairwise fun p q => u64Of p.1.«end» < u64Of q.1.start)
    (hrest : ∀ e ∈ rest, rEnd < u64Of e.1.start) :
    AssignRangeLoopSpec rStart rEnd ((k, v) :: rest) [k] ps where
  removed k' hk' := by
    obtain rfl := List.mem_singleton.mp hk'
    exact List.mem_cons_self
  kept e he hrem := by
    rcases List.mem_cons.mp he with rfl | he
    · exact absurd (List.mem_singleton_self _) hrem
    · exact Or.inr (hrest e he)
  piece p hp := ⟨k, List.mem_singleton_self k, hps p hp⟩
  ordered := hpo

/-- **The loop of `assign_range`**, over ten-byte non-empty ranges in increasing order. -/
theorem assignRangeLoop_spec (hr : rStart ≤ rEnd) : ∀ {vs : List (CanisterIdRange × SubnetId)}
    {toRemove : List CanisterIdRange} {toAdd : List (CanisterIdRange × SubnetId)},
    (∀ e ∈ vs, e.1.TenByteEnds) → (∀ e ∈ vs, u64Of e.1.start ≤ u64Of e.1.«end») →
    (vs.Pairwise fun a b => u64Of a.1.«end» < u64Of b.1.start) →
    assignRangeLoop rStart rEnd vs = .ok (toRemove, toAdd) →
    AssignRangeLoopSpec rStart rEnd vs toRemove toAdd
  | [], _, _, _, _, _, h => by
    rw [assignRangeLoop] at h
    obtain ⟨rfl, rfl⟩ := Prod.mk.inj (Except.pure_eq_ok.mp h)
    exact assignRangeLoopSpec_nil
  | (k, v) :: rest, _, _, hten, hne, hsep, h => by
    have hk : k.TenByteEnds := hten (k, v) List.mem_cons_self
    have hkne : u64Of k.start ≤ u64Of k.«end» := hne (k, v) List.mem_cons_self
    have htenRest := fun e he => hten e (List.mem_cons_of_mem (k, v) he)
    have hneRest := fun e he => hne e (List.mem_cons_of_mem (k, v) he)
    have hsepRest : ∀ e ∈ rest, u64Of k.«end» < u64Of e.1.start := (List.pairwise_cons.mp hsep).1
    have hkmax := u64Of_le_u64Max k.«end»
    rcases assignRangeLoop_cons_eq_ok hk h with
      ⟨h₁, h₂, h₃, rem, add, hrec, rfl, rfl⟩ | ⟨h₁, h₂, rem, hrec, rfl⟩ |
      ⟨h₁, h₂, rfl, rfl⟩ | ⟨h₁, h₂, h₃, rfl, rfl⟩ | ⟨h₁, hrec⟩
    · -- `k` sticks out on the left: its left part stays
      refine (assignRangeLoop_spec hr htenRest hneRest hsep.of_cons hrec).cons
        [(makeRange (u64Of k.start) (rStart - 1), v)] (fun p hp => ?_)
        (List.pairwise_singleton _ _) hsepRest
      obtain rfl := List.mem_singleton.mp hp
      exact isPiece_makeRange (by omega) (by omega) ⟨le_rfl, by omega⟩ (Or.inl (by omega))
    · -- `k` lies within the new range
      exact (assignRangeLoop_spec hr htenRest hneRest hsep.of_cons hrec).cons [] (by simp)
        List.Pairwise.nil hsepRest
    · -- `k` sticks out on both sides: both parts stay, and nothing after `k` overlaps
      refine AssignRangeLoopSpec.stop _ (fun p hp => ?_) (List.pairwise_pair.mpr ?_)
        (fun e he => lt_trans h₂ (hsepRest e he))
      · simp only [List.mem_cons, List.not_mem_nil, or_false] at hp
        rcases hp with rfl | rfl
        · exact isPiece_makeRange (by omega) (by omega) ⟨le_rfl, by omega⟩ (Or.inl (by omega))
        · exact isPiece_makeRange (by omega) hkmax ⟨by omega, le_rfl⟩ (Or.inr (by omega))
      · simp only [makeRange_start, makeRange_end]
        rw [u64Of_canisterIdFromU64 (by omega), u64Of_canisterIdFromU64 (by omega)]
        omega
    · -- `k` sticks out on the right: its right part stays, and nothing after `k` overlaps
      refine AssignRangeLoopSpec.stop _ (fun p hp => ?_) (List.pairwise_singleton _ _)
        (fun e he => lt_trans h₃ (hsepRest e he))
      obtain rfl := List.mem_singleton.mp hp
      exact isPiece_makeRange (by omega) hkmax ⟨by omega, le_rfl⟩ (Or.inr (by omega))
    · -- `k` lies apart from the new range
      exact (assignRangeLoop_spec hr htenRest hneRest hsep.of_cons hrec).skip h₁

end Loop

/-! ## One range assigned -/

theorem CanisterIdRange.start_le_of_le {a b : CanisterIdRange} (h : a ≤ b) : a.start ≤ b.start := by
  rcases h.lt_or_eq with h | rfl
  · rcases CanisterIdRange.lt_iff.mp h with h | ⟨h, -⟩
    · exact h.le
    · exact h.le
  · exact le_rfl

/-- What `assign_ranges` keeps of the table's ranges. -/
structure Apart (ks : List CanisterIdRange) : Prop where
  tenByteEnds : ∀ k ∈ ks, k.TenByteEnds
  nonEmpty : ∀ k ∈ ks, k.NonEmpty
  u64Separated : ∀ a ∈ ks, ∀ b ∈ ks, a ≠ b → a.U64Separated b

theorem Apart.validRanges {ks : List CanisterIdRange} (h : Apart ks) : ValidRanges ks :=
  ⟨h.nonEmpty, fun a ha b hb hab =>
    (h.u64Separated a ha b hb hab).separated (h.tenByteEnds a ha) (h.tenByteEnds b hb)⟩

theorem Apart.pairwise_u64 {ν : Type} {m : SortedMap CanisterIdRange ν} (h : Apart m.keys) :
    m.entries.Pairwise fun a b => u64Of a.1.«end» < u64Of b.1.start :=
  m.sorted.imp_of_mem fun ha hb hab =>
    (h.u64Separated _ (List.mem_map_of_mem ha) _ (List.mem_map_of_mem hb) (ne_of_lt hab)).end_lt_start
      hab (h.tenByteEnds _ (List.mem_map_of_mem ha)) (h.tenByteEnds _ (List.mem_map_of_mem hb))
      (h.nonEmpty _ (List.mem_map_of_mem hb))

theorem apart_of_u64Derived {ks : List CanisterIdRange} (hv : ValidRanges ks)
    (hd : ∀ k ∈ ks, k.U64DerivedEnds) : Apart ks :=
  ⟨fun k hk => (hd k hk).tenByteEnds, hv.1, fun a ha b hb hab =>
    (hv.2 a ha b hb hab).u64Separated (hd a ha) (hd b hb)⟩

theorem CanisterIdRange.U64Separated.of_within {x k p : CanisterIdRange} (h : x.U64Separated k)
    (hw : u64Of k.start ≤ u64Of p.start ∧ u64Of p.«end» ≤ u64Of k.«end») : x.U64Separated p := by
  unfold U64Separated at h ⊢
  omega

theorem assignRange_eq_ok {t t' : RoutingTable} {range : CanisterIdRange} {destination : SubnetId}
    (h : t.assignRange range destination = .ok t') :
    ∃ leftBound visited toRemove toAdd, range.TenByteEnds ∧
      (leftBound ≤ range ∧ (leftBound ∈ t.map.keys ∨ ∀ k ∈ t.map.keys, range < k) ∧
        ∀ k ∈ t.map.keys, k ≤ range → k ≤ leftBound) ∧
      rangeInclusive t.map leftBound (makeRange (u64Of range.«end») u64Max) = .ok visited ∧
      assignRangeLoop (u64Of range.start) (u64Of range.«end») visited = .ok (toRemove, toAdd) ∧
      t' = ⟨(toAdd.foldl (fun m e => m.insert e.1 e.2)
        (toRemove.foldl SortedMap.erase t.map)).insert range destination⟩ := by
  unfold RoutingTable.assignRange at h
  obtain ⟨rStart, hrStart, h⟩ := Except.bind_eq_ok.mp h
  obtain ⟨rEnd, hrEnd, h⟩ := Except.bind_eq_ok.mp h
  obtain ⟨hs, rfl⟩ := canisterIdIntoU64_eq_ok.mp hrStart
  obtain ⟨he, rfl⟩ := canisterIdIntoU64_eq_ok.mp hrEnd
  obtain ⟨visited, hvis, h⟩ := Except.bind_eq_ok.mp h
  obtain ⟨⟨toRemove, toAdd⟩, hloop, h⟩ := Except.bind_eq_ok.mp h
  refine ⟨_, visited, toRemove, toAdd, ⟨hs, he⟩, ?_, hvis, hloop, (Except.pure_eq_ok.mp h).symm⟩
  have hsorted := t.map.sorted.filter fun e => decide (e.1 ≤ range)
  split
  · next k v hlast =>
    have hk : (k, v) ∈ t.map.entries.filter fun e => decide (e.1 ≤ range) :=
      List.mem_of_getLast? hlast
    have hkr : k ≤ range := by simpa using (List.mem_filter.mp hk).2
    refine ⟨hkr, Or.inl (List.mem_map_of_mem (List.mem_of_mem_filter hk)), fun k' hk' hk'r => ?_⟩
    -- the last range not above `range` is above every other
    obtain ⟨e, he, rfl⟩ := List.mem_map.mp hk'
    rcases hsorted.rel_getLast? hlast e (List.mem_filter.mpr ⟨he, by simpa using hk'r⟩) with
      rfl | hlt
    · exact le_rfl
    · exact hlt.le
  · next hnone =>
    have hnot : ∀ e ∈ t.map.entries, ¬e.1 ≤ range := fun e he => by
      simpa using List.filter_eq_nil_iff.mp (List.getLast?_eq_none_iff.mp hnone) e he
    refine ⟨le_rfl, Or.inr fun k hk => ?_, fun k hk hkr => ?_⟩
    · obtain ⟨e, he, rfl⟩ := List.mem_map.mp hk
      exact lt_of_not_ge (hnot e he)
    · obtain ⟨e, he, rfl⟩ := List.mem_map.mp hk
      exact absurd hkr (hnot e he)

/-- What the walk of `assign_range` visits, in increasing order. -/
structure AssignRangeWalk (t : RoutingTable) (range : CanisterIdRange)
    (visited : List (CanisterIdRange × SubnetId)) (toRemove : List CanisterIdRange)
    (toAdd : List (CanisterIdRange × SubnetId)) : Prop where
  mem_entries : ∀ e ∈ visited, e ∈ t.map.entries
  ordered : visited.Pairwise fun a b => u64Of a.1.«end» < u64Of b.1.start
  loop : assignRangeLoop (u64Of range.start) (u64Of range.«end») visited = .ok (toRemove, toAdd)
  spec : AssignRangeLoopSpec (u64Of range.start) (u64Of range.«end») visited toRemove toAdd
  kept : ∀ k ∈ t.map.keys, k ∉ toRemove → k.U64Separated range

theorem assignRange_walk {t t' : RoutingTable} {range : CanisterIdRange} {destination : SubnetId}
    (hinv : Apart t.map.keys) (hder : ∀ k ∈ t.map.keys, range ≤ k → k.U64DerivedEnds)
    (hne : range.NonEmpty) (h : t.assignRange range destination = .ok t') :
    range.TenByteEnds ∧ ∃ visited toRemove toAdd,
      AssignRangeWalk t range visited toRemove toAdd ∧
      t' = ⟨(toAdd.foldl (fun m e => m.insert e.1 e.2)
        (toRemove.foldl SortedMap.erase t.map)).insert range destination⟩ := by
  obtain ⟨leftBound, visited, toRemove, toAdd, hr, ⟨hlb, hlbmem, hlbmax⟩, hvis, hloop, rfl⟩ :=
    assignRange_eq_ok h
  obtain ⟨hlbrb, rfl⟩ := rangeInclusive_eq_ok.mp hvis
  have hordered : (t.map.entries.filter fun e =>
      decide (leftBound ≤ e.1 ∧ e.1 ≤ makeRange (u64Of range.«end») u64Max)).Pairwise
      fun a b => u64Of a.1.«end» < u64Of b.1.start :=
    hinv.pairwise_u64.sublist List.filter_sublist
  have s := assignRangeLoop_spec (hne.u64Of_le hr)
    (fun e he => hinv.tenByteEnds _ (List.mem_map_of_mem (List.mem_of_mem_filter he)))
    (fun e he => (hinv.nonEmpty _ (List.mem_map_of_mem (List.mem_of_mem_filter he))).u64Of_le
      (hinv.tenByteEnds _ (List.mem_map_of_mem (List.mem_of_mem_filter he))))
    hordered hloop
  refine ⟨hr, _, toRemove, toAdd, ⟨fun e he => List.mem_of_mem_filter he, hordered, hloop, s, ?_⟩,
    rfl⟩
  -- every old range that stays is apart from `range` in number
  intro k hk hkrem
  obtain ⟨e, he, rfl⟩ := List.mem_map.mp hk
  by_cases hvisited : leftBound ≤ e.1 ∧ e.1 ≤ makeRange (u64Of range.«end») u64Max
  · exact s.kept e (List.mem_filter.mpr ⟨he, by simpa using hvisited⟩) hkrem
  rcases not_and_or.mp hvisited with hleft | hright
  · -- below the walk: apart from the range it starts from, which is not above `range`
    have hlt : e.1 < leftBound := lt_of_not_ge hleft
    rcases hlbmem with hlbk | hall
    · have h₁ := (hinv.u64Separated e.1 hk leftBound hlbk (ne_of_lt hlt)).end_lt_start hlt
        (hinv.tenByteEnds _ hk) (hinv.tenByteEnds _ hlbk) (hinv.nonEmpty _ hlbk)
      have h₂ := u64Of_le_u64Of (hinv.tenByteEnds _ hlbk).1 hr.1 (start_le_of_le hlb)
      exact Or.inl (by omega)
    · exact absurd (lt_trans (hall _ hk) (lt_of_lt_of_le hlt hlb)) (lt_irrefl _)
  · -- above the walk: above `range`, so made by `from_u64`, and starting above its end
    have hgt : makeRange (u64Of range.«end») u64Max < e.1 := lt_of_not_ge hright
    have hrk : range < e.1 :=
      lt_of_not_ge fun hkr => hright (le_trans (hlbmax _ hk hkr) hlbrb)
    have hd := hder _ hk hrk.le
    have hrE := u64Of_le_u64Max range.«end»
    rcases CanisterIdRange.lt_iff.mp hgt with h₁ | ⟨-, h₁⟩
    · rw [makeRange_start, lt_iff_of_u64Derived (u64Derived_canisterIdFromU64 hrE) hd.1,
        u64Of_canisterIdFromU64 hrE] at h₁
      exact Or.inr h₁
    · rw [makeRange_end, lt_iff_of_u64Derived (u64Derived_canisterIdFromU64 le_rfl) hd.2,
        u64Of_canisterIdFromU64 le_rfl] at h₁
      exact absurd (u64Of_le_u64Max _) (not_le.mpr h₁)

/-- **One range assigned** keeps the ranges apart and made by `from_u64` above it. -/
theorem assignRange_spec {t t' : RoutingTable} {range : CanisterIdRange} {destination : SubnetId}
    (hinv : Apart t.map.keys) (hder : ∀ k ∈ t.map.keys, range ≤ k → k.U64DerivedEnds)
    (hne : range.NonEmpty) (h : t.assignRange range destination = .ok t') :
    Apart t'.map.keys ∧ ∀ k ∈ t'.map.keys, range < k → k.U64DerivedEnds := by
  obtain ⟨hr, visited, toRemove, toAdd, hw, rfl⟩ := assignRange_walk hinv hder hne h
  have hremoved : ∀ k ∈ toRemove, k ∈ t.map.keys := fun k hk => by
    obtain ⟨e, he, rfl⟩ := List.mem_map.mp (hw.spec.removed k hk)
    exact List.mem_map_of_mem (hw.mem_entries e he)
  have hpiece : ∀ k ∈ toAdd.map Prod.fst,
      ∃ k₀ ∈ toRemove, IsPiece (u64Of range.start) (u64Of range.«end») k₀ k := fun k hk => by
    obtain ⟨p, hp, rfl⟩ := List.mem_map.mp hk
    exact hw.spec.piece p hp
  -- the ranges of the new table: `range`, the old ones that stay, and the pieces
  have hmem : ∀ k, k ∈ ((toAdd.foldl (fun m e => m.insert e.1 e.2)
      (toRemove.foldl SortedMap.erase t.map)).insert range destination).keys ↔
      k = range ∨ (k ∈ t.map.keys ∧ k ∉ toRemove) ∨ k ∈ toAdd.map Prod.fst := fun k => by
    rw [SortedMap.mem_keys_insert, SortedMap.mem_keys_foldl_insert,
      SortedMap.mem_keys_foldl_erase]
  have hsepRange : ∀ k, (k ∈ t.map.keys ∧ k ∉ toRemove) ∨ k ∈ toAdd.map Prod.fst →
      k.U64Separated range := by
    rintro k (⟨hk, hkrem⟩ | hk)
    · exact hw.kept k hk hkrem
    · obtain ⟨k₀, -, hp⟩ := hpiece k hk
      exact hp.apart
  have hsepOther : ∀ a b, (a ∈ t.map.keys ∧ a ∉ toRemove) ∨ a ∈ toAdd.map Prod.fst →
      (b ∈ t.map.keys ∧ b ∉ toRemove) ∨ b ∈ toAdd.map Prod.fst → a ≠ b → a.U64Separated b := by
    rintro a b (⟨ha, harem⟩ | ha) (⟨hb, hbrem⟩ | hb) hab
    · exact hinv.u64Separated a ha b hb hab
    · -- a piece lies within the range it was cut from, which `a` is apart from
      obtain ⟨k₀, hk₀, hp⟩ := hpiece b hb
      exact (hinv.u64Separated a ha k₀ (hremoved k₀ hk₀) fun h => harem (h ▸ hk₀)).of_within
        hp.within
    · obtain ⟨k₀, hk₀, hp⟩ := hpiece a ha
      exact ((hinv.u64Separated b hb k₀ (hremoved k₀ hk₀) fun h => hbrem (h ▸ hk₀)).of_within
        hp.within).symm
    · obtain ⟨p, hp, rfl⟩ := List.mem_map.mp ha
      obtain ⟨q, hq, rfl⟩ := List.mem_map.mp hb
      exact hw.spec.ordered.rel_or_rel hp hq fun h => hab (congrArg Prod.fst h)
  refine ⟨⟨fun k hk => ?_, fun k hk => ?_, fun a ha b hb hab => ?_⟩, fun k hk hrk => ?_⟩
  · rcases (hmem k).mp hk with rfl | ⟨hk, -⟩ | hk
    · exact hr
    · exact hinv.tenByteEnds k hk
    · obtain ⟨k₀, -, hp⟩ := hpiece k hk
      exact hp.derived.tenByteEnds
  · rcases (hmem k).mp hk with rfl | ⟨hk, -⟩ | hk
    · exact hne
    · exact hinv.nonEmpty k hk
    · obtain ⟨k₀, -, hp⟩ := hpiece k hk
      exact hp.rangeNonEmpty
  · rcases (hmem a).mp ha with rfl | ha' <;> rcases (hmem b).mp hb with rfl | hb'
    · exact absurd rfl hab
    · exact (hsepRange b hb').symm
    · exact hsepRange a ha'
    · exact hsepOther a b ha' hb' hab
  · rcases (hmem k).mp hk with rfl | ⟨hk, -⟩ | hk
    · exact absurd hrk (lt_irrefl _)
    · exact hder k hk hrk.le
    · obtain ⟨k₀, -, hp⟩ := hpiece k hk
      exact hp.derived

/-! ## `assign_ranges` -/

theorem sortedLoop_eq_ok_iff : ∀ (previousEnd : CanisterId) (rs : List CanisterIdRange),
    CanisterIdRanges.sortedLoop previousEnd rs = .ok () ↔
      (∀ r ∈ rs.head?, previousEnd < r.start) ∧ rs.IsChain fun a b => a.«end» < b.start
  | _, [] => by simp [CanisterIdRanges.sortedLoop]
  | previousEnd, r :: rs => by
    have ih := sortedLoop_eq_ok_iff r.«end» rs
    by_cases h : r.start ≤ previousEnd
    · simp [CanisterIdRanges.sortedLoop, h]
    · simp [CanisterIdRanges.sortedLoop, h, ih, List.isChain_cons, not_le.mp h]

/-- The check of the order of the ranges, after the check of each. -/
theorem CanisterIdRanges.orderCheck_eq_ok_iff (ranges : List CanisterIdRange) :
    (match ranges with
      | [] => Except.ok ()
      | r :: rest => CanisterIdRanges.sortedLoop r.«end» rest) = (.ok () : Except WellFormedError Unit) ↔
      ranges.IsChain fun a b => a.«end» < b.start := by
  cases ranges with
  | nil => simp
  | cons r rest => rw [sortedLoop_eq_ok_iff, List.isChain_cons]

theorem CanisterIdRanges.wellFormed_eq_ok_iff (rs : CanisterIdRanges) :
    rs.wellFormed = .ok () ↔
      (∀ r ∈ rs.ranges, r.NonEmpty) ∧ rs.ranges.IsChain fun a b => a.«end» < b.start := by
  have hcheck : ∀ r : CanisterIdRange, (if r.«end» < r.start then
      Except.error (WellFormedError.canisterIdRangeEmptyRange (emptyRangeMessage r))
      else Except.ok ()) = .ok () ↔ r.NonEmpty := fun r => by
    unfold NonEmpty
    split_ifs with h <;> simp [h, not_lt.mp]
  -- the check of each range, then the check of their order
  unfold CanisterIdRanges.wellFormed
  rw [← CanisterIdRanges.orderCheck_eq_ok_iff, Except.bind_eq_ok]
  constructor
  · rintro ⟨⟨⟩, hchecks, h⟩
    exact ⟨fun r hr => (hcheck r).mp (Except.forM_eq_ok.mp hchecks r hr), h⟩
  · rintro ⟨hne, h⟩
    exact ⟨(), Except.forM_eq_ok.mpr fun r hr => (hcheck r).mpr (hne r hr), h⟩

theorem foldlM_assignRange_spec (destination : SubnetId) : ∀ (rs : List CanisterIdRange)
    {t t' : RoutingTable}, Apart t.map.keys → (∀ r ∈ rs, r.NonEmpty) →
    (rs.IsChain fun a b => a.«end» < b.start) →
    (∀ r ∈ rs.head?, ∀ k ∈ t.map.keys, r ≤ k → k.U64DerivedEnds) →
    rs.foldlM (fun t range => t.assignRange range destination) t = .ok t' → Apart t'.map.keys
  | [], _, _, hinv, _, _, _, h => by
    rw [List.foldlM_nil] at h
    exact Except.pure_eq_ok.mp h ▸ hinv
  | r :: rs, t, t', hinv, hne, hchain, hder, h => by
    rw [List.foldlM_cons] at h
    obtain ⟨t₁, hstep, hrest⟩ := Except.bind_eq_ok.mp h
    have hr := hne r List.mem_cons_self
    obtain ⟨hinv₁, hder₁⟩ := assignRange_spec hinv (hder r rfl) hr hstep
    rw [List.isChain_cons] at hchain
    refine foldlM_assignRange_spec destination rs hinv₁
      (fun r' hr' => hne r' (List.mem_cons_of_mem r hr')) hchain.2
      (fun r' hr' k hk hle => hder₁ k hk ?_) hrest
    -- the next range starts after `r` ends, so it is above `r`
    exact lt_of_lt_of_le (lt_iff.mpr (Or.inl (lt_of_le_of_lt hr (hchain.1 r' hr')))) hle

/-- **`assign_ranges` that returns `Ok` keeps the table well formed.** -/
theorem wellFormed_assignRanges {t t' : RoutingTable} {ranges : CanisterIdRanges}
    {destination : SubnetId} (hwf : t.WellFormed) (hd : ∀ k ∈ t.map.keys, k.U64DerivedEnds)
    (h : t.assignRanges ranges destination = .ok (t', .ok ())) : t'.WellFormed := by
  unfold RoutingTable.assignRanges at h
  split at h
  · simp at h
  · next hranges =>
    obtain ⟨t₁, hfold, h⟩ := Except.bind_eq_ok.mp h
    obtain ⟨t₂, hopt, h⟩ := Except.bind_eq_ok.mp h
    obtain rfl : t₂ = t' := (Prod.mk.inj (Except.pure_eq_ok.mp h)).1
    obtain ⟨hne, hchain⟩ := (CanisterIdRanges.wellFormed_eq_ok_iff ranges).mp hranges
    have hinv := foldlM_assignRange_spec destination ranges.ranges
      (apart_of_u64Derived hwf.1 hd) hne hchain (fun _ _ k hk _ => hd k hk) hfold
    exact wellFormed_optimize hinv.validRanges hopt

theorem assignRanges_eq_error {t t' : RoutingTable} {ranges : CanisterIdRanges}
    {destination : SubnetId} {e : WellFormedError}
    (h : t.assignRanges ranges destination = .ok (t', .error e)) : t' = t := by
  unfold RoutingTable.assignRanges at h
  split at h
  · exact ((Prod.mk.inj (Except.pure_eq_ok.mp h)).1).symm
  · obtain ⟨t₁, -, h⟩ := Except.bind_eq_ok.mp h
    obtain ⟨t₂, -, h⟩ := Except.bind_eq_ok.mp h
    simp at h

/-! ## The invariant -/

/-- **Well-formedness is an invariant of the routing table**, through `try_from`, `insert`,
`assign_ranges`, `remove_subnet` and `optimize`; a refused `insert` or `assign_ranges` leaves it. -/
theorem routingTable_wellFormed_invariant :
    (∀ (map : SortedMap CanisterIdRange SubnetId) (t : RoutingTable),
      RoutingTable.tryFrom map = .ok (.ok t) → t.wellFormed = .ok (.ok ())) ∧
    (∀ t : RoutingTable, t.wellFormed = .ok (.ok ()) → (∀ k ∈ t.map.keys, k.U64DerivedEnds) →
      (∀ range subnetId t', t.insert range subnetId = .ok (t', .ok ()) →
        t'.wellFormed = .ok (.ok ())) ∧
      (∀ ranges destination t', t.assignRanges ranges destination = .ok (t', .ok ()) →
        t'.wellFormed = .ok (.ok ())) ∧
      (∀ subnetId, (t.removeSubnet subnetId).wellFormed = .ok (.ok ())) ∧
      ∃ t', t.optimize = .ok t' ∧ t'.wellFormed = .ok (.ok ())) ∧
    (∀ (t : RoutingTable) range subnetId t' e,
      t.insert range subnetId = .ok (t', .error e) → t' = t) ∧
    (∀ (t : RoutingTable) ranges destination t' e,
      t.assignRanges ranges destination = .ok (t', .error e) → t' = t) := by
  simp only [wellFormed_eq_ok_iff]
  refine ⟨fun _ _ h => wellFormed_tryFrom h, fun t hwf hd => ⟨fun _ _ _ h => wellFormed_insert hwf.1 h,
    fun _ _ _ h => wellFormed_assignRanges hwf hd h, wellFormed_removeSubnet hwf hd,
    t, optimize_of_wellFormed hwf, hwf⟩, fun _ _ _ _ _ h => insert_eq_error h,
    fun _ _ _ _ _ h => assignRanges_eq_error h⟩

/-- Two ranges of two subnets stay well formed through an assignment and a removal. -/
theorem wellFormed_invariant_two_subnets :
    let t : RoutingTable := ⟨(SortedMap.empty.insert (makeRange 0 9) ⟨[1], by decide⟩).insert
      (makeRange 10 19) ⟨[2], by decide⟩⟩
    t.wellFormed = .ok (.ok ()) ∧ (∀ k ∈ t.map.keys, k.U64DerivedEnds) ∧
      ((t.assignRanges ⟨[makeRange 5 12]⟩ ⟨[3], by decide⟩).map fun r => (r.2, r.1.wellFormed)) =
        .ok (.ok (), .ok (.ok ())) ∧
      (t.removeSubnet ⟨[1], by decide⟩).wellFormed = .ok (.ok ()) := by
  intro t
  have hwf : t.wellFormed = .ok (.ok ()) := by decide
  have hkeys : t.map.keys = [makeRange 0 9, makeRange 10 19] := by decide
  have hd : ∀ k ∈ t.map.keys, k.U64DerivedEnds := by
    rw [hkeys]
    simp only [List.mem_cons, List.not_mem_nil, or_false]
    rintro k (rfl | rfl) <;> exact makeRange_u64DerivedEnds (by decide) (by decide)
  have hinv := routingTable_wellFormed_invariant.2.1 t hwf hd
  have hassign : ((t.assignRanges ⟨[makeRange 5 12]⟩ ⟨[3], by decide⟩).map Prod.snd) =
      .ok (.ok ()) := by decide
  refine ⟨hwf, hd, ?_, hinv.2.2.1 _⟩
  cases h : t.assignRanges ⟨[makeRange 5 12]⟩ ⟨[3], by decide⟩ with
  | error e =>
    rw [h] at hassign
    exact absurd hassign (by simp [Except.map])
  | ok r =>
    obtain ⟨t', res⟩ := r
    rw [h] at hassign
    obtain rfl : res = .ok () := by simpa [Except.map] using hassign
    simp [Except.map, hinv.2.1 _ _ _ h]

end IC.Routing
