import InternetComputer.Routing.Insert

/-!
# `CanisterMigrations`

`CanisterMigrations` maps ranges of canister ids to migration traces. It is well formed when its
ranges are non-empty and disjoint and each trace lists at least two subnets, no two successive
ones the same. `insert_ranges` and `remove_ranges` check first and change after; a refused change
returns the map as it was.

* **`canisterMigrations_change_atomically`**: the two changes keep the map well formed, refuse
  exactly what they check, and `lookup` finds the new trace in the ranges inserted.
-/

namespace IC.Routing

open IC.State CanisterIdRange RoutingTable

/-- `CanisterMigrations`: the migration trace of each range. -/
structure CanisterMigrations where
  map : SortedMap CanisterIdRange (List SubnetId)

namespace CanisterMigrations

/-- `CanisterMigrations::new`. -/
def new : CanisterMigrations := ⟨SortedMap.empty⟩

/-- The `Debug` text of a trace. -/
def debugTrace (trace : List SubnetId) : String :=
  "[" ++ ", ".intercalate (trace.map PrincipalId.toText) ++ "]"

/-- The check of `well_formed` on a trace. -/
def checkTrace (trace : List SubnetId) : Except WellFormedError Unit :=
  if trace.length < 2 then
    .error (.canisterMigrationsInvalidTrace ("Trace length " ++ toString trace.length ++ " < 2"))
  else
    (trace.zip trace.tail).forM fun p =>
      if p.1 = p.2 then
        .error (.canisterMigrationsInvalidTrace
          ("Repeated subnet in canister migration trace: " ++ p.1.toText))
      else .ok ()

/-- The loop of `well_formed` over the ranges and their traces. -/
def wellFormedLoop : Option CanisterId → List (CanisterIdRange × List SubnetId) →
    Except WellFormedError Unit
  | _, [] => .ok ()
  | previousEnd, (range, trace) :: rest =>
    if range.«end» < range.start then
      .error (.canisterMigrationsEmptyRange (emptyRangeMessage range))
    else if (match previousEnd with
        | some previousEnd => decide (range.start ≤ previousEnd)
        | none => false) then
      .error (.canisterMigrationsNotDisjoint ("Previous end " ++ debugPreviousEnd previousEnd ++
        " >= current start " ++ range.start.toText))
    else do
      checkTrace trace
      wellFormedLoop (some range.«end») rest

/-- `CanisterMigrations::well_formed`. -/
def wellFormed (m : CanisterMigrations) : Except WellFormedError Unit :=
  wellFormedLoop none m.map.entries

/-- `CanisterMigrations::lookup`. -/
def lookup (m : CanisterMigrations) (canisterId : CanisterId) : Except String (Option (List SubnetId)) :=
  lookupInRanges m.map canisterId

/-- `CanisterMigrations::insert_ranges`: well-formed ranges that do not overlap the map, each
inserted with the trace `[source, destination]`; other ranges are refused, and the map is left as
it was. -/
def insertRanges (m : CanisterMigrations) (canisterIdRanges : CanisterIdRanges)
    (source destination : SubnetId) : CanisterMigrations × Except WellFormedError Unit :=
  match canisterIdRanges.wellFormed with
  | .error e => (m, .error e)
  | .ok () =>
    if !areDisjoint m.map.keys canisterIdRanges.ranges then
      (m, .error (.canisterMigrationsNotDisjoint
        "Canister migrations cannot insert overlapping entries"))
    else
      (⟨canisterIdRanges.ranges.foldl (fun map range => map.insert range [source, destination])
        m.map⟩, .ok ())

/-- `CanisterMigrations::remove_ranges`: all ranges removed, or the map left as it was. -/
def removeRanges (m : CanisterMigrations) (rangesToRemove : CanisterIdRanges)
    (trace : List SubnetId) : CanisterMigrations × Except String Unit :=
  if !rangesToRemove.ranges.all fun range => decide (m.map.get? range = some trace) then
    (m, .error ("Some ranges do not match the provided trace: " ++ debugTrace trace ++
      " in canister migrations."))
  else (⟨rangesToRemove.ranges.foldl SortedMap.erase m.map⟩, .ok ())

/-! ## What `well_formed` checks -/

/-- What `well_formed` checks of a trace. -/
def ValidTrace (trace : List SubnetId) : Prop :=
  2 ≤ trace.length ∧ ∀ p ∈ trace.zip trace.tail, p.1 ≠ p.2

theorem checkTrace_eq_ok_iff (trace : List SubnetId) :
    checkTrace trace = .ok () ↔ ValidTrace trace := by
  unfold checkTrace ValidTrace
  by_cases hlen : trace.length < 2
  · simp [hlen]
  · rw [if_neg hlen, Except.forM_eq_ok]
    simp only [ite_eq_right_iff, reduceCtorEq, imp_false]
    exact ⟨fun h => ⟨not_lt.mp hlen, h⟩, fun h => h.2⟩

theorem wellFormedLoop_eq_ok_iff : ∀ (previousEnd : Option CanisterId)
    (es : List (CanisterIdRange × List SubnetId)),
    wellFormedLoop previousEnd es = .ok () ↔ (∀ e ∈ es, e.1.NonEmpty) ∧
      (∀ pe ∈ previousEnd, ∀ e ∈ es.head?, pe < e.1.start) ∧
      (es.map Prod.fst).IsChain (fun a b => a.«end» < b.start) ∧ ∀ e ∈ es, ValidTrace e.2
  | _, [] => by simp [wellFormedLoop]
  | previousEnd, (r, trace) :: rest => by
    have ih := wellFormedLoop_eq_ok_iff (some r.«end») rest
    have htrace := checkTrace_eq_ok_iff trace
    by_cases hempty : r.«end» < r.start
    · cases previousEnd <;> simp [wellFormedLoop, hempty, NonEmpty]
    · have hne : r.NonEmpty := not_lt.mp hempty
      cases previousEnd with
      | none =>
        simp only [wellFormedLoop, hempty, Bool.false_eq_true, if_false, Except.bind_eq_ok, htrace, ih]
        simp [hne, List.isChain_cons, and_assoc, and_comm, and_left_comm]
      | some pe =>
        by_cases hdisj : r.start ≤ pe
        · simp [wellFormedLoop, hempty, hdisj]
        · simp only [wellFormedLoop, hempty, hdisj, decide_false, Bool.false_eq_true, if_false,
            Except.bind_eq_ok, htrace, ih]
          simp [hne, not_le.mp hdisj, List.isChain_cons, and_assoc, and_comm, and_left_comm]

/-- **`well_formed`**: valid ranges, and a valid trace for each. -/
theorem wellFormed_eq_ok_iff (m : CanisterMigrations) :
    m.wellFormed = .ok () ↔ ValidRanges m.map.keys ∧ ∀ e ∈ m.map.entries, ValidTrace e.2 := by
  rw [wellFormed, wellFormedLoop_eq_ok_iff]
  constructor
  · rintro ⟨hne, -, hchain, htrace⟩
    have hne' : ∀ r ∈ m.map.keys, r.NonEmpty := fun r hr => by
      obtain ⟨e, he, rfl⟩ := List.mem_map.mp hr
      exact hne e he
    exact ⟨validRanges_of_pairwise hne' (pairwise_of_isChain hne' hchain), htrace⟩
  · rintro ⟨hv, htrace⟩
    exact ⟨fun e he => hv.1 e.1 (List.mem_map_of_mem he), by simp,
      (hv.pairwise m.map.keys_sorted).isChain, htrace⟩

/-! ## `insert_ranges` -/

section InsertRanges

variable {m : CanisterMigrations} {rs : CanisterIdRanges} {source destination : SubnetId}

/-- Ranges that share an id with a range of the map. -/
def Overlaps (m : CanisterMigrations) (rs : CanisterIdRanges) : Prop :=
  ∃ c, (∃ r ∈ rs.ranges, r.Contains c) ∧ ∃ k ∈ m.map.keys, k.Contains c

theorem validRanges_of_wellFormed (h : rs.wellFormed = .ok ()) : ValidRanges rs.ranges :=
  have hrs := (CanisterIdRanges.wellFormed_eq_ok_iff rs).mp h
  validRanges_of_pairwise hrs.1 (pairwise_of_isChain hrs.1 hrs.2)

theorem separated_of_not_overlaps (hv : ValidRanges m.map.keys) (hvr : ValidRanges rs.ranges)
    (hno : ¬Overlaps m rs) : ∀ k ∈ m.map.keys, ∀ r ∈ rs.ranges, k.Separated r := by
  intro k hk r hr
  by_contra hsep
  obtain ⟨c, hkc, hrc⟩ := (not_separated_iff (hv.1 k hk) (hvr.1 r hr)).mp hsep
  exact hno ⟨c, ⟨r, hr, hrc⟩, k, hk, hkc⟩

theorem areDisjoint_iff_not_overlaps (hv : ValidRanges m.map.keys) (h : rs.wellFormed = .ok ()) :
    areDisjoint m.map.keys rs.ranges = true ↔ ¬Overlaps m rs := by
  have hrs := validRanges_of_wellFormed h
  rw [areDisjoint_iff _ _ (hv.pairwise m.map.keys_sorted)
    (pairwise_of_isChain hrs.1 ((CanisterIdRanges.wellFormed_eq_ok_iff rs).mp h).2) hv.1 hrs.1]
  constructor
  · rintro hsep ⟨c, ⟨r, hr, hrc⟩, k, hk, hkc⟩
    exact (hsep k hk r hr).not_contains hkc hrc
  · exact separated_of_not_overlaps hv hrs

theorem foldl_insert_eq (map : SortedMap CanisterIdRange (List SubnetId)) :
    rs.ranges.foldl (fun map range => map.insert range [source, destination]) map =
      (rs.ranges.map fun r => (r, [source, destination])).foldl (fun m e => m.insert e.1 e.2) map := by
  rw [List.foldl_map]

theorem get?_insertRanges (map : SortedMap CanisterIdRange (List SubnetId))
    (hnd : rs.ranges.Nodup) (k : CanisterIdRange) :
    (rs.ranges.foldl (fun map range => map.insert range [source, destination]) map).get? k =
      if k ∈ rs.ranges then some [source, destination] else map.get? k := by
  have hnd' : ((rs.ranges.map fun r => (r, [source, destination])).map Prod.fst).Nodup := by
    rwa [List.map_map, show (Prod.fst ∘ fun r => (r, [source, destination])) = id from rfl,
      List.map_id]
  rw [foldl_insert_eq]
  split_ifs with hk
  · exact SortedMap.get?_foldl_insert_of_mem _ _ hnd' (List.mem_map_of_mem hk)
  · exact SortedMap.get?_foldl_insert_of_not_mem _ _ (by simpa using hk)

theorem mem_keys_insertRanges (map : SortedMap CanisterIdRange (List SubnetId))
    (k : CanisterIdRange) :
    k ∈ (rs.ranges.foldl (fun map range => map.insert range [source, destination]) map).keys ↔
      k ∈ map.keys ∨ k ∈ rs.ranges := by
  rw [foldl_insert_eq, SortedMap.mem_keys_foldl_insert]
  simp

theorem validTrace_pair (hsd : source ≠ destination) : ValidTrace [source, destination] := by
  simp [ValidTrace, hsd]

theorem insertRanges_spec (hwf : m.wellFormed = .ok ()) (hrs : rs.wellFormed = .ok ())
    (hno : ¬Overlaps m rs) (hsd : source ≠ destination) :
    ∃ m', m.insertRanges rs source destination = (m', .ok ()) ∧ m'.wellFormed = .ok () ∧
      ∀ k, m'.map.get? k = if k ∈ rs.ranges then some [source, destination] else m.map.get? k := by
  obtain ⟨hv, htrace⟩ := (wellFormed_eq_ok_iff m).mp hwf
  have hdisj := (areDisjoint_iff_not_overlaps hv hrs).mpr hno
  have hvr := validRanges_of_wellFormed hrs
  have hsep := separated_of_not_overlaps hv hvr hno
  have hnd : rs.ranges.Nodup :=
    (pairwise_of_isChain hvr.1 ((CanisterIdRanges.wellFormed_eq_ok_iff rs).mp hrs).2).imp_of_mem
      fun ha _ hab heq => by
        subst heq
        exact absurd hab (not_lt.mpr (hvr.1 _ ha))
  let m' : CanisterMigrations :=
    ⟨rs.ranges.foldl (fun map range => map.insert range [source, destination]) m.map⟩
  have hget : ∀ k, m'.map.get? k = if k ∈ rs.ranges then some [source, destination] else m.map.get? k :=
    get?_insertRanges m.map hnd
  have hins : m.insertRanges rs source destination = (m', .ok ()) := by
    unfold insertRanges
    rw [hrs]
    simp [hdisj, m']
  -- the keys are those of the map and the new ranges, apart; the traces are old or new
  have hkeys : ValidRanges m'.map.keys := by
    refine ⟨fun r hr => ?_, fun a ha b hb hab => ?_⟩
    · rcases (mem_keys_insertRanges m.map r).mp hr with hr | hr
      · exact hv.1 r hr
      · exact hvr.1 r hr
    · rcases (mem_keys_insertRanges m.map a).mp ha with ha | ha <;>
        rcases (mem_keys_insertRanges m.map b).mp hb with hb | hb
      · exact hv.2 a ha b hb hab
      · exact hsep a ha b hb
      · exact (hsep b hb a ha).symm
      · exact hvr.2 a ha b hb hab
  have htrace' : ∀ e ∈ m'.map.entries, ValidTrace e.2 := by
    intro e he
    have he' := hget e.1
    rw [m'.map.get?_eq_some_iff.mpr he] at he'
    split_ifs at he' with hk
    · rw [Option.some.inj he']
      exact validTrace_pair hsd
    · exact htrace e (m.map.get?_eq_some_iff.mp he'.symm)
  exact ⟨m', hins, (wellFormed_eq_ok_iff m').mpr ⟨hkeys, htrace'⟩, hget⟩

/-- **`insert_ranges` refuses exactly** ill-formed or overlapping ranges, keeping the map. -/
theorem insertRanges_refuses_iff (hv : ValidRanges m.map.keys) :
    (∃ e, m.insertRanges rs source destination = (m, .error e)) ↔
      rs.wellFormed ≠ .ok () ∨ Overlaps m rs := by
  unfold insertRanges
  cases hrs : rs.wellFormed with
  | error e => exact ⟨fun _ => Or.inl (by simp), fun _ => ⟨e, rfl⟩⟩
  | ok u =>
    have hdisj := areDisjoint_iff_not_overlaps hv hrs
    by_cases hd : areDisjoint m.map.keys rs.ranges = true
    · simp only [hd, Bool.not_true, Bool.false_eq_true, if_false]
      refine ⟨fun ⟨e, h⟩ => ?_, fun h => ?_⟩
      · exact absurd (Prod.mk.inj h).2 (by simp)
      · exact absurd (h.resolve_left (by simp)) (hdisj.mp hd)
    · simp only [hd, Bool.not_false, if_true]
      exact ⟨fun _ => Or.inr (by simpa [hdisj] using hd), fun _ => ⟨_, rfl⟩⟩

theorem lookup_insertRanges {m' : CanisterMigrations} (hv : ValidRanges m.map.keys)
    (hv' : ValidRanges m'.map.keys)
    (hget : ∀ k, m'.map.get? k = if k ∈ rs.ranges then some [source, destination] else m.map.get? k)
    (hmax : ∀ k ∈ m.map.keys, k.«end» ≤ canisterIdFromU64 u64Max)
    (hmaxr : ∀ r ∈ rs.ranges, r.«end» ≤ canisterIdFromU64 u64Max) (c : CanisterId) :
    m'.lookup c = if ∃ r ∈ rs.ranges, r.Contains c then .ok (some [source, destination])
      else m.lookup c := by
  have hkeys : ∀ k ∈ m'.map.keys, k ∈ m.map.keys ∨ k ∈ rs.ranges := fun k hk => by
    rw [SortedMap.mem_keys_iff, hget] at hk
    split_ifs at hk with hkr
    · exact Or.inr hkr
    · exact Or.inl ((SortedMap.mem_keys_iff _).mpr hk)
  have hmax' : ∀ k ∈ m'.map.keys, k.«end» ≤ canisterIdFromU64 u64Max := fun k hk =>
    (hkeys k hk).elim (hmax k) (hmaxr k)
  unfold lookup
  rw [lookupInRanges_eq_valueAt hv' hmax' c, lookupInRanges_eq_valueAt hv hmax c]
  split_ifs with hc
  · -- a new range holds the id, and so no other range of the new map does
    obtain ⟨r, hr, hrc⟩ := hc
    have hrget : m'.map.get? r = some [source, destination] := by rw [hget, if_pos hr]
    exact congrArg Except.ok ((valueAt_eq_some_iff hv').mpr ⟨r, hrget, hrc⟩)
  · refine congrArg Except.ok (Option.ext fun w => ?_)
    rw [valueAt_eq_some_iff hv', valueAt_eq_some_iff hv]
    refine exists_congr fun k => and_congr_left fun hkc => ?_
    rw [hget, if_neg fun hkr => hc ⟨k, hkr, hkc⟩]

end InsertRanges

/-! ## `remove_ranges` -/

theorem wellFormed_of_get?_eq_some {m m' : CanisterMigrations} (hwf : m.wellFormed = .ok ())
    (hsub : ∀ k v, m'.map.get? k = some v → m.map.get? k = some v) : m'.wellFormed = .ok () := by
  obtain ⟨hv, htrace⟩ := (wellFormed_eq_ok_iff m).mp hwf
  have hmem : ∀ e ∈ m'.map.entries, e ∈ m.map.entries := fun e he =>
    m.map.get?_eq_some_iff.mp (hsub _ _ (m'.map.get?_eq_some_iff.mpr he))
  refine (wellFormed_eq_ok_iff m').mpr ⟨hv.mono fun k hk => ?_, fun e he => htrace e (hmem e he)⟩
  obtain ⟨e, he, rfl⟩ := List.mem_map.mp hk
  exact List.mem_map_of_mem (hmem e he)

/-- **`remove_ranges`** removes every range or refuses and keeps the map. -/
theorem removeRanges_spec (m : CanisterMigrations) (rs : CanisterIdRanges) (trace : List SubnetId) :
    ((∀ r ∈ rs.ranges, m.map.get? r = some trace) →
      ∃ m', m.removeRanges rs trace = (m', .ok ()) ∧
        ∀ k, m'.map.get? k = if k ∈ rs.ranges then none else m.map.get? k) ∧
    (¬(∀ r ∈ rs.ranges, m.map.get? r = some trace) → ∃ e, m.removeRanges rs trace = (m, .error e)) := by
  have hall : (rs.ranges.all fun range => decide (m.map.get? range = some trace)) = true ↔
      ∀ r ∈ rs.ranges, m.map.get? r = some trace := by
    simp
  unfold removeRanges
  refine ⟨fun h => ⟨_, by rw [if_neg (by simpa using hall.mpr h)], fun k => by
      simp only [SortedMap.get?_foldl_erase]
      congr⟩,
    fun h => ⟨_, by rw [if_pos (by simpa [hall] using h)]⟩⟩

/-- **`CanisterMigrations` change atomically and stay well formed**: `insert_ranges` and
`remove_ranges` either refuse and return the map, or update `lookup` exactly at the ranges. -/
theorem canisterMigrations_change_atomically {m : CanisterMigrations} (hwf : m.wellFormed = .ok ()) :
    (∀ (rs : CanisterIdRanges) (source destination : SubnetId), source ≠ destination →
      ((∃ e, m.insertRanges rs source destination = (m, .error e)) ↔
        rs.wellFormed ≠ .ok () ∨ Overlaps m rs) ∧
      (rs.wellFormed = .ok () → ¬Overlaps m rs →
        ∃ m', m.insertRanges rs source destination = (m', .ok ()) ∧ m'.wellFormed = .ok () ∧
          ((∀ k ∈ m.map.keys, k.«end» ≤ canisterIdFromU64 u64Max) →
            (∀ r ∈ rs.ranges, r.«end» ≤ canisterIdFromU64 u64Max) →
            ∀ c, m'.lookup c = if ∃ r ∈ rs.ranges, r.Contains c then .ok (some [source, destination])
              else m.lookup c))) ∧
    ∀ (rs : CanisterIdRanges) (trace : List SubnetId),
      ((∀ r ∈ rs.ranges, m.map.get? r = some trace) →
        ∃ m', m.removeRanges rs trace = (m', .ok ()) ∧ m'.wellFormed = .ok () ∧
          ∀ k, m'.map.get? k = if k ∈ rs.ranges then none else m.map.get? k) ∧
      (¬(∀ r ∈ rs.ranges, m.map.get? r = some trace) → ∃ e, m.removeRanges rs trace = (m, .error e)) := by
  have hv := ((wellFormed_eq_ok_iff m).mp hwf).1
  refine ⟨fun rs source destination hsd => ⟨insertRanges_refuses_iff hv, fun hrs hno => ?_⟩,
    fun rs trace => ⟨fun hall => ?_, (removeRanges_spec m rs trace).2⟩⟩
  · obtain ⟨m', hins, hwf', hget⟩ := insertRanges_spec hwf hrs hno hsd
    exact ⟨m', hins, hwf', fun hmax hmaxr =>
      lookup_insertRanges hv ((wellFormed_eq_ok_iff m').mp hwf').1 hget hmax hmaxr⟩
  · obtain ⟨m', hrem, hget⟩ := (removeRanges_spec m rs trace).1 hall
    refine ⟨m', hrem, wellFormed_of_get?_eq_some hwf fun k v hk => ?_, hget⟩
    rw [hget k] at hk
    split_ifs at hk
    exact hk

/-- In the map of the migrating ranges `[5, 9]` and `[20, 30]`, inserting `[7, 8]`, which overlaps
the first, is refused and leaves the map; removing `[20, 30]` with its trace keeps only `[5, 9]`. -/
theorem canisterMigrations_change_atomically_at_two_ranges :
    let A : SubnetId := ⟨[1], by decide⟩
    let B : SubnetId := ⟨[2], by decide⟩
    let m : CanisterMigrations :=
      ⟨(SortedMap.empty.insert (makeRange 5 9) [A, B]).insert (makeRange 20 30) [A, B]⟩
    m.wellFormed = .ok () ∧ Overlaps m ⟨[makeRange 7 8]⟩ ∧
      (∃ e, m.insertRanges ⟨[makeRange 7 8]⟩ A B = (m, .error e)) ∧
      ∃ m', m.removeRanges ⟨[makeRange 20 30]⟩ [A, B] = (m', .ok ()) ∧ m'.wellFormed = .ok () ∧
        m'.map.get? (makeRange 20 30) = none ∧ m'.map.get? (makeRange 5 9) = some [A, B] := by
  intro A B m
  have hwf : m.wellFormed = .ok () := by decide
  have hover : Overlaps m ⟨[makeRange 7 8]⟩ := ⟨canisterIdFromU64 7,
    ⟨_, List.mem_singleton_self _, by decide⟩, makeRange 5 9, by decide, by decide⟩
  have h := canisterMigrations_change_atomically hwf
  obtain ⟨m', hrem, hwf', hget⟩ := (h.2 ⟨[makeRange 20 30]⟩ [A, B]).1 (by decide)
  exact ⟨hwf, hover, (h.1 _ A B (by decide)).1.mpr (.inr hover), m', hrem, hwf',
    by rw [hget]; decide, by rw [hget]; decide⟩

/-- A range inserted up to an eleven-byte id is not found by `lookup` at its start. -/
theorem insertRanges_lookup_misses_long_end :
    let x : CanisterId := ⟨List.replicate 11 0, by decide⟩
    let rs : CanisterIdRanges := ⟨[⟨canisterIdFromU64 5, x⟩]⟩
    new.wellFormed = .ok () ∧ rs.wellFormed = .ok () ∧ ¬Overlaps new rs ∧
      (⟨canisterIdFromU64 5, x⟩ : CanisterIdRange).Contains (canisterIdFromU64 5) ∧
      ∃ m', new.insertRanges rs ⟨[1], by decide⟩ ⟨[2], by decide⟩ = (m', .ok ()) ∧
        m'.lookup (canisterIdFromU64 5) = .ok none := by
  intro x rs
  have hrs : rs.wellFormed = .ok () := by decide
  have hno : ¬Overlaps new rs := fun ⟨_, _, k, hk, _⟩ => absurd hk List.not_mem_nil
  have hdisj : areDisjoint new.map.keys rs.ranges = true :=
    (areDisjoint_iff_not_overlaps (by decide) hrs).mpr hno
  let m' : CanisterMigrations := ⟨rs.ranges.foldl
    (fun map range => map.insert range [⟨[1], by decide⟩, ⟨[2], by decide⟩]) new.map⟩
  have hins : new.insertRanges rs ⟨[1], by decide⟩ ⟨[2], by decide⟩ = (m', .ok ()) := by
    unfold insertRanges
    rw [hrs]
    simp [hdisj, m']
  exact ⟨rfl, hrs, hno, by decide, m', hins, by decide⟩

end CanisterMigrations

end IC.Routing
