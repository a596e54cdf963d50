import InternetComputer.State.ReplicatedState
import Mathlib

/-!
# The routing table

`RoutingTable` maps closed ranges of canister ids to subnets, ordered by start and end; it is well
formed when its ranges are non-empty, disjoint, and no two neighbours of one subnet touch.
Arithmetic on ranges reads the first eight bytes of a ten-byte id; `CanisterId::from_u64` builds
the ids of that form ending in `0x01`.

* `CanisterIdRanges.wellFormed`, `totalCount`, `locate`, `areDisjoint`, `isSubsetOf`,
  `lookupInRanges`;
* `RoutingTable.insert`, `assignRanges`, `optimize`, `route`, `removeSubnet`, `tryFrom`.
-/

namespace IC.Routing

open IC.State

/-- `u64::MAX`. -/
def u64Max : ℕ := 2 ^ 64 - 1

/-- `CanisterId::from_u64`: eight big-endian bytes, `0x01`, and the opaque type byte `0x01`. -/
def canisterIdFromU64 (n : ℕ) : CanisterId :=
  ⟨Bytes.toBeBytes 8 n ++ [1, 1], by simp⟩

/-- The `Debug` text of a canister id. -/
def debugCanisterId (c : CanisterId) : String := "CanisterId(" ++ c.toText ++ ")"

/-- `canister_id_into_u64`: the first eight bytes of a ten-byte id; other lengths panic. -/
def canisterIdIntoU64 (c : CanisterId) : Except String ℕ :=
  if c.bytes.length = 8 + 2 then .ok (Bytes.ofBeBytes (c.bytes.take 8))
  else .error ("assertion failed: \x60(left == right)\x60\n  left: \x60" ++
    toString c.bytes.length ++ "\x60,\n right: \x6010\x60: canister_id: " ++ c.toText ++
    "; raw " ++ debugCanisterId c)

/-- `CanisterIdRange`: the ids from `start` to `end`, both included. -/
structure CanisterIdRange where
  start : CanisterId
  «end» : CanisterId
  deriving DecidableEq

namespace CanisterIdRange

/-- The derived order: by start, then by end. -/
def toLexPair (r : CanisterIdRange) : Lex (CanisterId × CanisterId) := toLex (r.start, r.«end»)

theorem toLexPair_injective : Function.Injective toLexPair := by
  rintro ⟨a, b⟩ ⟨c, d⟩ h
  simp only [toLexPair, toLex_inj, Prod.mk.injEq] at h
  obtain ⟨rfl, rfl⟩ := h
  rfl

instance : LinearOrder CanisterIdRange := LinearOrder.lift' toLexPair toLexPair_injective

/-- The `Debug` text of a range. -/
def debug (r : CanisterIdRange) : String :=
  "CanisterIdRange \x7b start: " ++ debugCanisterId r.start ++ ", end: " ++
    debugCanisterId r.«end» ++ " \x7d"

end CanisterIdRange

/-- `WellFormedError`, of the routing table and of the canister migrations. -/
inductive WellFormedError where
  | canisterIdRangeEmptyRange (message : String)
  | canisterIdRangeNotSortedOrNotDisjoint (message : String)
  | routingTableEmptyRange (message : String)
  | routingTableNotDisjoint (message : String)
  | routingTableNotOptimized
  | canisterMigrationsEmptyRange (message : String)
  | canisterMigrationsNotDisjoint (message : String)
  | canisterMigrationsInvalidTrace (message : String)
  deriving DecidableEq

/-- The message of an empty range. -/
def emptyRangeMessage (r : CanisterIdRange) : String :=
  "start " ++ r.start.toText ++ " is greater than end " ++ r.«end».toText

/-- `CanisterIdRanges`: a list of ranges. -/
structure CanisterIdRanges where
  ranges : List CanisterIdRange

namespace CanisterIdRanges

/-- The check of `CanisterIdRanges::well_formed` that ranges are sorted and disjoint. -/
def sortedLoop (previousEnd : CanisterId) : List CanisterIdRange → Except WellFormedError Unit
  | [] => .ok ()
  | r :: rs =>
    if r.start ≤ previousEnd then
      .error (.canisterIdRangeNotSortedOrNotDisjoint ("previous_end " ++ previousEnd.toText ++
        " >= current_start " ++ r.start.toText))
    else sortedLoop r.«end» rs

/-- `CanisterIdRanges::well_formed`: the ranges are non-empty, then sorted and disjoint. -/
def wellFormed (rs : CanisterIdRanges) : Except WellFormedError Unit := do
  rs.ranges.forM fun r =>
    if r.«end» < r.start then .error (.canisterIdRangeEmptyRange (emptyRangeMessage r)) else .ok ()
  match rs.ranges with
  | [] => .ok ()
  | r :: rest => sortedLoop r.«end» rest

/-- The number of ids of a range, its end read first. -/
def rangeLength (range : CanisterIdRange) : Except String ℕ := do
  let rangeEnd ← canisterIdIntoU64 range.«end»
  let rangeStart ← canisterIdIntoU64 range.start
  pure (1 + rangeEnd - rangeStart)

/-- `CanisterIdRanges::total_count`: the sum of the lengths of the ranges. -/
def totalCount (rs : CanisterIdRanges) : Except String ℕ :=
  rs.ranges.foldlM (fun sum range => do
    let len ← rangeLength range
    pure (sum + len)) 0

/-- The loop of `locate` over the ranges, `loc` less the lengths passed. -/
def locateLoop (totalCount : ℕ) : ℕ → List CanisterIdRange → Except String CanisterId
  | loc, [] => .error ("internal error: entered unreachable code: We asserted that loc " ++
      toString loc ++ " is less than total_count " ++ toString totalCount ++
      " so should not get here.")
  | loc, range :: rest => do
    let len ← rangeLength range
    if loc < len then do
      let rangeStart ← canisterIdIntoU64 range.start
      pure (canisterIdFromU64 (rangeStart + loc))
    else locateLoop totalCount (loc - len) rest

/-- `CanisterIdRanges::locate`: the id at position `loc` of the ranges. -/
def locate (rs : CanisterIdRanges) (loc : ℕ) : Except String CanisterId := do
  let total ← rs.totalCount
  Rust.assert (decide (loc < total)) "assertion failed: loc < self.total_count()"
  locateLoop total loc rs.ranges

end CanisterIdRanges

/-- `are_disjoint`: two sorted lists of disjoint ranges, walked together, share no id. -/
def areDisjoint : List CanisterIdRange → List CanisterIdRange → Bool
  | l :: ls, r :: rs =>
    if l.«end» < r.start then areDisjoint ls (r :: rs)
    else if r.«end» < l.start then areDisjoint (l :: ls) rs
    else false
  | _, _ => true
termination_by ls rs => ls.length + rs.length

/-- `is_subset_of`, the second list walked once. -/
def isSubsetOf : List CanisterIdRange → List CanisterIdRange → Bool
  | [], _ => true
  | _ :: _, [] => false
  | l :: ls, r :: rs =>
    if l.start ≥ r.start ∧ l.«end» ≤ r.«end» then isSubsetOf ls (r :: rs)
    else isSubsetOf (l :: ls) rs
termination_by ls rs => ls.length + rs.length

/-- `RoutingTable`. -/
structure RoutingTable where
  map : SortedMap CanisterIdRange SubnetId

/-- `BTreeMap::range(lo..=hi)`; bounds out of order panic. -/
def rangeInclusive {ν : Type} (m : SortedMap CanisterIdRange ν) (lo hi : CanisterIdRange) :
    Except String (List (CanisterIdRange × ν)) :=
  if hi < lo then .error "range start is greater than range end in BTreeMap"
  else .ok (m.entries.filter fun e => decide (lo ≤ e.1 ∧ e.1 ≤ hi))

/-- `collect()` into a `BTreeMap`: the entries inserted in order. -/
def collectMap {ν : Type} (es : List (CanisterIdRange × ν)) : SortedMap CanisterIdRange ν :=
  es.foldl (fun m e => m.insert e.1 e.2) SortedMap.empty

/-- `lookup_in_ranges`: the last range not above `[canister_id, u64::MAX]`, if it holds the id. -/
def lookupInRanges {ν : Type} (m : SortedMap CanisterIdRange ν) (canisterId : CanisterId) :
    Except String (Option ν) :=
  match (m.entries.filter fun e =>
      decide (e.1 ≤ ⟨canisterId, canisterIdFromU64 u64Max⟩)).getLast? with
  | some (interval, value) => do
    Rust.assert (decide (interval.start ≤ canisterId))
      "assertion failed: interval.start <= canister_id"
    pure (if canisterId ≤ interval.«end» then some value else none)
  | none => pure none

namespace RoutingTable

/-- `RoutingTable::new`. -/
def new : RoutingTable := ⟨SortedMap.empty⟩

/-- The `Debug` text of the end of the previous range. -/
def debugPreviousEnd : Option CanisterId → String
  | some c => "Some(" ++ debugCanisterId c ++ ")"
  | none => "None"

/-- The loop of `validate`: each range is non-empty and starts after the previous one ends. -/
def validateLoop : Option CanisterId → List CanisterIdRange → Except WellFormedError Unit
  | _, [] => .ok ()
  | previousEnd, r :: rs =>
    if r.«end» < r.start then .error (.routingTableEmptyRange (emptyRangeMessage r))
    else if (match previousEnd with
        | some previousEnd => decide (r.start ≤ previousEnd)
        | none => false) then
      .error (.routingTableNotDisjoint ("Previous end " ++ debugPreviousEnd previousEnd ++
        " >= current start " ++ r.start.toText))
    else validateLoop (some r.«end») rs

/-- `RoutingTable::validate`: the ranges are non-empty and disjoint. -/
def validate (t : RoutingTable) : Except WellFormedError Unit := validateLoop none t.map.keys

/-- The pairs of neighbours `is_optimized` checks: of different subnets, or not touching. The
ids of each pair are read before the pair is checked, and the first pair that fails stops
the check. -/
def isOptimizedLoop : List (CanisterIdRange × SubnetId) → Except String Bool
  | e₁ :: e₂ :: rest => do
    let range1End ← canisterIdIntoU64 e₁.1.«end»
    let range2Start ← canisterIdIntoU64 e₂.1.start
    if e₁.2 ≠ e₂.2 ∨ range1End + 1 ≠ range2Start then isOptimizedLoop (e₂ :: rest)
    else pure false
  | _ => pure true

/-- `is_optimized`. -/
def isOptimized (t : RoutingTable) : Except String Bool := isOptimizedLoop t.map.entries

/-- `RoutingTable::well_formed`: `validate`, then `is_optimized`. -/
def wellFormed (t : RoutingTable) : Except String (Except WellFormedError Unit) :=
  match t.validate with
  | .error e => pure (.error e)
  | .ok () => do
    let optimized ← t.isOptimized
    pure (if optimized then .ok () else .error .routingTableNotOptimized)

/-- One range of `optimize`: it extends the last one if they have one subnet and touch. -/
def optimizeStep (entries : List (CanisterIdRange × SubnetId)) (e : CanisterIdRange × SubnetId) :
    Except String (List (CanisterIdRange × SubnetId)) :=
  match entries.getLast? with
  | some (lastRange, lastSubnet) => do
    let lastRangeEnd ← canisterIdIntoU64 lastRange.«end»
    let rangeStart ← canisterIdIntoU64 e.1.start
    if lastSubnet = e.2 ∧ lastRangeEnd + 1 = rangeStart then
      pure (entries.dropLast ++ [(⟨lastRange.start, e.1.«end»⟩, lastSubnet)])
    else pure (entries ++ [e])
  | none => pure (entries ++ [e])

/-- `RoutingTable::optimize`: neighbours of one subnet that touch are merged. -/
def optimize (t : RoutingTable) : Except String RoutingTable := do
  let entries ← t.map.entries.foldlM optimizeStep []
  pure ⟨collectMap entries⟩

/-- `RoutingTable::insert`: an empty or overlapping range is refused. -/
def insert (t : RoutingTable) (range : CanisterIdRange) (subnetId : SubnetId) :
    Except String (RoutingTable × Except WellFormedError Unit) :=
  if range.«end» < range.start then
    pure (t, .error (.routingTableEmptyRange (emptyRangeMessage range)))
  else if !areDisjoint [range] t.map.keys then
    pure (t, .error (.routingTableNotDisjoint
      ("Routing table cannot insert an overlapping range: " ++ range.debug)))
  else do
    let t ← (⟨t.map.insert range subnetId⟩ : RoutingTable).optimize
    pure (t, .ok ())

/-- `make_range`. -/
def makeRange (start «end» : ℕ) : CanisterIdRange := ⟨canisterIdFromU64 start, canisterIdFromU64 «end»⟩

/-- The loop of `assign_range` from the last range not above the new one: what each overlapping
range leaves outside it; one sticking out on the right is the last. -/
def assignRangeLoop (rStart rEnd : ℕ) :
    List (CanisterIdRange × SubnetId) →
      Except String (List CanisterIdRange × List (CanisterIdRange × SubnetId))
  | [] => pure ([], [])
  | (k, v) :: rest => do
    let kStart ← canisterIdIntoU64 k.start
    let kEnd ← canisterIdIntoU64 k.«end»
    if kStart < rStart ∧ rStart ≤ kEnd ∧ kEnd ≤ rEnd then do
      let (toRemove, toAdd) ← assignRangeLoop rStart rEnd rest
      pure (k :: toRemove, (makeRange kStart (rStart - 1), v) :: toAdd)
    else if rStart ≤ kStart ∧ kEnd ≤ rEnd then do
      let (toRemove, toAdd) ← assignRangeLoop rStart rEnd rest
      pure (k :: toRemove, toAdd)
    else if kStart < rStart ∧ rEnd < kEnd then
      pure ([k], [(makeRange kStart (rStart - 1), v), (makeRange (rEnd + 1) kEnd, v)])
    else if rStart ≤ kStart ∧ kStart ≤ rEnd ∧ rEnd < kEnd then
      pure ([k], [(makeRange (rEnd + 1) kEnd, v)])
    else do
      Rust.assert (decide (kEnd < rStart ∨ rEnd < kStart))
        ("did not handle case k = (" ++ toString kStart ++ ", " ++ toString kEnd ++
          "), r = (" ++ toString rStart ++ ", " ++ toString rEnd ++ ")")
      assignRangeLoop rStart rEnd rest

/-- `assign_range`: the range goes to the destination, overlapped ranges keep what is outside. -/
def assignRange (t : RoutingTable) (range : CanisterIdRange) (destination : SubnetId) :
    Except String RoutingTable := do
  let rStart ← canisterIdIntoU64 range.start
  let rEnd ← canisterIdIntoU64 range.«end»
  let leftBound := match (t.map.entries.filter fun e => decide (e.1 ≤ range)).getLast? with
    | some (k, _) => k
    | none => range
  let rightBound := makeRange rEnd u64Max
  let visited ← rangeInclusive t.map leftBound rightBound
  let (toRemove, toAdd) ← assignRangeLoop rStart rEnd visited
  let m := toRemove.foldl SortedMap.erase t.map
  let m := toAdd.foldl (fun m e => m.insert e.1 e.2) m
  pure ⟨m.insert range destination⟩

/-- `assign_ranges`: well-formed ranges assigned in order, then the table optimized. -/
def assignRanges (t : RoutingTable) (ranges : CanisterIdRanges) (destination : SubnetId) :
    Except String (RoutingTable × Except WellFormedError Unit) :=
  match ranges.wellFormed with
  | .error e => pure (t, .error e)
  | .ok () => do
    let t ← ranges.ranges.foldlM (fun t range => t.assignRange range destination) t
    let t ← t.optimize
    pure (t, .ok ())

/-- `RoutingTable::route`: the subnet whose id the principal is, or else the subnet of the range
that holds it, the principal read as a canister id (`CanisterId::try_from` accepts every
principal). -/
def route (t : RoutingTable) (principalId : PrincipalId) : Except String (Option SubnetId) :=
  match (t.map.entries.map Prod.snd).find? (· == principalId) with
  | some subnetId => pure (some subnetId)
  | none => lookupInRanges t.map principalId

/-- `RoutingTable::ranges`: the ranges of a subnet, in order. -/
def ranges (t : RoutingTable) (subnetId : SubnetId) : CanisterIdRanges :=
  ⟨t.map.entries.filterMap fun e => if e.2 = subnetId then some e.1 else none⟩

/-- `remove_subnet`: the ranges of the subnet are dropped. -/
def removeSubnet (t : RoutingTable) (subnetIdToRemove : SubnetId) : RoutingTable :=
  ⟨t.map.filter fun _ subnetId => subnetId != subnetIdToRemove⟩

/-- `RoutingTable::try_from(map)`: a valid map, optimized. -/
def tryFrom (map : SortedMap CanisterIdRange SubnetId) :
    Except String (Except WellFormedError RoutingTable) :=
  match (⟨map⟩ : RoutingTable).validate with
  | .error e => pure (.error e)
  | .ok () => do
    let t ← (⟨map⟩ : RoutingTable).optimize
    pure (.ok t)

end RoutingTable

end IC.Routing
