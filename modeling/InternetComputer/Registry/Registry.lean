import Mathlib
import InternetComputer.Lib.SortedMap
import InternetComputer.Lib.Bytes
import InternetComputer.Lib.Rust
import InternetComputer.Lib.Text

/-!
# The registry canister's store

`Registry` is a versioned key-value store: each accepted non-empty batch of mutations bumps the
version, goes into the changelog, and appends one value per mutation to its key's list. Upgrades
replay the changelog into a fresh registry. The changelog holds the requests themselves, and the
registry's own invariant checks are a parameter.

* `Registry.get`, `getChangesSince`, `countFittingDeltas`; `maybeApplyMutationInternal`;
  `serializableForm`, `fromSerializableForm`;
* `Registry.execute`: one call, whose panic leaves the registry as it was.
-/

namespace IC.RegistryCanister

/-- Keys and values of the registry. -/
abbrev Key := List UInt8

/-- `LOG_PREFIX`. -/
def logPrefix : String := "[Registry] "

/-- `u64::MAX`, at which versions saturate. -/
def u64Max : ℕ := 2 ^ 64 - 1

/-- `registry_mutation::Type`. -/
inductive MutationType where
  | insert
  | update
  | delete
  | upsert
  deriving DecidableEq, Repr

namespace MutationType

/-- `Type as i32`. -/
def toI32 : MutationType → ℤ
  | insert => 0
  | update => 1
  | delete => 2
  | upsert => 4

/-- `Type::from_i32`. -/
def fromI32 : ℤ → Option MutationType
  | 0 => some insert
  | 1 => some update
  | 2 => some delete
  | 4 => some upsert
  | _ => none

theorem fromI32_eq_some {t : ℤ} {x : MutationType} : fromI32 t = some x ↔ t = x.toI32 := by
  unfold fromI32
  split <;> cases x <;> simp_all [toI32]

end MutationType

/-- `RegistryMutation`. -/
structure RegistryMutation where
  mutationType : ℤ
  key : Key
  value : List UInt8
  deriving DecidableEq, Repr

/-- `RegistryValue`: a value with the version of its batch, or a deletion marker. -/
structure RegistryValue where
  value : List UInt8
  version : ℕ
  deletionMarker : Bool
  deriving DecidableEq, Repr

/-- `RegistryDelta`: the values of one key. -/
structure RegistryDelta where
  key : Key
  values : List RegistryValue
  deriving DecidableEq, Repr

/-- The parts of `ic_registry_transport::Error` the checks of a batch report. -/
inductive Error where
  | malformedMessage (message : String)
  | keyNotPresent (key : Key)
  | keyAlreadyPresent (key : Key)

/-- The text of a key in a message: `std::str::from_utf8(key).expect("key is not a str")`. -/
def keyText (key : Key) : Except String String :=
  match Utf8.fromUtf8 key with
  | .ok text => .ok text
  | .error e => .error ("key is not a str: " ++ e.debug)

/-- The `Display` text of an error; a key that is not UTF-8 panics. -/
def Error.display : Error → Except String String
  | .malformedMessage message => .ok ("Registry Canister Error. Msg: PB error: " ++ message)
  | .keyNotPresent key => do
    let text ← keyText key
    pure ("Registry Canister Error. Msg: Key not present: " ++ text)
  | .keyAlreadyPresent key => do
    let text ← keyText key
    pure ("Registry Canister Error. Msg: Key already present: " ++ text)

/-- The registry: its version, each key's values in order, and the changelog. -/
structure Registry where
  version : ℕ
  store : SortedMap Key (List RegistryValue)
  changelog : SortedMap ℕ (List RegistryMutation)

/-- `RegistrySnapshot`: the latest value of every key that is not deleted. -/
abbrev RegistrySnapshot := SortedMap Key (List UInt8)

namespace Registry

/-- `Registry::new`. -/
def new : Registry := ⟨0, .empty, .empty⟩

/-- `Registry::latest_version`. -/
def latestVersion (r : Registry) : ℕ := r.version

/-! ## Reads -/

/-- `get_changes_since`: the values of versions in `(version, max_version]`, newest first. -/
def getChangesSince (r : Registry) (version : ℕ) (maxVersions : Option ℕ) : List RegistryDelta :=
  let maxVersion := match maxVersions with
    | some maxVersions => min (version + maxVersions) u64Max
    | none => u64Max
  (r.store.entries.map fun e =>
    (⟨e.1, (e.2.reverse.dropWhile fun value => decide (maxVersion < value.version)).takeWhile
      fun value => decide (version < value.version)⟩ : RegistryDelta)).filter
    fun delta => !delta.values.isEmpty

/-- `get`: the last value of the key at or below the version, unless it is a deletion marker. -/
def get (r : Registry) (key : Key) (version : ℕ) : Option RegistryValue := do
  let values ← r.store.get? key
  let value ← values.reverse.find? fun value => decide (value.version ≤ version)
  if value.deletionMarker then none else some value

/-- `get_last`: the last value of the key, deletion markers included. -/
def getLast (r : Registry) (key : Key) : Option RegistryValue :=
  (r.store.get? key).bind List.getLast?

/-- The running sizes of a sequence of changelog entries, from `scan`. -/
def runningSizes : ℕ → List ℕ → List ℕ
  | _, [] => []
  | size, s :: sizes => (size + s) :: runningSizes (size + s) sizes

/-- `count_fitting_deltas`, given the length of each entry's encoding: the entries after the
first `since_version` whose running size, each with its eight key bytes, stays below
`max_bytes`. -/
def countFittingDeltas (encodedLength : List RegistryMutation → ℕ) (r : Registry)
    (sinceVersion maxBytes : ℕ) : ℕ :=
  ((runningSizes 0 ((r.changelog.entries.drop sinceVersion).map fun e =>
    encodedLength e.2 + 8)).takeWhile fun size => decide (size < maxBytes)).length

/-! ## Writes -/

/-- Inserts, updates and upserts normalised to upserts; an unknown type panics. -/
def normalizeMutationType (m : RegistryMutation) : Except String RegistryMutation := do
  let t ← Rust.expect (MutationType.fromI32 m.mutationType)
    "called Option::unwrap() on a None value"
  let mutationType := match t with
    | .insert | .update | .upsert => MutationType.upsert.toI32
    | .delete => MutationType.delete.toI32
  pure { m with mutationType }

/-- One mutation appended to its key's values. -/
def pushValue (version : ℕ) (store : SortedMap Key (List RegistryValue)) (m : RegistryMutation) :
    SortedMap Key (List RegistryValue) :=
  store.insert m.key ((store.get? m.key).getD [] ++
    [⟨m.value, version, decide (m.mutationType = MutationType.delete.toI32)⟩])

/-- `apply_mutations_as_version`: the batch sorted by key, normalised, logged and applied. -/
def applyMutationsAsVersion (r : Registry) (mutations : List RegistryMutation) (version : ℕ) :
    Except String Registry := do
  let sorted := mutations.mergeSort fun l r => decide (l.key ≤ r.key)
  let mutations ← sorted.mapM normalizeMutationType
  pure { r with
    changelog := r.changelog.insert version mutations
    store := mutations.foldl (pushValue version) r.store }

/-- `apply_mutations`: an empty batch changes nothing; any other bumps the version first. -/
def applyMutations (r : Registry) (mutations : List RegistryMutation) : Except String Registry :=
  if mutations.isEmpty then pure r
  else
    let version := r.version + 1
    ({ r with version } : Registry).applyMutationsAsVersion mutations version

/-- The check of one mutation against the latest value of its key that is not deleted. -/
def verifyMutation (r : Registry) (m : RegistryMutation) : Option Error :=
  let latest := (r.getLast m.key).filter fun registryValue => !registryValue.deletionMarker
  match MutationType.fromI32 m.mutationType, latest with
  | none, _ => some (.malformedMessage ("Unknown mutation type " ++ toString m.mutationType ++
      " for key " ++ debugBytes m.key ++ "."))
  | some .insert, none => none
  | some .insert, some _ => some (.keyAlreadyPresent m.key)
  | some .update, none => some (.keyNotPresent m.key)
  | some .update, some _ => none
  | some .delete, none => some (.keyNotPresent m.key)
  | some .delete, some _ => none
  | some .upsert, _ => none

/-- `verify_mutation_type`: the errors of the batch's mutations. -/
def verifyMutationType (r : Registry) (mutations : List RegistryMutation) : List Error :=
  mutations.filterMap r.verifyMutation

/-- `take_latest_snapshot`. -/
def takeLatestSnapshot (r : Registry) : Except String RegistrySnapshot :=
  r.store.entries.foldlM (fun snapshot e => do
    let registryValue ← Rust.expect e.2.getLast? "called Option::unwrap() on a None value"
    pure (if !registryValue.deletionMarker then snapshot.insert e.1 registryValue.value
      else snapshot)) SortedMap.empty

/-- `take_latest_snapshot_with_mutations`: the batch applied in its own order. -/
def takeLatestSnapshotWithMutations (r : Registry) (mutations : List RegistryMutation) :
    Except String RegistrySnapshot := do
  let snapshot ← r.takeLatestSnapshot
  mutations.foldlM (fun snapshot m => do
    let t ← Rust.expect (MutationType.fromI32 m.mutationType)
      "called Option::unwrap() on a None value"
    pure (match t with
      | .insert | .update | .upsert => snapshot.insert m.key m.value
      | .delete => snapshot.erase m.key)) snapshot

/-- `check_global_state_invariants`, given the registry's checks on a snapshot. -/
def checkGlobalStateInvariants (checkInvariants : RegistrySnapshot → Except String Unit)
    (r : Registry) (mutations : List RegistryMutation) : Except String Unit := do
  let snapshot ← r.takeLatestSnapshotWithMutations mutations
  match checkInvariants snapshot with
  | .ok () => pure ()
  | .error message => .error (logPrefix ++ " invariant check failed with message:" ++ message)

/-- `maybe_apply_mutation_internal`: a batch with a failed check panics. -/
def maybeApplyMutationInternal (checkInvariants : RegistrySnapshot → Except String Unit)
    (r : Registry) (mutations : List RegistryMutation) : Except String Registry := do
  let errors := r.verifyMutationType mutations
  if !errors.isEmpty then
    let texts ← errors.mapM Error.display
    .error (logPrefix ++ "Transaction rejected because of the following errors: [" ++
      ", ".intercalate texts ++ "].")
  r.checkGlobalStateInvariants checkInvariants mutations
  r.applyMutations mutations

/-! ## Upgrades -/

/-- `registry_stable_storage::Version`. -/
inductive ReprVersion where
  | unspecified
  | version1
  deriving DecidableEq, Repr

/-- `Version as i32`. -/
def ReprVersion.toI32 : ReprVersion → ℤ
  | .unspecified => 0
  | .version1 => 1

/-- `Version::from_i32`. -/
def ReprVersion.fromI32 : ℤ → Option ReprVersion
  | 0 => some .unspecified
  | 1 => some .version1
  | _ => none

/-- `ChangelogEntry`. -/
structure ChangelogEntry where
  version : ℕ
  encodedMutation : List RegistryMutation

/-- `RegistryStableStorage`. -/
structure RegistryStableStorage where
  version : ℤ
  deltas : List RegistryDelta
  changelog : List ChangelogEntry

/-- `serializable_form_at`. -/
def serializableFormAt (r : Registry) : ReprVersion → RegistryStableStorage
  | .version1 => ⟨ReprVersion.version1.toI32, [], r.changelog.entries.map fun e => ⟨e.1, e.2⟩⟩
  | .unspecified => ⟨ReprVersion.unspecified.toI32, r.store.entries.map fun e => ⟨e.1, e.2⟩, []⟩

/-- `serializable_form`: the changelog representation. -/
def serializableForm (r : Registry) : RegistryStableStorage := r.serializableFormAt .version1

/-- The entry that fills a missing version: an upsert of key `_` to the empty value. -/
def fillerMutation : RegistryMutation := ⟨MutationType.upsert.toI32, [95], []⟩

/-- The versions from `fromVersion` below `toVersion`, filled in (the fix of ICSUP-2589). -/
def fillVersions (r : Registry) (fromVersion toVersion : ℕ) : Except String Registry :=
  (List.range' fromVersion (toVersion - fromVersion)).foldlM (fun r i => do
    let r ← r.applyMutationsAsVersion [fillerMutation] i
    pure { r with version := i }) r

/-- One changelog entry replayed, after the versions missing before it. -/
def replayEntry (acc : Registry × ℕ) (entry : ChangelogEntry) : Except String (Registry × ℕ) := do
  let r ← acc.1.fillVersions (acc.2 + 1) entry.version
  let r ← r.applyMutationsAsVersion entry.encodedMutation entry.version
  pure ({ r with version := entry.version }, entry.version)

/-- One delta of the original representation restored and logged. -/
def restoreDelta (acc : Registry × SortedMap ℕ (List RegistryMutation)) (delta : RegistryDelta) :
    Registry × SortedMap ℕ (List RegistryMutation) :=
  let version := max acc.1.version ((delta.values.getLast?.map RegistryValue.version).getD 0)
  let mutationsByVersion := delta.values.foldl (fun byVersion v =>
    let mutationType := if v.deletionMarker then MutationType.delete.toI32
      else MutationType.upsert.toI32
    byVersion.insert v.version
      ((byVersion.get? v.version).getD [] ++ [⟨mutationType, delta.key, v.value⟩])) acc.2
  ({ acc.1 with version, store := acc.1.store.insert delta.key delta.values }, mutationsByVersion)

/-- `from_serializable_form` on an empty registry. -/
def fromSerializableForm (r : Registry) (stableRepr : RegistryStableStorage) :
    Except String Registry := do
  if !r.store.entries.isEmpty then .error "assertion failed: self.store.is_empty()"
  if !r.changelog.entries.isEmpty then .error "assertion failed: self.changelog.is_empty()"
  if r.version ≠ 0 then
    .error ("assertion failed: \x60(left == right)\x60\n  left: \x60" ++ toString r.version ++
      "\x60,\n right: \x600\x60")
  match ReprVersion.fromI32 stableRepr.version with
  | none => .error ("Version " ++ toString stableRepr.version ++
      " of stable registry representation is not supported by this canister")
  | some .version1 => do
    let (r, _) ← stableRepr.changelog.foldlM replayEntry (r, 0)
    pure r
  | some .unspecified =>
    let (r, mutationsByVersion) := stableRepr.deltas.foldl restoreDelta (r, SortedMap.empty)
    pure { r with changelog := mutationsByVersion }

/-! ## Runs -/

/-- A call of the registry: a batch of mutations, or an upgrade. -/
inductive Call where
  | mutate (mutations : List RegistryMutation)
  | upgrade

/-- The registry after a call; a panic traps and leaves it as it was. -/
def execute (checkInvariants : RegistrySnapshot → Except String Unit) (r : Registry) :
    Call → Registry
  | .mutate mutations =>
    match r.maybeApplyMutationInternal checkInvariants mutations with
    | .ok r' => r'
    | .error _ => r
  | .upgrade =>
    match new.fromSerializableForm r.serializableForm with
    | .ok r' => r'
    | .error _ => r

/-- The registry after a sequence of calls. -/
def run (checkInvariants : RegistrySnapshot → Except String Unit) (r : Registry)
    (calls : List Call) : Registry :=
  calls.foldl (execute checkInvariants) r

end Registry

end IC.RegistryCanister
