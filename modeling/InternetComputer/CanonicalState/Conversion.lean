import InternetComputer.CanonicalState.LazyTree
import InternetComputer.State.ReplicatedState

/-!
# The state as a lazy tree

`state_as_tree` of `lazy_tree/conversion.rs`: the replicated state as the tree that is certified
and read, with forks of fixed labels, map-transform forks over canisters, subnets, streams and
custom sections, and the ingress history by request id. The canonical encodings are an
`Encoding`, over which the results are stated.

* **`wellFormed_stateAsTree`**: the tree is well formed when each map keyed by principals has keys
  of one length, for then the principal order is the byte order of the labels;
* `stateAsTree_not_wellFormed_of_canisters`: canister ids of two lengths break the order.
-/

namespace IC.CanonicalState

open IC.TreeHash IC.State LazyTree

/-! ## Labels of keys -/

instance : LabelLike PrincipalId := ⟨PrincipalId.bytes, PrincipalId.tryFrom⟩

instance : LawfulLabelLike PrincipalId :=
  ⟨PrincipalId.tryFrom_bytes, fun _ _ h => PrincipalId.bytes_of_tryFrom h⟩

/-- `LabelLike for String`: the bytes, read back by `String::from_utf8`. -/
instance : LabelLike RustString := ⟨RustString.bytes, fun l => (RustString.fromUtf8 l).toOption⟩

instance : LawfulLabelLike RustString where
  fromLabel_toLabel s := by
    show (RustString.fromUtf8 s.bytes).toOption = some s
    rw [RustString.fromUtf8_bytes]
    rfl
  toLabel_of_fromLabel l s h := by
    change (RustString.fromUtf8 l).toOption = some s at h
    show s.bytes = l
    cases hs : RustString.fromUtf8 l with
    | error e =>
      rw [hs] at h
      cases h
    | ok s' =>
      rw [hs] at h
      cases h
      exact RustString.bytes_of_fromUtf8 hs

/-- The fork of the ingress history reads a label as the 32 bytes of a request id. -/
instance : LabelLike MessageId := ⟨MessageId.bytes, MessageId.tryFrom⟩

instance : LawfulLabelLike MessageId :=
  ⟨MessageId.tryFrom_bytes, fun _ _ h => MessageId.bytes_of_tryFrom h⟩

/-- `LabelLike for u64`: the eight big-endian bytes. -/
def u64ToLabel (n : ℕ) : Label := Bytes.toBeBytes 8 n

/-- `LabelLike for u64`: eight bytes, read big-endian. -/
def u64FromLabel (l : Label) : Option ℕ := if l.length = 8 then some (Bytes.ofBeBytes l) else none

theorem u64FromLabel_toLabel {n : ℕ} (h : n < 2 ^ 64) : u64FromLabel (u64ToLabel n) = some n := by
  simp only [u64FromLabel, u64ToLabel, Bytes.length_toBeBytes, if_true]
  rw [Bytes.ofBeBytes_toBeBytes (by simpa using h)]

theorem u64ToLabel_of_fromLabel {l : Label} {n : ℕ} (h : u64FromLabel l = some n) :
    u64ToLabel n = l ∧ n < 2 ^ 64 := by
  unfold u64FromLabel at h
  split_ifs at h with hl
  cases h
  have hlt := Bytes.ofBeBytes_lt l
  rw [hl] at hlt
  refine ⟨?_, by simpa using hlt⟩
  rw [u64ToLabel, ← hl, Bytes.toBeBytes_ofBeBytes]

theorem u64ToLabel_lt_iff {a b : ℕ} (ha : a < 2 ^ 64) (hb : b < 2 ^ 64) :
    u64ToLabel a < u64ToLabel b ↔ a < b := by
  rw [← Bytes.ofBeBytes_lt_ofBeBytes_iff (by simp [u64ToLabel, Bytes.length_toBeBytes]),
    u64ToLabel, u64ToLabel, Bytes.ofBeBytes_toBeBytes (by simpa using ha),
    Bytes.ofBeBytes_toBeBytes (by simpa using hb)]

/-! ## Leaves -/

/-- `string`: the bytes of a text. -/
def string (s : String) : LazyTree := .blob s.toUTF8.toList

/-- `num`: a number in LEB128. -/
def num (n : ℕ) : LazyTree := .blob (Bytes.leb128 n)

/-- `RejectCode::CanisterReject`. -/
def rejectCodeCanisterReject : ℕ := 4

/-- The canonical encodings the tree shows as blobs. -/
structure Encoding where
  metadata : SystemMetadata → List UInt8
  streamHeader : XNet.StreamHeader → Fin 10 → List UInt8
  message : List UInt8 → Fin 10 → List UInt8
  controllers : List PrincipalId → List UInt8
  subnetCanisterRanges : Option (List (PrincipalId × PrincipalId)) → List UInt8

/-! ## The forks -/

/-- `status_to_tree`: the status name, and the reply or the reject code and message. -/
def statusToTree (status : IngressStatus) : LazyTree :=
  let t := FiniteMap.withTree SortedMap.empty (Label.ofString "status") (string status.asStr)
  let t := match status with
    | .known _ _ _ (.completed (.reply b)) => t.withTree (Label.ofString "reply") (.blob b)
    | .known _ _ _ (.completed (.reject s)) =>
      (t.withTree (Label.ofString "reject_code") (num rejectCodeCanisterReject)).withTree
        (Label.ofString "reject_message") (string s)
    | .known _ _ _ (.failed error) =>
      (t.withTree (Label.ofString "reject_code") (num error.rejectCode)).withTree
        (Label.ofString "reject_message") (string error.description)
    | _ => t
  FiniteMap.toFork t

/-- `IngressHistoryFork`: at the 32 bytes of each request id, the tree of its status. -/
def ingressHistoryFork (h : IngressHistoryState) : LazyTree :=
  mapTransformFork h.statuses fun _ status => statusToTree status

/-- `StreamIndexedQueue::get`. -/
def queueGet {α : Type} (q : XNet.StreamIndexedQueue α) (index : ℕ) : Option α :=
  if index < q.begin ∨ q.end_ ≤ index then none else q.queue[index - q.begin]?

/-- `StreamQueueFork`: at the label of each index from `begin` to `end`, its message's tree. -/
def streamQueueFork {α : Type} (q : XNet.StreamIndexedQueue α) (mkTree : ℕ → α → LazyTree) :
    LazyTree :=
  .fork ((List.range' q.begin q.queue.length).map u64ToLabel) fun l =>
    (u64FromLabel l).bind fun index => (queueGet q index).map (mkTree index)

/-- `streams_as_tree`: the header and the messages of each stream. -/
def streamsAsTree (enc : Encoding) (streams : SortedMap SubnetId CertifiedStream)
    (v : Fin 10) : LazyTree :=
  mapTransformFork streams fun _ s =>
    FiniteMap.toFork ((FiniteMap.withTree SortedMap.empty (Label.ofString "header")
      (.blob (enc.streamHeader s.stream.header v))).withTree (Label.ofString "messages")
      (streamQueueFork s.stream.messages fun _ msg => .blob (enc.message msg v)))

/-- `canister_metadata_as_tree`: the content of each custom section. -/
def canisterMetadataAsTree (es : ExecutionState) : LazyTree :=
  mapTransformFork es.customSections fun _ customSection => .blob customSection.content

/-- The tree of one canister in `canisters_as_tree`, as the certification version shows it. -/
def canisterTree (enc : Encoding) (v : Fin 10) (canister : CanisterState) : LazyTree :=
  match canister.executionState with
  | some es => FiniteMap.toFork
      (((((FiniteMap.withTree SortedMap.empty (Label.ofString "certified_data")
        (.blob canister.systemState.certifiedData)).withTreeIf (0 < v.val)
          (Label.ofString "controller") (.blob canister.systemState.controller.bytes)).withTreeIf
        (0 < v.val) (Label.ofString "module_hash") (.blob es.moduleHash)).withTreeIf (1 < v.val)
          (Label.ofString "controllers")
          (.blob (enc.controllers canister.systemState.controllers))).withTreeIf (5 < v.val)
        (Label.ofString "metadata") (canisterMetadataAsTree es))
  | none => FiniteMap.toFork
      ((FiniteMap.withTreeIf SortedMap.empty (0 < v.val) (Label.ofString "controller")
        (.blob canister.systemState.controller.bytes)).withTreeIf (1 < v.val)
        (Label.ofString "controllers") (.blob (enc.controllers canister.systemState.controllers)))

/-- `canisters_as_tree`. -/
def canistersAsTree (enc : Encoding) (canisters : SortedMap CanisterId CanisterState)
    (v : Fin 10) : LazyTree :=
  mapTransformFork canisters fun _ canister => canisterTree enc v canister

/-- `invert_routing_table`: the ranges of each subnet, in the order of the table. -/
def invertRoutingTable (routingTable : List ((PrincipalId × PrincipalId) × SubnetId)) :
    SortedMap SubnetId (List (PrincipalId × PrincipalId)) :=
  routingTable.foldl (fun m e => m.insert e.2 ((m.get? e.2).getD [] ++ [e.1])) SortedMap.empty

/-- `subnets_as_tree`: each subnet's public key and, from version 3, its canister ranges. -/
def subnetsAsTree (enc : Encoding) (subnets : SortedMap SubnetId SubnetTopology)
    (inverted : SortedMap SubnetId (List (PrincipalId × PrincipalId))) (v : Fin 10) :
    LazyTree :=
  mapTransformFork subnets fun id topology =>
    FiniteMap.toFork ((FiniteMap.withTree SortedMap.empty (Label.ofString "public_key")
      (.blob topology.publicKey)).withTreeIf (2 < v.val) (Label.ofString "canister_ranges")
      (.blob (enc.subnetCanisterRanges (inverted.get? id))))

/-- `state_as_tree`; its assertion on the version holds from `V0` to `V9`. -/
def stateAsTree (enc : Encoding) (s : ReplicatedState) : LazyTree :=
  let v := s.metadata.certificationVersion
  FiniteMap.toFork
    ((((((FiniteMap.withTree SortedMap.empty (Label.ofString "metadata")
      (.blob (enc.metadata s.metadata))).withTree (Label.ofString "streams")
        (streamsAsTree enc s.streams v)).withTree (Label.ofString "canister")
        (canistersAsTree enc s.canisterStates v)).withTree (Label.ofString "request_status")
        (ingressHistoryFork s.metadata.ingressHistory)).withTree (Label.ofString "subnet")
        (subnetsAsTree enc s.metadata.subnets (invertRoutingTable s.metadata.routingTable) v)).withTree
      (Label.ofString "time") (num s.metadata.batchTime))

/-! ## Well-formed forks -/

theorem wellFormed_string (s : String) : WellFormed (string s) := WellFormed.blob _

theorem wellFormed_num (n : ℕ) : WellFormed (num n) := WellFormed.blob _

theorem wellFormed_statusToTree (status : IngressStatus) : WellFormed (statusToTree status) := by
  have hbase : FiniteMap.AllWellFormed (FiniteMap.withTree SortedMap.empty
      (Label.ofString "status") (string status.asStr)) :=
    FiniteMap.allWellFormed_empty.withTree (wellFormed_string _)
  unfold statusToTree
  apply FiniteMap.wellFormed_toFork
  split
  · exact hbase.withTree (WellFormed.blob _)
  · exact (hbase.withTree (wellFormed_num _)).withTree (wellFormed_string _)
  · exact (hbase.withTree (wellFormed_num _)).withTree (wellFormed_string _)
  · exact hbase

theorem wellFormed_ingressHistoryFork (h : IngressHistoryState) :
    WellFormed (ingressHistoryFork h) :=
  wellFormed_mapTransformFork (fun _ _ _ _ hab => hab) fun _ _ _ => wellFormed_statusToTree _

theorem queueGet_isSome {α : Type} {q : XNet.StreamIndexedQueue α} {index : ℕ} :
    (queueGet q index).isSome ↔ q.begin ≤ index ∧ index < q.end_ := by
  unfold queueGet XNet.StreamIndexedQueue.end_
  split_ifs with h
  · simp only [Option.isSome_none, Bool.false_eq_true, false_iff]
    omega
  · simp only [Option.isSome_iff_ne_none, ne_eq, List.getElem?_eq_none_iff, not_le]
    omega

theorem wellFormed_streamQueueFork {α : Type} {q : XNet.StreamIndexedQueue α}
    {mkTree : ℕ → α → LazyTree} (hend : q.end_ < 2 ^ 64)
    (htrees : ∀ i a, WellFormed (mkTree i a)) : WellFormed (streamQueueFork q mkTree) := by
  have hend' : q.begin + q.queue.length < 2 ^ 64 := hend
  refine WellFormed.fork ?_ (fun l => ?_) (fun l t ht => ?_)
  · -- big-endian labels of increasing indices below `2 ^ 64` increase
    refine List.pairwise_map.mpr (List.Pairwise.imp_of_mem ?_ List.pairwise_lt_range')
    intro a b ha hb hab
    rw [List.mem_range'_1] at hb
    exact Bytes.toBeBytes_lt_toBeBytes hab (by simpa using (show b < 2 ^ 64 by omega))
  · rw [List.mem_map]
    constructor
    · intro h
      obtain ⟨t, ht⟩ := Option.isSome_iff_exists.mp h
      obtain ⟨i, hi, hget⟩ := Option.bind_eq_some_iff.mp ht
      obtain ⟨hl, -⟩ := u64ToLabel_of_fromLabel hi
      have hin := queueGet_isSome.mp (Option.isSome_of_mem (Option.map_eq_some_iff.mp hget).choose_spec.1)
      exact ⟨i, List.mem_range'_1.mpr ⟨hin.1, hin.2⟩, hl⟩
    · rintro ⟨i, hi, rfl⟩
      rw [List.mem_range'_1] at hi
      have hsome : (queueGet q i).isSome := queueGet_isSome.mpr ⟨hi.1, hi.2⟩
      obtain ⟨a, ha⟩ := Option.isSome_iff_exists.mp hsome
      simp [u64FromLabel_toLabel (show i < 2 ^ 64 by omega), ha]
  · obtain ⟨i, -, hget⟩ := Option.bind_eq_some_iff.mp ht
    obtain ⟨a, -, rfl⟩ := Option.map_eq_some_iff.mp hget
    exact htrees i a

/-- The keys of a map keyed by principals have one length. -/
def OneLength {ν : Type} (m : SortedMap PrincipalId ν) : Prop :=
  ∀ a ∈ m.keys, ∀ b ∈ m.keys, a.bytes.length = b.bytes.length

instance {ν : Type} (m : SortedMap PrincipalId ν) : Decidable (OneLength m) :=
  inferInstanceAs (Decidable (∀ a ∈ m.keys, ∀ b ∈ m.keys, a.bytes.length = b.bytes.length))

theorem toLabel_lt_of_oneLength {ν : Type} {m : SortedMap PrincipalId ν} (hm : OneLength m) :
    ∀ a ∈ m.keys, ∀ b ∈ m.keys, a < b → LabelLike.toLabel a < LabelLike.toLabel b := by
  intro a ha b hb hab
  rcases PrincipalId.lt_iff.mp hab with hlen | ⟨-, hbytes⟩
  · exact absurd (hm a ha b hb) (Nat.ne_of_lt hlen)
  · exact hbytes

theorem wellFormed_streamsAsTree (enc : Encoding) {streams : SortedMap SubnetId CertifiedStream}
    (h : OneLength streams) (v : Fin 10) : WellFormed (streamsAsTree enc streams v) := by
  refine wellFormed_mapTransformFork (toLabel_lt_of_oneLength h) fun _ s _ => ?_
  exact FiniteMap.wellFormed_toFork ((FiniteMap.allWellFormed_empty.withTree (WellFormed.blob _)).withTree
    (wellFormed_streamQueueFork s.end_lt fun _ _ => WellFormed.blob _))

theorem wellFormed_canisterMetadataAsTree (es : ExecutionState) :
    WellFormed (canisterMetadataAsTree es) :=
  wellFormed_mapTransformFork (fun _ _ _ _ hab => hab) fun _ _ _ => WellFormed.blob _

theorem wellFormed_canisterTree (enc : Encoding) (v : Fin 10) (canister : CanisterState) :
    WellFormed (canisterTree enc v canister) := by
  unfold canisterTree
  split
  · rename_i es _
    exact FiniteMap.wellFormed_toFork
      (((((FiniteMap.allWellFormed_empty.withTree (WellFormed.blob _)).withTreeIf _
        (WellFormed.blob _)).withTreeIf _ (WellFormed.blob _)).withTreeIf _
        (WellFormed.blob _)).withTreeIf _ (wellFormed_canisterMetadataAsTree es))
  · exact FiniteMap.wellFormed_toFork
      ((FiniteMap.allWellFormed_empty.withTreeIf _ (WellFormed.blob _)).withTreeIf _
        (WellFormed.blob _))

theorem wellFormed_canistersAsTree (enc : Encoding) {canisters : SortedMap CanisterId CanisterState}
    (h : OneLength canisters) (v : Fin 10) : WellFormed (canistersAsTree enc canisters v) :=
  wellFormed_mapTransformFork (toLabel_lt_of_oneLength h) fun _ _ _ => wellFormed_canisterTree enc v _

theorem wellFormed_subnetsAsTree (enc : Encoding) {subnets : SortedMap SubnetId SubnetTopology}
    (h : OneLength subnets) (inverted : SortedMap SubnetId (List (PrincipalId × PrincipalId)))
    (v : Fin 10) : WellFormed (subnetsAsTree enc subnets inverted v) :=
  wellFormed_mapTransformFork (toLabel_lt_of_oneLength h) fun _ _ _ =>
    FiniteMap.wellFormed_toFork
      ((FiniteMap.allWellFormed_empty.withTree (WellFormed.blob _)).withTreeIf _ (WellFormed.blob _))

/-- Each map of the state keyed by principals has keys of one length. -/
def PrincipalKeysOfOneLength (s : ReplicatedState) : Prop :=
  OneLength s.canisterStates ∧ OneLength s.metadata.subnets ∧ OneLength s.streams

instance (s : ReplicatedState) : Decidable (PrincipalKeysOfOneLength s) :=
  inferInstanceAs (Decidable (_ ∧ _ ∧ _))

/-- The state tree is well formed once each map keyed by principals has keys of one length. -/
theorem wellFormed_stateAsTree (enc : Encoding) (s : ReplicatedState)
    (h : PrincipalKeysOfOneLength s) : WellFormed (stateAsTree enc s) := by
  obtain ⟨hcanisters, hsubnets, hstreams⟩ := h
  exact FiniteMap.wellFormed_toFork
    ((((((FiniteMap.allWellFormed_empty.withTree (WellFormed.blob _)).withTree
      (wellFormed_streamsAsTree enc hstreams _)).withTree
      (wellFormed_canistersAsTree enc hcanisters _)).withTree
      (wellFormed_ingressHistoryFork _)).withTree
      (wellFormed_subnetsAsTree enc hsubnets _ _)).withTree (wellFormed_num _))

/-- Encodings that write nothing. -/
def emptyEncoding : Encoding := ⟨fun _ => [], fun _ _ => [], fun _ _ => [], fun _ => [], fun _ => []⟩

/-- A canister without controllers, data or module. -/
def bareCanister : CanisterState := ⟨⟨[], []⟩, none⟩

/-- The metadata of a state with no history, subnets or routes, at version `V0`. -/
def bareMetadata : SystemMetadata :=
  ⟨IngressHistoryState.empty, 0, ⟨0, by decide⟩, SortedMap.empty, []⟩

theorem length_rrkahBytes_le : ([0, 0, 0, 0, 0, 0, 0, 0, 1, 1] : List UInt8).length ≤ 29 := by
  decide

/-- A state with the canisters `rrkah-fqaaa-aaaaa-aaaaq-cai` and `ryjl3-tyaaa-aaaaa-aaaba-cai`, two
subnets of one-byte ids, and a stream of one message to the second subnet, at version `V9`. -/
def twoCanisterState : ReplicatedState :=
  ⟨(SortedMap.empty.insert ⟨[0, 0, 0, 0, 0, 0, 0, 0, 1, 1], length_rrkahBytes_le⟩ bareCanister).insert
      ⟨[0, 0, 0, 0, 0, 0, 0, 0, 2, 1], by decide⟩ bareCanister,
    ⟨IngressHistoryState.empty, 0, ⟨9, by decide⟩,
      (SortedMap.empty.insert ⟨[1], Nat.le_of_ble_eq_true rfl⟩ ⟨[7]⟩).insert
        ⟨[2], Nat.le_of_ble_eq_true rfl⟩ ⟨[8]⟩, []⟩,
    SortedMap.empty.insert ⟨[2], Nat.le_of_ble_eq_true rfl⟩ ⟨⟨⟨0, [[5]]⟩, 1, []⟩, by decide⟩⟩

theorem wellFormed_stateAsTree_twoCanisters :
    PrincipalKeysOfOneLength twoCanisterState ∧
      WellFormed (stateAsTree emptyEncoding twoCanisterState) :=
  ⟨by decide, wellFormed_stateAsTree emptyEncoding twoCanisterState (by decide)⟩

/-- A state with the canisters `2vxsx-fae` (one byte) and `rrkah-fqaaa-aaaaa-aaaaq-cai`. -/
def twoLengthState : ReplicatedState :=
  ⟨⟨[(⟨[4], by decide⟩, bareCanister),
      (⟨[0, 0, 0, 0, 0, 0, 0, 0, 1, 1], length_rrkahBytes_le⟩, bareCanister)],
    by decide⟩, bareMetadata, SortedMap.empty⟩

/-- A state with canister ids of two lengths lists its canister labels out of byte order. -/
theorem stateAsTree_not_wellFormed_of_canisters :
    ¬ WellFormed (stateAsTree emptyEncoding twoLengthState) := by
  intro h
  have hget : (stateAsTree emptyEncoding twoLengthState).edgeAt (Label.ofString "canister") =
      some (canistersAsTree emptyEncoding twoLengthState.canisterStates
        twoLengthState.metadata.certificationVersion) := by
    simp +decide only [stateAsTree, LazyTree.edgeAt, FiniteMap.toFork, FiniteMap.withTree,
      SortedMap.get?_insert, if_false, if_true]
  have hedge := h.of_edgeAt hget
  have hsorted := hedge.labels_sorted
  revert hsorted
  decide

end IC.CanonicalState
