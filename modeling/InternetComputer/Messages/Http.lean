import InternetComputer.Messages.MessageId
import InternetComputer.HttpHandler.ReadState

/-!
# The ids of HTTP requests and of what they convert to

`http.rs` hashes the fields of `HttpCanisterUpdate`, `HttpUserQuery` and `HttpReadState`, and the
requests that `try_from` makes of them build the same maps once more, with `"nonce"` inserted when
there is a nonce.

* `requestMap`, with `get?_nonce_requestMap`;
* `contentMap_tryFrom` for each pair: the converted request hashes the same map, so it has the
  same id.
-/

namespace IC.Messages

open IC.State IC.TreeHash

/-- `HttpRequestError`, of which the conversions report `InvalidPrincipalId`. -/
inductive HttpRequestError where
  | invalidPrincipalId (message : String)

/-! ## The map of a request -/

/-- The map hashed for a request's id: its fields, then `"nonce"` if it has one. -/
def requestMap (fields : List (String × RawHttpRequestVal)) (nonce : Option (List UInt8)) :
    SortedMap String RawHttpRequestVal :=
  let map := fields.foldl (fun m e => m.insert e.1 e.2) SortedMap.empty
  match nonce with
  | some nonce => map.insert "nonce" (.bytes nonce)
  | none => map

theorem get?_nonce_requestMap {fields : List (String × RawHttpRequestVal)}
    (h : "nonce" ∉ fields.map Prod.fst) (nonce : Option (List UInt8)) :
    (requestMap fields nonce).get? "nonce" = nonce.map .bytes := by
  cases nonce with
  | some nonce => rw [requestMap, SortedMap.get?_insert, if_pos rfl, Option.map_some]
  | none => rw [requestMap, SortedMap.get?_foldl_insert_of_not_mem _ _ h]; rfl

/-! ## Principals of a request -/

/-- The derived `Debug` text of `CanisterIdError::PrincipalIdParseError` for a long blob. -/
def canisterIdErrorDebug : String := "PrincipalIdParseError(PrincipalIdError(BufferTooLong))"

/-- `UserId::from(PrincipalId::try_from(sender))`, with the error of the conversions. -/
def senderFrom (sender : List UInt8) : Except HttpRequestError UserId :=
  match PrincipalId.tryFrom sender with
  | some p => .ok p
  | none => .error (.invalidPrincipalId
      ("Converting sender to PrincipalId failed with " ++ IC.HttpHandler.bufferTooLongText))

/-- `CanisterId::try_from(canister_id)`, with the error of the conversions. -/
def canisterIdFrom (canisterId : List UInt8) : Except HttpRequestError CanisterId :=
  match PrincipalId.tryFrom canisterId with
  | some p => .ok p
  | none => .error (.invalidPrincipalId
      ("Converting canister_id to PrincipalId failed with " ++ canisterIdErrorDebug))

theorem bytes_of_senderFrom {sender : List UInt8} {p : UserId} (h : senderFrom sender = .ok p) :
    p.bytes = sender := by
  unfold senderFrom at h
  split at h
  · rename_i q hq
    cases h
    exact PrincipalId.bytes_of_tryFrom hq
  · cases h

theorem bytes_of_canisterIdFrom {canisterId : List UInt8} {p : CanisterId}
    (h : canisterIdFrom canisterId = .ok p) : p.bytes = canisterId := by
  unfold canisterIdFrom at h
  split at h
  · rename_i q hq
    cases h
    exact PrincipalId.bytes_of_tryFrom hq
  · cases h

/-- The value of `"paths"`: an array of paths, each an array of its labels' bytes. -/
def pathsVal (paths : List Path) : RawHttpRequestVal :=
  .array (paths.map fun p => .array (p.map .bytes))

section Requests

variable (sha256 : List UInt8 → Digest)

/-! ## Update calls -/

/-- `HttpCanisterUpdate`, its blobs as bytes. -/
structure HttpCanisterUpdate where
  canisterId : List UInt8
  methodName : String
  arg : List UInt8
  sender : List UInt8
  ingressExpiry : UInt64
  nonce : Option (List UInt8)

/-- The map of `HttpCanisterUpdate::representation_independent_hash`. -/
def HttpCanisterUpdate.contentMap (u : HttpCanisterUpdate) : SortedMap String RawHttpRequestVal :=
  requestMap [("request_type", .string "call"), ("canister_id", .bytes u.canisterId),
    ("method_name", .string u.methodName), ("arg", .bytes u.arg),
    ("ingress_expiry", .u64 u.ingressExpiry), ("sender", .bytes u.sender)] u.nonce

/-- `HttpCanisterUpdate::representation_independent_hash`. -/
def HttpCanisterUpdate.representationIndependentHash (u : HttpCanisterUpdate) :
    Except String Digest :=
  hashOfMap sha256 u.contentMap

/-- `HttpCanisterUpdate::id`. -/
def HttpCanisterUpdate.id (u : HttpCanisterUpdate) : Except String MessageId :=
  Digest.toMessageId <$> u.representationIndependentHash sha256

/-- `SignedIngressContent`. -/
structure SignedIngressContent where
  sender : UserId
  canisterId : CanisterId
  methodName : String
  arg : List UInt8
  ingressExpiry : UInt64
  nonce : Option (List UInt8)

/-- The map of `SignedIngressContent::id`. -/
def SignedIngressContent.contentMap (c : SignedIngressContent) :
    SortedMap String RawHttpRequestVal :=
  requestMap [("request_type", .string "call"), ("canister_id", .bytes c.canisterId.bytes),
    ("method_name", .string c.methodName), ("arg", .bytes c.arg),
    ("ingress_expiry", .u64 c.ingressExpiry), ("sender", .bytes c.sender.bytes)] c.nonce

/-- `SignedIngressContent::id`. -/
def SignedIngressContent.id (c : SignedIngressContent) : Except String MessageId :=
  Digest.toMessageId <$> hashOfMap sha256 c.contentMap

/-- `SignedIngressContent::try_from(HttpCanisterUpdate)`. -/
def SignedIngressContent.tryFrom (update : HttpCanisterUpdate) :
    Except HttpRequestError SignedIngressContent := do
  let sender ← senderFrom update.sender
  let canisterId ← canisterIdFrom update.canisterId
  pure ⟨sender, canisterId, update.methodName, update.arg, update.ingressExpiry, update.nonce⟩

/-! ## Queries -/

/-- `HttpUserQuery`, its blobs as bytes. -/
structure HttpUserQuery where
  canisterId : List UInt8
  methodName : String
  arg : List UInt8
  sender : List UInt8
  ingressExpiry : UInt64
  nonce : Option (List UInt8)

/-- The map of `HttpUserQuery::representation_independent_hash`. -/
def HttpUserQuery.contentMap (q : HttpUserQuery) : SortedMap String RawHttpRequestVal :=
  requestMap [("request_type", .string "query"), ("canister_id", .bytes q.canisterId),
    ("method_name", .string q.methodName), ("arg", .bytes q.arg),
    ("ingress_expiry", .u64 q.ingressExpiry), ("sender", .bytes q.sender)] q.nonce

/-- `HttpUserQuery::representation_independent_hash`. -/
def HttpUserQuery.representationIndependentHash (q : HttpUserQuery) : Except String Digest :=
  hashOfMap sha256 q.contentMap

/-- `HttpQueryContent::Query { query }`. -/
structure HttpQueryContent where
  query : HttpUserQuery

/-- `HttpQueryContent::id`. -/
def HttpQueryContent.id (content : HttpQueryContent) : Except String MessageId :=
  Digest.toMessageId <$> content.query.representationIndependentHash sha256

/-- `UserQuery`. -/
structure UserQuery where
  source : UserId
  receiver : CanisterId
  methodName : String
  methodPayload : List UInt8
  ingressExpiry : UInt64
  nonce : Option (List UInt8)

/-- The map of `UserQuery::id`. -/
def UserQuery.contentMap (c : UserQuery) : SortedMap String RawHttpRequestVal :=
  requestMap [("request_type", .string "query"), ("canister_id", .bytes c.receiver.bytes),
    ("method_name", .string c.methodName), ("arg", .bytes c.methodPayload),
    ("ingress_expiry", .u64 c.ingressExpiry), ("sender", .bytes c.source.bytes)] c.nonce

/-- `UserQuery::id`. -/
def UserQuery.id (c : UserQuery) : Except String MessageId :=
  Digest.toMessageId <$> hashOfMap sha256 c.contentMap

/-- `UserQuery::try_from(HttpUserQuery)`. -/
def UserQuery.tryFrom (query : HttpUserQuery) : Except HttpRequestError UserQuery := do
  let source ← senderFrom query.sender
  let receiver ← canisterIdFrom query.canisterId
  pure ⟨source, receiver, query.methodName, query.arg, query.ingressExpiry, query.nonce⟩

/-! ## read_state requests -/

/-- `HttpReadState`, its blobs as bytes. -/
structure HttpReadState where
  sender : List UInt8
  paths : List Path
  nonce : Option (List UInt8)
  ingressExpiry : UInt64

/-- The map of `HttpReadState::representation_independent_hash`. -/
def HttpReadState.contentMap (r : HttpReadState) : SortedMap String RawHttpRequestVal :=
  requestMap [("request_type", .string "read_state"), ("ingress_expiry", .u64 r.ingressExpiry),
    ("paths", pathsVal r.paths), ("sender", .bytes r.sender)] r.nonce

/-- `HttpReadState::representation_independent_hash`. -/
def HttpReadState.representationIndependentHash (r : HttpReadState) : Except String Digest :=
  hashOfMap sha256 r.contentMap

/-- `HttpReadStateContent::ReadState { read_state }`. -/
structure HttpReadStateContent where
  readState : HttpReadState

/-- `HttpReadStateContent::id`. -/
def HttpReadStateContent.id (content : HttpReadStateContent) : Except String MessageId :=
  Digest.toMessageId <$> content.readState.representationIndependentHash sha256

/-- `ReadState`. -/
structure ReadState where
  source : UserId
  paths : List Path
  ingressExpiry : UInt64
  nonce : Option (List UInt8)

/-- The map of `ReadState::id`. -/
def ReadState.contentMap (c : ReadState) : SortedMap String RawHttpRequestVal :=
  requestMap [("request_type", .string "read_state"), ("ingress_expiry", .u64 c.ingressExpiry),
    ("paths", pathsVal c.paths), ("sender", .bytes c.source.bytes)] c.nonce

/-- `ReadState::id`. -/
def ReadState.id (c : ReadState) : Except String MessageId :=
  Digest.toMessageId <$> hashOfMap sha256 c.contentMap

/-- `ReadState::try_from(HttpReadState)`. -/
def ReadState.tryFrom (readState : HttpReadState) : Except HttpRequestError ReadState := do
  let source ← senderFrom readState.sender
  pure ⟨source, readState.paths, readState.ingressExpiry, readState.nonce⟩

/-! ## The converted requests hash the same maps -/

theorem SignedIngressContent.contentMap_tryFrom {u : HttpCanisterUpdate}
    {c : SignedIngressContent} (h : SignedIngressContent.tryFrom u = .ok c) :
    c.contentMap = u.contentMap := by
  obtain ⟨sender, hsender, h⟩ := Except.bind_eq_ok.mp h
  obtain ⟨canisterId, hcanisterId, h⟩ := Except.bind_eq_ok.mp h
  cases Except.pure_eq_ok.mp h
  rw [SignedIngressContent.contentMap, HttpCanisterUpdate.contentMap,
    bytes_of_senderFrom hsender, bytes_of_canisterIdFrom hcanisterId]

theorem UserQuery.contentMap_tryFrom {q : HttpUserQuery} {c : UserQuery}
    (h : UserQuery.tryFrom q = .ok c) : c.contentMap = q.contentMap := by
  obtain ⟨source, hsource, h⟩ := Except.bind_eq_ok.mp h
  obtain ⟨receiver, hreceiver, h⟩ := Except.bind_eq_ok.mp h
  cases Except.pure_eq_ok.mp h
  rw [UserQuery.contentMap, HttpUserQuery.contentMap,
    bytes_of_senderFrom hsource, bytes_of_canisterIdFrom hreceiver]

theorem ReadState.contentMap_tryFrom {r : HttpReadState} {c : ReadState}
    (h : ReadState.tryFrom r = .ok c) : c.contentMap = r.contentMap := by
  obtain ⟨source, hsource, h⟩ := Except.bind_eq_ok.mp h
  cases Except.pure_eq_ok.mp h
  rw [ReadState.contentMap, HttpReadState.contentMap, bytes_of_senderFrom hsource]

theorem SignedIngressContent.id_tryFrom {u : HttpCanisterUpdate} {c : SignedIngressContent}
    (h : SignedIngressContent.tryFrom u = .ok c) : c.id sha256 = u.id sha256 := by
  rw [SignedIngressContent.id, HttpCanisterUpdate.id,
    HttpCanisterUpdate.representationIndependentHash, SignedIngressContent.contentMap_tryFrom h]

theorem UserQuery.id_tryFrom {q : HttpUserQuery} {c : UserQuery}
    (h : UserQuery.tryFrom q = .ok c) : c.id sha256 = (HttpQueryContent.mk q).id sha256 := by
  rw [UserQuery.id, HttpQueryContent.id, HttpUserQuery.representationIndependentHash,
    UserQuery.contentMap_tryFrom h]

theorem ReadState.id_tryFrom {r : HttpReadState} {c : ReadState}
    (h : ReadState.tryFrom r = .ok c) : c.id sha256 = (HttpReadStateContent.mk r).id sha256 := by
  rw [ReadState.id, HttpReadStateContent.id, HttpReadState.representationIndependentHash,
    ReadState.contentMap_tryFrom h]

/-! ## Request ids -/

/-- **Request ids are representation-independent**: `hash_val` hashes numbers by their shortest
LEB128, `hash_of_map` sorts the entries' hashes, and `try_from` keeps the HTTP request's id. -/
theorem requestId_representation_independent :
    (∀ v, hashVal sha256 v = .ok (valueHash sha256 v)) ∧
    (∀ n : UInt64, (Bytes.leb128 n.toNat).length ≤ 10 ∧
      (∀ b ∈ (Bytes.leb128 n.toNat).dropLast, 0x80 ≤ b.toNat) ∧
      (∃ b, (Bytes.leb128 n.toNat).getLast? = some b ∧ b.toNat < 0x80 ∧ (b.toNat = 0 → n = 0)) ∧
      Bytes.ofLeb128 (Bytes.leb128 n.toNat) = n.toNat) ∧
    (∀ (map : SortedMap String RawHttpRequestVal) (l : List (List UInt8)),
      l.Perm (map.entries.map (entryHash sha256)) → l.Pairwise (· ≤ ·) →
      hashOfMap sha256 map = .ok (sha256 l.flatten)) ∧
    (∀ map : SortedMap String RawHttpRequestVal,
      (∀ k₁ ∈ map.keys, ∀ k₂ ∈ map.keys, hashString sha256 k₁ = hashString sha256 k₂ →
        k₁ = k₂) →
      hashOfMap sha256 map = .ok (specHashOfMap sha256 map)) ∧
    (∀ u c, SignedIngressContent.tryFrom u = .ok c → c.id sha256 = u.id sha256) ∧
    (∀ q c, UserQuery.tryFrom q = .ok c → c.id sha256 = (HttpQueryContent.mk q).id sha256) ∧
    (∀ r c, ReadState.tryFrom r = .ok c →
      c.id sha256 = (HttpReadStateContent.mk r).id sha256) ∧
    (∀ u : HttpCanisterUpdate, u.contentMap.get? "nonce" = u.nonce.map .bytes) ∧
    (∀ c : SignedIngressContent, c.contentMap.get? "nonce" = c.nonce.map .bytes) ∧
    (∀ q : HttpUserQuery, q.contentMap.get? "nonce" = q.nonce.map .bytes) ∧
    (∀ c : UserQuery, c.contentMap.get? "nonce" = c.nonce.map .bytes) ∧
    (∀ r : HttpReadState, r.contentMap.get? "nonce" = r.nonce.map .bytes) ∧
    (∀ c : ReadState, c.contentMap.get? "nonce" = c.nonce.map .bytes) := by
  have hleb : ∀ n : UInt64, ∃ b, (Bytes.leb128 n.toNat).getLast? = some b ∧ b.toNat < 0x80 ∧
      (b.toNat = 0 → n = 0) := by
    intro n
    obtain ⟨b, hb, hlt, hzero⟩ := Bytes.leb128_getLast? n.toNat
    exact ⟨b, hb, hlt, fun h0 => UInt64.toNat_inj.mp (hzero h0)⟩
  refine ⟨hashVal_eq_ok sha256, fun n => ⟨length_leb128_toNat_le n,
      Bytes.leb128_dropLast_high _, hleb n, Bytes.ofLeb128_leb128 _⟩,
    hashOfMap_eq_ok sha256, hashOfMap_eq_specHashOfMap sha256,
    fun _ _ h => SignedIngressContent.id_tryFrom sha256 h, fun _ _ h => UserQuery.id_tryFrom sha256 h,
    fun _ _ h => ReadState.id_tryFrom sha256 h, ?_, ?_, ?_, ?_, ?_, ?_⟩
  -- no request has a field of its own named "nonce"
  all_goals intro x; exact get?_nonce_requestMap (by simp) x.nonce

end Requests

/-- A digest of the length of its input. -/
def lengthDigest (bytes : List UInt8) : Digest :=
  ⟨List.replicate 31 0 ++ [UInt8.ofNat bytes.length], by simp⟩

/-- The ids at small requests, with digests of lengths: a map of two fields, an update call with
an empty nonce, a query, and a `read_state` of `["time"]`. -/
theorem requestId_representation_independent_at_small_requests :
    let map := requestMap [("arg", .bytes [1]), ("sender", .bytes [4])] none
    let l := (map.entries.map (entryHash lengthDigest)).insertionSort (· ≤ ·)
    let u : HttpCanisterUpdate := ⟨[1], "greet", [], [4], 5, some []⟩
    let q : HttpUserQuery := ⟨[1], "greet", [], [4], 5, none⟩
    let r : HttpReadState := ⟨[4], [[[116, 105, 109, 101]]], none, 5⟩
    (l.Perm (map.entries.map (entryHash lengthDigest)) ∧ l.Pairwise (· ≤ ·) ∧
      hashOfMap lengthDigest map = .ok (lengthDigest l.flatten)) ∧
    ((∀ k₁ ∈ map.keys, ∀ k₂ ∈ map.keys,
        hashString lengthDigest k₁ = hashString lengthDigest k₂ → k₁ = k₂) ∧
      hashOfMap lengthDigest map = .ok (specHashOfMap lengthDigest map)) ∧
    (∃ c, SignedIngressContent.tryFrom u = .ok c ∧ c.id lengthDigest = u.id lengthDigest) ∧
    (∃ c, UserQuery.tryFrom q = .ok c ∧
      c.id lengthDigest = (HttpQueryContent.mk q).id lengthDigest) ∧
    (∃ c, ReadState.tryFrom r = .ok c ∧
      c.id lengthDigest = (HttpReadStateContent.mk r).id lengthDigest) := by
  intro map l u q r
  have h := requestId_representation_independent lengthDigest
  have hperm : l.Perm (map.entries.map (entryHash lengthDigest)) := List.perm_insertionSort _ _
  have hsorted : l.Pairwise (· ≤ ·) := List.pairwise_insertionSort _ _
  have hinj : ∀ k₁ ∈ map.keys, ∀ k₂ ∈ map.keys,
      hashString lengthDigest k₁ = hashString lengthDigest k₂ → k₁ = k₂ := by decide
  have hu : SignedIngressContent.tryFrom u =
      .ok ⟨⟨[4], by decide⟩, ⟨[1], by decide⟩, "greet", [], 5, some []⟩ := rfl
  have hq : UserQuery.tryFrom q = .ok ⟨⟨[4], by decide⟩, ⟨[1], by decide⟩, "greet", [], 5, none⟩ :=
    rfl
  have hr : ReadState.tryFrom r = .ok ⟨⟨[4], by decide⟩, [[[116, 105, 109, 101]]], 5, none⟩ := rfl
  exact ⟨⟨hperm, hsorted, h.2.2.1 map l hperm hsorted⟩, ⟨hinj, h.2.2.2.1 map hinj⟩,
    ⟨_, hu, h.2.2.2.2.1 u _ hu⟩, ⟨_, hq, h.2.2.2.2.2.1 q _ hq⟩, ⟨_, hr, h.2.2.2.2.2.2.1 r _ hr⟩⟩

end IC.Messages
