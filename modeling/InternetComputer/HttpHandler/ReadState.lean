import InternetComputer.CanonicalState.Conversion

/-!
# The read_state handler

`ReadStateService::call`: the requested paths and `["time"]` are made into a sparse tree,
`verify_paths` checks the caller against the latest state, and the certificate shows the paths in
the certified state, which is older. The envelope and signature checks are given as the caller.

* **`verifyPaths_eq_ok`**: a passing check saw only allowed paths, each authorized;
* **`readState_leafPaths`**: every path of the certificate extends a requested path or `["time"]`;
* `mem_requestStatus_of_readState`.
-/

namespace IC.HttpHandler

open IC.TreeHash IC.State IC.CanonicalState

/-- The label of an ASCII text. -/
abbrev lbl (s : String) : Label := Label.ofString s

/-- The status codes of the handler's plain-text responses. -/
inductive StatusCode where
  | badRequest
  | forbidden
  | notFound
  | tooManyRequests
  | serviceUnavailable
  deriving DecidableEq, Repr

/-- `HttpError`: a status code and a message. -/
structure HttpError where
  status : StatusCode
  message : String

/-- `MAX_READ_STATE_REQUEST_IDS`. -/
def maxReadStateRequestIds : ℕ := 100

/-- The `Display` text of candid's `PrincipalError::BufferTooLong`. -/
def bufferTooLongText : String := "Buffer is too long."

/-! ## verify_paths -/

/-- `can_read_canister_metadata`; a private section is read by a controller only. -/
def canReadCanisterMetadata (user : UserId) (canisterId : CanisterId)
    (customSectionName : RustString) (state : ReplicatedState) : Except HttpError Unit :=
  match state.canisterStates.get? canisterId with
  | none => .error ⟨.notFound, "Canister " ++ canisterId.toText ++ " not found."⟩
  | some canister =>
    match canister.executionState with
    | none => .error ⟨.notFound, "Canister " ++ canisterId.toText ++ " has no module."⟩
    | some es =>
      match es.customSections.get? customSectionName with
      | none => .error ⟨.notFound,
          "Custom section " ++ customSectionName.toString ++ " not found."⟩
      | some customSection =>
        if customSection.visibility = .privateSection ∧
            user ∉ canister.systemState.controllers then
          .error ⟨.forbidden, "Custom section " ++ customSectionName.toString ++
            " can only be requested by the controllers of the canister."⟩
        else .ok ()

/-- The arms of the match in `verify_paths`, by the labels that decide them. -/
inductive PathKind where
  | time
  | canisterField
  | canisterMetadata (canisterId name : Label)
  | subnet
  | subnetField
  | requestStatus (requestId : Label)
  | invalid

/-- Which arm of `verify_paths` a path takes. -/
def pathKind : Path → PathKind
  | [l] => if l = lbl "time" then .time else if l = lbl "subnet" then .subnet else .invalid
  | [l₁, l₂, l₃] =>
    if l₁ = lbl "canister" ∧
        (l₃ = lbl "controller" ∨ l₃ = lbl "controllers" ∨ l₃ = lbl "module_hash") then
      .canisterField
    else if l₁ = lbl "subnet" ∧ (l₃ = lbl "public_key" ∨ l₃ = lbl "canister_ranges") then
      .subnetField
    else if l₁ = lbl "request_status" then .requestStatus l₂
    else .invalid
  | [l₁, l₂, l₃, l₄] =>
    if l₁ = lbl "canister" ∧ l₃ = lbl "metadata" then .canisterMetadata l₂ l₄
    else if l₁ = lbl "request_status" then .requestStatus l₂
    else .invalid
  | l₁ :: l₂ :: _ => if l₁ = lbl "request_status" then .requestStatus l₂ else .invalid
  | [] => .invalid

/-- The arm of a request id: the count checked, and a known request must be the caller's. -/
def verifyRequestId (state : ReplicatedState) (user : UserId) (targets : List CanisterId)
    (numRequestIds : ℕ) (requestId : Label) : Except HttpError ℕ :=
  let numRequestIds := numRequestIds + 1
  if maxReadStateRequestIds < numRequestIds then
    .error ⟨.tooManyRequests, "Can only request up to " ++ Nat.repr maxReadStateRequestIds ++
      " request IDs."⟩
  else
    match MessageId.tryFrom requestId with
    | some messageId =>
      let ingressStatus := state.getIngressStatus messageId
      match ingressStatus.userId?, ingressStatus.receiver? with
      | some ingressUserId, some receiver =>
        if ingressUserId ≠ user ∨ receiver ∉ targets then
          .error ⟨.forbidden, "Request IDs must be for requests signed by the caller."⟩
        else .ok numRequestIds
      | _, _ => .ok numRequestIds
    | none => .error ⟨.badRequest, "Request IDs must be " ++ Nat.repr MessageId.expectedLength ++
        " bytes in length."⟩

/-- The arm of a custom section: a name in UTF-8, a canister id, and the metadata check. -/
def verifyMetadataPath (state : ReplicatedState) (user : UserId) (canisterId name : Label) :
    Except HttpError Unit :=
  match RustString.fromUtf8 name with
  | .error err => .error ⟨.badRequest,
      "Could not parse the custom section name: " ++ err.toString ++ "."⟩
  | .ok name =>
    match PrincipalId.tryFrom canisterId with
    | some canisterId => canReadCanisterMetadata user canisterId name state
    | none => .error ⟨.badRequest,
        "Could not parse Canister ID: Could not parse principal: " ++ bufferTooLongText ++ "."⟩

/-- One path of `verify_paths`, with the number of request ids so far. -/
def verifyPath (state : ReplicatedState) (user : UserId) (targets : List CanisterId)
    (numRequestIds : ℕ) (path : Path) : Except HttpError ℕ :=
  match pathKind path with
  | .time | .canisterField | .subnet | .subnetField => .ok numRequestIds
  | .canisterMetadata canisterId name =>
    (verifyMetadataPath state user canisterId name).map fun () => numRequestIds
  | .requestStatus requestId => verifyRequestId state user targets numRequestIds requestId
  | .invalid => .error ⟨.notFound, "Invalid path requested."⟩

/-- `verify_paths`: every path, in order, against the state. -/
def verifyPaths (state : ReplicatedState) (user : UserId) (paths : List Path)
    (targets : List CanisterId) : Except HttpError Unit :=
  (paths.foldlM (verifyPath state user targets) 0).map fun _ => ()

/-! ## The handler -/

/-- The response: a plain-text error, or a certificate of a tree. -/
inductive ReadStateResponse where
  | plaintext (status : StatusCode) (message : String)
  | certificate (tree : LabeledTree (List UInt8))

/-- `ReadStateService::call` after validation: the paths verified, the tree certified. -/
def readState (enc : Encoding) (healthy : Bool) (latest : ReplicatedState)
    (certified : Option ReplicatedState) (user : UserId) (targets : List CanisterId)
    (paths : List Path) : Except String ReadStateResponse :=
  if !healthy then
    .ok (.plaintext .serviceUnavailable
      "Replica is starting. Check the /api/v2/status for more information.")
  else do
    let labeledTree ← sparseLabeledTreeFromPaths (paths ++ [[lbl "time"]])
    match verifyPaths latest user paths targets with
    | .error e => pure (.plaintext e.status e.message)
    | .ok () =>
      match certified.bind fun state => (stateAsTree enc state).materializePartial labeledTree with
      | some tree => pure (.certificate tree)
      | none => pure (.plaintext .serviceUnavailable
          "Certified state is not available yet. Please try again...")

/-! ## What a passed check says -/

/-- A request id's status is the caller's, to one of its targets, or has no user and receiver. -/
def RequestAuthorized (state : ReplicatedState) (user : UserId) (targets : List CanisterId)
    (messageId : MessageId) : Prop :=
  ∀ u r, (state.getIngressStatus messageId).userId? = some u →
    (state.getIngressStatus messageId).receiver? = some r → u = user ∧ r ∈ targets

/-- The custom section exists in the canister's module, and is public or read by a controller. -/
def MetadataReadable (state : ReplicatedState) (user : UserId) (canisterId : CanisterId)
    (name : RustString) : Prop :=
  ∃ canister es customSection, state.canisterStates.get? canisterId = some canister ∧
    canister.executionState = some es ∧ es.customSections.get? name = some customSection ∧
    (customSection.visibility = .publicSection ∨ user ∈ canister.systemState.controllers)

/-- What the check of a path that passes says of the state it checks. -/
def PathAuthorized (state : ReplicatedState) (user : UserId) (targets : List CanisterId)
    (path : Path) : Prop :=
  match pathKind path with
  | .invalid => False
  | .requestStatus requestId =>
    ∃ m, MessageId.tryFrom requestId = some m ∧ RequestAuthorized state user targets m
  | .canisterMetadata canisterId name =>
    ∃ c s, PrincipalId.tryFrom canisterId = some c ∧ RustString.fromUtf8 name = .ok s ∧
      MetadataReadable state user c s
  | _ => True

/-- The paths of request ids. -/
def isRequestStatusPath (path : Path) : Bool :=
  match pathKind path with
  | .requestStatus _ => true
  | _ => false

theorem canReadCanisterMetadata_eq_ok {user : UserId} {canisterId : CanisterId}
    {name : RustString} {state : ReplicatedState}
    (h : canReadCanisterMetadata user canisterId name state = .ok ()) :
    MetadataReadable state user canisterId name := by
  unfold canReadCanisterMetadata at h
  split at h
  · cases h
  · rename_i canister hcanister
    split at h
    · cases h
    · rename_i es hes
      split at h
      · cases h
      · rename_i customSection hsection
        split_ifs at h with hprivate
        refine ⟨canister, es, customSection, hcanister, hes, hsection, ?_⟩
        -- a section that is not private is public
        by_cases hvis : customSection.visibility = .privateSection
        · exact Or.inr (by simpa using (not_and.mp hprivate) hvis)
        · left
          cases hv : customSection.visibility
          · rfl
          · exact absurd hv hvis

theorem verifyRequestId_eq_ok {state : ReplicatedState} {user : UserId}
    {targets : List CanisterId} {n n' : ℕ} {requestId : Label}
    (h : verifyRequestId state user targets n requestId = .ok n') :
    n' = n + 1 ∧ n' ≤ maxReadStateRequestIds ∧
      ∃ m, MessageId.tryFrom requestId = some m ∧ RequestAuthorized state user targets m := by
  unfold verifyRequestId at h
  dsimp only at h
  split_ifs at h with hmax
  split at h
  · rename_i m hm
    -- the status has a user and a receiver, which are checked, or it has none
    refine ⟨?_, ?_, m, hm, fun u r hu hr => ?_⟩
    · split at h
      · split_ifs at h
        exact (Except.ok.inj h).symm
      · exact (Except.ok.inj h).symm
    · split at h
      · split_ifs at h
        exact (Except.ok.inj h) ▸ Nat.le_of_not_lt hmax
      · exact (Except.ok.inj h) ▸ Nat.le_of_not_lt hmax
    · split at h
      · rename_i u' r' hu' hr'
        split_ifs at h with hcheck
        rw [hu] at hu'
        rw [hr] at hr'
        cases hu'
        cases hr'
        push Not at hcheck
        exact hcheck
      · rename_i hnone
        exact (hnone u r hu hr).elim
  · cases h

theorem verifyMetadataPath_eq_ok {state : ReplicatedState} {user : UserId}
    {canisterId name : Label} (h : verifyMetadataPath state user canisterId name = .ok ()) :
    ∃ c s, PrincipalId.tryFrom canisterId = some c ∧ RustString.fromUtf8 name = .ok s ∧
      MetadataReadable state user c s := by
  unfold verifyMetadataPath at h
  split at h
  · cases h
  · rename_i s hs
    split at h
    · rename_i c hc
      exact ⟨c, s, hc, hs, canReadCanisterMetadata_eq_ok h⟩
    · cases h

theorem verifyPath_eq_ok {state : ReplicatedState} {user : UserId} {targets : List CanisterId}
    {n n' : ℕ} {path : Path} (h : verifyPath state user targets n path = .ok n') :
    PathAuthorized state user targets path ∧
      n' = n + (if isRequestStatusPath path then 1 else 0) ∧
      (isRequestStatusPath path = true → n' ≤ maxReadStateRequestIds) := by
  unfold PathAuthorized isRequestStatusPath
  cases hkind : pathKind path with
  | time | canisterField | subnet | subnetField =>
    simp only [verifyPath, hkind, Except.ok.injEq] at h
    exact ⟨trivial, by simp [h], fun h => nomatch h⟩
  | canisterMetadata canisterId name =>
    simp only [verifyPath, hkind] at h
    obtain ⟨⟨⟩, hcheck, rfl⟩ := Except.map_eq_ok.mp h
    exact ⟨verifyMetadataPath_eq_ok hcheck, rfl, fun h => nomatch h⟩
  | requestStatus requestId =>
    simp only [verifyPath, hkind] at h
    obtain ⟨rfl, hle, hauth⟩ := verifyRequestId_eq_ok h
    exact ⟨hauth, rfl, fun _ => hle⟩
  | invalid =>
    simp only [verifyPath, hkind] at h
    cases h

theorem foldlM_verifyPath_eq_ok {state : ReplicatedState} {user : UserId}
    {targets : List CanisterId} :
    ∀ (paths : List Path) {n n' : ℕ}, paths.foldlM (verifyPath state user targets) n = .ok n' →
      (∀ p ∈ paths, PathAuthorized state user targets p) ∧
        n' = n + (paths.filter isRequestStatusPath).length ∧
        (n ≤ maxReadStateRequestIds → n' ≤ maxReadStateRequestIds)
  | [], n, n', h => by
    rw [List.foldlM_nil, Except.pure_eq_ok] at h
    subst h
    exact ⟨fun _ hp => absurd hp List.not_mem_nil, rfl, id⟩
  | p :: paths, n, n', h => by
    rw [List.foldlM_cons] at h
    obtain ⟨n₁, hp, hrest⟩ := Except.bind_eq_ok.mp h
    obtain ⟨hauth, hn₁, hbound⟩ := verifyPath_eq_ok hp
    obtain ⟨hauths, hn', hbound'⟩ := foldlM_verifyPath_eq_ok paths hrest
    refine ⟨fun q hq => ?_, ?_, fun hn => hbound' ?_⟩
    · rcases List.mem_cons.mp hq with rfl | hq
      · exact hauth
      · exact hauths q hq
    · rw [hn', hn₁, List.filter_cons]
      by_cases hrs : isRequestStatusPath p = true
      · rw [if_pos hrs, if_pos hrs, List.length_cons]
        omega
      · rw [if_neg hrs, if_neg hrs, Nat.add_zero]
    · -- a request id is checked against the bound, another path keeps the count
      by_cases hrs : isRequestStatusPath p = true
      · exact hbound hrs
      · rw [hn₁, if_neg hrs, Nat.add_zero]
        exact hn

theorem verifyPaths_eq_ok {state : ReplicatedState} {user : UserId} {paths : List Path}
    {targets : List CanisterId} (h : verifyPaths state user paths targets = .ok ()) :
    (∀ p ∈ paths, PathAuthorized state user targets p) ∧
      (paths.filter isRequestStatusPath).length ≤ maxReadStateRequestIds := by
  obtain ⟨n', hfold, -⟩ := Except.map_eq_ok.mp h
  obtain ⟨hauth, hn', hbound⟩ := foldlM_verifyPath_eq_ok paths hfold
  refine ⟨hauth, ?_⟩
  rw [Nat.zero_add] at hn'
  exact hn' ▸ hbound (Nat.zero_le _)

/-! ## What a certificate shows -/

section Certificate

variable {enc : Encoding} {healthy : Bool} {latest : ReplicatedState}
  {certified : Option ReplicatedState} {user : UserId} {targets : List CanisterId}
  {paths : List Path} {tree : LabeledTree (List UInt8)}

theorem readState_eq_certificate
    (h : readState enc healthy latest certified user targets paths = .ok (.certificate tree)) :
    ∃ labeledTree state, sparseLabeledTreeFromPaths (paths ++ [[lbl "time"]]) = .ok labeledTree ∧
      verifyPaths latest user paths targets = .ok () ∧ certified = some state ∧
      (stateAsTree enc state).materializePartial labeledTree = some tree := by
  unfold readState at h
  split_ifs at h
  · cases h
  obtain ⟨labeledTree, hsparse, h⟩ := Except.bind_eq_ok.mp h
  split at h
  · cases h
  · rename_i hverify
    split at h
    · rename_i tree' htree
      cases h
      obtain ⟨state, hstate, hmat⟩ := Option.bind_eq_some_iff.mp htree
      exact ⟨labeledTree, state, hsparse, hverify, hstate, hmat⟩
    · cases h

/-- Every path of a certificate extends `["time"]` or a path the check let through. -/
theorem readState_leafPaths
    (h : readState enc healthy latest certified user targets paths = .ok (.certificate tree)) :
    ∀ q ∈ tree.leafPaths, [lbl "time"] <+: q ∨
      ∃ p ∈ paths, p <+: q ∧ PathAuthorized latest user targets p := by
  obtain ⟨labeledTree, state, hsparse, hverify, -, hmat⟩ := readState_eq_certificate h
  have hauth := (verifyPaths_eq_ok hverify).1
  intro q hq
  obtain ⟨p, hp, hpre⟩ := LazyTree.materializePartial_prefix hmat q hq
  have hp' := mem_leafPaths_sparseLabeledTreeFromPaths hsparse
    ⟨[lbl "time"], List.mem_append_right _ (List.mem_singleton_self _), List.cons_ne_nil _ _⟩ p hp
  rcases List.mem_append.mp hp' with hp' | hp'
  · exact Or.inr ⟨p, hp', hpre, hauth p hp'⟩
  · rw [List.mem_singleton.mp hp'] at hpre
    exact Or.inl hpre

theorem pathKind_requestStatus (requestId : Label) :
    ∀ rest : Path, pathKind (lbl "request_status" :: requestId :: rest) = .requestStatus requestId
  | [] => by simp [pathKind]
  | [l₃] => by simp +decide [pathKind]
  | [l₃, l₄] => by simp +decide [pathKind]
  | _ :: _ :: _ :: _ => by simp [pathKind]

/-- A request status a certificate shows was requested and passed its check. -/
theorem mem_requestStatus_of_readState
    (h : readState enc healthy latest certified user targets paths = .ok (.certificate tree))
    {requestId : Label} {rest : Path}
    (hq : lbl "request_status" :: requestId :: rest ∈ tree.leafPaths) :
    ∃ m, MessageId.tryFrom requestId = some m ∧ RequestAuthorized latest user targets m := by
  rcases readState_leafPaths h _ hq with htime | ⟨p, -, hpre, hauth⟩
  · exact absurd (List.cons_prefix_cons.mp htime).1 (by decide)
  · -- the requested path starts with the request id: a shorter one is not allowed
    match p, hpre, hauth with
    | [], _, hauth => exact absurd hauth (by simp [PathAuthorized, pathKind])
    | [l], hpre, hauth =>
      have hl : l = lbl "request_status" := (List.cons_prefix_cons.mp hpre).1
      subst hl
      exact absurd hauth (by simp +decide [PathAuthorized, pathKind])
    | l :: l₂ :: p', hpre, hauth =>
      have hl : l = lbl "request_status" := (List.cons_prefix_cons.mp hpre).1
      have hl₂ : l₂ = requestId := (List.cons_prefix_cons.mp (List.cons_prefix_cons.mp hpre).2).1
      subst hl hl₂
      unfold PathAuthorized at hauth
      rw [pathKind_requestStatus] at hauth
      exact hauth

end Certificate

/-! ## A status pruned in the latest state -/

/-- The request id `[7, …, 7]`. -/
def prunedRequest : MessageId := ⟨List.replicate 32 7, rfl⟩

/-- The canister `rrkah-fqaaa-aaaaa-aaaaq-cai`. -/
def receiverCanister : CanisterId := ⟨[0, 0, 0, 0, 0, 0, 0, 0, 1, 1], length_rrkahBytes_le⟩

theorem length_callerBytes_le : ([1] : List UInt8).length ≤ 29 := by decide

/-- The caller. -/
def callerUser : UserId := ⟨[1], length_callerBytes_le⟩

/-- The user who sent the request. -/
def senderUser : UserId := ⟨[2], by decide⟩

/-- The history after the sender's request completed with a reply, at time zero. -/
def historyWithReply : IngressHistoryState :=
  IngressHistoryState.empty.insert prunedRequest
    (.known receiverCanister senderUser 0 (.completed (.reply [42]))) 0

/-- The certified state, with that history. -/
def certifiedWithReply : ReplicatedState :=
  ⟨SortedMap.empty, { bareMetadata with ingressHistory := historyWithReply }, SortedMap.empty⟩

/-- The latest state: the certified one pruned past `MAX_INGRESS_TTL`. -/
def latestPruned : ReplicatedState := certifiedWithReply.pruneIngressHistory (maxIngressTtl + 1)

/-- The check runs on the latest state, where the sender's request is unknown, so another caller
passes it, and the certified state's certificate shows that request's status and reply. -/
theorem readState_reveals_pruned_status :
    latestPruned.getIngressStatus prunedRequest = .unknown ∧
      (certifiedWithReply.getIngressStatus prunedRequest).userId? = some senderUser ∧
      senderUser ≠ callerUser ∧
      ∃ tree, readState emptyEncoding true latestPruned (some certifiedWithReply) callerUser
          [receiverCanister] [[lbl "request_status", prunedRequest.bytes]] =
          .ok (.certificate tree) ∧
        [lbl "request_status", prunedRequest.bytes, lbl "status"] ∈ tree.leafPaths ∧
        [lbl "request_status", prunedRequest.bytes, lbl "reply"] ∈ tree.leafPaths :=
  ⟨rfl, rfl, by decide, _, rfl, by decide, by decide⟩

end IC.HttpHandler
