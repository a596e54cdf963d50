import InternetComputer.Lib.Bytes
import InternetComputer.Lib.Text
import InternetComputer.Lib.SortedMap
import InternetComputer.XNet.Stream

/-!
# The replicated state

The parts of `ReplicatedState` that the canonical state tree shows and that `read_state`
checks: principals and request ids, the ingress history with its statuses, the canisters with
their controllers and custom sections, the subnets, the streams and the batch time. Maps of the
source are `BTreeMap`s, kept here as `SortedMap`s in the order of their keys.

* `PrincipalId`, ordered as candid's derived order of `Principal { len, bytes: [u8; 29] }`:
  length first, then bytes (**`PrincipalId.lt_iff`**);
* `MessageId`, `IngressStatus`, `IngressHistoryState` with `insert` and `prune`
  (`get_insert`, `get_prune`);
* `CanisterState`, `ExecutionState`, `CustomSection`, `SystemMetadata`, `ReplicatedState`.
-/

namespace IC.State

/-! ## Principals -/

/-- `PrincipalId`: at most 29 bytes. -/
structure PrincipalId where
  bytes : List UInt8
  length_le : bytes.length ≤ 29
  deriving DecidableEq

namespace PrincipalId

/-- The layout of candid's `Principal`: the length, then the bytes padded to 29. -/
def key (p : PrincipalId) : List UInt8 :=
  UInt8.ofNat p.bytes.length :: (p.bytes ++ List.replicate (29 - p.bytes.length) 0)

theorem key_injective : Function.Injective key := by
  rintro ⟨a, ha⟩ ⟨b, hb⟩ h
  simp only [key, List.cons.injEq] at h
  obtain ⟨hlen, h⟩ := h
  have hlen' : a.length = b.length := by
    have := congrArg UInt8.toNat hlen
    simp at this
    omega
  rw [hlen'] at h
  simp only [PrincipalId.mk.injEq]
  exact List.append_inj_left' h rfl

instance : LinearOrder PrincipalId := LinearOrder.lift' key key_injective

theorem lt_iff {p q : PrincipalId} :
    p < q ↔ p.bytes.length < q.bytes.length ∨
      (p.bytes.length = q.bytes.length ∧ p.bytes < q.bytes) := by
  have hp := p.length_le
  have hq := q.length_le
  show key p < key q ↔ _
  simp only [key]
  have htoNat : ∀ {m : ℕ}, m ≤ 29 → (UInt8.ofNat m).toNat = m := fun {m} hm => by
    simp [Nat.mod_eq_of_lt (show m < 256 by omega)]
  have hlt : UInt8.ofNat p.bytes.length < UInt8.ofNat q.bytes.length ↔
      p.bytes.length < q.bytes.length := by
    rw [UInt8.lt_iff_toNat_lt, htoNat hp, htoNat hq]
  have heq : UInt8.ofNat p.bytes.length = UInt8.ofNat q.bytes.length ↔
      p.bytes.length = q.bytes.length := by
    rw [← UInt8.toNat_inj, htoNat hp, htoNat hq]
  rw [List.cons_lt_cons_iff, hlt, heq]
  -- at equal lengths the paddings agree, and the bytes decide
  constructor
  · rintro (h | ⟨hlen, h⟩)
    · exact Or.inl h
    · rw [hlen] at h
      exact Or.inr ⟨hlen, (List.append_lt_append_right_iff _ hlen).mp h⟩
  · rintro (h | ⟨hlen, h⟩)
    · exact Or.inl h
    · refine Or.inr ⟨hlen, ?_⟩
      rw [hlen]
      exact (List.append_lt_append_right_iff _ hlen).mpr h

/-- `PrincipalId::try_from(&[u8])`: a principal has at most 29 bytes. -/
def tryFrom (bytes : List UInt8) : Option PrincipalId :=
  if h : bytes.length ≤ 29 then some ⟨bytes, h⟩ else none

@[simp]
theorem tryFrom_bytes (p : PrincipalId) : tryFrom p.bytes = some p := by
  simp [tryFrom, p.length_le]

theorem bytes_of_tryFrom {bytes : List UInt8} {p : PrincipalId} (h : tryFrom bytes = some p) :
    p.bytes = bytes := by
  unfold tryFrom at h
  split_ifs at h
  exact (Option.some.inj h) ▸ rfl

/-- The textual form of candid's `Display`: CRC-32 and bytes in base32, in groups of five. -/
def toText (p : PrincipalId) : String :=
  String.ofList (groupsOf5 (base32 (Bytes.toBeBytes 4 (crc32 p.bytes).toNat ++ p.bytes)))

example : groupsOf5 (base32 (Bytes.toBeBytes 4 (crc32 [4]).toNat ++ [4])) =
    "2vxsx-fae".toList := by decide

/-- `impl Display for PrincipalId`: the textual form. -/
instance : ToString PrincipalId := ⟨toText⟩

end PrincipalId

/-- `CanisterId`, a principal. -/
abbrev CanisterId := PrincipalId

/-- `SubnetId`, a principal. -/
abbrev SubnetId := PrincipalId

/-- `UserId`, a principal. -/
abbrev UserId := PrincipalId

/-- `MessageId`: the 32 bytes of a request id. -/
structure MessageId where
  bytes : List UInt8
  length_eq : bytes.length = 32

/-- Request ids are equal when their bytes are. -/
instance : DecidableEq MessageId := fun a b =>
  decidable_of_iff (a.bytes = b.bytes) ⟨fun h => by cases a; cases b; cases h; rfl, congrArg MessageId.bytes⟩

namespace MessageId

theorem bytes_injective : Function.Injective bytes := by
  rintro ⟨a, ha⟩ ⟨b, hb⟩ h
  simp only [MessageId.mk.injEq]
  exact h

instance : LinearOrder MessageId := LinearOrder.lift' bytes bytes_injective

/-- `EXPECTED_MESSAGE_ID_LENGTH`. -/
def expectedLength : ℕ := 32

/-- `MessageId::try_from(&[u8])`: exactly 32 bytes. -/
def tryFrom (bytes : List UInt8) : Option MessageId :=
  if h : bytes.length = 32 then some ⟨bytes, h⟩ else none

@[simp]
theorem tryFrom_bytes (m : MessageId) : tryFrom m.bytes = some m := by
  simp [tryFrom, m.length_eq]

theorem bytes_of_tryFrom {bytes : List UInt8} {m : MessageId} (h : tryFrom bytes = some m) :
    m.bytes = bytes := by
  unfold tryFrom at h
  split_ifs at h
  exact (Option.some.inj h) ▸ rfl

end MessageId

/-! ## Ingress statuses -/

/-- `WasmResult`: a reply with its bytes, or a reject with its message. -/
inductive WasmResult where
  | reply (bytes : List UInt8)
  | reject (message : String)

/-- `UserError`, by the reject code its error code maps to and its description. -/
structure UserError where
  rejectCode : ℕ
  description : String

/-- `IngressState`. -/
inductive IngressState where
  | received
  | completed (result : WasmResult)
  | failed (error : UserError)
  | processing
  | done

/-- `Completed`, `Failed` and `Done` are terminal. -/
def IngressState.isTerminal : IngressState → Bool
  | .completed _ | .failed _ | .done => true
  | .received | .processing => false

/-- `IngressStatus`: a known message with its receiver, user, time and state, or `Unknown`. -/
inductive IngressStatus where
  | known (receiver : PrincipalId) (userId : UserId) (time : ℕ) (state : IngressState)
  | unknown

namespace IngressStatus

/-- `IngressStatus::user_id`. -/
def userId? : IngressStatus → Option UserId
  | .known _ userId _ _ => some userId
  | .unknown => none

/-- `IngressStatus::receiver`. -/
def receiver? : IngressStatus → Option CanisterId
  | .known receiver _ _ _ => some receiver
  | .unknown => none

/-- `IngressStatus::as_str`: the status name of the interface specification. -/
def asStr : IngressStatus → String
  | .known _ _ _ .received => "received"
  | .known _ _ _ (.completed (.reply _)) => "replied"
  | .known _ _ _ (.completed (.reject _)) => "rejected"
  | .known _ _ _ (.failed _) => "rejected"
  | .known _ _ _ .processing => "processing"
  | .known _ _ _ .done => "done"
  | .unknown => "unknown"

end IngressStatus

/-- `ic_constants::MAX_INGRESS_TTL`: five minutes, in nanoseconds. -/
def maxIngressTtl : ℕ := 5 * 60 * 10 ^ 9

/-- `IngressHistoryState`: the statuses by request id, and the pruning times. -/
structure IngressHistoryState where
  statuses : SortedMap MessageId IngressStatus
  pruningTimes : List (ℕ × MessageId)

namespace IngressHistoryState

/-- The empty history. -/
def empty : IngressHistoryState := ⟨SortedMap.empty, []⟩

/-- `ReplicatedState::get_ingress_status`: `Unknown` without an entry. -/
def get (h : IngressHistoryState) (id : MessageId) : IngressStatus :=
  (h.statuses.get? id).getD .unknown

/-- `IngressHistoryState::insert`, a terminal status pruned at `time + MAX_INGRESS_TTL`. -/
def insert (h : IngressHistoryState) (id : MessageId) (status : IngressStatus) (time : ℕ) :
    IngressHistoryState :=
  let pruningTimes :=
    match status with
    | .known _ _ _ state =>
      if state.isTerminal then h.pruningTimes ++ [(time + maxIngressTtl, id)] else h.pruningTimes
    | .unknown => h.pruningTimes
  ⟨h.statuses.insert id status, pruningTimes⟩

/-- `IngressHistoryState::prune`: the statuses enrolled before `time` are removed. -/
def prune (h : IngressHistoryState) (time : ℕ) : IngressHistoryState :=
  ⟨h.statuses.filter fun id _ =>
      !h.pruningTimes.any fun e => decide (e.1 < time) && decide (e.2 = id),
    h.pruningTimes.filter fun e => decide (time ≤ e.1)⟩

theorem get_insert (h : IngressHistoryState) (id : MessageId) (status : IngressStatus)
    (time : ℕ) (id' : MessageId) :
    (h.insert id status time).get id' = if id' = id then status else h.get id' := by
  simp only [get, insert, SortedMap.get?_insert]
  split_ifs <;> rfl

theorem get_prune_of_enrolled {h : IngressHistoryState} {time t : ℕ} {id : MessageId}
    (hmem : (t, id) ∈ h.pruningTimes) (ht : t < time) : (h.prune time).get id = .unknown := by
  have hany : (h.pruningTimes.any fun e => decide (e.1 < time) && decide (e.2 = id)) = true :=
    List.any_eq_true.mpr ⟨(t, id), hmem, by simp [ht]⟩
  simp only [get, prune, SortedMap.get?_filter, hany, Bool.not_true]
  cases h.statuses.get? id <;> rfl

end IngressHistoryState

/-! ## Canisters -/

/-- A `String` of the source, as its bytes: valid UTF-8, and ordered as bytes. -/
structure RustString where
  bytes : List UInt8
  valid : Utf8.IsValid bytes

namespace RustString

theorem bytes_injective : Function.Injective bytes := by
  rintro ⟨a, ha⟩ ⟨b, hb⟩ h
  simp only [RustString.mk.injEq]
  exact h

instance : LinearOrder RustString := LinearOrder.lift' bytes bytes_injective

/-- `String::from_utf8`, with the error it reports. -/
def fromUtf8 (bytes : List UInt8) : Except Utf8.Utf8Error RustString :=
  match h : Utf8.validate 0 bytes with
  | .ok () => .ok ⟨bytes, h⟩
  | .error e => .error e

theorem fromUtf8_bytes (s : RustString) : fromUtf8 s.bytes = .ok s := by
  unfold fromUtf8
  split
  · rfl
  · rename_i e he
    exact absurd (s.valid.symm.trans he) (by simp)

theorem bytes_of_fromUtf8 {bytes : List UInt8} {s : RustString} (h : fromUtf8 bytes = .ok s) :
    s.bytes = bytes := by
  unfold fromUtf8 at h
  split at h
  · cases h
    rfl
  · cases h

/-- The text of the string, for messages. -/
def toString (s : RustString) : String := String.fromUTF8! ⟨s.bytes.toArray⟩

end RustString

/-- `CustomSectionType`: `Public` or `Private`. -/
inductive CustomSectionType where
  | publicSection
  | privateSection
  deriving DecidableEq

/-- `CustomSection`: its visibility and its content. -/
structure CustomSection where
  visibility : CustomSectionType
  content : List UInt8

/-- The parts of `ExecutionState` the tree shows. -/
structure ExecutionState where
  moduleHash : List UInt8
  customSections : SortedMap RustString CustomSection

/-- The parts of `SystemState` the tree shows. -/
structure SystemState where
  controllers : List PrincipalId
  certifiedData : List UInt8

/-- `ifxlm-aqaaa-multi-pleco-ntrol-lersa-h3ae`. -/
def defaultPrincipalMultipleControllers : PrincipalId :=
  ⟨[0, 0, 25, 69, 205, 15, 89, 4, 230, 206, 46, 90, 201, 25, 0, 251, 1], by decide⟩

/-- `zrl4w-cqaaa-nocon-troll-eraaa-d5qc`. -/
def defaultPrincipalZeroControllers : PrincipalId :=
  ⟨[0, 0, 26, 225, 57, 179, 139, 150, 178, 68, 0, 0, 251, 1], by decide⟩

/-- `SystemState::controller`: the only controller, or one standing for none or several. -/
def SystemState.controller (s : SystemState) : PrincipalId :=
  if s.controllers.length < 2 then s.controllers.headD defaultPrincipalZeroControllers
  else defaultPrincipalMultipleControllers

/-- `CanisterState`: its system state, and its execution state once it has a module. -/
structure CanisterState where
  systemState : SystemState
  executionState : Option ExecutionState

/-! ## The state -/

/-- `SubnetTopology`, by its public key. -/
structure SubnetTopology where
  publicKey : List UInt8

/-- A stream of the state, its messages in their canonical encoding. -/
structure CertifiedStream where
  stream : XNet.Stream (List UInt8)
  end_lt : stream.messages.end_ < 2 ^ 64

/-- The parts of `SystemMetadata` the tree shows and the handler reads. The certification
version is one of `V0` to `V9`; the routing table is the list of its ranges with their subnets, in
its order. -/
structure SystemMetadata where
  ingressHistory : IngressHistoryState
  batchTime : ℕ
  certificationVersion : Fin 10
  subnets : SortedMap SubnetId SubnetTopology
  routingTable : List ((PrincipalId × PrincipalId) × SubnetId)

/-- `ReplicatedState`. -/
structure ReplicatedState where
  canisterStates : SortedMap CanisterId CanisterState
  metadata : SystemMetadata
  streams : SortedMap SubnetId CertifiedStream

/-- `ReplicatedState::get_ingress_status`. -/
def ReplicatedState.getIngressStatus (s : ReplicatedState) (id : MessageId) : IngressStatus :=
  s.metadata.ingressHistory.get id

/-- The state after its ingress history is pruned at `time`, as the start of a round does. -/
def ReplicatedState.pruneIngressHistory (s : ReplicatedState) (time : ℕ) : ReplicatedState :=
  { s with metadata := { s.metadata with ingressHistory := s.metadata.ingressHistory.prune time } }

end IC.State
