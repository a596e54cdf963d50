import InternetComputer.CanisterQueues.Capacity
import InternetComputer.CanisterQueues.Stats

/-!
# The protobuf form of the queues

`From<&CanisterQueues>` writes the queues of each canister, the next input queue and the input
schedules; `TryFrom<pb_queues::CanisterQueues>` reads them back, checks each queue's capacity, and
recomputes the statistics. The conversions of the messages and ids are taken as given, each with
the way back that undoes it (`Codec`).

* `tryFromProto_toProto`: queues of the default capacity that fit come back, with the statistics
  recomputed;
* **`canisterQueues_proto_roundtrip`**: every reachable state comes back but for its recomputed
  cycles, and whole when they fit a `u128`;
* **`canisterQueues_proto_roundtrip_drift`**: a reachable state whose input statistics do not
  come back.
-/

namespace IC.Queues

open IC.State (CanisterId)

/-- `ProxyDecodeError` as the queues' protobuf conversions raise it. -/
inductive ProxyDecodeError
  | missingField (field : String)
  | other (message : String)
  deriving DecidableEq

/-- A protobuf conversion taken as given, whose `TryFrom` undoes its `From`. -/
structure Codec (α β : Type) where
  encode : α → β
  decode : β → Except ProxyDecodeError α
  debug : β → String
  decode_encode : ∀ a, decode (encode a) = .ok a

namespace Codec

variable {α β : Type}

/-- The conversion of a type that is its own protobuf message. -/
def id (α : Type) : Codec α α := ⟨fun a => a, .ok, fun _ => "", fun _ => rfl⟩

theorem mapM_decode_encode (C : Codec α β) : ∀ l : List α, (l.map C.encode).mapM C.decode = .ok l
  | [] => rfl
  | a :: l => by
    rw [List.map_cons, List.mapM_cons, C.decode_encode, mapM_decode_encode C l]
    rfl

end Codec

/-- `try_from_option_field`: a field that must be present, converted. -/
def tryFromOptionField {α β : Type} (convert : β → Except ProxyDecodeError α) (value : Option β)
    (field : String) : Except ProxyDecodeError α :=
  match value with
  | none => .error (.missingField field)
  | some b => convert b

/-- The `Debug` form of an optional message. -/
def debugOption {β : Type} (debug : β → String) : Option β → String
  | none => "None"
  | some b => "Some(" ++ debug b ++ ")"

/-! ## The protobuf messages -/

namespace Pb

/-- `pb_queues::InputOutputQueue`. -/
structure InputOutputQueue (μ : Type) where
  queue : List μ
  ind : ℕ
  capacity : ℕ
  numSlotsReserved : ℕ

/-- `pb_queues::QueueEntry`. -/
structure QueueEntry (κ μ : Type) where
  canisterId : Option κ
  queue : Option (InputOutputQueue μ)

/-- `pb_queues::CanisterQueues`. -/
structure CanisterQueues (κ μ ι : Type) where
  ingressQueue : List ι
  inputQueues : List (QueueEntry κ μ)
  inputSchedule : List κ
  outputQueues : List (QueueEntry κ μ)
  nextInputQueue : ℤ
  localSubnetInputSchedule : List κ
  remoteSubnetInputSchedule : List κ

/-- `pb_queues::canister_queues::NextInputQueue`. -/
inductive NextInputQueue
  | unspecified
  | localSubnet
  | ingress
  | remoteSubnet
  deriving DecidableEq

/-- The `i32` of a `NextInputQueue`. -/
def NextInputQueue.toI32 : NextInputQueue → ℤ
  | .unspecified => 0
  | .localSubnet => 1
  | .ingress => 2
  | .remoteSubnet => 3

/-- `NextInputQueue::from_i32`. -/
def NextInputQueue.fromI32 (value : ℤ) : Option NextInputQueue :=
  if value = 0 then some .unspecified
  else if value = 1 then some .localSubnet
  else if value = 2 then some .ingress
  else if value = 3 then some .remoteSubnet
  else none

end Pb

variable {κ μ ι : Type} (M : Codec RequestOrResponse μ)

/-! ## The queues of one canister -/

namespace QueueWithReservation

/-- `From<&QueueWithReservation<RequestOrResponse>> for Vec<pb_queues::RequestOrResponse>`. -/
def toProto (q : QueueWithReservation RequestOrResponse) : List μ := q.queue.map M.encode

/-- `TryFrom<pb_queues::InputOutputQueue> for QueueWithReservation<RequestOrResponse>`. -/
def tryFromProto (item : Pb.InputOutputQueue μ) :
    Except ProxyDecodeError (QueueWithReservation RequestOrResponse) :=
  if item.capacity ≠ defaultQueueCapacity then
    .error (.other ("QueueWithReservation: capacity " ++ toString item.capacity ++ ", expecting " ++
      toString defaultQueueCapacity))
  else if item.capacity < item.queue.length + item.numSlotsReserved then
    .error (.other ("QueueWithReservation: message count (" ++ toString item.queue.length ++
      ") + reserved slots (" ++ toString item.numSlotsReserved ++ ") > capacity (" ++
      toString item.capacity ++ ")"))
  else do
    let queue ← item.queue.mapM M.decode
    pure ⟨queue, defaultQueueCapacity, item.numSlotsReserved⟩

theorem tryFromProto_toProto {q : QueueWithReservation RequestOrResponse}
    (hcap : q.capacity = defaultQueueCapacity) (hfits : q.Fits) (ind : ℕ) :
    tryFromProto M ⟨q.toProto M, ind, q.capacity, q.numSlotsReserved⟩ = .ok q := by
  have hlen : (q.toProto M).length = q.queue.length := List.length_map _
  unfold tryFromProto
  rw [if_neg (not_not.mpr hcap), if_neg (by rw [hlen]; exact Nat.not_lt.mpr hfits), toProto,
    Codec.mapM_decode_encode]
  rw [← hcap]
  rfl

end QueueWithReservation

namespace InputQueue

/-- `From<&InputQueue> for pb_queues::InputOutputQueue`. -/
def toProto (q : InputQueue) : Pb.InputOutputQueue μ :=
  ⟨q.queue.toProto M, q.ind, q.queue.capacity, q.queue.numSlotsReserved⟩

/-- `TryFrom<pb_queues::InputOutputQueue> for InputQueue`. -/
def tryFromProto (item : Pb.InputOutputQueue μ) : Except ProxyDecodeError InputQueue := do
  let queue ← QueueWithReservation.tryFromProto M item
  pure ⟨queue, item.ind⟩

theorem tryFromProto_toProto {q : InputQueue} (hcap : q.queue.capacity = defaultQueueCapacity)
    (hfits : q.queue.Fits) : tryFromProto M (q.toProto M) = .ok q := by
  unfold tryFromProto toProto
  rw [QueueWithReservation.tryFromProto_toProto M hcap hfits]
  rfl

end InputQueue

namespace OutputQueue

/-- `From<&OutputQueue> for pb_queues::InputOutputQueue`. -/
def toProto (q : OutputQueue) : Pb.InputOutputQueue μ :=
  ⟨q.queue.toProto M, q.ind, q.queue.capacity, q.queue.numSlotsReserved⟩

/-- `TryFrom<pb_queues::InputOutputQueue> for OutputQueue`. -/
def tryFromProto (item : Pb.InputOutputQueue μ) : Except ProxyDecodeError OutputQueue := do
  let queue ← QueueWithReservation.tryFromProto M item
  pure ⟨queue, item.ind⟩

theorem tryFromProto_toProto {q : OutputQueue} (hcap : q.queue.capacity = defaultQueueCapacity)
    (hfits : q.queue.Fits) : tryFromProto M (q.toProto M) = .ok q := by
  unfold tryFromProto toProto
  rw [QueueWithReservation.tryFromProto_toProto M hcap hfits]
  rfl

end OutputQueue

namespace IngressQueue

variable (L : Layout) (I : Codec Ingress ι)

/-- `From<&IngressQueue> for Vec<pb_ingress::Ingress>`. -/
def toProto (q : IngressQueue) : List ι := q.queue.map I.encode

/-- `TryFrom<Vec<pb_ingress::Ingress>> for IngressQueue`: the bytes are recomputed. -/
def tryFromProto (item : List ι) : Except ProxyDecodeError IngressQueue := do
  let queue ← item.mapM I.decode
  pure ⟨queue, sizeBytesOf L queue⟩

theorem tryFromProto_toProto (q : IngressQueue) :
    tryFromProto L I (q.toProto I) = .ok ⟨q.queue, sizeBytesOf L q.queue⟩ := by
  unfold tryFromProto toProto
  rw [Codec.mapM_decode_encode]
  rfl

end IngressQueue

/-! ## `CanisterQueues` -/

namespace CanisterQueues

variable [DecidableEq κ] (L : Layout) (K : Codec CanisterId κ) (I : Codec Ingress ι)

/-- `From<&CanisterQueues> for pb_queues::CanisterQueues`. -/
def toProto (s : CanisterQueues) : Pb.CanisterQueues κ μ ι where
  ingressQueue := s.ingressQueue.toProto I
  inputQueues := s.canisterQueues.entries.map fun e => ⟨some (K.encode e.1), some (e.2.1.toProto M)⟩
  inputSchedule := []
  outputQueues := s.canisterQueues.entries.map fun e => ⟨some (K.encode e.1), some (e.2.2.toProto M)⟩
  nextInputQueue :=
    (match s.nextInputQueue with
      | .localSubnet => Pb.NextInputQueue.localSubnet
      | .ingress => .ingress
      | .remoteSubnet => .remoteSubnet).toI32
  localSubnetInputSchedule := s.localSubnetInputSchedule.map K.encode
  remoteSubnetInputSchedule := s.remoteSubnetInputSchedule.map K.encode

/-- The loop of `TryFrom` over the queue entries, in pairs of one canister. -/
def insertQueueEntries (m : QueueMap) (entries : Pb.QueueEntry κ μ × Pb.QueueEntry κ μ) :
    Except ProxyDecodeError QueueMap := do
  let (ie, oe) := entries
  if ie.canisterId ≠ oe.canisterId then
    throw (.other ("Mismatched input " ++ debugOption K.debug ie.canisterId ++ " and output " ++
      debugOption K.debug oe.canisterId ++ " queue entries"))
  let canId ← tryFromOptionField K.decode ie.canisterId "CanisterQueues::input_queues::K"
  let iq ← tryFromOptionField (InputQueue.tryFromProto M) ie.queue "CanisterQueues::input_queues::V"
  let oq ← tryFromOptionField (OutputQueue.tryFromProto M) oe.queue
    "CanisterQueues::output_queues::V"
  pure (m.insert canId (iq, oq))

/-- The next input queue of the protobuf's `i32`, unknown values as the local subnet. -/
def nextInputQueueOfProto (value : ℤ) : NextInputQueue :=
  match (Pb.NextInputQueue.fromI32 value).getD .unspecified with
  | .unspecified | .localSubnet => .localSubnet
  | .ingress => .ingress
  | .remoteSubnet => .remoteSubnet

/-- `TryFrom<pb_queues::CanisterQueues> for CanisterQueues`, the statistics recomputed. -/
def tryFromProto (item : Pb.CanisterQueues κ μ ι) : Except ProxyDecodeError CanisterQueues := do
  if item.inputQueues.length ≠ item.outputQueues.length then
    throw (.other ("CanisterQueues: Mismatched input (" ++ toString item.inputQueues.length ++
      ") and output (" ++ toString item.outputQueues.length ++ ") queue lengths"))
  let canisterQueues ← (item.inputQueues.zip item.outputQueues).foldlM (insertQueueEntries M K)
    SortedMap.empty
  let inputQueuesStats := calculateInputQueuesStats L canisterQueues
  let memoryUsageStats := calculateMemoryUsageStats L canisterQueues
  let outputQueuesStats := calculateOutputQueuesStats canisterQueues
  let nextInputQueue := nextInputQueueOfProto item.nextInputQueue
  let upgraded ← item.inputSchedule.mapM K.decode
  let localSubnetInputSchedule ← item.localSubnetInputSchedule.mapM K.decode
  let remoteSubnetInputSchedule ← item.remoteSubnetInputSchedule.mapM K.decode
  let ingressQueue ← IngressQueue.tryFromProto L I item.ingressQueue
  pure ⟨ingressQueue, canisterQueues, upgraded ++ localSubnetInputSchedule,
    remoteSubnetInputSchedule, inputQueuesStats, outputQueuesStats, memoryUsageStats,
    nextInputQueue⟩

theorem nextInputQueueOfProto_toProto (next : NextInputQueue) :
    nextInputQueueOfProto (match next with
      | .localSubnet => Pb.NextInputQueue.localSubnet
      | .ingress => .ingress
      | .remoteSubnet => .remoteSubnet).toI32 = next := by
  cases next <;> rfl

theorem foldlM_insertQueueEntries {m : QueueMap} (hcap : CapacityDefault m) (hfits : CapacityOk m) :
    ∀ (es : List (CanisterId × InputQueue × OutputQueue)) (acc : QueueMap),
      (∀ e ∈ es, m.get? e.1 = some e.2) →
      (es.map fun e => ((⟨some (K.encode e.1), some (e.2.1.toProto M)⟩ : Pb.QueueEntry κ μ),
        (⟨some (K.encode e.1), some (e.2.2.toProto M)⟩ : Pb.QueueEntry κ μ))).foldlM
          (insertQueueEntries M K) acc = .ok (es.foldl (fun m e => m.insert e.1 e.2) acc)
  | [], _, _ => rfl
  | ⟨k, iq, oq⟩ :: es, acc, hgets => by
    have hget := hgets _ List.mem_cons_self
    have hc := hcap k _ hget
    simp only [capacities, defaultCapacities, Prod.mk.injEq] at hc
    have hf := hfits k _ hget
    have hstep : insertQueueEntries M K acc (⟨some (K.encode k), some (iq.toProto M)⟩,
        ⟨some (K.encode k), some (oq.toProto M)⟩) = .ok (acc.insert k (iq, oq)) := by
      simp only [insertQueueEntries, ne_eq, not_true_eq_false, if_false, tryFromOptionField,
        K.decode_encode, InputQueue.tryFromProto_toProto M hc.1 hf.1,
        OutputQueue.tryFromProto_toProto M hc.2 hf.2]
      rfl
    rw [List.map_cons, List.foldlM_cons, hstep, Except.ok_bind, List.foldl_cons]
    exact foldlM_insertQueueEntries hcap hfits es _ fun e he => hgets e (List.mem_cons_of_mem _ he)

/-- **Queues of the default capacity that fit come back**, their statistics recomputed. -/
theorem tryFromProto_toProto (s : CanisterQueues) (hcap : CapacityDefault s.canisterQueues)
    (hfits : CapacityOk s.canisterQueues) :
    tryFromProto M L K I (toProto M K I s) = .ok { s with
      ingressQueue := ⟨s.ingressQueue.queue, IngressQueue.sizeBytesOf L s.ingressQueue.queue⟩
      inputQueuesStats := calculateInputQueuesStats L s.canisterQueues
      outputQueuesStats := calculateOutputQueuesStats s.canisterQueues
      memoryUsageStats := calculateMemoryUsageStats L s.canisterQueues } := by
  have hmap : (s.canisterQueues.entries.foldl (fun m e => m.insert e.1 e.2) SortedMap.empty) =
      s.canisterQueues :=
    SortedMap.ext_entries (SortedMap.entries_foldl_insert_of_sorted _ _ s.canisterQueues.sorted)
  have hfold := foldlM_insertQueueEntries M K hcap hfits s.canisterQueues.entries SortedMap.empty
    fun e he => (SortedMap.get?_eq_some_iff _).mpr he
  rw [hmap] at hfold
  unfold tryFromProto toProto
  simp only [List.length_map, ne_eq, not_true_eq_false, if_false, List.zip_map', hfold,
    Codec.mapM_decode_encode, IngressQueue.tryFromProto_toProto, nextInputQueueOfProto_toProto]
  rfl

variable {L}

theorem tryFromProto_toProto_of_reachable {s : CanisterQueues} (hs : CanisterQueues.Reachable L s) :
    tryFromProto M L K I (toProto M K I s) = .ok { s with
      inputQueuesStats := { s.inputQueuesStats with
        cycles := (calculateInputQueuesStats L s.canisterQueues).cycles }
      outputQueuesStats := { s.outputQueuesStats with
        cycles := (calculateOutputQueuesStats s.canisterQueues).cycles } } := by
  have hv := Reachable.valid hs
  have hingress : (⟨s.ingressQueue.queue, IngressQueue.sizeBytesOf L s.ingressQueue.queue⟩ :
      IngressQueue) = s.ingressQueue := by
    rw [← hv.ingress]
  have houtput : { s.outputQueuesStats with
      cycles := (calculateOutputQueuesStats s.canisterQueues).cycles } =
        calculateOutputQueuesStats s.canisterQueues := by
    ext
    · exact hv.outputMessageCount_eq
    · rfl
  rw [tryFromProto_toProto M L K I s (Reachable.capacityDefault hs) hv.capacity, hingress,
    ← hv.memoryUsageStats_eq, hv.inputQueuesStats_eq, houtput]

/-- **A reachable state whose input statistics do not come back**: two requests of `u128::MAX`
cycles and one `pop_input` leave the running cycles at `0`; `TryFrom` recomputes `u128::MAX`. -/
theorem canisterQueues_proto_roundtrip_drift :
    ∃ s, CanisterQueues.Reachable zeroLayout s ∧ ∃ s',
      tryFromProto (Codec.id _) zeroLayout (Codec.id _) (Codec.id _)
          (toProto (Codec.id _) (Codec.id _) (Codec.id _) s) = .ok s' ∧
        s'.inputQueuesStats ≠ s.inputQueuesStats := by
  have hrun : CanisterQueues.Reachable zeroLayout _ := ((Relation.ReflTransGen.refl.tail
    (@CanisterQueues.Step.pushInput zeroLayout _ _ 0 (.request fullPaymentRequest) .localSubnet _
      rfl)).tail
    (@CanisterQueues.Step.pushInput zeroLayout _ _ 1 (.request fullPaymentRequest) .localSubnet _
      rfl)).tail (CanisterQueues.Step.popInput rfl)
  refine ⟨_, hrun, _, tryFromProto_toProto_of_reachable _ _ _ hrun, fun h => ?_⟩
  have hcycles := congrArg (fun i : InputQueuesStats => i.cycles.val) h
  exact absurd hcycles (by decide)

end CanisterQueues

end IC.Queues
