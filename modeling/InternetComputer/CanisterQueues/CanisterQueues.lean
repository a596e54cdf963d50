import InternetComputer.CanisterQueues.Queue
import InternetComputer.Lib.SortedMap
import InternetComputer.Lib.Rust

/-!
# `CanisterQueues`

The induction pool and the output queues of a canister (`canister_state/queues.rs`): the ingress
queue, an input and an output queue per remote canister, the two input schedules, the running
statistics, and the round-robin pointer of `pop_input`. A closure `FnMut` is a function of the
number of calls made before and of its arguments.

* the statistics, their `stats_delta`s and `calculate_*_stats`;
* the operations, and `CanisterOutputQueuesIterator`;
* `Step`, one call that does not panic, and `Reachable`.
-/

namespace IC.Queues

open IC.State (CanisterId)

/-- `DEFAULT_QUEUE_CAPACITY`. -/
def defaultQueueCapacity : ℕ := 500

/-- `NextInputQueue`: the bucket `pop_input` tries next. -/
inductive NextInputQueue
  | localSubnet
  | ingress
  | remoteSubnet
  deriving DecidableEq

/-- The round robin of `pop_input`: local subnet, ingress, remote subnet. -/
def NextInputQueue.next : NextInputQueue → NextInputQueue
  | .localSubnet => .ingress
  | .ingress => .remoteSubnet
  | .remoteSubnet => .localSubnet

/-- `InputQueueType`: where the sender of a canister message lives. -/
inductive InputQueueType
  | localSubnet
  | remoteSubnet
  deriving DecidableEq

/-- `QueueOp`. -/
inductive QueueOp
  | push
  | pop
  deriving DecidableEq

/-- `CanisterInputMessage`. -/
inductive CanisterInputMessage
  | ingress (msg : Ingress)
  | request (msg : Request)
  | response (msg : Response)
  deriving DecidableEq

/-- The input message `pop_input` makes of a canister message. -/
def CanisterInputMessage.ofRequestOrResponse : RequestOrResponse → CanisterInputMessage
  | .request msg => .request msg
  | .response msg => .response msg

/-! ## Statistics -/

/-- `InputQueuesStats`. -/
@[ext]
structure InputQueuesStats where
  messageCount : ℕ
  responseCount : ℕ
  reservedSlots : ℤ
  sizeBytes : ℕ
  cycles : Cycles
  deriving DecidableEq

namespace InputQueuesStats

/-- `InputQueuesStats::default()`. -/
def default : InputQueuesStats := ⟨0, 0, 0, 0, 0⟩

/-- `InputQueuesStats::stats_delta`: a push consumes one reservation iff it pushes a response. -/
def statsDelta (L : Layout) (op : QueueOp) (msg : RequestOrResponse) : InputQueuesStats :=
  let responseCount := match msg with
    | .response _ => 1
    | .request _ => 0
  let reservedSlots := match op, msg with
    | .push, .response _ => -1
    | _, _ => 0
  ⟨1, responseCount, reservedSlots, msg.countBytes L, msg.cycles⟩

/-- `AddAssign<InputQueuesStats>`. -/
def addAssign (self rhs : InputQueuesStats) : InputQueuesStats :=
  ⟨self.messageCount + rhs.messageCount, self.responseCount + rhs.responseCount,
    self.reservedSlots + rhs.reservedSlots, self.sizeBytes + rhs.sizeBytes, self.cycles + rhs.cycles⟩

/-- `SubAssign<InputQueuesStats>`. -/
def subAssign (self rhs : InputQueuesStats) : InputQueuesStats :=
  ⟨self.messageCount - rhs.messageCount, self.responseCount - rhs.responseCount,
    self.reservedSlots - rhs.reservedSlots, self.sizeBytes - rhs.sizeBytes, self.cycles - rhs.cycles⟩

end InputQueuesStats

/-- `OutputQueuesStats`. -/
@[ext]
structure OutputQueuesStats where
  messageCount : ℕ
  cycles : Cycles
  deriving DecidableEq

namespace OutputQueuesStats

/-- `OutputQueuesStats::default()`. -/
def default : OutputQueuesStats := ⟨0, 0⟩

/-- `OutputQueuesStats::stats_delta`. -/
def statsDelta (msg : RequestOrResponse) : OutputQueuesStats :=
  let cyclesMessage := match msg with
    | .response response => response.refund
    | .request request => request.payment
  ⟨1, cyclesMessage⟩

/-- `AddAssign<OutputQueuesStats>`. -/
def addAssign (self rhs : OutputQueuesStats) : OutputQueuesStats :=
  ⟨self.messageCount + rhs.messageCount, self.cycles + rhs.cycles⟩

/-- `SubAssign<OutputQueuesStats>`. -/
def subAssign (self rhs : OutputQueuesStats) : OutputQueuesStats :=
  ⟨self.messageCount - rhs.messageCount, self.cycles - rhs.cycles⟩

end OutputQueuesStats

/-- `MemoryUsageStats`. -/
@[ext]
structure MemoryUsageStats where
  responsesSizeBytes : ℕ
  reservedSlots : ℤ
  oversizedRequestsExtraBytes : ℕ
  transientStreamResponsesSizeBytes : ℕ
  deriving DecidableEq

namespace MemoryUsageStats

/-- `MemoryUsageStats::default()`. -/
def default : MemoryUsageStats := ⟨0, 0, 0, 0⟩

/-- `MemoryUsageStats::memory_usage`: an `i64` cast to `usize` keeps its bits. -/
def memoryUsage (L : Layout) (self : MemoryUsageStats) : ℕ :=
  self.responsesSizeBytes + (self.reservedSlots % 2 ^ 64).toNat * maxResponseCountBytes L +
    self.oversizedRequestsExtraBytes + self.transientStreamResponsesSizeBytes

/-- `MemoryUsageStats::request_stats_delta`: a pushed request reserves a slot for its response. -/
def requestStatsDelta (L : Layout) (op : QueueOp) (req : Request) : MemoryUsageStats :=
  ⟨0, (match op with
    | .push => 1
    | .pop => 0), req.countBytes L - maxResponseCountBytes L, 0⟩

/-- `MemoryUsageStats::response_stats_delta`: a pushed response consumes a reservation. -/
def responseStatsDelta (L : Layout) (op : QueueOp) (rep : Response) : MemoryUsageStats :=
  ⟨rep.countBytes L, (match op with
    | .push => -1
    | .pop => 0), 0, 0⟩

/-- `MemoryUsageStats::stats_delta`. -/
def statsDelta (L : Layout) (op : QueueOp) : RequestOrResponse → MemoryUsageStats
  | .request req => requestStatsDelta L op req
  | .response rep => responseStatsDelta L op rep

/-- `AddAssign<MemoryUsageStats>`: the transient stream bytes are left alone. -/
def addAssign (self rhs : MemoryUsageStats) : MemoryUsageStats :=
  { self with
    responsesSizeBytes := self.responsesSizeBytes + rhs.responsesSizeBytes
    reservedSlots := self.reservedSlots + rhs.reservedSlots
    oversizedRequestsExtraBytes := self.oversizedRequestsExtraBytes + rhs.oversizedRequestsExtraBytes }

/-- `SubAssign<MemoryUsageStats>`. -/
def subAssign (self rhs : MemoryUsageStats) : MemoryUsageStats :=
  { self with
    responsesSizeBytes := self.responsesSizeBytes - rhs.responsesSizeBytes
    reservedSlots := self.reservedSlots - rhs.reservedSlots
    oversizedRequestsExtraBytes := self.oversizedRequestsExtraBytes - rhs.oversizedRequestsExtraBytes }

end MemoryUsageStats

/-- The queues of a canister, by the remote canister they are from and to. -/
abbrev QueueMap := SortedMap CanisterId (InputQueue × OutputQueue)

/-- The closure `response_count` of `calculate_input_queues_stats`. -/
def responseCount : RequestOrResponse → ℕ
  | .request _ => 0
  | .response _ => 1

/-- `calculate_input_queues_stats`. -/
def calculateInputQueuesStats (L : Layout) (canisterQueues : QueueMap) : InputQueuesStats :=
  canisterQueues.entries.foldl (fun stats e =>
    let q := e.2.1
    { messageCount := stats.messageCount + q.numMessages
      responseCount := stats.responseCount + q.calculateStatSum responseCount
      reservedSlots := stats.reservedSlots + q.reservedSlots
      sizeBytes := stats.sizeBytes + q.calculateSizeBytes L
      cycles := stats.cycles + q.cyclesInQueue }) InputQueuesStats.default

/-- `calculate_output_queues_stats`. -/
def calculateOutputQueuesStats (canisterQueues : QueueMap) : OutputQueuesStats :=
  canisterQueues.entries.foldl (fun stats e =>
    let q := e.2.2
    { messageCount := stats.messageCount + q.numMessages
      cycles := stats.cycles + q.cyclesInQueue }) OutputQueuesStats.default

/-- The closure `response_size_bytes` of `calculate_memory_usage_stats`. -/
def responseSizeBytes (L : Layout) : RequestOrResponse → ℕ
  | .request _ => 0
  | msg@(.response _) => msg.countBytes L

/-- The closure `request_overhead_bytes` of `calculate_memory_usage_stats`. -/
def requestOverheadBytes (L : Layout) : RequestOrResponse → ℕ
  | msg@(.request _) => msg.countBytes L - maxResponseCountBytes L
  | .response _ => 0

/-- `calculate_memory_usage_stats`. -/
def calculateMemoryUsageStats (L : Layout) (canisterQueues : QueueMap) : MemoryUsageStats :=
  canisterQueues.entries.foldl (fun stats e =>
    let iq := e.2.1
    let oq := e.2.2
    { stats with
      responsesSizeBytes := stats.responsesSizeBytes + iq.calculateStatSum (responseSizeBytes L) +
        oq.calculateStatSum (responseSizeBytes L)
      reservedSlots := stats.reservedSlots + iq.reservedSlots + oq.reservedSlots
      oversizedRequestsExtraBytes := stats.oversizedRequestsExtraBytes +
        iq.calculateStatSum (requestOverheadBytes L) +
        oq.calculateStatSum (requestOverheadBytes L) }) MemoryUsageStats.default

/-! ## The queues -/

/-- `CanisterQueues`. -/
structure CanisterQueues where
  ingressQueue : IngressQueue
  canisterQueues : QueueMap
  localSubnetInputSchedule : List CanisterId
  remoteSubnetInputSchedule : List CanisterId
  inputQueuesStats : InputQueuesStats
  outputQueuesStats : OutputQueuesStats
  memoryUsageStats : MemoryUsageStats
  nextInputQueue : NextInputQueue

namespace CanisterQueues

variable (L : Layout)

/-- `CanisterQueues::default()`. -/
def default : CanisterQueues :=
  ⟨IngressQueue.default L, SortedMap.empty, [], [], InputQueuesStats.default,
    OutputQueuesStats.default, MemoryUsageStats.default, .localSubnet⟩

variable {L} (s : CanisterQueues)

/-- The input schedule of a bucket. -/
def inputSchedule : InputQueueType → List CanisterId
  | .localSubnet => s.localSubnetInputSchedule
  | .remoteSubnet => s.remoteSubnetInputSchedule

/-- The queues with the input schedule of a bucket replaced. -/
def setInputSchedule : InputQueueType → List CanisterId → CanisterQueues
  | .localSubnet, schedule => { s with localSubnetInputSchedule := schedule }
  | .remoteSubnet, schedule => { s with remoteSubnetInputSchedule := schedule }

section SetInputSchedule

variable (ty : InputQueueType) (schedule : List CanisterId)

@[simp]
theorem setInputSchedule_canisterQueues :
    (s.setInputSchedule ty schedule).canisterQueues = s.canisterQueues := by
  cases ty <;> rfl

@[simp]
theorem setInputSchedule_ingressQueue :
    (s.setInputSchedule ty schedule).ingressQueue = s.ingressQueue := by
  cases ty <;> rfl

@[simp]
theorem setInputSchedule_inputQueuesStats :
    (s.setInputSchedule ty schedule).inputQueuesStats = s.inputQueuesStats := by
  cases ty <;> rfl

@[simp]
theorem setInputSchedule_outputQueuesStats :
    (s.setInputSchedule ty schedule).outputQueuesStats = s.outputQueuesStats := by
  cases ty <;> rfl

@[simp]
theorem setInputSchedule_memoryUsageStats :
    (s.setInputSchedule ty schedule).memoryUsageStats = s.memoryUsageStats := by
  cases ty <;> rfl

@[simp]
theorem setInputSchedule_nextInputQueue :
    (s.setInputSchedule ty schedule).nextInputQueue = s.nextInputQueue := by
  cases ty <;> rfl

@[simp]
theorem inputSchedule_setInputSchedule :
    (s.setInputSchedule ty schedule).inputSchedule ty = schedule := by
  cases ty <;> rfl

end SetInputSchedule

variable (L)

/-- `push_ingress`. -/
def pushIngress (msg : Ingress) : CanisterQueues :=
  { s with ingressQueue := s.ingressQueue.push L msg }

/-- `pop_ingress`. -/
def popIngress : Option Ingress × CanisterQueues :=
  let (msg, ingressQueue) := s.ingressQueue.pop L
  (msg, { s with ingressQueue })

/-- `filter_ingress_messages`. -/
def filterIngressMessages (filter : ℕ → Ingress → Bool) : CanisterQueues :=
  { s with ingressQueue := s.ingressQueue.filterMessages L filter }

/-- `get_or_insert_queues`: the queues of a canister, created empty if there are none. -/
def getOrInsertQueues (canisterId : CanisterId) : CanisterQueues × InputQueue × OutputQueue :=
  match s.canisterQueues.get? canisterId with
  | some (inputQueue, outputQueue) => (s, inputQueue, outputQueue)
  | none =>
    let inputQueue := InputQueue.new defaultQueueCapacity
    let outputQueue := OutputQueue.new defaultQueueCapacity
    let queueBytes := inputQueue.calculateSizeBytes L
    ({ s with
      canisterQueues := s.canisterQueues.insert canisterId (inputQueue, outputQueue)
      inputQueuesStats := { s.inputQueuesStats with
        sizeBytes := s.inputQueuesStats.sizeBytes + queueBytes } }, inputQueue, outputQueue)

/-- The end of `push_input` once the queue is chosen: the push, the sender scheduled if its queue
was empty, and the statistics; the queues are written back also on failure. -/
def pushInputInto (index : ℕ) (msg : RequestOrResponse) (inputQueueType : InputQueueType)
    (sender : CanisterId) (inputQueue : InputQueue) (outputQueue : OutputQueue) :
    Except String (CanisterQueues × Except (StateError × RequestOrResponse) Unit) := do
  let iqStatsDelta := InputQueuesStats.statsDelta L .push msg
  let muStatsDelta := MemoryUsageStats.statsDelta L .push msg
  let (inputQueue, pushed) ← inputQueue.push index msg
  let s := { s with canisterQueues := s.canisterQueues.insert sender (inputQueue, outputQueue) }
  match pushed with
  | .error e => pure (s, .error e)
  | .ok () =>
    let s := if inputQueue.numMessages = 1 then
      s.setInputSchedule inputQueueType (s.inputSchedule inputQueueType ++ [sender]) else s
    pure ({ s with
      inputQueuesStats := s.inputQueuesStats.addAssign iqStatsDelta
      memoryUsageStats := s.memoryUsageStats.addAssign muStatsDelta }, .ok ())

/-- `push_input`: a request reserves a slot in the output queue; a response needs the queues. -/
def pushInput (index : ℕ) (msg : RequestOrResponse) (inputQueueType : InputQueueType) :
    Except String (CanisterQueues × Except (StateError × RequestOrResponse) Unit) :=
  let sender := msg.sender
  match msg with
  | .request _ =>
    let (s, inputQueue, outputQueue) := s.getOrInsertQueues L sender
    match inputQueue.checkHasSlot with
    | .error e => pure (s, .error (e, msg))
    | .ok () =>
      match outputQueue.reserveSlot with
      | .error e => pure (s, .error (e, msg))
      | .ok outputQueue => s.pushInputInto L index msg inputQueueType sender inputQueue outputQueue
  | .response _ =>
    match s.canisterQueues.get? sender with
    | some (inputQueue, outputQueue) =>
      s.pushInputInto L index msg inputQueueType sender inputQueue outputQueue
    | none => pure (s, .error (.queueFull 0, msg))

/-- `pop_canister_input`: the front sender of the bucket gives its first message. -/
def popCanisterInput (inputQueue : InputQueueType) :
    Except String (CanisterQueues × Option RequestOrResponse) :=
  match s.inputSchedule inputQueue with
  | [] => pure (s, none)
  | sender :: rest => do
    let (iq, oq) ← Rust.expect (s.canisterQueues.get? sender)
      "called `Option::unwrap()` on a `None` value"
    let (msg, iq) ← Rust.expect iq.pop "called `Option::unwrap()` on a `None` value"
    let rest := if iq.numMessages ≠ 0 then rest ++ [sender] else rest
    pure ({ s.setInputSchedule inputQueue rest with
      canisterQueues := s.canisterQueues.insert sender (iq, oq)
      inputQueuesStats := s.inputQueuesStats.subAssign (InputQueuesStats.statsDelta L .pop msg)
      memoryUsageStats := s.memoryUsageStats.subAssign (MemoryUsageStats.statsDelta L .pop msg) },
      some msg)

/-- `has_input`. -/
def hasInput : Bool := !s.ingressQueue.isEmpty || decide (s.inputQueuesStats.messageCount > 0)

/-- One turn of the loop of `pop_input`: the bucket `next_input_queue` names. -/
def popInputTurn : Except String (CanisterQueues × Option CanisterInputMessage) :=
  let curInputQueue := s.nextInputQueue
  let s := { s with nextInputQueue := curInputQueue.next }
  match curInputQueue with
  | .ingress =>
    let (msg, s) := s.popIngress L
    pure (s, msg.map .ingress)
  | .remoteSubnet => do
    let (s, msg) ← s.popCanisterInput L .remoteSubnet
    pure (s, msg.map CanisterInputMessage.ofRequestOrResponse)
  | .localSubnet => do
    let (s, msg) ← s.popCanisterInput L .localSubnet
    pure (s, msg.map CanisterInputMessage.ofRequestOrResponse)

/-- The loop of `pop_input`, with `n` turns left. -/
def popInputLoop : ℕ → CanisterQueues → Except String (CanisterQueues × Option CanisterInputMessage)
  | 0, s => pure (s, none)
  | n + 1, s => do
    let (s, nextInput) ← s.popInputTurn L
    if nextInput.isSome then pure (s, nextInput) else popInputLoop n s

/-- `pop_input`: the three buckets are tried in turn. -/
def popInput : Except String (CanisterQueues × Option CanisterInputMessage) :=
  popInputLoop L 3 s

/-- `push_output_request`: a request reserves a slot in the receiver's input queue. -/
def pushOutputRequest (msg : Request) :
    Except String (CanisterQueues × Except (StateError × Request) Unit) :=
  let (s, inputQueue, outputQueue) := s.getOrInsertQueues L msg.receiver
  match outputQueue.checkHasSlot with
  | .error e => pure (s, .error (e, msg))
  | .ok () =>
    match inputQueue.reserveSlot with
    | .error e => pure (s, .error (e, msg))
    | .ok inputQueue => do
      let muStatsDelta := MemoryUsageStats.requestStatsDelta L .push msg
      let oqStatsDelta := OutputQueuesStats.statsDelta (.request msg)
      let outputQueue ← Rust.expectOk (outputQueue.pushRequest msg)
        "cannot fail due to checks above"
      pure ({ s with
        canisterQueues := s.canisterQueues.insert msg.receiver (inputQueue, outputQueue)
        inputQueuesStats := { s.inputQueuesStats with
          reservedSlots := s.inputQueuesStats.reservedSlots + 1 }
        outputQueuesStats := s.outputQueuesStats.addAssign oqStatsDelta
        memoryUsageStats := s.memoryUsageStats.addAssign muStatsDelta }, .ok ())

/-- `push_output_response`: into a slot reserved in the originator's output queue. -/
def pushOutputResponse (msg : Response) : Except String CanisterQueues := do
  let muStatsDelta := MemoryUsageStats.responseStatsDelta L .push msg
  let oqStatsDelta := OutputQueuesStats.statsDelta (.response msg)
  let (inputQueue, outputQueue) ← Rust.expect (s.canisterQueues.get? msg.originator)
    "pushing response into inexistent output queue"
  let outputQueue ← outputQueue.pushResponse msg
  pure { s with
    canisterQueues := s.canisterQueues.insert msg.originator (inputQueue, outputQueue)
    memoryUsageStats := s.memoryUsageStats.addAssign muStatsDelta
    outputQueuesStats := s.outputQueuesStats.addAssign oqStatsDelta }

/-- The `while let` loop of `output_queues_for_each` on the queue to `canisterId`: each message
`f` accepts is popped, until it returns `Err`; `fuel` is the queue's length. -/
def forEachLoop (f : ℕ → CanisterId → RequestOrResponse → Bool) (canisterId : CanisterId) :
    ℕ → ℕ → OutputQueue → OutputQueuesStats → MemoryUsageStats →
      Except String (ℕ × OutputQueue × OutputQueuesStats × MemoryUsageStats)
  | 0, n, q, os, ms => pure (n, q, os, ms)
  | fuel + 1, n, q, os, ms =>
    match q.peek with
    | none => pure (n, q, os, ms)
    | some (_, msg) =>
      if f n canisterId msg then do
        let ((_, msg), q) ← Rust.expect q.pop "peek() returned a message, pop() should not fail"
        forEachLoop f canisterId fuel (n + 1) q (os.subAssign (OutputQueuesStats.statsDelta msg))
          (ms.subAssign (MemoryUsageStats.statsDelta L .pop msg))
      else pure (n + 1, q, os, ms)

/-- The body of the `for` loop of `output_queues_for_each`, on one canister's queue. -/
def forEachQueue (f : ℕ → CanisterId → RequestOrResponse → Bool) :
    ℕ × QueueMap × OutputQueuesStats × MemoryUsageStats → CanisterId × InputQueue × OutputQueue →
      Except String (ℕ × QueueMap × OutputQueuesStats × MemoryUsageStats)
  | (n, queues, os, ms), (canisterId, iq, oq) => do
    let (n, oq, os, ms) ← forEachLoop L f canisterId oq.numMessages n oq os ms
    pure (n, queues.insert canisterId (iq, oq), os, ms)

/-- `output_queues_for_each`: the output queues in the order of their canisters. -/
def outputQueuesForEach (f : ℕ → CanisterId → RequestOrResponse → Bool) :
    Except String CanisterQueues := do
  let (_, canisterQueues, os, ms) ← s.canisterQueues.entries.foldlM (forEachQueue L f)
    (0, s.canisterQueues, s.outputQueuesStats, s.memoryUsageStats)
  pure { s with canisterQueues, outputQueuesStats := os, memoryUsageStats := ms }

/-- `induct_message_to_self`: the first message to itself goes into its input queue. -/
def inductMessageToSelf (ownCanisterId : CanisterId) :
    Except String (CanisterQueues × Except Unit Unit) :=
  match (s.canisterQueues.get? ownCanisterId).bind fun qs => qs.2.peek with
  | none => pure (s, .error ())
  | some (_, msg) => do
    let (s, pushed) ← s.pushInput L queueIndexNone msg .localSubnet
    match pushed with
    | .error _ => pure (s, .error ())
    | .ok () => do
      let (iq, oq) ← Rust.expect (s.canisterQueues.get? ownCanisterId)
        "Output queue existed above so should not fail."
      let ((_, msg), oq) ← Rust.expect oq.pop "Message peeked above so pop should not fail."
      pure ({ s with
        canisterQueues := s.canisterQueues.insert ownCanisterId (iq, oq)
        outputQueuesStats := s.outputQueuesStats.subAssign (OutputQueuesStats.statsDelta msg)
        memoryUsageStats := s.memoryUsageStats.subAssign (MemoryUsageStats.statsDelta L .pop msg) },
        .ok ())

end CanisterQueues

/-! ## The output iterator -/

/-- `QueueId`: the session is always `0`. -/
structure QueueId where
  srcCanister : CanisterId
  dstCanister : CanisterId
  deriving DecidableEq

/-- `CanisterOutputQueuesIterator`: the receivers in their round robin, the messages left, and
what it borrows: the queues, the memory statistics and the output statistics. -/
structure CanisterOutputQueuesIterator where
  owner : CanisterId
  queues : List CanisterId
  size : ℕ
  canisterQueues : QueueMap
  memoryStats : MemoryUsageStats
  queueStats : OutputQueuesStats

namespace CanisterOutputQueuesIterator

/-- The output queue the iterator holds for a receiver. -/
def outputQueue (queues : QueueMap) (receiver : CanisterId) : Option OutputQueue :=
  (queues.get? receiver).map Prod.snd

/-- `compute_size`. -/
def computeSize (canisterQueues : QueueMap) (queues : List CanisterId) : ℕ :=
  (queues.map fun c => ((outputQueue canisterQueues c).map OutputQueue.numMessages).getD 0).sum

/-- `CanisterOutputQueuesIterator::new`: the non-empty output queues by receiver. -/
def new (owner : CanisterId) (canisterQueues : QueueMap) (memoryStats : MemoryUsageStats)
    (queueStats : OutputQueuesStats) : CanisterOutputQueuesIterator :=
  let queues := (canisterQueues.entries.filter fun e => e.2.2.numMessages > 0).map Prod.fst
  ⟨owner, queues, computeSize canisterQueues queues, canisterQueues, memoryStats, queueStats⟩

variable (L : Layout) (it : CanisterOutputQueuesIterator)

/-- `CanisterOutputQueuesIterator::pop`: the first message of the next queue. -/
def pop : Except String (Option (QueueId × ℕ × RequestOrResponse) × CanisterOutputQueuesIterator) :=
  match it.queues with
  | [] => pure (none, it)
  | receiver :: rest => do
    let (iq, (queueIndex, msg), queue) ← Rust.expect
      ((it.canisterQueues.get? receiver).bind fun qs => qs.2.pop.map fun p => (qs.1, p))
      "Empty queue in iterator"
    let queues := if queue.numMessages > 0 then rest ++ [receiver] else rest
    pure (some (⟨it.owner, receiver⟩, queueIndex, msg), { it with
      queues
      canisterQueues := it.canisterQueues.insert receiver (iq, queue)
      memoryStats := it.memoryStats.subAssign (MemoryUsageStats.statsDelta L .pop msg)
      queueStats := it.queueStats.subAssign (OutputQueuesStats.statsDelta msg)
      size := it.size - 1 })

/-- `exclude_queue`: the next queue leaves the round robin, its messages stay. -/
def excludeQueue : ℕ × CanisterOutputQueuesIterator :=
  match it.queues with
  | [] => (0, it)
  | receiver :: rest =>
    let ignored := ((outputQueue it.canisterQueues receiver).map OutputQueue.numMessages).getD 0
    (ignored, { it with queues := rest, size := it.size - ignored })

/-- `CanisterOutputQueuesIterator::peek`: the message `pop` would give, left in its queue. -/
def peek : Except String (Option (QueueId × ℕ × RequestOrResponse)) :=
  match it.queues with
  | [] => pure none
  | receiver :: _ => do
    let (queueIndex, msg) ← Rust.expect
      ((outputQueue it.canisterQueues receiver).bind OutputQueue.peek) "Empty queue in iterator"
    pure (some (⟨it.owner, receiver⟩, queueIndex, msg))

/-- `size_hint`. -/
def sizeHint : ℕ × Option ℕ := (it.size, some it.size)

end CanisterOutputQueuesIterator

/-- A call on the output iterator. -/
inductive IteratorOp
  | pop
  | excludeQueue
  deriving DecidableEq

/-- A sequence of calls on the output iterator. -/
def runIterator (L : Layout) :
    List IteratorOp → CanisterOutputQueuesIterator → Except String CanisterOutputQueuesIterator
  | [], it => pure it
  | .pop :: ops, it => do
    let (_, it) ← it.pop L
    runIterator L ops it
  | .excludeQueue :: ops, it => runIterator L ops it.excludeQueue.2

namespace CanisterQueues

/-- `output_into_iter`. -/
def outputIntoIter (s : CanisterQueues) (owner : CanisterId) : CanisterOutputQueuesIterator :=
  .new owner s.canisterQueues s.memoryUsageStats s.outputQueuesStats

/-- The queues once the iterator is dropped: what it borrowed is theirs again. -/
def withIterator (s : CanisterQueues) (it : CanisterOutputQueuesIterator) : CanisterQueues :=
  { s with
    canisterQueues := it.canisterQueues
    memoryUsageStats := it.memoryStats
    outputQueuesStats := it.queueStats }

/-- One call of an operation of `CanisterQueues` that does not panic, successful or failed. -/
inductive Step (L : Layout) : CanisterQueues → CanisterQueues → Prop
  | pushIngress (s : CanisterQueues) (msg : Ingress) : Step L s (s.pushIngress L msg)
  | filterIngressMessages (s : CanisterQueues) (filter : ℕ → Ingress → Bool) :
      Step L s (s.filterIngressMessages L filter)
  | pushInput {s s' : CanisterQueues} {index : ℕ} {msg : RequestOrResponse}
      {inputQueueType : InputQueueType} {r : Except (StateError × RequestOrResponse) Unit} :
      s.pushInput L index msg inputQueueType = .ok (s', r) → Step L s s'
  | popInput {s s' : CanisterQueues} {r : Option CanisterInputMessage} :
      s.popInput L = .ok (s', r) → Step L s s'
  | pushOutputRequest {s s' : CanisterQueues} {msg : Request}
      {r : Except (StateError × Request) Unit} :
      s.pushOutputRequest L msg = .ok (s', r) → Step L s s'
  | pushOutputResponse {s s' : CanisterQueues} {msg : Response} :
      s.pushOutputResponse L msg = .ok s' → Step L s s'
  | outputQueuesForEach {s s' : CanisterQueues} {f : ℕ → CanisterId → RequestOrResponse → Bool} :
      s.outputQueuesForEach L f = .ok s' → Step L s s'
  | outputIntoIter {s : CanisterQueues} {owner : CanisterId} {ops : List IteratorOp}
      {it : CanisterOutputQueuesIterator} :
      runIterator L ops (s.outputIntoIter owner) = .ok it → Step L s (s.withIterator it)
  | inductMessageToSelf {s s' : CanisterQueues} {ownCanisterId : CanisterId}
      {r : Except Unit Unit} :
      s.inductMessageToSelf L ownCanisterId = .ok (s', r) → Step L s s'

/-- The states reachable from `CanisterQueues::default()`. -/
def Reachable (L : Layout) (s : CanisterQueues) : Prop :=
  Relation.ReflTransGen (Step L) (default L) s

/-- A sequence of `push_input` calls from a reachable state reaches its result. -/
theorem Reachable.pushInputs {L : Layout} :
    ∀ (pushes : List (ℕ × RequestOrResponse × InputQueueType)) {s s' : CanisterQueues},
      Reachable L s → pushes.foldlM (fun s p => Prod.fst <$> s.pushInput L p.1 p.2.1 p.2.2) s =
        .ok s' → Reachable L s'
  | [], _, _, hs, h => by
    cases h
    exact hs
  | p :: pushes, _, _, hs, h => by
    obtain ⟨t, ht, hrest⟩ := Except.bind_eq_ok.mp h
    obtain ⟨⟨t', r⟩, hpush, rfl⟩ := Except.map_eq_ok.mp ht
    exact Reachable.pushInputs pushes (hs.tail (.pushInput hpush)) hrest

end CanisterQueues

end IC.Queues
