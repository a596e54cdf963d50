import InternetComputer.CanisterQueues.CanisterQueues
import Mathlib

/-!
# The invariant of `CanisterQueues`

What every call keeps: each running counter equals what the queues hold, every queue stays within
its capacity, and the schedules hold each sender with a non-empty input queue exactly once. The
running cycles are exact as long as the cycles in the queues fit into a `u128`, as `+=`
saturates.

* `Counter`, with **`Counter.ofQueues_eq`**, and how each statistics update moves the counters;
* `Valid`, `CyclesExact`, `CyclesFit`, and **`Valid.write`**: a write of the queues of one canister
  that moves the counters as much as the queues move keeps the invariant.
-/

namespace IC.Queues

open IC.State (CanisterId)

/-! ## Counters -/

/-- The running counters of `CanisterQueues` that count exactly. -/
inductive Counter
  | inputMessageCount
  | inputResponseCount
  | inputReservedSlots
  | inputSizeBytes
  | outputMessageCount
  | responsesSizeBytes
  | reservedSlots
  | oversizedRequestsExtraBytes
  deriving DecidableEq

namespace Counter

/-- The value of a counter in the statistics. -/
def read : Counter → InputQueuesStats → OutputQueuesStats → MemoryUsageStats → ℤ
  | inputMessageCount, i, _, _ => i.messageCount
  | inputResponseCount, i, _, _ => i.responseCount
  | inputReservedSlots, i, _, _ => i.reservedSlots
  | inputSizeBytes, i, _, _ => i.sizeBytes
  | outputMessageCount, _, o, _ => o.messageCount
  | responsesSizeBytes, _, _, m => m.responsesSizeBytes
  | reservedSlots, _, _, m => m.reservedSlots
  | oversizedRequestsExtraBytes, _, _, m => m.oversizedRequestsExtraBytes

/-- The running value of a counter. -/
def running (c : Counter) (s : CanisterQueues) : ℤ :=
  c.read s.inputQueuesStats s.outputQueuesStats s.memoryUsageStats

variable (L : Layout)

/-- What a counter counts of one canister's queues, as `calculate_*_stats` does. -/
def ofQueues : Counter → InputQueue × OutputQueue → ℤ
  | inputMessageCount, qs => qs.1.numMessages
  | inputResponseCount, qs => qs.1.calculateStatSum responseCount
  | inputReservedSlots, qs => qs.1.reservedSlots
  | inputSizeBytes, qs => qs.1.calculateSizeBytes L
  | outputMessageCount, qs => qs.2.numMessages
  | responsesSizeBytes, qs =>
    qs.1.calculateStatSum (responseSizeBytes L) + qs.2.calculateStatSum (responseSizeBytes L)
  | reservedSlots, qs => qs.1.reservedSlots + qs.2.reservedSlots
  | oversizedRequestsExtraBytes, qs =>
    qs.1.calculateStatSum (requestOverheadBytes L) + qs.2.calculateStatSum (requestOverheadBytes L)

/-- What one message in an input queue adds to a counter. -/
def inInput : Counter → RequestOrResponse → ℤ
  | inputMessageCount, _ => 1
  | inputResponseCount, msg => responseCount msg
  | inputSizeBytes, msg => msg.countBytes L
  | responsesSizeBytes, msg => responseSizeBytes L msg
  | oversizedRequestsExtraBytes, msg => requestOverheadBytes L msg
  | _, _ => 0

/-- What one message in an output queue adds to a counter. -/
def inOutput : Counter → RequestOrResponse → ℤ
  | outputMessageCount, _ => 1
  | responsesSizeBytes, msg => responseSizeBytes L msg
  | oversizedRequestsExtraBytes, msg => requestOverheadBytes L msg
  | _, _ => 0

/-- What a reserved slot of an input queue adds to a counter. -/
def inputReservation : Counter → ℤ
  | inputReservedSlots => 1
  | reservedSlots => 1
  | _ => 0

/-- What a reserved slot of an output queue adds to a counter. -/
def outputReservation : Counter → ℤ
  | reservedSlots => 1
  | _ => 0

/-- What a pair of empty queues adds to a counter: the bytes of the input queue's struct. -/
def emptyQueues : Counter → ℤ
  | inputSizeBytes => L.inputQueue
  | _ => 0

/-- How far `push_input` moves a counter: a request brings its bytes and reserves its response's
slot; a response brings its bytes into the slot reserved for it. -/
def pushedInput (c : Counter) : RequestOrResponse → ℤ
  | msg@(.request _) => c.inInput L msg + c.outputReservation
  | msg@(.response _) => c.inInput L msg - c.inputReservation

theorem ofQueues_eq (c : Counter) (iq : InputQueue) (oq : OutputQueue) :
    c.ofQueues L (iq, oq) = c.emptyQueues L +
      ((iq.queue.queue.map fun msg => c.inInput L msg).sum +
        iq.queue.numSlotsReserved * c.inputReservation) +
      ((oq.queue.queue.map fun msg => c.inOutput L msg).sum +
        oq.queue.numSlotsReserved * c.outputReservation) := by
  cases c <;>
    simp [ofQueues, emptyQueues, inInput, inOutput, inputReservation, outputReservation,
      InputQueue.numMessages, OutputQueue.numMessages, QueueWithReservation.numMessages,
      InputQueue.calculateStatSum, OutputQueue.calculateStatSum,
      QueueWithReservation.calculateStatSum, InputQueue.reservedSlots, OutputQueue.reservedSlots,
      QueueWithReservation.reservedSlots, InputQueue.calculateSizeBytes, Nat.cast_list_sum,
      Function.comp_def]

theorem ofQueues_nonneg (c : Counter) (qs : InputQueue × OutputQueue) : 0 ≤ c.ofQueues L qs := by
  cases c <;> simp only [ofQueues] <;> omega

theorem ofQueues_congr {c : Counter} {iq iq' : InputQueue} {oq oq' : OutputQueue}
    (hi : iq'.queue.queue = iq.queue.queue) (hir : iq'.queue.numSlotsReserved = iq.queue.numSlotsReserved)
    (ho : oq'.queue.queue = oq.queue.queue) (hor : oq'.queue.numSlotsReserved = oq.queue.numSlotsReserved) :
    c.ofQueues L (iq', oq') = c.ofQueues L (iq, oq) := by
  rw [ofQueues_eq, ofQueues_eq, hi, hir, ho, hor]

/-! ### How the statistics updates move the counters -/

theorem read_push_input (c : Counter) (i : InputQueuesStats) (o : OutputQueuesStats)
    (m : MemoryUsageStats) (msg : RequestOrResponse) :
    c.read (i.addAssign (InputQueuesStats.statsDelta L .push msg)) o
        (m.addAssign (MemoryUsageStats.statsDelta L .push msg)) =
      c.read i o m + c.pushedInput L msg := by
  cases c <;> cases msg <;>
    simp only [read, pushedInput, inInput, inputReservation, outputReservation,
      InputQueuesStats.addAssign, InputQueuesStats.statsDelta, MemoryUsageStats.addAssign,
      MemoryUsageStats.statsDelta, MemoryUsageStats.requestStatsDelta,
      MemoryUsageStats.responseStatsDelta, responseCount, responseSizeBytes, requestOverheadBytes,
      RequestOrResponse.countBytes] <;> omega

theorem read_pop_input (c : Counter) (i : InputQueuesStats) (o : OutputQueuesStats)
    (m : MemoryUsageStats) (msg : RequestOrResponse)
    (hle : ∀ c : Counter, c.inInput L msg ≤ c.read i o m) :
    c.read (i.subAssign (InputQueuesStats.statsDelta L .pop msg)) o
        (m.subAssign (MemoryUsageStats.statsDelta L .pop msg)) =
      c.read i o m - c.inInput L msg := by
  -- the `usize` fields do not go below zero: the message is counted in them
  have h₁ := hle inputMessageCount
  have h₂ := hle inputResponseCount
  have h₃ := hle inputSizeBytes
  have h₄ := hle responsesSizeBytes
  have h₅ := hle oversizedRequestsExtraBytes
  cases c <;> cases msg <;>
    simp only [read, inInput, InputQueuesStats.subAssign, InputQueuesStats.statsDelta,
      MemoryUsageStats.subAssign, MemoryUsageStats.statsDelta, MemoryUsageStats.requestStatsDelta,
      MemoryUsageStats.responseStatsDelta, responseCount, responseSizeBytes, requestOverheadBytes,
      RequestOrResponse.countBytes] at h₁ h₂ h₃ h₄ h₅ ⊢ <;> omega

theorem read_push_output_request (c : Counter) (i : InputQueuesStats) (o : OutputQueuesStats)
    (m : MemoryUsageStats) (req : Request) :
    c.read { i with reservedSlots := i.reservedSlots + 1 }
        (o.addAssign (OutputQueuesStats.statsDelta (.request req)))
        (m.addAssign (MemoryUsageStats.requestStatsDelta L .push req)) =
      c.read i o m + c.inOutput L (.request req) + c.inputReservation := by
  cases c <;>
    simp only [read, inOutput, inputReservation, OutputQueuesStats.addAssign,
      OutputQueuesStats.statsDelta, MemoryUsageStats.addAssign, MemoryUsageStats.requestStatsDelta,
      responseSizeBytes, requestOverheadBytes, RequestOrResponse.countBytes] <;> omega

theorem read_push_output_response (c : Counter) (i : InputQueuesStats) (o : OutputQueuesStats)
    (m : MemoryUsageStats) (rep : Response) :
    c.read i (o.addAssign (OutputQueuesStats.statsDelta (.response rep)))
        (m.addAssign (MemoryUsageStats.responseStatsDelta L .push rep)) =
      c.read i o m + c.inOutput L (.response rep) - c.outputReservation := by
  cases c <;>
    simp [read, inOutput, outputReservation, OutputQueuesStats.addAssign,
      OutputQueuesStats.statsDelta, MemoryUsageStats.addAssign, MemoryUsageStats.responseStatsDelta,
      responseSizeBytes, requestOverheadBytes, RequestOrResponse.countBytes] <;> omega

theorem read_pop_output (c : Counter) (i : InputQueuesStats) (o : OutputQueuesStats)
    (m : MemoryUsageStats) (msg : RequestOrResponse)
    (hle : ∀ c : Counter, c.inOutput L msg ≤ c.read i o m) :
    c.read i (o.subAssign (OutputQueuesStats.statsDelta msg))
        (m.subAssign (MemoryUsageStats.statsDelta L .pop msg)) =
      c.read i o m - c.inOutput L msg := by
  have h₁ := hle outputMessageCount
  have h₂ := hle responsesSizeBytes
  have h₃ := hle oversizedRequestsExtraBytes
  cases c <;> cases msg <;>
    simp only [read, inOutput, OutputQueuesStats.subAssign, OutputQueuesStats.statsDelta,
      MemoryUsageStats.subAssign, MemoryUsageStats.statsDelta, MemoryUsageStats.requestStatsDelta,
      MemoryUsageStats.responseStatsDelta, responseSizeBytes, requestOverheadBytes,
      RequestOrResponse.countBytes] at h₁ h₂ h₃ ⊢ <;> omega

theorem read_create (c : Counter) (i : InputQueuesStats) (o : OutputQueuesStats)
    (m : MemoryUsageStats) :
    c.read { i with sizeBytes := i.sizeBytes +
        (InputQueue.new defaultQueueCapacity).calculateSizeBytes L } o m =
      c.read i o m + c.emptyQueues L := by
  cases c <;>
    simp [read, emptyQueues, InputQueue.calculateSizeBytes, InputQueue.new,
      QueueWithReservation.new, QueueWithReservation.calculateStatSum]

end Counter

/-! ## Schedules and capacities -/

namespace CanisterQueues

/-- The schedules of both buckets. -/
def schedules (s : CanisterQueues) : List CanisterId :=
  s.localSubnetInputSchedule ++ s.remoteSubnetInputSchedule

variable (s : CanisterQueues) (ty : InputQueueType)

theorem schedules_push (k : CanisterId) :
    (s.setInputSchedule ty (s.inputSchedule ty ++ [k])).schedules.Perm (s.schedules ++ [k]) := by
  cases ty
  · simp only [setInputSchedule, inputSchedule, schedules, List.append_assoc]
    exact List.Perm.append_left _ List.perm_append_comm
  · simp [setInputSchedule, inputSchedule, schedules]

theorem schedules_rotate {k : CanisterId} {rest : List CanisterId}
    (h : s.inputSchedule ty = k :: rest) :
    (s.setInputSchedule ty (rest ++ [k])).schedules.Perm s.schedules := by
  cases ty
  · simp only [inputSchedule] at h
    simp only [setInputSchedule, schedules, h]
    exact List.Perm.append_right _ (List.perm_append_singleton k rest)
  · simp only [inputSchedule] at h
    simp only [setInputSchedule, schedules, h]
    exact List.Perm.append_left _ (List.perm_append_singleton k rest)

theorem schedules_drop {k : CanisterId} {rest : List CanisterId}
    (h : s.inputSchedule ty = k :: rest) :
    s.schedules.Perm (k :: (s.setInputSchedule ty rest).schedules) := by
  cases ty
  · simp only [inputSchedule] at h
    simp [setInputSchedule, schedules, h]
  · simp only [inputSchedule] at h
    simp only [setInputSchedule, schedules, h]
    exact List.perm_middle

end CanisterQueues

/-- Each sender whose input queue is not empty is scheduled once, and no other sender. -/
def SchedulesExact (sched : List CanisterId) (m : QueueMap) : Prop :=
  sched.Nodup ∧ ∀ k, k ∈ sched ↔ ∃ qs, m.get? k = some qs ∧ 0 < qs.1.numMessages

/-- Every queue keeps its messages and reservations within its capacity. -/
def CapacityOk (m : QueueMap) : Prop :=
  ∀ k qs, m.get? k = some qs → qs.1.queue.Fits ∧ qs.2.queue.Fits

/-- How a write of the queues of `k` may move `k` in the schedules: nowhere while its input
queue stays empty or stays non-empty, in at the back when the queue fills, out when it
empties. -/
def ScheduleMove (k : CanisterId) (qs qs' : InputQueue × OutputQueue)
    (sched sched' : List CanisterId) : Prop :=
  ((0 < qs.1.numMessages ↔ 0 < qs'.1.numMessages) ∧ sched'.Perm sched) ∨
    (qs.1.numMessages = 0 ∧ 0 < qs'.1.numMessages ∧ sched'.Perm (sched ++ [k])) ∨
    (0 < qs.1.numMessages ∧ qs'.1.numMessages = 0 ∧ sched.Perm (k :: sched'))

namespace SchedulesExact

variable {sched sched' : List CanisterId} {m : QueueMap} {k : CanisterId}
  {qs qs' : InputQueue × OutputQueue}

theorem write (h : SchedulesExact sched m) (hget : m.get? k = some qs)
    (hmove : ScheduleMove k qs qs' sched sched') : SchedulesExact sched' (m.insert k qs') := by
  obtain ⟨hnodup, hmem⟩ := h
  -- a key is scheduled after the write by its new queue if written, and as before if not
  have hmem' : ∀ j, (∃ q, (m.insert k qs').get? j = some q ∧ 0 < q.1.numMessages) ↔
      if j = k then 0 < qs'.1.numMessages else j ∈ sched := by
    intro j
    rw [SortedMap.get?_insert]
    split_ifs with hj
    · simp
    · exact (hmem j).symm
  have hk : k ∈ sched ↔ 0 < qs.1.numMessages := by
    rw [hmem]
    simp [hget]
  rcases hmove with ⟨hiff, hperm⟩ | ⟨hempty, hfull, hperm⟩ | ⟨hfull, hempty, hperm⟩
  · refine ⟨hperm.nodup_iff.mpr hnodup, fun j => ?_⟩
    rw [hmem', hperm.mem_iff]
    split_ifs with hj
    · rw [hj, hk, hiff]
    · rfl
  · have hnot : k ∉ sched := by
      rw [hk]
      omega
    have hperm' := hperm.trans (List.perm_append_singleton k sched)
    refine ⟨hperm'.nodup_iff.mpr (List.nodup_cons.mpr ⟨hnot, hnodup⟩), fun j => ?_⟩
    rw [hmem', hperm'.mem_iff, List.mem_cons]
    split_ifs with hj
    · simp [hj, hfull]
    · simp [hj]
  · have hnodup' := List.nodup_cons.mp (hperm.nodup_iff.mp hnodup)
    refine ⟨hnodup'.2, fun j => ?_⟩
    rw [hmem']
    split_ifs with hj
    · subst hj
      simp [hnodup'.1, hempty]
    · rw [hperm.mem_iff, List.mem_cons]
      simp [hj]

theorem insert_new (h : SchedulesExact sched m) (hget : m.get? k = none)
    (hempty : qs'.1.numMessages = 0) : SchedulesExact sched (m.insert k qs') := by
  refine ⟨h.1, fun j => ?_⟩
  rw [h.2 j, SortedMap.get?_insert]
  split_ifs with hj
  · subst hj
    simp [hget, hempty]
  · rfl

end SchedulesExact

namespace CapacityOk

variable {m : QueueMap} {k : CanisterId} {qs' : InputQueue × OutputQueue}

theorem write (h : CapacityOk m) (hfits : qs'.1.queue.Fits ∧ qs'.2.queue.Fits) :
    CapacityOk (m.insert k qs') := by
  intro j q hj
  rw [SortedMap.get?_insert] at hj
  split_ifs at hj
  · cases hj
    exact hfits
  · exact h j q hj

end CapacityOk

/-! ## The invariant -/

/-- The invariant of `CanisterQueues`: the counters are what the queues hold, the transient bytes
are zero, every queue is within its capacity, and the schedules are exact. -/
structure Valid (L : Layout) (s : CanisterQueues) : Prop where
  counters : ∀ c : Counter, c.running s = s.canisterQueues.sumValues (c.ofQueues L)
  transient : s.memoryUsageStats.transientStreamResponsesSizeBytes = 0
  ingress : s.ingressQueue.sizeBytes = IngressQueue.sizeBytesOf L s.ingressQueue.queue
  capacity : CapacityOk s.canisterQueues
  schedules : SchedulesExact s.schedules s.canisterQueues

/-- The cycles the messages of a queue carry, added without a bound. -/
def cyclesOf (msgs : List RequestOrResponse) : ℕ := (msgs.map fun msg => msg.cycles.val).sum

/-- The cycles in an input queue. -/
def inputCycles (qs : InputQueue × OutputQueue) : ℕ := cyclesOf qs.1.queue.queue

/-- The cycles in an output queue. -/
def outputCycles (qs : InputQueue × OutputQueue) : ℕ := cyclesOf qs.2.queue.queue

/-- The running cycles are the cycles in the queues. -/
structure CyclesExact (s : CanisterQueues) : Prop where
  input : s.inputQueuesStats.cycles.val = s.canisterQueues.sumValues inputCycles
  output : s.outputQueuesStats.cycles.val = s.canisterQueues.sumValues outputCycles

/-- The cycles in the input queues, and those in the output queues, fit into a `u128`. -/
def CyclesFit (s : CanisterQueues) : Prop :=
  s.canisterQueues.sumValues inputCycles ≤ u128Max ∧ s.canisterQueues.sumValues outputCycles ≤ u128Max

/-- Exact running cycles fit, as they are a `u128`. -/
theorem CyclesExact.fit {s : CanisterQueues} (h : CyclesExact s) : CyclesFit s :=
  ⟨h.input ▸ s.inputQueuesStats.cycles.le_max, h.output ▸ s.outputQueuesStats.cycles.le_max⟩

section Write

variable {L : Layout} {s s' : CanisterQueues} {k : CanisterId} {qs qs' : InputQueue × OutputQueue}

/-- A write of the queues of `k` keeps the invariant when the counters move as the queues do and
the ingress queue, transient bytes, capacities and schedules stay right. -/
theorem Valid.write (Δ : Counter → ℤ) (hv : Valid L s) (hget : s.canisterQueues.get? k = some qs)
    (hmap : s'.canisterQueues = s.canisterQueues.insert k qs')
    (hrun : ∀ c, c.running s' = c.running s + Δ c)
    (hqs : ∀ c, c.ofQueues L qs' = c.ofQueues L qs + Δ c)
    (htransient : s'.memoryUsageStats.transientStreamResponsesSizeBytes =
      s.memoryUsageStats.transientStreamResponsesSizeBytes)
    (hingress : s'.ingressQueue = s.ingressQueue) (hfits : qs'.1.queue.Fits ∧ qs'.2.queue.Fits)
    (hmove : ScheduleMove k qs qs' s.schedules s'.schedules) : Valid L s' where
  counters c := by
    rw [hmap]
    apply SortedMap.eq_sumValues_insert hget (hv.counters c)
    rw [hrun, hqs]
    omega
  transient := htransient.trans hv.transient
  ingress := hingress ▸ hv.ingress
  capacity := hmap ▸ hv.capacity.write hfits
  schedules := hmap ▸ hv.schedules.write hget hmove

theorem Valid.ofQueues_le (hv : Valid L s) (hget : s.canisterQueues.get? k = some qs)
    (c : Counter) : c.ofQueues L qs ≤ c.running s :=
  hv.counters c ▸ SortedMap.le_sumValues (Counter.ofQueues_nonneg L c) hget

/-- A write of the queues of `k` keeps the cycles exact when they move with the queues. -/
theorem CyclesExact.write (hc : CyclesExact s) (hget : s.canisterQueues.get? k = some qs)
    (hmap : s'.canisterQueues = s.canisterQueues.insert k qs')
    (hin : s'.inputQueuesStats.cycles.val + inputCycles qs =
      s.inputQueuesStats.cycles.val + inputCycles qs')
    (hout : s'.outputQueuesStats.cycles.val + outputCycles qs =
      s.outputQueuesStats.cycles.val + outputCycles qs') : CyclesExact s' where
  input := hmap ▸ SortedMap.eq_sumValues_insert hget hc.input hin
  output := hmap ▸ SortedMap.eq_sumValues_insert hget hc.output hout

end Write

end IC.Queues
