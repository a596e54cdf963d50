import InternetComputer.CanisterQueues.CanisterQueues

/-!
# Failed pushes

A push that returns `Err` gives the message back and changes no message, reservation, schedule or
statistic: `push_input` and `push_output_request` check before they write. A failed call may
leave the empty pair of queues `get_or_insert_queues` created, and a response without a reserved
slot moves the input queue's index.

* `QueuePair.contents`, `FailedPush`; **`failedPush_changes_nothing`**.
-/

namespace IC.Queues

open IC.State (CanisterId)

/-- The messages and reservations of the queues from and to a canister. -/
def QueuePair.contents (qs : InputQueue × OutputQueue) :
    QueueWithReservation RequestOrResponse × QueueWithReservation RequestOrResponse :=
  (qs.1.queue, qs.2.queue)

theorem InputQueue.pushMessage_eq_error {q : QueueWithReservation RequestOrResponse}
    {msg : RequestOrResponse} {e : StateError × RequestOrResponse}
    (h : InputQueue.pushMessage q msg = .error e) : e.2 = msg := by
  cases msg with
  | request req => exact QueueWithReservation.push_eq_error h
  | response rep =>
    unfold InputQueue.pushMessage QueueWithReservation.pushIntoReservedSlot at h
    split_ifs at h
    cases h
    rfl

namespace CanisterQueues

variable (L : Layout)

/-- The queues of `s'` hold what those of `s` hold, the input statistics kept; or `s'` has a new
empty pair for `peer`, counted in the input statistics. -/
def QueuesKept (s s' : CanisterQueues) (peer : CanisterId) : Prop :=
  ((∀ c, (s'.canisterQueues.get? c).map QueuePair.contents =
      (s.canisterQueues.get? c).map QueuePair.contents) ∧
    s'.inputQueuesStats = s.inputQueuesStats) ∨
  (s.canisterQueues.get? peer = none ∧
    (∀ c, (s'.canisterQueues.get? c).map QueuePair.contents =
      ((s.canisterQueues.insert peer
        (InputQueue.new defaultQueueCapacity, OutputQueue.new defaultQueueCapacity)).get? c).map
          QueuePair.contents) ∧
    s'.inputQueuesStats = { s.inputQueuesStats with
      sizeBytes := s.inputQueuesStats.sizeBytes +
        (InputQueue.new defaultQueueCapacity).calculateSizeBytes L })

/-- What a failed push to or from `peer` leaves of `s` in `s'`. -/
structure FailedPush (s s' : CanisterQueues) (peer : CanisterId) : Prop where
  ingressQueue : s'.ingressQueue = s.ingressQueue
  localSubnetInputSchedule : s'.localSubnetInputSchedule = s.localSubnetInputSchedule
  remoteSubnetInputSchedule : s'.remoteSubnetInputSchedule = s.remoteSubnetInputSchedule
  outputQueuesStats : s'.outputQueuesStats = s.outputQueuesStats
  memoryUsageStats : s'.memoryUsageStats = s.memoryUsageStats
  nextInputQueue : s'.nextInputQueue = s.nextInputQueue
  queues : QueuesKept L s s' peer

variable {L}

theorem FailedPush.refl (s : CanisterQueues) (peer : CanisterId) : FailedPush L s s peer :=
  ⟨rfl, rfl, rfl, rfl, rfl, rfl, Or.inl ⟨fun _ => rfl, rfl⟩⟩

theorem failedPush_getOrInsertQueues (s : CanisterQueues) (peer : CanisterId) :
    FailedPush L s (s.getOrInsertQueues L peer).1 peer := by
  unfold getOrInsertQueues
  split
  · exact FailedPush.refl s peer
  · rename_i hget
    exact ⟨rfl, rfl, rfl, rfl, rfl, rfl, Or.inr ⟨hget, fun _ => rfl, rfl⟩⟩

theorem FailedPush.writeBack {s s' : CanisterQueues} {peer k : CanisterId}
    {qs qs' : InputQueue × OutputQueue} (h : FailedPush L s s' peer)
    (hget : s'.canisterQueues.get? k = some qs)
    (hqs : QueuePair.contents qs' = QueuePair.contents qs) :
    FailedPush L s { s' with canisterQueues := s'.canisterQueues.insert k qs' } peer := by
  have hmap : ∀ c, ((s'.canisterQueues.insert k qs').get? c).map QueuePair.contents =
      (s'.canisterQueues.get? c).map QueuePair.contents := by
    intro c
    rw [SortedMap.get?_insert]
    split_ifs with hc
    · rw [hc, hget, Option.map_some, Option.map_some, hqs]
    · rfl
  refine ⟨h.ingressQueue, h.localSubnetInputSchedule, h.remoteSubnetInputSchedule,
    h.outputQueuesStats, h.memoryUsageStats, h.nextInputQueue, ?_⟩
  rcases h.queues with ⟨hq, hin⟩ | ⟨hnone, hq, hin⟩
  · exact Or.inl ⟨fun c => (hmap c).trans (hq c), hin⟩
  · exact Or.inr ⟨hnone, fun c => (hmap c).trans (hq c), hin⟩

theorem pushInputInto_eq_error {s s' : CanisterQueues} {index : ℕ} {msg : RequestOrResponse}
    {ty : InputQueueType} {sender : CanisterId} {iq : InputQueue} {oq : OutputQueue}
    {e : StateError × RequestOrResponse}
    (h : s.pushInputInto L index msg ty sender iq oq = .ok (s', .error e)) :
    ∃ iq', iq.push index msg = .ok (iq', .error e) ∧
      s' = { s with canisterQueues := s.canisterQueues.insert sender (iq', oq) } := by
  unfold pushInputInto at h
  dsimp only at h
  obtain ⟨⟨iq', pushed⟩, hpush, h⟩ := Except.bind_eq_ok.mp h
  dsimp only at h
  split at h
  · cases h
    exact ⟨iq', hpush, rfl⟩
  · cases h

/-- **A failed `push_input` gives the message back and changes no message, reservation, schedule
or statistic**, but for the queues it may create for the sender. -/
theorem pushInput_failed (s : CanisterQueues) {index : ℕ} {msg : RequestOrResponse}
    {ty : InputQueueType} {s' : CanisterQueues} {e : StateError × RequestOrResponse}
    (h : s.pushInput L index msg ty = .ok (s', .error e)) :
    e.2 = msg ∧ FailedPush L s s' msg.sender := by
  cases msg with
  | request req =>
    have hins := failedPush_getOrInsertQueues (L := L) s req.sender
    rcases hg : s.getOrInsertQueues L req.sender with ⟨s₁, iq, oq₀⟩
    rw [hg] at hins
    simp only [pushInput, RequestOrResponse.sender, hg] at h
    split at h
    · cases h
      exact ⟨rfl, hins⟩
    · rename_i hcheck
      split at h
      · cases h
        exact ⟨rfl, hins⟩
      · -- past the check, the push of a request into the input queue cannot fail
        obtain ⟨iq', hpush, -⟩ := pushInputInto_eq_error h
        rcases InputQueue.push_eq_ok hpush with ⟨-, hr⟩ | ⟨e', hq, -, -⟩
        · cases hr
        · rw [InputQueue.pushMessage, QueueWithReservation.push_eq_ok.mpr
            ⟨InputQueue.checkHasSlot_eq_ok.mp hcheck, rfl⟩] at hq
          cases hq
  | response rep =>
    simp only [pushInput, RequestOrResponse.sender] at h
    split at h
    · rename_i iq oq hget
      obtain ⟨iq', hpush, rfl⟩ := pushInputInto_eq_error h
      rcases InputQueue.push_eq_ok hpush with ⟨-, hr⟩ | ⟨e', hq, hqueue, hr⟩
      · cases hr
      · cases hr
        exact ⟨InputQueue.pushMessage_eq_error hq,
          (FailedPush.refl s _).writeBack hget (by rw [QueuePair.contents, hqueue]; rfl)⟩
    · cases h
      exact ⟨rfl, FailedPush.refl s _⟩

/-- **A failed `push_output_request` gives the request back and changes no message, reservation,
schedule or statistic**, but for the queues it may create for the receiver. -/
theorem pushOutputRequest_failed (s : CanisterQueues) {msg : Request} {s' : CanisterQueues}
    {e : StateError × Request} (h : s.pushOutputRequest L msg = .ok (s', .error e)) :
    e.2 = msg ∧ FailedPush L s s' msg.receiver := by
  have hins := failedPush_getOrInsertQueues (L := L) s msg.receiver
  rcases hg : s.getOrInsertQueues L msg.receiver with ⟨s₁, iq, oq⟩
  rw [hg] at hins
  simp only [pushOutputRequest, hg] at h
  split at h
  · cases h
    exact ⟨rfl, hins⟩
  · split at h
    · cases h
      exact ⟨rfl, hins⟩
    · obtain ⟨oq', -, h⟩ := Except.bind_eq_ok.mp h
      cases h

/-- **Failed pushes change nothing**: a push that returns `Err` gives the message back and leaves
everything but the empty queues it may create for the peer. -/
theorem failedPush_changes_nothing (s : CanisterQueues) :
    (∀ index msg ty s' e, s.pushInput L index msg ty = .ok (s', .error e) →
      e.2 = msg ∧ FailedPush L s s' msg.sender) ∧
    (∀ msg s' e, s.pushOutputRequest L msg = .ok (s', .error e) →
      e.2 = msg ∧ FailedPush L s s' msg.receiver) :=
  ⟨fun _ _ _ _ _ h => pushInput_failed s h, fun _ _ _ h => pushOutputRequest_failed s h⟩

/-- A response from a canister without queues is refused; and after 500 requests from `peer`,
its input queue is full and its output queue's slots are all reserved, so that a request from it
and a request to it are both refused at the default capacity. -/
theorem failedPush_changes_nothing_at_missing_and_full_queues :
    let L : Layout := ⟨0, 0, 0, 0, 0⟩
    let peer : CanisterId := ⟨[1], by decide⟩
    let rep : Response := ⟨peer, peer, 0, .data []⟩
    let req : Request := ⟨peer, peer, 0, "", []⟩
    let full := (List.range defaultQueueCapacity).foldlM (fun s i =>
      Prod.fst <$> s.pushInput L i (.request req) .localSubnet) (CanisterQueues.default L)
    (∃ s', (CanisterQueues.default L).pushInput L 0 (.response rep) .localSubnet =
        .ok (s', .error (.queueFull 0, .response rep)) ∧
      FailedPush L (CanisterQueues.default L) s' peer) ∧
    ∃ s, full = .ok s ∧
      (∃ s', s.pushInput L defaultQueueCapacity (.request req) .localSubnet =
          .ok (s', .error (.queueFull defaultQueueCapacity, .request req)) ∧
        FailedPush L s s' peer) ∧
      (∃ s', s.pushOutputRequest L req = .ok (s', .error (.queueFull defaultQueueCapacity, req)) ∧
        FailedPush L s s' peer) := by
  intro L peer rep req full
  have h₁ : (CanisterQueues.default L).pushInput L 0 (.response rep) .localSubnet =
      .ok (CanisterQueues.default L, .error (.queueFull 0, .response rep)) := rfl
  -- the kernel runs the 500 pushes and the two refused ones
  have hrun : (full.toOption.map fun s =>
      decide (Prod.snd <$> s.pushInput L defaultQueueCapacity (.request req) .localSubnet =
          .ok (.error (.queueFull defaultQueueCapacity, .request req))) &&
        decide (Prod.snd <$> s.pushOutputRequest L req =
          .ok (.error (.queueFull defaultQueueCapacity, req)))) = some true := by
    decide +kernel
  obtain ⟨s, hfull, hok⟩ := Except.exists_eq_ok_of_toOption_map hrun
  simp only [Bool.and_eq_true, decide_eq_true_eq] at hok
  obtain ⟨⟨s₂, _⟩, h₂, rfl⟩ := Except.map_eq_ok.mp hok.1
  obtain ⟨⟨s₃, _⟩, h₃, rfl⟩ := Except.map_eq_ok.mp hok.2
  exact ⟨⟨_, h₁, ((failedPush_changes_nothing (CanisterQueues.default L)).1 _ _ _ _ _ h₁).2⟩, s,
    hfull, ⟨s₂, h₂, ((failedPush_changes_nothing s).1 _ _ _ _ _ h₂).2⟩,
    ⟨s₃, h₃, ((failedPush_changes_nothing s).2 _ _ _ h₃).2⟩⟩

end CanisterQueues

end IC.Queues
