import InternetComputer.CanisterQueues.Steps

/-!
# Every queue keeps the capacity it was created with

`get_or_insert_queues` creates the queues from and to a canister with
`DEFAULT_QUEUE_CAPACITY`, and no call changes the capacity of a queue: pushes, reservations and
pops only change its messages, its reserved slots and its index. So in every reachable state every
queue has the default capacity, which is what decoding the queues from their protobuf form
requires.

* `capacities`, `CapacityKept`: the capacities of a pair of queues, and a map whose queues have
  the capacities of those of another map or the default ones;
* one lemma per call, `capacityKept_pushInput` and the others, and **`Step.capacityKept`**;
* **`Reachable.capacityDefault`**.
-/

namespace IC.Queues

open IC.State (CanisterId)

/-! ## The capacity of a queue -/

namespace QueueWithReservation

variable {α : Type} {q q' : QueueWithReservation α} {msg : α}

theorem capacity_of_push (h : q.push msg = .ok q') : q'.capacity = q.capacity := by
  rw [(push_eq_ok.mp h).2]

theorem capacity_of_pushIntoReservedSlot (h : q.pushIntoReservedSlot msg = .ok q') :
    q'.capacity = q.capacity := by
  rw [(pushIntoReservedSlot_eq_ok.mp h).2]

theorem capacity_of_pop (h : q.pop = some (msg, q')) : q'.capacity = q.capacity := by
  obtain ⟨rest, -, rfl⟩ := pop_eq_some.mp h
  rfl

end QueueWithReservation

namespace InputQueue

variable {q q' : InputQueue}

theorem capacity_of_push {msgInd : ℕ} {msg : RequestOrResponse}
    {r : Except (StateError × RequestOrResponse) Unit} (h : q.push msgInd msg = .ok (q', r)) :
    q'.queue.capacity = q.queue.capacity := by
  rcases push_eq_ok h with ⟨hpush, -⟩ | ⟨e, -, hq, -⟩
  · cases msg with
    | request req => exact QueueWithReservation.capacity_of_push hpush
    | response rep => exact QueueWithReservation.capacity_of_pushIntoReservedSlot hpush
  · rw [hq]

theorem capacity_of_reserveSlot (h : q.reserveSlot = .ok q') :
    q'.queue.capacity = q.queue.capacity := by
  rw [(reserveSlot_eq_ok.mp h).2]

theorem capacity_of_pop {msg : RequestOrResponse} (h : q.pop = some (msg, q')) :
    q'.queue.capacity = q.queue.capacity := by
  obtain ⟨rest, -, rfl⟩ := pop_eq_some.mp h
  rfl

end InputQueue

namespace OutputQueue

variable {q q' : OutputQueue}

theorem capacity_of_reserveSlot (h : q.reserveSlot = .ok q') :
    q'.queue.capacity = q.queue.capacity := by
  rw [(reserveSlot_eq_ok.mp h).2]

theorem capacity_of_pushRequest {msg : Request} (h : q.pushRequest msg = .ok q') :
    q'.queue.capacity = q.queue.capacity := by
  rw [(pushRequest_eq_ok.mp h).2]

theorem capacity_of_pushResponse {msg : Response} (h : q.pushResponse msg = .ok q') :
    q'.queue.capacity = q.queue.capacity := by
  rw [(pushResponse_eq_ok.mp h).2]

theorem capacity_of_pop {x : ℕ × RequestOrResponse} (h : q.pop = some (x, q')) :
    q'.queue.capacity = q.queue.capacity := by
  obtain ⟨-, rest, -, rfl⟩ := pop_eq_some.mp h
  rfl

end OutputQueue

/-! ## Maps of queues -/

/-- The capacities of the queues from and to a canister. -/
def capacities (qs : InputQueue × OutputQueue) : ℕ × ℕ := (qs.1.queue.capacity, qs.2.queue.capacity)

/-- The capacities `get_or_insert_queues` gives new queues. -/
def defaultCapacities : ℕ × ℕ := (defaultQueueCapacity, defaultQueueCapacity)

/-- A pair of queues has the capacities of `m`'s pair for `k`, or the default ones. -/
def CapacityFrom (m : QueueMap) (k : CanisterId) (qs' : InputQueue × OutputQueue) : Prop :=
  (∃ qs, m.get? k = some qs ∧ capacities qs' = capacities qs) ∨ capacities qs' = defaultCapacities

/-- Every queue of `m'` has the capacity of the queue of `m` it comes from, or the default one. -/
def CapacityKept (m m' : QueueMap) : Prop :=
  ∀ k qs', m'.get? k = some qs' → CapacityFrom m k qs'

/-- Every queue has the default capacity. -/
def CapacityDefault (m : QueueMap) : Prop :=
  ∀ k qs, m.get? k = some qs → capacities qs = defaultCapacities

namespace CapacityKept

variable {m m' m'' : QueueMap}

theorem refl (m : QueueMap) : CapacityKept m m :=
  fun _ qs' h => Or.inl ⟨qs', h, rfl⟩

theorem trans (h₁ : CapacityKept m m') (h₂ : CapacityKept m' m'') : CapacityKept m m'' := by
  intro k qs'' hget
  rcases h₂ k qs'' hget with ⟨qs', hget', hcap⟩ | hdef
  · rcases h₁ k qs' hget' with ⟨qs, hget₀, hcap'⟩ | hdef
    · exact Or.inl ⟨qs, hget₀, hcap.trans hcap'⟩
    · exact Or.inr (hcap.trans hdef)
  · exact Or.inr hdef

/-- Writing a pair of queues with the capacities of those of `m` under its canister. -/
theorem insert (h : CapacityKept m m') {k : CanisterId} {qs' : InputQueue × OutputQueue}
    (hk : CapacityFrom m k qs') : CapacityKept m (m'.insert k qs') := by
  intro j qs hget
  rw [SortedMap.get?_insert] at hget
  split_ifs at hget with hj
  · cases hget
    exact hj ▸ hk
  · exact h j qs hget

theorem insert_of_get? {k : CanisterId} {qs qs' : InputQueue × OutputQueue}
    (hget : m.get? k = some qs) (hcap : capacities qs' = capacities qs) :
    CapacityKept m (m.insert k qs') :=
  (refl m).insert (Or.inl ⟨qs, hget, hcap⟩)

theorem capacityDefault (h : CapacityKept m m') (hm : CapacityDefault m) : CapacityDefault m' := by
  intro k qs' hget
  rcases h k qs' hget with ⟨qs, hget₀, hcap⟩ | hdef
  · exact hcap.trans (hm k qs hget₀)
  · exact hdef

end CapacityKept

/-! ## One lemma per call -/

variable {L : Layout} {s s' : CanisterQueues}

theorem getOrInsertQueues_get? (k : CanisterId) :
    (s.getOrInsertQueues L k).1.canisterQueues.get? k = some (s.getOrInsertQueues L k).2 := by
  unfold CanisterQueues.getOrInsertQueues
  split
  · assumption
  · simp [SortedMap.get?_insert]

theorem capacityKept_getOrInsertQueues (k : CanisterId) :
    CapacityKept s.canisterQueues (s.getOrInsertQueues L k).1.canisterQueues := by
  unfold CanisterQueues.getOrInsertQueues
  split
  · exact CapacityKept.refl _
  · exact (CapacityKept.refl _).insert (Or.inr rfl)

theorem capacityKept_pushInputInto {index : ℕ} {msg : RequestOrResponse} {ty : InputQueueType}
    {sender : CanisterId} {iq : InputQueue} {oq : OutputQueue}
    {r : Except (StateError × RequestOrResponse) Unit} {qs : InputQueue × OutputQueue}
    (hget : s.canisterQueues.get? sender = some qs) (hcap : capacities (iq, oq) = capacities qs)
    (h : s.pushInputInto L index msg ty sender iq oq = .ok (s', r)) :
    CapacityKept s.canisterQueues s'.canisterQueues := by
  obtain ⟨iq', hpush, hmap, -⟩ := pushInputInto_eq_ok h
  rw [hmap]
  refine CapacityKept.insert_of_get? hget (Eq.trans ?_ hcap)
  rw [capacities, capacities, InputQueue.capacity_of_push hpush]

theorem capacityKept_pushInput {index : ℕ} {msg : RequestOrResponse} {ty : InputQueueType}
    {r : Except (StateError × RequestOrResponse) Unit}
    (h : s.pushInput L index msg ty = .ok (s', r)) :
    CapacityKept s.canisterQueues s'.canisterQueues := by
  cases msg with
  | request req =>
    have hk := capacityKept_getOrInsertQueues (L := L) (s := s) req.sender
    have hget := getOrInsertQueues_get? (L := L) (s := s) req.sender
    rcases hg : s.getOrInsertQueues L req.sender with ⟨s₁, iq, oq₀⟩
    rw [hg] at hk hget
    simp only [CanisterQueues.pushInput, RequestOrResponse.sender, hg] at h
    split at h
    · cases h
      exact hk
    · split at h
      · cases h
        exact hk
      · rename_i oq hres
        refine hk.trans (capacityKept_pushInputInto hget ?_ h)
        rw [capacities, capacities, OutputQueue.capacity_of_reserveSlot hres]
  | response rep =>
    simp only [CanisterQueues.pushInput, RequestOrResponse.sender] at h
    split at h
    · rename_i iq oq hget
      exact capacityKept_pushInputInto hget rfl h
    · cases h
      exact CapacityKept.refl _

theorem capacityKept_popCanisterInput {ty : InputQueueType} {r : Option RequestOrResponse}
    (h : s.popCanisterInput L ty = .ok (s', r)) :
    CapacityKept s.canisterQueues s'.canisterQueues := by
  rcases popCanisterInput_eq_ok h with ⟨-, rfl, -⟩ | ⟨sender, rest, iq, oq, msg, iq', -, hget,
    hpop, -, rfl⟩
  · exact CapacityKept.refl _
  · refine CapacityKept.insert_of_get? hget ?_
    rw [capacities, capacities, InputQueue.capacity_of_pop hpop]

theorem capacityKept_popInputTurn {r : Option CanisterInputMessage}
    (h : s.popInputTurn L = .ok (s', r)) : CapacityKept s.canisterQueues s'.canisterQueues := by
  unfold CanisterQueues.popInputTurn at h
  dsimp only at h
  split at h
  · cases h
    exact CapacityKept.refl _
  all_goals
    obtain ⟨⟨s'', msg⟩, hpop, h⟩ := Except.bind_eq_ok.mp h
    cases h
    have hk := capacityKept_popCanisterInput hpop
    exact hk

theorem capacityKept_popInputLoop : ∀ (n : ℕ) {s s' : CanisterQueues}
    {r : Option CanisterInputMessage}, s.popInputLoop L n = .ok (s', r) →
      CapacityKept s.canisterQueues s'.canisterQueues
  | 0, s, s', r, h => by
    cases h
    exact CapacityKept.refl _
  | n + 1, s, s', r, h => by
    unfold CanisterQueues.popInputLoop at h
    obtain ⟨⟨s'', next⟩, hturn, h⟩ := Except.bind_eq_ok.mp h
    have hk := capacityKept_popInputTurn hturn
    dsimp only at h
    split at h
    · cases h
      exact hk
    · exact hk.trans (capacityKept_popInputLoop n h)

theorem capacityKept_pushOutputRequest {msg : Request} {r : Except (StateError × Request) Unit}
    (h : s.pushOutputRequest L msg = .ok (s', r)) :
    CapacityKept s.canisterQueues s'.canisterQueues := by
  have hk := capacityKept_getOrInsertQueues (L := L) (s := s) msg.receiver
  have hget := getOrInsertQueues_get? (L := L) (s := s) msg.receiver
  rcases hg : s.getOrInsertQueues L msg.receiver with ⟨s₁, iq, oq⟩
  rw [hg] at hk hget
  simp only [CanisterQueues.pushOutputRequest, hg] at h
  split at h
  · cases h
    exact hk
  · split at h
    · cases h
      exact hk
    · rename_i iq' hres
      obtain ⟨oq', hpush, h⟩ := Except.bind_eq_ok.mp h
      cases h
      refine hk.trans (CapacityKept.insert_of_get? hget ?_)
      rw [capacities, capacities, InputQueue.capacity_of_reserveSlot hres,
        OutputQueue.capacity_of_pushRequest (Rust.expectOk_eq_ok.mp hpush)]

theorem capacityKept_pushOutputResponse {msg : Response} (h : s.pushOutputResponse L msg = .ok s') :
    CapacityKept s.canisterQueues s'.canisterQueues := by
  unfold CanisterQueues.pushOutputResponse at h
  dsimp only at h
  obtain ⟨⟨iq, oq⟩, hget, h⟩ := Except.bind_eq_ok.mp h
  obtain ⟨oq', hpush, h⟩ := Except.bind_eq_ok.mp h
  cases h
  refine CapacityKept.insert_of_get? (Rust.expect_eq_ok.mp hget) ?_
  rw [capacities, capacities, OutputQueue.capacity_of_pushResponse hpush]

section ForEach

variable (f : ℕ → CanisterId → RequestOrResponse → Bool)

theorem capacity_forEachLoop (k : CanisterId) :
    ∀ (fuel n : ℕ) {q : OutputQueue} {os : OutputQueuesStats} {ms : MemoryUsageStats}
      {r : ℕ × OutputQueue × OutputQueuesStats × MemoryUsageStats},
      CanisterQueues.forEachLoop L f k fuel n q os ms = .ok r → r.2.1.queue.capacity = q.queue.capacity
  | 0, n, q, os, ms, r, h => by
    cases h
    rfl
  | fuel + 1, n, q, os, ms, r, h => by
    unfold CanisterQueues.forEachLoop at h
    split at h
    · cases h
      rfl
    split at h
    · obtain ⟨⟨⟨i, msg⟩, q₁⟩, hpop, h⟩ := Except.bind_eq_ok.mp h
      rw [capacity_forEachLoop k fuel (n + 1) h, OutputQueue.capacity_of_pop (Rust.expect_eq_ok.mp hpop)]
    · cases h
      rfl

theorem capacityKept_forEachQueues (m : QueueMap) :
    ∀ (es : List (CanisterId × InputQueue × OutputQueue)) {t : ℕ × QueueMap × OutputQueuesStats × MemoryUsageStats}
      {r : ℕ × QueueMap × OutputQueuesStats × MemoryUsageStats},
      (∀ e ∈ es, m.get? e.1 = some e.2) → CapacityKept m t.2.1 →
      es.foldlM (CanisterQueues.forEachQueue L f) t = .ok r → CapacityKept m r.2.1
  | [], t, r, _, ht, h => by
    cases h
    exact ht
  | ⟨k, iq, oq⟩ :: es, ⟨n, queues, os, ms⟩, r, hgets, ht, h => by
    rw [List.foldlM_cons] at h
    obtain ⟨t₁, hstep, hrest⟩ := Except.bind_eq_ok.mp h
    unfold CanisterQueues.forEachQueue at hstep
    obtain ⟨⟨n', oq', os', ms'⟩, hloop, hstep⟩ := Except.bind_eq_ok.mp hstep
    cases hstep
    refine capacityKept_forEachQueues m es (fun e he => hgets e (List.mem_cons_of_mem _ he))
      (ht.insert (Or.inl ⟨(iq, oq), hgets _ List.mem_cons_self, ?_⟩)) hrest
    rw [capacities, capacities, capacity_forEachLoop f k _ n hloop]

theorem capacityKept_outputQueuesForEach (h : s.outputQueuesForEach L f = .ok s') :
    CapacityKept s.canisterQueues s'.canisterQueues := by
  unfold CanisterQueues.outputQueuesForEach at h
  obtain ⟨⟨n, queues, os, ms⟩, hfold, h⟩ := Except.bind_eq_ok.mp h
  cases h
  exact capacityKept_forEachQueues f s.canisterQueues _
    (fun e he => (SortedMap.get?_eq_some_iff _).mpr he) (CapacityKept.refl _) hfold

end ForEach

theorem capacityKept_iteratorPop {it it' : CanisterOutputQueuesIterator}
    {r : Option (QueueId × ℕ × RequestOrResponse)} (h : it.pop L = .ok (r, it')) :
    CapacityKept it.canisterQueues it'.canisterQueues := by
  unfold CanisterOutputQueuesIterator.pop at h
  split at h
  · cases h
    exact CapacityKept.refl _
  · obtain ⟨⟨iq, ⟨i, msg⟩, oq'⟩, hget, h⟩ := Except.bind_eq_ok.mp h
    cases h
    obtain ⟨⟨iq₀, oq⟩, hqs, hpop⟩ := Option.bind_eq_some_iff.mp (Rust.expect_eq_ok.mp hget)
    obtain ⟨p, hp, hpeq⟩ := Option.map_eq_some_iff.mp hpop
    rw [Prod.mk.injEq] at hpeq
    obtain ⟨rfl, rfl⟩ := hpeq
    refine CapacityKept.insert_of_get? hqs ?_
    rw [capacities, capacities, OutputQueue.capacity_of_pop hp]

theorem capacityKept_runIterator :
    ∀ (ops : List IteratorOp) {it it' : CanisterOutputQueuesIterator},
      runIterator L ops it = .ok it' → CapacityKept it.canisterQueues it'.canisterQueues
  | [], it, it', h => by
    cases h
    exact CapacityKept.refl _
  | .pop :: ops, it, it', h => by
    obtain ⟨⟨r, it₁⟩, hpop, h⟩ := Except.bind_eq_ok.mp h
    exact (capacityKept_iteratorPop hpop).trans (capacityKept_runIterator ops h)
  | .excludeQueue :: ops, it, it', h => by
    have hk := capacityKept_runIterator ops h
    unfold CanisterOutputQueuesIterator.excludeQueue at hk
    split at hk <;> exact hk

theorem capacityKept_inductMessageToSelf {own : CanisterId} {r : Except Unit Unit}
    (h : s.inductMessageToSelf L own = .ok (s', r)) :
    CapacityKept s.canisterQueues s'.canisterQueues := by
  unfold CanisterQueues.inductMessageToSelf at h
  split at h
  · cases h
    exact CapacityKept.refl _
  obtain ⟨⟨s₁, pushed⟩, hpush, h⟩ := Except.bind_eq_ok.mp h
  have hk := capacityKept_pushInput hpush
  dsimp only at h
  split at h
  · cases h
    exact hk
  obtain ⟨⟨iq, oq⟩, hget, h⟩ := Except.bind_eq_ok.mp h
  obtain ⟨⟨⟨i, msg⟩, oq'⟩, hpop, h⟩ := Except.bind_eq_ok.mp h
  cases h
  refine hk.trans (CapacityKept.insert_of_get? (Rust.expect_eq_ok.mp hget) ?_)
  rw [capacities, capacities, OutputQueue.capacity_of_pop (Rust.expect_eq_ok.mp hpop)]

/-! ## Runs -/

/-- **No call changes the capacity of a queue**; new queues have the default capacity. -/
theorem CanisterQueues.Step.capacityKept (h : CanisterQueues.Step L s s') :
    CapacityKept s.canisterQueues s'.canisterQueues := by
  cases h with
  | pushIngress msg => exact CapacityKept.refl _
  | filterIngressMessages filter => exact CapacityKept.refl _
  | pushInput h => exact capacityKept_pushInput h
  | popInput h => exact capacityKept_popInputLoop 3 h
  | pushOutputRequest h => exact capacityKept_pushOutputRequest h
  | pushOutputResponse h => exact capacityKept_pushOutputResponse h
  | outputQueuesForEach h => exact capacityKept_outputQueuesForEach _ h
  | outputIntoIter h => exact capacityKept_runIterator _ h
  | inductMessageToSelf h => exact capacityKept_inductMessageToSelf h

/-- **Every queue of a reachable state has the default capacity**. -/
theorem Reachable.capacityDefault (h : CanisterQueues.Reachable L s) :
    CapacityDefault s.canisterQueues := by
  induction h with
  | refl => exact fun _ _ h => by cases h
  | tail _ hstep ih => exact hstep.capacityKept.capacityDefault ih

end IC.Queues
