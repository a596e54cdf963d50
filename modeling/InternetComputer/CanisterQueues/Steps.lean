import InternetComputer.CanisterQueues.Invariant
import Mathlib

/-!
# Every call keeps the invariant

One lemma per operation of `CanisterQueues`: each keeps `Valid`, and the running cycles exact
while the cycles in the queues fit into a `u128` (`Keeps`), or always (`KeepsExact`). Each proof
applies `Valid.write` and `CyclesExact.write` to the queues the call writes.

* `pushInputInto_eq_ok`: what the end of `push_input` does;
* **`keeps_pushInput`**, `keepsExact_popInput`, `keeps_pushOutputRequest`,
  `keeps_pushOutputResponse`, `keepsExact_outputQueuesForEach`, `keepsExact_runIterator`,
  `keeps_inductMessageToSelf`;
* **`Step.keeps`**, and over whole runs `Reachable.valid`.
-/

namespace IC.Queues

open IC.State (CanisterId)

variable {L : Layout}

/-- What a call keeps: the invariant, and exact cycles while the queues' cycles fit a `u128`. -/
def Keeps (L : Layout) (s s' : CanisterQueues) : Prop :=
  Valid L s' ∧ (CyclesExact s → CyclesFit s' → CyclesExact s')

/-- What a call adding only input messages keeps, the cycles exact while the inputs fit. -/
def KeepsInput (L : Layout) (s s' : CanisterQueues) : Prop :=
  Valid L s' ∧ (CyclesExact s → s'.canisterQueues.sumValues inputCycles ≤ u128Max → CyclesExact s')

/-- What a call that adds no message keeps: the invariant, and exact running cycles. -/
def KeepsExact (L : Layout) (s s' : CanisterQueues) : Prop :=
  Valid L s' ∧ (CyclesExact s → CyclesExact s')

theorem KeepsInput.keeps {s s' : CanisterQueues} (h : KeepsInput L s s') : Keeps L s s' :=
  ⟨h.1, fun hc hfit => h.2 hc hfit.1⟩

theorem KeepsExact.keepsInput {s s' : CanisterQueues} (h : KeepsExact L s s') : KeepsInput L s s' :=
  ⟨h.1, fun hc _ => h.2 hc⟩

theorem KeepsExact.keeps {s s' : CanisterQueues} (h : KeepsExact L s s') : Keeps L s s' :=
  h.keepsInput.keeps

theorem KeepsExact.trans {s₁ s₂ s₃ : CanisterQueues} (h₁ : KeepsExact L s₁ s₂)
    (h₂ : Valid L s₂ → KeepsExact L s₂ s₃) : KeepsExact L s₁ s₃ :=
  ⟨(h₂ h₁.1).1, fun hc => (h₂ h₁.1).2 (h₁.2 hc)⟩

theorem KeepsExact.trans_keeps {s₁ s₂ s₃ : CanisterQueues} (h₁ : KeepsExact L s₁ s₂)
    (h₂ : Valid L s₂ → Keeps L s₂ s₃) : Keeps L s₁ s₃ :=
  ⟨(h₂ h₁.1).1, fun hc hfit => (h₂ h₁.1).2 (h₁.2 hc) hfit⟩

theorem KeepsExact.trans_keepsInput {s₁ s₂ s₃ : CanisterQueues} (h₁ : KeepsExact L s₁ s₂)
    (h₂ : Valid L s₂ → KeepsInput L s₂ s₃) : KeepsInput L s₁ s₃ :=
  ⟨(h₂ h₁.1).1, fun hc hfit => (h₂ h₁.1).2 (h₁.2 hc) hfit⟩

variable {s s' : CanisterQueues}

/-! ## The ingress queue and the round robin -/

theorem Valid.withIngressQueue (hv : Valid L s) {q : IngressQueue}
    (hq : q.sizeBytes = IngressQueue.sizeBytesOf L q.queue) : Valid L { s with ingressQueue := q } :=
  ⟨hv.counters, hv.transient, hq, hv.capacity, hv.schedules⟩

theorem Valid.withNextInputQueue (hv : Valid L s) (next : NextInputQueue) :
    Valid L { s with nextInputQueue := next } :=
  ⟨hv.counters, hv.transient, hv.ingress, hv.capacity, hv.schedules⟩

theorem keepsExact_pushIngress (hv : Valid L s) (msg : Ingress) :
    KeepsExact L s (s.pushIngress L msg) :=
  ⟨hv.withIngressQueue (IngressQueue.sizeBytes_push L hv.ingress msg),
    fun hc => ⟨hc.input, hc.output⟩⟩

theorem keepsExact_filterIngressMessages (hv : Valid L s) (filter : ℕ → Ingress → Bool) :
    KeepsExact L s (s.filterIngressMessages L filter) :=
  ⟨hv.withIngressQueue rfl, fun hc => ⟨hc.input, hc.output⟩⟩

theorem keepsExact_popIngress (hv : Valid L s) : KeepsExact L s (s.popIngress L).2 :=
  ⟨hv.withIngressQueue (IngressQueue.sizeBytes_pop L hv.ingress), fun hc => ⟨hc.input, hc.output⟩⟩

/-! ## Queues created on demand -/

theorem Counter.ofQueues_new (c : Counter) (capacity capacity' : ℕ) :
    c.ofQueues L (InputQueue.new capacity, OutputQueue.new capacity') = c.emptyQueues L := by
  simp [Counter.ofQueues_eq, InputQueue.new, OutputQueue.new, QueueWithReservation.new]

theorem keepsExact_getOrInsertQueues (hv : Valid L s) (k : CanisterId) :
    KeepsExact L s (s.getOrInsertQueues L k).1 ∧
      (s.getOrInsertQueues L k).1.canisterQueues.get? k = some (s.getOrInsertQueues L k).2 := by
  unfold CanisterQueues.getOrInsertQueues
  split
  · rename_i iq oq hget
    exact ⟨⟨hv, id⟩, hget⟩
  · rename_i hget
    have hempty : (InputQueue.new defaultQueueCapacity).numMessages = 0 := rfl
    have hfits : (InputQueue.new defaultQueueCapacity).queue.Fits ∧
        (OutputQueue.new defaultQueueCapacity).queue.Fits := by
      simp [QueueWithReservation.Fits, InputQueue.new, OutputQueue.new, QueueWithReservation.new]
    refine ⟨⟨⟨fun c => ?_, hv.transient, hv.ingress, hv.capacity.write hfits,
      hv.schedules.insert_new hget hempty⟩, fun hc => ⟨?_, ?_⟩⟩, ?_⟩
    · rw [SortedMap.sumValues_insert_of_get?_none _ _ hget, Counter.ofQueues_new, ← hv.counters c]
      exact Counter.read_create L c _ _ _
    · rw [SortedMap.sumValues_insert_of_get?_none _ _ hget, ← hc.input]
      rfl
    · rw [SortedMap.sumValues_insert_of_get?_none _ _ hget, ← hc.output]
      rfl
    · simp [SortedMap.get?_insert]

/-! ## Cycles added to one queue -/

theorem Cycles.val_add_write {g : InputQueue × OutputQueue → ℕ} {m : QueueMap} {k : CanisterId}
    {qs qs' : InputQueue × OutputQueue} {a x : Cycles} (hget : m.get? k = some qs)
    (ha : a.val = m.sumValues g) (hg : g qs' = g qs + x.val)
    (hfit : (m.insert k qs').sumValues g ≤ u128Max) : (a + x).val + g qs = a.val + g qs' := by
  have hsum := m.sumValues_insert_add k qs' g
  rw [hget, Option.map_some, Option.getD_some] at hsum
  rw [Cycles.val_add, ha]
  omega

/-! ## `push_input` -/

theorem pushInputInto_eq_ok {index : ℕ} {msg : RequestOrResponse} {ty : InputQueueType}
    {sender : CanisterId} {iq : InputQueue} {oq : OutputQueue}
    {r : Except (StateError × RequestOrResponse) Unit}
    (h : s.pushInputInto L index msg ty sender iq oq = .ok (s', r)) :
    ∃ iq', iq.push index msg = .ok (iq', r) ∧
      s'.canisterQueues = s.canisterQueues.insert sender (iq', oq) ∧
      s'.ingressQueue = s.ingressQueue ∧ s'.outputQueuesStats = s.outputQueuesStats ∧
      s'.nextInputQueue = s.nextInputQueue ∧
      (((∃ e, r = .error e) ∧ s'.inputQueuesStats = s.inputQueuesStats ∧
          s'.memoryUsageStats = s.memoryUsageStats ∧ s'.schedules = s.schedules) ∨
        (r = .ok () ∧
          s'.inputQueuesStats = s.inputQueuesStats.addAssign (InputQueuesStats.statsDelta L .push msg) ∧
          s'.memoryUsageStats =
            s.memoryUsageStats.addAssign (MemoryUsageStats.statsDelta L .push msg) ∧
          (iq'.numMessages = 1 ∧ s'.schedules.Perm (s.schedules ++ [sender]) ∨
            iq'.numMessages ≠ 1 ∧ s'.schedules = s.schedules))) := by
  unfold CanisterQueues.pushInputInto at h
  dsimp only at h
  obtain ⟨⟨iq', pushed⟩, hpush, h⟩ := Except.bind_eq_ok.mp h
  refine ⟨iq', ?_⟩
  dsimp only at h
  split at h
  · rename_i e
    cases h
    exact ⟨hpush, rfl, rfl, rfl, rfl, Or.inl ⟨⟨e, rfl⟩, rfl, rfl, rfl⟩⟩
  · cases h
    refine ⟨hpush, ?_⟩
    by_cases hone : iq'.numMessages = 1
    · rw [if_pos hone]
      refine ⟨?_, ?_, ?_, ?_, Or.inr ⟨rfl, ?_, ?_, Or.inl ⟨hone, ?_⟩⟩⟩
      any_goals simp
      exact CanisterQueues.schedules_push _ ty sender
    · rw [if_neg hone]
      exact ⟨rfl, rfl, rfl, rfl, Or.inr ⟨rfl, rfl, rfl, Or.inr ⟨hone, rfl⟩⟩⟩

theorem keeps_pushInputInto_ok {index : ℕ} {msg : RequestOrResponse} {ty : InputQueueType}
    {sender : CanisterId} {iq iq' : InputQueue} {oq₀ oq : OutputQueue}
    {r : Except (StateError × RequestOrResponse) Unit}
    (hv : Valid L s) (hget : s.canisterQueues.get? sender = some (iq, oq₀))
    (h : s.pushInputInto L index msg ty sender iq oq = .ok (s', r))
    (hpush : iq.push index msg = .ok (iq', .ok ()))
    (hqs : ∀ c : Counter, c.ofQueues L (iq', oq) = c.ofQueues L (iq, oq₀) + c.pushedInput L msg)
    (hfits : iq'.queue.Fits ∧ oq.queue.Fits) (hlen : iq'.numMessages = iq.numMessages + 1)
    (hin : inputCycles (iq', oq) = inputCycles (iq, oq₀) + msg.cycles.val)
    (hout : outputCycles (iq', oq) = outputCycles (iq, oq₀)) : KeepsInput L s s' := by
  obtain ⟨iq'', hpush', hmap, hingress, houtput, -, hcases⟩ := pushInputInto_eq_ok h
  rw [hpush, Except.ok.injEq, Prod.mk.injEq] at hpush'
  obtain ⟨rfl, rfl⟩ := hpush'
  rcases hcases with ⟨⟨e, he⟩, -⟩ | ⟨-, hinput, hmemory, hsched⟩
  · cases he
  refine ⟨hv.write (fun c => c.pushedInput L msg) hget hmap (fun c => ?_) hqs ?_ hingress hfits ?_,
    fun hc hfit => hc.write hget hmap ?_ ?_⟩
  · simp only [Counter.running, hinput, hmemory, houtput]
    exact Counter.read_push_input L c _ _ _ msg
  · rw [hmemory]
    rfl
  · -- the sender enters the schedules exactly when its queue was empty
    unfold ScheduleMove
    dsimp only
    rcases hsched with ⟨hone, hperm⟩ | ⟨hone, heq⟩
    · exact Or.inr (Or.inl ⟨by omega, by omega, hperm⟩)
    · exact Or.inl ⟨by omega, heq ▸ List.Perm.refl _⟩
  · -- the message's cycles enter the running input cycles
    rw [hinput]
    exact Cycles.val_add_write hget hc.input hin (hmap ▸ hfit)
  · rw [houtput, hout]

theorem keeps_pushInputInto_request {index : ℕ} {req : Request} {ty : InputQueueType}
    {sender : CanisterId} {iq : InputQueue} {oq₀ oq : OutputQueue}
    {r : Except (StateError × RequestOrResponse) Unit}
    (hv : Valid L s) (hget : s.canisterQueues.get? sender = some (iq, oq₀))
    (hcheck : iq.checkHasSlot = .ok ()) (hres : oq₀.reserveSlot = .ok oq)
    (h : s.pushInputInto L index (.request req) ty sender iq oq = .ok (s', r)) :
    KeepsInput L s s' := by
  have hslot := InputQueue.checkHasSlot_eq_ok.mp hcheck
  obtain ⟨iq', hpush, -⟩ := pushInputInto_eq_ok h
  obtain ⟨hlt, rfl⟩ := OutputQueue.reserveSlot_eq_ok.mp hres
  have hpushed : InputQueue.pushMessage iq.queue (.request req) =
      .ok { iq.queue with queue := iq.queue.queue ++ [.request req] } :=
    QueueWithReservation.push_eq_ok.mpr ⟨hslot, rfl⟩
  rcases InputQueue.push_eq_ok hpush with ⟨hq, rfl⟩ | ⟨e, hq, -, -⟩
  · rw [hpushed, Except.ok.injEq] at hq
    have hfits := QueueWithReservation.fits_of_push_eq_ok (hpushed.trans (congrArg _ hq))
    apply keeps_pushInputInto_ok hv hget h hpush
    · intro c
      rw [Counter.ofQueues_eq, Counter.ofQueues_eq, ← hq]
      simp only [List.map_append, List.sum_append, List.map_cons, List.map_nil, List.sum_cons,
        List.sum_nil, Counter.pushedInput, Nat.cast_add, Nat.cast_one]
      ring
    · refine ⟨hfits, ?_⟩
      simp only [QueueWithReservation.Fits]
      omega
    · simp [InputQueue.numMessages, QueueWithReservation.numMessages, ← hq]
    · simp [inputCycles, cyclesOf, ← hq, RequestOrResponse.cycles]
    · rfl
  · rw [hpushed] at hq
    cases hq

theorem keeps_pushInputInto_response {index : ℕ} {rep : Response} {ty : InputQueueType}
    {sender : CanisterId} {iq : InputQueue} {oq : OutputQueue}
    {r : Except (StateError × RequestOrResponse) Unit}
    (hv : Valid L s) (hget : s.canisterQueues.get? sender = some (iq, oq))
    (h : s.pushInputInto L index (.response rep) ty sender iq oq = .ok (s', r)) :
    KeepsInput L s s' := by
  obtain ⟨iq', hpush, hmap, hingress, houtput, -, hcases⟩ := pushInputInto_eq_ok h
  have hfits := hv.capacity _ _ hget
  rcases InputQueue.push_eq_ok hpush with ⟨hq, rfl⟩ | ⟨e, hq, hqueue, rfl⟩
  · obtain ⟨hpos, hiq⟩ := QueueWithReservation.pushIntoReservedSlot_eq_ok.mp hq
    apply keeps_pushInputInto_ok hv hget h hpush
    · intro c
      rw [Counter.ofQueues_eq, Counter.ofQueues_eq, hiq]
      obtain ⟨n, hn⟩ : ∃ n, iq.queue.numSlotsReserved = n + 1 := ⟨_, (Nat.succ_pred_eq_of_pos hpos).symm⟩
      simp only [hn, List.map_append, List.sum_append, List.map_cons, List.map_nil, List.sum_cons,
        List.sum_nil, Counter.pushedInput, Nat.cast_add, Nat.cast_one, Nat.add_sub_cancel]
      ring
    · exact ⟨hfits.1.pushIntoReservedSlot hq, hfits.2⟩
    · simp [InputQueue.numMessages, QueueWithReservation.numMessages, hiq]
    · simp [inputCycles, cyclesOf, hiq, RequestOrResponse.cycles]
    · rfl
  · -- no slot was reserved: only the index of the input queue moved
    rcases hcases with ⟨-, hinput, hmemory, hsched⟩ | ⟨hr, -⟩
    · have hnum : iq'.numMessages = iq.numMessages := congrArg QueueWithReservation.numMessages hqueue
      refine ⟨hv.write (fun _ => 0) hget hmap (fun c => ?_) (fun c => ?_) ?_ hingress
        (hqueue ▸ hfits) (Or.inl ⟨by rw [hnum], hsched ▸ List.Perm.refl _⟩),
        fun hc _ => hc.write hget hmap ?_ ?_⟩
      · simp [Counter.running, hinput, hmemory, houtput]
      · rw [add_zero]
        exact Counter.ofQueues_congr L (congrArg _ hqueue) (congrArg _ hqueue) rfl rfl
      · rw [hmemory]
      · simp [hinput, inputCycles, hqueue]
      · rw [houtput]
        rfl
    · cases hr

theorem keeps_pushInput {index : ℕ} {msg : RequestOrResponse} {ty : InputQueueType}
    {r : Except (StateError × RequestOrResponse) Unit} (hv : Valid L s)
    (h : s.pushInput L index msg ty = .ok (s', r)) : KeepsInput L s s' := by
  cases msg with
  | request req =>
    obtain ⟨hk, hget⟩ := keepsExact_getOrInsertQueues hv req.sender
    rcases hg : s.getOrInsertQueues L req.sender with ⟨s₁, iq, oq₀⟩
    rw [hg] at hk hget
    simp only [CanisterQueues.pushInput, RequestOrResponse.sender, hg] at h
    split at h
    · cases h
      exact hk.keepsInput
    · rename_i hcheck
      split at h
      · cases h
        exact hk.keepsInput
      · rename_i oq hres
        exact hk.trans_keepsInput fun hv₁ => keeps_pushInputInto_request hv₁ hget hcheck hres h
  | response rep =>
    simp only [CanisterQueues.pushInput, RequestOrResponse.sender] at h
    split at h
    · rename_i iq oq hget
      exact keeps_pushInputInto_response hv hget h
    · cases h
      exact ⟨hv, fun hc _ => hc⟩

/-! ## `pop_input` -/

theorem popCanisterInput_eq_ok {ty : InputQueueType} {r : Option RequestOrResponse}
    (h : s.popCanisterInput L ty = .ok (s', r)) :
    (s.inputSchedule ty = [] ∧ s' = s ∧ r = none) ∨
      ∃ sender rest iq oq msg iq', s.inputSchedule ty = sender :: rest ∧
        s.canisterQueues.get? sender = some (iq, oq) ∧ iq.pop = some (msg, iq') ∧ r = some msg ∧
        s' = { s.setInputSchedule ty (if iq'.numMessages ≠ 0 then rest ++ [sender] else rest) with
          canisterQueues := s.canisterQueues.insert sender (iq', oq)
          inputQueuesStats := s.inputQueuesStats.subAssign (InputQueuesStats.statsDelta L .pop msg)
          memoryUsageStats :=
            s.memoryUsageStats.subAssign (MemoryUsageStats.statsDelta L .pop msg) } := by
  unfold CanisterQueues.popCanisterInput at h
  split at h
  · rename_i hnil
    cases h
    exact Or.inl ⟨hnil, rfl, rfl⟩
  · rename_i sender rest hsched
    obtain ⟨⟨iq, oq⟩, hget, h⟩ := Except.bind_eq_ok.mp h
    obtain ⟨⟨msg, iq'⟩, hpop, h⟩ := Except.bind_eq_ok.mp h
    cases h
    exact Or.inr ⟨sender, rest, iq, oq, msg, iq', hsched, Rust.expect_eq_ok.mp hget,
      Rust.expect_eq_ok.mp hpop, rfl, rfl⟩

theorem keepsExact_popCanisterInput {ty : InputQueueType} {r : Option RequestOrResponse}
    (hv : Valid L s) (h : s.popCanisterInput L ty = .ok (s', r)) : KeepsExact L s s' := by
  rcases popCanisterInput_eq_ok h with ⟨-, rfl, -⟩ | ⟨sender, rest, iq, oq, msg, iq', hsched, hget,
    hpop, -, rfl⟩
  · exact ⟨hv, id⟩
  obtain ⟨msgs, hq, rfl⟩ := InputQueue.pop_eq_some.mp hpop
  -- the popped message is what the queue pair loses
  have hqs : ∀ c : Counter, c.ofQueues L ({ iq with queue := { iq.queue with queue := msgs } }, oq) =
      c.ofQueues L (iq, oq) + -c.inInput L msg := by
    intro c
    rw [Counter.ofQueues_eq, Counter.ofQueues_eq, hq, List.map_cons, List.sum_cons]
    ring
  have hle : ∀ c : Counter, c.inInput L msg ≤
      c.read s.inputQueuesStats s.outputQueuesStats s.memoryUsageStats := fun c => by
    have h₁ := hv.ofQueues_le hget c
    have h₂ := Counter.ofQueues_nonneg L c ({ iq with queue := { iq.queue with queue := msgs } }, oq)
    have h₃ := hqs c
    simp only [Counter.running] at h₁
    omega
  have hfits := hv.capacity _ _ hget
  have hpos : 0 < iq.numMessages := by
    simp [InputQueue.numMessages, QueueWithReservation.numMessages, hq]
  refine ⟨hv.write (fun c => -c.inInput L msg) hget rfl (fun c => ?_) hqs rfl (by simp) ⟨?_, hfits.2⟩ ?_,
    fun hc => hc.write hget rfl ?_ (by simp [outputCycles])⟩
  · simp only [Counter.running, CanisterQueues.setInputSchedule_outputQueuesStats]
    rw [Counter.read_pop_input L c _ _ _ msg hle]
    ring
  · exact hfits.1.pop (QueueWithReservation.pop_eq_some.mpr ⟨msgs, hq, rfl⟩)
  · -- the sender stays scheduled while its queue is not empty, and leaves it when it empties
    unfold ScheduleMove
    dsimp only
    split_ifs with hne
    · exact Or.inl ⟨⟨fun _ => Nat.pos_of_ne_zero hne, fun _ => hpos⟩,
        CanisterQueues.schedules_rotate s ty hsched⟩
    · exact Or.inr (Or.inr ⟨hpos, not_not.mp hne, CanisterQueues.schedules_drop s ty hsched⟩)
  · have hsum := SortedMap.le_sumValues (fun _ => Nat.zero_le _) hget (g := inputCycles)
    simp only [InputQueuesStats.subAssign, InputQueuesStats.statsDelta, Cycles.val_sub]
    simp only [inputCycles, cyclesOf, hq, List.map_cons, List.sum_cons] at hsum ⊢
    rw [hc.input]
    omega

theorem keepsExact_popInputTurn {r : Option CanisterInputMessage} (hv : Valid L s)
    (h : s.popInputTurn L = .ok (s', r)) : KeepsExact L s s' := by
  have hnext : KeepsExact L s { s with nextInputQueue := s.nextInputQueue.next } :=
    ⟨hv.withNextInputQueue _, fun hc => ⟨hc.input, hc.output⟩⟩
  unfold CanisterQueues.popInputTurn at h
  dsimp only at h
  refine hnext.trans fun hv' => ?_
  split at h
  · cases h
    exact keepsExact_popIngress hv'
  all_goals
    obtain ⟨⟨s'', msg⟩, hpop, h⟩ := Except.bind_eq_ok.mp h
    cases h
    exact keepsExact_popCanisterInput hv' hpop

theorem keepsExact_popInputLoop : ∀ (n : ℕ) {s s' : CanisterQueues}
    {r : Option CanisterInputMessage}, Valid L s → s.popInputLoop L n = .ok (s', r) →
      KeepsExact L s s'
  | 0, s, s', r, hv, h => by
    cases h
    exact ⟨hv, id⟩
  | n + 1, s, s', r, hv, h => by
    unfold CanisterQueues.popInputLoop at h
    obtain ⟨⟨s'', next⟩, hturn, h⟩ := Except.bind_eq_ok.mp h
    have hk := keepsExact_popInputTurn hv hturn
    dsimp only at h
    split at h
    · cases h
      exact hk
    · exact hk.trans fun hv'' => keepsExact_popInputLoop n hv'' h

theorem keepsExact_popInput {r : Option CanisterInputMessage} (hv : Valid L s)
    (h : s.popInput L = .ok (s', r)) : KeepsExact L s s' :=
  keepsExact_popInputLoop 3 hv h

/-! ## Output queues -/

theorem OutputQueuesStats.statsDelta_cycles (msg : RequestOrResponse) :
    (OutputQueuesStats.statsDelta msg).cycles = msg.cycles := by
  cases msg <;> rfl

theorem keepsExact_popOutput {k : CanisterId} {iq : InputQueue} {oq oq' : OutputQueue} {i : ℕ}
    {msg : RequestOrResponse} (hv : Valid L s) (hget : s.canisterQueues.get? k = some (iq, oq))
    (hpop : oq.pop = some ((i, msg), oq'))
    (hmap : s'.canisterQueues = s.canisterQueues.insert k (iq, oq'))
    (hinput : s'.inputQueuesStats = s.inputQueuesStats)
    (houtput : s'.outputQueuesStats = s.outputQueuesStats.subAssign (OutputQueuesStats.statsDelta msg))
    (hmemory : s'.memoryUsageStats =
      s.memoryUsageStats.subAssign (MemoryUsageStats.statsDelta L .pop msg))
    (hingress : s'.ingressQueue = s.ingressQueue) (hsched : s'.schedules = s.schedules) :
    KeepsExact L s s' := by
  obtain ⟨-, msgs, hq, rfl⟩ := OutputQueue.pop_eq_some.mp hpop
  have hqs : ∀ c : Counter, c.ofQueues L (iq, ⟨{ oq.queue with queue := msgs }, oq.ind + 1⟩) =
      c.ofQueues L (iq, oq) + -c.inOutput L msg := by
    intro c
    rw [Counter.ofQueues_eq, Counter.ofQueues_eq, hq, List.map_cons, List.sum_cons]
    ring
  have hle : ∀ c : Counter, c.inOutput L msg ≤
      c.read s.inputQueuesStats s.outputQueuesStats s.memoryUsageStats := fun c => by
    have h₁ := hv.ofQueues_le hget c
    have h₂ := Counter.ofQueues_nonneg L c (iq, ⟨{ oq.queue with queue := msgs }, oq.ind + 1⟩)
    have h₃ := hqs c
    simp only [Counter.running] at h₁
    omega
  have hfits := hv.capacity _ _ hget
  refine ⟨hv.write (fun c => -c.inOutput L msg) hget hmap (fun c => ?_) hqs ?_ hingress
    ⟨hfits.1, hfits.2.pop (QueueWithReservation.pop_eq_some.mpr ⟨msgs, hq, rfl⟩)⟩
    (Or.inl ⟨Iff.rfl, hsched ▸ List.Perm.refl _⟩), fun hc => hc.write hget hmap ?_ ?_⟩
  · simp only [Counter.running, hinput, houtput, hmemory]
    rw [Counter.read_pop_output L c _ _ _ msg hle]
    ring
  · rw [hmemory]
    rfl
  · rw [hinput]
    rfl
  · have hsum := SortedMap.le_sumValues (fun _ => Nat.zero_le _) hget (g := outputCycles)
    simp only [houtput, OutputQueuesStats.subAssign, OutputQueuesStats.statsDelta_cycles,
      Cycles.val_sub]
    simp only [outputCycles, cyclesOf, hq, List.map_cons, List.sum_cons] at hsum ⊢
    rw [hc.output]
    omega

/-! ## `push_output_request` and `push_output_response` -/

theorem keeps_pushOutputRequest_ok {msg : Request} {iq iq' : InputQueue} {oq oq' : OutputQueue}
    (hv : Valid L s) (hget : s.canisterQueues.get? msg.receiver = some (iq, oq))
    (hres : iq.reserveSlot = .ok iq') (hpush : oq.pushRequest msg = .ok oq') :
    Keeps L s { s with
      canisterQueues := s.canisterQueues.insert msg.receiver (iq', oq')
      inputQueuesStats := { s.inputQueuesStats with
        reservedSlots := s.inputQueuesStats.reservedSlots + 1 }
      outputQueuesStats := s.outputQueuesStats.addAssign (OutputQueuesStats.statsDelta (.request msg))
      memoryUsageStats :=
        s.memoryUsageStats.addAssign (MemoryUsageStats.requestStatsDelta L .push msg) } := by
  obtain ⟨hlt, rfl⟩ := InputQueue.reserveSlot_eq_ok.mp hres
  obtain ⟨hlt', rfl⟩ := OutputQueue.pushRequest_eq_ok.mp hpush
  have hfits := hv.capacity _ _ hget
  refine ⟨hv.write (fun c => c.inOutput L (.request msg) + c.inputReservation) hget rfl
    (fun c => ?_) (fun c => ?_) rfl rfl ⟨?_, ?_⟩ (Or.inl ⟨Iff.rfl, List.Perm.refl _⟩),
    fun hc hfit => hc.write hget rfl rfl ?_⟩
  · simp only [Counter.running]
    rw [Counter.read_push_output_request]
    ring
  · rw [Counter.ofQueues_eq, Counter.ofQueues_eq]
    simp only [List.map_append, List.sum_append, List.map_cons, List.map_nil, List.sum_cons,
      List.sum_nil, Nat.cast_add, Nat.cast_one]
    ring
  · simp only [QueueWithReservation.Fits]
    omega
  · simp only [QueueWithReservation.Fits, List.length_append, List.length_singleton]
    omega
  · -- the request's payment enters the running output cycles
    exact Cycles.val_add_write hget hc.output
      (by simp [outputCycles, cyclesOf, RequestOrResponse.cycles, OutputQueuesStats.statsDelta_cycles])
      hfit.2

theorem keeps_pushOutputRequest {msg : Request} {r : Except (StateError × Request) Unit}
    (hv : Valid L s) (h : s.pushOutputRequest L msg = .ok (s', r)) : Keeps L s s' := by
  obtain ⟨hk, hget⟩ := keepsExact_getOrInsertQueues hv msg.receiver
  rcases hg : s.getOrInsertQueues L msg.receiver with ⟨s₁, iq, oq⟩
  rw [hg] at hk hget
  simp only [CanisterQueues.pushOutputRequest, hg] at h
  split at h
  · cases h
    exact hk.keeps
  · split at h
    · cases h
      exact hk.keeps
    · rename_i iq' hres
      obtain ⟨oq', hpush, h⟩ := Except.bind_eq_ok.mp h
      cases h
      exact hk.trans_keeps fun hv₁ =>
        keeps_pushOutputRequest_ok hv₁ hget hres (Rust.expectOk_eq_ok.mp hpush)

theorem keeps_pushOutputResponse {msg : Response} (hv : Valid L s)
    (h : s.pushOutputResponse L msg = .ok s') : Keeps L s s' := by
  unfold CanisterQueues.pushOutputResponse at h
  dsimp only at h
  obtain ⟨⟨iq, oq⟩, hget, h⟩ := Except.bind_eq_ok.mp h
  obtain ⟨oq', hpush, h⟩ := Except.bind_eq_ok.mp h
  cases h
  replace hget := Rust.expect_eq_ok.mp hget
  obtain ⟨hpos, rfl⟩ := OutputQueue.pushResponse_eq_ok.mp hpush
  have hfits := hv.capacity _ _ hget
  obtain ⟨n, hn⟩ : ∃ n, oq.queue.numSlotsReserved = n + 1 :=
    ⟨_, (Nat.succ_pred_eq_of_pos hpos).symm⟩
  refine ⟨hv.write (fun c => c.inOutput L (.response msg) - c.outputReservation) hget rfl
    (fun c => ?_) (fun c => ?_) rfl rfl ⟨hfits.1, ?_⟩ (Or.inl ⟨Iff.rfl, List.Perm.refl _⟩),
    fun hc hfit => hc.write hget rfl rfl ?_⟩
  · simp only [Counter.running]
    rw [Counter.read_push_output_response]
    ring
  · rw [Counter.ofQueues_eq, Counter.ofQueues_eq]
    simp only [hn, List.map_append, List.sum_append, List.map_cons, List.map_nil, List.sum_cons,
      List.sum_nil, Nat.cast_add, Nat.cast_one, Nat.add_sub_cancel]
    ring
  · exact hfits.2.pushIntoReservedSlot (QueueWithReservation.pushIntoReservedSlot_eq_ok.mpr ⟨hpos, rfl⟩)
  · -- the response's refund enters the running output cycles
    exact Cycles.val_add_write hget hc.output
      (by simp [outputCycles, cyclesOf, RequestOrResponse.cycles, OutputQueuesStats.statsDelta_cycles])
      hfit.2

/-! ## `output_queues_for_each` -/

section ForEach

variable (f : ℕ → CanisterId → RequestOrResponse → Bool)

theorem keepsExact_forEachLoop (k : CanisterId) (iq : InputQueue) :
    ∀ (fuel n : ℕ) {t : CanisterQueues} {q : OutputQueue}
      {r : ℕ × OutputQueue × OutputQueuesStats × MemoryUsageStats},
      Valid L t → t.canisterQueues.get? k = some (iq, q) →
      CanisterQueues.forEachLoop L f k fuel n q t.outputQueuesStats t.memoryUsageStats = .ok r →
      KeepsExact L t { t with
        canisterQueues := t.canisterQueues.insert k (iq, r.2.1)
        outputQueuesStats := r.2.2.1
        memoryUsageStats := r.2.2.2 }
  | 0, n, t, q, r, hv, hget, h => by
    cases h
    rw [SortedMap.insert_of_get? hget]
    exact ⟨hv, id⟩
  | fuel + 1, n, t, q, r, hv, hget, h => by
    unfold CanisterQueues.forEachLoop at h
    split at h
    · cases h
      rw [SortedMap.insert_of_get? hget]
      exact ⟨hv, id⟩
    split at h
    · obtain ⟨⟨⟨i, msg⟩, q₁⟩, hpop, h⟩ := Except.bind_eq_ok.mp h
      -- the state after the first pop, from which the loop goes on
      have hk : KeepsExact L t { t with
          canisterQueues := t.canisterQueues.insert k (iq, q₁)
          outputQueuesStats := t.outputQueuesStats.subAssign (OutputQueuesStats.statsDelta msg)
          memoryUsageStats := t.memoryUsageStats.subAssign (MemoryUsageStats.statsDelta L .pop msg) } :=
        keepsExact_popOutput hv hget (Rust.expect_eq_ok.mp hpop) rfl rfl rfl rfl rfl rfl
      have hget₁ : (t.canisterQueues.insert k (iq, q₁)).get? k = some (iq, q₁) := by
        simp [SortedMap.get?_insert]
      rw [← SortedMap.insert_insert t.canisterQueues k (iq, r.2.1) (iq, q₁)]
      exact hk.trans fun hv₁ => keepsExact_forEachLoop k iq fuel (n + 1) hv₁ hget₁ h
    · cases h
      rw [SortedMap.insert_of_get? hget]
      exact ⟨hv, id⟩

theorem keepsExact_forEachQueue {t : CanisterQueues} {n : ℕ} {k : CanisterId} {iq : InputQueue}
    {oq : OutputQueue} {r : ℕ × QueueMap × OutputQueuesStats × MemoryUsageStats} (hv : Valid L t)
    (hget : t.canisterQueues.get? k = some (iq, oq))
    (h : CanisterQueues.forEachQueue L f (n, t.canisterQueues, t.outputQueuesStats,
      t.memoryUsageStats) (k, iq, oq) = .ok r) :
    KeepsExact L t { t with
        canisterQueues := r.2.1
        outputQueuesStats := r.2.2.1
        memoryUsageStats := r.2.2.2 } ∧
      ∃ oq', r.2.1 = t.canisterQueues.insert k (iq, oq') := by
  unfold CanisterQueues.forEachQueue at h
  obtain ⟨⟨n', oq', os, ms⟩, hloop, h⟩ := Except.bind_eq_ok.mp h
  cases h
  exact ⟨keepsExact_forEachLoop f k iq _ n hv hget hloop, oq', rfl⟩

theorem keepsExact_forEachQueues :
    ∀ (es : List (CanisterId × InputQueue × OutputQueue)) {t : CanisterQueues} {n : ℕ}
      {r : ℕ × QueueMap × OutputQueuesStats × MemoryUsageStats},
      (es.map Prod.fst).Nodup → (∀ e ∈ es, t.canisterQueues.get? e.1 = some e.2) → Valid L t →
      es.foldlM (CanisterQueues.forEachQueue L f)
          (n, t.canisterQueues, t.outputQueuesStats, t.memoryUsageStats) = .ok r →
        KeepsExact L t { t with
          canisterQueues := r.2.1
          outputQueuesStats := r.2.2.1
          memoryUsageStats := r.2.2.2 }
  | [], t, n, r, _, _, hv, h => by
    cases h
    exact ⟨hv, id⟩
  | ⟨k, iq, oq⟩ :: es, t, n, r, hnodup, hgets, hv, h => by
    rw [List.foldlM_cons] at h
    obtain ⟨⟨n₁, queues, os, ms⟩, hstep, hrest⟩ := Except.bind_eq_ok.mp h
    obtain ⟨hk, oq', hmap⟩ := keepsExact_forEachQueue f hv (hgets _ List.mem_cons_self) hstep
    rw [List.map_cons, List.nodup_cons] at hnodup
    -- the other canisters keep their queues
    have hgets₁ : ∀ e ∈ es, queues.get? e.1 = some e.2 := by
      intro e he
      have hne : e.1 ≠ k := by
        rintro rfl
        have hmem : e.1 ∈ es.map Prod.fst := List.mem_map_of_mem he
        exact hnodup.1 hmem
      rw [show queues = _ from hmap, SortedMap.get?_insert, if_neg hne]
      exact hgets e (List.mem_cons_of_mem _ he)
    exact hk.trans fun hv₁ =>
      keepsExact_forEachQueues es (t := { t with
        canisterQueues := queues
        outputQueuesStats := os
        memoryUsageStats := ms }) hnodup.2 hgets₁ hv₁ hrest

theorem keepsExact_outputQueuesForEach (hv : Valid L s) (h : s.outputQueuesForEach L f = .ok s') :
    KeepsExact L s s' := by
  unfold CanisterQueues.outputQueuesForEach at h
  obtain ⟨⟨n, queues, os, ms⟩, hfold, h⟩ := Except.bind_eq_ok.mp h
  cases h
  exact keepsExact_forEachQueues f _ s.canisterQueues.nodup_keys
    (fun e he => (SortedMap.get?_eq_some_iff _).mpr he) hv hfold

end ForEach

/-! ## The output iterator -/

namespace CanisterOutputQueuesIterator

variable (s : CanisterQueues) (it : CanisterOutputQueuesIterator)

theorem withIterator_excludeQueue : s.withIterator it.excludeQueue.2 = s.withIterator it := by
  unfold excludeQueue
  split <;> rfl

end CanisterOutputQueuesIterator

theorem keepsExact_iteratorPop {it it' : CanisterOutputQueuesIterator}
    {r : Option (QueueId × ℕ × RequestOrResponse)} (hv : Valid L (s.withIterator it))
    (h : it.pop L = .ok (r, it')) : KeepsExact L (s.withIterator it) (s.withIterator it') := by
  unfold CanisterOutputQueuesIterator.pop at h
  split at h
  · cases h
    exact ⟨hv, id⟩
  · rename_i receiver rest hqueues
    obtain ⟨⟨iq, ⟨i, msg⟩, oq'⟩, hget, h⟩ := Except.bind_eq_ok.mp h
    cases h
    obtain ⟨⟨iq₀, oq⟩, hqs, hpop⟩ := Option.bind_eq_some_iff.mp (Rust.expect_eq_ok.mp hget)
    obtain ⟨p, hp, hpeq⟩ := Option.map_eq_some_iff.mp hpop
    simp only [Prod.mk.injEq] at hpeq
    obtain ⟨rfl, rfl⟩ := hpeq
    exact keepsExact_popOutput hv hqs hp rfl rfl rfl rfl rfl rfl

theorem keepsExact_runIterator :
    ∀ (ops : List IteratorOp) {it it' : CanisterOutputQueuesIterator},
      Valid L (s.withIterator it) → runIterator L ops it = .ok it' →
        KeepsExact L (s.withIterator it) (s.withIterator it')
  | [], it, it', hv, h => by
    cases h
    exact ⟨hv, id⟩
  | .pop :: ops, it, it', hv, h => by
    obtain ⟨⟨r, it₁⟩, hpop, h⟩ := Except.bind_eq_ok.mp h
    exact (keepsExact_iteratorPop hv hpop).trans fun hv₁ => keepsExact_runIterator ops hv₁ h
  | .excludeQueue :: ops, it, it', hv, h => by
    -- the queues the iterator gives back are those before `exclude_queue`
    have hv₁ : Valid L (s.withIterator it.excludeQueue.2) := by
      rw [CanisterOutputQueuesIterator.withIterator_excludeQueue]
      exact hv
    have hk := keepsExact_runIterator ops hv₁ h
    rwa [CanisterOutputQueuesIterator.withIterator_excludeQueue] at hk

/-! ## `induct_message_to_self` -/

theorem keeps_inductMessageToSelf {own : CanisterId} {r : Except Unit Unit} (hv : Valid L s)
    (h : s.inductMessageToSelf L own = .ok (s', r)) : Keeps L s s' := by
  unfold CanisterQueues.inductMessageToSelf at h
  split at h
  · cases h
    exact ⟨hv, fun hc _ => hc⟩
  obtain ⟨⟨s₁, pushed⟩, hpush, h⟩ := Except.bind_eq_ok.mp h
  have hk := keeps_pushInput hv hpush
  dsimp only at h
  split at h
  · cases h
    exact hk.keeps
  obtain ⟨⟨iq, oq⟩, hget, h⟩ := Except.bind_eq_ok.mp h
  obtain ⟨⟨⟨i, msg⟩, oq'⟩, hpop, h⟩ := Except.bind_eq_ok.mp h
  cases h
  replace hget := Rust.expect_eq_ok.mp hget
  have hk' : KeepsExact L s₁ { s₁ with
      canisterQueues := s₁.canisterQueues.insert own (iq, oq')
      outputQueuesStats := s₁.outputQueuesStats.subAssign (OutputQueuesStats.statsDelta msg)
      memoryUsageStats := s₁.memoryUsageStats.subAssign (MemoryUsageStats.statsDelta L .pop msg) } :=
    keepsExact_popOutput hk.1 hget (Rust.expect_eq_ok.mp hpop) rfl rfl rfl rfl rfl rfl
  refine ⟨hk'.1, fun hc hfit => hk'.2 (hk.2 hc ?_)⟩
  have hsum := s₁.canisterQueues.sumValues_insert_add own (iq, oq') inputCycles
  rw [hget, Option.map_some, Option.getD_some] at hsum
  have hfit₁ : (s₁.canisterQueues.insert own (iq, oq')).sumValues inputCycles ≤ u128Max := hfit.1
  have hsame : inputCycles (iq, oq') = inputCycles (iq, oq) := rfl
  omega

/-! ## Runs -/

/-- Each call keeps the invariant, and the cycles exact while they fit into a `u128`. -/
theorem CanisterQueues.Step.keeps (hv : Valid L s) (h : CanisterQueues.Step L s s') : Keeps L s s' := by
  cases h with
  | pushIngress msg => exact (keepsExact_pushIngress hv msg).keeps
  | filterIngressMessages filter => exact (keepsExact_filterIngressMessages hv filter).keeps
  | pushInput h => exact (keeps_pushInput hv h).keeps
  | popInput h => exact (keepsExact_popInput hv h).keeps
  | pushOutputRequest h => exact keeps_pushOutputRequest hv h
  | pushOutputResponse h => exact keeps_pushOutputResponse hv h
  | outputQueuesForEach h => exact (keepsExact_outputQueuesForEach _ hv h).keeps
  | outputIntoIter h =>
    rename_i owner ops it
    -- the iterator borrows the queues as they are
    have hv' : Valid L (s.withIterator (s.outputIntoIter owner)) := hv
    exact (keepsExact_runIterator ops hv' h).keeps
  | inductMessageToSelf h => exact keeps_inductMessageToSelf hv h

theorem valid_default (L : Layout) : Valid L (CanisterQueues.default L) where
  counters c := by cases c <;> rfl
  transient := rfl
  ingress := rfl
  capacity _ _ h := by cases h
  schedules := ⟨List.nodup_nil, fun k => by simp [CanisterQueues.schedules, CanisterQueues.default,
    SortedMap.get?, SortedMap.empty]⟩

/-- Every reachable state satisfies the invariant, one `Step.keeps` per call. -/
theorem Reachable.valid {s : CanisterQueues} (h : CanisterQueues.Reachable L s) : Valid L s := by
  induction h with
  | refl => exact valid_default L
  | tail _ hstep ih => exact (hstep.keeps ih).1

end IC.Queues
