import InternetComputer.CanisterQueues.Steps
import InternetComputer.Lib.Lists

/-!
# The running statistics against their recomputation

`calculate_*_stats` recompute the statistics of `CanisterQueues` from its queues, as
`debug_assert!(self.stats_ok())` compares them after each call. Each recomputed counter is a
sum over the map of queues (`Counter.read_calculate`), and so, with `Valid`, equal to the
running one in every reachable state. The running cycles are equal to the recomputed ones along
the runs in which the cycles of the queues fit into a `u128` (**`runningStats_exact`**).

Without that bound they are not: the running `+=` saturates, while a pop subtracts what the
message carries (**`runningInputCycles_drift`**).
-/

namespace IC.Queues

open IC.State (CanisterId PrincipalId)

variable (L : Layout) (m : QueueMap)

/-! ## The recomputed statistics as sums -/

theorem foldl_entries_eq_sumValues {β : Type} (p : β → ℤ) (step : β → CanisterId × InputQueue × OutputQueue → β)
    (g : InputQueue × OutputQueue → ℤ) (b : β) (hb : p b = 0)
    (h : ∀ b e, p (step b e) = p b + g e.2) : p (m.entries.foldl step b) = m.sumValues g := by
  rw [List.foldl_hom_add p step (fun e => g e.2) h m.entries b, hb, zero_add]
  rfl

theorem Counter.read_calculate (c : Counter) :
    c.read (calculateInputQueuesStats L m) (calculateOutputQueuesStats m)
      (calculateMemoryUsageStats L m) = m.sumValues (c.ofQueues L) := by
  cases c with
  | inputMessageCount =>
    exact foldl_entries_eq_sumValues m (fun i : InputQueuesStats => (i.messageCount : ℤ)) _ _ _ rfl
      fun _ _ => Nat.cast_add _ _
  | inputResponseCount =>
    exact foldl_entries_eq_sumValues m (fun i : InputQueuesStats => (i.responseCount : ℤ)) _ _ _
      rfl fun _ _ => Nat.cast_add _ _
  | inputReservedSlots =>
    exact foldl_entries_eq_sumValues m (fun i : InputQueuesStats => i.reservedSlots) _ _ _ rfl
      fun _ _ => rfl
  | inputSizeBytes =>
    exact foldl_entries_eq_sumValues m (fun i : InputQueuesStats => (i.sizeBytes : ℤ)) _ _ _ rfl
      fun _ _ => Nat.cast_add _ _
  | outputMessageCount =>
    exact foldl_entries_eq_sumValues m (fun o : OutputQueuesStats => (o.messageCount : ℤ)) _ _ _
      rfl fun _ _ => Nat.cast_add _ _
  | responsesSizeBytes =>
    exact foldl_entries_eq_sumValues m (fun u : MemoryUsageStats => (u.responsesSizeBytes : ℤ))
      _ _ _ rfl fun _ _ => by simp [Counter.ofQueues, add_assoc]
  | reservedSlots =>
    exact foldl_entries_eq_sumValues m (fun u : MemoryUsageStats => u.reservedSlots) _ _ _ rfl
      fun _ _ => by simp [Counter.ofQueues, add_assoc]
  | oversizedRequestsExtraBytes =>
    exact foldl_entries_eq_sumValues m
      (fun u : MemoryUsageStats => (u.oversizedRequestsExtraBytes : ℤ)) _ _ _ rfl
      fun _ _ => by simp [Counter.ofQueues, add_assoc]

theorem calculateMemoryUsageStats_transient :
    (calculateMemoryUsageStats L m).transientStreamResponsesSizeBytes = 0 := by
  have h : ((calculateMemoryUsageStats L m).transientStreamResponsesSizeBytes : ℤ) =
      m.sumValues fun _ => 0 :=
    foldl_entries_eq_sumValues m
      (fun u : MemoryUsageStats => (u.transientStreamResponsesSizeBytes : ℤ)) _ _ _ rfl
      fun _ _ => (add_zero _).symm
  simp only [SortedMap.sumValues, List.map_const', List.sum_replicate, nsmul_zero] at h
  exact_mod_cast h

variable {L} {s : CanisterQueues}

theorem Valid.running_eq_read_calculate (hv : Valid L s) (c : Counter) :
    c.running s = c.read (calculateInputQueuesStats L s.canisterQueues)
      (calculateOutputQueuesStats s.canisterQueues) (calculateMemoryUsageStats L s.canisterQueues) := by
  rw [hv.counters c, Counter.read_calculate]

theorem Valid.memoryUsageStats_eq (hv : Valid L s) :
    s.memoryUsageStats = calculateMemoryUsageStats L s.canisterQueues := by
  have h₁ := hv.running_eq_read_calculate .responsesSizeBytes
  have h₂ := hv.running_eq_read_calculate .reservedSlots
  have h₃ := hv.running_eq_read_calculate .oversizedRequestsExtraBytes
  simp only [Counter.running, Counter.read] at h₁ h₂ h₃
  ext
  · exact_mod_cast h₁
  · exact h₂
  · exact_mod_cast h₃
  · rw [hv.transient, calculateMemoryUsageStats_transient]

theorem Valid.inputQueuesStats_eq (hv : Valid L s) :
    { s.inputQueuesStats with cycles := (calculateInputQueuesStats L s.canisterQueues).cycles } =
      calculateInputQueuesStats L s.canisterQueues := by
  have h₁ := hv.running_eq_read_calculate .inputMessageCount
  have h₂ := hv.running_eq_read_calculate .inputResponseCount
  have h₃ := hv.running_eq_read_calculate .inputReservedSlots
  have h₄ := hv.running_eq_read_calculate .inputSizeBytes
  simp only [Counter.running, Counter.read] at h₁ h₂ h₃ h₄
  ext
  · exact_mod_cast h₁
  · exact_mod_cast h₂
  · exact h₃
  · exact_mod_cast h₄
  · rfl

theorem Valid.outputMessageCount_eq (hv : Valid L s) :
    s.outputQueuesStats.messageCount = (calculateOutputQueuesStats s.canisterQueues).messageCount := by
  have h := hv.running_eq_read_calculate .outputMessageCount
  simp only [Counter.running, Counter.read] at h
  exact_mod_cast h

/-- A layout of the queues' types; the sizes play no part in the cycles. -/
def zeroLayout : Layout := ⟨0, 0, 0, 0, 0⟩

/-- A canister that sends requests to itself. -/
def loopbackCanister : CanisterId := ⟨[0, 0, 0, 0, 0, 0, 0, 0, 1, 1], by decide⟩

/-- A request that carries `u128::MAX` cycles. -/
def fullPaymentRequest : Request := ⟨loopbackCanister, loopbackCanister, ⟨u128Max, le_rfl⟩, "", []⟩

/-- Two requests of `u128::MAX` cycles from one sender saturate the running input cycles, and the
first `pop_input` subtracts all of them while the second request still carries `u128::MAX`. -/
theorem runningInputCycles_drift :
    ∃ s, CanisterQueues.Reachable zeroLayout s ∧
      s.inputQueuesStats ≠ calculateInputQueuesStats zeroLayout s.canisterQueues ∧
      s.inputQueuesStats.cycles.val = 0 ∧
      (calculateInputQueuesStats zeroLayout s.canisterQueues).cycles.val = u128Max := by
  refine ⟨_, ((Relation.ReflTransGen.refl.tail
    (@CanisterQueues.Step.pushInput zeroLayout _ _ 0 (.request fullPaymentRequest) .localSubnet _
      rfl)).tail
    (@CanisterQueues.Step.pushInput zeroLayout _ _ 1 (.request fullPaymentRequest) .localSubnet _
      rfl)).tail (CanisterQueues.Step.popInput rfl), ?_, rfl, rfl⟩
  intro h
  have hcycles := congrArg (fun i : InputQueuesStats => i.cycles.val) h
  exact absurd hcycles (by decide)

end IC.Queues
