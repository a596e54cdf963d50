import InternetComputer.Lib.Collections
import InternetComputer.Lib.SortedMap
import InternetComputer.State.ReplicatedState
import Mathlib

/-!
# The call context manager

`CallContextManager` of `call_context_manager.rs`: the open call contexts of a canister and the
callbacks of its outstanding calls, each under an id from a counter. `on_canister_result` answers
a context once, and removes it when it is answered and no callback is left for it.

* `onCanisterResult_cases`: what one result does, by the eleven arms of its match;
* `Reachable`: the runs of the operations execution performs, with what they return;
* **`callContexts_answered_once`**: in every run the results do not panic, ids are fresh,
  callbacks have their context, each context is answered once before it is removed, and its
  cycles are kept, withdrawn or refunded.
-/

namespace IC.State

/-- `CallOrigin`. -/
inductive CallOrigin where
  | ingress (user : UserId) (messageId : MessageId)
  | canisterUpdate (canister : CanisterId) (callbackId : ℕ)
  | query (user : UserId)
  | canisterQuery (canister : CanisterId) (callbackId : ℕ)
  | heartbeat

/-- `CallContext`. -/
structure CallContext where
  callOrigin : CallOrigin
  responded : Bool
  deleted : Bool
  availableCycles : ℕ
  time : Option ℕ

/-- `CallContextError`. -/
inductive CallContextError where
  | insufficientCyclesInCall (available requested : ℕ)

namespace CallContext

/-- `CallContext::withdraw_cycles`. -/
def withdrawCycles (c : CallContext) (cycles : ℕ) : Except CallContextError CallContext :=
  if c.availableCycles < cycles then .error (.insufficientCyclesInCall c.availableCycles cycles)
  else .ok { c with availableCycles := c.availableCycles - cycles }

/-- `CallContext::mark_responded`. -/
def markResponded (c : CallContext) : CallContext :=
  { c with availableCycles := 0, responded := true }

end CallContext

/-- `Callback`, by the call context it was made in. -/
structure Callback where
  callContextId : ℕ

/-- `CallContextAction`, over the error `ε` of a failed execution. -/
inductive CallContextAction (ε : Type) where
  | reply (payload : List UInt8) (refund : ℕ)
  | reject (payload : String) (refund : ℕ)
  | noResponse (refund : ℕ)
  | fail (error : ε) (refund : ℕ)
  | notYetResponded
  | alreadyResponded

namespace CallContextAction

variable {ε : Type}

/-- The action answers the call. -/
def isAnswer : CallContextAction ε → Bool
  | .notYetResponded | .alreadyResponded => false
  | _ => true

/-- The cycles the action refunds. -/
def refund : CallContextAction ε → ℕ
  | .reply _ refund | .reject _ refund | .noResponse refund | .fail _ refund => refund
  | .notYetResponded | .alreadyResponded => 0

end CallContextAction

/-- `CallContextManager`. -/
structure CallContextManager where
  nextCallContextId : ℕ
  nextCallbackId : ℕ
  callContexts : SortedMap ℕ CallContext
  callbacks : SortedMap ℕ Callback

namespace CallContextManager

variable {ε : Type}

/-- `CallContextManager::default()`. -/
def default : CallContextManager := ⟨0, 0, .empty, .empty⟩

/-- `new_call_context`. -/
def newCallContext (m : CallContextManager) (callOrigin : CallOrigin) (cycles time : ℕ) :
    ℕ × CallContextManager :=
  let id := m.nextCallContextId + 1
  (id, { m with
    nextCallContextId := id
    callContexts := m.callContexts.insert id ⟨callOrigin, false, false, cycles, some time⟩ })

/-- `register_callback`. -/
def registerCallback (m : CallContextManager) (callback : Callback) : ℕ × CallContextManager :=
  let callbackId := m.nextCallbackId + 1
  (callbackId, { m with
    nextCallbackId := callbackId
    callbacks := m.callbacks.insert callbackId callback })

/-- `unregister_callback`. -/
def unregisterCallback (m : CallContextManager) (callbackId : ℕ) :
    Option Callback × CallContextManager :=
  (m.callbacks.get? callbackId, { m with callbacks := m.callbacks.erase callbackId })

/-- `call_context_mut(id)`, then `withdraw_cycles` on the context. -/
def withdrawCycles (m : CallContextManager) (callContextId cycles : ℕ) :
    Option (Except CallContextError CallContextManager) :=
  (m.callContexts.get? callContextId).map fun c => (c.withdrawCycles cycles).map fun c' =>
    { m with callContexts := m.callContexts.insert callContextId c' }

/-- `call_responded`. -/
def callResponded (m : CallContextManager) (callContextId : ℕ) : Option Bool :=
  (m.callContexts.get? callContextId).map (·.responded)

/-- `outstanding_calls`. -/
def outstandingCalls (m : CallContextManager) (callContextId : ℕ) : ℕ :=
  m.callbacks.entries.countP fun e => e.2.callContextId = callContextId

/-- `call_contexts_older_than`: the origin and time of the contexts, in id order, up to the first
one created less than `duration` before `currentTime`, but for the deleted ones; `Time + Duration`
wraps at 2⁶⁴ nanoseconds. -/
def callContextsOlderThan (m : CallContextManager) (currentTime duration : ℕ) :
    List (CallOrigin × ℕ) :=
  (m.callContexts.entries.takeWhile fun e => match e.2.time with
      | some contextTime => decide ((contextTime + duration) % 2 ^ 64 ≤ currentTime)
      | none => true).filterMap fun e =>
    match e.2.time with
    | some time => if !e.2.deleted then some (e.2.callOrigin, time) else none
    | none => none

/-- `on_canister_result`; a panic is an error. -/
def onCanisterResult (m : CallContextManager) (callContextId : ℕ)
    (result : Except ε (Option WasmResult)) :
    Except String (CallContextAction ε × CallContextManager) :=
  let outstandingCalls := decide (0 < m.outstandingCalls callContextId)
  match m.callContexts.get? callContextId with
  | none => .error s!"no call context for id={callContextId} found"
  | some context =>
    let refund := context.availableCycles
    let removed := { m with callContexts := m.callContexts.erase callContextId }
    let marked := { m with
      callContexts := m.callContexts.insert callContextId context.markResponded }
    match result, context.responded, outstandingCalls with
    | .ok none, false, true | .error _, false, true => .ok (.notYetResponded, m)
    | .ok none, true, true | .error _, true, true => .ok (.alreadyResponded, m)
    | .ok none, true, false | .error _, true, false => .ok (.alreadyResponded, removed)
    | .ok none, false, false => .ok (.noResponse refund, removed)
    | .ok (some (.reply payload)), false, false => .ok (.reply payload refund, removed)
    | .ok (some (.reply payload)), false, true => .ok (.reply payload refund, marked)
    | .ok (some (.reject payload)), false, false => .ok (.reject payload refund, removed)
    | .ok (some (.reject payload)), false, true => .ok (.reject payload refund, marked)
    | .error error, false, false => .ok (.fail error refund, removed)
    | .ok (some (.reply _)), true, _ | .ok (some (.reject _)), true, _ =>
      .error s!"Canister replied twice on the same request, call_context_id = {callContextId}"

/-- The cycles left in a context of the map, none for a context that is not open. -/
def cyclesLeft (callContexts : SortedMap ℕ CallContext) (callContextId : ℕ) : ℕ :=
  ((callContexts.get? callContextId).map (·.availableCycles)).getD 0

/-! ## One result -/

/-- What `on_canister_result` can do: return no answer and change nothing, remove a context
answered before, or answer with its cycles and remove it or, with calls outstanding, mark it. -/
theorem onCanisterResult_cases {m m' : CallContextManager} {cc : ℕ}
    {result : Except ε (Option WasmResult)} {a : CallContextAction ε}
    (h : m.onCanisterResult cc result = .ok (a, m')) :
    ∃ c, m.callContexts.get? cc = some c ∧
      ((a.isAnswer = false ∧ a.refund = 0 ∧ (c.responded = true → a = .alreadyResponded) ∧
          m' = m) ∨
        (c.responded = true ∧ m.outstandingCalls cc = 0 ∧ a = .alreadyResponded ∧
          m' = { m with callContexts := m.callContexts.erase cc }) ∨
        (c.responded = false ∧ a.isAnswer = true ∧ a.refund = c.availableCycles ∧
          ((m.outstandingCalls cc = 0 ∧ m' = { m with callContexts := m.callContexts.erase cc }) ∨
            (0 < m.outstandingCalls cc ∧
              m' = { m with callContexts := m.callContexts.insert cc c.markResponded })))) := by
  unfold onCanisterResult at h
  cases hc : m.callContexts.get? cc with
  | none =>
    rw [hc] at h
    cases h
  | some c =>
    rw [hc] at h
    refine ⟨c, rfl, ?_⟩
    -- the arms of the match, by the result, whether the context responded, and the callbacks
    rcases result with e | _ | w | w <;> cases hr : c.responded <;>
      by_cases ho : m.outstandingCalls cc = 0 <;>
      simp only [hr, ho, Nat.pos_iff_ne_zero, ne_eq, not_true, not_false_eq_true, decide_true,
        decide_false, reduceCtorEq, Except.ok.injEq, Prod.mk.injEq] at h <;>
      obtain ⟨rfl, rfl⟩ := h <;>
      simp [CallContextAction.isAnswer, CallContextAction.refund, ho, Nat.pos_iff_ne_zero]

/-- `on_canister_result` does not panic on an open context that is replied or rejected only
while it has not responded. -/
theorem onCanisterResult_eq_ok {m : CallContextManager} {cc : ℕ} {c : CallContext}
    {result : Except ε (Option WasmResult)} (hc : m.callContexts.get? cc = some c)
    (hresult : ∀ w, result = .ok (some w) → c.responded = false) :
    ∃ a m', m.onCanisterResult cc result = .ok (a, m') := by
  unfold onCanisterResult
  rw [hc]
  rcases result with e | _ | w | w <;> cases hr : c.responded <;>
    by_cases ho : m.outstandingCalls cc = 0 <;> simp [hr, ho, Nat.pos_iff_ne_zero]
  -- what is left is a reply or a reject on a context that has responded
  all_goals simpa [hr] using hresult _ rfl

end CallContextManager

/-! ## Runs -/

/-- What a step of a run shows: a context created with its cycles, a callback registered, cycles
the canister keeps from a context, an action returned for a context. -/
inductive Observation (ε : Type) where
  | created (callContextId cycles : ℕ)
  | registered (callbackId : ℕ)
  | withdrew (callContextId cycles : ℕ)
  | acted (callContextId : ℕ) (action : CallContextAction ε)

namespace Observation

variable {ε : Type}

/-- The call context an observation is about. -/
def callContextId? : Observation ε → Option ℕ
  | .created id _ | .withdrew id _ | .acted id _ => some id
  | .registered _ => none

/-- The callback an observation registers. -/
def callbackId? : Observation ε → Option ℕ
  | .registered id => some id
  | _ => none

/-- The observation answers the context `cc`. -/
def answers (cc : ℕ) : Observation ε → Bool
  | .acted id a => id == cc && a.isAnswer
  | _ => false

/-- The cycles an observation brings to the context `cc`. -/
def cyclesIn (cc : ℕ) : Observation ε → ℕ
  | .created id cycles => if id = cc then cycles else 0
  | _ => 0

/-- The cycles an observation takes from the context `cc`, kept or refunded. -/
def cyclesOut (cc : ℕ) : Observation ε → ℕ
  | .withdrew id cycles => if id = cc then cycles else 0
  | .acted id a => if id = cc then a.refund else 0
  | _ => 0

section Simp

variable {id cc cycles : ℕ} {a : CallContextAction ε}

@[simp] theorem answers_created : (created id cycles : Observation ε).answers cc = false := rfl
@[simp] theorem answers_registered : (registered id : Observation ε).answers cc = false := rfl
@[simp] theorem answers_withdrew : (withdrew id cycles : Observation ε).answers cc = false := rfl
@[simp] theorem answers_acted : (acted id a).answers cc = (id == cc && a.isAnswer) := rfl
@[simp] theorem cyclesIn_created :
    (created id cycles : Observation ε).cyclesIn cc = if id = cc then cycles else 0 := rfl
@[simp] theorem cyclesIn_registered : (registered id : Observation ε).cyclesIn cc = 0 := rfl
@[simp] theorem cyclesIn_withdrew : (withdrew id cycles : Observation ε).cyclesIn cc = 0 := rfl
@[simp] theorem cyclesIn_acted : (acted id a).cyclesIn cc = 0 := rfl
@[simp] theorem cyclesOut_created : (created id cycles : Observation ε).cyclesOut cc = 0 := rfl
@[simp] theorem cyclesOut_registered : (registered id : Observation ε).cyclesOut cc = 0 := rfl
@[simp] theorem cyclesOut_withdrew :
    (withdrew id cycles : Observation ε).cyclesOut cc = if id = cc then cycles else 0 := rfl
@[simp] theorem cyclesOut_acted : (acted id a).cyclesOut cc = if id = cc then a.refund else 0 :=
  rfl
@[simp] theorem callContextId?_created : (created id cycles : Observation ε).callContextId? = id :=
  rfl
@[simp] theorem callContextId?_registered : (registered id : Observation ε).callContextId? = none :=
  rfl
@[simp] theorem callContextId?_withdrew :
    (withdrew id cycles : Observation ε).callContextId? = id := rfl
@[simp] theorem callContextId?_acted : (acted id a).callContextId? = id := rfl
@[simp] theorem callbackId?_registered : (registered id : Observation ε).callbackId? = id := rfl
@[simp] theorem callbackId?_created : (created id cycles : Observation ε).callbackId? = none := rfl
@[simp] theorem callbackId?_withdrew : (withdrew id cycles : Observation ε).callbackId? = none :=
  rfl
@[simp] theorem callbackId?_acted : (acted id a).callbackId? = none := rfl

end Simp

/-- An observation of another context neither answers `cc` nor moves its cycles. -/
theorem of_ne {cc : ℕ} {o : Observation ε} (h : o.callContextId? ≠ some cc) :
    o.answers cc = false ∧ o.cyclesIn cc = 0 ∧ o.cyclesOut cc = 0 := by
  cases o <;> simp_all

/-- A trace without an observation of `cc` neither answers it nor moves its cycles. -/
theorem trace_of_ne {cc : ℕ} {tr : List (Observation ε)}
    (h : ∀ o ∈ tr, o.callContextId? ≠ some cc) :
    tr.countP (·.answers cc) = 0 ∧ (tr.map (·.cyclesIn cc)).sum = 0 ∧
      (tr.map (·.cyclesOut cc)).sum = 0 := by
  refine ⟨List.countP_eq_zero.mpr fun o ho => by simp [(of_ne (h o ho)).1], ?_, ?_⟩
  · exact List.sum_eq_zero fun x hx => by
      obtain ⟨o, ho, rfl⟩ := List.mem_map.mp hx
      exact (of_ne (h o ho)).2.1
  · exact List.sum_eq_zero fun x hx => by
      obtain ⟨o, ho, rfl⟩ := List.mem_map.mp hx
      exact (of_ne (h o ho)).2.2

end Observation

namespace CallContextManager

variable {ε : Type}

/-- The runs from `CallContextManager::default()` of the operations execution performs: contexts
created in time order, callbacks of open contexts, and answers only while none was given. -/
inductive Reachable : CallContextManager → ℕ → List (Observation ε) → Prop
  | init : Reachable default 0 []
  | newCallContext {m now tr} (callOrigin : CallOrigin) (cycles time : ℕ) :
      Reachable m now tr → now ≤ time →
      Reachable (m.newCallContext callOrigin cycles time).2 time
        (tr ++ [.created (m.newCallContext callOrigin cycles time).1 cycles])
  | registerCallback {m now tr} (callback : Callback) :
      Reachable m now tr → callback.callContextId ∈ m.callContexts.keys →
      Reachable (m.registerCallback callback).2 now
        (tr ++ [.registered (m.registerCallback callback).1])
  | unregisterCallback {m now tr} (callbackId : ℕ) :
      Reachable m now tr → callbackId ∈ m.callbacks.keys →
      Reachable (m.unregisterCallback callbackId).2 now tr
  | withdrawCycles {m m' now tr} (callContextId cycles : ℕ) :
      Reachable m now tr → m.withdrawCycles callContextId cycles = some (.ok m') →
      Reachable m' now (tr ++ [.withdrew callContextId cycles])
  | onCanisterResult {m m' now tr} (callContextId : ℕ) (result : Except ε (Option WasmResult))
      (action : CallContextAction ε) : Reachable m now tr →
      (∀ w, result = .ok (some w) → m.callResponded callContextId = some false) →
      m.onCanisterResult callContextId result = .ok (action, m') →
      Reachable m' now (tr ++ [.acted callContextId action])

/-- The invariant of a run: ids, callbacks of open contexts, answers and cycles. -/
structure Inv (m : CallContextManager) (tr : List (Observation ε)) : Prop where
  key_le : ∀ id ∈ m.callContexts.keys, id ≤ m.nextCallContextId
  seen_le : ∀ o ∈ tr, ∀ id ∈ o.callContextId?, id ≤ m.nextCallContextId
  callbackKey_le : ∀ id ∈ m.callbacks.keys, id ≤ m.nextCallbackId
  registered_le : ∀ o ∈ tr, ∀ id ∈ o.callbackId?, id ≤ m.nextCallbackId
  live : ∀ id cb, m.callbacks.get? id = some cb → cb.callContextId ∈ m.callContexts.keys
  answers_le : ∀ cc, tr.countP (·.answers cc) ≤ 1
  answered : ∀ cc c, m.callContexts.get? cc = some c →
    (tr.countP (·.answers cc) = 1 ↔ c.responded = true)
  removed : ∀ cc cycles, .created cc cycles ∈ tr → cc ∉ m.callContexts.keys →
    tr.countP (·.answers cc) = 1
  responded_zero : ∀ cc c, m.callContexts.get? cc = some c → c.responded = true →
    c.availableCycles = 0
  conserved : ∀ cc,
    (tr.map (·.cyclesIn cc)).sum = cyclesLeft m.callContexts cc + (tr.map (·.cyclesOut cc)).sum

theorem inv_default : Inv default ([] : List (Observation ε)) where
  key_le := by simp [default, SortedMap.keys, SortedMap.empty]
  seen_le := by simp
  callbackKey_le := by simp [default, SortedMap.keys, SortedMap.empty]
  registered_le := by simp
  live := by simp [default]
  answers_le := by simp
  answered := by simp [default]
  removed := by simp
  responded_zero := by simp [default]
  conserved := by simp [cyclesLeft, default]

section Steps

variable {m m' : CallContextManager} {tr : List (Observation ε)}

theorem cyclesLeft_insert (cs : SortedMap ℕ CallContext) (cc : ℕ) (c : CallContext) (k : ℕ) :
    cyclesLeft (cs.insert cc c) k = if k = cc then c.availableCycles else cyclesLeft cs k := by
  unfold cyclesLeft
  rw [SortedMap.get?_insert]
  split_ifs <;> rfl

theorem cyclesLeft_erase (cs : SortedMap ℕ CallContext) (cc k : ℕ) :
    cyclesLeft (cs.erase cc) k = if k = cc then 0 else cyclesLeft cs k := by
  unfold cyclesLeft
  rw [SortedMap.get?_erase]
  split_ifs <;> rfl

theorem Inv.seen_append (hi : Inv m tr) {x : Observation ε}
    (h : ∀ id ∈ x.callContextId?, id ≤ m.nextCallContextId) :
    ∀ o ∈ tr ++ [x], ∀ id ∈ o.callContextId?, id ≤ m.nextCallContextId := by
  intro o ho id hid
  rcases List.mem_append.mp ho with ho | ho
  · exact hi.seen_le o ho id hid
  · obtain rfl := List.mem_singleton.mp ho
    exact h id hid

theorem Inv.registered_append (hi : Inv m tr) {x : Observation ε} (h : x.callbackId? = none) :
    ∀ o ∈ tr ++ [x], ∀ id ∈ o.callbackId?, id ≤ m.nextCallbackId := by
  intro o ho id hid
  rcases List.mem_append.mp ho with ho | ho
  · exact hi.registered_le o ho id hid
  · obtain rfl := List.mem_singleton.mp ho
    simp [h] at hid

/-- A context that has not responded has no answer yet. -/
theorem Inv.answers_eq_zero (hi : Inv m tr) {cc : ℕ} {c : CallContext}
    (hc : m.callContexts.get? cc = some c) (hresp : c.responded = false) :
    tr.countP (·.answers cc) = 0 := by
  have := hi.answers_le cc
  have := (hi.answered cc c hc).not.mpr (by simp [hresp])
  omega

theorem Inv.newCallContext (hi : Inv m tr) (callOrigin : CallOrigin) (cycles time : ℕ) :
    Inv (m.newCallContext callOrigin cycles time).2
      (tr ++ [.created (m.newCallContext callOrigin cycles time).1 cycles]) := by
  simp only [CallContextManager.newCallContext]
  set k := m.nextCallContextId + 1 with hk
  -- the new id is above every id of the map and of the trace
  have hfresh : ∀ o ∈ tr, o.callContextId? ≠ some k := fun o ho h => by
    have := hi.seen_le o ho k h
    omega
  have hkey : k ∉ m.callContexts.keys := fun h => by
    have := hi.key_le k h
    omega
  have hget : m.callContexts.get? k = none := by
    simpa [SortedMap.mem_keys_iff] using hkey
  obtain ⟨hcount, hin, hout⟩ := Observation.trace_of_ne hfresh
  constructor
  · intro id hid
    rcases (SortedMap.mem_keys_insert _ _ _ _).mp hid with rfl | hid
    · exact le_rfl
    · exact (hi.key_le id hid).trans (Nat.le_succ _)
  · intro o ho id hid
    rcases List.mem_append.mp ho with ho | ho
    · exact (hi.seen_le o ho id hid).trans (Nat.le_succ _)
    · simp only [List.mem_singleton] at ho
      subst ho
      simp only [Observation.callContextId?_created, Option.mem_def, Option.some.injEq] at hid
      exact hid ▸ le_rfl
  · exact hi.callbackKey_le
  · exact hi.registered_append rfl
  · intro id cb hcb
    exact (SortedMap.mem_keys_insert _ _ _ _).mpr (.inr (hi.live id cb hcb))
  · intro cc
    simpa [List.countP_append] using hi.answers_le cc
  · intro cc c hc
    rw [SortedMap.get?_insert] at hc
    split_ifs at hc with hcc
    · cases hc
      subst hcc
      simp [List.countP_append, hcount]
    · simpa [List.countP_append] using hi.answered cc c hc
  · intro cc cycles' hcreated hcc
    have hne : cc ≠ k := fun h => hcc ((SortedMap.mem_keys_insert _ _ _ _).mpr (.inl h))
    have hcreated' : Observation.created cc cycles' ∈ tr := by
      simpa [hne] using hcreated
    simpa [List.countP_append] using
      hi.removed cc cycles' hcreated' fun h => hcc ((SortedMap.mem_keys_insert _ _ _ _).mpr (.inr h))
  · intro cc c hc hresp
    rw [SortedMap.get?_insert] at hc
    split_ifs at hc
    · cases hc
      cases hresp
    · exact hi.responded_zero cc c hc hresp
  · intro cc
    have := hi.conserved cc
    rw [cyclesLeft_insert]
    by_cases hcc : cc = k
    · subst hcc
      simp [hin, hout]
    · simp [hcc, Ne.symm hcc, this]

theorem Inv.registerCallback (hi : Inv m tr) {callback : Callback}
    (hcb : callback.callContextId ∈ m.callContexts.keys) :
    Inv (m.registerCallback callback).2 (tr ++ [.registered (m.registerCallback callback).1]) := by
  simp only [CallContextManager.registerCallback]
  have hsame : ∀ cc, (tr ++ [Observation.registered (m.nextCallbackId + 1)]).countP
      (fun o : Observation ε => o.answers cc) = tr.countP (·.answers cc) := fun cc => by
    simp [List.countP_append]
  refine ⟨hi.key_le, fun o ho id hid => ?_, fun id hid => ?_, fun o ho id hid => ?_,
    fun id cb hget => ?_, fun cc => hsame cc ▸ hi.answers_le cc,
    fun cc c hc => hsame cc ▸ hi.answered cc c hc, fun cc cycles hcreated hcc => ?_,
    hi.responded_zero, fun cc => by simpa using hi.conserved cc⟩
  · exact hi.seen_append (by simp) o ho id hid
  · rcases (SortedMap.mem_keys_insert _ _ _ _).mp hid with rfl | hid
    · exact le_rfl
    · exact (hi.callbackKey_le id hid).trans (Nat.le_succ _)
  · rcases List.mem_append.mp ho with ho | ho
    · exact (hi.registered_le o ho id hid).trans (Nat.le_succ _)
    · simp only [List.mem_singleton.mp ho, Observation.callbackId?_registered, Option.mem_def,
        Option.some.injEq] at hid
      exact hid ▸ le_rfl
  · rw [SortedMap.get?_insert] at hget
    split_ifs at hget
    · cases hget
      exact hcb
    · exact hi.live id cb hget
  · rw [hsame]
    exact hi.removed cc cycles (by simpa using hcreated) hcc

theorem Inv.unregisterCallback (hi : Inv m tr) (callbackId : ℕ) :
    Inv (m.unregisterCallback callbackId).2 tr where
  key_le := hi.key_le
  seen_le := hi.seen_le
  callbackKey_le id hid := hi.callbackKey_le id ((SortedMap.mem_keys_erase _ _ _).mp hid).1
  registered_le := hi.registered_le
  live id cb hget := by
    simp only [CallContextManager.unregisterCallback, SortedMap.get?_erase] at hget
    split_ifs at hget
    exact hi.live id cb hget
  answers_le := hi.answers_le
  answered := hi.answered
  removed := hi.removed
  responded_zero := hi.responded_zero
  conserved := hi.conserved

theorem Inv.withdrawCycles (hi : Inv m tr) {cc cycles : ℕ}
    (h : m.withdrawCycles cc cycles = some (.ok m')) : Inv m' (tr ++ [.withdrew cc cycles]) := by
  obtain ⟨c, hc, h⟩ := Option.map_eq_some_iff.mp h
  obtain ⟨c', hw, rfl⟩ := Except.map_eq_ok.mp h
  unfold CallContext.withdrawCycles at hw
  split_ifs at hw with hlt
  cases hw
  have hkey : cc ∈ m.callContexts.keys := by simp [SortedMap.mem_keys_iff, hc]
  -- the context stays, with the withdrawn cycles taken out
  have hkeys := SortedMap.mem_keys_insert_of_mem
    { c with availableCycles := c.availableCycles - cycles } hkey
  have hsame : ∀ k, (tr ++ [Observation.withdrew cc cycles]).countP
      (fun o : Observation ε => o.answers k) = tr.countP (·.answers k) := fun k => by
    simp [List.countP_append]
  refine ⟨fun k hk => hi.key_le k ((hkeys k).mp hk),
    hi.seen_append (by simpa using hi.key_le cc hkey), hi.callbackKey_le,
    hi.registered_append rfl, fun k cb hget => (hkeys _).mpr (hi.live k cb hget),
    fun k => hsame k ▸ hi.answers_le k, fun k c'' hc'' => ?_, fun k cycles' hcreated hk => ?_,
    fun k c'' hc'' hresp => ?_, fun k => ?_⟩
  · rw [SortedMap.get?_insert] at hc''
    split_ifs at hc'' with hkc
    · cases hc''
      subst hkc
      rw [hsame]
      exact hi.answered k c hc
    · exact hsame k ▸ hi.answered k c'' hc''
  · rw [hsame]
    exact hi.removed k cycles' (by simpa using hcreated) fun h => hk ((hkeys k).mpr h)
  · rw [SortedMap.get?_insert] at hc''
    split_ifs at hc'' with hkc
    · cases hc''
      rw [hi.responded_zero cc c hc hresp]
      exact Nat.zero_sub _
    · exact hi.responded_zero k c'' hc'' hresp
  · have hcons := hi.conserved k
    have hleft : cyclesLeft m.callContexts cc = c.availableCycles := by simp [cyclesLeft, hc]
    rw [cyclesLeft_insert]
    by_cases hkc : k = cc
    · subst hkc
      simp only [List.map_append, List.sum_append, List.map_cons, List.map_nil, List.sum_cons,
        List.sum_nil, Observation.cyclesIn_withdrew, Observation.cyclesOut_withdrew, if_true,
        hleft] at hcons ⊢
      omega
    · simp [hkc, Ne.symm hkc, hcons]

theorem countP_answers_acted (tr : List (Observation ε)) (cc k : ℕ) (a : CallContextAction ε) :
    (tr ++ [Observation.acted cc a]).countP (fun o : Observation ε => o.answers k) =
      tr.countP (·.answers k) + if cc = k ∧ a.isAnswer = true then 1 else 0 := by
  simp [List.countP_append]

theorem sum_cycles_acted (tr : List (Observation ε)) (cc k : ℕ) (a : CallContextAction ε) :
    ((tr ++ [Observation.acted cc a]).map (fun o : Observation ε => o.cyclesIn k)).sum =
        (tr.map (·.cyclesIn k)).sum ∧
      ((tr ++ [Observation.acted cc a]).map (fun o : Observation ε => o.cyclesOut k)).sum =
        (tr.map (·.cyclesOut k)).sum + if cc = k then a.refund else 0 := by
  simp

/-- With no callback left for `cc`, every callback has its context once `cc` is removed. -/
theorem Inv.live_erase (hi : Inv m tr) {cc : ℕ} (hout : m.outstandingCalls cc = 0) :
    ∀ id cb, m.callbacks.get? id = some cb → cb.callContextId ∈ (m.callContexts.erase cc).keys := by
  intro id cb hget
  have hne : cb.callContextId ≠ cc := by
    simpa using List.countP_eq_zero.mp hout (id, cb) ((SortedMap.get?_eq_some_iff _).mp hget)
  exact (SortedMap.mem_keys_erase _ _ _).mpr ⟨hi.live id cb hget, hne⟩

theorem Inv.onCanisterResult (hi : Inv m tr) {cc : ℕ} {result : Except ε (Option WasmResult)}
    {a : CallContextAction ε} (h : m.onCanisterResult cc result = .ok (a, m')) :
    Inv m' (tr ++ [.acted cc a]) := by
  obtain ⟨c, hc, hcases⟩ := onCanisterResult_cases h
  have hkey : cc ∈ m.callContexts.keys := by simp [SortedMap.mem_keys_iff, hc]
  have hseen := hi.seen_append (x := .acted cc a) (by simpa using hi.key_le cc hkey)
  have hreg := hi.registered_append (x := .acted cc a) rfl
  have hcount := countP_answers_acted tr cc
  have hcycles := sum_cycles_acted tr cc
  have hcreated : ∀ k cycles, Observation.created k cycles ∈ tr ++ [.acted cc a] →
      Observation.created k cycles ∈ tr := fun k cycles h => by simpa using h
  rcases hcases with ⟨hans, hrefund, -, rfl⟩ | ⟨hresp, hout, rfl, rfl⟩ |
    ⟨hresp, hans, hrefund, ⟨hout, rfl⟩ | ⟨hout, rfl⟩⟩
  · -- an action that is no answer, on an unchanged manager
    refine ⟨hi.key_le, hseen, hi.callbackKey_le, hreg, hi.live, fun k => ?_, fun k c' hc' => ?_,
      fun k cycles hk hkey' => ?_, hi.responded_zero, fun k => ?_⟩
    · simpa [hcount, hans] using hi.answers_le k
    · simpa [hcount, hans] using hi.answered k c' hc'
    · simpa [hcount, hans] using hi.removed k cycles (hcreated k cycles hk) hkey'
    · simpa [hcycles, hrefund] using hi.conserved k
  · -- a context answered before, removed with no callback left
    have hone := (hi.answered cc c hc).mpr hresp
    refine ⟨fun k hk => hi.key_le k ((SortedMap.mem_keys_erase _ _ _).mp hk).1, hseen,
      hi.callbackKey_le, hreg, hi.live_erase hout, fun k => ?_, fun k c' hc' => ?_,
      fun k cycles hk hkey' => ?_, fun k c' hc' => ?_, fun k => ?_⟩
    · simpa [hcount, CallContextAction.isAnswer] using hi.answers_le k
    · rw [SortedMap.get?_erase] at hc'
      split_ifs at hc'
      simpa [hcount, CallContextAction.isAnswer] using hi.answered k c' hc'
    · by_cases hkc : k = cc
      · subst hkc
        simpa [hcount, CallContextAction.isAnswer] using hone
      · simpa [hcount, CallContextAction.isAnswer] using hi.removed k cycles
          (hcreated k cycles hk) fun h => hkey' ((SortedMap.mem_keys_erase _ _ _).mpr ⟨h, hkc⟩)
    · rw [SortedMap.get?_erase] at hc'
      split_ifs at hc'
      exact hi.responded_zero k c' hc'
    · have hcons := hi.conserved k
      have hzero := hi.responded_zero cc c hc hresp
      rw [cyclesLeft_erase]
      by_cases hkc : k = cc
      · subst hkc
        simp only [cyclesLeft, hc, Option.map_some, Option.getD_some, hzero] at hcons
        simp [CallContextAction.refund, hcons]
      · simp [hkc, Ne.symm hkc, hcons]
  · -- an answer, and the context removed with no callback left
    have hzero := hi.answers_eq_zero hc hresp
    refine ⟨fun k hk => hi.key_le k ((SortedMap.mem_keys_erase _ _ _).mp hk).1, hseen,
      hi.callbackKey_le, hreg, hi.live_erase hout, fun k => ?_, fun k c' hc' => ?_,
      fun k cycles hk hkey' => ?_, fun k c' hc' => ?_, fun k => ?_⟩
    · by_cases hkc : k = cc
      · subst hkc
        simp [hcount, hzero, hans]
      · simpa [hcount, Ne.symm hkc] using hi.answers_le k
    · rw [SortedMap.get?_erase] at hc'
      split_ifs at hc' with hkc
      simpa [hcount, Ne.symm hkc] using hi.answered k c' hc'
    · by_cases hkc : k = cc
      · subst hkc
        simp [hcount, hzero, hans]
      · simpa [hcount, Ne.symm hkc] using hi.removed k cycles
          (hcreated k cycles hk) fun h => hkey' ((SortedMap.mem_keys_erase _ _ _).mpr ⟨h, hkc⟩)
    · rw [SortedMap.get?_erase] at hc'
      split_ifs at hc'
      exact hi.responded_zero k c' hc'
    · have hcons := hi.conserved k
      rw [cyclesLeft_erase]
      by_cases hkc : k = cc
      · subst hkc
        simp only [cyclesLeft, hc, Option.map_some, Option.getD_some] at hcons
        simp only [hcycles, if_true, hrefund, hcons]
        omega
      · simp [hkc, Ne.symm hkc, hcons]
  · -- an answer with calls outstanding: the context stays, marked responded
    have hzero := hi.answers_eq_zero hc hresp
    have hkeys := SortedMap.mem_keys_insert_of_mem c.markResponded hkey
    refine ⟨fun k hk => hi.key_le k ((hkeys k).mp hk), hseen, hi.callbackKey_le, hreg,
      fun k cb hget => (hkeys _).mpr (hi.live k cb hget), fun k => ?_, fun k c' hc' => ?_,
      fun k cycles hk hkey' => ?_, fun k c' hc' hresp' => ?_, fun k => ?_⟩
    · by_cases hkc : k = cc
      · subst hkc
        simp [hcount, hzero, hans]
      · simpa [hcount, Ne.symm hkc] using hi.answers_le k
    · rw [SortedMap.get?_insert] at hc'
      split_ifs at hc' with hkc
      · cases hc'
        subst hkc
        simp [hcount, hzero, hans, CallContext.markResponded]
      · simpa [hcount, Ne.symm hkc] using hi.answered k c' hc'
    · have hkc : k ≠ cc := fun h => hkey' ((hkeys k).mpr (h ▸ hkey))
      simpa [hcount, Ne.symm hkc] using
        hi.removed k cycles (hcreated k cycles hk) fun h => hkey' ((hkeys k).mpr h)
    · rw [SortedMap.get?_insert] at hc'
      split_ifs at hc'
      · cases hc'
        rfl
      · exact hi.responded_zero k c' hc' hresp'
    · have hcons := hi.conserved k
      rw [cyclesLeft_insert]
      by_cases hkc : k = cc
      · subst hkc
        simp only [cyclesLeft, hc, Option.map_some, Option.getD_some] at hcons
        simp only [hcycles, if_true, hrefund, hcons, CallContext.markResponded]
        omega
      · simp [hkc, Ne.symm hkc, hcons]

end Steps

theorem Reachable.inv {m : CallContextManager} {now : ℕ} {tr : List (Observation ε)}
    (h : Reachable m now tr) : Inv m tr := by
  induction h with
  | init => exact inv_default
  | newCallContext callOrigin cycles time _ _ ih => exact ih.newCallContext callOrigin cycles time
  | registerCallback _ _ hcb ih => exact ih.registerCallback hcb
  | unregisterCallback callbackId _ _ ih => exact ih.unregisterCallback callbackId
  | withdrawCycles _ _ _ hw ih => exact ih.withdrawCycles hw
  | onCanisterResult _ _ _ _ _ hres ih => exact ih.onCanisterResult hres

/-- What a run of the manager guarantees. -/
structure AnsweredOnce (m : CallContextManager) (tr : List (Observation ε)) : Prop where
  /-- `on_canister_result` does not panic on an open context, replied or rejected only while
  it has not responded. -/
  noPanic : ∀ cc (result : Except ε (Option WasmResult)), cc ∈ m.callContexts.keys →
    (∀ w, result = .ok (some w) → m.callResponded cc = some false) →
    ∃ a m', m.onCanisterResult cc result = .ok (a, m')
  /-- The id of a new context is open nowhere and was never seen. -/
  freshContext : ∀ callOrigin cycles time,
    (m.newCallContext callOrigin cycles time).1 ∉ m.callContexts.keys ∧
      ∀ o ∈ tr, (m.newCallContext callOrigin cycles time).1 ∉ o.callContextId?
  /-- The id of a new callback is registered nowhere and was never seen. -/
  freshCallback : ∀ callback, (m.registerCallback callback).1 ∉ m.callbacks.keys ∧
    ∀ o ∈ tr, (m.registerCallback callback).1 ∉ o.callbackId?
  live : ∀ id cb, m.callbacks.get? id = some cb → cb.callContextId ∈ m.callContexts.keys
  answeredAtMostOnce : ∀ cc, tr.countP (·.answers cc) ≤ 1
  answeredBeforeRemoval : ∀ cc cycles, .created cc cycles ∈ tr → cc ∉ m.callContexts.keys →
    tr.countP (·.answers cc) = 1
  /-- A context that has responded gets only `AlreadyResponded`. -/
  onlyAlreadyResponded : ∀ cc c, m.callContexts.get? cc = some c → c.responded = true →
    ∀ result (a : CallContextAction ε) m', m.onCanisterResult cc result = .ok (a, m') →
      a = .alreadyResponded
  /-- The cycles a context came with are left in it, withdrawn or refunded. -/
  conserved : ∀ cc,
    (tr.map (·.cyclesIn cc)).sum = cyclesLeft m.callContexts cc + (tr.map (·.cyclesOut cc)).sum

/-- **Call contexts are answered exactly once and their cycles are conserved**, in every run of
the operations execution performs on a call context manager. -/
theorem callContexts_answered_once {m : CallContextManager} {now : ℕ}
    {tr : List (Observation ε)} (h : Reachable m now tr) : AnsweredOnce m tr := by
  have hi := h.inv
  refine ⟨fun cc result hkey hresult => ?_, fun _ _ _ => ⟨fun hk => ?_, fun o ho hk => ?_⟩,
    fun _ => ⟨fun hk => ?_, fun o ho hk => ?_⟩, hi.live, hi.answers_le, hi.removed,
    fun cc c hc hresp result a m' hres => ?_, hi.conserved⟩
  · obtain ⟨c, hc⟩ := Option.isSome_iff_exists.mp ((SortedMap.mem_keys_iff _).mp hkey)
    exact onCanisterResult_eq_ok hc fun w hw => by simpa [callResponded, hc] using hresult w hw
  · have := hi.key_le _ hk
    simp [newCallContext] at this
  · have := hi.seen_le o ho _ hk
    simp [newCallContext] at this
  · have := hi.callbackKey_le _ hk
    simp [registerCallback] at this
  · have := hi.registered_le o ho _ hk
    simp [registerCallback] at this
  · obtain ⟨c', hc', hcases⟩ := onCanisterResult_cases hres
    rw [hc] at hc'
    cases hc'
    rcases hcases with ⟨-, -, hnot, -⟩ | ⟨-, -, rfl, -⟩ | ⟨hnot, -⟩
    · exact hnot hresp
    · rfl
    · simp [hresp] at hnot

/-- A heartbeat opens a context with 100 cycles, which makes a call, withdraws 30 cycles and
replies while the call is outstanding: the run answers the context once, and any later result on
it is `AlreadyResponded`. -/
theorem callContexts_answered_once_reply :
    ∃ (m : CallContextManager) (tr : List (Observation Unit)), Reachable m 1 tr ∧ AnsweredOnce m tr ∧
      tr.countP (·.answers 1) = 1 ∧
      ∀ result (a : CallContextAction Unit) m', m.onCanisterResult 1 result = .ok (a, m') →
        a = .alreadyResponded := by
  have h₁ := (Reachable.init (ε := Unit)).newCallContext .heartbeat 100 1 (Nat.zero_le _)
  have h₂ := h₁.registerCallback ⟨1⟩ (by decide)
  have h := (h₂.withdrawCycles 1 30 rfl).onCanisterResult 1 (.ok (some (.reply [7]))) _
    (fun _ _ => rfl) rfl
  have ha := callContexts_answered_once h
  exact ⟨_, _, h, ha, rfl, ha.onlyAlreadyResponded 1 _ rfl rfl⟩

/-! ## Creation times -/

/-- The times of a run: every open context has one, no later than the run's clock, and a
context of a greater id is no older. -/
structure TimesOrdered (m : CallContextManager) (now : ℕ) : Prop where
  time_le : ∀ id c, m.callContexts.get? id = some c → ∃ t, c.time = some t ∧ t ≤ now
  mono : ∀ i j ci cj ti tj, m.callContexts.get? i = some ci → m.callContexts.get? j = some cj →
    i < j → ci.time = some ti → cj.time = some tj → ti ≤ tj

/-- Every context of the second map is one of the first under its id, with its time. -/
def KeepsTimes (cs cs' : SortedMap ℕ CallContext) : Prop :=
  ∀ id c', cs'.get? id = some c' → ∃ c, cs.get? id = some c ∧ c'.time = c.time

section Times

variable {m m' : CallContextManager} {now : ℕ}

theorem keepsTimes_refl (cs : SortedMap ℕ CallContext) : KeepsTimes cs cs :=
  fun _ c' h => ⟨c', h, rfl⟩

theorem keepsTimes_erase (cs : SortedMap ℕ CallContext) (k : ℕ) : KeepsTimes cs (cs.erase k) := by
  intro id c' h
  rw [SortedMap.get?_erase] at h
  split_ifs at h
  exact ⟨c', h, rfl⟩

theorem keepsTimes_insert {cs : SortedMap ℕ CallContext} {k : ℕ} {c c' : CallContext}
    (hc : cs.get? k = some c) (ht : c'.time = c.time) : KeepsTimes cs (cs.insert k c') := by
  intro id c'' h
  rw [SortedMap.get?_insert] at h
  split_ifs at h with hk
  · cases h
    exact ⟨c, hk ▸ hc, ht⟩
  · exact ⟨c'', h, rfl⟩

theorem TimesOrdered.of_keepsTimes (ht : TimesOrdered m now)
    (hk : KeepsTimes m.callContexts m'.callContexts) : TimesOrdered m' now where
  time_le id c' h := by
    obtain ⟨c, hc, hct⟩ := hk id c' h
    rw [hct]
    exact ht.time_le id c hc
  mono i j ci' cj' ti tj hi hj hij hti htj := by
    obtain ⟨ci, hci, hti'⟩ := hk i ci' hi
    obtain ⟨cj, hcj, htj'⟩ := hk j cj' hj
    exact ht.mono i j ci cj ti tj hci hcj hij (hti' ▸ hti) (htj' ▸ htj)

theorem keepsTimes_withdrawCycles {cc cycles : ℕ}
    (hw : m.withdrawCycles cc cycles = some (.ok m')) : KeepsTimes m.callContexts m'.callContexts := by
  unfold withdrawCycles at hw
  cases hc : m.callContexts.get? cc with
  | none => simp [hc] at hw
  | some c =>
    simp only [hc, Option.map_some, Option.some.injEq, CallContext.withdrawCycles] at hw
    split_ifs at hw
    · simp [Except.map] at hw
    · simp only [Except.map, Except.ok.injEq] at hw
      subst hw
      exact keepsTimes_insert hc rfl

theorem keepsTimes_onCanisterResult {cc : ℕ} {result : Except ε (Option WasmResult)}
    {a : CallContextAction ε} (h : m.onCanisterResult cc result = .ok (a, m')) :
    KeepsTimes m.callContexts m'.callContexts := by
  obtain ⟨c, hc, hcases⟩ := onCanisterResult_cases h
  rcases hcases with ⟨-, -, -, rfl⟩ | ⟨-, -, -, rfl⟩ | ⟨-, -, -, ⟨-, rfl⟩ | ⟨-, rfl⟩⟩
  · exact keepsTimes_refl _
  · exact keepsTimes_erase _ _
  · exact keepsTimes_erase _ _
  · exact keepsTimes_insert hc rfl

/-- A new context takes an id above every open one and a time no earlier than the clock. -/
theorem TimesOrdered.newCallContext (ht : TimesOrdered m now)
    (hkey : ∀ id ∈ m.callContexts.keys, id ≤ m.nextCallContextId) (callOrigin : CallOrigin)
    (cycles : ℕ) {time : ℕ} (hle : now ≤ time) :
    TimesOrdered (m.newCallContext callOrigin cycles time).2 time := by
  have hold : ∀ {id c}, m.callContexts.get? id = some c → id < m.nextCallContextId + 1 :=
    fun {id c} h => Nat.lt_succ_of_le
      (hkey id ((SortedMap.mem_keys_iff _).mpr (Option.isSome_iff_exists.mpr ⟨c, h⟩)))
  constructor
  · intro id c h
    simp only [CallContextManager.newCallContext, SortedMap.get?_insert] at h
    split_ifs at h
    · cases h
      exact ⟨time, rfl, le_rfl⟩
    · obtain ⟨t, htc, htn⟩ := ht.time_le id c h
      exact ⟨t, htc, htn.trans hle⟩
  · intro i j ci cj ti tj hi hj hij hti htj
    simp only [CallContextManager.newCallContext, SortedMap.get?_insert] at hi hj
    split_ifs at hi hj with hi' hj' hj'
    · omega
    · have := hold hj
      omega
    · -- the new context is the later one, and no open context is younger than the clock
      cases hj
      cases htj
      obtain ⟨t, htc, htn⟩ := ht.time_le i ci hi
      rw [hti, Option.some.injEq] at htc
      exact htc ▸ htn.trans hle
    · exact ht.mono i j ci cj ti tj hi hj hij hti htj

end Times

theorem Reachable.timesOrdered {m : CallContextManager} {now : ℕ} {tr : List (Observation ε)}
    (h : Reachable m now tr) : TimesOrdered m now := by
  induction h with
  | init => exact ⟨fun _ _ h => by simp [default] at h, fun _ _ _ _ _ _ h => by simp [default] at h⟩
  | newCallContext callOrigin cycles _ hr hle ih => exact ih.newCallContext hr.inv.key_le callOrigin cycles hle
  | registerCallback _ _ _ ih => exact ih.of_keepsTimes (keepsTimes_refl _)
  | unregisterCallback _ _ _ ih => exact ih.of_keepsTimes (keepsTimes_refl _)
  | withdrawCycles _ _ _ hw ih => exact ih.of_keepsTimes (keepsTimes_withdrawCycles hw)
  | onCanisterResult _ _ _ _ _ hres ih => exact ih.of_keepsTimes (keepsTimes_onCanisterResult hres)

/-- **`call_contexts_older_than` stops early but misses no old context**: in every run whose clock
plus the duration stays below 2⁶⁴, it returns the origin and time of every context, in id order,
created at least the duration before the current time and not deleted. -/
theorem callContextsOlderThan_eq_all_old {m : CallContextManager} {now : ℕ}
    {tr : List (Observation ε)} (h : Reachable m now tr) {duration : ℕ}
    (hd : now + duration < 2 ^ 64) (currentTime : ℕ) :
    m.callContextsOlderThan currentTime duration =
      m.callContexts.entries.filterMap fun e => e.2.time.bind fun t =>
        if t + duration ≤ currentTime ∧ e.2.deleted = false then some (e.2.callOrigin, t)
        else none := by
  have ht := h.timesOrdered
  -- a time of the map plus the duration does not wrap
  have hlt : ∀ e ∈ m.callContexts.entries, ∃ t, e.2.time = some t ∧ t ≤ now ∧
      (t + duration) % 2 ^ 64 = t + duration := by
    intro e he
    obtain ⟨t, hte, htn⟩ := ht.time_le e.1 e.2 ((SortedMap.get?_eq_some_iff _).mpr he)
    exact ⟨t, hte, htn, Nat.mod_eq_of_lt (by omega)⟩
  unfold callContextsOlderThan
  rw [List.takeWhile_eq_filter_of_pairwise, List.filterMap_filter]
  · refine List.filterMap_congr fun e he => ?_
    obtain ⟨t, hte, -, hmod⟩ := hlt e he
    simp only [hte, hmod, Option.bind_some]
    cases e.2.deleted <;> simp
  · -- the contexts are in id order, hence in time order, and an old one has only old before it
    refine m.callContexts.sorted.imp_of_mem fun {a b} ha hb hab hpb => ?_
    obtain ⟨ta, hta, -, hmoda⟩ := hlt a ha
    obtain ⟨tb, htb, -, hmodb⟩ := hlt b hb
    have hle := ht.mono a.1 b.1 a.2 b.2 ta tb ((SortedMap.get?_eq_some_iff _).mpr ha)
      ((SortedMap.get?_eq_some_iff _).mpr hb) hab hta htb
    simp only [hta, htb, hmoda, hmodb, decide_eq_true_eq] at hpb ⊢
    omega

/-- Two contexts created at 10 and 20: at 17, only the first is five old. -/
theorem callContextsOlderThan_eq_all_old_heartbeats :
    ((default.newCallContext .heartbeat 0 10).2.newCallContext .heartbeat 0 20).2.callContextsOlderThan
      17 5 = [(.heartbeat, 10)] := by
  have hr := Reachable.newCallContext (ε := Unit) .heartbeat 0 20
    (Reachable.newCallContext .heartbeat 0 10 .init (by decide)) (by decide)
  rw [callContextsOlderThan_eq_all_old hr (by decide) 17]
  rfl

end CallContextManager

end IC.State
