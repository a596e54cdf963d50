import InternetComputer.State.ReplicatedState
import InternetComputer.Lib.Rust

/-!
# Canister messages and their queues

The messages of `ic_types::messages` that the queues of a canister hold, with their byte counts
over a `Layout`, and the queues of `canister_state/queues/queue.rs`. A `VecDeque` is a list with
its front at the head; `usize` counters are natural numbers.

* `Cycles`, a saturating `u128` (**`Cycles.val_foldl_add`**);
* `QueueWithReservation`, with `reserveSlot_eq_ok`, `push_eq_ok`, `pop_eq_some`;
* `InputQueue`, `OutputQueue`, `IngressQueue`.
-/

namespace IC.Queues

open IC.State (CanisterId)

/-! ## Cycles -/

/-- `u128::MAX`. -/
def u128Max : ℕ := 2 ^ 128 - 1

/-- `Cycles`: a `u128`. -/
structure Cycles where
  val : ℕ
  le_max : val ≤ u128Max
  deriving DecidableEq

namespace Cycles

/-- `Cycles::zero()`. -/
instance : Zero Cycles := ⟨⟨0, Nat.zero_le _⟩⟩

/-- `impl Add for Cycles`: `saturating_add`. -/
instance : Add Cycles := ⟨fun a b => ⟨min (a.val + b.val) u128Max, min_le_right _ _⟩⟩

/-- `impl Sub for Cycles`: `saturating_sub`. -/
instance : Sub Cycles := ⟨fun a b => ⟨a.val - b.val, le_trans (Nat.sub_le _ _) a.le_max⟩⟩

@[simp]
theorem val_add (a b : Cycles) : (a + b).val = min (a.val + b.val) u128Max := rfl

@[simp]
theorem val_sub (a b : Cycles) : (a - b).val = a.val - b.val := rfl

theorem ext_val {a b : Cycles} (h : a.val = b.val) : a = b := by
  cases a
  cases b
  cases h
  rfl

end Cycles

/-! ## Messages -/

/-- The `size_of` values of the types whose bytes the queues count. -/
structure Layout where
  requestOrResponse : ℕ
  ingress : ℕ
  arcIngress : ℕ
  inputQueue : ℕ
  ingressQueue : ℕ

/-- `MAX_INTER_CANISTER_PAYLOAD_IN_BYTES_U64`: 2 MiB. -/
def maxInterCanisterPayloadInBytes : ℕ := 2 * 1024 * 1024

/-- `MAX_RESPONSE_COUNT_BYTES`. -/
def maxResponseCountBytes (L : Layout) : ℕ := L.requestOrResponse + maxInterCanisterPayloadInBytes

/-- `Request`, with the fields the queues read. -/
structure Request where
  receiver : CanisterId
  sender : CanisterId
  payment : Cycles
  methodName : String
  methodPayload : List UInt8
  deriving DecidableEq

/-- `Payload` of a response: data, or the message of a reject. -/
inductive Payload
  | data (bytes : List UInt8)
  | reject (message : String)
  deriving DecidableEq

/-- `Response`, with the fields the queues read. -/
structure Response where
  originator : CanisterId
  respondent : CanisterId
  refund : Cycles
  responsePayload : Payload
  deriving DecidableEq

/-- `RequestOrResponse`. -/
inductive RequestOrResponse
  | request (req : Request)
  | response (rep : Response)
  deriving DecidableEq

/-- `Ingress`, with the fields its byte count reads. -/
structure Ingress where
  methodName : String
  methodPayload : List UInt8
  deriving DecidableEq

/-- `CountBytes for Request`. -/
def Request.countBytes (L : Layout) (req : Request) : ℕ :=
  L.requestOrResponse + req.methodName.utf8ByteSize + req.methodPayload.length

/-- `CountBytes for Response`. -/
def Response.countBytes (L : Layout) (rep : Response) : ℕ :=
  let varFieldsSize := match rep.responsePayload with
    | .data data => data.length
    | .reject message => message.utf8ByteSize
  L.requestOrResponse + varFieldsSize

/-- `CountBytes for Ingress`. -/
def Ingress.countBytes (L : Layout) (msg : Ingress) : ℕ :=
  L.ingress + msg.methodName.utf8ByteSize + msg.methodPayload.length

namespace RequestOrResponse

/-- `RequestOrResponse::sender`. -/
def sender : RequestOrResponse → CanisterId
  | .request req => req.sender
  | .response rep => rep.respondent

/-- `RequestOrResponse::receiver`. -/
def receiver : RequestOrResponse → CanisterId
  | .request req => req.receiver
  | .response rep => rep.originator

/-- `RequestOrResponse::cycles`. -/
def cycles : RequestOrResponse → Cycles
  | .request req => req.payment
  | .response rep => rep.refund

/-- `CountBytes for RequestOrResponse`. -/
def countBytes (L : Layout) : RequestOrResponse → ℕ
  | .request req => req.countBytes L
  | .response rep => rep.countBytes L

/-- Whether the message is a response. -/
def IsResponse : RequestOrResponse → Prop
  | .request _ => False
  | .response _ => True

instance : DecidablePred IsResponse := fun msg => by
  cases msg <;> unfold IsResponse <;> infer_instance

end RequestOrResponse

/-- `StateError`, of which the queues raise `QueueFull`. -/
inductive StateError
  | queueFull (capacity : ℕ)
  deriving DecidableEq

/-! ## Queues with reservations -/

/-- `QueueWithReservation<T>`: a FIFO queue of at most `capacity` messages and reserved slots. -/
structure QueueWithReservation (α : Type) where
  queue : List α
  capacity : ℕ
  numSlotsReserved : ℕ
  deriving DecidableEq

namespace QueueWithReservation

variable {α : Type} (q : QueueWithReservation α)

/-- `QueueWithReservation::new`. -/
def new (capacity : ℕ) : QueueWithReservation α := ⟨[], capacity, 0⟩

/-- `check_has_slot`. -/
def checkHasSlot : Except StateError Unit :=
  if q.queue.length + q.numSlotsReserved ≥ q.capacity then .error (.queueFull q.capacity)
  else .ok ()

/-- `reserve_slot`. -/
def reserveSlot : Except StateError (QueueWithReservation α) := do
  q.checkHasSlot
  pure { q with numSlotsReserved := q.numSlotsReserved + 1 }

/-- `push`. -/
def push (msg : α) : Except (StateError × α) (QueueWithReservation α) :=
  match q.checkHasSlot with
  | .error e => .error (e, msg)
  | .ok () => .ok { q with queue := q.queue ++ [msg] }

/-- `push_into_reserved_slot`. -/
def pushIntoReservedSlot (msg : α) : Except (StateError × α) (QueueWithReservation α) :=
  if q.numSlotsReserved > 0 then
    .ok { q with numSlotsReserved := q.numSlotsReserved - 1, queue := q.queue ++ [msg] }
  else .error (.queueFull 0, msg)

/-- `pop`: the front message and the queue without it. -/
def pop : Option (α × QueueWithReservation α) :=
  match q.queue with
  | [] => none
  | msg :: rest => some (msg, { q with queue := rest })

/-- `peek`. -/
def peek : Option α := q.queue.head?

/-- `num_messages`. -/
def numMessages : ℕ := q.queue.length

/-- `reserved_slots`. -/
def reservedSlots : ℕ := q.numSlotsReserved

/-- `calculate_stat_sum`. -/
def calculateStatSum (stat : α → ℕ) : ℕ := (q.queue.map stat).sum

/-- The messages and reservations fit into the capacity. -/
def Fits : Prop := q.queue.length + q.numSlotsReserved ≤ q.capacity

variable {q}

theorem checkHasSlot_eq_ok {u : Unit} :
    q.checkHasSlot = .ok u ↔ q.queue.length + q.numSlotsReserved < q.capacity := by
  unfold checkHasSlot
  split_ifs with h
  · simp only [reduceCtorEq, false_iff]
    omega
  · simp only [true_iff]
    omega

theorem reserveSlot_eq_ok {q' : QueueWithReservation α} :
    q.reserveSlot = .ok q' ↔ q.queue.length + q.numSlotsReserved < q.capacity ∧
      q' = { q with numSlotsReserved := q.numSlotsReserved + 1 } := by
  unfold reserveSlot
  cases h : q.checkHasSlot with
  | error e =>
    have hfull : ¬ q.queue.length + q.numSlotsReserved < q.capacity := by
      rw [← checkHasSlot_eq_ok (u := ())]
      simp [h]
    simp only [Except.error_bind, reduceCtorEq, false_iff, not_and]
    exact fun h' => absurd h' hfull
  | ok u =>
    have hslot := checkHasSlot_eq_ok.mp h
    simp only [Except.ok_bind, Except.pure_eq_ok, hslot, true_and]
    exact eq_comm

theorem push_eq_ok {msg : α} {q' : QueueWithReservation α} :
    q.push msg = .ok q' ↔ q.queue.length + q.numSlotsReserved < q.capacity ∧
      q' = { q with queue := q.queue ++ [msg] } := by
  unfold push
  cases h : q.checkHasSlot with
  | error e =>
    have hfull : ¬ q.queue.length + q.numSlotsReserved < q.capacity := by
      rw [← checkHasSlot_eq_ok (u := ())]
      simp [h]
    simp only [reduceCtorEq, false_iff, not_and]
    exact fun h' => absurd h' hfull
  | ok u =>
    simp only [Except.ok.injEq, checkHasSlot_eq_ok.mp h, true_and]
    exact eq_comm

theorem push_eq_error {msg : α} {e : StateError × α} (h : q.push msg = .error e) : e.2 = msg := by
  unfold push at h
  split at h
  · cases h
    rfl
  · cases h

theorem pushIntoReservedSlot_eq_ok {msg : α} {q' : QueueWithReservation α} :
    q.pushIntoReservedSlot msg = .ok q' ↔ 0 < q.numSlotsReserved ∧
      q' = { q with numSlotsReserved := q.numSlotsReserved - 1, queue := q.queue ++ [msg] } := by
  unfold pushIntoReservedSlot
  split_ifs with h
  · simp only [Except.ok.injEq, h, true_and]
    exact eq_comm
  · simp only [reduceCtorEq, false_iff, not_and]
    exact fun h' => absurd h' h

theorem pop_eq_some {msg : α} {q' : QueueWithReservation α} :
    q.pop = some (msg, q') ↔ ∃ rest, q.queue = msg :: rest ∧ q' = { q with queue := rest } := by
  unfold pop
  split
  · simp_all
  · rename_i m rest h
    rw [h]
    simp only [Option.some.injEq, Prod.mk.injEq, List.cons.injEq]
    constructor
    · rintro ⟨rfl, rfl⟩
      exact ⟨rest, ⟨rfl, rfl⟩, rfl⟩
    · rintro ⟨rest', ⟨rfl, rfl⟩, rfl⟩
      exact ⟨rfl, rfl⟩

theorem pop_eq_none : q.pop = none ↔ q.queue = [] := by
  unfold pop
  split <;> simp_all

/-! ### The capacity -/

theorem fits_of_push_eq_ok {msg : α} {q' : QueueWithReservation α} (h : q.push msg = .ok q') :
    q'.Fits := by
  obtain ⟨hlt, rfl⟩ := push_eq_ok.mp h
  simp only [Fits, List.length_append, List.length_singleton]
  omega

theorem Fits.pushIntoReservedSlot (hq : q.Fits) {msg : α} {q' : QueueWithReservation α}
    (h : q.pushIntoReservedSlot msg = .ok q') : q'.Fits := by
  obtain ⟨hpos, rfl⟩ := pushIntoReservedSlot_eq_ok.mp h
  simp only [Fits, List.length_append, List.length_singleton] at hq ⊢
  omega

theorem Fits.pop (hq : q.Fits) {msg : α} {q' : QueueWithReservation α}
    (h : q.pop = some (msg, q')) : q'.Fits := by
  obtain ⟨rest, hqueue, rfl⟩ := pop_eq_some.mp h
  simp only [Fits, hqueue, List.length_cons] at hq ⊢
  omega

end QueueWithReservation

/-! ## Input, output and ingress queues -/

/-- `QUEUE_INDEX_NONE`: `u64::MAX`. -/
def queueIndexNone : ℕ := 2 ^ 64 - 1

/-- `InputQueue`: a queue of messages and the index the next message is expected with. -/
structure InputQueue where
  queue : QueueWithReservation RequestOrResponse
  ind : ℕ
  deriving DecidableEq

namespace InputQueue

/-- `InputQueue::new`. -/
def new (capacity : ℕ) : InputQueue := ⟨.new capacity, 0⟩

/-- `InputQueue::check_has_slot`. -/
def checkHasSlot (q : InputQueue) : Except StateError Unit := q.queue.checkHasSlot

/-- `InputQueue::reserve_slot`. -/
def reserveSlot (q : InputQueue) : Except StateError InputQueue :=
  (fun queue => { q with queue }) <$> q.queue.reserveSlot

/-- The push at the end of `InputQueue::push`, into a free or a reserved slot. -/
def pushMessage (queue : QueueWithReservation RequestOrResponse) (msg : RequestOrResponse) :
    Except (StateError × RequestOrResponse) (QueueWithReservation RequestOrResponse) :=
  match msg with
  | .request _ => queue.push msg
  | .response _ => queue.pushIntoReservedSlot msg

/-- The index check at the start of `InputQueue::push`. -/
def nextInd (q : InputQueue) (msgInd : ℕ) : Except String ℕ :=
  if msgInd = q.ind then pure (q.ind + 1)
  else if msgInd ≠ queueIndexNone then
    throw ("Expected queue index " ++ toString q.ind ++ ", got " ++ toString msgInd ++
      ". Message: ")
  else pure q.ind

/-- `InputQueue::push`; the index moves on also when the push fails. -/
def push (q : InputQueue) (msgInd : ℕ) (msg : RequestOrResponse) :
    Except String (InputQueue × Except (StateError × RequestOrResponse) Unit) := do
  let ind ← q.nextInd msgInd
  match pushMessage q.queue msg with
  | .ok queue => pure (⟨queue, ind⟩, .ok ())
  | .error e => pure ({ q with ind }, .error e)

theorem push_eq_ok {q q' : InputQueue} {msgInd : ℕ} {msg : RequestOrResponse}
    {r : Except (StateError × RequestOrResponse) Unit} (h : q.push msgInd msg = .ok (q', r)) :
    (pushMessage q.queue msg = .ok q'.queue ∧ r = .ok ()) ∨
      (∃ e, pushMessage q.queue msg = .error e ∧ q'.queue = q.queue ∧ r = .error e) := by
  unfold push at h
  obtain ⟨ind, -, h⟩ := Except.bind_eq_ok.mp h
  split at h
  · rename_i queue hpush
    cases h
    exact Or.inl ⟨hpush, rfl⟩
  · rename_i e hpush
    cases h
    exact Or.inr ⟨e, hpush, rfl, rfl⟩

/-- `InputQueue::pop`. -/
def pop (q : InputQueue) : Option (RequestOrResponse × InputQueue) :=
  q.queue.pop.map fun (msg, queue) => (msg, { q with queue })

/-- `InputQueue::num_messages`. -/
def numMessages (q : InputQueue) : ℕ := q.queue.numMessages

/-- `InputQueue::reserved_slots`. -/
def reservedSlots (q : InputQueue) : ℕ := q.queue.reservedSlots

/-- `InputQueue::cycles_in_queue`. -/
def cyclesInQueue (q : InputQueue) : Cycles := q.queue.queue.foldl (fun t msg => t + msg.cycles) 0

/-- `InputQueue::calculate_size_bytes`: the struct and its messages. -/
def calculateSizeBytes (L : Layout) (q : InputQueue) : ℕ :=
  L.inputQueue + q.queue.calculateStatSum (RequestOrResponse.countBytes L)

/-- `InputQueue::calculate_stat_sum`. -/
def calculateStatSum (q : InputQueue) (stat : RequestOrResponse → ℕ) : ℕ :=
  q.queue.calculateStatSum stat

theorem checkHasSlot_eq_ok {q : InputQueue} {u : Unit} :
    q.checkHasSlot = .ok u ↔ q.queue.queue.length + q.queue.numSlotsReserved < q.queue.capacity :=
  QueueWithReservation.checkHasSlot_eq_ok

theorem reserveSlot_eq_ok {q q' : InputQueue} :
    q.reserveSlot = .ok q' ↔ q.queue.queue.length + q.queue.numSlotsReserved < q.queue.capacity ∧
      q' = { q with queue := { q.queue with numSlotsReserved := q.queue.numSlotsReserved + 1 } } := by
  unfold reserveSlot
  rw [Except.map_eq_ok]
  constructor
  · rintro ⟨queue, hres, rfl⟩
    obtain ⟨hlt, rfl⟩ := QueueWithReservation.reserveSlot_eq_ok.mp hres
    exact ⟨hlt, rfl⟩
  · rintro ⟨hlt, rfl⟩
    exact ⟨_, QueueWithReservation.reserveSlot_eq_ok.mpr ⟨hlt, rfl⟩, rfl⟩

theorem pop_eq_some {q q' : InputQueue} {msg : RequestOrResponse} :
    q.pop = some (msg, q') ↔
      ∃ rest, q.queue.queue = msg :: rest ∧ q' = { q with queue := { q.queue with queue := rest } } := by
  unfold pop
  rw [Option.map_eq_some_iff]
  constructor
  · rintro ⟨⟨m, queue⟩, hpop, hq⟩
    obtain ⟨rest, hqueue, rfl⟩ := QueueWithReservation.pop_eq_some.mp hpop
    simp only [Prod.mk.injEq] at hq
    obtain ⟨rfl, rfl⟩ := hq
    exact ⟨rest, hqueue, rfl⟩
  · rintro ⟨rest, hqueue, rfl⟩
    exact ⟨(msg, { q.queue with queue := rest }), QueueWithReservation.pop_eq_some.mpr ⟨rest, hqueue, rfl⟩,
      rfl⟩

end InputQueue

/-- `OutputQueue`: a queue of messages and the index of the next message popped. -/
structure OutputQueue where
  queue : QueueWithReservation RequestOrResponse
  ind : ℕ
  deriving DecidableEq

namespace OutputQueue

/-- `OutputQueue::new`. -/
def new (capacity : ℕ) : OutputQueue := ⟨.new capacity, 0⟩

/-- `OutputQueue::check_has_slot`. -/
def checkHasSlot (q : OutputQueue) : Except StateError Unit := q.queue.checkHasSlot

/-- `OutputQueue::push_request`. -/
def pushRequest (q : OutputQueue) (msg : Request) : Except (StateError × Request) OutputQueue :=
  match q.queue.push (.request msg) with
  | .error (err, .request msg) => .error (err, msg)
  | .error (_, .response _) => .ok q
  | .ok queue => .ok { q with queue }

/-- `OutputQueue::push_response`: `unwrap` of a push into a reserved slot. -/
def pushResponse (q : OutputQueue) (msg : Response) : Except String OutputQueue :=
  match q.queue.pushIntoReservedSlot (.response msg) with
  | .ok queue => .ok { q with queue }
  | .error _ => .error "called `Result::unwrap()` on an `Err` value"

/-- `OutputQueue::reserve_slot`. -/
def reserveSlot (q : OutputQueue) : Except StateError OutputQueue :=
  (fun queue => { q with queue }) <$> q.queue.reserveSlot

/-- `OutputQueue::pop`: the index and the message, and the index moves on. -/
def pop (q : OutputQueue) : Option ((ℕ × RequestOrResponse) × OutputQueue) :=
  q.queue.pop.map fun (msg, queue) => ((q.ind, msg), ⟨queue, q.ind + 1⟩)

/-- `OutputQueue::peek`. -/
def peek (q : OutputQueue) : Option (ℕ × RequestOrResponse) := q.queue.peek.map (q.ind, ·)

/-- `OutputQueue::num_messages`. -/
def numMessages (q : OutputQueue) : ℕ := q.queue.numMessages

/-- `OutputQueue::reserved_slots`. -/
def reservedSlots (q : OutputQueue) : ℕ := q.queue.reservedSlots

/-- `OutputQueue::cycles_in_queue`. -/
def cyclesInQueue (q : OutputQueue) : Cycles :=
  q.queue.queue.foldl (fun t msg => t + msg.cycles) 0

/-- `OutputQueue::calculate_stat_sum`. -/
def calculateStatSum (q : OutputQueue) (stat : RequestOrResponse → ℕ) : ℕ :=
  q.queue.calculateStatSum stat

theorem checkHasSlot_eq_ok {q : OutputQueue} {u : Unit} :
    q.checkHasSlot = .ok u ↔ q.queue.queue.length + q.queue.numSlotsReserved < q.queue.capacity :=
  QueueWithReservation.checkHasSlot_eq_ok

theorem reserveSlot_eq_ok {q q' : OutputQueue} :
    q.reserveSlot = .ok q' ↔ q.queue.queue.length + q.queue.numSlotsReserved < q.queue.capacity ∧
      q' = { q with queue := { q.queue with numSlotsReserved := q.queue.numSlotsReserved + 1 } } := by
  unfold reserveSlot
  rw [Except.map_eq_ok]
  constructor
  · rintro ⟨queue, hres, rfl⟩
    obtain ⟨hlt, rfl⟩ := QueueWithReservation.reserveSlot_eq_ok.mp hres
    exact ⟨hlt, rfl⟩
  · rintro ⟨hlt, rfl⟩
    exact ⟨_, QueueWithReservation.reserveSlot_eq_ok.mpr ⟨hlt, rfl⟩, rfl⟩

theorem pushRequest_eq_ok {q q' : OutputQueue} {msg : Request} :
    q.pushRequest msg = .ok q' ↔ q.queue.queue.length + q.queue.numSlotsReserved < q.queue.capacity ∧
      q' = { q with queue := { q.queue with queue := q.queue.queue ++ [.request msg] } } := by
  unfold pushRequest
  cases h : q.queue.push (.request msg) with
  | error e =>
    obtain ⟨err, m⟩ := e
    have hm : m = .request msg := QueueWithReservation.push_eq_error h
    subst hm
    have hfull : ¬ q.queue.queue.length + q.queue.numSlotsReserved < q.queue.capacity := fun hlt =>
      absurd (h.symm.trans (QueueWithReservation.push_eq_ok.mpr ⟨hlt, rfl⟩)) (by simp)
    simp only [reduceCtorEq, false_iff, not_and]
    exact fun hlt => absurd hlt hfull
  | ok queue =>
    obtain ⟨hlt, rfl⟩ := QueueWithReservation.push_eq_ok.mp h
    simp only [Except.ok.injEq, hlt, true_and]
    exact eq_comm

theorem pushResponse_eq_ok {q q' : OutputQueue} {msg : Response} :
    q.pushResponse msg = .ok q' ↔ 0 < q.queue.numSlotsReserved ∧
      q' = { q with
        queue := { q.queue with
          numSlotsReserved := q.queue.numSlotsReserved - 1
          queue := q.queue.queue ++ [.response msg] } } := by
  unfold pushResponse
  cases h : q.queue.pushIntoReservedSlot (.response msg) with
  | error e =>
    have hnone : ¬ 0 < q.queue.numSlotsReserved := fun hpos =>
      absurd (h.symm.trans (QueueWithReservation.pushIntoReservedSlot_eq_ok.mpr ⟨hpos, rfl⟩))
        (by simp)
    simp only [reduceCtorEq, false_iff, not_and]
    exact fun hpos => absurd hpos hnone
  | ok queue =>
    obtain ⟨hpos, rfl⟩ := QueueWithReservation.pushIntoReservedSlot_eq_ok.mp h
    simp only [Except.ok.injEq, hpos, true_and]
    exact eq_comm

theorem pop_eq_some {q q' : OutputQueue} {i : ℕ} {msg : RequestOrResponse} :
    q.pop = some ((i, msg), q') ↔ i = q.ind ∧
      ∃ rest, q.queue.queue = msg :: rest ∧ q' = ⟨{ q.queue with queue := rest }, q.ind + 1⟩ := by
  unfold pop
  rw [Option.map_eq_some_iff]
  constructor
  · rintro ⟨⟨m, queue⟩, hpop, hq⟩
    obtain ⟨rest, hqueue, rfl⟩ := QueueWithReservation.pop_eq_some.mp hpop
    simp only [Prod.mk.injEq] at hq
    obtain ⟨⟨rfl, rfl⟩, rfl⟩ := hq
    exact ⟨rfl, rest, hqueue, rfl⟩
  · rintro ⟨rfl, rest, hqueue, rfl⟩
    exact ⟨(msg, { q.queue with queue := rest }), QueueWithReservation.pop_eq_some.mpr ⟨rest, hqueue, rfl⟩,
      rfl⟩

end OutputQueue

/-- `IngressQueue`: the ingress messages and an estimate of their bytes. -/
structure IngressQueue where
  queue : List Ingress
  sizeBytes : ℕ
  deriving DecidableEq

namespace IngressQueue

/-- `IngressQueue::ingress_size_bytes`. -/
def ingressSizeBytes (L : Layout) (msg : Ingress) : ℕ := L.arcIngress + msg.countBytes L

/-- `IngressQueue::size_bytes`: the bytes of a queue holding the given messages. -/
def sizeBytesOf (L : Layout) (queue : List Ingress) : ℕ :=
  L.ingressQueue + (queue.map (ingressSizeBytes L)).sum

/-- `IngressQueue::default`. -/
def default (L : Layout) : IngressQueue := ⟨[], sizeBytesOf L []⟩

/-- `IngressQueue::push`. -/
def push (L : Layout) (q : IngressQueue) (msg : Ingress) : IngressQueue :=
  ⟨q.queue ++ [msg], q.sizeBytes + ingressSizeBytes L msg⟩

/-- `IngressQueue::pop`. -/
def pop (L : Layout) (q : IngressQueue) : Option Ingress × IngressQueue :=
  match q.queue with
  | [] => (none, q)
  | msg :: rest => (some msg, ⟨rest, q.sizeBytes - ingressSizeBytes L msg⟩)

/-- `IngressQueue::filter_messages`, a `VecDeque::retain` whose `n`-th call decides message `n`. -/
def filterMessages (L : Layout) (q : IngressQueue) (filter : ℕ → Ingress → Bool) :
    IngressQueue :=
  let queue := (q.queue.zipIdx.filter fun p => filter p.2 p.1).map Prod.fst
  ⟨queue, sizeBytesOf L queue⟩

/-- `IngressQueue::size`. -/
def size (q : IngressQueue) : ℕ := q.queue.length

/-- `IngressQueue::is_empty`. -/
def isEmpty (q : IngressQueue) : Bool := q.size == 0

/-! ### The byte count stays exact -/

variable (L : Layout) {q : IngressQueue}

theorem sizeBytes_push (h : q.sizeBytes = sizeBytesOf L q.queue) (msg : Ingress) :
    (q.push L msg).sizeBytes = sizeBytesOf L (q.push L msg).queue := by
  simp only [push, sizeBytesOf, List.map_append, List.sum_append, List.map_cons, List.map_nil,
    List.sum_cons, List.sum_nil, h]
  omega

theorem sizeBytes_pop (h : q.sizeBytes = sizeBytesOf L q.queue) :
    (q.pop L).2.sizeBytes = sizeBytesOf L (q.pop L).2.queue := by
  unfold pop
  split
  · exact h
  · rename_i msg rest hq
    simp only [sizeBytesOf, hq, List.map_cons, List.sum_cons] at h ⊢
    omega

end IngressQueue

end IC.Queues
