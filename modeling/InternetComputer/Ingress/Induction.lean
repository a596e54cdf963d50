import InternetComputer.Ingress.Selector

/-!
# Inducting the ingress of finalized blocks

The ingress history as the batches of finalized blocks change it: each batch inducts the
payload's messages that have no status, execution writes statuses through `set_status`, and the
round ends with `prune_ingress_history`. Which messages can be enqueued, and which statuses
execution writes, are parameters.

* `inductMessage`, `inductMessages`, `processBatch`, `execute`;
* `pastPayloads`, `BlockValid`, `ValidRun`: blocks that passed `validate_ingress_payload`.
-/

namespace IC.Ingress

/-- The replicated state, of which the batch time and the ingress history are modelled. -/
structure ReplicatedState (μ : Type) where
  time : Time
  ingressHistory : IngressHistoryState μ

namespace ReplicatedState

variable {μ : Type} [DecidableEq μ]

/-- The state before the first batch. -/
def initial : ReplicatedState μ := ⟨0, .empty⟩

/-- `ReplicatedState::get_ingress_status`. -/
def getIngressStatus (s : ReplicatedState μ) (messageId : μ) : IngressStatus :=
  s.ingressHistory.get messageId

/-- `ReplicatedState::set_ingress_status`, at the state's time. -/
def setIngressStatus (s : ReplicatedState μ) (messageId : μ) (status : IngressStatus) :
    ReplicatedState μ :=
  { s with ingressHistory := s.ingressHistory.insert messageId status s.time }

/-- `ReplicatedState::prune_ingress_history`, at the state's time. -/
def pruneIngressHistory (s : ReplicatedState μ) : ReplicatedState μ :=
  { s with ingressHistory := s.ingressHistory.prune s.time }

@[simp]
theorem time_setIngressStatus (s : ReplicatedState μ) (messageId : μ) (status : IngressStatus) :
    (s.setIngressStatus messageId status).time = s.time := rfl

@[simp]
theorem time_pruneIngressHistory (s : ReplicatedState μ) : s.pruneIngressHistory.time = s.time :=
  rfl

theorem getIngressStatus_setIngressStatus (s : ReplicatedState μ) (messageId : μ)
    (status : IngressStatus) (id : μ) :
    (s.setIngressStatus messageId status).getIngressStatus id =
      if id = messageId then status else s.getIngressStatus id :=
  s.ingressHistory.get_insert messageId status s.time id

end ReplicatedState

variable {μ : Type} [DecidableEq μ]

/-- The guard of `IngressHistoryWriterImpl::set_status`: the transitions it finds invalid. -/
def isInvalidTransition : IngressStatus → IngressStatus → Bool
  | .unknown, _ => false
  | .known _ _, .unknown => true
  | .known current _, .known state _ =>
    !(match current, state with
      | .received, .processing | .received, .completed | .received, .failed
      | .processing, .processing | .processing, .completed | .processing, .failed => true
      | _, _ => false)

/-- `IngressHistoryWriterImpl::set_status`: an invalid transition is fatal. -/
def setStatus (s : ReplicatedState μ) (messageId : μ) (status : IngressStatus) :
    Except String (ReplicatedState μ) :=
  let currentStatus := s.getIngressStatus messageId
  if isInvalidTransition currentStatus status then .error "message cannot be transitioned"
  else .ok (s.setIngressStatus messageId status)

theorem isInvalidTransition_unknown_eq_false {current : IngressStatus} :
    isInvalidTransition current .unknown = false ↔ current = .unknown := by
  cases current <;> simp [isInvalidTransition]

theorem setStatus_eq_ok_iff {s s' : ReplicatedState μ} {messageId : μ} {status : IngressStatus} :
    setStatus s messageId status = .ok s' ↔
      isInvalidTransition (s.getIngressStatus messageId) status = false ∧
        s' = s.setIngressStatus messageId status := by
  unfold setStatus
  dsimp only
  split_ifs with h
  · simp [h]
  · simp only [Except.ok.injEq, h, true_and]
    exact eq_comm

/-- `ValidSetRuleImpl::is_duplicate`. -/
def isDuplicate (s : ReplicatedState μ) (msg : IngressMessageId μ) : Bool :=
  s.getIngressStatus msg.messageId != .unknown

/-- `ValidSetRuleImpl::induct_message`: `Received` when `enqueue` succeeds, else `Failed`. -/
def inductMessage (enqueue : IngressMessageId μ → Bool) (s : ReplicatedState μ)
    (msg : IngressMessageId μ) : Except String (ReplicatedState μ × (μ × IngressStatus)) := do
  let time := s.time
  let status := if enqueue msg then IngressStatus.known .received time else .known .failed time
  let s ← setStatus s msg.messageId status
  pure (s, (msg.messageId, status))

omit [DecidableEq μ] in
theorem isDuplicate_eq_false_iff {s : ReplicatedState μ} {msg : IngressMessageId μ} :
    isDuplicate s msg = false ↔ s.getIngressStatus msg.messageId = .unknown := by
  simp [isDuplicate]

theorem inductMessage_eq_ok {enqueue : IngressMessageId μ → Bool} {s s' : ReplicatedState μ}
    {msg : IngressMessageId μ} {w : μ × IngressStatus}
    (h : inductMessage enqueue s msg = .ok (s', w)) :
    w.1 = msg.messageId ∧ w.2 ≠ .unknown ∧ s' = s.setIngressStatus msg.messageId w.2 := by
  unfold inductMessage at h
  dsimp only at h
  obtain ⟨s₁, hset, h⟩ := Except.bind_eq_ok.mp h
  obtain ⟨rfl, rfl⟩ := Prod.mk.inj (Except.pure_eq_ok.mp h)
  refine ⟨rfl, ?_, (setStatus_eq_ok_iff.mp hset).2⟩
  split_ifs <;> exact IngressStatus.noConfusion

/-- `ValidSetRuleImpl::induct_messages`: a message with a status is skipped as a duplicate. -/
def inductMessages (enqueue : IngressMessageId μ → Bool) :
    ReplicatedState μ → List (IngressMessageId μ) →
      Except String (ReplicatedState μ × List (μ × IngressStatus))
  | s, [] => .ok (s, [])
  | s, msg :: msgs =>
    if !isDuplicate s msg then do
      let (s, w) ← inductMessage enqueue s msg
      let (s, ws) ← inductMessages enqueue s msgs
      pure (s, w :: ws)
    else inductMessages enqueue s msgs

/-- The statuses execution writes, one `set_status` after the other. -/
def writeStatuses (s : ReplicatedState μ) (executed : List (μ × IngressStatus)) :
    Except String (ReplicatedState μ) :=
  executed.foldlM (fun s w => setStatus s w.1 w.2) s

/-- One batch at `time`: induction, execution, and the pruning at the end of the round. -/
def processBatch (enqueue : IngressMessageId μ → Bool) (s : ReplicatedState μ) (time : Time)
    (ingress : List (IngressMessageId μ)) (executed : List (μ × IngressStatus)) :
    Except String (ReplicatedState μ × List (μ × IngressStatus)) := do
  let s := { s with time }
  let (s, inducted) ← inductMessages enqueue s ingress
  let s ← writeStatuses s executed
  pure (s.pruneIngressHistory, inducted ++ executed)

/-- A finalized block: its validation context, whose time is the batch's, and its ingress. -/
structure Block (μ : Type) where
  context : ValidationContext
  ingress : List (IngressMessageId μ)

/-- The batches of the blocks in order: the states of heights `1, 2, …` and the statuses written. -/
def execute (enqueue : IngressMessageId μ → Bool) :
    ReplicatedState μ → List (Block μ × List (μ × IngressStatus)) →
      Except String (List (ReplicatedState μ) × List (μ × IngressStatus))
  | _, [] => .ok ([], [])
  | s, (b, executed) :: rest => do
    let (s, written) ← processBatch enqueue s b.context.time b.ingress executed
    let (states, writtenLater) ← execute enqueue s rest
    pure (s :: states, written ++ writtenLater)

/-! ## Validity of the blocks -/

/-- The payloads above the certified height and below `height`, from the highest down. -/
def pastPayloads (blocks : List (Block μ)) (height certifiedHeight : ℕ) :
    List (ℕ × Time × List (IngressMessageId μ)) :=
  ((List.range' (certifiedHeight + 1) (height - 1 - certifiedHeight)).reverse).filterMap
    fun j => (blocks[j - 1]?).map fun b => (j, b.context.time, b.ingress)

/-- Block `k` passed validation: its certified state, one before it, is no younger than it, and its
payload is valid given the payloads above the certified height. `states` starts at height 0. -/
def BlockValid (blocks : List (Block μ)) (states : List (ReplicatedState μ)) (k : ℕ)
    (b : Block μ) : Prop :=
  b.context.certifiedHeight ≤ k ∧
  (states[b.context.certifiedHeight]?.map ReplicatedState.time).all (· ≤ b.context.time) ∧
  validateIngressPayload b.ingress
    (filterPastPayloads (pastPayloads blocks (k + 1) b.context.certifiedHeight) b.context).toQuery
    b.context (fun h => if h ≤ k then states[h]?.map ReplicatedState.getIngressStatus else none)
    = .ok ()

instance (blocks : List (Block μ)) (states : List (ReplicatedState μ)) (k : ℕ) (b : Block μ) :
    Decidable (BlockValid blocks states k b) :=
  inferInstanceAs (Decidable (_ ∧ _ ∧ _))

theorem BlockValid.le_expiry {blocks : List (Block μ)} {states : List (ReplicatedState μ)}
    {k : ℕ} {b : Block μ} (h : BlockValid blocks states k b) :
    ∀ m ∈ b.ingress, b.context.time ≤ m.expiry := by
  obtain ⟨chain, -, hmsgs⟩ := validateIngressPayload_eq_ok_iff.mp h.2.2
  exact fun m hm => (hmsgs m hm).2.1

/-- A run of finalized blocks, with non-decreasing times, each of which passed validation. -/
def ValidRun (blocks : List (Block μ)) (states : List (ReplicatedState μ)) : Prop :=
  blocks.Pairwise (fun a b => a.context.time ≤ b.context.time) ∧
  ∀ k (hk : k < blocks.length), BlockValid blocks states k blocks[k]

instance (blocks : List (Block μ)) (states : List (ReplicatedState μ)) :
    Decidable (ValidRun blocks states) :=
  inferInstanceAs (Decidable (_ ∧ _))

/-- `Received` statuses. -/
def IngressStatus.isReceived : IngressStatus → Bool
  | .known .received _ => true
  | _ => false

end IC.Ingress
