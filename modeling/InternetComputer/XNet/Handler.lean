import InternetComputer.XNet.Stream

/-!
# The stream handler

`StreamHandlerImpl` of `stream_handler.rs`, for one remote subnet: the outgoing stream is garbage
collected on the signals of an incoming slice, whose messages are then inducted with a signal for
each. What induction does with a message is the parameter `outcome`, and which rejected messages
are rerouted the parameter `route`. A panic is an error.

* `garbageCollectLocalState`, `inductStreamSlices`, `processStreamSlices`;
* **`processStreamSlices_eq_ok`**: when the slice fits the stream, the handler does not panic.
-/

namespace IC.XNet

variable {σ α : Type}

/-- `StreamComponent`: the part of a stream an assertion is about, for its message. -/
inductive StreamComponent (σ : Type) where
  | signalsFrom (subnet : σ)
  | signalsTo (subnet : σ)
  | messagesFrom (subnet : σ)
  deriving DecidableEq, Repr

/-- `impl Display for StreamComponent`. -/
def StreamComponent.fmt [ToString σ] : StreamComponent σ → String
  | .signalsFrom subnet => s!"signal indices in stream slice from subnet {subnet}"
  | .signalsTo subnet => s!"signal indices in stream to subnet {subnet}"
  | .messagesFrom subnet => s!"message indices in stream slice from subnet {subnet}"

instance [ToString σ] : ToString (StreamComponent σ) := ⟨StreamComponent.fmt⟩

section Asserts

variable [ToString σ]

/-- `assert_valid_signals`: the reject signals increase below `signals_end`. -/
def assertValidSignals (signalsEnd : ℕ) (rejectSignals : List ℕ)
    (streamComponent : StreamComponent σ) : Except String Unit :=
  let shifted := rejectSignals.drop 1 ++ [signalsEnd]
  if (rejectSignals.zip shifted).all (fun p => decide (p.1 < p.2)) then .ok ()
  else .error s!"Invalid {streamComponent}: signals_end {signalsEnd}, signals {rejectSignals}"

/-- `assert_valid_signals_for_messages`: the signals cover a prefix of the messages. -/
def assertValidSignalsForMessages (signalsEnd messagesBegin messagesEnd : ℕ)
    (streamComponent : StreamComponent σ) : Except String Unit :=
  if messagesBegin ≤ signalsEnd ∧ signalsEnd ≤ messagesEnd then .ok ()
  else
    .error s!"Invalid {streamComponent}: signals_end {signalsEnd}, messages [{messagesBegin}, {messagesEnd})"

/-- `assert_valid_slice_messages_for_stream`. -/
def assertValidSliceMessagesForStream (sliceMessages : Option (StreamIndexedQueue α))
    (streamSignalsEnd : ℕ) (subnet : σ) : Except String Unit :=
  match sliceMessages with
  | some messages =>
    let messagesBegin := messages.begin
    if messagesBegin = streamSignalsEnd then .ok ()
    else
      .error s!"Invalid message indices in stream slice from subnet {subnet}: messages begin ({messagesBegin}) != stream signals_end ({streamSignalsEnd})"
  | none => .ok ()

theorem assertValidSignals_eq_ok_iff {signalsEnd : ℕ} {rejectSignals : List ℕ}
    {streamComponent : StreamComponent σ} :
    assertValidSignals signalsEnd rejectSignals streamComponent = .ok () ↔
      (rejectSignals ++ [signalsEnd]).Pairwise (· < ·) := by
  unfold assertValidSignals
  dsimp only
  rw [← List.all_zip_shift_lt_iff]
  split_ifs with h
  · exact iff_of_true rfl h
  · exact iff_of_false (fun he => by cases he) h

theorem assertValidSignalsForMessages_eq_ok_iff {signalsEnd messagesBegin messagesEnd : ℕ}
    {streamComponent : StreamComponent σ} :
    assertValidSignalsForMessages signalsEnd messagesBegin messagesEnd streamComponent = .ok () ↔
      messagesBegin ≤ signalsEnd ∧ signalsEnd ≤ messagesEnd := by
  unfold assertValidSignalsForMessages
  split_ifs with h
  · exact iff_of_true rfl h
  · exact iff_of_false (fun he => by cases he) h

theorem assertValidSliceMessagesForStream_eq_ok_iff {sliceMessages : Option (StreamIndexedQueue α)}
    {streamSignalsEnd : ℕ} {subnet : σ} :
    assertValidSliceMessagesForStream sliceMessages streamSignalsEnd subnet = .ok () ↔
      ∀ messages ∈ sliceMessages, messages.begin = streamSignalsEnd := by
  unfold assertValidSliceMessagesForStream
  cases sliceMessages with
  | none => exact iff_of_true rfl fun _ h => absurd h (Option.not_mem_none _)
  | some messages =>
    dsimp only
    simp only [Option.mem_def, Option.some.injEq, forall_eq']
    split_ifs with h
    · exact iff_of_true rfl h
    · exact iff_of_false (fun he => by cases he) h

end Asserts

/-! ## Garbage collection -/

section GarbageCollection

variable [ToString σ]

/-- `garbage_collect_messages`: the messages the valid signals cover discarded, rejects returned. -/
def garbageCollectMessages (stream : Stream α) (remoteSubnet : σ) (signalsEnd : ℕ)
    (rejectSignals : List ℕ) : Except String (List α × Stream α) := do
  assertValidSignals signalsEnd rejectSignals (.signalsFrom remoteSubnet)
  assertValidSignalsForMessages signalsEnd stream.messages.begin stream.messages.end_
    (.signalsFrom remoteSubnet)
  stream.discardMessagesBefore signalsEnd rejectSignals

/-- `garbage_collect_signals`: the stream's own signals must be valid, must cover a prefix of the
slice's messages and end where they begin; the reject signals below the slice's begin are
discarded. -/
def garbageCollectSignals (stream : Stream α) (remoteSubnet : σ) (streamSlice : StreamSlice α) :
    Except String (Stream α) := do
  assertValidSignals stream.signalsEnd stream.rejectSignals (.signalsTo remoteSubnet)
  assertValidSignalsForMessages stream.signalsEnd streamSlice.header.begin
    ((streamSlice.messages.map StreamIndexedQueue.end_).getD streamSlice.header.end_)
    (.messagesFrom remoteSubnet)
  assertValidSliceMessagesForStream streamSlice.messages stream.signalsEnd remoteSubnet
  pure (stream.discardSignalsBefore streamSlice.header.begin)

/-- `reroute_rejected_messages` for the stream to the remote subnet: `route msg` holds for a
rejected response whose originator is now routed there. -/
def rerouteRejectedMessages (route : α → Bool) (rejectedMessages : List α) (stream : Stream α) :
    Stream α :=
  rejectedMessages.foldl (fun stream msg => if route msg then stream.push msg else stream) stream

/-- `garbage_collect_local_state` for one slice, with the messages it rejected. -/
def garbageCollectLocalState (route : α → Bool) (stream : Stream α) (remoteSubnet : σ)
    (streamSlice : StreamSlice α) : Except String (Stream α × List α) := do
  let (rejectedMessages, stream) ← garbageCollectMessages stream remoteSubnet
    streamSlice.header.signalsEnd streamSlice.header.rejectSignals
  let stream ← garbageCollectSignals stream remoteSubnet streamSlice
  pure (rerouteRejectedMessages route rejectedMessages stream, rejectedMessages)

theorem garbageCollectMessages_eq_ok {stream : Stream α} {remoteSubnet : σ} {signalsEnd : ℕ}
    {rejectSignals : List ℕ} (hvalid : (rejectSignals ++ [signalsEnd]).Pairwise (· < ·))
    (h₁ : stream.messages.begin ≤ signalsEnd) (h₂ : signalsEnd ≤ stream.messages.end_) :
    garbageCollectMessages stream remoteSubnet signalsEnd rejectSignals =
      .ok ((rejectSignals.filter fun r => decide (stream.messages.begin ≤ r ∧ r < signalsEnd)).filterMap
            (fun r => stream.messages.queue[r - stream.messages.begin]?),
          { stream with
            messages := ⟨signalsEnd, stream.messages.queue.drop (signalsEnd - stream.messages.begin)⟩ }) := by
  unfold garbageCollectMessages
  rw [assertValidSignals_eq_ok_iff.mpr hvalid, assertValidSignalsForMessages_eq_ok_iff.mpr ⟨h₁, h₂⟩]
  exact Stream.discardMessagesBefore_eq_ok (List.pairwise_append.mp hvalid).1 h₁ h₂

theorem garbageCollectSignals_eq_ok {stream : Stream α} {remoteSubnet : σ}
    {streamSlice : StreamSlice α}
    (hvalid : (stream.rejectSignals ++ [stream.signalsEnd]).Pairwise (· < ·))
    (h₁ : streamSlice.header.begin ≤ stream.signalsEnd)
    (h₂ : stream.signalsEnd ≤ (streamSlice.messages.map StreamIndexedQueue.end_).getD
      streamSlice.header.end_)
    (h₃ : ∀ messages ∈ streamSlice.messages, messages.begin = stream.signalsEnd) :
    garbageCollectSignals stream remoteSubnet streamSlice =
      .ok (stream.discardSignalsBefore streamSlice.header.begin) := by
  unfold garbageCollectSignals
  rw [assertValidSignals_eq_ok_iff.mpr hvalid, assertValidSignalsForMessages_eq_ok_iff.mpr ⟨h₁, h₂⟩,
    assertValidSliceMessagesForStream_eq_ok_iff.mpr h₃]
  rfl

end GarbageCollection

theorem rerouteRejectedMessages_eq (route : α → Bool) :
    ∀ (rejectedMessages : List α) (stream : Stream α),
      rerouteRejectedMessages route rejectedMessages stream =
        { stream with messages := ⟨stream.messages.begin,
            stream.messages.queue ++ rejectedMessages.filter route⟩ }
  | [], stream => by simp [rerouteRejectedMessages]
  | msg :: rest, stream => by
    unfold rerouteRejectedMessages
    rw [List.foldl_cons]
    -- the first message is pushed or dropped, the rest rerouted as before
    have ih := rerouteRejectedMessages_eq route rest
    unfold rerouteRejectedMessages at ih
    rw [ih]
    by_cases h : route msg
    · simp [h, Stream.push, StreamIndexedQueue.push]
    · simp [h]

/-! ## Induction -/

/-- What `induct_message` does with a message: `accepted` (inducted, failed or dropped),
`rejectResponse` with the reject pushed back, or `rejectSignal` for a response to a migrating
receiver. -/
inductive InductionOutcome (α : Type) where
  | accepted
  | rejectResponse (response : α)
  | rejectSignal
  deriving DecidableEq, Repr

/-- `induct_message`: the outcome's reject response or signal, then the message's signal. -/
def inductMessage (outcome : InductionOutcome α) (streamIndex : ℕ) (stream : Stream α) :
    Except String (Stream α) := do
  let stream ← match outcome with
    | .accepted => pure stream
    | .rejectResponse response => pure (stream.push response)
    | .rejectSignal => stream.pushRejectSignal streamIndex
  -- signals use the stream index of the incoming message
  let signalsEnd := stream.signalsEnd
  if signalsEnd ≠ streamIndex then
    .error s!"assertion `left == right` failed: Expecting signal with stream index {signalsEnd}, got {streamIndex}\n  left: {signalsEnd}\n right: {streamIndex}"
  else pure stream.incrementSignalsEnd

/-- The loop of `induct_stream_slices` over one slice, with the calls it makes. -/
def inductMessages (outcome : ℕ → α → InductionOutcome α) :
    ℕ → List α → Stream α → Except String (Stream α × List (α × ℕ))
  | _, [], stream => .ok (stream, [])
  | streamIndex, msg :: msgs, stream => do
    let stream ← inductMessage (outcome streamIndex msg) streamIndex stream
    let (stream, calls) ← inductMessages outcome (streamIndex + 1) msgs stream
    pure (stream, (msg, streamIndex) :: calls)

/-- `induct_stream_slices` for one slice. -/
def inductStreamSlices (outcome : ℕ → α → InductionOutcome α) (stream : Stream α)
    (streamSlice : StreamSlice α) : Except String (Stream α × List (α × ℕ)) :=
  match streamSlice.messages with
  | some messages => inductMessages outcome messages.begin messages.queue stream
  | none => .ok (stream, [])

/-- `process_stream_slices` for one slice: garbage collection, then induction. -/
def processStreamSlices [ToString σ] (route : α → Bool) (outcome : ℕ → α → InductionOutcome α)
    (stream : Stream α) (remoteSubnet : σ) (streamSlice : StreamSlice α) :
    Except String (Stream α × List α × List (α × ℕ)) := do
  let (stream, rejected) ← garbageCollectLocalState route stream remoteSubnet streamSlice
  let (stream, inducted) ← inductStreamSlices outcome stream streamSlice
  pure (stream, rejected, inducted)

/-- The reject response an outcome pushes. -/
def InductionOutcome.response? : InductionOutcome α → Option α
  | .rejectResponse response => some response
  | _ => none

/-- Whether an outcome is a reject signal. -/
def InductionOutcome.isRejectSignal : InductionOutcome α → Bool
  | .rejectSignal => true
  | _ => false

/-- The reject responses the induction of `msgs` from `streamIndex` on pushes. -/
def inductedResponses (outcome : ℕ → α → InductionOutcome α) (streamIndex : ℕ) (msgs : List α) :
    List α :=
  (msgs.zipIdx streamIndex).filterMap fun p => (outcome p.2 p.1).response?

/-- The reject signals the induction of `msgs` from `streamIndex` on pushes. -/
def inductedSignals (outcome : ℕ → α → InductionOutcome α) (streamIndex : ℕ) (msgs : List α) :
    List ℕ :=
  ((msgs.zipIdx streamIndex).filter fun p => (outcome p.2 p.1).isRejectSignal).map Prod.snd

theorem inductedSignals_sublist (outcome : ℕ → α → InductionOutcome α) (streamIndex : ℕ)
    (msgs : List α) :
    (inductedSignals outcome streamIndex msgs).Sublist (List.range' streamIndex msgs.length) := by
  rw [← List.zipIdx_map_snd]
  exact (List.filter_sublist).map Prod.snd

theorem inductMessage_eq_ok (outcome : InductionOutcome α) {streamIndex : ℕ} {stream : Stream α}
    (hindex : stream.signalsEnd = streamIndex) (hlt : ∀ r ∈ stream.rejectSignals, r < streamIndex) :
    inductMessage outcome streamIndex stream =
      .ok ⟨⟨stream.messages.begin, stream.messages.queue ++ outcome.response?.toList⟩,
        streamIndex + 1,
        stream.rejectSignals ++ if outcome.isRejectSignal then [streamIndex] else []⟩ := by
  unfold inductMessage
  cases outcome with
  | accepted =>
    simp [hindex, Stream.incrementSignalsEnd, InductionOutcome.response?,
      InductionOutcome.isRejectSignal]
  | rejectResponse response =>
    simp [hindex, Stream.incrementSignalsEnd, Stream.push, StreamIndexedQueue.push,
      InductionOutcome.response?, InductionOutcome.isRejectSignal]
  | rejectSignal =>
    rw [Stream.pushRejectSignal_eq_ok hindex.symm hlt]
    simp [Except.ok_bind, hindex, Stream.incrementSignalsEnd, InductionOutcome.response?,
      InductionOutcome.isRejectSignal]

/-- **Induction of a slice's messages**: each message from the `signals_end` on is passed once to
`induct_message` with its index, and the rejects it produces are appended. -/
theorem inductMessages_eq_ok (outcome : ℕ → α → InductionOutcome α) :
    ∀ (msgs : List α) {streamIndex : ℕ} {stream : Stream α},
      stream.signalsEnd = streamIndex → (∀ r ∈ stream.rejectSignals, r < streamIndex) →
      inductMessages outcome streamIndex msgs stream =
        .ok (⟨⟨stream.messages.begin,
            stream.messages.queue ++ inductedResponses outcome streamIndex msgs⟩,
          streamIndex + msgs.length,
          stream.rejectSignals ++ inductedSignals outcome streamIndex msgs⟩,
          msgs.zipIdx streamIndex)
  | [], streamIndex, stream, hindex, _ => by
    simp [inductMessages, inductedResponses, inductedSignals, ← hindex]
  | msg :: msgs, streamIndex, stream, hindex, hlt => by
    unfold inductMessages
    rw [inductMessage_eq_ok _ hindex hlt]
    -- the signals of the first message are all below the next index
    have hlt' : ∀ r ∈ stream.rejectSignals ++
        (if (outcome streamIndex msg).isRejectSignal then [streamIndex] else []),
        r < streamIndex + 1 := by
      intro r hr
      rcases List.mem_append.mp hr with hr | hr
      · exact Nat.lt_succ_of_lt (hlt r hr)
      · split_ifs at hr
        · rw [List.mem_singleton.mp hr]
          exact Nat.lt_succ_self streamIndex
        · exact absurd hr List.not_mem_nil
    rw [Except.ok_bind, inductMessages_eq_ok outcome msgs ?_ hlt']
    swap
    · rfl
    simp only [Except.ok_bind, pure, Except.pure, List.zipIdx_cons, List.length_cons,
      inductedResponses, inductedSignals, List.filterMap_cons, List.filter_cons, List.append_assoc]
    -- the first message contributes what its outcome pushes
    cases outcome streamIndex msg <;>
      simp [InductionOutcome.response?, InductionOutcome.isRejectSignal, Nat.add_assoc,
        Nat.add_comm 1]

/-! ## Slices of a stream -/

@[simp]
theorem StreamSlice.header_new (header : StreamHeader) (messages : StreamIndexedQueue α) :
    (StreamSlice.new header messages).header = header := by
  unfold StreamSlice.new
  split_ifs <;> rfl

theorem StreamSlice.mem_messages_new {header : StreamHeader} {messages q : StreamIndexedQueue α}
    (h : q ∈ (StreamSlice.new header messages).messages) : q = messages := by
  unfold StreamSlice.new at h
  split_ifs at h
  · exact absurd h (Option.not_mem_none _)
  · exact (Option.mem_some_iff.mp h).symm

theorem StreamSlice.le_end_new {header : StreamHeader} (messages : StreamIndexedQueue α)
    (h : messages.begin ≤ header.end_) :
    messages.begin ≤ ((StreamSlice.new header messages).messages.map
      StreamIndexedQueue.end_).getD header.end_ := by
  unfold StreamSlice.new
  split_ifs
  · exact h
  · exact Nat.le_add_right _ _

theorem inductStreamSlices_new (outcome : ℕ → α → InductionOutcome α) (stream : Stream α)
    (header : StreamHeader) (messages : StreamIndexedQueue α) :
    inductStreamSlices outcome stream (StreamSlice.new header messages) =
      inductMessages outcome messages.begin messages.queue stream := by
  unfold inductStreamSlices StreamSlice.new
  split_ifs with h
  · rw [List.isEmpty_iff.mp h]
    rfl
  · rfl

/-- **The stream handler on one slice**: on valid signals enclosing the `signals_end`, it does not
panic, garbage collects up to the slice's `signals_end` and inducts each message once, in order. -/
theorem processStreamSlices_eq_ok [ToString σ] (route : α → Bool)
    (outcome : ℕ → α → InductionOutcome α) {stream : Stream α} {remoteSubnet : σ}
    {header : StreamHeader} {msgs : List α}
    (hheader : (header.rejectSignals ++ [header.signalsEnd]).Pairwise (· < ·))
    (h₁ : stream.messages.begin ≤ header.signalsEnd) (h₂ : header.signalsEnd ≤ stream.messages.end_)
    (hvalid : (stream.rejectSignals ++ [stream.signalsEnd]).Pairwise (· < ·))
    (h₃ : header.begin ≤ stream.signalsEnd) (h₄ : stream.signalsEnd ≤ header.end_) :
    processStreamSlices route outcome stream remoteSubnet
        (StreamSlice.new header ⟨stream.signalsEnd, msgs⟩) =
      let rejected := (header.rejectSignals.filter fun r =>
          decide (stream.messages.begin ≤ r ∧ r < header.signalsEnd)).filterMap
        fun r => stream.messages.queue[r - stream.messages.begin]?
      .ok (⟨⟨header.signalsEnd,
          stream.messages.queue.drop (header.signalsEnd - stream.messages.begin) ++
            rejected.filter route ++ inductedResponses outcome stream.signalsEnd msgs⟩,
        stream.signalsEnd + msgs.length,
        stream.rejectSignals.dropWhile (fun r => decide (r < header.begin)) ++
          inductedSignals outcome stream.signalsEnd msgs⟩,
        rejected, msgs.zipIdx stream.signalsEnd) := by
  unfold processStreamSlices garbageCollectLocalState
  rw [StreamSlice.header_new, garbageCollectMessages_eq_ok hheader h₁ h₂, Except.ok_bind]
  dsimp only
  -- garbage collecting the messages left the signals as they were
  rw [garbageCollectSignals_eq_ok ?_ ?_ ?_ ?_, Except.ok_bind]
  · simp only [pure_bind, StreamSlice.header_new, rerouteRejectedMessages_eq,
      inductStreamSlices_new]
    have hlt : ∀ r ∈ stream.rejectSignals.dropWhile (fun r => decide (r < header.begin)),
        r < stream.signalsEnd := fun r hr =>
      (List.pairwise_append.mp hvalid).2.2 r ((List.dropWhile_sublist _).subset hr) _
        List.mem_cons_self
    rw [inductMessages_eq_ok outcome msgs ?_ hlt]
    · rfl
    · rfl
  · exact hvalid
  · simpa using h₃
  · rw [StreamSlice.header_new]
    exact StreamSlice.le_end_new ⟨stream.signalsEnd, msgs⟩ h₄
  · intro q hq
    rw [StreamSlice.mem_messages_new hq]

end IC.XNet
