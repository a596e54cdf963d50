import InternetComputer.XNet.Handler
import InternetComputer.XNet.Streams
import Mathlib

/-!
# The loopback stream

`induct_loopback_stream` of `stream_handler.rs`: the subnet's stream to itself is inducted as a
slice whose reverse stream is that same stream, then garbage collected, and the responses it
rejected rerouted. `decideInduction` decides each message as `induct_message` does.

* `StreamHandle.inductMessages_eq`: the induction on a handle is that on its stream, with the
  bytes of the reject responses counted;
* `Streams.rerouteRejectedMessages_eq_ok`: each rejected response goes to the stream of its
  receiver's subnet;
* **`inductLoopbackStream_eq_ok`**: a loopback stream whose messages begin at its `signals_end`
  is inducted message by message and left with only the reject responses and no signals, with
  the byte stats kept; an empty one, which has no signals, is left as it is.
-/

namespace IC.XNet

open IC.Queues (Layout RequestOrResponse Response)
open IC.State (CanisterId SubnetId)
open SortedMap

/-! ## The decision of `induct_message` -/

/-- What `induct_message` reads of the state: whether the sender may send, the receiver's subnet,
whether the receiver is migrating, and what `push_input` returns. -/
structure InductionInputs where
  acceptFrom : Bool
  receiverHost : Option SubnetId
  rerouteTo : Bool
  pushInput : Except String Unit

/-- `generate_reject_response`: the response that rejects a request, with the reject's message. -/
def generateRejectResponse (msg : RequestOrResponse) (message : String) :
    Except String RequestOrResponse :=
  match msg with
  | .request req => .ok (.response ⟨req.sender, req.receiver, req.payment, .reject message⟩)
  | .response _ =>
    .error "internal error: entered unreachable code: Can't have a response to a response"

/-- The branches of `induct_message` for the subnet `subnetId`. -/
def decideInduction (subnetId : SubnetId) (generateRejectSignals : Bool)
    (inputs : InductionInputs) (msg : RequestOrResponse) :
    Except String (InductionOutcome RequestOrResponse) :=
  if inputs.acceptFrom then
    match inputs.receiverHost with
    | some hostSubnet =>
      if hostSubnet = subnetId then
        match inputs.pushInput with
        | .ok () => pure .accepted
        | .error err =>
          match msg with
          | .request _ => .rejectResponse <$> generateRejectResponse msg err
          -- a critical error: a response that fails to be inducted is dropped
          | .response _ => pure .accepted
      else if inputs.rerouteTo then
        match msg with
        | .request _ => .rejectResponse <$> generateRejectResponse msg
            s!"Canister {msg.receiver} is being migrated to/from {hostSubnet}"
        | .response _ =>
          if generateRejectSignals then pure .rejectSignal
          else .error
            s!"Canister {msg.receiver} is being migrated, but cannot produce reject signal for response"
      -- a misrouted message is dropped
      else pure .accepted
    | none => pure .accepted
  -- a message from a subnet that may not send it is dropped
  else pure .accepted

/-! ## Induction and garbage collection through a handle -/

namespace StreamHandle

variable (L : Layout)

/-- `induct_message` on the handle of the reverse stream. -/
def inductMessage (outcome : InductionOutcome RequestOrResponse) (streamIndex : ℕ)
    (stream : StreamHandle) : Except String StreamHandle := do
  let stream ← match outcome with
    | .accepted => pure stream
    | .rejectResponse response => pure (stream.push L response)
    | .rejectSignal => stream.pushRejectSignal streamIndex
  let signalsEnd := stream.stream.signalsEnd
  if signalsEnd ≠ streamIndex then
    .error s!"assertion `left == right` failed: Expecting signal with stream index {signalsEnd}, got {streamIndex}\n  left: {signalsEnd}\n right: {streamIndex}"
  else pure stream.incrementSignalsEnd

/-- The loop of `induct_stream_slices` over one slice, on the handle of the reverse stream. -/
def inductMessages (outcome : ℕ → RequestOrResponse → InductionOutcome RequestOrResponse) :
    ℕ → List RequestOrResponse → StreamHandle →
      Except String (StreamHandle × List (RequestOrResponse × ℕ))
  | _, [], stream => .ok (stream, [])
  | streamIndex, msg :: msgs, stream => do
    let stream ← stream.inductMessage L (outcome streamIndex msg) streamIndex
    let (stream, calls) ← inductMessages outcome (streamIndex + 1) msgs stream
    pure (stream, (msg, streamIndex) :: calls)

/-- `induct_stream_slices` for one slice, on the handle of the reverse stream. -/
def inductStreamSlices (outcome : ℕ → RequestOrResponse → InductionOutcome RequestOrResponse)
    (stream : StreamHandle) (streamSlice : StreamSlice RequestOrResponse) :
    Except String (StreamHandle × List (RequestOrResponse × ℕ)) :=
  match streamSlice.messages with
  | some messages => stream.inductMessages L outcome messages.begin messages.queue
  | none => .ok (stream, [])

/-- `garbage_collect_messages`, on a handle. -/
def garbageCollectMessages (stream : StreamHandle) (remoteSubnet : SubnetId) (signalsEnd : ℕ)
    (rejectSignals : List ℕ) : Except String (List RequestOrResponse × StreamHandle) := do
  assertValidSignals signalsEnd rejectSignals (.signalsFrom remoteSubnet)
  assertValidSignalsForMessages signalsEnd stream.stream.messages.begin stream.stream.messages.end_
    (.signalsFrom remoteSubnet)
  stream.discardMessagesBefore L signalsEnd rejectSignals

end StreamHandle

/-- `reroute_rejected_messages`: each rejected response onto its originator's subnet's stream. -/
def Streams.rerouteRejectedMessages (L : Layout) (route : CanisterId → Option SubnetId)
    (rejectedMessages : List RequestOrResponse) (streams : Streams) : Except String Streams :=
  rejectedMessages.foldlM (fun streams msg =>
    match msg with
    | .request _ => pure streams
    | .response response => do
      let newDestination ← Rust.expect (route response.originator)
        "Canister disappeared from registry. Registry in an inconsistent state."
      pure (streams.withHandle newDestination
        ((streams.getMutOrInsert newDestination).push L (.response response)))) streams

/-- `induct_loopback_stream`: the loopback stream is inducted as a slice, garbage collected up to
its new `signals_end`, and the responses it rejected rerouted by `route`. -/
def inductLoopbackStream (L : Layout) (subnetId : SubnetId) (route : CanisterId → Option SubnetId)
    (outcome : ℕ → RequestOrResponse → InductionOutcome RequestOrResponse) (streams : Streams) :
    Except String (Streams × List (RequestOrResponse × ℕ)) :=
  match streams.streams.get? subnetId with
  | none => pure (streams, [])
  | some loopbackStream =>
    if loopbackStream.messages.queue.isEmpty then pure (streams, [])
    else do
      -- the loopback stream has had signals for all earlier messages
      assertValidSliceMessagesForStream (some loopbackStream.messages) loopbackStream.signalsEnd
        subnetId
      let loopbackStreamSlice := StreamSlice.new loopbackStream.header loopbackStream.messages
      -- 1. induct all messages, which adds signals to the loopback stream
      let (stream, inducted) ←
        (streams.getMutOrInsert subnetId).inductStreamSlices L outcome loopbackStreamSlice
      let streams := streams.withHandle subnetId stream
      -- 2. garbage collect the initial messages, keeping the rejected ones
      let stream ← Rust.expect (streams.getMut subnetId) "called `Option::unwrap()` on a `None` value"
      let signalsEnd := stream.stream.signalsEnd
      let rejectSignals := stream.stream.rejectSignals
      let (rejectedMessages, stream) ←
        stream.garbageCollectMessages L subnetId signalsEnd rejectSignals
      -- 3. garbage collect the signals of the initial messages
      let stream := stream.discardSignalsBefore signalsEnd
      -- 4. reroute the rejected responses
      let streams ← (streams.withHandle subnetId stream).rerouteRejectedMessages L route
        rejectedMessages
      pure (streams, inducted)

/-! ## What the decision gives -/

theorem decideInduction_eq_ok_rejectSignal {subnetId : SubnetId} {generateRejectSignals : Bool}
    {inputs : InductionInputs} {msg : RequestOrResponse}
    (h : decideInduction subnetId generateRejectSignals inputs msg = .ok .rejectSignal) :
    ∃ rep hostSubnet, msg = .response rep ∧ inputs.receiverHost = some hostSubnet ∧
      hostSubnet ≠ subnetId := by
  obtain ⟨acceptFrom, receiverHost, rerouteTo, pushInput⟩ := inputs
  cases acceptFrom
  · simp [decideInduction] at h
  · cases receiverHost with
    | none => simp [decideInduction] at h
    | some hostSubnet =>
      by_cases hsub : hostSubnet = subnetId
      · -- on this subnet, the message is inducted, dropped or answered by a reject response
        cases pushInput <;> cases msg <;>
          simp [decideInduction, hsub, generateRejectResponse, Functor.map, Except.map] at h
      · cases msg with
        | request req =>
          cases rerouteTo <;>
            simp [decideInduction, hsub, generateRejectResponse, Functor.map, Except.map] at h
        | response rep => exact ⟨rep, hostSubnet, rfl, rfl, hsub⟩

theorem decideInduction_eq_ok_rejectResponse {subnetId : SubnetId} {generateRejectSignals : Bool}
    {inputs : InductionInputs} {msg response : RequestOrResponse}
    (h : decideInduction subnetId generateRejectSignals inputs msg = .ok (.rejectResponse response)) :
    response.IsResponse := by
  obtain ⟨acceptFrom, receiverHost, rerouteTo, pushInput⟩ := inputs
  cases acceptFrom
  · simp [decideInduction] at h
  · cases receiverHost with
    | none => simp [decideInduction] at h
    | some hostSubnet =>
      -- every reject response is made by `generate_reject_response`
      by_cases hsub : hostSubnet = subnetId <;> cases pushInput <;> cases rerouteTo <;>
        cases msg <;> cases generateRejectSignals <;>
        simp [decideInduction, hsub, generateRejectResponse, Functor.map, Except.map] at h <;>
        (rw [← h]; trivial)
/-- With reject signals on, `induct_message` decides every message: only a migrating response with
reject signals off is an error. -/
theorem decideInduction_eq_ok_of_generateRejectSignals (subnetId : SubnetId)
    (inputs : InductionInputs) (msg : RequestOrResponse) :
    ∃ o, decideInduction subnetId true inputs msg = .ok o := by
  unfold decideInduction
  repeat' split
  all_goals first | exact ⟨_, rfl⟩ | contradiction

/-! ## The induction on a handle -/

theorem inductedResponses_cons {α : Type} (outcome : ℕ → α → InductionOutcome α) (streamIndex : ℕ)
    (msg : α) (msgs : List α) :
    inductedResponses outcome streamIndex (msg :: msgs) =
      (outcome streamIndex msg).response?.toList ++ inductedResponses outcome (streamIndex + 1) msgs := by
  simp only [inductedResponses, List.zipIdx_cons, List.filterMap_cons]
  cases (outcome streamIndex msg).response? <;> rfl

namespace StreamHandle

variable (L : Layout)

theorem inductMessage_eq (outcome : InductionOutcome RequestOrResponse) (streamIndex : ℕ)
    (stream : StreamHandle) :
    stream.inductMessage L outcome streamIndex =
      (fun s => ⟨s, outcome.response?.toList.foldl (countResponse L) stream.responsesSizeBytes⟩) <$>
        IC.XNet.inductMessage outcome streamIndex stream.stream := by
  -- the calls on the handle change its stream as the calls on the stream do
  cases outcome with
  | accepted =>
    simp only [inductMessage, IC.XNet.inductMessage, pure_bind]
    by_cases h : stream.stream.signalsEnd = streamIndex <;>
      simp [h, Functor.map, Except.map, pure, Except.pure, incrementSignalsEnd,
        InductionOutcome.response?]
  | rejectResponse response =>
    simp only [inductMessage, IC.XNet.inductMessage, pure_bind]
    by_cases h : stream.stream.signalsEnd = streamIndex <;>
      simp [h, Functor.map, Except.map, pure, Except.pure, incrementSignalsEnd, push, Stream.push,
        InductionOutcome.response?]
  | rejectSignal =>
    simp only [inductMessage, IC.XNet.inductMessage, pushRejectSignal]
    cases stream.stream.pushRejectSignal streamIndex with
    | error e => rfl
    | ok s =>
      by_cases h : s.signalsEnd = streamIndex <;>
        simp [h, Functor.map, Except.map, pure, Except.pure, incrementSignalsEnd,
        InductionOutcome.response?]

/-- **The induction on a handle** is that on its stream, the rejects' bytes counted. -/
theorem inductMessages_eq (outcome : ℕ → RequestOrResponse → InductionOutcome RequestOrResponse) :
    ∀ (msgs : List RequestOrResponse) (streamIndex : ℕ) (stream : StreamHandle),
      stream.inductMessages L outcome streamIndex msgs =
        (fun p => (⟨p.1, (inductedResponses outcome streamIndex msgs).foldl (countResponse L)
            stream.responsesSizeBytes⟩, p.2)) <$>
          IC.XNet.inductMessages outcome streamIndex msgs stream.stream
  | [], _, _ => rfl
  | msg :: msgs, streamIndex, stream => by
    simp only [inductMessages, IC.XNet.inductMessages, inductMessage_eq]
    cases IC.XNet.inductMessage (outcome streamIndex msg) streamIndex stream.stream with
    | error e => rfl
    | ok s =>
      simp only [Functor.map, Except.map, Except.ok_bind]
      rw [inductMessages_eq outcome msgs (streamIndex + 1)]
      cases IC.XNet.inductMessages outcome (streamIndex + 1) msgs s with
      | error e => rfl
      | ok p => simp [inductedResponses_cons, Functor.map, Except.map]
theorem inductStreamSlices_new (outcome : ℕ → RequestOrResponse → InductionOutcome RequestOrResponse)
    (stream : StreamHandle) (header : StreamHeader) (messages : StreamIndexedQueue RequestOrResponse) :
    stream.inductStreamSlices L outcome (StreamSlice.new header messages) =
      stream.inductMessages L outcome messages.begin messages.queue := by
  unfold inductStreamSlices StreamSlice.new
  split_ifs with h
  · rw [List.isEmpty_iff.mp h]
    rfl
  · rfl

end StreamHandle

/-! ## The loopback stream -/

section Loopback
variable {α : Type}

/-- The messages whose induction from `streamIndex` on gave a reject signal. -/
def inductedRejected (outcome : ℕ → α → InductionOutcome α) (streamIndex : ℕ) (msgs : List α) :
    List α :=
  ((msgs.zipIdx streamIndex).filter fun p => (outcome p.2 p.1).isRejectSignal).map Prod.fst

theorem pairwise_signals_inducted (outcome : ℕ → α → InductionOutcome α) {rejectSignals : List ℕ}
    {signalsEnd : ℕ} (hsignals : (rejectSignals ++ [signalsEnd]).Pairwise (· < ·))
    (msgs : List α) :
    (rejectSignals ++ inductedSignals outcome signalsEnd msgs ++ [signalsEnd + msgs.length]).Pairwise
      (· < ·) := by
  have hsub := inductedSignals_sublist outcome signalsEnd msgs
  have hold : ∀ r ∈ rejectSignals, r < signalsEnd := fun r hr =>
    (List.pairwise_append.mp hsignals).2.2 r hr _ List.mem_cons_self
  have hnew : ∀ r ∈ inductedSignals outcome signalsEnd msgs,
      signalsEnd ≤ r ∧ r < signalsEnd + msgs.length := fun r hr =>
    List.mem_range'_1.mp (hsub.subset hr)
  rw [List.append_assoc, List.pairwise_append]
  refine ⟨(List.pairwise_append.mp hsignals).1, ?_, ?_⟩
  · rw [List.pairwise_append]
    refine ⟨(List.pairwise_lt_range' (s := signalsEnd) (n := msgs.length)).sublist hsub, List.pairwise_singleton _ _, ?_⟩
    intro r hr x hx
    rw [List.mem_singleton.mp hx]
    exact (hnew r hr).2
  · intro r hr x hx
    rcases List.mem_append.mp hx with hx | hx
    · exact lt_of_lt_of_le (hold r hr) (hnew x hx).1
    · rw [List.mem_singleton.mp hx]
      have := hold r hr
      omega

theorem rejected_inducted (outcome : ℕ → α → InductionOutcome α) {rejectSignals : List ℕ}
    {signalsEnd : ℕ} (hsignals : (rejectSignals ++ [signalsEnd]).Pairwise (· < ·))
    (msgs responses : List α) :
    (((msgs ++ responses).zipIdx signalsEnd).filter fun p =>
        decide (p.2 ∈ rejectSignals ++ inductedSignals outcome signalsEnd msgs)).map Prod.fst =
      inductedRejected outcome signalsEnd msgs := by
  have hold : ∀ r ∈ rejectSignals, r < signalsEnd := fun r hr =>
    (List.pairwise_append.mp hsignals).2.2 r hr _ List.mem_cons_self
  have hnew : ∀ r ∈ inductedSignals outcome signalsEnd msgs, r < signalsEnd + msgs.length :=
    fun r hr => (List.mem_range'_1.mp ((inductedSignals_sublist outcome signalsEnd msgs).subset hr)).2
  rw [List.zipIdx_append, List.filter_append, List.map_append]
  have hright : ((responses.zipIdx (signalsEnd + msgs.length)).filter fun p =>
      decide (p.2 ∈ rejectSignals ++ inductedSignals outcome signalsEnd msgs)) = [] := by
    refine List.filter_eq_nil_iff.mpr fun p hp hmem => ?_
    have hge := List.le_snd_of_mem_zipIdx hp
    rcases List.mem_append.mp (of_decide_eq_true hmem) with h | h
    · have := hold _ h
      omega
    · have := hnew _ h
      omega
  rw [hright, List.map_nil, List.append_nil]
  congr 1
  refine List.filter_congr fun p hp => ?_
  have hnotold : p.2 ∉ rejectSignals := fun h =>
    absurd (hold _ h) (Nat.not_lt.mpr (List.le_snd_of_mem_zipIdx hp))
  rw [Bool.eq_iff_iff, decide_eq_true_iff, List.mem_append, or_iff_right hnotold]
  exact List.mem_map_snd_filter_zipIdx hp

variable {L : Layout}

/-- **Rerouting** pushes each rejected response onto its originator's stream, keeping the counts. -/
theorem Streams.rerouteRejectedMessages_eq_ok (hL : 0 < L.requestOrResponse)
    (route : CanisterId → Option SubnetId) :
    ∀ (msgs : List RequestOrResponse) (s : Streams),
      (∀ msg ∈ msgs, msg.IsResponse ∧ (route msg.receiver).isSome) →
      Counts s.responsesSizeBytes (respondentBytes L s.streams) →
      ∃ s', s.rerouteRejectedMessages L route msgs = .ok s' ∧
        Counts s'.responsesSizeBytes (respondentBytes L s'.streams) ∧
        ∀ d, s'.streams.get? d =
          if (msgs.filter fun msg => route msg.receiver = some d).isEmpty then s.streams.get? d
          else some ((msgs.filter fun msg => route msg.receiver = some d).foldl Stream.push
            ((s.streams.get? d).getD Stream.empty))
  | [], s, _, hc => ⟨s, rfl, hc, fun d => by simp⟩
  | msg :: msgs, s, hmsgs, hc => by
    obtain ⟨hresp, hroute⟩ := hmsgs msg List.mem_cons_self
    cases msg with
    | request req => exact absurd hresp id
    | response rep =>
      obtain ⟨d₀, hd₀⟩ := Option.isSome_iff_exists.mp hroute
      replace hd₀ : route rep.originator = some d₀ := hd₀
      -- the first response goes onto the stream to its originator's subnet
      have hstep : s.rerouteRejectedMessages L route (.response rep :: msgs) =
          (s.push L d₀ (.response rep)).rerouteRejectedMessages L route msgs := by
        simp [Streams.rerouteRejectedMessages, List.foldlM_cons, hd₀, Rust.expect,
          Streams.withHandle_push]
      obtain ⟨s', hs', hc', hget⟩ := Streams.rerouteRejectedMessages_eq_ok hL route msgs _
        (fun m hm => hmsgs m (List.mem_cons_of_mem _ hm)) (counts_push hL hc d₀ _)
      refine ⟨s', hstep.trans hs', hc', fun d => ?_⟩
      rw [hget d]
      by_cases hd : d₀ = d
      · subst hd
        have hpush : (s.push L d₀ (.response rep)).streams.get? d₀ =
            some (((s.streams.get? d₀).getD Stream.empty).push (.response rep)) := by
          simp [Streams.push, get?_insert]
        rw [hpush, List.filter_cons_of_pos (by simp [RequestOrResponse.receiver, hd₀])]
        simp only [List.isEmpty_cons, Bool.false_eq_true, if_false, List.foldl_cons,
          Option.getD_some]
        cases hF : (msgs.filter fun msg => route msg.receiver = some d₀).isEmpty with
        | true => rw [List.isEmpty_iff.mp hF]; rfl
        | false => rfl
      · have hpush : (s.push L d₀ (.response rep)).streams.get? d = s.streams.get? d := by
          simp [Streams.push, get?_insert, Ne.symm hd]
        rw [hpush, List.filter_cons_of_neg (by simp [RequestOrResponse.receiver, hd₀, hd])]


theorem InductionOutcome.eq_rejectSignal {o : InductionOutcome RequestOrResponse}
    (h : o.isRejectSignal = true) : o = .rejectSignal := by
  cases o <;> simp_all [InductionOutcome.isRejectSignal]

theorem InductionOutcome.eq_rejectResponse {o : InductionOutcome RequestOrResponse}
    {response : RequestOrResponse} (h : o.response? = some response) :
    o = .rejectResponse response := by
  cases o <;> simp_all [InductionOutcome.response?]

section Decided

variable {subnetId : SubnetId} {route : CanisterId → Option SubnetId}
  {outcome : ℕ → RequestOrResponse → InductionOutcome RequestOrResponse}
  {generateRejectSignals : Bool}
  (hdecide : ∀ streamIndex msg, ∃ inputs : InductionInputs,
    inputs.receiverHost = route msg.receiver ∧
      decideInduction subnetId generateRejectSignals inputs msg = .ok (outcome streamIndex msg))
include hdecide

theorem inductedRejected_routed {streamIndex : ℕ} {msgs : List RequestOrResponse}
    {msg : RequestOrResponse} (hmsg : msg ∈ inductedRejected outcome streamIndex msgs) :
    msg.IsResponse ∧ ∃ hostSubnet, route msg.receiver = some hostSubnet ∧ hostSubnet ≠ subnetId := by
  obtain ⟨p, hp, rfl⟩ := List.mem_map.mp hmsg
  have hsignal := InductionOutcome.eq_rejectSignal (List.mem_filter.mp hp).2
  obtain ⟨inputs, hhost, hinputs⟩ := hdecide p.2 p.1
  rw [hsignal] at hinputs
  obtain ⟨rep, hostSubnet, hrep, hsome, hne⟩ := decideInduction_eq_ok_rejectSignal hinputs
  rw [hrep]
  exact ⟨trivial, hostSubnet, hrep ▸ hhost ▸ hsome, hne⟩

theorem inductedResponses_isResponse {streamIndex : ℕ} {msgs : List RequestOrResponse}
    {msg : RequestOrResponse} (hmsg : msg ∈ inductedResponses outcome streamIndex msgs) :
    msg.IsResponse := by
  obtain ⟨p, -, hp⟩ := List.mem_filterMap.mp hmsg
  obtain ⟨inputs, -, hinputs⟩ := hdecide p.2 p.1
  rw [InductionOutcome.eq_rejectResponse hp] at hinputs
  exact decideInduction_eq_ok_rejectResponse hinputs

theorem inductLoopbackStream_eq_ok_of_ne_nil (hL : 0 < L.requestOrResponse) {s : Streams}
    (hs : s.StatsOk L) {S : Stream RequestOrResponse} (hS : s.streams.get? subnetId = some S)
    (hne : S.messages.queue ≠ []) (hbegin : S.messages.begin = S.signalsEnd)
    (hsignals : (S.rejectSignals ++ [S.signalsEnd]).Pairwise (· < ·)) :
    ∃ s', inductLoopbackStream L subnetId route outcome s =
        .ok (s', S.messages.queue.zipIdx S.messages.begin) ∧ s'.StatsOk L ∧
      s'.streams.get? subnetId = some ⟨⟨S.messages.end_,
          inductedResponses outcome S.messages.begin S.messages.queue⟩, S.messages.end_, []⟩ ∧
      (∀ msg ∈ inductedResponses outcome S.messages.begin S.messages.queue, msg.IsResponse) ∧
      (∀ msg ∈ inductedRejected outcome S.messages.begin S.messages.queue, msg.IsResponse) ∧
      ∀ d, d ≠ subnetId → s'.streams.get? d =
        if ((inductedRejected outcome S.messages.begin S.messages.queue).filter
            fun msg => route msg.receiver = some d).isEmpty then s.streams.get? d
        else some (((inductedRejected outcome S.messages.begin S.messages.queue).filter
            fun msg => route msg.receiver = some d).foldl Stream.push
          ((s.streams.get? d).getD Stream.empty)) := by
  obtain ⟨⟨b, q⟩, signalsEnd, rs⟩ := S
  simp only at hne hbegin hsignals ⊢
  subst hbegin
  have hc := (Streams.statsOk_iff_counts hL s).mp hs
  have hold : ∀ r ∈ rs, r < b := fun r hr =>
    (List.pairwise_append.mp hsignals).2.2 r hr _ List.mem_cons_self
  -- 1. the induction appends the reject responses and signals, and counts the responses' bytes
  let S₁ : Stream RequestOrResponse := ⟨⟨b, q ++ inductedResponses outcome b q⟩, b + q.length,
    rs ++ inductedSignals outcome b q⟩
  let stats₁ := (inductedResponses outcome b q).foldl (countResponse L) s.responsesSizeBytes
  have hinduct : (s.getMutOrInsert subnetId).inductStreamSlices L outcome
      (StreamSlice.new (Stream.header ⟨⟨b, q⟩, b, rs⟩) ⟨b, q⟩) = .ok (⟨S₁, stats₁⟩, q.zipIdx b) := by
    rw [StreamHandle.inductStreamSlices_new, StreamHandle.inductMessages_eq]
    have hget : (s.getMutOrInsert subnetId) = ⟨⟨⟨b, q⟩, b, rs⟩, s.responsesSizeBytes⟩ := by
      simp [Streams.getMutOrInsert, hS]
    have hmsgs := inductMessages_eq_ok outcome q
      (show (⟨⟨b, q⟩, b, rs⟩ : Stream RequestOrResponse).signalsEnd = b from rfl) hold
    rw [hget]
    dsimp only
    rw [hmsgs]
    rfl
  let s₁ := s.withHandle subnetId ⟨S₁, stats₁⟩
  have hget₁ : s₁.streams.get? subnetId = some S₁ := by simp [s₁, Streams.withHandle, get?_insert]
  have hs₁ : s₁.StatsOk L := by
    refine (Streams.statsOk_iff_counts hL s₁).mpr
      ((counts_foldl_countResponse hL _ hc).congr fun c => ?_)
    simp only [s₁, Streams.withHandle]
    rw [respondentBytes_insert_eq, hS, Option.getD_some]
    simp only [S₁, messagesBytes_append]
    omega
  -- 2. the garbage collection at the new `signals_end` discards the initial messages
  have hvalid := pairwise_signals_inducted outcome hsignals q
  have hsorted : (rs ++ inductedSignals outcome b q).Pairwise (· < ·) :=
    hvalid.sublist (List.sublist_append_left _ _)
  have hlt : ∀ r ∈ rs ++ inductedSignals outcome b q, r < b + q.length := fun r hr =>
    (List.pairwise_append.mp hvalid).2.2 r hr _ List.mem_cons_self
  have hhandle₁ : (⟨S₁, stats₁⟩ : StreamHandle) = s₁.getMutOrInsert subnetId := by
    simp [Streams.getMutOrInsert, s₁, Streams.withHandle, get?_insert]
  obtain ⟨stats₂, hdiscard, hs₂⟩ := StreamHandle.discardMessagesBefore_eq_ok hL hs₁ hget₁
    (Nat.le_add_right b q.length) (by simp [S₁, StreamIndexedQueue.end_]) hsorted hlt
  rw [← hhandle₁] at hdiscard
  have hgc : (⟨S₁, stats₁⟩ : StreamHandle).garbageCollectMessages L subnetId (b + q.length)
      (rs ++ inductedSignals outcome b q) =
      .ok (inductedRejected outcome b q, ⟨{ S₁ with messages :=
        ⟨b + q.length, (q ++ inductedResponses outcome b q).drop (b + q.length - b)⟩ }, stats₂⟩) := by
    unfold StreamHandle.garbageCollectMessages
    rw [assertValidSignals_eq_ok_iff.mpr hvalid, Except.ok_bind,
      assertValidSignalsForMessages_eq_ok_iff.mpr
        ⟨Nat.le_add_right b q.length, by simp [S₁, StreamIndexedQueue.end_]⟩, Except.ok_bind,
      hdiscard, rejected_inducted outcome hsignals]
  -- 3. the signals below the new `signals_end` are all of them
  let S₂ : Stream RequestOrResponse := { S₁ with messages :=
    ⟨b + q.length, (q ++ inductedResponses outcome b q).drop (b + q.length - b)⟩ }
  let S₃ : Stream RequestOrResponse :=
    ⟨⟨b + q.length, inductedResponses outcome b q⟩, b + q.length, []⟩
  have hS₃ : S₂.discardSignalsBefore (b + q.length) = S₃ := by
    simp only [Stream.discardSignalsBefore, S₂, S₁, S₃, Nat.add_sub_cancel_left, List.drop_left]
    rw [(List.dropWhile_eq_nil_iff).mpr fun r hr => decide_eq_true (hlt r hr)]
  let s₃ := s₁.withHandle subnetId (StreamHandle.discardSignalsBefore ⟨S₂, stats₂⟩ (b + q.length))
  have hc₃ : Counts s₃.responsesSizeBytes (respondentBytes L s₃.streams) := by
    have h₃ := counts_withHandle_of_messages (L := L) ((Streams.statsOk_iff_counts hL _).mp hs₂)
      (show (StreamHandle.discardSignalsBefore ⟨S₂, stats₂⟩ (b + q.length)).stream.messages =
        ((s₁.withHandle subnetId ⟨S₂, stats₂⟩).getMutOrInsert subnetId).stream.messages by
        simp [StreamHandle.discardSignalsBefore, Stream.discardSignalsBefore])
      rfl
    have heq : (s₁.withHandle subnetId ⟨S₂, stats₂⟩).withHandle subnetId
        (StreamHandle.discardSignalsBefore ⟨S₂, stats₂⟩ (b + q.length)) = s₃ := by
      simp [s₃, Streams.withHandle]
    rwa [heq] at h₃
  -- 4. the rejected responses go to other subnets
  obtain ⟨s', hreroute, hc', hget'⟩ := Streams.rerouteRejectedMessages_eq_ok hL route
    (inductedRejected outcome b q) s₃ (fun msg hmsg => by
      obtain ⟨hresp, hostSubnet, hhost, -⟩ := inductedRejected_routed hdecide hmsg
      exact ⟨hresp, by simp [hhost]⟩) hc₃
  have hnone : ((inductedRejected outcome b q).filter
      fun msg => route msg.receiver = some subnetId).isEmpty = true := by
    rw [List.isEmpty_iff, List.filter_eq_nil_iff]
    intro msg hmsg
    obtain ⟨-, hostSubnet, hhost, hne⟩ := inductedRejected_routed hdecide hmsg
    simp [hhost, hne]
  refine ⟨s', ?_, (Streams.statsOk_iff_counts hL s').mpr hc', ?_,
    fun msg hmsg => inductedResponses_isResponse hdecide hmsg,
    fun msg hmsg => (inductedRejected_routed hdecide hmsg).1, fun d hd => ?_⟩
  · have hne' : q.isEmpty = false := List.isEmpty_eq_false_iff.mpr hne
    simp only [inductLoopbackStream, hS, hne', Bool.false_eq_true, if_false]
    rw [assertValidSliceMessagesForStream_eq_ok_iff.mpr fun m hm => by
      rw [Option.mem_def, Option.some.injEq] at hm
      rw [← hm], Except.ok_bind]
    rw [hinduct, Except.ok_bind]
    have hgetMut : (s.withHandle subnetId ⟨S₁, stats₁⟩).getMut subnetId = some ⟨S₁, stats₁⟩ := by
      simp [Streams.getMut, Streams.withHandle, get?_insert]
    refine Except.bind_eq_ok.mpr ⟨⟨S₁, stats₁⟩, by simp [hgetMut, Rust.expect], ?_⟩
    refine Except.bind_eq_ok.mpr ⟨(inductedRejected outcome b q, ⟨S₂, stats₂⟩), hgc, ?_⟩
    exact Except.bind_eq_ok.mpr ⟨s', hreroute, rfl⟩
  · rw [hget' subnetId, if_pos hnone]
    simp only [s₃, Streams.withHandle, get?_insert, if_true, StreamHandle.discardSignalsBefore, hS₃]
    rfl
  · have hfar : s₃.streams.get? d = s.streams.get? d := by
      simp [s₃, s₁, Streams.withHandle, get?_insert, hd]
    rw [hget' d, hfar]

/-- **The loopback stream**: `induct_loopback_stream` inducts each message once, in order, and
leaves the stream with only the reject responses it pushed, the counts right. A loopback stream
gets reject signals only from its own induction, which discards them: an empty one has none. -/
theorem inductLoopbackStream_eq_ok (hL : 0 < L.requestOrResponse) {s : Streams}
    (hs : s.StatsOk L) {S : Stream RequestOrResponse} (hS : s.streams.get? subnetId = some S)
    (hne : S.messages.queue ≠ [] ∨ S.rejectSignals = []) (hbegin : S.messages.begin = S.signalsEnd)
    (hsignals : (S.rejectSignals ++ [S.signalsEnd]).Pairwise (· < ·)) :
    ∃ s', inductLoopbackStream L subnetId route outcome s =
        .ok (s', S.messages.queue.zipIdx S.messages.begin) ∧ s'.StatsOk L ∧
      s'.streams.get? subnetId = some ⟨⟨S.messages.end_,
          inductedResponses outcome S.messages.begin S.messages.queue⟩, S.messages.end_, []⟩ ∧
      (∀ msg ∈ inductedResponses outcome S.messages.begin S.messages.queue, msg.IsResponse) ∧
      (∀ msg ∈ inductedRejected outcome S.messages.begin S.messages.queue, msg.IsResponse) ∧
      ∀ d, d ≠ subnetId → s'.streams.get? d =
        if ((inductedRejected outcome S.messages.begin S.messages.queue).filter
            fun msg => route msg.receiver = some d).isEmpty then s.streams.get? d
        else some (((inductedRejected outcome S.messages.begin S.messages.queue).filter
            fun msg => route msg.receiver = some d).foldl Stream.push
          ((s.streams.get? d).getD Stream.empty)) := by
  by_cases hq : S.messages.queue = []
  · -- an empty loopback stream is returned as it is
    obtain ⟨⟨b, q⟩, signalsEnd, rs⟩ := S
    simp only at hq hne hbegin ⊢
    subst hq hbegin
    obtain rfl : rs = [] := hne.resolve_left (not_not_intro rfl)
    refine ⟨s, by simp [inductLoopbackStream, hS], hs, ?_, by simp [inductedResponses],
      by simp [inductedRejected], fun d _ => by simp [inductedRejected]⟩
    simp [hS, inductedResponses, StreamIndexedQueue.end_]
  · exact inductLoopbackStream_eq_ok_of_ne_nil hdecide hL hs hS hq hbegin hsignals

end Decided

/-- The loopback stream of subnet `A` carries a request that `push_input` refuses, a response to a
canister that has migrated to subnet `B`, and a request that is inducted: the first is answered by
a reject response left on the loopback stream, and the second is rerouted to `B`. -/
theorem inductLoopbackStream_eq_ok_reject_and_reroute :
    let A : SubnetId := ⟨[], by decide⟩
    let B : SubnetId := ⟨[1], by decide⟩
    let c₁ : CanisterId := ⟨[2], by decide⟩
    let c₂ : CanisterId := ⟨[3], by decide⟩
    let route : CanisterId → Option SubnetId := fun c => if c = c₂ then some B else some A
    let full : RequestOrResponse := .request ⟨c₁, c₁, 0, "full", []⟩
    let late : RequestOrResponse := .response ⟨c₂, c₁, 0, .data []⟩
    let ok : RequestOrResponse := .request ⟨c₁, c₁, 0, "", []⟩
    let inputs : RequestOrResponse → InductionInputs := fun msg =>
      ⟨true, route msg.receiver, true, if msg = full then .error "full" else .ok ()⟩
    let outcome : ℕ → RequestOrResponse → InductionOutcome RequestOrResponse := fun _ msg =>
      (decideInduction A true (inputs msg) msg).toOption.getD .accepted
    let streams : SortedMap SubnetId (Stream RequestOrResponse) :=
      SortedMap.empty.insert A ⟨⟨0, [full, late, ok]⟩, 0, []⟩
    ∃ s', inductLoopbackStream ⟨1, 0, 0, 0, 0⟩ A route outcome
          ⟨streams, calculateStats ⟨1, 0, 0, 0, 0⟩ streams⟩ =
        .ok (s', [(full, 0), (late, 1), (ok, 2)]) ∧
      s'.streams.get? A = some ⟨⟨3, [.response ⟨c₁, c₁, 0, .reject "full"⟩]⟩, 3, []⟩ ∧
      s'.streams.get? B = some ⟨⟨0, [late]⟩, 0, []⟩ := by
  intro A B c₁ c₂ route full late ok inputs outcome streams
  have hdecide : ∀ i msg, ∃ inputs' : InductionInputs, inputs'.receiverHost = route msg.receiver ∧
      decideInduction A true inputs' msg = .ok (outcome i msg) := fun i msg => by
    obtain ⟨o, ho⟩ := decideInduction_eq_ok_of_generateRejectSignals A (inputs msg) msg
    exact ⟨inputs msg, rfl, by simp only [outcome, ho]; rfl⟩
  obtain ⟨s', hrun, -, hloop, -, -, hother⟩ := @inductLoopbackStream_eq_ok ⟨1, 0, 0, 0, 0⟩ A route
    outcome true hdecide (by decide) _ (Streams.statsOk_calculateStats (by decide) streams)
    ⟨⟨0, [full, late, ok]⟩, 0, []⟩
    (by simp [streams, get?_insert]) (.inl (by simp)) rfl (by simp)
  refine ⟨s', hrun, hloop.trans (by decide), (hother B (by decide)).trans ?_⟩
  decide

end Loopback
end IC.XNet
