import InternetComputer.XNet.Stream
import InternetComputer.CanisterQueues.Queue
import InternetComputer.Lib.SortedMap
import InternetComputer.Lib.Lists
import Mathlib

/-!
# Streams and the bytes of their responses

`Streams` of `metadata_state.rs`: the streams by destination subnet, and the bytes of the
responses in them by respondent, which `Streams::push` and every change through a `StreamHandle`
keep up to date. A `usize` count is a natural number, and `-=` its truncated subtraction.

* `StatsOk`: the byte counts are those of `calculate_stats`; **`statsOk_iff_counts`**;
* **`Step.counts`**, **`Reachable.statsOk`**: every call keeps them so;
* **`StreamHandle.discardMessagesBefore_eq_ok`**, **`streamHandle_discard_keeps_stats`**.
-/

namespace IC.XNet

open IC.Queues (Layout RequestOrResponse)
open IC.State (CanisterId SubnetId)

/-! ## The byte counts -/

/-- The bytes a message adds to the count of respondent `c`. -/
def responseBytes (L : Layout) (c : CanisterId) : RequestOrResponse → ℕ
  | msg@(.response rep) => if c = rep.respondent then msg.countBytes L else 0
  | .request _ => 0

/-- The bytes of the responses of respondent `c` among messages. -/
def messagesBytes (L : Layout) (c : CanisterId) (msgs : List RequestOrResponse) : ℕ :=
  (msgs.map (responseBytes L c)).sum

/-- What a push of a response adds to the counts. -/
def countResponse (L : Layout) (stats : SortedMap CanisterId ℕ) :
    RequestOrResponse → SortedMap CanisterId ℕ
  | msg@(.response rep) =>
    stats.insert rep.respondent ((stats.get? rep.respondent).getD 0 + msg.countBytes L)
  | .request _ => stats

/-- What `StreamHandle::discard_messages_before` does to the counts for one discarded message:
a response's bytes are deducted from its respondent's count, and a count that reaches zero is
dropped. -/
def uncountResponse (L : Layout) (stats : SortedMap CanisterId ℕ) :
    RequestOrResponse → Except String (SortedMap CanisterId ℕ)
  | msg@(.response rep) => do
    let canisterResponsesSizeBytes ← Rust.expect (stats.get? rep.respondent)
      "No `responses_size_bytes` entry for discarded response"
    let canisterResponsesSizeBytes := canisterResponsesSizeBytes - msg.countBytes L
    pure (if canisterResponsesSizeBytes = 0 then stats.erase rep.respondent
      else stats.insert rep.respondent canisterResponsesSizeBytes)
  | .request _ => pure stats

/-- `Streams::calculate_stats`: the counts recomputed from the streams. -/
def calculateStats (L : Layout) (streams : SortedMap SubnetId (Stream RequestOrResponse)) :
    SortedMap CanisterId ℕ :=
  streams.entries.foldl (fun stats e => e.2.messages.queue.foldl (countResponse L) stats)
    SortedMap.empty

/-- The bytes of the responses of respondent `c` in all the streams. -/
def respondentBytes (L : Layout) (streams : SortedMap SubnetId (Stream RequestOrResponse))
    (c : CanisterId) : ℕ :=
  streams.sumValues fun stream => messagesBytes L c stream.messages.queue

/-! ## Streams and their handles -/

/-- `Streams`: the streams by destination, and the response bytes by respondent. -/
structure Streams where
  streams : SortedMap SubnetId (Stream RequestOrResponse)
  responsesSizeBytes : SortedMap CanisterId ℕ

/-- `StreamHandle`: a stream of a `Streams`, with the counts its calls update. -/
structure StreamHandle where
  stream : Stream RequestOrResponse
  responsesSizeBytes : SortedMap CanisterId ℕ

namespace Streams

/-- `Streams::new`. -/
def new : Streams := ⟨SortedMap.empty, SortedMap.empty⟩

/-- `Streams::push` onto the stream to `destination`. -/
def push (L : Layout) (s : Streams) (destination : SubnetId) (msg : RequestOrResponse) : Streams :=
  ⟨s.streams.insert destination (((s.streams.get? destination).getD Stream.empty).push msg),
    countResponse L s.responsesSizeBytes msg⟩

/-- `Streams::get_mut_or_insert`. -/
def getMutOrInsert (s : Streams) (destination : SubnetId) : StreamHandle :=
  ⟨(s.streams.get? destination).getD Stream.empty, s.responsesSizeBytes⟩

/-- `Streams::get_mut`: the handle of the stream to `destination`, if there is one. -/
def getMut (s : Streams) (destination : SubnetId) : Option StreamHandle :=
  (s.streams.get? destination).map fun stream => ⟨stream, s.responsesSizeBytes⟩

/-- The `Streams` once the handle of the stream to `destination` is dropped. -/
def withHandle (s : Streams) (destination : SubnetId) (h : StreamHandle) : Streams :=
  ⟨s.streams.insert destination h.stream, h.responsesSizeBytes⟩

end Streams

namespace StreamHandle

/-- `StreamHandle::push`. -/
def push (L : Layout) (h : StreamHandle) (message : RequestOrResponse) : StreamHandle :=
  ⟨h.stream.push message, countResponse L h.responsesSizeBytes message⟩

/-- `StreamHandle::increment_signals_end`. -/
def incrementSignalsEnd (h : StreamHandle) : StreamHandle :=
  { h with stream := h.stream.incrementSignalsEnd }

/-- `StreamHandle::push_reject_signal`. -/
def pushRejectSignal (h : StreamHandle) (index : ℕ) : Except String StreamHandle := do
  let stream ← h.stream.pushRejectSignal index
  pure { h with stream }

/-- `StreamHandle::discard_messages_before`: the counts are updated for each message below
`newBegin`, in a loop that breaks at the first message from it on; then the stream is garbage
collected. -/
def discardMessagesBefore (L : Layout) (h : StreamHandle) (newBegin : ℕ)
    (rejectSignals : List ℕ) : Except String (List RequestOrResponse × StreamHandle) := do
  let responsesSizeBytes ← ((h.stream.messages.queue.zipIdx h.stream.messages.begin).takeWhile
      fun p => decide (p.2 < newBegin)).foldlM (fun stats p => uncountResponse L stats p.1)
    h.responsesSizeBytes
  let (rejected, stream) ← h.stream.discardMessagesBefore newBegin rejectSignals
  pure (rejected, ⟨stream, responsesSizeBytes⟩)

/-- `StreamHandle::discard_signals_before`. -/
def discardSignalsBefore (h : StreamHandle) (newSignalsBegin : ℕ) : StreamHandle :=
  { h with stream := h.stream.discardSignalsBefore newSignalsBegin }

end StreamHandle

namespace Streams

/-- The calls that change a `Streams`: `Streams::push`, and a call of the handle of a stream,
made through `get_mut_or_insert` (or `get_mut`, for a stream there is). A call that panics makes
no step. -/
inductive Step (L : Layout) : Streams → Streams → Prop
  | push {s : Streams} (destination : SubnetId) (msg : RequestOrResponse) :
      Step L s (s.push L destination msg)
  | handlePush {s : Streams} (destination : SubnetId) (msg : RequestOrResponse) :
      Step L s (s.withHandle destination ((s.getMutOrInsert destination).push L msg))
  | incrementSignalsEnd {s : Streams} (destination : SubnetId) :
      Step L s (s.withHandle destination (s.getMutOrInsert destination).incrementSignalsEnd)
  | pushRejectSignal {s : Streams} {destination : SubnetId} {index : ℕ} {h : StreamHandle} :
      (s.getMutOrInsert destination).pushRejectSignal index = .ok h →
      Step L s (s.withHandle destination h)
  | discardMessagesBefore {s : Streams} {destination : SubnetId} {newBegin : ℕ}
      {rejectSignals : List ℕ} {rejected : List RequestOrResponse} {h : StreamHandle} :
      (s.getMutOrInsert destination).discardMessagesBefore L newBegin rejectSignals =
        .ok (rejected, h) →
      Step L s (s.withHandle destination h)
  | discardSignalsBefore {s : Streams} (destination : SubnetId) (newSignalsBegin : ℕ) :
      Step L s (s.withHandle destination
        ((s.getMutOrInsert destination).discardSignalsBefore newSignalsBegin))

/-- The `Streams` that the calls build from `Streams::new`. -/
def Reachable (L : Layout) (s : Streams) : Prop := Relation.ReflTransGen (Step L) new s

/-- The invariant `Streams` `debug_assert`s: the counts are `calculate_stats`', none zero. -/
def StatsOk (L : Layout) (s : Streams) : Prop :=
  s.responsesSizeBytes = calculateStats L s.streams ∧
    ∀ c v, s.responsesSizeBytes.get? c = some v → v ≠ 0

@[simp]
theorem getMutOrInsert_withHandle (s : Streams) (destination : SubnetId) (h : StreamHandle) :
    (s.withHandle destination h).getMutOrInsert destination = h := by
  simp [withHandle, getMutOrInsert, SortedMap.get?_insert]

theorem withHandle_push (L : Layout) (s : Streams) (destination : SubnetId)
    (msg : RequestOrResponse) :
    s.withHandle destination ((s.getMutOrInsert destination).push L msg) =
      s.push L destination msg := rfl

end Streams

/-! ## Counts of the bytes -/

section Counts

open SortedMap

variable {L : Layout}

theorem countBytes_pos (hL : 0 < L.requestOrResponse) (msg : RequestOrResponse) :
    0 < msg.countBytes L := by
  cases msg with
  | request req =>
    simp only [RequestOrResponse.countBytes, IC.Queues.Request.countBytes]
    omega
  | response rep =>
    simp only [RequestOrResponse.countBytes, IC.Queues.Response.countBytes]
    omega

@[simp]
theorem messagesBytes_nil (c : CanisterId) : messagesBytes L c [] = 0 := rfl

@[simp]
theorem messagesBytes_cons (c : CanisterId) (msg : RequestOrResponse)
    (msgs : List RequestOrResponse) :
    messagesBytes L c (msg :: msgs) = responseBytes L c msg + messagesBytes L c msgs := by
  simp [messagesBytes]

@[simp]
theorem messagesBytes_append (c : CanisterId) (msgs msgs' : List RequestOrResponse) :
    messagesBytes L c (msgs ++ msgs') = messagesBytes L c msgs + messagesBytes L c msgs' := by
  simp [messagesBytes]

theorem counts_countResponse (hL : 0 < L.requestOrResponse) {stats : SortedMap CanisterId ℕ}
    {f : CanisterId → ℕ} (h : Counts stats f) (msg : RequestOrResponse) :
    Counts (countResponse L stats msg) fun c => f c + responseBytes L c msg := by
  cases msg with
  | request req => simpa [IC.XNet.countResponse, responseBytes] using h
  | response rep =>
    exact (h.insert_add rep.respondent (countBytes_pos hL (.response rep))).congr fun c => by
      simp [responseBytes]

theorem counts_foldl_countResponse (hL : 0 < L.requestOrResponse) :
    ∀ (msgs : List RequestOrResponse) {stats : SortedMap CanisterId ℕ} {f : CanisterId → ℕ},
      Counts stats f →
      Counts (msgs.foldl (IC.XNet.countResponse L) stats) fun c => f c + messagesBytes L c msgs
  | [], _, _, h => by simpa using h
  | msg :: msgs, _, _, h => by
    have ih := counts_foldl_countResponse hL msgs (counts_countResponse hL h msg)
    simpa [Nat.add_assoc] using ih

theorem counts_uncountResponse (hL : 0 < L.requestOrResponse) {stats : SortedMap CanisterId ℕ}
    {f : CanisterId → ℕ} (h : Counts stats f) (msg : RequestOrResponse)
    (hle : ∀ c, responseBytes L c msg ≤ f c) :
    ∃ stats', uncountResponse L stats msg = .ok stats' ∧
      Counts stats' fun c => f c - responseBytes L c msg := by
  cases msg with
  | request req => exact ⟨stats, rfl, by simpa [responseBytes] using h⟩
  | response rep =>
    have hbytes : (RequestOrResponse.response rep).countBytes L ≤ f rep.respondent := by
      simpa [responseBytes] using hle rep.respondent
    -- the respondent has a count, since it holds the response's bytes
    have hget := h.get?_of_ne_zero (k := rep.respondent)
      (by have := countBytes_pos hL (.response rep); omega)
    refine ⟨_, ?_, (h.sub hget hbytes).congr fun c => by
      simp only [responseBytes]
      split_ifs <;> rfl⟩
    simp [IC.XNet.uncountResponse, hget, Rust.expect]

theorem counts_foldlM_uncountResponse (hL : 0 < L.requestOrResponse) :
    ∀ (msgs : List RequestOrResponse) {stats : SortedMap CanisterId ℕ} {f : CanisterId → ℕ},
      Counts stats f → (∀ c, messagesBytes L c msgs ≤ f c) →
      ∃ stats', msgs.foldlM (IC.XNet.uncountResponse L) stats = .ok stats' ∧
        Counts stats' fun c => f c - messagesBytes L c msgs
  | [], stats, _, h, _ => ⟨stats, rfl, by simpa using h⟩
  | msg :: msgs, _, f, h, hle => by
    obtain ⟨stats₁, h₁, hc₁⟩ := counts_uncountResponse hL h msg fun c => by
      have := hle c
      simp only [messagesBytes_cons] at this
      omega
    obtain ⟨stats₂, h₂, hc₂⟩ := counts_foldlM_uncountResponse hL msgs hc₁ fun c => by
      have := hle c
      simp only [messagesBytes_cons] at this
      omega
    refine ⟨stats₂, by simp [List.foldlM_cons, h₁, h₂], ?_⟩
    simpa [Nat.sub_sub] using hc₂

theorem counts_calculateStats (hL : 0 < L.requestOrResponse)
    (streams : SortedMap SubnetId (Stream RequestOrResponse)) :
    Counts (calculateStats L streams) (respondentBytes L streams) := by
  -- the loop over the streams adds each stream's bytes
  have hloop : ∀ (es : List (SubnetId × Stream RequestOrResponse))
      {stats : SortedMap CanisterId ℕ} {f : CanisterId → ℕ}, Counts stats f →
      Counts (es.foldl (fun stats e => e.2.messages.queue.foldl (countResponse L) stats) stats)
        fun c => f c + (es.map fun e => messagesBytes L c e.2.messages.queue).sum := by
    intro es
    induction es with
    | nil => intro _ _ h; simpa using h
    | cons e es ih =>
      intro _ _ h
      simpa [Nat.add_assoc] using ih (counts_foldl_countResponse hL e.2.messages.queue h)
  have h := hloop streams.entries (counts_empty (κ := CanisterId))
  simp only [zero_add] at h
  exact h

theorem respondentBytes_insert (streams : SortedMap SubnetId (Stream RequestOrResponse))
    (destination : SubnetId) (stream : Stream RequestOrResponse) (c : CanisterId) :
    respondentBytes L (streams.insert destination stream) c +
        messagesBytes L c ((streams.get? destination).getD Stream.empty).messages.queue =
      respondentBytes L streams c + messagesBytes L c stream.messages.queue := by
  let g := fun stream : Stream RequestOrResponse => messagesBytes L c stream.messages.queue
  have h := streams.sumValues_insert_add destination stream g
  have hget : ((streams.get? destination).map g).getD 0 =
      g ((streams.get? destination).getD Stream.empty) := Option.getD_map g Stream.empty _
  rw [hget] at h
  exact h

theorem messagesBytes_le_respondentBytes (streams : SortedMap SubnetId (Stream RequestOrResponse))
    (destination : SubnetId) (c : CanisterId) :
    messagesBytes L c ((streams.get? destination).getD Stream.empty).messages.queue ≤
      respondentBytes L streams c := by
  cases hget : streams.get? destination with
  | none => exact Nat.zero_le _
  | some stream =>
    exact le_sumValues (g := fun stream => messagesBytes L c stream.messages.queue)
      (fun _ => Nat.zero_le _) hget

theorem respondentBytes_insert_eq (streams : SortedMap SubnetId (Stream RequestOrResponse))
    (destination : SubnetId) (stream : Stream RequestOrResponse) (c : CanisterId) :
    respondentBytes L (streams.insert destination stream) c =
      respondentBytes L streams c + messagesBytes L c stream.messages.queue -
        messagesBytes L c ((streams.get? destination).getD Stream.empty).messages.queue := by
  have := respondentBytes_insert (L := L) streams destination stream c
  omega

theorem messagesBytes_push (c : CanisterId) (stream : Stream RequestOrResponse)
    (msg : RequestOrResponse) :
    messagesBytes L c (stream.push msg).messages.queue =
      messagesBytes L c stream.messages.queue + responseBytes L c msg := by
  simp [Stream.push, StreamIndexedQueue.push]

theorem Streams.statsOk_iff_counts (hL : 0 < L.requestOrResponse) (s : Streams) :
    s.StatsOk L ↔ Counts s.responsesSizeBytes (respondentBytes L s.streams) := by
  constructor
  · rintro ⟨heq, -⟩
    rw [heq]
    exact counts_calculateStats hL s.streams
  · intro h
    exact ⟨h.eq (counts_calculateStats hL s.streams), fun _ _ hv => h.ne_zero hv⟩

/-- Streams with the counts that `calculate_stats` computes keep the invariant. -/
theorem Streams.statsOk_calculateStats (hL : 0 < L.requestOrResponse)
    (streams : SortedMap SubnetId (Stream RequestOrResponse)) :
    (⟨streams, calculateStats L streams⟩ : Streams).StatsOk L :=
  (Streams.statsOk_iff_counts hL _).mpr (counts_calculateStats hL streams)

end Counts

/-! ## Every call keeps the counts -/

section Steps

open SortedMap

variable {L : Layout}

theorem StreamHandle.messages_of_pushRejectSignal_eq_ok {h h' : StreamHandle} {index : ℕ}
    (hok : h.pushRejectSignal index = .ok h') :
    h'.stream.messages = h.stream.messages ∧ h'.responsesSizeBytes = h.responsesSizeBytes := by
  obtain ⟨stream, hpush, hpure⟩ := Except.bind_eq_ok.mp hok
  cases Except.pure_eq_ok.mp hpure
  unfold Stream.pushRejectSignal at hpush
  dsimp only at hpush
  split_ifs at hpush
  split at hpush
  · split_ifs at hpush
    cases hpush
    exact ⟨rfl, rfl⟩
  · cases hpush
    exact ⟨rfl, rfl⟩

theorem StreamHandle.foldlM_takeWhile_eq (h : StreamHandle) (newBegin : ℕ) :
    ((h.stream.messages.queue.zipIdx h.stream.messages.begin).takeWhile
        fun p => decide (p.2 < newBegin)).foldlM (fun stats p => uncountResponse L stats p.1)
      h.responsesSizeBytes =
    (h.stream.messages.queue.take (newBegin - h.stream.messages.begin)).foldlM
      (uncountResponse L) h.responsesSizeBytes := by
  rw [List.takeWhile_zipIdx_lt, ← List.foldlM_map, List.zipIdx_map_fst]

theorem counts_withHandle_of_messages {s : Streams} {destination : SubnetId} {h : StreamHandle}
    (hc : Counts s.responsesSizeBytes (respondentBytes L s.streams))
    (hmessages : h.stream.messages = (s.getMutOrInsert destination).stream.messages)
    (hstats : h.responsesSizeBytes = s.responsesSizeBytes) :
    Counts (s.withHandle destination h).responsesSizeBytes
      (respondentBytes L (s.withHandle destination h).streams) := by
  simp only [Streams.withHandle, hstats]
  refine hc.congr fun c => ?_
  rw [respondentBytes_insert_eq, hmessages]
  simp only [Streams.getMutOrInsert]
  omega

theorem counts_push (hL : 0 < L.requestOrResponse) {s : Streams}
    (hc : Counts s.responsesSizeBytes (respondentBytes L s.streams)) (destination : SubnetId)
    (msg : RequestOrResponse) :
    Counts (s.push L destination msg).responsesSizeBytes
      (respondentBytes L (s.push L destination msg).streams) := by
  refine (counts_countResponse hL hc msg).congr fun c => ?_
  simp only [Streams.push]
  rw [respondentBytes_insert_eq, messagesBytes_push]
  omega

theorem counts_discardMessagesBefore (hL : 0 < L.requestOrResponse) {s : Streams}
    (hc : Counts s.responsesSizeBytes (respondentBytes L s.streams)) {destination : SubnetId}
    {newBegin : ℕ} {rejectSignals : List ℕ} {rejected : List RequestOrResponse} {h : StreamHandle}
    (hok : (s.getMutOrInsert destination).discardMessagesBefore L newBegin rejectSignals =
      .ok (rejected, h)) :
    Counts (s.withHandle destination h).responsesSizeBytes
      (respondentBytes L (s.withHandle destination h).streams) := by
  obtain ⟨stats, hloop, hpair⟩ := Except.bind_eq_ok.mp hok
  obtain ⟨⟨rejected', stream⟩, hdiscard, hpure⟩ := Except.bind_eq_ok.mp hpair
  cases Except.pure_eq_ok.mp hpure
  obtain ⟨-, -, rfl⟩ := Stream.discardMessagesBefore_eq_ok_messages hdiscard
  rw [StreamHandle.foldlM_takeWhile_eq] at hloop
  simp only [Streams.getMutOrInsert, Streams.withHandle] at hloop ⊢
  -- the discarded messages and those kept split the bytes of the stream
  have hsplit : ∀ (c : CanisterId) (l : List RequestOrResponse) (n : ℕ),
      messagesBytes L c l = messagesBytes L c (l.take n) + messagesBytes L c (l.drop n) :=
    fun c l n => by rw [← messagesBytes_append, List.take_append_drop]
  obtain ⟨stats', hloop', hc'⟩ := counts_foldlM_uncountResponse hL
    ((((s.streams.get? destination).getD Stream.empty).messages.queue).take
      (newBegin - ((s.streams.get? destination).getD Stream.empty).messages.begin)) hc fun c => by
    have := messagesBytes_le_respondentBytes (L := L) s.streams destination c
    have := hsplit c ((s.streams.get? destination).getD Stream.empty).messages.queue
      (newBegin - ((s.streams.get? destination).getD Stream.empty).messages.begin)
    omega
  rw [hloop'] at hloop
  cases hloop
  refine hc'.congr fun c => ?_
  rw [respondentBytes_insert_eq]
  dsimp only
  have := messagesBytes_le_respondentBytes (L := L) s.streams destination c
  have := hsplit c ((s.streams.get? destination).getD Stream.empty).messages.queue
    (newBegin - ((s.streams.get? destination).getD Stream.empty).messages.begin)
  omega

/-- **Every call keeps the counts** of the bytes of each respondent's responses. -/
theorem Streams.Step.counts (hL : 0 < L.requestOrResponse) {s s' : Streams}
    (hstep : Streams.Step L s s')
    (hc : Counts s.responsesSizeBytes (respondentBytes L s.streams)) :
    Counts s'.responsesSizeBytes (respondentBytes L s'.streams) := by
  cases hstep with
  | push destination msg => exact counts_push hL hc destination msg
  | handlePush destination msg => exact counts_push hL hc destination msg
  | incrementSignalsEnd destination => exact counts_withHandle_of_messages hc rfl rfl
  | pushRejectSignal hok =>
    obtain ⟨hmessages, hstats⟩ := StreamHandle.messages_of_pushRejectSignal_eq_ok hok
    exact counts_withHandle_of_messages hc hmessages hstats
  | discardMessagesBefore hok => exact counts_discardMessagesBefore hL hc hok
  | discardSignalsBefore destination newSignalsBegin =>
    exact counts_withHandle_of_messages hc rfl rfl

/-- **The counts stay those `calculate_stats` computes** over every run from `Streams::new`. -/
theorem Streams.Reachable.statsOk (hL : 0 < L.requestOrResponse) {s : Streams}
    (hs : s.Reachable L) : s.StatsOk L := by
  rw [Streams.statsOk_iff_counts hL]
  induction hs with
  | refl => exact fun c => by simp [respondentBytes, Streams.new]
  | tail _ hstep ih => exact hstep.counts hL ih

/-! ## Garbage collection through a handle -/

/-- **`StreamHandle::discard_messages_before`** discards the messages below the new begin, returns
those at a reject signal in index order and keeps the counts right. -/
theorem StreamHandle.discardMessagesBefore_eq_ok (hL : 0 < L.requestOrResponse) {s : Streams}
    (hs : s.StatsOk L) {destination : SubnetId} {S : Stream RequestOrResponse}
    (hS : s.streams.get? destination = some S) {newBegin : ℕ} {rejectSignals : List ℕ}
    (h₁ : S.messages.begin ≤ newBegin) (h₂ : newBegin ≤ S.messages.end_)
    (hsorted : rejectSignals.Pairwise (· < ·)) (hlt : ∀ r ∈ rejectSignals, r < newBegin) :
    ∃ responsesSizeBytes,
      (s.getMutOrInsert destination).discardMessagesBefore L newBegin rejectSignals =
        .ok (((S.messages.queue.zipIdx S.messages.begin).filter
              fun p => decide (p.2 ∈ rejectSignals)).map Prod.fst,
          ⟨{ S with messages := ⟨newBegin, S.messages.queue.drop (newBegin - S.messages.begin)⟩ },
            responsesSizeBytes⟩) ∧
      (s.withHandle destination
        ⟨{ S with messages := ⟨newBegin, S.messages.queue.drop (newBegin - S.messages.begin)⟩ },
          responsesSizeBytes⟩).StatsOk L := by
  have hc := (Streams.statsOk_iff_counts hL s).mp hs
  have hstream : (s.getMutOrInsert destination).stream = S := by
    simp [Streams.getMutOrInsert, hS]
  -- the counts hold the bytes of the messages below the new begin
  obtain ⟨stats, hloop, -⟩ := counts_foldlM_uncountResponse hL
    (S.messages.queue.take (newBegin - S.messages.begin)) hc fun c => by
      have hle := messagesBytes_le_respondentBytes (L := L) s.streams destination c
      rw [hS, Option.getD_some, ← List.take_append_drop (newBegin - S.messages.begin)
        S.messages.queue, messagesBytes_append] at hle
      omega
  -- the reject signals from the begin on are those of the messages below the new begin
  have hrejected : (rejectSignals.filter fun r => decide (S.messages.begin ≤ r ∧ r < newBegin)).filterMap
        (fun r => S.messages.queue[r - S.messages.begin]?) =
      ((S.messages.queue.zipIdx S.messages.begin).filter
        fun p => decide (p.2 ∈ rejectSignals)).map Prod.fst := by
    rw [List.filterMap_getElem?_eq_filter_zipIdx hsorted]
    congr 1
    exact List.filter_congr fun p _ => by simpa using fun hp => hlt p.2 hp
  have hok : (s.getMutOrInsert destination).discardMessagesBefore L newBegin rejectSignals =
      .ok (((S.messages.queue.zipIdx S.messages.begin).filter
            fun p => decide (p.2 ∈ rejectSignals)).map Prod.fst,
        ⟨{ S with messages := ⟨newBegin, S.messages.queue.drop (newBegin - S.messages.begin)⟩ },
          stats⟩) := by
    unfold discardMessagesBefore
    rw [foldlM_takeWhile_eq, hstream, show (s.getMutOrInsert destination).responsesSizeBytes =
      s.responsesSizeBytes from rfl, hloop, Except.ok_bind,
      Stream.discardMessagesBefore_eq_ok hsorted h₁ h₂, Except.ok_bind, hrejected]
    rfl
  refine ⟨stats, hok, (Streams.statsOk_iff_counts hL _).mpr ?_⟩
  exact (Streams.Step.discardMessagesBefore hok).counts hL hc

/-- **Garbage collection keeps the response bytes exact**: over every run of the handle's calls,
the counts are those `calculate_stats` computes, with no zero entry. -/
theorem streamHandle_discard_keeps_stats (hL : 0 < L.requestOrResponse) :
    (∀ {s : Streams} {destination : SubnetId} {S : Stream RequestOrResponse} {newBegin : ℕ}
        {rejectSignals : List ℕ},
      s.StatsOk L → s.streams.get? destination = some S →
      S.messages.begin ≤ newBegin → newBegin ≤ S.messages.end_ →
      rejectSignals.Pairwise (· < ·) → (∀ r ∈ rejectSignals, r < newBegin) →
      ∃ responsesSizeBytes,
        (s.getMutOrInsert destination).discardMessagesBefore L newBegin rejectSignals =
          .ok (((S.messages.queue.zipIdx S.messages.begin).filter
                fun p => decide (p.2 ∈ rejectSignals)).map Prod.fst,
            ⟨{ S with messages := ⟨newBegin, S.messages.queue.drop (newBegin - S.messages.begin)⟩ },
              responsesSizeBytes⟩) ∧
        (s.withHandle destination
          ⟨{ S with messages := ⟨newBegin, S.messages.queue.drop (newBegin - S.messages.begin)⟩ },
            responsesSizeBytes⟩).StatsOk L) ∧
    ∀ s : Streams, s.Reachable L → s.StatsOk L :=
  ⟨fun hs hS h₁ h₂ hsorted hlt =>
    StreamHandle.discardMessagesBefore_eq_ok hL hs hS h₁ h₂ hsorted hlt,
    fun _ hs => hs.statsOk hL⟩

/-- A stream of a response and a request, both garbage collected, the request kept by its reject
signal: the response's bytes leave its respondent's count, and the counts stay exact. -/
theorem streamHandle_discard_keeps_stats_at_response :
    let d : SubnetId := ⟨[], by decide⟩
    let c : CanisterId := ⟨[2], by decide⟩
    let req : RequestOrResponse := .request ⟨c, c, 0, "", []⟩
    let streams : SortedMap SubnetId (Stream RequestOrResponse) :=
      SortedMap.empty.insert d ⟨⟨0, [.response ⟨c, c, 0, .data [7]⟩, req]⟩, 0, []⟩
    let s : Streams := ⟨streams, calculateStats ⟨1, 0, 0, 0, 0⟩ streams⟩
    ∃ responsesSizeBytes,
      (s.getMutOrInsert d).discardMessagesBefore ⟨1, 0, 0, 0, 0⟩ 2 [1] =
        .ok ([req], ⟨⟨⟨2, []⟩, 0, []⟩, responsesSizeBytes⟩) ∧
      (s.withHandle d ⟨⟨⟨2, []⟩, 0, []⟩, responsesSizeBytes⟩).StatsOk ⟨1, 0, 0, 0, 0⟩ := by
  intro d c req streams s
  exact (streamHandle_discard_keeps_stats (L := ⟨1, 0, 0, 0, 0⟩) (by decide)).1
    (Streams.statsOk_calculateStats (by decide) streams)
    (S := ⟨⟨0, [.response ⟨c, c, 0, .data [7]⟩, req]⟩, 0, []⟩) (by simp [s, streams, get?_insert]) (by decide) (by decide) (by simp) (by simp)

end Steps

end IC.XNet
