import InternetComputer.Lib.Rust
import InternetComputer.Lib.Sorted

/-!
# Streams

`StreamIndexedQueue`, `StreamHeader`, `StreamSlice` and `Stream` of `metadata_state.rs`: the
messages from `begin` on, the index of the next signal, and the reject signals. A panic is an
error.

* `Stream.push`, `Stream.pushRejectSignal`, `Stream.discardMessagesBefore`, `discardSignalsBefore`;
* **`discardLoop_eq_ok`**, **`discardMessagesBefore_eq_ok`**: the messages below the new begin are
  discarded, and those at the reject signals are returned, once each.
-/

namespace IC.XNet

/-- `StreamIndexedQueue`: a queue whose first element has index `begin`. -/
structure StreamIndexedQueue (α : Type) where
  begin : ℕ
  queue : List α
  deriving DecidableEq, Repr

namespace StreamIndexedQueue

variable {α : Type}

/-- `StreamIndexedQueue::end`. The name `end` is a keyword of Lean. -/
def end_ (q : StreamIndexedQueue α) : ℕ := q.begin + q.queue.length

/-- `StreamIndexedQueue::push`. -/
def push (q : StreamIndexedQueue α) (x : α) : StreamIndexedQueue α := { q with queue := q.queue ++ [x] }

/-- `StreamIndexedQueue::slice`: at most `max` elements from `sliceBegin` on. -/
def slice (q : StreamIndexedQueue α) (sliceBegin : ℕ) (max : Option ℕ) :
    Except String (StreamIndexedQueue α) :=
  let selfBegin := q.begin
  let selfEnd := q.end_
  if sliceBegin < selfBegin then
    .error s!"Requested `slice_begin` ({sliceBegin}) before `self.begin()` ({selfBegin})"
  else if selfEnd < sliceBegin then
    .error s!"Requested `slice_begin` ({sliceBegin}) after `self.end()` ({selfEnd})"
  else .ok ⟨sliceBegin, (q.queue.drop (sliceBegin - q.begin)).take (max.getD q.queue.length)⟩

@[simp]
theorem end_push (q : StreamIndexedQueue α) (x : α) : (q.push x).end_ = q.end_ + 1 := by
  simp [push, end_, Nat.add_assoc]

theorem slice_eq_ok {q : StreamIndexedQueue α} {sliceBegin : ℕ} (max : Option ℕ)
    (h₁ : q.begin ≤ sliceBegin) (h₂ : sliceBegin ≤ q.end_) :
    q.slice sliceBegin max =
      .ok ⟨sliceBegin, (q.queue.drop (sliceBegin - q.begin)).take (max.getD q.queue.length)⟩ := by
  unfold slice
  dsimp only
  rw [if_neg (Nat.not_lt.mpr h₁), if_neg (Nat.not_lt.mpr h₂)]

theorem eq_take_end_of_eq_drop {q : StreamIndexedQueue α} {l : List α}
    (hq : q.queue = l.drop q.begin) (hle : q.begin ≤ l.length) :
    q.queue = (l.take q.end_).drop q.begin := by
  have hend : q.end_ = l.length := by
    unfold end_
    rw [hq, List.length_drop]
    omega
  rw [hend, List.take_length]
  exact hq

end StreamIndexedQueue

/-- `StreamHeader`. -/
structure StreamHeader where
  begin : ℕ
  end_ : ℕ
  signalsEnd : ℕ
  rejectSignals : List ℕ
  deriving DecidableEq, Repr

/-- `StreamSlice`: a header and the messages, `none` when there are none. -/
structure StreamSlice (α : Type) where
  header : StreamHeader
  messages : Option (StreamIndexedQueue α)

/-- `StreamSlice::new`. -/
def StreamSlice.new {α : Type} (header : StreamHeader) (messages : StreamIndexedQueue α) :
    StreamSlice α :=
  if messages.queue.isEmpty then ⟨header, none⟩ else ⟨header, some messages⟩

/-- `Stream`: the messages, the index of the next signal, and the reject signals. -/
structure Stream (α : Type) where
  messages : StreamIndexedQueue α
  signalsEnd : ℕ
  rejectSignals : List ℕ
  deriving DecidableEq, Repr

namespace Stream

variable {α : Type}

/-- `Stream::default`. -/
def empty : Stream α := ⟨⟨0, []⟩, 0, []⟩

/-- `Stream::header`. -/
def header (s : Stream α) : StreamHeader :=
  ⟨s.messages.begin, s.messages.end_, s.signalsEnd, s.rejectSignals⟩

/-- `Stream::slice`: the header and at most `count` messages from `from` on. -/
def slice (s : Stream α) (from_ : ℕ) (count : Option ℕ) :
    Except String (StreamSlice α) := do
  let messages ← s.messages.slice from_ count
  pure (StreamSlice.new s.header messages)

/-- `Stream::push`. -/
def push (s : Stream α) (message : α) : Stream α := { s with messages := s.messages.push message }

/-- The loop of `Stream::discard_messages_before`: pop the messages below `newBegin`, keeping those
at the next reject signal, `next`, and then `rest`. -/
def discardLoop (newBegin begin : ℕ) (queue : List α) (next : ℕ)
    (rest : List ℕ) : Except String (List α × StreamIndexedQueue α) :=
  if begin < newBegin then
    match queue with
    | [] => .error "called `Option::unwrap()` on a `None` value"
    | msg :: queue =>
      let index := begin
      if next = index then do
        let (rejected, messages) ←
          discardLoop newBegin (begin + 1) queue (rest.head?.getD newBegin) rest.tail
        pure (msg :: rejected, messages)
      else discardLoop newBegin (begin + 1) queue next rest
  else .ok ([], ⟨begin, queue⟩)

/-- `Stream::discard_messages_before`, returning the messages with a reject signal. -/
def discardMessagesBefore (s : Stream α) (newBegin : ℕ)
    (rejectSignals : List ℕ) : Except String (List α × Stream α) :=
  let selfBegin := s.messages.begin
  let selfEnd := s.messages.end_
  if ¬newBegin ≥ selfBegin then
    .error s!"Begin index ({selfBegin}) has already advanced past requested begin index ({newBegin})"
  else if ¬newBegin ≤ selfEnd then
    .error s!"Cannot advance begin index ({newBegin}) beyond end index ({selfEnd})"
  else
    -- skip the reject signals the remote subnet has not yet seen us discard
    let rejectSignals := rejectSignals.dropWhile fun r => decide (r < selfBegin)
    do
      let (rejected, messages) ← discardLoop newBegin s.messages.begin s.messages.queue
        (rejectSignals.head?.getD newBegin) rejectSignals.tail
      pure (rejected, { s with messages })

/-- `Stream::discard_signals_before`. -/
def discardSignalsBefore (s : Stream α) (newSignalsBegin : ℕ) : Stream α :=
  { s with rejectSignals := s.rejectSignals.dropWhile fun r => decide (r < newSignalsBegin) }

/-- `Stream::increment_signals_end`. -/
def incrementSignalsEnd (s : Stream α) : Stream α := { s with signalsEnd := s.signalsEnd + 1 }

/-- `Stream::push_reject_signal`: the signal is the next one, and above the last. -/
def pushRejectSignal (s : Stream α) (index : ℕ) : Except String (Stream α) :=
  let signalsEnd := s.signalsEnd
  if index ≠ signalsEnd then
    .error s!"assertion `left == right` failed\n  left: {index}\n right: {signalsEnd}"
  else
    match s.rejectSignals.getLast? with
    | some lastSignal =>
      if lastSignal < index then .ok { s with rejectSignals := s.rejectSignals ++ [index] }
      else .error s!"The signal to be pushed ({index}) should be larger than the last signal ({lastSignal})"
    | none => .ok { s with rejectSignals := s.rejectSignals ++ [index] }

/-! ## Specifications -/

/-- **The loop of `discard_messages_before`**, on increasing reject signals from `begin`: it pops up
to `newBegin` and returns the messages at the reject signals, in order. -/
theorem discardLoop_eq_ok {newBegin : ℕ} :
    ∀ (queue : List α) {begin : ℕ} {remaining : List ℕ},
      remaining.Pairwise (· < ·) → (∀ r ∈ remaining, begin ≤ r) → begin ≤ newBegin →
      newBegin ≤ begin + queue.length →
      discardLoop newBegin begin queue (remaining.head?.getD newBegin) remaining.tail =
        .ok ((remaining.filter fun r => decide (r < newBegin)).filterMap
              (fun r => queue[r - begin]?),
            ⟨newBegin, queue.drop (newBegin - begin)⟩)
  | queue, begin, remaining, hsorted, hge, hle, hlen => by
    rw [discardLoop.eq_def]
    by_cases hlt : begin < newBegin
    · rw [if_pos hlt]
      match queue, hlen with
      | [], hlen => exact absurd hlen (by simp only [List.length_nil]; omega)
      | msg :: queue, hlen =>
        simp only [List.length_cons] at hlen
        dsimp only
        by_cases hnext : remaining.head?.getD newBegin = begin
        · -- the first message has the first reject signal
          rw [if_pos hnext]
          obtain ⟨r, rest, rfl⟩ : ∃ r rest, remaining = r :: rest := by
            cases remaining with
            | nil => exact absurd hnext (by simp only [List.head?_nil, Option.getD_none]; omega)
            | cons r rest => exact ⟨r, rest, rfl⟩
          simp only [List.head?_cons, Option.getD_some] at hnext
          subst hnext
          rw [List.pairwise_cons] at hsorted
          have hle' : r + 1 ≤ newBegin := hlt
          have hlen' : newBegin ≤ r + 1 + queue.length := by omega
          have ih := discardLoop_eq_ok queue hsorted.2 (fun x hx => hsorted.1 x hx) hle' hlen'
          rw [List.tail_cons, ih]
          have hfilter : ((r :: rest).filter fun x => decide (x < newBegin)) =
              r :: rest.filter fun x => decide (x < newBegin) :=
            List.filter_cons_of_pos (by simpa using hlt)
          have hshift : (rest.filter fun x => decide (x < newBegin)).filterMap
                (fun x => (msg :: queue)[x - r]?) =
              (rest.filter fun x => decide (x < newBegin)).filterMap (fun x => queue[x - (r + 1)]?) :=
            List.filterMap_congr fun x hx => by
              have hx' := hsorted.1 x (List.mem_of_mem_filter hx)
              rw [show x - r = x - (r + 1) + 1 by omega, List.getElem?_cons_succ]
          rw [hfilter, List.filterMap_cons, Nat.sub_self, List.getElem?_cons_zero, hshift,
            show newBegin - r = newBegin - (r + 1) + 1 by omega, List.drop_succ_cons]
          rfl
        · -- no reject signal at `begin`: every remaining one is above it
          rw [if_neg hnext]
          have hgt : ∀ x ∈ remaining, begin + 1 ≤ x := by
            intro x hx
            cases remaining with
            | nil => exact absurd hx List.not_mem_nil
            | cons r rest =>
              simp only [List.head?_cons, Option.getD_some] at hnext
              have hr := hge r List.mem_cons_self
              rcases List.mem_cons.mp hx with rfl | hx
              · omega
              · have := (List.pairwise_cons.mp hsorted).1 x hx
                omega
          rw [discardLoop_eq_ok queue hsorted hgt (by omega) (by omega)]
          have hshift : (remaining.filter fun x => decide (x < newBegin)).filterMap
                (fun x => (msg :: queue)[x - begin]?) =
              (remaining.filter fun x => decide (x < newBegin)).filterMap
                (fun x => queue[x - (begin + 1)]?) :=
            List.filterMap_congr fun x hx => by
              have hx' := hgt x (List.mem_of_mem_filter hx)
              rw [show x - begin = x - (begin + 1) + 1 by omega, List.getElem?_cons_succ]
          rw [hshift, show newBegin - begin = newBegin - (begin + 1) + 1 by omega,
            List.drop_succ_cons]
    · -- nothing below `newBegin` is left
      rw [if_neg hlt]
      have heq : begin = newBegin := by omega
      subst heq
      have hnone : (remaining.filter fun x => decide (x < begin)) = [] :=
        List.filter_eq_nil_iff.mpr fun x hx => by simpa using hge x hx
      rw [hnone, List.filterMap_nil, Nat.sub_self, List.drop_zero]

/-- **`discard_messages_before`**, on increasing reject signals and `newBegin` within the messages:
those below it are discarded and those at the reject signals returned. -/
theorem discardMessagesBefore_eq_ok {s : Stream α} {newBegin : ℕ} {rejectSignals : List ℕ}
    (hsorted : rejectSignals.Pairwise (· < ·)) (h₁ : s.messages.begin ≤ newBegin)
    (h₂ : newBegin ≤ s.messages.end_) :
    s.discardMessagesBefore newBegin rejectSignals =
      .ok ((rejectSignals.filter fun r => decide (s.messages.begin ≤ r ∧ r < newBegin)).filterMap
            (fun r => s.messages.queue[r - s.messages.begin]?),
          { s with messages := ⟨newBegin, s.messages.queue.drop (newBegin - s.messages.begin)⟩ }) := by
  unfold discardMessagesBefore
  dsimp only
  rw [if_neg (not_not.mpr h₁), if_neg (not_not.mpr h₂), hsorted.dropWhile_lt]
  -- the signals from `begin` on are still increasing, and the loop starts on them
  have hge : ∀ r ∈ rejectSignals.filter (fun r => decide (s.messages.begin ≤ r)),
      s.messages.begin ≤ r := fun r hr => by simpa using (List.mem_filter.mp hr).2
  rw [discardLoop_eq_ok _ (hsorted.filter _) hge h₁ h₂, List.filter_filter]
  have hcond : ∀ r : ℕ, (decide (r < newBegin) && decide (s.messages.begin ≤ r)) =
      decide (s.messages.begin ≤ r ∧ r < newBegin) := fun r => by
    rw [Bool.and_comm, ← Bool.decide_and]
  simp only [hcond]
  rfl

theorem messages_of_discardLoop_eq_ok {newBegin : ℕ} :
    ∀ (queue : List α) {begin next : ℕ} {rest : List ℕ} {rejected : List α}
      {messages : StreamIndexedQueue α}, begin ≤ newBegin →
      discardLoop newBegin begin queue next rest = .ok (rejected, messages) →
      messages = ⟨newBegin, queue.drop (newBegin - begin)⟩
  | queue, begin, next, rest, rejected, messages, hle, h => by
    rw [discardLoop.eq_def] at h
    by_cases hlt : begin < newBegin
    · rw [if_pos hlt] at h
      match queue, h with
      | [], h => exact absurd h (by simp)
      | msg :: queue, h =>
        have hdrop : (msg :: queue).drop (newBegin - begin) = queue.drop (newBegin - (begin + 1)) := by
          rw [show newBegin - begin = newBegin - (begin + 1) + 1 by omega, List.drop_succ_cons]
        rw [hdrop]
        dsimp only at h
        split_ifs at h
        · obtain ⟨⟨rejected', messages'⟩, hloop, hpure⟩ := Except.bind_eq_ok.mp h
          cases (Except.pure_eq_ok.mp hpure)
          exact messages_of_discardLoop_eq_ok queue hlt hloop
        · exact messages_of_discardLoop_eq_ok queue hlt h
    · rw [if_neg hlt] at h
      cases h
      rw [show newBegin = begin by omega, Nat.sub_self, List.drop_zero]

/-- **A `discard_messages_before` that does not panic** leaves the messages from `newBegin` on. -/
theorem discardMessagesBefore_eq_ok_messages {s s' : Stream α} {newBegin : ℕ}
    {rejectSignals : List ℕ} {rejected : List α}
    (h : s.discardMessagesBefore newBegin rejectSignals = .ok (rejected, s')) :
    s.messages.begin ≤ newBegin ∧ newBegin ≤ s.messages.end_ ∧
      s' = { s with messages := ⟨newBegin, s.messages.queue.drop (newBegin - s.messages.begin)⟩ } := by
  unfold discardMessagesBefore at h
  dsimp only at h
  split_ifs at h with h₁ h₂
  obtain ⟨⟨rejected', messages⟩, hloop, hpure⟩ := Except.bind_eq_ok.mp h
  cases (Except.pure_eq_ok.mp hpure)
  exact ⟨h₁, h₂, by rw [messages_of_discardLoop_eq_ok _ h₁ hloop]⟩

theorem pushRejectSignal_eq_ok {s : Stream α} {index : ℕ} (hindex : index = s.signalsEnd)
    (hlt : ∀ r ∈ s.rejectSignals, r < index) :
    s.pushRejectSignal index = .ok { s with rejectSignals := s.rejectSignals ++ [index] } := by
  unfold pushRejectSignal
  dsimp only
  rw [if_neg (not_not.mpr hindex)]
  cases hlast : s.rejectSignals.getLast? with
  | none => rfl
  | some lastSignal =>
    exact if_pos (hlt lastSignal (List.mem_of_getLast? hlast))

theorem slice_eq_ok {s : Stream α} {from_ : ℕ} (count : Option ℕ) (h₁ : s.messages.begin ≤ from_)
    (h₂ : from_ ≤ s.messages.end_) :
    s.slice from_ count = .ok (StreamSlice.new s.header
      ⟨from_, (s.messages.queue.drop (from_ - s.messages.begin)).take
        (count.getD s.messages.queue.length)⟩) := by
  unfold slice
  rw [StreamIndexedQueue.slice_eq_ok count h₁ h₂]
  rfl

end Stream

end IC.XNet
