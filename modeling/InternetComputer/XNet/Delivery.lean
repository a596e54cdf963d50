import InternetComputer.XNet.Protocol

/-!
# Exactly-once, in-order delivery

Over every interleaving of the steps of both subnets, the messages one subnet sends are passed to
`induct_message` once each, in index order; the sender discards a message only once the receiver
has produced its signal; and the rejected messages are returned once each. The invariant
`Flow s r` is about the stream of `s` to `r` and the signals `r` produces for it.

* `Flow`, with one step lemma for each side of each step;
* `World.Valid`, `World.Valid.step`, `Reachable.valid`; **`reachable_deliversExactlyOnce`**.
-/

namespace IC.XNet

variable {α : Type}

/-- The invariant of the stream of `s` to `r`: it holds the messages pushed from its begin, the
receiver inducted those below its `signals_end` in order, and the rejected ones came back. -/
structure Flow (s r : Subnet α) : Prop where
  queue_eq : s.stream.messages.queue = s.pushed.drop s.stream.messages.begin
  begin_le : s.stream.messages.begin ≤ s.pushed.length
  window : ∀ S ∈ s.history,
    S.messages.queue = (s.pushed.take S.messages.end_).drop S.messages.begin
  delivered_lt : r.delivered < s.history.length
  signalsEnd_le : ∀ S ∈ s.history[r.delivered]?, r.stream.signalsEnd ≤ S.messages.end_
  discarded_lt : s.delivered < r.history.length
  begin_eq : ∀ R ∈ r.history[s.delivered]?, s.stream.messages.begin = R.signalsEnd
  inducted_eq : r.inducted = (s.pushed.take r.stream.signalsEnd).zipIdx
  rejectLog_sorted : r.rejectLog.Pairwise (· < ·)
  rejectLog_lt : ∀ i ∈ r.rejectLog, i < r.stream.signalsEnd
  rejectSignals_eq : ∀ R ∈ r.history, ∃ t ≤ s.stream.messages.begin,
    R.rejectSignals = r.rejectLog.filter fun i => decide (t ≤ i ∧ i < R.signalsEnd)
  returned_eq : s.returned =
    (r.rejectLog.filter fun i => decide (i < s.stream.messages.begin)).filterMap (s.pushed[·]?)

/-- The history of a subnet's stream. -/
abbrev Subnet.HistoryOk (p : Subnet α) : Prop := IsHistory Stream.Le p.history p.stream

namespace Flow

variable {s r : Subnet α}

theorem end_eq (hf : Flow s r) : s.stream.messages.end_ = s.pushed.length := by
  have hle := hf.begin_le
  unfold StreamIndexedQueue.end_
  rw [hf.queue_eq, List.length_drop]
  omega

theorem end_le_length (hf : Flow s r) (hs : s.HistoryOk) {S : Stream α} (hS : S ∈ s.history) :
    S.messages.end_ ≤ s.pushed.length :=
  hf.end_eq ▸ (hs.rel_of_mem hS).2.1

theorem signalsEnd_le_end (hf : Flow s r) (hs : s.HistoryOk) :
    r.stream.signalsEnd ≤ s.stream.messages.end_ := by
  have hlt := hf.delivered_lt
  calc r.stream.signalsEnd ≤ s.history[r.delivered].messages.end_ :=
        hf.signalsEnd_le _ (List.getElem?_eq_getElem hlt)
    _ ≤ s.stream.messages.end_ := (hs.rel_of_mem (List.getElem_mem hlt)).2.1

theorem begin_le_signalsEnd (hf : Flow s r) (hr : r.HistoryOk) :
    s.stream.messages.begin ≤ r.stream.signalsEnd := by
  have hlt := hf.discarded_lt
  rw [hf.begin_eq _ (List.getElem?_eq_getElem hlt)]
  exact (hr.rel_of_mem (List.getElem_mem hlt)).2.2

theorem rejectSignals_valid (hf : Flow s r) {R : Stream α} (hR : R ∈ r.history) :
    (R.rejectSignals ++ [R.signalsEnd]).Pairwise (· < ·) := by
  obtain ⟨t, -, heq⟩ := hf.rejectSignals_eq R hR
  rw [heq, List.pairwise_lt_append_singleton]
  refine ⟨hf.rejectLog_sorted.filter _, fun i hi => ?_⟩
  have := (List.mem_filter.mp hi).2
  simp only [decide_eq_true_eq] at this
  exact this.2

/-! ## The sender's steps -/

/-- **The sender's side of a step** keeps the invariant: the stream still holds the pushed
messages from a begin that is a receiver's `signals_end`. -/
theorem extend_sender (hf : Flow s r) (hs : s.HistoryOk) {s' : Subnet α} {extra : List α}
    (hpushed : s'.pushed = s.pushed ++ extra) (hhistory : s'.history = s.history ++ [s'.stream])
    (hqueue : s'.stream.messages.queue = s'.pushed.drop s'.stream.messages.begin)
    (hbegin_le : s'.stream.messages.begin ≤ s'.pushed.length)
    (hbegin : s.stream.messages.begin ≤ s'.stream.messages.begin)
    (hdiscarded_lt : s'.delivered < r.history.length)
    (hbegin_eq : ∀ R ∈ r.history[s'.delivered]?, s'.stream.messages.begin = R.signalsEnd)
    (hreturned : s'.returned = (r.rejectLog.filter fun i =>
      decide (i < s'.stream.messages.begin)).filterMap (s'.pushed[·]?)) :
    Flow s' r where
  queue_eq := hqueue
  begin_le := hbegin_le
  window S hS := by
    rw [hhistory] at hS
    rcases List.mem_append.mp hS with hS | hS
    · -- an old state ends within the messages pushed before
      rw [hpushed, List.take_append_of_le_length (hf.end_le_length hs hS)]
      exact hf.window S hS
    · rw [List.mem_singleton.mp hS]
      exact StreamIndexedQueue.eq_take_end_of_eq_drop hqueue hbegin_le
  delivered_lt := by
    rw [hhistory, List.length_append]
    exact Nat.lt_add_right _ hf.delivered_lt
  signalsEnd_le S hS := by
    rw [hhistory, List.getElem?_append_left hf.delivered_lt] at hS
    exact hf.signalsEnd_le S hS
  discarded_lt := hdiscarded_lt
  begin_eq := hbegin_eq
  inducted_eq := by
    rw [hpushed, List.take_append_of_le_length ((hf.signalsEnd_le_end hs).trans hf.end_eq.le)]
    exact hf.inducted_eq
  rejectLog_sorted := hf.rejectLog_sorted
  rejectLog_lt := hf.rejectLog_lt
  rejectSignals_eq R hR := by
    obtain ⟨t, ht, heq⟩ := hf.rejectSignals_eq R hR
    exact ⟨t, ht.trans hbegin, heq⟩
  returned_eq := hreturned

theorem push_sender (hf : Flow s r) (hs : s.HistoryOk) (msg : α) : Flow (s.push msg) r := by
  have hreturned : (s.push msg).returned = (r.rejectLog.filter fun i =>
      decide (i < s.stream.messages.begin)).filterMap ((s.pushed ++ [msg])[·]?) := by
    rw [List.filterMap_getElem?_append fun i hi => ?_]
    · exact hf.returned_eq
    · have := (List.mem_filter.mp hi).2
      simp only [decide_eq_true_eq] at this
      exact lt_of_lt_of_le this hf.begin_le
  refine hf.extend_sender hs rfl rfl ?_ ?_ le_rfl hf.discarded_lt hf.begin_eq hreturned
  · show s.stream.messages.queue ++ [msg] = (s.pushed ++ [msg]).drop s.stream.messages.begin
    rw [List.drop_append_of_le_length hf.begin_le, hf.queue_eq]
  · show s.stream.messages.begin ≤ (s.pushed ++ [msg]).length
    rw [List.length_append]
    exact hf.begin_le.trans (Nat.le_add_right _ _)

theorem handled_sender {p q : Subnet α} (hf : Flow p q) (hp : p.HistoryOk) (hq : q.HistoryOk)
    {j : ℕ} {R : Stream α} (hj : p.delivered ≤ j) (hR : q.history[j]? = some R)
    {stream' : Stream α} {extra rejected : List α} {inducted : List (α × ℕ)}
    (hbegin : stream'.messages.begin = R.signalsEnd)
    (hqueue : stream'.messages.queue =
      p.stream.messages.queue.drop (R.signalsEnd - p.stream.messages.begin) ++ extra)
    (hrejected : rejected = (R.rejectSignals.filter fun i =>
        decide (p.stream.messages.begin ≤ i ∧ i < R.signalsEnd)).filterMap
      fun i => p.stream.messages.queue[i - p.stream.messages.begin]?) :
    Flow (p.handled j stream' rejected inducted) q := by
  have hRmem : R ∈ q.history := List.mem_of_getElem? hR
  -- the slice's signals are past the begin and within the end of the stream
  have hb : p.stream.messages.begin ≤ R.signalsEnd := by
    have hlt := hf.discarded_lt
    rw [hf.begin_eq _ (List.getElem?_eq_getElem hlt)]
    exact (hq.rel_of_getElem? (List.getElem?_eq_getElem hlt) hR hj).2.2
  have he : R.signalsEnd ≤ p.pushed.length :=
    calc R.signalsEnd ≤ q.stream.signalsEnd := (hq.rel_of_mem hRmem).2.2
      _ ≤ p.stream.messages.end_ := hf.signalsEnd_le_end hp
      _ = p.pushed.length := hf.end_eq
  have hdrop : p.stream.messages.queue.drop (R.signalsEnd - p.stream.messages.begin) =
      p.pushed.drop R.signalsEnd := by
    rw [hf.queue_eq, List.drop_drop, Nat.add_sub_cancel' hb]
  have hpushed : (p.handled j stream' rejected inducted).pushed = p.pushed ++ extra := by
    show p.pushed ++ stream'.messages.queue.drop (p.pushed.length - stream'.messages.begin) = _
    rw [hbegin, hqueue, hdrop, List.drop_left' List.length_drop]
  -- the messages returned are the pushed ones at the reject signals between the two begins
  have hreturned : p.returned ++ rejected = (q.rejectLog.filter fun i =>
      decide (i < R.signalsEnd)).filterMap ((p.pushed ++ extra)[·]?) := by
    obtain ⟨t, ht, hsignals⟩ := hf.rejectSignals_eq R hRmem
    have hfilter : (R.rejectSignals.filter fun i =>
          decide (p.stream.messages.begin ≤ i ∧ i < R.signalsEnd)) =
        q.rejectLog.filter fun i => decide (p.stream.messages.begin ≤ i ∧ i < R.signalsEnd) := by
      rw [hsignals, List.filter_filter]
      refine List.filter_congr fun i _ => ?_
      rw [← Bool.decide_and, decide_eq_decide]
      omega
    have hread : ∀ i ∈ q.rejectLog.filter (fun i =>
          decide (p.stream.messages.begin ≤ i ∧ i < R.signalsEnd)),
        p.stream.messages.queue[i - p.stream.messages.begin]? = p.pushed[i]? := by
      intro i hi
      have := (List.mem_filter.mp hi).2
      simp only [decide_eq_true_eq] at this
      rw [hf.queue_eq, List.getElem?_drop, Nat.add_sub_cancel' this.1]
    rw [hrejected, hfilter, List.filterMap_congr hread, hf.returned_eq, ← List.filterMap_append,
      List.Pairwise.filter_lt_append hf.rejectLog_sorted hb, List.filterMap_getElem?_append]
    intro i hi
    have := (List.mem_filter.mp hi).2
    simp only [decide_eq_true_eq] at this
    exact lt_of_lt_of_le this he
  refine hf.extend_sender hp hpushed rfl ?_ ?_ ?_ (List.getElem?_eq_some_iff.mp hR).1 ?_ ?_
  · show stream'.messages.queue = (p.handled j stream' rejected inducted).pushed.drop
      stream'.messages.begin
    rw [hpushed, hbegin, List.drop_append_of_le_length he, hqueue, hdrop]
  · show stream'.messages.begin ≤ (p.handled j stream' rejected inducted).pushed.length
    rw [hpushed, hbegin, List.length_append]
    exact he.trans (Nat.le_add_right _ _)
  · show _ ≤ stream'.messages.begin
    rw [hbegin]
    exact hb
  · intro R' hR'
    show stream'.messages.begin = _
    rw [hbegin, Option.some.inj (hR.symm.trans hR')]
  · show p.returned ++ rejected = (q.rejectLog.filter fun i =>
      decide (i < stream'.messages.begin)).filterMap
        ((p.handled j stream' rejected inducted).pushed[·]?)
    rw [hreturned, hpushed, hbegin]

/-! ## The receiver's steps -/

theorem push_receiver (hf : Flow s r) (hr : r.HistoryOk) (msg : α) : Flow s (r.push msg) where
  queue_eq := hf.queue_eq
  begin_le := hf.begin_le
  window := hf.window
  delivered_lt := hf.delivered_lt
  signalsEnd_le := hf.signalsEnd_le
  discarded_lt := by
    show s.delivered < (r.history ++ [_]).length
    rw [List.length_append]
    exact Nat.lt_add_right _ hf.discarded_lt
  begin_eq R hR := by
    rw [show (r.push msg).history = r.history ++ [r.stream.push msg] from rfl,
      List.getElem?_append_left hf.discarded_lt] at hR
    exact hf.begin_eq R hR
  inducted_eq := hf.inducted_eq
  rejectLog_sorted := hf.rejectLog_sorted
  rejectLog_lt := hf.rejectLog_lt
  rejectSignals_eq R hR := by
    rcases List.mem_append.mp hR with hR | hR
    · exact hf.rejectSignals_eq R hR
    · -- the new state has the signals of the current one
      rw [List.mem_singleton.mp hR]
      exact hf.rejectSignals_eq r.stream hr.mem_cur
  returned_eq := hf.returned_eq

theorem take_add_of_slice {P : List α} {S : StreamIndexedQueue α} {c k : ℕ} {msgs : List α}
    (hS : S.queue = (P.take S.end_).drop S.begin) (h₁ : S.begin ≤ c) (h₂ : c ≤ S.end_)
    (hmsgs : msgs = (S.queue.drop (c - S.begin)).take k) :
    P.take (c + msgs.length) = P.take c ++ msgs ∧ c + msgs.length ≤ S.end_ := by
  have hX : S.queue.drop (c - S.begin) = (P.take S.end_).drop c := by
    rw [hS, List.drop_drop, Nat.add_sub_cancel' h₁]
  have hpre : msgs = ((P.take S.end_).drop c).take msgs.length :=
    List.prefix_iff_eq_take.mp (hmsgs ▸ hX ▸ List.take_prefix k _)
  have hlen : c + msgs.length ≤ S.end_ := by
    rw [hmsgs, hX, List.length_take, List.length_drop, List.length_take]
    omega
  refine ⟨?_, hlen⟩
  calc P.take (c + msgs.length) = (P.take S.end_).take (c + msgs.length) := by
        rw [List.take_take, Nat.min_eq_left hlen]
    _ = (P.take S.end_).take c ++ ((P.take S.end_).drop c).take msgs.length := List.take_add
    _ = P.take c ++ msgs := by rw [List.take_take, Nat.min_eq_left h₂, ← hpre]

/-- **The receiver's side of a delivery**: `p` inducted the slice of `q`'s stream from its
`signals_end` on, in order, and moved its `signals_end` and reject signals with it. -/
theorem handled_receiver {p q : Subnet α} (hf : Flow q p) (hp : p.HistoryOk) (hq : q.HistoryOk)
    {j : ℕ} {R : Stream α} (hj : p.delivered ≤ j) (hR : q.history[j]? = some R)
    {stream' : Stream α} {msgs : List α} {k : ℕ} {newSignals : List ℕ} {rejected : List α}
    {inducted : List (α × ℕ)}
    (hmsgs : msgs =
      (R.messages.queue.drop (p.stream.signalsEnd - R.messages.begin)).take k)
    (hsignalsEnd : stream'.signalsEnd = p.stream.signalsEnd + msgs.length)
    (hrejectSignals : stream'.rejectSignals = p.stream.rejectSignals.dropWhile
      (fun i => decide (i < R.messages.begin)) ++ newSignals)
    (hnew : newSignals.Sublist (List.range' p.stream.signalsEnd msgs.length))
    (hinducted : inducted = msgs.zipIdx p.stream.signalsEnd) :
    Flow q (p.handled j stream' rejected inducted) := by
  have hRmem : R ∈ q.history := List.mem_of_getElem? hR
  have hRbegin : R.messages.begin ≤ q.stream.messages.begin := (hq.rel_of_mem hRmem).1
  have hqc : q.stream.messages.begin ≤ p.stream.signalsEnd := hf.begin_le_signalsEnd hp
  -- the slice starts within the state it is taken from
  have hc : p.stream.signalsEnd ≤ R.messages.end_ := by
    have hlt := hf.delivered_lt
    exact (hf.signalsEnd_le _ (List.getElem?_eq_getElem hlt)).trans
      (hq.rel_of_getElem? (List.getElem?_eq_getElem hlt) hR hj).2.1
  have hslice := take_add_of_slice (hf.window R hRmem) (hRbegin.trans hqc) hc hmsgs
  have hnew_mem : ∀ i ∈ newSignals,
      p.stream.signalsEnd ≤ i ∧ i < p.stream.signalsEnd + msgs.length := fun i hi =>
    List.mem_range'_1.mp (hnew.subset hi)
  have hvalid := List.pairwise_lt_append_singleton.mp (hf.rejectSignals_valid hp.mem_cur)
  -- the reject signals produced are the new ones
  have hlog : (p.handled j stream' rejected inducted).rejectLog = p.rejectLog ++ newSignals := by
    show p.rejectLog ++ stream'.rejectSignals.filter _ = _
    rw [hrejectSignals, List.filter_append, List.filter_eq_self.mpr fun i hi =>
        decide_eq_true (hnew_mem i hi).1,
      List.filter_eq_nil_iff.mpr fun i hi => by
        simpa using hvalid.2 i ((List.dropWhile_sublist _).subset hi),
      List.nil_append]
  have hhistory : (p.handled j stream' rejected inducted).history = p.history ++ [stream'] := rfl
  refine
    { queue_eq := hf.queue_eq
      begin_le := hf.begin_le
      window := hf.window
      delivered_lt := (List.getElem?_eq_some_iff.mp hR).1
      signalsEnd_le := fun S hS => ?_
      discarded_lt := ?_
      begin_eq := fun P hP => ?_
      inducted_eq := ?_
      rejectLog_sorted := ?_
      rejectLog_lt := ?_
      rejectSignals_eq := fun P hP => ?_
      returned_eq := ?_ }
  · show stream'.signalsEnd ≤ _
    rw [← Option.some.inj (hR.symm.trans hS), hsignalsEnd]
    exact hslice.2
  · rw [hhistory, List.length_append]
    exact Nat.lt_add_right _ hf.discarded_lt
  · rw [hhistory, List.getElem?_append_left hf.discarded_lt] at hP
    exact hf.begin_eq P hP
  · -- the calls made are the pushed messages from the old `signals_end` on, with their indices
    show p.inducted ++ inducted = (q.pushed.take stream'.signalsEnd).zipIdx
    have hlen : (q.pushed.take p.stream.signalsEnd).length = p.stream.signalsEnd :=
      List.length_take_of_le ((hf.signalsEnd_le_end hq).trans hf.end_eq.le)
    rw [hsignalsEnd, hslice.1, List.zipIdx_append, hlen, Nat.zero_add, hf.inducted_eq,
      hinducted]
  · rw [hlog]
    refine List.pairwise_append.mpr ⟨hf.rejectLog_sorted, (List.pairwise_lt_range' 1).sublist hnew,
      fun a ha b hb => ?_⟩
    exact lt_of_lt_of_le (hf.rejectLog_lt a ha) (hnew_mem b hb).1
  · intro i hi
    show i < stream'.signalsEnd
    rw [hsignalsEnd]
    rw [hlog] at hi
    rcases List.mem_append.mp hi with hi | hi
    · exact Nat.lt_add_right _ (hf.rejectLog_lt i hi)
    · exact (hnew_mem i hi).2
  · rw [hhistory] at hP
    rw [hlog]
    rcases List.mem_append.mp hP with hP | hP
    · -- an old state: the new signals are past its `signals_end`
      obtain ⟨t, ht, heq⟩ := hf.rejectSignals_eq P hP
      have hPc : P.signalsEnd ≤ p.stream.signalsEnd := (hp.rel_of_mem hP).2.2
      have hnone : (newSignals.filter fun i => decide (t ≤ i ∧ i < P.signalsEnd)) = [] := by
        refine List.filter_eq_nil_iff.mpr fun i hi => ?_
        have := (hnew_mem i hi).1
        simp only [decide_eq_true_eq]
        omega
      exact ⟨t, ht, by rw [heq, List.filter_append, hnone, List.append_nil]⟩
    · -- the new state: the old signals from the slice's begin on, then the new ones
      rw [List.mem_singleton.mp hP]
      obtain ⟨t, ht, heq⟩ := hf.rejectSignals_eq p.stream hp.mem_cur
      refine ⟨max t R.messages.begin, max_le ht hRbegin, ?_⟩
      have hold : (p.stream.rejectSignals.dropWhile fun i => decide (i < R.messages.begin)) =
          p.rejectLog.filter fun i =>
            decide (max t R.messages.begin ≤ i ∧ i < stream'.signalsEnd) := by
        rw [hvalid.1.dropWhile_lt, heq, List.filter_filter]
        refine List.filter_congr fun i hi => ?_
        have := hf.rejectLog_lt i hi
        rw [← Bool.decide_and, decide_eq_decide, hsignalsEnd]
        omega
      have hnewSignals : (newSignals.filter fun i =>
          decide (max t R.messages.begin ≤ i ∧ i < stream'.signalsEnd)) = newSignals := by
        refine List.filter_eq_self.mpr fun i hi => ?_
        have := hnew_mem i hi
        rw [hsignalsEnd, decide_eq_true_eq]
        omega
      rw [hrejectSignals, List.filter_append, hold, hnewSignals]
  · -- the new signals are past the sender's begin
    have hnone : (newSignals.filter fun i => decide (i < q.stream.messages.begin)) = [] := by
      refine List.filter_eq_nil_iff.mpr fun i hi => ?_
      have := (hnew_mem i hi).1
      simp only [decide_eq_true_eq]
      omega
    rw [hlog, List.filter_append, hnone, List.append_nil]
    exact hf.returned_eq

/-- **The slice a step takes fits**: from the receiver's `signals_end`, its signals are valid within
the receiver's messages and its messages enclose that `signals_end`. -/
theorem slice_fits {p q : Subnet α} (hpq : Flow p q) (hqp : Flow q p) (hp : p.HistoryOk)
    (hq : q.HistoryOk) {j : ℕ} {R : Stream α} (hj : p.delivered ≤ j)
    (hR : q.history[j]? = some R) :
    (R.rejectSignals ++ [R.signalsEnd]).Pairwise (· < ·) ∧
      p.stream.messages.begin ≤ R.signalsEnd ∧ R.signalsEnd ≤ p.stream.messages.end_ ∧
      (p.stream.rejectSignals ++ [p.stream.signalsEnd]).Pairwise (· < ·) ∧
      R.messages.begin ≤ p.stream.signalsEnd ∧ p.stream.signalsEnd ≤ R.messages.end_ := by
  have hRmem : R ∈ q.history := List.mem_of_getElem? hR
  have hRq := hq.rel_of_mem hRmem
  have hlt₁ := hpq.discarded_lt
  have hlt₂ := hqp.delivered_lt
  refine ⟨hpq.rejectSignals_valid hRmem, ?_, ?_, hqp.rejectSignals_valid hp.mem_cur, ?_, ?_⟩
  · rw [hpq.begin_eq _ (List.getElem?_eq_getElem hlt₁)]
    exact (hq.rel_of_getElem? (List.getElem?_eq_getElem hlt₁) hR hj).2.2
  · exact hRq.2.2.trans (hpq.signalsEnd_le_end hp)
  · exact hRq.1.trans (hqp.begin_le_signalsEnd hp)
  · exact (hqp.signalsEnd_le _ (List.getElem?_eq_getElem hlt₂)).trans
      (hq.rel_of_getElem? (List.getElem?_eq_getElem hlt₂) hR hj).2.1

end Flow

/-! ## Both subnets -/

/-- Every subnet's history is that of its stream, and each stream keeps its invariant. -/
structure World.Valid (w : World α) : Prop where
  history : ∀ x, (w x).HistoryOk
  flow : ∀ x, Flow (w x) (w x.other)

theorem Side.eq_or_eq_other (x y : Side) : y = x ∨ y = x.other := by
  cases x <;> cases y <;> simp [Side.other]

theorem World.Valid.initial : (World.initial : World α).Valid where
  history _ := IsHistory.singleton _
  flow _ :=
    { queue_eq := rfl
      begin_le := le_rfl
      window := fun S hS => by rw [List.mem_singleton.mp hS]; rfl
      delivered_lt := Nat.one_pos
      signalsEnd_le := fun _ _ => Nat.zero_le _
      discarded_lt := Nat.one_pos
      begin_eq := fun R hR => by rw [Option.some.inj hR.symm]; rfl
      inducted_eq := rfl
      rejectLog_sorted := List.Pairwise.nil
      rejectLog_lt := fun _ h => absurd h List.not_mem_nil
      rejectSignals_eq := fun R hR => ⟨0, le_rfl, by rw [List.mem_singleton.mp hR]; rfl⟩
      returned_eq := rfl }

/-- One step changes one subnet, the sender of its stream and the receiver of the other's. -/
theorem World.Valid.update {w : World α} (hw : w.Valid) (x : Side) (p : Subnet α)
    (hhistory : p.HistoryOk) (hsender : Flow p (w x.other)) (hreceiver : Flow (w x.other) p) :
    World.Valid (Function.update w x p) where
  history y := by
    rcases Side.eq_or_eq_other x y with h | h
    · rw [h, Function.update_self]
      exact hhistory
    · rw [h, Function.update_of_ne (Side.other_ne x)]
      exact hw.history _
  flow y := by
    rcases Side.eq_or_eq_other x y with h | h
    · rw [h, Function.update_self, Function.update_of_ne (Side.other_ne x)]
      exact hsender
    · rw [h, Function.update_of_ne (Side.other_ne x), Side.other_other, Function.update_self]
      exact hreceiver

theorem World.Valid.deliver {w : World α} (hw : w.Valid) {x : Side} {j : ℕ} {remote : Stream α}
    {count : Option ℕ} {route : α → Bool} {outcome : ℕ → α → InductionOutcome α} {p : Subnet α}
    (hj : (w x).delivered ≤ j) (hremote : (w x.other).history[j]? = some remote)
    (h : (w x).deliver x.other j remote count route outcome = .ok p) :
    World.Valid (Function.update w x p) := by
  have hpq := hw.flow x
  have hqp : Flow (w x.other) (w x) := by simpa using hw.flow x.other
  obtain ⟨hheader, h₁, h₂, hvalid, h₃, h₄⟩ :=
    hpq.slice_fits hqp (hw.history x) (hw.history x.other) hj hremote
  rw [Subnet.deliver_eq_ok _ _ _ count route outcome hheader h₁ h₂ hvalid h₃ h₄] at h
  cases h
  refine hw.update x _ ?_ ?_ ?_
  · -- the stream's indices only grow
    refine (hw.history x).snoc ⟨h₁, ?_, Nat.le_add_right _ _⟩
    unfold StreamIndexedQueue.end_
    simp only [List.length_append, List.length_drop]
    unfold StreamIndexedQueue.end_ at h₂
    omega
  · exact hpq.handled_sender (hw.history x) (hw.history x.other) hj hremote rfl
      (List.append_assoc _ _ _) rfl
  · exact hqp.handled_receiver (hw.history x) (hw.history x.other) hj hremote rfl rfl rfl
      (inductedSignals_sublist _ _ _) rfl

/-- **Step lemma.** Every step keeps the invariant. -/
theorem World.Valid.step {w w' : World α} (hw : w.Valid) (h : Step w w') : w'.Valid := by
  cases h with
  | push x msg =>
    have hqp : Flow (w x.other) (w x) := by simpa using hw.flow x.other
    exact hw.update x _ ((hw.history x).snoc (Stream.le_push _ msg))
      ((hw.flow x).push_sender (hw.history x) msg) (hqp.push_receiver (hw.history x) msg)
  | deliver x j remote count route outcome p hj hremote h => exact hw.deliver hj hremote h

/-- **Run lemma.** Every reachable world keeps the invariant. -/
theorem Reachable.valid {w : World α} (hw : Reachable w) : w.Valid := by
  induction hw with
  | initial => exact World.Valid.initial
  | step _ hstep ih => exact ih.step hstep

/-- What the streams guarantee in a world: no slice panics the handler, each message is inducted
once and in order, and garbage collection returns the rejected ones once each. -/
def World.DeliversExactlyOnce (w : World α) : Prop :=
  (∀ x j remote count route outcome, (w x).delivered ≤ j →
      (w x.other).history[j]? = some remote →
      ∃ p, (w x).deliver x.other j remote count route outcome = .ok p) ∧
    ∀ x, (w x).stream.messages.queue = (w x).pushed.drop (w x).stream.messages.begin ∧
      (w x).stream.messages.end_ = (w x).pushed.length ∧
      (w x.other).stream.signalsEnd ≤ (w x).stream.messages.end_ ∧
      (w x.other).inducted = ((w x).pushed.take (w x.other).stream.signalsEnd).zipIdx ∧
      (w x).stream.messages.begin ≤ (w x.other).stream.signalsEnd ∧
      (w x.other).rejectLog.Pairwise (· < ·) ∧
      (w x).returned = ((w x.other).rejectLog.filter fun i =>
        decide (i < (w x).stream.messages.begin)).filterMap ((w x).pushed[·]?)

/-- **Exactly-once, in-order delivery** over every interleaving of pushes and stale slices. -/
theorem reachable_deliversExactlyOnce {w : World α} (hw : Reachable w) :
    w.DeliversExactlyOnce := by
  have hv := hw.valid
  refine ⟨fun x j remote count route outcome hj hremote => ?_, fun x => ?_⟩
  · have hqp : Flow (w x.other) (w x) := by simpa using hv.flow x.other
    obtain ⟨hheader, h₁, h₂, hvalid, h₃, h₄⟩ :=
      (hv.flow x).slice_fits hqp (hv.history x) (hv.history x.other) hj hremote
    exact ⟨_, Subnet.deliver_eq_ok _ _ _ count route outcome hheader h₁ h₂ hvalid h₃ h₄⟩
  · have hf := hv.flow x
    exact ⟨hf.queue_eq, hf.end_eq, hf.signalsEnd_le_end (hv.history x), hf.inducted_eq,
      hf.begin_le_signalsEnd (hv.history x.other), hf.rejectLog_sorted, hf.returned_eq⟩

/-- Subnet `a` pushes 1 and 2, and `b` takes a slice of the stream that holds both and accepts
them: the world is reachable, and `b` has inducted 1 and 2 at indices 0 and 1. -/
theorem reachable_deliversExactlyOnce_two_messages :
    ∃ w : World ℕ, Reachable w ∧ w.DeliversExactlyOnce ∧ (w .a).pushed = [1, 2] ∧
      (w .b).inducted = [(1, 0), (2, 1)] := by
  have h₁ := Reachable.step .initial (.push _ .a 1)
  have h₂ := Reachable.step h₁ (.push _ .a 2)
  have h₃ := Reachable.step h₂ (.deliver _ .b 2 _ none (fun _ => true) (fun _ _ => .accepted) _
    (Nat.zero_le _) rfl rfl)
  have hd := reachable_deliversExactlyOnce h₃
  exact ⟨_, h₃, hd, rfl, (hd.2 .a).2.2.2.1.trans rfl⟩

end IC.XNet
