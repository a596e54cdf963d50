import InternetComputer.CanisterQueues.CanisterQueues
import InternetComputer.Lib.RoundRobin
import InternetComputer.Lib.Lists

/-!
# The output iterator serves the output queues round robin

`output_into_iter` lends the output queues of a canister to an iterator that pops the first
message of the queue in front and moves that queue to the back while it has messages left;
`exclude_queue` drops the queue in front. Seen through `roundRobin`, the iterator is a round
robin of queues (`RoundRobin`), and a sequence of calls does to it what `IteratorOp.serve` does.

* `Ok`: distinct receivers, each with messages left, with one lemma per call;
* `Tracks`: each borrowed queue is past the messages popped from it, and those were its first;
* **`outputIterator_serves_round_robin`**: every sequence of calls on `output_into_iter`.
-/

namespace IC.Queues

open IC.State (CanisterId)

/-! ## Output queues under their indices -/

namespace OutputQueue

/-- The messages of an output queue, each under the index its pop gives it: `ind` and on. -/
def indexed (q : OutputQueue) : List (ℕ × RequestOrResponse) :=
  (q.queue.queue.zipIdx q.ind).map Prod.swap

/-- The output queue once its first `n` messages are popped. -/
def dropMessages (q : OutputQueue) (n : ℕ) : OutputQueue :=
  ⟨{ q.queue with queue := q.queue.queue.drop n }, q.ind + n⟩

variable (q : OutputQueue) {msg : RequestOrResponse} {rest : List RequestOrResponse}

theorem length_indexed : q.indexed.length = q.numMessages := by
  simp [indexed, numMessages, QueueWithReservation.numMessages]

theorem indexed_dropMessages (n : ℕ) : (q.dropMessages n).indexed = q.indexed.drop n := by
  rw [indexed, indexed, ← List.map_drop, List.drop_zipIdx]
  rfl

@[simp]
theorem dropMessages_zero : q.dropMessages 0 = q := rfl

theorem dropMessages_dropMessages (a b : ℕ) :
    (q.dropMessages a).dropMessages b = q.dropMessages (a + b) := by
  simp only [dropMessages, List.drop_drop, Nat.add_assoc]

theorem pop_of_cons (h : q.queue.queue = msg :: rest) :
    q.pop = some ((q.ind, msg), q.dropMessages 1) := by
  simp [pop, QueueWithReservation.pop, h, dropMessages]

theorem peek_of_cons (h : q.queue.queue = msg :: rest) : q.peek = some (q.ind, msg) := by
  simp [peek, QueueWithReservation.peek, h]

theorem indexed_of_cons (h : q.queue.queue = msg :: rest) :
    q.indexed = (q.ind, msg) :: (q.dropMessages 1).indexed := by
  rw [indexed_dropMessages]
  simp [indexed, h]

theorem indexed_dropMessages_one_eq_nil (h : q.queue.queue = msg :: rest) :
    (q.dropMessages 1).indexed = [] ↔ rest = [] := by
  rw [← List.length_eq_zero_iff, length_indexed]
  simp [numMessages, QueueWithReservation.numMessages, dropMessages, h]

end OutputQueue

/-! ## The calls on a round robin -/

namespace IteratorOp

variable {κ α : Type}

/-- What a sequence of calls does to a round robin of queues: `pop` serves an item, and
`excludeQueue` drops the queue in front with the items it holds. The items served, and the
round robin left. -/
def serve : List IteratorOp → List (κ × List α) → List (κ × α) × List (κ × List α)
  | [], rr => ([], rr)
  | .pop :: ops, rr =>
    match RoundRobin.pop rr with
    | none => serve ops rr
    | some (x, rr') =>
      let r := serve ops rr'
      (x :: r.1, r.2)
  | .excludeQueue :: ops, rr => serve ops rr.tail

theorem serve_replicate_pop_of_pop_none {rr : List (κ × List α)} (h : RoundRobin.pop rr = none) :
    ∀ n, serve (List.replicate n .pop) rr = ([], rr)
  | 0 => rfl
  | n + 1 => by
    rw [List.replicate_succ, serve, h]
    exact serve_replicate_pop_of_pop_none h n

theorem serve_replicate_pop :
    ∀ (n : ℕ) (rr : List (κ × List α)), (serve (List.replicate n .pop) rr).1 = RoundRobin.drain n rr
  | 0, _ => rfl
  | n + 1, rr => by
    rw [List.replicate_succ, serve, RoundRobin.drain]
    cases hpop : RoundRobin.pop rr with
    | none => simp [serve_replicate_pop_of_pop_none hpop n]
    | some p => simp [serve_replicate_pop n p.2]

theorem length_serve_add_size_le :
    ∀ (ops : List IteratorOp) {rr : List (κ × List α)}, RoundRobin.Nonempty rr →
      (serve ops rr).1.length + RoundRobin.size (serve ops rr).2 ≤ RoundRobin.size rr
  | [], _, _ => by simp [serve]
  | .pop :: ops, rr, h => by
    rw [serve]
    cases hpop : RoundRobin.pop rr with
    | none => exact length_serve_add_size_le ops h
    | some p =>
      obtain ⟨h', hsize⟩ := h.pop hpop
      have ih := length_serve_add_size_le ops h'
      simp only [List.length_cons]
      omega
  | .excludeQueue :: ops, [], h => length_serve_add_size_le ops h
  | .excludeQueue :: ops, e :: rr, h => by
    have ih := length_serve_add_size_le ops h.of_cons
    rw [serve, List.tail_cons, RoundRobin.size_cons]
    exact ih.trans (Nat.le_add_left _ _)

end IteratorOp

/-! ## The iterator as a round robin -/

namespace CanisterOutputQueuesIterator

/-- The messages the iterator holds for a receiver, under their indices. -/
def pending (canisterQueues : QueueMap) (receiver : CanisterId) : List (ℕ × RequestOrResponse) :=
  ((outputQueue canisterQueues receiver).map OutputQueue.indexed).getD []

/-- The iterator as a round robin of its receivers with their queues' messages. -/
def roundRobin (it : CanisterOutputQueuesIterator) :
    List (CanisterId × List (ℕ × RequestOrResponse)) :=
  it.queues.map fun c => (c, pending it.canisterQueues c)

/-- What every iterator of `output_into_iter` keeps: its receivers are distinct, each has
messages left, and `size` counts them, as the `debug_assert` of `pop` and `exclude_queue` says. -/
structure Ok (it : CanisterOutputQueuesIterator) : Prop where
  nodup : it.queues.Nodup
  nonempty : ∀ c ∈ it.queues, pending it.canisterQueues c ≠ []
  size : it.size = computeSize it.canisterQueues it.queues

section Pending

variable {Q : QueueMap} {c : CanisterId} {iq : InputQueue} {oq : OutputQueue}

theorem pending_of_get? (h : Q.get? c = some (iq, oq)) : pending Q c = oq.indexed := by
  simp [pending, outputQueue, h]

theorem pending_insert (Q : QueueMap) (receiver : CanisterId) (qs : InputQueue × OutputQueue) :
    pending (Q.insert receiver qs) c = if c = receiver then qs.2.indexed else pending Q c := by
  by_cases hc : c = receiver <;> simp [pending, outputQueue, SortedMap.get?_insert, hc]

theorem length_pending (Q : QueueMap) (c : CanisterId) :
    (pending Q c).length = ((outputQueue Q c).map OutputQueue.numMessages).getD 0 := by
  unfold pending
  cases outputQueue Q c <;> simp [OutputQueue.length_indexed]

theorem computeSize_eq_size (Q : QueueMap) (l : List CanisterId) :
    computeSize Q l = RoundRobin.size (l.map fun c => (c, pending Q c)) := by
  simp [computeSize, RoundRobin.size, Function.comp_def, length_pending]

theorem map_pending_insert_of_not_mem {l : List CanisterId} {receiver : CanisterId}
    (qs : InputQueue × OutputQueue) (h : receiver ∉ l) :
    (l.map fun c => (c, pending (Q.insert receiver qs) c)) = l.map fun c => (c, pending Q c) := by
  refine List.map_congr_left fun c hc => ?_
  rw [pending_insert, if_neg (ne_of_mem_of_not_mem hc h)]

theorem exists_of_pending_ne_nil (h : pending Q c ≠ []) :
    ∃ iq oq msg rest, Q.get? c = some (iq, oq) ∧ oq.queue.queue = msg :: rest := by
  unfold pending outputQueue at h
  cases hget : Q.get? c with
  | none => simp [hget] at h
  | some qs =>
    obtain ⟨iq, oq⟩ := qs
    cases hq : oq.queue.queue with
    | nil => simp [hget, OutputQueue.indexed, hq] at h
    | cons msg rest => exact ⟨iq, oq, msg, rest, rfl, hq⟩

end Pending

variable (L : Layout) (it : CanisterOutputQueuesIterator)

theorem roundRobin_eq_nil_iff : it.roundRobin = [] ↔ it.queues = [] := by
  simp [roundRobin]

theorem nonempty_roundRobin_iff :
    RoundRobin.Nonempty it.roundRobin ↔ ∀ c ∈ it.queues, pending it.canisterQueues c ≠ [] := by
  simp [RoundRobin.Nonempty, roundRobin]

theorem Ok.size_eq {it : CanisterOutputQueuesIterator} (h : it.Ok) :
    it.size = RoundRobin.size it.roundRobin :=
  h.size.trans (computeSize_eq_size _ _)

theorem roundRobin_new (owner : CanisterId) (Q : QueueMap) (memoryStats : MemoryUsageStats)
    (queueStats : OutputQueuesStats) :
    (new owner Q memoryStats queueStats).roundRobin =
      (Q.entries.filter fun e => e.2.2.numMessages > 0).map fun e => (e.1, e.2.2.indexed) := by
  simp only [roundRobin, new, List.map_map]
  refine List.map_congr_left fun e he => ?_
  have hget : Q.get? e.1 = some e.2 := (SortedMap.get?_eq_some_iff Q).mpr (List.mem_of_mem_filter he)
  simp [pending_of_get? hget]

theorem new_ok (owner : CanisterId) (Q : QueueMap) (memoryStats : MemoryUsageStats)
    (queueStats : OutputQueuesStats) : (new owner Q memoryStats queueStats).Ok := by
  refine ⟨(List.filter_sublist.map Prod.fst).nodup Q.nodup_keys, ?_, rfl⟩
  rw [← nonempty_roundRobin_iff, roundRobin_new]
  intro e he
  obtain ⟨e, hmem, rfl⟩ := List.mem_map.mp he
  have hpos := of_decide_eq_true (List.mem_filter.mp hmem).2
  rw [← List.length_pos_iff, OutputQueue.length_indexed]
  exact hpos

/-! ## What a run leaves of the queues -/

/-- Each output queue of `Q` is past the messages popped from it, which were its first. -/
structure Tracks (Q₀ : QueueMap) (served : List (CanisterId × ℕ × RequestOrResponse))
    (Q : QueueMap) : Prop where
  queues : ∀ c, Q.get? c = (Q₀.get? c).map fun qs =>
    (qs.1, qs.2.dropMessages (RoundRobin.ofKey c served).length)
  first : ∀ c, RoundRobin.ofKey c served = (pending Q₀ c).take (RoundRobin.ofKey c served).length

theorem Tracks.refl (Q : QueueMap) : Tracks Q [] Q :=
  ⟨fun c => by cases Q.get? c <;> rfl, fun _ => rfl⟩

theorem Tracks.pop {Q₀ Q : QueueMap} {served : List (CanisterId × ℕ × RequestOrResponse)}
    (ht : Tracks Q₀ served Q) {receiver : CanisterId} {iq : InputQueue} {oq : OutputQueue}
    {msg : RequestOrResponse} {ms : List RequestOrResponse}
    (hget : Q.get? receiver = some (iq, oq)) (hm : oq.queue.queue = msg :: ms) :
    Tracks Q₀ (served ++ [(receiver, oq.ind, msg)]) (Q.insert receiver (iq, oq.dropMessages 1)) := by
  obtain ⟨⟨iq₀, oq₀⟩, hget₀, hqs⟩ := Option.map_eq_some_iff.mp ((ht.queues receiver).symm.trans hget)
  obtain ⟨rfl, hoq⟩ := Prod.mk.inj hqs
  have hofKey : ∀ c, RoundRobin.ofKey c (served ++ [(receiver, oq.ind, msg)]) =
      RoundRobin.ofKey c served ++ if receiver = c then [(oq.ind, msg)] else [] := fun c => by
    rw [RoundRobin.ofKey_append, RoundRobin.ofKey_singleton]
  constructor
  · intro c
    rw [SortedMap.get?_insert, hofKey]
    by_cases hc : c = receiver
    · subst hc
      simp [hget₀, ← hoq, OutputQueue.dropMessages_dropMessages]
    · simp [hc, Ne.symm hc, ht.queues c]
  · intro c
    rw [hofKey]
    by_cases hc : receiver = c
    · subst hc
      have hdrop : (pending Q₀ receiver).drop (RoundRobin.ofKey receiver served).length =
          (oq.ind, msg) :: (oq.dropMessages 1).indexed := by
        rw [pending_of_get? hget₀, ← OutputQueue.indexed_dropMessages, hoq, oq.indexed_of_cons hm]
      rw [if_pos rfl, List.length_append, List.length_singleton, List.take_add, hdrop,
        ← ht.first receiver]
      rfl
    · rw [if_neg hc, List.append_nil]
      exact ht.first c

/-! ## One lemma per call -/

theorem pop_of_nil (hq : it.queues = []) : it.pop L = .ok (none, it) := by
  unfold pop
  rw [hq]
  rfl

theorem pop_of_get? {receiver : CanisterId} {rest : List CanisterId} {iq : InputQueue}
    {oq : OutputQueue} {msg : RequestOrResponse} {ms : List RequestOrResponse}
    (hq : it.queues = receiver :: rest) (hget : it.canisterQueues.get? receiver = some (iq, oq))
    (hm : oq.queue.queue = msg :: ms) :
    ∃ it', it.pop L = .ok (some (⟨it.owner, receiver⟩, oq.ind, msg), it') ∧ it'.owner = it.owner ∧
      it'.queues = (if ms = [] then rest else rest ++ [receiver]) ∧
      it'.canisterQueues = it.canisterQueues.insert receiver (iq, oq.dropMessages 1) ∧
      it'.size = it.size - 1 := by
  have hqueues : (if (oq.dropMessages 1).numMessages > 0 then rest ++ [receiver] else rest) =
      if ms = [] then rest else rest ++ [receiver] := by
    by_cases hms : ms = [] <;>
      simp [hms, OutputQueue.numMessages, QueueWithReservation.numMessages,
        OutputQueue.dropMessages, hm, List.length_pos_iff]
  unfold pop
  rw [hq]
  simp only [hget, Option.bind_some, oq.pop_of_cons hm, Option.map_some, Rust.expect]
  exact ⟨_, rfl, rfl, hqueues, rfl, rfl⟩

theorem Ok.roundRobin_nonempty {it : CanisterOutputQueuesIterator} (h : it.Ok) :
    RoundRobin.Nonempty it.roundRobin :=
  (nonempty_roundRobin_iff it).mpr h.nonempty

/-- **A pop serves the round robin**: from an iterator that keeps `Ok`, it gives the first message
of the queue in front, leaves the round robin `RoundRobin.pop` leaves, and keeps `Ok`. -/
theorem Ok.pop_some {it : CanisterOutputQueuesIterator} (h : it.Ok) {receiver : CanisterId}
    {rest : List CanisterId} (hq : it.queues = receiver :: rest) :
    ∃ x it', RoundRobin.pop it.roundRobin = some (x, it'.roundRobin) ∧
      it.pop L = .ok (some (⟨it.owner, x.1⟩, x.2), it') ∧ it'.Ok ∧ it'.owner = it.owner ∧
      ∀ {Q₀ : QueueMap} {served : List (CanisterId × ℕ × RequestOrResponse)},
        Tracks Q₀ served it.canisterQueues → Tracks Q₀ (served ++ [x]) it'.canisterQueues := by
  obtain ⟨iq, oq, msg, ms, hget, hm⟩ :=
    exists_of_pending_ne_nil (h.nonempty receiver (hq ▸ List.mem_cons_self))
  obtain ⟨it', hpop, howner, hqueues, hqs, hsize⟩ := it.pop_of_get? L hq hget hm
  have hnodup : receiver ∉ rest ∧ rest.Nodup := List.nodup_cons.mp (hq ▸ h.nodup)
  have hrest := map_pending_insert_of_not_mem (Q := it.canisterQueues) (iq, oq.dropMessages 1)
    hnodup.1
  have hrr : RoundRobin.pop it.roundRobin = some ((receiver, oq.ind, msg), it'.roundRobin) := by
    rw [roundRobin, hq, List.map_cons, pending_of_get? hget, oq.indexed_of_cons hm, roundRobin,
      hqueues, hqs]
    by_cases hms : ms = []
    · rw [if_pos hms, hrest, (oq.indexed_dropMessages_one_eq_nil hm).mpr hms]
      rfl
    · have hmore : (oq.dropMessages 1).indexed.isEmpty = false :=
        List.isEmpty_eq_false_iff.mpr ((oq.indexed_dropMessages_one_eq_nil hm).not.mpr hms)
      rw [if_neg hms, List.map_append, hrest, List.map_singleton, pending_insert, if_pos rfl]
      simp [RoundRobin.pop, hmore]
  obtain ⟨hne, hsize'⟩ := h.roundRobin_nonempty.pop hrr
  refine ⟨_, it', hrr, hpop, ⟨?_, (nonempty_roundRobin_iff it').mp hne, ?_⟩, howner,
    fun ht => hqs ▸ ht.pop hget hm⟩
  · rw [hqueues]
    split_ifs
    · exact hnodup.2
    · exact List.nodup_append_comm.mp (by rw [List.singleton_append, ← hq]; exact h.nodup)
  · rw [computeSize_eq_size, ← roundRobin, hsize, h.size_eq]
    omega

theorem excludeQueue_of_nil (hq : it.queues = []) : it.excludeQueue = (0, it) := by
  unfold excludeQueue
  rw [hq]

theorem excludeQueue_of_cons {receiver : CanisterId} {rest : List CanisterId}
    (hq : it.queues = receiver :: rest) :
    it.excludeQueue.2 =
      { it with queues := rest, size := it.size - (pending it.canisterQueues receiver).length } := by
  unfold excludeQueue
  rw [hq, length_pending]

/-- **`exclude_queue` drops the queue in front from the round robin** and keeps `Ok`. -/
theorem Ok.excludeQueue {it : CanisterOutputQueuesIterator} (h : it.Ok) :
    it.excludeQueue.2.Ok ∧ it.excludeQueue.2.roundRobin = it.roundRobin.tail ∧
      it.excludeQueue.2.canisterQueues = it.canisterQueues ∧ it.excludeQueue.2.owner = it.owner := by
  cases hq : it.queues with
  | nil =>
    rw [excludeQueue_of_nil it hq, (roundRobin_eq_nil_iff it).mpr hq]
    exact ⟨h, rfl, rfl, rfl⟩
  | cons receiver rest =>
    rw [excludeQueue_of_cons it hq]
    have hsize : it.size = (pending it.canisterQueues receiver).length +
        computeSize it.canisterQueues rest := by
      rw [h.size, hq, computeSize, List.map_cons, List.sum_cons, ← length_pending]
      rfl
    refine ⟨⟨(List.nodup_cons.mp (hq ▸ h.nodup)).2,
      fun c hc => h.nonempty c (hq ▸ List.mem_cons_of_mem _ hc), ?_⟩, ?_, rfl, rfl⟩
    · show it.size - (pending it.canisterQueues receiver).length = computeSize it.canisterQueues rest
      omega
    · simp [roundRobin, hq]

/-- **`peek` gives what the next `pop` gives**, and neither panics. -/
theorem Ok.peek_pop {it : CanisterOutputQueuesIterator} (h : it.Ok) :
    ∃ r it', it.pop L = .ok (r, it') ∧ it.peek = .ok r := by
  cases hq : it.queues with
  | nil =>
    refine ⟨none, it, pop_of_nil L it hq, ?_⟩
    unfold peek
    rw [hq]
    rfl
  | cons receiver rest =>
    obtain ⟨iq, oq, msg, ms, hget, hm⟩ :=
      exists_of_pending_ne_nil (h.nonempty receiver (hq ▸ List.mem_cons_self))
    obtain ⟨it', hpop, -⟩ := it.pop_of_get? L hq hget hm
    refine ⟨_, it', hpop, ?_⟩
    unfold peek
    rw [hq]
    simp [outputQueue, hget, oq.peek_of_cons hm, Rust.expect]

/-- **`size` counts what the pops still give**: as many pops as `size` give a message each, and
the next gives none; by induction on `size`. -/
theorem Ok.yields_of_size :
    ∀ (n : ℕ) {it : CanisterOutputQueuesIterator}, it.Ok → it.size = n →
      ∃ rest, Rust.Yields (fun it => it.pop L) it rest ∧ rest.length = n
  | 0, it, h, hn => by
    have hrr : it.roundRobin = [] := h.roundRobin_nonempty.eq_nil_of_size (h.size_eq ▸ hn)
    exact ⟨[], .nil (pop_of_nil L it ((roundRobin_eq_nil_iff it).mp hrr)), rfl⟩
  | n + 1, it, h, hn => by
    cases hq : it.queues with
    | nil =>
      rw [h.size, hq] at hn
      cases hn
    | cons receiver rest =>
      obtain ⟨x, it', hrr, hpop, h', -, -⟩ := h.pop_some L hq
      have hsize := (h.roundRobin_nonempty.pop hrr).2
      obtain ⟨rest', hy, hlen⟩ := yields_of_size n h' (by rw [h'.size_eq]; rw [h.size_eq] at hn; omega)
      exact ⟨_, .cons hpop hy, by rw [List.length_cons, hlen]⟩

end CanisterOutputQueuesIterator

/-! ## Runs of calls -/

/-- A sequence of calls on the output iterator, with the messages its pops give, in order. -/
def runIteratorPopped (L : Layout) : List IteratorOp → CanisterOutputQueuesIterator →
    Except String (List (QueueId × ℕ × RequestOrResponse) × CanisterOutputQueuesIterator)
  | [], it => pure ([], it)
  | .pop :: ops, it => do
    let (r, it) ← it.pop L
    let (popped, it) ← runIteratorPopped L ops it
    pure (r.toList ++ popped, it)
  | .excludeQueue :: ops, it => runIteratorPopped L ops it.excludeQueue.2

/-- The messages popped to a receiver, in order, under their indices. -/
def poppedTo (receiver : CanisterId) (popped : List (QueueId × ℕ × RequestOrResponse)) :
    List (ℕ × RequestOrResponse) :=
  RoundRobin.ofKey receiver (popped.map fun x => (x.1.dstCanister, x.2))

variable (L : Layout)

theorem runIterator_eq_map : ∀ (ops : List IteratorOp) (it : CanisterOutputQueuesIterator),
    runIterator L ops it = Prod.snd <$> runIteratorPopped L ops it
  | [], _ => rfl
  | .pop :: ops, it => by
    simp only [runIterator, runIteratorPopped]
    cases it.pop L with
    | error e => rfl
    | ok p =>
      rw [Except.ok_bind, Except.ok_bind, runIterator_eq_map ops p.2]
      cases runIteratorPopped L ops p.2 <;> rfl
  | .excludeQueue :: ops, it => runIterator_eq_map ops _

namespace CanisterOutputQueuesIterator

/-- **A run of calls refines the round robin**: from an iterator that keeps `Ok`, every sequence
of calls pops what `IteratorOp.serve` serves and keeps `Ok`, by induction on the calls. -/
theorem Ok.run : ∀ (ops : List IteratorOp) {it : CanisterOutputQueuesIterator} {Q₀ : QueueMap}
    {served : List (CanisterId × ℕ × RequestOrResponse)}, it.Ok → Tracks Q₀ served it.canisterQueues →
    ∃ popped it', runIteratorPopped L ops it = .ok (popped, it') ∧ it'.Ok ∧ it'.owner = it.owner ∧
      popped = (IteratorOp.serve ops it.roundRobin).1.map (fun x => (QueueId.mk it.owner x.1, x.2)) ∧
      it'.roundRobin = (IteratorOp.serve ops it.roundRobin).2 ∧
      Tracks Q₀ (served ++ (IteratorOp.serve ops it.roundRobin).1) it'.canisterQueues
  | [], it, _, _, h, ht => ⟨[], it, rfl, h, rfl, rfl, rfl, by simpa [IteratorOp.serve] using ht⟩
  | .pop :: ops, it, _, _, h, ht => by
    cases hq : it.queues with
    | nil =>
      have hrr : RoundRobin.pop it.roundRobin = none := by
        rw [(roundRobin_eq_nil_iff it).mpr hq]
        rfl
      obtain ⟨popped, it', hrun, hrest⟩ := Ok.run ops h ht
      refine ⟨popped, it', ?_, ?_⟩
      · simp [runIteratorPopped, pop_of_nil L it hq, hrun]
      · simpa [IteratorOp.serve, hrr] using hrest
    | cons receiver rest =>
      obtain ⟨x, it₁, hrr, hpop, h₁, howner₁, htracks⟩ := h.pop_some L hq
      obtain ⟨popped, it', hrun, h', howner', hpopped, hrr', ht'⟩ := Ok.run ops h₁ (htracks ht)
      refine ⟨(⟨it.owner, x.1⟩, x.2) :: popped, it', ?_, h', howner'.trans howner₁, ?_, ?_, ?_⟩
      · simp [runIteratorPopped, hpop, hrun]
      · simp [IteratorOp.serve, hrr, hpopped, howner₁]
      · simpa [IteratorOp.serve, hrr] using hrr'
      · simpa [IteratorOp.serve, hrr] using ht'
  | .excludeQueue :: ops, it, _, _, h, ht => by
    obtain ⟨hex, hrr, hqs, howner⟩ := h.excludeQueue
    obtain ⟨popped, it', hrun, h', howner', hpopped, hrr', ht'⟩ := Ok.run ops hex (hqs ▸ ht)
    rw [hrr, howner] at hpopped
    rw [hrr] at hrr' ht'
    exact ⟨popped, it', hrun, h', howner'.trans howner, hpopped, hrr', ht'⟩

end CanisterOutputQueuesIterator

/-! ## `output_into_iter` -/

namespace CanisterQueues

/-- The output queues as a round robin of receivers in increasing order. -/
def outputRoundRobin (s : CanisterQueues) : List (CanisterId × List (ℕ × RequestOrResponse)) :=
  (s.canisterQueues.entries.filter fun e => e.2.2.numMessages > 0).map fun e =>
    (e.1, e.2.2.indexed)

theorem roundRobin_outputIntoIter (s : CanisterQueues) (owner : CanisterId) :
    (s.outputIntoIter owner).roundRobin = s.outputRoundRobin :=
  CanisterOutputQueuesIterator.roundRobin_new _ _ _ _

open CanisterOutputQueuesIterator in
/-- **The output iterator consumes what it yields, round robin**: no call panics, `peek` gives
what `pop` gives, the pops follow the round robin, and `size_hint` counts what is left. -/
theorem outputIterator_serves_round_robin (s : CanisterQueues) (owner : CanisterId)
    (ops : List IteratorOp) :
    ∃ popped it, runIteratorPopped L ops (s.outputIntoIter owner) = .ok (popped, it) ∧
      runIterator L ops (s.outputIntoIter owner) = .ok it ∧
      (∃ r it', it.pop L = .ok (r, it') ∧ it.peek = .ok r) ∧
      popped = (IteratorOp.serve ops s.outputRoundRobin).1.map (fun x => (QueueId.mk owner x.1, x.2)) ∧
      (∀ n, (IteratorOp.serve (List.replicate n .pop) s.outputRoundRobin).1 =
        (RoundRobin.rounds s.outputRoundRobin).take n) ∧
      (∀ c, poppedTo c popped = (pending s.canisterQueues c).take (poppedTo c popped).length) ∧
      (∀ c, (s.withIterator it).canisterQueues.get? c = (s.canisterQueues.get? c).map fun qs =>
        (qs.1, qs.2.dropMessages (poppedTo c popped).length)) ∧
      (∃ rest, Rust.Yields (fun it => it.pop L) it rest ∧ it.sizeHint = (rest.length, some rest.length)) ∧
      popped.length + it.size ≤ (s.outputIntoIter owner).size := by
  have h₀ : (s.outputIntoIter owner).Ok := new_ok _ _ _ _
  have hne : RoundRobin.Nonempty s.outputRoundRobin := roundRobin_outputIntoIter s owner ▸ h₀.roundRobin_nonempty
  obtain ⟨popped, it, hrun, h, -, hpopped, hrr, ht⟩ := h₀.run L ops (Tracks.refl s.canisterQueues)
  rw [roundRobin_outputIntoIter] at hpopped hrr ht
  rw [List.nil_append] at ht
  have hto : ∀ c, poppedTo c popped = RoundRobin.ofKey c (IteratorOp.serve ops s.outputRoundRobin).1 := by
    intro c
    simp [poppedTo, hpopped, Function.comp_def]
  obtain ⟨rest, hy, hlen⟩ := h.yields_of_size L it.size rfl
  refine ⟨popped, it, hrun, ?_, h.peek_pop L, hpopped, ?_, fun c => ?_, fun c => ?_,
    ⟨rest, hy, by rw [sizeHint, hlen]⟩, ?_⟩
  · rw [runIterator_eq_map, hrun]
    rfl
  · intro n
    rw [IteratorOp.serve_replicate_pop, RoundRobin.drain_eq_take_rounds n hne]
  · rw [hto]
    exact ht.first c
  · rw [hto]
    exact ht.queues c
  · have hle := IteratorOp.length_serve_add_size_le ops hne
    rw [h.size_eq, hrr, h₀.size_eq, roundRobin_outputIntoIter, hpopped, List.length_map]
    exact hle

end CanisterQueues

end IC.Queues
