import InternetComputer.CanisterQueues.Stats
import InternetComputer.Lib.RoundRobin

/-!
# `pop_input` serves the induction pool round robin

What `pop_input` is for, apart from the code: the induction pool is the ingress queue and a round
robin of the senders' input queues for each of the two buckets (`InputPool`); a call serves the
bucket `next` names, or the next that has a message (`InputPool.pop`).

`CanisterQueues.inputPool` reads the pool off the queues. In a valid state `pop_input` never
panics and refines `InputPool.pop` (**`popInput_refines`**), and it finds a message exactly when
`has_input` holds (**`popInput_isSome_iff`**). So repeated calls drain the pool: the ingress
messages in order, and the messages of each bucket in its round-robin order
(**`popInputs_drain`**).
-/

namespace IC.Queues

open IC.State (CanisterId)

/-! ## The pool -/

/-- Where a message `pop_input` returns comes from. -/
inductive InputSource
  | ingress (msg : Ingress)
  | canister (ty : InputQueueType) (sender : CanisterId) (msg : RequestOrResponse)
  deriving DecidableEq

namespace InputSource

/-- The message `pop_input` returns. -/
def message : InputSource → CanisterInputMessage
  | .ingress msg => .ingress msg
  | .canister _ _ msg => .ofRequestOrResponse msg

/-- The ingress message, if it comes from the ingress queue. -/
def ingress? : InputSource → Option Ingress
  | .ingress msg => some msg
  | .canister .. => none

/-- The sender and the message, if it comes from the bucket `ty`. -/
def fromBucket? (ty : InputQueueType) : InputSource → Option (CanisterId × RequestOrResponse)
  | .ingress _ => none
  | .canister ty' sender msg => if ty' = ty then some (sender, msg) else none

end InputSource

/-- A bucket: its senders in schedule order, each with its input queue's messages. -/
abbrev Bucket := List (CanisterId × List RequestOrResponse)

/-- The induction pool as `pop_input` serves it. -/
structure InputPool where
  ingress : List Ingress
  localSubnet : Bucket
  remoteSubnet : Bucket
  next : NextInputQueue

namespace InputPool

variable (p : InputPool)

/-- The bucket of a type of sender. -/
def bucket : InputQueueType → Bucket
  | .localSubnet => p.localSubnet
  | .remoteSubnet => p.remoteSubnet

/-- The pool with the bucket of a type of sender replaced. -/
def setBucket : InputQueueType → Bucket → InputPool
  | .localSubnet, b => { p with localSubnet := b }
  | .remoteSubnet, b => { p with remoteSubnet := b }

/-- The ingress queue serves its first message. -/
def popIngress : InputPool × Option InputSource :=
  match p.ingress with
  | [] => (p, none)
  | msg :: rest => ({ p with ingress := rest }, some (.ingress msg))

/-- A bucket serves the next sender of its round robin. -/
def popBucket (ty : InputQueueType) : InputPool × Option InputSource :=
  match RoundRobin.pop (p.bucket ty) with
  | none => (p, none)
  | some ((sender, msg), b) => (p.setBucket ty b, some (.canister ty sender msg))

/-- One turn: the bucket `next` names serves, and `next` moves on. -/
def popTurn : InputPool × Option InputSource :=
  let p' := { p with next := p.next.next }
  match p.next with
  | .ingress => p'.popIngress
  | .remoteSubnet => p'.popBucket .remoteSubnet
  | .localSubnet => p'.popBucket .localSubnet

/-- Turns until one serves, at most `n`. -/
def popLoop : ℕ → InputPool → InputPool × Option InputSource
  | 0, p => (p, none)
  | n + 1, p =>
    let (p', src) := p.popTurn
    if src.isSome then (p', src) else popLoop n p'

/-- A call: the three buckets in turn from `next` on, until one serves. -/
def pop : InputPool × Option InputSource := popLoop 3 p

/-- The number of messages in the pool. -/
def size : ℕ := p.ingress.length + RoundRobin.size p.localSubnet + RoundRobin.size p.remoteSubnet

/-- No bucket holds a sender without messages. -/
def Ok : Prop := ∀ ty, RoundRobin.Nonempty (p.bucket ty)

end InputPool

/-! ## The pool of the queues -/

namespace CanisterQueues

variable (s : CanisterQueues)

/-- The messages of the input queue from `k`. -/
def inputMessages (k : CanisterId) : List RequestOrResponse :=
  ((s.canisterQueues.get? k).map fun qs => qs.1.queue.queue).getD []

/-- A bucket of the queues: the senders of its schedule with their input queues. -/
def bucket (ty : InputQueueType) : Bucket := (s.inputSchedule ty).map fun k => (k, s.inputMessages k)

/-- The induction pool of the queues. -/
def inputPool : InputPool :=
  ⟨s.ingressQueue.queue, s.bucket .localSubnet, s.bucket .remoteSubnet, s.nextInputQueue⟩

@[simp]
theorem inputPool_bucket (ty : InputQueueType) : s.inputPool.bucket ty = s.bucket ty := by
  cases ty <;> rfl

end CanisterQueues

variable {L : Layout} {s s' : CanisterQueues}

theorem map_inputMessages_of_not_mem {k : CanisterId} {qs : InputQueue × OutputQueue}
    (hmap : s'.canisterQueues = s.canisterQueues.insert k qs) {l : List CanisterId} (hl : k ∉ l) :
    l.map (fun j => (j, s'.inputMessages j)) = l.map (fun j => (j, s.inputMessages j)) := by
  apply List.map_congr_left
  intro j hj
  have hne : j ≠ k := fun h => hl (h ▸ hj)
  simp [CanisterQueues.inputMessages, hmap, SortedMap.get?_insert, hne]

theorem SchedulesExact.not_mem_of_cons {m : QueueMap} (h : SchedulesExact s.schedules m)
    {ty : InputQueueType} {k : CanisterId} {rest : List CanisterId}
    (hsched : s.inputSchedule ty = k :: rest) :
    k ∉ rest ∧ ∀ ty', ty' ≠ ty → k ∉ s.inputSchedule ty' := by
  have hnodup := h.1
  unfold CanisterQueues.schedules at hnodup
  cases ty with
  | localSubnet =>
    simp only [CanisterQueues.inputSchedule] at hsched
    rw [hsched, List.cons_append, List.nodup_cons, List.mem_append, not_or] at hnodup
    refine ⟨hnodup.1.1, fun ty' hty' => ?_⟩
    cases ty'
    · exact absurd rfl hty'
    · exact hnodup.1.2
  | remoteSubnet =>
    simp only [CanisterQueues.inputSchedule] at hsched
    rw [hsched, List.nodup_append, List.nodup_cons] at hnodup
    refine ⟨hnodup.2.1.1, fun ty' hty' => ?_⟩
    cases ty'
    · exact fun hk => hnodup.2.2 k hk k List.mem_cons_self rfl
    · exact absurd rfl hty'

theorem inputPool_eq_setBucket {ty : InputQueueType} {b : Bucket}
    (hingress : s'.ingressQueue.queue = s.ingressQueue.queue)
    (hnext : s'.nextInputQueue = s.nextInputQueue) (hb : s'.bucket ty = b)
    (hother : ∀ ty', ty' ≠ ty → s'.bucket ty' = s.bucket ty') :
    s'.inputPool = s.inputPool.setBucket ty b := by
  cases ty with
  | localSubnet =>
    have hr := hother .remoteSubnet (by decide)
    simp only [CanisterQueues.inputPool, InputPool.setBucket, hingress, hnext, hb, hr]
  | remoteSubnet =>
    have hl := hother .localSubnet (by decide)
    simp only [CanisterQueues.inputPool, InputPool.setBucket, hingress, hnext, hb, hl]

/-! ## `pop_input` refines the pool's pop -/

namespace InputPool

variable {p : InputPool} {ty : InputQueueType}

theorem popBucket_of_pop_none (h : RoundRobin.pop (p.bucket ty) = none) :
    p.popBucket ty = (p, none) := by
  simp [popBucket, h]

theorem popBucket_of_pop {x : CanisterId × RequestOrResponse} {b : Bucket}
    (h : RoundRobin.pop (p.bucket ty) = some (x, b)) :
    p.popBucket ty = (p.setBucket ty b, some (.canister ty x.1 x.2)) := by
  simp [popBucket, h]

end InputPool

theorem popCanisterInput_ok (hv : Valid L s) (ty : InputQueueType) :
    ∃ s' r, s.popCanisterInput L ty = .ok (s', r) := by
  unfold CanisterQueues.popCanisterInput
  split
  · exact ⟨_, _, rfl⟩
  · rename_i sender rest hsched
    have hmem : sender ∈ s.schedules := by
      cases ty <;> simp_all [CanisterQueues.schedules, CanisterQueues.inputSchedule]
    obtain ⟨⟨iq, oq⟩, hget, hpos⟩ := (hv.schedules.2 sender).mp hmem
    obtain ⟨msg, msgs, hq⟩ : ∃ msg msgs, iq.queue.queue = msg :: msgs := by
      cases hq : iq.queue.queue with
      | nil => simp [InputQueue.numMessages, QueueWithReservation.numMessages, hq] at hpos
      | cons msg msgs => exact ⟨msg, msgs, rfl⟩
    have hpop : iq.pop = some (msg, { iq with queue := { iq.queue with queue := msgs } }) :=
      InputQueue.pop_eq_some.mpr ⟨msgs, hq, rfl⟩
    simp only [hget, hpop, Rust.expect, Except.ok_bind]
    exact ⟨_, _, rfl⟩

theorem popCanisterInput_refines (hv : Valid L s) {ty : InputQueueType}
    {r : Option RequestOrResponse} (h : s.popCanisterInput L ty = .ok (s', r)) :
    r = (RoundRobin.pop (s.bucket ty)).map (fun x => x.1.2) ∧
      s'.inputPool = (s.inputPool.popBucket ty).1 := by
  rcases popCanisterInput_eq_ok h with ⟨hnil, hs', rfl⟩ |
    ⟨sender, rest, iq, oq, msg, iq', hsched, hget, hpop, rfl, hs'⟩
  · have hb : s.bucket ty = [] := by simp [CanisterQueues.bucket, hnil]
    rw [InputPool.popBucket_of_pop_none (by rw [CanisterQueues.inputPool_bucket, hb]; rfl), hb,
      hs']
    exact ⟨rfl, rfl⟩
  obtain ⟨msgs, hq, rfl⟩ := InputQueue.pop_eq_some.mp hpop
  obtain ⟨hrest, hother⟩ := hv.schedules.not_mem_of_cons hsched
  have hb : s.bucket ty = (sender, msg :: msgs) :: rest.map fun k => (k, s.inputMessages k) := by
    simp [CanisterQueues.bucket, hsched, CanisterQueues.inputMessages, hget, hq]
  have hpopB : RoundRobin.pop (s.bucket ty) = some ((sender, msg),
      if msgs.isEmpty then rest.map (fun k => (k, s.inputMessages k))
      else rest.map (fun k => (k, s.inputMessages k)) ++ [(sender, msgs)]) := by
    rw [hb]
    rfl
  refine ⟨by rw [hpopB]; rfl, ?_⟩
  rw [InputPool.popBucket_of_pop (by rw [CanisterQueues.inputPool_bucket]; exact hpopB)]
  -- what the call writes: the queues from the sender and the bucket's schedule
  have hmap : s'.canisterQueues = s.canisterQueues.insert sender
      ({ iq with queue := { iq.queue with queue := msgs } }, oq) := by
    rw [hs']
  have hself : s'.inputMessages sender = msgs := by
    simp [CanisterQueues.inputMessages, hmap, SortedMap.get?_insert]
  have hsched' : s'.inputSchedule ty =
      if ({ iq with queue := { iq.queue with queue := msgs } } : InputQueue).numMessages ≠ 0 then
        rest ++ [sender] else rest := by
    rw [hs']
    cases ty <;> rfl
  apply inputPool_eq_setBucket
  · rw [hs']
    simp
  · rw [hs']
    simp
  · -- the sender goes to the back of its bucket exactly when its queue keeps a message
    unfold CanisterQueues.bucket
    rw [hsched']
    cases msgs with
    | nil =>
      simp only [InputQueue.numMessages, QueueWithReservation.numMessages, List.length_nil,
        ne_eq, not_true_eq_false, if_false, List.isEmpty_nil, if_true]
      exact map_inputMessages_of_not_mem hmap hrest
    | cons m ms =>
      simp only [InputQueue.numMessages, QueueWithReservation.numMessages, List.length_cons,
        ne_eq, Nat.add_one_ne_zero, not_false_eq_true, if_true, List.isEmpty_cons,
        Bool.false_eq_true, if_false, List.map_append, List.map_cons, List.map_nil, hself]
      rw [map_inputMessages_of_not_mem hmap hrest]
  · -- the other bucket does not hold the sender
    intro ty' hty'
    have hsched'' : s'.inputSchedule ty' = s.inputSchedule ty' := by
      rw [hs']
      cases ty <;> cases ty' <;> first | rfl | exact absurd rfl hty'
    unfold CanisterQueues.bucket
    rw [hsched'']
    exact map_inputMessages_of_not_mem hmap (hother ty' hty')

theorem popIngress_refines (s : CanisterQueues) :
    (s.popIngress L).1.map CanisterInputMessage.ingress =
        s.inputPool.popIngress.2.map InputSource.message ∧
      (s.popIngress L).2.inputPool = s.inputPool.popIngress.1 := by
  have hp : s.inputPool.ingress = s.ingressQueue.queue := rfl
  unfold CanisterQueues.popIngress IngressQueue.pop InputPool.popIngress
  rw [hp]
  cases s.ingressQueue.queue with
  | nil => exact ⟨rfl, rfl⟩
  | cons msg rest => exact ⟨rfl, rfl⟩

theorem InputPool.popBucket_snd (p : InputPool) (ty : InputQueueType) :
    (p.popBucket ty).2.map InputSource.message =
      ((RoundRobin.pop (p.bucket ty)).map fun x => x.1.2).map
        CanisterInputMessage.ofRequestOrResponse := by
  unfold popBucket
  split <;> simp_all [InputSource.message]

theorem popInputTurn_ok (hv : Valid L s) : ∃ s' r, s.popInputTurn L = .ok (s', r) := by
  have hv₁ := hv.withNextInputQueue s.nextInputQueue.next
  unfold CanisterQueues.popInputTurn
  dsimp only
  split
  · exact ⟨_, _, rfl⟩
  all_goals
    obtain ⟨s', r, h⟩ := popCanisterInput_ok hv₁ _
    rw [h]
    exact ⟨_, _, rfl⟩

theorem popInputTurn_refines (hv : Valid L s) {r : Option CanisterInputMessage}
    (h : s.popInputTurn L = .ok (s', r)) :
    r = s.inputPool.popTurn.2.map InputSource.message ∧ s'.inputPool = s.inputPool.popTurn.1 := by
  have hv₁ := hv.withNextInputQueue s.nextInputQueue.next
  unfold CanisterQueues.popInputTurn at h
  dsimp only at h
  unfold InputPool.popTurn
  have hn : s.inputPool.next = s.nextInputQueue := rfl
  split at h
  · rename_i hnext
    cases h
    obtain ⟨hmsg, hpool⟩ := popIngress_refines (L := L) { s with nextInputQueue := s.nextInputQueue.next }
    simp only [hn, hnext]
    rw [hnext] at hmsg hpool
    exact ⟨hmsg, hpool⟩
  all_goals
    rename_i hnext
    obtain ⟨⟨s'', msg⟩, hpop, h⟩ := Except.bind_eq_ok.mp h
    cases h
    obtain ⟨hmsg, hpool⟩ := popCanisterInput_refines hv₁ hpop
    simp only [hn, hnext]
    rw [hnext] at hmsg hpool
    refine ⟨?_, hpool⟩
    rw [InputPool.popBucket_snd, hmsg]
    rfl

theorem popInputLoop_ok : ∀ (n : ℕ) {s : CanisterQueues}, Valid L s →
    ∃ s' r, s.popInputLoop L n = .ok (s', r)
  | 0, _, _ => ⟨_, _, rfl⟩
  | n + 1, s, hv => by
    obtain ⟨s₁, r₁, hturn⟩ := popInputTurn_ok hv
    unfold CanisterQueues.popInputLoop
    rw [hturn, Except.ok_bind]
    dsimp only
    split
    · exact ⟨_, _, rfl⟩
    · exact popInputLoop_ok n (keepsExact_popInputTurn hv hturn).1

theorem popInputLoop_refines : ∀ (n : ℕ) {s s' : CanisterQueues} {r : Option CanisterInputMessage},
    Valid L s → s.popInputLoop L n = .ok (s', r) →
      r = (s.inputPool.popLoop n).2.map InputSource.message ∧
        s'.inputPool = (s.inputPool.popLoop n).1
  | 0, s, s', r, _, h => by
    cases h
    exact ⟨rfl, rfl⟩
  | n + 1, s, s', r, hv, h => by
    unfold CanisterQueues.popInputLoop at h
    obtain ⟨⟨s₁, r₁⟩, hturn, h⟩ := Except.bind_eq_ok.mp h
    obtain ⟨hr₁, hpool₁⟩ := popInputTurn_refines hv hturn
    have hv₁ := (keepsExact_popInputTurn hv hturn).1
    unfold InputPool.popLoop
    dsimp only at h ⊢
    -- the pool's turn serves exactly when the queues' turn does
    have hsome : r₁.isSome = s.inputPool.popTurn.2.isSome := by
      rw [hr₁, Option.isSome_map]
    split at h
    · rename_i hr
      cases h
      rw [if_pos (hsome ▸ hr)]
      exact ⟨hr₁, hpool₁⟩
    · rename_i hr
      rw [if_neg (hsome ▸ hr), ← hpool₁]
      exact popInputLoop_refines n hv₁ h

/-- **`pop_input` refines the pool's pop**: in a valid state it does not panic, it returns the
message the pool's pop serves, and leaves the pool the pop leaves. -/
theorem popInput_refines (hv : Valid L s) :
    ∃ s', s.popInput L = .ok (s', s.inputPool.pop.2.map InputSource.message) ∧
      s'.inputPool = s.inputPool.pop.1 := by
  obtain ⟨s', r, h⟩ := popInputLoop_ok 3 hv
  obtain ⟨rfl, hpool⟩ := popInputLoop_refines 3 hv h
  exact ⟨s', h, hpool⟩

/-! ## What a pop of the pool serves -/

namespace InputPool

variable {p p' : InputPool}

/-- `p'` is `p` with `src` served. -/
def Serves (p p' : InputPool) (src : Option InputSource) : Prop :=
  p.ingress = (src.bind InputSource.ingress?).toList ++ p'.ingress ∧
    ∀ ty, RoundRobin.rounds (p.bucket ty) =
      (src.bind (InputSource.fromBucket? ty)).toList ++ RoundRobin.rounds (p'.bucket ty)

theorem Serves.trans_none {p₁ p₂ : InputPool} {src : Option InputSource}
    (h₁ : Serves p p₁ none) (h₂ : Serves p₁ p₂ src) : Serves p p₂ src :=
  ⟨h₁.1.trans h₂.1, fun ty => (h₁.2 ty).trans (h₂.2 ty)⟩

@[simp]
theorem bucket_setBucket (ty ty' : InputQueueType) (b : Bucket) :
    (p.setBucket ty b).bucket ty' = if ty' = ty then b else p.bucket ty' := by
  cases ty <;> cases ty' <;> rfl

@[simp]
theorem setBucket_ingress (ty : InputQueueType) (b : Bucket) :
    (p.setBucket ty b).ingress = p.ingress := by
  cases ty <;> rfl

@[simp]
theorem bucket_withNext (next : NextInputQueue) (ty : InputQueueType) :
    ({ p with next } : InputPool).bucket ty = p.bucket ty := by
  cases ty <;> rfl

@[simp]
theorem bucket_withIngress (ingress : List Ingress) (ty : InputQueueType) :
    ({ p with ingress } : InputPool).bucket ty = p.bucket ty := by
  cases ty <;> rfl

theorem Ok.next (hp : p.Ok) (next : NextInputQueue) : Ok { p with next } := fun ty => by
  rw [bucket_withNext]
  exact hp ty

theorem serves_withNext {p₁ : InputPool} {src : Option InputSource} (next : NextInputQueue) :
    Serves { p with next } p₁ src ↔ Serves p p₁ src := by
  simp only [Serves, bucket_withNext]

theorem popIngress_serves (hp : p.Ok) : Serves p p.popIngress.1 p.popIngress.2 ∧ Ok p.popIngress.1 := by
  unfold popIngress
  split
  · exact ⟨⟨by simp, fun _ => rfl⟩, hp⟩
  · rename_i msg rest hq
    refine ⟨⟨by simp [hq, InputSource.ingress?], fun _ => by simp [InputSource.fromBucket?]⟩,
      fun ty => ?_⟩
    rw [bucket_withIngress]
    exact hp ty

theorem popBucket_serves (hp : p.Ok) (ty : InputQueueType) :
    Serves p (p.popBucket ty).1 (p.popBucket ty).2 ∧ Ok (p.popBucket ty).1 := by
  unfold popBucket
  split
  · exact ⟨⟨by simp, fun _ => rfl⟩, hp⟩
  · rename_i sender msg b hpop
    obtain ⟨hb, -⟩ := (hp ty).pop hpop
    refine ⟨⟨by simp [InputSource.ingress?], fun ty' => ?_⟩, fun ty' => ?_⟩
    · by_cases hty : ty' = ty
      · subst hty
        simp [InputSource.fromBucket?, RoundRobin.rounds_of_pop (hp ty') hpop]
      · simp [InputSource.fromBucket?, hty, Ne.symm hty]
    · rw [bucket_setBucket]
      split_ifs
      · exact hb
      · exact hp ty'

/-- The bucket `next` names is empty. -/
def NextEmpty (p : InputPool) : Prop :=
  match p.next with
  | .ingress => p.ingress = []
  | .localSubnet => p.localSubnet = []
  | .remoteSubnet => p.remoteSubnet = []

theorem popIngress_eq_none (p : InputPool) :
    (p.popIngress.2 = none ↔ p.ingress = []) ∧ (p.popIngress.2 = none → p.popIngress.1 = p) := by
  unfold popIngress
  split <;> simp_all

theorem popBucket_eq_none (hp : p.Ok) (ty : InputQueueType) :
    ((p.popBucket ty).2 = none ↔ p.bucket ty = []) ∧
      ((p.popBucket ty).2 = none → (p.popBucket ty).1 = p) := by
  rw [← RoundRobin.pop_eq_none_iff (hp ty)]
  unfold popBucket
  split <;> simp_all

theorem popTurn_serves (hp : p.Ok) :
    Serves p p.popTurn.1 p.popTurn.2 ∧ Ok p.popTurn.1 ∧
      (p.popTurn.2 = none ↔ p.NextEmpty) ∧
      (p.popTurn.2 = none → p.popTurn.1 = { p with next := p.next.next }) := by
  unfold popTurn NextEmpty
  dsimp only
  cases p.next with
  | ingress =>
    obtain ⟨hserves, hok⟩ := popIngress_serves (hp.next NextInputQueue.ingress.next)
    obtain ⟨hnone, hsame⟩ := popIngress_eq_none { p with next := NextInputQueue.ingress.next }
    exact ⟨(serves_withNext _).mp hserves, hok, hnone, hsame⟩
  | remoteSubnet =>
    obtain ⟨hserves, hok⟩ := popBucket_serves (hp.next NextInputQueue.remoteSubnet.next) .remoteSubnet
    obtain ⟨hnone, hsame⟩ := popBucket_eq_none (hp.next NextInputQueue.remoteSubnet.next) .remoteSubnet
    exact ⟨(serves_withNext _).mp hserves, hok, hnone, hsame⟩
  | localSubnet =>
    obtain ⟨hserves, hok⟩ := popBucket_serves (hp.next NextInputQueue.localSubnet.next) .localSubnet
    obtain ⟨hnone, hsame⟩ := popBucket_eq_none (hp.next NextInputQueue.localSubnet.next) .localSubnet
    exact ⟨(serves_withNext _).mp hserves, hok, hnone, hsame⟩

theorem popLoop_serves : ∀ (n : ℕ) {p : InputPool}, p.Ok →
    Serves p (p.popLoop n).1 (p.popLoop n).2 ∧ Ok (p.popLoop n).1
  | 0, p, hp => ⟨⟨rfl, fun _ => rfl⟩, hp⟩
  | n + 1, p, hp => by
    obtain ⟨hserves, hok, -, -⟩ := popTurn_serves hp
    simp only [popLoop]
    split
    · exact ⟨hserves, hok⟩
    · rename_i hsome
      rw [Option.not_isSome_iff_eq_none.mp hsome] at hserves
      obtain ⟨hs, hk⟩ := popLoop_serves n hok
      exact ⟨hserves.trans_none hs, hk⟩

theorem popLoop_succ_eq_none (hp : p.Ok) (n : ℕ) :
    (p.popLoop (n + 1)).2 = none ↔ p.NextEmpty ∧ (({ p with next := p.next.next } : InputPool).popLoop n).2 = none := by
  obtain ⟨-, -, hnone, hsame⟩ := popTurn_serves hp
  simp only [popLoop]
  split
  · rename_i hsome
    have hne : p.popTurn.2 ≠ none := Option.isSome_iff_ne_none.mp hsome
    exact ⟨fun h => absurd h hne, fun h => absurd (hnone.mpr h.1) hne⟩
  · rename_i hsome
    have hn : p.popTurn.2 = none := Option.not_isSome_iff_eq_none.mp hsome
    rw [hsame hn]
    exact ⟨fun h => ⟨hnone.mp hn, h⟩, fun h => h.2⟩

theorem pop_eq_none (hp : p.Ok) :
    p.pop.2 = none ↔ p.ingress = [] ∧ p.localSubnet = [] ∧ p.remoteSubnet = [] := by
  unfold pop
  rw [popLoop_succ_eq_none hp, popLoop_succ_eq_none (hp.next _), popLoop_succ_eq_none (hp.next _)]
  unfold NextEmpty
  cases p.next <;> simp [popLoop, NextInputQueue.next] <;> tauto

end InputPool

/-! ## The pool of a valid state -/

namespace InputPool

variable {p p' : InputPool}

theorem InputSource.count_sources (x : InputSource) :
    (x.ingress?).toList.length + (x.fromBucket? .localSubnet).toList.length +
      (x.fromBucket? .remoteSubnet).toList.length = 1 := by
  cases x with
  | ingress msg => rfl
  | canister ty sender msg => cases ty <;> rfl

theorem size_eq (hp : p.Ok) : p.size = p.ingress.length +
    (RoundRobin.rounds (p.bucket .localSubnet)).length +
      (RoundRobin.rounds (p.bucket .remoteSubnet)).length := by
  rw [RoundRobin.length_rounds _ (hp _), RoundRobin.length_rounds _ (hp _)]
  rfl

/-- A pop that serves a message takes one message from the pool. -/
theorem Serves.size (hp : p.Ok) (hp' : p'.Ok) {x : InputSource} (h : Serves p p' (some x)) :
    p.size = p'.size + 1 := by
  have hcount := InputSource.count_sources x
  rw [size_eq hp, size_eq hp', h.1, h.2 .localSubnet, h.2 .remoteSubnet]
  simp only [Option.bind_some, List.length_append] at hcount ⊢
  omega

theorem size_eq_zero (hp : p.Ok) :
    p.size = 0 ↔ p.ingress = [] ∧ p.localSubnet = [] ∧ p.remoteSubnet = [] := by
  have hl := (hp .localSubnet).eq_nil_of_size
  have hr := (hp .remoteSubnet).eq_nil_of_size
  simp only [bucket] at hl hr
  unfold size
  constructor
  · intro h
    exact ⟨List.eq_nil_of_length_eq_zero (by omega), hl (by omega), hr (by omega)⟩
  · rintro ⟨h₁, h₂, h₃⟩
    simp [h₁, h₂, h₃]

end InputPool

theorem Valid.inputPool_ok (hv : Valid L s) : s.inputPool.Ok := by
  intro ty e he
  rw [CanisterQueues.inputPool_bucket] at he
  obtain ⟨k, hk, rfl⟩ := List.mem_map.mp he
  have hmem : k ∈ s.schedules := by
    cases ty <;> simp_all [CanisterQueues.schedules, CanisterQueues.inputSchedule]
  obtain ⟨qs, hget, hpos⟩ := (hv.schedules.2 k).mp hmem
  simp only [CanisterQueues.inputMessages, hget, Option.map_some, Option.getD_some]
  intro hnil
  simp [InputQueue.numMessages, QueueWithReservation.numMessages, hnil] at hpos

theorem Valid.messageCount_eq (hv : Valid L s) :
    s.inputQueuesStats.messageCount = RoundRobin.size (s.bucket .localSubnet) +
      RoundRobin.size (s.bucket .remoteSubnet) := by
  -- the input queues' count is a sum over the scheduled senders
  have hcount := hv.counters .inputMessageCount
  rw [SortedMap.sumValues_eq_sum_keys _ _ hv.schedules.1
    (fun k hk => by
      obtain ⟨qs, hget, -⟩ := (hv.schedules.2 k).mp hk
      simp [hget])
    (fun k qs hget hne => (hv.schedules.2 k).mpr ⟨qs, hget, by
      simp only [Counter.ofQueues] at hne
      omega⟩)] at hcount
  have hlen : ∀ k, ((s.canisterQueues.get? k).map (Counter.ofQueues L .inputMessageCount)).getD 0 =
      ((s.inputMessages k).length : ℤ) := by
    intro k
    cases hget : s.canisterQueues.get? k <;>
      simp [CanisterQueues.inputMessages, Counter.ofQueues, InputQueue.numMessages,
        QueueWithReservation.numMessages, hget]
  simp only [Counter.running, Counter.read, hlen, CanisterQueues.schedules, List.map_append,
    List.sum_append] at hcount
  simp only [RoundRobin.size, CanisterQueues.bucket, List.map_map, Function.comp_def]
  have hcast : ∀ l : List CanisterId, ((l.map fun k => ((s.inputMessages k).length : ℤ)).sum) =
      ((l.map fun k => (s.inputMessages k).length).sum : ℕ) := by
    intro l
    push_cast [Nat.cast_list_sum, List.map_map, Function.comp_def]
    rfl
  rw [hcast, hcast] at hcount
  exact_mod_cast hcount

theorem Valid.inputPool_size (hv : Valid L s) :
    s.inputPool.size = s.ingressQueue.size + s.inputQueuesStats.messageCount := by
  rw [hv.messageCount_eq]
  simp only [InputPool.size, CanisterQueues.inputPool, IngressQueue.size]
  omega

theorem Valid.hasInput_iff (hv : Valid L s) : s.hasInput = true ↔ 0 < s.inputPool.size := by
  rw [hv.inputPool_size]
  simp only [CanisterQueues.hasInput, IngressQueue.isEmpty, IngressQueue.size, Bool.or_eq_true,
    Bool.not_eq_true', beq_eq_false_iff_ne, ne_eq, decide_eq_true_eq, gt_iff_lt]
  omega

theorem popInput_isSome_iff (hv : Valid L s) :
    ∃ s' r, s.popInput L = .ok (s', r) ∧ (r.isSome ↔ s.hasInput = true) := by
  obtain ⟨s', h, -⟩ := popInput_refines hv
  refine ⟨s', _, h, ?_⟩
  rw [Option.isSome_map, hv.hasInput_iff, Nat.pos_iff_ne_zero, Ne,
    InputPool.size_eq_zero hv.inputPool_ok, ← InputPool.pop_eq_none hv.inputPool_ok,
    Option.isSome_iff_ne_none]

/-! ## Repeated calls drain the pool -/

/-- `n` calls of `pop_input` one after another, with what each returns. -/
def CanisterQueues.popInputs (L : Layout) : ℕ → CanisterQueues →
    Except String (List (Option CanisterInputMessage) × CanisterQueues)
  | 0, s => pure ([], s)
  | n + 1, s => do
    let (s, msg) ← s.popInput L
    let (msgs, s) ← CanisterQueues.popInputs L n s
    pure (msg :: msgs, s)

theorem filterMap_cons_toList {α β : Type} (f : α → Option β) (a : α) (l : List α) :
    (a :: l).filterMap f = (f a).toList ++ l.filterMap f := by
  cases h : f a <;> simp [h]

theorem popInputs_drain : ∀ (n : ℕ) {s : CanisterQueues}, Valid L s → s.inputPool.size = n →
    ∃ (srcs : List InputSource) (s' : CanisterQueues),
      s.popInputs L n = .ok (srcs.map fun src => some src.message, s') ∧
      s'.inputPool.size = 0 ∧ Valid L s' ∧
      srcs.filterMap InputSource.ingress? = s.ingressQueue.queue ∧
      ∀ ty, srcs.filterMap (InputSource.fromBucket? ty) = RoundRobin.rounds (s.bucket ty)
  | 0, s, hv, hsize => by
    obtain ⟨hi, hl, hr⟩ := (InputPool.size_eq_zero hv.inputPool_ok).mp hsize
    refine ⟨[], s, rfl, hsize, hv, hi.symm, fun ty => ?_⟩
    rw [← CanisterQueues.inputPool_bucket]
    cases ty <;> simp [InputPool.bucket, hl, hr]
  | n + 1, s, hv, hsize => by
    have hok := hv.inputPool_ok
    -- the pool is not empty, so the pop serves a message
    obtain ⟨x, hx⟩ : ∃ x, s.inputPool.pop.2 = some x := by
      refine Option.ne_none_iff_exists'.mp fun hnone => ?_
      have hzero := (InputPool.size_eq_zero hok).mpr ((InputPool.pop_eq_none hok).mp hnone)
      omega
    obtain ⟨s₁, hpop, hpool⟩ := popInput_refines hv
    have hserves : InputPool.Serves s.inputPool s₁.inputPool (some x) := by
      have h := (InputPool.popLoop_serves 3 hok).1
      rw [← hx, hpool]
      exact h
    rw [hx] at hpop
    have hv₁ := (keepsExact_popInput hv hpop).1
    have hsize₁ : s₁.inputPool.size = n := by
      have := hserves.size hok hv₁.inputPool_ok
      omega
    obtain ⟨srcs, s', hrun, hsize', hv', hingress, hbuckets⟩ := popInputs_drain n hv₁ hsize₁
    refine ⟨x :: srcs, s', ?_, hsize', hv', ?_, fun ty => ?_⟩
    · rw [CanisterQueues.popInputs, hpop, Except.ok_bind]
      dsimp only
      rw [hrun, Except.ok_bind]
      rfl
    · rw [filterMap_cons_toList, hingress]
      exact hserves.1.symm
    · rw [filterMap_cons_toList, hbuckets ty, ← CanisterQueues.inputPool_bucket,
        ← CanisterQueues.inputPool_bucket, hserves.2 ty]
      rfl

/-! ## What `pop_input` guarantees in every reachable state -/

theorem Valid.inputSchedule_nodup (hv : Valid L s) (ty : InputQueueType) :
    (s.inputSchedule ty).Nodup := by
  have hnodup := hv.schedules.1
  unfold CanisterQueues.schedules at hnodup
  cases ty
  · exact hnodup.sublist (List.sublist_append_left _ _)
  · exact hnodup.sublist (List.sublist_append_right _ _)

theorem Valid.itemsOf_bucket (hv : Valid L s) {ty : InputQueueType} {k : CanisterId}
    (hk : k ∈ s.inputSchedule ty) : RoundRobin.itemsOf k (s.bucket ty) = s.inputMessages k :=
  RoundRobin.itemsOf_map_of_mem k s.inputMessages (hv.inputSchedule_nodup ty) hk

/-- Serving the messages of `s` in the order `srcs`: ingress in order, buckets round robin. -/
structure Drains (s : CanisterQueues) (srcs : List InputSource) : Prop where
  ingress : srcs.filterMap InputSource.ingress? = s.ingressQueue.queue
  roundRobin : ∀ ty, srcs.filterMap (InputSource.fromBucket? ty) = RoundRobin.rounds (s.bucket ty)
  once : ∀ ty, (srcs.filterMap (InputSource.fromBucket? ty)).Perm (RoundRobin.items (s.bucket ty))
  fifo : ∀ ty, ∀ k ∈ s.inputSchedule ty,
    RoundRobin.ofKey k (srcs.filterMap (InputSource.fromBucket? ty)) = s.inputMessages k

theorem Valid.drains (hv : Valid L s) {srcs : List InputSource}
    (hingress : srcs.filterMap InputSource.ingress? = s.ingressQueue.queue)
    (hbuckets : ∀ ty, srcs.filterMap (InputSource.fromBucket? ty) = RoundRobin.rounds (s.bucket ty)) :
    Drains s srcs where
  ingress := hingress
  roundRobin := hbuckets
  once ty := by
    have hne := hv.inputPool_ok ty
    rw [CanisterQueues.inputPool_bucket] at hne
    rw [hbuckets ty]
    exact RoundRobin.rounds_perm _ hne
  fifo ty k hk := by
    have hkeys : ((s.bucket ty).map Prod.fst).Nodup := by
      simpa [CanisterQueues.bucket, List.map_map, Function.comp_def] using hv.inputSchedule_nodup ty
    rw [hbuckets ty, RoundRobin.ofKey_rounds k _ hkeys, hv.itemsOf_bucket hk]

/-- What `pop_input` guarantees: the queues keep their capacities and the schedules name the
senders with messages; a call finds a message exactly when `has_input` holds, and all are served
round robin. -/
structure InputScheduling (L : Layout) (s : CanisterQueues) : Prop where
  capacity : CapacityOk s.canisterQueues
  schedules : SchedulesExact s.schedules s.canisterQueues
  popInput : ∃ s' r, s.popInput L = .ok (s', r) ∧ (r.isSome ↔ s.hasInput = true)
  drain : ∃ (srcs : List InputSource) (s' : CanisterQueues),
    s.popInputs L (s.ingressQueue.size + s.inputQueuesStats.messageCount) =
      .ok (srcs.map fun src => some src.message, s') ∧ s'.hasInput = false ∧ Drains s srcs

theorem Valid.inputScheduling (hv : Valid L s) : InputScheduling L s where
  capacity := hv.capacity
  schedules := hv.schedules
  popInput := popInput_isSome_iff hv
  drain := by
    obtain ⟨srcs, s', hrun, hsize', hv', hingress, hbuckets⟩ :=
      popInputs_drain _ hv hv.inputPool_size
    refine ⟨srcs, s', hrun, ?_, hv.drains hingress hbuckets⟩
    rw [Bool.eq_false_iff]
    intro hinput
    have hpos := hv'.hasInput_iff.mp hinput
    omega

theorem inputScheduling_of_reachable (hs : CanisterQueues.Reachable L s) : InputScheduling L s :=
  (Reachable.valid hs).inputScheduling

/-- An ingress message, two requests from `a` on the local subnet and one from `b` on a remote
subnet, pushed onto the empty queues: the state is reachable, and the four pops take the local,
ingress and remote inputs in turn, `a`'s second request last. -/
theorem inputScheduling_two_senders :
    let a : CanisterId := ⟨[1], by decide⟩
    let b : CanisterId := ⟨[2], by decide⟩
    let req : CanisterId → String → Request := fun c m => ⟨⟨[0], by decide⟩, c, 0, m, []⟩
    let run := [(0, .request (req a "x"), .localSubnet), (1, .request (req a "y"), .localSubnet),
        (0, .request (req b "z"), .remoteSubnet)].foldlM
      (fun s p => Prod.fst <$> s.pushInput zeroLayout p.1 p.2.1 p.2.2)
      ((CanisterQueues.default zeroLayout).pushIngress zeroLayout ⟨"", []⟩)
    ∃ s, run = .ok s ∧ InputScheduling zeroLayout s ∧
      Prod.fst <$> s.popInputs zeroLayout 4 = .ok [some (.request (req a "x")),
        some (.ingress ⟨"", []⟩), some (.request (req b "z")), some (.request (req a "y"))] := by
  intro a b req run
  obtain ⟨s, hrun, hpops⟩ := Except.exists_eq_ok_of_toOption_map (p := fun s =>
    decide (Prod.fst <$> s.popInputs zeroLayout 4 = .ok [some (.request (req a "x")),
      some (.ingress ⟨"", []⟩), some (.request (req b "z")), some (.request (req a "y"))]))
    (x := run) (by decide +kernel)
  exact ⟨s, hrun, inputScheduling_of_reachable
    (CanisterQueues.Reachable.pushInputs _ (.single (.pushIngress _ _)) hrun), of_decide_eq_true hpops⟩

end IC.Queues
