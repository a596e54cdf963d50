import InternetComputer.Ingress.Induction
import Mathlib

/-!
# Replay protection of the ingress history

A message is inducted once as long as its expiry is at most `MAX_INGRESS_TTL` after the time of
its block: its status stays in the history until its pruning time, at least `MAX_INGRESS_TTL`
after its induction. The window of `validate_ingress_expiry` is thirty seconds wider.

* `ReplayInv`, with one step lemma for each thing a batch does;
* **`received_at_most_once`**: no message is set to `Received` twice in a run whose expiries stay
  within `MAX_INGRESS_TTL`;
* **`message_inducted_twice`**: a valid run of three blocks inducts one message twice.
-/

namespace IC.Ingress

variable {μ : Type} [DecidableEq μ] (E : μ → Time)

/-- The invariant of a run: `E` gives each message's expiry, `seen` the messages of the payloads
so far, and `received` those set to `Received` so far. -/
structure ReplayInv (s : ReplicatedState μ) (seen : Set μ) (received : List μ) : Prop where
  /-- A message seen has a status, or has expired. -/
  pending : ∀ id ∈ seen, s.getIngressStatus id ≠ .unknown ∨ E id < s.time
  withinTtl : ∀ id ∈ seen, E id ≤ s.time + maxIngressTtl
  /-- A message is pruned no earlier than its expiry. -/
  enrolled : ∀ e ∈ s.ingressHistory.pruningTimes, e.2 ∈ seen ∧ E e.2 ≤ e.1
  receivedSeen : ∀ id ∈ received, id ∈ seen
  receivedNodup : received.Nodup

namespace ReplayInv

variable {E} {s : ReplicatedState μ} {seen : Set μ} {received : List μ}

omit [DecidableEq μ] in
theorem initial : ReplayInv E .initial ∅ [] where
  pending _ h := absurd h (Set.notMem_empty _)
  withinTtl _ h := absurd h (Set.notMem_empty _)
  enrolled _ h := absurd h List.not_mem_nil
  receivedSeen _ h := absurd h List.not_mem_nil
  receivedNodup := List.nodup_nil

omit [DecidableEq μ] in
theorem advance (hinv : ReplayInv E s seen received) {time : Time} (ht : s.time ≤ time) :
    ReplayInv E { s with time } seen received where
  pending id hid := by
    rcases hinv.pending id hid with h | h
    · exact Or.inl h
    · exact Or.inr (lt_of_lt_of_le h ht)
  withinTtl id hid := le_trans (hinv.withinTtl id hid) (Nat.add_le_add_right ht _)
  enrolled := hinv.enrolled
  receivedSeen := hinv.receivedSeen
  receivedNodup := hinv.receivedNodup

theorem enrolled_setIngressStatus (hinv : ReplayInv E s seen received) {id : μ}
    {status : IngressStatus} (hid : id ∈ seen ∨ E id ≤ s.time + maxIngressTtl)
    {seen' : Set μ} (hsub : seen ⊆ seen') (hid' : id ∈ seen') :
    ∀ e ∈ (s.setIngressStatus id status).ingressHistory.pruningTimes, e.2 ∈ seen' ∧ E e.2 ≤ e.1 := by
  intro e he
  rcases IngressHistoryState.mem_pruningTimes_insert he with he | rfl
  · exact ⟨hsub (hinv.enrolled e he).1, (hinv.enrolled e he).2⟩
  · refine ⟨hid', ?_⟩
    rcases hid with hid | hid
    · exact hinv.withinTtl id hid
    · exact hid

theorem setIngressStatus (hinv : ReplayInv E s seen received) {id : μ} {status : IngressStatus}
    (hid : id ∈ seen) (hstatus : status ≠ .unknown ∨ s.getIngressStatus id = .unknown) :
    ReplayInv E (s.setIngressStatus id status) seen received where
  pending id' hid' := by
    rw [ReplicatedState.getIngressStatus_setIngressStatus, ReplicatedState.time_setIngressStatus]
    by_cases he : id' = id
    · subst he
      rw [if_pos rfl]
      rcases hstatus with hstatus | hstatus
      · exact Or.inl hstatus
      · rcases hinv.pending id' hid' with h | h
        · exact absurd hstatus h
        · exact Or.inr h
    · rw [if_neg he]
      exact hinv.pending id' hid'
  withinTtl := hinv.withinTtl
  enrolled := hinv.enrolled_setIngressStatus (Or.inl hid) subset_rfl hid
  receivedSeen := hinv.receivedSeen
  receivedNodup := hinv.receivedNodup

theorem setStatus (hinv : ReplayInv E s seen received) {id : μ} {status : IngressStatus}
    {s' : ReplicatedState μ} (hid : id ∈ seen) (h : setStatus s id status = .ok s') :
    ReplayInv E s' seen received ∧ s'.time = s.time := by
  obtain ⟨hvalid, rfl⟩ := setStatus_eq_ok_iff.mp h
  refine ⟨hinv.setIngressStatus hid ?_, rfl⟩
  by_cases hs : status = .unknown
  · subst hs
    exact Or.inr (isInvalidTransition_unknown_eq_false.mp hvalid)
  · exact Or.inl hs

theorem writeStatuses (hinv : ReplayInv E s seen received) {executed : List (μ × IngressStatus)}
    {s' : ReplicatedState μ} (hseen : ∀ w ∈ executed, w.1 ∈ seen)
    (h : writeStatuses s executed = .ok s') : ReplayInv E s' seen received ∧ s'.time = s.time := by
  refine Except.foldlM_invariant (P := fun s' => ReplayInv E s' seen received ∧ s'.time = s.time)
    executed ?_ ⟨hinv, rfl⟩ h
  rintro s₁ w hw s₂ ⟨hinv₁, ht₁⟩ hstep
  obtain ⟨hinv₂, ht₂⟩ := hinv₁.setStatus (hseen w hw) hstep
  exact ⟨hinv₂, ht₂.trans ht₁⟩

theorem pruneIngressHistory (hinv : ReplayInv E s seen received) :
    ReplayInv E s.pruneIngressHistory seen received where
  pending id hid := by
    rw [ReplicatedState.time_pruneIngressHistory]
    by_cases hpruned : ∃ t, (t, id) ∈ s.ingressHistory.pruningTimes ∧ t < s.time
    · obtain ⟨t, hmem, ht⟩ := hpruned
      exact Or.inr (lt_of_le_of_lt (hinv.enrolled _ hmem).2 ht)
    · simp only [not_exists, not_and, not_lt] at hpruned
      change (s.ingressHistory.prune s.time).get id ≠ .unknown ∨ _
      rw [IngressHistoryState.get_prune_of_not_enrolled hpruned]
      exact hinv.pending id hid
  withinTtl := hinv.withinTtl
  enrolled e he := hinv.enrolled e (IngressHistoryState.mem_pruningTimes_prune.mp he).1
  receivedSeen := hinv.receivedSeen
  receivedNodup := hinv.receivedNodup

omit [DecidableEq μ] in
theorem insert_of_known (hinv : ReplayInv E s seen received) {id : μ}
    (hknown : s.getIngressStatus id ≠ .unknown) (hwithin : E id ≤ s.time + maxIngressTtl) :
    ReplayInv E s (insert id seen) received where
  pending id' hid' := by
    rcases Set.mem_insert_iff.mp hid' with rfl | hid'
    · exact Or.inl hknown
    · exact hinv.pending id' hid'
  withinTtl id' hid' := by
    rcases Set.mem_insert_iff.mp hid' with rfl | hid'
    · exact hwithin
    · exact hinv.withinTtl id' hid'
  enrolled e he := ⟨Set.mem_insert_of_mem id (hinv.enrolled e he).1, (hinv.enrolled e he).2⟩
  receivedSeen id' hid' := Set.mem_insert_of_mem id (hinv.receivedSeen id' hid')
  receivedNodup := hinv.receivedNodup

theorem setIngressStatus_insert (hinv : ReplayInv E s seen received) {id : μ}
    {status : IngressStatus} (hstatus : status ≠ .unknown)
    (hwithin : E id ≤ s.time + maxIngressTtl) :
    ReplayInv E (s.setIngressStatus id status) (insert id seen) received where
  pending id' hid' := by
    rw [ReplicatedState.getIngressStatus_setIngressStatus, ReplicatedState.time_setIngressStatus]
    by_cases he : id' = id
    · rw [if_pos he]
      exact Or.inl hstatus
    · rw [if_neg he]
      exact hinv.pending id' ((Set.mem_insert_iff.mp hid').resolve_left he)
  withinTtl id' hid' := by
    rcases Set.mem_insert_iff.mp hid' with rfl | hid'
    · exact hwithin
    · exact hinv.withinTtl id' hid'
  enrolled := hinv.enrolled_setIngressStatus (Or.inr hwithin) (Set.subset_insert id seen)
    (Set.mem_insert id seen)
  receivedSeen id' hid' := Set.mem_insert_of_mem id (hinv.receivedSeen id' hid')
  receivedNodup := hinv.receivedNodup

omit [DecidableEq μ] in
/-- **A message without a status that has not expired was never received.** -/
theorem not_mem_received (hinv : ReplayInv E s seen received) {id : μ}
    (hunknown : s.getIngressStatus id = .unknown) (hlive : s.time ≤ E id) : id ∉ received := by
  intro hmem
  rcases hinv.pending id (hinv.receivedSeen id hmem) with h | h
  · exact h hunknown
  · exact absurd hlive (not_le.mpr h)

omit [DecidableEq μ] in
theorem receive (hinv : ReplayInv E s seen received) {id : μ} (hid : id ∈ seen)
    (hfresh : id ∉ received) : ReplayInv E s seen (received ++ [id]) where
  pending := hinv.pending
  withinTtl := hinv.withinTtl
  enrolled := hinv.enrolled
  receivedSeen id' hid' := by
    rcases List.mem_append.mp hid' with hid' | hid'
    · exact hinv.receivedSeen id' hid'
    · rw [List.mem_singleton.mp hid']
      exact hid
  receivedNodup := List.nodup_append.mpr ⟨hinv.receivedNodup, List.nodup_cons.mpr ⟨List.not_mem_nil, List.nodup_nil⟩,
    fun a ha b hb hab => hfresh (by rw [List.mem_singleton.mp hb] at hab; exact hab ▸ ha)⟩


/-! ## A batch and a run -/

/-- **Induction keeps the invariant**: a message set to `Received` was never received. -/
theorem inductMessages (enqueue : IngressMessageId μ → Bool) :
    ∀ (msgs : List (IngressMessageId μ)) {s s' : ReplicatedState μ} {seen : Set μ}
      {received : List μ} {ws : List (μ × IngressStatus)},
      ReplayInv E s seen received →
      (∀ m ∈ msgs, m.expiry = E m.messageId ∧ s.time ≤ m.expiry ∧
        m.expiry ≤ s.time + maxIngressTtl) →
      Ingress.inductMessages enqueue s msgs = .ok (s', ws) →
      ReplayInv E s' (seen ∪ {id | ∃ m ∈ msgs, m.messageId = id})
          (received ++ (ws.filter fun w => w.2.isReceived).map Prod.fst) ∧ s'.time = s.time
  | [], s, s', seen, received, ws, hinv, _, h => by
    rw [Ingress.inductMessages] at h
    obtain ⟨rfl, rfl⟩ := Prod.mk.inj (Except.ok.inj h)
    have hseen : seen ∪ {id | ∃ m ∈ ([] : List (IngressMessageId μ)), m.messageId = id} = seen := by
      simp
    rw [hseen, List.filter_nil, List.map_nil, List.append_nil]
    exact ⟨hinv, rfl⟩
  | m :: msgs, s, s', seen, received, ws, hinv, hmsgs, h => by
    obtain ⟨hE, hlive, hwithin⟩ := hmsgs m List.mem_cons_self
    have hseen : seen ∪ {id | ∃ m' ∈ m :: msgs, m'.messageId = id} =
        insert m.messageId seen ∪ {id | ∃ m' ∈ msgs, m'.messageId = id} := by
      ext id
      simp only [Set.mem_union, Set.mem_insert_iff, Set.mem_ofPred_eq, List.mem_cons,
        exists_eq_or_imp]
      tauto
    rw [Ingress.inductMessages] at h
    split at h
    · -- a message without a status is inducted
      rename_i hfresh
      have hunknown := isDuplicate_eq_false_iff.mp (by simpa using hfresh)
      obtain ⟨⟨s₁, w⟩, hind, h⟩ := Except.bind_eq_ok.mp h
      obtain ⟨⟨s₂, ws'⟩, hrec, h⟩ := Except.bind_eq_ok.mp h
      obtain ⟨rfl, rfl⟩ := Prod.mk.inj (Except.pure_eq_ok.mp h)
      obtain ⟨hw₁, hw₂, rfl⟩ := inductMessage_eq_ok hind
      have hinv₁ := hinv.setIngressStatus_insert hw₂ (hE ▸ hwithin)
      have hinv₂ : ReplayInv E (s.setIngressStatus m.messageId w.2) (insert m.messageId seen)
          (received ++ ([w].filter fun w => w.2.isReceived).map Prod.fst) := by
        cases hr : w.2.isReceived
        · simpa [hr] using hinv₁
        · have hnew := hinv.not_mem_received hunknown (hE ▸ hlive)
          simpa [hr, hw₁] using hinv₁.receive (Set.mem_insert _ _) hnew
      obtain ⟨hinv₃, ht₃⟩ := inductMessages enqueue msgs hinv₂
        (fun m' hm' => hmsgs m' (List.mem_cons_of_mem m hm')) hrec
      refine ⟨?_, ht₃⟩
      rw [hseen, show w :: ws' = [w] ++ ws' from rfl, List.filter_append, List.map_append,
        ← List.append_assoc]
      exact hinv₃
    · -- a message with a status is skipped
      rename_i hdup
      have hknown : s.getIngressStatus m.messageId ≠ .unknown := fun hu =>
        hdup (by simpa using isDuplicate_eq_false_iff.mpr hu)
      have hinv₁ := hinv.insert_of_known hknown (hE ▸ hwithin)
      obtain ⟨hinv₂, ht₂⟩ := inductMessages enqueue msgs hinv₁
        (fun m' hm' => hmsgs m' (List.mem_cons_of_mem m hm')) h
      rw [hseen]
      exact ⟨hinv₂, ht₂⟩

theorem processBatch (enqueue : IngressMessageId μ → Bool) (hinv : ReplayInv E s seen received)
    {time : Time} (ht : s.time ≤ time) {ingress : List (IngressMessageId μ)}
    {executed written : List (μ × IngressStatus)} {s' : ReplicatedState μ}
    (hmsgs : ∀ m ∈ ingress, m.expiry = E m.messageId ∧ time ≤ m.expiry ∧
      m.expiry ≤ time + maxIngressTtl)
    (hexec : ∀ w ∈ executed, w.2.isReceived = false ∧
      w.1 ∈ seen ∪ {id | ∃ m ∈ ingress, m.messageId = id})
    (h : Ingress.processBatch enqueue s time ingress executed = .ok (s', written)) :
    ReplayInv E s' (seen ∪ {id | ∃ m ∈ ingress, m.messageId = id})
        (received ++ (written.filter fun w => w.2.isReceived).map Prod.fst) ∧ s'.time = time := by
  unfold Ingress.processBatch at h
  obtain ⟨⟨s₁, inducted⟩, hind, h⟩ := Except.bind_eq_ok.mp h
  obtain ⟨s₂, hwrite, h⟩ := Except.bind_eq_ok.mp h
  obtain ⟨rfl, rfl⟩ := Prod.mk.inj (Except.pure_eq_ok.mp h)
  obtain ⟨hinv₁, ht₁⟩ := (hinv.advance ht).inductMessages enqueue ingress hmsgs hind
  obtain ⟨hinv₂, ht₂⟩ := hinv₁.writeStatuses (fun w hw => (hexec w hw).2) hwrite
  have hnone : (executed.filter fun w => w.2.isReceived) = [] :=
    List.filter_eq_nil_iff.mpr fun w hw => by simp [(hexec w hw).1]
  refine ⟨?_, by rw [ReplicatedState.time_pruneIngressHistory, ht₂, ht₁]⟩
  rw [List.filter_append, hnone, List.append_nil]
  exact hinv₂.pruneIngressHistory

theorem execute (enqueue : IngressMessageId μ → Bool) :
    ∀ (run : List (Block μ × List (μ × IngressStatus))) {s : ReplicatedState μ} {seen : Set μ}
      {received : List μ} {states : List (ReplicatedState μ)}
      {written : List (μ × IngressStatus)},
      ReplayInv E s seen received →
      (∀ p ∈ run, s.time ≤ p.1.context.time) →
      (run.map Prod.fst).Pairwise (fun a b => a.context.time ≤ b.context.time) →
      (∀ p ∈ run, ∀ m ∈ p.1.ingress, m.expiry = E m.messageId ∧ p.1.context.time ≤ m.expiry ∧
        m.expiry ≤ p.1.context.time + maxIngressTtl) →
      (∀ k (hk : k < run.length), ∀ w ∈ run[k].2, w.2.isReceived = false ∧
        (w.1 ∈ seen ∨ ∃ j, ∃ hj : j < run.length, j ≤ k ∧
          ∃ m ∈ run[j].1.ingress, m.messageId = w.1)) →
      Ingress.execute enqueue s run = .ok (states, written) →
      (received ++ (written.filter fun w => w.2.isReceived).map Prod.fst).Nodup
  | [], _, _, _, _, _, hinv, _, _, _, _, h => by
    rw [Ingress.execute] at h
    obtain ⟨-, rfl⟩ := Prod.mk.inj (Except.ok.inj h)
    simpa using hinv.receivedNodup
  | (b, executed) :: rest, s, seen, received, states, written, hinv, htime, hsorted, hmsgs,
      hexec, h => by
    rw [Ingress.execute] at h
    obtain ⟨⟨s₁, w₁⟩, hbatch, h⟩ := Except.bind_eq_ok.mp h
    obtain ⟨⟨states', w₂⟩, hrest, h⟩ := Except.bind_eq_ok.mp h
    obtain ⟨-, rfl⟩ := Prod.mk.inj (Except.pure_eq_ok.mp h)
    rw [List.map_cons, List.pairwise_cons] at hsorted
    -- execution in the first batch writes for messages seen or of its own payload
    have hexec₀ : ∀ w ∈ executed, w.2.isReceived = false ∧
        w.1 ∈ seen ∪ {id | ∃ m ∈ b.ingress, m.messageId = id} := by
      intro w hw
      obtain ⟨hr, hw'⟩ := hexec 0 (by simp) w hw
      refine ⟨hr, ?_⟩
      rcases hw' with hs | ⟨j, hj, hjk, m, hm, hmw⟩
      · exact Or.inl hs
      · obtain rfl : j = 0 := by omega
        exact Or.inr ⟨m, hm, hmw⟩
    obtain ⟨hinv₁, ht₁⟩ := hinv.processBatch enqueue (htime _ List.mem_cons_self)
      (hmsgs _ List.mem_cons_self) hexec₀ hbatch
    rw [List.filter_append, List.map_append, ← List.append_assoc]
    refine execute enqueue rest hinv₁ ?_ hsorted.2
      (fun p hp => hmsgs p (List.mem_cons_of_mem _ hp)) ?_ hrest
    · intro p hp
      rw [ht₁]
      exact hsorted.1 p.1 (List.mem_map_of_mem hp)
    · -- the indices of the rest are shifted by one
      intro k hk w hw
      obtain ⟨hr, hw'⟩ := hexec (k + 1) (by simp only [List.length_cons]; omega) w (by simpa using hw)
      refine ⟨hr, ?_⟩
      rcases hw' with hs | ⟨j, hj, hjk, m, hm, hmw⟩
      · exact Or.inl (Or.inl hs)
      · cases j with
        | zero => exact Or.inl (Or.inr ⟨m, by simpa using hm, hmw⟩)
        | succ j =>
          exact Or.inr ⟨j, by simp only [List.length_cons] at hj; omega, by omega, m,
            by simpa using hm, hmw⟩

end ReplayInv

/-- **Replay protection within `MAX_INGRESS_TTL`**: in a valid run of finalized blocks, no
message is set to `Received` twice. -/
theorem received_at_most_once (enqueue : IngressMessageId μ → Bool)
    (run : List (Block μ × List (μ × IngressStatus))) {states : List (ReplicatedState μ)}
    {written : List (μ × IngressStatus)}
    (hexec : execute enqueue .initial run = .ok (states, written))
    (hvalid : ValidRun (run.map Prod.fst) (.initial :: states))
    (hexpiry : ∀ p ∈ run, ∀ m ∈ p.1.ingress, m.expiry = E m.messageId ∧
      m.expiry ≤ p.1.context.time + maxIngressTtl)
    (hexecuted : ∀ k (hk : k < run.length), ∀ w ∈ run[k].2, w.2.isReceived = false ∧
      ∃ j, ∃ hj : j < run.length, j ≤ k ∧ ∃ m ∈ run[j].1.ingress, m.messageId = w.1) :
    ((written.filter fun w => w.2.isReceived).map Prod.fst).Nodup := by
  have hmsgs : ∀ p ∈ run, ∀ m ∈ p.1.ingress, m.expiry = E m.messageId ∧
      p.1.context.time ≤ m.expiry ∧ m.expiry ≤ p.1.context.time + maxIngressTtl := by
    intro p hp m hm
    obtain ⟨k, hk, rfl⟩ := List.getElem_of_mem hp
    have hblock := hvalid.2 k (by rw [List.length_map]; exact hk)
    rw [List.getElem_map] at hblock
    exact ⟨(hexpiry _ hp m hm).1, hblock.le_expiry m hm, (hexpiry _ hp m hm).2⟩
  have h := ReplayInv.execute (E := E) enqueue run ReplayInv.initial (fun _ _ => Nat.zero_le _)
    hvalid.1 hmsgs (fun k hk w hw => ⟨(hexecuted k hk w hw).1, Or.inr (hexecuted k hk w hw).2⟩)
    hexec
  simpa using h

/-- A message completed in the block that inducts it is inducted once. -/
example : (([(0, IngressStatus.known .received (10 ^ 9)), (0, .known .completed (10 ^ 9))].filter
    fun w => w.2.isReceived).map Prod.fst).Nodup :=
  received_at_most_once (fun _ => 10 ^ 9 + maxIngressTtl) (fun _ => true)
    [(⟨⟨10 ^ 9, 0⟩, [⟨10 ^ 9 + maxIngressTtl, 0⟩]⟩, [(0, .known .completed (10 ^ 9))])]
    rfl (by decide) (by decide) (by decide)

/-- The message of the replay, expiring `MAX_INGRESS_TTL + PERMITTED_DRIFT_AT_VALIDATOR` later. -/
def replayedMessage : IngressMessageId ℕ := ⟨10 ^ 9 + maxIngressTtl + permittedDriftAtValidator, 0⟩

/-- Three finalized blocks: the message, an empty block past its pruning time, the message. -/
def replayRun : List (Block ℕ × List (ℕ × IngressStatus)) :=
  [(⟨⟨10 ^ 9, 0⟩, [replayedMessage]⟩, [(0, .known .completed (10 ^ 9))]),
    (⟨⟨2 * 10 ^ 9 + maxIngressTtl, 1⟩, []⟩, []),
    (⟨⟨2 * 10 ^ 9 + maxIngressTtl, 2⟩, [replayedMessage]⟩, [])]

/-- **A valid run inducts one message twice**: its expiry is within `validate_ingress_expiry` but
past `MAX_INGRESS_TTL`, so the history prunes it while it can still be included. -/
theorem message_inducted_twice :
    ∃ states written, execute (fun _ => true) .initial replayRun = .ok (states, written) ∧
      ValidRun (replayRun.map Prod.fst) (.initial :: states) ∧
      (written.filter fun w => w.2.isReceived) =
        [(0, .known .received (10 ^ 9)), (0, .known .received (2 * 10 ^ 9 + maxIngressTtl))] := by
  refine ⟨_, _, rfl, ?_, ?_⟩
  · decide
  · decide

end IC.Ingress
