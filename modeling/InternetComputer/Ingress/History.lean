import Mathlib

/-!
# The ingress history

`IngressHistoryState` of the replicated state's `metadata_state.rs`: the status of each ingress
message, and the times at which the messages of terminal status are pruned. Times are
nanoseconds since the Unix epoch. A status reads as `Unknown` where the map has no entry. The
replies carried by completed and failed statuses, the receiver and the user of a status, and the
memory accounting with its transition of old terminal statuses to `Done` are left out: none of
them decides whether a status is `Unknown`.

* `IngressState`, `IngressStatus`, `IngressHistoryState`;
* `insert`: a terminal status is enrolled to be pruned at `time + MAX_INGRESS_TTL`;
* `prune`: the statuses enrolled before `time` are removed;
* `get_insert`, `get_prune_of_enrolled`, `get_prune_of_not_enrolled`, `mem_pruningTimes_insert`.
-/

namespace IC.Ingress

/-- `Time`, in nanoseconds since the Unix epoch. -/
abbrev Time := ℕ

/-- `ic_constants::MAX_INGRESS_TTL`: five minutes. -/
def maxIngressTtl : ℕ := 5 * 60 * 10 ^ 9

/-- `IngressState`. -/
inductive IngressState where
  | received
  | completed
  | failed
  | processing
  | done
  deriving DecidableEq, Repr

/-- The terminal states: `Completed`, `Failed` and `Done`. -/
def IngressState.isTerminal : IngressState → Bool
  | .completed | .failed | .done => true
  | .received | .processing => false

/-- `IngressStatus`: a known message, its state and the time of the state, or `Unknown`. -/
inductive IngressStatus where
  | known (state : IngressState) (time : Time)
  | unknown
  deriving DecidableEq, Repr

/-- `IngressHistoryState`, its pruning times as the list of their pairs. -/
structure IngressHistoryState (μ : Type) where
  statuses : μ → IngressStatus
  pruningTimes : List (Time × μ)

namespace IngressHistoryState

variable {μ : Type} [DecidableEq μ]

/-- The empty history. -/
def empty : IngressHistoryState μ := ⟨fun _ => .unknown, []⟩

/-- `IngressHistoryState::get`, with `Unknown` for a message without an entry. -/
def get (h : IngressHistoryState μ) (messageId : μ) : IngressStatus := h.statuses messageId

/-- `IngressHistoryState::insert`: a terminal status is pruned at `time + MAX_INGRESS_TTL`. -/
def insert (h : IngressHistoryState μ) (messageId : μ) (status : IngressStatus) (time : Time) :
    IngressHistoryState μ :=
  let pruningTimes :=
    match status with
    | .known state _ =>
      if state.isTerminal then h.pruningTimes ++ [(time + maxIngressTtl, messageId)]
      else h.pruningTimes
    | .unknown => h.pruningTimes
  ⟨Function.update h.statuses messageId status, pruningTimes⟩

/-- `IngressHistoryState::prune`: the messages enrolled before `time` lose their status. -/
def prune (h : IngressHistoryState μ) (time : Time) : IngressHistoryState μ :=
  ⟨fun messageId =>
      if h.pruningTimes.any (fun e => decide (e.1 < time) && decide (e.2 = messageId)) then
        .unknown
      else h.statuses messageId,
    h.pruningTimes.filter fun e => decide (time ≤ e.1)⟩

theorem get_insert (h : IngressHistoryState μ) (messageId : μ) (status : IngressStatus)
    (time : Time) (id : μ) :
    (h.insert messageId status time).get id = if id = messageId then status else h.get id := by
  simp only [insert, get, Function.update_apply]

theorem any_pruningTimes_iff (h : IngressHistoryState μ) (time : Time) (id : μ) :
    h.pruningTimes.any (fun e => decide (e.1 < time) && decide (e.2 = id)) = true ↔
      ∃ t, (t, id) ∈ h.pruningTimes ∧ t < time := by
  simp only [List.any_eq_true, Bool.and_eq_true, decide_eq_true_eq, Prod.exists]
  constructor
  · rintro ⟨t, i, hmem, ht, rfl⟩
    exact ⟨t, hmem, ht⟩
  · rintro ⟨t, hmem, ht⟩
    exact ⟨t, id, hmem, ht, rfl⟩

theorem get_prune_of_enrolled {h : IngressHistoryState μ} {time t : Time} {id : μ}
    (hmem : (t, id) ∈ h.pruningTimes) (ht : t < time) : (h.prune time).get id = .unknown := by
  simp only [prune, get]
  rw [if_pos ((any_pruningTimes_iff h time id).mpr ⟨t, hmem, ht⟩)]

theorem get_prune_of_not_enrolled {h : IngressHistoryState μ} {time : Time} {id : μ}
    (hnot : ∀ t, (t, id) ∈ h.pruningTimes → time ≤ t) : (h.prune time).get id = h.get id := by
  simp only [prune, get]
  rw [if_neg]
  rw [any_pruningTimes_iff]
  rintro ⟨t, hmem, ht⟩
  exact absurd (hnot t hmem) (Nat.not_le.mpr ht)

theorem mem_pruningTimes_prune {h : IngressHistoryState μ} {time : Time} {e : Time × μ} :
    e ∈ (h.prune time).pruningTimes ↔ e ∈ h.pruningTimes ∧ time ≤ e.1 := by
  simp [prune]

theorem mem_pruningTimes_insert {h : IngressHistoryState μ} {messageId : μ}
    {status : IngressStatus} {time : Time} {e : Time × μ}
    (he : e ∈ (h.insert messageId status time).pruningTimes) :
    e ∈ h.pruningTimes ∨ e = (time + maxIngressTtl, messageId) := by
  unfold insert at he
  dsimp only at he
  split at he
  · split_ifs at he
    · rcases List.mem_append.mp he with he | he
      · exact Or.inl he
      · exact Or.inr (List.mem_singleton.mp he)
    · exact Or.inl he
  · exact Or.inl he

end IngressHistoryState

end IC.Ingress
