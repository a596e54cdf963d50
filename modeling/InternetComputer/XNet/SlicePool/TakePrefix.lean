import InternetComputer.XNet.SlicePool.Payload

/-!
# Taking a prefix of a payload

`Payload::take_prefix` of `certified_slice_pool.rs`: the longest prefix of a payload's messages
whose estimate, with its witness's, keeps to a byte limit and whose length keeps to a message
limit.

* `PrefixFits`, `cutoffLoop_eq`: the loop stops at the first message whose prefix does not fit;
* **`Payload.takePrefix_cases`**: nothing when the header does not fit, the payload when it fits,
  and otherwise the first `k` messages, whose prefixes fit while the first `k + 1` do not.
-/

namespace IC.XNet.SlicePool

open IC.TreeHash IC.CanonicalState

/-- `usize::MAX`, the limit when none is given. -/
def usizeMax : ℕ := 2 ^ 64 - 1

/-- The loop of `Payload::take_prefix` from the `i`-th message, with `byteSize` the estimate
before it: the final estimate, and the label of the first message that does not fit. -/
def cutoffLoop (streamBegin streamEnd sliceBegin messageLimit byteLimit : ℕ) :
    ℕ → ℕ → PayloadTreeMap → Except CertifiedSliceError (ℕ × Option Label)
  | _, byteSize, [] => pure (byteSize, none)
  | i, byteSize, (label, message) :: messages => do
    let messageByteSize ← messageByteSize message
    let witnessByteSize ←
      witnessCountBytes streamBegin streamEnd (some sliceBegin) (some (sliceBegin + (1 + i)))
    if byteSize + messageByteSize + witnessByteSize > byteLimit ∨ i ≥ messageLimit then
      pure (byteSize, some label)
    else
      cutoffLoop streamBegin streamEnd sliceBegin messageLimit byteLimit (i + 1)
        (byteSize + messageByteSize) messages

/-- `Payload::take_prefix`: the prefix within the limits, and the rest. -/
def Payload.takePrefix (p : Payload) (messageLimit byteLimit : Option ℕ) :
    Except CertifiedSliceError (Option Payload × Option Payload) := do
  let messageLimit := messageLimit.getD usizeMax
  let byteLimit := byteLimit.getD usizeMax
  let rejectSignalsBytes := p.rejectSignalsCountBytes
  if byteLimit < emptyPayloadBytes + rejectSignalsBytes + noMessagesWitnessBytes then
    return (none, some p)
  let streamBegin := p.header.begin
  let streamEnd := p.header.end_
  let witnessBytes ← witnessCountBytes streamBegin streamEnd (p.messages.map Messages.begin)
    (p.messages.map Messages.end_)
  if p.len ≤ messageLimit ∧ p.countBytes + witnessBytes ≤ byteLimit then
    return (some p, none)
  let messages ← (Rust.expect p.messages "Non-zero byte size for empty `messages`.").mapError
    .panic
  let (byteSize, cutoff) ← cutoffLoop streamBegin streamEnd messages.begin messageLimit byteLimit
    0 (nonEmptyPayloadFixedBytes + rejectSignalsBytes) messages.messages
  let cutoff ← match cutoff with
    | some cutoff => pure cutoff
    | none => throw (.panic
        s!"Invalid `messages_count_bytes`: was {messages.countBytes}, expecting {byteSize}")
  let (pre, p) ← p.takeMessagesPrefix cutoff
  if p.messages.isNone then
    throw (.panic s!"`take_messages_prefix()` produced an empty postfix for existing key {cutoff}")
  let pre ← p.newPartial pre
  pure (some pre, some p)


/-! ## The first messages of a payload -/

namespace Payload

/-- The payload with its first `n` messages only, none for `n = 0`. -/
def firstMessages (p : Payload) (n : ℕ) : Payload :=
  match p.messages with
  | some m =>
    let messages := m.messages.take n
    { p with messages := if n = 0 then none else some ⟨messages, messagesBytes messages, m.begin⟩ }
  | none => p

/-- The payload without its first `n` messages. -/
def dropMessages (p : Payload) (n : ℕ) : Payload :=
  match p.messages with
  | some m =>
    let messages := m.messages.drop n
    { p with messages := some ⟨messages, messagesBytes messages, m.begin + n⟩ }
  | none => p

/-- The witness estimate of a payload's slice. -/
def witnessBytes (p : Payload) : ℕ :=
  match p.messages with
  | some m => witnessEstimate (p.header.end_ - p.header.begin) (m.begin - p.header.begin)
      (p.header.end_ - m.end_) m.len
  | none => noMessagesWitnessBytes

end Payload

/-- The first `n` messages of a payload keep to the limits. -/
def PrefixFits (p : Payload) (messageLimit byteLimit n : ℕ) : Prop :=
  n ≤ messageLimit ∧ (p.firstMessages n).countBytes + (p.firstMessages n).witnessBytes ≤ byteLimit

instance {p : Payload} {messageLimit byteLimit n : ℕ} :
    Decidable (PrefixFits p messageLimit byteLimit n) :=
  inferInstanceAs (Decidable (_ ∧ _))

namespace Payload

variable {p : Payload} {m : Messages}

@[simp] theorem rejectSignalsCountBytes_firstMessages (n : ℕ) :
    (p.firstMessages n).rejectSignalsCountBytes = p.rejectSignalsCountBytes := by
  unfold firstMessages
  split <;> rfl

@[simp] theorem header_firstMessages (n : ℕ) : (p.firstMessages n).header = p.header := by
  unfold firstMessages
  split <;> rfl

theorem firstMessages_zero (hm : p.messages = some m) :
    p.firstMessages 0 = { p with messages := none } := by
  simp [firstMessages, hm]

theorem firstMessages_of_pos (hm : p.messages = some m) {n : ℕ} (hn : 0 < n) :
    p.firstMessages n =
      { p with messages := some (.mk (m.messages.take n) (messagesBytes (m.messages.take n)) m.begin) } := by
  simp [firstMessages, hm, Nat.pos_iff_ne_zero.mp hn]

theorem firstMessages_len (hp : p.Valid) : p.firstMessages p.len = p := by
  rcases hm : p.messages with _ | m
  · simp [firstMessages, hm]
  · obtain ⟨hmv, -, -⟩ := hp m hm
    have hpos : 0 < m.len := List.length_pos_iff.mpr hmv.ne_nil
    have hlen : p.len = m.len := by simp [len, hm]
    rw [hlen, firstMessages_of_pos hm hpos]
    cases p
    cases hm
    simp only [Messages.len, List.take_length, ← hmv.countBytes_eq]

theorem witnessCountBytes_valid (hp : p.Valid) :
    witnessCountBytes p.header.begin p.header.end_ (p.messages.map Messages.begin)
      (p.messages.map Messages.end_) = .ok p.witnessBytes := by
  rcases hm : p.messages with _ | m
  · simp [witnessBytes, hm, witnessCountBytes_none]
  · obtain ⟨hmv, hb, he⟩ := hp m hm
    have hpos : 0 < m.len := List.length_pos_iff.mpr hmv.ne_nil
    simp only [Option.map_some, witnessBytes, hm]
    exact witnessCountBytes_some hb he hpos

theorem firstMessages_bytes (hp : p.Valid) (hm : p.messages = some m) {n : ℕ} (hn : 0 < n)
    (hle : n ≤ m.len) :
    (p.firstMessages n).countBytes =
        nonEmptyPayloadFixedBytes + p.rejectSignalsCountBytes + messagesBytes (m.messages.take n) ∧
      witnessCountBytes p.header.begin p.header.end_ (some m.begin) (some (m.begin + n)) =
        .ok (p.firstMessages n).witnessBytes := by
  obtain ⟨-, hb, he⟩ := hp m hm
  rw [firstMessages_of_pos hm hn]
  refine ⟨rfl, ?_⟩
  have he' : m.begin + n ≤ p.header.end_ := by unfold Messages.end_ at he; omega
  have hle' : n ≤ m.messages.length := hle
  rw [witnessCountBytes_some hb he' hn]
  simp only [witnessBytes, Messages.end_, Messages.len, List.length_take, Nat.min_eq_left hle']

end Payload

/-! ## The loop -/

section Loop

variable {p : Payload} {m : Messages}

theorem prefixFits_succ_iff (hp : p.Valid) (hm : p.messages = some m) {ml bl : ℕ}
    {pre : PayloadTreeMap} {label : Label} {value : List UInt8}
    (htake : m.messages.take (pre.length + 1) = pre ++ [(label, .leaf value)])
    (hlen : pre.length + 1 ≤ m.len) :
    PrefixFits p ml bl (pre.length + 1) ↔
      ¬ (nonEmptyPayloadFixedBytes + p.rejectSignalsCountBytes + messagesBytes pre +
          leafByteSize (.leaf value) + (p.firstMessages (pre.length + 1)).witnessBytes > bl ∨
        pre.length ≥ ml) := by
  obtain ⟨hbytes, -⟩ := Payload.firstMessages_bytes hp hm (Nat.succ_pos pre.length) hlen
  unfold PrefixFits
  rw [hbytes, htake, messagesBytes_append, messagesBytes_cons, messagesBytes_nil]
  dsimp only
  omega

/-- **The loop of `take_prefix`** stops at the first message whose prefix does not fit, with the
estimate before it, or at the end of the messages. -/
theorem cutoffLoop_eq (hp : p.Valid) (hm : p.messages = some m) (ml bl : ℕ) :
    ∀ (l pre : PayloadTreeMap), pre ++ l = m.messages →
      ∃ k, pre.length ≤ k ∧ k ≤ m.len ∧ (∀ j, pre.length < j → j ≤ k → PrefixFits p ml bl j) ∧
        (k < m.len → ¬ PrefixFits p ml bl (k + 1)) ∧
        cutoffLoop p.header.begin p.header.end_ m.begin ml bl pre.length
            (nonEmptyPayloadFixedBytes + p.rejectSignalsCountBytes + messagesBytes pre) l =
          .ok (nonEmptyPayloadFixedBytes + p.rejectSignalsCountBytes +
              messagesBytes (m.messages.take k), (m.messages[k]?).map Prod.fst)
  | [], pre, h => by
    rw [List.append_nil] at h
    have hlen : pre.length = m.len := by rw [h]; rfl
    refine ⟨pre.length, le_rfl, hlen.le, fun j h₁ h₂ => absurd h₂ (by omega),
      fun h => absurd h (by omega), ?_⟩
    rw [← h]
    simp [cutoffLoop]
  | (label, message) :: l, pre, h => by
    obtain ⟨hmv, -, -⟩ := hp m hm
    obtain ⟨value, hv⟩ :=
      hmv.leaves (label, message) (h ▸ List.mem_append_right pre List.mem_cons_self)
    subst hv
    have hlen : pre.length + 1 ≤ m.len := by
      have := congrArg List.length h
      simp only [List.length_append, List.length_cons] at this
      show pre.length + 1 ≤ m.messages.length
      omega
    have htake : m.messages.take (pre.length + 1) = pre ++ [(label, .leaf value)] := by
      rw [← h, List.take_append, List.take_of_length_le (by omega), Nat.add_sub_cancel_left]
      rfl
    obtain ⟨-, hwit⟩ := Payload.firstMessages_bytes hp hm (Nat.succ_pos pre.length) hlen
    rw [cutoffLoop, messageByteSize_leaf, Except.ok_bind, Nat.add_comm 1, hwit, Except.ok_bind]
    by_cases hstop : ¬ PrefixFits p ml bl (pre.length + 1)
    · rw [if_pos (not_not.mp ((not_congr (prefixFits_succ_iff hp hm htake hlen)).mp hstop))]
      refine ⟨pre.length, le_rfl, by omega,
        fun j h₁ h₂ => absurd h₂ (by omega), fun _ => hstop, ?_⟩
      have hpre : m.messages.take pre.length = pre := by rw [← h, List.take_left]
      have hat : m.messages[pre.length]? = some (label, .leaf value) := by
        rw [← h, List.getElem?_append_right le_rfl, Nat.sub_self]
        rfl
      rw [hpre, hat]
      rfl
    · have hfit := not_not.mp hstop
      rw [if_neg ((prefixFits_succ_iff hp hm htake hlen).mp hfit)]
      obtain ⟨k, hk₁, hk₂, hfits, hlast, hloop⟩ :=
        cutoffLoop_eq hp hm ml bl l (pre ++ [(label, .leaf value)]) (by rw [← h]; simp)
      have hacc : nonEmptyPayloadFixedBytes + p.rejectSignalsCountBytes +
          messagesBytes (pre ++ [(label, .leaf value)]) =
          nonEmptyPayloadFixedBytes + p.rejectSignalsCountBytes + messagesBytes pre +
            leafByteSize (.leaf value) := by
        simp only [messagesBytes_append, messagesBytes_cons, messagesBytes_nil]
        omega
      rw [List.length_append, List.length_singleton, hacc] at hloop
      rw [List.length_append, List.length_singleton] at hk₁ hfits
      refine ⟨k, by omega, hk₂, fun j h₁ h₂ => ?_, hlast, hloop⟩
      rcases Nat.lt_or_ge (pre.length + 1) j with hj | hj
      · exact hfits j hj h₂
      · rwa [show j = pre.length + 1 by omega]

end Loop

/-! ## The cases of `take_prefix` -/

namespace Payload

variable {p : Payload} {m : Messages}

theorem label_getElem? (hmv : m.Valid) {k : ℕ} (hk : k < m.len) :
    (m.messages[k]?).map Prod.fst = some (u64ToLabel (m.begin + k)) := by
  rw [← List.getElem?_map, hmv.keys, List.getElem?_map,
    List.getElem?_range' (show k < m.messages.length from hk), Nat.one_mul]
  rfl

theorem takeMessagesPrefix_at (hp : p.Valid) (hm : p.messages = some m) {k : ℕ}
    (hk : k < m.len) :
    p.takeMessagesPrefix (u64ToLabel (m.begin + k)) =
      .ok (if k = 0 then none else some (m.messages.take k), p.dropMessages k) := by
  obtain ⟨hmv, -, he⟩ := hp m hm
  have hend : m.end_ < 2 ^ 64 := lt_of_le_of_lt he p.header.end_lt
  have hlt : ¬ m.end_ ≤ m.begin + k := by unfold Messages.end_; omega
  rw [takeMessagesPrefix, hm]
  dsimp only
  rw [Messages.takePrefix_valid hmv hend.le (by unfold Messages.end_ at hend; omega), if_neg hlt,
    Except.ok_bind, Nat.add_sub_cancel_left, Nat.max_eq_right (Nat.le_add_right _ _)]
  by_cases hk0 : k = 0
  · simp [dropMessages, hm, hk0]
  · have hpos : ¬ m.begin + k ≤ m.begin := by omega
    simp [dropMessages, hm, hk0, hpos]

theorem newPartial_take (hp : p.Valid) (hm : p.messages = some m) {k : ℕ} (hk : k ≤ m.len)
    (q : Payload) (hq₁ : q.subnetId = p.subnetId) (hq₂ : q.header = p.header) :
    q.newPartial (if k = 0 then none else some (m.messages.take k)) = .ok (p.firstMessages k) := by
  obtain ⟨hmv, -, he⟩ := hp m hm
  by_cases hk0 : k = 0
  · subst hk0
    simp only [if_pos, newPartial, Option.mapM_none, firstMessages_zero hm]
    cases q
    cases hq₁
    cases hq₂
    rfl
  · have hv := hmv.take (Nat.pos_of_ne_zero hk0)
    have hend : m.end_ < 2 ^ 64 := lt_of_le_of_lt he p.header.end_lt
    have hnew := Messages.new_eq_ok hv.ne_nil hv.keys
      (show m.begin < 2 ^ 64 by unfold Messages.end_ Messages.len at hend; omega) hv.leaves
    simp only [hk0, if_false, newPartial, Option.mapM_some, hnew]
    rw [firstMessages_of_pos hm (Nat.pos_of_ne_zero hk0)]
    cases q
    cases hq₁
    cases hq₂
    rfl

theorem Valid.firstMessages (hp : p.Valid) (n : ℕ) : (p.firstMessages n).Valid := by
  rcases hm : p.messages with _ | m
  · simpa [Payload.firstMessages, hm] using hp
  · obtain ⟨hmv, hb, he⟩ := hp m hm
    rcases Nat.eq_zero_or_pos n with rfl | hn
    · rw [firstMessages_zero hm]
      exact fun _ h => nomatch h
    · rw [firstMessages_of_pos hm hn]
      intro m' hm'
      cases hm'
      refine ⟨hmv.take hn, hb, le_trans ?_ he⟩
      simp only [Messages.end_, Messages.len, List.length_take]
      omega

theorem Valid.dropMessages (hp : p.Valid) (hm : p.messages = some m) {k : ℕ} (hk : k < m.len) :
    (p.dropMessages k).Valid := by
  obtain ⟨hmv, hb, he⟩ := hp m hm
  simp only [Payload.dropMessages, hm]
  intro m' hm'
  cases hm'
  refine ⟨hmv.drop hk, show p.header.begin ≤ m.begin + k by omega, le_trans ?_ he⟩
  simp only [Messages.end_, Messages.len, List.length_drop]
  unfold Messages.len at hk
  omega

@[simp] theorem messageList_firstMessages (n : ℕ) :
    (p.firstMessages n).messageList = p.messageList.take n := by
  rcases hm : p.messages with _ | m
  · simp [firstMessages, messageList, hm]
  · rcases Nat.eq_zero_or_pos n with rfl | hn
    · simp [firstMessages_zero hm, messageList, hm]
    · simp [firstMessages_of_pos hm hn, messageList, hm]

@[simp] theorem messageList_dropMessages (n : ℕ) :
    (p.dropMessages n).messageList = p.messageList.drop n := by
  rcases hm : p.messages with _ | m
  · simp [dropMessages, messageList, hm]
  · simp [dropMessages, messageList, hm]

theorem len_eq_length_messageList : p.len = p.messageList.length := by
  rcases hm : p.messages with _ | m
  · simp [len, messageList, hm]
  · simp [len, messageList, hm, Messages.len]

@[simp] theorem len_firstMessages (n : ℕ) : (p.firstMessages n).len = min n p.len := by
  rw [len_eq_length_messageList, len_eq_length_messageList, messageList_firstMessages,
    List.length_take]

@[simp] theorem len_dropMessages (n : ℕ) : (p.dropMessages n).len = p.len - n := by
  rw [len_eq_length_messageList, len_eq_length_messageList, messageList_dropMessages,
    List.length_drop]

theorem messagesBegin_firstMessages {n : ℕ} (hn : 0 < n) :
    (p.firstMessages n).messagesBegin = p.messagesBegin := by
  rcases hm : p.messages with _ | m
  · simp [firstMessages, messagesBegin, hm]
  · simp [firstMessages_of_pos hm hn, messagesBegin, hm]

theorem messagesBegin_of_firstMessages {n i : ℕ} (h : (p.firstMessages n).messagesBegin = some i) :
    p.messagesBegin = some i := by
  rcases Nat.eq_zero_or_pos n with rfl | hn
  · rcases hm : p.messages with _ | m
    · simpa [firstMessages, hm] using h
    · simp [firstMessages_zero hm, messagesBegin] at h
  · rwa [messagesBegin_firstMessages hn] at h

theorem countBytes_firstMessages_zero :
    (p.firstMessages 0).countBytes = emptyPayloadBytes + p.rejectSignalsCountBytes := by
  rcases hm : p.messages with _ | m
  · simp only [firstMessages, hm, countBytes]
  · rw [firstMessages_zero hm]
    rfl

theorem witnessBytes_firstMessages_zero : (p.firstMessages 0).witnessBytes = noMessagesWitnessBytes := by
  rcases hm : p.messages with _ | m
  · simp only [firstMessages, hm, witnessBytes]
  · rw [firstMessages_zero hm]
    rfl

/-- **The cases of `take_prefix`**: nothing when the header does not fit, everything when all
fits, and otherwise the first `k` messages, for the largest `k` that fits. -/
theorem takePrefix_cases (hp : p.Valid) (messageLimit byteLimit : Option ℕ) :
    (byteLimit.getD usizeMax < emptyPayloadBytes + p.rejectSignalsCountBytes + noMessagesWitnessBytes ∧
        p.takePrefix messageLimit byteLimit = .ok (none, some p)) ∨
      (PrefixFits p (messageLimit.getD usizeMax) (byteLimit.getD usizeMax) p.len ∧
        p.takePrefix messageLimit byteLimit = .ok (some p, none)) ∨
      (∃ k < p.len, (∀ j ≤ k, PrefixFits p (messageLimit.getD usizeMax) (byteLimit.getD usizeMax) j) ∧
        ¬ PrefixFits p (messageLimit.getD usizeMax) (byteLimit.getD usizeMax) (k + 1) ∧
        p.takePrefix messageLimit byteLimit = .ok (some (p.firstMessages k), some (p.dropMessages k))) := by
  by_cases hA : byteLimit.getD usizeMax < emptyPayloadBytes + p.rejectSignalsCountBytes + noMessagesWitnessBytes
  · left
    refine ⟨hA, ?_⟩
    simp only [takePrefix, hA, if_true]
    rfl
  right
  have hw := witnessCountBytes_valid hp
  have hfits₀ : PrefixFits p (messageLimit.getD usizeMax) (byteLimit.getD usizeMax) 0 := by
    refine ⟨Nat.zero_le _, ?_⟩
    rw [countBytes_firstMessages_zero, witnessBytes_firstMessages_zero]
    omega
  by_cases hB : PrefixFits p (messageLimit.getD usizeMax) (byteLimit.getD usizeMax) p.len
  · left
    have hB' : p.len ≤ messageLimit.getD usizeMax ∧
        p.countBytes + p.witnessBytes ≤ byteLimit.getD usizeMax := by
      simpa only [PrefixFits, firstMessages_len hp] using hB
    refine ⟨hB, ?_⟩
    simp only [takePrefix, hA, if_false, hw, Except.ok_bind, hB', and_self, if_true]
    rfl
  · right
    have hB' : ¬ (p.len ≤ messageLimit.getD usizeMax ∧
        p.countBytes + p.witnessBytes ≤ byteLimit.getD usizeMax) := by
      simpa only [PrefixFits, firstMessages_len hp] using hB
    rcases hm : p.messages with _ | m
    · have hlen : p.len = 0 := by simp [len, hm]
      exact absurd (hlen ▸ hfits₀) hB
    have hlen : p.len = m.len := by simp [len, hm]
    obtain ⟨k, -, hk, hfits, hlast, hloop⟩ := cutoffLoop_eq hp hm (messageLimit.getD usizeMax)
      (byteLimit.getD usizeMax) m.messages [] (List.nil_append _)
    have hkl : k < m.len := by
      by_contra hge
      have hkm : k = m.len := by omega
      have hpos : 0 < m.len := List.length_pos_iff.mpr (hp m hm).1.ne_nil
      exact hB (hlen ▸ hkm ▸ hfits k (hkm ▸ hpos) le_rfl)
    refine ⟨k, hlen ▸ hkl, fun j hj => ?_, hlast hkl, ?_⟩
    · rcases Nat.eq_zero_or_pos j with rfl | hj₀
      · exact hfits₀
      · exact hfits j hj₀ hj
    · rw [label_getElem? (hp m hm).1 hkl] at hloop
      simp only [List.length_nil, messagesBytes_nil, Nat.add_zero] at hloop
      rw [hm, Option.map_some, Option.map_some] at hw
      have hdrop : (p.dropMessages k).messages.isNone = false := by simp [dropMessages, hm]
      simp only [takePrefix, hA, if_false, hm, Option.map_some, hw, Except.ok_bind, hB',
        Rust.expect, Except.mapError, hloop, pure_bind, takeMessagesPrefix_at hp hm hkl, hdrop,
        Bool.false_eq_true, newPartial_take hp hm hk (p.dropMessages k)
          (by simp [dropMessages, hm]) (by simp [dropMessages, hm])]
      rfl


end Payload

end IC.XNet.SlicePool
