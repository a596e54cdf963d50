import InternetComputer.XNet.SlicePool.TakePrefix

/-!
# Unpacked stream slices

`UnpackedStreamSlice` of `certified_slice_pool.rs`: a payload, its witness and the
certification. `append` checks the new witness only by where its messages begin.

* **`UnpackedStreamSlice.takePrefix_spec`**: over a valid payload, a prefix keeps to the limits,
  nothing is taken only when not even the header fits, and a prefix with a rest could not take
  the rest's first message;
* `UnpackedStreamSlice.garbageCollect_valid`, and **`UnpackedStreamSlice.append_eq_ok`**: a
  refused append changes nothing, an accepted one extends the messages gap-free;
* **`append_accepts_witness_beyond_messages`**: an append goes through with a witness that holds
  more messages than the payload.
-/

namespace IC.XNet.SlicePool

open IC.TreeHash IC.CanonicalState

/-- `Certification`, by what its `count_bytes` reads. -/
structure Certification where
  height : ℕ
  hash : List UInt8
  signatureCountBytes : ℕ

/-- `CountBytes for Certification`: 8 bytes of height, the hash, and the signature. -/
def Certification.countBytes (c : Certification) : ℕ := 8 + c.hash.length + c.signatureCountBytes

/-- `ExpectedIndices`: the position in a stream of the next message and the next signal. -/
structure ExpectedIndices where
  messageIndex : ℕ
  signalIndex : ℕ
  deriving DecidableEq, Repr

/-- `UnpackedStreamSlice`. -/
structure UnpackedStreamSlice (D : Type) where
  payload : Payload
  merkleProof : Witness D
  certification : Certification

/-- `slice_count_bytes`. -/
def sliceCountBytes (payload : Payload) (certification : Certification) :
    Except CertifiedSliceError ℕ := do
  let streamBegin := payload.header.begin
  let streamEnd := payload.header.end_
  let sliceBegin := payload.messagesBegin
  let sliceEnd := sliceBegin.map (· + payload.len)
  let witnessBytes ← witnessCountBytes streamBegin streamEnd sliceBegin sliceEnd
  pure (payload.countBytes + witnessBytes + certification.countBytes)

namespace UnpackedStreamSlice

variable {D : Type} (H : HashFns D)

/-- `CountBytes for UnpackedStreamSlice`. -/
def countBytes (s : UnpackedStreamSlice D) : Except CertifiedSliceError ℕ :=
  sliceCountBytes s.payload s.certification

/-- The match that ends `UnpackedStreamSlice::take_prefix`: each part as a slice, and for a split,
each with the other part's messages pruned from its witness. -/
def splitParts (s : UnpackedStreamSlice D) :
    Option Payload × Option Payload →
      Except CertifiedSliceError (Option (UnpackedStreamSlice D) × Option (UnpackedStreamSlice D))
  | (none, none) =>
    throw (.panic "internal error: entered unreachable code: slice with no messages or signals")
  | (none, some payload) => pure (none, some { s with payload })
  | (some payload, none) => pure (some { s with payload }, none)
  | (some prefixPayload, some postPayload) => do
    let certification := s.certification
    let (prefixWitness, postPayload) ← postPayload.prunedWitness H s.merkleProof
    let (merkleProof, prefixPayload) ← if prefixPayload.messages.isSome then
        prefixPayload.prunedWitness H s.merkleProof
      else pure (s.merkleProof, prefixPayload)
    pure (some ⟨prefixPayload, prefixWitness, certification⟩,
      some { s with payload := postPayload, merkleProof })

/-- `UnpackedStreamSlice::take_prefix`: the prefix within the limits, and the rest. -/
def takePrefix (s : UnpackedStreamSlice D) (msgLimit byteLimit : Option ℕ) :
    Except CertifiedSliceError (Option (UnpackedStreamSlice D) × Option (UnpackedStreamSlice D)) := do
  if let some limit := byteLimit then
    if s.certification.countBytes > limit then return (none, some s)
  let byteLimit := byteLimit.map (· - s.certification.countBytes)
  s.splitParts H (← s.payload.takePrefix msgLimit byteLimit)

/-- `UnpackedStreamSlice::garbage_collect`. -/
def garbageCollect (s : UnpackedStreamSlice D) (cutoff : ExpectedIndices) :
    Except CertifiedSliceError (Option (UnpackedStreamSlice D)) := do
  let (prunedTree, payload) ← s.payload.garbageCollect cutoff.messageIndex
  if cutoff.signalIndex ≥ payload.header.signalsEnd ∧ payload.messages.isNone then return none
  match prunedTree with
  | some prunedTree => do
    let merkleProof ← (pruneWitness H s.merkleProof prunedTree).mapError .witnessPruningFailed
    pure (some { s with payload, merkleProof })
  | none => pure (some { s with payload })

/-- `UnpackedStreamSlice::witness_messages_begin`. -/
def witnessMessagesBegin (s : UnpackedStreamSlice D) :
    Except CertifiedSliceError (Option ℕ) := do
  let streams ← match subWitness s.merkleProof labelStreams with
    | some streams => pure streams
    | none => throw (.invalidWitness .missingStreams)
  let (_, stream) ← match firstSubWitness streams with
    | some entry => pure entry
    | none => throw (.invalidWitness .missingStream)
  match (subWitness stream labelMessages).bind firstSubWitness with
  | some (label, _) => do
    let index ← (toStreamIndex label).mapError .invalidWitness
    pure (some index)
  | none => pure none

/-- `UnpackedStreamSlice::is_complete`: whether the messages begin where the witness's do. -/
def isComplete (s : UnpackedStreamSlice D) : Except CertifiedSliceError Bool := do
  let witnessBegin ← s.witnessMessagesBegin
  pure (decide (s.payload.messagesBegin = witnessBegin))

/-- The check that opens `UnpackedStreamSlice::append`: a partial slice's witness's messages
begin where the slice's messages do, or, when the slice has none, the partial slice is
complete. -/
def appendCheck (s partialSlice : UnpackedStreamSlice D) : Except CertifiedSliceError Unit :=
  let messagesBegin := s.payload.messagesBegin
  if messagesBegin.isSome then do
    let witnessBegin ← partialSlice.witnessMessagesBegin
    if messagesBegin ≠ witnessBegin then throw (.invalidAppend .indexMismatch)
  else do
    let complete ← partialSlice.isComplete
    if !complete then throw (.invalidAppend .indexMismatch)

/-- `UnpackedStreamSlice::append`: the partial slice is refused unless it passes `appendCheck`;
otherwise its payload is appended and its witness and certification taken. -/
def append (s partialSlice : UnpackedStreamSlice D) :
    UnpackedStreamSlice D × Except CertifiedSliceError Unit :=
  match s.appendCheck partialSlice with
  | .error e => (s, .error e)
  | .ok () =>
    match s.payload.append partialSlice.payload with
    | (payload, .error e) => ({ s with payload }, .error e)
    | (payload, .ok ()) =>
      (⟨payload, partialSlice.merkleProof, partialSlice.certification⟩, .ok ())

end UnpackedStreamSlice

/-! ## Taking a prefix of a slice -/

theorem sliceCountBytes_valid {p : Payload} (hp : p.Valid) (c : Certification) :
    sliceCountBytes p c = .ok (p.countBytes + p.witnessBytes + c.countBytes) := by
  have hw := p.witnessCountBytes_valid hp
  have hend : p.messagesBegin.map (· + p.len) = p.messages.map Messages.end_ := by
    rcases hm : p.messages with _ | m
    · simp [Payload.messagesBegin, hm]
    · simp [Payload.messagesBegin, Payload.len, hm, Messages.end_]
  unfold sliceCountBytes
  simp only
  rw [hend, Payload.messagesBegin, hw, Except.ok_bind]
  rfl

theorem le_of_le_getD_map_sub {byteLimit : Option ℕ} {c n : ℕ}
    (h : n ≤ (byteLimit.map (· - c)).getD usizeMax) (hc : ∀ b, byteLimit = some b → c ≤ b) :
    ∀ b, byteLimit = some b → n + c ≤ b := by
  rintro b rfl
  have := hc b rfl
  simp only [Option.map_some, Option.getD_some] at h
  omega

theorem getD_lt_of_getD_map_sub_lt {byteLimit : Option ℕ} {c n : ℕ}
    (h : (byteLimit.map (· - c)).getD usizeMax < n) (hc : ∀ b, byteLimit = some b → c ≤ b) :
    byteLimit.getD usizeMax < n + c := by
  rcases byteLimit with _ | b
  · simp only [Option.map_none, Option.getD_none] at h ⊢
    omega
  · have := hc b rfl
    simp only [Option.map_some, Option.getD_some] at h ⊢
    omega

namespace UnpackedStreamSlice

variable {D : Type} (H : HashFns D)

theorem takePrefix_of_le {s : UnpackedStreamSlice D} {msgLimit byteLimit : Option ℕ}
    (hc : ∀ b, byteLimit = some b → s.certification.countBytes ≤ b) :
    s.takePrefix H msgLimit byteLimit =
      s.payload.takePrefix msgLimit (byteLimit.map (· - s.certification.countBytes)) >>=
        s.splitParts H := by
  rcases byteLimit with _ | b
  · rfl
  · simp [takePrefix, Nat.not_lt.mpr (hc b rfl)]


theorem splitParts_eq_ok {s : UnpackedStreamSlice D} {pre post : Payload}
    {x r : Option (UnpackedStreamSlice D)}
    (hpre : ∀ m, pre.messages = some m → m.messages ≠ [])
    (hpost : ∀ m, post.messages = some m → m.messages ≠ [])
    (h : s.splitParts H (some pre, some post) = .ok (x, r)) :
    ∃ w w', x = some ⟨pre, w, s.certification⟩ ∧ r = some ⟨post, w', s.certification⟩ := by
  obtain ⟨⟨w, post'⟩, hw, hrest⟩ := Except.bind_eq_ok.mp h
  obtain rfl := Payload.prunedWitness_eq_ok H hpost hw
  dsimp only at hrest
  split at hrest
  · obtain ⟨⟨w', pre'⟩, hw', hparts⟩ := Except.bind_eq_ok.mp hrest
    obtain rfl := Payload.prunedWitness_eq_ok H hpre hw'
    cases hparts
    exact ⟨w, w', rfl, rfl⟩
  · cases hrest
    exact ⟨w, s.merkleProof, rfl, rfl⟩


/-- **The cases of `take_prefix` on a slice**: nothing when the certification or header is over
the byte limit, and otherwise the first `k` messages under the slice's certification. -/
theorem takePrefix_cases {s : UnpackedStreamSlice D} (hs : s.payload.Valid)
    {msgLimit byteLimit : Option ℕ} {x r : Option (UnpackedStreamSlice D)}
    (h : s.takePrefix H msgLimit byteLimit = .ok (x, r)) :
    (x = none ∧ r = some s ∧ byteLimit.getD usizeMax < s.certification.countBytes +
        emptyPayloadBytes + s.payload.rejectSignalsCountBytes + noMessagesWitnessBytes) ∨
      ((∀ b, byteLimit = some b → s.certification.countBytes ≤ b) ∧ ∃ k ≤ s.payload.len,
        PrefixFits s.payload (msgLimit.getD usizeMax)
          ((byteLimit.map (· - s.certification.countBytes)).getD usizeMax) k ∧
        (k < s.payload.len → ¬ PrefixFits s.payload (msgLimit.getD usizeMax)
          ((byteLimit.map (· - s.certification.countBytes)).getD usizeMax) (k + 1)) ∧
        (∃ w, x = some ⟨s.payload.firstMessages k, w, s.certification⟩) ∧
        ((k = s.payload.len ∧ r = none) ∨
          (k < s.payload.len ∧ ∃ w', r = some ⟨s.payload.dropMessages k, w', s.certification⟩))) := by
  by_cases hc : ∀ b, byteLimit = some b → s.certification.countBytes ≤ b
  swap
  · -- the certification alone is over the limit
    left
    push_neg at hc
    obtain ⟨b, rfl, hb⟩ := hc
    have hbail : s.takePrefix H msgLimit (some b) = .ok (none, some s) := by
      simp [takePrefix, hb]
    rw [hbail] at h
    cases h
    simp only [Option.getD_some, true_and]
    omega
  rw [takePrefix_of_le H hc] at h
  obtain ⟨parts, hparts, hsplit⟩ := Except.bind_eq_ok.mp h
  rcases Payload.takePrefix_cases hs msgLimit (byteLimit.map (· - s.certification.countBytes)) with
    ⟨hA, hrun⟩ | ⟨hB, hrun⟩ | ⟨k, hk, hfits, hnot, hrun⟩
  · left
    rw [hrun] at hparts
    cases hparts
    cases hsplit
    have hlt := getD_lt_of_getD_map_sub_lt hA hc
    exact ⟨rfl, rfl, by omega⟩
  · right
    rw [hrun] at hparts
    cases hparts
    cases hsplit
    refine ⟨hc, s.payload.len, le_rfl, hB, fun hlt => absurd hlt (lt_irrefl _),
      ⟨s.merkleProof, by rw [Payload.firstMessages_len hs]⟩, .inl ⟨rfl, rfl⟩⟩
  · right
    rw [hrun] at hparts
    cases hparts
    obtain ⟨m, hm⟩ : ∃ m, s.payload.messages = some m := by
      rcases hm : s.payload.messages with _ | m
      · simp [Payload.len, hm] at hk
      · exact ⟨m, rfl⟩
    have hlen : s.payload.len = m.len := by simp [Payload.len, hm]
    obtain ⟨w, w', rfl, rfl⟩ := splitParts_eq_ok H
      (fun m' hm' => ((hs.firstMessages k) m' hm').1.ne_nil)
      (fun m' hm' => ((hs.dropMessages hm (hlen ▸ hk)) m' hm').1.ne_nil) hsplit
    exact ⟨hc, k, hk.le, hfits k le_rfl, fun _ => hnot, ⟨w, rfl⟩, .inr ⟨hk, w', rfl⟩⟩

/-- **`take_prefix` keeps to the limits**: a prefix is within both, none is taken only when the
header is over, and a rest's first message would have broken a limit. -/
theorem takePrefix_spec {s : UnpackedStreamSlice D} (hs : s.payload.Valid)
    {msgLimit byteLimit : Option ℕ} {x r : Option (UnpackedStreamSlice D)}
    (h : s.takePrefix H msgLimit byteLimit = .ok (x, r)) :
    (∀ x', x = some x' →
      (∀ m, msgLimit = some m → x'.payload.len ≤ m) ∧
      x'.countBytes = .ok (x'.payload.countBytes + x'.payload.witnessBytes +
        x'.certification.countBytes) ∧
      (∀ b, byteLimit = some b →
        x'.payload.countBytes + x'.payload.witnessBytes + x'.certification.countBytes ≤ b)) ∧
    (x = none → r = some s ∧ byteLimit.getD usizeMax < s.certification.countBytes +
      emptyPayloadBytes + s.payload.rejectSignalsCountBytes + noMessagesWitnessBytes) ∧
    (∀ x' r', x = some x' → r = some r' →
      x'.payload = s.payload.firstMessages x'.payload.len ∧
      r'.payload = s.payload.dropMessages x'.payload.len ∧
      (msgLimit.getD usizeMax < x'.payload.len + 1 ∨
        byteLimit.getD usizeMax < (s.payload.firstMessages (x'.payload.len + 1)).countBytes +
          (s.payload.firstMessages (x'.payload.len + 1)).witnessBytes +
          s.certification.countBytes)) := by
  rcases takePrefix_cases H hs h with ⟨rfl, rfl, hlt⟩ | ⟨hc, k, hk, hfits, hnot, ⟨w, rfl⟩, hrest⟩
  · exact ⟨fun _ h => (nomatch h), fun _ => ⟨rfl, hlt⟩, fun _ _ h => (nomatch h)⟩
  have hlen : (s.payload.firstMessages k).len = k := by simp [Nat.min_eq_left hk]
  refine ⟨?_, fun h => (nomatch h), ?_⟩
  · rintro x' ⟨⟩
    obtain ⟨hml, hbl⟩ := hfits
    refine ⟨?_, sliceCountBytes_valid (hs.firstMessages k) _, le_of_le_getD_map_sub hbl hc⟩
    rintro m rfl
    simpa [hlen] using hml
  · rintro x' r' ⟨⟩ hr
    rcases hrest with ⟨-, rfl⟩ | ⟨hk', w', rfl⟩
    · cases hr
    cases hr
    refine ⟨by rw [hlen], by rw [hlen], ?_⟩
    rw [hlen]
    have hover := hnot hk'
    simp only [PrefixFits, not_and_or, not_le] at hover
    rcases hover with hml | hbl
    · exact .inl hml
    · exact .inr (getD_lt_of_getD_map_sub_lt hbl hc)

theorem takePrefix_eq_ok_some {s x : UnpackedStreamSlice D} (hs : s.payload.Valid)
    {msgLimit byteLimit : Option ℕ} {r : Option (UnpackedStreamSlice D)}
    (h : s.takePrefix H msgLimit byteLimit = .ok (some x, r)) :
    s.payload.len - (r.map fun r' => r'.payload.len).getD 0 = x.payload.len ∧
      x.payload = s.payload.firstMessages x.payload.len ∧ x.payload.Valid ∧
      (r.map fun r' => r'.payload) = (if x.payload.len = s.payload.len then none
        else some (s.payload.dropMessages x.payload.len)) ∧
      ∀ r', r = some r' → r'.payload.Valid := by
  rcases takePrefix_cases H hs h with ⟨h', -⟩ | ⟨-, k, hk, -, -, ⟨w, hx⟩, hrest⟩
  · cases h'
  cases hx
  have hlen : (s.payload.firstMessages k).len = k := by simp [Nat.min_eq_left hk]
  rw [hlen]
  refine ⟨?_, rfl, hs.firstMessages k, ?_⟩
  · rcases hrest with ⟨rfl, rfl⟩ | ⟨hk', w', rfl⟩
    · simp
    · simp only [Option.map_some, Option.getD_some, Payload.len_dropMessages]
      omega
  · rcases hrest with ⟨rfl, rfl⟩ | ⟨hk', w', rfl⟩
    · simp
    · obtain ⟨m, hm⟩ : ∃ m, s.payload.messages = some m := by
        rcases hm : s.payload.messages with _ | m
        · simp [Payload.len, hm] at hk'
        · exact ⟨m, rfl⟩
      have hlen' : s.payload.len = m.len := by simp [Payload.len, hm]
      refine ⟨by simp [Nat.ne_of_lt hk'], ?_⟩
      rintro r' ⟨⟩
      exact hs.dropMessages hm (hlen' ▸ hk')

end UnpackedStreamSlice

/-! ## Garbage collection -/

namespace Payload

variable {p : Payload}

/-- **Garbage collecting a valid payload** leaves a valid payload from the index on. -/
theorem garbageCollect_valid (hp : p.Valid) {cutoff : ℕ} (hc : cutoff < 2 ^ 64)
    {t : Option PayloadTree} {q : Payload} (h : p.garbageCollect cutoff = .ok (t, q)) :
    q.Valid ∧ q.subnetId = p.subnetId ∧ q.header = p.header ∧
      ∀ m, q.messages = some m → cutoff ≤ m.begin := by
  obtain ⟨⟨pruned, q'⟩, hq, h⟩ := Except.bind_eq_ok.mp h
  have hq' : q' = q := by
    dsimp only at h
    split at h
    · obtain ⟨tree, -, h⟩ := Except.bind_eq_ok.mp h
      cases h
      rfl
    · cases h
      rfl
  subst hq'
  unfold takeMessagesPrefix at hq
  rcases hm : p.messages with _ | m
  · rw [hm] at hq
    cases hq
    exact ⟨hp, rfl, rfl, by simp [hm]⟩
  rw [hm] at hq
  obtain ⟨hmv, hb, he⟩ := hp m hm
  have hend : m.end_ < 2 ^ 64 := lt_of_le_of_lt he p.header.end_lt
  dsimp only at hq
  rw [Messages.takePrefix_valid hmv hend.le hc, Except.ok_bind] at hq
  cases hq
  dsimp only
  by_cases hge : m.end_ ≤ cutoff
  · rw [if_pos hge]
    exact ⟨fun _ h => (nomatch h), rfl, rfl, fun _ h => (nomatch h)⟩
  rw [if_neg hge]
  refine ⟨fun m' hm' => ?_, rfl, rfl, fun m' hm' => ?_⟩ <;> cases hm'
  · have hpos : 0 < m.len := List.length_pos_iff.mpr hmv.ne_nil
    have hk : cutoff - m.begin < m.len := by unfold Messages.end_ at hge; omega
    have hbegin : m.begin + (cutoff - m.begin) = max m.begin cutoff := by omega
    refine ⟨hbegin ▸ hmv.drop hk, le_trans hb (le_max_left _ _), le_trans ?_ he⟩
    simp only [Messages.end_, Messages.len, List.length_drop] at hge ⊢
    unfold Messages.len at hk
    omega
  · exact le_max_right _ _

end Payload

namespace UnpackedStreamSlice

variable {D : Type} (H : HashFns D)

theorem garbageCollect_valid {s s' : UnpackedStreamSlice D} (hs : s.payload.Valid)
    {cutoff : ExpectedIndices} (hc : cutoff.messageIndex < 2 ^ 64)
    (h : s.garbageCollect H cutoff = .ok (some s')) :
    s'.payload.Valid ∧ s'.payload.subnetId = s.payload.subnetId ∧
      s'.payload.header = s.payload.header ∧ s'.certification = s.certification := by
  obtain ⟨⟨t, q⟩, hq, h⟩ := Except.bind_eq_ok.mp h
  obtain ⟨hv, hsub, hheader, -⟩ := Payload.garbageCollect_valid hs hc hq
  dsimp only at h
  split at h
  · cases h
  split at h
  · obtain ⟨w, -, h⟩ := Except.bind_eq_ok.mp h
    cases h
    exact ⟨hv, hsub, hheader, rfl⟩
  · cases h
    exact ⟨hv, hsub, hheader, rfl⟩

/-! ## Appending a partial slice -/

/-- An append that is refused leaves the slice as it was. -/
theorem append_fst_of_error {s partialSlice : UnpackedStreamSlice D} {e : CertifiedSliceError}
    (h : (s.append partialSlice).2 = .error e) : (s.append partialSlice).1 = s := by
  unfold append at h ⊢
  rcases hc : s.appendCheck partialSlice with e' | ⟨⟩
  · rfl
  rw [hc] at h
  dsimp only at h ⊢
  rcases hp : s.payload.append partialSlice.payload with ⟨q, e'' | ⟨⟩⟩
  · have hq := Payload.append_fst_of_error (show (s.payload.append partialSlice.payload).2 = _ by
      rw [hp])
    rw [hp] at hq
    subst hq
    rfl
  · rw [hp] at h
    cases h

theorem append_of_ok {s partialSlice : UnpackedStreamSlice D}
    (h : (s.append partialSlice).2 = .ok ()) :
    s.appendCheck partialSlice = .ok () ∧ (s.payload.append partialSlice.payload).2 = .ok () ∧
      (s.append partialSlice).1 = ⟨(s.payload.append partialSlice.payload).1,
        partialSlice.merkleProof, partialSlice.certification⟩ := by
  unfold append at h ⊢
  rcases hc : s.appendCheck partialSlice with e' | ⟨⟩
  · rw [hc] at h
    cases h
  rw [hc] at h
  dsimp only at h ⊢
  rcases hp : s.payload.append partialSlice.payload with ⟨q, e'' | ⟨⟩⟩
  · rw [hp] at h
    cases h
  · exact ⟨rfl, rfl, rfl⟩

/-- **Appending a partial slice** keeps the messages of both, the partial slice's header with no
lower `signals_end`, its witness and certification, and a valid payload. -/
theorem append_eq_ok {s partialSlice : UnpackedStreamSlice D} (hs : s.payload.Valid)
    (hp : partialSlice.payload.Valid) (h : (s.append partialSlice).2 = .ok ()) :
    (s.append partialSlice).1.payload.messageList =
        s.payload.messageList ++ partialSlice.payload.messageList ∧
      (∀ m q, s.payload.messages = some m → partialSlice.payload.messages = some q →
        q.begin = m.end_) ∧
      (s.payload.messages.isSome →
        (s.append partialSlice).1.payload.messagesBegin = s.payload.messagesBegin) ∧
      (s.append partialSlice).1.payload.header = partialSlice.payload.header ∧
      s.payload.header.signalsEnd ≤ (s.append partialSlice).1.payload.header.signalsEnd ∧
      (s.append partialSlice).1.merkleProof = partialSlice.merkleProof ∧
      (s.append partialSlice).1.certification = partialSlice.certification ∧
      (s.append partialSlice).1.payload.Valid := by
  obtain ⟨-, hpay, hres⟩ := append_of_ok h
  obtain ⟨-, hse, -, hheader, hlist, hgap, hbegin, hvalid⟩ := Payload.append_eq_ok hs hp hpay
  rw [hres]
  exact ⟨hlist, hgap, hbegin, hheader, hheader ▸ hse, rfl, rfl, hvalid⟩

end UnpackedStreamSlice

/-! ## The messages a witness holds -/

/-- The stream indices of the messages a slice's witness holds. -/
def knownMessageIndices {D : Type} (w : Witness D) : List ℕ :=
  match (subWitness w labelStreams).bind firstSubWitness with
  | some (_, stream) =>
    match subWitness stream labelMessages with
    | some messages =>
      messages.levelEntries.filterMap fun e => if e.2.hasKnown then u64FromLabel e.1 else none
    | none => []
  | none => []

/-- The stream indices of a payload's messages. -/
def Payload.messageIndices (p : Payload) : List ℕ :=
  p.messageList.filterMap fun e => u64FromLabel e.1

/-- A slice of the message at index 0 of a stream of one, whose witness holds that message. -/
def oneMessageSlice : UnpackedStreamSlice Unit where
  payload := ⟨[1], ⟨⟨0, 1, 0, []⟩, by decide, by decide⟩, some ⟨[(u64ToLabel 0, .leaf [])], 16, 0⟩⟩
  merkleProof := .node labelStreams (.node [1] (.fork (.node labelHeader .known)
    (.node labelMessages (.node (u64ToLabel 0) .known))))
  certification := ⟨0, [], 0⟩

/-- A partial slice of message 1 of three, whose witness holds all three. -/
def wideWitnessSlice : UnpackedStreamSlice Unit where
  payload := ⟨[1], ⟨⟨0, 3, 0, []⟩, by decide, by decide⟩, some ⟨[(u64ToLabel 1, .leaf [])], 16, 1⟩⟩
  merkleProof := .node labelStreams (.node [1] (.fork (.node labelHeader .known)
    (.node labelMessages (.fork (.fork (.node (u64ToLabel 0) .known) (.node (u64ToLabel 1) .known))
      (.node (u64ToLabel 2) .known)))))
  certification := ⟨1, [], 0⟩

theorem append_accepts_witness_beyond_messages :
    oneMessageSlice.payload.Valid ∧ wideWitnessSlice.payload.Valid ∧
      knownMessageIndices oneMessageSlice.merkleProof = oneMessageSlice.payload.messageIndices ∧
      (oneMessageSlice.append wideWitnessSlice).2 = .ok () ∧
      knownMessageIndices (oneMessageSlice.append wideWitnessSlice).1.merkleProof = [0, 1, 2] ∧
      (oneMessageSlice.append wideWitnessSlice).1.payload.messageIndices = [0, 1] := by
  refine ⟨?_, ?_, by decide, by decide, by decide, by decide⟩
  all_goals
    rintro m ⟨⟩
    exact ⟨⟨by simp, rfl, by simp, rfl⟩, by decide, by decide⟩

end IC.XNet.SlicePool
