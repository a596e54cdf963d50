import InternetComputer.TreeHash.WitnessGenerator
import InternetComputer.CanonicalState.Conversion
import InternetComputer.XNet.Stream

/-!
# The payload of a certified stream slice

`Payload` of `certified_slice_pool.rs`: a stream slice unpacked from its labeled tree, with the
destination subnet, the stream header and the messages keyed by stream index, sized by the byte
estimates `count_bytes` and `witness_count_bytes`. A panic is the error `panic`.

* `Messages.Valid`, `Payload.Valid`: messages at consecutive indices within the header's bounds,
  with their byte size counted;
* `Messages.takePrefix_valid`, **`Payload.append_eq_ok`**, `unpack_pack`.
-/

namespace IC.XNet.SlicePool

open IC.TreeHash IC.CanonicalState

/-! ## Errors -/

/-- `InvalidSlice`. -/
inductive InvalidSlice where
  | emptyMessages
  | missingStreams
  | missingStream
  | moreThanOneStream
  | missingHeader
  | notAStreamIndex
  | notASubTree
  | notALeaf
  | invalidBounds
  deriving DecidableEq, Repr

/-- `InvalidAppend`. -/
inductive InvalidAppend where
  | differentSubnet
  | signalsEndRegresses
  | indexMismatch
  deriving DecidableEq, Repr

/-- `CertifiedSliceError`, with `panic` for the replica's panics. -/
inductive CertifiedSliceError where
  | invalidPayload (detail : InvalidSlice)
  | invalidWitness (detail : InvalidSlice)
  | witnessPruningFailed (err : TreeHashError)
  | invalidAppend (cause : InvalidAppend)
  | takeBeforeSliceBegin
  | panic (message : String)
  deriving DecidableEq

/-- `PayloadTree`. -/
abbrev PayloadTree := LabeledTree (List UInt8)

/-- `PayloadTreeMap`. -/
abbrev PayloadTreeMap := List (Label × PayloadTree)

/-- `to_stream_index`. -/
def toStreamIndex (label : Label) : Except InvalidSlice ℕ :=
  match u64FromLabel label with
  | some index => .ok index
  | none => .error .notAStreamIndex

/-! ## Headers and messages -/

/-- `Header`: the decoded stream header, `begin ≤ end`. -/
structure Header where
  decoded : StreamHeader
  begin_le_end : decoded.begin ≤ decoded.end_
  end_lt : decoded.end_ < 2 ^ 64

namespace Header

/-- `Header::begin`. -/
def begin (h : Header) : ℕ := h.decoded.begin

/-- `Header::end`. -/
def end_ (h : Header) : ℕ := h.decoded.end_

/-- `Header::signals_end`. -/
def signalsEnd (h : Header) : ℕ := h.decoded.signalsEnd

/-- `Header::reject_signals_len`. -/
def rejectSignalsLen (h : Header) : ℕ := h.decoded.rejectSignals.length

end Header

/-- `Payload::value_of`. -/
def valueOf : PayloadTree → Except CertifiedSliceError (List UInt8)
  | .subTree _ => .error (.invalidPayload .notALeaf)
  | .leaf value => .ok value

/-- `Payload::value_of_ref`: `value_of` on a reference. -/
def valueOfRef (leaf : PayloadTree) : Except CertifiedSliceError (List UInt8) := valueOf leaf

/-- `Payload::children_of`. -/
def childrenOf : PayloadTree → Except CertifiedSliceError PayloadTreeMap
  | .subTree children => .ok children
  | .leaf _ => .error (.invalidPayload .notASubTree)

/-- `message_byte_size`: 8 bytes of `LabeledTree` encoding, the value, and 8 bytes of label. -/
def messageByteSize (message : PayloadTree) : Except CertifiedSliceError ℕ := do
  let value ← valueOfRef message
  pure (8 + value.length + 8)

/-- `byte_size`. -/
def byteSize (messages : PayloadTreeMap) : Except CertifiedSliceError ℕ :=
  messages.foldlM (fun byteSize message => do
    let size ← messageByteSize message.2
    pure (byteSize + size)) 0

/-- `Messages`: a slice's messages, with the byte estimate and begin index. -/
structure Messages where
  messages : PayloadTreeMap
  countBytes : ℕ
  begin : ℕ

namespace Messages

/-- `Messages::new`: refused when empty; the begin index is that of the first key. -/
def new (messages : PayloadTreeMap) : Except CertifiedSliceError Messages :=
  match messages with
  | [] => .error (.invalidPayload .emptyMessages)
  | (key, _) :: _ => do
    let countBytes ← byteSize messages
    let begin ← (toStreamIndex key).mapError .invalidPayload
    pure ⟨messages, countBytes, begin⟩

/-- `Messages::len`. -/
def len (m : Messages) : ℕ := m.messages.length

/-- `Messages::end`. -/
def end_ (m : Messages) : ℕ := m.begin + m.len

/-- `Messages::append`: a suffix that does not begin at the end is refused. -/
def append (m suffix : Messages) : Messages × Except CertifiedSliceError Unit :=
  if suffix.begin ≠ m.begin + m.len then (m, .error (.invalidAppend .indexMismatch))
  else
    match byteSize suffix.messages with
    | .error e => (m, .error e)
    | .ok suffixByteSize =>
      let messages := FlatMap.fromKeyValues (m.messages ++ suffix.messages)
      ({ m with messages := messages, countBytes := m.countBytes + suffixByteSize }, .ok ())

/-- `Messages::take_prefix`: the messages before `to_`, if any, and the rest, if any. -/
def takePrefix (m : Messages) (to_ : Label) :
    Except CertifiedSliceError (Option PayloadTreeMap × Option Messages) := do
  let (pre, post) := FlatMap.splitOff m.messages to_
  let countBytes ← byteSize post
  if pre.isEmpty then pure (none, some { m with messages := post, countBytes := countBytes })
  else if post.isEmpty then pure (some pre, none)
  else do
    let rest ← Messages.new post
    pure (some pre, some rest)

end Messages

/-! ## Payloads -/

/-- `Payload`. -/
structure Payload where
  subnetId : Label
  header : Header
  messages : Option Messages

/-- `LABEL_STREAMS`. -/
def labelStreams : Label := Label.ofString "streams"

/-- `LABEL_HEADER`. -/
def labelHeader : Label := Label.ofString "header"

/-- `LABEL_MESSAGES`. -/
def labelMessages : Label := Label.ofString "messages"

/-- `Payload::pack`: the labeled tree of a slice. -/
def pack (subnetId : Label) (header : Option (List UInt8)) (messages : Option PayloadTreeMap) :
    Except CertifiedSliceError PayloadTree := do
  if header.isNone && messages.isNone then
    throw (.panic "At least one of header or messages must be provided")
  let headerEntry := (header.map fun h => [(labelHeader, LabeledTree.leaf h)]).getD []
  let messagesEntry := match messages with
    | some m => if m.isEmpty then [] else [(labelMessages, LabeledTree.subTree m)]
    | none => []
  let stream := FlatMap.fromKeyValues (headerEntry ++ messagesEntry)
  let streams := FlatMap.fromKeyValues [(subnetId, LabeledTree.subTree stream)]
  pure (.subTree (FlatMap.fromKeyValues [(labelStreams, .subTree streams)]))

/-- `Payload::unpack`. -/
def unpack (payload : PayloadTree) :
    Except CertifiedSliceError (Label × Option (List UInt8) × Option PayloadTreeMap) := do
  let payloadChildren ← childrenOf payload
  let streamsTree ← match (FlatMap.remove payloadChildren labelStreams).1 with
    | some streamsTree => pure streamsTree
    | none => throw (.invalidPayload .missingStreams)
  match ← childrenOf streamsTree with
  | [] => throw (.invalidPayload .missingStream)
  | [(subnetId, streamTree)] => do
    let stream ← childrenOf streamTree
    let (header, stream) := FlatMap.remove stream labelHeader
    let header ← header.mapM valueOf
    let messages ← (FlatMap.remove stream labelMessages).1.mapM childrenOf
    if messages.any List.isEmpty then throw (.invalidPayload .emptyMessages)
    pure (subnetId, header, messages)
  | _ :: _ :: _ => throw (.invalidPayload .moreThanOneStream)

/-- `EMPTY_PAYLOAD_BYTES`. -/
def emptyPayloadBytes : ℕ := 62

/-- `NON_EMPTY_PAYLOAD_FIXED_BYTES`. -/
def nonEmptyPayloadFixedBytes : ℕ := 84

namespace Payload

/-- `Payload::len`. -/
def len (p : Payload) : ℕ := (p.messages.map Messages.len).getD 0

/-- `Payload::messages_begin`. -/
def messagesBegin (p : Payload) : Option ℕ := p.messages.map Messages.begin

/-- `Payload::reject_signals_count_bytes`: 3 bytes and one per signal, when there are any. -/
def rejectSignalsCountBytes (p : Payload) : ℕ :=
  match p.header.rejectSignalsLen with
  | 0 => 0
  | n => 3 + n

/-- `CountBytes for Payload`. -/
def countBytes (p : Payload) : ℕ :=
  match p.messages with
  | some m => nonEmptyPayloadFixedBytes + p.rejectSignalsCountBytes + m.countBytes
  | none => emptyPayloadBytes + p.rejectSignalsCountBytes

/-- `Payload::new_partial`: the payload with other messages. -/
def newPartial (p : Payload) (messages : Option PayloadTreeMap) :
    Except CertifiedSliceError Payload := do
  let messages ← messages.mapM Messages.new
  pure { p with messages }

/-- `Payload::take_messages_prefix`: the messages before `to_`, and the rest. -/
def takeMessagesPrefix (p : Payload) (to_ : Label) :
    Except CertifiedSliceError (Option PayloadTreeMap × Payload) :=
  match p.messages with
  | some m => do
    let (pre, messages) ← m.takePrefix to_
    pure (pre, { p with messages })
  | none => pure (none, p)

/-- `Payload::garbage_collect`: the messages before `cutoff` dropped and packed. -/
def garbageCollect (p : Payload) (cutoff : ℕ) :
    Except CertifiedSliceError (Option PayloadTree × Payload) := do
  let (pruned, p) ← p.takeMessagesPrefix (u64ToLabel cutoff)
  match pruned with
  | some prunedMessages => do
    let tree ← pack p.subnetId none (some prunedMessages)
    pure (some tree, p)
  | none => pure (none, p)

/-- `Payload::append`: refused for another subnet, a lower `signals_end`, or messages outside the
new header; otherwise the new header and the messages of both. -/
def append (p other : Payload) : Payload × Except CertifiedSliceError Unit :=
  if other.subnetId ≠ p.subnetId then (p, .error (.invalidAppend .differentSubnet))
  else if other.header.signalsEnd < p.header.signalsEnd then
    (p, .error (.invalidAppend .signalsEndRegresses))
  else
    match p.messages, other.messages with
    | some messages, some suffix =>
      if other.header.begin > messages.begin ∨ other.header.end_ < suffix.end_ then
        (p, .error (.invalidAppend .indexMismatch))
      else
        match messages.append suffix with
        | (messages, .ok ()) => ({ p with messages := some messages, header := other.header }, .ok ())
        | (messages, .error e) => ({ p with messages := some messages }, .error e)
    | some messages, none =>
      if other.header.begin > messages.begin ∨ other.header.end_ < messages.end_ then
        (p, .error (.invalidAppend .indexMismatch))
      else ({ p with header := other.header }, .ok ())
    | none, none => ({ p with header := other.header }, .ok ())
    | none, some suffix => ({ p with header := other.header, messages := some suffix }, .ok ())

end Payload

section Witness

variable {D : Type} (H : HashFns D)

/-- `Messages::pruned_witness`: the witness with the messages pruned. -/
def Messages.prunedWitness (m : Messages) (witness : Witness D) (subnetId : Label) :
    Except CertifiedSliceError (Witness D × Messages) := do
  let partialTree ← pack subnetId none (some m.messages)
  let prunedWitness ← (pruneWitness H witness partialTree).mapError .witnessPruningFailed
  let (_, _, messages) ← unpack partialTree
  let messages ← (Rust.expect messages "called `Option::unwrap()` on a `None` value").mapError
    .panic
  pure (prunedWitness, { m with messages })

/-- `Payload::pruned_witness`: the witness with the messages pruned, the header untouched. -/
def Payload.prunedWitness (p : Payload) (witness : Witness D) :
    Except CertifiedSliceError (Witness D × Payload) :=
  match p.messages with
  | some m => do
    let (prunedWitness, m) ← m.prunedWitness H witness p.subnetId
    pure (prunedWitness, { p with messages := some m })
  | none => pure (witness, p)

end Witness

/-! ## The witness estimate -/

/-- `NO_MESSAGES_WITNESS_BYTES`. -/
def noMessagesWitnessBytes : ℕ := 214

/-- `PRUNED_NODE_BYTES`: 2 bytes of enum, 1 of length, and the 32 of a digest. -/
def prunedNodeBytes : ℕ := 3 + 32

/-- `KNOWN_NODE_BYTES`. -/
def knownNodeBytes : ℕ := 16

/-- `FORK_NODE_BYTES`. -/
def forkNodeBytes : ℕ := 6

/-- `end_equivalent_pruned_leaves`: the leaves pruning `endPrunedLeaves` from the end prunes from
the smallest complete tree of what is left of the last subtree, in `u64` arithmetic. -/
def endEquivalentPrunedLeaves (totalLeaves endPrunedLeaves : BitVec 64) : BitVec 64 :=
  if 64 ≤ totalLeaves.ctz.toNat + endPrunedLeaves.clz.toNat then endPrunedLeaves
  else
    let remainingLeaves := totalLeaves - endPrunedLeaves
    let minCompleteSubtreeLeaves :=
      (1 : BitVec 64).rotateRight (totalLeaves ^^^ remainingLeaves).clz.toNat
    let completeSubtreeRemainingLeaves := remainingLeaves &&& (minCompleteSubtreeLeaves - 1)
    minCompleteSubtreeLeaves - completeSubtreeRemainingLeaves

/-- The estimate of `witness_count_bytes` for a non-empty slice: fixed bytes, `Pruned` nodes for
the pruned leaves' set bits, a `Known` node per message, and the forks. -/
def witnessEstimate (totalLeaves beginPrunedLeaves endPrunedLeaves sliceLen : ℕ) : ℕ :=
  let beginPrunedNodes := (BitVec.ofNat 64 beginPrunedLeaves).cpop.toNat
  let endPrunedNodes :=
    (endEquivalentPrunedLeaves (.ofNat 64 totalLeaves) (.ofNat 64 endPrunedLeaves)).cpop.toNat
  let prunedNodes := beginPrunedNodes + endPrunedNodes
  noMessagesWitnessBytes + prunedNodes * prunedNodeBytes + sliceLen * knownNodeBytes +
    (prunedNodes + sliceLen - 1) * forkNodeBytes

/-- `witness_count_bytes`; a slice out of the stream's bounds panics. -/
def witnessCountBytes (streamBegin streamEnd : ℕ) (sliceBegin sliceEnd : Option ℕ) :
    Except CertifiedSliceError ℕ := do
  (Rust.assert (sliceBegin.isNone == sliceEnd.isNone) "assertion `left == right` failed").mapError
    .panic
  if streamBegin = streamEnd ∨ sliceBegin = sliceEnd then return noMessagesWitnessBytes
  match sliceBegin, sliceEnd with
  | some sliceBegin, some sliceEnd =>
    (Rust.assert (decide (streamBegin ≤ sliceBegin))
      "assertion failed: stream_begin <= slice_begin").mapError .panic
    (Rust.assert (decide (sliceBegin ≤ sliceEnd))
      "assertion failed: slice_begin <= slice_end").mapError .panic
    (Rust.assert (decide (sliceEnd ≤ streamEnd))
      "assertion failed: slice_end <= stream_end").mapError .panic
    pure (witnessEstimate (streamEnd - streamBegin) (sliceBegin - streamBegin)
      (streamEnd - sliceEnd) (sliceEnd - sliceBegin))
  | _, _ => throw (.panic "called `Option::unwrap()` on a `None` value")

/-! ## Byte sizes of leaves -/

/-- The byte size `message_byte_size` gives a leaf. -/
def leafByteSize : PayloadTree → ℕ
  | .leaf value => 8 + value.length + 8
  | .subTree _ => 0

/-- The byte size of messages that are leaves. -/
def messagesBytes (messages : PayloadTreeMap) : ℕ := (messages.map fun e => leafByteSize e.2).sum

@[simp] theorem messagesBytes_nil : messagesBytes [] = 0 := rfl

@[simp] theorem messagesBytes_cons (e : Label × PayloadTree) (messages : PayloadTreeMap) :
    messagesBytes (e :: messages) = leafByteSize e.2 + messagesBytes messages := by
  simp [messagesBytes]

@[simp] theorem messagesBytes_append (l₁ l₂ : PayloadTreeMap) :
    messagesBytes (l₁ ++ l₂) = messagesBytes l₁ + messagesBytes l₂ := by
  simp [messagesBytes]

theorem messageByteSize_leaf (value : List UInt8) :
    messageByteSize (.leaf value) = .ok (leafByteSize (.leaf value)) := rfl

theorem foldlM_messageByteSize {messages : PayloadTreeMap}
    (h : ∀ e ∈ messages, ∃ value, e.2 = .leaf value) (acc : ℕ) :
    messages.foldlM (fun byteSize message => do
      let size ← messageByteSize message.2
      pure (byteSize + size)) acc = .ok (acc + messagesBytes messages) := by
  induction messages generalizing acc with
  | nil => rfl
  | cons e messages ih =>
    obtain ⟨value, hv⟩ := h e List.mem_cons_self
    rw [List.foldlM_cons, hv, messageByteSize_leaf, Except.ok_bind, pure_bind,
      ih fun e' he' => h e' (List.mem_cons_of_mem _ he'), messagesBytes_cons, hv, Nat.add_assoc]

/-- **`byte_size` of leaves** is their byte size. -/
theorem byteSize_eq_ok {messages : PayloadTreeMap} (h : ∀ e ∈ messages, ∃ value, e.2 = .leaf value) :
    byteSize messages = .ok (messagesBytes messages) := by
  rw [byteSize, foldlM_messageByteSize h, Nat.zero_add]

theorem splitOff_u64ToLabel {ms : PayloadTreeMap} {b i : ℕ}
    (hkeys : ms.map Prod.fst = (List.range' b ms.length).map u64ToLabel)
    (hend : b + ms.length ≤ 2 ^ 64) (hi : i < 2 ^ 64) :
    FlatMap.splitOff ms (u64ToLabel i) = (ms.take (i - b), ms.drop (i - b)) := by
  have hcount : ms.countP (fun e => decide (e.1 < u64ToLabel i)) = min ms.length (i - b) := by
    calc ms.countP (fun e => decide (e.1 < u64ToLabel i))
        = (ms.map Prod.fst).countP (fun l => decide (l < u64ToLabel i)) := by
          rw [List.countP_map]; rfl
      _ = (List.range' b ms.length).countP (fun j => decide (j < i)) := by
          rw [hkeys, List.countP_map]
          refine List.countP_congr fun j hj => ?_
          rw [List.mem_range'_1] at hj
          simp only [Function.comp_apply, decide_eq_true_eq]
          exact u64ToLabel_lt_iff (by omega) hi
      _ = min ms.length (i - b) := List.countP_range'_lt i b ms.length
  unfold FlatMap.splitOff
  dsimp only
  rw [hcount]
  rcases le_total ms.length (i - b) with h | h
  · rw [Nat.min_eq_left h, List.take_of_length_le h, List.drop_of_length_le h,
      List.take_length, List.drop_length]
  · rw [Nat.min_eq_right h]


/-! ## The messages the pool keeps -/

namespace Messages

/-- The messages as the pool keeps them: consecutive leaves from `begin`, their bytes counted. -/
structure Valid (m : Messages) : Prop where
  ne_nil : m.messages ≠ []
  keys : m.messages.map Prod.fst = (List.range' m.begin m.messages.length).map u64ToLabel
  leaves : ∀ e ∈ m.messages, ∃ value, e.2 = .leaf value
  countBytes_eq : m.countBytes = messagesBytes m.messages

theorem new_eq_ok {ms : PayloadTreeMap} {b : ℕ} (hne : ms ≠ [])
    (hkeys : ms.map Prod.fst = (List.range' b ms.length).map u64ToLabel) (hb : b < 2 ^ 64)
    (hleaves : ∀ e ∈ ms, ∃ value, e.2 = .leaf value) :
    Messages.new ms = .ok ⟨ms, messagesBytes ms, b⟩ := by
  obtain _ | ⟨⟨key, t⟩, rest⟩ := ms
  · exact absurd rfl hne
  · have hkey : key = u64ToLabel b := by
      simpa [List.range'_succ] using (List.head_eq_of_cons_eq hkeys)
    have hindex : toStreamIndex key = .ok b := by
      rw [hkey, toStreamIndex, u64FromLabel_toLabel hb]
    simp only [Messages.new]
    rw [byteSize_eq_ok hleaves, Except.ok_bind, hindex]
    rfl

theorem Valid.drop {m : Messages} (hm : m.Valid) {k : ℕ} (hk : k < m.len) :
    Messages.Valid ⟨m.messages.drop k, messagesBytes (m.messages.drop k), m.begin + k⟩ where
  ne_nil := by
    unfold len at hk
    simpa [List.drop_eq_nil_iff] using hk
  keys := by
    simp only [List.length_drop]
    rw [List.map_drop, hm.keys, ← List.map_drop, List.drop_range', Nat.mul_one]
  leaves := fun e he => hm.leaves e (List.mem_of_mem_drop he)
  countBytes_eq := rfl

theorem Valid.take {m : Messages} (hm : m.Valid) {n : ℕ} (hn : 0 < n) :
    Messages.Valid ⟨m.messages.take n, messagesBytes (m.messages.take n), m.begin⟩ where
  ne_nil := by
    rw [ne_eq, List.take_eq_nil_iff]
    exact fun h => h.elim (Nat.pos_iff_ne_zero.mp hn) hm.ne_nil
  keys := by
    simp only [List.length_take]
    rw [List.map_take, hm.keys, ← List.map_take]
    rcases le_total n m.messages.length with h | h
    · rw [List.take_range'_of_length_ge h, Nat.min_eq_left h]
    · rw [List.take_range'_of_length_le h, Nat.min_eq_right h]
  leaves := fun e he => hm.leaves e (List.mem_of_mem_take he)
  countBytes_eq := rfl

theorem Valid.end_pos {m : Messages} (hm : m.Valid) : m.begin < m.end_ := by
  have := List.length_pos_iff.mpr hm.ne_nil
  unfold end_ len
  omega

/-- **Taking the messages before an index** of valid messages below `2 ^ 64`: those below `i`, the
rest keeping their byte size and beginning at `i`. -/
theorem takePrefix_valid {m : Messages} (hm : m.Valid) (hend : m.end_ ≤ 2 ^ 64) {i : ℕ}
    (hi : i < 2 ^ 64) :
    m.takePrefix (u64ToLabel i) =
      .ok (if i ≤ m.begin then none else some (m.messages.take (i - m.begin)),
        if m.end_ ≤ i then none
        else some ⟨m.messages.drop (i - m.begin), messagesBytes (m.messages.drop (i - m.begin)),
          max m.begin i⟩) := by
  have hpos := hm.end_pos
  unfold end_ len at hend hpos
  unfold takePrefix
  rw [splitOff_u64ToLabel hm.keys hend hi]
  dsimp only
  rw [byteSize_eq_ok fun e he => hm.leaves e (List.mem_of_mem_drop he), Except.ok_bind]
  by_cases hle : i ≤ m.begin
  · have hk : i - m.begin = 0 := by omega
    have hend' : ¬ m.end_ ≤ i := by unfold end_ len; omega
    simp only [hk, List.take_zero, List.isEmpty_nil, if_true, List.drop_zero, hle, hend',
      if_false, Nat.max_eq_left hle]
    rfl
  · have hpre : (m.messages.take (i - m.begin)).isEmpty = false := by
      rw [List.isEmpty_eq_false_iff, ne_eq, List.take_eq_nil_iff]
      exact fun h => h.elim (by omega) hm.ne_nil
    rw [hpre, if_neg Bool.false_ne_true, if_neg hle]
    by_cases hge : m.end_ ≤ i
    · have hpost : (m.messages.drop (i - m.begin)).isEmpty = true := by
        unfold end_ len at hge
        rw [List.isEmpty_iff, List.drop_eq_nil_iff]
        omega
      rw [hpost, if_pos rfl, if_pos hge]
      rfl
    · have hk : i - m.begin < m.len := by unfold end_ len at hge; unfold len; omega
      have hv := hm.drop hk
      have hpost : (m.messages.drop (i - m.begin)).isEmpty = false :=
        List.isEmpty_eq_false_iff.mpr hv.ne_nil
      have hkeys : (m.messages.drop (i - m.begin)).map Prod.fst =
          (List.range' (max m.begin i) (m.messages.drop (i - m.begin)).length).map u64ToLabel := by
        rw [show max m.begin i = m.begin + (i - m.begin) by omega]
        exact hv.keys
      rw [hpost, if_neg Bool.false_ne_true, if_neg hge,
        new_eq_ok hv.ne_nil hkeys (by omega) hv.leaves]
      rfl

theorem sortedKeys_of_keys {ms : PayloadTreeMap} {b : ℕ}
    (hkeys : ms.map Prod.fst = (List.range' b ms.length).map u64ToLabel)
    (hend : b + ms.length ≤ 2 ^ 64) : MixedHashTree.SortedKeys ms := by
  unfold MixedHashTree.SortedKeys
  rw [hkeys]
  refine List.pairwise_map.mpr (List.Pairwise.imp_of_mem ?_ List.pairwise_lt_range')
  intro x y hx hy hxy
  rw [List.mem_range'_1] at hx hy
  exact (u64ToLabel_lt_iff (by omega) (by omega)).mpr hxy

/-- An append that is refused leaves the messages as they were. -/
theorem append_fst_of_error {m suffix : Messages} {e : CertifiedSliceError}
    (h : (m.append suffix).2 = .error e) : (m.append suffix).1 = m := by
  unfold append at h ⊢
  by_cases hb : suffix.begin = m.begin + m.len
  · rw [if_neg (not_not.mpr hb)] at h ⊢
    cases hn : byteSize suffix.messages with
    | error e' => rfl
    | ok n => rw [hn] at h; cases h
  · rw [if_pos hb]

/-- An append that goes through adds the suffix, with its byte size, to the messages. -/
theorem append_eq_ok {m suffix : Messages} (h : (m.append suffix).2 = .ok ()) :
    suffix.begin = m.begin + m.len ∧ ∃ n, byteSize suffix.messages = .ok n ∧
      (m.append suffix).1 = { m with
        messages := FlatMap.fromKeyValues (m.messages ++ suffix.messages),
        countBytes := m.countBytes + n } := by
  unfold append at h ⊢
  by_cases hb : suffix.begin = m.begin + m.len
  · rw [if_neg (not_not.mpr hb)] at h ⊢
    refine ⟨hb, ?_⟩
    cases hn : byteSize suffix.messages with
    | error e => rw [hn] at h; cases h
    | ok n => exact ⟨n, rfl, rfl⟩
  · rw [if_pos hb] at h
    cases h

/-- **Appending valid messages to valid ones** keeps them valid. -/
theorem append_valid {m suffix : Messages} (hm : m.Valid) (hs : suffix.Valid)
    (hbegin : suffix.begin = m.end_) (hend : suffix.end_ ≤ 2 ^ 64) :
    m.append suffix = (⟨m.messages ++ suffix.messages, m.countBytes + suffix.countBytes, m.begin⟩,
      .ok ()) ∧ Messages.Valid ⟨m.messages ++ suffix.messages, m.countBytes + suffix.countBytes,
        m.begin⟩ := by
  have hkeys : (m.messages ++ suffix.messages).map Prod.fst =
      (List.range' m.begin (m.messages ++ suffix.messages).length).map u64ToLabel := by
    unfold end_ len at hbegin
    rw [List.map_append, hm.keys, hs.keys, hbegin, List.length_append, ← List.map_append,
      List.range'_append_1]
  have hleaves : ∀ e ∈ m.messages ++ suffix.messages, ∃ value, e.2 = .leaf value := by
    intro e he
    rcases List.mem_append.mp he with he | he
    · exact hm.leaves e he
    · exact hs.leaves e he
  have hsorted := sortedKeys_of_keys hkeys (by
    unfold end_ len at hbegin hend
    rw [List.length_append]
    omega)
  refine ⟨?_, ⟨by simp [hm.ne_nil], hkeys, hleaves, by
    rw [hm.countBytes_eq, hs.countBytes_eq, messagesBytes_append]⟩⟩
  unfold append
  rw [if_neg (by unfold end_ at hbegin; omega), byteSize_eq_ok hs.leaves,
    FlatMap.fromKeyValues_of_sortedKeys hsorted, ← hs.countBytes_eq]

end Messages

/-- A payload as the pool keeps it: valid messages, if any, within the header's bounds. -/
def Payload.Valid (p : Payload) : Prop :=
  ∀ m, p.messages = some m → m.Valid ∧ p.header.begin ≤ m.begin ∧ m.end_ ≤ p.header.end_

/-! ## Packing messages for a witness -/

theorem fromKeyValues_singleton {β : Type} (e : Label × β) : FlatMap.fromKeyValues [e] = [e] := rfl

theorem pack_messages (subnetId : Label) {ms : PayloadTreeMap} (hne : ms ≠ []) :
    pack subnetId none (some ms) =
      .ok (.subTree [(labelStreams, .subTree [(subnetId, .subTree [(labelMessages, .subTree ms)])])]) := by
  have hempty : ms.isEmpty = false := List.isEmpty_eq_false_iff.mpr hne
  simp [pack, hempty, fromKeyValues_singleton]

/-- **The messages packed for a witness unpack as they were.** -/
theorem unpack_pack (subnetId : Label) {ms : PayloadTreeMap} (hne : ms ≠ []) :
    unpack (.subTree [(labelStreams, .subTree [(subnetId, .subTree [(labelMessages, .subTree ms)])])]) =
      .ok (subnetId, none, some ms) := by
  have hempty : ms.isEmpty = false := List.isEmpty_eq_false_iff.mpr hne
  have hlabels : (labelHeader == labelMessages) = false := by decide
  have hlabels' : labelMessages ≠ labelHeader := by decide
  simp [unpack, childrenOf, FlatMap.remove, List.lookup_cons, hlabels, hlabels', hempty]

section Witness

variable {D : Type} (H : HashFns D)

theorem Messages.prunedWitness_eq (m : Messages) (hne : m.messages ≠ []) (witness : Witness D)
    (subnetId : Label) :
    m.prunedWitness H witness subnetId = (fun prunedWitness => (prunedWitness, m)) <$>
      (pruneWitness H witness (.subTree [(labelStreams,
        .subTree [(subnetId, .subTree [(labelMessages, .subTree m.messages)])])])).mapError
        .witnessPruningFailed := by
  unfold Messages.prunedWitness
  rw [pack_messages subnetId hne, Except.ok_bind]
  cases (pruneWitness H witness _).mapError CertifiedSliceError.witnessPruningFailed with
  | error e => rfl
  | ok prunedWitness =>
    simp only [Except.ok_bind, unpack_pack subnetId hne, Rust.expect]
    rfl

theorem Payload.prunedWitness_eq_ok {p p' : Payload} {witness witness' : Witness D}
    (hne : ∀ m, p.messages = some m → m.messages ≠ [])
    (h : p.prunedWitness H witness = .ok (witness', p')) : p' = p := by
  unfold Payload.prunedWitness at h
  rcases hm : p.messages with _ | m
  · rw [hm] at h
    cases h
    rfl
  · rw [hm] at h
    dsimp only at h
    rw [Messages.prunedWitness_eq H m (hne m hm)] at h
    obtain ⟨⟨w, m'⟩, hw, h⟩ := Except.bind_eq_ok.mp h
    obtain ⟨pw, -, hpw⟩ := Except.map_eq_ok.mp hw
    cases hpw
    cases h
    cases p
    cases hm
    rfl

end Witness

namespace Payload

/-- The messages of a payload, none for no messages. -/
def messageList (p : Payload) : PayloadTreeMap := (p.messages.map Messages.messages).getD []

/-- An append that is refused leaves the payload as it was. -/
theorem append_fst_of_error {p other : Payload} {e : CertifiedSliceError}
    (h : (p.append other).2 = .error e) : (p.append other).1 = p := by
  unfold append at h ⊢
  by_cases hs : other.subnetId ≠ p.subnetId
  · rw [if_pos hs]
  rw [if_neg hs] at h ⊢
  by_cases hse : other.header.signalsEnd < p.header.signalsEnd
  · rw [if_pos hse]
  rw [if_neg hse] at h ⊢
  rcases hpm : p.messages with _ | m <;> rcases hom : other.messages with _ | q <;>
    simp only [hpm, hom] at h ⊢
  · cases h
  · cases h
  · split_ifs at h ⊢
    rfl
  · split_ifs at h ⊢
    · rfl
    · rcases hmq : m.append q with ⟨m', _ | _⟩
      · have hm' : m' = m := by
          simpa [hmq] using Messages.append_fst_of_error (show (m.append q).2 = _ by rw [hmq])
        simp only [hmq] at h ⊢
        rw [hm', ← hpm]
      · simp only [hmq] at h
        cases h

/-- **Appending valid payloads**: an append that goes through is to the same subnet with no lower
`signals_end`, and leaves the other's header, the messages of both and a valid payload. -/
theorem append_eq_ok {p other : Payload} (hp : p.Valid) (ho : other.Valid)
    (h : (p.append other).2 = .ok ()) :
    other.subnetId = p.subnetId ∧ p.header.signalsEnd ≤ other.header.signalsEnd ∧
      (p.append other).1.subnetId = p.subnetId ∧ (p.append other).1.header = other.header ∧
      (p.append other).1.messageList = p.messageList ++ other.messageList ∧
      (∀ m q, p.messages = some m → other.messages = some q → q.begin = m.end_) ∧
      (p.messages.isSome → (p.append other).1.messagesBegin = p.messagesBegin) ∧
      (p.append other).1.Valid := by
  unfold append at h ⊢
  by_cases hs : other.subnetId ≠ p.subnetId
  · rw [if_pos hs] at h
    cases h
  rw [if_neg hs] at h ⊢
  by_cases hse : other.header.signalsEnd < p.header.signalsEnd
  · rw [if_pos hse] at h
    cases h
  rw [if_neg hse] at h ⊢
  refine ⟨not_not.mp hs, Nat.le_of_not_lt hse, ?_⟩
  rcases hpm : p.messages with _ | m <;> rcases hom : other.messages with _ | q <;>
    simp only [hpm, hom] at h ⊢
  · refine ⟨by simp, by simp, by simp [messageList, hpm, hom], by simp, by simp,
      fun _ h => nomatch h⟩
  · refine ⟨by simp, by simp, by simp [messageList, hpm, hom], by simp, by simp,
      fun m' h => ho m' (by simp only [Option.some.injEq] at h; rw [hom, h])⟩
  · split_ifs at h ⊢ with hbounds
    obtain ⟨hmv, -, -⟩ := hp m hpm
    refine ⟨by simp, by simp, by simp [messageList, hpm, hom], by simp, by simp [messagesBegin, hpm],
      fun m' hm' => ?_⟩
    cases hm'
    simp only [not_or, not_lt, gt_iff_lt] at hbounds
    exact ⟨hmv, hbounds.1, hbounds.2⟩
  · split_ifs at h ⊢ with hbounds
    obtain ⟨hmv, -, -⟩ := hp m hpm
    obtain ⟨hqv, -, hqe⟩ := ho q hom
    rcases hmq : m.append q with ⟨m', _ | _⟩
    · simp only [hmq] at h
      cases h
    obtain ⟨hbegin, -⟩ := Messages.append_eq_ok (show (m.append q).2 = .ok () by rw [hmq])
    have hend : q.end_ ≤ 2 ^ 64 := le_trans hqe (Nat.le_of_lt other.header.end_lt)
    obtain ⟨happ, hv⟩ := Messages.append_valid hmv hqv hbegin hend
    rw [hmq, Prod.mk.injEq] at happ
    obtain ⟨rfl, -⟩ := happ
    refine ⟨by simp, by simp, by simp [messageList, hpm, hom], by simpa [Messages.end_] using hbegin,
      by simp [messagesBegin, hpm], fun m' hm' => ?_⟩
    cases hm'
    simp only [not_or, not_lt, gt_iff_lt] at hbounds
    refine ⟨hv, hbounds.1, ?_⟩
    unfold Messages.end_ Messages.len at hqe ⊢
    unfold Messages.len at hbegin
    simp only [List.length_append]
    omega

end Payload

/-! ## The witness estimate of a slice -/

theorem witnessCountBytes_none (streamBegin streamEnd : ℕ) :
    witnessCountBytes streamBegin streamEnd none none = .ok noMessagesWitnessBytes := by
  simp [witnessCountBytes, Rust.assert]
  rfl

theorem witnessCountBytes_some {streamBegin streamEnd sliceBegin k : ℕ}
    (hbegin : streamBegin ≤ sliceBegin) (hend : sliceBegin + k ≤ streamEnd) (hk : 0 < k) :
    witnessCountBytes streamBegin streamEnd (some sliceBegin) (some (sliceBegin + k)) =
      .ok (witnessEstimate (streamEnd - streamBegin) (sliceBegin - streamBegin)
        (streamEnd - (sliceBegin + k)) k) := by
  have hne : ¬ (streamBegin = streamEnd ∨ some sliceBegin = some (sliceBegin + k)) := by
    simp only [Option.some.injEq, not_or]
    omega
  simp only [witnessCountBytes, Option.isNone_some, BEq.rfl, Rust.assert, if_true,
    Except.mapError, Except.ok_bind, hne, if_false]
  simp only [show streamBegin ≤ sliceBegin from hbegin, show sliceBegin ≤ sliceBegin + k by omega,
    hend, decide_true, if_true]
  simp [Nat.add_sub_cancel_left]

end IC.XNet.SlicePool
