import InternetComputer.XNet.SlicePool.Slice
import InternetComputer.Lib.SortedMap
import InternetComputer.State.ReplicatedState

/-!
# The certified slice pool

`CertifiedSlicePool` of `certified_slice_pool.rs`: the slices pulled from each remote subnet and
the stream position each is to be taken from. `take_slice` drops what is below the position,
cuts a prefix to the limits, puts the rest back and advances the position; `put` and `append`
add and extend slices.

* `CertifiedSlicePool.Valid`, `takeSliceImpl_eq_ok_some`;
* **`takeSlice_respects_limits`**, **`append_error_keeps_pooled`**.
-/

namespace IC.XNet.SlicePool

open IC.TreeHash IC.CanonicalState IC.State

/-- `CertifiedSlicePool`: the pooled slices and cached positions by subnet. -/
structure CertifiedSlicePool (D : Type) where
  slices : SortedMap SubnetId (UnpackedStreamSlice D)
  streamPositions : SortedMap SubnetId ExpectedIndices

namespace CertifiedSlicePool

variable {D : Type} (H : HashFns D)

/-- The garbage collection of `take_slice_impl` from begin indices: the slice from `begin`, none
when nothing is left, `TakeBeforeSliceBegin` when it begins past `begin`. -/
def collectFrom (slice : UnpackedStreamSlice D) (begin : ExpectedIndices) :
    Except CertifiedSliceError (Option (UnpackedStreamSlice D)) := do
  match ← slice.garbageCollect H begin with
  | none => pure none
  | some slice =>
    if let some actualBegin := slice.payload.messagesBegin then
      if actualBegin ≠ begin.messageIndex then throw .takeBeforeSliceBegin
    pure (some slice)

/-- The cached stream position of a subnet, advanced. -/
def advancePosition (streamPositions : SortedMap SubnetId ExpectedIndices) (subnetId : SubnetId)
    (count signalsEnd : ℕ) : SortedMap SubnetId ExpectedIndices :=
  match streamPositions.get? subnetId with
  | some position => streamPositions.insert subnetId
      ⟨position.messageIndex + count, max position.signalIndex signalsEnd⟩
  | none => streamPositions

/-- `CertifiedSlicePool::take_slice_impl`, with the pool it leaves: the slice cut to the limits
from `begin`, the rest put back and the position advanced; an invalid slice is dropped. -/
def takeSliceImpl (pool : CertifiedSlicePool D) (subnetId : SubnetId)
    (begin : Option ExpectedIndices) (msgLimit byteLimit : Option ℕ) :
    CertifiedSlicePool D × Except CertifiedSliceError (Option (UnpackedStreamSlice D)) :=
  let streamPositions := match begin with
    | some begin => pool.streamPositions.insert subnetId begin
    | none => pool.streamPositions
  match pool.slices.get? subnetId with
  | none => (⟨pool.slices, streamPositions⟩, .ok none)
  | some slice =>
    let slices := pool.slices.erase subnetId
    let collected := match begin with
      | some begin => collectFrom H slice begin
      | none => pure (some slice)
    match collected with
    | .error e => (⟨slices, streamPositions⟩, .error e)
    | .ok none => (⟨slices, streamPositions⟩, .ok none)
    | .ok (some slice) =>
      match slice.takePrefix H msgLimit byteLimit with
      | .error e => (⟨slices, streamPositions⟩, .error e)
      | .ok (pre, rest) =>
        let slices := match rest with
          | some rest => slices.insert subnetId rest
          | none => slices
        match pre with
        | some pre =>
          let prefixMessageCount := slice.payload.len - (rest.map fun r => r.payload.len).getD 0
          (⟨slices, advancePosition streamPositions subnetId prefixMessageCount
            slice.payload.header.signalsEnd⟩, .ok (some pre))
        | none => (⟨slices, streamPositions⟩, .ok none)

/-- `CertifiedSlicePool::take_slice`, with the slice unpacked. -/
def takeSlice (pool : CertifiedSlicePool D) (subnetId : SubnetId)
    (begin : Option ExpectedIndices) (msgLimit byteLimit : Option ℕ) :
    CertifiedSlicePool D × Except CertifiedSliceError (Option (UnpackedStreamSlice D × ℕ)) :=
  let (pool, res) := pool.takeSliceImpl H subnetId begin msgLimit byteLimit
  (pool, do
    match ← res with
    | some slice => do
      let sliceCountBytes ← slice.countBytes
      pure (some (slice, sliceCountBytes))
    | none => pure none)

/-- `CertifiedSlicePool::garbage_collect_impl`. -/
def garbageCollectImpl (pool : CertifiedSlicePool D) (subnetId : SubnetId)
    (streamPosition : ExpectedIndices) : CertifiedSlicePool D × Option (UnpackedStreamSlice D) :=
  match pool.slices.get? subnetId with
  | none => (pool, none)
  | some slice =>
    let pool := { pool with slices := pool.slices.erase subnetId }
    match slice.garbageCollect H streamPosition with
    | .ok (some slice) => (pool, some slice)
    | .ok none => (pool, none)
    | .error _ => (pool, none)

/-- `CertifiedSlicePool::garbage_collect_slice`. -/
def garbageCollectSlice (pool : CertifiedSlicePool D) (subnetId : SubnetId)
    (streamPosition : ExpectedIndices) : CertifiedSlicePool D :=
  let (pool, slice) := pool.garbageCollectImpl H subnetId streamPosition
  let slices := match slice with
    | some slice => pool.slices.insert subnetId slice
    | none => pool.slices
  ⟨slices, pool.streamPositions.insert subnetId streamPosition⟩

/-- `CertifiedSlicePool::garbage_collect`. -/
def garbageCollect (pool : CertifiedSlicePool D)
    (newStreamPositions : SortedMap SubnetId ExpectedIndices) : CertifiedSlicePool D :=
  let collected := newStreamPositions.entries.foldl (fun (acc : CertifiedSlicePool D × _) e =>
      let (pool, slice) := acc.1.garbageCollectImpl H e.1 e.2
      (pool, match slice with
        | some slice => acc.2.insert e.1 slice
        | none => acc.2)) (pool, SortedMap.empty)
  ⟨collected.2, newStreamPositions⟩

/-- `CertifiedSlicePool::put_impl`. -/
def putImpl (pool : CertifiedSlicePool D) (subnetId : SubnetId) (unpacked : UnpackedStreamSlice D) :
    CertifiedSlicePool D × Except CertifiedSliceError Unit :=
  match pool.streamPositions.get? subnetId with
  | some cutoff =>
    match unpacked.garbageCollect H cutoff with
    | .error e => (pool, .error e)
    | .ok none => (pool, .ok ())
    | .ok (some unpacked) => ({ pool with slices := pool.slices.insert subnetId unpacked }, .ok ())
  | none => ({ pool with slices := pool.slices.insert subnetId unpacked }, .ok ())

/-- `CertifiedSlicePool::put`, with the slice unpacked. -/
def put (pool : CertifiedSlicePool D) (subnetId : SubnetId) (slice : UnpackedStreamSlice D) :
    CertifiedSlicePool D × Except CertifiedSliceError Unit :=
  pool.putImpl H subnetId slice

/-- `CertifiedSlicePool::append`: appended to the pooled slice, put back either way; with no
pooled slice, pooled if it is complete. -/
def append (pool : CertifiedSlicePool D) (subnetId : SubnetId)
    (partialSlice : UnpackedStreamSlice D) : CertifiedSlicePool D × Except CertifiedSliceError Unit :=
  match pool.slices.get? subnetId with
  | some pooled =>
    let pool := { pool with slices := pool.slices.erase subnetId }
    let (pooled, res) := pooled.append partialSlice
    let (pool, putRes) := pool.putImpl H subnetId pooled
    (pool, do putRes; res)
  | none =>
    match partialSlice.isComplete with
    | .error e => (pool, .error e)
    | .ok false => (pool, .error (.invalidAppend .indexMismatch))
    | .ok true => pool.putImpl H subnetId partialSlice

end CertifiedSlicePool

/-! ## Failures of garbage collection -/

/-- Whether an error is `InvalidAppend`. -/
def CertifiedSliceError.isInvalidAppend : CertifiedSliceError → Bool
  | .invalidAppend _ => true
  | _ => false

/-- A computation that does not fail with `InvalidAppend`. -/
def NoInvalidAppend {α : Type} (x : Except CertifiedSliceError α) : Prop :=
  ∀ e, x = .error e → e.isInvalidAppend = false

namespace NoInvalidAppend

variable {α β : Type}

theorem pure (a : α) : NoInvalidAppend (Pure.pure a : Except CertifiedSliceError α) :=
  fun _ h => nomatch h

theorem error {e : CertifiedSliceError} (he : e.isInvalidAppend = false) :
    NoInvalidAppend (Except.error e : Except CertifiedSliceError α) := by
  rintro e' ⟨⟩
  exact he

theorem bind {x : Except CertifiedSliceError α} {f : α → Except CertifiedSliceError β}
    (hx : NoInvalidAppend x) (hf : ∀ a, NoInvalidAppend (f a)) : NoInvalidAppend (x >>= f) := by
  cases x with
  | error e' => exact error (hx e' rfl)
  | ok a => exact hf a

theorem mapError {ε : Type} {x : Except ε α} {g : ε → CertifiedSliceError}
    (hg : ∀ e, (g e).isInvalidAppend = false) : NoInvalidAppend (x.mapError g) := by
  cases x with
  | error e => exact error (hg e)
  | ok a => exact pure a

theorem foldlM {γ : Type} {f : α → γ → Except CertifiedSliceError α}
    (hf : ∀ acc c, NoInvalidAppend (f acc c)) : ∀ (l : List γ) (init : α),
      NoInvalidAppend (l.foldlM f init)
  | [], init => pure init
  | c :: l, init => bind (hf init c) fun acc => foldlM hf l acc

end NoInvalidAppend

theorem noInvalidAppend_messageByteSize (message : PayloadTree) :
    NoInvalidAppend (messageByteSize message) := by
  refine .bind ?_ fun _ => .pure _
  cases message with
  | leaf value => exact .pure value
  | subTree _ => exact .error rfl

theorem noInvalidAppend_byteSize (messages : PayloadTreeMap) :
    NoInvalidAppend (byteSize messages) := by
  unfold byteSize
  exact .foldlM (fun _ (message : Label × PayloadTree) =>
    .bind (noInvalidAppend_messageByteSize message.2) fun _ => .pure _) _ _

theorem Messages.noInvalidAppend_new (messages : PayloadTreeMap) :
    NoInvalidAppend (Messages.new messages) := by
  unfold Messages.new
  split
  · exact .error rfl
  · exact .bind (noInvalidAppend_byteSize _) fun _ =>
      .bind (.mapError fun _ => rfl) fun _ => .pure _

theorem Messages.noInvalidAppend_takePrefix (m : Messages) (to_ : Label) :
    NoInvalidAppend (m.takePrefix to_) := by
  refine .bind (noInvalidAppend_byteSize _) fun _ => ?_
  split_ifs
  · exact .pure _
  · exact .pure _
  · exact .bind (Messages.noInvalidAppend_new _) fun _ => .pure _

theorem noInvalidAppend_pack (subnetId : Label) (header : Option (List UInt8))
    (messages : Option PayloadTreeMap) : NoInvalidAppend (pack subnetId header messages) := by
  intro e h
  unfold pack at h
  dsimp only at h
  split at h
  · cases h
    rfl
  · cases h

theorem Payload.noInvalidAppend_garbageCollect (p : Payload) (cutoff : ℕ) :
    NoInvalidAppend (p.garbageCollect cutoff) := by
  have htake : NoInvalidAppend (p.takeMessagesPrefix (u64ToLabel cutoff)) := by
    unfold Payload.takeMessagesPrefix
    split
    · exact .bind (Messages.noInvalidAppend_takePrefix _ _) fun _ => .pure _
    · exact .pure _
  refine .bind htake fun ⟨pruned, q⟩ => ?_
  cases pruned with
  | some _ => exact .bind (noInvalidAppend_pack _ _ _) fun _ => .pure _
  | none => exact .pure _

theorem UnpackedStreamSlice.noInvalidAppend_garbageCollect {D : Type} (H : HashFns D)
    (s : UnpackedStreamSlice D) (cutoff : ExpectedIndices) :
    NoInvalidAppend (s.garbageCollect H cutoff) := by
  refine .bind (Payload.noInvalidAppend_garbageCollect _ _) fun ⟨t, q⟩ => ?_
  dsimp only
  split
  · exact .pure _
  cases t with
  | some _ => exact .bind (.mapError fun _ => rfl) fun _ => .pure _
  | none => exact .pure _

/-! ## Taking slices -/

namespace CertifiedSlicePool

variable {D : Type} (H : HashFns D)

/-- Every pooled slice has a valid payload. -/
def Valid (pool : CertifiedSlicePool D) : Prop :=
  ∀ subnetId slice, pool.slices.get? subnetId = some slice → slice.payload.Valid

theorem collectFrom_eq_ok_some {slice s' : UnpackedStreamSlice D} {begin : ExpectedIndices}
    (h : collectFrom H slice begin = .ok (some s')) :
    slice.garbageCollect H begin = .ok (some s') ∧
      ∀ i, s'.payload.messagesBegin = some i → i = begin.messageIndex := by
  obtain ⟨g, hg, h⟩ := Except.bind_eq_ok.mp h
  rcases g with _ | s''
  · cases h
  dsimp only at h
  split at h
  · rename_i i hi
    split at h
    · cases h
    · cases h
      exact ⟨hg, fun j hj => by rw [hi] at hj; cases hj; omega⟩
  · rename_i hnone
    cases h
    exact ⟨hg, fun j hj => by simp_all⟩

theorem get?_advancePosition_insert (streamPositions : SortedMap SubnetId ExpectedIndices)
    (subnetId : SubnetId) (begin : ExpectedIndices) (count signalsEnd : ℕ) :
    (advancePosition (streamPositions.insert subnetId begin) subnetId count signalsEnd).get?
      subnetId = some ⟨begin.messageIndex + count, max begin.signalIndex signalsEnd⟩ := by
  simp [advancePosition, SortedMap.get?_insert]

/-- **A take that returns a slice**: the pooled slice, garbage collected from the begin indices,
is cut by `take_prefix`; the rest stays pooled and the position advances. -/
theorem takeSliceImpl_eq_ok_some {pool : CertifiedSlicePool D} {subnetId : SubnetId}
    {begin : ExpectedIndices} {msgLimit byteLimit : Option ℕ} {pre : UnpackedStreamSlice D}
    (h : (pool.takeSliceImpl H subnetId (some begin) msgLimit byteLimit).2 = .ok (some pre)) :
    ∃ pooled s₀ rest, pool.slices.get? subnetId = some pooled ∧
      pooled.garbageCollect H begin = .ok (some s₀) ∧
      (∀ i, s₀.payload.messagesBegin = some i → i = begin.messageIndex) ∧
      s₀.takePrefix H msgLimit byteLimit = .ok (some pre, rest) ∧
      (pool.takeSliceImpl H subnetId (some begin) msgLimit byteLimit).1.slices.get? subnetId = rest ∧
      (∀ other, other ≠ subnetId →
        (pool.takeSliceImpl H subnetId (some begin) msgLimit byteLimit).1.slices.get? other =
          pool.slices.get? other) ∧
      (pool.takeSliceImpl H subnetId (some begin) msgLimit byteLimit).1.streamPositions =
        advancePosition (pool.streamPositions.insert subnetId begin) subnetId
          (s₀.payload.len - (rest.map fun r => r.payload.len).getD 0)
          s₀.payload.header.signalsEnd := by
  unfold takeSliceImpl at h ⊢
  rcases hget : pool.slices.get? subnetId with _ | pooled
  · simp only [hget] at h
    cases h
  simp only [hget] at h ⊢
  rcases hc : collectFrom H pooled begin with e | _ | s₀
  · simp only [hc] at h
    cases h
  · simp only [hc] at h
    cases h
  obtain ⟨hgc, hbegin⟩ := collectFrom_eq_ok_some H hc
  simp only [hc] at h ⊢
  rcases ht : s₀.takePrefix H msgLimit byteLimit with e | ⟨_ | pre', rest⟩
  · simp only [ht] at h
    cases h
  · simp only [ht] at h
    cases h
  simp only [ht] at h ⊢
  cases h
  refine ⟨pooled, s₀, rest, rfl, hgc, hbegin, ht, ?_, fun other hne => ?_, rfl⟩
  · cases rest <;> simp [SortedMap.get?_insert, SortedMap.get?_erase]
  · cases rest <;> simp [SortedMap.get?_insert, SortedMap.get?_erase, hne]

theorem takeSlice_eq_ok_some {pool pool' : CertifiedSlicePool D} {subnetId : SubnetId}
    {begin : Option ExpectedIndices} {msgLimit byteLimit : Option ℕ}
    {slice : UnpackedStreamSlice D} {n : ℕ}
    (h : pool.takeSlice H subnetId begin msgLimit byteLimit = (pool', .ok (some (slice, n)))) :
    pool.takeSliceImpl H subnetId begin msgLimit byteLimit = (pool', .ok (some slice)) ∧
      slice.countBytes = .ok n := by
  unfold takeSlice at h
  rcases hi : pool.takeSliceImpl H subnetId begin msgLimit byteLimit with ⟨p₁, _ | _ | s₁⟩
  all_goals
    rw [hi] at h
    simp only [Prod.mk.injEq] at h
    obtain ⟨rfl, h⟩ := h
  · cases h
  · cases h
  obtain ⟨c, hcount, h⟩ := Except.bind_eq_ok.mp (show (Except.ok (some s₁) >>= _) = _ from h) 
  cases hcount
  obtain ⟨c, hcount, h⟩ := Except.bind_eq_ok.mp h
  cases h
  exact ⟨rfl, hcount⟩

/-- What `take_slice` returns: its byte count, the messages from `begin`, the position advanced
past them, and the rest of the pooled slice left in the pool. -/
theorem takeSlice_spec {pool pool' : CertifiedSlicePool D} (hpool : pool.Valid)
    {subnetId : SubnetId} {begin : ExpectedIndices} (hbegin : begin.messageIndex < 2 ^ 64)
    {msgLimit byteLimit : Option ℕ} {slice : UnpackedStreamSlice D} {n : ℕ}
    (htake : pool.takeSlice H subnetId (some begin) msgLimit byteLimit =
      (pool', .ok (some (slice, n)))) :
    slice.countBytes = .ok n ∧
      (∀ i, slice.payload.messagesBegin = some i → i = begin.messageIndex) ∧
      (pool'.streamPositions.get? subnetId).map ExpectedIndices.messageIndex =
        some (begin.messageIndex + slice.payload.len) ∧
      ∃ pooled s₀, pool.slices.get? subnetId = some pooled ∧
        pooled.garbageCollect H begin = .ok (some s₀) ∧
        slice.payload = s₀.payload.firstMessages slice.payload.len ∧
        (pool'.slices.get? subnetId).map (fun r' => r'.payload) =
          (if slice.payload.len = s₀.payload.len then none
            else some (s₀.payload.dropMessages slice.payload.len)) ∧
        ∀ other, other ≠ subnetId → pool'.slices.get? other = pool.slices.get? other := by
  obtain ⟨himpl, hcount⟩ := takeSlice_eq_ok_some H htake
  obtain ⟨pooled, s₀, rest, hget, hgc, hb₀, ht, hrest, hother, hpos⟩ :=
    takeSliceImpl_eq_ok_some H (show (pool.takeSliceImpl H subnetId (some begin) msgLimit
      byteLimit).2 = .ok (some slice) by rw [himpl])
  rw [himpl] at hrest hother hpos
  have hs₀ := (UnpackedStreamSlice.garbageCollect_valid H (hpool _ _ hget) hbegin hgc).1
  obtain ⟨hcnt, hfirst, -, hdrop, -⟩ := UnpackedStreamSlice.takePrefix_eq_ok_some H hs₀ ht
  refine ⟨hcount, fun i hi => hb₀ i (Payload.messagesBegin_of_firstMessages (hfirst ▸ hi)), ?_,
    pooled, s₀, hget, hgc, hfirst, ?_, hother⟩
  · rw [hpos, get?_advancePosition_insert, hcnt]
    rfl
  · rw [hrest]
    exact hdrop

/-- **Taking slices keeps to the limits**: on every valid slice, `take_prefix` gives a prefix within
both limits, or none when the header does not fit, the first message left over breaking a limit;
and on every valid pool, `take_slice` returns such a prefix of the pooled slice. -/
theorem takeSlice_respects_limits :
    (∀ {s : UnpackedStreamSlice D}, s.payload.Valid →
      ∀ {msgLimit byteLimit : Option ℕ} {x r : Option (UnpackedStreamSlice D)},
        s.takePrefix H msgLimit byteLimit = .ok (x, r) →
        (∀ x', x = some x' →
            (∀ m, msgLimit = some m → x'.payload.len ≤ m) ∧
            x'.countBytes = .ok (x'.payload.countBytes + x'.payload.witnessBytes +
              x'.certification.countBytes) ∧
            (∀ b, byteLimit = some b →
              x'.payload.countBytes + x'.payload.witnessBytes + x'.certification.countBytes ≤ b)) ∧
          (x = none → r = some s ∧ byteLimit.getD usizeMax < s.certification.countBytes +
            emptyPayloadBytes + s.payload.rejectSignalsCountBytes + noMessagesWitnessBytes) ∧
          (∀ x' r', x = some x' → r = some r' →
            x'.payload = s.payload.firstMessages x'.payload.len ∧
            r'.payload = s.payload.dropMessages x'.payload.len ∧
            (msgLimit.getD usizeMax < x'.payload.len + 1 ∨
              byteLimit.getD usizeMax < (s.payload.firstMessages (x'.payload.len + 1)).countBytes +
                (s.payload.firstMessages (x'.payload.len + 1)).witnessBytes +
                s.certification.countBytes))) ∧
    ∀ {pool pool' : CertifiedSlicePool D}, pool.Valid →
      ∀ {subnetId : SubnetId} {begin : ExpectedIndices}, begin.messageIndex < 2 ^ 64 →
      ∀ {msgLimit byteLimit : Option ℕ} {slice : UnpackedStreamSlice D} {n : ℕ},
        pool.takeSlice H subnetId (some begin) msgLimit byteLimit =
          (pool', .ok (some (slice, n))) →
        slice.countBytes = .ok n ∧
          (∀ i, slice.payload.messagesBegin = some i → i = begin.messageIndex) ∧
          (pool'.streamPositions.get? subnetId).map ExpectedIndices.messageIndex =
            some (begin.messageIndex + slice.payload.len) ∧
          ∃ pooled s₀, pool.slices.get? subnetId = some pooled ∧
            pooled.garbageCollect H begin = .ok (some s₀) ∧
            slice.payload = s₀.payload.firstMessages slice.payload.len ∧
            (pool'.slices.get? subnetId).map (fun r' => r'.payload) =
              (if slice.payload.len = s₀.payload.len then none
                else some (s₀.payload.dropMessages slice.payload.len)) ∧
            ∀ other, other ≠ subnetId → pool'.slices.get? other = pool.slices.get? other :=
  ⟨fun hs _ _ _ _ h => UnpackedStreamSlice.takePrefix_spec H hs h,
    fun hpool _ _ hbegin _ _ _ _ htake => takeSlice_spec H hpool hbegin htake⟩

/-- A slice of the messages at indices 0 and 1 of a stream of two. -/
def twoMessageSlice : UnpackedStreamSlice HashTerm where
  payload := ⟨[1], ⟨⟨0, 2, 0, []⟩, by decide, by decide⟩,
    some ⟨[(u64ToLabel 0, .leaf []), (u64ToLabel 1, .leaf [])], 32, 0⟩⟩
  merkleProof := .node labelStreams (.node [1] (.fork (.node labelHeader .known)
    (.node labelMessages (.fork (.node (u64ToLabel 0) .known) (.node (u64ToLabel 1) .known)))))
  certification := ⟨0, [], 0⟩

/-- The pool of that slice alone, from the subnet of no bytes, with no cached position. -/
def twoSlicePool : CertifiedSlicePool HashTerm :=
  ⟨SortedMap.empty.insert ⟨[], by decide⟩ twoMessageSlice, SortedMap.empty⟩

/-- A byte limit of 0 leaves the slice whole, as not even its header fits; a message limit of 1
takes the first message, the second breaking the limit; and the pool's `take_slice` at that limit
returns one message and advances the stream position to 1. -/
theorem takeSlice_respects_limits_at_two_messages :
    (twoMessageSlice.takePrefix HashTerm.hashFns none (some 0) = .ok (none, some twoMessageSlice) ∧
      0 < twoMessageSlice.certification.countBytes + emptyPayloadBytes +
        twoMessageSlice.payload.rejectSignalsCountBytes + noMessagesWitnessBytes) ∧
    (∃ x r, twoMessageSlice.takePrefix HashTerm.hashFns (some 1) none = .ok (some x, some r) ∧
      x.payload = twoMessageSlice.payload.firstMessages 1 ∧
      r.payload = twoMessageSlice.payload.dropMessages 1) ∧
    ∃ (pool' : CertifiedSlicePool HashTerm) (slice : UnpackedStreamSlice HashTerm) (n : ℕ),
      twoSlicePool.takeSlice HashTerm.hashFns ⟨[], by decide⟩ (some ⟨0, 0⟩) (some 1) none =
        (pool', .ok (some (slice, n))) ∧ slice.payload.len = 1 ∧ slice.countBytes = .ok n ∧
      (pool'.streamPositions.get? ⟨[], by decide⟩).map ExpectedIndices.messageIndex = some 1 := by
  have hs : twoMessageSlice.payload.Valid := by
    rintro m ⟨⟩
    exact ⟨⟨by simp, rfl, by simp, rfl⟩, by decide, by decide⟩
  have hpool : twoSlicePool.Valid := by
    intro subnetId slice hget
    rw [twoSlicePool, SortedMap.get?_insert] at hget
    split_ifs at hget
    · cases hget
      exact hs
    · cases hget
  have hnone : twoMessageSlice.takePrefix HashTerm.hashFns none (some 0) =
      .ok (none, some twoMessageSlice) := rfl
  -- the runs are evaluated by the kernel, and their shapes read off one test each
  have hsplit : ((twoMessageSlice.takePrefix HashTerm.hashFns (some 1) none).toOption.map
      fun p => decide ((p.1.map fun x => x.payload.len) = some 1) && p.2.isSome) = some true := by
    decide +kernel
  have hrun : ((twoSlicePool.takeSlice HashTerm.hashFns ⟨[], by decide⟩ (some ⟨0, 0⟩) (some 1)
      none).2.toOption.join.map fun p => decide (p.1.payload.len = 1)) = some true := by
    decide +kernel
  obtain ⟨x, r, hsome, hxlen⟩ : ∃ x r, twoMessageSlice.takePrefix HashTerm.hashFns (some 1) none =
      .ok (some x, some r) ∧ x.payload.len = 1 := by
    obtain ⟨⟨_ | x, _ | r⟩, hp, hok⟩ := Except.exists_eq_ok_of_toOption_map hsplit
    all_goals simp at hok
    exact ⟨x, r, hp, hok⟩
  obtain ⟨pool', slice, n, hres, hlen⟩ : ∃ pool' slice n, twoSlicePool.takeSlice HashTerm.hashFns
      ⟨[], by decide⟩ (some ⟨0, 0⟩) (some 1) none = (pool', .ok (some (slice, n))) ∧
        slice.payload.len = 1 := by
    rcases h : twoSlicePool.takeSlice HashTerm.hashFns ⟨[], by decide⟩ (some ⟨0, 0⟩) (some 1) none
      with ⟨pool', _ | _ | ⟨slice, n⟩⟩ <;> rw [h] at hrun
    · cases hrun
    · cases hrun
    · exact ⟨pool', slice, n, rfl, of_decide_eq_true (Option.some.inj hrun)⟩
  obtain ⟨hcount, -, hpos, -⟩ := (takeSlice_respects_limits HashTerm.hashFns).2 hpool (by decide) hres
  obtain ⟨hx, hr, -⟩ := (takeSlice_respects_limits HashTerm.hashFns).1 hs hsome |>.2.2 x r rfl rfl
  rw [hlen] at hpos
  rw [hxlen] at hx hr
  exact ⟨⟨hnone, by simpa using ((takeSlice_respects_limits HashTerm.hashFns).1 hs hnone).2.1 rfl⟩,
    ⟨x, r, hsome, hx, hr⟩, pool', slice, n, hres, hlen, hcount, hpos⟩

/-! ## Appending to the pool -/

theorem noInvalidAppend_putImpl (pool : CertifiedSlicePool D) (subnetId : SubnetId)
    (unpacked : UnpackedStreamSlice D) : NoInvalidAppend (pool.putImpl H subnetId unpacked).2 := by
  unfold putImpl
  split
  · rcases hgc : unpacked.garbageCollect H _ with e | _ | _
    · exact .error (UnpackedStreamSlice.noInvalidAppend_garbageCollect H _ _ e hgc)
    · exact .pure _
    · exact .pure _
  · exact .pure _

/-- **An append refused as `InvalidAppend` keeps the pooled slice**, trimmed as `put_impl` trims. -/
theorem append_error_keeps_pooled {pool : CertifiedSlicePool D} {subnetId : SubnetId}
    {partialSlice : UnpackedStreamSlice D} {reason : InvalidAppend}
    (h : (pool.append H subnetId partialSlice).2 = .error (.invalidAppend reason)) :
    (∀ pooled, pool.slices.get? subnetId = some pooled →
      (pool.append H subnetId partialSlice).1 =
        (({ pool with slices := pool.slices.erase subnetId } : CertifiedSlicePool D).putImpl H
          subnetId pooled).1) ∧
    (pool.slices.get? subnetId = none → (pool.append H subnetId partialSlice).1 = pool) := by
  unfold append at h ⊢
  rcases hget : pool.slices.get? subnetId with _ | pooled
  · simp only [hget] at h ⊢
    refine ⟨fun _ h' => (nomatch h'), fun _ => ?_⟩
    rcases hc : partialSlice.isComplete with e | _ | _ <;> simp only [hc] at h ⊢
    exact absurd (noInvalidAppend_putImpl H pool subnetId partialSlice _ h) (by simp [CertifiedSliceError.isInvalidAppend])
  simp only [hget] at h ⊢
  refine ⟨fun p hp => ?_, fun h' => (nomatch h')⟩
  cases hp
  rcases ha : pooled.append partialSlice with ⟨pooled', res⟩
  rcases hput : ({ pool with slices := pool.slices.erase subnetId } : CertifiedSlicePool D).putImpl
    H subnetId pooled' with ⟨pool', _ | _⟩
  · have hne := noInvalidAppend_putImpl H { pool with slices := pool.slices.erase subnetId }
      subnetId pooled'
    rw [hput] at hne
    simp only [ha, hput] at h
    exact absurd (hne _ h) (by simp [CertifiedSliceError.isInvalidAppend])
  simp only [ha, hput] at h ⊢
  have hkept : pooled' = pooled := by
    have := UnpackedStreamSlice.append_fst_of_error (show (pooled.append partialSlice).2 = _ by
      rw [ha]; exact h)
    rwa [ha] at this
  rw [← hkept, hput]

end CertifiedSlicePool

end IC.XNet.SlicePool
