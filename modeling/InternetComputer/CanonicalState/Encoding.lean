import InternetComputer.Lib.Rust
import InternetComputer.Lib.Serde
import InternetComputer.XNet.Stream

/-!
# The canonical encoding of stream headers

`encode_stream_header` writes a `StreamHeader` with its reject signals as deltas (the last from
`signals_end`, each other from the next signal) in CBOR; `decode_stream_header` turns the deltas
back into signals. The CBOR format is a parameter (`Serde.Format`).

* **`rejectSignalsLoop_rejectSignalDeltasLoop`**: the loops invert each other;
* **`decodeStreamHeader_encodeStreamHeader`**: a header whose signals increase strictly below
  `signals_end` decodes to itself;
* **`decodeStreamHeader_valid_iff`**: a decoded header has such signals exactly when no delta is
  zero, which the decoder does not check (`decodeStreamHeader_accepts_zero_delta`).
-/

namespace IC.CanonicalState

open Serde XNet

/-- `ProxyDecodeError`: an error of the CBOR format or a visitor, a value out of range, bytes that
are no principal id, or a canonical value that does not convert. -/
inductive ProxyDecodeError where
  | cborDecodeError (error : String ⊕ Serde.Error)
  | valueOutOfRange (typ : String) (err : String)
  | invalidPrincipalId
  | other (message : String)
  deriving DecidableEq

namespace Types

/-- `types::StreamHeader`, the canonical form of a `StreamHeader`. -/
structure StreamHeader where
  begin : UInt64
  «end» : UInt64
  signalsEnd : UInt64
  rejectSignalDeltas : List UInt64
  deriving DecidableEq

namespace StreamHeader

/-! ## Serialization -/

/-- The derived `Serialize` in the packed format: a map from field index to value. -/
def serialize (h : StreamHeader) : Value :=
  .map ([(.uint 0, .uint h.begin), (.uint 1, .uint h.«end»), (.uint 2, .uint h.signalsEnd)] ++
    if h.rejectSignalDeltas.isEmpty then [] else
      [(.uint 3, .seq (h.rejectSignalDeltas.map .uint))])

/-- `FIELDS` of the derived `Deserialize`. -/
def fields : List String := ["begin", "end", "signals_end", "reject_signal_deltas"]

/-- The `__Field` enum of the derived `Deserialize`. -/
inductive Field where
  | begin
  | «end»
  | signalsEnd
  | rejectSignalDeltas

/-- The field of a name; `deny_unknown_fields` refuses any other name. -/
def fieldOfName (name : String) : Except Error Field :=
  if name = "begin" then .ok .begin
  else if name = "end" then .ok .«end»
  else if name = "signals_end" then .ok .signalsEnd
  else if name = "reject_signal_deltas" then .ok .rejectSignalDeltas
  else .error (.unknownField name fields)

/-- The field a map key names: by index in the packed format, or by name as text or bytes. -/
def fieldOfKey : Value → Except Error Field
  | .uint i =>
    if i = 0 then .ok .begin
    else if i = 1 then .ok .«end»
    else if i = 2 then .ok .signalsEnd
    else if i = 3 then .ok .rejectSignalDeltas
    else .error (.invalidValue (.unsigned i) "field index 0 <= i < 4")
  | .str s => fieldOfName s
  | .bytes bs => fieldOfName (fromUtf8Lossy bs)
  | v => .error (.invalidType v.unexpected "field identifier")

/-- The fields a map has given so far. -/
structure Partial where
  begin : Option UInt64
  «end» : Option UInt64
  signalsEnd : Option UInt64
  rejectSignalDeltas : Option (List UInt64)

/-- A field given once: its value, read by `read`; a second time, `duplicate_field`. -/
def putField {β : Type} (name : String) (old : Option β) (read : Value → Except Error β)
    (value : Value) : Except Error β :=
  match old with
  | some _ => .error (.duplicateField name)
  | none => read value

/-- The loop of the derived `visit_map`: each entry gives a field not given before. -/
def visitMapLoop : Partial → List (Value × Value) → Except Error Partial
  | acc, [] => .ok acc
  | acc, (key, value) :: entries => do
    match ← fieldOfKey key with
    | .begin =>
      let v ← putField "begin" acc.begin Value.toU64 value
      visitMapLoop { acc with begin := some v } entries
    | .«end» =>
      let v ← putField "end" acc.«end» Value.toU64 value
      visitMapLoop { acc with «end» := some v } entries
    | .signalsEnd =>
      let v ← putField "signals_end" acc.signalsEnd Value.toU64 value
      visitMapLoop { acc with signalsEnd := some v } entries
    | .rejectSignalDeltas =>
      let v ← putField "reject_signal_deltas" acc.rejectSignalDeltas Value.toU64s value
      visitMapLoop { acc with rejectSignalDeltas := some v } entries

/-- The end of the derived `visit_map`: every field but `reject_signal_deltas` is required. -/
def ofPartial (acc : Partial) : Except Error StreamHeader := do
  let some begin := acc.begin | .error (.missingField "begin")
  let some «end» := acc.«end» | .error (.missingField "end")
  let some signalsEnd := acc.signalsEnd | .error (.missingField "signals_end")
  pure ⟨begin, «end», signalsEnd, acc.rejectSignalDeltas.getD []⟩

/-- The derived `visit_seq`: the fields in order; elements left over are refused. -/
def visitSeq (es : List Value) : Except Error StreamHeader := do
  let expected := "struct StreamHeader with 4 elements"
  let (some begin, es) ← nextElement Value.toU64 es | .error (.invalidLength 0 expected)
  let (some «end», es) ← nextElement Value.toU64 es | .error (.invalidLength 1 expected)
  let (some signalsEnd, es) ← nextElement Value.toU64 es | .error (.invalidLength 2 expected)
  let (rejectSignalDeltas, es) ← nextElement Value.toU64s es
  if es.isEmpty then pure ⟨begin, «end», signalsEnd, rejectSignalDeltas.getD []⟩
  else .error .trailingData

/-- The derived `Deserialize`, from a map or a sequence. -/
def deserialize : Value → Except Error StreamHeader
  | .map entries => do ofPartial (← visitMapLoop ⟨none, none, none, none⟩ entries)
  | .seq es => visitSeq es
  | v => .error (.invalidType v.unexpected "struct StreamHeader")

theorem deserialize_serialize (h : StreamHeader) : deserialize h.serialize = .ok h := by
  obtain ⟨begin, «end», signalsEnd, deltas⟩ := h
  cases deltas with
  | nil => rfl
  | cons d ds =>
    have hds := Value.toU64s_seq_map_uint (d :: ds)
    rw [List.map_cons] at hds
    simp [serialize, deserialize, visitMapLoop, fieldOfKey, putField, ofPartial, hds, bind,
      Except.bind, pure, Except.pure]

/-! ## Conversion -/

/-- The loop of `From<(&StreamHeader, CertificationVersion)>`, from the last reject signal to the
first: each delta is the distance to the next index, `signals_end` for the last. -/
def rejectSignalDeltasLoop : ℕ → List ℕ → Except String (List ℕ)
  | _, [] => pure []
  | nextIndex, streamIndex :: rest => do
    Rust.assert (decide (streamIndex < nextIndex)) "assertion failed: next_index > *stream_index"
    let deltas ← rejectSignalDeltasLoop streamIndex rest
    pure (deltas ++ [nextIndex - streamIndex])

/-- `From<(&StreamHeader, CertificationVersion)> for types::StreamHeader`. -/
def ofHeader (header : XNet.StreamHeader) (certificationVersion : Fin 10) :
    Except String StreamHeader := do
  Rust.assert (header.rejectSignals.isEmpty || decide (8 ≤ certificationVersion))
    "Replicas with certification version < 9 should not be producing reject signals"
  let deltas ← rejectSignalDeltasLoop header.signalsEnd header.rejectSignals.reverse
  pure ⟨UInt64.ofNat header.begin, UInt64.ofNat header.end_, UInt64.ofNat header.signalsEnd,
    deltas.map UInt64.ofNat⟩

/-- The loop of `TryFrom<types::StreamHeader>`, over the deltas from the last to the first: each
signal is the next index less the delta, which must not be above it. The signals come out in
order. -/
def rejectSignalsLoop : ℕ → List ℕ → Option (List ℕ)
  | _, [] => some []
  | streamIndex, delta :: rest =>
    if streamIndex < delta then none
    else (rejectSignalsLoop (streamIndex - delta) rest).map (· ++ [streamIndex - delta])

/-- `TryFrom<types::StreamHeader> for StreamHeader`. -/
def toHeader (header : StreamHeader) : Except ProxyDecodeError XNet.StreamHeader :=
  match rejectSignalsLoop header.signalsEnd.toNat
      (header.rejectSignalDeltas.map UInt64.toNat).reverse with
  | none => .error (.other ("StreamHeader: reject signals are invalid, got \x60signals_end\x60 " ++
      toString header.signalsEnd ++ ", \x60reject_signal_deltas\x60 " ++
      toString header.rejectSignalDeltas))
  | some rejectSignals =>
    .ok ⟨header.begin.toNat, header.«end».toNat, header.signalsEnd.toNat, rejectSignals⟩

theorem rejectSignalDeltasLoop_eq_ok : ∀ (nextIndex : ℕ) (rev : List ℕ),
    (nextIndex :: rev).Pairwise (· > ·) →
      ∃ deltas, rejectSignalDeltasLoop nextIndex rev = .ok deltas ∧ ∀ d ∈ deltas, d ≤ nextIndex
  | _, [], _ => ⟨[], rfl, by simp⟩
  | nextIndex, streamIndex :: rest, h => by
    obtain ⟨hlt, hrest⟩ := List.pairwise_cons.mp h
    have hs : streamIndex < nextIndex := hlt streamIndex List.mem_cons_self
    obtain ⟨deltas, hdeltas, hle⟩ := rejectSignalDeltasLoop_eq_ok streamIndex rest hrest
    refine ⟨deltas ++ [nextIndex - streamIndex], ?_, fun d hd => ?_⟩
    · rw [rejectSignalDeltasLoop, Rust.assert, if_pos (decide_eq_true hs), Except.ok_bind,
        hdeltas]
      rfl
    · rcases List.mem_append.mp hd with hd | hd
      · exact (hle d hd).trans hs.le
      · rw [List.mem_singleton.mp hd]
        exact Nat.sub_le _ _

theorem rejectSignalsLoop_rejectSignalDeltasLoop : ∀ (nextIndex : ℕ) (rev : List ℕ)
    {deltas : List ℕ}, rejectSignalDeltasLoop nextIndex rev = .ok deltas →
      rejectSignalsLoop nextIndex deltas.reverse = some rev.reverse
  | _, [], _, h => by
    cases h
    rfl
  | nextIndex, streamIndex :: rest, deltas, h => by
    obtain ⟨u, hassert, h⟩ := Except.bind_eq_ok.mp h
    have hs : streamIndex < nextIndex := of_decide_eq_true (Rust.assert_eq_ok.mp hassert)
    obtain ⟨deltas', hdeltas', h⟩ := Except.bind_eq_ok.mp h
    obtain rfl := Except.pure_eq_ok.mp h
    have hback : nextIndex - (nextIndex - streamIndex) = streamIndex := by omega
    rw [List.reverse_append, List.reverse_singleton, List.singleton_append, rejectSignalsLoop,
      if_neg (by omega), hback, rejectSignalsLoop_rejectSignalDeltasLoop streamIndex rest hdeltas']
    simp

theorem le_of_rejectSignalsLoop : ∀ {streamIndex : ℕ} {rev signals : List ℕ},
    rejectSignalsLoop streamIndex rev = some signals → ∀ x ∈ signals, x ≤ streamIndex
  | _, [], _, h => by
    cases h
    simp
  | streamIndex, delta :: rest, signals, h => by
    rw [rejectSignalsLoop] at h
    split_ifs at h with hlt
    obtain ⟨signals', hsignals', rfl⟩ := Option.map_eq_some_iff.mp h
    intro x hx
    rcases List.mem_append.mp hx with hx | hx
    · exact (le_of_rejectSignalsLoop hsignals' x hx).trans (Nat.sub_le _ _)
    · rw [List.mem_singleton.mp hx]
      exact Nat.sub_le _ _

theorem rejectSignalsLoop_valid_iff : ∀ {streamIndex : ℕ} {rev signals : List ℕ},
    rejectSignalsLoop streamIndex rev = some signals →
      ((signals ++ [streamIndex]).Pairwise (· < ·) ↔ ∀ d ∈ rev, 0 < d)
  | _, [], _, h => by
    cases h
    simp
  | streamIndex, delta :: rest, signals, h => by
    rw [rejectSignalsLoop] at h
    split_ifs at h with hlt
    obtain ⟨signals', hsignals', rfl⟩ := Option.map_eq_some_iff.mp h
    have hle := le_of_rejectSignalsLoop hsignals'
    rw [List.pairwise_append, rejectSignalsLoop_valid_iff hsignals', List.forall_mem_cons]
    simp only [List.pairwise_singleton, true_and, List.mem_singleton, forall_eq, List.mem_append]
    constructor
    · rintro ⟨hrest, hbelow⟩
      exact ⟨by have := hbelow _ (Or.inr rfl); omega, hrest⟩
    · rintro ⟨hd, hrest⟩
      refine ⟨hrest, fun x hx => ?_⟩
      rcases hx with hx | rfl
      · have := hle x hx
        omega
      · omega

end StreamHeader

end Types

/-- `encode_stream_header`. -/
def encodeStreamHeader (format : Format) (header : XNet.StreamHeader)
    (certificationVersion : Fin 10) : Except String (List UInt8) := do
  let canonical ← Types.StreamHeader.ofHeader header certificationVersion
  pure (format.encode canonical.serialize)

/-- `decode_stream_header`. -/
def decodeStreamHeader (format : Format) (bytes : List UInt8) :
    Except ProxyDecodeError XNet.StreamHeader := do
  let value ← (format.decode bytes).mapError fun e => .cborDecodeError (.inl e)
  let canonical ← (Types.StreamHeader.deserialize value).mapError fun e => .cborDecodeError (.inr e)
  canonical.toHeader

open Types.StreamHeader

theorem map_toNat_map_ofNat {ns : List ℕ} (h : ∀ n ∈ ns, n < 2 ^ 64) :
    (ns.map UInt64.ofNat).map UInt64.toNat = ns := by
  rw [List.map_map]
  exact (List.map_congr_left fun n hn => UInt64.toNat_ofNat_of_lt' (h n hn)).trans (List.map_id _)

/-- **The encoding round-trips**: a header whose reject signals increase strictly below
`signals_end`, at a certification version that may carry them, encodes without panicking and
decodes to itself. -/
theorem decodeStreamHeader_encodeStreamHeader (format : Format) {header : XNet.StreamHeader}
    {certificationVersion : Fin 10}
    (hvalid : (header.rejectSignals ++ [header.signalsEnd]).Pairwise (· < ·))
    (hversion : header.rejectSignals = [] ∨ 8 ≤ certificationVersion)
    (hbegin : header.begin < 2 ^ 64) (hend : header.end_ < 2 ^ 64)
    (hsignalsEnd : header.signalsEnd < 2 ^ 64) :
    ∃ bytes, encodeStreamHeader format header certificationVersion = .ok bytes ∧
      decodeStreamHeader format bytes = .ok header := by
  have hdesc : (header.signalsEnd :: header.rejectSignals.reverse).Pairwise (· > ·) := by
    have h := List.pairwise_reverse.mpr hvalid
    rwa [List.reverse_append, List.reverse_singleton, List.singleton_append] at h
  obtain ⟨deltas, hdeltas, hle⟩ := rejectSignalDeltasLoop_eq_ok _ _ hdesc
  have hassert : (header.rejectSignals.isEmpty || decide (8 ≤ certificationVersion)) = true := by
    rcases hversion with h | h <;> simp [h]
  let canonical : Types.StreamHeader := ⟨UInt64.ofNat header.begin, UInt64.ofNat header.end_,
    UInt64.ofNat header.signalsEnd, deltas.map UInt64.ofNat⟩
  have hof : ofHeader header certificationVersion = .ok canonical := by
    rw [ofHeader, Rust.assert, if_pos hassert, Except.ok_bind, hdeltas]
    rfl
  have hto : canonical.toHeader = .ok header := by
    have hback := rejectSignalsLoop_rejectSignalDeltasLoop _ _ hdeltas
    rw [List.reverse_reverse] at hback
    simp only [toHeader, canonical, UInt64.toNat_ofNat_of_lt' hsignalsEnd,
      map_toNat_map_ofNat fun d hd => (hle d hd).trans_lt hsignalsEnd, hback,
      UInt64.toNat_ofNat_of_lt' hbegin, UInt64.toNat_ofNat_of_lt' hend]
  refine ⟨format.encode canonical.serialize, by rw [encodeStreamHeader, hof]; rfl, ?_⟩
  rw [decodeStreamHeader, format.decode_encode, Except.mapError, Except.ok_bind,
    deserialize_serialize, Except.mapError, Except.ok_bind, hto]

/-- **What the decoder accepts**: strictly increasing signals exactly when no delta is zero. -/
theorem decodeStreamHeader_valid_iff {format : Format} {bytes : List UInt8}
    {header : XNet.StreamHeader} (hdecode : decodeStreamHeader format bytes = .ok header) :
    ∃ (value : Value) (canonical : Types.StreamHeader), format.decode bytes = .ok value ∧
      Types.StreamHeader.deserialize value = .ok canonical ∧
      ((header.rejectSignals ++ [header.signalsEnd]).Pairwise (· < ·) ↔
        ∀ d ∈ canonical.rejectSignalDeltas, d ≠ 0) := by
  obtain ⟨value, hvalue, hdecode⟩ := Except.bind_eq_ok.mp hdecode
  obtain ⟨canonical, hcanonical, hto⟩ := Except.bind_eq_ok.mp hdecode
  rw [Except.mapError_eq_ok] at hvalue hcanonical
  refine ⟨value, canonical, hvalue, hcanonical, ?_⟩
  unfold toHeader at hto
  split at hto
  · cases hto
  · next signals hsignals =>
    cases hto
    have hpos : ∀ d : UInt64, 0 < d.toNat ↔ d ≠ 0 := fun d => by
      rw [Nat.pos_iff_ne_zero, ne_eq, ne_eq, ← UInt64.toNat_inj, UInt64.toNat_zero]
    rw [rejectSignalsLoop_valid_iff hsignals]
    simp [hpos]

/-- The decoder accepts a zero delta: `{0: 0, 1: 0, 2: 5, 3: [0]}` decodes to `signals_end` 5 with
the reject signal 5, and encoding that header panics. -/
theorem decodeStreamHeader_accepts_zero_delta (format : Format) :
    let canonical : Types.StreamHeader := ⟨0, 0, 5, [0]⟩
    let header : XNet.StreamHeader := ⟨0, 0, 5, [5]⟩
    decodeStreamHeader format (format.encode canonical.serialize) = .ok header ∧
      ¬(header.rejectSignals ++ [header.signalsEnd]).Pairwise (· < ·) ∧
      ∀ certificationVersion : Fin 10, encodeStreamHeader format header certificationVersion =
        .error (if 8 ≤ certificationVersion then "assertion failed: next_index > *stream_index"
          else "Replicas with certification version < 9 should not be producing reject signals") := by
  intro canonical header
  refine ⟨?_, by decide, fun certificationVersion => ?_⟩
  · rw [decodeStreamHeader, format.decode_encode, Except.mapError, Except.ok_bind,
      deserialize_serialize, Except.mapError, Except.ok_bind]
    rfl
  · by_cases hv : 8 ≤ certificationVersion
    · rw [if_pos hv, encodeStreamHeader, ofHeader, Rust.assert, if_pos (by simp [header, hv])]
      rfl
    · rw [if_neg hv, encodeStreamHeader, ofHeader, Rust.assert, if_neg (by simp [header, hv])]
      rfl

/-- The format of tagged values writes that map as these bytes, which decode to the header. -/
theorem decodeStreamHeader_accepts_zero_delta_at_tlv :
    tlv.encode (Types.StreamHeader.serialize ⟨0, 0, 5, [0]⟩) =
        [5, 4, 0, 0, 0, 0, 0, 1, 0, 0, 0, 2, 0, 5, 0, 3, 4, 1, 0, 0] ∧
      decodeStreamHeader tlv [5, 4, 0, 0, 0, 0, 0, 1, 0, 0, 0, 2, 0, 5, 0, 3, 4, 1, 0, 0] =
        .ok ⟨0, 0, 5, [5]⟩ :=
  ⟨rfl, (decodeStreamHeader_accepts_zero_delta tlv).1⟩

end IC.CanonicalState
