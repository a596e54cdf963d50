import Mathlib
import InternetComputer.Lib.Rust

/-!
# The serde data model

A self-describing format such as CBOR carries the values of the serde data model: `Serialize`
writes one, and `Deserialize` reads it back through a visitor, refusing what it did not expect.
The format is a parameter: `Format` decodes what it encoded.

* `Value`, `Unexpected`, `Error`; the visitors `Value.toU8`, `toU64`, `toU64s`, `toByteBuf`,
  `toStr`; `nextElement`;
* `StructFields.deserialize`: the derived `Deserialize` of a struct with `deny_unknown_fields`;
* `Format`, with its law `decode_encode`, and `tlv`, a format that meets it: each value is its
  CBOR major type in one byte, a LEB128 varint of its integer or length, and its payload.
-/

namespace Serde

/-- A value of the serde data model as a self-describing format carries it. -/
inductive Value where
  | uint (n : UInt64)
  | bytes (bs : List UInt8)
  | str (s : String)
  | seq (elements : List Value)
  | map (entries : List (Value × Value))

/-- `serde::de::Unexpected`: what a visitor found where it expected something else. -/
inductive Unexpected where
  | unsigned (n : UInt64)
  | bytes (bs : List UInt8)
  | str (s : String)
  | seq
  | map
  deriving DecidableEq

/-- The errors of `serde::de::Error` that visitors raise. -/
inductive Error where
  | invalidType (unexpected : Unexpected) (expected : String)
  | invalidValue (unexpected : Unexpected) (expected : String)
  | invalidLength (len : ℕ) (expected : String)
  | unknownField (field : String) (expected : List String)
  | missingField (field : String)
  | duplicateField (field : String)
  | custom (msg : String)
  /-- The format's error for elements of a sequence that the visitor left unread. -/
  | trailingData
  deriving DecidableEq

/-- `String::from_utf8_lossy` of bytes that are UTF-8. -/
def fromUtf8Lossy (bs : List UInt8) : String := (String.fromUTF8? ⟨bs.toArray⟩).getD "\uFFFD"

namespace Value

/-- What a visitor reports it found in a value. -/
def unexpected : Value → Unexpected
  | .uint n => .unsigned n
  | .bytes bs => .bytes bs
  | .str s => .str s
  | .seq _ => .seq
  | .map _ => .map

/-- `u8::deserialize`: an unsigned integer below 256. -/
def toU8 : Value → Except Error UInt8
  | .uint n => if n < 256 then .ok n.toUInt8 else .error (.invalidValue (.unsigned n) "u8")
  | v => .error (.invalidType v.unexpected "u8")

/-- `u64::deserialize`. -/
def toU64 : Value → Except Error UInt64
  | .uint n => .ok n
  | v => .error (.invalidType v.unexpected "u64")

/-- `Vec<u64>::deserialize`: a sequence of `u64`s. -/
def toU64s : Value → Except Error (List UInt64)
  | .seq es => es.mapM toU64
  | v => .error (.invalidType v.unexpected "a sequence")

/-- `serde_bytes::ByteBuf::deserialize`. -/
def toByteBuf : Value → Except Error (List UInt8)
  | .bytes bs => .ok bs
  | .str s => .ok s.toUTF8.toList
  | .seq es => es.mapM toU8
  | v => .error (.invalidType v.unexpected "byte array")

/-- `<&serde_bytes::Bytes>::deserialize`. -/
def toBorrowedBytes : Value → Except Error (List UInt8)
  | .bytes bs => .ok bs
  | .str s => .ok s.toUTF8.toList
  | v => .error (.invalidType v.unexpected "a borrowed byte array")

@[simp] theorem toU8_uint {n : UInt64} (h : n < 256) : (uint n).toU8 = .ok n.toUInt8 := by
  simp [toU8, h]

theorem toU8_eq_ok {v : Value} {t : UInt8} : v.toU8 = .ok t ↔ v = .uint t.toUInt64 := by
  cases v with
  | uint n =>
    simp only [toU8, uint.injEq]
    split_ifs with h
    · rw [Except.ok.injEq]
      constructor
      · rintro rfl
        apply UInt64.toNat_inj.mp
        simp only [UInt8.toNat_toUInt64, UInt64.toNat_toUInt8]
        have : n.toNat < 256 := h
        omega
      · rintro rfl
        exact UInt8.toUInt8_toUInt64 t
    · refine iff_of_false (fun h => nomatch h) ?_
      rintro rfl
      exact h (UInt64.lt_iff_toNat_lt.mpr (by simp only [UInt8.toNat_toUInt64]; exact t.toNat_lt))
  | _ => exact iff_of_false (fun h => nomatch h) (fun h => nomatch h)

@[simp] theorem toU64_uint (n : UInt64) : (uint n).toU64 = .ok n := rfl

@[simp] theorem toU64s_seq_map_uint (ns : List UInt64) : (seq (ns.map uint)).toU64s = .ok ns := by
  induction ns with
  | nil => rfl
  | cons n ns ih =>
    simp only [toU64s, List.map_cons, List.mapM_cons, toU64_uint] at ih ⊢
    rw [ih]
    rfl

@[simp] theorem toByteBuf_bytes (bs : List UInt8) : (bytes bs).toByteBuf = .ok bs := rfl

@[simp] theorem toBorrowedBytes_bytes (bs : List UInt8) : (bytes bs).toBorrowedBytes = .ok bs :=
  rfl

end Value

/-! ## Sequences -/

variable {α : Type}

/-- `SeqAccess::next_element`. -/
def nextElement (f : Value → Except Error α) : List Value → Except Error (Option α × List Value)
  | [] => .ok (none, [])
  | v :: vs => do
    let a ← f v
    pure (some a, vs)

@[simp] theorem nextElement_nil (f : Value → Except Error α) : nextElement f [] = .ok (none, []) :=
  rfl

@[simp] theorem nextElement_cons (f : Value → Except Error α) (v : Value) (vs : List Value) :
    nextElement f (v :: vs) = (f v).map fun a => (some a, vs) := by
  simp only [nextElement]
  cases f v <;> rfl

/-! ## Strings and structs -/

/-- `String::deserialize`: a text string, or bytes that are UTF-8. -/
def Value.toStr : Value → Except Error String
  | .str s => .ok s
  | .bytes bs =>
    match String.fromUTF8? ⟨bs.toArray⟩ with
    | some s => .ok s
    | none => .error (.invalidValue (.bytes bs) "a string")
  | v => .error (.invalidType v.unexpected "a string")

@[simp] theorem Value.toStr_str (s : String) : (Value.str s).toStr = .ok s := rfl

/-- The fields of a struct as its derived `Deserialize` reads them into `A`: names in order,
whether each is given, how it is read, and whether a missing one is refused. -/
structure StructFields (A : Type) where
  names : List String
  given : ℕ → A → Bool
  read : ℕ → A → Value → Except Error A
  required : ℕ → Bool

namespace StructFields

variable {A B : Type} (S : StructFields A)

/-- A field of a name, refused by `deny_unknown_fields` when the struct has none. -/
def fieldOfName (name : String) : Except Error (Fin S.names.length) :=
  match S.names.finIdxOf? name with
  | some i => .ok i
  | none => .error (.unknownField name S.names)

/-- The derived field visitor: a field's index, or its name as text or bytes. -/
def fieldIndex : Value → Except Error (Fin S.names.length)
  | .uint i =>
    if h : i.toNat < S.names.length then .ok ⟨i.toNat, h⟩
    else
      let n := S.names.length
      .error (.invalidValue (.unsigned i) s!"field index 0 <= i < {n}")
  | .str s => S.fieldOfName s
  | .bytes bs => S.fieldOfName (fromUtf8Lossy bs)
  | v => .error (.invalidType v.unexpected "field identifier")

/-- The loop of the derived `visit_map`: each key names a field not given before. -/
def visitMap : A → List (Value × Value) → Except Error A
  | acc, [] => .ok acc
  | acc, (key, value) :: entries => do
    let i ← S.fieldIndex key
    if S.given i acc then throw (.duplicateField (S.names.get i))
    let acc ← S.read i acc value
    visitMap acc entries

/-- The derived `visit_seq`: the fields in order, one element each; once the elements run out, a
required field is refused and any other keeps its default; the format refuses elements left
over. -/
def visitSeq (expected : String) (acc : A) (es : List Value) : Except Error A := do
  let (acc, es) ← (List.range S.names.length).foldlM (fun (state : A × List Value) i =>
      match state.2 with
      | v :: es => do
        let acc ← S.read i state.1 v
        pure (acc, es)
      | [] => if S.required i then throw (.invalidLength i expected) else pure (state.1, []))
    (acc, es)
  if es.isEmpty then pure acc else throw .trailingData

/-- The derived `Deserialize` of the struct `name`, from a map or a sequence. -/
def deserialize (name : String) (empty : A) (finish : A → Except Error B) :
    Value → Except Error B
  | .map entries => do finish (← S.visitMap empty entries)
  | .seq es =>
    let n := S.names.length
    do finish (← S.visitSeq s!"struct {name} with {n} elements" empty es)
  | v => .error (.invalidType v.unexpected s!"struct {name}")

@[simp] theorem deserialize_map (name : String) (empty : A) (finish : A → Except Error B)
    (entries : List (Value × Value)) :
    S.deserialize name empty finish (.map entries) = S.visitMap empty entries >>= finish := rfl

@[simp] theorem visitMap_nil (acc : A) : S.visitMap acc [] = .ok acc := rfl

@[simp] theorem visitMap_cons (acc : A) (key value : Value) (entries : List (Value × Value)) :
    S.visitMap acc ((key, value) :: entries) = (do
      let i ← S.fieldIndex key
      if S.given i acc then throw (.duplicateField (S.names.get i))
      let acc ← S.read i acc value
      S.visitMap acc entries) := rfl

@[simp] theorem fieldIndex_uint_of_lt {i : UInt64} (h : i.toNat < S.names.length) :
    S.fieldIndex (.uint i) = .ok ⟨i.toNat, h⟩ := by
  simp [fieldIndex, h]

end StructFields

/-! ## Formats -/

/-- A self-describing format, such as `serde_cbor`, that decodes what it encodes. -/
structure Format where
  encode : Value → List UInt8
  decode : List UInt8 → Except String Value
  decode_encode : ∀ v, decode (encode v) = .ok v

/-! ## A format of tagged values -/

namespace Varint

/-- Unsigned LEB128 in at most `fuel + 1` bytes: seven bits a byte, low bits first, the high bit
set on all but the last. -/
def encodeUpTo : ℕ → ℕ → List UInt8
  | 0, n => [UInt8.ofNat n]
  | fuel + 1, n =>
    if n < 128 then [UInt8.ofNat n] else UInt8.ofNat (n % 128 + 128) :: encodeUpTo fuel (n / 128)

/-- A number never needs more bytes than it is large. -/
def encode (n : ℕ) : List UInt8 := encodeUpTo n n

/-- The LEB128 reader: the number, and the bytes after it. -/
def decode : List UInt8 → Except String (ℕ × List UInt8)
  | [] => .error "unexpected end of input"
  | b :: bs =>
    if b < 128 then .ok (b.toNat, bs)
    else do
      let (n, rest) ← decode bs
      pure (b.toNat - 128 + 128 * n, rest)

theorem length_encode_pos (n : ℕ) : 0 < (encode n).length := by
  rw [encode]
  cases n with
  | zero => simp [encodeUpTo]
  | succ n => rw [encodeUpTo]; split_ifs <;> simp

theorem decode_last {n : ℕ} (h : n < 128) (rest : List UInt8) :
    decode (UInt8.ofNat n :: rest) = .ok (n, rest) := by
  have hb : (UInt8.ofNat n).toNat = n := by rw [UInt8.toNat_ofNat']; omega
  rw [decode, if_pos (UInt8.lt_iff_toNat_lt.mpr (by simpa [hb])), hb]

theorem decode_encodeUpTo {fuel n : ℕ} (rest : List UInt8) (hn : n ≤ fuel) :
    decode (encodeUpTo fuel n ++ rest) = .ok (n, rest) := by
  -- on the fuel: each byte takes seven bits off the number and one unit of fuel
  induction fuel generalizing n with
  | zero => rw [encodeUpTo, List.singleton_append, decode_last (by omega)]
  | succ fuel ih =>
    rw [encodeUpTo]
    split_ifs with h
    · rw [List.singleton_append, decode_last h]
    · have hb : (UInt8.ofNat (n % 128 + 128)).toNat = n % 128 + 128 := by
        rw [UInt8.toNat_ofNat']; omega
      have hge : ¬UInt8.ofNat (n % 128 + 128) < 128 := by
        rw [UInt8.lt_iff_toNat_lt, hb]
        simp
      rw [List.cons_append, decode, if_neg hge, ih (by omega), Except.ok_bind, hb]
      show pure (n % 128 + 128 - 128 + 128 * (n / 128), rest) = _
      rw [show n % 128 + 128 - 128 + 128 * (n / 128) = n by omega]
      rfl

theorem decode_encode (n : ℕ) (rest : List UInt8) : decode (encode n ++ rest) = .ok (n, rest) :=
  decode_encodeUpTo rest le_rfl

end Varint

namespace Tlv

mutual

/-- The bytes of a value: its CBOR major type, the varint of its integer or length, its payload. -/
def encodeValue : Value → List UInt8
  | .uint n => 0 :: Varint.encode n.toNat
  | .bytes bs => 2 :: (Varint.encode bs.length ++ bs)
  | .str s => 3 :: (Varint.encode s.toUTF8.data.size ++ s.toUTF8.data.toList)
  | .seq es => 4 :: (Varint.encode es.length ++ encodeSeq es)
  | .map entries => 5 :: (Varint.encode entries.length ++ encodeMap entries)

def encodeSeq : List Value → List UInt8
  | [] => []
  | v :: vs => encodeValue v ++ encodeSeq vs

def encodeMap : List (Value × Value) → List UInt8
  | [] => []
  | (k, v) :: entries => encodeValue k ++ encodeValue v ++ encodeMap entries

end

mutual

/-- The reader of one value, the bytes after it, with one unit of fuel a level of nesting and an
element. -/
def decodeValue : ℕ → List UInt8 → Except String (Value × List UInt8)
  | 0, _ => .error "nesting too deep"
  | _ + 1, [] => .error "unexpected end of input"
  | fuel + 1, tag :: bs => do
    let (n, bs) ← Varint.decode bs
    match tag.toNat with
    | 0 => if n < 2 ^ 64 then pure (.uint (UInt64.ofNat n), bs) else throw "integer out of range"
    | 2 =>
      if n ≤ bs.length then pure (.bytes (bs.take n), bs.drop n)
      else throw "unexpected end of input"
    | 3 =>
      if n ≤ bs.length then
        match String.fromUTF8? ⟨(bs.take n).toArray⟩ with
        | some s => pure (.str s, bs.drop n)
        | none => throw "invalid UTF-8"
      else throw "unexpected end of input"
    | 4 => do
      let (es, bs) ← decodeSeq fuel n bs
      pure (.seq es, bs)
    | 5 => do
      let (entries, bs) ← decodeMap fuel n bs
      pure (.map entries, bs)
    | _ => throw "unknown major type"

def decodeSeq : ℕ → ℕ → List UInt8 → Except String (List Value × List UInt8)
  | _, 0, bs => pure ([], bs)
  | 0, _ + 1, _ => throw "nesting too deep"
  | fuel + 1, n + 1, bs => do
    let (v, bs) ← decodeValue fuel bs
    let (vs, bs) ← decodeSeq fuel n bs
    pure (v :: vs, bs)

def decodeMap : ℕ → ℕ → List UInt8 → Except String (List (Value × Value) × List UInt8)
  | _, 0, bs => pure ([], bs)
  | 0, _ + 1, _ => throw "nesting too deep"
  | fuel + 1, n + 1, bs => do
    let (k, bs) ← decodeValue fuel bs
    let (v, bs) ← decodeValue fuel bs
    let (entries, bs) ← decodeMap fuel n bs
    pure ((k, v) :: entries, bs)

end

/-- The whole input is one value. -/
def decode (bytes : List UInt8) : Except String Value := do
  let (v, rest) ← decodeValue bytes.length bytes
  if rest.isEmpty then pure v else throw "trailing data"

theorem length_encodeValue_pos (v : Value) : 0 < (encodeValue v).length := by
  cases v <;> simp [encodeValue]

theorem take_drop_append (bs rest : List UInt8) :
    (bs ++ rest).take bs.length = bs ∧ (bs ++ rest).drop bs.length = rest ∧
      bs.length ≤ (bs ++ rest).length :=
  ⟨List.take_left, List.drop_left, by simp⟩

theorem fromUTF8?_data (s : String) : String.fromUTF8? ⟨s.toUTF8.data⟩ = some s := by
  rw [String.fromUTF8?, dif_pos (show (⟨s.toUTF8.data⟩ : ByteArray).IsValidUTF8 from s.isValidUTF8)]
  rfl

mutual

theorem decodeValue_encodeValue : ∀ (v : Value) {fuel : ℕ} (rest : List UInt8),
    (encodeValue v).length ≤ fuel → decodeValue fuel (encodeValue v ++ rest) = .ok (v, rest)
  | v, 0, _, h => absurd h (Nat.not_le_of_lt (length_encodeValue_pos v))
  | .uint n, _ + 1, rest, _ => by
    simp only [encodeValue, List.cons_append, decodeValue, Varint.decode_encode, Except.ok_bind,
      n.toNat_lt, if_true, UInt64.ofNat_toNat]
    rfl
  | .bytes bs, _ + 1, rest, _ => by
    obtain ⟨ht, hd, hl⟩ := take_drop_append bs rest
    simp only [encodeValue, List.cons_append, List.append_assoc, decodeValue, Varint.decode_encode,
      Except.ok_bind, UInt8.toNat_ofNat, if_pos hl, ht, hd]
    rfl
  | .str s, _ + 1, rest, _ => by
    obtain ⟨ht, hd, hl⟩ := take_drop_append s.toUTF8.data.toList rest
    rw [Array.length_toList] at ht hd hl
    simp only [encodeValue, List.cons_append, List.append_assoc, decodeValue, Varint.decode_encode,
      Except.ok_bind, UInt8.toNat_ofNat, if_pos hl, ht, hd, Array.toArray_toList, fromUTF8?_data]
    rfl
  | .seq es, fuel + 1, rest, h => by
    have hv := Varint.length_encode_pos es.length
    simp only [encodeValue, List.length_cons, List.length_append] at h
    simp only [encodeValue, List.cons_append, List.append_assoc, decodeValue, Varint.decode_encode,
      Except.ok_bind, @decodeSeq_encodeSeq es fuel rest (by omega)]
    rfl
  | .map entries, fuel + 1, rest, h => by
    have hv := Varint.length_encode_pos entries.length
    simp only [encodeValue, List.length_cons, List.length_append] at h
    simp only [encodeValue, List.cons_append, List.append_assoc, decodeValue, Varint.decode_encode,
      Except.ok_bind, @decodeMap_encodeMap entries fuel rest (by omega)]
    rfl

theorem decodeSeq_encodeSeq : ∀ (es : List Value) {fuel : ℕ} (rest : List UInt8),
    (encodeSeq es).length < fuel → decodeSeq fuel es.length (encodeSeq es ++ rest) = .ok (es, rest)
  | [], fuel, rest, _ => by cases fuel <;> rfl
  | _ :: _, 0, _, h => absurd h (Nat.not_lt_zero _)
  | v :: vs, fuel + 1, rest, h => by
    have hv := length_encodeValue_pos v
    simp only [encodeSeq, List.length_append] at h
    simp only [encodeSeq, List.length_cons, List.append_assoc, decodeSeq,
      @decodeValue_encodeValue v fuel _ (by omega), Except.ok_bind,
      @decodeSeq_encodeSeq vs fuel rest (by omega)]
    rfl

theorem decodeMap_encodeMap : ∀ (entries : List (Value × Value)) {fuel : ℕ} (rest : List UInt8),
    (encodeMap entries).length < fuel →
      decodeMap fuel entries.length (encodeMap entries ++ rest) = .ok (entries, rest)
  | [], fuel, rest, _ => by cases fuel <;> rfl
  | _ :: _, 0, _, h => absurd h (Nat.not_lt_zero _)
  | (k, v) :: entries, fuel + 1, rest, h => by
    have hk := length_encodeValue_pos k
    simp only [encodeMap, List.length_append] at h
    simp only [encodeMap, List.length_cons, List.append_assoc, decodeMap,
      @decodeValue_encodeValue k fuel _ (by omega), Except.ok_bind,
      @decodeValue_encodeValue v fuel _ (by omega),
      @decodeMap_encodeMap entries fuel rest (by omega)]
    rfl

end

theorem decode_encodeValue (v : Value) : decode (encodeValue v) = .ok v := by
  have h := decodeValue_encodeValue v [] le_rfl
  rw [List.append_nil] at h
  rw [decode, h, Except.ok_bind]
  rfl

end Tlv

/-- The format of tagged values. -/
def tlv : Format := ⟨Tlv.encodeValue, Tlv.decode, Tlv.decode_encodeValue⟩

example : tlv.decode (tlv.encode (.seq [.uint 300, .str "ab", .map [(.bytes [1], .seq [])]])) =
    .ok (.seq [.uint 300, .str "ab", .map [(.bytes [1], .seq [])]]) := rfl

end Serde
