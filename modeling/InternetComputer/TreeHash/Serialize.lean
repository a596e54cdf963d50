import InternetComputer.TreeHash.MixedHashTree
import InternetComputer.Lib.Serde

/-!
# The encoding of certificate trees

`Serialize` and `Deserialize` for `MixedHashTree`: a tree is a sequence whose first element is a
tag, `[0]`, `[1 hash-tree hash-tree]`, `[2 bytes hash-tree]`, `[3 bytes]` or `[4 hash]`. The
format is the parameter `Serde.Format`.

* **`deserialize_serialize`**: the visitor reads every tree back from its serialization;
* **`deserialize_rejects`**: an unknown tag, a wrong arity or a digest that is not 32 bytes is
  refused; `certificateTree_roundtrip`.
-/

namespace IC.TreeHash

open Serde

/-- `Digest`: 32 bytes. -/
structure Digest where
  bytes : List UInt8
  length_eq : bytes.length = 32
  deriving DecidableEq

namespace MixedHashTree

/-- `Serialize for MixedHashTree`: a `u8` tag and the node's parts. -/
def serialize : MixedHashTree Digest → Value
  | .empty => .seq [.uint 0]
  | .fork left right => .seq [.uint 1, left.serialize, right.serialize]
  | .labeled label tree => .seq [.uint 2, .bytes label, tree.serialize]
  | .leaf leafBytes => .seq [.uint 3, .bytes leafBytes]
  | .pruned digest => .seq [.uint 4, .bytes digest.bytes]

/-- What `SeqVisitor::expecting` writes. -/
def expecting : String :=
  "MixedHashTree encoded as a sequence of the form hash-tree ::= [0] | [1 hash-tree hash-tree] | [2 bytes hash-tree] | [3 bytes] | [4 hash]"

/-- The error of an unknown tag. -/
def unknownTag (tag : UInt8) : Error :=
  .custom ("unknown tag: " ++ toString tag ++
    ", expected the tag to be one of \x7b0, 1, 2, 3, 4\x7d")

/-- `Digest::try_from` a vector, which gives the vector back when it is not 32 bytes. -/
def digestTryFrom (bs : List UInt8) : Except (List UInt8) Digest :=
  if h : bs.length = 32 then .ok ⟨bs, h⟩ else .error bs

/-- `Deserialize for MixedHashTree`: the tag as a `u8`, then the elements of its shape, a missing
or extra one an `invalid_length`; a value that is not a sequence is refused. -/
def deserialize : Value → Except Error (MixedHashTree Digest)
  | .seq [] => .error (.invalidLength 0 expecting)
  | .seq (tag :: elements) => do
    let tag ← tag.toU8
    if tag = 0 then
      match elements with
      | [] => .ok .empty
      | _ :: _ => .error (.invalidLength 2 expecting)
    else if tag = 1 then
      match elements with
      | [] => .error (.invalidLength 1 expecting)
      | left :: rest => do
        let left ← deserialize left
        match rest with
        | [] => .error (.invalidLength 2 expecting)
        | right :: rest => do
          let right ← deserialize right
          match rest with
          | [] => .ok (.fork left right)
          | _ :: _ => .error (.invalidLength 4 expecting)
    else if tag = 2 then
      match elements with
      | [] => .error (.invalidLength 1 expecting)
      | label :: rest => do
        let label ← label.toBorrowedBytes
        match rest with
        | [] => .error (.invalidLength 2 expecting)
        | subtree :: rest => do
          let subtree ← deserialize subtree
          match rest with
          | [] => .ok (.labeled label subtree)
          | _ :: _ => .error (.invalidLength 4 expecting)
    else if tag = 3 then
      match elements with
      | [] => .error (.invalidLength 1 expecting)
      | bytes :: rest => do
        let bytes ← bytes.toByteBuf
        match rest with
        | [] => .ok (.leaf bytes)
        | _ :: _ => .error (.invalidLength 3 expecting)
    else if tag = 4 then
      match elements with
      | [] => .error (.invalidLength 1 expecting)
      | digestBytes :: rest => do
        let digestBytes ← digestBytes.toByteBuf
        match rest with
        | _ :: _ => .error (.invalidLength 3 expecting)
        | [] =>
          match digestTryFrom digestBytes with
          | .ok digest => .ok (.pruned digest)
          | .error err => .error (.invalidLength err.length "Expected digest blob")
    else .error (unknownTag tag)
  | v => .error (.invalidType v.unexpected expecting)

/-! ## Reading a serialization back -/

theorem digestTryFrom_bytes (d : Digest) : digestTryFrom d.bytes = .ok d := by
  simp [digestTryFrom, d.length_eq]

/-- **The visitor reads every tree back from its serialization.** -/
theorem deserialize_serialize (m : MixedHashTree Digest) : deserialize m.serialize = .ok m := by
  induction m with
  | empty => rfl
  | fork l r ihl ihr => simp [serialize, deserialize, ihl, ihr]
  | labeled label t ih => simp [serialize, deserialize, ih]
  | leaf data => simp [serialize, deserialize]
  | pruned d => simp [serialize, deserialize, digestTryFrom_bytes]

/-! ## What the visitor refuses -/

/-- The number of elements of a sequence of each tag of the grammar, the tag included. -/
def arity : ℕ → ℕ
  | 0 => 1
  | 1 => 3
  | 2 => 3
  | 3 => 2
  | 4 => 2
  | _ => 0

/-- **What the visitor accepts has a tag's shape**. -/
theorem shape_of_deserialize_eq_ok {es : List Value} {m : MixedHashTree Digest}
    (h : deserialize (.seq es) = .ok m) :
    ∃ n < 5, es.head? = some (.uint (UInt64.ofNat n)) ∧ es.length = arity n ∧
      ∀ d, es = [.uint 4, d] → ∃ bs, d.toByteBuf = .ok bs ∧ bs.length = 32 := by
  rcases es with _ | ⟨tag, elements⟩
  · cases h
  rw [deserialize.eq_def] at h
  dsimp only at h
  obtain ⟨t, ht, hbody⟩ := Except.bind_eq_ok.mp h
  obtain rfl := Value.toU8_eq_ok.mp ht
  -- one branch a tag; in each, every element the tag does not have makes an error
  split_ifs at hbody with h0 h1 h2 h3 h4
  · subst h0
    rcases elements with _ | ⟨_, _⟩
    · exact ⟨0, by omega, rfl, rfl, by simp⟩
    · cases hbody
  · subst h1
    rcases elements with _ | ⟨left, _ | ⟨right, _ | ⟨_, _⟩⟩⟩ <;>
      simp only [Except.bind_eq_ok, reduceCtorEq, exists_false, and_false] at hbody
    exact ⟨1, by omega, rfl, rfl, by simp⟩
  · subst h2
    rcases elements with _ | ⟨label, _ | ⟨subtree, _ | ⟨_, _⟩⟩⟩ <;>
      simp only [Except.bind_eq_ok, reduceCtorEq, exists_false, and_false] at hbody
    exact ⟨2, by omega, rfl, rfl, by simp⟩
  · subst h3
    rcases elements with _ | ⟨bytes, _ | ⟨_, _⟩⟩ <;>
      simp only [Except.bind_eq_ok, reduceCtorEq, exists_false, and_false] at hbody
    exact ⟨3, by omega, rfl, rfl, by simp⟩
  · subst h4
    rcases elements with _ | ⟨digestBytes, _ | ⟨_, _⟩⟩
    · cases hbody
    · dsimp only at hbody
      obtain ⟨bs, hbs, hpruned⟩ := Except.bind_eq_ok.mp hbody
      refine ⟨4, by omega, rfl, rfl, ?_⟩
      rintro d ⟨⟩
      refine ⟨bs, hbs, ?_⟩
      unfold digestTryFrom at hpruned
      split_ifs at hpruned with hlen
      exact hlen
    · dsimp only at hbody
      obtain ⟨bs, -, hextra⟩ := Except.bind_eq_ok.mp hbody
      cases hextra

/-- A sequence the grammar has no production for. -/
def Malformed (es : List Value) : Prop :=
  (∀ n < 5, es.head? ≠ some (.uint (UInt64.ofNat n))) ∨
    (∃ n < 5, es.head? = some (.uint (UInt64.ofNat n)) ∧ es.length ≠ arity n) ∨
    ∃ d, es = [.uint 4, d] ∧ ∀ bs, d.toByteBuf = .ok bs → bs.length ≠ 32

/-- **The visitor refuses every malformed sequence.** -/
theorem deserialize_rejects {es : List Value} (hbad : Malformed es) :
    ∃ e, deserialize (.seq es) = .error e := by
  rcases h : deserialize (.seq es) with e | m
  · exact ⟨e, rfl⟩
  · obtain ⟨n, hn, hhead, hlen, hdigest⟩ := shape_of_deserialize_eq_ok h
    rcases hbad with hnone | ⟨n', hn', hhead', hlen'⟩ | ⟨d, rfl, hbs⟩
    · exact absurd hhead (hnone n hn)
    · have hnn : n' = n := by
        rw [hhead, Option.some.injEq, Value.uint.injEq] at hhead'
        have h64 := congrArg UInt64.toNat hhead'
        rw [UInt64.toNat_ofNat_of_lt' (lt_of_lt_of_le hn (by decide)),
          UInt64.toNat_ofNat_of_lt' (lt_of_lt_of_le hn' (by decide))] at h64
        omega
      exact absurd (hnn ▸ hlen) hlen'
    · obtain ⟨bs, hbs', h32⟩ := hdigest d rfl
      exact absurd h32 (hbs bs hbs')

/-! ## Over a format -/

/-- `serde_cbor::to_vec` of a tree. -/
def toVec (format : Format) (t : MixedHashTree Digest) : List UInt8 := format.encode t.serialize

/-- `serde_cbor::from_slice::<MixedHashTree>`. -/
def fromSlice (format : Format) (bytes : List UInt8) :
    Except (String ⊕ Error) (MixedHashTree Digest) := do
  let value ← (format.decode bytes).mapError .inl
  (deserialize value).mapError .inr

theorem fromSlice_toVec (format : Format) (m : MixedHashTree Digest) :
    fromSlice format (toVec format m) = .ok m := by
  rw [fromSlice, toVec, format.decode_encode]
  show (deserialize m.serialize).mapError Sum.inr = _
  rw [deserialize_serialize]
  rfl

theorem fromSlice_rejects {format : Format} {bytes : List UInt8} {es : List Value}
    (hdecode : format.decode bytes = .ok (.seq es)) (hbad : Malformed es) :
    ∃ e, fromSlice format bytes = .error e := by
  obtain ⟨e, he⟩ := deserialize_rejects hbad
  refine ⟨.inr e, ?_⟩
  rw [fromSlice, hdecode]
  show (deserialize (.seq es)).mapError Sum.inr = _
  rw [he]
  rfl

/-- **The certificate tree encoding round-trips** over every format that decodes what it encodes,
and every malformed sequence is refused, as a value or from bytes. -/
theorem certificateTree_roundtrip :
    (∀ m : MixedHashTree Digest, deserialize m.serialize = .ok m) ∧
    (∀ (format : Format) (m : MixedHashTree Digest), fromSlice format (toVec format m) = .ok m) ∧
    (∀ es : List Value, Malformed es → ∃ e, deserialize (.seq es) = .error e) ∧
    ∀ (format : Format) (bytes : List UInt8) (es : List Value),
      format.decode bytes = .ok (.seq es) → Malformed es → ∃ e, fromSlice format bytes = .error e :=
  ⟨deserialize_serialize, fromSlice_toVec, fun _ => deserialize_rejects,
    fun _ _ _ => fromSlice_rejects⟩

/-- A pruned node of three bytes is malformed, and refused, as a value and from its bytes in the
format of tagged values; a pruned node of a digest comes back from its bytes. -/
theorem certificateTree_roundtrip_at_short_digest :
    Malformed [.uint 4, .bytes [1, 2, 3]] ∧
      (∃ e, deserialize (.seq [.uint 4, .bytes [1, 2, 3]]) = .error e) ∧
      tlv.decode [4, 2, 0, 4, 2, 3, 1, 2, 3] = .ok (.seq [.uint 4, .bytes [1, 2, 3]]) ∧
      (∃ e, fromSlice tlv [4, 2, 0, 4, 2, 3, 1, 2, 3] = .error e) ∧
      fromSlice tlv (toVec tlv (.pruned ⟨List.replicate 32 7, rfl⟩)) =
        .ok (.pruned ⟨List.replicate 32 7, rfl⟩) := by
  have hbad : Malformed [.uint 4, .bytes [1, 2, 3]] :=
    .inr (.inr ⟨.bytes [1, 2, 3], rfl, fun bs h => by cases h; decide⟩)
  have hdecode : tlv.decode [4, 2, 0, 4, 2, 3, 1, 2, 3] = .ok (.seq [.uint 4, .bytes [1, 2, 3]]) :=
    rfl
  exact ⟨hbad, certificateTree_roundtrip.2.2.1 _ hbad, hdecode,
    certificateTree_roundtrip.2.2.2 tlv _ _ hdecode hbad, certificateTree_roundtrip.2.1 tlv _⟩

end MixedHashTree

end IC.TreeHash
