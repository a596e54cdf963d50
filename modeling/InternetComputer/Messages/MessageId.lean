import Mathlib
import InternetComputer.Lib.Bytes
import InternetComputer.Lib.Rust
import InternetComputer.Lib.SortedMap
import InternetComputer.State.ReplicatedState

/-!
# Request ids

The representation-independent hash of `message_id.rs`: each entry of a request is hashed as the
hash of its name followed by the hash of its value, and the request id is the hash of the entry
hashes, sorted and concatenated. SHA-256 is the parameter `sha256`.

* **`hashVal_eq_ok`**: `hash_val` computes the spec's `valueHash` and never panics;
* **`hashOfMap_eq_ok`**: `hash_of_map` hashes the entry hashes in increasing order, which is the
  spec's order when no two names hash alike (`hashOfMap_eq_specHashOfMap`).
-/

namespace IC.Messages

open IC.State

/-- A SHA-256 digest, `[u8; 32]`. -/
structure Digest where
  bytes : List UInt8
  length_eq : bytes.length = 32

/-- `MessageId::from([u8; 32])`. -/
def Digest.toMessageId (d : Digest) : MessageId := ⟨d.bytes, d.length_eq⟩

/-- `RawHttpRequestVal`: the value of a field of a request. -/
inductive RawHttpRequestVal where
  | bytes (bytes : List UInt8)
  | string (string : String)
  | u64 (integer : UInt64)
  | array (elements : List RawHttpRequestVal)

/-! ## The LEB128 loop of hash_u64 -/

theorem toNat_shiftRight_seven (n : UInt64) : (n >>> 7).toNat = n.toNat / 128 := by
  rw [UInt64.toNat_shiftRight, Nat.shiftRight_eq_div_pow]
  rfl

/-- The loop of `hash_u64`: the low seven bits of `n` into `buf[i]`, the high bit set while bits
are left, then `n >>= 7`; it returns the buffer and the last index written. -/
def hashU64Loop (n : UInt64) (buf : List UInt8) (i : ℕ) : Except String (List UInt8 × ℕ) :=
  let byte := (n &&& 0x7f).toUInt8
  if n >>> 7 = 0 then do
    let buf ← Rust.set buf i byte
    pure (buf, i)
  else do
    let buf ← Rust.set buf i (byte ||| 0x80)
    hashU64Loop (n >>> 7) buf (i + 1)
termination_by n.toNat
decreasing_by
  have hne : (n >>> 7).toNat ≠ 0 := fun h => ‹¬n >>> 7 = 0› (UInt64.toNat_inj.mp h)
  rw [toNat_shiftRight_seven] at hne ⊢
  omega

theorem toUInt8_and_low (n : UInt64) : (n &&& 0x7f).toUInt8 = UInt8.ofNat (n.toNat % 128) := by
  apply UInt8.toNat_inj.mp
  rw [UInt64.toNat_toUInt8, UInt64.toNat_and, Bytes.toNat_ofNat_of_lt (by omega)]
  have : n.toNat &&& (0x7f : UInt64).toNat = n.toNat % 2 ^ 7 :=
    Nat.and_two_pow_sub_one_eq_mod n.toNat 7
  rw [this]
  omega

theorem ofNat_or_high {m : ℕ} (h : m < 128) : UInt8.ofNat m ||| 0x80 = UInt8.ofNat (m + 128) := by
  apply UInt8.toNat_inj.mp
  rw [UInt8.toNat_or, Bytes.toNat_ofNat_of_lt (by omega), Bytes.toNat_ofNat_of_lt (by omega)]
  exact Nat.or_two_pow_eq_add_of_lt (n := 7) h

theorem take_set_append_drop {α : Type} {buf : List α} {i : ℕ} (b : α) (bs : List α)
    (hi : i < buf.length) :
    (buf.set i b).take (i + 1) ++ bs ++ (buf.set i b).drop (i + 1 + bs.length) =
      buf.take i ++ (b :: bs) ++ buf.drop (i + (b :: bs).length) := by
  have htake : (buf.set i b).take (i + 1) = buf.take i ++ [b] := by
    rw [List.take_add_one, List.take_set_of_le le_rfl, List.getElem?_set_self hi]
    rfl
  rw [htake, List.drop_set_of_lt (by omega), List.length_cons,
    show i + (bs.length + 1) = i + 1 + bs.length by omega]
  simp

theorem hashU64Loop_eq_ok (n : UInt64) (buf : List UInt8) (i : ℕ)
    (h : i + (Bytes.leb128 n.toNat).length ≤ buf.length) :
    hashU64Loop n buf i = .ok (buf.take i ++ Bytes.leb128 n.toNat ++
      buf.drop (i + (Bytes.leb128 n.toNat).length), i + (Bytes.leb128 n.toNat).length - 1) := by
  induction n, buf, i using hashU64Loop.induct with
  | case1 n buf i hzero =>
    -- the last seven bits: one byte, without the high bit
    have hlt : n.toNat < 128 := by
      have := congrArg UInt64.toNat hzero
      rw [toNat_shiftRight_seven, UInt64.toNat_zero] at this
      omega
    rw [Bytes.leb128_of_lt hlt] at h ⊢
    have hi : i < buf.length := by simp at h; omega
    rw [hashU64Loop, if_pos hzero, toUInt8_and_low, Nat.mod_eq_of_lt hlt, Rust.set_of_lt _ hi,
      Except.ok_bind, List.set_eq_take_append_cons_drop, if_pos hi]
    simp
  | case2 n buf i hne ih =>
    have hle : 128 ≤ n.toNat := by
      have : (n >>> 7).toNat ≠ 0 := fun h0 => hne (UInt64.toNat_inj.mp h0)
      rw [toNat_shiftRight_seven] at this
      omega
    have hbyte : (n &&& 0x7f).toUInt8 ||| 0x80 = UInt8.ofNat (n.toNat % 128 + 128) := by
      rw [toUInt8_and_low, ofNat_or_high (Nat.mod_lt _ (by decide))]
    rw [Bytes.leb128_of_le hle] at h ⊢
    rw [toNat_shiftRight_seven] at ih
    have hi : i < buf.length := by simp at h; omega
    rw [hashU64Loop, if_neg hne, hbyte, Rust.set_of_lt _ hi, Except.ok_bind,
      ih _ (by simp at h ⊢; omega), take_set_append_drop _ _ hi, List.length_cons,
      show i + 1 + (Bytes.leb128 (n.toNat / 128)).length - 1 =
        i + ((Bytes.leb128 (n.toNat / 128)).length + 1) - 1 by omega]

theorem length_leb128_toNat_le (n : UInt64) : (Bytes.leb128 n.toNat).length ≤ 10 :=
  Bytes.length_leb128_le (k := 9) (lt_of_lt_of_le n.toNat_lt (by decide))

section Hash

variable (sha256 : List UInt8 → Digest)

/-! ## hash_val -/

/-- `hash_string`: the hash of the UTF-8 bytes. -/
def hashString (value : String) : List UInt8 := (sha256 value.toUTF8.data.toList).bytes

/-- `hash_bytes`. -/
def hashBytes (value : List UInt8) : List UInt8 := (sha256 value).bytes

/-- `hash_u64`: the LEB128 loop into a buffer of ten zero bytes, and the hash of `buf[..=i]`. -/
def hashU64 (value : UInt64) : Except String (List UInt8) := do
  let (buf, i) ← hashU64Loop value (List.replicate 10 0) 0
  let bytes ← Rust.sliceTo buf (i + 1)
  pure (hashBytes sha256 bytes)

mutual

/-- `hash_val`. -/
def hashVal : RawHttpRequestVal → Except String (List UInt8)
  | .string string => pure (hashString sha256 string)
  | .bytes bytes => pure (hashBytes sha256 bytes)
  | .u64 integer => hashU64 sha256 integer
  | .array elements => hashArray elements []

/-- `hash_array`: the hash of each element written, then the hasher's digest. -/
def hashArray : List RawHttpRequestVal → List UInt8 → Except String (List UInt8)
  | [], written => pure (sha256 written).bytes
  | e :: es, written => do
    let hash ← hashVal e
    hashArray es (written ++ hash)

end

/-- `hash_key_val`: the hash of the key, and after it the hash of the value. -/
def hashKeyVal (key : String) (val : RawHttpRequestVal) : Except String (List UInt8) := do
  let valHash ← hashVal sha256 val
  pure (hashString sha256 key ++ valHash)

/-- `hash_of_map`: the entries' hashes sorted as byte strings, then digested. -/
def hashOfMap (map : SortedMap String RawHttpRequestVal) : Except String Digest := do
  let hashes ← map.entries.mapM fun e => hashKeyVal sha256 e.1 e.2
  pure (sha256 (hashes.insertionSort (· ≤ ·)).flatten)

/-! ## The interface spec's hashes -/

mutual

/-- The interface spec's hash of a value. -/
def valueHash : RawHttpRequestVal → List UInt8
  | .string s => (sha256 s.toUTF8.data.toList).bytes
  | .bytes b => (sha256 b).bytes
  | .u64 n => (sha256 (Bytes.leb128 n.toNat)).bytes
  | .array es => (sha256 (valuesHash es)).bytes

/-- The hashes of values, concatenated. -/
def valuesHash : List RawHttpRequestVal → List UInt8
  | [] => []
  | e :: es => valueHash e ++ valuesHash es

end

/-- The interface spec's hash of an entry: the hash of its name, then the hash of its value. -/
def entryHash (e : String × RawHttpRequestVal) : List UInt8 :=
  hashString sha256 e.1 ++ valueHash sha256 e.2

/-- The interface spec's `hash_of_map`, ordered by the hashes of the names alone. -/
def specHashOfMap (map : SortedMap String RawHttpRequestVal) : Digest :=
  sha256 ((map.entries.insertionSort fun a b =>
    hashString sha256 a.1 ≤ hashString sha256 b.1).flatMap (entryHash sha256))

/-! ## hash_val computes the spec's hash -/

theorem hashU64_eq_ok (value : UInt64) :
    hashU64 sha256 value = .ok (hashBytes sha256 (Bytes.leb128 value.toNat)) := by
  have hlen := length_leb128_toNat_le value
  have hpos : 0 < (Bytes.leb128 value.toNat).length :=
    List.length_pos_iff.mpr (Bytes.leb128_ne_nil _)
  rw [hashU64, hashU64Loop_eq_ok value _ 0 (by simp; omega), Except.ok_bind]
  dsimp only
  rw [Nat.zero_add, Nat.sub_add_cancel hpos, Rust.sliceTo_of_le (by simp)]
  simp

mutual

/-- **`hash_val` computes the spec's hash of a value**, and never panics. -/
theorem hashVal_eq_ok : ∀ v : RawHttpRequestVal, hashVal sha256 v = .ok (valueHash sha256 v)
  | .string s => by rw [hashVal, valueHash, hashString]; rfl
  | .bytes b => by rw [hashVal, valueHash, hashBytes]; rfl
  | .u64 n => by rw [hashVal, valueHash, hashU64_eq_ok, hashBytes]
  | .array es => by rw [hashVal, valueHash, hashArray_eq_ok, List.nil_append]

theorem hashArray_eq_ok : ∀ (es : List RawHttpRequestVal) (written : List UInt8),
    hashArray sha256 es written = .ok (sha256 (written ++ valuesHash sha256 es)).bytes
  | [], written => by rw [hashArray, valuesHash, List.append_nil]; rfl
  | e :: es, written => by
    rw [hashArray, hashVal_eq_ok e, Except.ok_bind, hashArray_eq_ok es, valuesHash,
      List.append_assoc]

end

theorem hashKeyVal_eq_ok (e : String × RawHttpRequestVal) :
    hashKeyVal sha256 e.1 e.2 = .ok (entryHash sha256 e) := by
  rw [hashKeyVal, hashVal_eq_ok, Except.ok_bind, entryHash]
  rfl

theorem mapM_hashKeyVal (es : List (String × RawHttpRequestVal)) :
    es.mapM (fun e => hashKeyVal sha256 e.1 e.2) = .ok (es.map (entryHash sha256)) := by
  have hf : (fun e : String × RawHttpRequestVal => hashKeyVal sha256 e.1 e.2) =
      fun e => pure (entryHash sha256 e) := funext (hashKeyVal_eq_ok sha256)
  rw [hf, List.mapM_pure]
  rfl

/-! ## hash_of_map -/

/-- **`hash_of_map` hashes the entry hashes in increasing order**: for every listing `l` of the
spec's entry hashes in increasing byte order, the request id is the digest of their
concatenation. -/
theorem hashOfMap_eq_ok (map : SortedMap String RawHttpRequestVal) (l : List (List UInt8))
    (hperm : l.Perm (map.entries.map (entryHash sha256))) (hsorted : l.Pairwise (· ≤ ·)) :
    hashOfMap sha256 map = .ok (sha256 l.flatten) := by
  have hsort : (map.entries.map (entryHash sha256)).insertionSort (· ≤ ·) = l :=
    List.Perm.eq_of_pairwise' (List.pairwise_insertionSort _ _) hsorted
      ((List.perm_insertionSort _ _).trans hperm.symm)
  rw [hashOfMap, mapM_hashKeyVal, Except.ok_bind, hsort]
  rfl

theorem entryHash_lt_entryHash {a b : String × RawHttpRequestVal}
    (h : hashString sha256 a.1 < hashString sha256 b.1) :
    entryHash sha256 a < entryHash sha256 b :=
  (List.append_lt_append_iff_of_length_eq _ _
    (((sha256 _).length_eq).trans (sha256 _).length_eq.symm)).mpr (Or.inl h)

theorem hashOfMap_eq_specHashOfMap (map : SortedMap String RawHttpRequestVal)
    (hinj : ∀ k₁ ∈ map.keys, ∀ k₂ ∈ map.keys, hashString sha256 k₁ = hashString sha256 k₂ →
      k₁ = k₂) :
    hashOfMap sha256 map = .ok (specHashOfMap sha256 map) := by
  let byName : String × RawHttpRequestVal → String × RawHttpRequestVal → Prop :=
    fun a b => hashString sha256 a.1 ≤ hashString sha256 b.1
  have : Std.Total byName := ⟨fun a b => le_total _ _⟩
  have : IsTrans _ byName := ⟨fun _ _ _ => le_trans⟩
  let sorted := map.entries.insertionSort byName
  have hperm : sorted.Perm map.entries := List.perm_insertionSort _ _
  -- the names stay distinct, so their hashes are too, and in strictly increasing order
  have hnames : sorted.Pairwise fun a b => a.1 ≠ b.1 :=
    List.pairwise_map.mp ((hperm.map Prod.fst).nodup_iff.mpr map.nodup_keys)
  have hmem : ∀ e ∈ sorted, e.1 ∈ map.keys := fun e he =>
    List.mem_map_of_mem (hperm.subset he)
  have hlt : sorted.Pairwise fun a b => hashString sha256 a.1 < hashString sha256 b.1 := by
    refine ((List.pairwise_insertionSort byName _).and hnames).imp_of_mem ?_
    intro a b ha hb ⟨hle, hne⟩
    exact lt_of_le_of_ne hle fun heq => hne (hinj _ (hmem a ha) _ (hmem b hb) heq)
  have hsorted : (sorted.map (entryHash sha256)).Pairwise (· ≤ ·) :=
    List.pairwise_map.mpr (hlt.imp fun h => (entryHash_lt_entryHash sha256 h).le)
  rw [hashOfMap_eq_ok sha256 map _ (hperm.map _) hsorted, specHashOfMap, List.flatMap_def]

end Hash

end IC.Messages
