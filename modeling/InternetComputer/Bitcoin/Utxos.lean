import InternetComputer.Bitcoin.UtxoSet
import InternetComputer.Lib.SortedMap
import InternetComputer.Lib.Bytes
import Mathlib

/-!
# The three maps of the UTXOs

`Utxos` of `state.rs` with the methods of `UtxosTrait`: the UTXOs split by the size of their
encoded value over two stable maps (at most 37 and 213 bytes) and a heap map, as `Sized.Utxos`.
`insert` picks the map by the new value's size; `get` and `remove` probe the maps in order.

* **`OutPoint.fromBytes_toBytes`**, **`valueFromBytes_valueToBytes`**: the `Storable` round trips;
* `Sized.Utxos.Represents u m`: the finite map `m` is held in `u`, each UTXO once, in the map of
  its size class, with one lemma per call and the run lemma `Represents.run`, for runs in which
  no insert moves a present key to another size class;
* **`reinsert_in_other_class_keeps_old`**: an insert that does leaves the old UTXO in its map.
-/

namespace IC.Bitcoin

open Bytes

/-! ## The `Storable` encodings -/

namespace OutPoint

/-- The derived order of `OutPoint`: by txid, then by vout. -/
def toLexPair (o : OutPoint) : Lex (ℕ × ℕ) := toLex (o.txid, o.vout)

theorem toLexPair_injective : Function.Injective toLexPair := by
  rintro ⟨a, b⟩ ⟨c, d⟩ h
  simp only [toLexPair, toLex_inj, Prod.mk.injEq] at h
  obtain ⟨rfl, rfl⟩ := h
  rfl

instance : LinearOrder OutPoint := LinearOrder.lift' toLexPair toLexPair_injective

/-- An outpoint of the `bitcoin` crate: a txid of 32 bytes and a `u32` vout. -/
def Valid (o : OutPoint) : Prop := o.txid < 256 ^ 32 ∧ o.vout < 256 ^ 4

/-- `Storable::to_bytes`: the 32 bytes of the txid, then the vout in 4 bytes. -/
def toBytes (o : OutPoint) : List UInt8 := toLeBytes 32 o.txid ++ toLeBytes 4 o.vout

/-- `Storable::from_bytes`, which asserts 36 bytes. -/
def fromBytes (bytes : List UInt8) : Except String OutPoint :=
  if bytes.length = 36 then .ok ⟨ofLeBytes (bytes.take 32), ofLeBytes ((bytes.drop 32).take 4)⟩
  else .error "assertion failed: `(left == right)`"

@[simp]
theorem length_toBytes (o : OutPoint) : o.toBytes.length = 36 := by
  simp [toBytes]

theorem fromBytes_toBytes {o : OutPoint} (ho : o.Valid) : fromBytes o.toBytes = .ok o := by
  have htake : o.toBytes.take 32 = toLeBytes 32 o.txid := by
    simp [toBytes, List.take_left' (length_toLeBytes 32 o.txid)]
  have hdrop : o.toBytes.drop 32 = toLeBytes 4 o.vout := by
    simp [toBytes, List.drop_left' (length_toLeBytes 32 o.txid)]
  rw [fromBytes, if_pos (length_toBytes o), htake, hdrop,
    List.take_of_length_le (by simp), ofLeBytes_toLeBytes ho.1, ofLeBytes_toLeBytes ho.2]

theorem toBytes_injective {o o' : OutPoint} (ho : o.Valid) (ho' : o'.Valid)
    (h : o.toBytes = o'.toBytes) : o = o' := by
  have := fromBytes_toBytes ho
  rw [h, fromBytes_toBytes ho'] at this
  exact (Except.ok.inj this).symm

end OutPoint

/-- A UTXO of the `bitcoin` crate: a `u64` value and a `u32` height. -/
def ValueValid (value : TxOut × Height) : Prop := value.1.value < 256 ^ 8 ∧ value.2 < 256 ^ 4

/-- `Storable::to_bytes` for `(TxOut, Height)`: height, value, then the script. -/
def valueToBytes (value : TxOut × Height) : List UInt8 :=
  toLeBytes 4 value.2 ++ toLeBytes 8 value.1.value ++ value.1.scriptPubkey

/-- `Storable::from_bytes` for `(TxOut, Height)`; fewer than 12 bytes panic. -/
def valueFromBytes (bytes : List UInt8) : Except String (TxOut × Height) := do
  let heightBytes ← Rust.sliceTo bytes 4
  let valueBytes ← Rust.sliceTo (bytes.drop 4) 8
  pure (⟨ofLeBytes valueBytes, bytes.drop 12⟩, ofLeBytes heightBytes)

@[simp]
theorem length_valueToBytes (value : TxOut × Height) :
    (valueToBytes value).length = 12 + value.1.scriptPubkey.length := by
  simp only [valueToBytes, List.length_append, length_toLeBytes]

theorem valueFromBytes_valueToBytes {value : TxOut × Height} (hv : ValueValid value) :
    valueFromBytes (valueToBytes value) = .ok value := by
  obtain ⟨⟨amount, script⟩, height⟩ := value
  have h4 : (valueToBytes (⟨amount, script⟩, height)).take 4 = toLeBytes 4 height := by
    simp [valueToBytes, List.take_left' (length_toLeBytes 4 height)]
  have hdrop4 : (valueToBytes (⟨amount, script⟩, height)).drop 4 = toLeBytes 8 amount ++ script := by
    simp [valueToBytes, List.drop_left' (length_toLeBytes 4 height)]
  have hdrop12 : (valueToBytes (⟨amount, script⟩, height)).drop 12 = script := by
    rw [show 12 = 4 + 8 from rfl, ← List.drop_drop, hdrop4,
      List.drop_left' (length_toLeBytes 8 amount)]
  have hamount : amount < 256 ^ 8 := hv.1
  have hheight : height < 256 ^ 4 := hv.2
  have hlen : 4 ≤ 12 + script.length := by omega
  simp [valueFromBytes, hlen, Rust.sliceTo, hdrop4, hdrop12, h4,
    List.take_left' (length_toLeBytes 8 amount), ofLeBytes_toLeBytes hamount,
    ofLeBytes_toLeBytes hheight]

/-! ## The maps -/

-- the maps by size class; `Apply` names the one map they stand for `Utxos`
namespace Sized

/-- `UTXO_KEY_SIZE`: the 36 bytes of an outpoint. -/
def utxoKeySize : ℕ := 32 + 4

/-- `UTXO_VALUE_MAX_SIZE_SMALL`: a script of at most 25 bytes, the value and the height. -/
def utxoValueMaxSizeSmall : ℕ := 25 + 8 + 4

/-- `UTXO_VALUE_MAX_SIZE_MEDIUM`: a script of at most 201 bytes, the value and the height. -/
def utxoValueMaxSizeMedium : ℕ := 201 + 8 + 4

/-- `InsertError` of `StableBTreeMap::insert`. -/
inductive InsertError where
  | keyTooLarge (given max : ℕ)
  | valueTooLarge (given max : ℕ)
  deriving DecidableEq, Repr

/-- A `StableBTreeMap` by its contents: the bounds on its keys and values, and its entries. -/
structure StableMap where
  maxKeySize : ℕ
  maxValueSize : ℕ
  entries : SortedMap (List UInt8) (List UInt8)

namespace StableMap

/-- `StableBTreeMap::new`. -/
def new (maxKeySize maxValueSize : ℕ) : StableMap := ⟨maxKeySize, maxValueSize, SortedMap.empty⟩

/-- `StableBTreeMap::insert`: a key or a value over its bound is refused. -/
def insert (m : StableMap) (key value : List UInt8) :
    Except InsertError (Option (List UInt8) × StableMap) :=
  if key.length > m.maxKeySize then .error (.keyTooLarge key.length m.maxKeySize)
  else if value.length > m.maxValueSize then .error (.valueTooLarge value.length m.maxValueSize)
  else .ok (m.entries.get? key, { m with entries := m.entries.insert key value })

/-- `StableBTreeMap::get`. -/
def get (m : StableMap) (key : List UInt8) : Option (List UInt8) := m.entries.get? key

/-- `StableBTreeMap::remove`: the old value, and the map without the key. -/
def remove (m : StableMap) (key : List UInt8) : Option (List UInt8) × StableMap :=
  (m.entries.get? key, { m with entries := m.entries.erase key })

/-- `StableBTreeMap::contains_key`. -/
def containsKey (m : StableMap) (key : List UInt8) : Bool := (m.entries.get? key).isSome

/-- `StableBTreeMap::len`. -/
def len (m : StableMap) : ℕ := m.entries.entries.length

theorem insert_of_le {m : StableMap} {key value : List UInt8} (hk : key.length ≤ m.maxKeySize)
    (hv : value.length ≤ m.maxValueSize) :
    m.insert key value = .ok (m.get key, { m with entries := m.entries.insert key value }) := by
  rw [insert, if_neg (by omega), if_neg (by omega)]
  rfl

end StableMap

/-- `Utxos`: the small and the medium UTXOs by their encodings, and the large ones. -/
structure Utxos where
  smallUtxos : StableMap
  mediumUtxos : StableMap
  largeUtxos : SortedMap OutPoint (TxOut × Height)

namespace Utxos

/-- `Utxos::default`. -/
def default : Utxos :=
  ⟨StableMap.new utxoKeySize utxoValueMaxSizeSmall, StableMap.new utxoKeySize utxoValueMaxSizeMedium,
    SortedMap.empty⟩

/-- `UtxosTrait::insert`: into the map of the encoded value's size. -/
def insert (u : Utxos) (key : OutPoint) (value : TxOut × Height) : Except String (Bool × Utxos) :=
  let valueEncoded := valueToBytes value
  if valueEncoded.length ≤ utxoValueMaxSizeSmall then do
    let (old, smallUtxos) ← Rust.expectOk (u.smallUtxos.insert key.toBytes valueEncoded)
      "Inserting small UTXO must succeed."
    pure (old.isSome, { u with smallUtxos })
  else if valueEncoded.length ≤ utxoValueMaxSizeMedium then do
    let (old, mediumUtxos) ← Rust.expectOk (u.mediumUtxos.insert key.toBytes valueEncoded)
      "Inserting medium UTXO must succeed."
    pure (old.isSome, { u with mediumUtxos })
  else pure ((u.largeUtxos.get? key).isSome, { u with largeUtxos := u.largeUtxos.insert key value })

/-- `UtxosTrait::get`: the small map first, then the medium one, then the large one. -/
def get (u : Utxos) (key : OutPoint) : Except String (Option (TxOut × Height)) :=
  let keyVec := key.toBytes
  match u.smallUtxos.get keyVec with
  | some value => some <$> valueFromBytes value
  | none =>
    match u.mediumUtxos.get keyVec with
    | some value => some <$> valueFromBytes value
    | none => pure (u.largeUtxos.get? key)

/-- `UtxosTrait::remove`: from the first map that has the key. -/
def remove (u : Utxos) (key : OutPoint) : Except String (Option (TxOut × Height) × Utxos) :=
  let keyVec := key.toBytes
  match u.smallUtxos.remove keyVec with
  | (some value, smallUtxos) => do
    let value ← valueFromBytes value
    pure (some value, { u with smallUtxos })
  | (none, smallUtxos) =>
    match u.mediumUtxos.remove keyVec with
    | (some value, mediumUtxos) => do
      let value ← valueFromBytes value
      pure (some value, { u with smallUtxos, mediumUtxos })
    | (none, mediumUtxos) =>
      pure (u.largeUtxos.get? key,
        { u with smallUtxos, mediumUtxos, largeUtxos := u.largeUtxos.erase key })

/-- `UtxosTrait::contains_key`. -/
def containsKey (u : Utxos) (key : OutPoint) : Bool :=
  u.smallUtxos.containsKey key.toBytes || u.mediumUtxos.containsKey key.toBytes ||
    (u.largeUtxos.get? key).isSome

/-- An entry of a stable map, decoded as the iterator's `next` does. -/
def decodeEntry (e : List UInt8 × List UInt8) : Except String (OutPoint × (TxOut × Height)) := do
  let key ← OutPoint.fromBytes e.1
  let value ← valueFromBytes e.2
  pure (key, value)

/-- `UtxosTrait::iter`, run to its end: small, medium, then large UTXOs. -/
def iter (u : Utxos) : Except String (List (OutPoint × (TxOut × Height))) := do
  let small ← u.smallUtxos.entries.entries.mapM decodeEntry
  let medium ← u.mediumUtxos.entries.entries.mapM decodeEntry
  pure (small ++ medium ++ u.largeUtxos.entries)

/-- `Utxos::len`. -/
def len (u : Utxos) : ℕ := u.largeUtxos.entries.length + u.smallUtxos.len + u.mediumUtxos.len

end Utxos

/-! ## The finite map the maps hold -/

/-- The three classes of UTXOs by the size of their encoded value. -/
inductive SizeClass where
  | small
  | medium
  | large
  deriving DecidableEq, Repr

/-- The class `insert` puts a UTXO in. -/
def sizeClass (value : TxOut × Height) : SizeClass :=
  if (valueToBytes value).length ≤ utxoValueMaxSizeSmall then .small
  else if (valueToBytes value).length ≤ utxoValueMaxSizeMedium then .medium
  else .large

/-- A finite map of outpoints, as the function of its values. -/
abbrev UtxoMap := OutPoint → Option (TxOut × Height)

/-- The encoded value a class's map holds for an outpoint. -/
def encodedIn (c : SizeClass) (m : UtxoMap) (o : OutPoint) : Option (List UInt8) :=
  match m o with
  | some value => if sizeClass value = c then some (valueToBytes value) else none
  | none => none

/-- A stable map holds the class `c` of `m`, encoded. -/
structure StableRep (s : StableMap) (c : SizeClass) (m : UtxoMap) : Prop where
  keys : ∀ k value, s.get k = some value → ∃ o : OutPoint, o.Valid ∧ k = o.toBytes
  get : ∀ o : OutPoint, o.Valid → s.get o.toBytes = encodedIn c m o

/-- The heap map holds the large UTXOs of `m`. -/
def LargeRep (l : SortedMap OutPoint (TxOut × Height)) (m : UtxoMap) : Prop :=
  ∀ o, l.get? o = (m o).filter fun value => sizeClass value = .large

namespace Utxos

/-- The UTXOs of `m` are held in `u`, each in the map of its class. -/
structure Represents (u : Utxos) (m : UtxoMap) : Prop where
  valid : ∀ o value, m o = some value → o.Valid ∧ ValueValid value
  smallBounds : u.smallUtxos.maxKeySize = utxoKeySize ∧
    u.smallUtxos.maxValueSize = utxoValueMaxSizeSmall
  mediumBounds : u.mediumUtxos.maxKeySize = utxoKeySize ∧
    u.mediumUtxos.maxValueSize = utxoValueMaxSizeMedium
  small : StableRep u.smallUtxos .small m
  medium : StableRep u.mediumUtxos .medium m
  large : LargeRep u.largeUtxos m

end Utxos

variable {m : UtxoMap}

theorem encodedIn_eq_some {c : SizeClass} {o : OutPoint} {bytes : List UInt8}
    (h : encodedIn c m o = some bytes) :
    ∃ value, m o = some value ∧ sizeClass value = c ∧ bytes = valueToBytes value := by
  unfold encodedIn at h
  split at h
  · rename_i value hv
    split_ifs at h with hc
    exact ⟨value, hv, hc, (Option.some.inj h).symm⟩
  · cases h

theorem encodedIn_of_eq_some {c : SizeClass} {o : OutPoint} {value : TxOut × Height}
    (hv : m o = some value) :
    encodedIn c m o = if sizeClass value = c then some (valueToBytes value) else none := by
  simp only [encodedIn, hv]

theorem encodedIn_of_eq_none {c : SizeClass} {o : OutPoint} (hv : m o = none) :
    encodedIn c m o = none := by
  simp only [encodedIn, hv]

theorem encodedIn_update (c : SizeClass) (o : OutPoint) (new : Option (TxOut × Height))
    (o' : OutPoint) : encodedIn c (Function.update m o new) o' =
      if o' = o then encodedIn c (fun _ => new) o else encodedIn c m o' := by
  by_cases h : o' = o
  · subst h
    simp [encodedIn]
  · simp [encodedIn, h]

theorem encodedIn_update_of_ne {c : SizeClass} {o : OutPoint} {new : Option (TxOut × Height)}
    (hold : encodedIn c m o = none) (hnew : ∀ value, new = some value → sizeClass value ≠ c) :
    encodedIn c (Function.update m o new) = encodedIn c m := by
  funext o'
  rw [encodedIn_update]
  split_ifs with h
  · subst h
    rw [hold]
    rcases new with _ | value
    · rfl
    · simp [encodedIn, hnew value rfl]
  · rfl

theorem toBytes_eq_iff {o o' : OutPoint} (ho : o.Valid) (ho' : o'.Valid) :
    o'.toBytes = o.toBytes ↔ o' = o :=
  ⟨OutPoint.toBytes_injective ho' ho, fun h => h ▸ rfl⟩

namespace StableRep

variable {s : StableMap} {c : SizeClass}

/-- A UTXO of class `c` written at its key. -/
theorem insert (h : StableRep s c m) {o : OutPoint} (ho : o.Valid) {value : TxOut × Height}
    (hc : sizeClass value = c) :
    StableRep { s with entries := s.entries.insert o.toBytes (valueToBytes value) } c
      (Function.update m o (some value)) where
  keys k bytes hk := by
    simp only [StableMap.get, SortedMap.get?_insert] at hk
    split_ifs at hk with hkey
    · exact ⟨o, ho, hkey⟩
    · exact h.keys k bytes hk
  get o' ho' := by
    simp only [StableMap.get, SortedMap.get?_insert, toBytes_eq_iff ho ho', encodedIn_update]
    split_ifs
    · simp [encodedIn, hc]
    · exact h.get o' ho'

theorem erase (h : StableRep s c m) {o : OutPoint} (ho : o.Valid) :
    StableRep { s with entries := s.entries.erase o.toBytes } c (Function.update m o none) where
  keys k bytes hk := by
    simp only [StableMap.get, SortedMap.get?_erase] at hk
    split_ifs at hk
    exact h.keys k bytes hk
  get o' ho' := by
    simp only [StableMap.get, SortedMap.get?_erase, toBytes_eq_iff ho ho', encodedIn_update]
    split_ifs
    · rfl
    · exact h.get o' ho'

theorem frame (h : StableRep s c m) {o : OutPoint} {new : Option (TxOut × Height)}
    (hold : encodedIn c m o = none) (hnew : ∀ value, new = some value → sizeClass value ≠ c) :
    StableRep s c (Function.update m o new) where
  keys := h.keys
  get o' ho' := by
    rw [encodedIn_update_of_ne hold hnew]
    exact h.get o' ho'

theorem remove_eq (h : StableRep s c m) {o : OutPoint} (ho : o.Valid) :
    s.remove o.toBytes = (encodedIn c m o, { s with entries := s.entries.erase o.toBytes }) := by
  rw [StableMap.remove, ← h.get o ho]
  rfl

end StableRep

namespace LargeRep

variable {l : SortedMap OutPoint (TxOut × Height)}

theorem filter_update (o : OutPoint) (new : Option (TxOut × Height)) (o' : OutPoint) :
    (Function.update m o new o').filter (fun value => sizeClass value = .large) =
      if o' = o then new.filter (fun value => sizeClass value = .large)
      else (m o').filter fun value => sizeClass value = .large := by
  by_cases h : o' = o
  · subst h
    rw [Function.update_self, if_pos rfl]
  · rw [Function.update_of_ne h, if_neg h]

theorem insert (h : LargeRep l m) (o : OutPoint) {value : TxOut × Height}
    (hc : sizeClass value = .large) :
    LargeRep (l.insert o value) (Function.update m o (some value)) := by
  intro o'
  rw [SortedMap.get?_insert, filter_update]
  split_ifs
  · simp only [Option.filter, hc, decide_true, if_true]
  · exact h o'

theorem erase (h : LargeRep l m) (o : OutPoint) : LargeRep (l.erase o) (Function.update m o none) := by
  intro o'
  rw [SortedMap.get?_erase, filter_update]
  split_ifs
  · rfl
  · exact h o'

theorem frame (h : LargeRep l m) {o : OutPoint} {new : Option (TxOut × Height)}
    (hold : l.get? o = none) (hnew : ∀ value, new = some value → sizeClass value ≠ .large) :
    LargeRep l (Function.update m o new) := by
  intro o'
  rw [filter_update]
  split_ifs with ho
  · subst ho
    rw [hold]
    rcases new with _ | value
    · rfl
    · simp only [Option.filter, hnew value rfl, decide_false, Bool.false_eq_true, if_false]
  · exact h o'

end LargeRep

namespace Utxos

variable {u : Utxos}

theorem Represents.decode (hr : Represents u m) {c : SizeClass} {o : OutPoint}
    {bytes : List UInt8} (h : encodedIn c m o = some bytes) :
    ∃ value, m o = some value ∧ sizeClass value = c ∧ valueFromBytes bytes = .ok value := by
  obtain ⟨value, hv, hc, rfl⟩ := encodedIn_eq_some h
  exact ⟨value, hv, hc, valueFromBytes_valueToBytes (hr.valid o value hv).2⟩

/-- **`get` reads the map.** -/
theorem Represents.get (hr : Represents u m) {o : OutPoint} (ho : o.Valid) :
    u.get o = .ok (m o) := by
  unfold Utxos.get
  dsimp only
  rw [hr.small.get o ho, hr.medium.get o ho, hr.large o]
  rcases hv : m o with _ | value
  · simp only [encodedIn_of_eq_none hv, Option.filter_none]
    rfl
  · have hdec := valueFromBytes_valueToBytes (hr.valid o value hv).2
    simp only [encodedIn_of_eq_some hv]
    cases hc : sizeClass value <;> simp [Option.filter, hc, hdec]

theorem Represents.containsKey (hr : Represents u m) {o : OutPoint} (ho : o.Valid) :
    u.containsKey o = (m o).isSome := by
  simp only [Utxos.containsKey, StableMap.containsKey]
  rw [show u.smallUtxos.entries.get? o.toBytes = encodedIn .small m o from hr.small.get o ho,
    show u.mediumUtxos.entries.get? o.toBytes = encodedIn .medium m o from hr.medium.get o ho,
    hr.large o]
  rcases hv : m o with _ | value
  · simp [encodedIn_of_eq_none hv]
  · simp only [encodedIn_of_eq_some hv, Option.isSome_some]
    cases hc : sizeClass value <;> simp [Option.filter, hc]

/-! ### Writes -/

theorem encodedIn_of_class {c c' : SizeClass} {o : OutPoint}
    (hclass : ∀ old, m o = some old → sizeClass old = c) :
    (encodedIn c' m o).isSome = (decide (c' = c) && (m o).isSome) := by
  rcases hv : m o with _ | old
  · simp [encodedIn_of_eq_none hv]
  · rw [encodedIn_of_eq_some hv, hclass old hv]
    by_cases h : c' = c
    · simp [h]
    · simp [h, Ne.symm h]

theorem encodedIn_eq_none_of_class {c c' : SizeClass} {o : OutPoint}
    (hclass : ∀ old, m o = some old → sizeClass old = c) (hne : c' ≠ c) :
    encodedIn c' m o = none := by
  have h : (encodedIn c' m o).isSome = (decide (c' = c) && (m o).isSome) :=
    encodedIn_of_class hclass
  simpa [hne] using h

theorem filter_large_eq_none_of_class {c : SizeClass} {o : OutPoint}
    (hclass : ∀ old, m o = some old → sizeClass old = c) (hne : c ≠ .large) :
    (m o).filter (fun value => sizeClass value = .large) = none := by
  rcases hv : m o with _ | old
  · rfl
  · simp [Option.filter, hclass old hv, hne]

theorem Represents.valid_update (hr : Represents u m) {o : OutPoint} (ho : o.Valid)
    (new : Option (TxOut × Height)) (hnew : ∀ value, new = some value → ValueValid value) :
    ∀ o' value, Function.update m o new o' = some value → o'.Valid ∧ ValueValid value := by
  intro o' value h
  by_cases ho' : o' = o
  · subst ho'
    rw [Function.update_self] at h
    exact ⟨ho, hnew value h⟩
  · rw [Function.update_of_ne ho'] at h
    exact hr.valid o' value h

/-- **`insert` writes the map** when the key keeps its size class. -/
theorem Represents.insert (hr : Represents u m) {o : OutPoint} (ho : o.Valid)
    {value : TxOut × Height} (hv : ValueValid value)
    (hclass : ∀ old, m o = some old → sizeClass old = sizeClass value) :
    ∃ u', u.insert o value = .ok ((m o).isSome, u') ∧
      Represents u' (Function.update m o (some value)) := by
  have hvalid := hr.valid_update ho (some value) fun _ h => Option.some.inj h ▸ hv
  have hkey : o.toBytes.length ≤ utxoKeySize := by simp [utxoKeySize]
  have hnew : ∀ c, sizeClass value ≠ c → ∀ w, some value = some w → sizeClass w ≠ c :=
    fun _ hne w hw => Option.some.inj hw ▸ hne
  unfold Utxos.insert
  dsimp only
  by_cases h1 : (valueToBytes value).length ≤ utxoValueMaxSizeSmall
  · -- a small UTXO goes to `small_utxos`, and the two other maps keep none of the key
    have hc : sizeClass value = .small := by rw [sizeClass, if_pos h1]
    rw [hc] at hclass hnew
    rw [if_pos h1, StableMap.insert_of_le (hr.smallBounds.1 ▸ hkey) (hr.smallBounds.2 ▸ h1),
      hr.small.get o ho]
    refine ⟨{ u with smallUtxos := { u.smallUtxos with
      entries := u.smallUtxos.entries.insert o.toBytes (valueToBytes value) } }, ?_,
      hvalid, hr.smallBounds, hr.mediumBounds, hr.small.insert ho hc,
      hr.medium.frame (encodedIn_eq_none_of_class hclass (by decide)) (hnew _ (by decide)),
      hr.large.frame ((hr.large o).trans (filter_large_eq_none_of_class hclass (by decide)))
        (hnew _ (by decide))⟩
    simp [Rust.expectOk, encodedIn_of_class hclass]
  by_cases h2 : (valueToBytes value).length ≤ utxoValueMaxSizeMedium
  · have hc : sizeClass value = .medium := by rw [sizeClass, if_neg h1, if_pos h2]
    rw [hc] at hclass hnew
    rw [if_neg h1, if_pos h2,
      StableMap.insert_of_le (hr.mediumBounds.1 ▸ hkey) (hr.mediumBounds.2 ▸ h2),
      hr.medium.get o ho]
    refine ⟨{ u with mediumUtxos := { u.mediumUtxos with
      entries := u.mediumUtxos.entries.insert o.toBytes (valueToBytes value) } }, ?_,
      hvalid, hr.smallBounds, hr.mediumBounds,
      hr.small.frame (encodedIn_eq_none_of_class hclass (by decide)) (hnew _ (by decide)),
      hr.medium.insert ho hc,
      hr.large.frame ((hr.large o).trans (filter_large_eq_none_of_class hclass (by decide)))
        (hnew _ (by decide))⟩
    simp [Rust.expectOk, encodedIn_of_class hclass]
  · have hc : sizeClass value = .large := by rw [sizeClass, if_neg h1, if_neg h2]
    rw [hc] at hclass hnew
    rw [if_neg h1, if_neg h2, hr.large o]
    have hlarge : ((m o).filter fun value => sizeClass value = .large).isSome = (m o).isSome := by
      rcases hv : m o with _ | old
      · rfl
      · simp [Option.filter, hclass old hv]
    refine ⟨{ u with largeUtxos := u.largeUtxos.insert o value }, by rw [hlarge]; rfl, hvalid,
      hr.smallBounds, hr.mediumBounds,
      hr.small.frame (encodedIn_eq_none_of_class hclass (by decide)) (hnew _ (by decide)),
      hr.medium.frame (encodedIn_eq_none_of_class hclass (by decide)) (hnew _ (by decide)),
      hr.large.insert o hc⟩

/-- **`remove` takes the key out of the map**, and returns its UTXO. -/
theorem Represents.remove (hr : Represents u m) {o : OutPoint} (ho : o.Valid) :
    ∃ u', u.remove o = .ok (m o, u') ∧ Represents u' (Function.update m o none) := by
  have hvalid := hr.valid_update ho none fun _ h => nomatch h
  have hnone : ∀ c : SizeClass, ∀ w, (none : Option (TxOut × Height)) = some w →
      sizeClass w ≠ c := fun _ _ h => nomatch h
  unfold Utxos.remove
  dsimp only
  rw [hr.small.remove_eq ho, hr.medium.remove_eq ho, hr.large o]
  rcases hv : m o with _ | value
  · -- an absent key: the three maps are searched, and none changes but for the removal
    simp only [encodedIn_of_eq_none hv, Option.filter_none]
    exact ⟨_, rfl, hvalid, hr.smallBounds, hr.mediumBounds, hr.small.erase ho, hr.medium.erase ho,
      hr.large.erase o⟩
  · have hclass : ∀ old, m o = some old → sizeClass old = sizeClass value :=
      fun old h => by rw [hv] at h; rw [Option.some.inj h]
    have hdec := valueFromBytes_valueToBytes (hr.valid o value hv).2
    simp only [encodedIn_of_eq_some hv]
    cases hc : sizeClass value
    · rw [hc] at hclass
      simp only [if_true, hdec, Except.ok_bind]
      exact ⟨_, rfl, hvalid, hr.smallBounds, hr.mediumBounds, hr.small.erase ho,
        hr.medium.frame (encodedIn_eq_none_of_class hclass (by decide)) (hnone _),
        hr.large.frame ((hr.large o).trans (filter_large_eq_none_of_class hclass (by decide)))
          (hnone _)⟩
    · rw [hc] at hclass
      simp only [reduceCtorEq, if_false, if_true, hdec, Except.ok_bind]
      exact ⟨_, rfl, hvalid, hr.smallBounds, hr.mediumBounds, hr.small.erase ho,
        hr.medium.erase ho,
        hr.large.frame ((hr.large o).trans (filter_large_eq_none_of_class hclass (by decide)))
          (hnone _)⟩
    · rw [hc] at hclass
      simp only [reduceCtorEq, if_false, Option.filter, hc, decide_true, if_true]
      exact ⟨_, rfl, hvalid, hr.smallBounds, hr.mediumBounds, hr.small.erase ho,
        hr.medium.erase ho, hr.large.erase o⟩

end Utxos

/-! ### The iterator -/

open Utxos in
theorem mapM_decodeEntry : ∀ {l : List (List UInt8 × List UInt8)},
    (∀ e ∈ l, ∃ (o : OutPoint) (value : TxOut × Height), o.Valid ∧ ValueValid value ∧
      e = (o.toBytes, valueToBytes value)) →
    ∃ items, l.mapM decodeEntry = .ok items ∧
      l = items.map (fun p => (p.1.toBytes, valueToBytes p.2)) ∧
      ∀ p ∈ items, p.1.Valid ∧ ValueValid p.2
  | [], _ => ⟨[], rfl, rfl, fun _ h => nomatch h⟩
  | e :: l, h => by
    obtain ⟨o, value, ho, hv, rfl⟩ := h e List.mem_cons_self
    obtain ⟨items, hitems, hl, hvalid⟩ :=
      mapM_decodeEntry fun e' he' => h e' (List.mem_cons_of_mem _ he')
    refine ⟨(o, value) :: items, ?_, by rw [hl]; rfl, ?_⟩
    · rw [List.mapM_cons, hitems]
      simp [decodeEntry, OutPoint.fromBytes_toBytes ho, valueFromBytes_valueToBytes hv]
    · rintro p (_ | ⟨_, hp⟩)
      · exact ⟨ho, hv⟩
      · exact hvalid p hp

theorem StableRep.mem_entries {s : StableMap} {c : SizeClass} (h : StableRep s c m)
    {e : List UInt8 × List UInt8} (he : e ∈ s.entries.entries) :
    ∃ o value, m o = some value ∧ sizeClass value = c ∧ e = (o.toBytes, valueToBytes value) := by
  have hget : s.get e.1 = some e.2 := (SortedMap.get?_eq_some_iff _).mpr he
  obtain ⟨o, ho, hk⟩ := h.keys e.1 e.2 hget
  rw [hk, h.get o ho] at hget
  obtain ⟨value, hv, hc, he2⟩ := encodedIn_eq_some hget
  exact ⟨o, value, hv, hc, Prod.ext hk he2⟩

/-- The iterator over a stable map of a class yields each UTXO of the class once. -/
theorem StableRep.iter {s : StableMap} {c : SizeClass} (h : StableRep s c m)
    (hvalid : ∀ o value, m o = some value → o.Valid ∧ ValueValid value) :
    ∃ items, s.entries.entries.mapM Utxos.decodeEntry = .ok items ∧
      (∀ o value, (o, value) ∈ items ↔ m o = some value ∧ sizeClass value = c) ∧
      (items.map Prod.fst).Nodup ∧ items.length = s.len := by
  obtain ⟨items, hitems, hl, hitemsValid⟩ := mapM_decodeEntry fun e he => by
    obtain ⟨o, value, hv, -, rfl⟩ := h.mem_entries he
    exact ⟨o, value, (hvalid o value hv).1, (hvalid o value hv).2, rfl⟩
  refine ⟨items, hitems, fun o value => ⟨fun hmem => ?_, fun ⟨hv, hc⟩ => ?_⟩, ?_, ?_⟩
  · -- a decoded item is the UTXO its key holds
    have he : (o.toBytes, valueToBytes value) ∈ s.entries.entries :=
      hl ▸ List.mem_map_of_mem (f := fun p => (p.1.toBytes, valueToBytes p.2)) hmem
    obtain ⟨o', value', hv', hc', heq⟩ := h.mem_entries he
    obtain ⟨hko, hkv⟩ := Prod.mk.inj heq
    have ho : o.Valid ∧ ValueValid value := hitemsValid _ hmem
    rw [OutPoint.toBytes_injective ho.1 (hvalid o' value' hv').1 hko]
    have hdec := valueFromBytes_valueToBytes ho.2
    rw [hkv, valueFromBytes_valueToBytes (hvalid o' value' hv').2] at hdec
    rw [← Except.ok.inj hdec]
    exact ⟨hv', hc'⟩
  · -- a UTXO of the class is an entry, hence an item
    have hget : s.get o.toBytes = some (valueToBytes value) := by
      rw [h.get o (hvalid o value hv).1, encodedIn_of_eq_some hv, if_pos hc]
    have he := (SortedMap.get?_eq_some_iff _).mp hget
    rw [hl, List.mem_map] at he
    obtain ⟨p, hp, hpeq⟩ := he
    obtain ⟨hk, hval⟩ := Prod.mk.inj hpeq
    have hpValid := hitemsValid p hp
    have hpo := OutPoint.toBytes_injective hpValid.1 (hvalid o value hv).1 hk
    have hpv : p.2 = value := by
      have hdec := valueFromBytes_valueToBytes hpValid.2
      rw [hval, valueFromBytes_valueToBytes (hvalid o value hv).2] at hdec
      exact (Except.ok.inj hdec).symm
    rw [← hpo, ← hpv]
    exact hp
  · have hkeys := s.entries.nodup_keys
    rw [SortedMap.keys, hl, List.map_map] at hkeys
    exact List.Nodup.of_map OutPoint.toBytes (by simpa [Function.comp_def] using hkeys)
  · rw [StableMap.len, hl, List.length_map]

namespace Utxos

variable {u : Utxos}

/-- **The iterator yields each UTXO of the map once**, and `len` counts them. -/
theorem Represents.iter (hr : Represents u m) :
    ∃ items, u.iter = .ok items ∧ (∀ o value, (o, value) ∈ items ↔ m o = some value) ∧
      (items.map Prod.fst).Nodup ∧ u.len = items.length := by
  obtain ⟨small, hsmall, hsmallMem, hsmallNodup, hsmallLen⟩ := hr.small.iter hr.valid
  obtain ⟨medium, hmedium, hmediumMem, hmediumNodup, hmediumLen⟩ := hr.medium.iter hr.valid
  have hlargeMem : ∀ o value, (o, value) ∈ u.largeUtxos.entries ↔
      m o = some value ∧ sizeClass value = .large := by
    intro o value
    rw [← SortedMap.get?_eq_some_iff, hr.large o, Option.filter_eq_some_iff]
    simp
  -- the class of a key's UTXO tells in which part of the items the key is
  have hclassOf : ∀ {items : List (OutPoint × (TxOut × Height))} {c : SizeClass},
      (∀ o value, (o, value) ∈ items ↔ m o = some value ∧ sizeClass value = c) →
      ∀ o ∈ items.map Prod.fst, ∃ value, m o = some value ∧ sizeClass value = c := by
    intro items c hmem o ho
    obtain ⟨⟨o', value⟩, hp, rfl⟩ := List.mem_map.mp ho
    exact ⟨value, (hmem o' value).mp hp⟩
  have hdisjoint : ∀ {items items' : List (OutPoint × (TxOut × Height))} {c c' : SizeClass},
      c ≠ c' → (∀ o value, (o, value) ∈ items ↔ m o = some value ∧ sizeClass value = c) →
      (∀ o value, (o, value) ∈ items' ↔ m o = some value ∧ sizeClass value = c') →
      ∀ o ∈ items.map Prod.fst, ∀ o' ∈ items'.map Prod.fst, o ≠ o' := by
    rintro items items' c c' hne hmem hmem' o ho o' ho' rfl
    obtain ⟨value, hv, hc⟩ := hclassOf hmem o ho
    obtain ⟨value', hv', hc'⟩ := hclassOf hmem' o ho'
    rw [hv] at hv'
    exact hne (hc ▸ hc' ▸ congrArg sizeClass (Option.some.inj hv'))
  refine ⟨small ++ medium ++ u.largeUtxos.entries, by simp [Utxos.iter, hsmall, hmedium],
    fun o value => ?_, ?_, ?_⟩
  · simp only [List.mem_append, hsmallMem, hmediumMem, hlargeMem]
    constructor
    · rintro ((⟨hv, -⟩ | ⟨hv, -⟩) | ⟨hv, -⟩) <;> exact hv
    · intro hv
      cases sizeClass value
      · exact Or.inl (Or.inl ⟨hv, rfl⟩)
      · exact Or.inl (Or.inr ⟨hv, rfl⟩)
      · exact Or.inr ⟨hv, rfl⟩
  · have hlargeNodup : (u.largeUtxos.entries.map Prod.fst).Nodup := u.largeUtxos.nodup_keys
    simp only [List.map_append, List.nodup_append]
    refine ⟨⟨hsmallNodup, hmediumNodup, hdisjoint (by decide) hsmallMem hmediumMem⟩, hlargeNodup,
      fun o ho o' ho' => ?_⟩
    rcases List.mem_append.mp ho with ho | ho
    · exact hdisjoint (by decide) hsmallMem hlargeMem o ho o' ho'
    · exact hdisjoint (by decide) hmediumMem hlargeMem o ho o' ho'
  · simp only [Utxos.len, List.length_append, hsmallLen, hmediumLen]
    omega

/-! ### Runs -/

/-- A call that changes the UTXOs. -/
inductive Op where
  | insert (key : OutPoint) (value : TxOut × Height)
  | remove (key : OutPoint)

/-- A call on the UTXOs, its result dropped. -/
def Op.run (u : Utxos) : Op → Except String Utxos
  | .insert key value => Prod.snd <$> u.insert key value
  | .remove key => Prod.snd <$> u.remove key

/-- What a call does to the finite map. -/
def Op.apply (m : UtxoMap) : Op → UtxoMap
  | .insert key value => Function.update m key (some value)
  | .remove key => Function.update m key none

/-- A run of valid calls in which no insert moves a present key to another size class. -/
def KeepsClasses : UtxoMap → List Op → Prop
  | _, [] => True
  | m, .insert key value :: ops => key.Valid ∧ ValueValid value ∧
      (∀ old, m key = some old → sizeClass old = sizeClass value) ∧
      KeepsClasses (Function.update m key (some value)) ops
  | m, .remove key :: ops => key.Valid ∧ KeepsClasses (Function.update m key none) ops

/-- **Over a run that keeps the size classes, the UTXOs hold the finite map the calls make.** -/
theorem Represents.run : ∀ {ops : List Op} {u : Utxos} {m : UtxoMap}, Represents u m →
    KeepsClasses m ops → ∃ u', ops.foldlM Op.run u = .ok u' ∧ Represents u' (ops.foldl Op.apply m)
  | [], u, _, hr, _ => ⟨u, rfl, hr⟩
  | .insert key value :: ops, _, _, hr, ⟨hk, hv, hclass, hops⟩ => by
    obtain ⟨u₁, hins, hr₁⟩ := hr.insert hk hv hclass
    obtain ⟨u', hrun, hr'⟩ := hr₁.run hops
    refine ⟨u', ?_, hr'⟩
    rw [List.foldlM_cons, show Op.run _ (.insert key value) = .ok u₁ by simp [Op.run, hins]]
    exact hrun
  | .remove key :: ops, _, _, hr, ⟨hk, hops⟩ => by
    obtain ⟨u₁, hrem, hr₁⟩ := hr.remove hk
    obtain ⟨u', hrun, hr'⟩ := hr₁.run hops
    refine ⟨u', ?_, hr'⟩
    rw [List.foldlM_cons, show Op.run _ (.remove key) = .ok u₁ by simp [Op.run, hrem]]
    exact hrun

/-! ## A key moved to another class -/

/-- An outpoint. -/
def movedOutPoint : OutPoint := ⟨0, 0⟩

/-- A small UTXO, with an empty script. -/
def smallUtxo : TxOut × Height := (⟨1, []⟩, 0)

/-- A medium UTXO: a script of 30 bytes. -/
def mediumUtxo : TxOut × Height := (⟨1, List.replicate 30 0⟩, 0)

/-- The UTXOs after the small UTXO is inserted at the outpoint, and then the medium one. -/
def movedUtxos : Except String (Bool × Utxos) := do
  let (_, u) ← default.insert movedOutPoint smallUtxo
  u.insert movedOutPoint mediumUtxo

/-- **A key inserted again into another size class keeps its old UTXO**: `get` and `remove` find
the small one first and the iterator yields the key twice; the finite map holds the medium one. -/
theorem reinsert_in_other_class_keeps_old :
    sizeClass smallUtxo = .small ∧ sizeClass mediumUtxo = .medium ∧
    movedUtxos.map Prod.fst = .ok false ∧
    (movedUtxos >>= fun r => r.2.get movedOutPoint) = .ok (some smallUtxo) ∧
    (movedUtxos >>= fun r => Prod.fst <$> r.2.remove movedOutPoint) = .ok (some smallUtxo) ∧
    (movedUtxos >>= fun r => (fun x => x.2.containsKey movedOutPoint) <$> r.2.remove movedOutPoint) =
      .ok true ∧
    (movedUtxos >>= fun r => List.map Prod.fst <$> r.2.iter) = .ok [movedOutPoint, movedOutPoint] ∧
    movedUtxos.map (fun r => r.2.len) = .ok 2 ∧
    [Op.insert movedOutPoint smallUtxo, .insert movedOutPoint mediumUtxo].foldl Op.apply
      (fun _ => none) movedOutPoint = some mediumUtxo := by
  refine ⟨by decide, by decide, by decide, by decide, by decide, by decide, by decide, by decide, ?_⟩
  simp [Op.apply]

end Utxos

end Sized

end IC.Bitcoin
