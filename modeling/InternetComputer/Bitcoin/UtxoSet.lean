import InternetComputer.Lib.Rust
import Mathlib

/-!
# The UTXO set of the bitcoin canister

`UtxoSet` of `state.rs` and `insert_tx` of `utxoset.rs`: a transaction's inputs remove the
outputs they spend, and its outputs that are not provably unspendable are inserted, beside the
index `address_to_outpoints`. What the canister calls of the `bitcoin` crate is left
uninterpreted (`Crate`).

* `IndexExact`, `Spendable`, `Consistent.insertTx` and over whole runs `Ingested.consistent`;
* **`insertTx_panics_on_valid_sequence`**: removal asserts an index key that insertion adds only
  when the address string parses back, so spending such an output panics.
-/

namespace IC.Bitcoin

/-- `bitcoin::Script`: its bytes. -/
abbrev Script := List UInt8

/-- `bitcoin::Txid`, the double SHA-256 of a transaction, as a number. -/
abbrev Txid := ℕ

/-- The height of a block, a `u32`. -/
abbrev Height := ℕ

/-- `bitcoin::OutPoint`. -/
structure OutPoint where
  txid : Txid
  vout : ℕ
  deriving DecidableEq, Repr

namespace OutPoint

/-- `OutPoint::null`: the all-zero txid and the vout `u32::MAX`. -/
def null : OutPoint := ⟨0, 0xFFFFFFFF⟩

/-- `OutPoint::is_null`. -/
def isNull (o : OutPoint) : Bool := o == null

end OutPoint

/-- `bitcoin::TxIn`, with the field the canister reads. -/
structure TxIn where
  previousOutput : OutPoint
  deriving DecidableEq, Repr

/-- `bitcoin::TxOut`. -/
structure TxOut where
  value : ℕ
  scriptPubkey : Script
  deriving DecidableEq, Repr

/-- `bitcoin::Transaction`, with the fields the canister reads. -/
structure Transaction where
  input : List TxIn
  output : List TxOut
  deriving DecidableEq, Repr

/-- `Transaction::is_coin_base`: one input, which spends the null outpoint. -/
def Transaction.isCoinBase (tx : Transaction) : Bool :=
  match tx.input with
  | [input] => input.previousOutput.isNull
  | _ => false

/-- What the canister calls of the `bitcoin` crate, uninterpreted. -/
structure Crate (Address : Type) where
  fromScript : Script → Option Address
  toString : Address → String
  fromStr : String → Bool
  isProvablyUnspendable : Script → Bool
  txid : Transaction → Txid

/-- `DUPLICATE_TX_IDS`: the txids of the two transactions that occur twice (BIP 30). -/
def duplicateTxIds : List Txid :=
  [0xd5d27987d2a3dfc724e359870c6644b40e497bdc0589a033220fe15429d88599,
    0xe3bf3d07d4b0375638d5f1db5255fe07ba2c4cb067cd81b84ee974b6585fb468]

/-- `OUTPOINT_SIZE`: a txid of 32 bytes and a vout of 4. -/
def outpointSize : ℕ := 32 + 4

/-- `MAX_ADDRESS_SIZE`: a bech32 string has at most 90 characters. -/
def maxAddressSize : ℕ := 90

/-- `MAX_ADDRESS_OUTPOINT_SIZE`, the key size `address_to_outpoints` is created with. -/
def maxAddressOutpointSize : ℕ := maxAddressSize + outpointSize

/-- A key of `address_to_outpoints`, `(address, height, outpoint)`. -/
abbrev IndexKey := String × Height × OutPoint

/-- The length of the bytes of an index key; an address over 255 bytes panics. -/
def keyLength (key : IndexKey) : Except String ℕ :=
  if key.1.utf8ByteSize ≤ 255 then .ok (1 + key.1.utf8ByteSize + 4 + outpointSize)
  else .error "Address length must be <= 255: TryFromIntError(())"

/-- `StableBTreeMap::insert` into `address_to_outpoints`, unwrapped by `expect`. -/
def insertIndexKey (index : Finset IndexKey) (key : IndexKey) :
    Except String (Finset IndexKey) := do
  let len ← keyLength key
  if len > maxAddressOutpointSize then .error "insertion must succeed: KeyTooLarge"
  else pure (insert key index)

/-- `UtxoSet`; the three maps of `Utxos` are one map here, as their inserts cannot fail. -/
structure UtxoSet where
  utxos : AList fun _ : OutPoint => TxOut × Height
  addressToOutpoints : Finset IndexKey

/-- `UtxoSet::new`. -/
def UtxoSet.new : UtxoSet := ⟨∅, ∅⟩

section Ingest

variable {Address : Type} (C : Crate Address)

/-- The first half of `insert_utxo`: the outpoint is indexed when its address parses. -/
def indexOutput (index : Finset IndexKey) (outpoint : OutPoint) (output : TxOut)
    (height : Height) : Except String (Finset IndexKey) :=
  match C.fromScript output.scriptPubkey with
  | some address =>
    let addressStr := C.toString address
    if C.fromStr addressStr then insertIndexKey index (addressStr, height, outpoint)
    else pure index
  | none => pure index

/-- `insert_utxo`; only the duplicate transactions may overwrite an outpoint. -/
def insertUtxo (u : UtxoSet) (outpoint : OutPoint) (output : TxOut) (height : Height) :
    Except String UtxoSet := do
  let index ← indexOutput C u.addressToOutpoints outpoint output height
  let outpointAlreadyExists := (u.utxos.lookup outpoint).isSome
  let u : UtxoSet := ⟨u.utxos.insert outpoint (output, height), index⟩
  if outpointAlreadyExists && !(duplicateTxIds.contains outpoint.txid) then
    .error "Cannot insert outpoint because it was already inserted."
  else pure u

/-- One turn of the loop of `remove_spent_txs`: the spent output and its index key must exist. -/
def removeSpentInput (u : UtxoSet) (input : TxIn) : Except String UtxoSet :=
  match u.utxos.lookup input.previousOutput with
  | some (txout, height) =>
    let utxos := u.utxos.erase input.previousOutput
    match C.fromScript txout.scriptPubkey with
    | some address => do
      let key : IndexKey := (C.toString address, height, input.previousOutput)
      let _ ← keyLength key
      let found := decide (key ∈ u.addressToOutpoints)
      if found then pure ⟨utxos, u.addressToOutpoints.erase key⟩
      else .error "Outpoint not found in the index."
    | none => pure { u with utxos }
  | none => .error "Outpoint not found."

/-- `remove_spent_txs`: a coinbase spends nothing. -/
def removeSpentTxs (u : UtxoSet) (tx : Transaction) : Except String UtxoSet :=
  if tx.isCoinBase then pure u else tx.input.foldlM (removeSpentInput C) u

/-- `insert_unspent_txs`: every output that is not provably unspendable. -/
def insertUnspentTxs (u : UtxoSet) (tx : Transaction) (height : Height) :
    Except String UtxoSet :=
  tx.output.zipIdx.foldlM (fun u (output, vout) =>
    if !C.isProvablyUnspendable output.scriptPubkey then
      insertUtxo C u ⟨C.txid tx, vout⟩ output height
    else pure u) u

/-- `insert_tx`. -/
def insertTx (u : UtxoSet) (tx : Transaction) (height : Height) : Except String UtxoSet := do
  let u ← removeSpentTxs C u tx
  insertUnspentTxs C u tx height

/-- The sets `UtxoSet::new` and `insert_tx` reach without a panic. -/
inductive Ingested : UtxoSet → Prop
  | new : Ingested UtxoSet.new
  | insertTx {u u' : UtxoSet} (tx : Transaction) (height : Height) (hu : Ingested u)
      (hdup : C.txid tx ∉ duplicateTxIds) (h : insertTx C u tx height = .ok u') : Ingested u'

end Ingest

/-! ## The index stays exact -/

section Invariant

variable {Address : Type} {C : Crate Address} {u u' : UtxoSet}

/-- The index of `u` holds `(a, h, op)` exactly for an unspent `op` whose address `a` parses. -/
def IndexExact (C : Crate Address) (u : UtxoSet) : Prop :=
  ∀ key : IndexKey, key ∈ u.addressToOutpoints ↔
    ∃ txout address, u.utxos.lookup key.2.2 = some (txout, key.2.1) ∧
      C.fromScript txout.scriptPubkey = some address ∧ C.toString address = key.1 ∧
      C.fromStr key.1 = true

/-- No provably unspendable output is in `u`. -/
def Spendable (C : Crate Address) (u : UtxoSet) : Prop :=
  ∀ op txout height, u.utxos.lookup op = some (txout, height) →
    C.isProvablyUnspendable txout.scriptPubkey = false

theorem insertIndexKey_eq_ok {index index' : Finset IndexKey} {key : IndexKey}
    (h : insertIndexKey index key = .ok index') : index' = insert key index := by
  unfold insertIndexKey at h
  obtain ⟨len, -, h⟩ := Except.bind_eq_ok.mp h
  split_ifs at h
  exact (Except.pure_eq_ok.mp h).symm

theorem IndexExact.not_mem_of_lookup (hu : IndexExact C u) {op : OutPoint}
    (hop : u.utxos.lookup op = none) {key : IndexKey} (hkey : key.2.2 = op) :
    key ∉ u.addressToOutpoints := by
  rw [hu key, hkey, hop]
  simp

theorem IndexExact.eq_of_mem (hu : IndexExact C u) {op : OutPoint} {txout : TxOut}
    {height : Height} {address : Address} (hop : u.utxos.lookup op = some (txout, height))
    (haddr : C.fromScript txout.scriptPubkey = some address) {key : IndexKey}
    (hmem : key ∈ u.addressToOutpoints) (hkey : key.2.2 = op) :
    key = (C.toString address, height, op) := by
  obtain ⟨txout', address', hlook, haddr', hstr, -⟩ := (hu key).mp hmem
  rw [hkey, hop, Option.some.injEq, Prod.mk.injEq] at hlook
  obtain ⟨rfl, hheight⟩ := hlook
  rw [haddr, Option.some.injEq] at haddr'
  subst haddr'
  obtain ⟨a, h, o⟩ := key
  simp only at hstr hheight hkey
  rw [hstr, hheight, hkey]

/-- **`insert_utxo` keeps the index exact**: an outpoint not of a duplicate transaction is new,
and the index gains its key exactly when its address string parses. -/
theorem IndexExact.insertUtxo (hu : IndexExact C u) {outpoint : OutPoint} {output : TxOut}
    {height : Height} (hdup : outpoint.txid ∉ duplicateTxIds)
    (h : insertUtxo C u outpoint output height = .ok u') : IndexExact C u' := by
  unfold IC.Bitcoin.insertUtxo at h
  obtain ⟨index, hindex, h⟩ := Except.bind_eq_ok.mp h
  dsimp only at h
  split_ifs at h with hexists
  obtain rfl := (Except.pure_eq_ok.mp h).symm
  have hfresh : u.utxos.lookup outpoint = none := by
    simpa [List.contains_iff_mem, hdup] using hexists
  -- the index gains at most the key of the new outpoint
  have hidx : ∀ key, key ∈ index ↔ key ∈ u.addressToOutpoints ∨
      ∃ address, C.fromScript output.scriptPubkey = some address ∧ C.toString address = key.1 ∧
        C.fromStr key.1 = true ∧ key.2 = (height, outpoint) := by
    intro key
    unfold indexOutput at hindex
    split at hindex
    · rename_i address haddr
      dsimp only at hindex
      split_ifs at hindex with hstr
      · rw [insertIndexKey_eq_ok hindex, Finset.mem_insert]
        constructor
        · rintro (rfl | hmem)
          · exact .inr ⟨address, haddr, rfl, hstr, rfl⟩
          · exact .inl hmem
        · rintro (hmem | ⟨address', haddr', hstr', -, hkey⟩)
          · exact .inr hmem
          · rw [haddr, Option.some.injEq] at haddr'
            subst haddr'
            exact .inl (Prod.ext hstr'.symm hkey)
      · obtain rfl := (Except.pure_eq_ok.mp hindex).symm
        refine ⟨.inl, ?_⟩
        rintro (hmem | ⟨address', haddr', hstr', hparse, -⟩)
        · exact hmem
        · rw [haddr, Option.some.injEq] at haddr'
          subst haddr'
          rw [← hstr'] at hparse
          exact absurd hparse hstr
    · rename_i haddr
      obtain rfl := (Except.pure_eq_ok.mp hindex).symm
      refine ⟨.inl, ?_⟩
      rintro (hmem | ⟨address', haddr', -⟩)
      · exact hmem
      · rw [haddr] at haddr'
        exact absurd haddr' (by simp)
  intro key
  show key ∈ index ↔ _
  rw [hidx key]
  by_cases hkey : key.2.2 = outpoint
  · -- the new outpoint: its key is in the index exactly when the address parses
    have hnot := hu.not_mem_of_lookup hfresh hkey
    rw [hkey, AList.lookup_insert]
    constructor
    · rintro (hmem | ⟨address, haddr, hstr, hparse, hk⟩)
      · exact absurd hmem hnot
      · rw [hk]
        exact ⟨output, address, rfl, haddr, hstr, hparse⟩
    · rintro ⟨txout, address, hlook, haddr, hstr, hparse⟩
      rw [Option.some.injEq, Prod.mk.injEq] at hlook
      obtain ⟨rfl, hheight⟩ := hlook
      exact .inr ⟨address, haddr, hstr, hparse, Prod.ext hheight.symm hkey⟩
  · rw [AList.lookup_insert_ne hkey, ← hu key]
    constructor
    · rintro (hmem | ⟨-, -, -, -, hk⟩)
      · exact hmem
      · exact absurd (congrArg Prod.snd hk) hkey
    · exact .inl

/-- **Spending an input keeps the index exact**: the spent outpoint leaves the set, and its key,
the one its output names, leaves the index. -/
theorem IndexExact.removeSpentInput (hu : IndexExact C u) {input : TxIn}
    (h : removeSpentInput C u input = .ok u') : IndexExact C u' := by
  unfold IC.Bitcoin.removeSpentInput at h
  split at h
  · rename_i txout height hop
    split at h
    · rename_i address haddr
      obtain ⟨-, -, h⟩ := Except.bind_eq_ok.mp h
      dsimp only at h
      split_ifs at h with hfound
      obtain rfl := (Except.pure_eq_ok.mp h).symm
      intro key
      show key ∈ u.addressToOutpoints.erase _ ↔ _
      rw [Finset.mem_erase]
      by_cases hkey : key.2.2 = input.previousOutput
      · rw [hkey, AList.lookup_erase]
        simp only [reduceCtorEq, false_and, exists_false, iff_false, not_and]
        exact fun hne hmem => hne (hu.eq_of_mem hop haddr hmem hkey)
      · rw [AList.lookup_erase_ne hkey, ← hu key]
        exact ⟨And.right, fun hmem => ⟨fun heq => hkey (heq ▸ rfl), hmem⟩⟩
    · rename_i haddr
      obtain rfl := (Except.pure_eq_ok.mp h).symm
      intro key
      show key ∈ u.addressToOutpoints ↔ _
      by_cases hkey : key.2.2 = input.previousOutput
      · rw [hkey, AList.lookup_erase]
        simp only [reduceCtorEq, false_and, exists_false, iff_false]
        intro hmem
        obtain ⟨txout', address, hlook, haddr', -⟩ := (hu key).mp hmem
        rw [hkey, hop, Option.some.injEq, Prod.mk.injEq] at hlook
        rw [← hlook.1, haddr] at haddr'
        exact absurd haddr' (by simp)
      · rw [AList.lookup_erase_ne hkey]
        exact hu key
  · exact absurd h (by simp)

theorem removeSpentInput_utxos {input : TxIn} (h : removeSpentInput C u input = .ok u') :
    u'.utxos = u.utxos.erase input.previousOutput := by
  unfold IC.Bitcoin.removeSpentInput at h
  split at h
  · split at h
    · obtain ⟨-, -, h⟩ := Except.bind_eq_ok.mp h
      dsimp only at h
      split_ifs at h
      exact (Except.pure_eq_ok.mp h).symm ▸ rfl
    · exact (Except.pure_eq_ok.mp h).symm ▸ rfl
  · exact absurd h (by simp)

theorem Spendable.insertUtxo (hs : Spendable C u) {outpoint : OutPoint} {output : TxOut}
    {height : Height} (hout : C.isProvablyUnspendable output.scriptPubkey = false)
    (h : insertUtxo C u outpoint output height = .ok u') : Spendable C u' := by
  unfold IC.Bitcoin.insertUtxo at h
  obtain ⟨index, -, h⟩ := Except.bind_eq_ok.mp h
  dsimp only at h
  split_ifs at h
  obtain rfl := (Except.pure_eq_ok.mp h).symm
  intro op txout height' hop
  by_cases hk : op = outpoint
  · subst hk
    rw [AList.lookup_insert, Option.some.injEq, Prod.mk.injEq] at hop
    rw [← hop.1]
    exact hout
  · rw [AList.lookup_insert_ne hk] at hop
    exact hs op txout height' hop

theorem Spendable.removeSpentInput (hs : Spendable C u) {input : TxIn}
    (h : removeSpentInput C u input = .ok u') : Spendable C u' := by
  intro op txout height hop
  rw [removeSpentInput_utxos h] at hop
  by_cases hk : op = input.previousOutput
  · rw [hk, AList.lookup_erase] at hop
    exact absurd hop (by simp)
  · rw [AList.lookup_erase_ne hk] at hop
    exact hs op txout height hop

/-- The invariant of the set: an exact index, and no provably unspendable output. -/
structure Consistent (C : Crate Address) (u : UtxoSet) : Prop where
  index : IndexExact C u
  spendable : Spendable C u

theorem consistent_new : Consistent C UtxoSet.new where
  index key := by simp [UtxoSet.new]
  spendable op txout height hop := by simp [UtxoSet.new] at hop

theorem Consistent.removeSpentTxs (hc : Consistent C u) {tx : Transaction}
    (h : removeSpentTxs C u tx = .ok u') : Consistent C u' := by
  unfold IC.Bitcoin.removeSpentTxs at h
  split_ifs at h
  · exact (Except.pure_eq_ok.mp h) ▸ hc
  · refine Except.foldlM_invariant tx.input (fun u _ _ u' hu hstep => ?_) hc h
    exact ⟨hu.index.removeSpentInput hstep, hu.spendable.removeSpentInput hstep⟩

theorem Consistent.insertUnspentTxs (hc : Consistent C u) {tx : Transaction} {height : Height}
    (hdup : C.txid tx ∉ duplicateTxIds) (h : insertUnspentTxs C u tx height = .ok u') :
    Consistent C u' := by
  unfold IC.Bitcoin.insertUnspentTxs at h
  refine Except.foldlM_invariant tx.output.zipIdx (fun u x _ u' hu hstep => ?_) hc h
  obtain ⟨output, vout⟩ := x
  dsimp only at hstep
  split_ifs at hstep with hout
  · rw [Bool.not_eq_true'] at hout
    exact ⟨hu.index.insertUtxo hdup hstep, hu.spendable.insertUtxo hout hstep⟩
  · exact (Except.pure_eq_ok.mp hstep) ▸ hu

theorem Consistent.insertTx (hc : Consistent C u) {tx : Transaction} {height : Height}
    (hdup : C.txid tx ∉ duplicateTxIds) (h : insertTx C u tx height = .ok u') :
    Consistent C u' := by
  unfold IC.Bitcoin.insertTx at h
  obtain ⟨u₁, hremove, hinsert⟩ := Except.bind_eq_ok.mp h
  exact (hc.removeSpentTxs hremove).insertUnspentTxs hdup hinsert

/-- **The run lemma**: every set reached by ingesting transactions keeps the invariant. -/
theorem Ingested.consistent (hu : Ingested C u) : Consistent C u := by
  induction hu with
  | new => exact consistent_new
  | insertTx tx height hu hdup h ih => exact ih.insertTx hdup h

end Invariant

/-! ## Spending an output whose address does not parse -/

/-- The script of `malformed_addresses_are_not_inserted_in_address_outpoints`. -/
def malformedScript : Script :=
  [0, 17, 97, 69, 142, 51, 3, 137, 205, 4, 55, 238, 159, 227, 100, 29, 112, 204, 24]

/-- A crate as that test shows: the malformed script's address does not parse. -/
def malformedCrate : Crate Script where
  fromScript s := if s = malformedScript then some s else none
  toString _ := "malformed"
  fromStr _ := false
  isProvablyUnspendable _ := false
  txid tx := if tx.isCoinBase then 1 else 2

/-- The coinbase of the test: 1000 satoshis to the malformed script. -/
def malformedCoinbase : Transaction := ⟨[⟨OutPoint.null⟩], [⟨1000, malformedScript⟩]⟩

/-- A transaction that spends the output of `malformedCoinbase`. -/
def spendMalformed : Transaction := ⟨[⟨⟨1, 0⟩⟩], [⟨1000, []⟩]⟩

/-- **`insert_tx` panics on transactions valid in sequence**: spending an output whose address
does not parse asserts an index key that was never added. -/
theorem insertTx_panics_on_valid_sequence :
    malformedCrate.txid malformedCoinbase ∉ duplicateTxIds ∧
      malformedCrate.txid spendMalformed ∉ duplicateTxIds ∧
      malformedCrate.txid malformedCoinbase ≠ malformedCrate.txid spendMalformed ∧
      (insertTx malformedCrate UtxoSet.new malformedCoinbase 1).isOk = true ∧
      (do
        let u ← insertTx malformedCrate UtxoSet.new malformedCoinbase 1
        insertTx malformedCrate u spendMalformed 2) = .error "Outpoint not found in the index." :=
  ⟨by decide, by decide, by decide, rfl, rfl⟩

end IC.Bitcoin
