import InternetComputer.Bitcoin.Apply
import Mathlib

/-!
# The UTXOs of one address above the stable set

`AddressUtxoSet` of `address_utxoset.rs`: the UTXOs added since the stable set and those of the
full set removed since, the two overlays of a lazy copy (`Overlay`). `into_vec` puts together the
UTXOs of the address from the index of the full set and the overlays.

* `AddressUtxoSet.Represents s utxos`, and `Represents.insertTx`: `insert_tx` does what `applyTx`
  says, with the outpoints `cutSpent` gives, as its loop returns at the first input that spends
  an added UTXO;
* **`Represents.intoVec`**: over an exact index, `into_vec` gives the address's UTXOs.
-/

namespace IC.Bitcoin

/-- `ic_btc_types::Utxo`: an outpoint, the value of its output and the height of its block. -/
structure Utxo where
  outpoint : OutPoint
  value : ℕ
  height : Height
  deriving DecidableEq, Repr

/-- A UTXO as `into_vec` returns it. -/
def toUtxo (x : OutPoint × TxOut × Height) : Utxo := ⟨x.1, x.2.1.value, x.2.2⟩

section Owned

variable {Address : Type} (C : Crate Address)

/-- Whether the script of an output has an address whose string is `address`. -/
def ownedBy (address : String) (txout : TxOut) : Bool :=
  match C.fromScript txout.scriptPubkey with
  | some a => C.toString a == address
  | none => false

/-- The UTXOs of `utxos` whose output has an address whose string is `address`. -/
def addressUtxos (address : String) (utxos : Utxos) : Finset (OutPoint × TxOut × Height) :=
  Overlay.entrySet (fun _ x => ownedBy C address x.1) utxos

variable {C}

theorem ownedBy_iff {address : String} {txout : TxOut} :
    ownedBy C address txout = true ↔
      ∃ a, C.fromScript txout.scriptPubkey = some a ∧ C.toString a = address := by
  unfold ownedBy
  split <;> simp_all

theorem mem_addressUtxos {address : String} {utxos : Utxos} {x : OutPoint × TxOut × Height} :
    x ∈ addressUtxos C address utxos ↔
      utxos.lookup x.1 = some x.2 ∧ ownedBy C address x.2.1 = true :=
  Overlay.mem_entrySet

end Owned

/-- `AddressUtxoSet`. -/
structure AddressUtxoSet where
  address : String
  fullUtxoSet : UtxoSet
  addedUtxos : Utxos
  removedUtxos : Utxos

namespace AddressUtxoSet

/-- `AddressUtxoSet::new`. -/
def new (address : String) (fullUtxoSet : UtxoSet) : AddressUtxoSet :=
  ⟨address, fullUtxoSet, ∅, ∅⟩

/-- The loop of `remove_spent_txs` over the inputs; one spending an added UTXO returns. -/
def removeSpentInputs (s : AddressUtxoSet) : List TxIn → Except String AddressUtxoSet
  | [] => pure s
  | input :: inputs =>
    if (s.addedUtxos.lookup input.previousOutput).isSome then
      pure { s with addedUtxos := s.addedUtxos.erase input.previousOutput }
    else do
      let utxo ← Rust.expect (s.fullUtxoSet.utxos.lookup input.previousOutput)
        "Cannot find outpoint: "
      let oldValue := s.removedUtxos.lookup input.previousOutput
      let s := { s with removedUtxos := s.removedUtxos.insert input.previousOutput utxo }
      Rust.assert oldValue.isNone "Cannot remove an output twice"
      removeSpentInputs s inputs

/-- `remove_spent_txs`: a coinbase spends nothing. -/
def removeSpentTxs (s : AddressUtxoSet) (tx : Transaction) : Except String AddressUtxoSet :=
  if tx.isCoinBase then pure s else s.removeSpentInputs tx.input

/-- The overlays of `s` over the UTXOs of its full set. -/
def toOverlay (s : AddressUtxoSet) : Overlay OutPoint (TxOut × Height) :=
  ⟨s.fullUtxoSet.utxos, s.addedUtxos, s.removedUtxos⟩

/-- The first part of `into_vec`: the address's UTXOs in the full set, by `range` over its bytes. -/
def fullUtxosOf (s : AddressUtxoSet) : Except String (Finset (OutPoint × TxOut × Height)) :=
  if s.address.utf8ByteSize ≤ 255 then
    let keys := s.fullUtxoSet.addressToOutpoints.filter (·.1 = s.address)
    if ∀ key ∈ keys, (s.fullUtxoSet.utxos.lookup key.2.2).isSome then
      pure (keys.biUnion fun key =>
        ((s.fullUtxoSet.utxos.lookup key.2.2).map fun utxo => (key.2.2, utxo)).toFinset)
    else .error "outpoint must exist"
  else .error "Address length must be <= 255: TryFromIntError(())"

section Crate

variable {Address : Type} (C : Crate Address)

/-- `insert_unspent_txs`: the outputs not provably unspendable join the added UTXOs. -/
def insertUnspentTxs (s : AddressUtxoSet) (tx : Transaction) (height : Height) :
    Except String AddressUtxoSet :=
  tx.output.zipIdx.foldlM (fun s (output, vout) =>
    if !C.isProvablyUnspendable output.scriptPubkey then do
      let outpoint : OutPoint := ⟨C.txid tx, vout⟩
      let oldValue := s.addedUtxos.lookup outpoint
      let s := { s with addedUtxos := s.addedUtxos.insert outpoint (output, height) }
      Rust.assert oldValue.isNone "Cannot insert same outpoint twice"
      pure s
    else pure s) s

/-- `AddressUtxoSet::insert_tx`. -/
def insertTx (s : AddressUtxoSet) (tx : Transaction) (height : Height) :
    Except String AddressUtxoSet := do
  let s ← s.removeSpentTxs tx
  s.insertUnspentTxs C tx height

/-- A turn of the second loop of `into_vec`: an added UTXO of the address joins the set. -/
def includeAdded (address : String) (set : Finset (OutPoint × TxOut × Height))
    (entry : Σ _ : OutPoint, TxOut × Height) : Except String (Finset (OutPoint × TxOut × Height)) :=
  if ownedBy C address entry.2.1 then do
    Rust.assert (decide ((entry.1, entry.2) ∉ set)) "Cannot overwrite existing outpoint"
    pure (insert (entry.1, entry.2) set)
  else pure set

/-- A turn of the third loop of `into_vec`: a removed UTXO of the address leaves the set. -/
def excludeRemoved (address : String) (set : Finset (OutPoint × TxOut × Height))
    (entry : Σ _ : OutPoint, TxOut × Height) : Except String (Finset (OutPoint × TxOut × Height)) :=
  if ownedBy C address entry.2.1 then do
    Rust.assert (decide ((entry.1, entry.2) ∈ set)) "Outpoint must exist."
    pure (set.erase (entry.1, entry.2))
  else pure set

/-- `into_vec`; the order of the vector, that of the set, is left out. -/
def intoVec (s : AddressUtxoSet) : Except String (Finset Utxo) := do
  let set ← s.fullUtxosOf
  let set ← s.addedUtxos.entries.foldlM (includeAdded C s.address) set
  let set ← s.removedUtxos.entries.foldlM (excludeRemoved C s.address) set
  pure (set.image toUtxo)

end Crate

/-- `s` stands for `utxos`: those of its overlays, which are apart from its full set. -/
structure Represents (s : AddressUtxoSet) (utxos : Utxos) : Prop where
  lookup : ∀ op, utxos.lookup op = s.toOverlay.lookup op
  apart : s.toOverlay.Apart

theorem represents_new (address : String) (u : UtxoSet) : (new address u).Represents u.utxos where
  lookup op := by simp [toOverlay, Overlay.lookup, new]
  apart := ⟨by simp [toOverlay, new], by simp [toOverlay, new]⟩

variable {s : AddressUtxoSet} {v : Utxos}

theorem Represents.lookup_isSome (hs : s.Represents v) {op : OutPoint} (hop : op ∈ v) :
    (s.toOverlay.lookup op).isSome := by
  rw [← hs.lookup op]
  exact AList.lookup_isSome.mpr hop

/-! ## `insert_tx` -/

theorem Represents.eraseAdded (hs : s.Represents v) {op : OutPoint} (hop : op ∈ s.addedUtxos) :
    Represents { s with addedUtxos := s.addedUtxos.erase op } (v.erase op) where
  lookup op' := by
    show _ = (s.toOverlay.eraseAdded op).lookup op'
    rw [Overlay.lookup_eraseAdded hs.apart hop]
    by_cases h : op' = op
    · rw [if_pos h, h, AList.lookup_erase]
    · rw [if_neg h, AList.lookup_erase_ne h, hs.lookup]
  apart := hs.apart.eraseAdded op

theorem Represents.insertRemoved (hs : s.Represents v) {op : OutPoint} {utxo : TxOut × Height}
    (hop : op ∉ s.addedUtxos) (hfull : s.fullUtxoSet.utxos.lookup op = some utxo) :
    Represents { s with removedUtxos := s.removedUtxos.insert op utxo } (v.erase op) where
  lookup op' := by
    show _ = (s.toOverlay.insertRemoved op utxo).lookup op'
    rw [Overlay.lookup_insertRemoved hop]
    by_cases h : op' = op
    · rw [if_pos h, h, AList.lookup_erase]
    · rw [if_neg h, AList.lookup_erase_ne h, hs.lookup]
  apart := hs.apart.insertRemoved hfull

theorem Represents.insertAdded (hs : s.Represents v) {op : OutPoint}
    (hop : op ∉ s.fullUtxoSet.utxos) (utxo : TxOut × Height) :
    Represents { s with addedUtxos := s.addedUtxos.insert op utxo } (v.insert op utxo) where
  lookup op' := by
    show _ = (s.toOverlay.insertAdded op utxo).lookup op'
    rw [Overlay.lookup_insertAdded]
    by_cases h : op' = op
    · rw [if_pos h, h, AList.lookup_insert]
    · rw [if_neg h, AList.lookup_insert_ne h, hs.lookup]
  apart := hs.apart.insertAdded hop utxo

/-- **The loop over the inputs** does not panic when the outpoints it takes out are present and
distinct; it takes out those up to the first that is not stable. -/
theorem Represents.removeSpentInputs :
    ∀ {inputs : List TxIn} {s : AddressUtxoSet} {v : Utxos}, s.Represents v →
      (∀ op ∈ spentUntilNew s.fullUtxoSet.utxos (inputs.map TxIn.previousOutput), op ∈ v) →
      (spentUntilNew s.fullUtxoSet.utxos (inputs.map TxIn.previousOutput)).Nodup →
      ∃ s', s.removeSpentInputs inputs = .ok s' ∧ s'.address = s.address ∧
        s'.fullUtxoSet = s.fullUtxoSet ∧
        s'.Represents ((spentUntilNew s.fullUtxoSet.utxos (inputs.map TxIn.previousOutput)).foldl
          (fun u op => u.erase op) v)
  | [], s, _, hs, _, _ => ⟨s, rfl, rfl, rfl, hs⟩
  | input :: inputs, s, v, hs, hpresent, hnodup => by
    have hop : input.previousOutput ∈ v := hpresent _ (by
      rw [List.map_cons, spentUntilNew]
      split_ifs <;> exact List.mem_cons_self)
    by_cases hadded : (s.addedUtxos.lookup input.previousOutput).isSome
    · -- the input spends an added UTXO: the loop returns
      have hmem := AList.lookup_isSome.mp hadded
      have hnew : input.previousOutput ∉ s.fullUtxoSet.utxos := hs.apart.added _ hmem
      have hcut : spentUntilNew s.fullUtxoSet.utxos ((input :: inputs).map TxIn.previousOutput) =
          [input.previousOutput] := by
        rw [List.map_cons, spentUntilNew, if_neg hnew]
      rw [hcut, List.foldl_cons, List.foldl_nil]
      refine ⟨{ s with addedUtxos := s.addedUtxos.erase input.previousOutput }, ?_, rfl, rfl,
        hs.eraseAdded hmem⟩
      rw [AddressUtxoSet.removeSpentInputs, if_pos hadded]
      rfl
    · -- the input spends a UTXO of the full set, which goes into the removed ones
      have hnot : input.previousOutput ∉ s.addedUtxos := fun h =>
        hadded (AList.lookup_isSome.mpr h)
      obtain ⟨utxo, hutxo⟩ := Option.isSome_iff_exists.mp (hs.lookup_isSome hop)
      obtain ⟨hnr, hfull⟩ := Overlay.lookup_eq_some_of_not_mem_added hnot hutxo
      have hnr' : s.removedUtxos.lookup input.previousOutput = none := AList.lookup_eq_none.mpr hnr
      have hcut : spentUntilNew s.fullUtxoSet.utxos ((input :: inputs).map TxIn.previousOutput) =
          input.previousOutput ::
            spentUntilNew s.fullUtxoSet.utxos (inputs.map TxIn.previousOutput) := by
        rw [List.map_cons, spentUntilNew,
          if_pos (AList.lookup_isSome.mp (by simp [toOverlay] at hfull; simp [hfull]))]
      rw [hcut] at hpresent hnodup ⊢
      obtain ⟨hhead, hrest⟩ := List.nodup_cons.mp hnodup
      obtain ⟨s', hrun, haddr, hfull', hs'⟩ := Represents.removeSpentInputs
        (hs.insertRemoved hnot hfull)
        (fun op h => (AList.mem_erase).mpr ⟨fun heq => hhead (heq ▸ h),
          hpresent op (List.mem_cons_of_mem _ h)⟩) hrest
      refine ⟨s', ?_, haddr, hfull', hs'⟩
      rw [AddressUtxoSet.removeSpentInputs, if_neg hadded]
      simp only [toOverlay] at hfull
      simp only [hfull, Rust.expect, Except.ok_bind, hnr', Option.isNone_none, Rust.assert,
        if_true]
      exact hrun

theorem Represents.removeSpentTxs (hs : s.Represents v) {tx : Transaction}
    (hpresent : ∀ op ∈ cutSpent s.fullUtxoSet.utxos tx, op ∈ v)
    (hnodup : (cutSpent s.fullUtxoSet.utxos tx).Nodup) :
    ∃ s', s.removeSpentTxs tx = .ok s' ∧ s'.address = s.address ∧
      s'.fullUtxoSet = s.fullUtxoSet ∧
      s'.Represents ((cutSpent s.fullUtxoSet.utxos tx).foldl (fun u op => u.erase op) v) := by
  unfold cutSpent at hpresent hnodup ⊢
  unfold AddressUtxoSet.removeSpentTxs
  by_cases hcb : tx.isCoinBase
  · simp only [hcb, if_true]
    exact ⟨s, rfl, rfl, rfl, hs⟩
  · simp only [hcb, Bool.false_eq_true, if_false] at hpresent hnodup ⊢
    exact hs.removeSpentInputs hpresent hnodup

section Crate

variable {Address : Type} {C : Crate Address}

theorem Represents.insertUnspentTxs (hs : s.Represents v) {tx : Transaction} (height : Height)
    (hfresh : ∀ op : OutPoint, op.txid = C.txid tx → op ∉ v ∧ op ∉ s.fullUtxoSet.utxos) :
    ∃ s', s.insertUnspentTxs C tx height = .ok s' ∧ s'.address = s.address ∧
      s'.fullUtxoSet = s.fullUtxoSet ∧ s'.Represents (createOutputs C v tx height) := by
  have hnodup : (tx.output.zipIdx.map Prod.snd).Nodup := by
    rw [List.zipIdx_map_snd]
    exact List.nodup_range'
  have hnew : ∀ p ∈ tx.output.zipIdx, (⟨C.txid tx, p.2⟩ : OutPoint) ∉ v :=
    fun p _ => (hfresh _ rfl).1
  have hfull : ∀ op : OutPoint, op.txid = C.txid tx → op ∉ s.fullUtxoSet.utxos :=
    fun op h => (hfresh op h).2
  clear hfresh
  unfold AddressUtxoSet.insertUnspentTxs IC.Bitcoin.createOutputs
  generalize tx.output.zipIdx = l at hnodup hnew ⊢
  -- the outputs still to come keep new outpoints, since their indexes differ
  induction l generalizing s v with
  | nil => exact ⟨s, rfl, rfl, rfl, hs⟩
  | cons p l ih =>
    obtain ⟨output, vout⟩ := p
    obtain ⟨hhead, hrest⟩ := List.nodup_cons.mp hnodup
    rw [List.foldlM_cons, List.foldl_cons]
    dsimp only
    split_ifs with hspendable
    · have hv : (⟨C.txid tx, vout⟩ : OutPoint) ∉ v := hnew (output, vout) List.mem_cons_self
      have hadded : s.addedUtxos.lookup ⟨C.txid tx, vout⟩ = none := by
        have h := hs.lookup ⟨C.txid tx, vout⟩
        rw [AList.lookup_eq_none.mpr hv] at h
        exact (Option.or_eq_none_iff.mp h.symm).1
      obtain ⟨s', hrun, haddr, hfull', hs'⟩ :=
        ih (hs.insertAdded (hfull ⟨C.txid tx, vout⟩ rfl) (output, height))
        hfull hrest fun p hp => by
          rw [AList.mem_insert, not_or]
          refine ⟨fun heq => hhead ?_, hnew p (List.mem_cons_of_mem _ hp)⟩
          rw [OutPoint.mk.injEq] at heq
          show vout ∈ _
          rw [← heq.2]
          exact List.mem_map_of_mem hp
      refine ⟨s', ?_, haddr, hfull', hs'⟩
      simp only [hadded, Option.isNone_none, Rust.assert, if_true, Except.ok_bind]
      exact hrun
    · exact ih hs hfull hrest fun p hp => hnew p (List.mem_cons_of_mem _ hp)

/-- **`AddressUtxoSet::insert_tx` refines `applyTx` with the outpoints `cutSpent` gives**: it does
not panic on a transaction whose outpoints taken out are present and distinct and whose txid is
new. -/
theorem Represents.insertTx (hs : s.Represents v) {tx : Transaction} {height : Height}
    (hpresent : ∀ op ∈ cutSpent s.fullUtxoSet.utxos tx, op ∈ v)
    (hnodup : (cutSpent s.fullUtxoSet.utxos tx).Nodup)
    (hfresh : ∀ op : OutPoint, op.txid = C.txid tx → op ∉ v ∧ op ∉ s.fullUtxoSet.utxos) :
    ∃ s', s.insertTx C tx height = .ok s' ∧ s'.address = s.address ∧
      s'.fullUtxoSet = s.fullUtxoSet ∧
      s'.Represents (applyTx C v (cutSpent s.fullUtxoSet.utxos tx) tx height) := by
  obtain ⟨s₁, hremove, haddr₁, hfull₁, hs₁⟩ := hs.removeSpentTxs hpresent hnodup
  have hfresh₁ : ∀ op : OutPoint, op.txid = C.txid tx →
      op ∉ (cutSpent s.fullUtxoSet.utxos tx).foldl (fun u op => u.erase op) v ∧
        op ∉ s₁.fullUtxoSet.utxos := by
    intro op hop
    refine ⟨fun hmem => (hfresh op hop).1 ?_, hfull₁ ▸ (hfresh op hop).2⟩
    rw [← AList.lookup_isSome, AList.lookup_foldl_erase] at hmem
    split_ifs at hmem
    · exact absurd hmem (by simp)
    · exact AList.lookup_isSome.mp hmem
  obtain ⟨s', hinsert, haddr, hfull, hs'⟩ := hs₁.insertUnspentTxs height hfresh₁
  refine ⟨s', ?_, haddr.trans haddr₁, hfull.trans hfull₁, hs'⟩
  rw [AddressUtxoSet.insertTx, hremove, Except.ok_bind]
  exact hinsert

/-! ## `into_vec` -/

theorem fullUtxosOf_eq (hindex : IndexExact C s.fullUtxoSet) (hstr : C.fromStr s.address = true)
    (hlen : s.address.utf8ByteSize ≤ 255) :
    s.fullUtxosOf = .ok (addressUtxos C s.address s.fullUtxoSet.utxos) := by
  have hsome : ∀ key ∈ s.fullUtxoSet.addressToOutpoints.filter (·.1 = s.address),
      (s.fullUtxoSet.utxos.lookup key.2.2).isSome := by
    intro key hkey
    obtain ⟨txout, address, hlook, -⟩ := (hindex key).mp (Finset.mem_filter.mp hkey).1
    rw [hlook]
    rfl
  rw [fullUtxosOf, if_pos hlen]
  dsimp only
  rw [if_pos hsome]
  show Except.ok _ = Except.ok _
  congr 1
  ext ⟨op, txout, height⟩
  simp only [Finset.mem_biUnion, Finset.mem_filter, Option.mem_toFinset, Option.mem_def,
    Option.map_eq_some_iff, mem_addressUtxos, ownedBy_iff]
  constructor
  · rintro ⟨key, ⟨hkey, hka⟩, utxo, hlook, heq⟩
    obtain ⟨txout', address, hlook', haddr, hstr', -⟩ := (hindex key).mp hkey
    rw [Prod.mk.injEq] at heq
    obtain ⟨rfl, rfl⟩ := heq
    rw [hlook, Option.some.injEq, Prod.mk.injEq] at hlook'
    obtain ⟨rfl, -⟩ := hlook'
    exact ⟨hlook, address, haddr, hstr'.trans hka⟩
  · rintro ⟨hlook, address, haddr, hstr'⟩
    exact ⟨(s.address, height, op), ⟨(hindex _).mpr ⟨txout, address, hlook, haddr, hstr', hstr⟩,
      rfl⟩, (txout, height), hlook, rfl⟩

theorem includeAdded_of_owned {address : String} {set : Finset (OutPoint × TxOut × Height)}
    {e : Σ _ : OutPoint, TxOut × Height} (howned : ownedBy C address e.2.1 = true)
    (hnot : (e.1, e.2) ∉ set) : includeAdded C address set e = .ok (insert (e.1, e.2) set) := by
  simp [includeAdded, howned, hnot, Rust.assert, pure, Except.pure]

theorem excludeRemoved_of_owned {address : String} {set : Finset (OutPoint × TxOut × Height)}
    {e : Σ _ : OutPoint, TxOut × Height} (howned : ownedBy C address e.2.1 = true)
    (hmem : (e.1, e.2) ∈ set) : excludeRemoved C address set e = .ok (set.erase (e.1, e.2)) := by
  simp [excludeRemoved, howned, hmem, Rust.assert, pure, Except.pure]

theorem foldlM_includeAdded (address : String) :
    ∀ (entries : List (Σ _ : OutPoint, TxOut × Height)) (set : Finset (OutPoint × TxOut × Height)),
      entries.NodupKeys → (∀ e ∈ entries, ∀ x ∈ set, x.1 ≠ e.1) →
      entries.foldlM (includeAdded C address) set =
        .ok (set ∪ Overlay.listEntrySet (fun _ x => ownedBy C address x.1) entries)
  | [], set, _, _ => by simp [pure, Except.pure]
  | e :: entries, set, hkeys, hnew => by
    obtain ⟨hhead, hrest⟩ := List.nodupKeys_cons.mp hkeys
    have hnew' := fun e' (he' : e' ∈ entries) => hnew e' (List.mem_cons_of_mem e he')
    rw [List.foldlM_cons, Overlay.listEntrySet_cons]
    by_cases howned : ownedBy C address e.2.1 = true
    · -- the entry goes in; its outpoint differs from those of the entries after it
      have hnot : (e.1, e.2) ∉ set := fun h => hnew e List.mem_cons_self _ h rfl
      rw [includeAdded_of_owned howned hnot, Except.ok_bind, if_pos howned,
        foldlM_includeAdded address entries _ hrest fun e' he' x hx => ?_, Finset.union_insert,
        Finset.insert_union]
      rcases Finset.mem_insert.mp hx with rfl | hx
      · exact fun heq => hhead ((show e.1 = e'.1 from heq) ▸ List.mem_keys_of_mem he')
      · exact hnew' e' he' x hx
    · rw [Bool.not_eq_true] at howned
      rw [show includeAdded C address set e = .ok set by simp [includeAdded, howned],
        Except.ok_bind, if_neg (by simp [howned]), foldlM_includeAdded address entries set hrest hnew']

theorem foldlM_excludeRemoved (address : String) :
    ∀ (entries : List (Σ _ : OutPoint, TxOut × Height)) (set : Finset (OutPoint × TxOut × Height)),
      entries.NodupKeys → (∀ e ∈ entries, ownedBy C address e.2.1 = true → (e.1, e.2) ∈ set) →
      entries.foldlM (excludeRemoved C address) set =
        .ok (set \ Overlay.listEntrySet (fun _ x => ownedBy C address x.1) entries)
  | [], set, _, _ => by simp [pure, Except.pure]
  | e :: entries, set, hkeys, hin => by
    obtain ⟨hhead, hrest⟩ := List.nodupKeys_cons.mp hkeys
    have hin' := fun e' (he' : e' ∈ entries) => hin e' (List.mem_cons_of_mem e he')
    rw [List.foldlM_cons, Overlay.listEntrySet_cons]
    by_cases howned : ownedBy C address e.2.1 = true
    · -- the entry leaves; the entries after it, of other outpoints, stay in the set
      rw [excludeRemoved_of_owned howned (hin e List.mem_cons_self howned), Except.ok_bind,
        if_pos howned, foldlM_excludeRemoved address entries _ hrest fun e' he' howned' => ?_,
        Finset.sdiff_insert, Finset.erase_sdiff_comm]
      refine Finset.mem_erase.mpr ⟨fun heq => hhead ?_, hin' e' he' howned'⟩
      rw [Prod.mk.injEq] at heq
      exact heq.1 ▸ List.mem_keys_of_mem he'
    · rw [Bool.not_eq_true] at howned
      rw [show excludeRemoved C address set e = .ok set by simp [excludeRemoved, howned],
        Except.ok_bind, if_neg (by simp [howned]), foldlM_excludeRemoved address entries set hrest
          fun e' he' => hin' e' he']

/-- **`into_vec` gives the UTXOs of the address** over an exact index, for an address that parses
and is at most 255 bytes long, without a panic. -/
theorem Represents.intoVec (hs : s.Represents v) (hindex : IndexExact C s.fullUtxoSet)
    (hstr : C.fromStr s.address = true) (hlen : s.address.utf8ByteSize ≤ 255) :
    s.intoVec C = .ok ((addressUtxos C s.address v).image toUtxo) := by
  -- an added outpoint is new to the full set, and a removed UTXO is one of it
  have hadd : s.addedUtxos.entries.foldlM (includeAdded C s.address)
      (addressUtxos C s.address s.fullUtxoSet.utxos) =
        .ok (addressUtxos C s.address s.fullUtxoSet.utxos ∪ addressUtxos C s.address s.addedUtxos) :=
    foldlM_includeAdded s.address _ _ s.addedUtxos.nodupKeys fun e he x hx heq => by
      have hnew := hs.apart.added e.1 (AList.mem_keys.mpr (List.mem_keys_of_mem he))
      have hlook := (mem_addressUtxos.mp hx).1
      rw [heq] at hlook
      exact hnew (AList.lookup_isSome.mp (by simp [toOverlay, hlook]))
  have hrem : s.removedUtxos.entries.foldlM (excludeRemoved C s.address)
      (addressUtxos C s.address s.fullUtxoSet.utxos ∪ addressUtxos C s.address s.addedUtxos) =
        .ok ((addressUtxos C s.address s.fullUtxoSet.utxos ∪
          addressUtxos C s.address s.addedUtxos) \ addressUtxos C s.address s.removedUtxos) :=
    foldlM_excludeRemoved s.address _ _ s.removedUtxos.nodupKeys fun e he howned => by
      have hlook : s.removedUtxos.lookup e.1 = some e.2 := AList.mem_lookup_iff.mpr he
      exact Finset.mem_union_left _ (mem_addressUtxos.mpr ⟨hs.apart.removed _ _ hlook, howned⟩)
  have hv : addressUtxos C s.address v = (addressUtxos C s.address s.fullUtxoSet.utxos ∪
      addressUtxos C s.address s.addedUtxos) \ addressUtxos C s.address s.removedUtxos :=
    hs.apart.entrySet_eq hs.lookup _
  rw [AddressUtxoSet.intoVec, fullUtxosOf_eq hindex hstr hlen, Except.ok_bind, hadd,
    Except.ok_bind, hrem, Except.ok_bind, hv]
  rfl

end Crate

end AddressUtxoSet

end IC.Bitcoin
