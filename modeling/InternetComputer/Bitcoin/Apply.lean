import InternetComputer.Bitcoin.BlockTree
import InternetComputer.Lib.Overlay

/-!
# What transactions do to the UTXOs

What `utxoset::insert_tx` means for the UTXOs alone: a transaction takes out the outpoints it
spends, and puts in its outputs that are not provably unspendable, at the height of its block
(`applyTx`). `insertTx_utxos`: `insert_tx` does that to the UTXOs of the set whenever it does not
panic.

Transactions valid in sequence (`SpendsPresent`, `FreshTxids`) are those the network admits:
each that is not a coinbase spends outpoints present before it, none twice, and every txid is
new.

`AddressUtxoSet::remove_spent_txs` returns from its loop at the first input that spends an output
of a block not yet stable, so that it takes out only the outpoints up to that one (`cutSpent`).
`SpendsPresent.cut`: transactions valid in sequence stay valid when each spends only those.
-/

namespace IC.Bitcoin

/-- The UTXOs: each unspent outpoint, with its output and the height of its block. -/
abbrev Utxos := AList fun _ : OutPoint => TxOut × Height

/-- The outpoints a transaction spends: none for a coinbase. -/
def Transaction.spent (tx : Transaction) : List OutPoint :=
  if tx.isCoinBase then [] else tx.input.map TxIn.previousOutput

/-- The transactions of consecutive blocks from `height` on, each with its block's height. -/
def blockTxs (blocks : List Block) (height : Height) : List (Transaction × Height) :=
  blocks.zipIdx.flatMap fun (block, i) => block.txdata.map (·, height + i)

section Apply

variable {Address : Type} (C : Crate Address)

/-- The outputs of `tx` not provably unspendable, put into the UTXOs at `height`. -/
def createOutputs (utxos : Utxos) (tx : Transaction) (height : Height) : Utxos :=
  tx.output.zipIdx.foldl (fun utxos (output, vout) =>
    if !C.isProvablyUnspendable output.scriptPubkey then
      utxos.insert ⟨C.txid tx, vout⟩ (output, height)
    else utxos) utxos

/-- What a transaction at `height` spending `spent` does to the UTXOs. -/
def applyTx (utxos : Utxos) (spent : List OutPoint) (tx : Transaction) (height : Height) :
    Utxos :=
  createOutputs C (spent.foldl (fun utxos op => utxos.erase op) utxos) tx height

/-- The UTXOs after transactions, each at its height, each spending what `spent` gives. -/
def applyTxs (spent : Transaction → List OutPoint) (utxos : Utxos)
    (txs : List (Transaction × Height)) : Utxos :=
  txs.foldl (fun utxos (tx, height) => applyTx C utxos (spent tx) tx height) utxos

/-- `utxoset::insert_tx` applied to each transaction in turn, at its height. -/
def insertTxs (u : UtxoSet) (txs : List (Transaction × Height)) : Except String UtxoSet :=
  txs.foldlM (fun u (tx, height) => insertTx C u tx height) u

/-- The transactions spend present outpoints, none twice, each spending what `spent` gives. -/
def SpendsPresent (spent : Transaction → List OutPoint) :
    Utxos → List (Transaction × Height) → Prop
  | _, [] => True
  | utxos, (tx, height) :: txs =>
    (∀ op ∈ spent tx, op ∈ utxos) ∧ (spent tx).Nodup ∧
      SpendsPresent spent (applyTx C utxos (spent tx) tx height) txs

instance SpendsPresent.decidable (spent : Transaction → List OutPoint) :
    ∀ (utxos : Utxos) (txs : List (Transaction × Height)),
      Decidable (SpendsPresent C spent utxos txs)
  | _, [] => isTrue trivial
  | utxos, (tx, height) :: txs =>
    have := SpendsPresent.decidable spent (applyTx C utxos (spent tx) tx height) txs
    inferInstanceAs (Decidable (_ ∧ _ ∧ _))

/-- Every txid is new: the transactions have distinct txids, none of them that of a UTXO. -/
def FreshTxids (utxos : Utxos) (txs : List (Transaction × Height)) : Prop :=
  (txs.map fun p => C.txid p.1).Nodup ∧ ∀ p ∈ txs, ∀ op ∈ utxos.keys, op.txid ≠ C.txid p.1

instance (utxos : Utxos) (txs : List (Transaction × Height)) :
    Decidable (FreshTxids C utxos txs) :=
  inferInstanceAs (Decidable (_ ∧ _))

end Apply

/-- The outpoints of a list up to and including the first that is not in `stable`. -/
def spentUntilNew (stable : Utxos) : List OutPoint → List OutPoint
  | [] => []
  | op :: ops => if op ∈ stable then op :: spentUntilNew stable ops else [op]

/-- The outpoints `remove_spent_txs` takes out for a transaction over the stable UTXOs. -/
def cutSpent (stable : Utxos) (tx : Transaction) : List OutPoint :=
  if tx.isCoinBase then [] else spentUntilNew stable (tx.input.map TxIn.previousOutput)

theorem spentUntilNew_isPrefix (stable : Utxos) : ∀ l : List OutPoint, spentUntilNew stable l <+: l
  | [] => List.prefix_refl []
  | op :: ops => by
    rw [spentUntilNew]
    split_ifs
    · exact (List.prefix_cons_inj op).mpr (spentUntilNew_isPrefix stable ops)
    · exact List.cons_prefix_cons.mpr ⟨rfl, List.nil_prefix⟩

theorem cutSpent_isPrefix (stable : Utxos) (tx : Transaction) : cutSpent stable tx <+: tx.spent := by
  unfold cutSpent Transaction.spent
  split_ifs
  · exact List.prefix_refl []
  · exact spentUntilNew_isPrefix stable _

section Lemmas

variable {Address : Type} (C : Crate Address)

/-- A map all of whose entries are entries of `v`. -/
def Included (r v : Utxos) : Prop := ∀ op x, r.lookup op = some x → v.lookup op = some x

variable {C}

theorem mem_createOutputs {u : Utxos} {tx : Transaction} {height : Height} {op : OutPoint}
    (h : op ∈ createOutputs C u tx height) : op ∈ u ∨ op.txid = C.txid tx := by
  unfold createOutputs at h
  generalize tx.output.zipIdx = l at h
  induction l generalizing u with
  | nil => exact .inl h
  | cons x l ih =>
    obtain ⟨output, vout⟩ := x
    rcases ih h with hu | htx
    · dsimp only at hu
      split_ifs at hu
      · rcases (AList.mem_insert u).mp hu with rfl | hu
        · exact .inr rfl
        · exact .inl hu
      · exact .inl hu
    · exact .inr htx

theorem Included.createOutputs {r v : Utxos} (hrv : Included r v) (tx : Transaction)
    (height : Height) : Included (createOutputs C r tx height) (createOutputs C v tx height) := by
  unfold IC.Bitcoin.createOutputs
  generalize tx.output.zipIdx = l
  induction l generalizing r v with
  | nil => exact hrv
  | cons x l ih =>
    refine ih ?_
    obtain ⟨output, vout⟩ := x
    dsimp only
    split_ifs
    · intro op y hop
      by_cases hk : op = ⟨C.txid tx, vout⟩
      · rw [hk, AList.lookup_insert] at hop ⊢
        exact hop
      · rw [AList.lookup_insert_ne hk] at hop ⊢
        exact hrv op y hop
    · exact hrv

theorem Included.applyTx {r v : Utxos} (hrv : Included r v) {spent spent' : List OutPoint}
    (hsub : ∀ op ∈ spent', op ∈ spent) (tx : Transaction) (height : Height) :
    Included (applyTx C r spent tx height) (applyTx C v spent' tx height) := by
  refine Included.createOutputs (fun op x hop => ?_) tx height
  rw [AList.lookup_foldl_erase] at hop ⊢
  split_ifs at hop with hmem
  rw [if_neg fun h => hmem (hsub op h)]
  exact hrv op x hop

theorem mem_applyTx {u : Utxos} {spent : List OutPoint} {tx : Transaction} {height : Height}
    {op : OutPoint} (h : op ∈ applyTx C u spent tx height) : op ∈ u ∨ op.txid = C.txid tx := by
  refine (mem_createOutputs h).imp_left fun hop => ?_
  rw [← AList.lookup_isSome, AList.lookup_foldl_erase] at hop
  split_ifs at hop
  · exact absurd hop (by simp)
  · exact AList.lookup_isSome.mp hop

theorem mem_applyTxs {spent : Transaction → List OutPoint} :
    ∀ {txs : List (Transaction × Height)} {u : Utxos} {op : OutPoint},
      op ∈ applyTxs C spent u txs → op ∈ u ∨ ∃ p ∈ txs, op.txid = C.txid p.1
  | [], _, _, h => .inl h
  | (tx, height) :: txs, u, op, h => by
    have h' : op ∈ applyTxs C spent (applyTx C u (spent tx) tx height) txs := h
    rcases mem_applyTxs h' with hop | ⟨p, hp, hop⟩
    · rcases mem_applyTx hop with hu | htx
      · exact .inl hu
      · exact .inr ⟨(tx, height), List.mem_cons_self, htx⟩
    · exact .inr ⟨p, List.mem_cons_of_mem _ hp, hop⟩

/-- **Valid transactions stay valid when each spends only what `remove_spent_txs` takes out**,
over a map that includes more. -/
theorem SpendsPresent.cut (stable : Utxos) :
    ∀ (txs : List (Transaction × Height)) {r v : Utxos}, Included r v →
      SpendsPresent C Transaction.spent r txs → SpendsPresent C (cutSpent stable) v txs
  | [], _, _, _, _ => trivial
  | (tx, height) :: txs, r, v, hrv, h => by
    obtain ⟨hpresent, hnodup, hrest⟩ := h
    have hcut := cutSpent_isPrefix stable tx
    refine ⟨fun op hop => ?_, hcut.nodup hnodup,
      SpendsPresent.cut stable txs (hrv.applyTx (fun op hop => hcut.subset hop) tx height)
        hrest⟩
    obtain ⟨x, hx⟩ := Option.isSome_iff_exists.mp
      (AList.lookup_isSome.mpr (hpresent op (hcut.subset hop)))
    exact AList.lookup_isSome.mp (by rw [hrv op x hx]; rfl)

theorem spendsPresent_append (spent : Transaction → List OutPoint) :
    ∀ (txs txs' : List (Transaction × Height)) (u : Utxos),
      SpendsPresent C spent u (txs ++ txs') ↔
        SpendsPresent C spent u txs ∧ SpendsPresent C spent (applyTxs C spent u txs) txs'
  | [], txs', u => by simp [SpendsPresent, applyTxs]
  | (tx, height) :: txs, txs', u => by
    rw [List.cons_append, SpendsPresent, SpendsPresent, spendsPresent_append spent txs txs',
      and_assoc, and_assoc]
    rfl

/-! ## `insert_tx` does what `applyTx` says to the UTXOs -/

variable {u u' : UtxoSet}

theorem insertUtxo_utxos {op : OutPoint} {output : TxOut} {height : Height}
    (h : insertUtxo C u op output height = .ok u') : u'.utxos = u.utxos.insert op (output, height) := by
  unfold IC.Bitcoin.insertUtxo at h
  obtain ⟨index, -, h⟩ := Except.bind_eq_ok.mp h
  dsimp only at h
  split_ifs at h
  rw [← Except.pure_eq_ok.mp h]

theorem removeSpentTxs_utxos {tx : Transaction} (h : removeSpentTxs C u tx = .ok u') :
    u'.utxos = tx.spent.foldl (fun utxos op => utxos.erase op) u.utxos := by
  unfold IC.Bitcoin.removeSpentTxs at h
  unfold Transaction.spent
  split_ifs at h ⊢
  · rw [← Except.pure_eq_ok.mp h]
    rfl
  · rw [List.foldl_map]
    exact Except.foldlM_map_eq (fun _ _ _ hstep => removeSpentInput_utxos hstep) tx.input h

theorem insertUnspentTxs_utxos {tx : Transaction} {height : Height}
    (h : insertUnspentTxs C u tx height = .ok u') : u'.utxos = createOutputs C u.utxos tx height := by
  refine Except.foldlM_map_eq (fun u x u' hstep => ?_) tx.output.zipIdx h
  obtain ⟨output, vout⟩ := x
  dsimp only at hstep ⊢
  split_ifs at hstep ⊢
  · exact insertUtxo_utxos hstep
  · rw [← Except.pure_eq_ok.mp hstep]

/-- **`insert_tx` refines `applyTx`**: when it does not panic, it takes out of the UTXOs the
outpoints the transaction spends and puts in its outputs. -/
theorem insertTx_utxos {tx : Transaction} {height : Height} (h : insertTx C u tx height = .ok u') :
    u'.utxos = applyTx C u.utxos tx.spent tx height := by
  unfold IC.Bitcoin.insertTx at h
  obtain ⟨u₁, hremove, hinsert⟩ := Except.bind_eq_ok.mp h
  rw [insertUnspentTxs_utxos hinsert, removeSpentTxs_utxos hremove]
  rfl

theorem insertTxs_utxos {txs : List (Transaction × Height)} (h : insertTxs C u txs = .ok u') :
    u'.utxos = applyTxs C Transaction.spent u.utxos txs :=
  Except.foldlM_map_eq (fun _ _ _ hstep => insertTx_utxos hstep) txs h

end Lemmas

end IC.Bitcoin
