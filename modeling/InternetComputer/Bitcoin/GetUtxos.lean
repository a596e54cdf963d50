import InternetComputer.Bitcoin.AddressUtxoSet

/-!
# `get_utxos`

`store::get_utxos` answers for an address with the UTXOs of the stable set changed by the blocks
of the main chain that have enough confirmations, stopping at the first block with too few.

* `RunOk.getUtxosLoop`: over transactions valid in sequence, the loop does not panic;
* **`getUtxos_eq_cut`**: on a valid address and chain, the UTXOs after the confirmed blocks, each
  transaction spending its inputs up to the first that spends an output of an earlier unstable
  block; `getUtxos_eq_insertTxs`;
* **`getUtxos_reports_spent_output`**.
-/

namespace IC.Bitcoin

/-- `State`, with the fields `get_utxos` reads. -/
structure State where
  height : Height
  utxos : UtxoSet
  unstableBlocks : UnstableBlocks

/-- `GetUtxosError`. -/
inductive GetUtxosError where
  | malformedAddress
  | minConfirmationsTooLarge (given max : ℕ)
  deriving DecidableEq, Repr

/-- `GetUtxosResponse`; `next_page`, always `None`, is left out. -/
structure GetUtxosResponse where
  utxos : Finset Utxo
  tipBlockHash : BlockHash
  tipHeight : Height

/-- The blocks of a main chain of `n` with at least `minConfirmations` confirmations. -/
def confirmedBlocks (n minConfirmations : ℕ) : ℕ := min n (n + 1 - minConfirmations)

theorem lt_confirmedBlocks_iff {n minConfirmations i : ℕ} (hi : i < n) :
    i < confirmedBlocks n minConfirmations ↔ minConfirmations ≤ n - i := by
  unfold confirmedBlocks
  omega

section GetUtxos

variable {Address : Type} (C : Crate Address) (blockHash : Block → BlockHash)

/-- The loop of `get_utxos` over the main chain, up to the first block with too few. -/
def getUtxosLoop (stateHeight mainChainHeight minConfirmations : ℕ) :
    List (Block × ℕ) → AddressUtxoSet × Option BlockHash × Option Height →
      Except String (AddressUtxoSet × Option BlockHash × Option Height)
  | [], acc => pure acc
  | (block, i) :: blocks, (addressUtxos, tipBlockHash, tipBlockHeight) =>
    let blockHeight := stateHeight + i
    let confirmations := mainChainHeight - blockHeight + 1
    if confirmations < minConfirmations then pure (addressUtxos, tipBlockHash, tipBlockHeight)
    else do
      let addressUtxos ←
        block.txdata.foldlM (fun s tx => s.insertTx C tx blockHeight) addressUtxos
      getUtxosLoop stateHeight mainChainHeight minConfirmations blocks
        (addressUtxos, some (blockHash block), some blockHeight)

/-- `get_utxos`. -/
def getUtxos (state : State) (address : String) (minConfirmations : ℕ) :
    Except String (Except GetUtxosError GetUtxosResponse) :=
  if !C.fromStr address then pure (.error .malformedAddress) else do
  let mainChain ← getMainChain blockHash state.unstableBlocks
  if mainChain.length < minConfirmations then
    pure (.error (.minConfirmationsTooLarge minConfirmations mainChain.length))
  else do
  let addressUtxos := AddressUtxoSet.new address state.utxos
  let mainChainHeight := state.height + mainChain.length - 1
  let (addressUtxos, tipBlockHash, tipBlockHeight) ←
    getUtxosLoop C blockHash state.height mainChainHeight minConfirmations mainChain.zipIdx
      (addressUtxos, none, none)
  let utxos ← addressUtxos.intoVec C
  let tipBlockHash ← Rust.expect tipBlockHash "Tip block must exist"
  let tipHeight ← Rust.expect tipBlockHeight "Tip height must exist"
  pure (.ok ⟨utxos, tipBlockHash, tipHeight⟩)

end GetUtxos

/-! ## The loop over the confirmed blocks -/

section Run

variable {Address : Type} {C : Crate Address}

/-- What the transactions still to come need over `s`, which stands for `v`: valid in sequence
as `remove_spent_txs` takes out, with txids new to `v` and the full set. -/
structure RunOk (C : Crate Address) (s : AddressUtxoSet) (v : Utxos)
    (txs : List (Transaction × Height)) : Prop where
  represents : s.Represents v
  spends : SpendsPresent C (cutSpent s.fullUtxoSet.utxos) v txs
  fresh : FreshTxids C v txs
  freshFull : ∀ p ∈ txs, ∀ op ∈ s.fullUtxoSet.utxos.keys, op.txid ≠ C.txid p.1

theorem FreshTxids.applyTx {v : Utxos} {tx : Transaction} {height : Height}
    {txs : List (Transaction × Height)} (h : FreshTxids C v ((tx, height) :: txs))
    (spent : List OutPoint) : FreshTxids C (applyTx C v spent tx height) txs := by
  obtain ⟨hnodup, hnew⟩ := h
  rw [List.map_cons, List.nodup_cons] at hnodup
  refine ⟨hnodup.2, fun p hp op hop => ?_⟩
  rcases mem_applyTx (AList.mem_keys.mpr hop) with hv | htx
  · exact hnew p (List.mem_cons_of_mem _ hp) op (AList.mem_keys.mp hv)
  · rw [htx]
    exact fun heq => hnodup.1 (heq ▸ List.mem_map_of_mem hp)

/-- **The step of the run**: `insert_tx` of the next transaction does not panic. -/
theorem RunOk.insertTx {s : AddressUtxoSet} {v : Utxos} {tx : Transaction} {height : Height}
    {txs : List (Transaction × Height)} (h : RunOk C s v ((tx, height) :: txs)) :
    ∃ s', s.insertTx C tx height = .ok s' ∧ s'.address = s.address ∧
      s'.fullUtxoSet = s.fullUtxoSet ∧
      RunOk C s' (applyTx C v (cutSpent s.fullUtxoSet.utxos tx) tx height) txs := by
  obtain ⟨hpresent, hnodup, hspends⟩ := h.spends
  have hfresh : ∀ op : OutPoint, op.txid = C.txid tx → op ∉ v ∧ op ∉ s.fullUtxoSet.utxos :=
    fun op hop => ⟨fun hv => h.fresh.2 _ List.mem_cons_self op (AList.mem_keys.mp hv) hop,
      fun hf => h.freshFull _ List.mem_cons_self op (AList.mem_keys.mp hf) hop⟩
  obtain ⟨s', hinsert, haddr, hfull, hs'⟩ := h.represents.insertTx hpresent hnodup hfresh
  refine ⟨s', hinsert, haddr, hfull, ⟨hs', hfull ▸ hspends, h.fresh.applyTx _, ?_⟩⟩
  rw [hfull]
  exact fun p hp => h.freshFull p (List.mem_cons_of_mem _ hp)

theorem RunOk.foldlM_insertTx (height : Height) :
    ∀ (txs : List Transaction) {s : AddressUtxoSet} {v : Utxos}
      {rest : List (Transaction × Height)},
      RunOk C s v (txs.map (·, height) ++ rest) →
      ∃ s', txs.foldlM (fun s tx => s.insertTx C tx height) s = .ok s' ∧
        s'.address = s.address ∧ s'.fullUtxoSet = s.fullUtxoSet ∧
        RunOk C s' (applyTxs C (cutSpent s.fullUtxoSet.utxos) v (txs.map (·, height))) rest
  | [], s, _, _, h => ⟨s, rfl, rfl, rfl, h⟩
  | tx :: txs, s, v, rest, h => by
    obtain ⟨s₁, hinsert, haddr₁, hfull₁, h₁⟩ := RunOk.insertTx h
    obtain ⟨s', hrun, haddr, hfull, h'⟩ := RunOk.foldlM_insertTx height txs h₁
    refine ⟨s', ?_, haddr.trans haddr₁, hfull.trans hfull₁, ?_⟩
    · rw [List.foldlM_cons, hinsert, Except.ok_bind]
      exact hrun
    · rw [hfull₁] at h'
      exact h'

/-- The transactions of blocks, each at the height of its block. -/
def txsAt (stateHeight : Height) (blocks : List (Block × ℕ)) : List (Transaction × Height) :=
  blocks.flatMap fun x => x.1.txdata.map (·, stateHeight + x.2)

/-- A block of the loop that has enough confirmations. -/
def Confirmed (stateHeight mainChainHeight minConfirmations : ℕ) (x : Block × ℕ) : Prop :=
  ¬mainChainHeight - (stateHeight + x.2) + 1 < minConfirmations

variable (blockHash : Block → BlockHash) {stateHeight mainChainHeight minConfirmations : ℕ}

theorem getUtxosLoop_append :
    ∀ (l₁ l₂ : List (Block × ℕ)) (acc : AddressUtxoSet × Option BlockHash × Option Height),
      (∀ x ∈ l₁, Confirmed stateHeight mainChainHeight minConfirmations x) →
      getUtxosLoop C blockHash stateHeight mainChainHeight minConfirmations (l₁ ++ l₂) acc =
        getUtxosLoop C blockHash stateHeight mainChainHeight minConfirmations l₁ acc >>=
          getUtxosLoop C blockHash stateHeight mainChainHeight minConfirmations l₂
  | [], l₂, acc, _ => rfl
  | (block, i) :: l₁, l₂, (s, tipBlockHash, tipBlockHeight), h => by
    have hconf := h (block, i) List.mem_cons_self
    unfold Confirmed at hconf
    rw [List.cons_append, getUtxosLoop, getUtxosLoop, if_neg hconf, if_neg hconf, bind_assoc]
    congr 1
    funext s'
    exact getUtxosLoop_append l₁ l₂ _ fun x hx => h x (List.mem_cons_of_mem _ hx)

theorem getUtxosLoop_stop {x : Block × ℕ} (hx : ¬Confirmed stateHeight mainChainHeight
    minConfirmations x) (l : List (Block × ℕ)) (acc : AddressUtxoSet × Option BlockHash × Option Height) :
    getUtxosLoop C blockHash stateHeight mainChainHeight minConfirmations (x :: l) acc = .ok acc := by
  obtain ⟨block, i⟩ := x
  obtain ⟨s, tipBlockHash, tipBlockHeight⟩ := acc
  unfold Confirmed at hx
  rw [getUtxosLoop, if_pos (not_not.mp hx)]
  rfl

/-- **The run lemma**: over confirmed blocks valid in sequence, the loop does not panic, stands for
the UTXOs of `applyTxs` cut by `cutSpent`, and ends at the last block. -/
theorem RunOk.getUtxosLoop :
    ∀ (l : List (Block × ℕ)) {s : AddressUtxoSet} {v : Utxos}
      {rest : List (Transaction × Height)} (tip : Option BlockHash × Option Height),
      (∀ x ∈ l, Confirmed stateHeight mainChainHeight minConfirmations x) →
      RunOk C s v (txsAt stateHeight l ++ rest) →
      ∃ s', getUtxosLoop C blockHash stateHeight mainChainHeight minConfirmations l (s, tip) =
          .ok (s', l.getLast?.elim tip fun x => (some (blockHash x.1), some (stateHeight + x.2))) ∧
        s'.address = s.address ∧ s'.fullUtxoSet = s.fullUtxoSet ∧
        RunOk C s' (applyTxs C (cutSpent s.fullUtxoSet.utxos) v (txsAt stateHeight l)) rest
  | [], s, _, _, tip, _, h => ⟨s, rfl, rfl, rfl, h⟩
  | (block, i) :: l, s, v, rest, tip, hconf, h => by
    have hx := hconf (block, i) List.mem_cons_self
    unfold Confirmed at hx
    rw [txsAt, List.flatMap_cons, List.append_assoc] at h
    obtain ⟨s₁, hblock, haddr₁, hfull₁, h₁⟩ := RunOk.foldlM_insertTx _ block.txdata h
    obtain ⟨s', hrun, haddr, hfull, h'⟩ := RunOk.getUtxosLoop l
      (some (blockHash block), some (stateHeight + i))
      (fun x hx => hconf x (List.mem_cons_of_mem _ hx)) h₁
    refine ⟨s', ?_, haddr.trans haddr₁, hfull.trans hfull₁, ?_⟩
    · obtain ⟨tipBlockHash, tipBlockHeight⟩ := tip
      rw [IC.Bitcoin.getUtxosLoop, if_neg hx, hblock, Except.ok_bind, hrun, List.getLast?_cons]
      cases l.getLast? <;> rfl
    · rw [hfull₁] at h'
      rw [txsAt, List.flatMap_cons, applyTxs, List.foldl_append]
      exact h'

end Run

/-! ## `get_utxos` -/

section Main

variable {Address : Type} {C : Crate Address} (blockHash : Block → BlockHash)

theorem confirmed_zipIdx_take {n minConfirmations stateHeight : ℕ} {mainChain : List Block}
    (hn : mainChain.length = n) (hpos : 0 < n) :
    ∀ x ∈ (mainChain.take (confirmedBlocks n minConfirmations)).zipIdx,
      Confirmed stateHeight (stateHeight + n - 1) minConfirmations x := by
  intro x hx
  have hk := (List.mem_zipIdx hx).2.1
  rw [List.length_take, hn] at hk
  unfold Confirmed confirmedBlocks at *
  omega

/-- **`get_utxos` gives the UTXOs after the confirmed blocks, as `remove_spent_txs` computes
them**, on valid inputs: the address's UTXOs after those blocks, with the last as the tip. -/
theorem getUtxos_eq_cut {state : State} {address : String} {minConfirmations : ℕ}
    {mainChain : List Block} (hindex : IndexExact C state.utxos)
    (hchain : getMainChain blockHash state.unstableBlocks = .ok mainChain)
    (hstr : C.fromStr address = true) (hlen : address.utf8ByteSize ≤ 255)
    (hconf : minConfirmations ≤ mainChain.length)
    (hspends : SpendsPresent C Transaction.spent state.utxos.utxos
      (blockTxs (mainChain.take (confirmedBlocks mainChain.length minConfirmations)) state.height))
    (hfresh : FreshTxids C state.utxos.utxos
      (blockTxs (mainChain.take (confirmedBlocks mainChain.length minConfirmations)) state.height)) :
    ∃ resp, getUtxos C blockHash state address minConfirmations = .ok (.ok resp) ∧
      resp.utxos = (addressUtxos C address (applyTxs C (cutSpent state.utxos.utxos)
        state.utxos.utxos (blockTxs (mainChain.take
          (confirmedBlocks mainChain.length minConfirmations)) state.height))).image toUtxo ∧
      resp.tipHeight = state.height + confirmedBlocks mainChain.length minConfirmations - 1 ∧
      mainChain[confirmedBlocks mainChain.length minConfirmations - 1]?.map blockHash =
        some resp.tipBlockHash := by
  generalize hk : confirmedBlocks mainChain.length minConfirmations = k at hspends hfresh ⊢
  -- the main chain starts at the anchor, so it has a block and `k` is at least 1
  obtain ⟨mainChain', hchain', hhead⟩ := getMainChain_ok blockHash state.unstableBlocks
  rw [hchain, Except.ok.injEq] at hchain'
  subst hchain'
  have hpos : 0 < mainChain.length := List.length_pos_iff.mpr fun h => by simp [h] at hhead
  have hk1 : 1 ≤ k := by
    rw [← hk]
    unfold confirmedBlocks
    omega
  have hkle : k ≤ mainChain.length := by
    rw [← hk]
    exact min_le_left _ _
  have hconfirmed : ∀ x ∈ (mainChain.take k).zipIdx,
      Confirmed state.height (state.height + mainChain.length - 1) minConfirmations x := by
    rw [← hk]
    exact confirmed_zipIdx_take rfl hpos
  -- the run over the confirmed blocks, from the stable set
  have hrun : RunOk C (AddressUtxoSet.new address state.utxos) state.utxos.utxos
      (txsAt state.height (mainChain.take k).zipIdx ++ []) := by
    rw [List.append_nil]
    exact ⟨AddressUtxoSet.represents_new address state.utxos,
      hspends.cut state.utxos.utxos _ fun _ _ h => h, hfresh,
      fun p hp op hop => hfresh.2 p hp op hop⟩
  obtain ⟨s', hloop, haddr, hfull, h'⟩ := hrun.getUtxosLoop blockHash (mainChain.take k).zipIdx
    (none, none) hconfirmed
  -- the loop stops at the first block after them
  have hsplit : getUtxosLoop C blockHash state.height (state.height + mainChain.length - 1)
      minConfirmations mainChain.zipIdx (AddressUtxoSet.new address state.utxos, none, none) =
        .ok (s', (mainChain.take k).zipIdx.getLast?.elim (none, none)
          fun x => (some (blockHash x.1), some (state.height + x.2))) := by
    have hz : mainChain.zipIdx = (mainChain.take k).zipIdx ++ (mainChain.drop k).zipIdx k :=
      calc mainChain.zipIdx = (mainChain.take k ++ mainChain.drop k).zipIdx := by
            rw [List.take_append_drop]
        _ = _ := by rw [List.zipIdx_append, List.length_take, min_eq_left hkle, Nat.zero_add]
    rw [hz, getUtxosLoop_append blockHash _ _ _ hconfirmed, hloop, Except.ok_bind]
    cases hdrop : mainChain.drop k with
    | nil => rfl
    | cons b bs =>
      rw [List.zipIdx_cons]
      refine getUtxosLoop_stop blockHash ?_ _ _
      have hlt : k < mainChain.length := by
        have := congrArg List.length hdrop
        rw [List.length_drop, List.length_cons] at this
        omega
      -- block `k` is not among the first `k`, so it has too few confirmations
      have hnot : ¬minConfirmations ≤ mainChain.length - k := fun h => by
        have hk' := (lt_confirmedBlocks_iff hlt).mpr h
        rw [hk] at hk'
        exact lt_irrefl k hk'
      show ¬¬state.height + mainChain.length - 1 - (state.height + k) + 1 < minConfirmations
      -- heights are of type `Height`, which omega does not see as `ℕ`
      unfold Height
      omega
  have hlt : k - 1 < mainChain.length := by omega
  have hlast : (mainChain.take k).zipIdx.getLast? = some (mainChain[k - 1], k - 1) := by
    rw [List.getLast?_zipIdx, List.getLast?_take, if_neg (by omega),
      List.getElem?_eq_getElem (by omega), Option.some_or, Option.map_some, List.length_take,
      min_eq_left hkle, Nat.zero_add]
  rw [hlast] at hsplit
  have hfull' : s'.fullUtxoSet = state.utxos := hfull
  have haddr' : s'.address = address := haddr
  have hvec := h'.represents.intoVec (by rw [hfull']; exact hindex) (by rw [haddr']; exact hstr)
    (by rw [haddr']; exact hlen)
  refine ⟨⟨_, blockHash mainChain[k - 1], state.height + (k - 1)⟩, ?_, rfl, ?_, ?_⟩
  · rw [getUtxos, if_neg (by simp [hstr]), hchain, Except.ok_bind, if_neg (by omega)]
    dsimp only
    rw [hsplit, Except.ok_bind]
    dsimp only
    rw [hvec, Except.ok_bind, haddr']
    rfl
  · show state.height + (k - 1) = state.height + k - 1
    unfold Height
    omega
  · rw [List.getElem?_eq_getElem hlt]
    rfl

theorem applyTxs_congr {spent spent' : Transaction → List OutPoint} :
    ∀ {txs : List (Transaction × Height)} (u : Utxos), (∀ p ∈ txs, spent p.1 = spent' p.1) →
      applyTxs C spent u txs = applyTxs C spent' u txs
  | [], _, _ => rfl
  | (tx, height) :: txs, u, h => by
    show applyTxs C spent (applyTx C u (spent tx) tx height) txs =
      applyTxs C spent' (applyTx C u (spent' tx) tx height) txs
    rw [h (tx, height) List.mem_cons_self]
    exact applyTxs_congr _ fun p hp => h p (List.mem_cons_of_mem _ hp)

/-- **When no transaction spends a stable output after an unstable one, `get_utxos` gives what
`insert_tx` gives** on a copy of the stable set, over every confirmed block. -/
theorem getUtxos_eq_insertTxs {state : State} {address : String} {minConfirmations : ℕ}
    {mainChain : List Block} {u : UtxoSet} (hindex : IndexExact C state.utxos)
    (hchain : getMainChain blockHash state.unstableBlocks = .ok mainChain)
    (hstr : C.fromStr address = true) (hlen : address.utf8ByteSize ≤ 255)
    (hconf : minConfirmations ≤ mainChain.length)
    (hspends : SpendsPresent C Transaction.spent state.utxos.utxos
      (blockTxs (mainChain.take (confirmedBlocks mainChain.length minConfirmations)) state.height))
    (hfresh : FreshTxids C state.utxos.utxos
      (blockTxs (mainChain.take (confirmedBlocks mainChain.length minConfirmations)) state.height))
    (hcut : ∀ p ∈ blockTxs (mainChain.take (confirmedBlocks mainChain.length minConfirmations))
      state.height, cutSpent state.utxos.utxos p.1 = p.1.spent)
    (hinsert : insertTxs C state.utxos
      (blockTxs (mainChain.take (confirmedBlocks mainChain.length minConfirmations))
        state.height) = .ok u) :
    ∃ resp, getUtxos C blockHash state address minConfirmations = .ok (.ok resp) ∧
      resp.utxos = (addressUtxos C address u.utxos).image toUtxo := by
  obtain ⟨resp, hget, hutxos, -⟩ :=
    getUtxos_eq_cut blockHash hindex hchain hstr hlen hconf hspends hfresh
  refine ⟨resp, hget, ?_⟩
  rw [hutxos, applyTxs_congr _ hcut, ← insertTxs_utxos hinsert]

end Main

/-! ## A spent output reported as unspent -/

/-- A crate of two addresses, `a` for the script `[1]` and `b` for `[2]`. -/
def twoAddressCrate : Crate Script where
  fromScript s := if s = [1] ∨ s = [2] then some s else none
  toString s := if s = [1] then "a" else "b"
  fromStr s := s == "a" || s == "b"
  isProvablyUnspendable _ := false
  txid tx := (tx.output.head?.map TxOut.value).getD 0

/-- A coinbase paying 5 satoshis to `a`: the one stable UTXO. -/
def stableCoinbase : Transaction := ⟨[⟨OutPoint.null⟩], [⟨5, [1]⟩]⟩

/-- The stable set after `stableCoinbase` at height 0. -/
def stableSet : UtxoSet :=
  ⟨(∅ : Utxos).insert ⟨5, 0⟩ (⟨5, [1]⟩, 0), insert ("a", 0, ⟨5, 0⟩) ∅⟩

/-- The anchor: a coinbase paying 7 satoshis to `b`. -/
def anchorBlock : Block := ⟨10, [⟨[⟨OutPoint.null⟩], [⟨7, [2]⟩]⟩]⟩

/-- The block after the anchor, spending the anchor's coinbase output and then `a`'s output. -/
def spendBlock : Block := ⟨11, [⟨[⟨⟨7, 0⟩⟩, ⟨⟨5, 0⟩⟩], [⟨11, [2]⟩]⟩]⟩

/-- The state: the stable set at height 1, and the chain of the anchor and `spendBlock`. -/
def spendState : State := ⟨1, stableSet, ⟨.mk anchorBlock [.mk spendBlock []]⟩⟩

/-- **`get_utxos` reports a spent output.** `remove_spent_txs` returns after the first input of
`spendBlock`'s transaction, so the stable output of `a` its second input spends stays reported. -/
theorem getUtxos_reports_spent_output :
    insertTx twoAddressCrate UtxoSet.new stableCoinbase 0 = .ok spendState.utxos ∧
      IndexExact twoAddressCrate spendState.utxos ∧
      twoAddressCrate.fromStr "a" = true ∧
      getMainChain Block.header spendState.unstableBlocks = .ok [anchorBlock, spendBlock] ∧
      SpendsPresent twoAddressCrate Transaction.spent spendState.utxos.utxos
        (blockTxs [anchorBlock, spendBlock] spendState.height) ∧
      FreshTxids twoAddressCrate spendState.utxos.utxos
        (blockTxs [anchorBlock, spendBlock] spendState.height) ∧
      ((insertTxs twoAddressCrate spendState.utxos
        (blockTxs [anchorBlock, spendBlock] spendState.height)).map fun u =>
          (addressUtxos twoAddressCrate "a" u.utxos).image toUtxo) = .ok ∅ ∧
      ((getUtxos twoAddressCrate Block.header spendState "a" 0).map fun r =>
        r.map GetUtxosResponse.utxos) = .ok (.ok {⟨⟨5, 0⟩, 5, 0⟩}) := by
  have hinsert : insertTx twoAddressCrate UtxoSet.new stableCoinbase 0 = .ok spendState.utxos :=
    rfl
  refine ⟨hinsert, ((Ingested.insertTx stableCoinbase 0 .new (by decide) hinsert).consistent).index,
    rfl, rfl, by decide, by decide, by decide +kernel, by decide +kernel⟩

end IC.Bitcoin
