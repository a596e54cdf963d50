import InternetComputer.Bitcoin.UtxoSet

/-!
# The unstable blocks of the bitcoin canister

`BlockTree` of `bitcoin_state.rs` and `blockchains` of `blocktree.rs`: the blocks not yet stable
form a tree whose root is the anchor, and each path from the root to a leaf is a blockchain.
`get_main_chain` of `unstable_blocks.rs` takes the longest blockchains and keeps the blocks on
which they all agree, from the anchor up to the first height where two of them differ.

* `head?_of_mem_blockchains`, `blockchains_ne_nil`: there is a blockchain, and each starts at the
  anchor;
* **`getMainChain_ok`**: `get_main_chain` never panics, and the main chain starts at the anchor.
-/

namespace IC.Bitcoin

/-- `bitcoin::BlockHash`, as a number. -/
abbrev BlockHash := ℕ

/-- `bitcoin::Block`, its header kept as the number it serialises to. -/
structure Block where
  header : ℕ
  txdata : List Transaction
  deriving DecidableEq, Repr

/-- `BlockTree`: a block and the trees of the blocks that extend it. -/
inductive BlockTree where
  | mk (root : Block) (children : List BlockTree)

namespace BlockTree

/-- The block at the root of a tree. -/
def root : BlockTree → Block
  | mk root _ => root

mutual
/-- `blockchains`: the paths from the root to the leaves. -/
def blockchains : BlockTree → List (List Block)
  | mk root [] => [[root]]
  | mk root (child :: children) => childChains root (child :: children)

/-- The loop of `blockchains` over the children: each child's chains behind the root. -/
def childChains (root : Block) : List BlockTree → List (List Block)
  | [] => []
  | child :: children => (blockchains child).map (root :: ·) ++ childChains root children
end

theorem mem_childChains {root : Block} {bc : List Block} :
    ∀ {children : List BlockTree}, bc ∈ childChains root children → ∃ rest, bc = root :: rest
  | [], h => by simp [childChains] at h
  | child :: children, h => by
    rw [childChains, List.mem_append, List.mem_map] at h
    rcases h with ⟨rest, -, rfl⟩ | h
    · exact ⟨rest, rfl⟩
    · exact mem_childChains h

theorem head?_of_mem_blockchains {t : BlockTree} {bc : List Block} (h : bc ∈ t.blockchains) :
    bc.head? = some t.root := by
  obtain ⟨root, children⟩ := t
  cases children with
  | nil =>
    rw [blockchains, List.mem_singleton] at h
    rw [h]
    rfl
  | cons child children =>
    obtain ⟨rest, rfl⟩ := mem_childChains h
    rfl

theorem blockchains_ne_nil : ∀ t : BlockTree, t.blockchains ≠ []
  | mk root [] => by simp [blockchains]
  | mk root (child :: children) => by
    have h := blockchains_ne_nil child
    simp [blockchains, childChains, h]

end BlockTree

/-- `UnstableBlocks`: the tree of the blocks above the last stable one, rooted at the anchor. -/
structure UnstableBlocks where
  tree : BlockTree

section MainChain

variable (blockHash : Block → BlockHash)

/-- The inner loop of `get_main_chain`: every chain has the block `hash` at `heightIdx`. -/
def sameBlockAt (heightIdx : ℕ) (hash : BlockHash) : List (List Block) → Except String Bool
  | [] => pure true
  | chain :: chains => do
    let block ← Rust.index chain heightIdx
    if blockHash block != hash then pure false else sameBlockAt heightIdx hash chains

/-- The outer loop of `get_main_chain` over the heights: the block of the first longest chain at
the height joins the main chain while every other longest chain has a block of the same hash
there. -/
def mainChainLoop (longestBlockchains : List (List Block)) :
    List ℕ → List Block → Except String (List Block)
  | [], mainChain => pure mainChain
  | heightIdx :: heightIdxs, mainChain => do
    let first ← Rust.index longestBlockchains 0
    let block ← Rust.index first heightIdx
    let agree ← sameBlockAt blockHash heightIdx (blockHash block) (longestBlockchains.drop 1)
    if agree then mainChainLoop longestBlockchains heightIdxs (mainChain ++ [block])
    else pure mainChain

/-- `get_main_chain`. -/
def getMainChain (blocks : UnstableBlocks) : Except String (List Block) :=
  let blockchains := blocks.tree.blockchains
  let longestBlockchainLen :=
    blockchains.foldl (fun len blockchain => max len blockchain.length) 0
  let longestBlockchains := blockchains.filter (·.length == longestBlockchainLen)
  mainChainLoop blockHash longestBlockchains (List.range longestBlockchainLen) []

theorem sameBlockAt_eq (heightIdx : ℕ) (hash : BlockHash) :
    ∀ {chains : List (List Block)}, (∀ chain ∈ chains, heightIdx < chain.length) →
      sameBlockAt blockHash heightIdx hash chains =
        .ok (chains.all fun chain => chain[heightIdx]?.map blockHash == some hash)
  | [], _ => rfl
  | chain :: chains, h => by
    have hlt := h chain List.mem_cons_self
    have hrest := sameBlockAt_eq heightIdx hash fun c hc => h c (List.mem_cons_of_mem chain hc)
    simp only [sameBlockAt, Rust.index, Rust.expect, List.getElem?_eq_getElem hlt,
      Except.ok_bind, List.all_cons, Option.map_some]
    by_cases hh : blockHash chain[heightIdx] = hash
    · simp [hh, hrest]
    · simp [hh]

theorem mainChainLoop_ok {longest : List (List Block)} {len : ℕ} (hne : longest ≠ [])
    (hlen : ∀ chain ∈ longest, chain.length = len) :
    ∀ (heightIdxs : List ℕ) (mainChain : List Block), (∀ i ∈ heightIdxs, i < len) →
      ∃ rest, mainChainLoop blockHash longest heightIdxs mainChain = .ok (mainChain ++ rest)
  | [], mainChain, _ => ⟨[], by simp [mainChainLoop, pure, Except.pure]⟩
  | i :: heightIdxs, mainChain, h => by
    obtain ⟨first, chains, rfl⟩ := List.exists_cons_of_ne_nil hne
    have hi := h i List.mem_cons_self
    have hfirst : i < first.length := (hlen first List.mem_cons_self) ▸ hi
    have hsame := sameBlockAt_eq blockHash i (blockHash first[i])
      fun c hc => (hlen c (List.mem_cons_of_mem first hc)) ▸ hi
    simp only [mainChainLoop, Rust.index, Rust.expect, List.getElem?_cons_zero,
      List.getElem?_eq_getElem hfirst, Except.ok_bind, List.drop_one, List.tail_cons, hsame]
    split
    · obtain ⟨rest, hrest⟩ := mainChainLoop_ok hne hlen heightIdxs (mainChain ++ [first[i]])
        fun j hj => h j (List.mem_cons_of_mem i hj)
      exact ⟨first[i] :: rest, by rw [hrest, List.append_assoc, List.singleton_append]⟩
    · exact ⟨[], by simp [pure, Except.pure]⟩

/-- From height `k` on, with the chains agreeing below it, the loop stops at the first height
where another longest chain has a block of another hash, or at the end. -/
theorem mainChainLoop_eq_take {first : List Block} {chains : List (List Block)}
    (hlen : ∀ chain ∈ chains, chain.length = first.length) :
    ∀ (n k : ℕ), k + n = first.length →
      (∀ chain ∈ chains, ∀ i < k, chain[i]?.map blockHash = first[i]?.map blockHash) →
      ∃ j, mainChainLoop blockHash (first :: chains) (List.range' k n) (first.take k) =
          .ok (first.take j) ∧ k ≤ j ∧ j ≤ first.length ∧
        (∀ chain ∈ chains, ∀ i < j, chain[i]?.map blockHash = first[i]?.map blockHash) ∧
        (j = first.length ∨ ∃ chain ∈ chains, chain[j]?.map blockHash ≠ first[j]?.map blockHash)
  | 0, k, hk, hagree => ⟨k, rfl, le_rfl, by omega, hagree, .inl (by omega)⟩
  | n + 1, k, hk, hagree => by
    have hfirst : k < first.length := by omega
    have hsame := sameBlockAt_eq blockHash k (blockHash first[k])
      fun c hc => (hlen c hc).symm ▸ hfirst
    simp only [List.range'_succ, mainChainLoop, Rust.index, Rust.expect, List.getElem?_cons_zero,
      List.getElem?_eq_getElem hfirst, Except.ok_bind, List.drop_one,
      List.tail_cons, hsame]
    split
    · -- every chain has the block's hash at `k`: the block joins, and the loop goes on
      rename_i hall
      rw [List.all_eq_true] at hall
      have hagree' : ∀ chain ∈ chains, ∀ i < k + 1,
          chain[i]?.map blockHash = first[i]?.map blockHash := by
        intro chain hc i hi
        rcases Nat.lt_succ_iff_lt_or_eq.mp hi with hi | rfl
        · exact hagree chain hc i hi
        · simpa [List.getElem?_eq_getElem hfirst] using hall chain hc
      obtain ⟨j, hloop, hkj, hj⟩ := mainChainLoop_eq_take hlen n (k + 1) (by omega) hagree'
      refine ⟨j, ?_, by omega, hj⟩
      rw [List.take_concat_get' first k hfirst, hloop]
    · -- some chain has another hash at `k`: the main chain ends below it
      rename_i hall
      obtain ⟨chain, hc, hne⟩ := List.all_eq_false.mp (Bool.not_eq_true _ ▸ hall)
      refine ⟨k, rfl, le_rfl, hfirst.le, hagree, .inr ⟨chain, hc, ?_⟩⟩
      simpa [List.getElem?_eq_getElem hfirst] using hne

theorem foldl_max_length {chains : List (List Block)} (hne : chains ≠ []) :
    ∃ bc ∈ chains, chains.foldl (fun len blockchain => max len blockchain.length) 0 = bc.length ∧
      ∀ bc' ∈ chains, bc'.length ≤ bc.length := by
  have hlen : chains.map List.length ≠ [] := by simpa using hne
  obtain ⟨m, hm⟩ := Option.isSome_iff_exists.mp (List.isSome_max?_of_ne_nil hlen)
  obtain ⟨hmem, hle⟩ := List.max?_eq_some_iff.mp hm
  obtain ⟨bc, hbc, rfl⟩ := List.mem_map.mp hmem
  refine ⟨bc, hbc, ?_, fun bc' hbc' => hle _ (List.mem_map_of_mem hbc')⟩
  rw [← List.foldl_map (f := List.length) (g := max), List.foldl_max, hm]
  simp

/-- **`get_main_chain` never panics**, and the main chain starts at the anchor. -/
theorem getMainChain_ok (blocks : UnstableBlocks) :
    ∃ mainChain, getMainChain blockHash blocks = .ok mainChain ∧
      mainChain.head? = some blocks.tree.root := by
  obtain ⟨bc, hbc, hlen, -⟩ := foldl_max_length (BlockTree.blockchains_ne_nil blocks.tree)
  have hroot (chain) (hc : chain ∈ blocks.tree.blockchains) :
      chain[0]? = some blocks.tree.root := by
    rw [← List.head?_eq_getElem?]
    exact BlockTree.head?_of_mem_blockchains hc
  obtain ⟨h0, -⟩ := List.getElem?_eq_some_iff.mp (hroot bc hbc)
  -- the longest blockchains, of which `bc` is one: each starts at the anchor and has its length
  have hmem (chain) (hc : chain ∈ blocks.tree.blockchains.filter (·.length == bc.length)) :
      chain[0]? = some blocks.tree.root ∧ chain.length = bc.length := by
    rw [List.mem_filter, beq_iff_eq] at hc
    exact ⟨hroot chain hc.1, hc.2⟩
  obtain ⟨first, chains, hcons⟩ : ∃ first chains,
      blocks.tree.blockchains.filter (·.length == bc.length) = first :: chains :=
    List.exists_cons_of_ne_nil
      (List.ne_nil_of_mem (List.mem_filter.mpr ⟨hbc, beq_self_eq_true bc.length⟩))
  rw [hcons] at hmem
  obtain ⟨hfirst, hfirstLen⟩ := hmem first List.mem_cons_self
  have hfirst0 : 0 < first.length := by omega
  have hfirstRoot : first[0] = blocks.tree.root := by
    simpa [List.getElem?_eq_getElem hfirst0] using hfirst
  -- at the anchor's height every longest blockchain agrees, so the anchor joins the main chain
  have hsame : sameBlockAt blockHash 0 (blockHash first[0]) chains = .ok _ :=
    sameBlockAt_eq blockHash 0 _ fun chain hc => by
      rw [(hmem chain (List.mem_cons_of_mem first hc)).2]
      exact h0
  have hall :
      (chains.all fun chain => chain[0]?.map blockHash == some (blockHash first[0])) = true := by
    rw [List.all_eq_true]
    intro chain hc
    rw [(hmem chain (List.mem_cons_of_mem first hc)).1, hfirstRoot]
    simp
  obtain ⟨rest, hrest⟩ := mainChainLoop_ok blockHash (List.cons_ne_nil first chains)
    (fun chain hc => (hmem chain hc).2) ((List.range (bc.length - 1)).map Nat.succ) [first[0]]
    (by simp; omega)
  refine ⟨first[0] :: rest, ?_, by rw [hfirstRoot]; rfl⟩
  have hrange : List.range bc.length = 0 :: (List.range (bc.length - 1)).map Nat.succ := by
    rw [← List.range_succ_eq_map]
    congr 1
    omega
  simp only [getMainChain, hlen, hcons, hrange, mainChainLoop, Rust.index, Rust.expect,
    List.getElem?_cons_zero, List.getElem?_eq_getElem hfirst0, Except.ok_bind, List.drop_one,
    List.tail_cons, hsame, hall, if_true, List.nil_append]
  exact hrest

/-- Two longest blockchains that part after the anchor leave the anchor alone on the main chain. -/
example : getMainChain Block.header ⟨.mk ⟨0, []⟩ [.mk ⟨1, []⟩ [], .mk ⟨2, []⟩ []]⟩ =
    .ok [⟨0, []⟩] := rfl

/-- **`get_main_chain` is the uncontested part of the longest blockchains**: a prefix of a longest
blockchain on which every longest blockchain has blocks of the same hashes, ending at the tip or
below a height where two of them differ. -/
theorem getMainChain_spec (blocks : UnstableBlocks) :
    ∃ first mainChain, first ∈ blocks.tree.blockchains ∧
      (∀ bc ∈ blocks.tree.blockchains, bc.length ≤ first.length) ∧
      getMainChain blockHash blocks = .ok mainChain ∧ mainChain <+: first ∧
      (∀ bc ∈ blocks.tree.blockchains, bc.length = first.length →
        ∀ i < mainChain.length, bc[i]?.map blockHash = first[i]?.map blockHash) ∧
      (mainChain.length = first.length ∨ ∃ bc ∈ blocks.tree.blockchains,
        bc.length = first.length ∧
          bc[mainChain.length]?.map blockHash ≠ first[mainChain.length]?.map blockHash) := by
  obtain ⟨bc, hbc, hlen, hle⟩ := foldl_max_length (BlockTree.blockchains_ne_nil blocks.tree)
  obtain ⟨first, chains, hcons⟩ : ∃ first chains,
      blocks.tree.blockchains.filter (·.length == bc.length) = first :: chains :=
    List.exists_cons_of_ne_nil
      (List.ne_nil_of_mem (List.mem_filter.mpr ⟨hbc, beq_self_eq_true bc.length⟩))
  have hlongest (c) : c ∈ blocks.tree.blockchains ∧ c.length = bc.length ↔ c ∈ first :: chains := by
    rw [← hcons, List.mem_filter, beq_iff_eq]
  obtain ⟨hfirstMem, hfirstLen⟩ := (hlongest first).mpr List.mem_cons_self
  have hchains : ∀ c ∈ chains, c.length = first.length := fun c hc =>
    ((hlongest c).mpr (List.mem_cons_of_mem first hc)).2.trans hfirstLen.symm
  obtain ⟨j, hloop, -, hj, hagree, hend⟩ := mainChainLoop_eq_take blockHash hchains first.length 0
    (Nat.zero_add _) fun _ _ _ hi => absurd hi (Nat.not_lt_zero _)
  have htake : (first.take j).length = j := List.length_take_of_le hj
  refine ⟨first, first.take j, hfirstMem, fun c hc => hfirstLen ▸ hle c hc, ?_,
    List.take_prefix j first, fun c hc hcl i hi => ?_, ?_⟩
  · have hget : getMainChain blockHash blocks =
        mainChainLoop blockHash (first :: chains) (List.range' 0 bc.length) [] := by
      simp only [getMainChain, hlen, hcons, List.range_eq_range']
    rw [hfirstLen, List.take_zero] at hloop
    rw [hget, hloop]
  · rw [htake] at hi
    rcases List.mem_cons.mp ((hlongest c).mp ⟨hc, hcl.trans hfirstLen⟩) with rfl | hc'
    · rfl
    · exact hagree c hc' i hi
  · rw [htake]
    rcases hend with hend | ⟨c, hc, hne⟩
    · exact .inl hend
    · obtain ⟨hcMem, hcLen⟩ := (hlongest c).mpr (List.mem_cons_of_mem first hc)
      exact .inr ⟨c, hcMem, hcLen.trans hfirstLen.symm, hne⟩

end MainChain

end IC.Bitcoin
