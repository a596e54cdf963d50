import InternetComputer.Routing.RoutingTable
import InternetComputer.Lib.Lists

/-!
# What `well_formed` checks

The checks of the routing table, read as properties of its ranges. Touching is arithmetic on the
numbers `canister_id_into_u64` reads, the first eight bytes of a ten-byte id, which order ten-byte
ids first (`lt_iff_of_tenBytes`), and those `from_u64` makes exactly (`lt_iff_of_u64Derived`).

* `u64Of`, `TenBytes`, `U64Derived`: the ids `canister_id_into_u64` accepts, and those
  `from_u64` makes;
* `CanisterIdRange.Separated`, `CanisterIdRange.U64Separated`: ranges that share no id, and no
  number;
* `ValidRanges`, **`validate_eq_ok_iff`**; `NotMergeable`, **`wellFormed_eq_ok_iff`**.
-/

namespace IC.Routing

open IC.State

/-! ## Ten-byte ids -/

/-- The number `canister_id_into_u64` reads from an id: its first eight bytes, big-endian. -/
def u64Of (c : CanisterId) : ℕ := Bytes.ofBeBytes (c.bytes.take 8)

/-- An id `canister_id_into_u64` accepts. -/
def TenBytes (c : CanisterId) : Prop := c.bytes.length = 10

instance : DecidablePred TenBytes := fun c => inferInstanceAs (Decidable (c.bytes.length = 10))

/-- An id made by `CanisterId::from_u64`. -/
def U64Derived (c : CanisterId) : Prop := ∃ n ≤ u64Max, c = canisterIdFromU64 n

@[simp]
theorem canisterIdIntoU64_eq_ok {c : CanisterId} {n : ℕ} :
    canisterIdIntoU64 c = .ok n ↔ TenBytes c ∧ u64Of c = n := by
  unfold canisterIdIntoU64 TenBytes u64Of
  split <;> simp_all

theorem canisterIdIntoU64_of_tenBytes {c : CanisterId} (h : TenBytes c) :
    canisterIdIntoU64 c = .ok (u64Of c) :=
  canisterIdIntoU64_eq_ok.mpr ⟨h, rfl⟩

theorem canisterIdIntoU64_of_not_tenBytes {c : CanisterId} (h : ¬TenBytes c) :
    ∃ msg, canisterIdIntoU64 c = .error msg := by
  cases hc : canisterIdIntoU64 c with
  | error msg => exact ⟨msg, rfl⟩
  | ok n => exact absurd (canisterIdIntoU64_eq_ok.mp hc).1 h

theorem u64Of_le_u64Max (c : CanisterId) : u64Of c ≤ u64Max := by
  have hlt := Bytes.ofBeBytes_lt (c.bytes.take 8)
  have hpow : 256 ^ (c.bytes.take 8).length ≤ 256 ^ 8 :=
    Nat.pow_le_pow_right (by decide) (by simp)
  unfold u64Of u64Max
  omega

theorem tenBytes_canisterIdFromU64 (n : ℕ) : TenBytes (canisterIdFromU64 n) := by
  simp [TenBytes, canisterIdFromU64, Bytes.length_toBeBytes]

theorem u64Of_canisterIdFromU64 {n : ℕ} (h : n ≤ u64Max) : u64Of (canisterIdFromU64 n) = n := by
  have htake : (canisterIdFromU64 n).bytes.take 8 = Bytes.toBeBytes 8 n := by
    simp [canisterIdFromU64, Bytes.length_toBeBytes]
  rw [u64Of, htake, Bytes.ofBeBytes_toBeBytes]
  unfold u64Max at h
  omega

theorem u64Derived_canisterIdFromU64 {n : ℕ} (h : n ≤ u64Max) :
    U64Derived (canisterIdFromU64 n) :=
  ⟨n, h, rfl⟩

theorem U64Derived.tenBytes {c : CanisterId} (h : U64Derived c) : TenBytes c := by
  obtain ⟨n, -, rfl⟩ := h
  exact tenBytes_canisterIdFromU64 n

theorem lt_iff_of_tenBytes {a b : CanisterId} (ha : TenBytes a) (hb : TenBytes b) :
    a < b ↔ u64Of a < u64Of b ∨ (u64Of a = u64Of b ∧ a.bytes.drop 8 < b.bytes.drop 8) := by
  unfold TenBytes at ha hb
  have hlen : (a.bytes.take 8).length = (b.bytes.take 8).length := by simp [ha, hb]
  have hsplit := List.append_lt_append_iff_of_length_eq (a.bytes.drop 8) (b.bytes.drop 8) hlen
  rw [List.take_append_drop, List.take_append_drop] at hsplit
  rw [PrincipalId.lt_iff, ha, hb, u64Of, u64Of, Bytes.ofBeBytes_lt_ofBeBytes_iff hlen,
    Bytes.ofBeBytes_inj hlen, ← hsplit]
  simp

theorem u64Of_le_u64Of {a b : CanisterId} (ha : TenBytes a) (hb : TenBytes b) (h : a ≤ b) :
    u64Of a ≤ u64Of b := by
  rcases h.lt_or_eq with h | rfl
  · rcases (lt_iff_of_tenBytes ha hb).mp h with h | ⟨h, -⟩ <;> omega
  · exact le_rfl

theorem lt_of_u64Of_lt {a b : CanisterId} (ha : TenBytes a) (hb : TenBytes b)
    (h : u64Of a < u64Of b) : a < b :=
  (lt_iff_of_tenBytes ha hb).mpr (Or.inl h)

theorem lt_iff_of_u64Derived {a b : CanisterId} (ha : U64Derived a) (hb : U64Derived b) :
    a < b ↔ u64Of a < u64Of b := by
  obtain ⟨n, -, rfl⟩ := ha
  obtain ⟨m, -, rfl⟩ := hb
  have hdrop : ∀ k, (canisterIdFromU64 k).bytes.drop 8 = [1, 1] := fun k => by
    simp [canisterIdFromU64, Bytes.length_toBeBytes]
  rw [lt_iff_of_tenBytes (tenBytes_canisterIdFromU64 n) (tenBytes_canisterIdFromU64 m), hdrop,
    hdrop]
  simp

theorem le_iff_of_u64Derived {a b : CanisterId} (ha : U64Derived a) (hb : U64Derived b) :
    a ≤ b ↔ u64Of a ≤ u64Of b := by
  rw [← not_lt, lt_iff_of_u64Derived hb ha, not_lt]

theorem eq_iff_of_u64Derived {a b : CanisterId} (ha : U64Derived a) (hb : U64Derived b) :
    a = b ↔ u64Of a = u64Of b := by
  rw [le_antisymm_iff, le_iff_of_u64Derived ha hb, le_iff_of_u64Derived hb ha, ← le_antisymm_iff]

/-! ## Ranges -/

namespace CanisterIdRange

variable {a b r : CanisterIdRange}

theorem lt_iff : a < b ↔ a.start < b.start ∨ (a.start = b.start ∧ a.«end» < b.«end») :=
  Prod.Lex.toLex_lt_toLex

theorem le_iff : a ≤ b ↔ a.start < b.start ∨ (a.start = b.start ∧ a.«end» ≤ b.«end») :=
  Prod.Lex.toLex_le_toLex

/-- A range that holds at least its start. -/
def NonEmpty (r : CanisterIdRange) : Prop := r.start ≤ r.«end»

instance (r : CanisterIdRange) : Decidable r.NonEmpty := inferInstanceAs (Decidable (_ ≤ _))

/-- Two ranges that share no id. -/
def Separated (a b : CanisterIdRange) : Prop := a.«end» < b.start ∨ b.«end» < a.start

instance (a b : CanisterIdRange) : Decidable (a.Separated b) := inferInstanceAs (Decidable (_ ∨ _))

/-- Two ranges whose numbers share none. -/
def U64Separated (a b : CanisterIdRange) : Prop :=
  u64Of a.«end» < u64Of b.start ∨ u64Of b.«end» < u64Of a.start

/-- A range whose ends `canister_id_into_u64` accepts. -/
def TenByteEnds (r : CanisterIdRange) : Prop := TenBytes r.start ∧ TenBytes r.«end»

/-- A range whose ends `from_u64` made. -/
def U64DerivedEnds (r : CanisterIdRange) : Prop := U64Derived r.start ∧ U64Derived r.«end»

theorem Separated.symm (h : a.Separated b) : b.Separated a := Or.symm h

theorem U64Separated.symm (h : a.U64Separated b) : b.U64Separated a := Or.symm h

theorem U64DerivedEnds.tenByteEnds (h : r.U64DerivedEnds) : r.TenByteEnds :=
  ⟨h.1.tenBytes, h.2.tenBytes⟩

theorem NonEmpty.u64Of_le (hr : r.NonEmpty) (h : r.TenByteEnds) : u64Of r.start ≤ u64Of r.«end» :=
  u64Of_le_u64Of h.1 h.2 hr

theorem Separated.end_lt_start (hab : a < b) (hb : b.NonEmpty) (h : a.Separated b) :
    a.«end» < b.start := by
  rcases h with h | h
  · exact h
  · -- otherwise `b` would lie wholly before `a`
    exact absurd hab (lt_asymm (lt_iff.mpr (Or.inl (lt_of_le_of_lt hb h))))

theorem U64Separated.separated (ha : a.TenByteEnds) (hb : b.TenByteEnds)
    (h : a.U64Separated b) : a.Separated b :=
  h.imp (lt_of_u64Of_lt ha.2 hb.1) (lt_of_u64Of_lt hb.2 ha.1)

theorem U64Separated.end_lt_start (hab : a < b) (ha : a.TenByteEnds) (hb : b.TenByteEnds)
    (hbn : b.NonEmpty) (h : a.U64Separated b) : u64Of a.«end» < u64Of b.start := by
  rcases h with h | h
  · exact h
  · have hba : b.«end» < a.start := lt_of_u64Of_lt hb.2 ha.1 h
    exact absurd hab (lt_asymm (lt_iff.mpr (Or.inl (lt_of_le_of_lt hbn hba))))

theorem Separated.u64Separated (ha : a.U64DerivedEnds) (hb : b.U64DerivedEnds)
    (h : a.Separated b) : a.U64Separated b :=
  h.imp (lt_iff_of_u64Derived ha.2 hb.1).mp (lt_iff_of_u64Derived hb.2 ha.1).mp

end CanisterIdRange

open CanisterIdRange

/-! ## `validate` -/

/-- What `validate` checks: each range non-empty, any two separated. -/
def ValidRanges (ks : List CanisterIdRange) : Prop :=
  (∀ r ∈ ks, r.NonEmpty) ∧ ∀ a ∈ ks, ∀ b ∈ ks, a ≠ b → a.Separated b

instance (ks : List CanisterIdRange) : Decidable (ValidRanges ks) :=
  inferInstanceAs (Decidable (_ ∧ _))

theorem validateLoop_eq_ok_iff : ∀ (previousEnd : Option CanisterId) (ks : List CanisterIdRange),
    RoutingTable.validateLoop previousEnd ks = .ok () ↔ (∀ r ∈ ks, r.NonEmpty) ∧
      (∀ pe ∈ previousEnd, ∀ r ∈ ks.head?, pe < r.start) ∧
        ks.IsChain fun a b => a.«end» < b.start
  | _, [] => by simp [RoutingTable.validateLoop]
  | previousEnd, r :: rs => by
    have ih := validateLoop_eq_ok_iff (some r.«end») rs
    by_cases hempty : r.«end» < r.start
    · cases previousEnd <;> simp [RoutingTable.validateLoop, hempty, NonEmpty]
    · have hne : r.NonEmpty := not_lt.mp hempty
      cases previousEnd with
      | none => simp [RoutingTable.validateLoop, hempty, hne, ih, List.isChain_cons]
      | some pe =>
        by_cases hdisj : r.start ≤ pe
        · simp [RoutingTable.validateLoop, hempty, hdisj]
        · simp [RoutingTable.validateLoop, hempty, hdisj, hne, not_le.mp hdisj, ih,
            List.isChain_cons]

theorem pairwise_of_isChain {ks : List CanisterIdRange} (hne : ∀ r ∈ ks, r.NonEmpty)
    (h : ks.IsChain fun a b => a.«end» < b.start) : ks.Pairwise fun a b => a.«end» < b.start :=
  List.IsChain.pairwise_of_forall (R := fun a b : CanisterIdRange => a.«end» < b.start)
    (P := NonEmpty) (fun _ _ _ hb hab hbc => lt_trans hab (lt_of_le_of_lt hb hbc)) hne h

instance : Std.Symm Separated := ⟨fun _ _ => Separated.symm⟩

theorem validRanges_of_pairwise {ks : List CanisterIdRange} (hne : ∀ r ∈ ks, r.NonEmpty)
    (h : ks.Pairwise fun a b => a.«end» < b.start) : ValidRanges ks :=
  ⟨hne, fun _ ha _ hb hab => List.Pairwise.forall (R := Separated) (h.imp Or.inl) ha hb hab⟩

/-- Valid ranges in increasing order each end before the next starts. -/
theorem ValidRanges.pairwise {ks : List CanisterIdRange} (h : ValidRanges ks)
    (hs : ks.Pairwise (· < ·)) : ks.Pairwise fun a b => a.«end» < b.start :=
  hs.imp_of_mem fun ha hb hab => (h.2 _ ha _ hb (ne_of_lt hab)).end_lt_start hab (h.1 _ hb)

theorem validate_eq_ok_iff (t : RoutingTable) : t.validate = .ok () ↔ ValidRanges t.map.keys := by
  rw [RoutingTable.validate, validateLoop_eq_ok_iff]
  constructor
  · rintro ⟨hne, -, hchain⟩
    exact validRanges_of_pairwise hne (pairwise_of_isChain hne hchain)
  · intro h
    exact ⟨h.1, by simp, (h.pairwise t.map.keys_sorted).isChain⟩

/-! ## `is_optimized` and `well_formed` -/

/-- What `is_optimized` checks of two neighbours. -/
def NotMergeable (e₁ e₂ : CanisterIdRange × SubnetId) : Prop :=
  TenBytes e₁.1.«end» ∧ TenBytes e₂.1.start ∧
    (e₁.2 ≠ e₂.2 ∨ u64Of e₁.1.«end» + 1 ≠ u64Of e₂.1.start)

theorem isOptimizedLoop_eq_ok_true_iff : ∀ es : List (CanisterIdRange × SubnetId),
    RoutingTable.isOptimizedLoop es = .ok true ↔ es.IsChain NotMergeable
  | [] => by simp [RoutingTable.isOptimizedLoop]
  | [_] => by simp [RoutingTable.isOptimizedLoop]
  | e₁ :: e₂ :: rest => by
    rw [RoutingTable.isOptimizedLoop, List.isChain_cons_cons,
      ← isOptimizedLoop_eq_ok_true_iff (e₂ :: rest)]
    by_cases h₁ : TenBytes e₁.1.«end»
    · by_cases h₂ : TenBytes e₂.1.start
      · by_cases hm : e₁.2 ≠ e₂.2 ∨ u64Of e₁.1.«end» + 1 ≠ u64Of e₂.1.start
        · simp [canisterIdIntoU64_of_tenBytes h₁, canisterIdIntoU64_of_tenBytes h₂, hm,
            NotMergeable, h₁, h₂]
        · simp [canisterIdIntoU64_of_tenBytes h₁, canisterIdIntoU64_of_tenBytes h₂, hm,
            NotMergeable]
      · obtain ⟨msg, hmsg⟩ := canisterIdIntoU64_of_not_tenBytes h₂
        simp [canisterIdIntoU64_of_tenBytes h₁, hmsg, NotMergeable, h₂]
    · obtain ⟨msg, hmsg⟩ := canisterIdIntoU64_of_not_tenBytes h₁
      simp [hmsg, NotMergeable, h₁]

namespace RoutingTable

/-- A table `well_formed` accepts: valid ranges, and no two neighbours to merge. -/
def WellFormed (t : RoutingTable) : Prop :=
  ValidRanges t.map.keys ∧ t.map.entries.IsChain NotMergeable

theorem wellFormed_eq_ok_iff (t : RoutingTable) :
    t.wellFormed = .ok (.ok ()) ↔ t.WellFormed := by
  unfold wellFormed isOptimized WellFormed
  rw [← validate_eq_ok_iff, ← isOptimizedLoop_eq_ok_true_iff]
  cases t.validate with
  | error e => simp
  | ok u =>
    cases isOptimizedLoop t.map.entries with
    | error msg => simp
    | ok b => cases b <;> simp

end RoutingTable

theorem ValidRanges.mono {ks ks' : List CanisterIdRange} (h : ValidRanges ks)
    (hsub : ∀ k ∈ ks', k ∈ ks) : ValidRanges ks' :=
  ⟨fun r hr => h.1 r (hsub r hr), fun a ha b hb => h.2 a (hsub a ha) b (hsub b hb)⟩

theorem ValidRanges.pairwise_entries {ν : Type} {m : SortedMap CanisterIdRange ν}
    (h : ValidRanges m.keys) : m.entries.Pairwise fun a b => a.1.«end» < b.1.start :=
  List.pairwise_map.mp (h.pairwise m.keys_sorted)

/-! ## `optimize` -/

/-- What the loop of `optimize` keeps of the entries it has built. -/
structure Optimized (es : List (CanisterIdRange × SubnetId)) : Prop where
  nonEmpty : ∀ e ∈ es, e.1.NonEmpty
  ordered : es.IsChain fun a b => a.1.«end» < b.1.start
  notMergeable : es.IsChain NotMergeable

theorem optimized_nil : Optimized [] := ⟨by simp, List.isChain_nil, List.isChain_nil⟩

theorem optimizeStep_spec {acc acc' : List (CanisterIdRange × SubnetId)}
    {e : CanisterIdRange × SubnetId} (hacc : Optimized acc) (he : e.1.NonEmpty)
    (hlast : ∀ a ∈ acc.getLast?, a.1.«end» < e.1.start)
    (h : RoutingTable.optimizeStep acc e = .ok acc') :
    Optimized acc' ∧ ∀ a ∈ acc'.getLast?, a.1.«end» = e.1.«end» := by
  unfold RoutingTable.optimizeStep at h
  cases hl : acc.getLast? with
  | none =>
    rw [hl] at h
    obtain rfl := List.getLast?_eq_none_iff.mp hl
    obtain rfl := Except.pure_eq_ok.mp h
    exact ⟨⟨by simpa using he, List.isChain_singleton e, List.isChain_singleton e⟩, by simp⟩
  | some last =>
    obtain ⟨lastRange, lastSubnet⟩ := last
    rw [hl] at h
    obtain ⟨init, rfl⟩ := List.getLast?_eq_some_iff.mp hl
    obtain ⟨x, hx, h⟩ := Except.bind_eq_ok.mp h
    obtain ⟨y, hy, h⟩ := Except.bind_eq_ok.mp h
    obtain ⟨hxt, rfl⟩ := canisterIdIntoU64_eq_ok.mp hx
    obtain ⟨hyt, rfl⟩ := canisterIdIntoU64_eq_ok.mp hy
    have hlr : lastRange.«end» < e.1.start := hlast (lastRange, lastSubnet) (by simp)
    split at h
    · -- the entry extends the last range, which keeps its start
      obtain rfl := Except.pure_eq_ok.mp h
      have hne : lastRange.NonEmpty := hacc.nonEmpty (lastRange, lastSubnet) (by simp)
      rw [List.dropLast_concat]
      refine ⟨⟨fun a ha => ?_, hacc.ordered.concat_of_imp fun _ _ h => h,
        hacc.notMergeable.concat_of_imp fun _ _ h => h⟩, by simp⟩
      rcases List.mem_append.mp ha with ha | ha
      · exact hacc.nonEmpty a (List.mem_append_left _ ha)
      · obtain rfl := List.mem_singleton.mp ha
        exact le_trans hne (le_trans hlr.le he)
    · -- the entry follows the last range
      next hm =>
      obtain rfl := Except.pure_eq_ok.mp h
      refine ⟨⟨fun a ha => ?_, hacc.ordered.concat fun a ha => ?_,
        hacc.notMergeable.concat fun a ha => ?_⟩, by simp⟩
      · rcases List.mem_append.mp ha with ha | ha
        · exact hacc.nonEmpty a ha
        · obtain rfl := List.mem_singleton.mp ha
          exact he
      · obtain rfl : (lastRange, lastSubnet) = a := by simpa using ha
        exact hlr
      · obtain rfl : (lastRange, lastSubnet) = a := by simpa using ha
        exact ⟨hxt, hyt, by tauto⟩

theorem foldlM_optimizeStep_spec : ∀ (es : List (CanisterIdRange × SubnetId))
    {acc out : List (CanisterIdRange × SubnetId)}, Optimized acc → (∀ e ∈ es, e.1.NonEmpty) →
    (es.IsChain fun a b => a.1.«end» < b.1.start) →
    (∀ a ∈ acc.getLast?, ∀ e ∈ es.head?, a.1.«end» < e.1.start) →
    es.foldlM RoutingTable.optimizeStep acc = .ok out → Optimized out
  | [], _, _, hacc, _, _, _, h => by
    rw [List.foldlM_nil] at h
    exact Except.pure_eq_ok.mp h ▸ hacc
  | e :: es, acc, out, hacc, hne, hchain, hjoin, h => by
    rw [List.foldlM_cons] at h
    obtain ⟨acc₁, hstep, hrest⟩ := Except.bind_eq_ok.mp h
    obtain ⟨hacc₁, hlast⟩ := optimizeStep_spec hacc (hne e List.mem_cons_self)
      (fun a ha => hjoin a ha e rfl) hstep
    rw [List.isChain_cons] at hchain
    refine foldlM_optimizeStep_spec es hacc₁ (fun e' he' => hne e' (List.mem_cons_of_mem e he'))
      hchain.2 (fun a ha e' he' => ?_) hrest
    rw [hlast a ha]
    exact hchain.1 e' he'

theorem Optimized.pairwise_lt {es : List (CanisterIdRange × SubnetId)} (h : Optimized es) :
    es.Pairwise fun a b => a.1 < b.1 := by
  have hp : es.Pairwise fun a b => a.1.«end» < b.1.start :=
    List.IsChain.pairwise_of_forall (R := fun a b : CanisterIdRange × SubnetId => a.1.«end» < b.1.start)
      (P := fun e => e.1.NonEmpty) (fun _ _ _ hb hab hbc => lt_trans hab (lt_of_le_of_lt hb hbc))
      h.nonEmpty h.ordered
  exact hp.imp_of_mem fun ha _ hab =>
    CanisterIdRange.lt_iff.mpr (Or.inl (lt_of_le_of_lt (h.nonEmpty _ ha) hab))

theorem collectMap_entries_of_sorted {es : List (CanisterIdRange × SubnetId)}
    (h : es.Pairwise fun a b => a.1 < b.1) : (collectMap es).entries = es :=
  SortedMap.entries_foldl_insert_of_sorted es SortedMap.empty h

theorem collectMap_entries (m : SortedMap CanisterIdRange SubnetId) : collectMap m.entries = m :=
  SortedMap.ext_entries (collectMap_entries_of_sorted m.sorted)

theorem Optimized.wellFormed {es : List (CanisterIdRange × SubnetId)} (h : Optimized es) :
    (⟨collectMap es⟩ : RoutingTable).WellFormed := by
  have hentries := collectMap_entries_of_sorted h.pairwise_lt
  have hp : es.Pairwise fun a b => a.1.«end» < b.1.start :=
    List.IsChain.pairwise_of_forall (R := fun a b : CanisterIdRange × SubnetId => a.1.«end» < b.1.start)
      (P := fun e => e.1.NonEmpty) (fun _ _ _ hb hab hbc => lt_trans hab (lt_of_le_of_lt hb hbc))
      h.nonEmpty h.ordered
  refine ⟨?_, by rw [hentries]; exact h.notMergeable⟩
  rw [SortedMap.keys, hentries]
  refine validRanges_of_pairwise (fun r hr => ?_) (List.pairwise_map.mpr hp)
  obtain ⟨e, he, rfl⟩ := List.mem_map.mp hr
  exact h.nonEmpty e he

/-- **`optimize` makes a table of valid ranges well formed.** -/
theorem wellFormed_optimize {t t' : RoutingTable} (hv : ValidRanges t.map.keys)
    (h : t.optimize = .ok t') : t'.WellFormed := by
  unfold RoutingTable.optimize at h
  obtain ⟨out, hfold, h⟩ := Except.bind_eq_ok.mp h
  obtain rfl := Except.pure_eq_ok.mp h
  have hne : ∀ e ∈ t.map.entries, e.1.NonEmpty := fun e he => hv.1 e.1 (List.mem_map_of_mem he)
  exact (foldlM_optimizeStep_spec _ optimized_nil hne hv.pairwise_entries.isChain (by simp)
    hfold).wellFormed

theorem optimizeStep_of_notMergeable {acc : List (CanisterIdRange × SubnetId)}
    {e : CanisterIdRange × SubnetId} (h : ∀ a ∈ acc.getLast?, NotMergeable a e) :
    RoutingTable.optimizeStep acc e = .ok (acc ++ [e]) := by
  unfold RoutingTable.optimizeStep
  cases hl : acc.getLast? with
  | none => rfl
  | some last =>
    obtain ⟨hx, hy, hm⟩ := h last hl
    simp only [canisterIdIntoU64_of_tenBytes hx, canisterIdIntoU64_of_tenBytes hy,
      Except.ok_bind]
    rw [if_neg (by tauto)]
    rfl

theorem foldlM_optimizeStep_of_isChain : ∀ (es acc : List (CanisterIdRange × SubnetId)),
    (acc ++ es).IsChain NotMergeable → es.foldlM RoutingTable.optimizeStep acc = .ok (acc ++ es)
  | [], acc, _ => by simp
  | e :: es, acc, h => by
    have hstep : RoutingTable.optimizeStep acc e = .ok (acc ++ [e]) :=
      optimizeStep_of_notMergeable fun a ha =>
        (List.isChain_append.mp h).2.2 a ha e rfl
    rw [List.foldlM_cons, hstep, Except.ok_bind,
      foldlM_optimizeStep_of_isChain es (acc ++ [e]) (by simpa using h)]
    simp

/-- **A well-formed table is left as it is by `optimize`.** -/
theorem optimize_of_wellFormed {t : RoutingTable} (h : t.WellFormed) : t.optimize = .ok t := by
  unfold RoutingTable.optimize
  rw [foldlM_optimizeStep_of_isChain t.map.entries [] h.2, List.nil_append, Except.ok_bind,
    collectMap_entries]
  rfl

/-! ## `insert` -/

theorem separated_of_areDisjoint {x : CanisterIdRange} : ∀ {ks : List CanisterIdRange},
    (ks.Pairwise fun a b => a.«end» < b.start) → (∀ k ∈ ks, k.NonEmpty) →
    areDisjoint [x] ks = true → ∀ k ∈ ks, x.Separated k
  | [], _, _, _ => by simp
  | k :: ks, hp, hne, h => by
    rw [areDisjoint] at h
    split_ifs at h with h₁ h₂
    · -- `x` ends before `k` starts, and so before every later range starts
      intro k' hk'
      rcases List.mem_cons.mp hk' with rfl | hk'
      · exact Or.inl h₁
      · exact Or.inl (lt_trans h₁ (lt_of_le_of_lt (hne k List.mem_cons_self)
          (List.rel_of_pairwise_cons hp hk')))
    · intro k' hk'
      rcases List.mem_cons.mp hk' with rfl | hk'
      · exact Or.inr h₂
      · exact separated_of_areDisjoint hp.of_cons
          (fun k hk => hne k (List.mem_cons_of_mem _ hk)) h k' hk'

theorem validRanges_insert {m : SortedMap CanisterIdRange SubnetId} {range : CanisterIdRange}
    (subnetId : SubnetId) (hv : ValidRanges m.keys) (hne : range.NonEmpty)
    (hd : areDisjoint [range] m.keys = true) : ValidRanges (m.insert range subnetId).keys := by
  have hsep := separated_of_areDisjoint (hv.pairwise m.keys_sorted) hv.1 hd
  refine ⟨fun r hr => ?_, fun a ha b hb hab => ?_⟩
  · rcases (SortedMap.mem_keys_insert _ _ _ _).mp hr with rfl | hr
    · exact hne
    · exact hv.1 r hr
  · rcases (SortedMap.mem_keys_insert _ _ _ _).mp ha with rfl | ha' <;>
      rcases (SortedMap.mem_keys_insert _ _ _ _).mp hb with rfl | hb'
    · exact absurd rfl hab
    · exact hsep b hb'
    · exact (hsep a ha').symm
    · exact hv.2 a ha' b hb' hab

/-- **`insert` that returns `Ok` leaves a table with valid ranges well formed.** -/
theorem wellFormed_insert {t t' : RoutingTable} {range : CanisterIdRange} {subnetId : SubnetId}
    (hv : ValidRanges t.map.keys) (h : t.insert range subnetId = .ok (t', .ok ())) :
    t'.WellFormed := by
  unfold RoutingTable.insert at h
  split_ifs at h with hempty hdisj
  · simp at h
  · simp at h
  · obtain ⟨t'', hopt, h⟩ := Except.bind_eq_ok.mp h
    obtain rfl : t'' = t' := (Prod.mk.inj (Except.pure_eq_ok.mp h)).1
    exact wellFormed_optimize
      (validRanges_insert subnetId hv (not_lt.mp hempty) (by simpa using hdisj)) hopt

theorem insert_eq_error {t t' : RoutingTable} {range : CanisterIdRange} {subnetId : SubnetId}
    {e : WellFormedError} (h : t.insert range subnetId = .ok (t', .error e)) : t' = t := by
  unfold RoutingTable.insert at h
  split_ifs at h with hempty hdisj
  · exact ((Prod.mk.inj (Except.pure_eq_ok.mp h)).1).symm
  · exact ((Prod.mk.inj (Except.pure_eq_ok.mp h)).1).symm
  · obtain ⟨t'', -, h⟩ := Except.bind_eq_ok.mp h
    simp at h

/-! ## `remove_subnet` and `try_from` -/

theorem pairwise_u64_of_u64Derived {m : SortedMap CanisterIdRange SubnetId}
    (hv : ValidRanges m.keys) (hd : ∀ k ∈ m.keys, k.U64DerivedEnds) :
    m.entries.Pairwise fun a b => u64Of a.1.«end» < u64Of b.1.start :=
  hv.pairwise_entries.imp_of_mem fun ha hb hab =>
    (lt_iff_of_u64Derived (hd _ (List.mem_map_of_mem ha)).2 (hd _ (List.mem_map_of_mem hb)).1).mp hab

/-- **`remove_subnet` keeps a well-formed table of ranges made by `from_u64` well formed**. -/
theorem wellFormed_removeSubnet {t : RoutingTable} (hwf : t.WellFormed)
    (hd : ∀ k ∈ t.map.keys, k.U64DerivedEnds) (subnetIdToRemove : SubnetId) :
    (t.removeSubnet subnetIdToRemove).WellFormed := by
  have hu := pairwise_u64_of_u64Derived hwf.1 hd
  refine ⟨hwf.1.mono fun k hk => ?_, hwf.2.filter_of_skip _ fun a b c habc => ?_⟩
  · obtain ⟨e, he, rfl⟩ := List.mem_map.mp hk
    exact List.mem_map_of_mem (List.mem_of_mem_filter he)
  · -- the range `b` between `a` and `c` is not empty, so `a` ends at least two below `c`
    have hmem : ∀ x ∈ [a, b, c], x ∈ t.map.entries := fun x hx => habc.subset hx
    have hb : b.1.NonEmpty := hwf.1.1 b.1 (List.mem_map_of_mem (hmem b (by simp)))
    have hbd := hd b.1 (List.mem_map_of_mem (hmem b (by simp)))
    have hbu := hb.u64Of_le hbd.tenByteEnds
    have habc' := hu.sublist habc
    simp only [List.pairwise_cons, List.mem_cons, forall_eq_or_imp] at habc'
    refine ⟨(hd a.1 (List.mem_map_of_mem (hmem a (by simp)))).2.tenBytes,
      (hd c.1 (List.mem_map_of_mem (hmem c (by simp)))).1.tenBytes, Or.inr ?_⟩
    omega

/-- **A table `try_from` builds is well formed.** -/
theorem wellFormed_tryFrom {map : SortedMap CanisterIdRange SubnetId} {t : RoutingTable}
    (h : RoutingTable.tryFrom map = .ok (.ok t)) : t.WellFormed := by
  unfold RoutingTable.tryFrom at h
  cases hv : (⟨map⟩ : RoutingTable).validate with
  | error e =>
    rw [hv] at h
    simp at h
  | ok u =>
    rw [hv] at h
    obtain ⟨t', hopt, h⟩ := Except.bind_eq_ok.mp h
    obtain rfl : t' = t := Except.ok.inj (Except.pure_eq_ok.mp h)
    exact wellFormed_optimize ((validate_eq_ok_iff _).mp hv) hopt

end IC.Routing
