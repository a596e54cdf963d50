import InternetComputer.Routing.Lookup

/-!
# `optimize` is a canonicalisation, by numbers

A well-formed table of ranges made by `from_u64` is determined by where it sends numbers
(`Canonical.eq_of_routeIn_eq`), and `optimize` keeps every route, so two tables that send the ids
made by `from_u64` alike are equal once optimized (**`optimize_canonicalises`**). Merging touching
ranges takes in the ids between `from_u64(n)` and `from_u64(n + 1)`
(`optimize_captures_between`).
-/

namespace IC.Routing

open IC.State CanisterIdRange RoutingTable

/-! ## Tables determined by their routes -/

/-- The entries of a well-formed table of ranges made by `from_u64`, read as numbers: each range
holds a number, each ends below where the next starts, and no two neighbours of one subnet
touch. -/
structure Canonical (es : List (CanisterIdRange × SubnetId)) : Prop where
  fromU64 : ∀ e ∈ es, e.1.FromU64
  ordered : es.Pairwise fun a b => u64Of a.1.«end» < u64Of b.1.start
  notMergeable : es.IsChain NotMergeable

namespace Canonical

variable {e e' : CanisterIdRange × SubnetId} {es es' : List (CanisterIdRange × SubnetId)}
  {n : ℕ}

theorem tail (h : Canonical (e :: es)) : Canonical es :=
  ⟨fun a ha => h.fromU64 a (List.mem_cons_of_mem e ha), h.ordered.of_cons, h.notMergeable.tail⟩

theorem head_nonEmpty (h : Canonical (e :: es)) : u64Of e.1.start ≤ u64Of e.1.«end» :=
  (h.fromU64 e List.mem_cons_self).nonEmpty

theorem end_lt_start (h : Canonical (e :: es)) {f : CanisterIdRange × SubnetId} (hf : f ∈ es) :
    u64Of e.1.«end» < u64Of f.1.start :=
  List.rel_of_pairwise_cons h.ordered hf

theorem routeIn_start (h : Canonical (e :: es)) : routeIn (e :: es) (u64Of e.1.start) = some e.2 := by
  rw [routeIn_cons, if_pos ⟨le_rfl, h.head_nonEmpty⟩]

theorem routeIn_lt_start (h : Canonical (e :: es)) (hn : n < u64Of e.1.start) :
    routeIn (e :: es) n = none := by
  refine routeIn_eq_none fun f hf hfn => ?_
  have hfs := hfn.1
  rcases List.mem_cons.mp hf with rfl | hf
  · omega
  · have hlt := h.end_lt_start hf
    have hne := h.head_nonEmpty
    omega

theorem routeIn_tail_of_covers (h : Canonical (e :: es)) (hc : e.1.Covers n) :
    routeIn es n = none := by
  refine routeIn_eq_none fun f hf hfn => ?_
  have hlt := h.end_lt_start hf
  have hfs := hfn.1
  have hce := hc.2
  omega

theorem routeIn_succ_end (h : Canonical (e :: es)) :
    routeIn (e :: es) (u64Of e.1.«end» + 1) ≠ some e.2 := by
  have hnot : ¬e.1.Covers (u64Of e.1.«end» + 1) := fun hc => by
    have := hc.2
    omega
  rw [routeIn_cons, if_neg hnot]
  cases es with
  | nil => simp
  | cons f rest =>
    have hf := h.tail
    have hlt := h.end_lt_start List.mem_cons_self
    rcases Nat.lt_or_eq_of_le (show u64Of e.1.«end» + 1 ≤ u64Of f.1.start by omega) with
      hgap | htouch
    · rw [hf.routeIn_lt_start hgap]
      simp
    · obtain ⟨-, -, hm⟩ := (List.isChain_cons_cons.mp h.notMergeable).1
      rw [htouch, hf.routeIn_start]
      intro hsub
      exact hm.elim (fun hne => hne (Option.some.inj hsub).symm) fun hne => hne htouch

section Pair

variable (h : Canonical (e :: es)) (h' : Canonical (e' :: es'))
  (hr : ∀ n ≤ u64Max, routeIn (e :: es) n = routeIn (e' :: es') n)
include h h' hr

theorem start_eq : u64Of e.1.start = u64Of e'.1.start := by
  rcases lt_trichotomy (u64Of e.1.start) (u64Of e'.1.start) with hlt | heq | hgt
  · have hat := hr _ (u64Of_le_u64Max e.1.start)
    rw [h.routeIn_start, h'.routeIn_lt_start hlt] at hat
    exact absurd hat (by simp)
  · exact heq
  · have hat := hr _ (u64Of_le_u64Max e'.1.start)
    rw [h.routeIn_lt_start hgt, h'.routeIn_start] at hat
    exact absurd hat (by simp)

theorem subnet_eq : e.2 = e'.2 := by
  have hat := hr _ (u64Of_le_u64Max e.1.start)
  rw [h.routeIn_start, start_eq h h' hr, h'.routeIn_start] at hat
  exact Option.some.inj hat

theorem end_le : u64Of e'.1.«end» ≤ u64Of e.1.«end» := by
  by_contra hlt
  rw [not_le] at hlt
  have hs := start_eq h h' hr
  have hne := h.head_nonEmpty
  have hmax := u64Of_le_u64Max e'.1.«end»
  have hcov : e'.1.Covers (u64Of e.1.«end» + 1) := ⟨by omega, by omega⟩
  have hat := hr (u64Of e.1.«end» + 1) (by omega)
  rw [routeIn_cons e', if_pos hcov, ← subnet_eq h h' hr] at hat
  exact h.routeIn_succ_end hat

theorem head_eq : e = e' := by
  have hs := start_eq h h' hr
  have he := le_antisymm (end_le h h' hr) (end_le h' h fun n hn => (hr n hn).symm)
  have hd := (h.fromU64 e List.mem_cons_self).derived
  have hd' := (h'.fromU64 e' List.mem_cons_self).derived
  obtain ⟨⟨s, t⟩, v⟩ := e
  obtain ⟨⟨s', t'⟩, v'⟩ := e'
  obtain rfl : s = s' := (eq_iff_of_u64Derived hd.1 hd'.1).mpr hs
  obtain rfl : t = t' := (eq_iff_of_u64Derived hd.2 hd'.2).mpr he.symm
  obtain rfl : v = v' := subnet_eq h h' hr
  rfl

theorem routeIn_tail_eq : ∀ n ≤ u64Max, routeIn es n = routeIn es' n := by
  obtain rfl := head_eq h h' hr
  intro n hn
  by_cases hc : e.1.Covers n
  · rw [h.routeIn_tail_of_covers hc, h'.routeIn_tail_of_covers hc]
  · have hat := hr n hn
    rwa [routeIn_cons, routeIn_cons, if_neg hc, if_neg hc] at hat

end Pair

/-- **A well-formed table of ranges made by `from_u64` is determined by its routes.** -/
theorem eq_of_routeIn_eq : ∀ {es es' : List (CanisterIdRange × SubnetId)},
    Canonical es → Canonical es' → (∀ n ≤ u64Max, routeIn es n = routeIn es' n) → es = es'
  | [], [], _, _, _ => rfl
  | [], e' :: _, _, h', hr => by
    have hat := hr _ (u64Of_le_u64Max e'.1.start)
    rw [h'.routeIn_start] at hat
    exact absurd hat (by simp)
  | e :: _, [], h, _, hr => by
    have hat := hr _ (u64Of_le_u64Max e.1.start)
    rw [h.routeIn_start] at hat
    exact absurd hat (by simp)
  | e :: es, e' :: es', h, h', hr => by
    rw [head_eq h h' hr, eq_of_routeIn_eq h.tail h'.tail (routeIn_tail_eq h h' hr)]

end Canonical

theorem canonical_of_wellFormed {t : RoutingTable} (hwf : t.WellFormed)
    (hd : ∀ k ∈ t.map.keys, k.U64DerivedEnds) : Canonical t.map.entries :=
  have hinv := apart_of_u64Derived hwf.1 hd
  ⟨fun _ he => hinv.fromU64 hd he, hinv.pairwise_u64, hwf.2⟩

/-! ## `optimize` -/

section Optimize

variable {acc : List (CanisterIdRange × SubnetId)} {e : CanisterIdRange × SubnetId}

theorem optimizeStep_isOk (hlast : ∀ a ∈ acc.getLast?, TenBytes a.1.«end»)
    (he : TenBytes e.1.start) : ∃ acc', RoutingTable.optimizeStep acc e = .ok acc' := by
  unfold RoutingTable.optimizeStep
  cases hl : acc.getLast? with
  | none => exact ⟨_, rfl⟩
  | some last =>
    simp only [canisterIdIntoU64_of_tenBytes (hlast last hl), canisterIdIntoU64_of_tenBytes he,
      Except.ok_bind]
    split
    · exact ⟨_, rfl⟩
    · exact ⟨_, rfl⟩

theorem foldlM_optimizeStep_isOk : ∀ (es : List (CanisterIdRange × SubnetId))
    {acc : List (CanisterIdRange × SubnetId)}, (∀ a ∈ acc ++ es, a.1.FromU64) →
    ∃ out, es.foldlM RoutingTable.optimizeStep acc = .ok out
  | [], acc, _ => ⟨acc, rfl⟩
  | e :: es, acc, hacc => by
    have hstepIn : ∀ a ∈ acc ++ [e], a.1.FromU64 := fun a ha =>
      hacc a (by rw [← List.singleton_append, ← List.append_assoc]; exact List.mem_append_left _ ha)
    obtain ⟨acc₁, hstep⟩ := optimizeStep_isOk
      (fun a ha => (hstepIn a (List.mem_append_left _ (List.mem_of_getLast? ha))).derived.2.tenBytes)
      (hstepIn e (List.mem_append_right _ (List.mem_singleton_self e))).derived.1.tenBytes
    have hacc₁ : ∀ a ∈ acc₁ ++ es, a.1.FromU64 := fun a ha => by
      rcases List.mem_append.mp ha with ha | ha
      · exact optimizeStep_fromU64 hstepIn hstep a ha
      · exact hacc a (List.mem_append_right _ (List.mem_cons_of_mem e ha))
    obtain ⟨out, hout⟩ := foldlM_optimizeStep_isOk es hacc₁
    exact ⟨out, by rw [List.foldlM_cons, hstep, Except.ok_bind, hout]⟩

theorem optimize_spec {t : RoutingTable} (hv : ValidRanges t.map.keys)
    (hd : ∀ k ∈ t.map.keys, k.U64DerivedEnds) :
    ∃ t', t.optimize = .ok t' ∧ t'.WellFormed ∧ (∀ k ∈ t'.map.keys, k.U64DerivedEnds) ∧
      ∀ n, routeIn t'.map.entries n = routeIn t.map.entries n := by
  have hinv := apart_of_u64Derived hv hd
  have hfrom : ∀ a ∈ [] ++ t.map.entries, a.1.FromU64 := fun a ha =>
    hinv.fromU64 hd (by simpa using ha)
  obtain ⟨out, hfold⟩ := foldlM_optimizeStep_isOk t.map.entries hfrom
  have hopt : t.optimize = .ok ⟨collectMap out⟩ := by
    unfold RoutingTable.optimize
    rw [hfold]
    rfl
  obtain ⟨hd', hroute⟩ := routeIn_optimize hinv hd hopt
  exact ⟨_, hopt, wellFormed_optimize hv hopt, hd', hroute⟩

end Optimize

/-- **`optimize` is a canonicalisation** at the ids made by `from_u64`: it keeps every lookup, and
tables with the same lookups are equal once optimized. -/
theorem optimize_canonicalises :
    (∀ t : RoutingTable, t.validate = .ok () → (∀ k ∈ t.map.keys, k.U64DerivedEnds) →
      ∃ t', t.optimize = .ok t' ∧ t'.wellFormed = .ok (.ok ()) ∧
        ∀ c, U64Derived c → lookupInRanges t'.map c = lookupInRanges t.map c) ∧
    ∀ t₁ t₂ : RoutingTable, t₁.validate = .ok () → (∀ k ∈ t₁.map.keys, k.U64DerivedEnds) →
      t₂.validate = .ok () → (∀ k ∈ t₂.map.keys, k.U64DerivedEnds) →
      (∀ c, U64Derived c → lookupInRanges t₁.map c = lookupInRanges t₂.map c) →
      t₁.optimize = t₂.optimize := by
  refine ⟨fun t hval hd => ?_, fun t₁ t₂ hval₁ hd₁ hval₂ hd₂ hsame => ?_⟩
  · have hv := (validate_eq_ok_iff t).mp hval
    obtain ⟨t', hopt, hwf, hd', hroute⟩ := optimize_spec hv hd
    refine ⟨t', hopt, (wellFormed_eq_ok_iff t').mpr hwf, ?_⟩
    rintro c ⟨n, hn, rfl⟩
    rw [lookupInRanges_eq_routeIn (apart_of_u64Derived hwf.1 hd') hd' hn,
      lookupInRanges_eq_routeIn (apart_of_u64Derived hv hd) hd hn, hroute n]
  · have hv₁ := (validate_eq_ok_iff t₁).mp hval₁
    have hv₂ := (validate_eq_ok_iff t₂).mp hval₂
    obtain ⟨t₁', hopt₁, hwf₁, hd₁', hroute₁⟩ := optimize_spec hv₁ hd₁
    obtain ⟨t₂', hopt₂, hwf₂, hd₂', hroute₂⟩ := optimize_spec hv₂ hd₂
    -- the two tables send the numbers alike, and so do their optimized forms
    have hroute : ∀ n ≤ u64Max, routeIn t₁'.map.entries n = routeIn t₂'.map.entries n := by
      intro n hn
      have hat := hsame _ (u64Derived_canisterIdFromU64 hn)
      rw [lookupInRanges_eq_routeIn (apart_of_u64Derived hv₁ hd₁) hd₁ hn,
        lookupInRanges_eq_routeIn (apart_of_u64Derived hv₂ hd₂) hd₂ hn] at hat
      rw [hroute₁, hroute₂, Except.ok.inj hat]
    have hentries := Canonical.eq_of_routeIn_eq (canonical_of_wellFormed hwf₁ hd₁')
      (canonical_of_wellFormed hwf₂ hd₂') hroute
    rw [hopt₁, hopt₂]
    obtain ⟨m₁⟩ := t₁'
    obtain ⟨m₂⟩ := t₂'
    obtain rfl : m₁ = m₂ := SortedMap.ext_entries hentries
    rfl

/-- Two touching ranges of one subnet, optimized into one. -/
theorem optimize_canonicalises_at_touching :
    let t : RoutingTable := ⟨(SortedMap.empty.insert (makeRange 0 4) ⟨[1], by decide⟩).insert
      (makeRange 5 9) ⟨[1], by decide⟩⟩
    t.validate = .ok () ∧ (∀ k ∈ t.map.keys, k.U64DerivedEnds) ∧
      ∃ t', t.optimize = .ok t' ∧ t'.wellFormed = .ok (.ok ()) ∧
        ∀ c, U64Derived c → lookupInRanges t'.map c = lookupInRanges t.map c := by
  intro t
  have hval : t.validate = .ok () := by decide
  have hkeys : t.map.keys = [makeRange 0 4, makeRange 5 9] := by decide
  have hd : ∀ k ∈ t.map.keys, k.U64DerivedEnds := by
    rw [hkeys]
    simp only [List.mem_cons, List.not_mem_nil, or_false]
    rintro k (rfl | rfl) <;> exact makeRange_u64DerivedEnds (by decide) (by decide)
  exact ⟨hval, hd, optimize_canonicalises.1 t hval hd⟩

/-- Merging takes in the ids between two numbers: `c`, with the number 0 and the last bytes
`[1, 2]`, is held by no range of the table but by the merged range. -/
theorem optimize_captures_between :
    let t : RoutingTable := ⟨(SortedMap.empty.insert (makeRange 0 0) ⟨[1], by decide⟩).insert
      (makeRange 1 1) ⟨[1], by decide⟩⟩
    let c : CanisterId := ⟨Bytes.toBeBytes 8 0 ++ [1, 2], by decide⟩
    t.validate = .ok () ∧ (∀ k ∈ t.map.keys, k.U64DerivedEnds) ∧
      lookupInRanges t.map c = .ok none ∧
      ∃ t', t.optimize = .ok t' ∧ lookupInRanges t'.map c = .ok (some ⟨[1], by decide⟩) := by
  intro t c
  have hkeys : t.map.keys = [makeRange 0 0, makeRange 1 1] := by decide
  have hrun : (t.optimize >>= fun t' => lookupInRanges t'.map c) = .ok (some ⟨[1], by decide⟩) := by
    decide
  obtain ⟨t', hopt, hlook⟩ := Except.bind_eq_ok.mp hrun
  refine ⟨by decide, ?_, by decide, t', hopt, hlook⟩
  rw [hkeys]
  simp only [List.mem_cons, List.not_mem_nil, or_false]
  rintro k (rfl | rfl) <;> exact makeRange_u64DerivedEnds (by decide) (by decide)

end IC.Routing
