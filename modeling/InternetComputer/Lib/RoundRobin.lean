import Mathlib

/-!
# Round robins of queues

A round robin holds queues under keys and serves the first item of the front queue, which then
goes to the back while it has items left. Draining it serves the queues one round at a time.

* `pop`, `drain`; `heads`, `tails`, `rounds`;
* **`drain_eq_rounds`**: draining as many items as the queues hold serves them in `rounds`;
  `drain_eq_take_rounds`: any number of pops serves its beginning;
* `rounds_perm`, and **`ofKey_rounds`**: the items of each key are served in its queue's order.
-/

namespace RoundRobin

variable {κ α : Type}

/-- One item served: the first of the front queue, which goes to the back while it has items. -/
def pop : List (κ × List α) → Option ((κ × α) × List (κ × List α))
  | [] => none
  | (_, []) :: _ => none
  | (k, a :: as) :: rest => some ((k, a), if as.isEmpty then rest else rest ++ [(k, as)])

/-- `n` items served one after another, as long as there are any. -/
def drain : ℕ → List (κ × List α) → List (κ × α)
  | 0, _ => []
  | n + 1, rr =>
    match pop rr with
    | none => []
    | some (x, rr) => x :: drain n rr

/-- The number of items the queues hold. -/
def size (rr : List (κ × List α)) : ℕ := (rr.map fun e => e.2.length).sum

/-- Every queue holds an item. -/
def Nonempty (rr : List (κ × List α)) : Prop := ∀ e ∈ rr, e.2 ≠ []

/-- The items of the queues, each under its key. -/
def items (rr : List (κ × List α)) : List (κ × α) := rr.flatMap fun e => e.2.map (e.1, ·)

/-- One round: the first item of every queue, in order. -/
def heads (rr : List (κ × List α)) : List (κ × α) :=
  rr.filterMap fun e => e.2.head?.map (e.1, ·)

/-- What stays after a round: the queues without their first items, those left empty dropped. -/
def tails (rr : List (κ × List α)) : List (κ × List α) :=
  rr.filterMap fun e => if e.2.tail.isEmpty then none else some (e.1, e.2.tail)

section Round

variable (k : κ) (a : α) (as : List α) (rr : List (κ × List α))

@[simp]
theorem heads_nil : heads ([] : List (κ × List α)) = [] := rfl

@[simp]
theorem tails_nil : tails ([] : List (κ × List α)) = [] := rfl

@[simp]
theorem heads_cons : heads ((k, a :: as) :: rr) = (k, a) :: heads rr := rfl

@[simp]
theorem heads_cons_nil : heads ((k, []) :: rr) = heads rr := rfl

@[simp]
theorem tails_cons_singleton : tails ((k, [a]) :: rr) = tails rr := rfl

@[simp]
theorem tails_cons_cons (b : α) : tails ((k, a :: b :: as) :: rr) = (k, b :: as) :: tails rr := rfl

@[simp]
theorem tails_cons_nil : tails ((k, []) :: rr) = tails rr := rfl

theorem pop_cons_singleton : pop ((k, [a]) :: rr) = some ((k, a), rr) := rfl

theorem pop_cons_cons (b : α) :
    pop ((k, a :: b :: as) :: rr) = some ((k, a), rr ++ [(k, b :: as)]) := rfl

@[simp]
theorem size_nil : size ([] : List (κ × List α)) = 0 := rfl

@[simp]
theorem size_cons (e : κ × List α) : size (e :: rr) = e.2.length + size rr := rfl

@[simp]
theorem size_append (rr' : List (κ × List α)) : size (rr ++ rr') = size rr + size rr' := by
  simp [size]

@[simp]
theorem items_nil : items ([] : List (κ × List α)) = [] := rfl

@[simp]
theorem items_cons : items ((k, as) :: rr) = as.map (k, ·) ++ items rr := rfl

@[simp]
theorem items_append (rr' : List (κ × List α)) : items (rr ++ rr') = items rr ++ items rr' := by
  simp [items]

end Round

theorem Nonempty.of_cons {e : κ × List α} {rr : List (κ × List α)} (h : Nonempty (e :: rr)) :
    Nonempty rr :=
  fun e' he' => h e' (List.mem_cons_of_mem _ he')

theorem Nonempty.tails (rr : List (κ × List α)) : Nonempty (tails rr) := by
  intro e he
  obtain ⟨e₀, -, he₀⟩ := List.mem_filterMap.mp he
  split_ifs at he₀ with hempty
  cases he₀
  simpa using hempty

theorem keys_tails_sublist :
    ∀ rr : List (κ × List α), ((tails rr).map Prod.fst).Sublist (rr.map Prod.fst)
  | [] => List.Sublist.slnil
  | (k, []) :: rr => (keys_tails_sublist rr).cons k
  | (k, [_]) :: rr => (keys_tails_sublist rr).cons k
  | (k, _ :: _ :: _) :: rr => (keys_tails_sublist rr).cons_cons k

theorem size_tails_add_length_le :
    ∀ rr : List (κ × List α), size (tails rr) + (tails rr).length ≤ size rr
  | [] => Nat.le_refl 0
  | (k, []) :: rr => by
    have ih := size_tails_add_length_le rr
    simp only [tails_cons_nil, size_cons, List.length_nil]
    omega
  | (k, [a]) :: rr => by
    have ih := size_tails_add_length_le rr
    simp only [tails_cons_singleton, size_cons, List.length_singleton]
    omega
  | (k, a :: b :: as) :: rr => by
    have ih := size_tails_add_length_le rr
    simp only [tails_cons_cons, size_cons, List.length_cons]
    omega

theorem size_eq_length_add_size_tails :
    ∀ rr : List (κ × List α), Nonempty rr → size rr = rr.length + size (tails rr)
  | [], _ => rfl
  | (k, []) :: _, h => absurd rfl (h _ List.mem_cons_self)
  | (k, [a]) :: rr, h => by
    have ih := size_eq_length_add_size_tails rr h.of_cons
    simp only [tails_cons_singleton, size_cons, List.length_cons, List.length_nil]
    omega
  | (k, a :: b :: as) :: rr, h => by
    have ih := size_eq_length_add_size_tails rr h.of_cons
    simp only [tails_cons_cons, size_cons, List.length_cons]
    omega

/-- The order in which a round robin serves its items, one round at a time. -/
def rounds : List (κ × List α) → List (κ × α)
  | [] => []
  | e :: rr => heads (e :: rr) ++ rounds (tails (e :: rr))
termination_by rr => size rr + rr.length
decreasing_by
  have := size_tails_add_length_le (e :: rr)
  simp only [List.length_cons] at this ⊢
  omega

@[simp]
theorem rounds_nil : rounds ([] : List (κ × List α)) = [] := by
  rw [rounds]

/-! ## Draining serves the items round by round -/

theorem drain_append :
    ∀ (xs ys : List (κ × List α)) (m : ℕ), Nonempty xs →
      drain (xs.length + m) (xs ++ ys) = heads xs ++ drain m (ys ++ tails xs)
  | [], ys, m, _ => by simp
  | (k, []) :: _, _, _, h => absurd rfl (h _ List.mem_cons_self)
  | (k, [a]) :: xs, ys, m, h => by
    rw [List.length_cons, Nat.add_right_comm, List.cons_append, heads_cons, tails_cons_singleton]
    simp only [drain, pop_cons_singleton, List.cons_append]
    rw [drain_append xs ys m h.of_cons]
  | (k, a :: b :: as) :: xs, ys, m, h => by
    -- the queue goes to the back, behind `ys`
    rw [List.length_cons, Nat.add_right_comm, List.cons_append, heads_cons, tails_cons_cons]
    simp only [drain, pop_cons_cons, List.cons_append]
    rw [List.append_assoc, drain_append xs (ys ++ [(k, b :: as)]) m h.of_cons, List.append_assoc,
      List.singleton_append]

theorem drain_nil (n : ℕ) : drain n ([] : List (κ × List α)) = [] := by
  cases n <;> rfl

theorem drain_eq_rounds (rr : List (κ × List α)) :
    ∀ n, Nonempty rr → size rr ≤ n → drain n rr = rounds rr := by
  induction rr using rounds.induct with
  | case1 =>
    intro n _ _
    rw [drain_nil, rounds]
  | case2 e rr ih =>
    intro n h hn
    have hsize := size_eq_length_add_size_tails (e :: rr) h
    obtain ⟨m, rfl⟩ : ∃ m, n = (e :: rr).length + m := ⟨n - (e :: rr).length, by omega⟩
    have hround := drain_append (e :: rr) [] m h
    rw [List.append_nil, List.nil_append] at hround
    rw [hround, ih m (Nonempty.tails _) (by omega), rounds]

theorem Nonempty.pop {rr rr' : List (κ × List α)} {x : κ × α} (h : Nonempty rr)
    (hpop : pop rr = some (x, rr')) : Nonempty rr' ∧ size rr = size rr' + 1 := by
  match rr, h, hpop with
  | (k, [a]) :: rest, h, hpop =>
    rw [pop_cons_singleton, Option.some.injEq, Prod.mk.injEq] at hpop
    obtain ⟨rfl, rfl⟩ := hpop
    refine ⟨h.of_cons, ?_⟩
    simp only [size_cons, List.length_singleton]
    omega
  | (k, a :: b :: as) :: rest, h, hpop =>
    rw [pop_cons_cons, Option.some.injEq, Prod.mk.injEq] at hpop
    obtain ⟨rfl, rfl⟩ := hpop
    refine ⟨fun e he => ?_, by simp; omega⟩
    rcases List.mem_append.mp he with he | he
    · exact h.of_cons e he
    · rw [List.mem_singleton.mp he]
      exact List.cons_ne_nil b as

theorem rounds_of_pop {rr rr' : List (κ × List α)} {x : κ × α} (h : Nonempty rr)
    (hpop : pop rr = some (x, rr')) : rounds rr = x :: rounds rr' := by
  obtain ⟨h', hsize⟩ := h.pop hpop
  rw [← drain_eq_rounds rr _ h (Nat.le_refl _), ← drain_eq_rounds rr' _ h' (Nat.le_refl _), hsize]
  simp only [drain, hpop]

theorem pop_eq_none_iff {rr : List (κ × List α)} (h : Nonempty rr) : pop rr = none ↔ rr = [] := by
  match rr, h with
  | [], _ => simp [pop]
  | (_, []) :: _, h => exact absurd rfl (h _ List.mem_cons_self)
  | (_, _ :: _) :: _, _ => simp [pop]

theorem drain_eq_take_rounds :
    ∀ (n : ℕ) {rr : List (κ × List α)}, Nonempty rr → drain n rr = (rounds rr).take n
  | 0, _, _ => rfl
  | n + 1, rr, h => by
    cases hpop : pop rr with
    | none =>
      rw [(pop_eq_none_iff h).mp hpop, drain_nil, rounds_nil, List.take_nil]
    | some p =>
      obtain ⟨x, rr'⟩ := p
      simp only [drain, hpop, rounds_of_pop h hpop, List.take_succ_cons,
        drain_eq_take_rounds n (h.pop hpop).1]

/-! ## Every item once, each key's in order -/

theorem heads_append_items_tails :
    ∀ rr : List (κ × List α), Nonempty rr → (heads rr ++ items (tails rr)).Perm (items rr)
  | [], _ => by simp
  | (k, []) :: _, h => absurd rfl (h _ List.mem_cons_self)
  | (k, [a]) :: rr, h => by
    have ih := heads_append_items_tails rr h.of_cons
    simpa using ih
  | (k, a :: b :: as) :: rr, h => by
    have ih := heads_append_items_tails rr h.of_cons
    simp only [heads_cons, tails_cons_cons, items_cons, List.map_cons, List.cons_append]
    refine List.Perm.cons _ ?_
    -- the second item goes behind the other heads
    rw [← List.cons_append, ← List.cons_append]
    exact (List.perm_append_comm_assoc _ _ _).trans (List.Perm.append_left _ ih)

theorem rounds_perm (rr : List (κ × List α)) (h : Nonempty rr) : (rounds rr).Perm (items rr) := by
  induction rr using rounds.induct with
  | case1 => simp [rounds, items]
  | case2 e rr ih =>
    rw [rounds]
    exact ((ih (Nonempty.tails _)).append_left _).trans (heads_append_items_tails _ h)

theorem length_items : ∀ rr : List (κ × List α), (items rr).length = size rr
  | [] => rfl
  | (k, as) :: rr => by
    rw [items_cons, List.length_append, List.length_map, length_items rr, size_cons]

theorem length_rounds (rr : List (κ × List α)) (h : Nonempty rr) : (rounds rr).length = size rr :=
  (rounds_perm rr h).length_eq.trans (length_items rr)

theorem Nonempty.eq_nil_of_size {rr : List (κ × List α)} (h : Nonempty rr) (hsize : size rr = 0) :
    rr = [] := by
  match rr, h, hsize with
  | [], _, _ => rfl
  | (_, []) :: _, h, _ => exact absurd rfl (h _ List.mem_cons_self)
  | (_, _ :: _) :: _, _, hsize => simp at hsize

section Keys

variable [DecidableEq κ] (k : κ)

/-- The items of the queues of key `k`. -/
def itemsOf (rr : List (κ × List α)) : List α := rr.flatMap fun e => if e.1 = k then e.2 else []

/-- The items of key `k` among keyed items, in order. -/
def ofKey (xs : List (κ × α)) : List α := xs.filterMap fun x => if x.1 = k then some x.2 else none

theorem ofKey_append (xs ys : List (κ × α)) : ofKey k (xs ++ ys) = ofKey k xs ++ ofKey k ys :=
  List.filterMap_append

theorem ofKey_singleton (k' : κ) (a : α) : ofKey k [(k', a)] = if k' = k then [a] else [] := by
  by_cases hk : k' = k <;> simp [ofKey, hk]

theorem flatMap_key_of_not_mem {β : Type} (f : κ × List α → List β) :
    ∀ rr : List (κ × List α), k ∉ rr.map Prod.fst →
      (rr.flatMap fun e => if e.1 = k then f e else []) = []
  | [], _ => rfl
  | e :: rr, h => by
    rw [List.map_cons, List.mem_cons, not_or] at h
    rw [List.flatMap_cons, if_neg (Ne.symm h.1), List.nil_append]
    exact flatMap_key_of_not_mem f rr h.2

theorem flatMap_key_append {β : Type} (f g : κ × List α → List β) :
    ∀ rr : List (κ × List α), (rr.map Prod.fst).Nodup →
      (rr.flatMap fun e => if e.1 = k then f e ++ g e else []) =
        (rr.flatMap fun e => if e.1 = k then f e else []) ++
          (rr.flatMap fun e => if e.1 = k then g e else [])
  | [], _ => rfl
  | e :: rr, h => by
    rw [List.map_cons, List.nodup_cons] at h
    simp only [List.flatMap_cons]
    by_cases he : e.1 = k
    · have hk : k ∉ rr.map Prod.fst := he ▸ h.1
      simp only [if_pos he, flatMap_key_of_not_mem k _ rr hk, List.append_nil]
    · simp only [if_neg he, List.nil_append]
      exact flatMap_key_append f g rr h.2

theorem ofKey_heads :
    ∀ rr : List (κ × List α), ofKey k (heads rr) = rr.flatMap fun e => if e.1 = k then e.2.take 1 else []
  | [] => rfl
  | (k', []) :: rr => by
    simp only [List.flatMap_cons, List.take_nil, ite_self, List.nil_append]
    exact ofKey_heads rr
  | (k', a :: as) :: rr => by
    rw [heads_cons, List.flatMap_cons, ← ofKey_heads rr]
    by_cases hk : k' = k <;> simp [ofKey, hk]

theorem itemsOf_tails :
    ∀ rr : List (κ × List α), itemsOf k (tails rr) = rr.flatMap fun e => if e.1 = k then e.2.drop 1 else []
  | [] => rfl
  | (k', []) :: rr => by
    simp only [List.flatMap_cons, List.drop_nil, ite_self, List.nil_append]
    exact itemsOf_tails rr
  | (k', [a]) :: rr => by
    rw [tails_cons_singleton, List.flatMap_cons, ← itemsOf_tails rr]
    simp
  | (k', a :: b :: as) :: rr => by
    rw [tails_cons_cons, List.flatMap_cons, ← itemsOf_tails rr]
    by_cases hk : k' = k <;> simp [itemsOf, hk]

theorem itemsOf_map_of_mem (f : κ → List α) :
    ∀ {l : List κ}, l.Nodup → k ∈ l → itemsOf k (l.map fun j => (j, f j)) = f k
  | [], _, hk => absurd hk List.not_mem_nil
  | j :: l, hl, hk => by
    rw [List.nodup_cons] at hl
    rw [List.map_cons, itemsOf, List.flatMap_cons, ← itemsOf]
    by_cases hj : j = k
    · subst hj
      have hnot : j ∉ (l.map fun j => (j, f j)).map Prod.fst := by simpa using hl.1
      rw [if_pos rfl, itemsOf, flatMap_key_of_not_mem j (fun e => e.2) _ hnot, List.append_nil]
    · rw [if_neg hj, List.nil_append]
      exact itemsOf_map_of_mem f hl.2 ((List.mem_cons.mp hk).resolve_left (Ne.symm hj))

theorem ofKey_rounds (rr : List (κ × List α)) (hkeys : (rr.map Prod.fst).Nodup) :
    ofKey k (rounds rr) = itemsOf k rr := by
  induction rr using rounds.induct with
  | case1 => rw [rounds]; rfl
  | case2 e rr ih =>
    rw [rounds, ofKey_append, ih ((keys_tails_sublist _).nodup hkeys), ofKey_heads, itemsOf_tails,
      ← flatMap_key_append _ _ _ _ hkeys]
    simp only [List.take_append_drop]
    rfl

end Keys

end RoundRobin
