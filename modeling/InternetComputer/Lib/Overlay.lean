import Mathlib

/-!
# Maps seen through overlays

A map `base` that is left as it is, and two overlays that a lazy copy of it keeps: `added` holds
the entries put in since, and `removed` the entries of `base` taken out since. `Overlay.lookup`
is the map they stand for, and `Overlay.Apart` is what keeps the overlays apart from the base: a
key put in is new to the base, and an entry taken out is one of the base.

Under `Apart`, taking a key out through the overlays (from `added` when it was put in there, into
`removed` otherwise) and putting a new one in change the map stood for as `erase` and `insert`
change a map (`lookup_eraseAdded`, `lookup_insertRemoved`, `lookup_insertAdded`), and the entries
of the map stood for are those of the base and of `added`, less those of `removed`
(`Apart.entrySet_eq`).
-/

namespace AList

variable {α β : Type} [DecidableEq α]

theorem lookup_foldl_erase (l : List α) (m : AList fun _ : α => β) (a : α) :
    (l.foldl (fun m k => m.erase k) m).lookup a = if a ∈ l then none else m.lookup a := by
  induction l generalizing m with
  | nil => simp
  | cons k l ih =>
    rw [List.foldl_cons, ih]
    by_cases hk : a = k
    · subst hk
      simp
    · simp [hk, AList.lookup_erase_ne hk]

end AList

/-- A map `base` seen through the overlays `added` and `removed`. -/
structure Overlay (α β : Type) [DecidableEq α] where
  base : AList fun _ : α => β
  added : AList fun _ : α => β
  removed : AList fun _ : α => β

namespace Overlay

variable {α β : Type} [DecidableEq α]

/-- The entries of a list that satisfy `p`, as a set of pairs. -/
def listEntrySet [DecidableEq β] (p : α → β → Bool) (l : List (Σ _ : α, β)) : Finset (α × β) :=
  ((l.map fun e => (e.1, e.2)).toFinset).filter fun x => p x.1 x.2

/-- The entries of `m` that satisfy `p`, as a set of pairs. -/
def entrySet [DecidableEq β] (p : α → β → Bool) (m : AList fun _ : α => β) : Finset (α × β) :=
  listEntrySet p m.entries

section EntrySet

variable [DecidableEq β] {p : α → β → Bool}

@[simp]
theorem listEntrySet_nil : listEntrySet p [] = ∅ := rfl

theorem listEntrySet_cons (e : Σ _ : α, β) (l : List (Σ _ : α, β)) :
    listEntrySet p (e :: l) =
      if p e.1 e.2 then insert (e.1, e.2) (listEntrySet p l) else listEntrySet p l := by
  ext x
  unfold listEntrySet
  split_ifs with he
  · simp only [List.map_cons, List.toFinset_cons, Finset.mem_filter, Finset.mem_insert]
    constructor
    · rintro ⟨rfl | hx, hp⟩
      · exact .inl rfl
      · exact .inr ⟨hx, hp⟩
    · rintro (rfl | ⟨hx, hp⟩)
      · exact ⟨.inl rfl, he⟩
      · exact ⟨.inr hx, hp⟩
  · simp only [List.map_cons, List.toFinset_cons, Finset.mem_filter, Finset.mem_insert]
    constructor
    · rintro ⟨rfl | hx, hp⟩
      · exact absurd hp he
      · exact ⟨hx, hp⟩
    · rintro ⟨hx, hp⟩
      exact ⟨.inr hx, hp⟩

theorem mem_listEntrySet {l : List (Σ _ : α, β)} {x : α × β} :
    x ∈ listEntrySet p l ↔ (⟨x.1, x.2⟩ : Σ _ : α, β) ∈ l ∧ p x.1 x.2 = true := by
  obtain ⟨a, b⟩ := x
  have hmem : (a, b) ∈ l.map (fun e => (e.1, e.2)) ↔ (⟨a, b⟩ : Σ _ : α, β) ∈ l := by
    rw [List.mem_map]
    constructor
    · rintro ⟨⟨a', b'⟩, he, heq⟩
      cases heq
      exact he
    · exact fun he => ⟨⟨a, b⟩, he, rfl⟩
  simp only [listEntrySet, Finset.mem_filter, List.mem_toFinset, hmem]

theorem mem_entrySet {m : AList fun _ : α => β} {x : α × β} :
    x ∈ entrySet p m ↔ m.lookup x.1 = some x.2 ∧ p x.1 x.2 = true := by
  rw [entrySet, mem_listEntrySet, ← AList.mem_lookup_iff, Option.mem_def]

end EntrySet

variable (o : Overlay α β)

/-- The map the overlay stands for. -/
def lookup (a : α) : Option β :=
  (o.added.lookup a).or (if a ∈ o.removed then none else o.base.lookup a)

/-- The overlays are apart from the base. -/
structure Apart : Prop where
  added : ∀ a ∈ o.added, a ∉ o.base
  removed : ∀ a b, o.removed.lookup a = some b → o.base.lookup a = some b

/-- The key `a` of `added` taken out again. -/
def eraseAdded (a : α) : Overlay α β := { o with added := o.added.erase a }

/-- The entry `(a, b)` of the base taken out. -/
def insertRemoved (a : α) (b : β) : Overlay α β := { o with removed := o.removed.insert a b }

/-- The new entry `(a, b)` put in. -/
def insertAdded (a : α) (b : β) : Overlay α β := { o with added := o.added.insert a b }

variable {o}

theorem lookup_of_mem_added {a : α} {b : β} (h : o.added.lookup a = some b) :
    o.lookup a = some b := by
  simp [lookup, h]

theorem lookup_of_not_mem_added {a : α} (h : a ∉ o.added) :
    o.lookup a = if a ∈ o.removed then none else o.base.lookup a := by
  simp [lookup, AList.lookup_eq_none.mpr h]

theorem lookup_eq_some_of_not_mem_added {a : α} {b : β} (h : a ∉ o.added)
    (hb : o.lookup a = some b) : a ∉ o.removed ∧ o.base.lookup a = some b := by
  rw [lookup_of_not_mem_added h] at hb
  split_ifs at hb with hr
  exact ⟨hr, hb⟩

theorem lookup_eraseAdded (ho : o.Apart) {a : α} (ha : a ∈ o.added) (a' : α) :
    (o.eraseAdded a).lookup a' = if a' = a then none else o.lookup a' := by
  by_cases h : a' = a
  · subst h
    have hbase := AList.lookup_eq_none.mpr (ho.added a' ha)
    simp [lookup, eraseAdded, hbase]
  · rw [if_neg h]
    show ((o.added.erase a).lookup a').or _ = (o.added.lookup a').or _
    rw [AList.lookup_erase_ne h]
    rfl

theorem lookup_insertRemoved {a : α} (ha : a ∉ o.added) (b : β) (a' : α) :
    (o.insertRemoved a b).lookup a' = if a' = a then none else o.lookup a' := by
  by_cases h : a' = a
  · subst h
    simp [lookup, insertRemoved, AList.lookup_eq_none.mpr ha]
  · rw [if_neg h]
    show (o.added.lookup a').or (if a' ∈ o.removed.insert a b then _ else _) = _
    simp only [AList.mem_insert, h, false_or]
    rfl

theorem lookup_insertAdded (a : α) (b : β) (a' : α) :
    (o.insertAdded a b).lookup a' = if a' = a then some b else o.lookup a' := by
  by_cases h : a' = a
  · subst h
    simp [lookup, insertAdded]
  · rw [if_neg h]
    show ((o.added.insert a b).lookup a').or _ = (o.added.lookup a').or _
    rw [AList.lookup_insert_ne h]
    rfl

theorem Apart.eraseAdded (ho : o.Apart) (a : α) : (o.eraseAdded a).Apart where
  added a' ha' := ho.added a' (AList.mem_erase.mp ha').2
  removed := ho.removed

theorem Apart.insertRemoved (ho : o.Apart) {a : α} {b : β} (hb : o.base.lookup a = some b) :
    (o.insertRemoved a b).Apart where
  added := ho.added
  removed a' b' h := by
    by_cases ha : a' = a
    · subst ha
      change (o.removed.insert a' b).lookup a' = some b' at h
      rw [AList.lookup_insert, Option.some.injEq] at h
      rw [← h]
      exact hb
    · change (o.removed.insert a b).lookup a' = some b' at h
      rw [AList.lookup_insert_ne ha] at h
      exact ho.removed a' b' h

theorem Apart.insertAdded (ho : o.Apart) {a : α} (ha : a ∉ o.base) (b : β) :
    (o.insertAdded a b).Apart where
  added a' ha' := by
    rcases (AList.mem_insert o.added).mp ha' with rfl | ha'
    · exact ha
    · exact ho.added a' ha'
  removed := ho.removed

/-- **The entries of the overlay's map**: those of the base and `added`, less `removed`. -/
theorem Apart.entrySet_eq [DecidableEq β] (ho : o.Apart) {m : AList fun _ : α => β}
    (hm : ∀ a, m.lookup a = o.lookup a) (p : α → β → Bool) :
    entrySet p m = (entrySet p o.base ∪ entrySet p o.added) \ entrySet p o.removed := by
  ext ⟨a, b⟩
  simp only [Finset.mem_sdiff, Finset.mem_union, mem_entrySet, hm]
  cases hadded : o.added.lookup a with
  | some b' =>
    -- an added key is new to the base, so it was never taken out of it
    have hbase := AList.lookup_eq_none.mpr (ho.added a (AList.lookup_isSome.mp (by simp [hadded])))
    have hremoved : o.removed.lookup a = none := by
      cases hr : o.removed.lookup a with
      | none => rfl
      | some c => exact absurd (ho.removed a c hr) (by simp [hbase])
    simp [lookup_of_mem_added hadded, hbase, hremoved]
  | none =>
    have hnot : a ∉ o.added := AList.lookup_eq_none.mp hadded
    rw [lookup_of_not_mem_added hnot]
    by_cases hr : a ∈ o.removed
    · -- the base entry taken out is the one `removed` holds
      obtain ⟨c, hc⟩ := Option.isSome_iff_exists.mp (AList.lookup_isSome.mpr hr)
      simp only [hr, if_true, hc, ho.removed a c hc, reduceCtorEq, false_and, or_false,
        Option.some.injEq]
      tauto
    · simp [hr, AList.lookup_eq_none.mpr hr]

end Overlay
