import Mathlib

/-!
# Collections

A map updated through an entry API that removes the entry when zero is written, as an
association list seen through `AList.lookupFinsupp`, where such a write is a `Finsupp.update`;
and a binary max-heap, as the list of its elements.

* `setNonzero`, **`lookupFinsupp_setNonzero`**, `NoZero`, `sum_lookupFinsupp`;
* `MaxHeap.push`, `MaxHeap.peek`, `MaxHeap.pop`, with `peek_eq_some_iff` and `pop_subperm`;
* `MaxHeap.replaceStep`, **`MaxHeap.foldl_replaceStep`**: a heap of fixed size keeps the least keys;
* `List.takeWhile_eq_filter_of_pairwise`.
-/

namespace Finsupp

variable {α M N : Type} [Zero M] [Zero N]

theorem mapRange_update [DecidableEq α] (f : M → N) (hf : f 0 = 0) (g : α →₀ M) (a : α)
    (m : M) : mapRange f hf (g.update a m) = (mapRange f hf g).update a (f m) := by
  ext i
  rw [mapRange_apply, update_apply, update_apply, mapRange_apply]
  split_ifs <;> rfl

theorem apply_le_sum (f : α →₀ ℕ) (a : α) : f a ≤ f.sum fun _ v => v := by
  classical
  by_cases ha : a ∈ f.support
  · rw [Finsupp.sum]
    exact Finset.single_le_sum (fun _ _ => Nat.zero_le _) ha
  · rw [notMem_support_iff.mp ha]
    exact Nat.zero_le _

end Finsupp

namespace AList

variable {α M : Type} [DecidableEq α]

theorem erase_of_notMem {β : α → Type} {s : AList β} {a : α} (h : a ∉ s) : s.erase a = s :=
  AList.ext (List.kerase_of_notMem_keys h)

section NoZero

variable [Zero M] (s : AList fun _ : α => M)

/-- No entry holds zero. -/
def NoZero : Prop := ∀ b v, s.lookup b = some v → v ≠ 0

variable {s} {a : α}

theorem noZero_empty : (∅ : AList fun _ : α => M).NoZero := by
  intro b v hv
  simp at hv

theorem NoZero.mem_iff (h : s.NoZero) : a ∈ s ↔ s.lookupFinsupp a ≠ 0 := by
  rw [lookupFinsupp_apply, ← lookup_isSome]
  cases hl : s.lookup a with
  | none => simp
  | some v => simpa using h a v hl

theorem sum_lookupFinsupp {N : Type} [AddCommMonoid N] (g : M → N) (hg : g 0 = 0) :
    (s.lookupFinsupp.sum fun _ v => g v) = (s.entries.map fun e => g e.2).sum := by
  classical
  have hsub : s.lookupFinsupp.support ⊆ s.keys.toFinset := by
    intro a ha
    rw [Finsupp.mem_support_iff, lookupFinsupp_apply] at ha
    rw [List.mem_toFinset, ← AList.mem_keys, ← lookup_isSome]
    cases h : s.lookup a with
    | none => rw [h] at ha; exact absurd rfl ha
    | some v => rfl
  rw [Finsupp.sum_of_support_subset _ hsub _ (fun _ _ => hg),
    List.sum_toFinset _ s.keys_nodup, AList.keys, List.keys, List.map_map]
  congr 1
  apply List.map_congr_left
  intro e he
  have hl : s.lookup e.1 = some e.2 := mem_lookup_iff.mpr he
  simp [lookupFinsupp_apply, hl]

end NoZero

section SetNonzero

variable [Zero M] [DecidableEq M] (s : AList fun _ : α => M) (a : α) (m : M)

/-- Write `m` at `a`; a write of zero removes the entry. -/
def setNonzero : AList fun _ : α => M :=
  if m = 0 then s.erase a else s.insert a m

theorem lookup_setNonzero_self : (s.setNonzero a m).lookup a = if m = 0 then none else some m := by
  unfold setNonzero
  split_ifs
  · exact lookup_erase a s
  · exact lookup_insert s

theorem lookup_setNonzero_ne {b : α} (h : b ≠ a) : (s.setNonzero a m).lookup b = s.lookup b := by
  unfold setNonzero
  split_ifs
  · exact lookup_erase_ne h
  · exact lookup_insert_ne h

@[simp]
theorem lookupFinsupp_setNonzero :
    (s.setNonzero a m).lookupFinsupp = s.lookupFinsupp.update a m := by
  ext b
  rw [lookupFinsupp_apply, Finsupp.update_apply, lookupFinsupp_apply]
  by_cases hb : b = a
  · rw [if_pos hb, hb, lookup_setNonzero_self]
    split_ifs with hm <;> simp [hm]
  · rw [if_neg hb, lookup_setNonzero_ne s a m hb]

variable {s a m}

theorem noZero_setNonzero (h : s.NoZero) : (s.setNonzero a m).NoZero := by
  intro b v hv
  by_cases hb : b = a
  · rw [hb, lookup_setNonzero_self] at hv
    split_ifs at hv with hm
    exact fun hv0 => hm ((Option.some.inj hv).trans hv0)
  · rw [lookup_setNonzero_ne s a m hb] at hv
    exact h b v hv

end SetNonzero

end AList

namespace MaxHeap

variable {β : Type}

/-- `BinaryHeap::push`. The order of the list stands for the heap's internal order. -/
def push (h : List β) (x : β) : List β := x :: h

variable [LinearOrder β]

/-- `BinaryHeap::peek`: the greatest element. -/
def peek (h : List β) : Option β := h.max?

/-- `BinaryHeap::pop`, keeping the heap: remove the greatest element. -/
def pop (h : List β) : List β :=
  match h.max? with
  | some m => h.erase m
  | none => h

theorem peek_eq_some_iff {h : List β} {m : β} : peek h = some m ↔ m ∈ h ∧ ∀ x ∈ h, x ≤ m :=
  List.max?_eq_some_iff

theorem pop_subperm (h : List β) : (pop h).Subperm h := by
  unfold pop
  split
  · exact List.erase_subperm _ h
  · exact List.Subperm.refl h

omit [LinearOrder β] in
theorem foldl_push : ∀ (l h : List β), l.foldl push h = l.reverse ++ h
  | [], _ => rfl
  | x :: l, h => by
    rw [List.foldl_cons, foldl_push l, List.reverse_cons, List.append_assoc]
    rfl

theorem pop_push_of_lt {h : List β} {g x : β} (hg : peek h = some g) (hx : x < g) :
    pop (push h x) = x :: h.erase g := by
  obtain ⟨hmem, hle⟩ := peek_eq_some_iff.mp hg
  have hmax : (x :: h).max? = some g := List.max?_eq_some_iff.mpr
    ⟨List.mem_cons_of_mem x hmem, by simpa using ⟨hx.le, hle⟩⟩
  rw [pop, push, hmax]
  exact List.erase_cons_tail (by simpa using hx.ne)

/-! ### Keeping the least elements

A heap of a fixed size through which candidates pass: one whose key is below that of the heap's
greatest replaces it, so the heap ends up with elements of the least keys. -/

variable {γ : Type} [LinearOrder γ]

/-- One candidate of a selection of the least keys: it replaces the heap's greatest when its key
is smaller. -/
def replaceStep (key : β → γ) (h : List β) (x : β) : List β :=
  match peek h with
  | some greatest => if key x < key greatest then pop (push h x) else h
  | none => h

omit [LinearOrder β] in
/-- No element kept in `h` has a greater key than one discarded into `ds`. -/
def KeepsLeast (key : β → γ) (h ds : List β) : Prop := ∀ d ∈ ds, ∀ y ∈ h, key y ≤ key d

omit [LinearOrder β] in
theorem keepsLeast_nil (key : β → γ) (h : List β) : KeepsLeast key h [] := fun _ hd => by
  cases hd

omit [LinearOrder β] in
theorem KeepsLeast.discard {key : β → γ} {h ds : List β} (hinv : KeepsLeast key h ds) {x : β}
    (hx : ∀ y ∈ h, key y ≤ key x) : KeepsLeast key h (ds ++ [x]) := by
  intro d hd y hy
  rcases List.mem_append.mp hd with hd | hd
  · exact hinv d hd y hy
  · rw [List.mem_singleton.mp hd]
    exact hx y hy

/-- A candidate below the greatest kept element takes its place, and the greatest is discarded. -/
theorem KeepsLeast.replace {key : β → γ} {h ds : List β} (hinv : KeepsLeast key h ds) {g x : β}
    (hg : g ∈ h) (hle : ∀ y ∈ h, key y ≤ key g) (hlt : key x < key g) :
    KeepsLeast key (x :: h.erase g) (g :: ds) := by
  intro d hd y hy
  have hy' : y = x ∨ y ∈ h := (List.mem_cons.mp hy).imp_right List.mem_of_mem_erase
  rcases List.mem_cons.mp hd with rfl | hd <;> rcases hy' with rfl | hy'
  · exact hlt.le
  · exact hle y hy'
  · exact hlt.le.trans (hinv d hd g hg)
  · exact hinv d hd y hy'

variable (key : β → γ) (hkey : Monotone key)
include hkey

/-- One candidate keeps the heap's size and the least keys in it. -/
theorem replaceStep_spec {h ds : List β} (hinv : KeepsLeast key h ds) (x : β) :
    ∃ ds', (replaceStep key h x ++ ds').Perm (h ++ ds ++ [x]) ∧
      (replaceStep key h x).length = h.length ∧ KeepsLeast key (replaceStep key h x) ds' := by
  unfold replaceStep
  cases hp : peek h with
  | none =>
    -- an empty heap takes nothing
    have hnil : h = [] := List.max?_eq_none_iff.mp hp
    subst hnil
    exact ⟨ds ++ [x], by simp, rfl, fun _ _ _ hy => by cases hy⟩
  | some g =>
    dsimp only
    obtain ⟨hg, hle⟩ := peek_eq_some_iff.mp hp
    by_cases hlt : key x < key g
    · -- `x` replaces the greatest, which is discarded
      have hxg : x < g := lt_of_not_ge fun hge => absurd (hkey hge) (not_le.mpr hlt)
      rw [if_pos hlt, pop_push_of_lt hp hxg]
      refine ⟨g :: ds, ?_, ?_, ?_⟩
      · calc List.Perm (x :: h.erase g ++ g :: ds) (g :: x :: (h.erase g ++ ds)) :=
              List.perm_middle
          List.Perm _ (x :: g :: (h.erase g ++ ds)) := List.Perm.swap x g _
          List.Perm _ (x :: (h ++ ds)) := ((List.perm_cons_erase hg).symm.append_right ds).cons x
          List.Perm _ (h ++ ds ++ [x]) := (List.perm_append_singleton x _).symm
      · have := List.length_erase_of_mem hg
        have := List.length_pos_of_mem hg
        simp only [List.length_cons]
        omega
      · exact hinv.replace hg (fun y hy => hkey (hle y hy)) hlt
    · -- `x` is discarded, its key no less than the greatest's
      rw [if_neg hlt]
      exact ⟨ds ++ [x], by simp, rfl,
        hinv.discard fun y hy => (hkey (hle y hy)).trans (not_lt.mp hlt)⟩

/-- **The candidates of a list keep the heap's size and the least keys in it**: what is kept and
what is discarded are the heap and the candidates. -/
theorem foldl_replaceStep :
    ∀ (xs : List β) {h ds : List β}, KeepsLeast key h ds →
      ∃ ds', (xs.foldl (replaceStep key) h ++ ds').Perm (h ++ ds ++ xs) ∧
        (xs.foldl (replaceStep key) h).length = h.length ∧
        KeepsLeast key (xs.foldl (replaceStep key) h) ds'
  | [], _, ds, hinv => ⟨ds, by simp, rfl, hinv⟩
  | x :: xs, h, ds, hinv => by
    obtain ⟨ds₁, hperm₁, hlen₁, hinv₁⟩ := replaceStep_spec key hkey hinv x
    obtain ⟨ds₂, hperm₂, hlen₂, hinv₂⟩ := foldl_replaceStep xs hinv₁
    refine ⟨ds₂, hperm₂.trans ((hperm₁.append_right xs).trans (by simp)), hlen₂.trans hlen₁, hinv₂⟩

end MaxHeap

namespace List

variable {α : Type}

/-- A `takeWhile` is the `filter` when the predicate holds of an element whenever it holds of a
later one. -/
theorem takeWhile_eq_filter_of_pairwise {p : α → Bool} :
    ∀ {l : List α}, l.Pairwise (fun a b => p b = true → p a = true) → l.takeWhile p = l.filter p
  | [], _ => rfl
  | a :: l, h => by
    rw [List.pairwise_cons] at h
    cases ha : p a with
    | true =>
      rw [List.takeWhile_cons_of_pos ha, List.filter_cons_of_pos ha,
        takeWhile_eq_filter_of_pairwise h.2]
    | false =>
      -- no later element passes, since it would make `a` pass
      have hl : l.filter p = [] := List.filter_eq_nil_iff.mpr fun b hb hpb => by
        simpa [ha] using h.1 b hb (by simpa using hpb)
      rw [List.takeWhile_cons_of_neg (by simp [ha]), List.filter_cons_of_neg (by simp [ha]), hl]

end List
