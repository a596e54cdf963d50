import Mathlib

/-!
# Lists

Facts about lists for models whose loops are folds and iterator chains.

* `rel_self_foldl`, `foldl_hom_add`: what each step of a fold keeps, and what it adds;
* `map_fst_zip_sublist`, `drop_zipIdx`, **`filterMap_getElem?_eq_filter_zipIdx`**: zips and
  indexed lists;
* `IsChain.pairwise_of_forall`, `IsChain.filter_of_skip`, `IsChain.concat`: chains;
* **`swapRemove_perm`**: swap-removing an element is removing it, up to order;
* **`takeWhile_dropWhile_eq_filter`**: a window of a non-increasing list;
* **`filter_mergeSort`**: a stable sort keeps the order of what it does not separate.
-/

namespace List

variable {α β : Type}

theorem rel_self_foldl {f : β → α → β} {R : β → β → Prop} (hrefl : ∀ b, R b b)
    (htrans : ∀ b₁ b₂ b₃, R b₁ b₂ → R b₂ b₃ → R b₁ b₃) (hf : ∀ b a, R b (f b a)) :
    ∀ (l : List α) (b : β), R b (l.foldl f b)
  | [], b => hrefl b
  | a :: l, b => htrans _ _ _ (hf b a) (rel_self_foldl hrefl htrans hf l (f b a))

theorem foldl_hom_add {M : Type} [AddCommMonoid M] (p : β → M) (step : β → α → β) (g : α → M)
    (h : ∀ b a, p (step b a) = p b + g a) :
    ∀ (l : List α) (b : β), p (l.foldl step b) = p b + (l.map g).sum
  | [], b => by simp
  | a :: l, b => by
    rw [List.foldl_cons, foldl_hom_add p step g h l, h, List.map_cons, List.sum_cons, add_assoc]

theorem countP_range'_lt (i : ℕ) :
    ∀ b n : ℕ, (range' b n).countP (fun j => decide (j < i)) = min n (i - b)
  | _, 0 => by simp
  | b, n + 1 => by
    rw [range'_succ, countP_cons, countP_range'_lt i (b + 1) n]
    by_cases hb : b < i
    · simp only [hb, decide_true, if_true]
      omega
    · simp only [hb, decide_false, Bool.false_eq_true, if_false]
      omega

theorem drop_zipIdx : ∀ (l : List α) (n k : ℕ), (l.zipIdx n).drop k = (l.drop k).zipIdx (n + k)
  | [], _, _ => by simp
  | _ :: _, _, 0 => rfl
  | a :: l, n, k + 1 => by
    rw [zipIdx_cons, drop_succ_cons, drop_succ_cons, drop_zipIdx l (n + 1) k, Nat.add_right_comm,
      Nat.add_assoc]

theorem takeWhile_zipIdx_lt (n : ℕ) : ∀ (l : List α) (b : ℕ),
    (l.zipIdx b).takeWhile (fun p => decide (p.2 < n)) = (l.take (n - b)).zipIdx b
  | [], _ => by simp
  | x :: l, b => by
    rw [zipIdx_cons, takeWhile_cons]
    by_cases hb : b < n
    · rw [if_pos (decide_eq_true hb), takeWhile_zipIdx_lt n l (b + 1),
        show n - b = n - (b + 1) + 1 by omega, take_succ_cons, zipIdx_cons]
    · rw [if_neg (by simpa using hb), show n - b = 0 by omega, take_zero, zipIdx_nil]

theorem mem_map_snd_filter_zipIdx {P : α × ℕ → Bool} {l : List α} {b : ℕ} {p : α × ℕ}
    (hp : p ∈ l.zipIdx b) : p.2 ∈ ((l.zipIdx b).filter P).map Prod.snd ↔ P p = true := by
  constructor
  · intro h
    obtain ⟨p', hp', hidx⟩ := mem_map.mp h
    obtain ⟨hp'mem, hP⟩ := mem_filter.mp hp'
    -- two elements of an indexed list at one index are one
    have h₁ := (mem_zipIdx_iff_le_and_getElem?_sub.mp hp).2
    have h₂ := (mem_zipIdx_iff_le_and_getElem?_sub.mp hp'mem).2
    rw [hidx, h₁, Option.some.injEq] at h₂
    have heq : p' = p := Prod.ext h₂.symm hidx
    exact heq ▸ hP
  · intro hP
    exact mem_map.mpr ⟨p, mem_filter.mpr ⟨hp, hP⟩, rfl⟩

theorem filterMap_getElem?_eq_filter_zipIdx {rs : List ℕ} (hrs : rs.Pairwise (· < ·))
    (l : List α) (b n : ℕ) :
    (rs.filter fun r => decide (b ≤ r ∧ r < n)).filterMap (fun r => l[r - b]?) =
      ((l.zipIdx b).filter fun p => decide (p.2 ∈ rs ∧ p.2 < n)).map Prod.fst := by
  -- both sides are the first components of lists of pairs ordered by their index
  let g : ℕ → Option (α × ℕ) := fun r => l[r - b]?.map fun x => (x, r)
  have hfst : (rs.filter fun r => decide (b ≤ r ∧ r < n)).filterMap (fun r => l[r - b]?) =
      ((rs.filter fun r => decide (b ≤ r ∧ r < n)).filterMap g).map Prod.fst := by
    rw [map_filterMap]
    congr 1
    funext r
    simp [g, Option.map_map, Function.comp_def]
  rw [hfst]
  congr 1
  have hleft : ((rs.filter fun r => decide (b ≤ r ∧ r < n)).filterMap g).Pairwise
      (fun x y => x.2 < y.2) :=
    (hrs.filter _).filterMap g fun r r' h x hx y hy => by
      simp only [g, Option.map_eq_some_iff] at hx hy
      obtain ⟨_, -, rfl⟩ := hx
      obtain ⟨_, -, rfl⟩ := hy
      exact h
  have hright : ((l.zipIdx b).filter fun p => decide (p.2 ∈ rs ∧ p.2 < n)).Pairwise
      (fun x y => x.2 < y.2) := by
    apply Pairwise.filter
    rw [← pairwise_map (f := Prod.snd), zipIdx_map_snd]
    exact pairwise_lt_range'
  have hmem : ∀ p : α × ℕ, p ∈ (rs.filter fun r => decide (b ≤ r ∧ r < n)).filterMap g ↔
      p ∈ (l.zipIdx b).filter fun p => decide (p.2 ∈ rs ∧ p.2 < n) := by
    rintro ⟨x, i⟩
    simp only [mem_filterMap, mem_filter, g, Option.map_eq_some_iff, Prod.mk.injEq,
      mem_zipIdx_iff_le_and_getElem?_sub, decide_eq_true_eq]
    constructor
    · rintro ⟨r, ⟨hr, hb, hn⟩, x', hx', rfl, rfl⟩
      exact ⟨⟨hb, hx'⟩, hr, hn⟩
    · rintro ⟨⟨hb, hx⟩, hr, hn⟩
      exact ⟨i, ⟨hr, hb, hn⟩, x, hx, rfl, rfl⟩
  have hnodup : ∀ {m : List (α × ℕ)}, m.Pairwise (fun x y => x.2 < y.2) → m.Nodup :=
    fun h => h.imp fun {x y} hlt (he : x = y) => lt_irrefl _ (he ▸ hlt)
  exact ((perm_ext_iff_of_nodup (hnodup hleft) (hnodup hright)).mpr hmem).eq_of_pairwise
    (fun _ _ _ _ h₁ h₂ => absurd (h₁.trans h₂) (lt_irrefl _)) hleft hright

theorem map_fst_zip_sublist : ∀ (l₁ : List α) (l₂ : List β), (l₁.zip l₂).map Prod.fst <+ l₁
  | [], _ => by simp
  | _ :: _, [] => by simp
  | a :: l₁, _ :: l₂ => by simpa using (map_fst_zip_sublist l₁ l₂).cons_cons a

theorem map_snd_zip_sublist : ∀ (l₁ : List α) (l₂ : List β), (l₁.zip l₂).map Prod.snd <+ l₂
  | [], _ => by simp
  | _ :: _, [] => by simp
  | _ :: l₁, b :: l₂ => by simpa using (map_snd_zip_sublist l₁ l₂).cons_cons b

/-! ## Chains -/

theorem IsChain.pairwise_of_forall {R : α → α → Prop} {P : α → Prop}
    (htrans : ∀ a b c, P b → R a b → R b c → R a c) :
    ∀ {l : List α}, (∀ x ∈ l, P x) → l.IsChain R → l.Pairwise R
  | [], _, _ => Pairwise.nil
  | [_], _, _ => pairwise_singleton _ _
  | a :: b :: l, hP, h => by
    rw [isChain_cons_cons] at h
    have ih := IsChain.pairwise_of_forall htrans (fun x hx => hP x (mem_cons_of_mem a hx)) h.2
    -- `a` is related to `b`, and through `b` to everything after it
    refine Pairwise.cons (fun c hc => ?_) ih
    rcases mem_cons.mp hc with rfl | hc
    · exact h.1
    · exact htrans a b c (hP b (by simp)) h.1 (rel_of_pairwise_cons ih hc)

theorem IsChain.filter_of_skip {R : α → α → Prop} (p : α → Bool) :
    ∀ {l : List α}, (∀ a b c, [a, b, c] <+ l → R a c) → l.IsChain R → (l.filter p).IsChain R
  | [], _, _ => by simp
  | a :: l, hskip, h => by
    have ih : (l.filter p).IsChain R :=
      IsChain.filter_of_skip p (fun x y z hs => hskip x y z (hs.cons a)) (List.isChain_cons.mp h).2
    rw [filter_cons]
    split
    · refine List.isChain_cons.mpr ⟨fun c hc => ?_, ih⟩
      have hcl : c ∈ l := mem_of_mem_filter (mem_of_mem_head? hc)
      -- the first element kept after `a` is `l`'s head, or lies past it
      match l, hcl, h with
      | b :: l', hcl, h =>
        rcases mem_cons.mp hcl with rfl | hcl
        · exact (List.isChain_cons_cons.mp h).1
        · exact hskip a b c ((singleton_sublist.mpr hcl).cons_cons b |>.cons_cons a)
    · exact ih

theorem IsChain.concat_of_imp {R : α → α → Prop} {l : List α} {x y : α}
    (h : (l ++ [x]).IsChain R) (hxy : ∀ a ∈ l.getLast?, R a x → R a y) :
    (l ++ [y]).IsChain R := by
  rw [List.isChain_append] at h ⊢
  refine ⟨h.1, isChain_singleton y, fun a ha b hb => ?_⟩
  obtain rfl : y = b := by simpa using hb
  exact hxy a ha (h.2.2 a ha x (by simp))

theorem IsChain.concat {R : α → α → Prop} {l : List α} {y : α} (h : l.IsChain R)
    (hy : ∀ a ∈ l.getLast?, R a y) : (l ++ [y]).IsChain R := by
  refine List.isChain_append.mpr ⟨h, isChain_singleton y, fun a ha b hb => ?_⟩
  obtain rfl : y = b := by simpa using hb
  exact hy a ha

theorem Pairwise.rel_getLast? {R : α → α → Prop} {l : List α} {x : α} (hl : l.Pairwise R)
    (hx : l.getLast? = some x) : ∀ y ∈ l, y = x ∨ R y x := by
  obtain ⟨ys, rfl⟩ := getLast?_eq_some_iff.mp hx
  intro y hy
  rcases mem_append.mp hy with hy | hy
  · exact Or.inr ((pairwise_append.mp hl).2.2 y hy x (mem_singleton_self x))
  · exact Or.inl (mem_singleton.mp hy)

theorem Pairwise.rel_or_rel {R : α → α → Prop} : ∀ {l : List α}, l.Pairwise R →
    ∀ {a b : α}, a ∈ l → b ∈ l → a ≠ b → R a b ∨ R b a
  | [], _, _, _, ha, _, _ => absurd ha not_mem_nil
  | c :: l, hl, a, b, ha, hb, hab => by
    rw [pairwise_cons] at hl
    rcases mem_cons.mp ha with rfl | ha' <;> rcases mem_cons.mp hb with rfl | hb'
    · exact absurd rfl hab
    · exact Or.inl (hl.1 b hb')
    · exact Or.inr (hl.1 a ha')
    · exact Pairwise.rel_or_rel hl.2 ha' hb' hab

/-! ## Swap-removal -/

/-- `Vec::swap_remove`: the element at `index` is overwritten by the last one, which is popped. -/
def swapRemove (l : List α) (index : ℕ) : List α :=
  match l.getLast? with
  | none => l
  | some last => (l.set index last).dropLast

theorem set_perm_eraseIdx_append {l : List α} {i : ℕ} (hi : i < l.length) (a : α) :
    l.set i a ~ l.eraseIdx i ++ [a] := by
  rw [set_eq_take_append_cons_drop, if_pos hi, eraseIdx_eq_take_drop_succ]
  exact perm_middle.trans (perm_append_singleton _ _).symm

theorem swapRemove_perm {l : List α} {i : ℕ} (hi : i < l.length) :
    l.swapRemove i ~ l.eraseIdx i := by
  have hne : l ≠ [] := ne_nil_of_length_pos (by omega)
  obtain ⟨l', last, rfl⟩ : ∃ l' last, l = l' ++ [last] :=
    ⟨_, _, (dropLast_append_getLast hne).symm⟩
  rw [length_append, length_singleton] at hi
  unfold swapRemove
  rw [getLast?_concat]
  show ((l' ++ [last]).set i last).dropLast ~ _
  -- the last element is the one removed, or it moves into the removed one's place
  by_cases hlast : i = l'.length
  · subst hlast
    rw [set_append_right _ _ (Nat.le_refl _), Nat.sub_self, set_cons_zero, dropLast_concat,
      eraseIdx_append_of_length_le (Nat.le_refl _), Nat.sub_self, eraseIdx_cons_zero, append_nil]
  · have hlt : i < l'.length := by omega
    rw [set_append_left _ _ hlt, dropLast_concat, eraseIdx_append_of_lt_length hlt]
    exact set_perm_eraseIdx_append hlt last

theorem Nodup.swapRemove {l : List α} (hl : l.Nodup) {i : ℕ} (hi : i < l.length) :
    (l.swapRemove i).Nodup :=
  (swapRemove_perm hi).nodup_iff.mpr (hl.sublist (eraseIdx_sublist l i))

theorem Nodup.mem_swapRemove [DecidableEq α] {l : List α} (hl : l.Nodup) {i : ℕ}
    (hi : i < l.length) {a : α} : a ∈ l.swapRemove i ↔ a ≠ l[i] ∧ a ∈ l := by
  rw [(swapRemove_perm hi).mem_iff, ← hl.erase_getElem i hi, hl.mem_erase_iff]

/-! ## Windows of a non-increasing list -/

section Window

variable {f : α → ℕ}

theorem takeWhile_lt_eq_filter {lo : ℕ} : ∀ {l : List α}, l.Pairwise (fun a b => f b ≤ f a) →
    l.takeWhile (fun x => decide (lo < f x)) = l.filter (fun x => decide (lo < f x))
  | [], _ => rfl
  | x :: l, hl => by
    rw [pairwise_cons] at hl
    by_cases hx : lo < f x
    · rw [takeWhile_cons_of_pos (by simpa using hx), filter_cons_of_pos (by simpa using hx),
        takeWhile_lt_eq_filter hl.2]
    · rw [takeWhile_cons_of_neg (by simpa using hx), filter_cons_of_neg (by simpa using hx),
        eq_comm, filter_eq_nil_iff]
      intro y hy
      have := hl.1 y hy
      simp only [decide_eq_true_eq]
      omega

theorem takeWhile_dropWhile_eq_filter {lo hi : ℕ} : ∀ {l : List α},
    l.Pairwise (fun a b => f b ≤ f a) →
      (l.dropWhile fun x => decide (hi < f x)).takeWhile (fun x => decide (lo < f x)) =
        l.filter fun x => decide (lo < f x ∧ f x ≤ hi)
  | [], _ => rfl
  | x :: l, hl => by
    by_cases hx : hi < f x
    · rw [dropWhile_cons_of_pos (by simpa using hx), filter_cons_of_neg (by simp; omega),
        takeWhile_dropWhile_eq_filter (pairwise_cons.mp hl).2]
    · rw [dropWhile_cons_of_neg (by simpa using hx), takeWhile_lt_eq_filter hl]
      apply filter_congr
      intro y hy
      -- every element is at most the first, which is at most the upper bound
      have hy' : f y ≤ f x := by
        rcases mem_cons.mp hy with rfl | hy
        · exact Nat.le_refl _
        · exact (pairwise_cons.mp hl).1 y hy
      simp only [decide_eq_decide]
      omega

end Window

/-! ## Stable sorting -/

section Sorting

variable {le : α → α → Bool}

theorem filter_mergeSort (htrans : ∀ a b c, le a b → le b c → le a c)
    (htotal : ∀ a b, (le a b || le b a) = true) {p : α → Bool}
    (hp : ∀ a b, p a → p b → le a b) (l : List α) :
    (l.mergeSort le).filter p = l.filter p := by
  have hsorted : (l.filter p).Pairwise fun a b => le a b :=
    Pairwise.imp_of_mem (fun {a b} ha hb _ => hp a b (of_mem_filter ha) (of_mem_filter hb))
      (pairwise_of_forall (R := fun _ _ => True) fun _ _ => trivial)
  have hsub : l.filter p <+ (l.mergeSort le).filter p := by
    have := (sublist_mergeSort htrans htotal hsorted filter_sublist).filter p
    rwa [filter_filter, filter_congr (q := p) (fun a _ => Bool.and_self (p a))] at this
  exact (hsub.eq_of_length ((mergeSort_perm l le).filter p).length_eq.symm).symm

end Sorting

theorem append_inj_of_separated {R : α → α → Prop} (hirr : ∀ a, ¬ R a a)
    {l₁ l₂ r₁ r₂ : List α} (h : l₁ ++ l₂ = r₁ ++ r₂)
    (hsep : ∀ a ∈ l₁ ++ r₁, ∀ b ∈ l₂ ++ r₂, R a b) : l₁ = r₁ ∧ l₂ = r₂ := by
  rcases append_eq_append_iff.mp h with ⟨a', rfl, rfl⟩ | ⟨c', rfl, rfl⟩
  · rcases a' with _ | ⟨e, a'⟩
    · simp
    · exact absurd (hsep e (by simp) e (by simp)) (hirr e)
  · rcases c' with _ | ⟨e, c'⟩
    · simp
    · exact absurd (hsep e (by simp) e (by simp)) (hirr e)

end List
