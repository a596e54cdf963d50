import Mathlib

/-!
# Versioned histories of finite maps

A history is a list of batches of writes to a finite map. Version `v` of the map is what the
first `v` batches make of the empty map, each batch applied in order, so that the last write to a
key wins. Tagging every write with the version of its batch (the first batch is version 1) lets a
store answer for every version at once: version `v` of a key is its last write tagged at most
`v`.

* `Write`, `applyWrites`, `History.stateAt`, `tagFrom`;
* **`applyWrites_apply`**: the last write to a key wins;
* **`stateAt_eq_lastTagged`**: version `v` of a key is its last write tagged at most `v`;
* `pairwise_tagFrom`, `mem_tagFrom`: tags never decrease, and lie in the history's versions;
* `tagFrom_append`, `tagFrom_map`: tagging a history that grows, or whose writes are renamed.
-/

/-- A write to a finite map: a key set to a value, or removed. -/
inductive Write (κ ν : Type) where
  | set (k : κ) (v : ν)
  | remove (k : κ)

namespace Write

variable {κ ν : Type}

/-- The key written. -/
def key : Write κ ν → κ
  | set k _ => k
  | remove k => k

/-- The value the key holds after the write. -/
def value? : Write κ ν → Option ν
  | set _ v => some v
  | remove _ => none

/-- The map after the write. -/
def apply [DecidableEq κ] (w : Write κ ν) (m : κ → Option ν) : κ → Option ν :=
  Function.update m w.key w.value?

end Write

variable {κ ν α : Type}

/-- The writes applied in order. -/
def applyWrites [DecidableEq κ] (ws : List (Write κ ν)) (m : κ → Option ν) : κ → Option ν :=
  ws.foldl (fun m w => w.apply m) m

theorem applyWrites_apply [DecidableEq κ] :
    ∀ (ws : List (Write κ ν)) (m : κ → Option ν) (k : κ),
      applyWrites ws m k = (((ws.filter fun w => w.key = k).getLast?).map Write.value?).getD (m k)
  | [], m, k => rfl
  | w :: ws, m, k => by
    rw [applyWrites, List.foldl_cons, ← applyWrites, applyWrites_apply ws]
    by_cases hk : w.key = k
    · subst hk
      rw [List.filter_cons_of_pos (by simp), List.getLast?_cons]
      cases (ws.filter fun w' => w'.key = w.key).getLast? with
      | none => simp [Write.apply]
      | some w' => rfl
    · rw [List.filter_cons_of_neg (by simpa using hk)]
      congr 1
      exact Function.update_of_ne (Ne.symm hk) _ _

/-- A history of batches of writes. -/
abbrev History (κ ν : Type) := List (List (Write κ ν))

/-- Version `v` of the map: the first `v` batches applied to the empty map. -/
def History.stateAt [DecidableEq κ] (h : History κ ν) (v : ℕ) : κ → Option ν :=
  applyWrites (h.take v).flatten fun _ => none

theorem History.stateAt_append [DecidableEq κ] {h₁ : History κ ν} (h₂ : History κ ν) {v : ℕ}
    (hv : v ≤ h₁.length) : (h₁ ++ h₂).stateAt v = h₁.stateAt v := by
  rw [History.stateAt, History.stateAt, List.take_append_of_le_length hv]

/-- Every element of a list of batches tagged with its batch's version, the first being `n`. -/
def tagFrom : ℕ → List (List α) → List (ℕ × α)
  | _, [] => []
  | n, b :: bs => b.map (fun a => (n, a)) ++ tagFrom (n + 1) bs

theorem mem_tagFrom {e : ℕ × α} : ∀ {n : ℕ} {bs : List (List α)}, e ∈ tagFrom n bs →
    n ≤ e.1 ∧ e.1 < n + bs.length
  | _, [], h => by simp [tagFrom] at h
  | n, b :: bs, h => by
    rw [tagFrom, List.mem_append] at h
    rcases h with h | h
    · obtain ⟨a, -, rfl⟩ := List.mem_map.mp h
      simp
    · have := mem_tagFrom h
      simp only [List.length_cons]
      omega

theorem pairwise_tagFrom : ∀ (n : ℕ) (bs : List (List α)),
    (tagFrom n bs).Pairwise fun a b => a.1 ≤ b.1
  | _, [] => List.Pairwise.nil
  | n, b :: bs => by
    rw [tagFrom, List.pairwise_append]
    refine ⟨?_, pairwise_tagFrom (n + 1) bs, ?_⟩
    · exact List.pairwise_map.mpr (List.pairwise_of_forall fun _ _ => Nat.le_refl n)
    · intro a ha c hc
      obtain ⟨x, -, rfl⟩ := List.mem_map.mp ha
      have := (mem_tagFrom hc).1
      simp only
      omega

theorem tagFrom_append : ∀ (n : ℕ) (bs₁ bs₂ : List (List α)),
    tagFrom n (bs₁ ++ bs₂) = tagFrom n bs₁ ++ tagFrom (n + bs₁.length) bs₂
  | _, [], _ => rfl
  | n, b :: bs₁, bs₂ => by
    rw [List.cons_append, tagFrom, tagFrom, tagFrom_append (n + 1) bs₁ bs₂, List.append_assoc,
      List.length_cons, Nat.add_assoc, Nat.add_comm 1]

theorem tagFrom_map {β : Type} (f : α → β) : ∀ (n : ℕ) (bs : List (List α)),
    tagFrom n (bs.map (List.map f)) = (tagFrom n bs).map fun e => (e.1, f e.2)
  | _, [] => rfl
  | n, b :: bs => by
    rw [List.map_cons, tagFrom, tagFrom, tagFrom_map f (n + 1) bs, List.map_append, List.map_map,
      List.map_map]
    rfl

theorem map_snd_filter_tagFrom : ∀ (n v : ℕ) (bs : List (List α)),
    ((tagFrom n bs).filter fun e => decide (e.1 < n + v)).map Prod.snd = (bs.take v).flatten
  | _, _, [] => by simp [tagFrom]
  | n, 0, b :: bs => by
    rw [List.filter_eq_nil_iff.mpr]
    · rfl
    · intro e he
      have := (mem_tagFrom he).1
      simp only [decide_eq_true_eq]
      omega
  | n, v + 1, b :: bs => by
    rw [tagFrom, List.filter_append, List.map_append, List.take_succ_cons, List.flatten_cons]
    congr 1
    · rw [List.filter_eq_self.mpr (by simp), List.map_map]
      exact List.map_id' b
    · rw [← map_snd_filter_tagFrom (n + 1) v bs]
      congr 2
      funext e
      congr 1
      exact propext ⟨fun h => by omega, fun h => by omega⟩

theorem stateAt_eq_lastTagged [DecidableEq κ] (h : History κ ν) (v : ℕ) (k : κ) :
    h.stateAt v k = ((((tagFrom 1 h).filter fun e => decide (e.1 ≤ v ∧ e.2.key = k)).getLast?).map
      fun e => e.2.value?).getD none := by
  have hsnd := map_snd_filter_tagFrom 1 v h
  rw [History.stateAt, applyWrites_apply, ← hsnd, List.filter_map, List.filter_filter,
    List.getLast?_map, Option.map_map]
  congr 3
  apply List.filter_congr
  intro e _
  rw [Function.comp_apply, Bool.decide_and, Bool.and_comm]
  simp only [Nat.lt_one_add_iff]
