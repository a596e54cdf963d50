import Mathlib

/-!
# Byte layouts

A memory as a list of bytes, read and written by offset: `readAt` and `writeAt`. A layout writes
chunks, an offset and the bytes to write there, one after another (`writeAll`). When every chunk
ends before the next one starts, each chunk reads back as it was written, and nothing outside the
chunks changes. `place` lays out chunks in slots of given widths, one after another, which gives
such a layout.

* `readAt_writeAt`, `getElem?_writeAt_of_lt`, `getElem?_writeAt_of_le`: one write;
* **`readAt_writeAll_of_mem`**, **`getElem?_writeAll_of_outside`**: the chunks of a layout read back,
  and the bytes outside them are kept;
* `place`, `width`: **`pairwise_before_place`**, and `offset_le_of_mem_place`,
  `end_le_of_mem_place`: the chunks lie in the slots.
-/

namespace Layout

variable {α : Type}

/-- The `len` bytes of `m` from offset `o` on. -/
def readAt (m : List α) (o len : ℕ) : List α := (m.drop o).take len

/-- `m` with the bytes `bs` written from offset `o` on. -/
def writeAt (m : List α) (o : ℕ) (bs : List α) : List α :=
  m.take o ++ bs ++ m.drop (o + bs.length)

/-- The chunks `ws` written in turn. -/
def writeAll (m : List α) (ws : List (ℕ × List α)) : List α :=
  ws.foldl (fun m w => writeAt m w.1 w.2) m

/-- Chunk `a` ends where chunk `b` starts, or before. -/
def Before (a b : ℕ × List α) : Prop := a.1 + a.2.length ≤ b.1

/-- The chunk `w` lies in `m`. -/
def Within (m : List α) (w : ℕ × List α) : Prop := w.1 + w.2.length ≤ m.length

/-! ## One write -/

theorem length_writeAt {m : List α} {o : ℕ} {bs : List α} (h : o + bs.length ≤ m.length) :
    (writeAt m o bs).length = m.length := by
  simp only [writeAt, List.length_append, List.length_take, List.length_drop]
  omega

theorem getElem?_readAt (m : List α) (o len j : ℕ) :
    (readAt m o len)[j]? = if j < len then m[o + j]? else none := by
  rw [readAt, List.getElem?_take, List.getElem?_drop]

theorem readAt_congr {m m' : List α} {o len : ℕ}
    (h : ∀ i, o ≤ i → i < o + len → m[i]? = m'[i]?) : readAt m o len = readAt m' o len := by
  apply List.ext_getElem?
  intro j
  rw [getElem?_readAt, getElem?_readAt]
  split_ifs with hj
  · exact h (o + j) (Nat.le_add_right o j) (by omega)
  · rfl

theorem getElem?_writeAt_of_lt {m : List α} {o : ℕ} {bs : List α} {i : ℕ}
    (h : o + bs.length ≤ m.length) (hi : i < o) : (writeAt m o bs)[i]? = m[i]? := by
  have htake : (m.take o).length = o := by rw [List.length_take]; omega
  rw [writeAt, List.append_assoc, List.getElem?_append_left (by omega), List.getElem?_take,
    if_pos hi]

theorem getElem?_writeAt_of_le {m : List α} {o : ℕ} {bs : List α} {i : ℕ}
    (h : o + bs.length ≤ m.length) (hi : o + bs.length ≤ i) : (writeAt m o bs)[i]? = m[i]? := by
  have htake : (m.take o ++ bs).length = o + bs.length := by
    rw [List.length_append, List.length_take]
    omega
  rw [writeAt, List.getElem?_append_right (by omega), List.getElem?_drop, htake]
  congr 1
  omega

theorem readAt_writeAt {m : List α} {o : ℕ} {bs : List α} (h : o + bs.length ≤ m.length) :
    readAt (writeAt m o bs) o bs.length = bs := by
  have htake : (m.take o).length = o := by rw [List.length_take]; omega
  rw [readAt, writeAt, List.append_assoc, List.drop_append_of_le_length (by omega),
    List.drop_of_length_le (by omega), List.nil_append, List.take_left]

theorem writeAt_append {m : List α} {o : ℕ} {bs : List α} (h : o + bs.length ≤ m.length)
    (e : List α) : writeAt m o bs ++ e = writeAt (m ++ e) o bs := by
  rw [writeAt, writeAt, List.take_append_of_le_length (by omega),
    List.drop_append_of_le_length (by omega)]
  simp only [List.append_assoc]

/-! ## Layouts -/

theorem length_writeAll : ∀ {m : List α} {ws : List (ℕ × List α)}, (∀ w ∈ ws, Within m w) →
    (writeAll m ws).length = m.length
  | _, [], _ => rfl
  | m, w :: ws, h => by
    have hw : (writeAt m w.1 w.2).length = m.length := length_writeAt (h w List.mem_cons_self)
    rw [writeAll, List.foldl_cons, ← writeAll, length_writeAll (m := writeAt m w.1 w.2), hw]
    intro x hx
    rw [Within, hw]
    exact h x (List.mem_cons_of_mem w hx)

/-- **Bytes outside every chunk are kept.** -/
theorem getElem?_writeAll_of_outside {i : ℕ} : ∀ {m : List α} {ws : List (ℕ × List α)},
    (∀ w ∈ ws, Within m w) → (∀ w ∈ ws, i < w.1 ∨ w.1 + w.2.length ≤ i) →
    (writeAll m ws)[i]? = m[i]?
  | _, [], _, _ => rfl
  | m, w :: ws, hin, hout => by
    have hw := hin w List.mem_cons_self
    have hlen : (writeAt m w.1 w.2).length = m.length := length_writeAt hw
    rw [writeAll, List.foldl_cons, ← writeAll]
    rw [getElem?_writeAll_of_outside (m := writeAt m w.1 w.2)
      (fun x hx => by rw [Within, hlen]; exact hin x (List.mem_cons_of_mem w hx))
      (fun x hx => hout x (List.mem_cons_of_mem w hx))]
    rcases hout w List.mem_cons_self with hi | hi
    · exact getElem?_writeAt_of_lt hw hi
    · exact getElem?_writeAt_of_le hw hi

/-- **Each chunk of a layout reads back**, when every chunk ends before the later ones start. -/
theorem readAt_writeAll_of_mem {w : ℕ × List α} : ∀ {m : List α} {ws : List (ℕ × List α)},
    ws.Pairwise Before → (∀ x ∈ ws, Within m x) → w ∈ ws →
    readAt (writeAll m ws) w.1 w.2.length = w.2
  | _, [], _, _, hw => absurd hw List.not_mem_nil
  | m, x :: ws, hpair, hin, hw => by
    have hx := hin x List.mem_cons_self
    have hlen : (writeAt m x.1 x.2).length = m.length := length_writeAt hx
    have hin' : ∀ y ∈ ws, Within (writeAt m x.1 x.2) y := fun y hy => by
      rw [Within, hlen]
      exact hin y (List.mem_cons_of_mem x hy)
    rw [List.pairwise_cons] at hpair
    rw [writeAll, List.foldl_cons, ← writeAll]
    rcases List.mem_cons.mp hw with rfl | hw
    · -- the later chunks start after this one ends
      rw [readAt_congr (m := writeAll (writeAt m w.1 w.2) ws) (fun i _ hi => getElem?_writeAll_of_outside hin'
        (fun y hy => Or.inl (Nat.lt_of_lt_of_le hi (hpair.1 y hy))))]
      exact readAt_writeAt hx
    · exact readAt_writeAll_of_mem hpair.2 hin' hw

/-! ## Slots -/

/-- Chunks laid out one after another from offset `o`, each in a slot of its width. -/
def place : ℕ → List (List α × ℕ) → List (ℕ × List α)
  | _, [] => []
  | o, s :: slots => (o, s.1) :: place (o + s.2) slots

/-- The width of slots laid out one after another. -/
def width (slots : List (List α × ℕ)) : ℕ := (slots.map Prod.snd).sum

theorem width_cons (s : List α × ℕ) (slots : List (List α × ℕ)) :
    width (s :: slots) = s.2 + width slots := by
  rw [width, List.map_cons, List.sum_cons, ← width]

theorem width_append (slots slots' : List (List α × ℕ)) :
    width (slots ++ slots') = width slots + width slots' := by
  rw [width, List.map_append, List.sum_append, ← width, ← width]

theorem place_append : ∀ (o : ℕ) (slots slots' : List (List α × ℕ)),
    place o (slots ++ slots') = place o slots ++ place (o + width slots) slots'
  | o, [], slots' => by rw [List.nil_append, place, List.nil_append, width]; rfl
  | o, s :: slots, slots' => by
    rw [List.cons_append, place, place, place_append, width_cons, Nat.add_assoc, List.cons_append]

theorem offset_le_of_mem_place : ∀ {o : ℕ} {slots : List (List α × ℕ)} {w : ℕ × List α},
    w ∈ place o slots → o ≤ w.1
  | _, [], _, hw => absurd hw List.not_mem_nil
  | o, s :: slots, w, hw => by
    rcases List.mem_cons.mp hw with rfl | hw
    · exact Nat.le_refl _
    · exact Nat.le_trans (Nat.le_add_right o s.2) (offset_le_of_mem_place hw)

theorem end_le_of_mem_place : ∀ {o : ℕ} {slots : List (List α × ℕ)}, (∀ s ∈ slots, s.1.length ≤ s.2) →
    ∀ {w : ℕ × List α}, w ∈ place o slots → w.1 + w.2.length ≤ o + width slots
  | _, [], _, _, hw => absurd hw List.not_mem_nil
  | o, s :: slots, hs, w, hw => by
    rw [width_cons]
    rcases List.mem_cons.mp hw with rfl | hw
    · have := hs s List.mem_cons_self
      show o + s.1.length ≤ o + (s.2 + width slots)
      omega
    · have := end_le_of_mem_place (fun s' hs' => hs s' (List.mem_cons_of_mem s hs')) hw
      omega

/-- **Chunks in slots end before the later ones start.** -/
theorem pairwise_before_place : ∀ {o : ℕ} {slots : List (List α × ℕ)},
    (∀ s ∈ slots, s.1.length ≤ s.2) → (place o slots).Pairwise Before
  | _, [], _ => List.Pairwise.nil
  | o, s :: slots, hs => by
    rw [place, List.pairwise_cons]
    refine ⟨fun w hw => ?_, pairwise_before_place fun s' hs' => hs s' (List.mem_cons_of_mem s hs')⟩
    have hle := offset_le_of_mem_place hw
    have := hs s List.mem_cons_self
    show o + s.1.length ≤ w.1
    omega

end Layout
