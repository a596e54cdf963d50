import InternetComputer.StableStructures.RestrictedMemory
import InternetComputer.Lib.Layout

/-!
# Memories of bytes

What the stable structures ask of a `Memory`: that it holds bytes. `MemoryOps.Lawful M bytes` says
that `M` reads and writes the byte string `bytes s` of each state `s` within its bounds, that the
string holds at least the memory's pages, and that growing by some pages appends to it. The
vector memory is lawful with its vector as its bytes.

Over a lawful memory, `write` of `lib.rs` writes into the bytes after they may have grown
(`Lawful.write_spec`), and so does a run of writes, `writes`: it writes a layout into the grown
bytes (`Lawful.writes_spec`). A run of writes that lies within the pages the memory has needs no
grow and does not fail (`Lawful.writes_of_within`).
-/

namespace IC.StableStructures

open Layout

variable {σ : Type}

/-- A memory whose reads and writes are those of a byte string holding its pages. -/
structure MemoryOps.Lawful (M : MemoryOps σ) (bytes : σ → List UInt8) : Prop where
  size_le : ∀ s, M.size s * WASM_PAGE_SIZE ≤ (bytes s).length
  read_eq : ∀ s o len, o + len ≤ (bytes s).length → o + len < 2 ^ 64 →
    M.read s o len = .ok (readAt (bytes s) o len)
  write_eq : ∀ s o bs, o + bs.length ≤ (bytes s).length → o + bs.length < 2 ^ 64 →
    ∃ s', M.write s o bs = .ok s' ∧ bytes s' = writeAt (bytes s) o bs ∧ M.size s' = M.size s
  grow_eq : ∀ s pages, 0 < pages → (M.grow s pages).1 ≠ -1 →
    M.size (M.grow s pages).2 = M.size s + pages ∧ ∃ e, bytes (M.grow s pages).2 = bytes s ++ e

/-- **The vector memory holds the bytes of its vector.** -/
theorem VectorMemory.lawful : VectorMemory.ops.Lawful id where
  size_le v := Nat.div_mul_le_self v.length WASM_PAGE_SIZE
  read_eq _ _ _ h h64 := VectorMemory.read_eq_ok h h64
  write_eq v o bs h h64 := by
    refine ⟨_, VectorMemory.write_eq_ok h h64, rfl, ?_⟩
    show VectorMemory.size (writeAt v o bs) = VectorMemory.size v
    rw [VectorMemory.size, VectorMemory.size, length_writeAt (m := v) h]
  grow_eq v pages hpages hr := by
    show VectorMemory.size (VectorMemory.grow v pages).2 = VectorMemory.size v + pages ∧
      ∃ e, (VectorMemory.grow v pages).2 = v ++ e
    by_cases h : VectorMemory.size v + pages ≤ MAX_PAGES
    · rw [VectorMemory.grow_of_le h, VectorMemory.size_resize]
      -- a grow by a page or more reaches past the vector, so the resize only appends zeros
      have hlen : v.length ≤ (VectorMemory.size v + pages) * WASM_PAGE_SIZE := by
        have := Nat.lt_div_mul_add (a := v.length) (show 0 < WASM_PAGE_SIZE by decide)
        rw [Nat.add_mul, VectorMemory.size]
        have : WASM_PAGE_SIZE ≤ pages * WASM_PAGE_SIZE := Nat.le_mul_of_pos_left _ hpages
        omega
      refine ⟨rfl, ?_⟩
      rw [VectorMemory.resize, List.take_of_length_le hlen]
      exact ⟨_, rfl⟩
    · exfalso
      apply hr
      show (VectorMemory.grow v pages).1 = -1
      unfold VectorMemory.grow
      dsimp only
      split_ifs <;> first | rfl | omega

namespace MemoryOps.Lawful

variable {M : MemoryOps σ} {bytes : σ → List UInt8}

/-- **`write` of `lib.rs` writes into the bytes**, within the grown bytes. -/
theorem write_spec (hM : M.Lawful bytes) {s s' : σ} {o : ℕ} {bs : List UInt8}
    (h : StableStructures.write M s o bs = .ok s') :
    ∃ e, Within (bytes s ++ e) (o, bs) ∧ o + bs.length < 2 ^ 64 ∧
      bytes s' = writeAt (bytes s ++ e) o bs := by
  unfold StableStructures.write at h
  obtain ⟨⟨⟩, h64, h⟩ := Except.bind_eq_ok.mp h
  obtain ⟨⟨⟩, -, h⟩ := Except.bind_eq_ok.mp h
  have h64 : o + bs.length < 2 ^ 64 := by simpa using Rust.assert_eq_ok.mp h64
  dsimp only at h
  -- the memory written to: the memory itself, or the memory grown to hold the bytes
  obtain ⟨g, e, he, hlen, hwrite⟩ : ∃ g e, bytes g = bytes s ++ e ∧
      o + bs.length ≤ (bytes g).length ∧ M.write g o bs = .ok s' := by
    split_ifs at h with hlt
    · obtain ⟨⟨⟩, -, h⟩ := Except.bind_eq_ok.mp h
      have hpos : 0 < (o + bs.length - M.size s * WASM_PAGE_SIZE + (WASM_PAGE_SIZE - 1)) /
          WASM_PAGE_SIZE := Nat.div_pos (by omega) (by decide)
      obtain ⟨⟨⟩, hr, h⟩ := Except.bind_eq_ok.mp h
      have hr : (M.grow s ((o + bs.length - M.size s * WASM_PAGE_SIZE + (WASM_PAGE_SIZE - 1)) /
          WASM_PAGE_SIZE)).1 ≠ -1 := by simpa using Rust.assert_eq_ok.mp hr
      obtain ⟨hsize, e, he⟩ := hM.grow_eq s _ hpos hr
      refine ⟨_, e, he, le_trans ?_ (hM.size_le _), by simpa using h⟩
      rw [hsize, Nat.add_mul]
      have := Nat.lt_div_mul_add (a := o + bs.length - M.size s * WASM_PAGE_SIZE +
        (WASM_PAGE_SIZE - 1)) (show 0 < WASM_PAGE_SIZE by decide)
      have : WASM_PAGE_SIZE = 65536 := rfl
      omega
    · exact ⟨s, [], (List.append_nil _).symm, le_trans (by omega) (hM.size_le s), by simpa using h⟩
  obtain ⟨s'', hs'', hbytes, -⟩ := hM.write_eq g o bs hlen h64
  rw [hs'', Except.ok.injEq] at hwrite
  subst hwrite
  exact ⟨e, he ▸ hlen, h64, he ▸ hbytes⟩

theorem write_of_within (hM : M.Lawful bytes) {s : σ} {o : ℕ} {bs : List UInt8}
    (h : o + bs.length ≤ M.size s * WASM_PAGE_SIZE) (h64 : M.size s * WASM_PAGE_SIZE < 2 ^ 64) :
    ∃ s', StableStructures.write M s o bs = .ok s' ∧ bytes s' = writeAt (bytes s) o bs ∧
      M.size s' = M.size s := by
  obtain ⟨s', hs', hbytes, hsize⟩ :=
    hM.write_eq s o bs (le_trans h (hM.size_le s)) (by omega)
  refine ⟨s', ?_, hbytes, hsize⟩
  simp only [StableStructures.write, Rust.assert, decide_eq_true (show o + bs.length < 2 ^ 64 by omega),
    decide_eq_true h64, if_neg (show ¬M.size s * WASM_PAGE_SIZE < o + bs.length by omega),
    if_true]
  exact hs'

end MemoryOps.Lawful

/-! ## Runs of writes -/

/-- The chunks `ws` written in turn by `write` of `lib.rs`. -/
def writes (M : MemoryOps σ) (memory : σ) (ws : List (ℕ × List UInt8)) : Except String σ :=
  ws.foldlM (fun m w => write M m w.1 w.2) memory

theorem writes_nil (M : MemoryOps σ) (memory : σ) : writes M memory [] = .ok memory := rfl

theorem writes_cons (M : MemoryOps σ) (memory : σ) (w : ℕ × List UInt8)
    (ws : List (ℕ × List UInt8)) :
    writes M memory (w :: ws) = write M memory w.1 w.2 >>= fun m => writes M m ws := rfl

theorem writes_append (M : MemoryOps σ) (memory : σ) (ws ws' : List (ℕ × List UInt8)) :
    writes M memory (ws ++ ws') = writes M memory ws >>= fun m => writes M m ws' :=
  List.foldlM_append

namespace MemoryOps.Lawful

variable {M : MemoryOps σ} {bytes : σ → List UInt8}

/-- **A run of writes writes its layout into the bytes**. -/
theorem writes_spec (hM : M.Lawful bytes) : ∀ {ws : List (ℕ × List UInt8)} {s s' : σ},
    writes M s ws = .ok s' → ∃ e, (∀ w ∈ ws, Within (bytes s ++ e) w ∧ w.1 + w.2.length < 2 ^ 64) ∧
      bytes s' = writeAll (bytes s ++ e) ws
  | [], s, s', h => by
    cases Except.pure_eq_ok.mp h
    exact ⟨[], fun w hw => absurd hw List.not_mem_nil, (List.append_nil _).symm⟩
  | w :: ws, s, s', h => by
    rw [writes_cons] at h
    obtain ⟨s₁, h₁, h⟩ := Except.bind_eq_ok.mp h
    obtain ⟨e₁, hin₁, h64₁, hbytes₁⟩ := hM.write_spec h₁
    obtain ⟨e₂, hin₂, hbytes₂⟩ := hM.writes_spec h
    have hlen₁ : (bytes s₁).length = (bytes s ++ e₁).length := by
      rw [hbytes₁, length_writeAt hin₁]
    -- the bytes appended later could have been appended before the first write
    refine ⟨e₁ ++ e₂, fun x hx => ?_, ?_⟩
    · rcases List.mem_cons.mp hx with rfl | hx
      · refine ⟨?_, h64₁⟩
        simp only [Within, List.length_append] at hin₁ ⊢
        omega
      · obtain ⟨hin, h64⟩ := hin₂ x hx
        refine ⟨?_, h64⟩
        simp only [Within, List.length_append] at hin hlen₁ ⊢
        omega
    · rw [hbytes₂, hbytes₁, writeAt_append hin₁, ← List.append_assoc]
      rfl

/-- **A run of writes within the pages of the memory does not fail**, and writes its layout. -/
theorem writes_of_within (hM : M.Lawful bytes) {ws : List (ℕ × List UInt8)} :
    ∀ {s : σ}, (∀ w ∈ ws, w.1 + w.2.length ≤ M.size s * WASM_PAGE_SIZE) →
    M.size s * WASM_PAGE_SIZE < 2 ^ 64 →
    ∃ s', writes M s ws = .ok s' ∧ bytes s' = writeAll (bytes s) ws := by
  induction ws with
  | nil => exact fun {s} _ _ => ⟨s, rfl, rfl⟩
  | cons w ws ih =>
    intro s hin h64
    obtain ⟨s₁, h₁, hbytes₁, hsize₁⟩ := hM.write_of_within (hin w List.mem_cons_self) h64
    have hin₁ : ∀ x ∈ ws, x.1 + x.2.length ≤ M.size s₁ * WASM_PAGE_SIZE := fun x hx => by
      rw [hsize₁]
      exact hin x (List.mem_cons_of_mem w hx)
    obtain ⟨s', h', hbytes'⟩ := ih hin₁ (by rw [hsize₁]; exact h64)
    refine ⟨s', ?_, ?_⟩
    · rw [writes_cons, h₁, Except.ok_bind, h']
    · rw [hbytes', hbytes₁]
      rfl

end MemoryOps.Lawful

end IC.StableStructures
