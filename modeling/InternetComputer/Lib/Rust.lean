import Mathlib

/-!
# Rust primitives

Checked `u64` arithmetic and the panicking unwraps of Rust, for shallow models of Rust code in
which a function that may panic returns `Except String` and an error is the panic's message.

* `checkedAdd`, `checkedSub`, `saturatingSub` with their value lemmas in `toNat`;
* `expect`, `expectOk`: `Option::expect` and `Result::expect`; `assert`, `index`, `set`,
  `sliceTo`, `slice`, `remove`, `insert`, `splitOff`: `assert!`, indexing, slicing, and the `Vec` edits
  that panic out of bounds;
* `Yields`: what the calls of an iterator's `next` give up to its end;
* `Except.bind_eq_ok`, `Except.map_eq_ok`: a run of `x >>= f` that does not panic is a run of
  `x` and of `f`.
-/

namespace Rust

/-- `u64::checked_add`. -/
def checkedAdd (a b : UInt64) : Option UInt64 :=
  if a.toNat + b.toNat < 2 ^ 64 then some (a + b) else none

/-- `u64::checked_sub`. -/
def checkedSub (a b : UInt64) : Option UInt64 :=
  if b.toNat ≤ a.toNat then some (a - b) else none

/-- `u64::saturating_sub`. -/
def saturatingSub (a b : UInt64) : UInt64 :=
  if b.toNat ≤ a.toNat then a - b else 0

theorem checkedAdd_eq_some_iff {a b c : UInt64} :
    checkedAdd a b = some c ↔ a.toNat + b.toNat < 2 ^ 64 ∧ c.toNat = a.toNat + b.toNat := by
  unfold checkedAdd
  split_ifs with h
  · rw [Option.some.injEq]
    constructor
    · rintro rfl
      rw [UInt64.toNat_add]
      exact ⟨h, Nat.mod_eq_of_lt h⟩
    · rintro ⟨-, hc⟩
      apply UInt64.toNat_inj.mp
      rw [hc, UInt64.toNat_add, Nat.mod_eq_of_lt h]
  · simp only [false_iff, not_and]
    exact fun h' => absurd h' h

theorem checkedAdd_eq_none_iff {a b : UInt64} :
    checkedAdd a b = none ↔ 2 ^ 64 ≤ a.toNat + b.toNat := by
  unfold checkedAdd
  split_ifs with h <;> simp only [true_iff, false_iff] <;> omega

theorem checkedSub_eq_some_iff {a b c : UInt64} :
    checkedSub a b = some c ↔ b.toNat ≤ a.toNat ∧ c.toNat = a.toNat - b.toNat := by
  unfold checkedSub
  split_ifs with h
  · rw [Option.some.injEq]
    have hle : b ≤ a := UInt64.le_iff_toNat_le.mpr h
    constructor
    · rintro rfl
      exact ⟨h, UInt64.toNat_sub_of_le a b hle⟩
    · rintro ⟨-, hc⟩
      apply UInt64.toNat_inj.mp
      rw [hc, UInt64.toNat_sub_of_le a b hle]
  · simp only [false_iff, not_and]
    exact fun h' => absurd h' h

theorem checkedSub_eq_none_iff {a b : UInt64} :
    checkedSub a b = none ↔ a.toNat < b.toNat := by
  unfold checkedSub
  split_ifs with h <;> simp only [true_iff, false_iff] <;> omega

/-! ## Panics -/

variable {α ε : Type}

/-- `Option::expect`: the value, or a panic with message `msg`. -/
def expect (o : Option α) (msg : String) : Except String α :=
  match o with
  | some a => .ok a
  | none => .error msg

/-- `Result::expect`: the value, or a panic with message `msg`. -/
def expectOk (r : Except ε α) (msg : String) : Except String α :=
  match r with
  | .ok a => .ok a
  | .error _ => .error msg

/-- `assert!`: nothing, or a panic with message `msg`. -/
def assert (c : Bool) (msg : String) : Except String Unit :=
  if c then .ok () else .error msg

/-- Indexing a slice, `l[i]`: the element, or a panic. -/
def index (l : List α) (i : ℕ) : Except String α :=
  expect l[i]? "index out of bounds"

/-- Assigning to a slice, `l[i] = a`: the slice with `a` at `i`, or a panic. -/
def set (l : List α) (i : ℕ) (a : α) : Except String (List α) :=
  if i < l.length then .ok (l.set i a) else .error "index out of bounds"

/-- The slice `l[..n]`: the first `n` elements, or a panic past the end. -/
def sliceTo (l : List α) (n : ℕ) : Except String (List α) :=
  if n ≤ l.length then .ok (l.take n) else .error "range end index out of range for slice"

/-- The slice `l[a..b]`: a panic when the range is inverted or runs past the end. -/
def slice (l : List α) (a b : ℕ) : Except String (List α) :=
  if a > b then .error "slice index starts past its end"
  else if b > l.length then .error "range end index out of range for slice"
  else .ok ((l.drop a).take (b - a))

/-- `Vec::remove`: the element at `i` and the rest, or a panic. -/
def remove (l : List α) (i : ℕ) : Except String (α × List α) := do
  let a ← index l i
  pure (a, l.eraseIdx i)

/-- `Vec::insert`: `a` inserted at `i`, or a panic past the end. -/
def insert (l : List α) (i : ℕ) (a : α) : Except String (List α) :=
  if i ≤ l.length then .ok (l.insertIdx i a) else .error "insertion index should be <= len"

/-- `Vec::split_off`: the first `i` elements and the rest, or a panic past the end. -/
def splitOff (l : List α) (i : ℕ) : Except String (List α × List α) :=
  if i ≤ l.length then .ok (l.take i, l.drop i) else .error "split index should be <= len"

@[simp]
theorem assert_eq_ok {c : Bool} {msg : String} {u : Unit} : assert c msg = .ok u ↔ c = true := by
  cases c <;> simp [assert]

@[simp]
theorem index_eq_ok {l : List α} {i : ℕ} {a : α} : index l i = .ok a ↔ l[i]? = some a := by
  cases h : l[i]? <;> simp [index, expect, h]

theorem set_of_lt {l : List α} {i : ℕ} (a : α) (h : i < l.length) : set l i a = .ok (l.set i a) :=
  if_pos h

theorem sliceTo_of_le {l : List α} {n : ℕ} (h : n ≤ l.length) : sliceTo l n = .ok (l.take n) :=
  if_pos h

@[simp]
theorem expect_eq_ok {o : Option α} {msg : String} {a : α} :
    expect o msg = .ok a ↔ o = some a := by
  cases o <;> simp [expect]

theorem foldlM_expect_some {β γ : Type} {o : Option γ} {c : γ} (h : o = some c) (msg : String)
    (f : β → α → γ → β) (l : List α) (b : β) :
    l.foldlM (fun b a => do
      let c ← expect o msg
      pure (f b a c)) b = .ok (l.foldl (fun b a => f b a c) b) := by
  subst h
  exact List.foldlM_pure

@[simp]
theorem expectOk_eq_ok {r : Except ε α} {msg : String} {a : α} :
    expectOk r msg = .ok a ↔ r = .ok a := by
  cases r <;> simp [expectOk]

/-! ## Iterators -/

/-- The items successive calls of `next` give, without a panic, up to the first `None`. -/
inductive Yields {σ : Type} (next : σ → Except String (Option α × σ)) : σ → List α → Prop
  | nil {it it' : σ} : next it = .ok (none, it') → Yields next it []
  | cons {it it' : σ} {a : α} {as : List α} :
      next it = .ok (some a, it') → Yields next it' as → Yields next it (a :: as)

end Rust

namespace Except

variable {ε α β : Type}

theorem bind_eq_ok {x : Except ε α} {f : α → Except ε β} {b : β} :
    x >>= f = .ok b ↔ ∃ a, x = .ok a ∧ f a = .ok b := by
  cases x <;> simp [bind, Except.bind]

@[simp]
theorem ok_bind {a : α} {f : α → Except ε β} : (Except.ok a >>= f) = f a := rfl

@[simp]
theorem error_bind {e : ε} {f : α → Except ε β} : (Except.error e >>= f) = .error e := rfl

@[simp]
theorem pure_eq_ok {a b : α} : (pure a : Except ε α) = .ok b ↔ a = b := by
  simp [pure, Except.pure]

@[simp]
theorem mapError_eq_ok {ε' : Type} {f : ε → ε'} {x : Except ε α} {a : α} :
    x.mapError f = .ok a ↔ x = .ok a := by
  cases x <;> simp [Except.mapError]

theorem map_eq_ok {f : α → β} {x : Except ε α} {b : β} :
    f <$> x = .ok b ↔ ∃ a, x = .ok a ∧ f a = b := by
  cases x <;> simp [Functor.map, Except.map]

/-- A result that passes a test: how a run that the kernel evaluates is read back. -/
theorem exists_eq_ok_of_toOption_map {x : Except ε α} {p : α → Bool}
    (h : x.toOption.map p = some true) : ∃ a, x = .ok a ∧ p a = true := by
  cases x with
  | error e => cases h
  | ok a => exact ⟨a, rfl, Option.some.inj h⟩

theorem forM_eq_ok {f : α → Except ε Unit} :
    ∀ {xs : List α}, xs.forM f = .ok () ↔ ∀ x ∈ xs, f x = .ok ()
  | [] => by simp [pure, Except.pure]
  | x :: xs => by
    rw [List.forM_eq_forM, List.forM_cons, ← List.forM_eq_forM, bind_eq_ok, forM_eq_ok,
      List.forall_mem_cons]
    constructor
    · rintro ⟨⟨⟩, hx, hxs⟩
      exact ⟨hx, hxs⟩
    · rintro ⟨hx, hxs⟩
      exact ⟨⟨⟩, hx, hxs⟩

theorem foldlM_invariant {P : β → Prop} {f : β → α → Except ε β} :
    ∀ (xs : List α) {b b' : β}, (∀ b, ∀ a ∈ xs, ∀ b', P b → f b a = .ok b' → P b') → P b →
      xs.foldlM f b = .ok b' → P b'
  | [], _, _, _, hb, h => by
    rw [List.foldlM_nil] at h
    exact pure_eq_ok.mp h ▸ hb
  | x :: xs, _, _, hf, hb, h => by
    rw [List.foldlM_cons] at h
    obtain ⟨b₁, hstep, hrest⟩ := bind_eq_ok.mp h
    have hx := hf _ x List.mem_cons_self b₁ hb hstep
    exact foldlM_invariant xs (fun b a ha => hf b a (List.mem_cons_of_mem x ha)) hx hrest

theorem foldlM_map_eq {γ : Type} {π : β → γ} {g : γ → α → γ} {f : β → α → Except ε β}
    (hf : ∀ b a b', f b a = .ok b' → π b' = g (π b) a) :
    ∀ (xs : List α) {b b' : β}, xs.foldlM f b = .ok b' → π b' = xs.foldl g (π b)
  | [], _, _, h => by
    rw [List.foldlM_nil] at h
    rw [← pure_eq_ok.mp h]
    rfl
  | x :: xs, _, _, h => by
    rw [List.foldlM_cons] at h
    obtain ⟨b₁, hstep, hrest⟩ := bind_eq_ok.mp h
    rw [foldlM_map_eq hf xs hrest, hf _ x b₁ hstep]
    rfl

end Except
