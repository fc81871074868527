import Mathlib.Tactic.Common
/-!
# Blocks of memory

A block has a size in cells and a content.  Cells at or past the size exist in
the content function only; the code that stores checks its range first.
-/

namespace CddDriver.Lib

/-- `size` cells of memory; cell `i` holds `data i`. -/
structure Block (α : Type) where
  size : Nat
  data : Nat → α

namespace Block

variable {α : Type}

def store (b : Block α) (pos : Nat) (xs : List α) : Block α where
  size := b.size
  data i := if pos ≤ i then (xs[i - pos]?).getD (b.data i) else b.data i

@[simp] theorem store_nil (b : Block α) (pos : Nat) : b.store pos [] = b := by
  simp [store]

theorem store_inside (b : Block α) {pos i : Nat} {xs : List α}
    (h : i < xs.length) : (b.store pos xs).data (pos + i) = xs[i] := by
  simp [store, h]

theorem store_outside (b : Block α) {pos i : Nat} {xs : List α}
    (h : i < pos ∨ pos + xs.length ≤ i) :
    (b.store pos xs).data i = b.data i := by
  rcases h with h | h
  · simp [store, Nat.not_le.mpr h]
  · have hi : xs[i - pos]? = none := List.getElem?_eq_none (by omega)
    simp [store, hi]

/-! ### A store at the start -/

theorem store_start_inside (b : Block α) {i : Nat} {xs : List α}
    (h : i < xs.length) : (b.store 0 xs).data i = xs[i] := by
  have hinside : (b.store 0 xs).data (0 + i) = xs[i] := b.store_inside h
  rwa [Nat.zero_add] at hinside

theorem store_start_outside (b : Block α) {i : Nat} {xs : List α}
    (h : xs.length ≤ i) : (b.store 0 xs).data i = b.data i :=
  b.store_outside (.inr (by omega))

theorem store_start_eq_self {b : Block α} {xs : List α}
    (h : ∀ i, ∀ hi : i < xs.length, b.data i = xs[i]) : b.store 0 xs = b := by
  have hdata : (b.store 0 xs).data = b.data := by
    funext i
    by_cases hi : i < xs.length
    · rw [b.store_start_inside hi, h i hi]
    · exact b.store_start_outside (Nat.not_lt.mp hi)
  show Block.mk b.size (b.store 0 xs).data = b
  rw [hdata]

end Block

/-! ## What is known of a memory -/

/-- The values last stored to the cells of a memory, where they are known. -/
abbrev Known (α : Type) := Nat → Option α

namespace Known

variable {α : Type}

def nothing : Known α := fun _ => none

def store (k : Known α) (pos : Nat) (xs : List α) : Known α := fun i =>
  if pos ≤ i ∧ i < pos + xs.length then xs[i - pos]? else k i

/-- What is known after a store was either stored just now, or known before and
not stored to. -/
theorem store_eq_some {k : Known α} {pos i : Nat} {xs : List α} {v : α}
    (h : k.store pos xs i = some v) :
    (∃ j, ∃ hj : j < xs.length, i = pos + j ∧ xs[j] = v) ∨
      ((i < pos ∨ pos + xs.length ≤ i) ∧ k i = some v) := by
  unfold store at h
  by_cases hin : pos ≤ i ∧ i < pos + xs.length
  · rw [if_pos hin] at h
    obtain ⟨hj, hv⟩ := List.getElem?_eq_some_iff.mp h
    exact .inl ⟨i - pos, hj, by omega, hv⟩
  · rw [if_neg hin] at h
    exact .inr ⟨by omega, h⟩

end Known

end CddDriver.Lib
