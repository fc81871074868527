import CddDriver.Lib.Block
import Mathlib.Tactic.Common
/-!
# Bounded stores

A store has a fixed number of cells and a fill level: the cells below it are
the content.  It is written at any place where the written cells fit, and read
as far as the content goes.  A block of memory holds the cells of a store.
-/

namespace CddDriver.Lib

def splice {α : Type} (l : List α) (pos : Nat) (xs : List α) : List α :=
  l.take pos ++ xs ++ l.drop (pos + xs.length)

section Splice

variable {α : Type} {l xs : List α} {pos : Nat}

theorem length_splice (h : pos + xs.length ≤ l.length) :
    (splice l pos xs).length = l.length := by
  simp only [splice, List.length_append, List.length_take, List.length_drop]
  omega

theorem getElem?_splice (h : pos + xs.length ≤ l.length) (i : Nat) :
    (splice l pos xs)[i]? =
      if pos ≤ i ∧ i < pos + xs.length then xs[i - pos]? else l[i]? := by
  have htake : (l.take pos).length = pos := by
    rw [List.length_take]
    omega
  unfold splice
  by_cases hlt : i < pos
  · rw [if_neg (by omega), List.append_assoc,
      List.getElem?_append_left (by omega), List.getElem?_take_of_lt hlt]
  · by_cases hin : i < pos + xs.length
    · rw [if_pos ⟨by omega, hin⟩, List.append_assoc,
        List.getElem?_append_right (by omega), htake,
        List.getElem?_append_left (by omega)]
    · rw [if_neg (by omega), List.getElem?_append_right (by
        rw [List.length_append]
        omega), List.getElem?_drop]
      congr 1
      rw [List.length_append]
      omega

end Splice

structure Store (α : Type) (cap : Nat) where
  cells : List α
  fill : Nat
  length_cells : cells.length = cap
  fill_le : fill ≤ cap

namespace Store

variable {α : Type} {cap : Nat}

def content (s : Store α cap) : List α := s.cells.take s.fill

def read (s : Store α cap) (pos n : Nat) : List α := (s.content.drop pos).take n

def put (s : Store α cap) (pos : Nat) (xs : List α)
    (h : pos + xs.length ≤ cap) : Store α cap where
  cells := splice s.cells pos xs
  fill := s.fill
  length_cells := by
    rw [length_splice (by rw [s.length_cells]; exact h), s.length_cells]
  fill_le := s.fill_le

def raise (s : Store α cap) (n : Nat) (h : n ≤ cap) : Store α cap :=
  { s with fill := max s.fill n, fill_le := Nat.max_le.mpr ⟨s.fill_le, h⟩ }

def write (s : Store α cap) (pos : Nat) (xs : List α)
    (h : pos + xs.length ≤ cap) : Store α cap :=
  (s.put pos xs h).raise (pos + xs.length) h

def empty (s : Store α cap) : Store α cap :=
  { s with fill := 0, fill_le := Nat.zero_le cap }

def replace (s : Store α cap) (data : Nat → α) : Store α cap :=
  { s with
    cells := (List.range cap).map data
    length_cells := by rw [List.length_map, List.length_range] }

variable (s : Store α cap) {pos n : Nat} {xs : List α}

@[simp] theorem length_content : s.content.length = s.fill := by
  have hle := s.fill_le
  rw [content, List.length_take, s.length_cells]
  omega

theorem length_read (pos n : Nat) :
    (s.read pos n).length = min n (s.fill - pos) := by
  rw [read, List.length_take, List.length_drop, length_content]

theorem getElem?_read (pos n i : Nat) :
    (s.read pos n)[i]? =
      if i < n ∧ pos + i < s.fill then s.cells[pos + i]? else none := by
  rw [read, content, List.getElem?_take, List.getElem?_drop,
    List.getElem?_take, ite_and]

/-! ### What a store holds -/

def Holds (s : Store α cap) (pos : Nat) (xs : List α) : Prop :=
  pos + xs.length ≤ s.fill ∧ ∀ i < xs.length, s.cells[pos + i]? = xs[i]?

theorem holds_write (h : pos + xs.length ≤ cap) : (s.write pos xs h).Holds pos xs := by
  have hcells : pos + xs.length ≤ s.cells.length := by
    rw [s.length_cells]
    exact h
  refine ⟨Nat.le_max_right _ _, fun i hi => ?_⟩
  show (splice s.cells pos xs)[pos + i]? = xs[i]?
  rw [getElem?_splice hcells, if_pos (by omega), Nat.add_sub_cancel_left]

section Holds

variable {s : Store α cap} {p : Nat} {ys : List α}

theorem Holds.put (h : s.Holds pos xs) (hfits : p + ys.length ≤ cap)
    (hapart : p + ys.length ≤ pos ∨ pos + xs.length ≤ p) :
    (s.put p ys hfits).Holds pos xs := by
  have hcells : p + ys.length ≤ s.cells.length := by
    rw [s.length_cells]
    exact hfits
  refine ⟨h.1, fun i hi => ?_⟩
  show (splice s.cells p ys)[pos + i]? = xs[i]?
  rw [getElem?_splice hcells, if_neg (by omega), h.2 i hi]

theorem Holds.write (h : s.Holds pos xs) (hfits : p + ys.length ≤ cap)
    (hapart : p + ys.length ≤ pos ∨ pos + xs.length ≤ p) :
    (s.write p ys hfits).Holds pos xs := by
  obtain ⟨hle, hcells⟩ := h.put hfits hapart
  exact ⟨Nat.le_trans hle (Nat.le_max_left _ _), hcells⟩

theorem Holds.take_read (h : s.Holds pos xs) (hn : xs.length ≤ n) :
    (s.read pos n).take xs.length = xs := by
  obtain ⟨hle, hcells⟩ := h
  apply List.ext_getElem?
  intro i
  by_cases hi : i < xs.length
  · rw [List.getElem?_take_of_lt hi, getElem?_read, if_pos (by omega), hcells i hi]
  · rw [List.getElem?_take_eq_none (by omega), List.getElem?_eq_none (by omega)]

end Holds

end Store

/-! ## The cells of a block -/

namespace Block

variable {α : Type}

def cells (b : Block α) : List α := (List.range b.size).map b.data

@[simp] theorem length_cells (b : Block α) : b.cells.length = b.size := by
  rw [cells, List.length_map, List.length_range]

theorem getElem?_cells {b : Block α} {i : Nat} (h : i < b.size) :
    b.cells[i]? = some (b.data i) := by
  rw [cells, List.getElem?_map, List.getElem?_range h, Option.map_some]

theorem cells_store (b : Block α) {pos : Nat} {xs : List α}
    (h : pos + xs.length ≤ b.size) :
    (b.store pos xs).cells = splice b.cells pos xs := by
  have hlen : pos + xs.length ≤ b.cells.length := by
    rw [length_cells]
    exact h
  apply List.ext_getElem?
  intro i
  rw [getElem?_splice hlen]
  by_cases hi : i < b.size
  · rw [getElem?_cells (b := b.store pos xs) hi, getElem?_cells hi]
    by_cases hin : pos ≤ i ∧ i < pos + xs.length
    · have hoff : i = pos + (i - pos) := by omega
      rw [if_pos hin, List.getElem?_eq_getElem (by omega)]
      conv_lhs => rw [hoff]
      exact congrArg some (b.store_inside (by omega))
    · rw [if_neg hin, b.store_outside (by omega)]
  · have hnone : ∀ c : Block α, c.size = b.size → c.cells[i]? = none := by
      intro c hc
      apply List.getElem?_eq_none
      rw [length_cells, hc]
      omega
    rw [hnone (b.store pos xs) rfl, hnone b rfl, if_neg (by omega)]

end Block

end CddDriver.Lib
