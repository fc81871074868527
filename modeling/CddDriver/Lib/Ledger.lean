import Mathlib.Tactic.Common
/-!
# Ledgers of acquired resources

A ledger lists every resource a program ever acquired, oldest first, with the
releases it was given since.  The handle of a resource is its place in the
list, so handles are never reused and a second release stays visible.
-/

namespace CddDriver.Lib

/-- A resource `item` and the releases it has received, oldest first. -/
structure Entry (α ρ : Type) where
  item : α
  releases : List ρ
  deriving DecidableEq

/-- Every resource ever acquired; a handle is an index. -/
abbrev Ledger (α ρ : Type) := List (Entry α ρ)

namespace Ledger

variable {α ρ : Type}

def acquire (l : Ledger α ρ) (a : α) : Ledger α ρ := l ++ [⟨a, []⟩]

def release (l : Ledger α ρ) (h : Nat) (r : ρ) : Ledger α ρ :=
  l.modify h fun e => { e with releases := e.releases ++ [r] }

def update (l : Ledger α ρ) (h : Nat) (f : α → α) : Ledger α ρ :=
  l.modify h fun e => { e with item := f e.item }

/-- Release the first resource that satisfies `p` and is still held. -/
def releaseFirst (l : Ledger α ρ) (p : α → Bool) (r : ρ) : Ledger α ρ :=
  l.release (l.findIdx fun e => p e.item && e.releases.isEmpty) r

def ReleasedOnce (l : Ledger α ρ) : Prop := ∀ e ∈ l, e.releases.length = 1

def NoneHeld (l : Ledger α ρ) : Prop := ∀ e ∈ l, e.releases ≠ []

def held (l : Ledger α ρ) (p : α → Bool) : Nat :=
  l.countP fun e => p e.item && e.releases.isEmpty

def live (l : Ledger α ρ) (h : Nat) : Option α :=
  (l[h]?).bind fun e => if e.releases.isEmpty then some e.item else none

instance (l : Ledger α ρ) : Decidable (ReleasedOnce l) :=
  inferInstanceAs (Decidable (∀ e ∈ l, e.releases.length = 1))

@[simp] theorem getElem?_acquire_self (l : Ledger α ρ) (a : α) :
    (l.acquire a)[l.length]? = some ⟨a, []⟩ := by
  simp [acquire]

theorem getElem?_acquire_of_lt {l : Ledger α ρ} {h : Nat} (a : α)
    (hlt : h < l.length) : (l.acquire a)[h]? = l[h]? :=
  List.getElem?_append_left hlt

theorem getElem?_acquire_of_some {l : Ledger α ρ} {h : Nat} {e : Entry α ρ}
    (a : α) (he : l[h]? = some e) : (l.acquire a)[h]? = some e := by
  rw [getElem?_acquire_of_lt a (List.getElem?_eq_some_iff.mp he).1, he]

theorem getElem?_update_self {l : Ledger α ρ} {h : Nat} {e : Entry α ρ}
    (f : α → α) (he : l[h]? = some e) :
    (l.update h f)[h]? = some { e with item := f e.item } := by
  simp [update, he]

theorem getElem?_update_ne {h k : Nat} (l : Ledger α ρ) (f : α → α)
    (hne : h ≠ k) : (l.update h f)[k]? = l[k]? := by
  simp [update, hne]

theorem getElem?_release_self {l : Ledger α ρ} {h : Nat} {e : Entry α ρ}
    (r : ρ) (he : l[h]? = some e) :
    (l.release h r)[h]? = some { e with releases := e.releases ++ [r] } := by
  simp [release, he]

theorem getElem?_release_ne {h k : Nat} (l : Ledger α ρ) (r : ρ)
    (hne : h ≠ k) : (l.release h r)[k]? = l[k]? := by
  simp [release, hne]

/-! ## The newest resource -/

theorem modify_append (l : Ledger α ρ) (e : Entry α ρ)
    (f : Entry α ρ → Entry α ρ) :
    List.modify (l ++ [e]) l.length f = l ++ [f e] := by
  induction l with
  | nil => rfl
  | cons a l ih => exact congrArg (a :: ·) ih

theorem update_append (l : Ledger α ρ) (e : Entry α ρ) (f : α → α) :
    update (l ++ [e]) l.length f = l ++ [{ e with item := f e.item }] :=
  modify_append l e _

theorem release_append (l : Ledger α ρ) (e : Entry α ρ) (r : ρ) :
    release (l ++ [e]) l.length r =
      l ++ [{ e with releases := e.releases ++ [r] }] :=
  modify_append l e _

theorem live_append (l : Ledger α ρ) (a : α) :
    live (l ++ [⟨a, []⟩]) l.length = some a := by
  simp [live]

/-! ## What is held -/

@[simp] theorem held_nil (p : α → Bool) : held ([] : Ledger α ρ) p = 0 := rfl

@[simp] theorem held_acquire (l : Ledger α ρ) (a : α) (p : α → Bool) :
    (l.acquire a).held p = l.held p + if p a then 1 else 0 := by
  simp [held, acquire]

theorem releaseFirst_cons (e : Entry α ρ) (l : Ledger α ρ) (p : α → Bool)
    (r : ρ) :
    releaseFirst (e :: l) p r =
      if p e.item && e.releases.isEmpty then
        { e with releases := e.releases ++ [r] } :: l
      else e :: releaseFirst l p r := by
  unfold releaseFirst release
  rw [List.findIdx_cons]
  cases p e.item && e.releases.isEmpty <;> rfl

section Path

variable [DecidableEq α]

theorem held_releaseFirst {l : Ledger α ρ} {a : α} (p : α → Bool) (r : ρ)
    (h : 0 < l.held fun b => b = a) :
    (l.releaseFirst (fun b => b = a) r).held p + (if p a then 1 else 0) =
      l.held p := by
  induction l with
  | nil => exact absurd h (Nat.lt_irrefl 0)
  | cons e l ih =>
      rw [releaseFirst_cons]
      by_cases hfirst : e.item = a ∧ e.releases = []
      · obtain ⟨rfl, hnil⟩ := hfirst
        simp [held, List.countP_cons, hnil]
      · have hskip : (decide (e.item = a) && e.releases.isEmpty) = false := by
          simpa [List.isEmpty_iff] using hfirst
        have hrest : 0 < held l fun b => b = a := by
          simpa [held, List.countP_cons, hskip] using h
        have hl := ih hrest
        simp only [hskip, Bool.false_eq_true, if_false]
        simp only [held, List.countP_cons] at hl ⊢
        omega

end Path

end Ledger

end CddDriver.Lib
