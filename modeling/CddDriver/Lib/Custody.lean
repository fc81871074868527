import CddDriver.Lib.Ledger
import Mathlib.Logic.Function.Basic
import Mathlib.Tactic.Common
/-!
# Custody of resources

Holders that each have at most one resource of a ledger at hand.  A resource is
lost when it has not been released and no holder has it at hand; after that
nobody can release it.
-/

namespace CddDriver.Lib

/-- `given h` are the releases that the resource `h` was given, and `holds p` is
the resource that the holder `p` has at hand.  Nobody holds what was released or
what another holds, and nothing was released twice. -/
structure Custody {η ι ρ : Type} (given : η → Option (List ρ))
    (holds : ι → Option η) : Prop where
  live : ∀ {p h}, holds p = some h → given h = some []
  unique : ∀ {p q h}, holds p = some h → holds q = some h → p = q
  once : ∀ {h rs}, given h = some rs → rs.length ≤ 1

namespace Custody

variable {η ι ρ : Type} {given : η → Option (List ρ)} {holds : ι → Option η}

def Covered (given : η → Option (List ρ)) (holds : ι → Option η) : Prop :=
  ∀ h, given h = some [] → ∃ p, holds p = some h

theorem nothing : Custody (fun _ : η => (none : Option (List ρ)))
    fun _ : ι => none where
  live h := by cases h
  unique h := by cases h
  once h := by cases h

variable {p : ι} {h : η}

/-! ### A new resource -/

theorem lose [DecidableEq η] (hc : Custody given holds) (hnew : given h = none) :
    Custody (Function.update given h (some [])) holds ∧
      ¬ Covered (Function.update given h (some [])) holds := by
  have hne : ∀ {q g}, holds q = some g → g ≠ h := by
    rintro q g hq rfl
    rw [hc.live hq] at hnew
    cases hnew
  refine ⟨⟨fun hq => ?_, hc.unique, fun {g rs} hg => ?_⟩, fun hcov => ?_⟩
  · rw [Function.update_of_ne (hne hq)]
    exact hc.live hq
  · by_cases hgh : g = h
    · rw [hgh, Function.update_self] at hg
      obtain rfl := Option.some.inj hg
      exact Nat.zero_le 1
    · rw [Function.update_of_ne hgh] at hg
      exact hc.once hg
  · obtain ⟨q, hq⟩ := hcov h (Function.update_self h _ _)
    exact hne hq rfl

theorem holds_granted [DecidableEq ι] (hc : Custody given holds)
    (hnew : given h = none) {q : ι} {g : η}
    (hq : Function.update holds p (some h) q = some g) :
    q = p ∧ g = h ∨ q ≠ p ∧ g ≠ h ∧ holds q = some g := by
  by_cases hqp : q = p
  · rw [hqp, Function.update_self] at hq
    exact .inl ⟨hqp, (Option.some.inj hq).symm⟩
  · rw [Function.update_of_ne hqp] at hq
    refine .inr ⟨hqp, ?_, hq⟩
    rintro rfl
    rw [hc.live hq] at hnew
    cases hnew

theorem grant [DecidableEq η] [DecidableEq ι] (hc : Custody given holds)
    (hnew : given h = none) (hfree : holds p = none) :
    Custody (Function.update given h (some []))
        (Function.update holds p (some h)) ∧
      (Covered (Function.update given h (some []))
          (Function.update holds p (some h)) ↔ Covered given holds) := by
  obtain ⟨hlost, -⟩ := hc.lose hnew
  refine ⟨⟨fun hq => ?_, fun hq hq' => ?_, hlost.once⟩, ?_⟩
  · rcases hc.holds_granted hnew hq with ⟨-, rfl⟩ | ⟨-, -, hq⟩
    · exact Function.update_self _ _ _
    · exact hlost.live hq
  · rcases hc.holds_granted hnew hq with ⟨rfl, rfl⟩ | ⟨-, hne, hq⟩
    · rcases hc.holds_granted hnew hq' with ⟨rfl, -⟩ | ⟨-, hne, -⟩
      · rfl
      · exact absurd rfl hne
    · rcases hc.holds_granted hnew hq' with ⟨-, rfl⟩ | ⟨-, -, hq'⟩
      · exact absurd rfl hne
      · exact hc.unique hq hq'
  · constructor
    · intro hcov g hg
      have hne : g ≠ h := by
        rintro rfl
        rw [hnew] at hg
        cases hg
      obtain ⟨q, hq⟩ := hcov g (by rwa [Function.update_of_ne hne])
      rcases hc.holds_granted hnew hq with ⟨-, heq⟩ | ⟨-, -, hq⟩
      · exact absurd heq hne
      · exact ⟨q, hq⟩
    · intro hcov g hg
      by_cases hgh : g = h
      · exact ⟨p, by rw [Function.update_self, hgh]⟩
      · rw [Function.update_of_ne hgh] at hg
        obtain ⟨q, hq⟩ := hcov g hg
        have hqp : q ≠ p := by
          rintro rfl
          rw [hfree] at hq
          cases hq
        exact ⟨q, by rwa [Function.update_of_ne hqp]⟩

/-! ### A resource at hand -/

theorem other [DecidableEq ι] (hc : Custody given holds)
    (hp : holds p = some h) {q : ι} {g : η}
    (hq : Function.update holds p none q = some g) :
    q ≠ p ∧ g ≠ h ∧ holds q = some g := by
  have hqp : q ≠ p := by
    rintro rfl
    rw [Function.update_self] at hq
    cases hq
  rw [Function.update_of_ne hqp] at hq
  refine ⟨hqp, ?_, hq⟩
  rintro rfl
  exact hqp (hc.unique hq hp)

theorem drop [DecidableEq ι] (hc : Custody given holds) (hp : holds p = some h) :
    Custody given (Function.update holds p none) ∧
      ¬ Covered given (Function.update holds p none) := by
  refine ⟨⟨fun hq => hc.live (hc.other hp hq).2.2,
    fun hq hq' => hc.unique (hc.other hp hq).2.2 (hc.other hp hq').2.2,
    hc.once⟩, fun hcov => ?_⟩
  obtain ⟨q, hq⟩ := hcov h (hc.live hp)
  exact (hc.other hp hq).2.1 rfl

theorem release [DecidableEq η] [DecidableEq ι] {r : ρ}
    (hc : Custody given holds) (hp : holds p = some h) :
    Custody (Function.update given h (some [r])) (Function.update holds p none) ∧
      (Covered (Function.update given h (some [r]))
          (Function.update holds p none) ↔ Covered given holds) := by
  refine ⟨⟨fun hq => ?_, fun hq hq' => ?_, fun {g rs} hg => ?_⟩, ?_⟩
  · obtain ⟨-, hne, hq⟩ := hc.other hp hq
    rw [Function.update_of_ne hne]
    exact hc.live hq
  · exact hc.unique (hc.other hp hq).2.2 (hc.other hp hq').2.2
  · by_cases hgh : g = h
    · rw [hgh, Function.update_self] at hg
      obtain rfl := Option.some.inj hg
      exact Nat.le_refl 1
    · rw [Function.update_of_ne hgh] at hg
      exact hc.once hg
  · constructor
    · intro hcov g hg
      by_cases hgh : g = h
      · exact ⟨p, hgh ▸ hp⟩
      · obtain ⟨q, hq⟩ := hcov g (by rwa [Function.update_of_ne hgh])
        exact ⟨q, (hc.other hp hq).2.2⟩
    · intro hcov g hg
      have hgh : g ≠ h := by
        rintro rfl
        rw [Function.update_self] at hg
        cases hg
      rw [Function.update_of_ne hgh] at hg
      obtain ⟨q, hq⟩ := hcov g hg
      have hqp : q ≠ p := by
        rintro rfl
        exact hgh (Option.some.inj (hq.symm.trans hp))
      exact ⟨q, by rwa [Function.update_of_ne hqp]⟩

end Custody

/-! ## The releases of a ledger -/

namespace Ledger

variable {α ρ : Type}

def given (l : Ledger α ρ) (h : Nat) : Option (List ρ) :=
  (l[h]?).map Entry.releases

theorem given_length (l : Ledger α ρ) : l.given l.length = none := by
  unfold given
  rw [List.getElem?_eq_none (Nat.le_refl _)]
  rfl

theorem given_acquire (l : Ledger α ρ) (a : α) :
    (l.acquire a).given = Function.update l.given l.length (some []) := by
  have hlen : (l.acquire a).length = l.length + 1 := by simp [acquire]
  funext h
  unfold given
  rcases Nat.lt_trichotomy h l.length with hlt | rfl | hgt
  · rw [getElem?_acquire_of_lt a hlt, Function.update_of_ne (by omega)]
  · rw [getElem?_acquire_self, Function.update_self]
    rfl
  · have hold : l[h]? = none := List.getElem?_eq_none (by omega)
    have hnew : (l.acquire a)[h]? = none := List.getElem?_eq_none (by omega)
    rw [Function.update_of_ne (by omega), hold, hnew]

theorem given_release {l : Ledger α ρ} {h : Nat} (r : ρ)
    (hh : l.given h = some []) :
    (l.release h r).given = Function.update l.given h (some [r]) := by
  funext g
  unfold given at hh ⊢
  by_cases hg : g = h
  · obtain ⟨e, he, hnil⟩ := Option.map_eq_some_iff.mp hh
    rw [hg, getElem?_release_self r he, Function.update_self, Option.map_some,
      hnil]
    rfl
  · rw [getElem?_release_ne l r (Ne.symm hg), Function.update_of_ne hg]

theorem given_update (l : Ledger α ρ) (h : Nat) (f : α → α) :
    (l.update h f).given = l.given := by
  funext g
  unfold given
  by_cases hg : g = h
  · subst hg
    cases he : l[g]? with
    | none =>
        have hnone : (l.update g f)[g]? = none := by simp [update, he]
        rw [hnone]
    | some e =>
        rw [getElem?_update_self f he]
        rfl
  · rw [getElem?_update_ne l f (Ne.symm hg)]

/-- When nobody holds anything, each resource was released exactly once unless
one is lost. -/
theorem releasedOnce_iff {ι : Type} {l : Ledger α ρ} {holds : ι → Option Nat}
    (hc : Custody l.given holds) (hidle : ∀ p, holds p = none) :
    l.ReleasedOnce ↔ Custody.Covered l.given holds := by
  constructor
  · intro honce h hh
    obtain ⟨e, he, hnil⟩ := Option.map_eq_some_iff.mp hh
    have hlen := honce e (List.mem_of_getElem? he)
    rw [hnil] at hlen
    cases hlen
  · intro hcov e he
    obtain ⟨h, hh⟩ := List.getElem?_of_mem he
    have hgiven : l.given h = some e.releases := by
      unfold given
      rw [hh, Option.map_some]
    have hle := hc.once hgiven
    have hne : e.releases ≠ [] := by
      intro hnil
      obtain ⟨p, hp⟩ := hcov h (by rw [hgiven, hnil])
      rw [hidle p] at hp
      cases hp
    have hpos := List.length_pos_iff.mpr hne
    omega

end Ledger

end CddDriver.Lib
