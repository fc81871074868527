import Mathlib.Algebra.Group.Int.Defs
import Mathlib.Algebra.Group.Nat.Defs
import Mathlib.Tactic.Common
/-!
# C integer conversions

An integer of a C program is an `Int`; a conversion to a type of `w` bits
reduces it modulo `2 ^ w`, into `[0, 2 ^ w)` for an unsigned type and into
`[-2 ^ (w - 1), 2 ^ (w - 1))` for a signed one.
-/

namespace CddDriver.Lib

/-- Conversion to an unsigned type of `w` bits. -/
def wrapU (w : Nat) (x : Int) : Int := x % 2 ^ w

/-- Conversion to a signed type of `w` bits. -/
def wrapS (w : Nat) (x : Int) : Int := (x + 2 ^ (w - 1)) % 2 ^ w - 2 ^ (w - 1)

theorem wrapU_eq_self {w : Nat} {x : Int} (h₀ : 0 ≤ x) (h₁ : x < 2 ^ w) :
    wrapU w x = x :=
  Int.emod_eq_of_lt h₀ h₁

theorem two_pow_eq_double {w : Nat} (hw : 0 < w) :
    (2 : Int) ^ w = 2 ^ (w - 1) * 2 := by
  obtain ⟨k, rfl⟩ : ∃ k, w = k + 1 := ⟨w - 1, by omega⟩
  exact Int.pow_succ 2 k

theorem wrapS_eq_self {w : Nat} {x : Int} (hw : 0 < w)
    (h₀ : -2 ^ (w - 1) ≤ x) (h₁ : x < 2 ^ (w - 1)) : wrapS w x = x := by
  have hpow := two_pow_eq_double hw
  unfold wrapS
  rw [Int.emod_eq_of_lt (by omega) (by omega)]
  omega

theorem wrapU_wrapS (w : Nat) (x : Int) : wrapU w (wrapS w x) = wrapU w x := by
  unfold wrapU wrapS
  rw [Int.emod_sub_emod]
  congr 1
  omega

theorem wrapS_congr {w : Nat} {x y : Int} (h : x % 2 ^ w = y % 2 ^ w) :
    wrapS w x = wrapS w y := by
  unfold wrapS
  rw [Int.add_emod x, Int.add_emod y, h]

theorem wrapS_add_left (w : Nat) (x y : Int) :
    wrapS w (wrapS w x + y) = wrapS w (x + y) := by
  have h : wrapS w x % 2 ^ w = x % 2 ^ w := wrapU_wrapS w x
  apply wrapS_congr
  rw [Int.add_emod, h, ← Int.add_emod]

theorem wrapS_eq_emod {w : Nat} {x : Int} (hw : 0 < w)
    (h : x % 2 ^ w < 2 ^ (w - 1)) : wrapS w x = x % 2 ^ w := by
  have hpow := two_pow_eq_double hw
  have hpos : (0 : Int) < 2 ^ (w - 1) := Int.pow_pos (by omega)
  have hnonneg : 0 ≤ x % 2 ^ w := Int.emod_nonneg x (by omega)
  have hmod : x % 2 ^ w = x % 2 ^ w % 2 ^ w := (Int.emod_emod _ _).symm
  rw [wrapS_congr hmod]
  exact wrapS_eq_self hw (by omega) h

theorem wrapS_neg {w : Nat} {x : Int} (hw : 0 < w)
    (h : 2 ^ (w - 1) ≤ x % 2 ^ w) : wrapS w x < 0 := by
  have hpow := two_pow_eq_double hw
  have hpos : (0 : Int) < 2 ^ (w - 1) := Int.pow_pos (by omega)
  have hlt : x % 2 ^ w < 2 ^ w := Int.emod_lt_of_pos x (by omega)
  have hmod : x % 2 ^ w = (x % 2 ^ w - 2 ^ w) % 2 ^ w := by simp
  rw [wrapS_congr hmod, wrapS_eq_self hw (by omega) (by omega)]
  omega

end CddDriver.Lib
