import CddDriver.Lib.Kstrtox
import Mathlib.Tactic.IntervalCases
/-!
# Decimal texts

A number printed in base 10 and converted back: the text has no leading zero,
so it selects base 10 and denotes the number.  The conversion of a decimal text
fails only for want of room.
-/

namespace CddDriver.Lib

/-! ## The digits of a printed number -/

theorem digitIn_digitChar {d : Nat} (h : d < 10) :
    digitIn 10 (Nat.digitChar d) = some d := by
  interval_cases d <;> rfl

theorem leadingDigits_cons {base d : Nat} {c : Char} (h : digitIn base c = some d)
    (s : List Char) :
    leadingDigits base (c :: s) =
      (d :: (leadingDigits base s).1, (leadingDigits base s).2) := by
  rw [leadingDigits, h]

theorem leadingDigits_toDigits (n : Nat) :
    ∃ ds, ds ≠ [] ∧ Nat.ofDigits 10 ds.reverse = n ∧
      ∀ rest, leadingDigits 10 (Nat.toDigits 10 n ++ rest) =
        (ds ++ (leadingDigits 10 rest).1, (leadingDigits 10 rest).2) := by
  induction n using Nat.strong_induction_on with
  | h n ih =>
      by_cases hsmall : n < 10
      · refine ⟨[n], List.cons_ne_nil n [], by simp, fun rest => ?_⟩
        rw [Nat.toDigits_of_lt_base hsmall, List.singleton_append,
          leadingDigits_cons (digitIn_digitChar hsmall), List.singleton_append]
      · obtain ⟨ds, -, hvalue, hds⟩ := ih (n / 10) (by omega)
        have hlast : n % 10 < 10 := Nat.mod_lt n (by omega)
        refine ⟨ds ++ [n % 10], by simp, ?_, fun rest => ?_⟩
        · rw [List.reverse_append, List.reverse_singleton, List.singleton_append,
            Nat.ofDigits_cons, hvalue]
          have hsplit := Nat.mod_add_div n 10
          exact_mod_cast hsplit
        · rw [Nat.toDigits_of_base_le (by omega) (Nat.not_lt.mp hsmall),
            List.append_assoc, List.singleton_append, hds,
            leadingDigits_cons (digitIn_digitChar hlast), List.append_assoc,
            List.singleton_append]

theorem toDigits_head {n : Nat} (hn : 0 < n) :
    ∃ d s, 0 < d ∧ d < 10 ∧ Nat.toDigits 10 n = Nat.digitChar d :: s := by
  induction n using Nat.strong_induction_on with
  | h n ih =>
      by_cases hsmall : n < 10
      · exact ⟨n, [], hn, hsmall, Nat.toDigits_of_lt_base hsmall⟩
      · obtain ⟨d, s, hd, hlt, hs⟩ := ih (n / 10) (by omega) (by omega)
        refine ⟨d, s ++ [Nat.digitChar (n % 10)], hd, hlt, ?_⟩
        rw [Nat.toDigits_of_base_le (by omega) (Nat.not_lt.mp hsmall), hs]
        rfl

theorem fixupRadix_digitChar {d : Nat} (hd : 0 < d) (hlt : d < 10)
    (s : List Char) :
    fixupRadix (Nat.digitChar d :: s) = (10, Nat.digitChar d :: s) := by
  interval_cases d <;> rfl

theorem fixupRadix_toDigits {n : Nat} (hn : 0 < n) (tail : List Char) :
    fixupRadix (Nat.toDigits 10 n ++ tail) = (10, Nat.toDigits 10 n ++ tail) := by
  obtain ⟨d, s, hd, hlt, hs⟩ := toDigits_head hn
  rw [hs]
  exact fixupRadix_digitChar hd hlt (s ++ tail)

/-! ## The number that a decimal text denotes -/

section Texts

variable {tail : List Char}

theorem leadingDigits_tail (htail : tail = [] ∨ tail = ['\n']) (base : Nat) :
    leadingDigits base tail = ([], tail) := by
  rcases htail with rfl | rfl <;> rfl

theorem naturalOf_toDigits (n : Nat) (htail : tail = [] ∨ tail = ['\n']) :
    naturalOf (Nat.toDigits 10 n ++ tail) = some n := by
  rcases Nat.eq_zero_or_pos n with rfl | hn
  · rw [Nat.toDigits_zero]
    rcases htail with rfl | rfl <;> rfl
  · obtain ⟨ds, hne, hvalue, hds⟩ := leadingDigits_toDigits n
    unfold naturalOf
    rw [fixupRadix_toDigits hn]
    simp only [hds, leadingDigits_tail htail, List.append_nil, ne_eq, hne,
      not_false_eq_true, htail, and_self, if_true, hvalue]

theorem toDigits_unsigned {n : Nat} {c : Char} {s : List Char}
    (hs : Nat.toDigits 10 n ++ tail = c :: s) : c ≠ '-' ∧ c ≠ '+' := by
  have hmem : c ∈ Nat.toDigits 10 n := by
    have hpos : 0 < (Nat.toDigits 10 n).length := Nat.length_toDigits_pos
    cases hdigits : Nat.toDigits 10 n with
    | nil =>
        rw [hdigits] at hpos
        exact absurd hpos (Nat.lt_irrefl 0)
    | cons d ds =>
        rw [hdigits] at hs
        obtain ⟨rfl, -⟩ := List.cons.inj hs
        exact List.mem_cons_self
  have hdigit : c.isDigit = true :=
    Nat.isDigit_of_mem_toDigits (by decide) (by decide) hmem
  constructor
  · rintro rfl
    cases hdigit
  · rintro rfl
    cases hdigit

/-! ## The conversion of a decimal text -/

theorem kstrtoull_toDigits (n : Nat) (htail : tail = [] ∨ tail = ['\n']) :
    kstrtoull (Nat.toDigits 10 n ++ tail) =
      if n < 2 ^ 64 then .ok n else .error .erange := by
  by_cases hlt : n < 2 ^ 64
  · rw [if_pos hlt]
    exact kstrtoull_ok_iff.mpr ⟨naturalOf_toDigits n htail, hlt⟩
  · have hpos : 0 < n := by omega
    obtain ⟨ds, hne, hvalue, hds⟩ := leadingDigits_toDigits n
    have hdigits := leadingDigits_lt 10 (Nat.toDigits 10 n ++ tail)
    rw [hds, leadingDigits_tail htail, List.append_nil] at hdigits
    have hholds := holds_digits (by omega) (by omega) hdigits
    rw [hvalue] at hholds
    have hover := hholds.overflow.mpr (Nat.not_lt.mp hlt)
    unfold kstrtoull
    rw [fixupRadix_toDigits hpos, if_neg hlt]
    simp only [parseInteger_eq, hds, leadingDigits_tail htail, List.append_nil,
      hover, if_true]

theorem kstrtol_toDigits (n : Nat) (htail : tail = [] ∨ tail = ['\n']) :
    kstrtol (Nat.toDigits 10 n ++ tail) =
      if n < 2 ^ 63 then .ok (n : Int) else .error .erange := by
  have hparse : kstrtol (Nat.toDigits 10 n ++ tail) =
      (kstrtoull (Nat.toDigits 10 n ++ tail)).bind unnegated := by
    unfold kstrtol
    split
    · next hs => exact absurd rfl (toDigits_unsigned hs).1
    · next hs => exact absurd rfl (toDigits_unsigned hs).2
    · rfl
  rw [hparse, kstrtoull_toDigits n htail]
  by_cases hlt : n < 2 ^ 63
  · rw [if_pos hlt, if_pos (by omega)]
    exact bind_eq_ok_iff.mpr
      ⟨n, rfl, (unnegated_ok_iff (by omega)).mpr ⟨rfl, by omega⟩⟩
  · rw [if_neg hlt]
    by_cases hfits : n < 2 ^ 64
    · have hwraps : wrapS 64 n < 0 := by
        unfold wrapS
        omega
      have herror : unnegated n = .error .erange := by
        unfold unnegated
        rw [if_pos hwraps]
      rw [if_pos hfits, Except.bind, herror]
    · rw [if_neg hfits]
      rfl

theorem kstrtol_neg_toDigits (n : Nat) (htail : tail = [] ∨ tail = ['\n']) :
    kstrtol ('-' :: (Nat.toDigits 10 n ++ tail)) =
      if n ≤ 2 ^ 63 then .ok (-(n : Int)) else .error .erange := by
  have hparse : kstrtol ('-' :: (Nat.toDigits 10 n ++ tail)) =
      (kstrtoull (Nat.toDigits 10 n ++ tail)).bind negated := rfl
  rw [hparse, kstrtoull_toDigits n htail]
  by_cases hle : n ≤ 2 ^ 63
  · rw [if_pos hle, if_pos (by omega)]
    exact bind_eq_ok_iff.mpr
      ⟨n, rfl, (negated_ok_iff (by omega)).mpr ⟨rfl, by omega⟩⟩
  · rw [if_neg hle]
    by_cases hfits : n < 2 ^ 64
    · have hwraps : 0 < wrapS 64 (-n) := by
        unfold wrapS
        omega
      have herror : negated n = .error .erange := by
        unfold negated
        rw [if_pos hwraps]
      rw [if_pos hfits, Except.bind, herror]
    · rw [if_neg hfits]
      rfl

end Texts

end CddDriver.Lib
