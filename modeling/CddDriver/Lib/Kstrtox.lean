import CddDriver.Lib.CInt
import Mathlib.Data.Nat.Digits.Defs
import Mathlib.Tactic.Common
import Mathlib.Tactic.Ring
/-!
# Strings to integers

The kernel's conversion of a string to a 64-bit `long` with the base left to
the string: an optional sign, an optional prefix that selects the base, digits,
and an optional newline.  The digits are accumulated modulo `2 ^ 64` beside a
flag for overflow; what is returned is the exact integer or an error.
-/

namespace CddDriver.Lib

/-! ## Digits -/

def digitVal (c : Char) : Option Nat :=
  if '0' ≤ c ∧ c ≤ '9' then some (c.toNat - '0'.toNat)
  else if 'a' ≤ c ∧ c ≤ 'f' then some (c.toNat - 'a'.toNat + 10)
  else if 'A' ≤ c ∧ c ≤ 'F' then some (c.toNat - 'A'.toNat + 10)
  else none

def digitIn (base : Nat) (c : Char) : Option Nat :=
  (digitVal c).filter fun d => decide (d < base)

def leadingDigits (base : Nat) : List Char → List Nat × List Char
  | [] => ([], [])
  | c :: s =>
      match digitIn base c with
      | none => ([], c :: s)
      | some d => (d :: (leadingDigits base s).1, (leadingDigits base s).2)

/-- The base that the string asks for, and the string from its first digit. -/
def fixupRadix : List Char → Nat × List Char
  | '0' :: x :: c :: s =>
      if (x = 'x' ∨ x = 'X') ∧ (digitIn 16 c).isSome then (16, c :: s)
      else (8, '0' :: x :: c :: s)
  | '0' :: s => (8, '0' :: s)
  | s => (10, s)

/-! ## The integer that a string denotes -/

def naturalOf (s : List Char) : Option Nat :=
  let (base, s) := fixupRadix s
  let (digits, rest) := leadingDigits base s
  if digits ≠ [] ∧ (rest = [] ∨ rest = ['\n']) then
    some (Nat.ofDigits base digits.reverse)
  else none

def integerOf : List Char → Option Int
  | '-' :: s => (naturalOf s).map fun n : Nat => -(n : Int)
  | '+' :: s => (naturalOf s).map fun n : Nat => (n : Int)
  | s => (naturalOf s).map fun n : Nat => (n : Int)

/-! ## The conversion -/

/-- What `_parse_integer` keeps: the value modulo `2 ^ 64`, the number of digits
and whether the value overflowed. -/
structure Parsed where
  res : Nat
  digits : Nat
  overflow : Bool

/-- The next digit.  The division is left out where no digit can overflow. -/
def Parsed.push (base : Nat) (a : Parsed) (d : Nat) : Parsed where
  res := (a.res * base + d) % 2 ^ 64
  digits := a.digits + 1
  overflow := a.overflow ||
    (decide (2 ^ 60 ≤ a.res) && decide ((2 ^ 64 - 1 - d) / base < a.res))

def parseInteger (base : Nat) : Parsed → List Char → Parsed × List Char
  | a, [] => (a, [])
  | a, c :: s =>
      match digitIn base c with
      | none => (a, c :: s)
      | some d => parseInteger base (a.push base d) s

inductive KstrError where
  | erange
  | einval
  deriving DecidableEq

def kstrtoull (s : List Char) : Except KstrError Nat :=
  let (base, s) := fixupRadix s
  let (a, rest) := parseInteger base ⟨0, 0, false⟩ s
  if a.overflow then .error .erange
  else if a.digits = 0 then .error .einval
  else if rest = [] ∨ rest = ['\n'] then .ok a.res
  else .error .einval

def negated (tmp : Nat) : Except KstrError Int :=
  if 0 < wrapS 64 (-tmp) then .error .erange else .ok (wrapS 64 (-tmp))

def unnegated (tmp : Nat) : Except KstrError Int :=
  if wrapS 64 tmp < 0 then .error .erange else .ok (wrapS 64 tmp)

def kstrtol : List Char → Except KstrError Int
  | '-' :: s => (kstrtoull s).bind negated
  | '+' :: s => (kstrtoull s).bind unnegated
  | s => (kstrtoull s).bind unnegated

/-! ## The accumulator -/

section Accumulator

variable {base : Nat} {a : Parsed} {n : Nat}

theorem digitIn_lt {c : Char} {d : Nat} (h : digitIn base c = some d) :
    d < base := by
  obtain ⟨-, hlt⟩ := Option.filter_eq_some_iff.mp h
  exact of_decide_eq_true hlt

theorem leadingDigits_lt (base : Nat) (s : List Char) :
    ∀ d ∈ (leadingDigits base s).1, d < base := by
  induction s with
  | nil => simp [leadingDigits]
  | cons c s ih =>
      unfold leadingDigits
      cases hd : digitIn base c with
      | none => simp
      | some d =>
          intro e he
          rcases List.mem_cons.mp he with rfl | he
          · exact digitIn_lt hd
          · exact ih e he

theorem fixupRadix_base (s : List Char) :
    0 < (fixupRadix s).1 ∧ (fixupRadix s).1 ≤ 16 := by
  unfold fixupRadix
  split
  · split <;> simp
  · simp
  · simp

theorem parseInteger_eq (base : Nat) (a : Parsed) (s : List Char) :
    parseInteger base a s =
      ((leadingDigits base s).1.foldl (Parsed.push base) a,
        (leadingDigits base s).2) := by
  induction s generalizing a with
  | nil => rfl
  | cons c s ih =>
      unfold parseInteger leadingDigits
      cases digitIn base c with
      | none => rfl
      | some d => exact ih (a.push base d)

structure Parsed.Holds (a : Parsed) (n : Nat) : Prop where
  res : a.res = n % 2 ^ 64
  overflow : a.overflow = true ↔ 2 ^ 64 ≤ n

theorem Parsed.Holds.push {d : Nat} (h : a.Holds n) (hbase : 0 < base)
    (hle : base ≤ 16) (hd : d < base) : (a.push base d).Holds (n * base + d) := by
  have hgrow : n ≤ n * base := Nat.le_mul_of_pos_right n hbase
  constructor
  · show (a.res * base + d) % 2 ^ 64 = (n * base + d) % 2 ^ 64
    rw [h.res, Nat.add_mod, Nat.mod_mul_mod, ← Nat.add_mod]
  · by_cases hn : 2 ^ 64 ≤ n
    · have hover := h.overflow.mpr hn
      simp only [Parsed.push, hover, Bool.true_or, true_iff]
      omega
    · have hover : a.overflow = false := by
        rw [← Bool.not_eq_true, h.overflow]
        exact hn
      have hres : a.res = n := by
        rw [h.res, Nat.mod_eq_of_lt (Nat.not_le.mp hn)]
      simp only [Parsed.push, hover, hres, Bool.false_or, Bool.and_eq_true,
        decide_eq_true_eq, Nat.div_lt_iff_lt_mul hbase]
      constructor
      · rintro ⟨-, hlt⟩
        omega
      · intro hge
        have hscaled : n * base ≤ n * 16 := Nat.mul_le_mul_left n hle
        omega

theorem Parsed.Holds.foldl {ds : List Nat} (h : a.Holds n) (hbase : 0 < base)
    (hle : base ≤ 16) (hds : ∀ d ∈ ds, d < base) :
    (ds.foldl (Parsed.push base) a).Holds
      (n * base ^ ds.length + Nat.ofDigits base ds.reverse) := by
  induction ds generalizing a n with
  | nil => simpa using h
  | cons d ds ih =>
      have hfirst := h.push hbase hle (hds d List.mem_cons_self)
      have hrest := ih hfirst fun e he => hds e (List.mem_cons_of_mem d he)
      have hvalue : n * base ^ (d :: ds).length +
            Nat.ofDigits base (d :: ds).reverse =
          (n * base + d) * base ^ ds.length + Nat.ofDigits base ds.reverse := by
        rw [Nat.ofDigits_reverse_cons, List.length_cons, Nat.pow_succ]
        ring
      rwa [hvalue]

theorem holds_digits {ds : List Nat} (hbase : 0 < base) (hle : base ≤ 16)
    (hds : ∀ d ∈ ds, d < base) :
    (ds.foldl (Parsed.push base) ⟨0, 0, false⟩).Holds
      (Nat.ofDigits base ds.reverse) := by
  have hzero : (Parsed.mk 0 0 false).Holds 0 := ⟨rfl, by simp⟩
  have hholds := hzero.foldl hbase hle hds
  rwa [Nat.zero_mul, Nat.zero_add] at hholds

theorem foldl_push_digits (base : Nat) (a : Parsed) (ds : List Nat) :
    (ds.foldl (Parsed.push base) a).digits = a.digits + ds.length := by
  induction ds generalizing a with
  | nil => rfl
  | cons d ds ih =>
      rw [List.foldl_cons, ih, List.length_cons]
      show a.digits + 1 + ds.length = a.digits + (ds.length + 1)
      omega

end Accumulator

/-! ## Exactness -/

theorem kstrtoull_ok_iff {s : List Char} {n : Nat} :
    kstrtoull s = .ok n ↔ naturalOf s = some n ∧ n < 2 ^ 64 := by
  obtain ⟨hbase, hle⟩ := fixupRadix_base s
  unfold kstrtoull naturalOf
  generalize fixupRadix s = r at hbase hle
  obtain ⟨base, s⟩ := r
  have hlt := leadingDigits_lt base s
  simp only [parseInteger_eq]
  generalize leadingDigits base s = split at hlt
  obtain ⟨digits, rest⟩ := split
  have hholds := holds_digits hbase hle hlt
  simp only [foldl_push_digits, hholds.overflow, Nat.zero_add,
    List.length_eq_zero_iff, hholds.res]
  by_cases hover : 2 ^ 64 ≤ Nat.ofDigits base digits.reverse
  · rw [if_pos hover]
    constructor
    · intro h
      cases h
    · rintro ⟨hnat, hn⟩
      split at hnat
      · obtain rfl := Option.some.inj hnat
        omega
      · cases hnat
  · have hmod := Nat.mod_eq_of_lt (Nat.not_le.mp hover)
    rw [if_neg hover, hmod]
    by_cases hempty : digits = []
    · simp [hempty]
    · rw [if_neg hempty]
      by_cases hrest : rest = [] ∨ rest = ['\n']
      · simp only [hrest, hempty, if_true, ne_eq, not_false_eq_true, and_self,
          Except.ok.injEq, Option.some.injEq]
        constructor
        · rintro rfl
          exact ⟨rfl, Nat.not_le.mp hover⟩
        · exact And.left
      · simp [hrest]

theorem negated_ok_iff {n : Nat} (hn : n < 2 ^ 64) {v : Int} :
    negated n = .ok v ↔ v = -(n : Int) ∧ -2 ^ 63 ≤ v := by
  unfold negated wrapS
  constructor
  · intro h
    split at h
    · cases h
    · have hv := Except.ok.inj h
      omega
  · rintro ⟨rfl, hge⟩
    rw [if_neg (by omega)]
    exact congrArg Except.ok (by omega)

theorem unnegated_ok_iff {n : Nat} (hn : n < 2 ^ 64) {v : Int} :
    unnegated n = .ok v ↔ v = (n : Int) ∧ v < 2 ^ 63 := by
  unfold unnegated wrapS
  constructor
  · intro h
    split at h
    · cases h
    · have hv := Except.ok.inj h
      omega
  · rintro ⟨rfl, hlt⟩
    rw [if_neg (by omega)]
    exact congrArg Except.ok (by omega)

theorem bind_eq_ok_iff {ε α β : Type} {x : Except ε α}
    {f : α → Except ε β} {b : β} :
    x.bind f = .ok b ↔ ∃ a, x = .ok a ∧ f a = .ok b := by
  cases x <;> simp [Except.bind]

theorem kstrtoull_bind_ok_iff {s : List Char} {v : Int}
    {f : Nat → Except KstrError Int} {g : Nat → Int}
    (hf : ∀ n < 2 ^ 64, f n = .ok v ↔ v = g n ∧ -2 ^ 63 ≤ v ∧ v < 2 ^ 63)
    (hg : ∀ n, -2 ^ 63 ≤ g n → g n < 2 ^ 63 → n < 2 ^ 64) :
    (kstrtoull s).bind f = .ok v ↔
      (naturalOf s).map g = some v ∧ -2 ^ 63 ≤ v ∧ v < 2 ^ 63 := by
  rw [bind_eq_ok_iff, Option.map_eq_some_iff]
  constructor
  · rintro ⟨n, hok, hv⟩
    obtain ⟨hn, hlt⟩ := kstrtoull_ok_iff.mp hok
    obtain ⟨rfl, hrange⟩ := (hf n hlt).mp hv
    exact ⟨⟨n, hn, rfl⟩, hrange⟩
  · rintro ⟨⟨n, hn, rfl⟩, hrange⟩
    have hlt := hg n hrange.1 hrange.2
    exact ⟨n, kstrtoull_ok_iff.mpr ⟨hn, hlt⟩, (hf n hlt).mpr ⟨rfl, hrange⟩⟩

/-- `kstrtol` succeeds with the integer that the string denotes, when that is a
`long`. -/
theorem kstrtol_ok_iff {s : List Char} {v : Int} :
    kstrtol s = .ok v ↔ integerOf s = some v ∧ -2 ^ 63 ≤ v ∧ v < 2 ^ 63 := by
  have hneg : ∀ n < 2 ^ 64, negated n = .ok v ↔
      v = -(n : Int) ∧ -2 ^ 63 ≤ v ∧ v < 2 ^ 63 := by
    intro n hn
    rw [negated_ok_iff hn]
    omega
  have hpos : ∀ n < 2 ^ 64, unnegated n = .ok v ↔
      v = (n : Int) ∧ -2 ^ 63 ≤ v ∧ v < 2 ^ 63 := by
    intro n hn
    rw [unnegated_ok_iff hn]
    omega
  unfold kstrtol integerOf
  split
  · exact kstrtoull_bind_ok_iff hneg fun n _ _ => by omega
  · exact kstrtoull_bind_ok_iff hpos fun n _ _ => by omega
  · exact kstrtoull_bind_ok_iff hpos fun n _ _ => by omega

end CddDriver.Lib
