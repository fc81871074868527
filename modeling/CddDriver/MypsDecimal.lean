import CddDriver.Lib.Decimal
import CddDriver.MypsWrites
import Mathlib.Data.List.TakeWhile
import Mathlib.Tactic.Common
/-!
# PIDs that are printed and written back

`/proc/myps` prints PIDs with `%d` and takes one with `kstrtol`.  What a write
of any printed integer does, and that a printed PID of a live task selects that
task for the next listing.
-/

namespace CddDriver

open Lib

section Text

variable {tail : List Char}

/-- `%d` and `kstrtol` are inverse on every `long`. -/
theorem kstrtol_formatInt (n : Int) (htail : tail = [] ∨ tail = ['\n']) :
    kstrtol (formatInt n ++ tail) =
      if -2 ^ 63 ≤ n ∧ n < 2 ^ 63 then .ok n else .error .erange := by
  by_cases hneg : n < 0
  · have htext : formatInt n ++ tail =
        '-' :: (Nat.toDigits 10 n.natAbs ++ tail) := by
      unfold formatInt
      rw [if_pos hneg]
      rfl
    have habs : -(n.natAbs : Int) = n := by omega
    rw [htext, kstrtol_neg_toDigits n.natAbs htail, habs]
    congr 1
    apply propext
    omega
  · obtain ⟨m, rfl⟩ := Int.eq_ofNat_of_zero_le (Int.not_lt.mp hneg)
    rw [formatInt_natCast, kstrtol_toDigits m htail]
    congr 1
    apply propext
    omega

theorem userString_formatInt (n : Int) (htail : tail = [] ∨ tail = ['\n']) :
    userString (formatInt n ++ tail) = formatInt n ++ tail := by
  apply List.takeWhile_eq_self_iff.mpr
  intro c hc
  rw [decide_eq_true_eq]
  rintro rfl
  rcases List.mem_append.mp hc with hmem | hmem
  · unfold formatInt at hmem
    rcases List.mem_append.mp hmem with hsign | hdigit
    · split at hsign
      · exact absurd (List.mem_singleton.mp hsign) (by decide)
      · cases hsign
    · have hnul := Nat.isDigit_of_mem_toDigits (by decide) (by decide) hdigit
      exact absurd hnul (by decide)
  · rcases htail with rfl | rfl
    · cases hmem
    · exact absurd (List.mem_singleton.mp hmem) (by decide)

end Text

/-- What a write of the decimal text of `n` returns and leaves in `testid`. -/
def decimalWrite (k : Tasks) (count : Nat) (n testid : Int) : Int × Int :=
  if -2 ^ 63 ≤ n ∧ n < 2 ^ 63 then
    match k.task (toInt n) with
    | none => (-einval, testid)
    | some _ => (count, toInt n)
  else (-erange, testid)

theorem ctWriteBody_formatInt (k : TaskTable) (count : Nat) (n testid : Int)
    {tail : List Char} (htail : tail = [] ∨ tail = ['\n']) :
    ctWriteBody k.toTasks count (formatInt n ++ tail) testid =
      decimalWrite k.toTasks count n testid := by
  unfold ctWriteBody decimalWrite
  rw [kstrtol_formatInt n htail]
  by_cases hrange : -2 ^ 63 ≤ n ∧ n < 2 ^ 63
  · rw [if_pos hrange, if_pos hrange]
    simp only [pidTask_findVpid]
    cases ht : k.task (toInt n) with
    | none => rfl
    | some t => simp only [k.pid_eq ht]
  · rw [if_neg hrange, if_neg hrange]
    rfl

/-- What a write of the decimal text of any integer does, with or without a
newline: it fails with `-ERANGE` for what is no `long`, and with `-EINVAL` when
no task has the PID that narrowing makes of it.  The text of the PID of a live
task succeeds, and the next listing that gets the mutex is of that task. -/
theorem decimal_write {data : Nat → Char} {k : TaskTable} {z : MypsData}
    (hmtx : z.mtx = false) {n : Int} {tail : List Char}
    (htail : tail = [] ∨ tail = ['\n'])
    (hcount : (formatInt n ++ tail).length ≤ maxRwCount) :
    (∃ b, ctWrite (some data) k.toTasks (formatInt n ++ tail) z =
      some ((decimalWrite k.toTasks (formatInt n ++ tail).length n z.testid).1,
        ⟨(decimalWrite k.toTasks (formatInt n ++ tail).length n z.testid).2, false,
          z.bufs ++ [⟨b, [()]⟩]⟩)) ∧
    ∀ t, k.task n = some t →
      decimalWrite k.toTasks (formatInt n ++ tail).length n z.testid =
        (((formatInt n ++ tail).length : Int), n) ∧
      ∀ (e : StartEnv) (s : Myps), e.locked = true → s.testid = n →
        startTarget e k.toTasks s = (some t, some n, { s with testid := 0 }) := by
  constructor
  · obtain ⟨b, hwrite⟩ := ctWrite_eq data k.toTasks hmtx hcount
    rw [userString_formatInt n htail, ctWriteBody_formatInt k _ n _ htail] at hwrite
    exact ⟨b, hwrite⟩
  · intro t ht
    have hpos := k.pid_pos ht
    have hlt := k.pid_lt ht
    constructor
    · have hself : toInt n = n := wrapS_eq_self (by omega) (by omega) (by omega)
      unfold decimalWrite
      rw [if_pos ⟨by omega, by omega⟩, hself, ht]
    · intro e s hlocked htestid
      have htaken : takenPid e s = some n := by
        unfold takenPid
        rw [hlocked, htestid]
        simp only [Bool.true_and, decide_eq_true_eq]
        exact if_pos (by omega)
      rw [startTarget_of_taken htaken, ht, findVpid, ht]
      rfl

theorem decimal_write_shell :
    ∃ b, ctWrite (some fun _ => 'x') shellTable.toTasks (formatInt 100 ++ ['\n'])
        ⟨0, false, []⟩ = some (4, ⟨100, false, [⟨b, [()]⟩]⟩) ∧
      (startTarget shellEnv shellTable.toTasks ⟨100, []⟩).1 = some shell := by
  have hmtx : (MypsData.mk 0 false []).mtx = false := rfl
  obtain ⟨⟨b, hwrite⟩, hlisted⟩ := @decimal_write (fun _ => 'x') shellTable
    ⟨0, false, []⟩ hmtx 100 ['\n'] (.inr rfl) (by decide)
  obtain ⟨hwritten, htarget⟩ := hlisted shell rfl
  rw [hwritten] at hwrite
  refine ⟨b, hwrite, ?_⟩
  rw [htarget shellEnv ⟨100, []⟩ rfl rfl]

end CddDriver
