import CddDriver.ProcWrites
import Mathlib.Tactic.Common
/-!
# Long writes to the entries of /proc/CDD

`writeproc_CDD2` takes 32 characters at most and returns how many it took.  A
program that then writes the rest, as programs do, enters the same function
again, which replaces what it stored before.
-/

namespace CddDriver

open Lib

/-! ## The loop of a program -/

/-- A program writes `rest` to the entry of the device `m`, each call with all
that was not accepted yet, up to the count that the VFS passes on.  Other calls
may come in between, but no other write to this entry. -/
inductive WriteLoop (m : Minor) : System → List Char → System → Prop where
  | done {y : System} : WriteLoop m y [] y
  | accepted {y u z : System} {rest : List Char} {copy : UserCopy} {retval : Int} :
      rest ≠ [] →
      moduleDriver.step y (.writeproc m (rest.take maxRwCount) copy) =
        some (u, .writeproc retval) →
      0 < retval → WriteLoop m u (rest.drop retval.toNat) z → WriteLoop m y rest z
  | refused {y u z : System} {rest : List Char} {copy : UserCopy} {retval : Int} :
      rest ≠ [] →
      moduleDriver.step y (.writeproc m (rest.take maxRwCount) copy) =
        some (u, .writeproc retval) →
      retval < 0 → WriteLoop m u rest z → WriteLoop m y rest z
  | others {y u z : System} {rest : List Char} {c : ModuleCall} {o : ModuleReply} :
      ¬ c.WritesTo m → moduleDriver.step y c = some (u, o) →
      WriteLoop m u rest z → WriteLoop m y rest z

def ShowsMember (m : Minor) (member : List Char) (y : System) : Prop :=
  deviceReport y.world.cddDev m y.world.proc =
    reportShowing m (y.world.proc.procs m).procflag member (y.world.cddDev m)

/-- What is to become of the string `s`: all of it but the last character, or
its first 31 characters. -/
def keptMember (s : List Char) : List Char :=
  if s.length ≤ 32 then s.dropLast else s.take 31

/-- The string is not cut, or its length is a multiple of 32 and its last 32
characters begin like its first. -/
def KeepsMember (s : List Char) : Prop :=
  s.length ≤ 32 ∨
    s.length % 32 = 0 ∧ (s.drop (s.length - 32)).take 31 = s.take 31

instance (s : List Char) : Decidable (KeepsMember s) :=
  inferInstanceAs (Decidable (_ ∨ _))

/-! ## The last chunk -/

def lastChunk (s : List Char) : List Char :=
  s.drop (32 * ((s.length - 1) / 32))

theorem lastChunk_eq_self {s : List Char} (h : s.length ≤ 32) :
    lastChunk s = s := by
  have hzero : 32 * ((s.length - 1) / 32) = 0 := by omega
  rw [lastChunk, hzero, List.drop_zero]

theorem lastChunk_drop {s : List Char} (h : 32 < s.length) :
    lastChunk (s.drop 32) = lastChunk s := by
  have hoffset : 32 + 32 * ((s.length - 32 - 1) / 32) =
      32 * ((s.length - 1) / 32) := by omega
  calc
    lastChunk (s.drop 32) =
        (s.drop 32).drop (32 * ((s.length - 32 - 1) / 32)) := by
      rw [lastChunk, List.length_drop]
    _ = s.drop (32 + 32 * ((s.length - 32 - 1) / 32)) := List.drop_drop
    _ = lastChunk s := by rw [hoffset, lastChunk]

theorem lastChunk_dropLast_iff (s : List Char) :
    (lastChunk s).dropLast = keptMember s ↔ KeepsMember s := by
  unfold keptMember KeepsMember
  by_cases hshort : s.length ≤ 32
  · rw [if_pos hshort, lastChunk_eq_self hshort]
    simp [hshort]
  rw [if_neg hshort]
  simp only [hshort, false_or]
  have hlength : (lastChunk s).dropLast.length =
      s.length - 32 * ((s.length - 1) / 32) - 1 := by
    rw [List.length_dropLast, lastChunk, List.length_drop]
  have htake : (s.take 31).length = 31 := by
    rw [List.length_take]
    omega
  by_cases hmod : s.length % 32 = 0
  · have hoffset : 32 * ((s.length - 1) / 32) = s.length - 32 := by omega
    have hlast : (lastChunk s).length = 32 := by
      rw [lastChunk, List.length_drop]
      omega
    simp only [hmod, true_and]
    rw [List.dropLast_eq_take, hlast, lastChunk, hoffset]
  · refine iff_of_false (fun heq => ?_) fun h => hmod h.1
    rw [heq, htake] at hlength
    omega

/-! ## What the loop leaves -/

section Loop

variable {m : Minor} {y u z : System} {rest : List Char} {copy : UserCopy}
  {retval : Int}

/-- A call of the loop that is accepted takes the next 32 characters and
leaves them, but for the last, as the value. -/
theorem accepted_shows (h : ValuesInv y.world.proc) (hrest : rest ≠ [])
    (hnul : '\x00' ∉ rest)
    (hstep : moduleDriver.step y (.writeproc m (rest.take maxRwCount) copy) =
      some (u, .writeproc retval)) (hret : 0 < retval) :
    retval.toNat = min rest.length 32 ∧
      procvalueString u.world.proc m = (rest.take 32).dropLast := by
  obtain ⟨hcount, r, q, hwrite, rfl, heq⟩ := moduleDriver_writeproc hstep
  obtain rfl : retval = r := ModuleReply.writeproc.inj heq
  obtain ⟨b, hb, hsize⟩ := h.block m
  have hout := writeprocCDD2_outcome h hb hcount copy
  have htake : (rest.take maxRwCount).take 32 = rest.take 32 := by
    rw [List.take_take]
    rfl
  rw [hwrite] at hout
  cases hout with
  | faulted => exact absurd hret (by decide)
  | stored _ _ hset =>
      rw [htake] at hset ⊢
      have hchunk : rest.take 32 ≠ [] := by
        simpa using hrest
      have hfree : '\x00' ∉ (rest.take 32).dropLast := fun hmem =>
        hnul (List.mem_of_mem_take (List.mem_of_mem_dropLast hmem))
      have hlength : (rest.take 32).length = min rest.length 32 := by
        rw [List.length_take, Nat.min_comm]
      have hpage : procvalueSize = 4096 := rfl
      refine ⟨hlength, ?_⟩
      show procvalueString q m = _
      rw [procvalueString_eq hset.block_self,
        cString_terminated hchunk hfree (by omega)]

theorem WriteLoop.leaves (hloop : WriteLoop m y rest z)
    (h : ValuesInv y.world.proc) (hnul : '\x00' ∉ rest) :
    ValuesInv z.world.proc ∧ procvalueString z.world.proc m =
      if rest = [] then procvalueString y.world.proc m
      else (lastChunk rest).dropLast := by
  -- the induction is on the calls of the loop and those in between
  induction hloop with
  | done => exact ⟨h, rfl⟩
  | @accepted y u z rest copy retval hrest hstep hret _ ih =>
      obtain ⟨htaken, hshows⟩ := accepted_shows h hrest hnul hstep hret
      have hfree : '\x00' ∉ rest.drop retval.toNat := fun hmem =>
        hnul (List.mem_of_mem_drop hmem)
      obtain ⟨hinv, hfinal⟩ := ih (h.step hstep) hfree
      refine ⟨hinv, ?_⟩
      rw [hfinal, hshows, if_neg hrest, htaken]
      by_cases hmore : 32 < rest.length
      · have hleft : rest.drop 32 ≠ [] := by
          simp only [ne_eq, List.drop_eq_nil_iff]
          omega
        rw [Nat.min_eq_right (by omega), if_neg hleft, lastChunk_drop hmore]
      · rw [Nat.min_eq_left (by omega), if_pos List.drop_length,
          lastChunk_eq_self (by omega), List.take_of_length_le (by omega)]
  | refused hrest hstep _ _ ih =>
      obtain ⟨hinv, hfinal⟩ := ih (h.step hstep) hnul
      exact ⟨hinv, by rw [hfinal, if_neg hrest, if_neg hrest]⟩
  | others hother hstep _ ih =>
      obtain ⟨hinv, hfinal⟩ := ih (h.step hstep) hnul
      refine ⟨hinv, ?_⟩
      rw [hfinal, h.procvalueString_congr (h.step_valueBlock hstep hother)]

theorem exists_accepted (h : ValuesInv y.world.proc) {buf : List Char}
    (hbuf : buf ≠ []) (hcount : buf.length ≤ maxRwCount) :
    ∃ u, moduleDriver.step y (.writeproc m buf ⟨0, false⟩) =
      some (u, .writeproc (buf.take 32).length) := by
  obtain ⟨b, hb, -⟩ := h.block m
  have hcopied : ((⟨0, false⟩ : UserCopy).fetch (buf.take 32)).1 = 0 := by
    simp [UserCopy.fetch]
  have hout := writeprocCDD2_outcome h hb hcount ⟨0, false⟩
  show ∃ u, y.moduleCall (.writeproc m buf ⟨0, false⟩) = some (u, _)
  simp only [System.moduleCall]
  rw [if_neg (by omega)]
  generalize writeprocCDD2 (getDevname m) buf ⟨0, false⟩ y.world.proc = res at hout
  cases hout with
  | outside hnil => exact absurd hnil hbuf
  | faulted hleft => exact absurd hcopied hleft
  | stored => exact ⟨_, rfl⟩

theorem exists_writeLoop (h : ValuesInv y.world.proc) (m : Minor)
    (rest : List Char) : ∃ z, WriteLoop m y rest z := by
  induction hlength : rest.length using Nat.strong_induction_on generalizing y rest with
  | _ n ih =>
    by_cases hrest : rest = []
    · subst hrest
      exact ⟨y, .done⟩
    have hpos := List.length_pos_iff.mpr hrest
    have htake : rest.take maxRwCount ≠ [] := by
      simpa [maxRwCount] using hrest
    have hcount : (rest.take maxRwCount).length ≤ maxRwCount :=
      List.length_take_le _ _
    have hchunk : 0 < ((rest.take maxRwCount).take 32).length := by
      have htaken := List.length_pos_iff.mpr htake
      rw [List.length_take]
      omega
    obtain ⟨u, hstep⟩ := exists_accepted (m := m) h htake hcount
    obtain ⟨z, hz⟩ := ih (n - ((rest.take maxRwCount).take 32).length) (by omega)
      (h.step hstep) (rest.drop ((rest.take maxRwCount).take 32).length)
      (by rw [List.length_drop, hlength])
    exact ⟨z, .accepted hrest hstep (by exact_mod_cast hchunk) hz⟩

end Loop

/-- In every state that a run from a load reaches, a string written to an entry
with the usual loop is kept as far as it fits exactly when it is not cut or its
last 32 characters begin like its first. -/
theorem longWrite_keeps_iff {e : InitEnv} (hload : (cddInit e).1 = 0)
    {cs : List ModuleCall} {y z : System}
    (hrun : moduleDriver.Run (loaded e) cs y) {m : Minor} {s : List Char}
    (hs : s ≠ []) (hnul : '\x00' ∉ s) (hloop : WriteLoop m y s z) :
    ShowsMember m (keptMember s) z ↔ KeepsMember s := by
  obtain ⟨hinv, hmember⟩ := hloop.leaves (valuesInv_run hload hrun) hnul
  rw [if_neg hs] at hmember
  unfold ShowsMember
  rw [hinv.toWired.deviceReport_eq, reportShowing_inj, hmember,
    lastChunk_dropLast_iff]

def overlong : List Char := List.replicate 32 'a' ++ ['b']

theorem longWrite_keeps_iff_repeated :
    ∃ z, WriteLoop 0 (loaded undisturbed) (List.replicate 64 'a') z ∧
      ShowsMember 0 (List.replicate 31 'a') z := by
  obtain ⟨z, hloop⟩ := exists_writeLoop
    (y := loaded undisturbed) (loaded_valuesInv cddInit_undisturbed) 0
    (List.replicate 64 'a')
  exact ⟨z, hloop, (longWrite_keeps_iff cddInit_undisturbed (.nil _)
    (by decide) (by decide) hloop).mpr (by decide)⟩

/-- Nothing of the first 32 characters is left. -/
theorem not_longWrite_keeps_overlong :
    ∃ z, WriteLoop 0 (loaded undisturbed) overlong z ∧
      ¬ ShowsMember 0 (keptMember overlong) z := by
  have hinv := loaded_valuesInv cddInit_undisturbed
  obtain ⟨z, hloop⟩ := exists_writeLoop (y := loaded undisturbed) hinv 0 overlong
  obtain ⟨hinv', hmember⟩ := hloop.leaves hinv (by decide)
  refine ⟨z, hloop, fun hshows => ?_⟩
  unfold ShowsMember at hshows
  rw [hinv'.toWired.deviceReport_eq, reportShowing_inj, hmember] at hshows
  exact absurd hshows (by decide)

end CddDriver
