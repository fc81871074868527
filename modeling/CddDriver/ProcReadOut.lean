import CddDriver.ProcWrites
import Mathlib.Tactic.Common
/-!
# Reading out an entry of /proc/CDD

A reader calls `readproc_CDD2` until it returns 0.  The first call formats the
report, cuts it to the buffer and sets `eof`; every later call finds `eof` set,
so what the first call cut off is never delivered.
-/

namespace CddDriver

open Lib

/-! ## One reader -/

def ModuleCall.ReadsEntry : ModuleCall → Prop
  | .readproc _ _ _ _ => True
  | _ => False

section Reader

/- The entry that is read, and the calls that may come between the reads. -/
variable (m : Minor) (other : ModuleCall → Prop)

/-- Reads of positive lengths until one returns 0, and the bytes that they
return.  A read that finds the semaphore taken is made again. -/
inductive ReadsOn : System → List Char → System → Prop where
  | ended {y z : System} {locked : Bool} {len : Nat} {old text : List Char} :
      0 < len →
      moduleDriver.step y (.readproc m locked len old) =
        some (z, .readproc 0 text) →
      ReadsOn y [] z
  | more {y u z : System} {locked : Bool} {len : Nat} {old text out : List Char}
      {retval : Int} :
      0 < len →
      moduleDriver.step y (.readproc m locked len old) =
        some (u, .readproc retval text) →
      0 < retval → ReadsOn u out z → ReadsOn y (text.take retval.toNat ++ out) z
  | refused {y u z : System} {locked : Bool} {len : Nat} {old text out : List Char}
      {retval : Int} :
      0 < len →
      moduleDriver.step y (.readproc m locked len old) =
        some (u, .readproc retval text) →
      retval < 0 → ReadsOn u out z → ReadsOn y out z
  | others {y u z : System} {c : ModuleCall} {o : ModuleReply} {out : List Char} :
      other c → moduleDriver.step y c = some (u, o) →
      ReadsOn u out z → ReadsOn y out z

/-- All that a reader gets whose first read has the length `len` and is made in
the state `y`. -/
inductive ReadOut (len : Nat) (y : System) : List Char → System → Prop where
  | atOnce {z : System} {old text : List Char} :
      0 < len →
      moduleDriver.step y (.readproc m true len old) =
        some (z, .readproc 0 text) →
      ReadOut len y [] z
  | begun {u z : System} {old text out : List Char} {retval : Int} :
      0 < len →
      moduleDriver.step y (.readproc m true len old) =
        some (u, .readproc retval text) →
      0 < retval → ReadsOn m other u out z →
      ReadOut len y (text.take retval.toNat ++ out) z

end Reader

/-! ## What the reads deliver -/

section Delivery

variable {m : Minor} {other : ModuleCall → Prop} {y z : System}
  {out : List Char} {len : Nat}

theorem ValuesInv.step_eof {c : ModuleCall} {o : ModuleReply}
    (h : ValuesInv y.world.proc) (hstep : moduleDriver.step y c = some (z, o))
    (hc : ¬ c.ReadsEntry) : z.world.proc.eof = y.world.proc.eof := by
  cases c with
  | device c =>
      obtain ⟨o', -, hdevice⟩ := moduleDriver_device hstep
      rw [driver_step_proc hdevice]
  | readproc k locked len old => exact absurd trivial hc
  | writeproc k buf copy =>
      obtain ⟨b, written, q, hset, -, rfl⟩ := h.writeproc_sets hstep
      exact hset.eof

theorem ValuesInv.readproc_eof {u : System} {locked : Bool} {old text : List Char}
    {retval : Int} (h : ValuesInv y.world.proc) (heof : y.world.proc.eof = true)
    (hstep : moduleDriver.step y (.readproc m locked len old) =
      some (u, .readproc retval text)) :
    (retval = 0 ∧ u = y.setProc { y.world.proc with eof := false }) ∨
      (retval < 0 ∧ u = y) := by
  obtain ⟨-, r, rfl, rfl, heq⟩ := moduleDriver_readproc hstep
  obtain ⟨rfl, rfl⟩ := ModuleReply.readproc.inj heq
  cases locked with
  | true =>
      rw [h.toWired.readprocCDD2_eof heof]
      exact .inl ⟨rfl, rfl⟩
  | false =>
      rw [h.toWired.readprocCDD2_refused]
      exact .inr ⟨show -erestartsys < 0 by decide, rfl⟩

/-- Once `eof` is set a reader gets nothing more, and its reads change nothing
but `eof`: what the calls in between preserve holds up to the last read. -/
theorem ReadsOn.pending {I : System → Prop} (hreads : ReadsOn m other y out z)
    (hother : ∀ {y u : System} {c : ModuleCall} {o : ModuleReply}, I y → other c →
      moduleDriver.step y c = some (u, o) → I u)
    (hpending : ∀ {y : System}, I y →
      ValuesInv y.world.proc ∧ y.world.proc.eof = true) (h : I y) :
    out = [] ∧ ∃ u, I u ∧ z = u.setProc { u.world.proc with eof := false } := by
  induction hreads with
  | @ended y z locked len old text _ hstep =>
      obtain ⟨hvalues, heof⟩ := hpending h
      rcases hvalues.readproc_eof heof hstep with ⟨-, rfl⟩ | ⟨hneg, -⟩
      · exact ⟨rfl, y, h, rfl⟩
      · exact absurd hneg (Int.lt_irrefl 0)
  | more _ hstep hret =>
      obtain ⟨hvalues, heof⟩ := hpending h
      rcases hvalues.readproc_eof heof hstep with ⟨rfl, -⟩ | ⟨hneg, -⟩
      · exact absurd hret (Int.lt_irrefl 0)
      · omega
  | refused _ hstep hneg _ ih =>
      obtain ⟨hvalues, heof⟩ := hpending h
      rcases hvalues.readproc_eof heof hstep with ⟨rfl, -⟩ | ⟨-, rfl⟩
      · exact absurd hneg (Int.lt_irrefl 0)
      · exact ih h
  | others hc hstep _ ih => exact ih (hother h hc hstep)

theorem ReadOut.delivers (hout : ReadOut m other len y out z)
    (hother : ∀ c, other c → ¬ c.ReadsEntry) (h : ValuesInv y.world.proc) :
    out = if y.world.proc.eof then []
      else (deviceReport y.world.cddDev m y.world.proc).take (len - 1) := by
  cases heof : y.world.proc.eof with
  | true =>
      cases hout with
      | atOnce => rfl
      | begun _ hstep hret =>
          rcases h.readproc_eof heof hstep with ⟨rfl, -⟩ | ⟨hneg, -⟩
          · exact absurd hret (Int.lt_irrefl 0)
          · omega
  | false =>
      simp only [Bool.false_eq_true, if_false]
      cases hout with
      | atOnce hlen hstep =>
          obtain ⟨hmax, r, rfl, -, heq⟩ := moduleDriver_readproc hstep
          rw [h.toWired.readprocCDD2_first heof hlen hmax] at heq
          have hlength := (ModuleReply.readproc.inj heq).1
          exact (List.eq_nil_of_length_eq_zero (by omega)).symm
      | begun hlen hstep _ hreads =>
          have hinv := h.step hstep
          obtain ⟨hmax, r, rfl, rfl, heq⟩ := moduleDriver_readproc hstep
          rw [h.toWired.readprocCDD2_first heof hlen hmax] at heq hinv hreads
          obtain ⟨rfl, rfl⟩ := ModuleReply.readproc.inj heq
          obtain ⟨rfl, -⟩ := hreads.pending
            (fun hI hc hnext => ⟨hI.1.step hnext,
              (hI.1.step_eof hnext (hother _ hc)).trans hI.2⟩)
            (fun hI => hI) ⟨hinv, rfl⟩
          rw [List.append_nil, Int.toNat_natCast, List.take_length]

theorem moduleDriver_readproc_eq (y : System) (m : Minor) (locked : Bool)
    (old : List Char) (hmax : len ≤ maxRwCount) :
    moduleDriver.step y (.readproc m locked len old) =
      let r := readprocCDD2 locked (getDevname m) len old y.world.cddDev y.world.proc
      some (y.setProc r.2.2, .readproc r.1 r.2.1) :=
  if_neg (Nat.not_lt.mpr hmax)

theorem exists_readOut (m : Minor) (other : ModuleCall → Prop)
    (h : ValuesInv y.world.proc) (hlen : 0 < len) (hmax : len ≤ maxRwCount) :
    ∃ out z, ReadOut m other len y out z := by
  have hends : ∀ {u : System}, ValuesInv u.world.proc → u.world.proc.eof = true →
      ∃ z, moduleDriver.step u (.readproc m true len []) =
        some (z, .readproc 0 []) := by
    intro u hu heof
    rw [moduleDriver_readproc_eq u m true [] hmax, hu.toWired.readprocCDD2_eof heof]
    exact ⟨_, rfl⟩
  cases heof : y.world.proc.eof with
  | true =>
      obtain ⟨z, hz⟩ := hends h heof
      exact ⟨_, z, .atOnce hlen hz⟩
  | false =>
      have hfirst := moduleDriver_readproc_eq y m true [] hmax
      rw [h.toWired.readprocCDD2_first heof hlen hmax] at hfirst
      obtain ⟨z, hz⟩ := hends (h.step hfirst) rfl
      by_cases hzero : ((deviceReport y.world.cddDev m y.world.proc).take
          (len - 1)).length = 0
      · dsimp only at hfirst
        rw [hzero] at hfirst
        exact ⟨_, _, .atOnce hlen hfirst⟩
      · exact ⟨_, z, .begun hlen hfirst (by dsimp only; omega) (.ended hlen hz)⟩

end Delivery

/-- Whatever the device and the lengths of the reads, a single reader gets the
whole report exactly when no end of file was pending and its first read has room
for all of it. -/
theorem readOut_complete_iff {m : Minor} {len : Nat} {y z : System}
    {out : List Char} (h : ValuesInv y.world.proc)
    (hout : ReadOut m (fun c => ¬ c.ReadsEntry) len y out z) :
    out = deviceReport y.world.cddDev m y.world.proc ↔
      y.world.proc.eof = false ∧
        (deviceReport y.world.cddDev m y.world.proc).length < len := by
  have hpos := @deviceReport_pos y.world.cddDev y.world.proc m
  rw [hout.delivers (fun _ hc => hc) h]
  cases y.world.proc.eof with
  | true =>
      refine iff_of_false (fun heq => ?_) (by simp)
      rw [← heq] at hpos
      exact absurd hpos (by simp)
  | false =>
      simp only [Bool.false_eq_true, if_false, true_and]
      rw [List.take_eq_self_iff]
      omega

theorem readOut_complete_iff_long :
    ∃ out z, ReadOut 0 (fun c => ¬ c.ReadsEntry) 512 (loaded undisturbed) out z ∧
      out = deviceReport (loaded undisturbed).world.cddDev 0
        (loaded undisturbed).world.proc := by
  have hinv : ValuesInv (loaded undisturbed).world.proc :=
    loaded_valuesInv cddInit_undisturbed
  have hfits : (deviceReport (loaded undisturbed).world.cddDev 0
      (loaded undisturbed).world.proc).length < 512 := by decide +kernel
  obtain ⟨out, z, hout⟩ := exists_readOut 0 (fun c => ¬ c.ReadsEntry) hinv
    (show 0 < 512 by decide) (by decide)
  exact ⟨out, z, hout, (readOut_complete_iff hinv hout).mpr
    ⟨loaded_eof cddInit_undisturbed, hfits⟩⟩

/-- A first read of 64 bytes delivers 63 characters, and the next returns 0. -/
theorem not_readOut_complete_short :
    ∃ out z, ReadOut 0 (fun c => ¬ c.ReadsEntry) 64 (loaded undisturbed) out z ∧
      out.length = 63 ∧ out ≠ deviceReport (loaded undisturbed).world.cddDev 0
        (loaded undisturbed).world.proc := by
  have hinv : ValuesInv (loaded undisturbed).world.proc :=
    loaded_valuesInv cddInit_undisturbed
  have hlong : 63 < (deviceReport (loaded undisturbed).world.cddDev 0
      (loaded undisturbed).world.proc).length := by decide +kernel
  obtain ⟨out, z, hout⟩ := exists_readOut 0 (fun c => ¬ c.ReadsEntry) hinv
    (show 0 < 64 by decide) (by decide)
  have hdelivers := hout.delivers (fun _ hc => hc) hinv
  have heof : (loaded undisturbed).world.proc.eof = false :=
    loaded_eof cddInit_undisturbed
  simp only [heof, Bool.false_eq_true, if_false] at hdelivers
  have hlength : out.length = 63 := by
    rw [hdelivers, List.length_take]
    omega
  refine ⟨out, z, hout, hlength, fun heq => ?_⟩
  rw [← heq, hlength] at hlong
  exact absurd hlong (by decide)

end CddDriver
