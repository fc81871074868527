import CddDriver.Files
import CddDriver.WriteEffects
import Mathlib.Tactic.Common
/-!
# The file position after a write

`CDD_write` stores at `pos`, which is `counter` in append mode, but moves
`*ppos`.  The file position follows the data only for as long as the two agree.
-/

namespace CddDriver

open Lib

def Aligned (ppos : Int) (d : CDDdev) : Prop :=
  deviceOffset ppos d = ppos ∧ ppos < 2 ^ 31

instance (ppos : Int) (d : CDDdev) : Decidable (Aligned ppos d) :=
  inferInstanceAs (Decidable (_ ∧ _))

theorem lowOffset_eq_iff {ppos : Int} {d : CDDdev} (hcounter : d.counter < 2 ^ 32)
    (hlow : lowOffset ppos d < 2 ^ 31) (hpos : 0 ≤ ppos) :
    (lowOffset ppos d : Int) = ppos ↔ Aligned ppos d := by
  have hcast := lowOffset_cast ppos d
  unfold Aligned
  cases happend : d.append with
  | false =>
      have hoffset : deviceOffset ppos d = ppos := by simp [deviceOffset, happend]
      have hsmall : ppos < 2 ^ 31 → toUInt ppos = ppos := fun h =>
        wrapU_eq_self hpos (by omega)
      rw [hoffset] at hcast ⊢
      omega
  | true =>
      have hoffset : deviceOffset ppos d = d.counter := by
        simp [deviceOffset, happend]
      have hself : toUInt d.counter = d.counter :=
        wrapU_eq_self (Int.natCast_nonneg _) (by omega)
      rw [hoffset] at hcast ⊢
      omega

theorem ppos_follows_iff {locked : Bool} {buf : List Byte} {copy : UserCopy}
    {ppos : Int} {s : DevState} {w : WriteResult}
    (hcounter : s.dev.counter < 2 ^ 32) (hrange : vfsRange ppos buf.length = true)
    (h : cddWrite locked buf copy ppos s = some w) (hretval : 0 ≤ w.retval) :
    ∃ start : Nat, copyFromUserRange s.dev ppos buf.length =
        some ((start : Int), buf.length) ∧
      StoredAt start buf s w.state ∧
      (w.ppos = start + buf.length ↔ Aligned ppos s.dev) := by
  obtain ⟨hpos, hcount, hsum⟩ := vfsRange_eq_true.mp hrange
  cases cddWrite_outcome hcount h with
  | refused hneg => exact absurd hretval (Int.not_le.mpr hneg)
  | faulted => exact absurd hretval (show ¬ (0 : Int) ≤ -efault by decide)
  | stored _ haccept _ ht =>
      refine ⟨lowOffset ppos s.dev, ?_, ?_, ?_⟩
      · rw [copyFromUserRange_eq hcount, if_pos haccept]
      · exact storedAt_of_poke ht
          (congrArg CDDdev.cddStorage (DevState.poke_dev ht)).symm rfl
      · rw [← lowOffset_eq_iff hcounter haccept.1 hpos]
        have hmoved : toLong (ppos + buf.length) = ppos + buf.length :=
          wrapS_eq_self (by omega) (by omega) (by omega)
        show toLong (ppos + buf.length) = _ ↔ _
        rw [hmoved]
        omega

/-! ## Sequences of writes through one file -/

/-- The offset past the last byte that file `f` wrote, for as long as it then
did nothing but write and ask for its position. -/
def lastWritten (f : Nat) (last : Option Int) (y : System) (c : Call) (o : Reply)
    (_ : System) : Option Int :=
  if c.file ≠ f then last
  else
    match c, o, y.files f with
    | .write _ none buf _ _, .write start retval, .opened m _ _ =>
        if retval < 0 ∨ buf = [] then last
        else
          (copyFromUserRange (y.world.cddDev m) start buf.length).map fun r =>
            r.1 + r.2
    | .llseek _ newpos whence, _, _ =>
        if newpos = 0 ∧ whence = seekCur then last else none
    | .ioctl _ _ _, _, _ => last
    | _, _, _ => none

def TellsLastWritten (f : Nat) (x : System × Option Int) (c : Call) (o : Reply)
    (_ : System × Option Int) : Prop :=
  ∀ last, c = .llseek f 0 seekCur → x.2 = some last → o = .llseek last

/-- The writes of file `f` that store bytes are aligned, and its position is in
the content when it asks for it. -/
def positionKept (f : Nat) (y : System) (c : Call) : Bool :=
  match c, y.files f with
  | .write g none buf locked copy, .opened m _ fPos =>
      decide (g = f → buf ≠ [] → locked = true → min copy.uncopied buf.length = 0 →
        Accepts fPos buf.length (y.world.cddDev m) →
          Aligned fPos (y.world.cddDev m))
  | .llseek g newpos whence, .opened m _ fPos =>
      decide (g = f → newpos = 0 → whence = seekCur →
        fPos ≤ (y.world.cddDev m).counter)
  | _, _ => true

theorem write_slot {f : Nat} {at? : Option Int} {buf : List Byte} {locked : Bool}
    {copy : UserCopy} {y z : System} {o : Reply}
    (h : driver.step y (.write f at? buf locked copy) = some (z, o)) :
    ∃ m fFlags fPos w, y.files f = .opened m fFlags fPos ∧
      vfsRange (at?.getD fPos) buf.length = true ∧
      cddWrite locked buf copy (at?.getD fPos) (y.devState m) = some w ∧
      z = (y.setDevState m w.state).moveTo f m fFlags at? w.ppos ∧
      o = .write (at?.getD fPos) w.retval := by
  have h : y.call (.write f at? buf locked copy) = some (z, o) := h
  simp only [System.call] at h
  split at h
  next m fFlags fPos hf =>
    split at h
    next hrange =>
      obtain ⟨w, hw, heq⟩ := Option.map_eq_some_iff.mp h
      obtain ⟨rfl, rfl⟩ := Prod.mk.inj heq
      exact ⟨m, fFlags, fPos, w, hf, hrange, hw, rfl, rfl⟩
    · cases h
  · cases h

theorem llseek_slot {f : Nat} {newpos whence : Int} {y z : System} {o : Reply}
    (h : driver.step y (.llseek f newpos whence) = some (z, o)) :
    ∃ m fFlags fPos r, y.files f = .opened m fFlags fPos ∧
      cddLlseek fPos newpos whence (y.world.cddDev m) = r ∧
      z = y.setFile f (.opened m fFlags r.2) ∧ o = .llseek r.1 := by
  have h : y.call (.llseek f newpos whence) = some (z, o) := h
  simp only [System.call] at h
  split at h
  next m fFlags fPos hf =>
    obtain ⟨rfl, rfl⟩ := Prod.mk.inj (Option.some.inj h)
    exact ⟨m, fFlags, fPos, _, hf, rfl, rfl, rfl⟩
  · cases h

def PositionInv (f : Nat) (x : System × Option Int) : Prop :=
  WorldInv x.1.world ∧ ∀ last, x.2 = some last →
    0 ≤ last ∧ ∃ m fFlags, x.1.files f = .opened m fFlags last

theorem cddLlseek_cur {fPos : Int} {d : CDDdev} (hpos : 0 ≤ fPos)
    (hcontent : fPos ≤ d.counter) (hcounter : d.counter < 2 ^ 31) :
    cddLlseek fPos 0 seekCur d = (fPos, fPos) := by
  have htarget : seekTarget fPos 0 seekCur d = some fPos := by
    simp [seekTarget, seekCur, seekSet]
  have hself : toUInt fPos = fPos := wrapU_eq_self hpos (by omega)
  rw [cddLlseek_eq, htarget]
  simp only [hself]
  rw [if_pos ⟨by omega, hcontent⟩]

theorem written_position {y z : System} {f : Nat} {buf : List Byte} {locked : Bool}
    {copy : UserCopy} {o : Reply} {last last' : Option Int}
    (hworld : WorldInv y.world)
    (hlast : ∀ v, last = some v → 0 ≤ v ∧ ∃ m fFlags, y.files f = .opened m fFlags v)
    (hstep : driver.step y (.write f none buf locked copy) = some (z, o))
    (hkept : positionKept f y (.write f none buf locked copy) = true)
    (hnote : last' = lastWritten f last y (.write f none buf locked copy) o z) :
    ∀ v, last' = some v → 0 ≤ v ∧ ∃ m fFlags, z.files f = .opened m fFlags v := by
  obtain ⟨m, fFlags, fPos, w, hf, hrange, hw, rfl, rfl⟩ := write_slot hstep
  have hrange : vfsRange fPos buf.length = true := hrange
  have hw : cddWrite locked buf copy fPos (y.devState m) = some w := hw
  obtain ⟨hpos, hcount, hsum⟩ := vfsRange_eq_true.mp hrange
  have hcounter := hworld.counter_lt m
  have hslot : ((y.setDevState m w.state).moveTo f m fFlags none w.ppos).files f =
      .opened m fFlags w.ppos := Function.update_self f _ _
  simp only [lastWritten, Call.file, ne_eq, not_true_eq_false, if_false, hf,
    Option.getD_none] at hnote
  intro v hv
  rw [hslot]
  by_cases hidle : w.retval < 0 ∨ buf = []
  · rw [if_pos hidle] at hnote
    obtain ⟨hnonneg, m', fFlags', hf'⟩ := hlast v (hnote.symm.trans hv)
    rw [hf] at hf'
    obtain ⟨rfl, rfl, rfl⟩ := FileSlot.opened.inj hf'
    refine ⟨hnonneg, m, fFlags, ?_⟩
    have hsame : w.ppos = fPos := by
      cases cddWrite_outcome hcount hw with
      | refused => rfl
      | faulted => rfl
      | stored =>
          rcases hidle with hneg | rfl
          · exact absurd hneg (Int.not_lt.mpr (Int.natCast_nonneg _))
          · simp only [List.length_nil, Int.natCast_zero, Int.add_zero] at hsum ⊢
            exact wrapS_eq_self (by omega) (by omega) hsum
    rw [hsame]
  · obtain ⟨hretval, hnil⟩ := not_or.mp hidle
    rw [if_neg hidle] at hnote
    cases cddWrite_outcome hcount hw with
    | refused hneg => exact absurd hneg hretval
    | faulted => exact absurd (show -efault < 0 by decide) hretval
    | stored hlock haccept hleft =>
        have haccept : Accepts fPos buf.length (y.world.cddDev m) := haccept
        have haligned : Aligned fPos (y.world.cddDev m) := by
          simp only [positionKept, hf, decide_eq_true_eq] at hkept
          exact hkept trivial hnil hlock hleft haccept
        have hlow := (lowOffset_eq_iff (by omega) haccept.1 hpos).mpr haligned
        rw [copyFromUserRange_eq hcount, if_pos haccept, Option.map_some, hlow] at hnote
        obtain rfl := Option.some.inj (hnote.symm.trans hv)
        refine ⟨by omega, m, fFlags, ?_⟩
        show FileSlot.opened m fFlags (toLong (fPos + buf.length)) = _
        rw [show toLong (fPos + buf.length) = fPos + buf.length from
          wrapS_eq_self (by omega) (by omega) (by omega)]

theorem seeked_position {y z : System} {f : Nat} {newpos whence : Int} {o : Reply}
    {last last' : Option Int} (hworld : WorldInv y.world)
    (hlast : ∀ v, last = some v → 0 ≤ v ∧ ∃ m fFlags, y.files f = .opened m fFlags v)
    (hstep : driver.step y (.llseek f newpos whence) = some (z, o))
    (hkept : positionKept f y (.llseek f newpos whence) = true)
    (hnote : last' = lastWritten f last y (.llseek f newpos whence) o z) :
    ∀ v, last' = some v → 0 ≤ v ∧ ∃ m fFlags, z.files f = .opened m fFlags v := by
  obtain ⟨m, fFlags, fPos, r, hf, hr, rfl, rfl⟩ := llseek_slot hstep
  simp only [lastWritten, Call.file, ne_eq, not_true_eq_false, if_false] at hnote
  by_cases hask : newpos = 0 ∧ whence = seekCur
  · obtain ⟨rfl, rfl⟩ := hask
    simp only [and_self, if_true] at hnote
    subst hnote
    intro v hv
    obtain ⟨hnonneg, m', fFlags', hf'⟩ := hlast v hv
    rw [hf] at hf'
    obtain ⟨rfl, rfl, rfl⟩ := FileSlot.opened.inj hf'
    simp only [positionKept, hf, decide_eq_true_eq] at hkept
    have hseek := cddLlseek_cur hnonneg (hkept trivial trivial trivial)
      (hworld.counter_lt m)
    refine ⟨hnonneg, m, fFlags, ?_⟩
    rw [← hr, hseek]
    exact Function.update_self f _ _
  · rw [if_neg hask] at hnote
    simp [hnote]

theorem positionInv_step {f : Nat} {y z : System} {c : Call} {o : Reply}
    {last last' : Option Int} (h : PositionInv f (y, last))
    (hstep : driver.step y c = some (z, o)) (hkept : positionKept f y c = true)
    (hnote : last' = lastWritten f last y c o z) : PositionInv f (z, last') := by
  obtain ⟨hworld, hlast⟩ := h
  refine ⟨WorldInv.step hworld hstep, ?_⟩
  by_cases hfile : c.file = f
  · cases c with
    | write g at? buf locked copy =>
        obtain rfl : g = f := hfile
        cases at? with
        | none => exact written_position hworld hlast hstep hkept hnote
        | some at' =>
            simp only [lastWritten, Call.file, ne_eq, not_true_eq_false,
              if_false] at hnote
            simp [hnote]
    | llseek g newpos whence =>
        obtain rfl : g = f := hfile
        exact seeked_position hworld hlast hstep hkept hnote
    | ioctl g ioctlNum uncopied =>
        obtain rfl : g = f := hfile
        simp only [lastWritten, Call.file, ne_eq, not_true_eq_false, if_false] at hnote
        subst hnote
        have hcall : y.call (.ioctl g ioctlNum uncopied) = some (z, o) := hstep
        simp only [System.call] at hcall
        split at hcall
        · obtain ⟨rfl, -⟩ := Prod.mk.inj (Option.some.inj hcall)
          exact hlast
        · cases hcall
    | openFile g m fFlags locked fresh =>
        obtain rfl : g = f := hfile
        simp [hnote, lastWritten, Call.file]
    | wake g signalPending relocked =>
        obtain rfl : g = f := hfile
        simp [hnote, lastWritten, Call.file]
    | read g at? buf count uncopied =>
        obtain rfl : g = f := hfile
        simp [hnote, lastWritten, Call.file]
    | release g =>
        obtain rfl : g = f := hfile
        simp [hnote, lastWritten, Call.file]
  · have hsame : last' = last := by
      rw [hnote]
      unfold lastWritten
      rw [if_pos hfile]
    subst hsame
    intro v hv
    rw [step_files_ne hstep hfile]
    exact hlast v hv

/-- A write stores its bytes in one range, and moves the file position to the
end of it exactly when it was aligned.  And in a run that keeps to this, a file that
writes, among any calls on other files, is told the offset past the last byte
that it wrote when it asks for its position. -/
theorem filePosition_follows (e : InitEnv) (f : Nat) (cs : List Call) :
    (∀ (s : DevState) (locked : Bool) (buf : List Byte) (copy : UserCopy)
        (ppos : Int) (w : WriteResult), s.dev.counter < 2 ^ 32 →
      vfsRange ppos buf.length = true →
      cddWrite locked buf copy ppos s = some w → 0 ≤ w.retval →
      ∃ start : Nat, copyFromUserRange s.dev ppos buf.length =
          some ((start : Int), buf.length) ∧
        StoredAt start buf s w.state ∧
        (w.ppos = start + buf.length ↔ Aligned ppos s.dev)) ∧
    ((cddInit e).1 = 0 →
      driver.EveryStep (fun y c _ _ => positionKept f y c = true) (loaded e) cs →
      (driver.observe (lastWritten f)).EveryStep (TellsLastWritten f)
        (loaded e, none) cs) := by
  constructor
  · intro s locked buf copy ppos w hcounter hrange h hretval
    exact ppos_follows_iff hcounter hrange h hretval
  · intro hload hkept
    refine Machine.everyStep_of_invariant (I := PositionInv f) ?_
      ⟨worldInv_loaded hload, fun _ h => by cases h⟩
      (Machine.everyStep_observe none hkept)
    rintro ⟨y, last⟩ c ⟨z, last'⟩ o hinv hobserved hkept
    obtain ⟨hstep, hnote⟩ := Machine.observe_step.mp hobserved
    refine ⟨?_, positionInv_step hinv hstep hkept hnote⟩
    rintro v rfl hv
    obtain ⟨hnonneg, m, fFlags, hf⟩ := hinv.2 v hv
    obtain ⟨m', fFlags', fPos, r, hf', hr, -, rfl⟩ := llseek_slot hstep
    have hf : y.files f = .opened m fFlags v := hf
    rw [hf] at hf'
    obtain ⟨rfl, rfl, rfl⟩ := FileSlot.opened.inj hf'
    have hcontent : v ≤ (y.world.cddDev m).counter := by
      have hkept : positionKept f y (.llseek f 0 seekCur) = true := hkept
      simp only [positionKept, hf, decide_eq_true_eq] at hkept
      exact hkept trivial trivial trivial
    rw [← hr, cddLlseek_cur hnonneg hcontent (hinv.1.counter_lt m)]

theorem filePosition_follows_two_writes :
    (driver.observe (lastWritten 0)).EveryStep (TellsLastWritten 0)
      (loaded undisturbed, none)
      [.openFile 0 0 oWronly true (some fun _ => 0), .write 0 none [65, 66] true .whole,
        .write 0 none [67] true .whole, .llseek 0 0 seekCur] :=
  (filePosition_follows undisturbed 0 _).2 cddInit_undisturbed
    (Machine.everyStep_of_check (c := positionKept 0) (fun _ _ _ _ h => h)
      (by decide))

/-- On a device that holds two bytes a file opens in append mode and writes one
more.  It is stored at the offset 2 and leaves the file at the offset 1. -/
theorem not_filePosition_follows_append :
    ∃ y w, driver.exec (loaded undisturbed)
        [.openFile 0 0 oWronly true (some fun _ => 0), .write 0 none [65, 66] true .whole,
          .openFile 1 0 (oWronly ||| oAppend) true (some fun _ => 0)] = some y ∧
      cddWrite true [67] .whole 0 (y.devState 0) = some w ∧ w.retval = 1 ∧
      copyFromUserRange (y.world.cddDev 0) 0 1 = some (2, 1) ∧ w.ppos = 1 ∧
      ¬ (driver.observe (lastWritten 1)).EveryStep (TellsLastWritten 1)
        (loaded undisturbed, none)
        ([.openFile 0 0 oWronly true (some fun _ => 0), .write 0 none [65, 66] true .whole,
          .openFile 1 0 (oWronly ||| oAppend) true (some fun _ => 0),
          .write 1 none [67] true .whole] ++ [.llseek 1 0 seekCur]) := by
  have hcall : ((driver.exec (loaded undisturbed)
      [.openFile 0 0 oWronly true (some fun _ => 0), .write 0 none [65, 66] true .whole,
        .openFile 1 0 (oWronly ||| oAppend) true (some fun _ => 0)]).bind fun y =>
      (cddWrite true [67] .whole 0 (y.devState 0)).map fun w =>
        (w.retval, copyFromUserRange (y.world.cddDev 0) 0 1, w.ppos)) =
      some (1, some (2, 1), 1) := by decide
  have hrun : (((driver.observe (lastWritten 1)).exec (loaded undisturbed, none)
      [.openFile 0 0 oWronly true (some fun _ => 0), .write 0 none [65, 66] true .whole,
        .openFile 1 0 (oWronly ||| oAppend) true (some fun _ => 0),
        .write 1 none [67] true .whole]).bind fun x =>
      ((driver.observe (lastWritten 1)).step x (.llseek 1 0 seekCur)).map fun t =>
        (x.2, (match t.2 with | .llseek retval => retval | _ => 0))) =
      some (some 3, 1) := by decide
  obtain ⟨y, hy, hmap⟩ := Option.bind_eq_some_iff.mp hcall
  obtain ⟨w, hw, heq⟩ := Option.map_eq_some_iff.mp hmap
  simp only [Prod.mk.injEq] at heq
  obtain ⟨hretval, hcopy, hppos⟩ := heq
  refine ⟨y, w, hy, hw, hretval, hcopy, hppos, fun hall => ?_⟩
  obtain ⟨x, hx, hmap'⟩ := Option.bind_eq_some_iff.mp hrun
  obtain ⟨⟨t, o⟩, hstep, htold⟩ := Option.map_eq_some_iff.mp hmap'
  simp only [Prod.mk.injEq] at htold
  have htells := hall.last (Machine.run_of_exec hx) hstep 3 rfl htold.1
  subst htells
  exact absurd htold.2 (by decide)

end CddDriver
