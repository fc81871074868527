import CddDriver.Invariant
import Mathlib.Tactic.Common
/-!
# Where a write stores its bytes

`O_APPEND` is a flag of the open file, but `CDD_write` looks at the field
`append` of the device, which belongs to whichever open returned 0 last.  A
write goes where its own file asks when that open was made in the same mode, or
when the content ends where the write starts.
-/

namespace CddDriver

open Lib

structure StoredAt (start : Nat) (buf : List Byte) (s s' : DevState) : Prop where
  inside : ∀ i, (h : i < buf.length) → s'.byteAt (start + i) = some buf[i]
  outside : ∀ i, i < start ∨ start + buf.length ≤ i → s'.byteAt i = s.byteAt i

/-- The offset at which a write through a file with flags `fFlags` is to store
its bytes: the end of the content for `O_APPEND`, else the file's own. -/
def fileOffset (fFlags : Nat) (start : Int) (d : CDDdev) : Int :=
  if hasFlag fFlags oAppend then d.counter else start

/-- The offset at which `CDD_write` stores, before it is converted to `int`. -/
def deviceOffset (start : Int) (d : CDDdev) : Int :=
  if d.append then d.counter else start

/-- A successful write stores its bytes where its file asks for. -/
def WritesAtFileOffset (y : System) (c : Call) (o : Reply) (z : System) : Prop :=
  ∀ f at? buf locked copy start retval m fFlags fPos,
    c = .write f at? buf locked copy → o = .write start retval →
    y.files f = .opened m fFlags fPos → 0 ≤ retval →
    ∃ offset : Nat, fileOffset fFlags start (y.world.cddDev m) = offset ∧
      StoredAt offset buf (y.devState m) (z.devState m)

theorem storedAt_of_poke {s t s' : DevState} {pos : Nat} {buf : List Byte}
    (ht : s.poke pos buf = some t) (hstorage : s'.dev.cddStorage = t.dev.cddStorage)
    (hheap : s'.heap = t.heap) : StoredAt pos buf s s' := by
  have hbyte : ∀ i, s'.byteAt i = t.byteAt i := by
    intro i
    simp only [DevState.byteAt, DevState.buffer, hstorage, hheap]
  constructor
  · intro i hi
    rw [hbyte, DevState.poke_byteAt_inside ht hi]
  · intro i hi
    rw [hbyte, DevState.poke_byteAt_outside ht hi]

/-- A write that succeeds stores all its bytes at the low 32 bits of the
device's offset. -/
theorem writeBody_stored {buf : List Byte} {copy : UserCopy} {start : Int}
    {s : DevState} {w : WriteResult} (hcount : buf.length ≤ maxRwCount)
    (h : writeBody buf copy start s = some w) (hretval : 0 ≤ w.retval) :
    min copy.uncopied buf.length = 0 ∧ ∃ pos : Nat,
      toUInt (deviceOffset start s.dev) = pos ∧
      pos + buf.length ≤ s.dev.allocLen ∧ StoredAt pos buf s w.state := by
  have hfail : ¬ (0 : Int) ≤ -efault := by decide
  rcases writeBody_cases hcount h with
    rfl | ⟨pos, hpos, hle, ⟨t, -, -, rfl⟩ | ⟨t, hleft, ht, rfl⟩⟩
  · exact absurd hretval hfail
  · exact absurd hretval hfail
  · have hlow : toUInt (deviceOffset start s.dev) = pos := by
      have hwrap := wrapU_wrapS 32 (deviceOffset start s.dev)
      have hpos' : wrapS 32 (deviceOffset start s.dev) = pos := hpos
      have hlt := writePos_lt s.dev start
      rw [hpos'] at hwrap
      rw [hpos] at hlt
      have hself : wrapU 32 pos = pos := wrapU_eq_self (by omega) (by omega)
      exact hwrap.symm.trans hself
    exact ⟨hleft, pos, hlow, hle, storedAt_of_poke ht rfl rfl⟩

theorem StoredAt.of_nil {pos : Nat} {s s' : DevState}
    (h : StoredAt pos [] s s') (start : Nat) : StoredAt start [] s s' := by
  constructor
  · intro i hi
    exact absurd hi (Nat.not_lt_zero i)
  · intro i _
    exact h.outside i (Nat.lt_or_ge i pos)

theorem fileOffset_nonneg {fFlags : Nat} {start : Int} {d : CDDdev}
    (h : 0 ≤ start) : 0 ≤ fileOffset fFlags start d := by
  unfold fileOffset
  split
  · exact Int.natCast_nonneg d.counter
  · exact h

/-! ## The append mode that an open leaves -/

/-- Whether the last open of each device that returned 0 had `O_APPEND`. -/
abbrev Modes := Minor → Bool

def noteMode (m : Minor) (fFlags : Nat) (status : OpenStatus) (g : Modes) :
    Modes :=
  if status = .returned 0 then Function.update g m (hasFlag fFlags oAppend)
  else g

def lastMode (g : Modes) (y : System) (c : Call) (o : Reply) (_ : System) :
    Modes :=
  match c, o with
  | .openFile _ m fFlags _ _, .openFile status => noteMode m fFlags status g
  | .wake f _ _, .openFile status =>
      match y.files f with
      | .opening m fFlags => noteMode m fFlags status g
      | _ => g
  | _, _ => g

def ModesInv (x : System × Modes) : Prop :=
  WorldInv x.1.world ∧ ∀ m, (x.1.world.cddDev m).append = x.2 m

section Opens

variable {m : Minor} {fFlags : Nat} {s s' : DevState} {status : OpenStatus}

theorem openRest_append (h : openRest fFlags s = some (s', status)) :
    s'.dev.append =
      if status = .returned 0 then hasFlag fFlags oAppend else s.dev.append := by
  rcases openRest_cases h with ⟨-, rfl, hcommit⟩ | ⟨-, rfl, hstatus⟩
  · rw [openCommit_dev hcommit, if_pos rfl]
    rfl
  · rw [if_neg hstatus]

theorem openBody_append {fresh : Option (Nat → Byte)}
    (hm : minorOf s.dev.devno = m)
    (h : openBody fresh fFlags s = some (s', status)) :
    s'.dev.append =
      if status = .returned 0 then hasFlag fFlags oAppend else s.dev.append := by
  rcases openBody_cases hm h with ⟨-, rfl, rfl⟩ | ⟨data, -, hrest⟩
  · rw [if_neg (by decide)]
  · exact openRest_append (s := allocated data m s) hrest

theorem append_noteMode {w : World} {g : Modes}
    (hmodes : ∀ k, (w.cddDev k).append = g k)
    (happend : s'.dev.append =
      if status = .returned 0 then hasFlag fFlags oAppend
      else (w.devState m).dev.append) (k : Minor) :
    ((w.setDevState m s').cddDev k).append = noteMode m fFlags status g k := by
  unfold noteMode
  by_cases hk : k = m
  · subst hk
    have hself : (w.setDevState k s').cddDev k = s'.dev :=
      congrArg DevState.dev (w.devState_setDevState_self k s')
    rw [hself, happend]
    split
    · rw [Function.update_self]
    · exact hmodes k
  · rw [w.cddDev_setDevState_ne s' hk, hmodes k]
    split
    · rw [Function.update_of_ne hk]
    · rfl

end Opens

theorem writeBody_append {buf : List Byte} {copy : UserCopy} {ppos : Int}
    {s : DevState} {w : WriteResult} (hcount : buf.length ≤ maxRwCount)
    (h : writeBody buf copy ppos s = some w) :
    w.state.dev.append = s.dev.append := by
  rcases writeBody_cases hcount h with
    rfl | ⟨pos, -, -, ⟨t, -, ht, rfl⟩ | ⟨t, -, ht, rfl⟩⟩
  · rfl
  · rw [DevState.poke_dev ht]
  · show t.dev.append = s.dev.append
    rw [DevState.poke_dev ht]

theorem modesInv_step {y z : System} {g : Modes} {c : Call} {o : Reply}
    (h : ModesInv (y, g)) (hstep : driver.step y c = some (z, o)) :
    ModesInv (z, lastMode g y c o z) := by
  obtain ⟨hworld, hmodes⟩ := h
  have hmodes : ∀ m, (y.world.cddDev m).append = g m := hmodes
  refine ⟨WorldInv.step hworld hstep, ?_⟩
  have heff := effect_of_step hstep
  show ∀ m, (z.world.cddDev m).append = lastMode g y c o z m
  generalize z.world = w at heff
  cases heff with
  | opened hopen =>
      exact append_noteMode hmodes (openBody_append (hworld.device _).minor_eq hopen)
  | openRefused => exact hmodes
  | @resumed f m fFlags s status hf hrest =>
      simp only [lastMode, hf]
      exact append_noteMode hmodes (openRest_append hrest)
  | @wakeRefused f signalPending relocked =>
      have hback : lastMode g y (.wake f signalPending relocked)
          (.openFile (.returned (-erestartsys))) z = g := by
        simp only [lastMode]
        split
        · exact if_neg (by decide)
        · rfl
      rw [hback]
      exact hmodes
  | @written f m fFlags fPos at? buf copy r hf hrange hwrite =>
      intro k
      show ((y.world.setDevState m r.state).cddDev k).append = g k
      by_cases hk : k = m
      · subst hk
        have hself : (y.world.setDevState k r.state).cddDev k = r.state.dev :=
          congrArg DevState.dev (y.world.devState_setDevState_self k r.state)
        rw [hself, writeBody_append (vfsRange_count hrange) hwrite]
        exact hmodes k
      · rw [y.world.cddDev_setDevState_ne r.state hk]
        exact hmodes k
  | hasRead => exact hmodes
  | writeRefused => exact hmodes
  | seeked => exact hmodes
  | queried => exact hmodes
  | released => exact hmodes

/-! ## Writes that follow their file -/

def modeOffset (append : Bool) (start : Int) (counter : Nat) : Int :=
  if append then counter else start % 2 ^ 32

/-- A write at `start` through a file with append mode `file` goes where the
file asks for on a device with append mode `device`: the modes agree, or the
content ends where the write starts. -/
def OffsetFollows (device file : Bool) (start : Int) (counter : Nat) : Prop :=
  match device, file with
  | true, true => True
  | false, false => start < 2 ^ 32
  | true, false => start = counter
  | false, true => start % 2 ^ 32 = counter

instance (device file : Bool) (start : Int) (counter : Nat) :
    Decidable (OffsetFollows device file start counter) :=
  match device, file with
  | true, true => inferInstanceAs (Decidable True)
  | false, false => inferInstanceAs (Decidable (_ < _))
  | true, false => inferInstanceAs (Decidable (_ = _))
  | false, true => inferInstanceAs (Decidable (_ = _))

theorem toUInt_deviceOffset {d : CDDdev} (hcounter : d.counter < 2 ^ 32)
    (start : Int) :
    toUInt (deviceOffset start d) = modeOffset d.append start d.counter := by
  unfold deviceOffset modeOffset
  split
  · exact wrapU_eq_self (Int.natCast_nonneg _) (by omega)
  · rfl

/-- No weaker condition will do: it holds exactly when the low 32 bits of the
device's offset are the offset that the file asks for. -/
theorem offsetFollows_iff {d : CDDdev} {start : Int} (hstart : 0 ≤ start)
    (fFlags : Nat) :
    OffsetFollows d.append (hasFlag fFlags oAppend) start d.counter ↔
      modeOffset d.append start d.counter = fileOffset fFlags start d := by
  cases hdevice : d.append <;> cases hfile : hasFlag fFlags oAppend <;>
    simp [OffsetFollows, modeOffset, fileOffset, hfile]
  · exact ⟨Int.emod_eq_of_lt hstart, fun h => by omega⟩
  · exact eq_comm

/-- A write of the run that gets its lock and its bytes, and whose range fits in
the mode of the last open, follows its file. -/
def modeKept (x : System × Modes) (c : Call) : Bool :=
  match c with
  | .write f at? buf locked copy =>
      match x.1.files f with
      | .opened m fFlags fPos =>
          let start := at?.getD fPos
          let d := x.1.world.cddDev m
          decide (locked = true → buf ≠ [] → copy.uncopied = 0 →
            modeOffset (x.2 m) start d.counter + buf.length ≤ d.allocLen →
              OffsetFollows (x.2 m) (hasFlag fFlags oAppend) start d.counter)
      | _ => true
  | _ => true

theorem writesAtFileOffset_step {y z : System} {g : Modes} {c : Call} {o : Reply}
    (h : ModesInv (y, g)) (hstep : driver.step y c = some (z, o))
    (hkept : modeKept (y, g) c = true) : WritesAtFileOffset y c o z := by
  rintro f at? buf locked copy start retval m fFlags fPos rfl rfl hf hretval
  have heff := effect_of_step hstep
  generalize hw' : z.world = w' at heff
  cases heff with
  | @written _ m' fFlags' fPos' _ _ _ w hf' hrange hwrite =>
      rw [hf] at hf'
      obtain ⟨rfl, rfl, rfl⟩ := FileSlot.opened.inj hf'
      obtain ⟨hnonneg, hcount, -⟩ := vfsRange_eq_true.mp hrange
      obtain ⟨hleft, pos, hpos, hle, hstored⟩ :=
        writeBody_stored hcount hwrite hretval
      have hz : z.devState m = w.state := by
        simp only [System.devState, hw', World.devState_setDevState_self]
      rw [hz]
      obtain ⟨offset, hoffset⟩ := Int.eq_ofNat_of_zero_le
        (@fileOffset_nonneg fFlags _ (y.world.cddDev m) hnonneg)
      refine ⟨offset, hoffset, ?_⟩
      by_cases hnil : buf = []
      · subst hnil
        exact hstored.of_nil offset
      · have hpositive : 0 < buf.length := List.length_pos_iff.mpr hnil
        have hcounter : (y.world.cddDev m).counter < 2 ^ 32 :=
          (h.1.counter_lt m).trans (by decide)
        have hpos : toUInt (deviceOffset (at?.getD fPos) (y.world.cddDev m)) =
            pos := hpos
        have hle : pos + buf.length ≤ (y.world.cddDev m).allocLen := hle
        rw [toUInt_deviceOffset hcounter] at hpos
        have hmode : (y.world.cddDev m).append = g m := h.2 m
        have hfollows : OffsetFollows (y.world.cddDev m).append
            (hasFlag fFlags oAppend) (at?.getD fPos)
            (y.world.cddDev m).counter := by
          rw [hmode] at hpos ⊢
          simp only [modeKept, hf, decide_eq_true_eq] at hkept
          exact hkept trivial hnil (by omega) (by omega)
        have hsame : offset = pos := by
          have heq := (offsetFollows_iff hnonneg fFlags).mp hfollows
          rw [hoffset, hpos] at heq
          exact (Int.ofNat.inj heq).symm
        rw [hsame]
        exact hstored
  | writeRefused =>
      exact absurd hretval (by decide)

/-- In a run whose writes follow their files, every successful write stores its
bytes where its own file asks for. -/
theorem everyStep_writesAtFileOffset {e : InitEnv} (h : (cddInit e).1 = 0)
    {cs : List Call}
    (hkept : (driver.observe lastMode).EveryStep
      (fun x c _ _ => modeKept x c = true) (loaded e, fun _ => false) cs) :
    driver.EveryStep WritesAtFileOffset (loaded e) cs := by
  have hinit : ModesInv (loaded e, fun _ => false) :=
    ⟨worldInv_loaded h, fun m => congrArg CDDdev.append (loaded_cddDev h m)⟩
  apply @Machine.everyStep_of_observe _ _ _ _ driver lastMode _ _ fun _ => false
  refine Machine.everyStep_of_invariant (I := ModesInv) ?_ hinit hkept
  rintro ⟨y, g⟩ c ⟨z, g'⟩ o hinv hobserved hkept
  obtain ⟨hstep, rfl⟩ := Machine.observe_step.mp hobserved
  exact ⟨writesAtFileOffset_step hinv hstep hkept, modesInv_step hinv hstep⟩

theorem everyStep_writesAtFileOffset_append :
    driver.EveryStep WritesAtFileOffset (loaded undisturbed)
      [.openFile 0 0 (oWronly ||| oAppend) true (some fun _ => 0),
        .openFile 1 0 (oWronly ||| oAppend) true (some fun _ => 0),
        .write 1 none [65, 66] true .whole, .write 0 none [67] true .whole] :=
  everyStep_writesAtFileOffset cddInit_undisturbed
    (Machine.everyStep_of_check (c := modeKept) (fun _ _ _ _ h => h) (by decide))

/-- A file with `O_APPEND`, then one without, each on device 0; the second
writes two bytes, and the first then writes a byte over the first of them. -/
theorem not_everyStep_writesAtFileOffset_two_files :
    ¬ driver.EveryStep WritesAtFileOffset (loaded undisturbed)
      ([.openFile 0 0 (oWronly ||| oAppend) true (some fun _ => 0),
        .openFile 1 0 oWronly true (some fun _ => 0),
        .write 1 none [65, 66] true .whole] ++ [.write 0 none [67] true .whole]) := by
  intro hall
  have hrun : ((driver.exec (loaded undisturbed)
      [.openFile 0 0 (oWronly ||| oAppend) true (some fun _ => 0),
        .openFile 1 0 oWronly true (some fun _ => 0),
        .write 1 none [65, 66] true .whole]).bind fun y =>
      (driver.step y (.write 0 none [67] true .whole)).map fun r =>
        ((y.files 0, (y.world.cddDev 0).counter),
          (match r.2 with | .write start retval => (start, retval) | _ => (0, 0)),
          (r.1.devState 0).byteAt 2)) =
      some ((.opened 0 (oWronly ||| oAppend) 0, 2), (0, 1), some 0) := by decide
  obtain ⟨y, hy, hmap⟩ := Option.bind_eq_some_iff.mp hrun
  obtain ⟨⟨z, o⟩, hstep, heq⟩ := Option.map_eq_some_iff.mp hmap
  simp only [Prod.mk.injEq] at heq
  obtain ⟨⟨hfile, hcounter⟩, hreply, hbyte⟩ := heq
  have hlast := hall.last (Machine.run_of_exec hy) hstep
  cases o with
  | write start retval =>
      obtain ⟨rfl, rfl⟩ := Prod.mk.inj hreply
      obtain ⟨offset, hoffset, hstored⟩ := hlast 0 none [67] true .whole 0 1 0
        (oWronly ||| oAppend) 0 rfl rfl hfile (by decide)
      have happend : hasFlag (oWronly ||| oAppend) oAppend = true := by decide
      simp only [fileOffset, happend, if_true, hcounter] at hoffset
      obtain rfl : offset = 2 := by omega
      have hwrong := hstored.inside 0 (by decide)
      rw [hbyte] at hwrong
      cases hwrong
  | _ => simp at hreply

end CddDriver
