import CddDriver.Durability
import Mathlib.Tactic.Common
/-!
# How far the content goes

The reads, the seeks from the end and the ioctls of a device tell the end of the
write that reached furthest since the device was last truncated.
-/

namespace CddDriver

open Lib

/-- How far the content of device `m` goes, where the writes and opens that
were reported as done have brought it. -/
def extent (m : Minor) (n : Nat) (y : System) (c : Call) (o : Reply)
    (_ : System) : Nat :=
  match c, y.files c.file with
  | .openFile _ k fFlags _ _, _ =>
      if k = m ∧ hasFlag fFlags oTrunc = true ∧
        o.told = .openFile (.returned 0) then 0 else n
  | .write _ at? _ _ _, .opened k _ fPos =>
      match o.told with
      | .count len =>
          if k = m then
            max n ((deviceOffset (at?.getD fPos) (y.world.cddDev k)).toNat + len)
          else n
      | _ => n
  | _, _ => n

/-- What a call on device `m` tells of its content, which is `x.2` bytes. -/
def TellsExtent (m : Minor) (x : System × Nat) (c : Call) (o : Reply)
    (_ : System × Nat) : Prop :=
  ∀ fFlags fPos, x.1.files c.file = .opened m fFlags fPos →
    match c with
    | .read _ at? _ count 0 =>
        ∃ bs, o.told = .bytes bs ∧
          bs.length = min count (x.2 - (at?.getD fPos).toNat)
    | .llseek _ newpos whence => whence = seekEnd →
        o.told = if 0 ≤ x.2 + newpos ∧ newpos ≤ 0 then
          .position (x.2 + newpos).toNat else .failed (-einval)
    | .ioctl _ ioctlNum 0 => ioctlCmd ioctlNum = some .devused →
        o.told = .text (usageFmt .devused ++ formatInt x.2 ++ ['\x00'])
    | _ => True

/-! ## The fill level -/

namespace DeviceStore

variable {m : Minor}

theorem fill_openOn (d : DeviceStore m) (fFlags : Nat) :
    (d.openOn fFlags).1.store.fill =
      if hasFlag fFlags oTrunc = true ∧ (d.openOn fFlags).2 = .returned 0 then 0
      else d.store.fill := by
  unfold openOn
  by_cases hwait : d.mustWait fFlags = true
  · have hstatus : (if hasFlag fFlags oNonblock then OpenStatus.returned (-eagain)
        else .waiting) ≠ .returned 0 := by
      split <;> decide
    rw [if_pos hwait]
    exact (if_neg fun h => hstatus h.2).symm
  · rw [if_neg hwait]
    cases htrunc : hasFlag fFlags oTrunc with
    | false => simp only [commit, htrunc, Bool.false_eq_true, false_and, if_false]
    | true => simp only [commit, htrunc, truncate, Store.empty, and_self, if_true]

theorem fill_openUp (d : DeviceStore m) (fresh : Option (Nat → Byte))
    (fFlags : Nat) :
    (d.openUp fresh fFlags).1.store.fill =
      if hasFlag fFlags oTrunc = true ∧
        (d.openUp fresh fFlags).2 = .returned 0 then 0
      else d.store.fill := by
  cases fresh with
  | none =>
      rw [if_neg]
      · rfl
      rintro ⟨-, hstatus⟩
      exact absurd (OpenStatus.returned.inj hstatus) (by decide)
  | some data => exact fill_openOn { d with store := d.store.replace data } fFlags

theorem fill_write (d : DeviceStore m) (buf : List Byte) (copy : UserCopy)
    (start : Int) :
    (d.write buf copy start).1.store.fill =
      match (d.write buf copy start).2 with
      | .count len => max d.store.fill ((d.place start).toNat + len)
      | _ => d.store.fill := by
  unfold write
  split
  · split <;> rfl
  · rfl

end DeviceStore

theorem Stores.fill_setDevice (a : Stores) (m k : Minor) (d : DeviceStore k) :
    ((a.setDevice k d).device m).store.fill =
      if k = m then d.store.fill else (a.device m).store.fill := by
  by_cases hkm : k = m
  · subst hkm
    simp only [Stores.setDevice, Function.update_self, if_true]
  · rw [if_neg hkm]
    simp only [Stores.setDevice, Function.update_of_ne (Ne.symm hkm)]

namespace Refines

variable {y z : System} {a b : Stores} {c : Call} {o : Reply}

theorem fill_step (h : Refines y a) (hwait : a.ReadersWait) (m : Minor)
    (hstep : stores.step a c = some (b, o.told)) (z : System) :
    (b.device m).store.fill = extent m (a.device m).store.fill y c o z := by
  have hcall : a.call c = some (b, o.told) := hstep
  cases c with
  | openFile f k fFlags locked fresh =>
      simp only [Stores.call] at hcall
      split at hcall
      · obtain rfl : _ = b := congrArg Prod.fst (Option.some.inj hcall)
        have htold : Told.openFile _ = o.told :=
          congrArg Prod.snd (Option.some.inj hcall)
        refine (a.fill_setDevice m k _).trans ?_
        simp only [extent, ← htold]
        by_cases hkm : k = m
        · subst hkm
          cases locked with
          | false =>
              refine (if_pos rfl).trans (if_neg ?_).symm
              rintro ⟨-, -, hstatus⟩
              have hretval : -erestartsys = 0 :=
                OpenStatus.returned.inj (Told.openFile.inj hstatus)
              exact absurd hretval (by decide)
          | true =>
              simp only [if_true, DeviceStore.fill_openUp, true_and,
                Told.openFile.injEq]
        · simp only [hkm, if_false, false_and]
      · cases hcall
  | wake f signalPending relocked =>
      simp only [Stores.call] at hcall
      split at hcall
      next k fFlags hf =>
        obtain rfl : _ = b := congrArg Prod.fst (Option.some.inj hcall)
        refine (a.fill_setDevice m k _).trans ?_
        show _ = (a.device m).store.fill
        split
        next hkm =>
          subst hkm
          split
          · rw [DeviceStore.openOn_store (hwait f k fFlags hf)]
          · rfl
        · rfl
      · cases hcall
  | write f at? buf locked copy =>
      simp only [Stores.call] at hcall
      split at hcall
      next k fFlags fPos hf =>
        split at hcall
        · obtain ⟨rfl, htold⟩ := Prod.mk.inj (Option.some.inj hcall)
          obtain ⟨pos, hpos⟩ := Stores.moveTo_eq (a := a.setDevice k _) hf at? _
          rw [hpos]
          refine (a.fill_setDevice m k _).trans ?_
          rw [h.files] at hf
          simp only [extent, Call.file, hf, ← htold, h.deviceOffset_eq]
          by_cases hkm : k = m
          · subst hkm
            cases locked with
            | false => exact if_pos rfl
            | true => simp only [if_true, DeviceStore.fill_write]
          · simp only [hkm, if_false]
            split <;> rfl
        · cases hcall
      · cases hcall
  | read f at? buf count uncopied =>
      cases Stores.effect_of_step hstep with
      | file _ => rfl
  | llseek f newpos whence =>
      cases Stores.effect_of_step hstep with
      | file _ => rfl
  | ioctl f ioctlNum uncopied =>
      cases Stores.effect_of_step hstep with
      | file _ => rfl
  | release f =>
      cases Stores.effect_of_step hstep with
      | file _ => rfl

theorem tellsExtent (h : Refines y a) (m : Minor)
    (hstep : stores.step a c = some (b, o.told)) (x : System × Nat) :
    TellsExtent m (y, (a.device m).store.fill) c o x := by
  intro fFlags fPos hf
  have hf : a.files c.file = .opened m fFlags fPos := by rwa [h.files]
  have hcall : a.call c = some (b, o.told) := hstep
  cases c with
  | read f at? buf count uncopied =>
      cases uncopied with
      | succ _ => trivial
      | zero =>
          have hf : a.files f = .opened m fFlags fPos := hf
          simp only [Stores.call, hf] at hcall
          split at hcall
          · obtain ⟨-, htold⟩ := Prod.mk.inj (Option.some.inj hcall)
            refine ⟨_, htold.symm.trans (if_neg fun hfail => hfail.2 rfl), ?_⟩
            exact (a.device m).store.length_read _ count
          · cases hcall
  | llseek f newpos whence =>
      rintro rfl
      have hf : a.files f = .opened m fFlags fPos := hf
      have hseek : (a.device m).seek fPos newpos seekEnd =
          if 0 ≤ (a.device m).store.fill + newpos ∧
            (a.device m).store.fill + newpos ≤ (a.device m).store.fill then
            some ((a.device m).store.fill + newpos).toNat else none := rfl
      simp only [Stores.call, hf, hseek] at hcall
      by_cases hin : 0 ≤ (a.device m).store.fill + newpos ∧ newpos ≤ 0
      · rw [if_pos hin]
        rw [if_pos ⟨hin.1, by omega⟩] at hcall
        obtain ⟨-, htold⟩ := Prod.mk.inj (Option.some.inj hcall)
        exact htold.symm
      · rw [if_neg hin]
        rw [if_neg fun hle => hin ⟨hle.1, by omega⟩] at hcall
        obtain ⟨-, htold⟩ := Prod.mk.inj (Option.some.inj hcall)
        exact htold.symm
  | ioctl f ioctlNum uncopied =>
      cases uncopied with
      | succ _ => trivial
      | zero =>
          intro hcmd
          have hf : a.files f = .opened m fFlags fPos := hf
          simp only [Stores.call, hf, DeviceStore.ioctl, hcmd] at hcall
          obtain ⟨-, htold⟩ := Prod.mk.inj (Option.some.inj hcall)
          exact htold.symm
  | _ => trivial

end Refines

/-! ## Runs -/

/-- In every exact run, reads of device `m` deliver up to the end of the write
that was reported as done and reached furthest since the last open that
truncated it, seeks from the end count from there, and an ioctl shows it. -/
theorem extent_told {e : InitEnv} (h : (cddInit e).1 = 0) (m : Minor)
    {cs : List Call} (hcs : driver.EveryStep Exact (loaded e) cs) :
    (driver.observe (extent m)).EveryStep (TellsExtent m) (loaded e, 0) cs := by
  have hloaded : ∃ a, Refines (loaded e) a ∧ a.ReadersWait ∧
      (a.device m).store.fill = 0 :=
    ⟨Stores.start, refines_loaded h, Stores.readersWait_start, rfl⟩
  refine Machine.everyStep_of_invariant
    (I := fun x => ∃ a, Refines x.1 a ∧ a.ReadersWait ∧
      (a.device m).store.fill = x.2) ?_ hloaded (Machine.everyStep_observe 0 hcs)
  rintro ⟨y, n⟩ c ⟨z, n'⟩ o ⟨a, ha, hwait, hfill⟩ hobserved hexact
  obtain ⟨hstep, hnote⟩ := Machine.observe_step.mp hobserved
  obtain ⟨b, hb, hz⟩ := (ha.matched c).2 z o hstep hexact
  have hfill : (a.device m).store.fill = n := hfill
  subst hfill hnote
  exact ⟨ha.tellsExtent m hb _, b, hz, hwait.effect (Stores.effect_of_step hb),
    ha.fill_step hwait m hb z⟩

theorem extent_told_overwritten :
    (driver.observe (extent 1)).EveryStep (TellsExtent 1) (loaded undisturbed, 0)
      [.openFile 0 1 oRdwr true (some fun _ => 7),
        .write 0 none [65, 66, 67] true .whole, .write 0 (some 1) [68] true .whole,
        .read 0 (some 1) (fun _ => 0) 9 0, .llseek 0 (-1) seekEnd,
        .openFile 1 1 (oRdwr ||| oTrunc) true (some fun _ => 9),
        .ioctl 0 (ior 1) 0] :=
  extent_told cddInit_undisturbed 1
    (Machine.everyStep_of_check (c := fun y (c : Call) => c.exact y)
      (fun _ _ _ _ h => h) (by decide))

end CddDriver
