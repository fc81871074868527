import CddDriver.StoreRefinement
import Mathlib.Tactic.Common
/-!
# What was written stays

The bytes of a write that was reported as done are read back from their place
for as long as no open of the device gets its lock and no write overlaps them.
-/

namespace CddDriver

open Lib

/-! ## One device -/

namespace DeviceStore

variable {m : Minor} {d : DeviceStore m} {pos : Nat} {bs : List Byte}

theorem openOn_waiting {fFlags : Nat} (h : (d.openOn fFlags).2 = .waiting) :
    fFlags &&& oAccmode = oRdonly := by
  unfold openOn at h
  split at h
  next hwait =>
    rw [mustWait, Bool.and_eq_true, beq_iff_eq] at hwait
    exact hwait.1
  · cases h

theorem openOn_store {fFlags : Nat} (hread : fFlags &&& oAccmode = oRdonly) :
    (d.openOn fFlags).1.store = d.store := by
  unfold openOn
  split
  · rfl
  next hwait =>
    have htrunc : hasFlag fFlags oTrunc = false := by
      simp only [mustWait, hread, beq_self_eq_true, Bool.true_and,
        Bool.or_eq_true, not_or, Bool.not_eq_true] at hwait
      exact hwait.2
    simp only [commit, htrunc, Bool.false_eq_true, if_false]

theorem holds_of_count {copy : UserCopy} {n : Nat} {start : Int}
    (h : (d.write bs copy start).2 = .count n) :
    0 ≤ d.place start ∧
      (d.write bs copy start).1.store.Holds (d.place start).toNat bs := by
  unfold write at h ⊢
  split at h
  next hfits =>
    rw [dif_pos hfits]
    split at h
    next hcopied =>
      rw [if_pos hcopied]
      exact ⟨hfits.1, d.store.holds_write hfits.2⟩
    · cases h
  · cases h

theorem holds_write_apart {buf : List Byte} {copy : UserCopy} {start : Int}
    (h : d.store.Holds pos bs)
    (hapart : d.place start + buf.length ≤ pos ∨
      pos + bs.length ≤ d.place start) :
    (d.write buf copy start).1.store.Holds pos bs := by
  unfold write
  split
  next hfits =>
    split
    · exact h.write hfits.2 (by omega)
    · have hpart : (copy.stored 0 buf).length ≤ buf.length :=
        copy.length_stored_le 0 buf
      exact h.put (by omega) (by omega)
  · exact h

end DeviceStore

/-! ## All devices -/

namespace Stores

variable {a b : Stores} {m : Minor} {pos : Nat} {bs : List Byte} {c : Call}
  {told : Told}

inductive Effect (a : Stores) : Call → Stores → Prop where
  | openFile (f : Nat) (m : Minor) (fFlags : Nat) (locked : Bool)
      (fresh : Option (Nat → Byte)) :
      Effect a (.openFile f m fFlags locked fresh) (a.finishOpen f m fFlags
        (if locked then (a.device m).openUp fresh fFlags
        else (a.device m, .returned (-erestartsys)))).1
  | wake {f : Nat} {m : Minor} {fFlags : Nat} (signalPending relocked : Bool) :
      a.files f = .opening m fFlags →
      Effect a (.wake f signalPending relocked) (a.finishOpen f m fFlags
        (if !signalPending && relocked then (a.device m).openOn fFlags
        else (a.device m, .returned (-erestartsys)))).1
  | write {f : Nat} {m : Minor} {fFlags : Nat} {fPos : Int} {slot : FileSlot}
      (at? : Option Int) (buf : List Byte) (locked : Bool) (copy : UserCopy) :
      a.files f = .opened m fFlags fPos → (∀ k g, slot ≠ .opening k g) →
      Effect a (.write f at? buf locked copy) ((a.setDevice m
        (if locked then (a.device m).write buf copy (at?.getD fPos)
        else (a.device m, .failed (-erestartsys))).1).setFile f slot)
  | file {f : Nat} {slot : FileSlot} {c : Call} :
      (∀ k g, slot ≠ .opening k g) → Effect a c (a.setFile f slot)

theorem setFile_self {f : Nat} {slot : FileSlot} (hf : a.files f = slot) :
    a.setFile f slot = a := by
  rw [setFile, ← hf, Function.update_eq_self]

theorem moveTo_eq {f : Nat} {fFlags : Nat} {fPos : Int}
    (hf : a.files f = .opened m fFlags fPos) (at? : Option Int) (pos : Int) :
    ∃ pos', a.moveTo f m fFlags at? pos = a.setFile f (.opened m fFlags pos') := by
  cases at? with
  | none => exact ⟨pos, rfl⟩
  | some _ => exact ⟨fPos, (setFile_self hf).symm⟩

theorem Effect.file_opened (f : Nat) (m : Minor) (fFlags : Nat) (fPos : Int)
    (c : Call) : a.Effect c (a.setFile f (.opened m fFlags fPos)) :=
  .file fun _ _ hslot => by cases hslot

theorem Effect.unchanged {f : Nat} {fFlags : Nat} {fPos : Int}
    (hf : a.files f = .opened m fFlags fPos) (c : Call) : a.Effect c a := by
  have heffect := Effect.file_opened (a := a) f m fFlags fPos c
  rwa [setFile_self hf] at heffect

theorem effect_of_step (hstep : stores.step a c = some (b, told)) :
    a.Effect c b := by
  have hcall : a.call c = some (b, told) := hstep
  cases c with
  | openFile f m fFlags locked fresh =>
      simp only [call] at hcall
      split at hcall
      · obtain rfl : _ = b := congrArg Prod.fst (Option.some.inj hcall)
        exact .openFile f m fFlags locked fresh
      · cases hcall
  | wake f signalPending relocked =>
      simp only [call] at hcall
      split at hcall
      next hf =>
        obtain rfl : _ = b := congrArg Prod.fst (Option.some.inj hcall)
        exact .wake signalPending relocked hf
      · cases hcall
  | read f at? buf count uncopied =>
      simp only [call] at hcall
      split at hcall
      next hf =>
        split at hcall
        · obtain ⟨rfl, -⟩ := Prod.mk.inj (Option.some.inj hcall)
          obtain ⟨pos, hpos⟩ := moveTo_eq hf at? _
          rw [hpos]
          exact .file_opened f _ _ pos _
        · cases hcall
      · cases hcall
  | write f at? buf locked copy =>
      simp only [call] at hcall
      split at hcall
      next hf =>
        split at hcall
        · obtain ⟨rfl, -⟩ := Prod.mk.inj (Option.some.inj hcall)
          obtain ⟨pos, hpos⟩ := moveTo_eq (a := a.setDevice _ _) hf at? _
          rw [hpos]
          refine .write at? buf locked copy hf ?_
          rintro k g ⟨⟩
        · cases hcall
      · cases hcall
  | llseek f newpos whence =>
      simp only [call] at hcall
      split at hcall
      next hf =>
        split at hcall
        · obtain ⟨rfl, -⟩ := Prod.mk.inj (Option.some.inj hcall)
          exact .file_opened f _ _ _ _
        · obtain ⟨rfl, -⟩ := Prod.mk.inj (Option.some.inj hcall)
          exact .unchanged hf _
      · cases hcall
  | ioctl f ioctlNum uncopied =>
      simp only [call] at hcall
      split at hcall
      next hf =>
        obtain ⟨rfl, -⟩ := Prod.mk.inj (Option.some.inj hcall)
        exact .unchanged hf _
      · cases hcall
  | release f =>
      simp only [call] at hcall
      split at hcall
      · obtain ⟨rfl, -⟩ := Prod.mk.inj (Option.some.inj hcall)
        exact .file fun _ _ hslot => by cases hslot
      · cases hcall

/-! ### Who waits -/

def ReadersWait (a : Stores) : Prop :=
  ∀ f m fFlags, a.files f = .opening m fFlags → fFlags &&& oAccmode = oRdonly

theorem readersWait_start : start.ReadersWait := by
  rintro f m fFlags ⟨⟩

theorem ReadersWait.setFile {slot : FileSlot} (h : a.ReadersWait) (f : Nat)
    (hslot : ∀ m fFlags, slot = .opening m fFlags →
      fFlags &&& oAccmode = oRdonly) : (a.setFile f slot).ReadersWait := by
  intro g m fFlags hg
  by_cases hgf : g = f
  · simp only [Stores.setFile, hgf, Function.update_self] at hg
    exact hslot m fFlags hg
  · simp only [Stores.setFile, Function.update_of_ne hgf] at hg
    exact h g m fFlags hg

theorem ReadersWait.finishOpen {r : DeviceStore m × OpenStatus}
    (h : a.ReadersWait) (f : Nat) {fFlags : Nat}
    (hr : r.2 = .waiting → fFlags &&& oAccmode = oRdonly) :
    (a.finishOpen f m fFlags r).1.ReadersWait := by
  refine ReadersWait.setFile (a := a.setDevice m r.1) h f ?_
  intro k g hslot
  cases hstatus : r.2 with
  | returned retval =>
      rw [hstatus, OpenStatus.slot] at hslot
      split at hslot <;> cases hslot
  | waiting =>
      rw [hstatus] at hslot
      obtain ⟨rfl, rfl⟩ := FileSlot.opening.inj hslot
      exact hr hstatus

theorem ReadersWait.effect (h : a.ReadersWait) (heffect : a.Effect c b) :
    b.ReadersWait := by
  cases heffect with
  | openFile f m fFlags locked fresh =>
      refine h.finishOpen f fun hwaiting => ?_
      split at hwaiting
      · unfold DeviceStore.openUp at hwaiting
        split at hwaiting
        · cases hwaiting
        · exact DeviceStore.openOn_waiting hwaiting
      · cases hwaiting
  | @wake f m fFlags signalPending relocked hf =>
      exact h.finishOpen f fun _ => h f m fFlags hf
  | @write f m fFlags fPos slot at? buf locked copy hf hslot =>
      exact ReadersWait.setFile (a := a.setDevice m _) h f
        fun k g hopening => absurd hopening (hslot k g)
  | @file f slot c hslot =>
      exact h.setFile f fun k g hopening => absurd hopening (hslot k g)

/-! ### What a device holds -/

theorem holds_setDevice {k : Minor} {d : DeviceStore k}
    (h : (a.device m).store.Holds pos bs)
    (hd : k = m → (a.device k).store.Holds pos bs → d.store.Holds pos bs) :
    ((a.setDevice k d).device m).store.Holds pos bs := by
  by_cases hkm : k = m
  · subst hkm
    simp only [setDevice, Function.update_self]
    exact hd rfl h
  · simp only [setDevice, Function.update_of_ne (Ne.symm hkm)]
    exact h

theorem holds_written {f : Nat} {fFlags : Nat} {fPos : Int} {at? : Option Int}
    {locked : Bool} {copy : UserCopy} {n : Nat} (hf : a.files f = .opened m fFlags fPos)
    (hcall : a.call (.write f at? bs locked copy) = some (b, .count n)) :
    0 ≤ (a.device m).place (at?.getD fPos) ∧
      (b.device m).store.Holds ((a.device m).place (at?.getD fPos)).toNat bs := by
  simp only [call, hf] at hcall
  split at hcall
  · obtain ⟨rfl, htold⟩ := Prod.mk.inj (Option.some.inj hcall)
    cases locked with
    | false => cases htold
    | true =>
        obtain ⟨hnonneg, hholds⟩ := DeviceStore.holds_of_count htold
        obtain ⟨pos, hpos⟩ := moveTo_eq (a := a.setDevice m _) hf at? _
        refine ⟨hnonneg, ?_⟩
        rw [hpos]
        simp only [setFile, setDevice, Function.update_self]
        exact hholds
  · cases hcall

theorem read_held {f : Nat} {fFlags : Nat} {fPos : Int} {at? : Option Int}
    {count : Nat} (hf : a.files f = .opened m fFlags fPos)
    (hat : at?.getD fPos = pos) (hrange : vfsRange pos count = true)
    (hcount : bs.length ≤ count) (hholds : (a.device m).store.Holds pos bs)
    (buf : Nat → Byte) :
    ∃ b rest, a.call (.read f at? buf count 0) = some (b, .bytes (bs ++ rest)) := by
  obtain ⟨rest, hrest⟩ : ∃ rest, (a.device m).store.read pos count = bs ++ rest := by
    have hsplit := List.take_append_drop bs.length
      ((a.device m).store.read pos count)
    rw [hholds.take_read hcount] at hsplit
    exact ⟨_, hsplit.symm⟩
  have hread : (a.device m).read count 0 pos = .bytes (bs ++ rest) := by
    rw [DeviceStore.read_copied, hrest]
  refine ⟨a.moveTo f m fFlags at? (moved pos (.bytes (bs ++ rest))), rest, ?_⟩
  simp only [call, hf, hat, hrange, if_true, hread]

end Stores

/-- The call leaves alone the `n` bytes from `pos` on of device `m`: it is no
open of it that gets its lock, which has other memory then, and no write there. -/
def Call.spares (m : Minor) (pos n : Nat) (y : System) : Call → Bool
  | .openFile _ k _ locked _ => k ≠ m ∨ locked = false
  | .write f at? buf locked _ =>
      match y.files f with
      | .opened k _ fPos =>
          let offset := deviceOffset (at?.getD fPos) (y.world.cddDev k)
          k ≠ m ∨ locked = false ∨ offset + buf.length ≤ pos ∨ pos + n ≤ offset
      | _ => true
  | _ => true

namespace Refines

variable {y z : System} {a b : Stores} {m : Minor} {pos : Nat} {bs : List Byte}
  {c : Call} {o : Reply}

theorem holds_effect (h : Refines y a) (hwait : a.ReadersWait)
    (hspares : c.spares m pos bs.length y = true) (heffect : a.Effect c b)
    (hholds : (a.device m).store.Holds pos bs) :
    (b.device m).store.Holds pos bs := by
  cases heffect with
  | openFile f k fFlags locked fresh =>
      refine Stores.holds_setDevice hholds fun hkm hold => ?_
      have hunlocked : locked = false := by
        rcases of_decide_eq_true hspares with hne | hunlocked
        · exact absurd hkm hne
        · exact hunlocked
      rw [hunlocked]
      exact hold
  | @wake f k fFlags signalPending relocked hf =>
      refine Stores.holds_setDevice hholds fun _ hold => ?_
      split
      · rw [DeviceStore.openOn_store (hwait f k fFlags hf)]
        exact hold
      · exact hold
  | @write f k fFlags fPos slot at? buf locked copy hf hslot =>
      refine Stores.holds_setDevice hholds fun hkm hold => ?_
      cases locked with
      | false => exact hold
      | true =>
          rw [h.files] at hf
          simp only [Call.spares, hf, h.deviceOffset_eq, decide_eq_true_eq] at hspares
          refine DeviceStore.holds_write_apart hold ?_
          rcases hspares with hne | hunlocked | hapart
          · exact absurd hkm hne
          · cases hunlocked
          · exact hapart
  | @file f slot c hslot => exact hholds

theorem effect_step (h : Refines y a) (hwait : a.ReadersWait)
    (hstep : driver.step y c = some (z, o)) (hexact : Exact y c o z) :
    ∃ b, Refines z b ∧ b.ReadersWait ∧ a.Effect c b := by
  obtain ⟨b, hb, hz⟩ := (h.matched c).2 z o hstep hexact
  have heffect := Stores.effect_of_step hb
  exact ⟨b, hz, hwait.effect heffect, heffect⟩

end Refines

/-! ## Runs -/

def Settled (y : System) : Prop := ∃ a, Refines y a ∧ a.ReadersWait

def Keeps (m : Minor) (pos : Nat) (bs : List Byte) (y : System) : Prop :=
  ∃ a, Refines y a ∧ a.ReadersWait ∧ (a.device m).store.Holds pos bs

section Runs

variable {y z : System} {m : Minor} {pos : Nat} {bs : List Byte}

theorem settled_run {e : InitEnv} (h : (cddInit e).1 = 0) {cs : List Call}
    (hrun : driver.Run (loaded e) cs y)
    (hexact : driver.EveryStep Exact (loaded e) cs) : Settled y := by
  have hloaded : Settled (loaded e) :=
    ⟨Stores.start, refines_loaded h, Stores.readersWait_start⟩
  refine hrun.invariant_along (I := fun _ => Settled) ?_ hexact hloaded
  rintro is t i t' o - ⟨a, ha, hwait⟩ hstep hexact
  obtain ⟨b, hb, hwait', -⟩ := ha.effect_step hwait hstep hexact
  exact ⟨b, hb, hwait'⟩

theorem Settled.keeps_written (h : Settled y) {f : Nat} {at? : Option Int}
    {locked : Bool} {copy : UserCopy} {n : Nat} {o : Reply} {fFlags : Nat} {fPos : Int}
    (hwrite : driver.step y (.write f at? bs locked copy) = some (z, o))
    (hexact : Exact y (.write f at? bs locked copy) o z)
    (hdone : o.told = .count n) (hf : y.files f = .opened m fFlags fPos)
    (hpos : deviceOffset (at?.getD fPos) (y.world.cddDev m) = pos) :
    Keeps m pos bs z := by
  obtain ⟨a, ha, hwait⟩ := h
  obtain ⟨b, hb, hz⟩ := (ha.matched _).2 z o hwrite hexact
  rw [hdone] at hb
  rw [← ha.files] at hf
  obtain ⟨-, hholds⟩ := Stores.holds_written hf hb
  rw [← ha.deviceOffset_eq, hpos, Int.toNat_natCast] at hholds
  exact ⟨b, hz, hwait.effect (Stores.effect_of_step hb), hholds⟩

theorem Keeps.run (h : Keeps m pos bs y) {cs : List Call}
    (hrun : driver.Run y cs z) (hexact : driver.EveryStep Exact y cs)
    (hspares : driver.EveryStep
      (fun x c _ _ => c.spares m pos bs.length x = true) y cs) :
    Keeps m pos bs z := by
  refine hrun.invariant_along (I := fun _ => Keeps m pos bs) ?_
    (hexact.and hspares) h
  rintro is t i t' o - ⟨a, ha, hwait, hholds⟩ hstep ⟨hexact, hspares⟩
  obtain ⟨b, hb, hwait', heffect⟩ := ha.effect_step hwait hstep hexact
  exact ⟨b, hb, hwait', ha.holds_effect hwait hspares heffect hholds⟩

theorem Keeps.read (h : Keeps m pos bs y) {f : Nat} {at? : Option Int}
    {count : Nat} {fFlags : Nat} {fPos : Int}
    (hf : y.files f = .opened m fFlags fPos) (hat : at?.getD fPos = pos)
    (hrange : vfsRange pos count = true) (hcount : bs.length ≤ count)
    (buf : Nat → Byte) :
    ∃ z o rest, driver.step y (.read f at? buf count 0) = some (z, o) ∧
      o.told = .bytes (bs ++ rest) := by
  obtain ⟨a, ha, -, hholds⟩ := h
  rw [← ha.files] at hf
  obtain ⟨b, rest, hcall⟩ := Stores.read_held hf hat hrange hcount hholds buf
  have hcall : stores.step a (.read f at? buf count 0) =
    some (b, .bytes (bs ++ rest)) := hcall
  obtain ⟨hstuck, hmatch⟩ := ha.matched (.read f at? buf count 0)
  cases hstep : driver.step y (.read f at? buf count 0) with
  | none =>
      rw [hstuck hstep] at hcall
      cases hcall
  | some r =>
      obtain ⟨z, o⟩ := r
      obtain ⟨b', hb', -⟩ := hmatch z o hstep rfl
      obtain ⟨-, htold⟩ := Prod.mk.inj (Option.some.inj (hb'.symm.trans hcall))
      exact ⟨z, o, rest, rfl, htold⟩

end Runs

/-- The bytes of a write that was reported as done, wherever on the device it
stored them, are read back from there after any run of other calls, as long as
no open of the device gets its lock and no write overlaps them. -/
theorem written_stays {e : InitEnv} (h : (cddInit e).1 = 0) {cs cs' : List Call}
    {y z u : System} (hrun : driver.Run (loaded e) cs y) {f : Nat}
    {at? : Option Int} {bs : List Byte} {locked : Bool} {copy : UserCopy} {o : Reply}
    (hwrite : driver.step y (.write f at? bs locked copy) = some (z, o))
    {n : Nat} (hdone : o.told = .count n) (hrest : driver.Run z cs' u)
    (hexact : driver.EveryStep Exact (loaded e)
      (cs ++ .write f at? bs locked copy :: cs'))
    {m : Minor} {fFlags : Nat} {fPos : Int}
    (hf : y.files f = .opened m fFlags fPos) {pos : Nat}
    (hpos : deviceOffset (at?.getD fPos) (y.world.cddDev m) = pos)
    (hspares : driver.EveryStep
      (fun x c _ _ => c.spares m pos bs.length x = true) z cs')
    {g : Nat} {gFlags : Nat} {gPos : Int} (hg : u.files g = .opened m gFlags gPos)
    {from? : Option Int} (hfrom : from?.getD gPos = pos) {count : Nat}
    (hrange : vfsRange pos count = true) (hcount : bs.length ≤ count)
    (buf : Nat → Byte) :
    ∃ v o' rest, driver.step u (.read g from? buf count 0) = some (v, o') ∧
      o'.told = .bytes (bs ++ rest) := by
  obtain ⟨hexact_write, hexact_rest⟩ := hexact.after hrun z o hwrite
  have hwritten : Keeps m pos bs z :=
    (settled_run h hrun hexact.before).keeps_written hwrite hexact_write hdone hf hpos
  have hkept : Keeps m pos bs u := hwritten.run hrest hexact_rest hspares
  exact hkept.read hg hfrom hrange hcount buf

theorem written_stays_three :
    ∃ y z u v o o' rest,
      driver.Run (loaded undisturbed) [.openFile 0 1 oRdwr true (some fun _ => 7),
        .openFile 1 1 oRdwr true (some fun _ => 7)] y ∧
      driver.step y (.write 0 none [65, 66, 67] true .whole) = some (z, o) ∧
      o.told = .count 3 ∧
      driver.Run z [.write 0 none [68] true .whole,
        .openFile 2 0 (oRdwr ||| oTrunc) true (some fun _ => 9), .release 0] u ∧
      driver.step u (.read 1 none (fun _ => 0) 9 0) = some (v, o') ∧
      o'.told = .bytes ([65, 66, 67] ++ rest) := by
  have hexact : driver.EveryStep Exact (loaded undisturbed)
      ([.openFile 0 1 oRdwr true (some fun _ => 7),
        .openFile 1 1 oRdwr true (some fun _ => 7)] ++
        .write 0 none [65, 66, 67] true .whole ::
          [.write 0 none [68] true .whole,
            .openFile 2 0 (oRdwr ||| oTrunc) true (some fun _ => 9),
            .release 0]) :=
    Machine.everyStep_of_check (c := fun y (c : Call) => c.exact y)
      (fun _ _ _ _ h => h) (by decide)
  have hexec : ((driver.exec (loaded undisturbed)
      [.openFile 0 1 oRdwr true (some fun _ => 7),
        .openFile 1 1 oRdwr true (some fun _ => 7)]).bind fun y =>
      (driver.step y (.write 0 none [65, 66, 67] true .whole)).bind fun r =>
        (driver.exec r.1 [.write 0 none [68] true .whole,
          .openFile 2 0 (oRdwr ||| oTrunc) true (some fun _ => 9),
          .release 0]).map fun u =>
          (y.files 0, deviceOffset 0 (y.world.cddDev 1), r.2.told, u.files 1,
            driver.check (fun x (c : Call) => c.spares 1 0 3 x) r.1
              [.write 0 none [68] true .whole,
                .openFile 2 0 (oRdwr ||| oTrunc) true (some fun _ => 9),
                .release 0])) =
      some (.opened 1 oRdwr 0, 0, .count 3, .opened 1 oRdwr 0, true) := by decide
  obtain ⟨y, hy, hexec⟩ := Option.bind_eq_some_iff.mp hexec
  obtain ⟨⟨z, o⟩, hwrite, hexec⟩ := Option.bind_eq_some_iff.mp hexec
  obtain ⟨u, hu, hexec⟩ := Option.map_eq_some_iff.mp hexec
  simp only [Prod.mk.injEq] at hexec
  obtain ⟨hf, hpos, hdone, hg, hcheck⟩ := hexec
  have hspares := Machine.everyStep_of_check
    (C := fun x (c : Call) _ _ => c.spares 1 0 3 x = true) (fun _ _ _ _ h => h) hcheck
  have hy := Machine.run_of_exec hy
  have hu := Machine.run_of_exec hu
  have hpos : deviceOffset ((none : Option Int).getD 0) (y.world.cddDev 1) =
    (0 : Nat) := hpos
  have hfrom : (none : Option Int).getD 0 = (0 : Nat) := rfl
  have hrange : vfsRange (0 : Nat) 9 = true := by decide
  obtain ⟨v, o', rest, hread, htold⟩ := written_stays cddInit_undisturbed hy
    hwrite hdone hu hexact hf hpos hspares hg hfrom hrange (by decide) (fun _ => 0)
  exact ⟨y, z, u, v, o, o', rest, hy, hwrite, hdone, hu, hread, htold⟩

end CddDriver
