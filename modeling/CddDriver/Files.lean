import CddDriver.Invariant
import Mathlib.Tactic.Common
/-!
# The files of a run

A system call changes at most the slot of its own file.  So a file that nobody
uses is always there, and an open that waits finds its slot as it left it.
-/

namespace CddDriver

open Lib

def Call.file : Call → Nat
  | .openFile f _ _ _ _ | .wake f _ _ | .read f _ _ _ _ | .write f _ _ _ _
  | .llseek f _ _ | .ioctl f _ _ | .release f => f

theorem finishOpen_files {f : Nat} {m : Minor} {fFlags : Nat}
    {r : Option (DevState × OpenStatus)} {y z : System} {o : Reply}
    (h : y.finishOpen f m fFlags r = some (z, o)) :
    ∃ slot, z.files = Function.update y.files f slot := by
  obtain ⟨u, -, heq⟩ := Option.map_eq_some_iff.mp h
  obtain ⟨rfl, -⟩ := Prod.mk.inj heq
  exact ⟨_, rfl⟩

theorem moveTo_files (f : Nat) (m : Minor) (fFlags : Nat) (at? : Option Int)
    (ppos : Int) (y : System) :
    ∃ slot, (y.moveTo f m fFlags at? ppos).files =
      Function.update y.files f slot := by
  cases at? with
  | none => exact ⟨_, rfl⟩
  | some _ => exact ⟨y.files f, (Function.update_eq_self f y.files).symm⟩

theorem step_files {y z : System} {c : Call} {o : Reply}
    (h : driver.step y c = some (z, o)) :
    ∃ slot, z.files = Function.update y.files c.file slot := by
  have h : y.call c = some (z, o) := h
  cases c with
  | openFile f m fFlags locked fresh =>
      simp only [System.call] at h
      split at h
      · exact finishOpen_files h
      · cases h
  | wake f signalPending relocked =>
      simp only [System.call] at h
      split at h
      · exact finishOpen_files h
      · cases h
  | read f at? buf count uncopied =>
      simp only [System.call] at h
      split at h
      next m fFlags fPos _ =>
        split at h
        · obtain ⟨r, -, heq⟩ := Option.map_eq_some_iff.mp h
          obtain ⟨rfl, -⟩ := Prod.mk.inj heq
          exact moveTo_files f m fFlags at? r.ppos y
        · cases h
      · cases h
  | write f at? buf locked copy =>
      simp only [System.call] at h
      split at h
      next m fFlags fPos _ =>
        split at h
        · obtain ⟨w, -, heq⟩ := Option.map_eq_some_iff.mp h
          obtain ⟨rfl, -⟩ := Prod.mk.inj heq
          exact moveTo_files f m fFlags at? w.ppos (y.setDevState m w.state)
        · cases h
      · cases h
  | llseek f newpos whence =>
      simp only [System.call] at h
      split at h
      · obtain ⟨rfl, -⟩ := Prod.mk.inj (Option.some.inj h)
        exact ⟨_, rfl⟩
      · cases h
  | ioctl f ioctlNum uncopied =>
      simp only [System.call] at h
      split at h
      · obtain ⟨rfl, -⟩ := Prod.mk.inj (Option.some.inj h)
        exact ⟨y.files f, (Function.update_eq_self f y.files).symm⟩
      · cases h
  | release f =>
      simp only [System.call] at h
      split at h
      · obtain ⟨rfl, -⟩ := Prod.mk.inj (Option.some.inj h)
        exact ⟨_, rfl⟩
      · cases h

theorem step_files_ne {y z : System} {c : Call} {o : Reply} {f : Nat}
    (h : driver.step y c = some (z, o)) (hf : c.file ≠ f) :
    z.files f = y.files f := by
  obtain ⟨slot, hslot⟩ := step_files h
  rw [hslot, Function.update_of_ne (Ne.symm hf)]

theorem run_files_ne {y z : System} {cs : List Call} {f : Nat}
    (hrun : driver.Run y cs z) (hf : ∀ c ∈ cs, c.file ≠ f) :
    z.files f = y.files f := by
  induction hrun with
  | nil => rfl
  | cons hstep _ ih =>
      obtain ⟨hc, hrest⟩ := List.forall_mem_cons.mp hf
      rw [ih hrest, step_files_ne hstep hc]

/-! ## Files that nobody uses -/

def ClosedFrom (n : Nat) (y : System) : Prop :=
  ∀ f, n ≤ f → y.files f = .closed

theorem ClosedFrom.step {n : Nat} {y z : System} {c : Call} {o : Reply}
    (h : ClosedFrom n y) (hstep : driver.step y c = some (z, o)) :
    ClosedFrom (max n (c.file + 1)) z := by
  intro f hf
  rw [step_files_ne hstep (by omega)]
  exact h f (by omega)

theorem exists_closedFrom {e : InitEnv} {cs : List Call} {z : System}
    (hrun : driver.Run (loaded e) cs z) : ∃ n, ClosedFrom n z := by
  refine Machine.Run.invariant (I := fun y => ∃ n, ClosedFrom n y) ?_ hrun
    ⟨0, fun _ _ => rfl⟩
  rintro y c z o ⟨n, hn⟩ hstep
  exact ⟨_, hn.step hstep⟩

/-! ## Calls of CDD_open with all their rounds -/

/-- A call of `CDD_open` from the state `y` on, among calls on other files:
the device before and after each step that the call itself has taken, how far
it has come, and the state it has reached. -/
inductive OpenCall (f : Nat) (m : Minor) (fFlags : Nat) (locked : Bool)
    (fresh : Option (Nat → Byte)) (y : System) :
    List (DevState × DevState) → OpenStatus → System → Prop where
  | called {z : System} {status : OpenStatus} :
      driver.step y (.openFile f m fFlags locked fresh) =
        some (z, .openFile status) →
      OpenCall f m fFlags locked fresh y [(y.devState m, z.devState m)] status z
  | others {own : List (DevState × DevState)} {z u : System} {c : Call}
      {o : Reply} :
      OpenCall f m fFlags locked fresh y own .waiting z → c.file ≠ f →
      driver.step z c = some (u, o) →
      OpenCall f m fFlags locked fresh y own .waiting u
  | woken {own : List (DevState × DevState)} {z u : System}
      {signalPending relocked : Bool} {status : OpenStatus} :
      OpenCall f m fFlags locked fresh y own .waiting z →
      driver.step z (.wake f signalPending relocked) =
        some (u, .openFile status) →
      OpenCall f m fFlags locked fresh y
        (own ++ [(z.devState m, u.devState m)]) status u

def Reply.openStatus? : Reply → Option OpenStatus
  | .openFile status => some status
  | _ => none

theorem Reply.openStatus?_eq_some {o : Reply} {status : OpenStatus} :
    o.openStatus? = some status ↔ o = .openFile status := by
  cases o <;> simp [openStatus?]

def OpenStatus.slot (m : Minor) (fFlags : Nat) : OpenStatus → FileSlot
  | .returned r => if r = 0 then .opened m fFlags 0 else .closed
  | .waiting => .opening m fFlags

theorem finishOpen_some (f : Nat) (m : Minor) (fFlags : Nat) (s : DevState)
    (status : OpenStatus) (y : System) :
    y.finishOpen f m fFlags (some (s, status)) =
      some ((y.setDevState m s).setFile f (status.slot m fFlags),
        .openFile status) := by
  cases status <;> rfl

theorem step_openFile {f : Nat} {m : Minor} {fFlags : Nat} {locked : Bool}
    {fresh : Option (Nat → Byte)} {y : System} {s : DevState}
    {status : OpenStatus} (hf : y.files f = .closed)
    (h : cddOpen locked fresh fFlags (y.devState m) = some (s, status)) :
    driver.step y (.openFile f m fFlags locked fresh) =
      some ((y.setDevState m s).setFile f (status.slot m fFlags),
        .openFile status) := by
  show y.call (.openFile f m fFlags locked fresh) = _
  simp only [System.call, hf, h, finishOpen_some]

theorem step_wake {f : Nat} {m : Minor} {fFlags : Nat}
    {signalPending relocked : Bool} {y : System} {s : DevState}
    {status : OpenStatus} (hf : y.files f = .opening m fFlags)
    (h : cddOpenWake signalPending relocked fFlags (y.devState m) =
      some (s, status)) :
    driver.step y (.wake f signalPending relocked) =
      some ((y.setDevState m s).setFile f (status.slot m fFlags),
        .openFile status) := by
  show y.call (.wake f signalPending relocked) = _
  simp only [System.call, hf, h, finishOpen_some]

theorem step_write {f : Nat} {m : Minor} {fFlags : Nat} {fPos : Int}
    {buf : List Byte} {locked : Bool} {copy : UserCopy} {y : System}
    {w : WriteResult} (hf : y.files f = .opened m fFlags fPos)
    (hrange : vfsRange fPos buf.length = true)
    (h : cddWrite locked buf copy fPos (y.devState m) = some w) :
    driver.step y (.write f none buf locked copy) =
      some ((y.setDevState m w.state).setFile f (.opened m fFlags w.ppos),
        .write fPos w.retval) := by
  show y.call (.write f none buf locked copy) = _
  simp only [System.call, hf, Option.getD_none, hrange, if_true, h,
    Option.map_some]
  rfl

theorem finishOpen_slot {f : Nat} {m : Minor} {fFlags : Nat}
    {r : Option (DevState × OpenStatus)} {y z : System} {status : OpenStatus}
    (h : y.finishOpen f m fFlags r = some (z, .openFile status)) :
    z.files f = status.slot m fFlags ∧
      ∃ s, r = some (s, status) ∧ z.world = y.world.setDevState m s := by
  obtain ⟨⟨s, status'⟩, hr, heq⟩ := Option.map_eq_some_iff.mp h
  obtain ⟨rfl, ho⟩ := Prod.mk.inj heq
  obtain rfl := Reply.openFile.inj ho
  refine ⟨?_, s, hr, rfl⟩
  cases status' <;> exact Function.update_self f _ _

theorem openFile_slot {f : Nat} {m : Minor} {fFlags : Nat} {locked : Bool}
    {fresh : Option (Nat → Byte)} {y z : System} {status : OpenStatus}
    (h : driver.step y (.openFile f m fFlags locked fresh) =
      some (z, .openFile status)) :
    z.files f = status.slot m fFlags ∧
      ∃ s, cddOpen locked fresh fFlags (y.devState m) = some (s, status) ∧
        z.world = y.world.setDevState m s := by
  have h : y.call (.openFile f m fFlags locked fresh) =
    some (z, .openFile status) := h
  simp only [System.call] at h
  split at h
  · exact finishOpen_slot h
  · cases h

theorem wake_slot {f : Nat} {m : Minor} {fFlags : Nat}
    {signalPending relocked : Bool} {y z : System} {status : OpenStatus}
    (hf : y.files f = .opening m fFlags)
    (h : driver.step y (.wake f signalPending relocked) =
      some (z, .openFile status)) :
    z.files f = status.slot m fFlags ∧
      ∃ s, cddOpenWake signalPending relocked fFlags (y.devState m) =
          some (s, status) ∧
        z.world = y.world.setDevState m s := by
  have h : y.call (.wake f signalPending relocked) =
    some (z, .openFile status) := h
  simp only [System.call, hf] at h
  exact finishOpen_slot h

theorem OpenCall.slot {f : Nat} {m : Minor} {fFlags : Nat} {locked : Bool}
    {fresh : Option (Nat → Byte)} {y z : System}
    {own : List (DevState × DevState)} {status : OpenStatus}
    (h : OpenCall f m fFlags locked fresh y own status z) :
    z.files f = status.slot m fFlags := by
  induction h with
  | called hstep => exact (openFile_slot hstep).1
  | others _ hc hstep ih => rw [step_files_ne hstep hc, ih]
  | woken _ hstep ih => exact (wake_slot ih hstep).1

theorem OpenCall.run {f : Nat} {m : Minor} {fFlags : Nat} {locked : Bool}
    {fresh : Option (Nat → Byte)} {y z : System}
    {own : List (DevState × DevState)} {status : OpenStatus}
    (h : OpenCall f m fFlags locked fresh y own status z) :
    ∃ cs, driver.Run y cs z := by
  induction h with
  | called hstep => exact ⟨_, .cons hstep (.nil _)⟩
  | others _ _ hstep ih =>
      obtain ⟨cs, hcs⟩ := ih
      exact ⟨_, hcs.append (.cons hstep (.nil _))⟩
  | woken _ hstep ih =>
      obtain ⟨cs, hcs⟩ := ih
      exact ⟨_, hcs.append (.cons hstep (.nil _))⟩

end CddDriver
