import CddDriver.Files
import CddDriver.OpenPost
import CddDriver.UserCopies
import Mathlib.Tactic.Common
/-!
# The way out of a blocked open

An open that waits for content leaves `wait_for_content` after a write to its
device, and any process can open the device and write to it.  With `O_TRUNC`
the loop test looks at the flag and not at the device, and no operation of
others lets the open leave the loop.
-/

namespace CddDriver

open Lib

def Call.OpensOrWrites : Call → Prop
  | .openFile _ _ _ _ _ | .wake _ _ _ | .write _ _ _ _ _ => True
  | _ => False

/-- After some opens and writes on other files, the next evaluation of the loop
test lets the open of file `f` leave the loop and return 0. -/
def CanBeSatisfied (f : Nat) (y : System) : Prop :=
  ∃ cs z u, (∀ c ∈ cs, c.file ≠ f ∧ c.OpensOrWrites) ∧ driver.Run y cs z ∧
    driver.step z (.wake f false true) = some (u, .openFile (.returned 0))

/-! ## Opens that wait -/

theorem openRest_waiting {fFlags : Nat} {s s' : DevState}
    (h : openRest fFlags s = some (s', .waiting)) :
    fFlags &&& oAccmode = oRdonly := by
  rcases openRest_cases h with ⟨-, hstatus, -⟩ | ⟨hun, -, -⟩
  · cases hstatus
  · by_contra hwrite
    exact hun (contentIsUnavailable_writer hwrite)

theorem openBody_waiting {fresh : Option (Nat → Byte)} {fFlags : Nat}
    {s s' : DevState} (h : openBody fresh fFlags s = some (s', .waiting)) :
    fFlags &&& oAccmode = oRdonly := by
  simp only [openBody] at h
  split at h
  · cases h
  · exact openRest_waiting h

theorem cddOpen_waiting {locked : Bool} {fresh : Option (Nat → Byte)}
    {fFlags : Nat} {s s' : DevState}
    (h : cddOpen locked fresh fFlags s = some (s', .waiting)) :
    fFlags &&& oAccmode = oRdonly := by
  cases locked with
  | false => cases h
  | true => exact openBody_waiting h

theorem OpenCall.reads {f : Nat} {m : Minor} {fFlags : Nat} {locked : Bool}
    {fresh : Option (Nat → Byte)} {y z : System}
    {own : List (DevState × DevState)} {status : OpenStatus}
    (h : OpenCall f m fFlags locked fresh y own status z)
    (hstatus : status = .waiting) : fFlags &&& oAccmode = oRdonly := by
  induction h with
  | called hstep =>
      subst hstatus
      obtain ⟨-, s, hopen, -⟩ := openFile_slot hstep
      exact cddOpen_waiting hopen
  | others _ _ _ ih => exact ih rfl
  | woken _ _ ih => exact ih rfl

/-! ## One open and one write by others -/

theorem openRest_satisfied {fFlags : Nat} {s : DevState}
    (htrunc : hasFlag fFlags oTrunc = false) (hcounter : 0 < s.dev.counter) :
    ∃ s', openRest fFlags s = some (s', .returned 0) := by
  have hcontent : contentIsUnavailable s.dev fFlags = 0 := by
    have hne : s.dev.counter ≠ 0 := by omega
    simp [contentIsUnavailable, htrunc, hne]
  simp [openRest, waitHead, hcontent, openCommit, htrunc]

theorem wake_satisfied {f : Nat} {m : Minor} {fFlags : Nat} {y : System}
    (hf : y.files f = .opening m fFlags) (htrunc : hasFlag fFlags oTrunc = false)
    (hcounter : 0 < (y.world.cddDev m).counter) :
    ∃ z, driver.step y (.wake f false true) =
      some (z, .openFile (.returned 0)) := by
  obtain ⟨s, hs⟩ := @openRest_satisfied fFlags (y.devState m) htrunc hcounter
  have hwake : cddOpenWake false true fFlags (y.devState m) =
    some (s, .returned 0) := hs
  exact ⟨_, step_wake hf hwake⟩

theorem openFile_writer {major : Nat} {f : Nat} {m : Minor} {y : System}
    (h : DeviceInv major m (y.devState m)) (hf : y.files f = .closed)
    (data : Nat → Byte) :
    ∃ z, driver.step y (.openFile f m oWronly true (some data)) =
        some (z, .openFile (.returned 0)) ∧
      z.files f = .opened m oWronly 0 ∧
      (z.world.cddDev m).append = false ∧
      ∃ p, (z.world.cddDev m).cddStorage = some p := by
  have hopen : cddOpen true (some data) oWronly (y.devState m) =
      (openCommit oWronly (allocated data m (y.devState m))).map
        fun s => (s, .returned 0) := by
    show openBody (some data) oWronly (y.devState m) = _
    rw [openBody_some h.minor_eq, openRest, waitHead,
      contentIsUnavailable_writer (by decide)]
    rfl
  have hcommit : openCommit oWronly (allocated data m (y.devState m)) =
    some ⟨countOpen (allocated data m (y.devState m)).dev,
      (allocated data m (y.devState m)).heap⟩ := rfl
  rw [hcommit, Option.map_some] at hopen
  refine ⟨_, step_openFile hf hopen, ?_, ?_, ?_⟩
  · simp [System.setFile, OpenStatus.slot]
  · simp [System.setFile, World.setDevState, countOpen]
  · simp [System.setFile, World.setDevState, countOpen, allocated]

theorem write_byte {f : Nat} {m : Minor} {y : System} {b : Buffer}
    (h : Buffered (y.devState m) b) (hf : y.files f = .opened m oWronly 0)
    (happend : (y.world.cddDev m).append = false)
    (hlen : 1 ≤ (y.world.cddDev m).allocLen) (v : Byte) :
    ∃ z o, driver.step y (.write f none [v] true .whole) = some (z, o) ∧
      0 < (z.world.cddDev m).counter := by
  have hpos : writePos (y.devState m).dev 0 = (0 : Nat) := by
    have hfield : (y.devState m).dev.append = false := happend
    simp [writePos, hfield, wrapS]
  have hcount : [v].length ≤ maxRwCount := show 1 ≤ maxRwCount by decide
  obtain ⟨t, -, hwrite⟩ := @LiveBuffer.writeBody_fits _ b 0 0 [v] h.live .whole rfl hpos
    hcount (by rwa [Nat.zero_add])
  have hrange : vfsRange 0 [v].length = true :=
    vfsRange_eq_true.mpr ⟨le_refl 0, hcount, by simp⟩
  refine ⟨_, _, step_write hf hrange hwrite, ?_⟩
  simp [System.setFile, World.setDevState]

theorem canBeSatisfied {f : Nat} {m : Minor} {fFlags n : Nat} {y : System}
    (h : WorldInv y.world) (hclosed : ClosedFrom n y)
    (hf : y.files f = .opening m fFlags)
    (htrunc : hasFlag fFlags oTrunc = false) : CanBeSatisfied f y := by
  obtain ⟨g, hg, hgf⟩ : ∃ g, n ≤ g ∧ g ≠ f := ⟨max n (f + 1), by omega, by omega⟩
  obtain ⟨z, hopen, hzg, happend, p, hp⟩ :=
    openFile_writer (h.device m) (hclosed g hg) (fun _ => 0)
  have hz : DeviceInv z.world.cddMajor m (z.devState m) := (h.step hopen).device m
  obtain ⟨b, hb⟩ := hz.buffered hp
  have hlen : 1 ≤ (z.world.cddDev m).allocLen := by
    have hstorage := (hz.storage p hp).1
    have hpos := getStorageLength_pos m
    exact hstorage ▸ hpos
  obtain ⟨u, o, hwrite, hcounter⟩ := write_byte hb hzg happend hlen 0
  have huf : u.files f = .opening m fFlags := by
    rw [step_files_ne hwrite hgf, step_files_ne hopen hgf, hf]
  obtain ⟨v, hwake⟩ := wake_satisfied huf htrunc hcounter
  refine ⟨_, u, v, ?_, .cons hopen (.cons hwrite (.nil _)), hwake⟩
  intro c hc
  rcases List.mem_cons.mp hc with rfl | hc
  · exact ⟨hgf, trivial⟩
  · obtain rfl := List.mem_singleton.mp hc
    exact ⟨hgf, trivial⟩

theorem not_canBeSatisfied {f : Nat} {m : Minor} {fFlags : Nat} {y : System}
    (hf : y.files f = .opening m fFlags) (hread : fFlags &&& oAccmode = oRdonly)
    (htrunc : hasFlag fFlags oTrunc = true) : ¬ CanBeSatisfied f y := by
  rintro ⟨cs, z, u, hcs, hrun, hwake⟩
  have hz : z.files f = .opening m fFlags := by
    rw [run_files_ne hrun fun c hc => (hcs c hc).1, hf]
  obtain ⟨-, s, hrest, -⟩ := wake_slot hz hwake
  rcases openRest_cases hrest with ⟨hcontent, -, -⟩ | ⟨-, -, hstatus⟩
  · obtain ⟨-, hfalse⟩ := contentIsUnavailable_eq_zero hread hcontent
    rw [htrunc] at hfalse
    cases hfalse
  · exact hstatus rfl

/-- A call of `CDD_open` that waits in `wait_for_content` can be satisfied
exactly when it does not ask for truncation. -/
theorem blockedOpen_canBeSatisfied_iff {e : InitEnv} (h : (cddInit e).1 = 0)
    {cs : List Call} {y z : System} (hrun : driver.Run (loaded e) cs y)
    {f : Nat} {m : Minor} {fFlags : Nat} {locked : Bool}
    {fresh : Option (Nat → Byte)} {own : List (DevState × DevState)}
    (hcall : OpenCall f m fFlags locked fresh y own .waiting z) :
    CanBeSatisfied f z ↔ hasFlag fFlags oTrunc = false := by
  obtain ⟨ds, hds⟩ := hcall.run
  have hreach := hrun.append hds
  obtain ⟨n, hclosed⟩ := exists_closedFrom hreach
  have hslot : z.files f = .opening m fFlags := hcall.slot
  constructor
  · intro hsatisfied
    cases htrunc : hasFlag fFlags oTrunc with
    | false => rfl
    | true =>
        exact absurd hsatisfied
          (not_canBeSatisfied hslot (hcall.reads rfl) htrunc)
  · intro htrunc
    exact canBeSatisfied (worldInv_run h hreach) hclosed hslot htrunc

theorem blockedOpen_canBeSatisfied_reader :
    ∃ own z, OpenCall 0 0 oRdonly true (some fun _ => 0) (loaded undisturbed) own
        .waiting z ∧ CanBeSatisfied 0 z := by
  have hrun : (driver.step (loaded undisturbed)
      (.openFile 0 0 oRdonly true (some fun _ => 0))).map
        (fun z => z.2.openStatus?) = some (some .waiting) := by decide
  obtain ⟨⟨z, o⟩, hopen, hstatus⟩ := Option.map_eq_some_iff.mp hrun
  obtain rfl := Reply.openStatus?_eq_some.mp hstatus
  have hcall := OpenCall.called hopen
  exact ⟨_, z, hcall, (blockedOpen_canBeSatisfied_iff cddInit_undisturbed
    (.nil _) hcall).mpr (by decide)⟩

/-- A reader that asks for truncation waits for ever, even on a device with
content. -/
theorem not_blockedOpen_canBeSatisfied_trunc :
    ∃ y own z, driver.exec (loaded undisturbed)
        [.openFile 1 0 oWronly true (some fun _ => 0),
          .write 1 none [65] true .whole] = some y ∧
      OpenCall 0 0 (oRdonly ||| oTrunc) true (some fun _ => 0) y own .waiting z ∧
      ¬ CanBeSatisfied 0 z := by
  have hrun : ((driver.exec (loaded undisturbed)
      [.openFile 1 0 oWronly true (some fun _ => 0),
        .write 1 none [65] true .whole]).bind fun y =>
      (driver.step y (.openFile 0 0 (oRdonly ||| oTrunc) true
        (some fun _ => 0))).map fun z => z.2.openStatus?) =
      some (some .waiting) := by decide
  obtain ⟨y, hy, hmap⟩ := Option.bind_eq_some_iff.mp hrun
  obtain ⟨⟨z, o⟩, hopen, hstatus⟩ := Option.map_eq_some_iff.mp hmap
  obtain rfl := Reply.openStatus?_eq_some.mp hstatus
  have hcall := OpenCall.called hopen
  exact ⟨y, _, z, hy, hcall,
    not_canBeSatisfied hcall.slot (hcall.reads rfl) (by decide)⟩

end CddDriver
