import CddDriver.StoreRefinement
import Mathlib.Tactic.Common
/-!
# The readback test

`test_readback` of `testApp_ch6.c` seeks, writes a string with its null
character, seeks back, reads up to 128 bytes and compares.  It is run on the
stores, and by the refinement on the driver.
-/

namespace CddDriver

open Lib

/-! ## The program -/

def seekFile {ρ : Type} (f : Nat) (offs whence : Int)
    (next : Int → Client Call Told ρ) : Client Call Told ρ :=
  .call (.llseek f offs whence) fun
    | .position len => next len
    | _ => next (-1)

/-- How the test ends: with an error of a call, by storing the null character
behind `str2`, or with the result of the comparison. -/
inductive Readback where
  | error
  | overrun
  | compared (equal : Bool)
  deriving DecidableEq

def str2Size : Nat := 128

/-- `str2[len] = 0` and `strcmp(str, str2)`, where `bs` are the `len` bytes
read. -/
def compareBack (str bs : List Byte) : Readback :=
  if bs.length < str2Size then
    .compared (str = bs.takeWhile fun c => c ≠ 0)
  else .overrun

/-- `str2` is the memory of the array before the call. -/
def testReadback (f : Nat) (str : List Byte) (str2 : Nat → Byte)
    (offset whence : Int) : Client Call Told Readback :=
  seekFile f offset whence fun newofs =>
    if newofs < 0 then .done .error
    else
      .call (.write f none (str ++ [0]) true .whole) fun
        | .count _ =>
            seekFile f newofs seekSet fun pos =>
              if pos < 0 then .done .error
              else
                .call (.read f none str2 str2Size 0) fun
                  | .bytes bs => .done (compareBack str bs)
                  | _ => .done .error
        | _ => .done .error

/-- What becomes of a test that writes `n` bytes to a content of `fill` bytes: an
error unless the target of the seek lies in the content and the bytes fit behind
it, and an overrun when 128 bytes or more follow the target then. -/
def readbackResult (m : Minor) (fill : Nat) (target : Option Int) (n : Nat) :
    Readback :=
  match target with
  | some target =>
      if 0 ≤ target ∧ target ≤ fill ∧ target + n ≤ getStorageLength m then
        if max (fill : Int) (target + n) - target < str2Size then .compared true
        else .overrun
      else .error
  | none => .error

/-! ## The run on the stores -/

theorem compareBack_written {str bs : List Byte} (hstr : 0 ∉ str)
    (hbs : bs.take (str ++ [0]).length = str ++ [0])
    (hlen : bs.length < str2Size) : compareBack str bs = .compared true := by
  have hsplit : bs = str ++ 0 :: bs.drop (str ++ [0]).length := by
    have happend := List.take_append_drop (str ++ [0]).length bs
    rw [hbs, List.append_assoc] at happend
    exact happend.symm
  have htake : bs.takeWhile (fun c => decide (c ≠ 0)) = str := by
    rw [hsplit, List.takeWhile_append_of_pos, List.takeWhile_cons_of_neg,
      List.append_nil]
    · decide
    · intro c hc
      exact decide_eq_true fun hzero => hstr (hzero ▸ hc)
  rw [compareBack, if_pos hlen, htake, decide_eq_true rfl]

theorem DeviceStore.seek_eq_some {m : Minor} {d : DeviceStore m}
    {fPos offs whence : Int} {pos : Nat} :
    d.seek fPos offs whence = some pos ↔
      d.target fPos offs whence = some (pos : Int) ∧ pos ≤ d.store.fill := by
  simp only [DeviceStore.seek, Option.bind_eq_some_iff, Option.ite_none_right_eq_some,
    Option.some.injEq]
  constructor
  · rintro ⟨target, htarget, ⟨hnonneg, hle⟩, rfl⟩
    rw [Int.toNat_of_nonneg hnonneg]
    exact ⟨htarget, by omega⟩
  · rintro ⟨htarget, hle⟩
    exact ⟨pos, htarget, ⟨by omega, by omega⟩, by omega⟩

def Yields {ρ : Type} (p : Client Call Told ρ) (a : Stores) (r : ρ) : Prop :=
  ∃ b, p.Returns stores Call.Small a b r

theorem Yields.done {ρ : Type} (a : Stores) (r : ρ) : Yields (.done r) a r :=
  ⟨a, .done a r⟩

theorem Yields.call {ρ : Type} {c : Call} {next : Told → Client Call Told ρ}
    {a a' : Stores} {told : Told} {r : ρ} (hsmall : c.Small a)
    (hcall : a.call c = some (a', told)) (hnext : Yields (next told) a' r) :
    Yields (.call c next) a r := by
  obtain ⟨b, hb⟩ := hnext
  exact ⟨b, .call hsmall hcall hb⟩

section Run

variable {ρ : Type} {a : Stores} {f : Nat} {m : Minor} {fFlags : Nat}
  {d : DeviceStore m} {r : ρ}

structure At (a : Stores) (f : Nat) (m : Minor) (fFlags : Nat) (pos : Int)
    (d : DeviceStore m) : Prop where
  file : a.files f = .opened m fFlags pos
  device : a.device m = d

section Seek

variable {fPos offs whence : Int} {next : Int → Client Call Told ρ}

theorem At.small_llseek (ha : At a f m fFlags fPos d)
    (htarget : ∀ target, d.target fPos offs whence = some target →
      -2 ^ 31 ≤ target ∧ target < 2 ^ 32) :
    (Call.llseek f offs whence).Small a := by
  intro k g p target hk ht
  obtain ⟨rfl, -, rfl⟩ := FileSlot.opened.inj (ha.file.symm.trans hk)
  rw [ha.device] at ht
  exact htarget target ht

theorem seekFile_yields {pos : Nat} (ha : At a f m fFlags fPos d)
    (hsmall : (Call.llseek f offs whence).Small a)
    (hseek : d.seek fPos offs whence = some pos)
    (hnext : ∀ a', At a' f m fFlags pos d → Yields (next pos) a' r) :
    Yields (seekFile f offs whence next) a r := by
  have hcall : a.call (.llseek f offs whence) =
      some (a.setFile f (.opened m fFlags pos), .position pos) := by
    simp only [Stores.call, ha.file, ha.device, hseek]
  refine .call hsmall hcall (hnext _ ⟨?_, ha.device⟩)
  simp only [Stores.setFile, Function.update_self]

theorem seekFile_refused (ha : At a f m fFlags fPos d)
    (hsmall : (Call.llseek f offs whence).Small a)
    (hseek : d.seek fPos offs whence = none) (hnext : Yields (next (-1)) a r) :
    Yields (seekFile f offs whence next) a r := by
  have hcall : a.call (.llseek f offs whence) = some (a, .failed (-einval)) := by
    simp only [Stores.call, ha.file, ha.device, hseek]
  exact .call hsmall hcall hnext

end Seek

section Write

variable {bytes : List Byte} {pos : Nat} {next : Told → Client Call Told ρ}

theorem At.small_write (ha : At a f m fFlags pos d) (happend : d.append = false)
    (hpos : pos ≤ d.store.fill) : (Call.write f none bytes true .whole).Small a := by
  have hfill := d.store.fill_le
  have hfull := getStorageLength_le m
  intro k g p hk
  obtain ⟨rfl, -, rfl⟩ := FileSlot.opened.inj (ha.file.symm.trans hk)
  rw [ha.device, Option.getD_none, DeviceStore.place, happend]
  simp only [Bool.false_eq_true, if_false]
  omega

theorem vfsRange_content {count : Nat} (hpos : pos ≤ d.store.fill)
    (hcount : count ≤ maxRwCount) : vfsRange pos count = true := by
  have hfill := d.store.fill_le
  have hfull := getStorageLength_le m
  unfold maxRwCount at hcount
  exact vfsRange_eq_true.mpr ⟨by omega, by unfold maxRwCount; omega, by omega⟩

theorem write_yields (ha : At a f m fFlags pos d) (happend : d.append = false)
    (hpos : pos ≤ d.store.fill) (hcount : bytes.length ≤ maxRwCount)
    (hfits : pos + bytes.length ≤ getStorageLength m)
    (hnext : ∀ a', At a' f m fFlags (pos + bytes.length : Nat)
        { d with store := d.store.write pos bytes hfits } →
      Yields (next (.count bytes.length)) a' r) :
    Yields (.call (.write f none bytes true .whole) next) a r := by
  have hrange := vfsRange_content hpos hcount
  have hplace : d.place pos = pos := by
    rw [DeviceStore.place, happend]
    rfl
  have hnat : (d.place pos).toNat = pos := by rw [hplace, Int.toNat_natCast]
  have hin : 0 ≤ d.place pos ∧
      (d.place pos).toNat + bytes.length ≤ getStorageLength m := by
    rw [hnat, hplace]
    exact ⟨Int.natCast_nonneg pos, hfits⟩
  have hwrite : d.write bytes .whole pos =
      ({ d with store := d.store.write pos bytes hfits },
        .count bytes.length) := by
    rw [DeviceStore.write, dif_pos hin]
    simp only [Nat.zero_min, if_true, hnat]
  have hcall : a.call (.write f none bytes true .whole) =
      some ((a.setDevice m { d with
          store := d.store.write pos bytes hfits }).setFile f
          (.opened m fFlags (pos + bytes.length : Nat)),
        .count bytes.length) := by
    simp only [Stores.call, ha.file, ha.device, Option.getD_none, hrange,
      if_true, hwrite, Stores.moveTo, Stores.moved, Int.natCast_add]
  refine .call (ha.small_write happend hpos) hcall (hnext _ ⟨?_, ?_⟩)
  · simp only [Stores.setFile, Function.update_self]
  · simp only [Stores.setFile, Stores.setDevice, Function.update_self]

theorem write_refused (ha : At a f m fFlags pos d) (happend : d.append = false)
    (hpos : pos ≤ d.store.fill) (hcount : bytes.length ≤ maxRwCount)
    (hfits : ¬ pos + bytes.length ≤ getStorageLength m)
    (hnext : ∀ a', Yields (next (.failed (-efault))) a' r) :
    Yields (.call (.write f none bytes true .whole) next) a r := by
  have hrange := vfsRange_content hpos hcount
  have hwrite : d.write bytes .whole pos = (d, .failed (-efault)) := by
    apply dif_neg
    intro hin
    rw [DeviceStore.place, happend] at hin
    exact hfits hin.2
  have hcall : a.call (.write f none bytes true .whole) =
      some ((a.setDevice m d).setFile f (.opened m fFlags pos),
        .failed (-efault)) := by
    simp only [Stores.call, ha.file, ha.device, Option.getD_none, hrange,
      if_true, hwrite, Stores.moveTo, Stores.moved]
  exact .call (ha.small_write happend hpos) hcall (hnext _)

theorem read_yields {buf : Nat → Byte} {count : Nat}
    (ha : At a f m fFlags pos d) (hpos : pos ≤ d.store.fill)
    (hcount : count ≤ maxRwCount)
    (hnext : ∀ a', Yields (next (.bytes (d.store.read pos count))) a' r) :
    Yields (.call (.read f none buf count 0) next) a r := by
  have hrange := vfsRange_content hpos hcount
  have hcall : a.call (.read f none buf count 0) =
      some (a.moveTo f m fFlags none
          (Stores.moved pos (.bytes (d.store.read pos count))),
        .bytes (d.store.read pos count)) := by
    simp only [Stores.call, ha.file, ha.device, Option.getD_none, hrange,
      if_true, d.read_copied]
  exact .call trivial hcall (hnext _)

end Write

/-! ## The test -/

variable {fPos offset whence : Int} {str : List Byte}

/-- From the second seek on, the string has been written. -/
theorem readBack_yields {pos : Nat} {fPos : Int} (str2 : Nat → Byte)
    {hfits : pos + (str ++ [0]).length ≤ getStorageLength m}
    (ha : At a f m fFlags fPos
      { d with store := d.store.write pos (str ++ [0]) hfits })
    (hstr : 0 ∉ str) :
    Yields (seekFile f pos seekSet fun pos =>
        if pos < 0 then .done .error
        else
          .call (.read f none str2 str2Size 0) fun
            | .bytes bs => .done (compareBack str bs)
            | _ => .done .error) a
      (if max d.store.fill (pos + (str ++ [0]).length) - pos < str2Size then
        .compared true
      else .overrun) := by
  have hfull := getStorageLength_le m
  have hfill : (d.store.write pos (str ++ [0]) hfits).fill =
      max d.store.fill (pos + (str ++ [0]).length) := rfl
  have htarget : (DeviceStore.target fPos (pos : Int) seekSet
      { d with store := d.store.write pos (str ++ [0]) hfits }) =
        some (pos : Int) := rfl
  have hpos : pos ≤ (d.store.write pos (str ++ [0]) hfits).fill := by
    rw [hfill]
    omega
  apply seekFile_yields ha ?_ (DeviceStore.seek_eq_some.mpr ⟨htarget, hpos⟩)
  · intro a' ha'
    rw [if_neg (by omega)]
    apply read_yields ha' hpos (by decide)
    intro a''
    have hlen := (d.store.write pos (str ++ [0]) hfits).length_read pos str2Size
    rw [hfill] at hlen
    by_cases hshort :
        max d.store.fill (pos + (str ++ [0]).length) - pos < str2Size
    · have hlong : (str ++ [0]).length ≤ str2Size := by omega
      have hbegin := (d.store.holds_write hfits).take_read hlong
      rw [if_pos hshort]
      have hequal := compareBack_written hstr hbegin (by omega)
      exact hequal ▸ .done a'' _
    · rw [if_neg hshort]
      have hover : compareBack str ((d.store.write pos (str ++ [0]) hfits).read
          pos str2Size) = .overrun := if_neg (by omega)
      exact hover ▸ .done a'' _
  · apply ha.small_llseek
    intro target ht
    obtain rfl := Option.some.inj (htarget.symm.trans ht)
    omega

theorem testReadback_yields (str2 : Nat → Byte) (ha : At a f m fFlags fPos d)
    (happend : d.append = false) (hstr : 0 ∉ str)
    (hcount : (str ++ [0]).length ≤ maxRwCount)
    (htarget : ∀ target, d.target fPos offset whence = some target →
      -2 ^ 31 ≤ target ∧ target < 2 ^ 32) :
    Yields (testReadback f str str2 offset whence) a
      (readbackResult m d.store.fill (d.target fPos offset whence)
        (str ++ [0]).length) := by
  have hsmall := ha.small_llseek htarget
  cases hseek : d.seek fPos offset whence with
  | none =>
      have herror : readbackResult m d.store.fill
          (d.target fPos offset whence) (str ++ [0]).length = .error := by
        cases htgt : d.target fPos offset whence with
        | none => rfl
        | some target =>
            apply if_neg
            rintro ⟨hnonneg, hle, -⟩
            have hsome : d.seek fPos offset whence = some target.toNat :=
              DeviceStore.seek_eq_some.mpr
                ⟨by rw [Int.toNat_of_nonneg hnonneg, htgt], by omega⟩
            rw [hseek] at hsome
            cases hsome
      rw [herror]
      exact seekFile_refused ha hsmall hseek (.done a _)
  | some pos =>
      obtain ⟨htgt, hpos⟩ := DeviceStore.seek_eq_some.mp hseek
      apply seekFile_yields ha hsmall hseek
      intro a' ha'
      rw [if_neg (by omega), htgt]
      by_cases hfits : pos + (str ++ [0]).length ≤ getStorageLength m
      · have hresult : readbackResult m d.store.fill (some (pos : Int))
            (str ++ [0]).length =
              if max d.store.fill (pos + (str ++ [0]).length) - pos < str2Size
              then .compared true else .overrun := by
          simp only [readbackResult]
          rw [if_pos ⟨by omega, by omega, by omega⟩]
          congr 1
          apply propext
          omega
        rw [hresult]
        apply write_yields ha' happend hpos hcount hfits
        intro a'' ha''
        exact readBack_yields str2 ha'' hstr
      · have herror : readbackResult m d.store.fill (some (pos : Int))
            (str ++ [0]).length = .error := by
          apply if_neg
          omega
        rw [herror]
        exact write_refused ha' happend hpos hcount hfits fun a'' => .done a'' _

end Run

/-- The test on the driver, at a file of a device that is not in append mode:
unless the target of its seek wraps around, it fails or overruns its array
exactly as the stores say, and never finds another string than it wrote. -/
theorem testReadback_result {e : InitEnv} (h : (cddInit e).1 = 0)
    {cs : List Call} {y : System} (hrun : driver.Run (loaded e) cs y)
    (hcs : driver.EveryStep Exact (loaded e) cs) {f : Nat} {m : Minor}
    {fFlags : Nat} {fPos : Int} (hf : y.files f = .opened m fFlags fPos)
    (happend : (y.world.cddDev m).append = false) {str : List Byte}
    (hstr : 0 ∉ str) (hcount : (str ++ [0]).length ≤ maxRwCount)
    {offset whence : Int}
    (htarget : ∀ target,
      seekTarget fPos offset whence (y.world.cddDev m) = some target →
        -2 ^ 31 ≤ target ∧ target < 2 ^ 32) (str2 : Nat → Byte) :
    ∃ z, (testReadback f str str2 offset whence).run (driver.view Reply.told) y =
      some (z, readbackResult m (y.world.cddDev m).counter
        (seekTarget fPos offset whence (y.world.cddDev m))
        (str ++ [0]).length) := by
  obtain ⟨a, ha⟩ := refines_run h hrun hcs
  have himpl := ha.device m
  have hcounter : (y.world.cddDev m).counter = (a.device m).store.fill :=
    himpl.counter
  have hseek : seekTarget fPos offset whence (y.world.cddDev m) =
      (a.device m).target fPos offset whence := himpl.target fPos offset whence
  rw [hcounter, hseek]
  rw [hseek] at htarget
  have hat : At a f m fFlags fPos (a.device m) := ⟨by rw [ha.files, hf], rfl⟩
  obtain ⟨b, hb⟩ := testReadback_yields str2 hat
    (himpl.append.symm.trans happend) hstr hcount htarget
  obtain ⟨z, hz, -⟩ := ha.client hb
  exact ⟨z, hz⟩

theorem testReadback_result_sixteen :
    ∃ y z, driver.Run (loaded undisturbed)
        [.openFile 0 1 oRdwr true (some fun _ => 7)] y ∧
      (testReadback 0 [69, 117, 114, 101, 107, 97, 33] (fun _ => 0) 0
        seekSet).run (driver.view Reply.told) y = some (z, .compared true) := by
  have hrun := @Machine.run_of_exec _ _ _ driver (loaded undisturbed) _
    [.openFile 0 1 oRdwr true (some fun _ => 7)] rfl
  have hexact : driver.EveryStep Exact (loaded undisturbed)
      [.openFile 0 1 oRdwr true (some fun _ => 7)] :=
    Machine.everyStep_of_check (c := fun y (c : Call) => c.exact y)
      (fun _ _ _ _ h => h) (by decide)
  have htarget : ∀ target : Int, some (0 : Int) = some target →
      -2 ^ 31 ≤ target ∧ target < 2 ^ 32 := by
    intro target ht
    obtain rfl := Option.some.inj ht
    decide
  obtain ⟨z, hz⟩ := @testReadback_result undisturbed cddInit_undisturbed _ _ hrun
    hexact 0 1 _ _ rfl rfl [69, 117, 114, 101, 107, 97, 33] (by decide)
    (by decide) 0 seekSet htarget (fun _ => 0)
  exact ⟨_, z, hrun, hz⟩

end CddDriver
