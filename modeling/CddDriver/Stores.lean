import CddDriver.Alike
import CddDriver.Chunks
import CddDriver.Isolation
import CddDriver.Lib.Store
import CddDriver.UsageStrings
import CddDriver.WriteEffects
import Mathlib.Tactic.Common
/-!
# The devices as bounded stores

What the devices are for when calls are made one at a time, without addresses,
allocator and narrowed offsets: each is a bounded store of bytes with a fill
level, the append flag of its last open and a count of its opens; files have a
position.  An open gives the store the cells of the memory it obtains, and an
ioctl tells of the number of opens as `int`.  Each device structure implements
its store, operation by operation.
-/

namespace CddDriver

open Lib

/-! ## What processes are told -/

inductive Told where
  | openFile (status : OpenStatus)
  | bytes (bs : List Byte)
  | count (n : Nat)
  | position (pos : Nat)
  | text (cs : List Char)
  | failed (retval : Int)
  | released
  deriving DecidableEq

def toldUnless (retval : Int) (told : Told) : Told :=
  if retval < 0 then .failed retval else told

def Reply.told : Reply → Told
  | .openFile status => .openFile status
  | .read _ r => toldUnless r.retval (.bytes r.bytes)
  | .write _ retval => toldUnless retval (.count retval.toNat)
  | .llseek retval => toldUnless retval (.position retval.toNat)
  | .ioctl retval text => toldUnless retval (.text text)
  | .release => .released

/-! ## One device -/

structure DeviceStore (m : Minor) where
  store : Store Byte (getStorageLength m)
  append : Bool
  opens : Nat

namespace DeviceStore

variable {m : Minor}

def start (m : Minor) : DeviceStore m where
  store :=
    { cells := List.replicate (getStorageLength m) 0
      fill := 0
      length_cells := List.length_replicate
      fill_le := Nat.zero_le _ }
  append := false
  opens := 0

def mustWait (d : DeviceStore m) (fFlags : Nat) : Bool :=
  fFlags &&& oAccmode == oRdonly &&
    (d.store.fill == 0 || hasFlag fFlags oTrunc)

/-- Truncation stores a null byte and forgets the content. -/
def truncate (d : DeviceStore m) : DeviceStore m :=
  { d with store := (d.store.put 0 [0] (getStorageLength_pos m)).empty }

def commit (fFlags : Nat) (d : DeviceStore m) : DeviceStore m :=
  let d := if hasFlag fFlags oTrunc then d.truncate else d
  { d with append := hasFlag fFlags oAppend, opens := d.opens + 1 }

def openOn (fFlags : Nat) (d : DeviceStore m) : DeviceStore m × OpenStatus :=
  if d.mustWait fFlags then
    (d, if hasFlag fFlags oNonblock then .returned (-eagain) else .waiting)
  else (d.commit fFlags, .returned 0)

/-- An open: the cells are those of the memory that it obtains. -/
def openUp (fresh : Option (Nat → Byte)) (fFlags : Nat) (d : DeviceStore m) :
    DeviceStore m × OpenStatus :=
  match fresh with
  | none => (d, .returned (-enomem))
  | some data => { d with store := d.store.replace data }.openOn fFlags

def place (start : Int) (d : DeviceStore m) : Int :=
  if d.append then d.store.fill else start

/-- A write that gets its lock.  When its user copy falls short, what that has
stored stays. -/
def write (buf : List Byte) (copy : UserCopy) (start : Int) (d : DeviceStore m) :
    DeviceStore m × Told :=
  if h : 0 ≤ d.place start ∧
      (d.place start).toNat + buf.length ≤ getStorageLength m then
    if min copy.uncopied buf.length = 0 then
      ({ d with store := d.store.write (d.place start).toNat buf h.2 },
        .count buf.length)
    else
      ({ d with
          store := d.store.put (d.place start).toNat (copy.stored 0 buf)
            (by have hle := copy.length_stored_le 0 buf; omega) },
        .failed (-efault))
  else (d, .failed (-efault))

def read (count uncopied : Nat) (start : Int) (d : DeviceStore m) : Told :=
  let bs := d.store.read start.toNat count
  if bs ≠ [] ∧ uncopied ≠ 0 then .failed (-efault) else .bytes bs

theorem read_copied (d : DeviceStore m) (count pos : Nat) :
    d.read count 0 pos = .bytes (d.store.read pos count) := by
  rw [read, if_neg (fun hfail => hfail.2 rfl), Int.toNat_natCast]

def target (fPos newpos whence : Int) (d : DeviceStore m) : Option Int :=
  if whence = seekSet then some newpos
  else if whence = seekCur then some (fPos + newpos)
  else if whence = seekEnd then some (d.store.fill + newpos)
  else none

def seek (fPos newpos whence : Int) (d : DeviceStore m) : Option Nat :=
  (d.target fPos newpos whence).bind fun target =>
    if 0 ≤ target ∧ target ≤ d.store.fill then some target.toNat else none

def value (d : DeviceStore m) : UsageCmd → Int
  | .devsize => getStorageLength m
  | .devused => d.store.fill
  | .devopens => toInt d.opens

def ioctl (ioctlNum uncopied : Nat) (d : DeviceStore m) : Told :=
  match ioctlCmd ioctlNum with
  | none => .failed (-enotty)
  | some cmd =>
      if uncopied ≠ 0 then .failed (-efault)
      else .text (usageFmt cmd ++ formatInt (d.value cmd) ++ ['\x00'])

end DeviceStore

/-! ## All devices and the files on them -/

structure Stores where
  device : (m : Minor) → DeviceStore m
  files : Nat → FileSlot

namespace Stores

def start : Stores := ⟨DeviceStore.start, fun _ => .closed⟩

def setDevice (m : Minor) (d : DeviceStore m) (a : Stores) : Stores :=
  { a with device := Function.update a.device m d }

def setFile (f : Nat) (slot : FileSlot) (a : Stores) : Stores :=
  { a with files := Function.update a.files f slot }

def finishOpen (f : Nat) (m : Minor) (fFlags : Nat)
    (r : DeviceStore m × OpenStatus) (a : Stores) : Stores × Told :=
  ((a.setDevice m r.1).setFile f (r.2.slot m fFlags), .openFile r.2)

def moved (start : Int) : Told → Int
  | .bytes bs => start + bs.length
  | .count n => start + n
  | _ => start

def moveTo (f : Nat) (m : Minor) (fFlags : Nat) (at? : Option Int) (pos : Int)
    (a : Stores) : Stores :=
  match at? with
  | none => a.setFile f (.opened m fFlags pos)
  | some _ => a

def call (a : Stores) : Call → Option (Stores × Told)
  | .openFile f m fFlags locked fresh =>
      match a.files f with
      | .closed =>
          some (a.finishOpen f m fFlags
            (if locked then (a.device m).openUp fresh fFlags
            else (a.device m, .returned (-erestartsys))))
      | _ => none
  | .wake f signalPending relocked =>
      match a.files f with
      | .opening m fFlags =>
          some (a.finishOpen f m fFlags
            (if !signalPending && relocked then (a.device m).openOn fFlags
            else (a.device m, .returned (-erestartsys))))
      | _ => none
  | .read f at? _ count uncopied =>
      match a.files f with
      | .opened m fFlags fPos =>
          let start := at?.getD fPos
          if vfsRange start count then
            let told := (a.device m).read count uncopied start
            some (a.moveTo f m fFlags at? (moved start told), told)
          else none
      | _ => none
  | .write f at? buf locked copy =>
      match a.files f with
      | .opened m fFlags fPos =>
          let start := at?.getD fPos
          if vfsRange start buf.length then
            let r := if locked then (a.device m).write buf copy start
              else (a.device m, .failed (-erestartsys))
            some ((a.setDevice m r.1).moveTo f m fFlags at? (moved start r.2),
              r.2)
          else none
      | _ => none
  | .llseek f newpos whence =>
      match a.files f with
      | .opened m fFlags fPos =>
          match (a.device m).seek fPos newpos whence with
          | some pos => some (a.setFile f (.opened m fFlags pos), .position pos)
          | none => some (a, .failed (-einval))
      | _ => none
  | .ioctl f ioctlNum uncopied =>
      match a.files f with
      | .opened m _ _ => some (a, (a.device m).ioctl ioctlNum uncopied)
      | _ => none
  | .release f =>
      match a.files f with
      | .opened _ _ _ => some (a.setFile f .closed, .released)
      | _ => none

end Stores

def stores : Machine Stores Call Told := ⟨Stores.call⟩

/-! ## The device structure implements a store -/

/-- The fields of `CDDdev_struct` are those of the store, and the buffer, when
there is one, holds its cells. -/
structure Implements (m : Minor) (s : DevState) (d : DeviceStore m) : Prop where
  counter : s.dev.counter = d.store.fill
  append : s.dev.append = d.append
  opens : s.dev.activeOpens = d.opens % 2 ^ 32
  cells : ∀ b, s.buffer = some b → b.mem.cells = d.store.cells

theorem toLong_of_range {ppos : Int} {count n : Nat}
    (hrange : vfsRange ppos count = true) (hn : n ≤ count) :
    toLong (ppos + n) = ppos + n := by
  obtain ⟨hpos, -, hsum⟩ := vfsRange_eq_true.mp hrange
  exact wrapS_eq_self (by omega) (by omega) (by omega)

theorem poke_buffer {s t : DevState} {pos : Nat} {bytes : List Byte}
    (h : s.poke pos bytes = some t) :
    t.buffer = s.buffer.map (Buffer.store pos bytes) := by
  have hvisible := poke_map_visible s pos bytes
  rw [h, Option.map_some] at hvisible
  split at hvisible
  next hnil =>
    have hid : Buffer.store pos bytes = id := by
      funext b
      rw [hnil, Buffer.store, Block.store_nil]
      rfl
    rw [visible_buffer (Option.some.inj hvisible), hid, Option.map_id_fun, id]
  next =>
    cases hb : s.buffer with
    | none => simp [hb] at hvisible
    | some b =>
        simp only [hb, Option.bind_some] at hvisible
        split at hvisible
        · exact congrArg Prod.snd (Option.some.inj hvisible)
        · cases hvisible

namespace Implements

variable {major : Nat} {m : Minor} {s : DevState} {d : DeviceStore m}

theorem poke {pos : Nat} {bytes : List Byte} (h : Implements m s d)
    (hinv : DeviceInv major m s) (hs : s.dev.cddStorage ≠ none)
    (hle : pos + bytes.length ≤ getStorageLength m) :
    ∃ t, s.poke pos bytes = some t ∧
      Implements m t { d with store := d.store.put pos bytes hle } := by
  obtain ⟨t, ht⟩ := hinv.poke hs hle
  obtain ⟨b, hb, hsize, -⟩ := hinv.buffer hs
  have hdev := DevState.poke_dev ht
  refine ⟨t, ht, ⟨?_, ?_, ?_, fun b' hb' => ?_⟩⟩
  · rw [hdev]
    exact h.counter
  · rw [hdev]
    exact h.append
  · rw [hdev]
    exact h.opens
  · rw [poke_buffer ht, hb] at hb'
    obtain rfl := Option.some.inj hb'
    show (b.mem.store pos bytes).cells = splice d.store.cells pos bytes
    rw [Block.cells_store _ (by rw [hsize]; exact hle), h.cells b hb]

/-! ### CDD_open -/

theorem allocated (h : Implements m s d) (data : Nat → Byte) :
    Implements m (allocated data m s)
      { d with store := d.store.replace data } := by
  refine ⟨h.counter, h.append, h.opens, fun b hb => ?_⟩
  simp only [DevState.buffer, CddDriver.allocated, Option.bind_some,
    Ledger.getElem?_acquire_self, Option.map_some, Option.some.injEq] at hb
  subst hb
  rfl

theorem openCommit (h : Implements m s d) (hinv : DeviceInv major m s)
    (hs : s.dev.cddStorage ≠ none) (fFlags : Nat) :
    ∃ s', openCommit fFlags s = some s' ∧ Implements m s' (d.commit fFlags) := by
  -- the count and the flag are set in any case
  have hfields : ∀ {s'}, CddDriver.openCommit fFlags s = some s' →
      s'.dev.append = (d.commit fFlags).append ∧
        s'.dev.activeOpens = (d.commit fFlags).opens % 2 ^ 32 := by
    intro s' hs'
    have hopens : (d.commit fFlags).opens = d.opens + 1 := by
      unfold DeviceStore.commit
      split <;> rfl
    rw [openCommit_dev hs', hopens]
    refine ⟨rfl, ?_⟩
    simp only [committed, h.opens]
    omega
  cases htrunc : hasFlag fFlags oTrunc with
  | false =>
      obtain ⟨s', hs'⟩ : ∃ s', CddDriver.openCommit fFlags s = some s' := by
        simp [CddDriver.openCommit, htrunc]
      have hdev := openCommit_dev hs'
      have hbuffer : s'.buffer = s.buffer := by
        simp only [DevState.buffer, hdev, openCommit_heap hs' htrunc]
        rfl
      obtain ⟨happend, hopens⟩ := hfields hs'
      refine ⟨s', hs', ⟨?_, happend, hopens, ?_⟩⟩
      · simp [hdev, committed, htrunc, DeviceStore.commit, h.counter]
      · intro b hb
        rw [hbuffer] at hb
        simp [DeviceStore.commit, htrunc, h.cells b hb]
  | true =>
      have hcounted : DeviceInv major m ⟨countOpen s.dev, s.heap⟩ :=
        ⟨hinv.wired, hinv.counter_le, hinv.allocLen_eq, hinv.storage⟩
      have hsame : Implements m ⟨countOpen s.dev, s.heap⟩
          ⟨d.store, false, d.opens + 1⟩ := by
        refine ⟨h.counter, rfl, ?_, h.cells⟩
        simp only [countOpen, h.opens]
        omega
      have hle : 0 + [(0 : Byte)].length ≤ getStorageLength m :=
        getStorageLength_pos m
      obtain ⟨t, ht, himpl⟩ := hsame.poke hcounted hs hle
      obtain ⟨s', hs'⟩ : ∃ s', CddDriver.openCommit fFlags s = some s' := by
        simp [CddDriver.openCommit, htrunc, ht]
      have hdev := openCommit_dev hs'
      have hbuffer : s'.buffer = t.buffer := by
        rcases (openCommit_cases hs').2 with ⟨hfalse, -⟩ | ⟨t', -, ht', hheap⟩
        · rw [htrunc] at hfalse
          cases hfalse
        · obtain rfl : t' = t := Option.some.inj (ht'.symm.trans ht)
          have hstorage : s'.dev.cddStorage = t'.dev.cddStorage := by
            rw [hdev, DevState.poke_dev ht]
            rfl
          simp only [DevState.buffer, hstorage, hheap]
      obtain ⟨happend, hopens⟩ := hfields hs'
      refine ⟨s', hs', ⟨?_, happend, hopens, ?_⟩⟩
      · simp [hdev, committed, htrunc, DeviceStore.commit,
          DeviceStore.truncate, Store.empty]
      · intro b hb
        rw [hbuffer] at hb
        have hcells := himpl.cells b hb
        simp only [DeviceStore.commit, htrunc, if_true]
        exact hcells

theorem waitHead (h : Implements m s d) (fFlags : Nat) :
    waitHead s.dev fFlags =
      if d.mustWait fFlags then
        some (if hasFlag fFlags oNonblock then .returned (-eagain) else .waiting)
      else none := by
  have htest : contentIsUnavailable s.dev fFlags =
      if d.mustWait fFlags then 1 else 0 := by
    simp only [contentIsUnavailable, DeviceStore.mustWait, h.counter,
      Bool.and_eq_true, Bool.or_eq_true, decide_eq_true_eq, beq_iff_eq,
      Bool.not_eq_true', decide_eq_false_iff_not, Decidable.not_not]
  unfold CddDriver.waitHead
  rw [htest]
  cases d.mustWait fFlags with
  | false => rfl
  | true =>
      simp only [if_true, ne_eq, one_ne_zero, not_false_eq_true]
      split <;> rfl

theorem openRest (h : Implements m s d) (hinv : DeviceInv major m s)
    (hs : s.dev.cddStorage ≠ none) (fFlags : Nat) :
    ∃ s', openRest fFlags s = some (s', (d.openOn fFlags).2) ∧
      Implements m s' (d.openOn fFlags).1 := by
  unfold CddDriver.openRest DeviceStore.openOn
  rw [h.waitHead]
  cases d.mustWait fFlags with
  | true => exact ⟨s, rfl, h⟩
  | false =>
      obtain ⟨s', hs', himpl⟩ := h.openCommit hinv hs fFlags
      exact ⟨s', by simp only [Bool.false_eq_true, if_false, hs',
        Option.map_some], himpl⟩

/-- An open, unless it fails to allocate and loses a buffer. -/
theorem openBody (h : Implements m s d) (hinv : DeviceInv major m s)
    {fresh : Option (Nat → Byte)} (fFlags : Nat)
    (hkept : fresh = none → s.dev.cddStorage = none) :
    ∃ s', openBody fresh fFlags s = some (s', (d.openUp fresh fFlags).2) ∧
      Implements m s' (d.openUp fresh fFlags).1 := by
  cases fresh with
  | none =>
      refine ⟨_, openBody_none fFlags s,
        ⟨h.counter, h.append, h.opens, fun b hb => ?_⟩⟩
      simp [DevState.buffer] at hb
  | some data =>
      rw [openBody_some hinv.minor_eq]
      exact (h.allocated data).openRest (hinv.allocated data)
        (Option.some_ne_none _) fFlags

/-! ### CDD_read -/

theorem bytes_eq (h : Implements m s d) {b : Buffer} (hb : s.buffer = some b)
    (hsize : b.mem.size = getStorageLength m) {start count : Nat}
    {data : Nat → Byte}
    (hdata : ∀ i < (d.store.read start count).length,
      data i = b.mem.data (start + i)) :
    (List.range (d.store.read start count).length).map data =
      d.store.read start count := by
  have hlen := d.store.length_read start count
  apply List.ext_getElem?
  intro i
  by_cases hi : i < (d.store.read start count).length
  · have hfill := d.store.fill_le
    have hcell : start + i < b.mem.size := by omega
    rw [List.getElem?_map, List.getElem?_range hi, Option.map_some, hdata i hi,
      Store.getElem?_read, if_pos (by omega), ← h.cells b hb,
      Block.getElem?_cells hcell]
  · rw [List.getElem?_eq_none (by simpa using Nat.not_lt.mp hi),
      List.getElem?_eq_none (Nat.not_lt.mp hi)]

theorem readBody (h : Implements m s d) (hinv : DeviceInv major m s)
    (hs : s.dev.cddStorage ≠ none) {ppos : Int} {count : Nat}
    (hrange : vfsRange ppos count = true) (buf : Nat → Byte) (uncopied : Nat) :
    ∃ r, readBody buf count uncopied ppos s = some r ∧
      (Reply.read ppos r).told = d.read count uncopied ppos ∧
      r.ppos = Stores.moved ppos (d.read count uncopied ppos) := by
  obtain ⟨hpos, hcount, hsum⟩ := vfsRange_eq_true.mp hrange
  obtain ⟨start, rfl⟩ := Int.eq_ofNat_of_zero_le hpos
  obtain ⟨b, hb, hsize, hlen⟩ := hinv.buffer hs
  have hcounter : s.dev.counter < 2 ^ 32 := hinv.counter_lt.trans (by decide)
  have hread := d.store.length_read start count
  have hn : delivered s.dev start count = (d.store.read start count).length := by
    rw [hread, delivered, h.counter]
    omega
  have hfits := hinv.counter_le
  rw [h.counter] at hfits
  rw [CddDriver.readBody_eq, copyToUserRange_eq hcounter hrange, hn]
  simp only [DeviceStore.read, Int.toNat_natCast, hb, Option.bind_some]
  by_cases hnil : d.store.read start count = []
  · refine ⟨⟨0, start, buf⟩, by simp [hnil], ?_, ?_⟩
    · simp [hnil, Reply.told, toldUnless, ReadResult.bytes]
    · simp [hnil, Stores.moved]
  · have hne : (d.store.read start count).length ≠ 0 := by
      rwa [ne_eq, List.length_eq_zero_iff]
    have hbytes : ∀ data : Nat → Byte,
        (∀ i < (d.store.read start count).length,
          data i = b.mem.data (start + i)) →
        (List.range (d.store.read start count).length).map data =
          d.store.read start count := fun _ => h.bytes_eq hb hsize
    generalize hbs : (d.store.read start count).length = n at *
    have hin : (0 : Int) ≤ start ∧ start + n ≤ b.mem.size := by omega
    simp only [if_neg hne, Int.toNat_natCast, if_pos hin]
    by_cases hcopied : uncopied = 0
    · have hle : n ≤ count := by omega
      have hnonneg : ¬ (n : Int) < 0 := by omega
      have hnone : ¬ min uncopied n ≠ 0 := by omega
      have hret : toInt n = n := toInt_count (hle.trans hcount)
      have hadd : toLong ((start : Int) + n) = start + n :=
        toLong_of_range hrange hle
      refine ⟨_, if_neg hnone, ?_, ?_⟩
      · simp only [Reply.told, toldUnless, ReadResult.bytes, hret, hcopied]
        rw [if_neg hnonneg, if_neg (by simp), Int.toNat_natCast, hbytes]
        intro i hi
        simp [copyToUser, hi, Nat.ne_of_lt hi]
      · simp [hcopied, Stores.moved, hadd, hbs]
    · refine ⟨_, if_pos (by omega), ?_, ?_⟩
      · have hfail : -efault < 0 := by decide
        simp only [Reply.told, toldUnless, if_pos hfail]
        rw [if_pos ⟨hnil, hcopied⟩]
      · simp [Stores.moved, hnil, hcopied]

/-! ### CDD_write -/

/-- A write stores where the store does, unless its offset wraps around into
the device. -/
theorem writeBody (h : Implements m s d) (hinv : DeviceInv major m s)
    (hs : s.dev.cddStorage ≠ none) {ppos : Int} {buf : List Byte}
    (hrange : vfsRange ppos buf.length = true)
    (hexact : deviceOffset ppos s.dev < 2 ^ 31 ∨ ¬ Accepts ppos buf.length s.dev)
    (copy : UserCopy) :
    ∃ w, writeBody buf copy ppos s = some w ∧
      (Reply.write ppos w.retval).told = (d.write buf copy ppos).2 ∧
      w.ppos = Stores.moved ppos (d.write buf copy ppos).2 ∧
      Implements m w.state (d.write buf copy ppos).1 := by
  obtain ⟨hpos, hcount, hsum⟩ := vfsRange_eq_true.mp hrange
  obtain ⟨-, -, -, hlen⟩ := hinv.buffer hs
  have hfail : -efault < 0 := by decide
  have hoffset : deviceOffset ppos s.dev = d.place ppos := by
    simp only [deviceOffset, DeviceStore.place, h.append, h.counter]
  have hnonneg : 0 ≤ d.place ppos := by
    unfold DeviceStore.place
    split <;> omega
  have hfull := getStorageLength_le m
  have hlow : d.place ppos < 2 ^ 31 →
      lowOffset ppos s.dev = (d.place ppos).toNat := by
    intro hsmall
    unfold lowOffset
    rw [hoffset, toUInt, wrapU_eq_self hnonneg (by omega)]
  have haccept : Accepts ppos buf.length s.dev ↔
      0 ≤ d.place ppos ∧
        (d.place ppos).toNat + buf.length ≤ getStorageLength m := by
    rw [hoffset] at hexact
    constructor
    · intro hacc
      have hsmall := hexact.resolve_right (not_not_intro hacc)
      have hfits := hacc.2
      rw [hlow hsmall, hlen] at hfits
      exact ⟨hnonneg, hfits⟩
    · rintro ⟨-, hfits⟩
      have hsmall : d.place ppos < 2 ^ 31 := by omega
      unfold Accepts
      rw [hlow hsmall, hlen]
      omega
  rw [writeBody_eq, copyFromUserRange_eq hcount]
  by_cases hfits : 0 ≤ d.place ppos ∧
      (d.place ppos).toNat + buf.length ≤ getStorageLength m
  · have hsmall : (d.place ppos).toNat < 2 ^ 31 := by omega
    rw [if_pos (haccept.mpr hfits), hlow (by omega)]
    simp only [Int.toNat_natCast, DeviceStore.write, dif_pos hfits]
    by_cases hcopied : min copy.uncopied buf.length = 0
    · obtain ⟨t, ht, himpl⟩ := h.poke hinv hs hfits.2
      have hdev := DevState.poke_dev ht
      have hadd : toLong (ppos + buf.length) = ppos + buf.length :=
        toLong_of_range hrange (le_refl _)
      have hstored : copy.stored 0 buf = buf := UserCopy.stored_of_copied hcopied
      simp only [hcopied, hstored, ht, Option.map_some, ne_eq,
        not_true_eq_false, if_false, if_true,
        raised_counter hsmall hcount, hadd, toInt_count hcount]
      refine ⟨_, rfl, ?_, rfl, ⟨?_, himpl.append, himpl.opens, himpl.cells⟩⟩
      · simp only [Reply.told, toldUnless]
        rw [if_neg (by omega), Int.toNat_natCast]
      · show max t.dev.counter _ = max d.store.fill _
        rw [hdev, h.counter]
    · have hpart : (d.place ppos).toNat +
          (copy.stored 0 buf).length ≤ getStorageLength m := by
        have hle := copy.length_stored_le 0 buf
        omega
      obtain ⟨t, ht, himpl⟩ := h.poke hinv hs hpart
      simp only [ht, Option.map_some, ne_eq, hcopied, not_false_eq_true,
        if_true, if_false]
      refine ⟨_, rfl, ?_, rfl, himpl⟩
      simp only [Reply.told, toldUnless, if_pos hfail]
  · rw [if_neg (fun hacc => hfits (haccept.mp hacc))]
    simp only [DeviceStore.write, dif_neg hfits]
    refine ⟨_, rfl, ?_, rfl, h⟩
    simp only [Reply.told, toldUnless, if_pos hfail]

/-! ### CDD_llseek and CDD_ioctl -/

theorem target (h : Implements m s d) (fPos newpos whence : Int) :
    seekTarget fPos newpos whence s.dev = d.target fPos newpos whence := by
  simp only [DeviceStore.target, seekTarget, h.counter]

theorem llseek (h : Implements m s d) (hinv : DeviceInv major m s)
    {fPos newpos whence : Int}
    (hexact : ∀ target, seekTarget fPos newpos whence s.dev = some target →
      0 ≤ target ∧ target ≤ s.dev.counter ∨ s.dev.counter < toUInt target) :
    cddLlseek fPos newpos whence s.dev =
      match d.seek fPos newpos whence with
      | some pos => ((pos : Int), (pos : Int))
      | none => (-einval, fPos) := by
  have hcounter := hinv.counter_lt
  rw [cddLlseek_eq, DeviceStore.seek, ← h.target]
  cases htgt : seekTarget fPos newpos whence s.dev with
  | none => rfl
  | some target =>
      have hcases := hexact target htgt
      rw [h.counter] at hcases hcounter
      simp only [Option.bind_some, h.counter]
      by_cases hin : 0 ≤ target ∧ target ≤ d.store.fill
      · have hself : toUInt target = target :=
          wrapU_eq_self hin.1 (by omega)
        rw [if_pos hin, hself, if_pos ⟨by omega, hin.2⟩]
        simp only [Int.toNat_of_nonneg hin.1]
      · rw [if_neg hin, if_neg fun hlow => by omega]

theorem ioctl (h : Implements m s d) (hinv : DeviceInv major m s)
    (hs : s.dev.cddStorage ≠ none) (ioctlNum uncopied : Nat) :
    (Reply.ioctl (cddIoctl ioctlNum uncopied s.dev).1
      (cddIoctl ioctlNum uncopied s.dev).2).told =
      d.ioctl ioctlNum uncopied := by
  obtain ⟨-, -, -, hlen⟩ := hinv.buffer hs
  have hvalue : ∀ cmd, usageValue cmd s.dev = d.value cmd := by
    have hsmall : ∀ n : Nat, n < 2 ^ 31 → toInt n = n := by
      intro n hn
      exact wrapS_eq_self (by omega) (by omega) (by omega)
    intro cmd
    cases cmd with
    | devsize =>
        rw [usageValue.eq_def, DeviceStore.value.eq_def]
        exact (hsmall _ hinv.allocLen_lt).trans (congrArg Nat.cast hlen)
    | devused =>
        rw [usageValue.eq_def, DeviceStore.value.eq_def]
        exact (hsmall _ hinv.counter_lt).trans (congrArg Nat.cast h.counter)
    | devopens =>
        rw [usageValue.eq_def, DeviceStore.value.eq_def]
        show toInt s.dev.activeOpens = toInt d.opens
        rw [h.opens]
        exact wrapS_congr (by omega)
  have hfail : -efault < 0 := by decide
  have hnotty : -enotty < 0 := by decide
  unfold cddIoctl DeviceStore.ioctl
  cases ioctlCmd ioctlNum with
  | none => simp only [Reply.told, toldUnless, if_pos hnotty]
  | some cmd =>
      simp only [ioctlBody, getCDDUsage_eq, hvalue, Reply.told, toldUnless]
      by_cases hcopied : uncopied = 0
      · simp [hcopied]
      · have hleft : min uncopied
            (usageFmt cmd ++ formatInt (d.value cmd) ++ ['\x00']).length ≠ 0 := by
          rw [List.length_append, List.length_singleton]
          omega
        rw [if_pos hleft, if_pos hfail, if_pos hcopied]

end Implements

end CddDriver
