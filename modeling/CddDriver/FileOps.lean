import CddDriver.Device
import Mathlib.Tactic.Common
/-!
# The file operations of a device

`CDD_open`, `CDD_read`, `CDD_write`, `CDD_llseek` and `CDD_ioctl` as functions
of the device state and of the outcomes of the kernel calls they make.  What a
function does while it holds `CDD_sem` is a function of its own (`openBody`,
`readBody`, `writeBody`, `ioctlBody`), so that the sequential system and the
interleaved one share it.  The result `none` is a kernel fault: the call used
a null or wild buffer pointer and does not return.
-/

namespace CddDriver

open Lib

/-! ## CDD_open -/

def contentIsUnavailable (d : CDDdev) (fFlags : Nat) : Int :=
  let emptyInit : Bool := d.counter = 0
  let openWriteable : Bool := fFlags &&& oAccmode ≠ oRdonly
  let openTruncreq := hasFlag fFlags oTrunc
  if !openWriteable && (emptyInit || openTruncreq) then 1 else 0

/-- How far a call of `CDD_open` has come: it returned, or it released the
lock and waits in `wait_for_content`. -/
inductive OpenStatus where
  | returned (r : Int)
  | waiting
  deriving DecidableEq

/-- One evaluation of the loop test of `wait_for_content`, with what follows it
up to the sleep.  `none`: there is content, the loop ends with the lock held. -/
def waitHead (d : CDDdev) (fFlags : Nat) : Option OpenStatus :=
  if contentIsUnavailable d fFlags ≠ 0 then
    if hasFlag fFlags oNonblock then some (.returned (-eagain))
    else some .waiting
  else none

def countOpen (d : CDDdev) : CDDdev :=
  { d with activeOpens := (d.activeOpens + 1) % 2 ^ 32, append := false }

/-- The part of `CDD_open` after `wait_for_content` returned 0. -/
def openCommit (fFlags : Nat) (s : DevState) : Option DevState :=
  let s := { s with dev := countOpen s.dev }
  let truncated :=
    if hasFlag fFlags oTrunc then
      (s.poke 0 [0]).map fun s => { s with dev := { s.dev with counter := 0 } }
    else some s
  truncated.map fun s =>
    if hasFlag fFlags oAppend then { s with dev := { s.dev with append := true } }
    else s

/-- From the loop test of `wait_for_content`, with the lock held, to the next
point where the lock is not held. -/
def openRest (fFlags : Nat) (s : DevState) : Option (DevState × OpenStatus) :=
  match waitHead s.dev fFlags with
  | some status => some (s, status)
  | none => (openCommit fFlags s).map fun s => (s, .returned 0)

/-- `CDD_open` from its lock to the next point where the lock is not held. -/
def openBody (fresh : Option (Nat → Byte)) (fFlags : Nat) (s : DevState) :
    Option (DevState × OpenStatus) :=
  let allocated := allocateStorage fresh s
  let s := { allocated.2 with dev :=
    { allocated.2.dev with cddStorage := allocated.1 } }
  if allocated.1 = none then some (s, .returned (-enomem))
  else openRest fFlags s

def cddOpen (locked : Bool) (fresh : Option (Nat → Byte)) (fFlags : Nat)
    (s : DevState) : Option (DevState × OpenStatus) :=
  if !locked then some (s, .returned (-erestartsys))
  else openBody fresh fFlags s

/-- The rest of a round of `wait_for_content` after `schedule` returned. -/
def cddOpenWake (signalPending relocked : Bool) (fFlags : Nat) (s : DevState) :
    Option (DevState × OpenStatus) :=
  if signalPending then some (s, .returned (-erestartsys))
  else if !relocked then some (s, .returned (-erestartsys))
  else openRest fFlags s

/-! ## CDD_read -/

structure ReadResult where
  retval : Int
  ppos : Int
  buf : Nat → Byte

def copyToUser (mem : Block Byte) (start n : Nat) (buf : Nat → Byte) :
    Nat → Byte :=
  fun i => if i < n then mem.data (start + i) else buf i

/-- `uncopied` is the number of bytes that `copy_to_user` fails to copy. -/
def readBody (buf : Nat → Byte) (count uncopied : Nat) (ppos : Int)
    (s : DevState) : Option ReadResult :=
  if ppos ≥ s.dev.counter then some ⟨0, ppos, buf⟩
  else
    let count : Nat :=
      if toULong (ppos + count) ≥ s.dev.counter then
        (toULong (s.dev.counter - ppos)).toNat
      else count
    if count = 0 then some ⟨0, ppos, buf⟩
    else
      match s.buffer with
      | some b =>
          if 0 ≤ ppos ∧ ppos.toNat + count ≤ b.mem.size then
            let left := min uncopied count
            let buf := copyToUser b.mem ppos.toNat (count - left) buf
            if left ≠ 0 then some ⟨-efault, ppos, buf⟩
            else
              some ⟨toInt count, toLong (ppos + count),
                fun i => if i = count then 0 else buf i⟩
          else none
      | none => none

/-- `down_read` waits until it has the lock, so the call has no lock outcome. -/
def cddRead (buf : Nat → Byte) (count uncopied : Nat) (ppos : Int)
    (s : DevState) : Option ReadResult :=
  readBody buf count uncopied ppos s

/-! ## CDD_write -/

structure WriteResult where
  state : DevState
  retval : Int
  ppos : Int

def writePos (d : CDDdev) (ppos : Int) : Int :=
  toInt (if d.append then d.counter else ppos)

/-- The variable `end` of `CDD_write`: `pos` is converted to `size_t` for the
sum, and the sum to `int`. -/
def writeEnd (pos : Int) (count : Nat) : Int :=
  toInt (toULong (toULong pos + count))

def writeBody (buf : List Byte) (copy : UserCopy) (ppos : Int) (s : DevState) :
    Option WriteResult :=
  let count := buf.length
  let pos := writePos s.dev ppos
  let end' := writeEnd pos count
  if toUInt end' > s.dev.allocLen then some ⟨s, -efault, ppos⟩
  else if pos < 0 then some ⟨s, -efault, ppos⟩
  else
    let left := min copy.uncopied count
    match s.poke pos.toNat (copy.stored 0 buf) with
    | none => none
    | some s =>
        if left ≠ 0 then some ⟨s, -efault, ppos⟩
        else
          let s :=
            if toUInt end' > s.dev.counter then
              { s with dev := { s.dev with counter := (toUInt end').toNat } }
            else s
          some ⟨s, toInt count, toLong (ppos + count)⟩

def cddWrite (locked : Bool) (buf : List Byte) (copy : UserCopy)
    (ppos : Int) (s : DevState) : Option WriteResult :=
  if !locked then some ⟨s, -erestartsys, ppos⟩
  else writeBody buf copy ppos s

/-! ## CDD_llseek -/

def cddLlseek (fPos newpos whence : Int) (d : CDDdev) : Int × Int :=
  let from? : Option Int :=
    if whence = seekSet then some 0
    else if whence = seekCur then some (toInt fPos)
    else if whence = seekEnd then some (toInt d.counter)
    else none
  match from? with
  | none => (-einval, fPos)
  | some start =>
      let pos := toInt (start + newpos)
      if pos < 0 ∨ toUInt pos > d.counter then (-einval, fPos)
      else (pos, pos)

/-! ## CDD_ioctl -/

inductive UsageCmd where
  | devsize
  | devused
  | devopens
  deriving DecidableEq

def formatInt (n : Int) : List Char :=
  (if n < 0 then ['-'] else []) ++ Nat.toDigits 10 n.natAbs

theorem formatInt_natCast (n : Nat) : formatInt n = Nat.toDigits 10 n := by
  have hneg : ¬ (n : Int) < 0 := Int.not_lt.mpr (Int.natCast_nonneg n)
  unfold formatInt
  rw [if_neg hneg, List.nil_append, Int.natAbs_natCast]

def getCDDUsage (cmd : UsageCmd) (d : CDDdev) : List Char :=
  match cmd with
  | .devsize => "Buffer Length - Allocated: ".toList ++ formatInt (toInt d.allocLen)
  | .devused => "Buffer Length - Used: ".toList ++ formatInt (toInt d.counter)
  | .devopens => "# Opens: ".toList ++ formatInt (toInt d.activeOpens)

def cddMagic : Nat := 242

def ior (nr : Nat) : Nat := 2 <<< 30 ||| 8 <<< 16 ||| cddMagic <<< 8 ||| nr

def ioctlCmd (ioctlNum : Nat) : Option UsageCmd :=
  if ioctlNum = ior 0 then some .devsize
  else if ioctlNum = ior 1 then some .devused
  else if ioctlNum = ior 2 then some .devopens
  else none

def ioctlBody (cmd : UsageCmd) (uncopied : Nat) (d : CDDdev) :
    Int × List Char :=
  let str := getCDDUsage cmd d ++ ['\x00']
  let left := min uncopied str.length
  (if left ≠ 0 then -efault else 0, str.take (str.length - left))

def cddIoctl (ioctlNum uncopied : Nat) (d : CDDdev) : Int × List Char :=
  match ioctlCmd ioctlNum with
  | some cmd => ioctlBody cmd uncopied d
  | none => (-enotty, [])

end CddDriver
