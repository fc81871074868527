import CddDriver.Lib.Machine
import CddDriver.Load
import CddDriver.OpSpec
import Mathlib.Tactic.Common
/-!
# The driver as a machine of system calls

States are a loaded module with the files that processes hold; inputs are
system calls on these files together with the outcomes of the kernel calls
they make.  Calls happen one at a time, except that a `CDD_open` that waits in
`wait_for_content` leaves its file in the slot `opening`; other calls may
follow, and `wake` carries the open on.
-/

namespace CddDriver

open Lib

/-- A file: not open, waiting in `CDD_open`, or open with its `f_pos`. -/
inductive FileSlot where
  | closed
  | opening (m : Minor) (fFlags : Nat)
  | opened (m : Minor) (fFlags : Nat) (fPos : Int)
  deriving DecidableEq

structure System where
  world : World
  files : Nat → FileSlot

/-- A system call on a file, with the outcomes of lock attempts, allocation,
signal check and user copy.  `at?` is the offset that `pread` and `pwrite`
pass; without it the call uses and moves `f_pos`. -/
inductive Call where
  | openFile (f : Nat) (m : Minor) (fFlags : Nat) (locked : Bool)
      (fresh : Option (Nat → Byte))
  | wake (f : Nat) (signalPending relocked : Bool)
  | read (f : Nat) (at? : Option Int) (buf : Nat → Byte) (count uncopied : Nat)
  | write (f : Nat) (at? : Option Int) (buf : List Byte) (locked : Bool)
      (copy : UserCopy)
  | llseek (f : Nat) (newpos whence : Int)
  | ioctl (f : Nat) (ioctlNum uncopied : Nat)
  | release (f : Nat)

inductive Reply where
  | openFile (status : OpenStatus)
  | read (start : Int) (r : ReadResult)
  | write (start : Int) (retval : Int)
  | llseek (retval : Int)
  | ioctl (retval : Int) (text : List Char)
  | release

/-- The checks of the VFS on a position and a count. -/
def vfsRange (ppos : Int) (count : Nat) : Bool :=
  0 ≤ ppos && count ≤ maxRwCount && ppos + count < 2 ^ 63

namespace System

def setFile (f : Nat) (slot : FileSlot) (y : System) : System :=
  { y with files := Function.update y.files f slot }

def setDevState (m : Minor) (s : DevState) (y : System) : System :=
  { y with world := y.world.setDevState m s }

def devState (y : System) (m : Minor) : DevState := y.world.devState m

def finishOpen (f : Nat) (m : Minor) (fFlags : Nat)
    (r : Option (DevState × OpenStatus)) (y : System) :
    Option (System × Reply) :=
  r.map fun r =>
    let slot : FileSlot :=
      match r.2 with
      | .returned r => if r = 0 then .opened m fFlags 0 else .closed
      | .waiting => .opening m fFlags
    ((y.setDevState m r.1).setFile f slot, .openFile r.2)

def moveTo (f : Nat) (m : Minor) (fFlags : Nat) (at? : Option Int)
    (ppos : Int) (y : System) : System :=
  match at? with
  | none => y.setFile f (.opened m fFlags ppos)
  | some _ => y

def call (y : System) : Call → Option (System × Reply)
  | .openFile f m fFlags locked fresh =>
      match y.files f with
      | .closed =>
          y.finishOpen f m fFlags (cddOpen locked fresh fFlags (y.devState m))
      | _ => none
  | .wake f signalPending relocked =>
      match y.files f with
      | .opening m fFlags =>
          y.finishOpen f m fFlags
            (cddOpenWake signalPending relocked fFlags (y.devState m))
      | _ => none
  | .read f at? buf count uncopied =>
      match y.files f with
      | .opened m fFlags fPos =>
          let start := at?.getD fPos
          if vfsRange start count then
            (cddRead buf count uncopied start (y.devState m)).map fun r =>
              (y.moveTo f m fFlags at? r.ppos, .read start r)
          else none
      | _ => none
  | .write f at? buf locked copy =>
      match y.files f with
      | .opened m fFlags fPos =>
          let start := at?.getD fPos
          if vfsRange start buf.length then
            (cddWrite locked buf copy start (y.devState m)).map fun w =>
              ((y.setDevState m w.state).moveTo f m fFlags at? w.ppos,
                .write start w.retval)
          else none
      | _ => none
  | .llseek f newpos whence =>
      match y.files f with
      | .opened m fFlags fPos =>
          let r := cddLlseek fPos newpos whence (y.world.cddDev m)
          some (y.setFile f (.opened m fFlags r.2), .llseek r.1)
      | _ => none
  | .ioctl f ioctlNum uncopied =>
      match y.files f with
      | .opened m _ _ =>
          let r := cddIoctl ioctlNum uncopied (y.world.cddDev m)
          some (y, .ioctl r.1 r.2)
      | _ => none
  | .release f =>
      match y.files f with
      | .opened _ _ _ => some (y.setFile f .closed, .release)
      | _ => none

end System

/-- The machine of system calls. -/
def driver : Machine System Call Reply := ⟨System.call⟩

def loaded (e : InitEnv) : System := ⟨(cddInit e).2, fun _ => .closed⟩

end CddDriver
