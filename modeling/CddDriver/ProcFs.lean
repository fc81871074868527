import CddDriver.FileOps
import Mathlib.Logic.Function.Basic
import Mathlib.Tactic.Common
/-!
# The /proc entries

The directory services of `proc_ops.c` with their reference count, the marker
entry of `proc_log_marker.c`, the per-device records and the report that
`readproc_CDD2` formats.  `/proc` itself is a ledger of paths; a value buffer
is a block of characters from `vmalloc`.
-/

namespace CddDriver

open Lib

inductive ProcPath where
  | myps
  | topdir
  | entry (name : List Char)
  deriving DecidableEq

structure CDDproc where
  procname : List Char
  /-- Handle of the value buffer. -/
  procvalue : Option Nat
  procflag : Bool
  minor : Minor
  /-- Whether `proc_entry` is non-null. -/
  procEntry : Bool

structure ProcState where
  topdirRefcount : Int
  /-- Whether the marker's `proc_entry` is non-null. -/
  markerEntry : Bool
  procs : Minor → CDDproc
  eof : Bool
  entries : Ledger ProcPath Unit
  values : Ledger (Block Char) Unit

def ProcState.zero : ProcState where
  topdirRefcount := 0
  markerEntry := false
  procs _ := ⟨[], none, false, ⟨0, by decide⟩, false⟩
  eof := false
  entries := []
  values := []

/-! ## Directory services -/

/-- `created` is the outcome of `proc_create`; so is the result. -/
def createCDDProcdirEntry (created : Bool) (name : List Char) (p : ProcState) :
    Bool × ProcState :=
  let p :=
    if p.topdirRefcount = 0 then
      { p with entries := p.entries.acquire .topdir }
    else p
  let p := { p with topdirRefcount := p.topdirRefcount + 1 }
  (created,
    if created then { p with entries := p.entries.acquire (.entry name) } else p)

/-- `remove_proc_entry`; a path that does not exist is left alone. -/
def removeProcEntry (path : ProcPath) (p : ProcState) : ProcState :=
  { p with entries := p.entries.releaseFirst (fun q => q = path) () }

def removeCDDProcdirEntry (name : List Char) (p : ProcState) : ProcState :=
  let p := { p with topdirRefcount := p.topdirRefcount - 1 }
  let p := removeProcEntry (.entry name) p
  if p.topdirRefcount = 0 then removeProcEntry .topdir p else p

def topdirEntryCount (p : ProcState) : Int :=
  if p.topdirRefcount = 0 then 0 else p.topdirRefcount - 1

/-! ## The marker entry and /proc/myps -/

def markerName : List Char := "marker".toList

def cddProcLogMarkerInit (created : Bool) (p : ProcState) : ProcState :=
  let r := createCDDProcdirEntry created markerName p
  { r.2 with markerEntry := r.1 }

def cddProcLogMarkerExit (p : ProcState) : ProcState :=
  if p.markerEntry then removeCDDProcdirEntry markerName p else p

def cddProcSeqInit (created : Bool) (p : ProcState) : ProcState :=
  if created then { p with entries := p.entries.acquire .myps } else p

def cddProcSeqExit (p : ProcState) : ProcState := removeProcEntry .myps p

/-! ## The record of a device -/

def updateProc (m : Minor) (f : CDDproc → CDDproc) (p : ProcState) : ProcState :=
  { p with procs := Function.update p.procs m (f (p.procs m)) }

def procvalueSize : Nat := 4096

/-- The outcomes of the `proc_create` calls that `CDDproc_init` makes, and the
content of the memory that its `vmalloc` returns. -/
structure ProcInitEnv where
  markerCreated : Bool
  entryCreated : Bool
  fresh : Nat → Char

def cddProcInit (e : ProcInitEnv) (m : Minor) (p : ProcState) : ProcState :=
  let value : Block Char :=
    { size := procvalueSize, data := e.fresh }
  let p := updateProc m (fun r => { r with
    procname := getDevname m, procvalue := some p.values.length, minor := m })
    { p with values :=
      p.values.acquire (value.store 0 ("Team Member #2".toList ++ ['\x00'])) }
  let p :=
    if topdirEntryCount p = 0 then cddProcLogMarkerInit e.markerCreated p else p
  let r := createCDDProcdirEntry e.entryCreated (p.procs m).procname p
  updateProc m (fun q => { q with procEntry := r.1 }) r.2

def vfreeValue (ptr : Option Nat) (p : ProcState) : ProcState :=
  match ptr with
  | some h => { p with values := p.values.release h () }
  | none => p

def cddProcExit (m : Minor) (p : ProcState) : ProcState :=
  let p := vfreeValue (p.procs m).procvalue p
  let p := updateProc m (fun r => { r with procvalue := none }) p
  let p := if topdirEntryCount p = 1 then cddProcLogMarkerExit p else p
  if (p.procs m).procEntry then
    updateProc m (fun r => { r with procEntry := false })
      (removeCDDProcdirEntry (p.procs m).procname p)
  else p

/-! ## The report -/

def lookupCDDdproc (devname : List Char) (p : ProcState) : Option Minor :=
  (List.finRange cddNumDevs).find? fun m => devname = (p.procs m).procname

def cString (b : Block Char) : List Char :=
  ((List.range b.size).map b.data).takeWhile (· ≠ '\x00')

def procvalueString (p : ProcState) (m : Minor) : List Char :=
  match (p.procs m).procvalue.bind fun h => p.values[h]? with
  | some e => cString e.item
  | none => "(null)".toList

/-- The text that `readproc_CDD2` formats for the record `m`. -/
def procReport (devfname : List Char) (m : Minor) (d : CDDdev) (p : ProcState) :
    List Char :=
  "Mode: ".toList ++
    (if (p.procs m).procflag then "Written" else "Readable").toList ++
    ['\n'] ++ devfname ++ ['('] ++ formatInt (p.procs m).minor ++
    ") Group Number: ".toList ++ formatInt 42 ++ ['\n'] ++
    "Team Members: ".toList ++ "Mike Mehr".toList ++ ", ".toList ++
    procvalueString p m ++ ['\n'] ++
    getCDDUsage .devsize d ++ ['\n'] ++
    getCDDUsage .devused d ++ ['\n'] ++
    getCDDUsage .devopens d ++ ['\n']

/-- `buf` after `snprintf(buf, len, ..)` as a C string; `old` is the string at
`buf` before, which a zero length leaves in place. -/
def snprintfString (len : Nat) (text old : List Char) : List Char :=
  if len = 0 then old else text.take (len - 1)

/-- `readproc_CDD2` while it holds the semaphore of the device `d`: the result,
the string at `buf` and the state. -/
def readprocBody (devfname : List Char) (m : Minor) (len : Nat) (old : List Char)
    (d : CDDdev) (p : ProcState) : Int × List Char × ProcState :=
  if p.eof then (0, old, { p with eof := false })
  else
    let buf := snprintfString len (procReport devfname m d p) old
    (toInt buf.length, buf,
      updateProc m (fun r => { r with procflag := false }) { p with eof := true })

def readprocCDD2 (locked : Bool) (devfname : List Char) (len : Nat)
    (old : List Char) (cddDev : Minor → CDDdev) (p : ProcState) :
    Int × List Char × ProcState :=
  match lookupCDDdproc devfname p with
  | none => (-einval, old, p)
  | some m =>
      if !locked then (-erestartsys, old, p)
      else readprocBody devfname m len old (cddDev (p.procs m).minor) p

end CddDriver
