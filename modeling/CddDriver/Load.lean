import CddDriver.ProcFs
import Mathlib.Data.List.FinRange
import Mathlib.Tactic.Common
/-!
# Loading and unloading the module

`CDD_init` and `CDD_exit` with a ledger for each kind of kernel object they
acquire and release.
-/

namespace CddDriver

open Lib

/-- The module's static data and the kernel objects it has acquired. -/
structure World where
  cddDev : Minor → CDDdev
  heap : Heap
  proc : ProcState
  firstdevno : Nat
  cddMajor : Nat
  /-- Registered device number regions, by first `dev_t`. -/
  regions : Ledger Nat Unit
  /-- Semaphores from `kmalloc`. -/
  sems : Ledger Minor Unit
  /-- Slab caches. -/
  caches : Ledger Minor Unit
  /-- Character devices that are live in the kernel. -/
  cdevs : Ledger Minor Unit

def World.zero : World where
  cddDev _ := CDDdev.zero
  heap := []
  proc := ProcState.zero
  firstdevno := 0
  cddMajor := 35
  regions := []
  sems := []
  caches := []
  cdevs := []

def updateDev (m : Minor) (f : CDDdev → CDDdev) (w : World) : World :=
  { w with cddDev := Function.update w.cddDev m (f (w.cddDev m)) }

def minors : List Minor := List.finRange cddNumDevs

/-- The minor number that `thisCDD` has after a loop over all devices. -/
def lastDev : Minor := ⟨4, by decide⟩

/-- The module parameter and the outcomes of the kernel calls of `CDD_init`. -/
structure InitEnv where
  cddParm : Nat
  /-- Result of `register_chrdev_region` or `alloc_chrdev_region`. -/
  regionRet : Int
  /-- The `dev_t` that `alloc_chrdev_region` stores. -/
  allocDevno : Nat
  mypsCreated : Bool
  semOk : Minor → Bool
  cacheOk : Minor → Bool
  cdevRet : Minor → Int
  proc : Minor → ProcInitEnv

/-! ## CDD_init -/

/-- Register the region: the error code and the world. -/
def registerRegion (e : InitEnv) (w : World) : Int × World :=
  let w := { w with cddMajor := e.cddParm }
  let w :=
    if w.cddMajor ≠ 0 then { w with firstdevno := mkdev w.cddMajor cddMinor }
    else w
  if e.regionRet < 0 then (e.regionRet, w)
  else if w.cddMajor ≠ 0 then
    (e.regionRet, { w with regions := w.regions.acquire w.firstdevno })
  else
    (e.regionRet, { w with
      firstdevno := e.allocDevno
      cddMajor := majorOf e.allocDevno
      regions := w.regions.acquire e.allocDevno })

/-- The body of the loop over the devices, up to `Minor_dev_error`. -/
def initDevice (e : InitEnv) (i : Minor) (w : World) : Int × World :=
  let w := updateDev i (fun d => { d with
    counter := 0, append := false, activeOpens := 0 }) w
  if !e.semOk i then
    (-enomem, updateDev i (fun d => { d with cddSem := none, devno := 0 }) w)
  else
    let w := updateDev i (fun d => { d with
      cddSem := some w.sems.length, cddStorage := none, allocLen := 0,
      allocType := .vmalloc }) { w with sems := w.sems.acquire i }
    if !e.cacheOk i then
      (-enomem, updateDev i (fun d => { d with bufcache := none, devno := 0 }) w)
    else
      let w := updateDev i (fun d => { d with
        bufcache := some w.caches.length, devno := mkdev w.cddMajor i })
        { w with caches := w.caches.acquire i }
      let err := e.cdevRet i
      if err = 0 then
        (0, { w with
          cdevs := w.cdevs.acquire i, proc := cddProcInit (e.proc i) i w.proc })
      else (err, updateDev i (fun d => { d with devno := 0 }) w)

/-- The loop over the devices: the error code, whether some device went live,
and the world. -/
def initLoop (e : InitEnv) : List Minor → Bool → World → Int × Bool × World
  | [], someDevicesOk, w => (0, someDevicesOk, w)
  | i :: is, someDevicesOk, w =>
      let r := initDevice e i w
      if r.1 ≠ 0 then (r.1, someDevicesOk, r.2) else initLoop e is true r.2

def freeSem (i : Minor) (w : World) : World :=
  match (w.cddDev i).cddSem with
  | some h =>
      updateDev i (fun d => { d with cddSem := none })
        { w with sems := w.sems.release h () }
  | none => w

def destroyCache (i : Minor) (w : World) : World :=
  match (w.cddDev i).bufcache with
  | some h =>
      updateDev i (fun d => { d with bufcache := none })
        { w with caches := w.caches.release h () }
  | none => w

def unregisterRegion (w : World) : World :=
  { w with regions := w.regions.releaseFirst (fun n => n = w.firstdevno) () }

/-- From `Partial_decommission_exit` to `Init_error_exit`. -/
def partialDecommission (someDevicesOk : Bool) (w : World) : World :=
  let w := minors.foldl
    (fun w i => if (w.cddDev i).devno ≠ 0 then w else freeSem i w) w
  if !someDevicesOk then unregisterRegion (destroyCache lastDev w) else w

def cddInit (e : InitEnv) : Int × World :=
  let w := { World.zero with
    proc := cddProcSeqInit e.mypsCreated World.zero.proc }
  let reg := registerRegion e w
  if reg.1 < 0 then
    (reg.1, { reg.2 with proc := cddProcSeqExit reg.2.proc })
  else
    let w := minors.foldl
      (fun w i => updateDev i (fun d => { d with devno := 0 }) w) reg.2
    let loop := initLoop e minors false w
    if loop.1 = 0 then (0, loop.2.2)
    else
      let w := partialDecommission loop.2.1 loop.2.2
      (loop.1, { w with proc := cddProcSeqExit w.proc })

/-! ## CDD_exit -/

def World.devState (w : World) (m : Minor) : DevState := ⟨w.cddDev m, w.heap⟩

def World.setDevState (w : World) (m : Minor) (s : DevState) : World :=
  { w with cddDev := Function.update w.cddDev m s.dev, heap := s.heap }

def cdevDel (i : Minor) (w : World) : World :=
  { w with cdevs := w.cdevs.releaseFirst (fun j => j = i) () }

/-- The body of the loop over the devices. -/
def exitDevice (w : World) (i : Minor) : World :=
  if (w.cddDev i).devno = 0 then w
  else
    let w := { w with proc := cddProcExit i w.proc }
    let w := cdevDel i w
    let w := w.setDevState i (freeStorage (w.devState i))
    let w := updateDev i (fun d => { d with cddStorage := none }) w
    freeSem i w

def cddExit (w : World) : World :=
  let w := { w with proc := cddProcSeqExit w.proc }
  let w := minors.foldl exitDevice w
  unregisterRegion (destroyCache lastDev w)

end CddDriver
