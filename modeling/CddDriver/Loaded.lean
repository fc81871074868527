import CddDriver.Load
import Mathlib.Data.Fintype.Basic
import Mathlib.Tactic.Common
import Mathlib.Tactic.FinCases
/-!
# The world after a successful load

When `CDD_init` returns 0, each pass of its loop went through, and the world it
leaves can be written down: device `i` has the `i`-th semaphore and the `i`-th
slab cache, no buffer and no content.
-/

namespace CddDriver

open Lib

/-- The device that a successful pass of the loop leaves, given its major
number and the handles of its semaphore and slab cache. -/
def liveDev (major : Nat) (i : Minor) (sem cache : Nat) : CDDdev :=
  ⟨mkdev major i, 0, 0, none, false, .vmalloc, some cache, some sem, 0⟩

def goLive (e : InitEnv) (w : World) (i : Minor) : World :=
  { w with
    cddDev := Function.update w.cddDev i
      (liveDev w.cddMajor i w.sems.length w.caches.length)
    sems := w.sems.acquire i
    caches := w.caches.acquire i
    cdevs := w.cdevs.acquire i
    proc := cddProcInit (e.proc i) i w.proc }

theorem initDevice_ok {e : InitEnv} {i : Minor} (w : World)
    (hsem : e.semOk i = true) (hcache : e.cacheOk i = true)
    (hcdev : e.cdevRet i = 0) : initDevice e i w = (0, goLive e w i) := by
  simp [initDevice, hsem, hcache, hcdev, goLive, updateDev, liveDev]

theorem initDevice_eq_zero {e : InitEnv} {i : Minor} {w : World}
    (h : (initDevice e i w).1 = 0) :
    e.semOk i = true ∧ e.cacheOk i = true ∧ e.cdevRet i = 0 := by
  by_cases hsem : e.semOk i = true
  · by_cases hcache : e.cacheOk i = true
    · by_cases hcdev : e.cdevRet i = 0
      · exact ⟨hsem, hcache, hcdev⟩
      · simp [initDevice, hsem, hcache, hcdev] at h
    · simp [initDevice, hsem, hcache, enomem] at h
  · simp [initDevice, hsem, enomem] at h

theorem initLoop_eq_zero {e : InitEnv} {is : List Minor} {b : Bool} {w : World}
    (h : (initLoop e is b w).1 = 0) :
    (initLoop e is b w).2.2 = is.foldl (goLive e) w := by
  induction is generalizing b w with
  | nil => rfl
  | cons i is ih =>
      unfold initLoop at h ⊢
      by_cases hi : (initDevice e i w).1 = 0
      · obtain ⟨hsem, hcache, hcdev⟩ := initDevice_eq_zero hi
        simp only [initDevice_ok w hsem hcache hcdev, ne_eq,
          not_true_eq_false, if_false] at h ⊢
        exact ih h
      · simp only [hi, ne_eq, not_false_eq_true, if_true] at h

theorem minors_eq : minors = [0, 1, 2, 3, 4] := by decide

def loopStart (e : InitEnv) : World :=
  minors.foldl (fun w i => updateDev i (fun d => { d with devno := 0 }) w)
    (registerRegion e { World.zero with
      proc := cddProcSeqInit e.mypsCreated World.zero.proc }).2

/-- A load that returns 0 is five successful passes of the loop. -/
theorem cddInit_eq_zero {e : InitEnv} (h : (cddInit e).1 = 0) :
    (cddInit e).2 = minors.foldl (goLive e) (loopStart e) := by
  simp only [cddInit] at h ⊢
  split at h
  · next hneg => exact absurd h (Int.ne_of_lt hneg)
  · next hneg =>
      rw [if_neg hneg]
      split at h
      · next hloop =>
          rw [if_pos hloop]
          exact initLoop_eq_zero hloop
      · next hloop => exact absurd h hloop

theorem registerRegion_cddDev (e : InitEnv) (w : World) :
    (registerRegion e w).2.cddDev = w.cddDev ∧
      (registerRegion e w).2.proc = w.proc := by
  simp only [registerRegion]
  split_ifs <;> exact ⟨rfl, rfl⟩

theorem loopStart_proc (e : InitEnv) :
    (loopStart e).proc = cddProcSeqInit e.mypsCreated ProcState.zero := by
  rw [loopStart, minors_eq]
  exact (registerRegion_cddDev e _).2

theorem loopStart_frame (e : InitEnv) :
    (loopStart e).heap = [] ∧ (loopStart e).sems = [] ∧
      (loopStart e).caches = [] ∧ (loopStart e).cdevs = [] := by
  have hreg : ∀ w, (registerRegion e w).2.heap = w.heap ∧
      (registerRegion e w).2.sems = w.sems ∧
      (registerRegion e w).2.caches = w.caches ∧
      (registerRegion e w).2.cdevs = w.cdevs := by
    intro w
    simp only [registerRegion]
    split_ifs <;> simp
  rw [loopStart, minors_eq]
  exact hreg _

section Loaded

variable {e : InitEnv} (h : (cddInit e).1 = 0)
include h

theorem loaded_caches : (cddInit e).2.caches = minors.map fun i => ⟨i, []⟩ := by
  obtain ⟨-, -, hcaches, -⟩ := loopStart_frame e
  rw [cddInit_eq_zero h, minors_eq]
  simp [goLive, Ledger.acquire, hcaches]

theorem loaded_heap : (cddInit e).2.heap = [] := by
  obtain ⟨hheap, -⟩ := loopStart_frame e
  rw [cddInit_eq_zero h, minors_eq]
  simpa [goLive] using hheap

/-- Device `m` after the load: the `m`-th semaphore, the `m`-th slab cache. -/
theorem loaded_cddDev (m : Minor) :
    (cddInit e).2.cddDev m = liveDev (cddInit e).2.cddMajor m m m := by
  obtain ⟨-, hsems, hcaches, -⟩ := loopStart_frame e
  rw [cddInit_eq_zero h, minors_eq]
  fin_cases m <;>
    simp [goLive, Ledger.acquire, hsems, hcaches, Function.update] <;> rfl

end Loaded

/-- A load for major number 35 in which every call succeeds. -/
def undisturbed : InitEnv where
  cddParm := 35
  regionRet := 0
  allocDevno := 0
  mypsCreated := true
  semOk _ := true
  cacheOk _ := true
  cdevRet _ := 0
  proc _ := ⟨true, true, fun _ => '\x00'⟩

theorem cddInit_undisturbed : (cddInit undisturbed).1 = 0 := by decide

end CddDriver
