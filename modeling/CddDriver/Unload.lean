import CddDriver.Invariant
import CddDriver.ProcWrites
import Mathlib.Data.List.FinRange
import Mathlib.Tactic.Common
/-!
# Unloading the module

What `CDD_exit` does to the heap and to the slab caches.  Its loop passes the
buffer of each device that went live to a deallocator; of the slab caches it
destroys only the one of the last device, so no unload releases all that the
load acquired.
-/

namespace CddDriver

open Lib

/-! ## The loop over the devices -/

def exitFrees (w : World) (q : Nat) (i : Minor) : Option Deallocator :=
  if (w.cddDev i).devno ≠ 0 ∧ (w.cddDev i).cddStorage = some q then
    some (storageRelease (w.cddDev i))
  else none

theorem freeSem_frame (i : Minor) (w : World) :
    (freeSem i w).heap = w.heap ∧ (freeSem i w).caches = w.caches ∧
      (∀ k, k ≠ i → (freeSem i w).cddDev k = w.cddDev k) ∧
      ((freeSem i w).cddDev i).bufcache = (w.cddDev i).bufcache := by
  unfold freeSem
  split
  · refine ⟨rfl, rfl, fun k hk => Function.update_of_ne hk _ _, ?_⟩
    simp [updateDev]
  · exact ⟨rfl, rfl, fun _ _ => rfl, rfl⟩

theorem freeStorage_heap (s : DevState) (q : Nat) :
    (freeStorage s).heap[q]? = (s.heap[q]?).map fun x =>
      { x with releases := x.releases ++
        (if s.dev.cddStorage = some q then some (storageRelease s.dev)
          else none).toList } := by
  unfold freeStorage
  cases hp : s.dev.cddStorage with
  | none => simp
  | some p =>
      by_cases hq : p = q
      · subst hq
        cases hx : s.heap[p]? with
        | none => simp [Ledger.release, hx]
        | some x => simp [Ledger.getElem?_release_self (storageRelease s.dev) hx]
      · simp [Ledger.getElem?_release_ne s.heap (storageRelease s.dev) hq, hq]

theorem freeStorage_bufcache (s : DevState) :
    (freeStorage s).dev.bufcache = s.dev.bufcache := by
  unfold freeStorage
  split <;> rfl

theorem exitDevice_heap (w : World) (i : Minor) (q : Nat) :
    (exitDevice w i).heap[q]? = (w.heap[q]?).map fun x =>
      { x with releases := x.releases ++ (exitFrees w q i).toList } := by
  unfold exitDevice exitFrees
  by_cases hdev : (w.cddDev i).devno = 0
  · simp [hdev]
  · simp only [hdev, if_false, ne_eq, not_false_eq_true, true_and]
    rw [(freeSem_frame i _).1]
    exact freeStorage_heap ⟨w.cddDev i, w.heap⟩ q

theorem exitDevice_caches (w : World) (i : Minor) :
    (exitDevice w i).caches = w.caches := by
  unfold exitDevice
  by_cases hdev : (w.cddDev i).devno = 0
  · rw [if_pos hdev]
  · rw [if_neg hdev]
    exact (freeSem_frame i _).2.1

theorem exitDevice_cddDev_ne (w : World) {i k : Minor} (hk : k ≠ i) :
    (exitDevice w i).cddDev k = w.cddDev k := by
  unfold exitDevice
  by_cases hdev : (w.cddDev i).devno = 0
  · rw [if_pos hdev]
  · rw [if_neg hdev]
    refine ((freeSem_frame i _).2.2.1 k hk).trans ?_
    simp [updateDev, World.setDevState, cdevDel, Function.update_of_ne hk]

theorem exitDevice_bufcache (w : World) (i k : Minor) :
    ((exitDevice w i).cddDev k).bufcache = (w.cddDev k).bufcache := by
  by_cases hk : k = i
  · subst hk
    unfold exitDevice
    by_cases hdev : (w.cddDev k).devno = 0
    · rw [if_pos hdev]
    · rw [if_neg hdev]
      refine ((freeSem_frame k _).2.2.2).trans ?_
      simp [updateDev, World.setDevState, cdevDel, World.devState,
        freeStorage_bufcache]
  · rw [exitDevice_cddDev_ne w hk]

/-- Each pass of the loop works on its own device, so the loop does to a buffer
what its passes do from the state before the loop. -/
theorem foldl_exitDevice_heap {is : List Minor} (hnodup : is.Nodup) (w : World)
    (q : Nat) :
    (is.foldl exitDevice w).heap[q]? = (w.heap[q]?).map fun x =>
      { x with releases := x.releases ++ is.filterMap (exitFrees w q) } := by
  induction is generalizing w with
  | nil => simp
  | cons i is ih =>
      obtain ⟨hi, hrest⟩ := List.nodup_cons.mp hnodup
      have hsame : is.filterMap (exitFrees (exitDevice w i) q) =
          is.filterMap (exitFrees w q) := by
        apply List.filterMap_congr
        intro k hk
        have hne : k ≠ i := fun heq => hi (heq ▸ hk)
        simp only [exitFrees, exitDevice_cddDev_ne w hne]
      rw [List.foldl_cons, ih hrest, exitDevice_heap, hsame]
      cases hx : w.heap[q]? with
      | none => rfl
      | some x => cases hf : exitFrees w q i <;> simp [hf]

theorem foldl_exitDevice_caches (is : List Minor) (w : World) (k : Minor) :
    (is.foldl exitDevice w).caches = w.caches ∧
      ((is.foldl exitDevice w).cddDev k).bufcache = (w.cddDev k).bufcache := by
  induction is generalizing w with
  | nil => exact ⟨rfl, rfl⟩
  | cons i is ih =>
      obtain ⟨hcaches, hbuf⟩ := ih (exitDevice w i)
      rw [List.foldl_cons, hcaches, hbuf, exitDevice_caches,
        exitDevice_bufcache]
      exact ⟨rfl, rfl⟩

/-! ## CDD_exit as a whole -/

theorem destroyCache_heap (i : Minor) (w : World) :
    (destroyCache i w).heap = w.heap := by
  unfold destroyCache
  split <;> rfl

theorem cddExit_heap (w : World) (q : Nat) :
    (cddExit w).heap[q]? = (w.heap[q]?).map fun x =>
      { x with releases := x.releases ++ minors.filterMap (exitFrees w q) } := by
  have hnodup : minors.Nodup := by decide
  simp only [cddExit, unregisterRegion]
  rw [destroyCache_heap, foldl_exitDevice_heap hnodup]
  rfl

theorem cddExit_caches {w : World} {h : Nat}
    (hlast : (w.cddDev lastDev).bufcache = some h) :
    (cddExit w).caches = w.caches.release h () := by
  have hloop := foldl_exitDevice_caches minors
    { w with proc := cddProcSeqExit w.proc } lastDev
  simp only [cddExit, unregisterRegion, destroyCache, hloop.2, hlast,
    hloop.1, updateDev]

def AllReleasedOnce (w : World) : Prop :=
  w.cdevs.ReleasedOnce ∧ w.sems.ReleasedOnce ∧ w.caches.ReleasedOnce ∧
    w.proc.entries.ReleasedOnce ∧ w.proc.values.ReleasedOnce ∧
    w.regions.ReleasedOnce

instance (w : World) : Decidable (AllReleasedOnce w) :=
  inferInstanceAs (Decidable (_ ∧ _))

theorem caches_step {y z : System} {c : ModuleCall} {o : ModuleReply}
    (h : WorldInv y.world) (hstep : moduleDriver.step y c = some (z, o)) :
    WorldInv z.world ∧ z.world.caches = y.world.caches := by
  cases c with
  | device c =>
      obtain ⟨o', -, hdevice⟩ := moduleDriver_device hstep
      obtain ⟨cddDev, heap, hz⟩ := (effect_of_step hdevice).frame
      exact ⟨h.step hdevice, by rw [hz]⟩
  | readproc m locked len old =>
      obtain ⟨-, r, -, rfl, -⟩ := moduleDriver_readproc hstep
      exact ⟨⟨h.device, h.owned⟩, rfl⟩
  | writeproc m buf copy =>
      obtain ⟨-, retval, q, -, rfl, -⟩ := moduleDriver_writeproc hstep
      exact ⟨⟨h.device, h.owned⟩, rfl⟩

theorem caches_run {e : InitEnv} (h : (cddInit e).1 = 0) {cs : List ModuleCall}
    {z : System} (hrun : moduleDriver.Run (loaded e) cs z) :
    WorldInv z.world ∧ z.world.caches = (loaded e).world.caches := by
  refine Machine.Run.invariant
    (I := fun z => WorldInv z.world ∧ z.world.caches = (loaded e).world.caches)
    ?_ hrun ⟨worldInv_loaded h, rfl⟩
  rintro y c z o ⟨hinv, hcaches⟩ hstep
  obtain ⟨hinv', hsame⟩ := caches_step hinv hstep
  exact ⟨hinv', hsame.trans hcaches⟩

/-- After a successful load, whatever is done with the devices and their entries
in `/proc`, `CDD_exit` leaves slab caches behind. -/
theorem not_allReleasedOnce_cddExit {e : InitEnv} (h : (cddInit e).1 = 0)
    {cs : List ModuleCall} {z : System}
    (hrun : moduleDriver.Run (loaded e) cs z) :
    ¬ AllReleasedOnce (cddExit z.world) := by
  rintro ⟨-, -, hcaches, -⟩
  obtain ⟨hinv, hsame⟩ := caches_run h hrun
  rw [cddExit_caches (hinv.device lastDev).bufcache_eq] at hcaches
  have hfirst : z.world.caches[0]? = some ⟨0, []⟩ := by
    rw [hsame]
    exact congrArg (fun l : Ledger Minor Unit => l[0]?) (loaded_caches h)
  have hheld : (z.world.caches.release lastDev.val ())[0]? = some ⟨0, []⟩ := by
    rw [Ledger.getElem?_release_ne _ _ (by decide), hfirst]
  exact absurd (hcaches _ (List.mem_of_getElem? hheld)) (by decide)

theorem not_allReleasedOnce_cddExit_used :
    ∃ z, moduleDriver.Run (loaded undisturbed)
        [.device (.openFile 0 0 oWronly true (some fun _ => 0)),
          .device (.write 0 none [65] true .whole),
          .writeproc 0 "Team".toList .whole, .device (.release 0)] z ∧
      z.files 0 = .closed ∧ ¬ AllReleasedOnce (cddExit z.world) := by
  have hexec : (moduleDriver.exec (loaded undisturbed)
      [.device (.openFile 0 0 oWronly true (some fun _ => 0)),
        .device (.write 0 none [65] true .whole),
        .writeproc 0 "Team".toList .whole, .device (.release 0)]).map
      (fun z => z.files 0) = some .closed := by decide
  obtain ⟨z, hz, hclosed⟩ := Option.map_eq_some_iff.mp hexec
  have hrun := Machine.run_of_exec hz
  exact ⟨z, hrun, hclosed, not_allReleasedOnce_cddExit cddInit_undisturbed hrun⟩

/-- Load and unload with no call in between. -/
theorem not_allReleasedOnce_undisturbed :
    (cddInit undisturbed).1 = 0 ∧
      ¬ AllReleasedOnce (cddExit (cddInit undisturbed).2) := by
  decide

end CddDriver
