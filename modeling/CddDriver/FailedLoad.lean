import CddDriver.Unload
import Mathlib.Tactic.Common
/-!
# A load that fails

What `CDD_init` still holds when it returns an error.  The path from
`Partial_decommission_exit` takes back the semaphores of the devices that did
not go live, and the region if none did.  It leaves devices that went live in
the kernel, and of the slab caches it reaches only that of the last device,
which no failing pass has created.
-/

namespace CddDriver

open Lib

def NothingHeld (w : World) : Prop :=
  w.regions.NoneHeld ∧ w.cdevs.NoneHeld ∧ w.sems.NoneHeld ∧
    w.caches.NoneHeld ∧ w.proc.entries.NoneHeld ∧ w.proc.values.NoneHeld

/-! ## The state at the start of the loop -/

theorem loopStart_regions {e : InitEnv} (h : ¬ e.regionRet < 0) :
    (loopStart e).regions = [⟨(loopStart e).firstdevno, []⟩] := by
  have hreg : ∀ w : World, w.regions = [] →
      (registerRegion e w).2.regions =
        [⟨(registerRegion e w).2.firstdevno, []⟩] := by
    intro w hw
    simp only [registerRegion, h, if_false]
    split_ifs <;> simp [Ledger.acquire, hw]
  rw [loopStart, minors_eq]
  exact hreg _ rfl

theorem loopStart_cddDev (e : InitEnv) (m : Minor) :
    (loopStart e).cddDev m = CDDdev.zero := by
  have hzero := (registerRegion_cddDev e { World.zero with
    proc := cddProcSeqInit e.mypsCreated World.zero.proc }).1
  have hkeep : ∀ (is : List Minor) (w : World),
      (∀ k, w.cddDev k = CDDdev.zero) →
      (is.foldl (fun w i => updateDev i (fun d => { d with devno := 0 }) w)
        w).cddDev m = CDDdev.zero := by
    intro is
    induction is with
    | nil =>
        intro w hw
        exact hw m
    | cons i is ih =>
        intro w hw
        refine ih _ fun k => ?_
        by_cases hk : k = i
        · subst hk
          simp [updateDev, hw, CDDdev.zero]
        · simp [updateDev, Function.update_of_ne hk, hw]
  refine hkeep minors _ fun k => ?_
  rw [hzero]
  rfl

/-! ## Taking back -/

theorem freeSem_eq_self {i : Minor} {w : World}
    (h : (w.cddDev i).cddSem = none) : freeSem i w = w := by
  simp [freeSem, h]

theorem destroyCache_eq_self {i : Minor} {w : World}
    (h : (w.cddDev i).bufcache = none) : destroyCache i w = w := by
  simp [destroyCache, h]

theorem cddProcSeqExit_noneHeld (created : Bool) :
    (cddProcSeqExit (cddProcSeqInit created ProcState.zero)).entries.NoneHeld ∧
      (cddProcSeqExit (cddProcSeqInit created ProcState.zero)).values.NoneHeld := by
  cases created <;> simp [cddProcSeqExit, cddProcSeqInit, removeProcEntry,
    ProcState.zero, Ledger.NoneHeld, Ledger.acquire, Ledger.releaseFirst,
    Ledger.release, List.findIdx_cons]

theorem unregisterRegion_noneHeld {w : World} {n : Nat}
    (hregions : w.regions = [⟨n, []⟩]) (hn : w.firstdevno = n) :
    (unregisterRegion w).regions.NoneHeld := by
  simp [unregisterRegion, hregions, hn, Ledger.NoneHeld, Ledger.releaseFirst,
    Ledger.release, List.findIdx_cons]

/-! ## Where the load can fail -/

/-- A load that fails after the registration is a loop that fails, followed by
the decommissioning. -/
theorem cddInit_of_registered {e : InitEnv} (hreg : ¬ e.regionRet < 0)
    (hfail : (cddInit e).1 ≠ 0) :
    (cddInit e).2 =
      { partialDecommission (initLoop e minors false (loopStart e)).2.1
          (initLoop e minors false (loopStart e)).2.2 with
        proc := cddProcSeqExit (partialDecommission
          (initLoop e minors false (loopStart e)).2.1
          (initLoop e minors false (loopStart e)).2.2).proc } ∧
      (initLoop e minors false (loopStart e)).1 ≠ 0 := by
  have hret : ∀ w, (registerRegion e w).1 = e.regionRet := by
    intro w
    simp only [registerRegion]
    split_ifs <;> rfl
  simp only [cddInit, hret, hreg, if_false] at hfail ⊢
  by_cases hloop : (initLoop e minors false (loopStart e)).1 = 0
  · have hloop' := hloop
    simp only [loopStart] at hloop'
    simp only [hloop', if_true] at hfail
    exact absurd rfl hfail
  · have hloop' := hloop
    simp only [loopStart] at hloop'
    simp only [hloop', if_false]
    exact ⟨rfl, hloop⟩

theorem initDevice_failed {e : InitEnv} {i : Minor} {w : World}
    (h : (initDevice e i w).1 ≠ 0) :
    ∃ d : CDDdev, d.devno = 0 ∧
      ((e.semOk i = false ∧ d.cddSem = none ∧
        (initDevice e i w).2 =
          { w with cddDev := Function.update w.cddDev i d }) ∨
      (e.semOk i = true ∧ e.cacheOk i = false ∧ d.cddSem = some w.sems.length ∧
        (initDevice e i w).2 =
          { w with
            cddDev := Function.update w.cddDev i d, sems := w.sems.acquire i }) ∨
      (e.semOk i = true ∧ e.cacheOk i = true ∧ d.cddSem = some w.sems.length ∧
        (initDevice e i w).2 =
          { w with
            cddDev := Function.update w.cddDev i d, sems := w.sems.acquire i
            caches := w.caches.acquire i })) := by
  refine ⟨(initDevice e i w).2.cddDev i, ?_, ?_⟩
  · cases hsem : e.semOk i with
    | false => simp [initDevice, hsem, updateDev]
    | true =>
        cases hcache : e.cacheOk i with
        | false => simp [initDevice, hsem, hcache, updateDev]
        | true =>
            by_cases hcdev : e.cdevRet i = 0
            · exact absurd (congrArg Prod.fst (initDevice_ok w hsem hcache hcdev)) h
            · simp [initDevice, hsem, hcache, hcdev, updateDev]
  · cases hsem : e.semOk i with
    | false => exact .inl (by simp [initDevice, hsem, updateDev])
    | true =>
        cases hcache : e.cacheOk i with
        | false => exact .inr (.inl (by simp [initDevice, hsem, hcache, updateDev]))
        | true =>
            by_cases hcdev : e.cdevRet i = 0
            · exact absurd (congrArg Prod.fst (initDevice_ok w hsem hcache hcdev)) h
            · exact .inr (.inr
                (by simp [initDevice, hsem, hcache, hcdev, updateDev]))

theorem initDevice_cdevs {e : InitEnv} {i : Minor} {w : World} {n : Nat}
    {x : Entry Minor Unit} (h : w.cdevs[n]? = some x) :
    (initDevice e i w).2.cdevs[n]? = some x := by
  by_cases hok : (initDevice e i w).1 = 0
  · obtain ⟨hsem, hcache, hcdev⟩ := initDevice_eq_zero hok
    rw [initDevice_ok w hsem hcache hcdev]
    exact Ledger.getElem?_acquire_of_some i h
  · obtain ⟨d, -, ⟨-, -, hw⟩ | ⟨-, -, -, hw⟩ | ⟨-, -, -, hw⟩⟩ :=
      initDevice_failed hok <;>
    · rw [hw]
      exact h

theorem initLoop_cdevs {e : InitEnv} {is : List Minor} {b : Bool} {w : World}
    {n : Nat} {x : Entry Minor Unit} (h : w.cdevs[n]? = some x) :
    (initLoop e is b w).2.2.cdevs[n]? = some x := by
  induction is generalizing b w with
  | nil => exact h
  | cons i is ih =>
      unfold initLoop
      by_cases hi : (initDevice e i w).1 = 0
      · simp only [hi, ne_eq, not_true_eq_false, if_false]
        exact ih (initDevice_cdevs h)
      · simp only [hi, ne_eq, not_false_eq_true, if_true]
        exact initDevice_cdevs h

theorem partialDecommission_cdevs (b : Bool) (w : World) :
    (partialDecommission b w).cdevs = w.cdevs := by
  have hfree : ∀ i v, (freeSem i v).cdevs = v.cdevs := by
    intro i v
    unfold freeSem
    split <;> rfl
  have hdestroy : ∀ i v, (destroyCache i v).cdevs = v.cdevs := by
    intro i v
    unfold destroyCache
    split <;> rfl
  have hloop : ∀ (is : List Minor) (v : World),
      (is.foldl (fun w i => if (w.cddDev i).devno ≠ 0 then w else freeSem i w)
        v).cdevs = v.cdevs := by
    intro is
    induction is with
    | nil => exact fun _ => rfl
    | cons i is ih =>
        intro v
        rw [List.foldl_cons, ih]
        split
        · rfl
        · exact hfree i v
  simp only [partialDecommission, unregisterRegion]
  split
  · simp only [hdestroy]
    exact hloop minors w
  · exact hloop minors w

theorem partialDecommission_first {w : World} {d : CDDdev}
    (hw : w.cddDev = Function.update (fun _ => CDDdev.zero) 0 d)
    (hd : d.devno = 0) :
    partialDecommission false w = unregisterRegion (freeSem 0 w) := by
  have hother : ∀ k : Minor, k ≠ 0 → (freeSem 0 w).cddDev k = CDDdev.zero := by
    intro k hk
    rw [(freeSem_frame 0 w).2.2.1 k hk, hw, Function.update_of_ne hk]
  have hzero : (w.cddDev 0).devno = 0 := by
    rw [hw, Function.update_self, hd]
  have hskip : ∀ k : Minor, k ≠ 0 →
      (if ((freeSem 0 w).cddDev k).devno ≠ 0 then freeSem 0 w
        else freeSem k (freeSem 0 w)) = freeSem 0 w := by
    intro k hk
    have hnull : ((freeSem 0 w).cddDev k).cddSem = none := by
      rw [hother k hk]
      rfl
    rw [freeSem_eq_self hnull, ite_self]
  have hcache : ((freeSem 0 w).cddDev lastDev).bufcache = none := by
    rw [hother lastDev (by decide)]
    rfl
  simp only [partialDecommission, minors_eq, List.foldl_cons, List.foldl_nil,
    hzero, ne_eq, not_true_eq_false, if_false, Bool.not_false, if_true]
  rw [hskip 1 (by decide), hskip 2 (by decide), hskip 3 (by decide),
    hskip 4 (by decide), destroyCache_eq_self hcache]

/-! ## What is left -/

theorem nothingHeld_unregistered {e : InitEnv} (h : e.regionRet < 0) :
    NothingHeld (cddInit e).2 := by
  obtain ⟨hentries, hvalues⟩ := cddProcSeqExit_noneHeld e.mypsCreated
  have hreg : ∀ w : World, (registerRegion e w).1 = e.regionRet ∧
      (registerRegion e w).2.regions = w.regions ∧
      (registerRegion e w).2.cdevs = w.cdevs ∧
      (registerRegion e w).2.sems = w.sems ∧
      (registerRegion e w).2.caches = w.caches ∧
      (registerRegion e w).2.proc = w.proc := by
    intro w
    simp only [registerRegion, h, if_true]
    split_ifs <;> simp
  obtain ⟨hret, hregions, hcdevs, hsems, hcaches, hproc⟩ := hreg
    { World.zero with proc := cddProcSeqInit e.mypsCreated World.zero.proc }
  simp only [cddInit, hret, h, if_true, NothingHeld, hregions, hcdevs, hsems,
    hcaches, hproc]
  refine ⟨?_, ?_, ?_, ?_, hentries, hvalues⟩ <;>
  · intro x hx
    cases hx

/-- Once the region and the `/proc` entries are gone, a load that got no further
than the loop holds nothing if it holds no semaphore, cache or character
device. -/
theorem nothingHeld_decommissioned {e : InitEnv} (hreg : ¬ e.regionRet < 0)
    {w : World} (hregions : w.regions = (loopStart e).regions)
    (hn : w.firstdevno = (loopStart e).firstdevno)
    (hproc : w.proc = (loopStart e).proc) (hcdevs : w.cdevs.NoneHeld)
    (hsems : w.sems.NoneHeld) (hcaches : w.caches.NoneHeld) :
    NothingHeld { unregisterRegion w with
      proc := cddProcSeqExit (unregisterRegion w).proc } := by
  obtain ⟨hentries, hvalues⟩ := cddProcSeqExit_noneHeld e.mypsCreated
  rw [← loopStart_proc, ← hproc] at hentries hvalues
  have hgone := unregisterRegion_noneHeld
    (hregions.trans (loopStart_regions hreg)) hn
  exact ⟨hgone, hcdevs, hsems, hcaches, hentries, hvalues⟩

theorem nothingHeld_first_failed {e : InitEnv} (hreg : ¬ e.regionRet < 0)
    (hfail : (cddInit e).1 ≠ 0)
    (hfirst : (initDevice e 0 (loopStart e)).1 ≠ 0) :
    NothingHeld (cddInit e).2 ↔ e.semOk 0 = false ∨ e.cacheOk 0 = false := by
  have hloop : initLoop e minors false (loopStart e) =
      ((initDevice e 0 (loopStart e)).1, false,
        (initDevice e 0 (loopStart e)).2) := by
    rw [minors_eq]
    unfold initLoop
    simp only [hfirst, ne_eq, not_false_eq_true, if_true]
  obtain ⟨hheap, hsems, hcaches, hcdevs⟩ := loopStart_frame e
  have hcddDev : (loopStart e).cddDev = fun _ => CDDdev.zero :=
    funext (loopStart_cddDev e)
  rw [(cddInit_of_registered hreg hfail).1, hloop]
  obtain ⟨d, hd, ⟨hsem, hnull, hw⟩ | ⟨hsem, hcache, hhandle, hw⟩ |
    ⟨hsem, hcache, hhandle, hw⟩⟩ := initDevice_failed hfirst
  · refine iff_of_true ?_ (.inl hsem)
    have hself : freeSem 0 (initDevice e 0 (loopStart e)).2 =
        (initDevice e 0 (loopStart e)).2 := by
      apply freeSem_eq_self
      rw [hw]
      simp [hnull]
    rw [partialDecommission_first (by rw [hw, hcddDev]) hd, hself, hw]
    refine nothingHeld_decommissioned (w := { loopStart e with
        cddDev := Function.update (loopStart e).cddDev 0 d })
      hreg rfl rfl rfl ?_ ?_ ?_
    · simp [hcdevs, Ledger.NoneHeld]
    · simp [hsems, Ledger.NoneHeld]
    · simp [hcaches, Ledger.NoneHeld]
  · refine iff_of_true ?_ (.inr hcache)
    rw [partialDecommission_first (by rw [hw, hcddDev]) hd, hw]
    have hfree : freeSem 0 { loopStart e with
        cddDev := Function.update (loopStart e).cddDev 0 d
        sems := (loopStart e).sems.acquire 0 } =
      { loopStart e with
        cddDev := Function.update (loopStart e).cddDev 0
          { d with cddSem := none }
        sems := [⟨0, [()]⟩] } := by
      simp [freeSem, updateDev, hhandle, hsems, Ledger.acquire, Ledger.release]
    rw [hfree]
    refine nothingHeld_decommissioned (w := { loopStart e with
        cddDev := Function.update (loopStart e).cddDev 0
          { d with cddSem := none }
        sems := [⟨0, [()]⟩] })
      hreg rfl rfl rfl ?_ ?_ ?_
    · simp [hcdevs, Ledger.NoneHeld]
    · simp [Ledger.NoneHeld]
    · simp [hcaches, Ledger.NoneHeld]
  · refine iff_of_false ?_ (by simp [hsem, hcache])
    rw [partialDecommission_first (by rw [hw, hcddDev]) hd, hw]
    rintro ⟨-, -, -, hheld, -⟩
    have hkept := (freeSem_frame 0 { loopStart e with
      cddDev := Function.update (loopStart e).cddDev 0 d
      sems := (loopStart e).sems.acquire 0
      caches := (loopStart e).caches.acquire 0 }).2.1
    have hmem : (⟨0, []⟩ : Entry Minor Unit) ∈ (freeSem 0 { loopStart e with
        cddDev := Function.update (loopStart e).cddDev 0 d
        sems := (loopStart e).sems.acquire 0
        caches := (loopStart e).caches.acquire 0 }).caches := by
      rw [hkept]
      simp [Ledger.acquire]
    exact hheld _ hmem rfl

theorem not_nothingHeld_first_live {e : InitEnv} (hreg : ¬ e.regionRet < 0)
    (hfail : (cddInit e).1 ≠ 0)
    (hfirst : (initDevice e 0 (loopStart e)).1 = 0) :
    ¬ NothingHeld (cddInit e).2 := by
  rintro ⟨-, hheld, -⟩
  rw [(cddInit_of_registered hreg hfail).1] at hheld
  obtain ⟨-, -, -, hcdevs⟩ := loopStart_frame e
  obtain ⟨hsem, hcache, hcdev⟩ := initDevice_eq_zero hfirst
  have hlive : (initLoop e minors false (loopStart e)).2.2.cdevs[0]? =
      some ⟨0, []⟩ := by
    rw [minors_eq]
    unfold initLoop
    simp only [initDevice_ok (loopStart e) hsem hcache hcdev, ne_eq,
      not_true_eq_false, if_false]
    apply initLoop_cdevs
    simp [goLive, hcdevs, Ledger.acquire]
  have hkept := (partialDecommission_cdevs
    (initLoop e minors false (loopStart e)).2.1
    (initLoop e minors false (loopStart e)).2.2)
  have hmem := List.mem_of_getElem? (hkept ▸ hlive)
  exact hheld _ hmem rfl

/-- A failed load leaves nothing behind exactly when it failed at the region,
or at the semaphore or the slab cache of the first device. -/
theorem nothingHeld_cddInit_iff {e : InitEnv} (h : (cddInit e).1 ≠ 0) :
    NothingHeld (cddInit e).2 ↔
      e.regionRet < 0 ∨ e.semOk 0 = false ∨ e.cacheOk 0 = false := by
  by_cases hreg : e.regionRet < 0
  · exact iff_of_true (nothingHeld_unregistered hreg) (.inl hreg)
  · by_cases hfirst : (initDevice e 0 (loopStart e)).1 = 0
    · obtain ⟨hsem, hcache, -⟩ := initDevice_eq_zero hfirst
      exact iff_of_false (not_nothingHeld_first_live hreg h hfirst)
        (by simp [hreg, hsem, hcache])
    · rw [nothingHeld_first_failed hreg h hfirst]
      simp [hreg]

theorem nothingHeld_cddInit_no_semaphore :
    (cddInit { undisturbed with semOk := fun _ => false }).1 ≠ 0 ∧
      NothingHeld (cddInit { undisturbed with semOk := fun _ => false }).2 :=
  ⟨by decide, (nothingHeld_cddInit_iff (by decide)).mpr (.inr (.inl rfl))⟩

/-- When `cdev_add` refuses the first device, its slab cache stays; when it
refuses the second, the first device stays in the kernel as well. -/
theorem not_nothingHeld_cdev_refused :
    (cddInit { undisturbed with cdevRet := fun _ => -enomem }).1 = -enomem ∧
      ¬ NothingHeld (cddInit { undisturbed with cdevRet := fun _ => -enomem }).2 ∧
      (cddInit { undisturbed with
        cdevRet := fun i => if i = 1 then -enomem else 0 }).1 = -enomem ∧
      ¬ NothingHeld (cddInit { undisturbed with
        cdevRet := fun i => if i = 1 then -enomem else 0 }).2 := by
  have hcaches : (cddInit { undisturbed with
      cdevRet := fun _ => -enomem }).2.caches = [⟨0, []⟩] := by decide
  have hcdevs : (cddInit { undisturbed with
      cdevRet := fun i => if i = 1 then -enomem else 0 }).2.cdevs =
        [⟨0, []⟩] := by decide
  refine ⟨by decide, ?_, by decide, ?_⟩
  · rintro ⟨-, -, -, hheld, -⟩
    exact hheld ⟨0, []⟩ (by simp [hcaches]) rfl
  · rintro ⟨-, hheld, -⟩
    exact hheld ⟨0, []⟩ (by simp [hcdevs]) rfl

end CddDriver
