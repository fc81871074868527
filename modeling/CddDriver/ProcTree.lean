import CddDriver.Lib.Machine
import CddDriver.ProcFs
import Mathlib.Data.Finset.Card
import Mathlib.Data.Fintype.Basic
import Mathlib.Tactic.Common
/-!
# The reference count of the /proc/CDD tree

`topdir_refcount` is raised before `proc_create` is asked for the entry, and
lowered only when an entry is removed.  It counts the entries of the directory
as long as every creation succeeds, and from the first failure on it is too
high.
-/

namespace CddDriver

open Lib

/-! ## Runs of CDDproc_init and CDDproc_exit -/

structure ProcTree where
  proc : ProcState
  inited : Minor → Bool

inductive ProcCall where
  | init (m : Minor) (e : ProcInitEnv)
  | exit (m : Minor)

/-- A device is initialised only while it is not, and exited only while it
is. -/
def ProcTree.step (t : ProcTree) : ProcCall → Option (ProcTree × Unit)
  | .init m e =>
      if t.inited m then none
      else some (⟨cddProcInit e m t.proc, Function.update t.inited m true⟩, ())
  | .exit m =>
      if t.inited m then
        some (⟨cddProcExit m t.proc, Function.update t.inited m false⟩, ())
      else none

def procTree : Machine ProcTree ProcCall Unit := ⟨ProcTree.step⟩

def ProcTree.start (mypsCreated : Bool) : ProcTree where
  proc := cddProcSeqInit mypsCreated ProcState.zero
  inited _ := false

/-! ## The law and its condition -/

def ProcPath.isEntry : ProcPath → Bool
  | .entry _ => true
  | _ => false

/-- The reference count and the directory are those of the entries that exist,
there is one marker at most, and nothing is left when no device is. -/
structure TreeConsistent (t : ProcTree) : Prop where
  refcount : t.proc.topdirRefcount = t.proc.entries.held ProcPath.isEntry
  topdir : 0 < t.proc.entries.held (fun q => q = .topdir) ↔
    0 < t.proc.entries.held ProcPath.isEntry
  marker : t.proc.entries.held (fun q => q = .entry markerName) ≤ 1
  empty : (∀ m, t.inited m = false) →
    t.proc.entries.held ProcPath.isEntry = 0 ∧
      t.proc.entries.held (fun q => q = .topdir) = 0

def CreationsSucceed (t : ProcTree) (c : ProcCall) (_ : Unit) (_ : ProcTree) :
    Prop :=
  ∀ m e, c = .init m e → e.entryCreated = true ∧
    (topdirEntryCount t.proc = 0 → e.markerCreated = true)

/-! ## Creation and removal of one entry -/

theorem getDevname_injective : Function.Injective fun m : Minor => getDevname m := by
  decide

theorem getDevname_ne_markerName (m : Minor) : getDevname m ≠ markerName := by
  revert m
  decide

theorem createCDDProcdirEntry_fields (created : Bool) (name : List Char)
    (p : ProcState) :
    (createCDDProcdirEntry created name p).1 = created ∧
      (createCDDProcdirEntry created name p).2.topdirRefcount =
        p.topdirRefcount + 1 ∧
      (createCDDProcdirEntry created name p).2.markerEntry = p.markerEntry ∧
      (createCDDProcdirEntry created name p).2.procs = p.procs := by
  unfold createCDDProcdirEntry
  by_cases hzero : p.topdirRefcount = 0 <;> cases created <;> simp [hzero]

theorem removeCDDProcdirEntry_fields (name : List Char) (p : ProcState) :
    (removeCDDProcdirEntry name p).topdirRefcount = p.topdirRefcount - 1 ∧
      (removeCDDProcdirEntry name p).markerEntry = p.markerEntry ∧
      (removeCDDProcdirEntry name p).procs = p.procs := by
  unfold removeCDDProcdirEntry removeProcEntry
  by_cases hzero : p.topdirRefcount - 1 = 0 <;> simp [hzero]

theorem removeCDDProcdirEntry_held {name : List Char} {p : ProcState}
    (q : ProcPath → Bool)
    (hentry : 0 < p.entries.held fun r => r = .entry name)
    (htopdir : p.topdirRefcount = 1 →
      0 < p.entries.held fun r => r = .topdir) :
    (removeCDDProcdirEntry name p).entries.held q +
        (if q (.entry name) = true then 1 else 0) +
        (if p.topdirRefcount = 1 ∧ q .topdir = true then 1 else 0) =
      p.entries.held q := by
  have hremoved := Ledger.held_releaseFirst q () hentry
  unfold removeCDDProcdirEntry removeProcEntry
  by_cases hlast : p.topdirRefcount = 1
  · have hkept := Ledger.held_releaseFirst (fun r => r = .topdir) () hentry
    have hstill : 0 < (p.entries.releaseFirst (fun r => r = .entry name)
        ()).held fun r => r = .topdir := by
      have hpos := htopdir hlast
      simp only [reduceCtorEq, decide_false, Bool.false_eq_true, if_false,
        Nat.add_zero] at hkept
      omega
    have hdirectory := Ledger.held_releaseFirst q () hstill
    have hzero : p.topdirRefcount - 1 = 0 := by omega
    rw [if_pos hzero]
    simp only [hlast, true_and]
    omega
  · have hzero : ¬ p.topdirRefcount - 1 = 0 := by omega
    rw [if_neg hzero]
    simp only [hlast, false_and, if_false]
    omega

/-! ## The two calls -/

def ProcTree.count (t : ProcTree) (r : Minor → Bool) : Nat :=
  (Finset.univ.filter fun m => t.inited m = true ∧ r m = true).card

def ProcTree.size (t : ProcTree) : Nat := t.count fun _ => true

theorem ProcTree.count_init {t : ProcTree} {m : Minor} (p : ProcState)
    (r : Minor → Bool) (hm : t.inited m = false) :
    (ProcTree.mk p (Function.update t.inited m true)).count r =
      t.count r + if r m = true then 1 else 0 := by
  unfold ProcTree.count
  split
  next hr =>
    have hset : (Finset.univ.filter fun n =>
        Function.update t.inited m true n = true ∧ r n = true) =
        insert m (Finset.univ.filter fun n => t.inited n = true ∧ r n = true) := by
      ext n
      by_cases hn : n = m <;> simp [hn, hr]
    rw [hset, Finset.card_insert_of_notMem (by simp [hm])]
  next hr =>
    rw [Nat.add_zero]
    congr 1
    ext n
    by_cases hn : n = m <;> simp [hn, hr]

theorem ProcTree.count_exit {t : ProcTree} {m : Minor} (p : ProcState)
    (r : Minor → Bool) (hm : t.inited m = true) :
    (ProcTree.mk p (Function.update t.inited m false)).count r +
      (if r m = true then 1 else 0) = t.count r := by
  have hback := ProcTree.count_init (t := ⟨p, Function.update t.inited m false⟩)
    t.proc r (Function.update_self m false t.inited)
  rw [← hback]
  simp only [Function.update_idem, ← hm, Function.update_eq_self]

theorem ProcTree.count_pos {t : ProcTree} {m : Minor} {r : Minor → Bool}
    (hm : t.inited m = true) (hr : r m = true) : 0 < t.count r :=
  Finset.card_pos.mpr ⟨m, by simp [hm, hr]⟩

theorem ProcTree.size_eq_zero {t : ProcTree} :
    t.size = 0 ↔ ∀ m, t.inited m = false := by
  simp [ProcTree.size, ProcTree.count, Finset.filter_eq_empty_iff]

section Calls

variable {e : ProcInitEnv} {m : Minor} {p : ProcState}

@[simp] theorem updateProc_fields (f : CDDproc → CDDproc) :
    (updateProc m f p).topdirRefcount = p.topdirRefcount ∧
      (updateProc m f p).markerEntry = p.markerEntry ∧
      (updateProc m f p).entries = p.entries :=
  ⟨rfl, rfl, rfl⟩

theorem cddProcInit_eof : (cddProcInit e m p).eof = p.eof := by
  have hcreate : ∀ created name (p : ProcState),
      (createCDDProcdirEntry created name p).2.eof = p.eof := by
    intro created name p
    unfold createCDDProcdirEntry
    by_cases hzero : p.topdirRefcount = 0 <;> cases created <;> simp [hzero]
  simp only [cddProcInit, cddProcLogMarkerInit]
  split <;> simp [updateProc, hcreate]

theorem topdirEntryCount_eq_zero :
    topdirEntryCount p = 0 ↔ p.topdirRefcount = 0 ∨ p.topdirRefcount = 1 := by
  unfold topdirEntryCount
  split <;> omega

theorem cddProcInit_first (hzero : p.topdirRefcount = 0) (q : ProcPath → Bool) :
    (cddProcInit e m p).topdirRefcount = 2 ∧
      (cddProcInit e m p).markerEntry = e.markerCreated ∧
      (cddProcInit e m p).entries.held q =
        p.entries.held q + (if q .topdir = true then 1 else 0) +
        (if e.markerCreated = true ∧ q (.entry markerName) = true then 1 else 0) +
        (if e.entryCreated = true ∧ q (.entry (getDevname m)) = true then 1
          else 0) := by
  cases hmarker : e.markerCreated <;> cases hentry : e.entryCreated <;>
    simp [cddProcInit, updateProc, cddProcLogMarkerInit, createCDDProcdirEntry,
      topdirEntryCount, hzero, hmarker, hentry]

theorem cddProcInit_next (hone : 1 < p.topdirRefcount) (q : ProcPath → Bool) :
    (cddProcInit e m p).topdirRefcount = p.topdirRefcount + 1 ∧
      (cddProcInit e m p).markerEntry = p.markerEntry ∧
      (cddProcInit e m p).entries.held q =
        p.entries.held q +
        (if e.entryCreated = true ∧ q (.entry (getDevname m)) = true then 1
          else 0) := by
  have hzero : p.topdirRefcount ≠ 0 := by omega
  have hcount : p.topdirRefcount - 1 ≠ 0 := by omega
  cases hentry : e.entryCreated <;>
    simp [cddProcInit, updateProc, createCDDProcdirEntry, topdirEntryCount,
      hzero, hcount, hentry]

theorem cddProcInit_procs (n : Minor) :
    ((cddProcInit e m p).procs n).procEntry =
        (if n = m then e.entryCreated else (p.procs n).procEntry) ∧
      ((cddProcInit e m p).procs n).procname =
        (if n = m then getDevname m else (p.procs n).procname) ∧
      ((cddProcInit e m p).procs n).minor =
        (if n = m then m else (p.procs n).minor) := by
  have hcreate := fun created name p =>
    (createCDDProcdirEntry_fields created name p).2.2.2
  have hcreated := fun created name p =>
    (createCDDProcdirEntry_fields created name p).1
  simp only [cddProcInit, cddProcLogMarkerInit]
  split <;> by_cases hn : n = m <;> simp [updateProc, hcreate, hcreated, hn]

structure SameTree (m : Minor) (p u : ProcState) : Prop where
  refcount : u.topdirRefcount = p.topdirRefcount
  markerEntry : u.markerEntry = p.markerEntry
  entries : u.entries = p.entries
  procEntry : (u.procs m).procEntry = (p.procs m).procEntry
  procname : (u.procs m).procname = (p.procs m).procname
  others : ∀ n, n ≠ m → u.procs n = p.procs n

theorem cddProcExit_eq (m : Minor) (p : ProcState) :
    ∃ u, SameTree m p u ∧ cddProcExit m p =
      let v := if topdirEntryCount u = 1 then cddProcLogMarkerExit u else u
      if (v.procs m).procEntry then
        updateProc m (fun r => { r with procEntry := false })
          (removeCDDProcdirEntry (v.procs m).procname v)
      else v := by
  refine ⟨updateProc m (fun r => { r with procvalue := none })
    (vfreeValue (p.procs m).procvalue p), ?_, rfl⟩
  cases hvalue : (p.procs m).procvalue <;>
    constructor <;> simp +contextual [updateProc, vfreeValue]

theorem cddProcExit_last (htwo : p.topdirRefcount = 2)
    (hmarker : p.markerEntry = true) (hentry : (p.procs m).procEntry = true)
    (hname : (p.procs m).procname = getDevname m)
    (hmarked : 0 < p.entries.held fun r => r = .entry markerName)
    (hheld : 0 < p.entries.held fun r => r = .entry (getDevname m))
    (htopdir : 0 < p.entries.held fun r => r = .topdir) (q : ProcPath → Bool) :
    (cddProcExit m p).topdirRefcount = 0 ∧
      (cddProcExit m p).entries.held q +
        (if q (.entry markerName) = true then 1 else 0) +
        (if q (.entry (getDevname m)) = true then 1 else 0) +
        (if q .topdir = true then 1 else 0) = p.entries.held q := by
  obtain ⟨u, hu, hexit⟩ := cddProcExit_eq m p
  have htwo' : u.topdirRefcount = 2 := hu.refcount.trans htwo
  have hcount : topdirEntryCount u = 1 := by simp [topdirEntryCount, htwo']
  have hlog : cddProcLogMarkerExit u = removeCDDProcdirEntry markerName u := by
    rw [cddProcLogMarkerExit, hu.markerEntry, hmarker, if_pos rfl]
  simp only [hcount, if_true, hlog] at hexit
  obtain ⟨hrefcount, -, hprocs⟩ := removeCDDProcdirEntry_fields markerName u
  simp only [hprocs, hu.procEntry, hu.procname, hentry, hname, if_true] at hexit
  have hgone := fun q => removeCDDProcdirEntry_held (p := u) q
    (hu.entries ▸ hmarked) (by omega)
  generalize removeCDDProcdirEntry markerName u = v at hexit hrefcount hgone
  have hone : v.topdirRefcount = 1 := by omega
  have hname' := getDevname_ne_markerName m
  have hheld' : 0 < v.entries.held fun r => r = .entry (getDevname m) := by
    have hkept := hgone fun r => r = .entry (getDevname m)
    simp [htwo', hu.entries, hname'.symm] at hkept
    omega
  have htopdir' : 0 < v.entries.held fun r => r = .topdir := by
    have hkept := hgone fun r => r = .topdir
    simp [htwo', hu.entries] at hkept
    omega
  obtain ⟨hlast, -⟩ := removeCDDProcdirEntry_fields (getDevname m) v
  have hrest := removeCDDProcdirEntry_held (p := v) q hheld' fun _ => htopdir'
  have hfirst := hgone q
  simp only [htwo', hone, true_and, hu.entries] at hrest hfirst
  rw [hexit]
  simp only [updateProc_fields]
  refine ⟨by omega, ?_⟩
  simp only [show ¬ (2 : Int) = 1 by decide, false_and, if_false] at hfirst
  omega

theorem cddProcExit_more (hmore : 2 < p.topdirRefcount)
    (hentry : (p.procs m).procEntry = true)
    (hname : (p.procs m).procname = getDevname m)
    (hheld : 0 < p.entries.held fun r => r = .entry (getDevname m))
    (q : ProcPath → Bool) :
    (cddProcExit m p).topdirRefcount = p.topdirRefcount - 1 ∧
      (cddProcExit m p).markerEntry = p.markerEntry ∧
      (cddProcExit m p).entries.held q +
        (if q (.entry (getDevname m)) = true then 1 else 0) =
      p.entries.held q := by
  obtain ⟨u, hu, hexit⟩ := cddProcExit_eq m p
  have hcount : ¬ topdirEntryCount u = 1 := by
    unfold topdirEntryCount
    rw [hu.refcount]
    split <;> omega
  simp only [hcount, if_false, hu.procEntry, hu.procname, hentry, hname,
    if_true] at hexit
  obtain ⟨hrefcount, hmarker, -⟩ := removeCDDProcdirEntry_fields (getDevname m) u
  have hgone := removeCDDProcdirEntry_held (p := u) q (hu.entries ▸ hheld)
    (by rw [hu.refcount]; omega)
  have hmany : ¬ u.topdirRefcount = 1 := by rw [hu.refcount]; omega
  simp only [hmany, false_and, if_false, Nat.add_zero, hu.entries] at hgone
  rw [hexit]
  simp only [updateProc_fields]
  exact ⟨hrefcount.trans (by rw [hu.refcount]), hmarker.trans hu.markerEntry,
    hgone⟩

theorem cddProcExit_procs {n : Minor} (hn : n ≠ m) :
    (cddProcExit m p).procs n = p.procs n := by
  obtain ⟨u, hu, hexit⟩ := cddProcExit_eq m p
  have hlog : (cddProcLogMarkerExit u).procs = u.procs := by
    unfold cddProcLogMarkerExit
    split
    · exact (removeCDDProcdirEntry_fields markerName u).2.2
    · rfl
  have hremove := fun name p => (removeCDDProcdirEntry_fields name p).2.2
  have hmiddle : ((if topdirEntryCount u = 1 then cddProcLogMarkerExit u
      else u).procs) = u.procs := by
    split
    · exact hlog
    · rfl
  rw [hexit]
  dsimp only
  generalize (if topdirEntryCount u = 1 then cddProcLogMarkerExit u else u) = v
    at hmiddle ⊢
  split <;> simp [updateProc, hn, hremove, hmiddle, hu.others n hn]

end Calls

/-! ## Runs -/

/-- The tree as long as every creation has succeeded: the directory, the
marker and one entry for each device that is initialised. -/
structure TreeInv (t : ProcTree) : Prop where
  refcount : t.proc.topdirRefcount = if t.size = 0 then 0 else (t.size + 1 : Int)
  held : ∀ q : ProcPath → Bool, q .myps = false → t.proc.entries.held q =
    t.count (fun m => q (.entry (getDevname m))) +
      if t.size = 0 then 0
      else (if q .topdir = true then 1 else 0) +
        if q (.entry markerName) = true then 1 else 0
  markerEntry : t.size ≠ 0 → t.proc.markerEntry = true
  procEntry : ∀ m, t.inited m = true → (t.proc.procs m).procEntry = true
  procname : ∀ m, t.inited m = true → (t.proc.procs m).procname = getDevname m

section Runs

variable {t t' : ProcTree} {m : Minor} {e : ProcInitEnv}

theorem TreeInv.held_isEntry (h : TreeInv t) :
    t.proc.entries.held ProcPath.isEntry = if t.size = 0 then 0 else t.size + 1 := by
  have hheld := h.held ProcPath.isEntry rfl
  simp only [ProcPath.isEntry] at hheld
  change _ = t.size + _ at hheld
  split at hheld <;> simp_all

theorem TreeInv.held_topdir (h : TreeInv t) :
    (t.proc.entries.held fun q => q = .topdir) = if t.size = 0 then 0 else 1 := by
  have hheld := h.held (fun q => q = .topdir) rfl
  simpa [ProcTree.count] using hheld

theorem TreeInv.held_marker (h : TreeInv t) :
    (t.proc.entries.held fun q => q = .entry markerName) =
      if t.size = 0 then 0 else 1 := by
  have hheld := h.held (fun q => q = .entry markerName) rfl
  simpa [ProcTree.count, getDevname_ne_markerName] using hheld

theorem TreeInv.held_device (h : TreeInv t) (hm : t.inited m = true) :
    0 < t.proc.entries.held fun q => q = .entry (getDevname m) := by
  have hheld := h.held (fun q => q = .entry (getDevname m)) rfl
  have hpos : 0 < t.count fun n =>
      decide (ProcPath.entry (getDevname n) = .entry (getDevname m)) :=
    ProcTree.count_pos hm (by simp)
  omega

theorem TreeInv.consistent (h : TreeInv t) : TreeConsistent t := by
  have hrefcount := h.refcount
  have hentries := h.held_isEntry
  have htopdir := h.held_topdir
  have hmarker := h.held_marker
  constructor
  · rw [hrefcount, hentries]
    split <;> simp
  · rw [hentries, htopdir]
    split <;> simp
  · split at hmarker <;> omega
  · intro hnone
    have hzero := ProcTree.size_eq_zero.mpr hnone
    rw [if_pos hzero] at hentries htopdir
    exact ⟨hentries, htopdir⟩

theorem treeInv_start (b : Bool) : TreeInv (ProcTree.start b) := by
  have hcount : ∀ r, (ProcTree.start b).count r = 0 := by
    intro r
    simp [ProcTree.count, ProcTree.start]
  have hsize : (ProcTree.start b).size = 0 := hcount _
  refine ⟨?_, ?_, fun h => absurd hsize h, fun _ hm => ?_, fun _ hm => ?_⟩
  · cases b <;> rw [if_pos hsize] <;> rfl
  · intro q hq
    rw [hcount, if_pos hsize]
    cases b
    · rfl
    · simp [ProcTree.start, cddProcSeqInit, ProcState.zero, hq]
  · cases hm
  · cases hm

theorem TreeInv.records_init (h : TreeInv t) (hentry : e.entryCreated = true)
    {n : Minor} (hn : Function.update t.inited m true n = true) :
    ((cddProcInit e m t.proc).procs n).procEntry = true ∧
      ((cddProcInit e m t.proc).procs n).procname = getDevname n := by
  have hprocs := cddProcInit_procs (e := e) (m := m) (p := t.proc) n
  by_cases hnm : n = m
  · rw [if_pos hnm, if_pos hnm] at hprocs
    exact ⟨hprocs.1.trans hentry, hnm ▸ hprocs.2.1⟩
  · rw [if_neg hnm, if_neg hnm] at hprocs
    rw [Function.update_of_ne hnm] at hn
    exact ⟨hprocs.1.trans (h.procEntry n hn), hprocs.2.1.trans (h.procname n hn)⟩

theorem TreeInv.init (h : TreeInv t) (hm : t.inited m = false)
    (hentry : e.entryCreated = true)
    (hmarker : topdirEntryCount t.proc = 0 → e.markerCreated = true) :
    TreeInv ⟨cddProcInit e m t.proc, Function.update t.inited m true⟩ := by
  have hcount := fun r => ProcTree.count_init (cddProcInit e m t.proc) r hm
  have hsize : (ProcTree.mk (cddProcInit e m t.proc)
      (Function.update t.inited m true)).size = t.size + 1 := hcount _
  have hpos : t.size + 1 ≠ 0 := by omega
  have hrefcount := h.refcount
  by_cases hzero : t.size = 0
  · rw [if_pos hzero] at hrefcount
    have hcreated := hmarker (topdirEntryCount_eq_zero.mpr (.inl hrefcount))
    have hfirst := fun q => cddProcInit_first (e := e) (m := m) hrefcount q
    refine ⟨?_, ?_, fun _ => (hfirst fun _ => true).2.1.trans hcreated,
      fun n hn => (h.records_init hentry hn).1,
      fun n hn => (h.records_init hentry hn).2⟩
    · rw [hsize, if_neg hpos, (hfirst fun _ => true).1]
      omega
    · intro q hq
      have hheld := h.held q hq
      rw [if_pos hzero] at hheld
      rw [(hfirst q).2.2, hcount, hsize, if_neg hpos, hheld]
      simp only [hcreated, hentry, true_and]
      omega
  · rw [if_neg hzero] at hrefcount
    have hone : 1 < t.proc.topdirRefcount := by omega
    have hnext := fun q => cddProcInit_next (e := e) (m := m) hone q
    refine ⟨?_, ?_, fun _ => (hnext fun _ => true).2.1.trans (h.markerEntry hzero),
      fun n hn => (h.records_init hentry hn).1,
      fun n hn => (h.records_init hentry hn).2⟩
    · rw [hsize, if_neg hpos, (hnext fun _ => true).1]
      omega
    · intro q hq
      have hheld := h.held q hq
      rw [if_neg hzero] at hheld
      rw [(hnext q).2.2, hcount, hsize, if_neg hpos, hheld]
      simp only [hentry, true_and]
      omega

/-- After a failed creation the reference count is above the entries. -/
theorem TreeInv.creations_of_consistent (h : TreeInv t)
    (hconsistent : TreeConsistent
      ⟨cddProcInit e m t.proc, Function.update t.inited m true⟩) :
    e.entryCreated = true ∧
      (topdirEntryCount t.proc = 0 → e.markerCreated = true) := by
  have hrefcount := h.refcount
  have hentries := h.held_isEntry
  have hagree := hconsistent.refcount
  by_cases hzero : t.size = 0
  · rw [if_pos hzero] at hrefcount hentries
    obtain ⟨htwo, -, hheld⟩ :=
      cddProcInit_first (e := e) (m := m) hrefcount ProcPath.isEntry
    rw [htwo, hheld, hentries] at hagree
    cases hmarker : e.markerCreated <;> cases hentry : e.entryCreated <;>
      simp_all [ProcPath.isEntry]
  · rw [if_neg hzero] at hrefcount hentries
    have hone : 1 < t.proc.topdirRefcount := by omega
    obtain ⟨hmore, -, hheld⟩ :=
      cddProcInit_next (e := e) (m := m) hone ProcPath.isEntry
    have hcount : topdirEntryCount t.proc ≠ 0 := by
      rw [Ne, topdirEntryCount_eq_zero]
      omega
    refine ⟨?_, fun hc => absurd hc hcount⟩
    rw [hmore, hheld, hentries, hrefcount] at hagree
    cases hentry : e.entryCreated
    · simp only [hentry, Bool.false_eq_true, false_and, if_false] at hagree
      omega
    · rfl

theorem TreeInv.records_exit (h : TreeInv t) {n : Minor}
    (hn : Function.update t.inited m false n = true) :
    ((cddProcExit m t.proc).procs n).procEntry = true ∧
      ((cddProcExit m t.proc).procs n).procname = getDevname n := by
  have hnm : n ≠ m := by
    rintro rfl
    simp at hn
  have hin : t.inited n = true := by simpa [hnm] using hn
  rw [cddProcExit_procs hnm]
  exact ⟨h.procEntry n hin, h.procname n hin⟩

theorem TreeInv.exit (h : TreeInv t) (hm : t.inited m = true) :
    TreeInv ⟨cddProcExit m t.proc, Function.update t.inited m false⟩ := by
  have hcount := fun r => ProcTree.count_exit (cddProcExit m t.proc) r hm
  have hsize : (ProcTree.mk (cddProcExit m t.proc)
      (Function.update t.inited m false)).size + 1 = t.size := hcount _
  have hrefcount := h.refcount
  have hsome : t.size ≠ 0 := by omega
  rw [if_neg hsome] at hrefcount
  have hdevice := h.held_device hm
  have hheld := fun q hq => (h.held q hq).trans (by rw [if_neg hsome])
  have hrecords := fun n hn => h.records_exit (m := m) (n := n) hn
  by_cases hone : t.size = 1
  · have hmarked := h.held_marker
    have htopdir := h.held_topdir
    rw [if_neg hsome] at hmarked htopdir
    have hlast := cddProcExit_last (m := m) (by omega) (h.markerEntry hsome)
      (h.procEntry m hm) (h.procname m hm) (by omega) hdevice (by omega)
    refine ⟨?_, ?_, fun hsize' => by omega, fun n hn => (hrecords n hn).1,
      fun n hn => (hrecords n hn).2⟩
    · rw [if_pos (by omega), (hlast fun _ => true).1]
    · intro q hq
      have hbefore := hheld q hq
      have hgone := (hlast q).2
      have hless := hcount fun n => q (.entry (getDevname n))
      rw [if_pos (by omega)]
      dsimp only at hgone hless ⊢
      omega
  · have hmore := cddProcExit_more (m := m) (by omega) (h.procEntry m hm)
      (h.procname m hm) hdevice
    refine ⟨?_, ?_, fun _ => (hmore fun _ => true).2.1.trans
      (h.markerEntry hsome), fun n hn => (hrecords n hn).1,
      fun n hn => (hrecords n hn).2⟩
    · rw [if_neg (by omega), (hmore fun _ => true).1]
      omega
    · intro q hq
      have hbefore := hheld q hq
      have hgone := (hmore q).2.2
      have hless := hcount fun n => q (.entry (getDevname n))
      rw [if_neg (by omega)]
      dsimp only at hgone hless ⊢
      omega

theorem TreeInv.step {c : ProcCall} {u : Unit} (h : TreeInv t)
    (hstep : procTree.step t c = some (t', u)) :
    (TreeConsistent t' → CreationsSucceed t c u t') ∧
      (CreationsSucceed t c u t' → TreeInv t') := by
  cases c with
  | init m e =>
      simp only [procTree, ProcTree.step] at hstep
      cases hm : t.inited m with
      | true => simp [hm] at hstep
      | false =>
          obtain ⟨rfl, -⟩ := by simpa [hm] using hstep
          constructor
          · intro hconsistent
            rintro m' e' ⟨⟩
            exact h.creations_of_consistent hconsistent
          · intro hcreated
            obtain ⟨hentry, hmarker⟩ := hcreated m e rfl
            exact h.init hm hentry hmarker
  | exit m =>
      simp only [procTree, ProcTree.step] at hstep
      cases hm : t.inited m with
      | false => simp [hm] at hstep
      | true =>
          obtain ⟨rfl, -⟩ := by simpa [hm] using hstep
          exact ⟨fun _ _ _ hc => (by cases hc), fun _ => h.exit hm⟩

end Runs

/-- The tree is consistent after every call of a run exactly when every
`proc_create` of the run succeeds. -/
theorem treeConsistent_iff_creationsSucceed (mypsCreated : Bool)
    (cs : List ProcCall) :
    procTree.EveryState TreeConsistent (ProcTree.start mypsCreated) cs ↔
      procTree.EveryStep CreationsSucceed (ProcTree.start mypsCreated) cs :=
  Machine.everyState_iff_everyStep_of TreeInv.consistent TreeInv.step
    (treeInv_start mypsCreated)

/-- An initialisation whose entry cannot be created leaves a count of two over
one entry, and after the exit the directory stays. -/
theorem not_treeConsistent_creation_failed :
    ∃ t, procTree.exec (ProcTree.start true)
        [.init 0 ⟨true, false, fun _ => '\x00'⟩, .exit 0] = some t ∧
      t.proc.topdirRefcount = 1 ∧
      t.proc.entries.held ProcPath.isEntry = 0 ∧
      t.proc.entries.held (fun q => q = .topdir) = 1 ∧ ¬ TreeConsistent t := by
  have hrun : ((procTree.exec (ProcTree.start true)
      [.init 0 ⟨true, false, fun _ => '\x00'⟩, .exit 0]).map fun t =>
      (t.proc.topdirRefcount, t.proc.entries.held ProcPath.isEntry,
        t.proc.entries.held (fun q => q = .topdir))) = some (1, 0, 1) := by decide
  obtain ⟨t, hexec, heq⟩ := Option.map_eq_some_iff.mp hrun
  simp only [Prod.mk.injEq] at heq
  obtain ⟨hrefcount, hentries, htopdir⟩ := heq
  refine ⟨t, hexec, hrefcount, hentries, htopdir, fun hconsistent => ?_⟩
  have hagree := hconsistent.refcount
  rw [hrefcount, hentries] at hagree
  exact absurd hagree (by decide)

end CddDriver
