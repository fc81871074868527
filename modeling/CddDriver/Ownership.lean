import CddDriver.Unload
import Mathlib.Data.Fintype.Basic
import Mathlib.Tactic.Common
import Mathlib.Tactic.FinCases
/-!
# Ownership of the data buffers

`CDD_open` allocates each time it is called, so a run loses a buffer exactly
when an open finds one.  And `free_storage` picks the deallocator by
`alloc_type`, which no function ever moves away from `vmalloc`, so it matches
the allocation of minor number 0 only.
-/

namespace CddDriver

open Lib

/-! ## No leak and no double free -/

def LiveIsCurrent (w : World) : Prop :=
  ∀ (p : Nat) x, w.heap[p]? = some x → x.releases = [] →
    ∃ m : Minor, x.item.owner = m.val ∧ (w.cddDev m).cddStorage = some p

/-- No buffer is lost, now or by an unload in this state. -/
def NoLeak (w : World) : Prop :=
  LiveIsCurrent w ∧ (cddExit w).heap.ReleasedOnce

/-- An open that gets the lock finds no buffer, and obtains one only for a
device that `CDD_exit` will recognise as live. -/
def OpensOnce (y : System) (c : Call) (_ : Reply) (_ : System) : Prop :=
  ∀ f m fFlags fresh, c = .openFile f m fFlags true fresh →
    (y.world.cddDev m).cddStorage = none ∧
      (fresh ≠ none → (y.world.cddDev m).devno ≠ 0)

theorem WorldInv.live {w : World} (h : WorldInv w) {p : Nat}
    {x : Entry Buffer Deallocator} (hx : w.heap[p]? = some x) :
    x.releases = [] := by
  have hmem : entryShape x ∈ heapShape w.heap :=
    List.mem_map_of_mem (List.mem_of_getElem? hx)
  exact (h.owned _ hmem).2

theorem WorldInv.owner_eq {w : World} (h : WorldInv w) {m : Minor} {p : Nat}
    {x : Entry Buffer Deallocator} (hp : (w.cddDev m).cddStorage = some p)
    (hx : w.heap[p]? = some x) : x.item.owner = m.val := by
  have hshape := ((h.device m).storage p hp).2
  rw [heapShape_getElem?] at hshape
  obtain ⟨x', hx', heq⟩ := Option.map_eq_some_iff.mp hshape
  obtain rfl : x' = x := Option.some.inj (hx'.symm.trans hx)
  exact congrArg Prod.fst heq

theorem WorldInv.storage_inj {w : World} (h : WorldInv w) {m k : Minor}
    {p : Nat} (hm : (w.cddDev m).cddStorage = some p)
    (hk : (w.cddDev k).cddStorage = some p) : m = k := by
  obtain ⟨x, hx, -⟩ := (h.device m).storage_entry hm
  apply Fin.ext
  rw [← h.owner_eq hm hx, h.owner_eq hk hx]

theorem filterMap_eq_toList {α β : Type} {f : α → Option β} {is : List α} {m : α}
    (hnodup : is.Nodup) (hm : m ∈ is) (hother : ∀ k, k ≠ m → f k = none) :
    is.filterMap f = (f m).toList := by
  obtain ⟨l, r, rfl⟩ := List.append_of_mem hm
  have hparts := List.nodup_middle.mp hnodup
  have hnot : m ∉ l ++ r := (List.nodup_cons.mp hparts).1
  have hnil : ∀ js : List α, (∀ j ∈ js, j ∈ l ++ r) → js.filterMap f = [] := by
    intro js hjs
    apply List.filterMap_eq_nil_iff.mpr
    intro j hj
    exact hother j fun heq => hnot (heq ▸ hjs j hj)
  have hl : l.filterMap f = [] := hnil l fun j hj => List.mem_append_left r hj
  have hr : r.filterMap f = [] := hnil r fun j hj => List.mem_append_right l hj
  rw [List.filterMap_append, hl, List.nil_append]
  cases hf : f m with
  | none => rw [List.filterMap_cons_none hf, hr, Option.toList_none]
  | some b => rw [List.filterMap_cons_some hf, hr, Option.toList_some]

/-- The deallocators that `CDD_exit` passes the buffer of device `m` to. -/
theorem filterMap_exitFrees {w : World} (h : WorldInv w) {m : Minor} {p : Nat}
    (hp : (w.cddDev m).cddStorage = some p) :
    minors.filterMap (exitFrees w p) =
      if (w.cddDev m).devno ≠ 0 then [storageRelease (w.cddDev m)] else [] := by
  have hother : ∀ k, k ≠ m → exitFrees w p k = none := by
    intro k hk
    apply if_neg
    rintro ⟨-, hk'⟩
    exact hk (h.storage_inj hk' hp)
  have hnodup : minors.Nodup := by decide
  have hmem : m ∈ minors := List.mem_finRange m
  rw [filterMap_eq_toList hnodup hmem hother]
  by_cases hdev : (w.cddDev m).devno = 0 <;> simp [exitFrees, hp, hdev]

theorem releasedOnce_cddExit_iff {w : World} (h : WorldInv w)
    (hcurrent : LiveIsCurrent w) :
    (cddExit w).heap.ReleasedOnce ↔
      ∀ m, (w.cddDev m).cddStorage ≠ none → (w.cddDev m).devno ≠ 0 := by
  constructor
  · intro hreleased m hstorage hdev
    obtain ⟨p, hp⟩ := Option.ne_none_iff_exists'.mp hstorage
    obtain ⟨x, hx, -, hrel⟩ := (h.device m).storage_entry hp
    have hexit := cddExit_heap w p
    have hx' : w.heap[p]? = some x := hx
    rw [hx', filterMap_exitFrees h hp, if_neg (not_not.mpr hdev)] at hexit
    have hone := hreleased _ (List.mem_of_getElem? hexit)
    simp [hrel] at hone
  · intro hdev y hy
    obtain ⟨p, hp⟩ := List.mem_iff_getElem?.mp hy
    rw [cddExit_heap] at hp
    obtain ⟨x, hx, rfl⟩ := Option.map_eq_some_iff.mp hp
    have hrel := h.live hx
    obtain ⟨m, -, hm⟩ := hcurrent p x hx hrel
    have hne : (w.cddDev m).devno ≠ 0 := hdev m (by simp [hm])
    simp [hrel, filterMap_exitFrees h hm, hne]

theorem noLeak_iff {w : World} (h : WorldInv w) :
    NoLeak w ↔ LiveIsCurrent w ∧
      ∀ m, (w.cddDev m).cddStorage ≠ none → (w.cddDev m).devno ≠ 0 :=
  and_congr_right fun hcurrent => releasedOnce_cddExit_iff h hcurrent

theorem liveIsCurrent_iff {w : World} (h : WorldInv w) :
    LiveIsCurrent w ↔
      ∀ p < w.heap.length, ∃ m, (w.cddDev m).cddStorage = some p := by
  constructor
  · intro hcurrent p hp
    have hx : w.heap[p]? = some w.heap[p] := List.getElem?_eq_getElem hp
    obtain ⟨m, -, hm⟩ := hcurrent p _ hx (h.live hx)
    exact ⟨m, hm⟩
  · intro hall p x hx _
    obtain ⟨m, hm⟩ := hall p (List.getElem?_eq_some_iff.mp hx).1
    exact ⟨m, h.owner_eq hm hx, hm⟩

theorem noLeak_setDevState_same {w : World} {m : Minor} {s : DevState}
    (h : WorldInv w) (hw : WorldInv (w.setDevState m s)) (hleak : NoLeak w)
    (hdevno : s.dev.devno = (w.cddDev m).devno)
    (hstorage : s.dev.cddStorage = (w.cddDev m).cddStorage)
    (hlen : s.heap.length = w.heap.length) : NoLeak (w.setDevState m s) := by
  rw [noLeak_iff h, liveIsCurrent_iff h] at hleak
  rw [noLeak_iff hw, liveIsCurrent_iff hw]
  have hsame : ∀ k, ((w.setDevState m s).cddDev k).cddStorage =
      (w.cddDev k).cddStorage ∧
      ((w.setDevState m s).cddDev k).devno = (w.cddDev k).devno := by
    intro k
    by_cases hk : k = m
    · subst hk
      simp [World.setDevState, hstorage, hdevno]
    · rw [w.cddDev_setDevState_ne s hk]
      exact ⟨rfl, rfl⟩
  refine ⟨?_, ?_⟩
  · intro p hp
    have hp' : p < s.heap.length := hp
    obtain ⟨k, hk⟩ := hleak.1 p (by omega)
    exact ⟨k, by rw [(hsame k).1, hk]⟩
  · intro k
    rw [(hsame k).1, (hsame k).2]
    exact hleak.2 k

theorem openBody_index {m : Minor} {fFlags : Nat} {s s' : DevState}
    {fresh : Option (Nat → Byte)} {status : OpenStatus}
    (hm : minorOf s.dev.devno = m)
    (hopen : openBody fresh fFlags s = some (s', status)) {p : Nat}
    (hp : p < s'.heap.length) :
    p < s.heap.length ∨ s'.dev.cddStorage = some p := by
  rcases openBody_buffer hm hopen with ⟨-, -, hheap⟩ | ⟨-, hsome, hlen⟩
  · left
    rwa [hheap] at hp
  · by_cases hlast : p = s.heap.length
    · right
      rw [hsome, hlast]
    · left
      omega

/-- An open after which every buffer is that of a device has found none on its
own device: it would have left that one behind. -/
theorem storage_eq_none_of_current {w : World} {m : Minor} {s : DevState}
    {fFlags : Nat} {fresh : Option (Nat → Byte)} {status : OpenStatus}
    (h : WorldInv w)
    (hopen : openBody fresh fFlags (w.devState m) = some (s, status))
    (hcurrent : ∀ p < (w.setDevState m s).heap.length,
      ∃ k, ((w.setDevState m s).cddDev k).cddStorage = some p) :
    (w.cddDev m).cddStorage = none := by
  have hm := h.device m
  by_contra hstorage
  obtain ⟨p, hp⟩ := Option.ne_none_iff_exists'.mp hstorage
  obtain ⟨x, hx, -⟩ := hm.storage_entry hp
  have hlt : p < w.heap.length := (List.getElem?_eq_some_iff.mp hx).1
  have hkept := openBody_getElem? hm.minor_eq hopen hx
  obtain ⟨k, hk⟩ := hcurrent p (List.getElem?_eq_some_iff.mp hkept).1
  by_cases hkm : k = m
  · subst hkm
    have hself : ((w.setDevState k s).cddDev k) = s.dev := by
      simp [World.setDevState]
    rw [hself] at hk
    rcases openBody_buffer hm.minor_eq hopen with ⟨-, hnone, -⟩ | ⟨-, hsome, -⟩
    · rw [hnone] at hk
      cases hk
    · have hlen : w.heap.length = p := by
        rw [hsome] at hk
        exact Option.some.inj hk
      omega
  · rw [w.cddDev_setDevState_ne s hkm] at hk
    exact hkm (h.storage_inj hk hp)

/-- An open that got the lock loses no buffer exactly when it finds none, and
obtains one only for a device that an unload recognises. -/
theorem noLeak_openBody {w : World} {m : Minor} {s : DevState} {fFlags : Nat}
    {fresh : Option (Nat → Byte)} {status : OpenStatus} (h : WorldInv w)
    (hleak : NoLeak w)
    (hopen : openBody fresh fFlags (w.devState m) = some (s, status)) :
    NoLeak (w.setDevState m s) ↔
      (w.cddDev m).cddStorage = none ∧
        (fresh ≠ none → (w.cddDev m).devno ≠ 0) := by
  have hm := h.device m
  have hframe := openBody_frame hm.minor_eq hopen
  have hw := h.setDevState (hm.openBody hopen) hframe
  rw [noLeak_iff h, liveIsCurrent_iff h] at hleak
  rw [noLeak_iff hw, liveIsCurrent_iff hw]
  have hother : ∀ k, k ≠ m →
      (w.setDevState m s).cddDev k = w.cddDev k :=
    fun k hk => w.cddDev_setDevState_ne s hk
  have hself : (w.setDevState m s).cddDev m = s.dev := by
    simp [World.setDevState]
  have hdevno : s.dev.devno = (w.cddDev m).devno :=
    congrArg Prod.fst hframe.wiring_eq
  have hbuffer := openBody_buffer hm.minor_eq hopen
  constructor
  · rintro ⟨hcurrent, hlive⟩
    refine ⟨storage_eq_none_of_current h hopen hcurrent, fun hfresh => ?_⟩
    rcases hbuffer with ⟨hnone, -⟩ | ⟨-, hsome, -⟩
    · exact absurd hnone hfresh
    · have hne := hlive m (by simp [hself, hsome])
      rwa [hself, hdevno] at hne
  · rintro ⟨hstorage, hlive⟩
    have hkm : ∀ {k p}, (w.cddDev k).cddStorage = some p → k ≠ m := by
      rintro k p hk rfl
      rw [hstorage] at hk
      cases hk
    constructor
    · intro p hp
      rcases openBody_index hm.minor_eq hopen hp with hlt | hnew
      · obtain ⟨k, hk⟩ := hleak.1 p hlt
        exact ⟨k, by rw [hother k (hkm hk), hk]⟩
      · exact ⟨m, by rw [hself, hnew]⟩
    · intro k hk
      by_cases hkm : k = m
      · subst hkm
        rw [hself] at hk ⊢
        rw [hdevno]
        rcases hbuffer with ⟨-, hnone, -⟩ | ⟨hfresh, -⟩
        · exact absurd hnone hk
        · exact hlive hfresh
      · rw [hother k hkm] at hk ⊢
        exact hleak.2 k hk

theorem heap_length_of_shape {h h' : Heap} (hshape : heapShape h' = heapShape h) :
    h'.length = h.length := by
  have hlen := congrArg List.length hshape
  simpa [heapShape] using hlen

theorem noLeak_effect {y : System} {c : Call} {o : Reply} {w : World} (z : System)
    (h : WorldInv y.world) (hleak : NoLeak y.world) (heff : Effect y c o w) :
    NoLeak w ↔ OpensOnce y c o z := by
  have hw := h.effect heff
  cases heff with
  | @opened f m fFlags fresh s _ hopen =>
      rw [noLeak_openBody h hleak hopen]
      constructor
      · intro hstep f k fFlags fresh hc
        simp only [Call.openFile.injEq] at hc
        obtain ⟨-, rfl, -, -, rfl⟩ := hc
        exact hstep
      · intro hstep
        exact hstep f m fFlags fresh rfl
  | @resumed _ m _ _ _ _ hrest =>
      refine iff_of_true ?_ (fun _ _ _ _ hc => by cases hc)
      have hwiring := (openRest_frame (m := m) hrest).wiring_eq
      exact noLeak_setDevState_same h hw hleak (congrArg Prod.fst hwiring)
        (openRest_storage hrest).1
        (heap_length_of_shape (openRest_heapShape hrest))
  | @written _ m _ _ _ _ _ _ _ hrange hwrite =>
      refine iff_of_true ?_ (fun _ _ _ _ hc => by cases hc)
      have hcount := vfsRange_count hrange
      have hwiring := (writeBody_frame (m := m) hcount hwrite).wiring_eq
      exact noLeak_setDevState_same h hw hleak (congrArg Prod.fst hwiring)
        (writeBody_storage hcount hwrite).1
        (heap_length_of_shape (writeBody_heapShape hcount hwrite))
  | _ => exact iff_of_true hleak (fun _ _ _ _ hc => by cases hc)

/-- No state of a run has lost a buffer exactly when each open of the run that
gets the lock finds its device without one, and obtains one only for a device
that `CDD_exit` recognises as live. -/
theorem everyState_noLeak_iff {e : InitEnv} (h : (cddInit e).1 = 0)
    (cs : List Call) :
    driver.EveryState (fun y => NoLeak y.world) (loaded e) cs ↔
      driver.EveryStep OpensOnce (loaded e) cs := by
  refine Machine.everyState_iff_everyStep (I := fun y => WorldInv y.world)
    WorldInv.step ?_ (worldInv_loaded h) ?_
  · intro y c z o hinv hleak hstep
    exact noLeak_effect z hinv hleak (effect_of_step hstep)
  · have hheap : (loaded e).world.heap = [] := loaded_heap h
    rw [noLeak_iff (worldInv_loaded h), liveIsCurrent_iff (worldInv_loaded h)]
    constructor
    · intro p hp
      rw [hheap] at hp
      cases hp
    · intro m hstorage
      exact absurd (congrArg CDDdev.cddStorage (loaded_cddDev h m)) hstorage

theorem everyState_noLeak_one_open :
    driver.EveryState (fun y => NoLeak y.world) (loaded undisturbed)
        [.openFile 0 0 oWronly true (some fun _ => 0)] ↔
      driver.EveryStep OpensOnce (loaded undisturbed)
        [.openFile 0 0 oWronly true (some fun _ => 0)] :=
  everyState_noLeak_iff cddInit_undisturbed _

/-- After two successful opens of one device the first buffer is still live,
but nothing points to it. -/
theorem not_everyState_noLeak_reopen :
    (cddInit undisturbed).1 = 0 ∧
      ¬ driver.EveryState (fun y => NoLeak y.world) (loaded undisturbed)
        [.openFile 0 0 oWronly true (some fun _ => 0),
          .openFile 1 0 oWronly true (some fun _ => 0)] := by
  refine ⟨cddInit_undisturbed, fun hall => ?_⟩
  have hreleases : (driver.exec (loaded undisturbed)
      [.openFile 0 0 oWronly true (some fun _ => 0),
        .openFile 1 0 oWronly true (some fun _ => 0)]).map
      (fun y => (cddExit y.world).heap.map Entry.releases) =
        some [[], [.vfree]] := by decide
  obtain ⟨y, hy, heq⟩ := Option.map_eq_some_iff.mp hreleases
  have honce := (hall.last (Machine.run_of_exec hy)).2
  have hmem : ([] : List Deallocator) ∈
      (cddExit y.world).heap.map Entry.releases := by simp [heq]
  obtain ⟨x, hx, hnil⟩ := List.mem_map.mp hmem
  have hone := honce x hx
  rw [hnil] at hone
  cases hone

/-! ## Allocator and deallocator -/

/-- `free_storage` would give the buffer of the device back by the counterpart
of the call that returned it. -/
def ReleaseMatches (s : DevState) : Prop :=
  ∀ (p : Nat) x, s.dev.cddStorage = some p → s.heap[p]? = some x →
    storageRelease s.dev = x.item.source.counterpart

def OpensVmallocOnly (_ : System) (c : Call) (_ : Reply) (_ : System) : Prop :=
  ∀ f m fFlags data, c = .openFile f m fFlags true (some data) → m = 0

theorem storageRelease_eq {major : Nat} {m : Minor} {s : DevState}
    (h : DeviceInv major m s) : storageRelease s.dev = .vfree := by
  have htype : s.dev.allocType = .vmalloc := congrArg (fun x => x.2.1) h.wired
  simp [storageRelease, htype]

theorem deviceAllocator_counterpart (d : CDDdev) (m : Minor) :
    (deviceAllocator d m).counterpart = .vfree ↔ m = 0 := by
  fin_cases m <;> simp [deviceAllocator, getStorageType, cddMinor,
    StorageType.ofNat?, storageCall, Allocator.counterpart]

theorem releaseMatches_iff {major : Nat} {m : Minor} {s : DevState}
    (h : DeviceInv major m s) :
    ReleaseMatches s ↔ (s.dev.cddStorage ≠ none → m = 0) := by
  have hsource : ∀ p x, s.dev.cddStorage = some p → s.heap[p]? = some x →
      x.item.source = deviceAllocator s.dev m := by
    intro p x hp hx
    have hshape := (h.storage p hp).2
    rw [heapShape_getElem?, hx] at hshape
    exact congrArg (fun x => x.2.1) (Option.some.inj hshape)
  constructor
  · intro hmatch hstorage
    obtain ⟨p, hp⟩ := Option.ne_none_iff_exists'.mp hstorage
    obtain ⟨x, hx, -⟩ := h.storage_entry hp
    have heq := hmatch p x hp hx
    rw [storageRelease_eq h, hsource p x hp hx] at heq
    exact (deviceAllocator_counterpart s.dev m).mp heq.symm
  · intro hm p x hp hx
    rw [storageRelease_eq h, hsource p x hp hx]
    exact ((deviceAllocator_counterpart s.dev m).mpr (hm (by simp [hp]))).symm

theorem releaseMatches_setDevState {w : World} {m : Minor} {s : DevState}
    (h : WorldInv w) (hw : WorldInv (w.setDevState m s))
    (hmatch : ∀ k, ReleaseMatches (w.devState k)) :
    (∀ k, ReleaseMatches ((w.setDevState m s).devState k)) ↔
      (s.dev.cddStorage ≠ none → m = 0) := by
  have hself : ReleaseMatches ((w.setDevState m s).devState m) ↔
      (s.dev.cddStorage ≠ none → m = 0) := by
    rw [releaseMatches_iff (hw.device m), World.devState_setDevState_self]
  constructor
  · intro hall
    exact hself.mp (hall m)
  · intro hm k
    by_cases hk : k = m
    · subst hk
      exact hself.mpr hm
    · have hold := (releaseMatches_iff (h.device k)).mp (hmatch k)
      rw [releaseMatches_iff (hw.device k)]
      simpa [World.devState, w.cddDev_setDevState_ne s hk] using hold

theorem releaseMatches_effect {y : System} {c : Call} {o : Reply} {w : World}
    (z : System) (h : WorldInv y.world)
    (hmatch : ∀ k, ReleaseMatches (y.devState k)) (heff : Effect y c o w) :
    (∀ k, ReleaseMatches (w.devState k)) ↔ OpensVmallocOnly y c o z := by
  have hw := h.effect heff
  cases heff with
  | @opened f m fFlags fresh s _ hopen =>
      rw [releaseMatches_setDevState h hw hmatch]
      have hbuffer := openBody_buffer (h.device m).minor_eq hopen
      constructor
      · intro hstep f k fFlags data hc
        simp only [Call.openFile.injEq] at hc
        obtain ⟨-, rfl, -, -, rfl⟩ := hc
        rcases hbuffer with ⟨hfresh, -⟩ | ⟨-, hsome, -⟩
        · cases hfresh
        · exact hstep (by simp [hsome])
      · intro hstep hstorage
        cases fresh with
        | none =>
            rcases hbuffer with ⟨-, hnone, -⟩ | ⟨hfresh, -⟩
            · exact absurd hnone hstorage
            · exact absurd rfl hfresh
        | some data => exact hstep f m fFlags data rfl
  | @resumed _ m _ _ _ _ hrest =>
      refine iff_of_true ?_ (fun _ _ _ _ hc => by cases hc)
      rw [releaseMatches_setDevState h hw hmatch, (openRest_storage hrest).1]
      exact (releaseMatches_iff (h.device m)).mp (hmatch m)
  | @written _ m _ _ _ _ _ _ _ hrange hwrite =>
      refine iff_of_true ?_ (fun _ _ _ _ hc => by cases hc)
      rw [releaseMatches_setDevState h hw hmatch,
        (writeBody_storage (vfsRange_count hrange) hwrite).1]
      exact (releaseMatches_iff (h.device m)).mp (hmatch m)
  | _ => exact iff_of_true hmatch (fun _ _ _ _ hc => by cases hc)

/-- The branch of `free_storage` matches the allocation of every buffer, in
every state of a run, exactly when no open of the run obtains a buffer for
another device than minor number 0. -/
theorem everyState_releaseMatches_iff {e : InitEnv} (h : (cddInit e).1 = 0)
    (cs : List Call) :
    driver.EveryState (fun y => ∀ m, ReleaseMatches (y.devState m))
        (loaded e) cs ↔
      driver.EveryStep OpensVmallocOnly (loaded e) cs := by
  refine Machine.everyState_iff_everyStep (I := fun y => WorldInv y.world)
    WorldInv.step ?_ (worldInv_loaded h) ?_
  · intro y c z o hinv hmatch hstep
    exact releaseMatches_effect z hinv hmatch (effect_of_step hstep)
  · intro m
    refine (releaseMatches_iff ((worldInv_loaded h).device m)).mpr ?_
    intro hstorage
    exact absurd (congrArg CDDdev.cddStorage (loaded_cddDev h m)) hstorage

theorem everyState_releaseMatches_one_open :
    driver.EveryState (fun y => ∀ m, ReleaseMatches (y.devState m))
        (loaded undisturbed)
        [.openFile 0 0 oWronly true (some fun _ => 0)] ↔
      driver.EveryStep OpensVmallocOnly (loaded undisturbed)
        [.openFile 0 0 oWronly true (some fun _ => 0)] :=
  everyState_releaseMatches_iff cddInit_undisturbed _

/-- The buffer that CDD16 obtains from `kmalloc` would be passed to `vfree`. -/
theorem not_everyState_releaseMatches_kmalloc :
    (cddInit undisturbed).1 = 0 ∧
      ¬ driver.EveryState (fun y => ∀ m, ReleaseMatches (y.devState m))
        (loaded undisturbed)
        [.openFile 0 1 oWronly true (some fun _ => 0)] := by
  refine ⟨cddInit_undisturbed, fun hall => ?_⟩
  have hcalls : (driver.exec (loaded undisturbed)
      [.openFile 0 1 oWronly true (some fun _ => 0)]).map
      (fun y => ((y.devState 1).dev.cddStorage,
        y.world.heap.map fun x => x.item.source,
        storageRelease (y.devState 1).dev)) =
      some (some 0, [.kmalloc .kernel], .vfree) := by decide
  obtain ⟨y, hy, heq⟩ := Option.map_eq_some_iff.mp hcalls
  simp only [Prod.mk.injEq] at heq
  obtain ⟨hstorage, hsources, hrelease⟩ := heq
  obtain ⟨x, hx, hsource⟩ := List.map_eq_singleton_iff.mp hsources
  have hfirst : (y.devState 1).heap[0]? = some x := by
    have hheap : (y.devState 1).heap = [x] := hx
    rw [hheap]
    rfl
  have hmatch := hall.last (Machine.run_of_exec hy) 1 0 x hstorage hfirst
  rw [hrelease, hsource] at hmatch
  cases hmatch

end CddDriver
