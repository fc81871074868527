import CddDriver.Loaded
import CddDriver.System
import Mathlib.Tactic.Common
/-!
# The invariant of a loaded driver

What one system call can do to the world (`Effect`), what the file operations
leave alone (`Frame`), and the invariant that holds in every state a loaded
driver can reach, whatever the outcomes of the kernel calls.
-/

namespace CddDriver

open Lib

/-! ## The effect of one system call -/

/-- The possible effects of the call `c` with reply `o` on the world of `y`. -/
inductive Effect (y : System) : Call → Reply → World → Prop where
  | opened {f : Nat} {m : Minor} {fFlags : Nat} {fresh : Option (Nat → Byte)}
      {s : DevState} {status : OpenStatus} :
      openBody fresh fFlags (y.devState m) = some (s, status) →
      Effect y (.openFile f m fFlags true fresh) (.openFile status)
        (y.world.setDevState m s)
  | openRefused {f : Nat} {m : Minor} {fFlags : Nat}
      {fresh : Option (Nat → Byte)} :
      Effect y (.openFile f m fFlags false fresh)
        (.openFile (.returned (-erestartsys))) y.world
  | resumed {f : Nat} {m : Minor} {fFlags : Nat} {s : DevState}
      {status : OpenStatus} :
      y.files f = .opening m fFlags →
      openRest fFlags (y.devState m) = some (s, status) →
      Effect y (.wake f false true) (.openFile status)
        (y.world.setDevState m s)
  | wakeRefused {f : Nat} {signalPending relocked : Bool} :
      Effect y (.wake f signalPending relocked)
        (.openFile (.returned (-erestartsys))) y.world
  | hasRead {f : Nat} {m : Minor} {fFlags : Nat} {fPos : Int}
      {at? : Option Int} {buf : Nat → Byte} {count uncopied : Nat}
      {r : ReadResult} :
      y.files f = .opened m fFlags fPos →
      vfsRange (at?.getD fPos) count = true →
      readBody buf count uncopied (at?.getD fPos) (y.devState m) = some r →
      Effect y (.read f at? buf count uncopied) (.read (at?.getD fPos) r)
        y.world
  | written {f : Nat} {m : Minor} {fFlags : Nat} {fPos : Int}
      {at? : Option Int} {buf : List Byte} {copy : UserCopy} {w : WriteResult} :
      y.files f = .opened m fFlags fPos →
      vfsRange (at?.getD fPos) buf.length = true →
      writeBody buf copy (at?.getD fPos) (y.devState m) = some w →
      Effect y (.write f at? buf true copy)
        (.write (at?.getD fPos) w.retval) (y.world.setDevState m w.state)
  | writeRefused {f : Nat} {at? : Option Int} {buf : List Byte} {copy : UserCopy}
      {start : Int} :
      Effect y (.write f at? buf false copy) (.write start (-erestartsys))
        y.world
  | seeked {f : Nat} {newpos whence retval : Int} :
      Effect y (.llseek f newpos whence) (.llseek retval) y.world
  | queried {f ioctlNum uncopied : Nat} {retval : Int} {text : List Char} :
      Effect y (.ioctl f ioctlNum uncopied) (.ioctl retval text) y.world
  | released {f : Nat} : Effect y (.release f) .release y.world

theorem vfsRange_eq_true {ppos : Int} {count : Nat} :
    vfsRange ppos count = true ↔
      0 ≤ ppos ∧ count ≤ maxRwCount ∧ ppos + count < 2 ^ 63 := by
  simp [vfsRange, and_assoc]

theorem vfsRange_count {ppos : Int} {count : Nat}
    (h : vfsRange ppos count = true) : count ≤ maxRwCount :=
  (vfsRange_eq_true.mp h).2.1

@[simp] theorem setDevState_world (m : Minor) (s : DevState) (y : System) :
    (y.setDevState m s).world = y.world.setDevState m s := rfl

@[simp] theorem moveTo_world (f : Nat) (m : Minor) (fFlags : Nat)
    (at? : Option Int) (ppos : Int) (y : System) :
    (y.moveTo f m fFlags at? ppos).world = y.world := by
  cases at? <;> rfl

@[simp] theorem World.setDevState_devState (w : World) (m : Minor) :
    w.setDevState m (w.devState m) = w := by
  simp [World.setDevState, World.devState]

theorem finishOpen_eq_some {f : Nat} {m : Minor} {fFlags : Nat}
    {r : Option (DevState × OpenStatus)} {y z : System} {o : Reply}
    (h : y.finishOpen f m fFlags r = some (z, o)) :
    ∃ s status, r = some (s, status) ∧ o = .openFile status ∧
      z.world = y.world.setDevState m s := by
  obtain ⟨⟨s, status⟩, hr, heq⟩ := Option.map_eq_some_iff.mp h
  simp only [Prod.mk.injEq] at heq
  obtain ⟨rfl, rfl⟩ := heq
  exact ⟨s, status, hr, rfl, rfl⟩

theorem effect_of_openFile {y z : System} {f : Nat} {m : Minor} {fFlags : Nat}
    {locked : Bool} {fresh : Option (Nat → Byte)} {o : Reply}
    (h : y.call (.openFile f m fFlags locked fresh) = some (z, o)) :
    Effect y (.openFile f m fFlags locked fresh) o z.world := by
  simp only [System.call] at h
  split at h
  · obtain ⟨s, status, hr, rfl, hz⟩ := finishOpen_eq_some h
    rw [hz]
    cases locked with
    | false =>
        simp only [cddOpen, Bool.not_false, if_true, Option.some.injEq,
          Prod.mk.injEq] at hr
        obtain ⟨rfl, rfl⟩ := hr
        rw [System.devState, World.setDevState_devState]
        exact .openRefused
    | true => exact .opened hr
  · cases h

theorem effect_of_wake {y z : System} {f : Nat} {signalPending relocked : Bool}
    {o : Reply} (h : y.call (.wake f signalPending relocked) = some (z, o)) :
    Effect y (.wake f signalPending relocked) o z.world := by
  simp only [System.call] at h
  split at h
  next m fFlags hf =>
    obtain ⟨s, status, hr, rfl, hz⟩ := finishOpen_eq_some h
    rw [hz]
    by_cases hgo : signalPending = false ∧ relocked = true
    · obtain ⟨rfl, rfl⟩ := hgo
      exact .resumed hf hr
    · have hback : s = y.devState m ∧ status = .returned (-erestartsys) := by
        cases signalPending <;> cases relocked <;>
          simp_all [cddOpenWake, eq_comm]
      obtain ⟨rfl, rfl⟩ := hback
      rw [System.devState, World.setDevState_devState]
      exact .wakeRefused
  · cases h

theorem effect_of_read {y z : System} {f : Nat} {at? : Option Int}
    {buf : Nat → Byte} {count uncopied : Nat} {o : Reply}
    (h : y.call (.read f at? buf count uncopied) = some (z, o)) :
    Effect y (.read f at? buf count uncopied) o z.world := by
  simp only [System.call] at h
  split at h
  next m fFlags fPos hf =>
    split at h
    next hrange =>
      obtain ⟨r, hr, heq⟩ := Option.map_eq_some_iff.mp h
      simp only [Prod.mk.injEq] at heq
      obtain ⟨rfl, rfl⟩ := heq
      rw [moveTo_world]
      exact .hasRead hf hrange hr
    · cases h
  · cases h

theorem effect_of_write {y z : System} {f : Nat} {at? : Option Int}
    {buf : List Byte} {locked : Bool} {copy : UserCopy} {o : Reply}
    (h : y.call (.write f at? buf locked copy) = some (z, o)) :
    Effect y (.write f at? buf locked copy) o z.world := by
  simp only [System.call] at h
  split at h
  next m fFlags fPos hf =>
    split at h
    next hrange =>
      obtain ⟨w, hw, heq⟩ := Option.map_eq_some_iff.mp h
      simp only [Prod.mk.injEq] at heq
      obtain ⟨rfl, rfl⟩ := heq
      rw [moveTo_world, setDevState_world]
      cases locked with
      | false =>
          simp only [cddWrite, Bool.not_false, if_true,
            Option.some.injEq] at hw
          subst hw
          rw [System.devState, World.setDevState_devState]
          exact .writeRefused
      | true => exact .written hf hrange hw
    · cases h
  · cases h

/-- All that a system call can do to the world, guards included. -/
theorem effect_of_step {y z : System} {c : Call} {o : Reply}
    (h : driver.step y c = some (z, o)) : Effect y c o z.world := by
  have h : y.call c = some (z, o) := h
  cases c with
  | openFile f m fFlags locked fresh => exact effect_of_openFile h
  | wake f signalPending relocked => exact effect_of_wake h
  | read f at? buf count uncopied => exact effect_of_read h
  | write f at? buf locked copy => exact effect_of_write h
  | llseek f newpos whence =>
      simp only [System.call] at h
      split at h
      · simp only [Option.some.injEq, Prod.mk.injEq] at h
        obtain ⟨rfl, rfl⟩ := h
        exact .seeked
      · cases h
  | ioctl f ioctlNum uncopied =>
      simp only [System.call] at h
      split at h
      · simp only [Option.some.injEq, Prod.mk.injEq] at h
        obtain ⟨rfl, rfl⟩ := h
        exact .queried
      · cases h
  | release f =>
      simp only [System.call] at h
      split at h
      · simp only [Option.some.injEq, Prod.mk.injEq] at h
        obtain ⟨rfl, rfl⟩ := h
        exact .released
      · cases h

/-- System calls leave everything alone that belongs to the module as a whole:
region, semaphores, slab caches, character devices and `/proc`. -/
theorem Effect.frame {y : System} {c : Call} {o : Reply} {w : World}
    (h : Effect y c o w) :
    ∃ cddDev heap, w = { y.world with cddDev := cddDev, heap := heap } := by
  cases h with
  | opened => exact ⟨_, _, rfl⟩
  | resumed => exact ⟨_, _, rfl⟩
  | written => exact ⟨_, _, rfl⟩
  | _ => exact ⟨_, _, rfl⟩

/-! ## What the file operations leave alone -/

/-- The fields that only `CDD_init` and `CDD_exit` assign. -/
def wiring (d : CDDdev) : Nat × StorageType × Option Nat × Option Nat :=
  (d.devno, d.allocType, d.bufcache, d.cddSem)

/-- What an operation on device `m` may do to the heap: store into the buffer
of `m`, or add one buffer for `m`. -/
structure Frame (m : Minor) (s s' : DevState) : Prop where
  wiring_eq : wiring s'.dev = wiring s.dev
  shape : heapShape s'.heap = heapShape s.heap ∨
    heapShape s'.heap = heapShape s.heap ++
      [(m.val, deviceAllocator s.dev m, getStorageLength m, [])]
  content : ∀ p x, s.heap[p]? = some x → s.dev.cddStorage ≠ some p →
    s'.heap[p]? = some x

theorem Frame.refl (m : Minor) (s : DevState) : Frame m s s :=
  ⟨rfl, .inl rfl, fun _ _ hx _ => hx⟩

theorem Frame.shape_kept {m : Minor} {s s' : DevState} (h : Frame m s s')
    {p : Nat} {x : Nat × Allocator × Nat × List Deallocator}
    (hx : (heapShape s.heap)[p]? = some x) :
    (heapShape s'.heap)[p]? = some x := by
  rcases h.shape with hs | hs
  · rw [hs, hx]
  · rw [hs, List.getElem?_append_left (List.getElem?_eq_some_iff.mp hx).1, hx]

theorem openCommit_frame {m : Minor} {fFlags : Nat} {s s' : DevState}
    (h : openCommit fFlags s = some s') : Frame m s s' where
  wiring_eq := by
    rw [openCommit_dev h]
    rfl
  shape := .inl (openCommit_heapShape h)
  content p x hx hp := by rw [openCommit_getElem?_ne h hp, hx]

theorem openRest_heapShape {fFlags : Nat} {s s' : DevState}
    {status : OpenStatus} (h : openRest fFlags s = some (s', status)) :
    heapShape s'.heap = heapShape s.heap := by
  rcases openRest_cases h with ⟨-, -, hcommit⟩ | ⟨-, rfl, -⟩
  · exact openCommit_heapShape hcommit
  · rfl

theorem openRest_storage {fFlags : Nat} {s s' : DevState} {status : OpenStatus}
    (h : openRest fFlags s = some (s', status)) :
    s'.dev.cddStorage = s.dev.cddStorage ∧ s'.dev.allocLen = s.dev.allocLen := by
  rcases openRest_cases h with ⟨-, -, hcommit⟩ | ⟨-, rfl, -⟩
  · rw [openCommit_dev hcommit]
    exact ⟨rfl, rfl⟩
  · exact ⟨rfl, rfl⟩

theorem openRest_frame {m : Minor} {fFlags : Nat} {s s' : DevState}
    {status : OpenStatus} (h : openRest fFlags s = some (s', status)) :
    Frame m s s' := by
  rcases openRest_cases h with ⟨-, -, hcommit⟩ | ⟨-, rfl, -⟩
  · exact openCommit_frame hcommit
  · exact Frame.refl m s'

theorem allocated_heapShape (data : Nat → Byte) (m : Minor) (s : DevState) :
    heapShape (allocated data m s).heap = heapShape s.heap ++
      [(m.val, deviceAllocator s.dev m, getStorageLength m, [])] :=
  heapShape_acquire _ _

theorem allocated_byteAt (data : Nat → Byte) (m : Minor) (s : DevState)
    (i : Nat) : (allocated data m s).byteAt i = some (data i) :=
  DevState.byteAt_eq_some_iff.mpr
    ⟨s.heap.length, _, rfl, Ledger.getElem?_acquire_self _ _, rfl⟩

/-- An open leaves all earlier buffers as they are: even a truncating one
stores into the buffer that it has just allocated. -/
theorem openBody_getElem? {m : Minor} {fFlags : Nat} {s s' : DevState}
    {fresh : Option (Nat → Byte)} {status : OpenStatus}
    (hm : minorOf s.dev.devno = m)
    (h : openBody fresh fFlags s = some (s', status)) {p : Nat}
    {x : Entry Buffer Deallocator} (hx : s.heap[p]? = some x) :
    s'.heap[p]? = some x := by
  rcases openBody_cases hm h with ⟨-, rfl, -⟩ | ⟨data, -, hrest⟩
  · exact hx
  · have hlt : p < s.heap.length := (List.getElem?_eq_some_iff.mp hx).1
    refine (openRest_frame (m := m) hrest).content p x ?_ ?_
    · exact Ledger.getElem?_acquire_of_some _ hx
    · intro heq
      have hp : s.heap.length = p := Option.some.inj heq
      omega

theorem openBody_buffer {m : Minor} {fFlags : Nat} {s s' : DevState}
    {fresh : Option (Nat → Byte)} {status : OpenStatus}
    (hm : minorOf s.dev.devno = m)
    (h : openBody fresh fFlags s = some (s', status)) :
    (fresh = none ∧ s'.dev.cddStorage = none ∧ s'.heap = s.heap) ∨
      (fresh ≠ none ∧ s'.dev.cddStorage = some s.heap.length ∧
        s'.heap.length = s.heap.length + 1) := by
  rcases openBody_cases hm h with ⟨rfl, rfl, -⟩ | ⟨data, rfl, hrest⟩
  · exact .inl ⟨rfl, rfl, rfl⟩
  · refine .inr ⟨by simp, ?_, ?_⟩
    · rw [(openRest_storage hrest).1]
      rfl
    · have hlen := congrArg List.length (openRest_heapShape hrest)
      rw [allocated_heapShape] at hlen
      simpa [heapShape] using hlen

theorem openBody_frame {m : Minor} {fFlags : Nat} {s s' : DevState}
    {fresh : Option (Nat → Byte)} {status : OpenStatus}
    (hm : minorOf s.dev.devno = m)
    (h : openBody fresh fFlags s = some (s', status)) : Frame m s s' := by
  refine ⟨?_, ?_, fun p x hx _ => openBody_getElem? hm h hx⟩
  · rcases openBody_cases hm h with ⟨-, rfl, -⟩ | ⟨data, -, hrest⟩
    · rfl
    · rw [(openRest_frame (m := m) hrest).wiring_eq]
      rfl
  · rcases openBody_cases hm h with ⟨-, rfl, -⟩ | ⟨data, -, hrest⟩
    · exact .inl rfl
    · right
      rw [openRest_heapShape hrest, allocated_heapShape]

theorem writeBody_storage {buf : List Byte} {copy : UserCopy} {ppos : Int}
    {s : DevState} {w : WriteResult} (hcount : buf.length ≤ maxRwCount)
    (h : writeBody buf copy ppos s = some w) :
    w.state.dev.cddStorage = s.dev.cddStorage ∧
      w.state.dev.allocLen = s.dev.allocLen := by
  rcases writeBody_cases hcount h with
    rfl | ⟨pos, -, -, ⟨t, -, ht, rfl⟩ | ⟨t, -, ht, rfl⟩⟩
  · exact ⟨rfl, rfl⟩
  · rw [DevState.poke_dev ht]
    exact ⟨rfl, rfl⟩
  · simp [DevState.poke_dev ht]

theorem writeBody_heapShape {buf : List Byte} {copy : UserCopy} {ppos : Int}
    {s : DevState} {w : WriteResult} (hcount : buf.length ≤ maxRwCount)
    (h : writeBody buf copy ppos s = some w) :
    heapShape w.state.heap = heapShape s.heap := by
  rcases writeBody_cases hcount h with
    rfl | ⟨pos, -, -, ⟨t, -, ht, rfl⟩ | ⟨t, -, ht, rfl⟩⟩
  · rfl
  · exact poke_heapShape ht
  · exact (poke_heapShape ht :)

theorem writeBody_frame {m : Minor} {buf : List Byte} {copy : UserCopy}
    {ppos : Int} {s : DevState} {w : WriteResult}
    (hcount : buf.length ≤ maxRwCount)
    (h : writeBody buf copy ppos s = some w) : Frame m s w.state := by
  rcases writeBody_cases hcount h with
    rfl | ⟨pos, -, -, ⟨t, -, ht, rfl⟩ | ⟨t, -, ht, rfl⟩⟩
  · exact Frame.refl m s
  · refine ⟨?_, .inl (poke_heapShape ht), ?_⟩
    · rw [DevState.poke_dev ht]
    · intro p x hx hp
      rw [DevState.poke_getElem?_ne ht hp, hx]
  · refine ⟨?_, .inl (poke_heapShape ht :), ?_⟩
    · simp [wiring, DevState.poke_dev ht]
    · intro p x hx hp
      exact (DevState.poke_getElem?_ne ht hp).trans hx

/-! ## The invariant -/

/-- What holds of each device of a loaded driver.  `devno`, `alloc_type`,
`bufcache` and `CDD_sem` are still those that `CDD_init` assigned. -/
structure DeviceInv (major : Nat) (m : Minor) (s : DevState) : Prop where
  wired : wiring s.dev = (mkdev major m, .vmalloc, some m.val, some m.val)
  counter_le : s.dev.counter ≤ s.dev.allocLen
  allocLen_eq : s.dev.allocLen = 0 ∨ s.dev.allocLen = getStorageLength m
  storage : ∀ p, s.dev.cddStorage = some p →
    s.dev.allocLen = getStorageLength m ∧
      (heapShape s.heap)[p]? =
        some (m.val, deviceAllocator s.dev m, getStorageLength m, [])

namespace DeviceInv

variable {major : Nat} {m : Minor} {s s' : DevState}

theorem devno_eq (h : DeviceInv major m s) : s.dev.devno = mkdev major m :=
  congrArg Prod.fst h.wired

theorem bufcache_eq (h : DeviceInv major m s) : s.dev.bufcache = some m.val :=
  congrArg (fun x => x.2.2.1) h.wired

theorem minor_eq (h : DeviceInv major m s) : minorOf s.dev.devno = m := by
  rw [h.devno_eq]
  refine minorOf_mkdev major ?_
  have hlt : m.val < 5 := m.isLt
  omega

theorem counter_lt (h : DeviceInv major m s) : s.dev.counter < 2 ^ 31 := by
  have hle := h.counter_le
  have hlen := getStorageLength_le m
  rcases h.allocLen_eq with h0 | h0 <;> omega

theorem allocLen_lt (h : DeviceInv major m s) : s.dev.allocLen < 2 ^ 31 := by
  have hlen := getStorageLength_le m
  rcases h.allocLen_eq with h0 | h0 <;> omega

theorem storage_entry (h : DeviceInv major m s) {p : Nat}
    (hp : s.dev.cddStorage = some p) :
    ∃ x, s.heap[p]? = some x ∧ x.item.mem.size = s.dev.allocLen ∧
      x.releases = [] := by
  obtain ⟨hlen, hshape⟩ := h.storage p hp
  rw [heapShape_getElem?] at hshape
  obtain ⟨x, hx, heq⟩ := Option.map_eq_some_iff.mp hshape
  simp only [entryShape, Prod.mk.injEq] at heq
  exact ⟨x, hx, by rw [heq.2.2.1, hlen], heq.2.2.2⟩

theorem of_shape_kept (h : DeviceInv major m s) (hdev : s'.dev = s.dev)
    (hshape : ∀ (p : Nat) x, (heapShape s.heap)[p]? = some x →
      (heapShape s'.heap)[p]? = some x) : DeviceInv major m s' := by
  refine ⟨?_, ?_, ?_, ?_⟩
  · rw [hdev, h.wired]
  · rw [hdev]
    exact h.counter_le
  · rw [hdev]
    exact h.allocLen_eq
  · intro p hp
    rw [hdev] at hp ⊢
    obtain ⟨hlen, hx⟩ := h.storage p hp
    exact ⟨hlen, hshape p _ hx⟩

theorem allocated (h : DeviceInv major m s) (data : Nat → Byte) :
    DeviceInv major m (allocated data m s) := by
  refine ⟨h.wired, ?_, .inr rfl, ?_⟩
  · have hle := h.counter_le
    have hpos := getStorageLength_pos m
    show s.dev.counter ≤ getStorageLength m
    rcases h.allocLen_eq with h0 | h0 <;> omega
  · intro p hp
    obtain rfl : s.heap.length = p := Option.some.inj hp
    refine ⟨rfl, ?_⟩
    rw [allocated_heapShape, List.getElem?_append_right (by simp [heapShape])]
    simp only [heapShape, List.length_map, Nat.sub_self, List.getElem?_cons_zero]
    rfl

theorem openCommit {fFlags : Nat} (h : DeviceInv major m s)
    (hcommit : openCommit fFlags s = some s') : DeviceInv major m s' := by
  have hdev := openCommit_dev hcommit
  refine ⟨?_, ?_, ?_, ?_⟩
  · rw [hdev]
    exact h.wired
  · have hle := h.counter_le
    rw [hdev]
    simp only [committed]
    split <;> omega
  · rw [hdev]
    exact h.allocLen_eq
  · intro p hp
    rw [hdev] at hp ⊢
    rw [openCommit_heapShape hcommit]
    exact h.storage p hp

theorem openRest {fFlags : Nat} {status : OpenStatus}
    (h : DeviceInv major m s)
    (hrest : openRest fFlags s = some (s', status)) :
    DeviceInv major m s' := by
  rcases openRest_cases hrest with ⟨-, -, hcommit⟩ | ⟨-, rfl, -⟩
  · exact h.openCommit hcommit
  · exact h

theorem openBody {fresh : Option (Nat → Byte)} {fFlags : Nat}
    {status : OpenStatus} (h : DeviceInv major m s)
    (hopen : openBody fresh fFlags s = some (s', status)) :
    DeviceInv major m s' := by
  rcases openBody_cases h.minor_eq hopen with ⟨-, rfl, -⟩ | ⟨data, -, hrest⟩
  · refine ⟨h.wired, h.counter_le, h.allocLen_eq, ?_⟩
    intro p hp
    cases hp
  · exact (h.allocated data).openRest hrest

theorem writeBody {buf : List Byte} {copy : UserCopy} {ppos : Int}
    {w : WriteResult} (h : DeviceInv major m s)
    (hcount : buf.length ≤ maxRwCount)
    (hwrite : writeBody buf copy ppos s = some w) :
    DeviceInv major m w.state := by
  rcases writeBody_cases hcount hwrite with
    rfl | ⟨pos, -, hle, ⟨t, -, ht, rfl⟩ | ⟨t, -, ht, rfl⟩⟩
  · exact h
  · refine h.of_shape_kept (DevState.poke_dev ht) ?_
    intro p x hx
    rw [poke_heapShape ht, hx]
  · have hdev := DevState.poke_dev ht
    refine ⟨?_, ?_, ?_, ?_⟩
    · have hw := h.wired
      simpa [wiring, hdev] using hw
    · have hc := h.counter_le
      simp only [hdev]
      omega
    · simpa [hdev] using h.allocLen_eq
    · intro p hp
      simp only [hdev] at hp ⊢
      rw [poke_heapShape ht]
      exact h.storage p hp

end DeviceInv

/-- The invariant of a loaded driver: each device is well formed, and every
buffer ever obtained belongs to a device and was never released. -/
structure WorldInv (w : World) : Prop where
  device : ∀ m, DeviceInv w.cddMajor m (w.devState m)
  owned : ∀ x ∈ heapShape w.heap, x.1 < cddNumDevs ∧ x.2.2.2 = []

theorem WorldInv.counter_lt {w : World} (h : WorldInv w) (m : Minor) :
    (w.cddDev m).counter < 2 ^ 31 :=
  (h.device m).counter_lt

theorem WorldInv.allocLen_lt {w : World} (h : WorldInv w) (m : Minor) :
    (w.cddDev m).allocLen < 2 ^ 31 :=
  (h.device m).allocLen_lt

@[simp] theorem World.devState_setDevState_self (w : World) (m : Minor)
    (s : DevState) : (w.setDevState m s).devState m = s := by
  simp [World.setDevState, World.devState]

theorem World.cddDev_setDevState_ne (w : World) {m k : Minor} (s : DevState)
    (h : k ≠ m) : (w.setDevState m s).cddDev k = w.cddDev k :=
  Function.update_of_ne h _ _

theorem WorldInv.setDevState {w : World} {m : Minor} {s : DevState}
    (h : WorldInv w) (hs : DeviceInv w.cddMajor m s)
    (hframe : Frame m (w.devState m) s) : WorldInv (w.setDevState m s) := by
  constructor
  · intro k
    by_cases hk : k = m
    · subst hk
      rw [World.devState_setDevState_self]
      exact hs
    · refine (h.device k).of_shape_kept (w.cddDev_setDevState_ne s hk) ?_
      intro p x hx
      exact hframe.shape_kept hx
  · intro x hx
    have hx : x ∈ heapShape s.heap := hx
    rcases hframe.shape with hshape | hshape
    · rw [hshape] at hx
      exact h.owned x hx
    · rw [hshape, List.mem_append] at hx
      rcases hx with hx | hx
      · exact h.owned x hx
      · obtain rfl := List.mem_singleton.mp hx
        exact ⟨m.isLt, rfl⟩

theorem WorldInv.effect {y : System} {c : Call} {o : Reply} {w : World}
    (h : WorldInv y.world) (heff : Effect y c o w) : WorldInv w := by
  cases heff with
  | @opened _ m _ _ _ _ hopen =>
      exact h.setDevState ((h.device m).openBody hopen)
        (openBody_frame (h.device m).minor_eq hopen)
  | @resumed _ m _ _ _ _ hrest =>
      exact h.setDevState ((h.device m).openRest hrest) (openRest_frame hrest)
  | @written _ m _ _ _ _ _ _ _ hrange hwrite =>
      have hcount := vfsRange_count hrange
      exact h.setDevState ((h.device m).writeBody hcount hwrite)
        (writeBody_frame hcount hwrite)
  | _ => exact h

theorem WorldInv.step {y z : System} {c : Call} {o : Reply}
    (h : WorldInv y.world) (hstep : driver.step y c = some (z, o)) :
    WorldInv z.world :=
  h.effect (effect_of_step hstep)

theorem worldInv_loaded {e : InitEnv} (h : (cddInit e).1 = 0) :
    WorldInv (loaded e).world := by
  have hdev := loaded_cddDev h
  constructor
  · intro m
    have hm : ((loaded e).world.devState m).dev =
        liveDev (loaded e).world.cddMajor m m m := hdev m
    refine ⟨?_, ?_, ?_, ?_⟩
    · rw [hm]
      rfl
    · rw [hm]
      exact le_refl 0
    · rw [hm]
      exact .inl rfl
    · intro p hp
      rw [hm] at hp
      cases hp
  · intro x hx
    have hheap : (loaded e).world.heap = [] := loaded_heap h
    rw [hheap] at hx
    cases hx

theorem worldInv_run {e : InitEnv} (h : (cddInit e).1 = 0) {cs : List Call}
    {z : System} (hrun : driver.Run (loaded e) cs z) : WorldInv z.world :=
  Machine.Run.invariant (I := fun y => WorldInv y.world) WorldInv.step hrun
    (worldInv_loaded h)

end CddDriver
