import CddDriver.Kernel
import Mathlib.Tactic.Common
/-!
# The device structure and its storage

`CDDdev_struct`, the tables indexed by minor number, and the allocation and
release of a device's data buffer.
-/

namespace CddDriver

open Lib

/-! ## Minor numbers -/

def cddMinor : Nat := 0
abbrev cddNumDevs : Nat := 5
/-- The index of a device in `CDD_dev`. -/
abbrev Minor := Fin cddNumDevs

def storageLengths : List Nat := [4096, 16, 64, 128, 256]

def getStorageLength (minor : Nat) : Nat :=
  storageLengths.getD (minor - cddMinor) 0

/-- The numeric part of the device name: CDD2, CDD16, CDD64, .. -/
def getDevnameNumber (minor : Nat) : Nat :=
  if minor - cddMinor = 0 then 2 else storageLengths.getD (minor - cddMinor) 0

def getDevname (minor : Nat) : List Char :=
  "CDD".toList ++ Nat.toDigits 10 (getDevnameNumber minor)

/-! ## Storage types -/

inductive StorageType where
  | vmalloc
  | kmalloc
  | kmallocHigh
  | kmallocDma
  | kmemcache
  deriving DecidableEq

def StorageType.ofNat? : Nat → Option StorageType
  | 0 => some .vmalloc
  | 1 => some .kmalloc
  | 2 => some .kmallocHigh
  | 3 => some .kmallocDma
  | 4 => some .kmemcache
  | _ => none

def getStorageType (minor : Nat) : Option StorageType :=
  StorageType.ofNat? (minor - cddMinor)

/-! ## The device structure -/

structure CDDdev where
  devno : Nat
  /-- Total size of the buffer. -/
  allocLen : Nat
  /-- Current fill level of the buffer. -/
  counter : Nat
  /-- Handle of the buffer; `none` is the null pointer. -/
  cddStorage : Option Nat
  append : Bool
  allocType : StorageType
  /-- Handle of the slab cache. -/
  bufcache : Option Nat
  /-- Handle of the semaphore. -/
  cddSem : Option Nat
  activeOpens : Nat

def CDDdev.zero : CDDdev :=
  ⟨0, 0, 0, none, false, .vmalloc, none, none, 0⟩

structure DevState where
  dev : CDDdev
  heap : Heap

namespace DevState

def buffer (s : DevState) : Option Buffer :=
  s.dev.cddStorage.bind fun p => (s.heap[p]?).map Entry.item

def byteAt (s : DevState) (i : Nat) : Option Byte :=
  s.buffer.map fun b => b.mem.data i

/-- Store `bytes` at `CDD_storage + pos`.  Storing at least one byte through
the null pointer, or outside the buffer, is a kernel fault: `none`. -/
def poke (s : DevState) (pos : Nat) (bytes : List Byte) : Option DevState :=
  if bytes = [] then some s
  else
    match s.dev.cddStorage, s.buffer with
    | some p, some b =>
        if pos + bytes.length ≤ b.mem.size then
          some { s with heap := s.heap.update p (Buffer.store pos bytes) }
        else none
    | _, _ => none

theorem buffer_eq_some {s : DevState} {b : Buffer} :
    s.buffer = some b ↔
      ∃ p e, s.dev.cddStorage = some p ∧ s.heap[p]? = some e ∧ e.item = b := by
  simp only [buffer, Option.bind_eq_some_iff, Option.map_eq_some_iff]
  constructor
  · rintro ⟨p, hp, e, he, rfl⟩
    exact ⟨p, e, hp, he, rfl⟩
  · rintro ⟨p, e, hp, he, rfl⟩
    exact ⟨p, hp, e, he, rfl⟩

theorem byteAt_of_getElem? {s : DevState} {p : Nat}
    {e : Entry Buffer Deallocator} (hp : s.dev.cddStorage = some p)
    (he : s.heap[p]? = some e) (i : Nat) :
    s.byteAt i = some (e.item.mem.data i) := by
  have hb : s.buffer = some e.item := buffer_eq_some.mpr ⟨p, e, hp, he, rfl⟩
  simp [byteAt, hb]

theorem byteAt_eq_some_iff {s : DevState} {i : Nat} {c : Byte} :
    s.byteAt i = some c ↔
      ∃ p e, s.dev.cddStorage = some p ∧ s.heap[p]? = some e ∧
        e.item.mem.data i = c := by
  simp only [byteAt, Option.map_eq_some_iff, buffer_eq_some]
  constructor
  · rintro ⟨_, ⟨p, e, hp, he, rfl⟩, hc⟩
    exact ⟨p, e, hp, he, hc⟩
  · rintro ⟨p, e, hp, he, hc⟩
    exact ⟨e.item, ⟨p, e, hp, he, rfl⟩, hc⟩

/-! ### What a store changes -/

section Poke

variable {s s' : DevState} {pos : Nat} {bytes : List Byte}

theorem poke_cases (h : s.poke pos bytes = some s') :
    (bytes = [] ∧ s' = s) ∨
      ∃ p e, s.dev.cddStorage = some p ∧ s.heap[p]? = some e ∧
        pos + bytes.length ≤ e.item.mem.size ∧
        s' = { s with heap := s.heap.update p (Buffer.store pos bytes) } := by
  unfold poke at h
  split at h
  · next hnil => exact .inl ⟨hnil, (Option.some.inj h).symm⟩
  · split at h
    · next p b hp hb =>
        split at h
        · next hle =>
            obtain ⟨q, e, hq, he, rfl⟩ := buffer_eq_some.mp hb
            obtain rfl : q = p := Option.some.inj (hq.symm.trans hp)
            exact .inr ⟨q, e, hq, he, hle, (Option.some.inj h).symm⟩
        · cases h
    · cases h

theorem poke_eq_some {p : Nat} {e : Entry Buffer Deallocator}
    (hp : s.dev.cddStorage = some p) (he : s.heap[p]? = some e)
    (hle : pos + bytes.length ≤ e.item.mem.size) :
    ∃ s', s.poke pos bytes = some s' := by
  have hb : s.buffer = some e.item := buffer_eq_some.mpr ⟨p, e, hp, he, rfl⟩
  unfold poke
  split
  · exact ⟨s, rfl⟩
  · simp [hp, hb, hle]

theorem poke_dev (h : s.poke pos bytes = some s') : s'.dev = s.dev := by
  rcases poke_cases h with ⟨-, rfl⟩ | ⟨p, e, -, -, -, rfl⟩
  · rfl
  · rfl

theorem poke_getElem?_ne {q : Nat} (h : s.poke pos bytes = some s')
    (hq : s.dev.cddStorage ≠ some q) : s'.heap[q]? = s.heap[q]? := by
  rcases poke_cases h with ⟨-, rfl⟩ | ⟨p, e, hp, -, -, rfl⟩
  · rfl
  · have hne : p ≠ q := by
      rintro rfl
      exact hq hp
    exact Ledger.getElem?_update_ne s.heap (Buffer.store pos bytes) hne

theorem poke_byteAt_inside {i : Nat} (h : s.poke pos bytes = some s')
    (hi : i < bytes.length) : s'.byteAt (pos + i) = some bytes[i] := by
  rcases poke_cases h with ⟨rfl, -⟩ | ⟨p, e, hp, he, -, rfl⟩
  · simp at hi
  · have hu := Ledger.getElem?_update_self (Buffer.store pos bytes) he
    exact byteAt_eq_some_iff.mpr ⟨p, _, hp, hu, Block.store_inside _ hi⟩

theorem poke_byteAt_outside {i : Nat} (h : s.poke pos bytes = some s')
    (hi : i < pos ∨ pos + bytes.length ≤ i) : s'.byteAt i = s.byteAt i := by
  rcases poke_cases h with ⟨-, rfl⟩ | ⟨p, e, hp, he, -, rfl⟩
  · rfl
  · have hu := Ledger.getElem?_update_self (Buffer.store pos bytes) he
    rw [byteAt_of_getElem? hp he]
    exact byteAt_eq_some_iff.mpr ⟨p, _, hp, hu, Block.store_outside _ hi⟩

end Poke

end DevState

/-! ## The heap up to the content of its buffers -/

/-- What a store leaves alone in a heap entry: owner, allocation call, size and
releases. -/
def entryShape (e : Entry Buffer Deallocator) :
    Nat × Allocator × Nat × List Deallocator :=
  (e.item.owner, e.item.source, e.item.mem.size, e.releases)

def heapShape (h : Heap) : List (Nat × Allocator × Nat × List Deallocator) :=
  h.map entryShape

theorem heapShape_getElem? (h : Heap) (p : Nat) :
    (heapShape h)[p]? = (h[p]?).map entryShape := by
  simp [heapShape]

theorem heapShape_acquire (h : Heap) (b : Buffer) :
    heapShape (h.acquire b) =
      heapShape h ++ [(b.owner, b.source, b.mem.size, [])] := by
  simp [heapShape, Ledger.acquire, entryShape]

theorem poke_heapShape {s s' : DevState} {pos : Nat} {bytes : List Byte}
    (h : s.poke pos bytes = some s') : heapShape s'.heap = heapShape s.heap := by
  rcases DevState.poke_cases h with ⟨-, rfl⟩ | ⟨p, e, -, he, -, rfl⟩
  · rfl
  · apply List.ext_getElem?
    intro q
    rw [heapShape_getElem?, heapShape_getElem?]
    by_cases hq : p = q
    · subst hq
      rw [Ledger.getElem?_update_self _ he, he]
      rfl
    · rw [Ledger.getElem?_update_ne _ _ hq]

/-! ## Allocation -/

/-- Object size of the slab caches that `CDD_init` creates. -/
def bufcacheSize : Nat := 256

/-- The allocation call `allocate_storage` makes for a storage type, and the
number of bytes that call returns. -/
def storageCall (d : CDDdev) (storageLength : Nat) :
    StorageType → Allocator × Nat
  | .vmalloc => (.vmalloc, storageLength)
  | .kmalloc => (.kmalloc .kernel, storageLength)
  | .kmallocHigh => (.kmalloc .high, storageLength)
  | .kmallocDma => (.kmalloc .dma, storageLength)
  | .kmemcache => (.kmemCacheAlloc d.bufcache, bufcacheSize)

/-- `fresh` is the outcome of the allocation call: the uninitialised content
of the memory it returned, or `none` when it returned the null pointer. -/
def allocateStorage (fresh : Option (Nat → Byte)) (s : DevState) :
    Option Nat × DevState :=
  let minor := minorOf s.dev.devno
  let storageLength := getStorageLength minor
  match getStorageType minor, fresh with
  | some type, some data =>
      let call := storageCall s.dev storageLength type
      let result := s.heap.length
      (some result,
        { dev := { s.dev with cddStorage := some result, allocLen := storageLength }
          heap := s.heap.acquire ⟨minor, call.1, ⟨call.2, data⟩⟩ })
  | _, _ => (none, s)

def storageRelease (d : CDDdev) : Deallocator :=
  match d.allocType with
  | .vmalloc => .vfree
  | .kmalloc | .kmallocHigh | .kmallocDma => .kfree
  | .kmemcache => .kmemCacheFree d.bufcache

def freeStorage (s : DevState) : DevState :=
  match s.dev.cddStorage with
  | some ptr =>
      { dev := { s.dev with cddStorage := none, allocLen := 0 }
        heap := s.heap.release ptr (storageRelease s.dev) }
  | none => s

end CddDriver
