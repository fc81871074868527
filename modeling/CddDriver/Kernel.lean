import CddDriver.Lib.Block
import CddDriver.Lib.CInt
import CddDriver.Lib.Ledger
import Mathlib.Tactic.Common
/-!
# What the driver uses of the kernel

Error numbers, open flags, device numbers, the allocators with their
deallocators, and the integer types of a 64-bit kernel.
-/

namespace CddDriver

open Lib

abbrev Byte := UInt8

/-! ## Integer types -/

abbrev toInt (x : Int) : Int := wrapS 32 x

abbrev toUInt (x : Int) : Int := wrapU 32 x

/-- Conversion to `loff_t`, `ssize_t` and `long`. -/
abbrev toLong (x : Int) : Int := wrapS 64 x

/-- Conversion to `size_t` and `unsigned long`. -/
abbrev toULong (x : Int) : Int := wrapU 64 x

/-! ## Error numbers -/

def eagain : Int := 11
def enomem : Int := 12
def efault : Int := 14
def einval : Int := 22
def enotty : Int := 25
def erestartsys : Int := 512

/-! ## Open flags -/

def oAccmode : Nat := 3
def oRdonly : Nat := 0
def oWronly : Nat := 1
def oRdwr : Nat := 2
def oTrunc : Nat := 512
def oAppend : Nat := 1024
def oNonblock : Nat := 2048

def hasFlag (fFlags flag : Nat) : Bool := fFlags &&& flag != 0

/-! ## Seek origins -/

def seekSet : Int := 0
def seekCur : Int := 1
def seekEnd : Int := 2

/-! ## Device numbers: a 32-bit `dev_t` with 20 bits of minor number -/

def mkdev (ma mi : Nat) : Nat := (ma <<< 20 ||| mi) % 2 ^ 32

def majorOf (dev : Nat) : Nat := dev >>> 20

def minorOf (dev : Nat) : Nat := dev &&& (2 ^ 20 - 1)

theorem minorOf_mkdev (ma : Nat) {mi : Nat} (h : mi < 2 ^ 20) :
    minorOf (mkdev ma mi) = mi := by
  unfold minorOf mkdev
  rw [Nat.and_two_pow_sub_one_eq_mod,
    Nat.mod_mod_of_dvd _ (Nat.pow_dvd_pow 2 (by omega)), Nat.or_mod_two_pow,
    Nat.shiftLeft_eq, Nat.mul_mod_left, Nat.zero_or, Nat.mod_eq_of_lt h]

/-! ## User memory -/

/-- The outcome of `copy_from_user`: the number of bytes that it fails to copy,
and whether it sets those to zero in the kernel's memory. -/
structure UserCopy where
  uncopied : Nat
  padded : Bool
  deriving DecidableEq

namespace UserCopy

abbrev whole : UserCopy := ⟨0, false⟩

def stored {α : Type*} (zero : α) (copy : UserCopy) (bytes : List α) : List α :=
  let left := min copy.uncopied bytes.length
  bytes.take (bytes.length - left) ++
    if copy.padded then List.replicate left zero else []

variable {α : Type*} {zero : α} {copy : UserCopy} {bytes : List α}

theorem stored_of_copied (h : min copy.uncopied bytes.length = 0) :
    copy.stored zero bytes = bytes := by
  simp [stored, h]

theorem length_stored_le (zero : α) (copy : UserCopy) (bytes : List α) :
    (copy.stored zero bytes).length ≤ bytes.length := by
  simp only [stored, List.length_append, List.length_take]
  split
  · rw [List.length_replicate]
    omega
  · rw [List.length_nil]
    omega

end UserCopy

/-! ## Memory -/

/-- Where `kmalloc` takes memory from: `GFP_KERNEL`, or that with
`__GFP_HIGHMEM` or `__GFP_DMA`. -/
inductive GfpZone where
  | kernel
  | high
  | dma
  deriving DecidableEq

/-- The calls that return memory; a slab cache is named by its handle. -/
inductive Allocator where
  | vmalloc
  | kmalloc (zone : GfpZone)
  | kmemCacheAlloc (cache : Option Nat)
  deriving DecidableEq

inductive Deallocator where
  | vfree
  | kfree
  | kmemCacheFree (cache : Option Nat)
  deriving DecidableEq

def Allocator.counterpart : Allocator → Deallocator
  | .vmalloc => .vfree
  | .kmalloc _ => .kfree
  | .kmemCacheAlloc cache => .kmemCacheFree cache

/-- A data buffer: the minor number of the device that asked for it, the call
that returned it and its memory. -/
structure Buffer where
  owner : Nat
  source : Allocator
  mem : Block Byte

def Buffer.store (pos : Nat) (bytes : List Byte) (b : Buffer) : Buffer :=
  { b with mem := b.mem.store pos bytes }

/-- Every data buffer ever allocated, with the deallocators it was passed to. -/
abbrev Heap := Ledger Buffer Deallocator

end CddDriver
