import CddDriver.FileOps
import Mathlib.Data.Fintype.Basic
import Mathlib.Tactic.Common
import Mathlib.Tactic.FinCases
/-!
# What each file operation can do

One inversion lemma for each function of `FileOps`: the possible outcomes with
their guards, in exact integers.  Later modules use these and never unfold the
functions.
-/

namespace CddDriver

open Lib

/-! ## allocate_storage -/

def deviceAllocator (d : CDDdev) (m : Minor) : Allocator :=
  match getStorageType m with
  | some type => (storageCall d (getStorageLength m) type).1
  | none => .vmalloc

def allocated (data : Nat → Byte) (m : Minor) (s : DevState) : DevState where
  dev := { s.dev with
    cddStorage := some s.heap.length, allocLen := getStorageLength m }
  heap := s.heap.acquire
    ⟨m, deviceAllocator s.dev m, ⟨getStorageLength m, data⟩⟩

theorem allocateStorage_none (s : DevState) :
    allocateStorage none s = (none, s) := by
  simp only [allocateStorage]
  cases getStorageType (minorOf s.dev.devno) <;> rfl

theorem allocateStorage_some {m : Minor} {s : DevState}
    (hm : minorOf s.dev.devno = m) (data : Nat → Byte) :
    allocateStorage (some data) s =
      (some s.heap.length, allocated data m s) := by
  have hsize : ∀ k : Minor, ∃ type, getStorageType k = some type ∧
      (storageCall s.dev (getStorageLength k) type).2 = getStorageLength k := by
    intro k
    fin_cases k
    exacts [⟨.vmalloc, rfl, rfl⟩, ⟨.kmalloc, rfl, rfl⟩, ⟨.kmallocHigh, rfl, rfl⟩,
      ⟨.kmallocDma, rfl, rfl⟩, ⟨.kmemcache, rfl, rfl⟩]
  obtain ⟨type, htype, hlen⟩ := hsize m
  simp only [allocateStorage, allocated, deviceAllocator, hm, htype, hlen]

theorem allocateStorage_counter (fresh : Option (Nat → Byte)) (s : DevState) :
    (allocateStorage fresh s).2.dev.counter = s.dev.counter := by
  simp only [allocateStorage]
  split
  · rfl
  · rfl

theorem getStorageLength_pos (m : Minor) : 0 < getStorageLength m := by
  revert m
  decide

theorem getStorageLength_le (m : Minor) : getStorageLength m ≤ 4096 := by
  revert m
  decide

/-! ## CDD_open -/

theorem contentIsUnavailable_eq (d : CDDdev) (fFlags : Nat) :
    contentIsUnavailable d fFlags = 0 ∨ contentIsUnavailable d fFlags = 1 := by
  simp only [contentIsUnavailable]
  split
  · exact .inr rfl
  · exact .inl rfl

theorem contentIsUnavailable_congr {d d' : CDDdev} (h : d'.counter = d.counter)
    (fFlags : Nat) :
    contentIsUnavailable d' fFlags = contentIsUnavailable d fFlags := by
  simp only [contentIsUnavailable, h]

theorem contentIsUnavailable_reader {d : CDDdev} {fFlags : Nat}
    (htrunc : hasFlag fFlags oTrunc = false)
    (h : contentIsUnavailable d fFlags ≠ 0) : d.counter = 0 := by
  simp only [contentIsUnavailable] at h
  split at h
  · next hc =>
      simp only [htrunc, Bool.or_false, Bool.and_eq_true, decide_eq_true_eq] at hc
      exact hc.2
  · exact absurd rfl h

theorem contentIsUnavailable_writer {d : CDDdev} {fFlags : Nat}
    (h : fFlags &&& oAccmode ≠ oRdonly) : contentIsUnavailable d fFlags = 0 := by
  simp [contentIsUnavailable, h]

section Commit

variable {fFlags : Nat} {s s' : DevState}

def committed (fFlags : Nat) (d : CDDdev) : CDDdev :=
  { d with
    activeOpens := (d.activeOpens + 1) % 2 ^ 32
    append := hasFlag fFlags oAppend
    counter := if hasFlag fFlags oTrunc then 0 else d.counter }

theorem openCommit_cases (h : openCommit fFlags s = some s') :
    s'.dev = committed fFlags s.dev ∧
      ((hasFlag fFlags oTrunc = false ∧ s'.heap = s.heap) ∨
        ∃ t, hasFlag fFlags oTrunc = true ∧
          DevState.poke ⟨countOpen s.dev, s.heap⟩ 0 [0] = some t ∧
          s'.heap = t.heap) := by
  simp only [openCommit] at h
  obtain ⟨t, ht, rfl⟩ := Option.map_eq_some_iff.mp h
  cases htrunc : hasFlag fFlags oTrunc with
  | false =>
      simp only [htrunc, Bool.false_eq_true, if_false, Option.some.injEq] at ht
      subst ht
      cases happ : hasFlag fFlags oAppend <;>
          simp [committed, countOpen, htrunc, happ]
  | true =>
      simp only [htrunc, if_true] at ht
      obtain ⟨u, hu, rfl⟩ := Option.map_eq_some_iff.mp ht
      refine ⟨?_, .inr ⟨u, rfl, hu, ?_⟩⟩
      · cases happ : hasFlag fFlags oAppend <;>
          simp [committed, countOpen, htrunc, happ, DevState.poke_dev hu]
      · cases happ : hasFlag fFlags oAppend <;> rfl

theorem openCommit_dev (h : openCommit fFlags s = some s') :
    s'.dev = committed fFlags s.dev :=
  (openCommit_cases h).1

theorem openCommit_heap (h : openCommit fFlags s = some s')
    (htrunc : hasFlag fFlags oTrunc = false) : s'.heap = s.heap := by
  rcases (openCommit_cases h).2 with ⟨-, hheap⟩ | ⟨t, htrue, -⟩
  · exact hheap
  · simp [htrunc] at htrue

theorem openCommit_heapShape (h : openCommit fFlags s = some s') :
    heapShape s'.heap = heapShape s.heap := by
  rcases (openCommit_cases h).2 with ⟨-, hheap⟩ | ⟨t, -, ht, hheap⟩
  · rw [hheap]
  · rw [hheap, poke_heapShape ht]

theorem openCommit_getElem?_ne {q : Nat} (h : openCommit fFlags s = some s')
    (hq : s.dev.cddStorage ≠ some q) : s'.heap[q]? = s.heap[q]? := by
  rcases (openCommit_cases h).2 with ⟨-, hheap⟩ | ⟨t, -, ht, hheap⟩
  · rw [hheap]
  · rw [hheap]
    exact (DevState.poke_getElem?_ne ht hq :)

end Commit

section Open

variable {fFlags : Nat} {s s' : DevState} {status : OpenStatus}

/-- With the lock held at the loop test, `CDD_open` commits or lets go of the
device as it found it. -/
theorem openRest_cases (h : openRest fFlags s = some (s', status)) :
    (contentIsUnavailable s.dev fFlags = 0 ∧ status = .returned 0 ∧
        openCommit fFlags s = some s') ∨
      (contentIsUnavailable s.dev fFlags ≠ 0 ∧ s' = s ∧
        status ≠ .returned 0) := by
  unfold openRest waitHead at h
  by_cases hun : contentIsUnavailable s.dev fFlags = 0
  · simp only [hun, ne_eq, not_true_eq_false, if_false,
      Option.map_eq_some_iff, Prod.mk.injEq] at h
    obtain ⟨t, ht, rfl, rfl⟩ := h
    exact .inl ⟨hun, rfl, ht⟩
  · rw [if_pos hun] at h
    cases hnb : hasFlag fFlags oNonblock with
    | false =>
        simp only [hnb, Bool.false_eq_true, if_false, Option.some.injEq,
          Prod.mk.injEq] at h
        obtain ⟨rfl, rfl⟩ := h
        exact .inr ⟨hun, rfl, by simp⟩
    | true =>
        simp only [hnb, if_true, Option.some.injEq, Prod.mk.injEq] at h
        obtain ⟨rfl, rfl⟩ := h
        exact .inr ⟨hun, rfl, by decide⟩

theorem openBody_none (fFlags : Nat) (s : DevState) :
    openBody none fFlags s =
      some (⟨{ s.dev with cddStorage := none }, s.heap⟩, .returned (-enomem)) := by
  simp only [openBody, allocateStorage_none, if_true]

theorem openBody_some {m : Minor} {s : DevState} (hm : minorOf s.dev.devno = m)
    (data : Nat → Byte) (fFlags : Nat) :
    openBody (some data) fFlags s = openRest fFlags (allocated data m s) := by
  simp only [openBody, allocateStorage_some hm, reduceCtorEq, if_false]
  rfl

theorem openBody_cases {fresh : Option (Nat → Byte)} {m : Minor}
    (hm : minorOf s.dev.devno = m)
    (h : openBody fresh fFlags s = some (s', status)) :
    (fresh = none ∧ s' = ⟨{ s.dev with cddStorage := none }, s.heap⟩ ∧
        status = .returned (-enomem)) ∨
      ∃ data, fresh = some data ∧
        openRest fFlags (allocated data m s) = some (s', status) := by
  cases fresh with
  | none =>
      rw [openBody_none, Option.some.injEq, Prod.mk.injEq] at h
      exact .inl ⟨rfl, h.1.symm, h.2.symm⟩
  | some data =>
      rw [openBody_some hm] at h
      exact .inr ⟨data, rfl, h⟩

theorem openCommit_counter (h : openCommit fFlags s = some s') :
    s'.dev.counter ≤ s.dev.counter := by
  rw [openCommit_dev h]
  simp only [committed]
  split
  · exact Nat.zero_le _
  · exact le_refl _

theorem openBody_counter {fresh : Option (Nat → Byte)}
    (h : openBody fresh fFlags s = some (s', status)) :
    s'.dev.counter ≤ s.dev.counter := by
  have hkeep := allocateStorage_counter fresh s
  simp only [openBody] at h
  split at h
  · obtain ⟨rfl, -⟩ := Prod.mk.inj (Option.some.inj h)
    exact hkeep.le
  · rcases openRest_cases h with ⟨-, -, hcommit⟩ | ⟨-, rfl, -⟩
    · exact (openCommit_counter hcommit).trans hkeep.le
    · exact hkeep.le

end Open

/-! ## CDD_write -/

/-- The largest byte count that the VFS passes on. -/
def maxRwCount : Nat := 0x7ffff000

theorem writePos_lt (d : CDDdev) (ppos : Int) : writePos d ppos < 2 ^ 31 := by
  unfold writePos toInt wrapS
  omega

/-- For a non-negative offset the 32-bit variable `end` is exact. -/
theorem toUInt_writeEnd {pos : Int} {count : Nat} (h₀ : 0 ≤ pos)
    (h₁ : pos < 2 ^ 31) (hcount : count ≤ maxRwCount) :
    toUInt (writeEnd pos count) = pos + count := by
  have hpos : toULong pos = pos := wrapU_eq_self h₀ (by omega)
  have hsum : toULong (pos + count) = pos + count := by
    apply wrapU_eq_self
    · omega
    · unfold maxRwCount at hcount
      omega
  unfold writeEnd
  rw [hpos, hsum]
  refine (wrapU_wrapS 32 (pos + count)).trans (wrapU_eq_self ?_ ?_)
  · omega
  · unfold maxRwCount at hcount
    omega

/-- A write is refused without effect, or its exact range
`[pos, pos + count)` lies in the buffer and it stores there all its bytes, or
what the user copy leaves of them when it fails. -/
theorem writeBody_cases {buf : List Byte} {copy : UserCopy} {ppos : Int}
    {s : DevState} {w : WriteResult} (hcount : buf.length ≤ maxRwCount)
    (h : writeBody buf copy ppos s = some w) :
    w = ⟨s, -efault, ppos⟩ ∨
      ∃ pos : Nat, writePos s.dev ppos = pos ∧
        pos + buf.length ≤ s.dev.allocLen ∧
        ((∃ t, min copy.uncopied buf.length ≠ 0 ∧
            s.poke pos (copy.stored 0 buf) =
              some t ∧ w = ⟨t, -efault, ppos⟩) ∨
          ∃ t, min copy.uncopied buf.length = 0 ∧ s.poke pos buf = some t ∧
            w = ⟨⟨{ t.dev with counter := max t.dev.counter (pos + buf.length) },
              t.heap⟩, buf.length, toLong (ppos + buf.length)⟩) := by
  simp only [writeBody] at h
  split at h
  · exact .inl (Option.some.inj h).symm
  next hend =>
  split at h
  · exact .inl (Option.some.inj h).symm
  next hneg =>
  right
  obtain ⟨pos, hpos⟩ := Int.eq_ofNat_of_zero_le (Int.not_lt.mp hneg)
  have hlt := writePos_lt s.dev ppos
  have hexact : toUInt (writeEnd (writePos s.dev ppos) buf.length) =
      pos + buf.length := by
    rw [toUInt_writeEnd (by omega) hlt hcount, hpos]
  rw [hexact] at hend h
  rw [hpos, Int.toNat_natCast] at h
  refine ⟨pos, hpos, by omega, ?_⟩
  split at h
  · cases h
  next t ht =>
  split at h
  · next hleft => exact .inl ⟨t, hleft, ht, (Option.some.inj h).symm⟩
  next hleft =>
  right
  rw [UserCopy.stored_of_copied (Decidable.not_not.mp hleft)] at ht
  have hret : toInt buf.length = buf.length := by
    apply wrapS_eq_self (by omega)
    · omega
    · unfold maxRwCount at hcount
      omega
  refine ⟨t, by omega, ht, ?_⟩
  rw [← Option.some.inj h, hret]
  split
  · next hgt =>
      have hmax : max t.dev.counter (pos + buf.length) =
          (↑pos + ↑buf.length : Int).toNat := by omega
      rw [hmax]
  · next hle =>
      have hmax : max t.dev.counter (pos + buf.length) = t.dev.counter := by
        omega
      rw [hmax]

/-! ## CDD_read -/

/-- A read that returns a positive result delivered the bytes of the buffer
from the file position on, all below `counter`. -/
theorem readBody_pos {buf : Nat → Byte} {count uncopied : Nat} {ppos : Int}
    {s : DevState} {r : ReadResult} (hcounter : s.dev.counter < 2 ^ 31)
    (hcount : count ≤ maxRwCount) (hpos : 0 ≤ ppos) (hsum : ppos + count < 2 ^ 63)
    (h : readBody buf count uncopied ppos s = some r) (hr : 0 < r.retval) :
    ∃ start n : Nat, ppos = start ∧ r.retval = n ∧ start + n ≤ s.dev.counter ∧
      ∀ i < n, s.byteAt (start + i) = some (r.buf i) := by
  simp only [readBody] at h
  split at h
  · obtain rfl := Option.some.inj h
    exact absurd hr (lt_irrefl 0)
  next hlt =>
  obtain ⟨start, rfl⟩ := Int.eq_ofNat_of_zero_le hpos
  obtain ⟨n, hn, hle⟩ : ∃ n : Nat,
      (if toULong (↑start + ↑count) ≥ ↑s.dev.counter then
        (toULong (↑s.dev.counter - ↑start)).toNat else count) = n ∧
      start + n ≤ s.dev.counter := by
    unfold maxRwCount at hcount
    have hsum' : toULong (↑start + ↑count) = start + count :=
      wrapU_eq_self (by omega) (by omega)
    have hdiff : toULong (↑s.dev.counter - ↑start) = s.dev.counter - start :=
      wrapU_eq_self (by omega) (by omega)
    rw [hsum', hdiff]
    split
    · exact ⟨_, rfl, by omega⟩
    · exact ⟨_, rfl, by omega⟩
  rw [hn] at h
  split at h
  · obtain rfl := Option.some.inj h
    exact absurd hr (lt_irrefl 0)
  split at h
  next b hb =>
    split at h
    · split at h
      · obtain rfl := Option.some.inj h
        exact absurd (show (0 : Int) < -efault from hr) (by decide)
      · next hleft =>
          obtain rfl := Option.some.inj h
          have hret : toInt n = n := wrapS_eq_self (by omega) (by omega) (by omega)
          refine ⟨start, n, rfl, hret, hle, fun i hi => ?_⟩
          have hne : i ≠ n := Nat.ne_of_lt hi
          have hall : n - min uncopied n = n := by
            rw [Decidable.not_not.mp hleft, Nat.sub_zero]
          simp [DevState.byteAt, hb, copyToUser, hne, hall, hi]
    · cases h
  · cases h

end CddDriver
