import CddDriver.Invariant
import Mathlib.Tactic.Common
/-!
# What a read and a write copy

The ranges that `CDD_read` and `CDD_write` pass to `copy_to_user` and
`copy_from_user`.  The offsets go through `int`, `unsigned int`, `size_t` and
`loff_t`, and still every range that reaches a copy lies in the buffer.  A read
leaves one byte more in the caller's memory than it returns: it stores a null
character after the bytes that it delivers.
-/

namespace CddDriver

open Lib

/-! ## The ranges -/

/-- The offset and the count that `CDD_read` passes to `copy_to_user`; `none`
when it returns before. -/
def copyToUserRange (d : CDDdev) (ppos : Int) (count : Nat) :
    Option (Int × Nat) :=
  if ppos ≥ d.counter then none
  else
    let count : Nat :=
      if toULong (ppos + count) ≥ d.counter then
        (toULong (d.counter - ppos)).toNat
      else count
    if count = 0 then none else some (ppos, count)

/-- The offset and the count that `CDD_write` passes to `copy_from_user`;
`none` when it returns before. -/
def copyFromUserRange (d : CDDdev) (ppos : Int) (count : Nat) :
    Option (Int × Nat) :=
  let pos := writePos d ppos
  let end' := writeEnd pos count
  if toUInt end' > d.allocLen then none
  else if pos < 0 then none
  else some (pos, count)

theorem readBody_eq (buf : Nat → Byte) (count uncopied : Nat) (ppos : Int)
    (s : DevState) :
    readBody buf count uncopied ppos s =
      match copyToUserRange s.dev ppos count with
      | none => some ⟨0, ppos, buf⟩
      | some (pos, n) =>
          s.buffer.bind fun b =>
            if 0 ≤ pos ∧ pos.toNat + n ≤ b.mem.size then
              let left := min uncopied n
              let buf := copyToUser b.mem pos.toNat (n - left) buf
              if left ≠ 0 then some ⟨-efault, ppos, buf⟩
              else
                some ⟨toInt n, toLong (ppos + n),
                  fun i => if i = n then 0 else buf i⟩
            else none := by
  unfold readBody copyToUserRange
  by_cases hpast : ppos ≥ s.dev.counter
  · simp only [if_pos hpast]
  · simp only [if_neg hpast]
    generalize (if toULong (ppos + count) ≥ s.dev.counter then
      (toULong (s.dev.counter - ppos)).toNat else count) = n
    by_cases hn : n = 0
    · simp only [if_pos hn]
    · simp only [if_neg hn]
      cases s.buffer <;> rfl

theorem writeBody_eq (buf : List Byte) (copy : UserCopy) (ppos : Int)
    (s : DevState) :
    writeBody buf copy ppos s =
      match copyFromUserRange s.dev ppos buf.length with
      | none => some ⟨s, -efault, ppos⟩
      | some (pos, n) =>
          let left := min copy.uncopied n
          (s.poke pos.toNat (copy.stored 0 buf)).map fun t =>
            if left ≠ 0 then ⟨t, -efault, ppos⟩
            else
              let end' := toUInt (writeEnd pos n)
              let t :=
                if end' > t.dev.counter then
                  { t with dev := { t.dev with counter := end'.toNat } }
                else t
              ⟨t, toInt n, toLong (ppos + n)⟩ := by
  unfold writeBody copyFromUserRange
  by_cases hend : toUInt (writeEnd (writePos s.dev ppos) buf.length) >
      s.dev.allocLen
  · simp only [if_pos hend]
  · simp only [if_neg hend]
    by_cases hneg : writePos s.dev ppos < 0
    · simp only [if_pos hneg]
    · simp only [if_neg hneg]
      cases s.poke (writePos s.dev ppos).toNat
        (copy.stored 0 buf) with
      | none => rfl
      | some t =>
          simp only [Option.map_some]
          split <;> rfl

/-! ## The ranges in exact integers -/

def delivered (d : CDDdev) (ppos : Int) (count : Nat) : Nat :=
  (min (count : Int) (d.counter - ppos)).toNat

/-- The buffer of the device is live, has `alloc_len` bytes and holds the
content. -/
structure Buffered (s : DevState) (b : Buffer) : Prop where
  buffer : s.buffer = some b
  size : b.mem.size = s.dev.allocLen
  counter_le : s.dev.counter ≤ s.dev.allocLen
  allocLen_lt : s.dev.allocLen < 2 ^ 32

structure LiveBuffer (s : DevState) (b : Buffer) : Prop where
  buffer : s.buffer = some b
  size : b.mem.size = s.dev.allocLen
  allocLen_lt : s.dev.allocLen < 2 ^ 32

theorem Buffered.live {s : DevState} {b : Buffer} (h : Buffered s b) :
    LiveBuffer s b :=
  ⟨h.buffer, h.size, h.allocLen_lt⟩

theorem DeviceInv.buffered {major : Nat} {m : Minor} {s : DevState} {p : Nat}
    (h : DeviceInv major m s) (hp : s.dev.cddStorage = some p) :
    ∃ b, Buffered s b := by
  obtain ⟨x, hx, hsize, -⟩ := h.storage_entry hp
  have hlen := (h.storage p hp).1
  have hle := getStorageLength_le m
  exact ⟨x.item, DevState.buffer_eq_some.mpr ⟨p, x, hp, hx, rfl⟩, hsize,
    h.counter_le, by omega⟩

theorem copyToUserRange_eq {d : CDDdev} {ppos : Int} {count : Nat}
    (hcounter : d.counter < 2 ^ 32) (hrange : vfsRange ppos count = true) :
    copyToUserRange d ppos count =
      if delivered d ppos count = 0 then none
      else some (ppos, delivered d ppos count) := by
  obtain ⟨hpos, hcount, hsum⟩ := vfsRange_eq_true.mp hrange
  unfold copyToUserRange delivered
  by_cases hpast : ppos ≥ d.counter
  · have hzero : (min (count : Int) (d.counter - ppos)).toNat = 0 := by omega
    rw [if_pos hpast, if_pos hzero]
  · have hadd : toULong (ppos + count) = ppos + count :=
      wrapU_eq_self (by omega) (by omega)
    have hsub : toULong (d.counter - ppos) = d.counter - ppos :=
      wrapU_eq_self (by omega) (by omega)
    have hclamp : (if toULong (ppos + count) ≥ d.counter then
        (toULong (d.counter - ppos)).toNat else count) =
        (min (count : Int) (d.counter - ppos)).toNat := by
      rw [hadd, hsub]
      split <;> omega
    simp only [if_neg hpast, hclamp]

theorem copyFromUserRange_eq_some {d : CDDdev} {ppos pos : Int} {count n : Nat}
    (hcount : count ≤ maxRwCount)
    (h : copyFromUserRange d ppos count = some (pos, n)) :
    n = count ∧ 0 ≤ pos ∧ pos = writePos d ppos ∧ pos + count ≤ d.allocLen := by
  simp only [copyFromUserRange] at h
  split at h
  · cases h
  next hend =>
  split at h
  · cases h
  next hneg =>
  obtain ⟨rfl, rfl⟩ := Prod.mk.inj (Option.some.inj h)
  have hlt := writePos_lt d ppos
  -- `end` is compared as an unsigned number, so it is exact up to `2 ^ 32`
  have hexact := toUInt_writeEnd (Int.not_lt.mp hneg) hlt hcount
  exact ⟨rfl, by omega, rfl, by omega⟩

theorem copyToUserRange_eq_some {d : CDDdev} {ppos pos : Int} {count n : Nat}
    (hcounter : d.counter < 2 ^ 32) (hrange : vfsRange ppos count = true)
    (h : copyToUserRange d ppos count = some (pos, n)) :
    pos = ppos ∧ 0 ≤ pos ∧ pos + n ≤ d.counter := by
  have hpos := (vfsRange_eq_true.mp hrange).1
  rw [copyToUserRange_eq hcounter hrange] at h
  split at h
  · cases h
  next hsome =>
    obtain ⟨rfl, rfl⟩ := Prod.mk.inj (Option.some.inj h)
    unfold delivered at hsome ⊢
    exact ⟨rfl, hpos, by omega⟩

theorem LiveBuffer.poke {s : DevState} {b : Buffer} (h : LiveBuffer s b)
    {pos : Nat} {bytes : List Byte} (hfits : pos + bytes.length ≤ s.dev.allocLen) :
    ∃ t, s.poke pos bytes = some t := by
  obtain ⟨p, x, hp, hx, hitem⟩ := DevState.buffer_eq_some.mp h.buffer
  apply DevState.poke_eq_some hp hx
  rw [hitem, h.size]
  exact hfits

theorem LiveBuffer.cddWrite_total {s : DevState} {b : Buffer}
    (h : LiveBuffer s b) {buf : List Byte} (hcount : buf.length ≤ maxRwCount)
    (locked : Bool) (copy : UserCopy) (ppos : Int) :
    ∃ w, cddWrite locked buf copy ppos s = some w ∧
      ∀ i, w.state.byteAt i ≠ s.byteAt i →
        ∃ pos n, copyFromUserRange s.dev ppos buf.length = some (pos, n) ∧
          pos ≤ i ∧ i < pos + n := by
  cases locked with
  | false => exact ⟨_, rfl, fun i hi => absurd rfl hi⟩
  | true =>
      show ∃ w, writeBody buf copy ppos s = some w ∧ _
      rw [writeBody_eq]
      cases hcopy : copyFromUserRange s.dev ppos buf.length with
      | none => exact ⟨_, rfl, fun i hi => absurd rfl hi⟩
      | some r =>
          obtain ⟨pos, n⟩ := r
          obtain ⟨rfl, hpos, -, hle⟩ := copyFromUserRange_eq_some hcount hcopy
          have hstored := copy.length_stored_le 0 buf
          obtain ⟨t, ht⟩ := @LiveBuffer.poke s b h pos.toNat (copy.stored 0 buf)
            (by omega)
          simp only [ht, Option.map_some]
          refine ⟨_, rfl, fun i hi => ⟨pos, buf.length, rfl, ?_⟩⟩
          by_contra hout
          refine hi ((?_ : _ = t.byteAt i).trans
            (DevState.poke_byteAt_outside ht (by omega)))
          split
          · rfl
          · split <;> rfl

theorem Buffered.cddRead_total {s : DevState} {b : Buffer} (h : Buffered s b)
    {ppos : Int} {count : Nat} (hrange : vfsRange ppos count = true)
    (buf : Nat → Byte) (uncopied : Nat) :
    ∃ r, cddRead buf count uncopied ppos s = some r ∧
      ∀ i, r.buf i ≠ buf i →
        ∃ pos n, copyToUserRange s.dev ppos count = some (pos, n) ∧ i ≤ n := by
  have hcounter : s.dev.counter < 2 ^ 32 := h.counter_le.trans_lt h.allocLen_lt
  show ∃ r, readBody buf count uncopied ppos s = some r ∧ _
  rw [readBody_eq]
  cases hcopy : copyToUserRange s.dev ppos count with
  | none => exact ⟨_, rfl, fun i hi => absurd rfl hi⟩
  | some r =>
      obtain ⟨pos, n⟩ := r
      obtain ⟨-, hpos, hle⟩ := copyToUserRange_eq_some hcounter hrange hcopy
      have hfits : 0 ≤ pos ∧ pos.toNat + n ≤ b.mem.size := by
        have hcounter_le := h.counter_le
        rw [h.size]
        omega
      simp only [h.buffer, Option.bind_some, if_pos hfits]
      split
      · refine ⟨_, rfl, fun i hi => ⟨pos, n, rfl, ?_⟩⟩
        by_contra hout
        exact hi (if_neg (by omega))
      · refine ⟨_, rfl, fun i hi => ⟨pos, n, rfl, ?_⟩⟩
        by_contra hout
        refine hi ((if_neg (by omega)).trans (if_neg ?_))
        omega

/-- Whatever the offset, a write that reaches `copy_from_user` stores into the
buffer; and a read at an offset that the VFS passes reaches `copy_to_user` only
for content.  So neither call faults, whatever the outcome of its copy. -/
theorem copies_in_bounds {s : DevState} {b : Buffer} (h : Buffered s b) :
    (∀ (ppos : Int) (count : Nat), count ≤ maxRwCount → ∀ pos n,
      copyFromUserRange s.dev ppos count = some (pos, n) →
        n = count ∧ 0 ≤ pos ∧ pos + n ≤ s.dev.allocLen) ∧
    (∀ (ppos : Int) (count : Nat), vfsRange ppos count = true → ∀ pos n,
      copyToUserRange s.dev ppos count = some (pos, n) →
        pos = ppos ∧ 0 ≤ pos ∧ pos + n ≤ s.dev.counter) ∧
    (∀ (locked : Bool) (buf : List Byte) (copy : UserCopy) (ppos : Int),
      buf.length ≤ maxRwCount →
      ∃ w, cddWrite locked buf copy ppos s = some w ∧
        ∀ i, w.state.byteAt i ≠ s.byteAt i →
          ∃ pos n, copyFromUserRange s.dev ppos buf.length = some (pos, n) ∧
            pos ≤ i ∧ i < pos + n) ∧
    (∀ (buf : Nat → Byte) (count uncopied : Nat) (ppos : Int),
      vfsRange ppos count = true →
      ∃ r, cddRead buf count uncopied ppos s = some r ∧
        ∀ i, r.buf i ≠ buf i →
          ∃ pos n, copyToUserRange s.dev ppos count = some (pos, n) ∧ i ≤ n) := by
  refine ⟨?_, ?_, ?_, ?_⟩
  · intro ppos count hcount pos n hcopy
    obtain ⟨rfl, hpos, -, hle⟩ := copyFromUserRange_eq_some hcount hcopy
    exact ⟨rfl, hpos, hle⟩
  · intro ppos count hrange pos n hcopy
    exact copyToUserRange_eq_some (h.counter_le.trans_lt h.allocLen_lt) hrange hcopy
  · intro locked buf copy ppos hcount
    exact h.live.cddWrite_total hcount locked copy ppos
  · intro buf count uncopied ppos hrange
    exact h.cddRead_total hrange buf uncopied

theorem copies_in_bounds_half_full :
    copyFromUserRange { CDDdev.zero with allocLen := 8, counter := 2 } 6 2 =
        some (6, 2) ∧
      copyFromUserRange { CDDdev.zero with allocLen := 8, counter := 2 } 7 2 =
        none ∧
      copyToUserRange { CDDdev.zero with allocLen := 8, counter := 2 } 1 5 =
        some (1, 1) ∧
      (6 : Int) + 2 ≤ 8 ∧ (1 : Int) + 1 ≤ 2 := by
  have h : Buffered
      ⟨{ CDDdev.zero with allocLen := 8, counter := 2, cddStorage := some 0 },
        [⟨⟨0, .vmalloc, ⟨8, fun _ => 0⟩⟩, []⟩]⟩
      ⟨0, .vmalloc, ⟨8, fun _ => 0⟩⟩ := ⟨rfl, rfl, by decide, by decide⟩
  obtain ⟨hwrite, hread, -, -⟩ := copies_in_bounds h
  have hstored := hwrite 6 2 (by decide) 6 2 (by decide)
  have hcopied := hread 1 5 (by decide) 1 1 (by decide)
  exact ⟨by decide, by decide, by decide, hstored.2.2, hcopied.2.2⟩

/-! ## Writes that are refused and writes that fit -/

section Write

variable {s : DevState} {b : Buffer} {ppos : Int} {pos : Nat} {buf : List Byte}

theorem copyFromUserRange_of_pos {d : CDDdev} {count : Nat}
    (hpos : writePos d ppos = pos) (hcount : count ≤ maxRwCount) :
    copyFromUserRange d ppos count =
      if pos + count ≤ d.allocLen then some ((pos : Int), count) else none := by
  have hlt := writePos_lt d ppos
  rw [hpos] at hlt
  have hexact := toUInt_writeEnd (Int.natCast_nonneg pos) hlt hcount
  have hneg : ¬ (pos : Int) < 0 := by omega
  simp only [copyFromUserRange, hpos, hexact, if_neg hneg]
  split <;> split <;> first | rfl | omega

theorem writeBody_refused {copy : UserCopy} (hpos : writePos s.dev ppos = pos)
    (hcount : buf.length ≤ maxRwCount) (h : s.dev.allocLen < pos + buf.length) :
    writeBody buf copy ppos s = some ⟨s, -efault, ppos⟩ := by
  rw [writeBody_eq, copyFromUserRange_of_pos hpos hcount,
    if_neg (Nat.not_le.mpr h)]

theorem LiveBuffer.writeBody_fits (h : LiveBuffer s b) {copy : UserCopy}
    (hcopied : copy.uncopied = 0) (hpos : writePos s.dev ppos = pos)
    (hcount : buf.length ≤ maxRwCount) (hfits : pos + buf.length ≤ s.dev.allocLen) :
    ∃ t, s.poke pos buf = some t ∧
      writeBody buf copy ppos s =
        some ⟨⟨{ s.dev with counter := max s.dev.counter (pos + buf.length) },
          t.heap⟩, buf.length, toLong (ppos + buf.length)⟩ := by
  obtain ⟨t, ht⟩ := h.poke hfits
  have hleft : min copy.uncopied buf.length = 0 := by rw [hcopied, Nat.zero_min]
  have hlt := writePos_lt s.dev ppos
  rw [hpos] at hlt
  have hexact := toUInt_writeEnd (Int.natCast_nonneg pos) hlt hcount
  have hret : toInt buf.length = buf.length := by
    unfold maxRwCount at hcount
    exact wrapS_eq_self (by omega) (by omega) (by omega)
  refine ⟨t, ht, ?_⟩
  rw [writeBody_eq, copyFromUserRange_of_pos hpos hcount, if_pos hfits]
  simp only [hleft, UserCopy.stored_of_copied hleft, Int.toNat_natCast,
    ht, Option.map_some, ne_eq, not_true_eq_false, if_false, hret, hexact,
    Option.some.injEq, WriteResult.mk.injEq, and_true]
  have hdev := DevState.poke_dev ht
  split
  · next hgt =>
      have hmax : max s.dev.counter (pos + buf.length) =
          ((pos : Int) + buf.length).toNat := by
        rw [hdev] at hgt
        omega
      simp only [hmax, hdev]
  · next hle =>
      have hmax : max s.dev.counter (pos + buf.length) = s.dev.counter := by
        rw [hdev] at hle
        omega
      rw [hmax]
      exact congrArg (fun d => DevState.mk d t.heap) hdev

end Write

/-! ## What a read leaves in the caller's memory -/

section Read

variable {s : DevState} {b : Buffer}

theorem Buffered.readBody_eq (h : Buffered s b) {ppos : Int} {count : Nat}
    (hrange : vfsRange ppos count = true) (buf : Nat → Byte) :
    readBody buf count 0 ppos s =
      some ⟨delivered s.dev ppos count, ppos + delivered s.dev ppos count,
        fun i =>
          if i < delivered s.dev ppos count then b.mem.data (ppos.toNat + i)
          else if i = delivered s.dev ppos count ∧ i ≠ 0 then 0 else buf i⟩ := by
  obtain ⟨hpos, hcount, hsum⟩ := vfsRange_eq_true.mp hrange
  have hcounter : s.dev.counter < 2 ^ 32 := h.counter_le.trans_lt h.allocLen_lt
  have hn : delivered s.dev ppos count ≤ count := by
    unfold delivered
    omega
  rw [CddDriver.readBody_eq, copyToUserRange_eq hcounter hrange]
  generalize hdelivered : delivered s.dev ppos count = n at hn
  by_cases hzero : n = 0
  · subst hzero
    simp
  · have hfits : 0 ≤ ppos ∧ ppos.toNat + n ≤ b.mem.size := by
      have hle := h.counter_le
      rw [h.size]
      unfold delivered at hdelivered
      omega
    have hret : toInt n = n := by
      unfold maxRwCount at hcount
      exact wrapS_eq_self (by omega) (by omega) (by omega)
    have hadd : toLong (ppos + n) = ppos + n :=
      wrapS_eq_self (by omega) (by omega) (by omega)
    have hleft : min 0 n = 0 := Nat.zero_min n
    simp only [if_neg hzero, h.buffer, Option.bind_some, if_pos hfits, hleft,
      ne_eq, not_true_eq_false, if_false, hret, hadd, Nat.sub_zero,
      Option.some.injEq, ReadResult.mk.injEq, true_and]
    funext i
    by_cases hlt : i < n
    · simp [copyToUser, hlt, Nat.ne_of_lt hlt]
    · by_cases heq : i = n
      · simp [heq, hzero]
      · simp [copyToUser, hlt, heq]

end Read

/-- The read of file `f` at `ppos` that leaves the memory `r.buf` delivers the
content, touches nothing past it, and leaves the device as it was. -/
structure ReadsExactly (m : Minor) (buf : Nat → Byte) (count : Nat) (ppos : Int)
    (r : ReadResult) (y z : System) : Prop where
  retval : r.retval = max 0 (min (count : Int) ((y.world.cddDev m).counter - ppos))
  copied : ∀ i : Nat, i < r.retval →
    (y.devState m).byteAt (ppos.toNat + i) = some (r.buf i)
  kept : ∀ i : Nat, r.retval ≤ i → r.buf i = buf i
  ppos : r.ppos = ppos + r.retval
  device : z.devState m = y.devState m

/-- A read delivers exactly what it returns when there is nothing to deliver,
or when the byte after the delivered ones was null already. -/
theorem readsExactly_iff {y : System} {f : Nat} {m : Minor} {fFlags : Nat}
    {fPos : Int} {at? : Option Int} {buf : Nat → Byte} {count : Nat} {b : Buffer}
    (hf : y.files f = .opened m fFlags fPos)
    (hrange : vfsRange (at?.getD fPos) count = true)
    (h : Buffered (y.devState m) b) :
    ∃ z r, driver.step y (.read f at? buf count 0) =
        some (z, .read (at?.getD fPos) r) ∧
      (ReadsExactly m buf count (at?.getD fPos) r y z ↔
        delivered (y.world.cddDev m) (at?.getD fPos) count = 0 ∨
          buf (delivered (y.world.cddDev m) (at?.getD fPos) count) = 0) := by
  have hread := h.readBody_eq hrange buf
  generalize hppos : at?.getD fPos = ppos at hrange hread ⊢
  have hdev : (y.devState m).dev = y.world.cddDev m := rfl
  rw [hdev] at hread
  generalize hn : delivered (y.world.cddDev m) ppos count = n at hread ⊢
  have hstep : driver.step y (.read f at? buf count 0) =
      some (y.moveTo f m fFlags at? (ppos + n), .read ppos
        ⟨n, ppos + n, fun i =>
          if i < n then b.mem.data (ppos.toNat + i)
          else if i = n ∧ i ≠ 0 then 0 else buf i⟩) := by
    show y.call (.read f at? buf count 0) = _
    simp only [System.call, hf, hppos, hrange, if_true, cddRead, hread,
      Option.map_some]
  refine ⟨_, _, hstep, ?_⟩
  constructor
  · intro hexact
    by_cases hzero : n = 0
    · exact .inl hzero
    · have hkept := hexact.kept n (le_refl _)
      simp only [lt_irrefl, if_false, true_and, hzero, ne_eq,
        not_false_eq_true, if_true] at hkept
      exact .inr hkept.symm
  · intro hcond
    refine ⟨?_, ?_, ?_, rfl, ?_⟩
    · unfold delivered at hn
      show (n : Int) = _
      omega
    · intro i hi
      have hi : i < n := Int.ofNat_lt.mp hi
      have hbyte : (y.devState m).byteAt (ppos.toNat + i) =
          some (b.mem.data (ppos.toNat + i)) := by
        simp [DevState.byteAt, h.buffer]
      simp [hbyte, hi]
    · intro i hi
      have hi : n ≤ i := Int.ofNat_le.mp hi
      by_cases heq : i = n ∧ i ≠ 0
      · obtain ⟨rfl, hne⟩ := heq
        rcases hcond with hzero | hnull
        · exact absurd hzero hne
        · simp [hnull]
      · simp only [if_neg (Nat.not_lt.mpr hi), if_neg heq]
    · simp [System.devState]

theorem readsExactly_iff_null_memory :
    ∃ y z r, driver.step y (.read 0 none (fun _ => 0) 4 0) =
        some (z, .read 0 r) ∧
      r.retval = 1 ∧ ReadsExactly 0 (fun _ => 0) 4 0 r y z := by
  let d : CDDdev :=
    { CDDdev.zero with allocLen := 8, counter := 1, cddStorage := some 0 }
  let y : System :=
    ⟨{ World.zero with
        cddDev := fun _ => d, heap := [⟨⟨0, .vmalloc, ⟨8, fun _ => 65⟩⟩, []⟩] },
      fun _ => .opened 0 oRdwr 0⟩
  have h : Buffered (y.devState 0) ⟨0, .vmalloc, ⟨8, fun _ => 65⟩⟩ :=
    ⟨rfl, rfl, by decide, by decide⟩
  obtain ⟨z, r, hstep, hiff⟩ := @readsExactly_iff y 0 0 oRdwr 0 none
    (fun _ => 0) 4 _ rfl (by decide) h
  have hexact := hiff.mpr (.inr rfl)
  exact ⟨y, z, r, hstep, hexact.retval, hexact⟩

/-- A read of four bytes from a device that holds one returns 1 and clears the
byte after it. -/
theorem not_readsExactly_trailing_null :
    ∃ y z r, driver.exec (loaded undisturbed)
        [.openFile 0 0 oRdwr true (some fun _ => 0), .write 0 none [65] true .whole] =
          some y ∧
      driver.step y (.read 0 (some 0) (fun _ => 1) 4 0) = some (z, .read 0 r) ∧
      r.retval = 1 ∧ ¬ ReadsExactly 0 (fun _ => 1) 4 0 r y z := by
  have hrun : ((driver.exec (loaded undisturbed)
      [.openFile 0 0 oRdwr true (some fun _ => 0),
        .write 0 none [65] true .whole]).bind fun y =>
      (driver.step y (.read 0 (some 0) (fun _ => 1) 4 0)).map fun t =>
        (match t.2 with
          | .read start r => (start, r.retval, r.buf 1)
          | _ => (0, 0, 0))) = some (0, 1, 0) := by decide
  obtain ⟨y, hy, hmap⟩ := Option.bind_eq_some_iff.mp hrun
  obtain ⟨⟨z, o⟩, hstep, heq⟩ := Option.map_eq_some_iff.mp hmap
  cases o with
  | read start r =>
      simp only [Prod.mk.injEq] at heq
      obtain ⟨rfl, hretval, hbuf⟩ := heq
      refine ⟨y, z, r, hy, hstep, hretval, fun hexact => ?_⟩
      have hkept := hexact.kept 1 (by rw [hretval]; decide)
      rw [hbuf] at hkept
      exact absurd hkept (by decide)
  | _ => simp at heq

end CddDriver
