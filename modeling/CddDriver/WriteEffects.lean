import CddDriver.WideOffsets
import Mathlib.Tactic.Common
/-!
# What a write leaves behind

`CDD_write` copies straight into the live buffer and raises the fill level
afterwards.  So a write whose user copy fails has changed bytes already, and a
write that starts past the content makes the gap in between readable, which
nobody has stored to.
-/

namespace CddDriver

open Lib

/-! ## The outcomes of CDD_write -/

/-- The possible outcomes of a write: refused by its lock or by its range
checks; failed in the user copy, which has stored something; or carried out. -/
inductive WriteOutcome (locked : Bool) (buf : List Byte) (copy : UserCopy)
    (ppos : Int) (s : DevState) : WriteResult → Prop where
  | refused {e : Int} : e < 0 →
      (locked = true → ¬ Accepts ppos buf.length s.dev) →
      WriteOutcome locked buf copy ppos s ⟨s, e, ppos⟩
  | faulted {t : DevState} : locked = true → Accepts ppos buf.length s.dev →
      min copy.uncopied buf.length ≠ 0 →
      s.poke (lowOffset ppos s.dev) (copy.stored 0 buf) = some t →
      WriteOutcome locked buf copy ppos s ⟨t, -efault, ppos⟩
  | stored {t : DevState} : locked = true → Accepts ppos buf.length s.dev →
      min copy.uncopied buf.length = 0 →
      s.poke (lowOffset ppos s.dev) buf = some t →
      WriteOutcome locked buf copy ppos s
        ⟨⟨{ s.dev with
            counter := max s.dev.counter (lowOffset ppos s.dev + buf.length) },
          t.heap⟩, buf.length, toLong (ppos + buf.length)⟩

theorem toInt_count {count : Nat} (h : count ≤ maxRwCount) :
    toInt count = count := by
  unfold maxRwCount at h
  exact wrapS_eq_self (by omega) (by omega) (by omega)

theorem raised_counter {t : DevState} {pos count : Nat} (hpos : pos < 2 ^ 31)
    (hcount : count ≤ maxRwCount) :
    (if toUInt (writeEnd pos count) > t.dev.counter then
        { t with dev := { t.dev with
          counter := (toUInt (writeEnd pos count)).toNat } }
      else t) =
      ⟨{ t.dev with counter := max t.dev.counter (pos + count) }, t.heap⟩ := by
  have hexact : toUInt (writeEnd pos count) = (pos : Int) + count :=
    toUInt_writeEnd (Int.natCast_nonneg pos) (by omega) hcount
  rw [hexact]
  by_cases hgt : (pos : Int) + count > t.dev.counter
  · have hmax : max t.dev.counter (pos + count) = ((pos : Int) + count).toNat := by
      omega
    rw [if_pos hgt, hmax]
  · have hmax : max t.dev.counter (pos + count) = t.dev.counter := by omega
    rw [if_neg hgt, hmax]

theorem cddWrite_outcome {locked : Bool} {buf : List Byte} {copy : UserCopy}
    {ppos : Int} {s : DevState} {w : WriteResult} (hcount : buf.length ≤ maxRwCount)
    (h : cddWrite locked buf copy ppos s = some w) :
    WriteOutcome locked buf copy ppos s w := by
  cases locked with
  | false =>
      obtain rfl : ⟨s, -erestartsys, ppos⟩ = w := Option.some.inj h
      exact .refused (by decide) (fun hlock => by cases hlock)
  | true =>
      have h : writeBody buf copy ppos s = some w := h
      by_cases haccept : Accepts ppos buf.length s.dev
      · rw [writeBody_eq, copyFromUserRange_eq hcount, if_pos haccept] at h
        simp only [Int.toNat_natCast] at h
        obtain ⟨t, ht, rfl⟩ := Option.map_eq_some_iff.mp h
        by_cases hleft : min copy.uncopied buf.length = 0
        · rw [UserCopy.stored_of_copied hleft] at ht
          rw [if_neg (Decidable.not_not.mpr hleft), raised_counter haccept.1 hcount,
            DevState.poke_dev ht, toInt_count hcount]
          exact .stored rfl haccept hleft ht
        · rw [if_pos hleft]
          exact .faulted rfl haccept hleft ht
      · rw [writeBody_eq, copyFromUserRange_eq hcount, if_neg haccept] at h
        obtain rfl : ⟨s, -efault, ppos⟩ = w := Option.some.inj h
        exact .refused (by decide) (fun _ => haccept)

/-! ## Writes that fail -/

structure InvisibleWrite (ppos : Int) (s : DevState) (w : WriteResult) : Prop where
  counter : w.state.dev.counter = s.dev.counter
  append : w.state.dev.append = s.dev.append
  allocLen : w.state.dev.allocLen = s.dev.allocLen
  ppos : w.ppos = ppos
  content : ∀ i < s.dev.counter, w.state.byteAt i = s.byteAt i

/-- The bytes are stored at `pos` already, as far as they fall into the
content. -/
def AlreadyThere (pos : Nat) (bytes : List Byte) (s : DevState) : Prop :=
  ∀ k < bytes.length, pos + k < s.dev.counter → s.byteAt (pos + k) = bytes[k]?

instance (pos : Nat) (bytes : List Byte) (s : DevState) :
    Decidable (AlreadyThere pos bytes s) :=
  inferInstanceAs (Decidable (∀ k < _, _ → _))

theorem InvisibleWrite.refl (ppos retval : Int) (s : DevState) :
    InvisibleWrite ppos s ⟨s, retval, ppos⟩ :=
  ⟨rfl, rfl, rfl, rfl, fun _ _ => rfl⟩

section Poke

variable {s t : DevState} {pos : Nat} {bytes : List Byte}

theorem poke_byteAt (ht : s.poke pos bytes = some t) (i : Nat) :
    t.byteAt i = (if pos ≤ i then bytes[i - pos]? else none).or (s.byteAt i) := by
  by_cases hin : pos ≤ i ∧ i - pos < bytes.length
  · obtain ⟨k, rfl⟩ := Nat.exists_eq_add_of_le hin.1
    have hk : k < bytes.length := by omega
    rw [DevState.poke_byteAt_inside ht hk, if_pos hin.1, Nat.add_sub_cancel_left,
      List.getElem?_eq_getElem hk, Option.some_or]
  · rw [DevState.poke_byteAt_outside ht (by omega)]
    have hnone : (if pos ≤ i then bytes[i - pos]? else none) = none := by
      split
      · exact List.getElem?_eq_none (by omega)
      · rfl
    rw [hnone, Option.none_or]

theorem poke_content_iff (ht : s.poke pos bytes = some t) :
    (∀ i < s.dev.counter, t.byteAt i = s.byteAt i) ↔ AlreadyThere pos bytes s := by
  constructor
  · intro hsame k hk hcontent
    rw [← hsame (pos + k) hcontent, DevState.poke_byteAt_inside ht hk,
      List.getElem?_eq_getElem hk]
  · intro hthere i hi
    by_cases hin : pos ≤ i ∧ i < pos + bytes.length
    · obtain ⟨k, rfl⟩ := Nat.exists_eq_add_of_le hin.1
      have hk : k < bytes.length := by omega
      rw [hthere k hk hi, DevState.poke_byteAt_inside ht hk,
        List.getElem?_eq_getElem hk]
    · exact DevState.poke_byteAt_outside ht (by omega)

end Poke

/-- A write that fails is invisible exactly when it did not get its lock, did
not pass its range checks, or when all that its user copy stored into the
content before it failed was there already. -/
theorem failedWrite_invisible_iff {locked : Bool} {buf : List Byte}
    {copy : UserCopy} {ppos : Int} {s : DevState} {w : WriteResult}
    (hcount : buf.length ≤ maxRwCount)
    (h : cddWrite locked buf copy ppos s = some w) (hfail : w.retval < 0) :
    InvisibleWrite ppos s w ↔
      locked = false ∨ ¬ Accepts ppos buf.length s.dev ∨
        AlreadyThere (lowOffset ppos s.dev) (copy.stored 0 buf) s := by
  cases cddWrite_outcome hcount h with
  | @refused e _ hwhy =>
      refine iff_of_true (InvisibleWrite.refl ppos e s) ?_
      cases locked with
      | false => exact .inl rfl
      | true => exact .inr (.inl (hwhy rfl))
  | @faulted t hlock haccept _ ht =>
      have hdev := DevState.poke_dev ht
      have hcontent := poke_content_iff ht
      constructor
      · intro hsame
        exact .inr (.inr (hcontent.mp hsame.content))
      · rintro (hfree | hrange | hthere)
        · exact absurd hlock (by simp [hfree])
        · exact absurd haccept hrange
        · exact ⟨by rw [hdev], by rw [hdev], by rw [hdev], rfl, hcontent.mpr hthere⟩
  | stored =>
      exact absurd (Int.natCast_nonneg buf.length) (Int.not_le.mpr hfail)

theorem failedWrite_invisible_iff_same_bytes :
    ∃ w, cddWrite true [0, 66] ⟨1, true⟩ 0 halfFull = some w ∧
      w.retval = -efault ∧ InvisibleWrite 0 halfFull w := by
  have hrun : (cddWrite true [0, 66] ⟨1, true⟩ 0 halfFull).map
      WriteResult.retval = some (-efault) := by decide
  obtain ⟨w, hw, hretval⟩ := Option.map_eq_some_iff.mp hrun
  have hthere : AlreadyThere (lowOffset 0 halfFull.dev)
      (UserCopy.stored 0 ⟨1, true⟩ [0, 66]) halfFull := by decide
  have hfail : w.retval < 0 := by
    rw [hretval]
    decide
  exact ⟨w, hw, hretval, (failedWrite_invisible_iff (by decide) hw hfail).mpr
    (.inr (.inr hthere))⟩

/-- A write of two bytes over the content whose copy takes one and clears the
other: it returns `-EFAULT` and has replaced both bytes. -/
theorem not_failedWrite_invisible_overwritten :
    ∃ y w, driver.exec (loaded undisturbed)
        [.openFile 0 0 oWronly true (some fun _ => 0),
          .write 0 none [65, 66] true .whole] = some y ∧
      cddWrite true [67, 68] ⟨1, true⟩ 0 (y.devState 0) = some w ∧
      w.retval = -efault ∧
      (y.devState 0).byteAt 0 = some 65 ∧ (y.devState 0).byteAt 1 = some 66 ∧
      w.state.byteAt 0 = some 67 ∧ w.state.byteAt 1 = some 0 ∧
      ¬ InvisibleWrite 0 (y.devState 0) w := by
  have hrun : ((driver.exec (loaded undisturbed)
      [.openFile 0 0 oWronly true (some fun _ => 0),
        .write 0 none [65, 66] true .whole]).bind fun y =>
      (cddWrite true [67, 68] ⟨1, true⟩ 0 (y.devState 0)).map fun w =>
        ((y.world.cddDev 0).counter, w.retval,
          [0, 1].map (y.devState 0).byteAt, [0, 1].map w.state.byteAt)) =
      some (2, -efault, [some 65, some 66], [some 67, some 0]) := by decide
  obtain ⟨y, hy, hmap⟩ := Option.bind_eq_some_iff.mp hrun
  obtain ⟨w, hw, heq⟩ := Option.map_eq_some_iff.mp hmap
  simp only [List.map_cons, List.map_nil, Prod.mk.injEq, List.cons.injEq,
    and_true] at heq
  obtain ⟨hcounter, hretval, ⟨hold, hold'⟩, hnew, hnew'⟩ := heq
  refine ⟨y, w, hy, hw, hretval, hold, hold', hnew, hnew', fun hsame => ?_⟩
  have hcounter : (y.devState 0).dev.counter = 2 := hcounter
  have hcontent := hsame.content 0 (by omega)
  rw [hold, hnew] at hcontent
  exact absurd hcontent (by decide)

/-! ## Bytes that nobody stored -/

/-- The byte that a write stores at the offset `i`, if it stores one there: what
`copy_from_user` stores of the caller's bytes, from the start of the range that
it is passed. -/
def storedByte (locked : Bool) (buf : List Byte) (copy : UserCopy) (ppos : Int)
    (d : CDDdev) (i : Nat) : Option Byte :=
  if locked then
    (copyFromUserRange d ppos buf.length).bind fun r =>
      if r.1 ≤ i then (copy.stored 0 buf)[i - r.1.toNat]? else none
  else none

section Stores

variable {locked : Bool} {buf : List Byte} {copy : UserCopy} {ppos : Int}
  {s : DevState} {w : WriteResult}

theorem storedByte_accepted (hcount : buf.length ≤ maxRwCount)
    (hlock : locked = true) (haccept : Accepts ppos buf.length s.dev) (i : Nat) :
    storedByte locked buf copy ppos s.dev i =
      if lowOffset ppos s.dev ≤ i then
        (copy.stored 0 buf)[i - lowOffset ppos s.dev]?
      else none := by
  simp only [storedByte, if_pos hlock, copyFromUserRange_eq hcount, if_pos haccept,
    Option.bind_some, Int.toNat_natCast, Int.ofNat_le]

/-- After a write the buffer has the bytes that it stored, and is as before
elsewhere. -/
theorem cddWrite_byteAt (hcount : buf.length ≤ maxRwCount)
    (h : cddWrite locked buf copy ppos s = some w) (i : Nat) :
    w.state.byteAt i =
      (storedByte locked buf copy ppos s.dev i).or (s.byteAt i) := by
  cases cddWrite_outcome hcount h with
  | refused _ hwhy =>
      have hnone : storedByte locked buf copy ppos s.dev i = none := by
        cases locked with
        | false => rfl
        | true =>
            simp only [storedByte, if_true, copyFromUserRange_eq hcount,
              if_neg (hwhy rfl), Option.bind_none]
      rw [hnone, Option.none_or]
  | faulted hlock haccept _ ht =>
      rw [storedByte_accepted hcount hlock haccept]
      exact poke_byteAt ht i
  | @stored t hlock haccept hleft ht =>
      rw [storedByte_accepted hcount hlock haccept, UserCopy.stored_of_copied hleft]
      have hsame : (DevState.mk { s.dev with
          counter := max s.dev.counter (lowOffset ppos s.dev + buf.length) }
          t.heap).byteAt i = t.byteAt i := by
        simp only [DevState.byteAt, DevState.buffer, DevState.poke_dev ht]
      exact hsame.trans (poke_byteAt ht i)

/-- Let every byte of the content be among the bytes `I` that were stored to.
After a write this is so again exactly when it did not get its lock, did not
pass its range checks or did not get all its bytes, or when every byte between
the end of the content and the start of its range is in `I`.  Its own bytes are
then in the buffer, and the others are as they were. -/
theorem content_initialised_iff {I : Nat → Prop}
    (hI : ∀ i < s.dev.counter, I i) (hcount : buf.length ≤ maxRwCount)
    (h : cddWrite locked buf copy ppos s = some w) :
    ((∀ i < w.state.dev.counter,
        I i ∨ (storedByte locked buf copy ppos s.dev i).isSome) ↔
      locked = false ∨ ¬ Accepts ppos buf.length s.dev ∨
        min copy.uncopied buf.length ≠ 0 ∨
        ∀ i, s.dev.counter ≤ i → i < lowOffset ppos s.dev → I i) ∧
    ∀ i, w.state.byteAt i =
      (storedByte locked buf copy ppos s.dev i).or (s.byteAt i) := by
  refine ⟨?_, cddWrite_byteAt hcount h⟩
  cases cddWrite_outcome hcount h with
  | refused _ hwhy =>
      refine iff_of_true (fun i hi => .inl (hI i hi)) ?_
      cases locked with
      | false => exact .inl rfl
      | true => exact .inr (.inl (hwhy rfl))
  | faulted _ _ hleft ht =>
      refine iff_of_true (fun i hi => ?_) (.inr (.inr (.inl hleft)))
      rw [DevState.poke_dev ht] at hi
      exact .inl (hI i hi)
  | stored hlock haccept hleft =>
      have hstored := @storedByte_accepted locked buf copy ppos s hcount hlock haccept
      rw [UserCopy.stored_of_copied hleft] at hstored
      constructor
      · intro hall
        refine .inr (.inr (.inr fun i hcontent hi => ?_))
        have hraised : i < max s.dev.counter (lowOffset ppos s.dev + buf.length) := by
          omega
        rcases hall i hraised with hin | hbyte
        · exact hin
        · rw [hstored, if_neg (by omega)] at hbyte
          cases hbyte
      · rintro (hfree | hrange | hcopied | hgap) i hi
        · exact absurd hlock (by simp [hfree])
        · exact absurd haccept hrange
        · exact absurd hleft hcopied
        · have hi : i < max s.dev.counter (lowOffset ppos s.dev + buf.length) := hi
          by_cases hcontent : i < s.dev.counter
          · exact .inl (hI i hcontent)
          · by_cases hstart : i < lowOffset ppos s.dev
            · exact .inl (hgap i (by omega) hstart)
            · right
              rw [hstored, if_pos (by omega), List.getElem?_eq_getElem (by omega)]
              rfl

end Stores

theorem content_initialised_iff_at_end :
    ∃ w, cddWrite true [65] .whole 2 halfFull = some w ∧ w.state.dev.counter = 3 ∧
      w.state.byteAt 2 = some 65 ∧ ∀ i < w.state.dev.counter,
        i < 2 ∨ (storedByte true [65] .whole 2 halfFull.dev i).isSome := by
  have hrun : (cddWrite true [65] .whole 2 halfFull).map
      (fun w => w.state.dev.counter) = some 3 := by decide
  obtain ⟨w, hw, hcounter⟩ := Option.map_eq_some_iff.mp hrun
  have hgap : ∀ i, halfFull.dev.counter ≤ i → i < lowOffset 2 halfFull.dev →
      i < 2 := by
    intro i _ hi
    exact hi
  obtain ⟨hiff, hbytes⟩ := content_initialised_iff (I := fun i => i < 2)
    (fun i hi => hi) (by decide) hw
  refine ⟨w, hw, hcounter, ?_, hiff.mpr (.inr (.inr (.inr hgap)))⟩
  rw [hbytes 2]
  decide

/-- On an empty device a `pwrite` of one byte at the offset 3 makes the first
three bytes readable, which are as the allocator returned them. -/
theorem not_content_initialised_gap :
    ∃ y w, driver.exec (loaded undisturbed)
        [.openFile 0 0 oWronly true (some fun _ => 90)] = some y ∧
      (∀ i < (y.world.cddDev 0).counter, False) ∧
      cddWrite true [65] .whole 3 (y.devState 0) = some w ∧ w.retval = 1 ∧
      w.state.byteAt 0 = some 90 ∧
      ¬ ∀ i < w.state.dev.counter,
        False ∨ (storedByte true [65] .whole 3 (y.world.cddDev 0) i).isSome := by
  have hrun : ((driver.exec (loaded undisturbed)
      [.openFile 0 0 oWronly true (some fun _ => 90)]).bind fun y =>
      (cddWrite true [65] .whole 3 (y.devState 0)).map fun w =>
        ((y.world.cddDev 0).counter,
          storedByte true [65] .whole 3 (y.world.cddDev 0) 0, w.retval,
          w.state.dev.counter, w.state.byteAt 0)) =
      some (0, none, 1, 4, some 90) := by decide
  obtain ⟨y, hy, hmap⟩ := Option.bind_eq_some_iff.mp hrun
  obtain ⟨w, hw, heq⟩ := Option.map_eq_some_iff.mp hmap
  simp only [Prod.mk.injEq] at heq
  obtain ⟨hempty, hnone, hretval, hcounter, hbyte⟩ := heq
  refine ⟨y, w, hy, ?_, hw, hretval, hbyte, fun hall => ?_⟩
  · intro i hi
    omega
  · rcases hall 0 (by omega) with hno | hstored
    · exact hno
    · rw [hnone] at hstored
      cases hstored

end CddDriver
