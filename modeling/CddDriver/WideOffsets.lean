import CddDriver.AppendMode
import CddDriver.UserCopies
import Mathlib.Tactic.Common
/-!
# Offsets of 64 bits

The VFS passes offsets of type `loff_t`; `CDD_write` and `CDD_llseek` compute
with variables `pos` and `end` of type `int`.  Both therefore look at the low
32 bits of the exact offset: they go by these when they are below `2 ^ 31`, and
refuse the request when they are not.
-/

namespace CddDriver

open Lib

/-! ## CDD_write -/

def lowOffset (ppos : Int) (d : CDDdev) : Nat :=
  (toUInt (deviceOffset ppos d)).toNat

def Accepts (ppos : Int) (count : Nat) (d : CDDdev) : Prop :=
  lowOffset ppos d < 2 ^ 31 ∧ lowOffset ppos d + count ≤ d.allocLen

instance (ppos : Int) (count : Nat) (d : CDDdev) :
    Decidable (Accepts ppos count d) :=
  inferInstanceAs (Decidable (_ ∧ _))

theorem lowOffset_cast (ppos : Int) (d : CDDdev) :
    (lowOffset ppos d : Int) = toUInt (deviceOffset ppos d) :=
  Int.toNat_of_nonneg (Int.emod_nonneg _ (by omega))

theorem writePos_of_low {ppos : Int} {d : CDDdev} (h : lowOffset ppos d < 2 ^ 31) :
    writePos d ppos = lowOffset ppos d := by
  have hcast := lowOffset_cast ppos d
  have hlow : toUInt (deviceOffset ppos d) < 2 ^ 31 := by omega
  exact (wrapS_eq_emod (by omega) hlow).trans hcast.symm

theorem copyFromUserRange_eq {d : CDDdev} {ppos : Int} {count : Nat}
    (hcount : count ≤ maxRwCount) :
    copyFromUserRange d ppos count =
      if Accepts ppos count d then some ((lowOffset ppos d : Int), count)
      else none := by
  by_cases hlow : lowOffset ppos d < 2 ^ 31
  · rw [copyFromUserRange_of_pos (writePos_of_low hlow) hcount]
    simp only [Accepts, hlow, true_and]
  · have hcast := lowOffset_cast ppos d
    have hneg : writePos d ppos < 0 := by
      apply wrapS_neg
      · omega
      · show (2 : Int) ^ 31 ≤ toUInt (deviceOffset ppos d)
        omega
    simp only [copyFromUserRange, if_pos hneg, Accepts, hlow, false_and, if_false,
      ite_self]

/-- Where a live device accepts a write that gets its lock and its bytes, and
what it then does; it refuses every other one without effect. -/
theorem LiveBuffer.cddWrite_eq {s : DevState} {b : Buffer} (h : LiveBuffer s b)
    {copy : UserCopy} (hcopied : copy.uncopied = 0)
    {ppos : Int} {buf : List Byte} (hcount : buf.length ≤ maxRwCount) :
    (Accepts ppos buf.length s.dev ∧ ∃ t,
        s.poke (lowOffset ppos s.dev) buf = some t ∧
        cddWrite true buf copy ppos s =
          some ⟨⟨{ s.dev with
              counter := max s.dev.counter (lowOffset ppos s.dev + buf.length) },
            t.heap⟩, buf.length, toLong (ppos + buf.length)⟩) ∨
      (¬ Accepts ppos buf.length s.dev ∧
        cddWrite true buf copy ppos s = some ⟨s, -efault, ppos⟩) := by
  have hwrite : cddWrite true buf copy ppos s = writeBody buf copy ppos s := rfl
  by_cases haccept : Accepts ppos buf.length s.dev
  · left
    obtain ⟨t, ht, hbody⟩ :=
      h.writeBody_fits hcopied (writePos_of_low haccept.1) hcount haccept.2
    exact ⟨haccept, t, ht, hwrite.trans hbody⟩
  · right
    refine ⟨haccept, ?_⟩
    rw [hwrite, writeBody_eq, copyFromUserRange_eq hcount, if_neg haccept]

/-- The write of `buf` at the exact offset `ppos`, with result `w`, succeeds
when its range lies in the buffer, and is without effect when it does not. -/
structure HonoursOffset (buf : List Byte) (ppos : Int) (s : DevState)
    (w : WriteResult) : Prop where
  succeeds : 0 ≤ w.retval ↔ ppos + buf.length ≤ s.dev.allocLen
  stored : ppos + buf.length ≤ s.dev.allocLen →
    w.retval = buf.length ∧ StoredAt ppos.toNat buf s w.state ∧
      w.state.dev = { s.dev with
        counter := max s.dev.counter (ppos.toNat + buf.length) }
  refused : ¬ ppos + buf.length ≤ s.dev.allocLen →
    w.state = s ∧ w.ppos = ppos

/-- A write that does not append honours its offset exactly when this is below
`2 ^ 31`, or when the range does not fit and the low 32 bits do not make it
look as if it did. -/
theorem honoursOffset_iff {s : DevState} {b : Buffer} (h : LiveBuffer s b)
    (happend : s.dev.append = false) {ppos : Int} {buf : List Byte}
    (hrange : vfsRange ppos buf.length = true) {copy : UserCopy}
    (hcopied : copy.uncopied = 0) :
    ∃ w, cddWrite true buf copy ppos s = some w ∧
      (HonoursOffset buf ppos s w ↔
        ppos < 2 ^ 31 ∨
          s.dev.allocLen < ppos + buf.length ∧
            (2 ^ 31 ≤ toUInt ppos ∨
              s.dev.allocLen < toUInt ppos + buf.length)) := by
  obtain ⟨hnonneg, hcount, -⟩ := vfsRange_eq_true.mp hrange
  have hoffset : deviceOffset ppos s.dev = ppos := by simp [deviceOffset, happend]
  have hlow : (lowOffset ppos s.dev : Int) = toUInt ppos := by
    rw [lowOffset_cast, hoffset]
  have hsmall : ppos < 2 ^ 32 → toUInt ppos = ppos := wrapU_eq_self hnonneg
  have hlen := h.allocLen_lt
  rcases @LiveBuffer.cddWrite_eq s b h copy hcopied ppos buf hcount with
    ⟨haccept, t, ht, hwrite⟩ | ⟨hrefuse, hwrite⟩
  · refine ⟨_, hwrite, ?_⟩
    obtain ⟨hlt, hfits⟩ := haccept
    constructor
    · intro hexact
      have hle := hexact.succeeds.mp (Int.natCast_nonneg _)
      -- a range that fits starts below `2 ^ 32`, where the low bits are exact
      exact .inl (by omega)
    · intro hcond
      have hle : ppos + buf.length ≤ s.dev.allocLen := by omega
      have hpos : lowOffset ppos s.dev = ppos.toNat := by omega
      rw [hpos] at ht
      refine ⟨⟨fun _ => hle, fun _ => Int.natCast_nonneg _⟩, fun _ => ?_,
        fun hno => absurd hle hno⟩
      exact ⟨rfl, storedAt_of_poke ht (by rw [DevState.poke_dev ht]) rfl,
        by rw [hpos]⟩
  · refine ⟨_, hwrite, ?_⟩
    have hout : 2 ^ 31 ≤ toUInt ppos ∨
        s.dev.allocLen < toUInt ppos + buf.length := by
      unfold Accepts at hrefuse
      omega
    have hfail : ¬ (0 : Int) ≤ -efault := by decide
    constructor
    · intro hexact
      have hno : ¬ ppos + buf.length ≤ s.dev.allocLen := fun hle =>
        hfail (hexact.succeeds.mpr hle)
      exact .inr ⟨by omega, hout⟩
    · intro hcond
      have hno : ¬ ppos + buf.length ≤ s.dev.allocLen := by omega
      exact ⟨⟨fun hret => absurd hret hfail, fun hle => absurd hle hno⟩,
        fun hle => absurd hle hno, fun _ => ⟨rfl, rfl⟩⟩

def halfFull : DevState where
  dev := { CDDdev.zero with allocLen := 8, counter := 2, cddStorage := some 0 }
  heap := [⟨⟨0, .vmalloc, ⟨8, fun _ => 0⟩⟩, []⟩]

theorem halfFull_buffered : Buffered halfFull ⟨0, .vmalloc, ⟨8, fun _ => 0⟩⟩ :=
  ⟨rfl, rfl, by decide, by decide⟩

theorem honoursOffset_iff_last_bytes :
    ∃ w, cddWrite true [65, 66] .whole 6 halfFull = some w ∧ w.retval = 2 ∧
      HonoursOffset [65, 66] 6 halfFull w := by
  obtain ⟨w, hwrite, hiff⟩ :=
    @honoursOffset_iff halfFull _ halfFull_buffered.live rfl 6 [65, 66] (by decide)
      .whole rfl
  have hexact := hiff.mpr (.inl (by decide))
  exact ⟨w, hwrite, (hexact.stored (by decide)).1, hexact⟩

/-- A `pwrite` of one byte at the offset `2 ^ 32` stores it at the start of the
buffer. -/
theorem not_honoursOffset_four_gigabytes :
    ∃ y w, driver.exec (loaded undisturbed)
        [.openFile 0 0 oWronly true (some fun _ => 0)] = some y ∧
      (y.world.cddDev 0).append = false ∧
      vfsRange (2 ^ 32) [65].length = true ∧
      cddWrite true [65] .whole (2 ^ 32) (y.devState 0) = some w ∧
      w.retval = 1 ∧ w.state.byteAt 0 = some 65 ∧
      ¬ HonoursOffset [65] (2 ^ 32) (y.devState 0) w := by
  have hrun : ((driver.exec (loaded undisturbed)
      [.openFile 0 0 oWronly true (some fun _ => 0)]).bind fun y =>
      (cddWrite true [65] .whole (2 ^ 32) (y.devState 0)).map fun w =>
        ((y.world.cddDev 0).append, (y.world.cddDev 0).allocLen, w.retval,
          w.state.byteAt 0)) = some (false, 4096, 1, some 65) := by decide
  obtain ⟨y, hy, hmap⟩ := Option.bind_eq_some_iff.mp hrun
  obtain ⟨w, hwrite, heq⟩ := Option.map_eq_some_iff.mp hmap
  simp only [Prod.mk.injEq] at heq
  obtain ⟨happend, hlen, hretval, hbyte⟩ := heq
  refine ⟨y, w, hy, happend, by decide, hwrite, hretval, hbyte, fun hexact => ?_⟩
  have hle := hexact.succeeds.mp (by rw [hretval]; decide)
  have hlen : (y.devState 0).dev.allocLen = 4096 := hlen
  rw [hlen] at hle
  exact absurd hle (by decide)

/-! ## CDD_llseek -/

def seekTarget (fPos newpos whence : Int) (d : CDDdev) : Option Int :=
  if whence = seekSet then some newpos
  else if whence = seekCur then some (fPos + newpos)
  else if whence = seekEnd then some (d.counter + newpos)
  else none

def exactSeek (fPos newpos whence : Int) (d : CDDdev) : Int × Int :=
  match seekTarget fPos newpos whence d with
  | some target =>
      if 0 ≤ target ∧ target ≤ d.counter then (target, target)
      else (-einval, fPos)
  | none => (-einval, fPos)

/-- `CDD_llseek` goes by the low 32 bits of the exact target. -/
theorem cddLlseek_eq (fPos newpos whence : Int) (d : CDDdev) :
    cddLlseek fPos newpos whence d =
      match seekTarget fPos newpos whence d with
      | some target =>
          if toUInt target < 2 ^ 31 ∧ toUInt target ≤ d.counter then
            (toUInt target, toUInt target)
          else (-einval, fPos)
      | none => (-einval, fPos) := by
  have hpos : ∀ target : Int,
      (if toInt target < 0 ∨ toUInt (toInt target) > d.counter then
        (-einval, fPos)
      else (toInt target, toInt target)) =
      if toUInt target < 2 ^ 31 ∧ toUInt target ≤ d.counter then
        (toUInt target, toUInt target)
      else (-einval, fPos) := by
    intro target
    have hforget : toUInt (toInt target) = toUInt target :=
      wrapU_wrapS 32 target
    rw [hforget]
    by_cases hlow : toUInt target < 2 ^ 31
    · have hself : toInt target = toUInt target := wrapS_eq_emod (by omega) hlow
      have hnonneg : 0 ≤ toUInt target := Int.emod_nonneg _ (by omega)
      rw [hself]
      split <;> split <;> first | rfl | omega
    · have hneg : toInt target < 0 := wrapS_neg (by omega) (Int.not_lt.mp hlow)
      rw [if_pos (Or.inl hneg), if_neg fun h => hlow h.1]
  unfold cddLlseek seekTarget
  by_cases hset : whence = seekSet
  · simp only [if_pos hset, Int.zero_add, hpos]
  by_cases hcur : whence = seekCur
  · simp only [if_neg hset, if_pos hcur, toInt, wrapS_add_left]
    exact hpos _
  by_cases hend : whence = seekEnd
  · simp only [if_neg hset, if_neg hcur, if_pos hend, toInt, wrapS_add_left]
    exact hpos _
  · simp only [if_neg hset, if_neg hcur, if_neg hend]

/-- A seek is exact exactly when its target in the content is below `2 ^ 31`,
or its target outside has low 32 bits that are refused as well. -/
theorem exactSeek_iff (fPos newpos whence : Int) (d : CDDdev) :
    cddLlseek fPos newpos whence d = exactSeek fPos newpos whence d ↔
      ∀ target, seekTarget fPos newpos whence d = some target →
        0 ≤ target ∧ target ≤ d.counter ∧ target < 2 ^ 31 ∨
          ¬ (0 ≤ target ∧ target ≤ d.counter) ∧
            (2 ^ 31 ≤ toUInt target ∨ d.counter < toUInt target) := by
  rw [cddLlseek_eq]
  unfold exactSeek
  cases seekTarget fPos newpos whence d with
  | none => simp
  | some target =>
      simp only [Option.some.injEq, forall_eq']
      have hnonneg : 0 ≤ toUInt target := Int.emod_nonneg _ (by omega)
      have herror : -einval < 0 := by decide
      have hsmall : 0 ≤ target → target < 2 ^ 31 → toUInt target = target :=
        fun h₀ h₁ => wrapU_eq_self h₀ (by omega)
      by_cases hlow : toUInt target < 2 ^ 31 ∧ toUInt target ≤ d.counter
      · by_cases hin : 0 ≤ target ∧ target ≤ d.counter
        · rw [if_pos hlow, if_pos hin]
          constructor
          · intro heq
            have htarget := (Prod.mk.inj heq).1
            exact .inl ⟨hin.1, hin.2, by omega⟩
          · intro hcond
            rw [hsmall hin.1 (by omega)]
        · rw [if_pos hlow, if_neg hin]
          constructor
          · intro heq
            have hneg := (Prod.mk.inj heq).1
            omega
          · intro hcond
            omega
      · by_cases hin : 0 ≤ target ∧ target ≤ d.counter
        · rw [if_neg hlow, if_pos hin]
          constructor
          · intro heq
            have hneg := (Prod.mk.inj heq).1
            omega
          · intro hcond
            have hself := hsmall hin.1 (by omega)
            omega
        · rw [if_neg hlow, if_neg hin]
          exact ⟨fun _ => .inr ⟨hin, by omega⟩, fun _ => rfl⟩

/-- On an empty device a seek to the offset `2 ^ 32` returns 0 and rewinds the
file. -/
theorem not_exactSeek_four_gigabytes :
    ∃ y, driver.exec (loaded undisturbed)
        [.openFile 0 0 oWronly true (some fun _ => 0)] = some y ∧
      cddLlseek 0 (2 ^ 32) seekSet (y.world.cddDev 0) = (0, 0) ∧
      cddLlseek 0 (2 ^ 32) seekSet (y.world.cddDev 0) ≠
        exactSeek 0 (2 ^ 32) seekSet (y.world.cddDev 0) := by
  have hrun : ((driver.exec (loaded undisturbed)
      [.openFile 0 0 oWronly true (some fun _ => 0)]).map fun y =>
        (cddLlseek 0 (2 ^ 32) seekSet (y.world.cddDev 0),
          exactSeek 0 (2 ^ 32) seekSet (y.world.cddDev 0))) =
      some ((0, 0), (-einval, 0)) := by decide
  obtain ⟨y, hy, heq⟩ := Option.map_eq_some_iff.mp hrun
  obtain ⟨hseek, hexact⟩ := Prod.mk.inj heq
  refine ⟨y, hy, hseek, ?_⟩
  rw [hseek, hexact]
  decide

end CddDriver
