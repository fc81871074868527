import CddDriver.Serial
import Mathlib.Tactic.Common
/-!
# Devices that answer alike

While an open sleeps, the device has the buffer that this open has allocated;
in a serial execution the open has not yet happened.  The two devices differ
in their buffers, but not in what decides what a call returns.
-/

namespace CddDriver

open Lib

def Answer.SameReturn : Answer → Answer → Prop
  | .openFile r, .openFile r' => r = r'
  | .read r, .read r' => r.retval = r'.retval ∧ r.ppos = r'.ppos
  | .write retval ppos, .write retval' ppos' => retval = retval' ∧ ppos = ppos'
  | .ioctl retval _, .ioctl retval' _ => retval = retval'
  | _, _ => False

theorem Answer.SameReturn.hasOpened {a a' : Answer} (h : a.SameReturn a') :
    a'.hasOpened = a.hasOpened := by
  cases a <;> cases a' <;>
    simp only [Answer.SameReturn, Answer.hasOpened] at h ⊢
  rw [h]

theorem ioctl_retval (uncopied : Nat) (text text' : List Char) :
    (if min uncopied (text ++ ['\x00']).length ≠ 0 then -efault else 0) =
      if min uncopied (text' ++ ['\x00']).length ≠ 0 then -efault else 0 := by
  have hlen : ∀ l : List Char, 0 < (l ++ ['\x00']).length := by simp
  have h := hlen text
  have h' := hlen text'
  by_cases hu : uncopied = 0
  · simp [hu]
  · rw [if_pos (by omega), if_pos (by omega)]

theorem cddIoctl_retval (ioctlNum uncopied : Nat) (d d' : CDDdev) :
    (cddIoctl ioctlNum uncopied d).1 = (cddIoctl ioctlNum uncopied d').1 := by
  unfold cddIoctl
  split
  · exact ioctl_retval uncopied _ _
  · rfl

/-- The device `s` of an interleaved execution and the device `t` of a serial
one: they differ in their buffers at most. -/
structure Alike (major : Nat) (m : Minor) (s t : DevState) : Prop where
  left : DeviceInv major m s
  right : DeviceInv major m t
  counter : t.dev.counter = s.dev.counter
  append : t.dev.append = s.dev.append
  storage : t.dev.cddStorage ≠ none → s.dev.cddStorage ≠ none

theorem Alike.refl {major : Nat} {m : Minor} {s : DevState}
    (h : DeviceInv major m s) : Alike major m s s :=
  ⟨h, h, rfl, rfl, id⟩

theorem DeviceInv.buffer {major : Nat} {m : Minor} {s : DevState}
    (h : DeviceInv major m s) (hs : s.dev.cddStorage ≠ none) :
    ∃ b, s.buffer = some b ∧ b.mem.size = getStorageLength m ∧
      s.dev.allocLen = getStorageLength m := by
  obtain ⟨p, hp⟩ := Option.ne_none_iff_exists'.mp hs
  obtain ⟨x, hx, hsize, -⟩ := h.storage_entry hp
  have hlen := (h.storage p hp).1
  refine ⟨x.item, DevState.buffer_eq_some.mpr ⟨p, x, hp, hx, rfl⟩, ?_, hlen⟩
  rw [hsize, hlen]

theorem DeviceInv.poke {major : Nat} {m : Minor} {s : DevState}
    (h : DeviceInv major m s) (hs : s.dev.cddStorage ≠ none) {pos : Nat}
    {bytes : List Byte} (hle : pos + bytes.length ≤ getStorageLength m) :
    ∃ s', s.poke pos bytes = some s' := by
  obtain ⟨b, hb, hsize, -⟩ := h.buffer hs
  obtain ⟨p, x, hp, hx, rfl⟩ := DevState.buffer_eq_some.mp hb
  exact DevState.poke_eq_some hp hx (by omega)

namespace Alike

variable {major : Nat} {m : Minor} {s s' t : DevState}

theorem allocLen (h : Alike major m s t) (ht : t.dev.cddStorage ≠ none) :
    t.dev.allocLen = s.dev.allocLen := by
  obtain ⟨-, -, -, hright⟩ := h.right.buffer ht
  obtain ⟨-, -, -, hleft⟩ := h.left.buffer (h.storage ht)
  rw [hright, hleft]

/-! ## CDD_open -/

theorem allocated_left (h : Alike major m s t) (data : Nat → Byte) :
    Alike major m (allocated data m s) t :=
  ⟨h.left.allocated data, h.right, h.counter, h.append,
    fun _ => Option.some_ne_none _⟩

theorem allocated_right (h : Alike major m s t) (hs : s.dev.cddStorage ≠ none)
    (data : Nat → Byte) : Alike major m s (allocated data m t) :=
  ⟨h.left, h.right.allocated data, h.counter, h.append, fun _ => hs⟩

theorem allocated_both (h : Alike major m s t) (data : Nat → Byte) :
    Alike major m (allocated data m s) (allocated data m t) :=
  (h.allocated_left data).allocated_right (Option.some_ne_none _) data

theorem openCommit {fFlags : Nat} (h : Alike major m s t)
    (ht : t.dev.cddStorage ≠ none)
    (hcommit : openCommit fFlags s = some s') :
    ∃ t', CddDriver.openCommit fFlags t = some t' ∧ Alike major m s' t' ∧
      t'.dev.cddStorage ≠ none := by
  have hcounted : DeviceInv major m ⟨countOpen t.dev, t.heap⟩ :=
    ⟨h.right.wired, h.right.counter_le, h.right.allocLen_eq, h.right.storage⟩
  have hpos := getStorageLength_pos m
  obtain ⟨u, hu⟩ := @DeviceInv.poke _ _ _ hcounted ht 0 [0] (by
    rw [List.length_singleton]
    omega)
  obtain ⟨t', ht'⟩ : ∃ t', CddDriver.openCommit fFlags t = some t' := by
    cases htrunc : hasFlag fFlags oTrunc with
    | true => simp [CddDriver.openCommit, htrunc, hu]
    | false => simp [CddDriver.openCommit, htrunc]
  have hs'dev := openCommit_dev hcommit
  have ht'dev := openCommit_dev ht'
  refine ⟨t', ht', ⟨h.left.openCommit hcommit, h.right.openCommit ht', ?_, ?_, ?_⟩,
    ?_⟩
  · rw [hs'dev, ht'dev]
    simp only [committed, h.counter]
  · rw [hs'dev, ht'dev]
    rfl
  · intro _
    rw [hs'dev]
    exact h.storage ht
  · rw [ht'dev]
    exact ht

theorem openRest {fFlags : Nat} {status : OpenStatus} (h : Alike major m s t)
    (ht : t.dev.cddStorage ≠ none)
    (hrest : openRest fFlags s = some (s', status)) :
    ∃ t', CddDriver.openRest fFlags t = some (t', status) ∧
      Alike major m s' t' ∧ t'.dev.cddStorage ≠ none := by
  have hhead : waitHead t.dev fFlags = waitHead s.dev fFlags := by
    simp only [waitHead, contentIsUnavailable_congr h.counter fFlags]
  unfold CddDriver.openRest at hrest ⊢
  rw [hhead]
  split at hrest
  · obtain ⟨rfl, rfl⟩ := Prod.mk.inj (Option.some.inj hrest)
    exact ⟨t, rfl, h, ht⟩
  · obtain ⟨u, hcommit, heq⟩ := Option.map_eq_some_iff.mp hrest
    obtain ⟨rfl, rfl⟩ := Prod.mk.inj heq
    obtain ⟨t', ht', halike, hstorage⟩ := h.openCommit ht hcommit
    exact ⟨t', by rw [ht']; rfl, halike, hstorage⟩

theorem sleeps {fFlags : Nat} {data : Nat → Byte} (h : Alike major m s t)
    (hopen : openBody (some data) fFlags s = some (s', .waiting)) :
    Alike major m s' t ∧ s'.dev.cddStorage ≠ none := by
  rw [openBody_some h.left.minor_eq] at hopen
  rcases openRest_cases hopen with ⟨-, hreturned, -⟩ | ⟨-, rfl, -⟩
  · cases hreturned
  · exact ⟨h.allocated_left data, Option.some_ne_none _⟩

theorem wakes {fFlags : Nat} {data : Nat → Byte} (h : Alike major m s t)
    (hs : s.dev.cddStorage ≠ none)
    (hcontent : contentIsUnavailable s.dev fFlags = 0)
    (hcommit : CddDriver.openCommit fFlags s = some s') :
    ∃ t', openBody (some data) fFlags t = some (t', .returned 0) ∧
      Alike major m s' t' ∧ t'.dev.cddStorage ≠ none := by
  have hrest : CddDriver.openRest fFlags s = some (s', .returned 0) := by
    simp [CddDriver.openRest, waitHead, hcontent, hcommit]
  rw [openBody_some h.right.minor_eq]
  exact (h.allocated_right hs data).openRest (Option.some_ne_none _) hrest

/-! ## CDD_read and CDD_write -/

theorem readBody {buf : Nat → Byte} {count uncopied : Nat} {ppos : Int}
    {r : ReadResult} (h : Alike major m s t) (ht : t.dev.cddStorage ≠ none)
    (hread : readBody buf count uncopied ppos s = some r) :
    ∃ r', CddDriver.readBody buf count uncopied ppos t = some r' ∧
      r.retval = r'.retval ∧ r.ppos = r'.ppos := by
  obtain ⟨b, hb, hsize, -⟩ := h.left.buffer (h.storage ht)
  obtain ⟨b', hb', hsize', -⟩ := h.right.buffer ht
  simp only [CddDriver.readBody, hb, hb', hsize, hsize', h.counter] at hread ⊢
  split at hread
  next hend =>
    obtain rfl := Option.some.inj hread
    exact ⟨_, if_pos hend, rfl, rfl⟩
  next hend =>
  rw [if_neg hend]
  generalize (if toULong (ppos + count) ≥ s.dev.counter then
    (toULong (s.dev.counter - ppos)).toNat else count) = n at hread ⊢
  split at hread
  next hzero =>
    obtain rfl := Option.some.inj hread
    exact ⟨_, if_pos hzero, rfl, rfl⟩
  next hzero =>
  rw [if_neg hzero]
  split at hread
  next hrange =>
    rw [if_pos hrange]
    split at hread
    next hleft =>
      obtain rfl := Option.some.inj hread
      exact ⟨_, if_pos hleft, rfl, rfl⟩
    next hleft =>
      obtain rfl := Option.some.inj hread
      exact ⟨_, if_neg hleft, rfl, rfl⟩
  next => cases hread

theorem poke (h : Alike major m s t) (ht : t.dev.cddStorage ≠ none) {pos : Nat}
    {bytes : List Byte} {u : DevState} (hu : s.poke pos bytes = some u) :
    ∃ v, t.poke pos bytes = some v := by
  rcases DevState.poke_cases hu with ⟨rfl, -⟩ | ⟨p, x, hp, hx, hle, -⟩
  · exact ⟨t, by simp [DevState.poke]⟩
  · obtain ⟨b, hb, hsize, -⟩ := h.left.buffer (h.storage ht)
    have hx' := DevState.buffer_eq_some.mpr ⟨p, x, hp, hx, rfl⟩
    obtain rfl : x.item = b := Option.some.inj (hx'.symm.trans hb)
    exact h.right.poke ht (by omega)

theorem writeBody {buf : List Byte} {copy : UserCopy} {ppos : Int}
    {r : WriteResult} (h : Alike major m s t) (ht : t.dev.cddStorage ≠ none)
    (hcount : buf.length ≤ maxRwCount)
    (hwrite : writeBody buf copy ppos s = some r) :
    ∃ r', CddDriver.writeBody buf copy ppos t = some r' ∧
      r.retval = r'.retval ∧ r.ppos = r'.ppos ∧
      Alike major m r.state r'.state ∧ r'.state.dev.cddStorage ≠ none := by
  have hlen := h.allocLen ht
  obtain ⟨-, -, -, hfull⟩ := h.right.buffer ht
  have hpos : writePos t.dev ppos = writePos s.dev ppos := by
    simp only [writePos, h.counter, h.append]
  -- whatever the interleaved device does, the serial one does to its own buffer
  have hmatched : ∃ r', CddDriver.writeBody buf copy ppos t = some r' ∧
      r.retval = r'.retval ∧ r.ppos = r'.ppos ∧
      r'.state.dev.counter = r.state.dev.counter ∧
      r'.state.dev.append = r.state.dev.append := by
    simp only [CddDriver.writeBody, hpos, hlen] at hwrite ⊢
    split at hwrite
    next hend =>
      obtain rfl := Option.some.inj hwrite
      exact ⟨_, if_pos hend, rfl, rfl, h.counter, h.append⟩
    next hend =>
    rw [if_neg hend]
    split at hwrite
    next hneg =>
      obtain rfl := Option.some.inj hwrite
      exact ⟨_, if_pos hneg, rfl, rfl, h.counter, h.append⟩
    next hneg =>
    rw [if_neg hneg]
    split at hwrite
    next => cases hwrite
    next u hu =>
    obtain ⟨v, hv⟩ := h.poke ht hu
    have hcounter : v.dev.counter = u.dev.counter := by
      rw [DevState.poke_dev hu, DevState.poke_dev hv, h.counter]
    have happend : v.dev.append = u.dev.append := by
      rw [DevState.poke_dev hu, DevState.poke_dev hv, h.append]
    simp only [hv]
    split at hwrite
    next hleft =>
      obtain rfl := Option.some.inj hwrite
      exact ⟨_, if_pos hleft, rfl, rfl, hcounter, happend⟩
    next hleft =>
      rw [if_neg hleft, hcounter]
      obtain rfl := Option.some.inj hwrite
      refine ⟨_, rfl, rfl, rfl, ?_⟩
      split
      · exact ⟨rfl, happend⟩
      · exact ⟨hcounter, happend⟩
  obtain ⟨r', hwrite', hretval, hppos, hcounter, happend⟩ := hmatched
  refine ⟨r', hwrite', hretval, hppos,
    ⟨h.left.writeBody hcount hwrite, h.right.writeBody hcount hwrite', hcounter,
      happend, ?_⟩, ?_⟩
  · intro _
    rw [(writeBody_storage hcount hwrite).1]
    exact h.storage ht
  · rw [(writeBody_storage hcount hwrite').1]
    exact ht

/-! ## A whole call -/

/-- What a call does on the interleaved device it also does on the serial one,
and returns the same.  `opened` are the files that are open. -/
theorem serve {op : Op} {a : Answer} {opened : Nat → Bool}
    (h : Alike major m s t)
    (hopened : ∀ p, opened p = true → t.dev.cddStorage ≠ none)
    (hadmitted : op.admitted opened = true)
    (hkept : ∀ fFlags, op = .openFile fFlags none → s.dev.cddStorage = none)
    (hserve : op.serve s = some (s', a)) :
    ∃ t' a', op.serve t = some (t', a') ∧ a.SameReturn a' ∧
      Alike major m s' t' ∧
      (t.dev.cddStorage ≠ none ∨ a'.hasOpened = true →
        t'.dev.cddStorage ≠ none) ∧
      (s.dev.cddStorage ≠ none → s'.dev.cddStorage ≠ none) := by
  cases op with
  | openFile fFlags fresh =>
      obtain ⟨r, hopen, rfl⟩ := serve_openFile.mp hserve
      cases fresh with
      | none =>
          have hnone : s.dev.cddStorage = none := hkept fFlags rfl
          have hopen' := openBody_none fFlags t
          rw [openBody_none, Option.some.injEq, Prod.mk.injEq] at hopen
          obtain ⟨rfl, hr⟩ := hopen
          obtain rfl := OpenStatus.returned.inj hr
          refine ⟨_, _, serve_openFile.mpr ⟨_, hopen', rfl⟩, rfl,
            ⟨h.left.openBody (openBody_none fFlags s), h.right.openBody hopen',
              h.counter, h.append, fun hne => absurd rfl hne⟩, ?_,
            fun hne => absurd hnone hne⟩
          rintro (hne | hzero)
          · exact absurd hnone (h.storage hne)
          · cases hzero
      | some data =>
          rw [openBody_some h.left.minor_eq] at hopen
          obtain ⟨t', hrest, halike, hstorage⟩ :=
            (h.allocated_both data).openRest (Option.some_ne_none _) hopen
          rw [← openBody_some h.right.minor_eq] at hrest
          exact ⟨t', _, serve_openFile.mpr ⟨r, hrest, rfl⟩, rfl, halike,
            fun _ => hstorage, fun _ => halike.storage hstorage⟩
  | read via buf count uncopied ppos =>
      obtain ⟨hvia, -⟩ := Bool.and_eq_true_iff.mp hadmitted
      obtain ⟨r, hread, heq⟩ := Option.map_eq_some_iff.mp hserve
      obtain ⟨rfl, rfl⟩ := Prod.mk.inj heq
      obtain ⟨r', hread', hsame⟩ := h.readBody (hopened via hvia) hread
      refine ⟨t, .read r', ?_, hsame, h, fun _ => hopened via hvia, id⟩
      simp [Op.serve, cddRead, hread']
  | write via buf copy ppos =>
      obtain ⟨hvia, hrange⟩ := Bool.and_eq_true_iff.mp hadmitted
      obtain ⟨r, hwrite, heq⟩ := Option.map_eq_some_iff.mp hserve
      obtain ⟨rfl, rfl⟩ := Prod.mk.inj heq
      obtain ⟨r', hwrite', hretval, hppos, halike, hstorage⟩ :=
        h.writeBody (hopened via hvia) (vfsRange_count hrange) hwrite
      refine ⟨r'.state, .write r'.retval r'.ppos, ?_, ⟨hretval, hppos⟩, halike,
        fun _ => hstorage, fun _ => halike.storage hstorage⟩
      simp [Op.serve, cddWrite, hwrite']
  | ioctl via ioctlNum uncopied =>
      have hvia : opened via = true := hadmitted
      obtain ⟨rfl, rfl⟩ := Prod.mk.inj (Option.some.inj hserve)
      refine ⟨t, _, rfl, ?_, h, fun _ => hopened via hvia, id⟩
      exact cddIoctl_retval ioctlNum uncopied _ _

end Alike

end CddDriver
