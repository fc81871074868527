import CddDriver.Files
import CddDriver.Lib.Trace
import CddDriver.Ownership
import Mathlib.Tactic.Common
/-!
# Devices do not see each other

The five devices share the heap, the table of files and the static buffer of
`get_CDD_usage`, which an ioctl fills anew.  As long as calls are made one at a
time, what a process observes of one device is what it would observe if the calls
on the other devices had never been made.
-/

namespace CddDriver

open Lib

/-! ## The device of a call -/

def FileSlot.minor : FileSlot → Option Minor
  | .closed => none
  | .opening m _ => some m
  | .opened m _ _ => some m

def FileSlot.only (m : Minor) (slot : FileSlot) : FileSlot :=
  if slot.minor = some m then slot else .closed

def Call.device (y : System) : Call → Option Minor
  | .openFile _ m _ _ _ => some m
  | .wake f _ _ | .read f _ _ _ _ | .write f _ _ _ _ | .llseek f _ _
  | .ioctl f _ _ | .release f => (y.files f).minor

def onDevice (m : Minor) (y : System) (c : Call) : Bool := c.device y = some m

theorem FileSlot.only_closed (m : Minor) :
    FileSlot.closed.only m = .closed := rfl

theorem FileSlot.only_of_minor {m : Minor} {slot : FileSlot}
    (h : slot.minor = some m) : slot.only m = slot :=
  if_pos h

theorem FileSlot.only_of_ne {m : Minor} {slot : FileSlot}
    (h : slot.minor ≠ some m) : slot.only m = .closed :=
  if_neg h

theorem OpenStatus.slot_minor {m k : Minor} {fFlags : Nat} {status : OpenStatus}
    (h : (status.slot m fFlags).minor = some k) : k = m := by
  cases status with
  | returned r =>
      simp only [OpenStatus.slot] at h
      split at h
      · exact (Option.some.inj h).symm
      · cases h
  | waiting => exact (Option.some.inj h).symm

theorem OpenStatus.slot_only (m : Minor) (fFlags : Nat) (status : OpenStatus) :
    (status.slot m fFlags).only m = status.slot m fFlags := by
  cases status with
  | returned r =>
      simp only [OpenStatus.slot]
      split
      · exact FileSlot.only_of_minor rfl
      · rfl
  | waiting => exact FileSlot.only_of_minor rfl

/-! ## What can be told of a device -/

/-- A device without the place of its buffer in the heap: its fields and the
buffer itself. -/
def DevState.visible (s : DevState) : CDDdev × Option Buffer :=
  ({ s.dev with cddStorage := none }, s.buffer)

section Visible

variable {s s' t : DevState}

theorem visible_counter (h : s.visible = t.visible) :
    s.dev.counter = t.dev.counter :=
  congrArg (fun v => v.1.counter) h

theorem visible_allocLen (h : s.visible = t.visible) :
    s.dev.allocLen = t.dev.allocLen :=
  congrArg (fun v => v.1.allocLen) h

theorem visible_append (h : s.visible = t.visible) :
    s.dev.append = t.dev.append :=
  congrArg (fun v => v.1.append) h

theorem visible_activeOpens (h : s.visible = t.visible) :
    s.dev.activeOpens = t.dev.activeOpens :=
  congrArg (fun v => v.1.activeOpens) h

theorem visible_buffer (h : s.visible = t.visible) : s.buffer = t.buffer :=
  congrArg Prod.snd h

theorem visible_mapDev {f : CDDdev → CDDdev}
    (hstorage : ∀ d, (f d).cddStorage = d.cddStorage)
    (hfield : ∀ d, { f d with cddStorage := none } =
      f { d with cddStorage := none })
    (h : s.visible = t.visible) :
    DevState.visible ⟨f s.dev, s.heap⟩ = DevState.visible ⟨f t.dev, t.heap⟩ := by
  have hbuffer : ∀ u : DevState,
      DevState.buffer ⟨f u.dev, u.heap⟩ = u.buffer := by
    intro u
    simp only [DevState.buffer, hstorage]
  have hdev : ({ s.dev with cddStorage := none } : CDDdev) =
      { t.dev with cddStorage := none } := congrArg Prod.fst h
  simp only [DevState.visible, hbuffer, hfield, hdev, visible_buffer h]

theorem poke_map_visible (s : DevState) (pos : Nat) (bytes : List Byte) :
    (s.poke pos bytes).map DevState.visible =
      if bytes = [] then some s.visible
      else s.buffer.bind fun b =>
        if pos + bytes.length ≤ b.mem.size then
          some (s.visible.1, some (b.store pos bytes))
        else none := by
  unfold DevState.poke
  split
  · rfl
  · cases hp : s.dev.cddStorage with
    | none => simp [DevState.buffer, hp]
    | some p =>
        cases hx : s.heap[p]? with
        | none => simp [DevState.buffer, hp, hx]
        | some x =>
            have hu := Ledger.getElem?_update_self (Buffer.store pos bytes) hx
            simp only [DevState.buffer, hp, hx, Option.bind_some,
              Option.map_some]
            split
            · simp [DevState.visible, DevState.buffer, hp, hu]
            · rfl

theorem poke_visible {pos : Nat} {bytes : List Byte} (h : s.visible = t.visible)
    (hpoke : s.poke pos bytes = some s') :
    ∃ t', t.poke pos bytes = some t' ∧ s'.visible = t'.visible := by
  have hs := poke_map_visible s pos bytes
  rw [hpoke, Option.map_some, h, visible_buffer h, ← poke_map_visible] at hs
  obtain ⟨t', ht', hvisible⟩ := Option.map_eq_some_iff.mp hs.symm
  exact ⟨t', ht', hvisible.symm⟩

/-! ### CDD_open -/

theorem countOpen_visible (h : s.visible = t.visible) :
    DevState.visible ⟨countOpen s.dev, s.heap⟩ =
      DevState.visible ⟨countOpen t.dev, t.heap⟩ :=
  visible_mapDev (fun _ => rfl) (fun _ => rfl) h

theorem openCommit_visible {fFlags : Nat} (h : s.visible = t.visible)
    (hcommit : openCommit fFlags s = some s') :
    ∃ t', openCommit fFlags t = some t' ∧ s'.visible = t'.visible := by
  -- the last assignment, made or not
  have hlast : ∀ {u v : DevState}, u.visible = v.visible →
      DevState.visible (if hasFlag fFlags oAppend then
        { u with dev := { u.dev with append := true } } else u) =
      DevState.visible (if hasFlag fFlags oAppend then
        { v with dev := { v.dev with append := true } } else v) := by
    intro u v huv
    split
    · exact visible_mapDev (f := fun d => { d with append := true })
        (fun _ => rfl) (fun _ => rfl) huv
    · exact huv
  have hcount := countOpen_visible h
  unfold openCommit at hcommit ⊢
  cases htrunc : hasFlag fFlags oTrunc with
  | false =>
      simp only [htrunc, Bool.false_eq_true, if_false, Option.map_some,
        Option.some.injEq] at hcommit ⊢
      exact ⟨_, rfl, hcommit ▸ hlast hcount⟩
  | true =>
      simp only [htrunc, if_true] at hcommit ⊢
      obtain ⟨u, hu, rfl⟩ := Option.map_eq_some_iff.mp hcommit
      obtain ⟨p, hp, rfl⟩ := Option.map_eq_some_iff.mp hu
      obtain ⟨q, hq, hpq⟩ := poke_visible hcount hp
      refine ⟨_, by rw [hq]; rfl, hlast ?_⟩
      exact visible_mapDev (f := fun d => { d with counter := 0 })
        (fun _ => rfl) (fun _ => rfl) hpq

theorem openRest_visible {fFlags : Nat} {status : OpenStatus}
    (h : s.visible = t.visible)
    (hrest : openRest fFlags s = some (s', status)) :
    ∃ t', openRest fFlags t = some (t', status) ∧ s'.visible = t'.visible := by
  have hhead : waitHead t.dev fFlags = waitHead s.dev fFlags := by
    have htest := contentIsUnavailable_congr (visible_counter h).symm fFlags
    simp only [waitHead, htest]
  unfold openRest at hrest ⊢
  rw [hhead]
  split at hrest
  · obtain ⟨rfl, rfl⟩ := Prod.mk.inj (Option.some.inj hrest)
    exact ⟨t, rfl, h⟩
  · obtain ⟨u, hcommit, heq⟩ := Option.map_eq_some_iff.mp hrest
    obtain ⟨rfl, rfl⟩ := Prod.mk.inj heq
    obtain ⟨t', ht', hvisible⟩ := openCommit_visible h hcommit
    exact ⟨t', by rw [ht']; rfl, hvisible⟩

theorem allocated_visible (data : Nat → Byte) (m : Minor)
    (h : s.visible = t.visible) :
    (allocated data m s).visible = (allocated data m t).visible := by
  have hdev : ({ s.dev with cddStorage := none } : CDDdev) =
      { t.dev with cddStorage := none } := congrArg Prod.fst h
  have hcache : s.dev.bufcache = t.dev.bufcache :=
    congrArg (fun v => v.1.bufcache) h
  have hcall : deviceAllocator s.dev m = deviceAllocator t.dev m := by
    unfold deviceAllocator
    cases getStorageType m with
    | none => rfl
    | some type => cases type <;> simp only [storageCall, hcache]
  have hfields : ({ s.dev with
        cddStorage := none, allocLen := getStorageLength m } : CDDdev) =
      { t.dev with cddStorage := none, allocLen := getStorageLength m } :=
    congrArg (fun d : CDDdev => { d with allocLen := getStorageLength m }) hdev
  simp only [DevState.visible, DevState.buffer, allocated, Option.bind_some,
    Ledger.getElem?_acquire_self, hcall, hfields]

theorem openBody_visible {fresh : Option (Nat → Byte)} {fFlags : Nat} {m : Minor}
    {status : OpenStatus} (hs : minorOf s.dev.devno = m)
    (ht : minorOf t.dev.devno = m) (h : s.visible = t.visible)
    (hopen : openBody fresh fFlags s = some (s', status)) :
    ∃ t', openBody fresh fFlags t = some (t', status) ∧
      s'.visible = t'.visible := by
  rcases openBody_cases hs hopen with ⟨rfl, rfl, rfl⟩ | ⟨data, rfl, hrest⟩
  · have hdev : s.visible.1 = t.visible.1 := congrArg Prod.fst h
    exact ⟨_, openBody_none fFlags t, Prod.ext hdev rfl⟩
  · rw [openBody_some ht]
    exact openRest_visible (allocated_visible data m h) hrest

/-! ### CDD_read and CDD_write -/

theorem readBody_visible (buf : Nat → Byte) (count uncopied : Nat) (ppos : Int)
    (h : s.visible = t.visible) :
    readBody buf count uncopied ppos s = readBody buf count uncopied ppos t := by
  simp only [readBody, visible_counter h, visible_buffer h]

theorem writeBody_visible {buf : List Byte} {copy : UserCopy} {ppos : Int}
    {w : WriteResult} (h : s.visible = t.visible)
    (hwrite : writeBody buf copy ppos s = some w) :
    ∃ t', writeBody buf copy ppos t = some ⟨t', w.retval, w.ppos⟩ ∧
      w.state.visible = t'.visible := by
  have hpos : writePos t.dev ppos = writePos s.dev ppos := by
    simp only [writePos, visible_counter h, visible_append h]
  simp only [writeBody, hpos, ← visible_allocLen h] at hwrite ⊢
  split at hwrite
  next hend =>
    obtain rfl := Option.some.inj hwrite
    exact ⟨t, if_pos hend, h⟩
  next hend =>
  rw [if_neg hend]
  split at hwrite
  next hneg =>
    obtain rfl := Option.some.inj hwrite
    exact ⟨t, if_pos hneg, h⟩
  next hneg =>
  rw [if_neg hneg]
  split at hwrite
  next => cases hwrite
  next u hu =>
  obtain ⟨v, hv, huv⟩ := poke_visible h hu
  simp only [hv]
  split at hwrite
  next hleft =>
    obtain rfl := Option.some.inj hwrite
    exact ⟨v, if_pos hleft, huv⟩
  next hleft =>
    rw [if_neg hleft, ← visible_counter huv]
    obtain rfl := Option.some.inj hwrite
    refine ⟨_, rfl, ?_⟩
    split
    · exact visible_mapDev (f := fun d => { d with counter := _ })
        (fun _ => rfl) (fun _ => rfl) huv
    · exact huv

/-! ### CDD_ioctl -/

theorem cddIoctl_visible (ioctlNum uncopied : Nat) (h : s.visible = t.visible) :
    cddIoctl ioctlNum uncopied s.dev = cddIoctl ioctlNum uncopied t.dev := by
  have husage : ∀ cmd, getCDDUsage cmd s.dev = getCDDUsage cmd t.dev := by
    intro cmd
    unfold getCDDUsage
    rw [visible_allocLen h, visible_counter h, visible_activeOpens h]
  simp only [cddIoctl, ioctlBody, husage]

end Visible

/-! ## Calls on other devices -/

theorem visible_setDevState_ne {w : World} {m k : Minor} {s : DevState}
    (h : WorldInv w) (hframe : Frame k (w.devState k) s) (hm : m ≠ k) :
    ((w.setDevState k s).devState m).visible = (w.devState m).visible := by
  have hdev : (w.setDevState k s).cddDev m = w.cddDev m :=
    w.cddDev_setDevState_ne s hm
  have hbuffer : ((w.setDevState k s).devState m).buffer =
      (w.devState m).buffer := by
    simp only [DevState.buffer, World.devState, hdev]
    cases hp : (w.cddDev m).cddStorage with
    | none => rfl
    | some p =>
        obtain ⟨x, hx, -⟩ := (h.device m).storage_entry hp
        have hk : (w.devState k).dev.cddStorage ≠ some p := by
          intro hk
          exact hm (h.storage_inj hp hk)
        have hx' : (w.setDevState k s).heap[p]? = some x :=
          hframe.content p x hx hk
        have hx : w.heap[p]? = some x := hx
        simp only [Option.bind_some, hx, hx']
  simp only [DevState.visible, hbuffer]
  simp only [World.devState, hdev]

theorem Effect.visible_other {y : System} {c : Call} {o : Reply} {w : World}
    {m : Minor} (h : WorldInv y.world) (heff : Effect y c o w)
    (hc : c.device y ≠ some m) :
    (w.devState m).visible = (y.devState m).visible := by
  cases heff with
  | @opened _ k _ _ _ _ hopen =>
      have hm : m ≠ k := fun heq => hc (congrArg some heq.symm)
      exact visible_setDevState_ne h
        (openBody_frame (h.device k).minor_eq hopen) hm
  | @resumed f k _ _ _ hf hrest =>
      have hm : m ≠ k := by
        rintro rfl
        exact hc (by simp only [Call.device, hf, FileSlot.minor])
      exact visible_setDevState_ne h (openRest_frame hrest) hm
  | @written f k _ _ _ _ _ _ hf hrange hwrite =>
      have hm : m ≠ k := by
        rintro rfl
        exact hc (by simp only [Call.device, hf, FileSlot.minor])
      exact visible_setDevState_ne h
        (writeBody_frame (vfsRange_count hrange) hwrite) hm
  | _ => rfl

theorem finishOpen_minor {f : Nat} {m k : Minor} {fFlags : Nat}
    {r : Option (DevState × OpenStatus)} {y z : System} {o : Reply}
    (h : y.finishOpen f k fFlags r = some (z, o))
    (hm : (z.files f).minor = some m) : k = m := by
  obtain ⟨s, status, -, rfl, -⟩ := finishOpen_eq_some h
  rw [(finishOpen_slot h).1] at hm
  exact (OpenStatus.slot_minor hm).symm

theorem moveTo_minor {f : Nat} {m : Minor} {fFlags : Nat} {fPos ppos : Int}
    (at? : Option Int) {y : System} (hf : y.files f = .opened m fFlags fPos) :
    ((y.moveTo f m fFlags at? ppos).files f).minor = some m := by
  cases at? with
  | none => simp only [System.moveTo, System.setFile, Function.update_self,
      FileSlot.minor]
  | some _ => simp only [System.moveTo, hf, FileSlot.minor]

theorem step_device {y z : System} {c : Call} {o : Reply} {m : Minor}
    (h : driver.step y c = some (z, o)) :
    ((y.files c.file).minor = some m → c.device y = some m) ∧
      ((z.files c.file).minor = some m → c.device y = some m) := by
  have h : y.call c = some (z, o) := h
  cases c with
  | openFile f k fFlags locked fresh =>
      simp only [System.call] at h
      split at h
      next hf =>
        refine ⟨fun hm => ?_, fun hm => congrArg some (finishOpen_minor h hm)⟩
        have hm : (y.files f).minor = some m := hm
        rw [hf] at hm
        cases hm
      next => cases h
  | wake f signalPending relocked =>
      refine ⟨id, fun hm => ?_⟩
      simp only [System.call] at h
      split at h
      next k fFlags hf =>
        simp only [Call.device, hf, FileSlot.minor]
        exact congrArg some (finishOpen_minor h hm)
      next => cases h
  | read f at? buf count uncopied =>
      refine ⟨id, fun hm => ?_⟩
      simp only [System.call] at h
      split at h
      next k fFlags fPos hf =>
        split at h
        · obtain ⟨r, -, heq⟩ := Option.map_eq_some_iff.mp h
          obtain ⟨rfl, -⟩ := Prod.mk.inj heq
          simp only [Call.device, hf, FileSlot.minor]
          exact (moveTo_minor at? hf).symm.trans hm
        · cases h
      next => cases h
  | write f at? buf locked copy =>
      refine ⟨id, fun hm => ?_⟩
      simp only [System.call] at h
      split at h
      next k fFlags fPos hf =>
        split at h
        · obtain ⟨w, -, heq⟩ := Option.map_eq_some_iff.mp h
          obtain ⟨rfl, -⟩ := Prod.mk.inj heq
          simp only [Call.device, hf, FileSlot.minor]
          exact (moveTo_minor (y := y.setDevState k w.state) at? hf).symm.trans hm
        · cases h
      next => cases h
  | llseek f newpos whence =>
      refine ⟨id, fun hm => ?_⟩
      simp only [System.call] at h
      split at h
      next k fFlags fPos hf =>
        obtain ⟨rfl, -⟩ := Prod.mk.inj (Option.some.inj h)
        simpa [Call.device, Call.file, hf, FileSlot.minor, System.setFile]
          using hm
      next => cases h
  | ioctl f ioctlNum uncopied =>
      refine ⟨id, fun hm => ?_⟩
      simp only [System.call] at h
      split at h
      next =>
        obtain ⟨rfl, -⟩ := Prod.mk.inj (Option.some.inj h)
        exact hm
      next => cases h
  | release f =>
      refine ⟨id, fun hm => ?_⟩
      simp only [System.call] at h
      split at h
      next =>
        obtain ⟨rfl, -⟩ := Prod.mk.inj (Option.some.inj h)
        simp [Call.file, FileSlot.minor, System.setFile] at hm
      next => cases h

theorem step_only_other {y z : System} {c : Call} {o : Reply} {m : Minor}
    (h : driver.step y c = some (z, o)) (hc : c.device y ≠ some m) (f : Nat) :
    (z.files f).only m = (y.files f).only m := by
  obtain ⟨hbefore, hafter⟩ := @step_device _ _ _ _ m h
  by_cases hf : c.file = f
  · subst hf
    calc (z.files c.file).only m
        = .closed := FileSlot.only_of_ne fun hm => hc (hafter hm)
      _ = (y.files c.file).only m :=
          (FileSlot.only_of_ne fun hm => hc (hbefore hm)).symm
  · rw [step_files_ne h hf]

/-! ## Calls on the device itself -/

theorem devState_setDevState_self (m : Minor) (s : DevState) (y : System) :
    (y.setDevState m s).devState m = s :=
  y.world.devState_setDevState_self m s

structure SeesOnly (m : Minor) (y z : System) : Prop where
  visible : (y.devState m).visible = (z.devState m).visible
  files : ∀ f, z.files f = (y.files f).only m

namespace SeesOnly

variable {m : Minor} {y z : System}

theorem slot {slot : FileSlot} {f : Nat} (h : SeesOnly m y z)
    (hf : y.files f = slot) (hm : slot.minor = some m) : z.files f = slot := by
  rw [h.files f, hf, FileSlot.only_of_minor hm]

theorem setFile {slot : FileSlot} (f : Nat) (h : SeesOnly m y z)
    (hslot : slot.only m = slot) :
    SeesOnly m (y.setFile f slot) (z.setFile f slot) := by
  refine ⟨h.visible, fun g => ?_⟩
  by_cases hg : g = f
  · subst hg
    simp only [System.setFile, Function.update_self, hslot]
  · simp only [System.setFile, Function.update_of_ne hg, h.files g]

theorem setDevState {s t : DevState} (h : SeesOnly m y z)
    (hvisible : s.visible = t.visible) :
    SeesOnly m (y.setDevState m s) (z.setDevState m t) := by
  refine ⟨?_, h.files⟩
  rw [devState_setDevState_self, devState_setDevState_self, hvisible]

theorem moveTo (f fFlags : Nat) (at? : Option Int) (ppos : Int)
    (h : SeesOnly m y z) :
    SeesOnly m (y.moveTo f m fFlags at? ppos) (z.moveTo f m fFlags at? ppos) := by
  cases at? with
  | none => exact h.setFile f (FileSlot.only_of_minor rfl)
  | some _ => exact h

theorem finishOpen {s t : DevState} (f fFlags : Nat) (status : OpenStatus)
    (h : SeesOnly m y z) (hvisible : s.visible = t.visible) :
    SeesOnly m ((y.setDevState m s).setFile f (status.slot m fFlags))
      ((z.setDevState m t).setFile f (status.slot m fFlags)) :=
  (h.setDevState hvisible).setFile f (OpenStatus.slot_only m fFlags status)

end SeesOnly

section Shown

variable {m : Minor} {y z y' : System} {o : Reply}

theorem seesOnly_openFile {f fFlags : Nat} {locked : Bool}
    {fresh : Option (Nat → Byte)} (hy : WorldInv y.world)
    (hz : WorldInv z.world) (h : SeesOnly m y z)
    (hstep : driver.step y (.openFile f m fFlags locked fresh) = some (y', o)) :
    ∃ z', driver.step z (.openFile f m fFlags locked fresh) = some (z', o) ∧
      SeesOnly m y' z' := by
  have hcall : y.call (.openFile f m fFlags locked fresh) = some (y', o) := hstep
  simp only [System.call] at hcall
  split at hcall
  next hf =>
    obtain ⟨⟨s, status⟩, hopen, heq⟩ := Option.map_eq_some_iff.mp hcall
    obtain ⟨rfl, rfl⟩ := Prod.mk.inj heq
    have hslot : z.files f = .closed := by rw [h.files f, hf]; rfl
    obtain ⟨t, ht, hvisible⟩ : ∃ t, cddOpen locked fresh fFlags (z.devState m) =
        some (t, status) ∧ s.visible = t.visible := by
      cases locked with
      | false =>
          obtain ⟨rfl, rfl⟩ := Prod.mk.inj (Option.some.inj hopen)
          exact ⟨_, rfl, h.visible⟩
      | true =>
          exact openBody_visible (hy.device m).minor_eq (hz.device m).minor_eq
            h.visible hopen
    refine ⟨_, step_openFile hslot ht, ?_⟩
    exact h.finishOpen f fFlags status hvisible
  next => cases hcall

theorem seesOnly_wake {f : Nat} {signalPending relocked : Bool}
    (h : SeesOnly m y z)
    (hstep : driver.step y (.wake f signalPending relocked) = some (y', o))
    (hm : (y.files f).minor = some m) :
    ∃ z', driver.step z (.wake f signalPending relocked) = some (z', o) ∧
      SeesOnly m y' z' := by
  have hcall : y.call (.wake f signalPending relocked) = some (y', o) := hstep
  simp only [System.call] at hcall
  split at hcall
  next k fFlags hf =>
    obtain rfl : k = m := by
      rw [hf] at hm
      exact Option.some.inj hm
    obtain ⟨⟨s, status⟩, hopen, heq⟩ := Option.map_eq_some_iff.mp hcall
    obtain ⟨rfl, rfl⟩ := Prod.mk.inj heq
    obtain ⟨t, ht, hvisible⟩ :
        ∃ t, cddOpenWake signalPending relocked fFlags (z.devState k) =
          some (t, status) ∧ s.visible = t.visible := by
      unfold cddOpenWake at hopen ⊢
      split at hopen
      next hsignal =>
        obtain ⟨rfl, rfl⟩ := Prod.mk.inj (Option.some.inj hopen)
        exact ⟨_, if_pos hsignal, h.visible⟩
      next hsignal =>
        rw [if_neg hsignal]
        split at hopen
        next hlock =>
          obtain ⟨rfl, rfl⟩ := Prod.mk.inj (Option.some.inj hopen)
          exact ⟨_, if_pos hlock, h.visible⟩
        next hlock =>
          rw [if_neg hlock]
          exact openRest_visible h.visible hopen
    refine ⟨_, step_wake (h.slot hf rfl) ht, ?_⟩
    exact h.finishOpen f fFlags status hvisible
  next => cases hcall

theorem seesOnly_read {f : Nat} {at? : Option Int} {buf : Nat → Byte}
    {count uncopied : Nat} (h : SeesOnly m y z)
    (hstep : driver.step y (.read f at? buf count uncopied) = some (y', o))
    (hm : (y.files f).minor = some m) :
    ∃ z', driver.step z (.read f at? buf count uncopied) = some (z', o) ∧
      SeesOnly m y' z' := by
  have hcall : y.call (.read f at? buf count uncopied) = some (y', o) := hstep
  simp only [System.call] at hcall
  split at hcall
  next k fFlags fPos hf =>
    obtain rfl : k = m := by
      rw [hf] at hm
      exact Option.some.inj hm
    split at hcall
    next hrange =>
      obtain ⟨r, hread, heq⟩ := Option.map_eq_some_iff.mp hcall
      obtain ⟨rfl, rfl⟩ := Prod.mk.inj heq
      have hsame := readBody_visible buf count uncopied (at?.getD fPos) h.visible
      have hread' : cddRead buf count uncopied (at?.getD fPos) (z.devState k) =
          some r := hsame.symm.trans hread
      refine ⟨z.moveTo f k fFlags at? r.ppos, ?_, h.moveTo f fFlags at? r.ppos⟩
      show z.call (.read f at? buf count uncopied) = _
      simp only [System.call, h.slot hf rfl, hrange, if_true, hread',
        Option.map_some]
    next => cases hcall
  next => cases hcall

theorem seesOnly_write {f : Nat} {at? : Option Int} {buf : List Byte}
    {locked : Bool} {copy : UserCopy} (h : SeesOnly m y z)
    (hstep : driver.step y (.write f at? buf locked copy) = some (y', o))
    (hm : (y.files f).minor = some m) :
    ∃ z', driver.step z (.write f at? buf locked copy) = some (z', o) ∧
      SeesOnly m y' z' := by
  have hcall : y.call (.write f at? buf locked copy) = some (y', o) := hstep
  simp only [System.call] at hcall
  split at hcall
  next k fFlags fPos hf =>
    obtain rfl : k = m := by
      rw [hf] at hm
      exact Option.some.inj hm
    split at hcall
    next hrange =>
      obtain ⟨w, hwrite, heq⟩ := Option.map_eq_some_iff.mp hcall
      obtain ⟨rfl, rfl⟩ := Prod.mk.inj heq
      obtain ⟨t, ht, hvisible⟩ :
          ∃ t, cddWrite locked buf copy (at?.getD fPos) (z.devState k) =
            some ⟨t, w.retval, w.ppos⟩ ∧ w.state.visible = t.visible := by
        cases locked with
        | false =>
            obtain rfl := Option.some.inj hwrite
            exact ⟨_, rfl, h.visible⟩
        | true => exact writeBody_visible h.visible hwrite
      refine ⟨(z.setDevState k t).moveTo f k fFlags at? w.ppos, ?_,
        (h.setDevState hvisible).moveTo f fFlags at? w.ppos⟩
      show z.call (.write f at? buf locked copy) = _
      simp only [System.call, h.slot hf rfl, hrange, if_true, ht,
        Option.map_some]
    next => cases hcall
  next => cases hcall

theorem seesOnly_step {c : Call} (hy : WorldInv y.world) (hz : WorldInv z.world)
    (h : SeesOnly m y z) (hstep : driver.step y c = some (y', o))
    (hc : c.device y = some m) :
    ∃ z', driver.step z c = some (z', o) ∧ SeesOnly m y' z' := by
  cases c with
  | openFile f k fFlags locked fresh =>
      obtain rfl : k = m := Option.some.inj hc
      exact seesOnly_openFile hy hz h hstep
  | wake f signalPending relocked => exact seesOnly_wake h hstep hc
  | read f at? buf count uncopied => exact seesOnly_read h hstep hc
  | write f at? buf locked copy => exact seesOnly_write h hstep hc
  | llseek f newpos whence =>
      have hcall : y.call (.llseek f newpos whence) = some (y', o) := hstep
      simp only [System.call] at hcall
      split at hcall
      next k fFlags fPos hf =>
        obtain rfl : k = m := by
          simp only [Call.device, hf] at hc
          exact Option.some.inj hc
        obtain ⟨rfl, rfl⟩ := Prod.mk.inj (Option.some.inj hcall)
        have hcounter : (y.world.cddDev k).counter = (z.world.cddDev k).counter :=
          visible_counter h.visible
        refine ⟨_, ?_, h.setFile f (FileSlot.only_of_minor rfl)⟩
        show z.call (.llseek f newpos whence) = _
        simp only [System.call, h.slot hf rfl, cddLlseek, hcounter]
      next => cases hcall
  | ioctl f ioctlNum uncopied =>
      have hcall : y.call (.ioctl f ioctlNum uncopied) = some (y', o) := hstep
      simp only [System.call] at hcall
      split at hcall
      next k fFlags fPos hf =>
        obtain rfl : k = m := by
          simp only [Call.device, hf] at hc
          exact Option.some.inj hc
        obtain ⟨rfl, rfl⟩ := Prod.mk.inj (Option.some.inj hcall)
        have htext : cddIoctl ioctlNum uncopied (y.world.cddDev k) =
            cddIoctl ioctlNum uncopied (z.world.cddDev k) :=
          cddIoctl_visible (s := y.devState k) (t := z.devState k) ioctlNum
            uncopied h.visible
        refine ⟨z, ?_, h⟩
        show z.call (.ioctl f ioctlNum uncopied) = _
        simp only [System.call, h.slot hf rfl, htext]
      next => cases hcall
  | release f =>
      have hcall : y.call (.release f) = some (y', o) := hstep
      simp only [System.call] at hcall
      split at hcall
      next k fFlags fPos hf =>
        obtain rfl : k = m := by
          simp only [Call.device, hf] at hc
          exact Option.some.inj hc
        obtain ⟨rfl, rfl⟩ := Prod.mk.inj (Option.some.inj hcall)
        refine ⟨_, ?_, h.setFile f (FileSlot.only_closed k)⟩
        show z.call (.release f) = _
        simp only [System.call, h.slot hf rfl]
      next => cases hcall

end Shown

/-! ## The device on its own -/

/-- The calls on the device `m` are a run of their own: with the calls on all
other devices left out, each is answered with the same reply, and in the end
the device and its files are the same. -/
theorem device_alone {e : InitEnv} (h : (cddInit e).1 = 0) (m : Minor)
    {cs : List Call} {y : System} (hrun : driver.Run (loaded e) cs y) :
    ∃ z, driver.Run (loaded e)
        ((driver.seen (onDevice m) (loaded e) cs).map Prod.fst) z ∧
      driver.trace (loaded e)
        ((driver.seen (onDevice m) (loaded e) cs).map Prod.fst) =
          driver.seen (onDevice m) (loaded e) cs ∧
      (z.devState m).visible = (y.devState m).visible ∧
      ∀ f, z.files f = (y.files f).only m := by
  have hinv := worldInv_loaded h
  have hstart : SeesOnly m (loaded e) (loaded e) := ⟨rfl, fun _ => rfl⟩
  obtain ⟨z, hz, htrace, -, -, hsees⟩ := Machine.Run.project (N := driver)
    (R := fun y z => WorldInv y.world ∧ WorldInv z.world ∧ SeesOnly m y z)
    (fun {y z c y' o} hR hstep hc => by
      obtain ⟨hy, hz, hsees⟩ := hR
      obtain ⟨z', hz', hsees'⟩ :=
        seesOnly_step hy hz hsees hstep (of_decide_eq_true hc)
      exact ⟨z', hz', hy.step hstep, hz.step hz', hsees'⟩)
    (fun {y z c y' o} hR hstep hc => by
      obtain ⟨hy, hz, hsees⟩ := hR
      have hc : c.device y ≠ some m := of_decide_eq_false hc
      refine ⟨hy.step hstep, hz, ?_, fun f => ?_⟩
      · exact ((effect_of_step hstep).visible_other hy hc).trans hsees.visible
      · rw [hsees.files f, step_only_other hstep hc f])
    hrun ⟨hinv, hinv, hstart⟩
  exact ⟨z, hz, htrace, hsees.visible.symm, hsees.files⟩

/-- Runs with the same calls on `m` give the same replies on `m` and leave it
and its files the same, whatever is done to the other devices. -/
theorem device_noninterference {e : InitEnv} (h : (cddInit e).1 = 0) {m : Minor}
    {cs cs' : List Call} {y y' : System}
    (hrun : driver.Run (loaded e) cs y) (hrun' : driver.Run (loaded e) cs' y')
    (hcalls : (driver.seen (onDevice m) (loaded e) cs').map Prod.fst =
      (driver.seen (onDevice m) (loaded e) cs).map Prod.fst) :
    driver.seen (onDevice m) (loaded e) cs' =
        driver.seen (onDevice m) (loaded e) cs ∧
      (y'.devState m).visible = (y.devState m).visible ∧
      ∀ f, (y'.files f).only m = (y.files f).only m := by
  obtain ⟨z, hz, htrace, hvisible, hfiles⟩ := device_alone h m hrun
  obtain ⟨z', hz', htrace', hvisible', hfiles'⟩ := device_alone h m hrun'
  rw [hcalls] at hz' htrace'
  obtain rfl : z' = z := hz'.unique hz
  refine ⟨htrace'.symm.trans htrace, hvisible'.symm.trans hvisible, fun f => ?_⟩
  rw [← hfiles' f, hfiles f]

/-- When calls are made one at a time, the devices are isolated from each other:
the calls on one of them make a run of their own with the same replies, and no
other run with these calls on it tells its users anything else. -/
theorem devices_isolated {e : InitEnv} (h : (cddInit e).1 = 0) (m : Minor)
    {cs : List Call} {y : System} (hrun : driver.Run (loaded e) cs y) :
    (∃ z, driver.Run (loaded e)
        ((driver.seen (onDevice m) (loaded e) cs).map Prod.fst) z ∧
      driver.trace (loaded e)
        ((driver.seen (onDevice m) (loaded e) cs).map Prod.fst) =
          driver.seen (onDevice m) (loaded e) cs ∧
      (z.devState m).visible = (y.devState m).visible ∧
      ∀ f, z.files f = (y.files f).only m) ∧
    ∀ cs' y', driver.Run (loaded e) cs' y' →
      (driver.seen (onDevice m) (loaded e) cs').map Prod.fst =
        (driver.seen (onDevice m) (loaded e) cs).map Prod.fst →
      driver.seen (onDevice m) (loaded e) cs' =
          driver.seen (onDevice m) (loaded e) cs ∧
        (y'.devState m).visible = (y.devState m).visible ∧
        ∀ f, (y'.files f).only m = (y.files f).only m :=
  ⟨device_alone h m hrun,
    fun _ _ hrun' hcalls => device_noninterference h hrun hrun' hcalls⟩

theorem devices_isolated_two :
    ∃ y z, driver.Run (loaded undisturbed)
        [.openFile 0 0 oRdwr true (some fun _ => 7),
          .openFile 1 1 oRdwr true (some fun _ => 9), .write 0 none [65] true .whole,
          .write 1 none [66, 67] true .whole, .release 0] y ∧
      driver.Run (loaded undisturbed)
        [.openFile 1 1 oRdwr true (some fun _ => 9),
          .write 1 none [66, 67] true .whole] z ∧
      (y.devState 1).dev.cddStorage = some 1 ∧
      (z.devState 1).visible = (y.devState 1).visible := by
  have hrun := @Machine.run_of_exec _ _ _ driver (loaded undisturbed) _
    [.openFile 0 0 oRdwr true (some fun _ => 7),
      .openFile 1 1 oRdwr true (some fun _ => 9), .write 0 none [65] true .whole,
      .write 1 none [66, 67] true .whole, .release 0] rfl
  obtain ⟨⟨z, hz, -, hvisible, -⟩, -⟩ :=
    devices_isolated cddInit_undisturbed 1 hrun
  exact ⟨_, z, hrun, hz, rfl, hvisible⟩

end CddDriver
