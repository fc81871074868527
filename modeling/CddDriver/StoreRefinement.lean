import CddDriver.Lib.Client
import CddDriver.Stores
import Mathlib.Tactic.Common
/-!
# The driver is a refinement of the stores

As long as no offset wraps around into a device and no open loses a buffer,
processes cannot tell the driver from the machine of stores.
-/

namespace CddDriver

open Lib

/-! ## The condition and the simulation relation -/

/-- The call loses no buffer, and no offset of it that is too large for the
device wraps around into it. -/
def Call.exact (y : System) : Call → Bool
  | .openFile _ m _ true none => (y.world.cddDev m).cddStorage.isNone
  | .write f at? buf true _ =>
      match y.files f with
      | .opened m _ fPos =>
          let start := at?.getD fPos
          deviceOffset start (y.world.cddDev m) < 2 ^ 31 ∨
            ¬ Accepts start buf.length (y.world.cddDev m)
      | _ => true
  | .llseek f newpos whence =>
      match y.files f with
      | .opened m _ fPos =>
          match seekTarget fPos newpos whence (y.world.cddDev m) with
          | some target =>
              0 ≤ target ∧ target ≤ (y.world.cddDev m).counter ∨
                (y.world.cddDev m).counter < toUInt target
          | none => true
      | _ => true
  | _ => true

def Exact (y : System) (c : Call) (_ : Reply) (_ : System) : Prop :=
  c.exact y = true

/-- The driver in state `y` implements the stores `a`; a device has a buffer as
soon as a file is open or waits on it. -/
structure Refines (y : System) (a : Stores) : Prop where
  world : WorldInv y.world
  device : ∀ m, Implements m (y.devState m) (a.device m)
  files : a.files = y.files
  buffered : ∀ f m, (y.files f).minor = some m →
    (y.devState m).dev.cddStorage ≠ none

theorem Implements.congr {m : Minor} {s t : DevState} {d : DeviceStore m}
    (h : Implements m s d) (hvisible : t.visible = s.visible) :
    Implements m t d where
  counter := (visible_counter hvisible).trans h.counter
  append := (visible_append hvisible).trans h.append
  opens := (visible_activeOpens hvisible).trans h.opens
  cells b hb := h.cells b (visible_buffer hvisible ▸ hb)

namespace Refines

variable {y : System} {a : Stores}

theorem setDevState {m : Minor} {s : DevState} {d : DeviceStore m}
    (h : Refines y a) (hdev : DeviceInv y.world.cddMajor m s)
    (hframe : Frame m (y.devState m) s) (himpl : Implements m s d)
    (hkept : (y.devState m).dev.cddStorage ≠ none → s.dev.cddStorage ≠ none) :
    Refines (y.setDevState m s) (a.setDevice m d) := by
  refine ⟨h.world.setDevState hdev hframe, fun k => ?_, h.files, fun f k hk => ?_⟩
  · by_cases hkm : k = m
    · subst hkm
      rw [devState_setDevState_self]
      simp only [Stores.setDevice, Function.update_self]
      exact himpl
    · simp only [Stores.setDevice, Function.update_of_ne hkm]
      exact (h.device k).congr (visible_setDevState_ne h.world hframe hkm)
  · have hold := h.buffered f k hk
    by_cases hkm : k = m
    · subst hkm
      rw [devState_setDevState_self]
      exact hkept hold
    · have hsame := y.world.cddDev_setDevState_ne s hkm
      simpa only [System.devState, setDevState_world, World.devState, hsame]
        using hold

theorem setFile {f : Nat} {slot : FileSlot} (h : Refines y a)
    (hslot : ∀ m, slot.minor = some m →
      (y.devState m).dev.cddStorage ≠ none) :
    Refines (y.setFile f slot) (a.setFile f slot) := by
  refine ⟨h.world, h.device, ?_, fun g m hm => ?_⟩
  · simp only [System.setFile, Stores.setFile, h.files]
  · by_cases hg : g = f
    · subst hg
      simp only [System.setFile, Function.update_self] at hm
      exact hslot m hm
    · simp only [System.setFile, Function.update_of_ne hg] at hm
      exact h.buffered g m hm

theorem moveTo {f : Nat} {m : Minor} {fFlags : Nat} (h : Refines y a)
    (hm : (y.devState m).dev.cddStorage ≠ none) (at? : Option Int) (pos : Int) :
    Refines (y.moveTo f m fFlags at? pos) (a.moveTo f m fFlags at? pos) := by
  cases at? with
  | none =>
      refine h.setFile fun k hk => ?_
      obtain rfl := Option.some.inj hk
      exact hm
  | some _ => exact h

theorem finishOpen {f : Nat} {m : Minor} {fFlags : Nat} {s : DevState}
    {d : DeviceStore m} {status : OpenStatus} (h : Refines y a)
    (hdev : DeviceInv y.world.cddMajor m s)
    (hframe : Frame m (y.devState m) s) (himpl : Implements m s d)
    (hkept : (y.devState m).dev.cddStorage ≠ none → s.dev.cddStorage ≠ none)
    (hopened : (status.slot m fFlags).minor = some m →
      s.dev.cddStorage ≠ none) :
    Refines ((y.setDevState m s).setFile f (status.slot m fFlags))
      (a.finishOpen f m fFlags (d, status)).1 := by
  refine (h.setDevState hdev hframe himpl hkept).setFile fun k hk => ?_
  obtain rfl := OpenStatus.slot_minor hk
  rw [devState_setDevState_self]
  exact hopened hk

theorem deviceOffset_eq (h : Refines y a) (m : Minor) (start : Int) :
    deviceOffset start (y.world.cddDev m) = (a.device m).place start := by
  simp only [DeviceStore.place, ← (h.device m).append, ← (h.device m).counter]
  rfl

def Matched (y : System) (a : Stores) (c : Call) : Prop :=
  (driver.step y c = none → stores.step a c = none) ∧
    ∀ z o, driver.step y c = some (z, o) → Exact y c o z →
      ∃ b, stores.step a c = some (b, o.told) ∧ Refines z b

theorem Matched.of_step {c : Call} {z : System} {o : Reply}
    (hstep : driver.step y c = some (z, o))
    (h : Exact y c o z →
      ∃ b, stores.step a c = some (b, o.told) ∧ Refines z b) :
    Matched y a c := by
  refine ⟨fun hnone => ?_, fun z' o' hstep' => ?_⟩
  · rw [hstep] at hnone
    cases hnone
  obtain ⟨rfl, rfl⟩ := Prod.mk.inj (Option.some.inj (hstep.symm.trans hstep'))
  exact h

theorem Matched.of_stuck {c : Call} (hy : driver.step y c = none)
    (ha : stores.step a c = none) : Matched y a c := by
  refine ⟨fun _ => ha, fun z o hstep => ?_⟩
  rw [hy] at hstep
  cases hstep

theorem matched_openFile (h : Refines y a) (f : Nat) (m : Minor) (fFlags : Nat)
    (locked : Bool) (fresh : Option (Nat → Byte)) :
    Matched y a (.openFile f m fFlags locked fresh) := by
  have hinv := h.world.device m
  have hfiles : a.files f = y.files f := by rw [h.files]
  cases hf : y.files f with
  | closed =>
      rw [hf] at hfiles
      cases locked with
      | false =>
          refine Matched.of_step (step_openFile hf rfl) fun _ => ?_
          refine ⟨_, ?_, h.finishOpen (d := a.device m) hinv (Frame.refl m _)
            (h.device m) id (fun hm => by cases hm)⟩
          show a.call (.openFile f m fFlags false fresh) = _
          simp only [Stores.call, hfiles]
          rfl
      | true =>
          obtain ⟨⟨s, status⟩, hs⟩ :
              ∃ r, openBody fresh fFlags (y.devState m) = some r := by
            cases fresh with
            | none => exact ⟨_, openBody_none fFlags _⟩
            | some data =>
                have hnew : some data = none →
                    (y.devState m).dev.cddStorage = none :=
                  fun hnone => by cases hnone
                obtain ⟨s, hs, -⟩ := (h.device m).openBody hinv fFlags hnew
                exact ⟨_, hs⟩
          refine Matched.of_step (step_openFile hf hs) fun hexact => ?_
          have hkept : fresh = none → (y.devState m).dev.cddStorage = none := by
            rintro rfl
            exact Option.isNone_iff_eq_none.mp hexact
          obtain ⟨s', hs', himpl⟩ := (h.device m).openBody hinv fFlags hkept
          obtain ⟨rfl, hstatus⟩ :=
            Prod.mk.inj (Option.some.inj (hs.symm.trans hs'))
          have hnew : fresh ≠ none → s.dev.cddStorage ≠ none := by
            intro hne
            rcases openBody_buffer hinv.minor_eq hs with ⟨hnone, -⟩ | ⟨-, hp, -⟩
            · exact absurd hnone hne
            · rw [hp]
              exact Option.some_ne_none _
          have hopened : (status.slot m fFlags).minor = some m →
              fresh ≠ none := by
            rintro hm rfl
            rw [openBody_none] at hs
            obtain ⟨-, rfl⟩ := Prod.mk.inj (Option.some.inj hs)
            cases hm
          refine ⟨_, ?_, h.finishOpen (hinv.openBody hs)
            (openBody_frame hinv.minor_eq hs) himpl
            (fun hy => hnew fun hnone => hy (hkept hnone))
            (fun hm => hnew (hopened hm))⟩
          show a.call (.openFile f m fFlags true fresh) = _
          simp only [Stores.call, hfiles, if_true, hstatus]
          rfl
  | opening k g =>
      refine Matched.of_stuck ?_ ?_
      · show y.call (.openFile f m fFlags locked fresh) = none
        simp only [System.call, hf]
      · show a.call (.openFile f m fFlags locked fresh) = none
        simp only [Stores.call, hfiles, hf]
  | opened k g fPos =>
      refine Matched.of_stuck ?_ ?_
      · show y.call (.openFile f m fFlags locked fresh) = none
        simp only [System.call, hf]
      · show a.call (.openFile f m fFlags locked fresh) = none
        simp only [Stores.call, hfiles, hf]

theorem matched_wake (h : Refines y a) (f : Nat) (signalPending relocked : Bool) :
    Matched y a (.wake f signalPending relocked) := by
  have hfiles : a.files f = y.files f := by rw [h.files]
  cases hf : y.files f with
  | opening m fFlags =>
      rw [hf] at hfiles
      have hinv := h.world.device m
      have hs : (y.devState m).dev.cddStorage ≠ none :=
        h.buffered f m (by rw [hf]; rfl)
      by_cases hgo : signalPending = false ∧ relocked = true
      · obtain ⟨rfl, rfl⟩ := hgo
        obtain ⟨s, hrest, himpl⟩ := (h.device m).openRest hinv hs fFlags
        have hstorage : s.dev.cddStorage ≠ none := by
          rw [(openRest_storage hrest).1]
          exact hs
        refine Matched.of_step (step_wake hf hrest) fun _ => ?_
        refine ⟨_, ?_, h.finishOpen (hinv.openRest hrest) (openRest_frame hrest)
          himpl (fun _ => hstorage) (fun _ => hstorage)⟩
        show a.call (.wake f false true) = _
        simp only [Stores.call, hfiles]
        rfl
      · have hrefused : cddOpenWake signalPending relocked fFlags (y.devState m) =
            some (y.devState m, .returned (-erestartsys)) := by
          cases signalPending <;> cases relocked <;>
            simp_all [cddOpenWake]
        have hskip : (!signalPending && relocked) = false := by
          cases signalPending <;> cases relocked <;> simp_all
        refine Matched.of_step (step_wake hf hrefused) fun _ => ?_
        refine ⟨_, ?_, h.finishOpen (d := a.device m) hinv (Frame.refl m _)
          (h.device m) id (fun hm => by cases hm)⟩
        show a.call (.wake f signalPending relocked) = _
        simp only [Stores.call, hfiles, hskip]
        rfl
  | closed =>
      refine Matched.of_stuck ?_ ?_
      · show y.call (.wake f signalPending relocked) = none
        simp only [System.call, hf]
      · show a.call (.wake f signalPending relocked) = none
        simp only [Stores.call, hfiles, hf]
  | opened m g fPos =>
      refine Matched.of_stuck ?_ ?_
      · show y.call (.wake f signalPending relocked) = none
        simp only [System.call, hf]
      · show a.call (.wake f signalPending relocked) = none
        simp only [Stores.call, hfiles, hf]

theorem matched_unopened (h : Refines y a) {c : Call}
    (hc : match c with
      | .openFile _ _ _ _ _ | .wake _ _ _ => False
      | _ => True)
    (hf : ∀ m fFlags fPos, y.files c.file ≠ .opened m fFlags fPos) :
    Matched y a c := by
  have hfiles : a.files c.file = y.files c.file := by rw [h.files]
  cases hslot : y.files c.file with
  | opened m fFlags fPos => exact absurd hslot (hf m fFlags fPos)
  | _ =>
      rw [hslot] at hfiles
      refine Matched.of_stuck ?_ ?_
      · show y.call c = none
        cases c <;> simp_all [System.call, Call.file]
      · show a.call c = none
        cases c <;> simp_all [Stores.call, Call.file]

theorem opened_buffered (h : Refines y a) {f : Nat} {m : Minor} {fFlags : Nat}
    {fPos : Int} (hf : y.files f = .opened m fFlags fPos) :
    (y.devState m).dev.cddStorage ≠ none :=
  h.buffered f m (by rw [hf]; rfl)

theorem matched_read (h : Refines y a) (f : Nat) (at? : Option Int)
    (buf : Nat → Byte) (count uncopied : Nat) :
    Matched y a (.read f at? buf count uncopied) := by
  by_cases hopen : ∃ m fFlags fPos, y.files f = .opened m fFlags fPos
  · obtain ⟨m, fFlags, fPos, hf⟩ := hopen
    have hfiles : a.files f = .opened m fFlags fPos := by rw [h.files, hf]
    have hs := h.opened_buffered hf
    by_cases hrange : vfsRange (at?.getD fPos) count = true
    · obtain ⟨r, hread, htold, hpos⟩ :=
        (h.device m).readBody (h.world.device m) hs hrange buf uncopied
      have hread' : cddRead buf count uncopied (at?.getD fPos) (y.devState m) =
          some r := hread
      refine Matched.of_step (z := y.moveTo f m fFlags at? r.ppos)
        (o := .read (at?.getD fPos) r) ?_ fun _ => ?_
      · show y.call (.read f at? buf count uncopied) = _
        simp only [System.call, hf, hrange, if_true, hread', Option.map_some]
      · refine ⟨_, ?_, h.moveTo hs at? r.ppos⟩
        show a.call (.read f at? buf count uncopied) = _
        simp only [Stores.call, hfiles, hrange, if_true, htold, hpos]
    · refine Matched.of_stuck ?_ ?_
      · show y.call (.read f at? buf count uncopied) = none
        simp only [System.call, hf, if_neg hrange]
      · show a.call (.read f at? buf count uncopied) = none
        simp only [Stores.call, hfiles, if_neg hrange]
  · exact h.matched_unopened trivial fun m g p hf => hopen ⟨m, g, p, hf⟩

theorem writeBody_total {major : Nat} {m : Minor} {s : DevState}
    (hinv : DeviceInv major m s) (hs : s.dev.cddStorage ≠ none)
    {buf : List Byte} (hcount : buf.length ≤ maxRwCount) (copy : UserCopy)
    (ppos : Int) : ∃ w, writeBody buf copy ppos s = some w := by
  obtain ⟨p, hp⟩ := Option.ne_none_iff_exists'.mp hs
  obtain ⟨b, hb⟩ := hinv.buffered hp
  obtain ⟨w, hw, -⟩ := hb.live.cddWrite_total hcount true copy ppos
  exact ⟨w, hw⟩

theorem matched_write (h : Refines y a) (f : Nat) (at? : Option Int)
    (buf : List Byte) (locked : Bool) (copy : UserCopy) :
    Matched y a (.write f at? buf locked copy) := by
  by_cases hopen : ∃ m fFlags fPos, y.files f = .opened m fFlags fPos
  · obtain ⟨m, fFlags, fPos, hf⟩ := hopen
    have hfiles : a.files f = .opened m fFlags fPos := by rw [h.files, hf]
    have hs := h.opened_buffered hf
    have hinv := h.world.device m
    by_cases hrange : vfsRange (at?.getD fPos) buf.length = true
    · have hcount := vfsRange_count hrange
      have hcall : ∀ w, cddWrite locked buf copy (at?.getD fPos)
          (y.devState m) = some w →
          driver.step y (.write f at? buf locked copy) =
            some ((y.setDevState m w.state).moveTo f m fFlags at? w.ppos,
              .write (at?.getD fPos) w.retval) := by
        intro w hw
        show y.call (.write f at? buf locked copy) = _
        simp only [System.call, hf, hrange, if_true, hw, Option.map_some]
      cases locked with
      | false =>
          refine Matched.of_step (hcall _ rfl) fun _ => ?_
          have hsame := h.setDevState (d := a.device m) hinv (Frame.refl m _)
            (h.device m) id
          refine ⟨_, ?_, hsame.moveTo (by rwa [devState_setDevState_self]) at? _⟩
          show a.call (.write f at? buf false copy) = _
          simp only [Stores.call, hfiles, hrange, if_true]
          rfl
      | true =>
          obtain ⟨w, hw⟩ := writeBody_total hinv hs hcount copy (at?.getD fPos)
          refine Matched.of_step (hcall w hw) fun hexact => ?_
          simp only [Exact, Call.exact, hf, decide_eq_true_eq] at hexact
          obtain ⟨w', hw', htold, hpos, himpl⟩ :=
            (h.device m).writeBody hinv hs hrange hexact copy
          obtain rfl := Option.some.inj (hw.symm.trans hw')
          have hstorage : w.state.dev.cddStorage ≠ none := by
            rw [(writeBody_storage hcount hw).1]
            exact hs
          have hstored := h.setDevState (hinv.writeBody hcount hw)
            (writeBody_frame hcount hw) himpl (fun _ => hstorage)
          refine ⟨_, ?_, hstored.moveTo (by rwa [devState_setDevState_self]) at? _⟩
          show a.call (.write f at? buf true copy) = _
          have htold' : (Reply.write (at?.getD fPos) w.retval).told =
            ((a.device m).write buf copy (at?.getD fPos)).2 := htold
          simp only [Stores.call, hfiles, hrange, if_true, htold', hpos]
    · refine Matched.of_stuck ?_ ?_
      · show y.call (.write f at? buf locked copy) = none
        simp only [System.call, hf, if_neg hrange]
      · show a.call (.write f at? buf locked copy) = none
        simp only [Stores.call, hfiles, if_neg hrange]
  · exact h.matched_unopened trivial fun m g p hf => hopen ⟨m, g, p, hf⟩

theorem matched_llseek (h : Refines y a) (f : Nat) (newpos whence : Int) :
    Matched y a (.llseek f newpos whence) := by
  by_cases hopen : ∃ m fFlags fPos, y.files f = .opened m fFlags fPos
  · obtain ⟨m, fFlags, fPos, hf⟩ := hopen
    have hfiles : a.files f = .opened m fFlags fPos := by rw [h.files, hf]
    have hs := h.opened_buffered hf
    have hcall : driver.step y (.llseek f newpos whence) =
        some (y.setFile f (.opened m fFlags
            (cddLlseek fPos newpos whence (y.world.cddDev m)).2),
          .llseek (cddLlseek fPos newpos whence (y.world.cddDev m)).1) := by
      show y.call (.llseek f newpos whence) = _
      simp only [System.call, hf]
    refine Matched.of_step hcall fun hexact => ?_
    have hseek := (h.device m).llseek (h.world.device m)
      fun target htarget => by
        have htarget : seekTarget fPos newpos whence (y.world.cddDev m) =
          some target := htarget
        simp only [Exact, Call.exact, hf, htarget, decide_eq_true_eq] at hexact
        exact hexact
    have hseek : cddLlseek fPos newpos whence (y.world.cddDev m) = _ := hseek
    have hminor : ∀ (pos : Int) k,
        (FileSlot.opened m fFlags pos).minor = some k →
          (y.devState k).dev.cddStorage ≠ none := by
      intro pos k hk
      obtain rfl := Option.some.inj hk
      exact hs
    cases hstore : (a.device m).seek fPos newpos whence with
    | some pos =>
        rw [hstore] at hseek
        rw [hseek]
        refine ⟨_, ?_, h.setFile (hminor pos)⟩
        have hnonneg : ¬ (pos : Int) < 0 := by omega
        show a.call (.llseek f newpos whence) = _
        simp only [Stores.call, hfiles, hstore, Reply.told, toldUnless,
          if_neg hnonneg, Int.toNat_natCast]
    | none =>
        rw [hstore] at hseek
        rw [hseek]
        have hfail : -einval < 0 := by decide
        have hsame : y.setFile f (.opened m fFlags fPos) = y := by
          rw [System.setFile, ← hf, Function.update_eq_self]
        refine ⟨a, ?_, by rw [hsame]; exact h⟩
        show a.call (.llseek f newpos whence) = _
        simp only [Stores.call, hfiles, hstore, Reply.told, toldUnless,
          if_pos hfail]
  · exact h.matched_unopened trivial fun m g p hf => hopen ⟨m, g, p, hf⟩

theorem matched_ioctl (h : Refines y a) (f ioctlNum uncopied : Nat) :
    Matched y a (.ioctl f ioctlNum uncopied) := by
  by_cases hopen : ∃ m fFlags fPos, y.files f = .opened m fFlags fPos
  · obtain ⟨m, fFlags, fPos, hf⟩ := hopen
    have hfiles : a.files f = .opened m fFlags fPos := by rw [h.files, hf]
    have htold := (h.device m).ioctl (h.world.device m) (h.opened_buffered hf)
      ioctlNum uncopied
    have hcall : driver.step y (.ioctl f ioctlNum uncopied) =
        some (y, .ioctl (cddIoctl ioctlNum uncopied (y.devState m).dev).1
          (cddIoctl ioctlNum uncopied (y.devState m).dev).2) := by
      show y.call (.ioctl f ioctlNum uncopied) = _
      simp only [System.call, hf]
      rfl
    refine Matched.of_step hcall fun _ => ⟨a, ?_, h⟩
    show a.call (.ioctl f ioctlNum uncopied) = _
    simp only [Stores.call, hfiles, htold]
  · exact h.matched_unopened trivial fun m g p hf => hopen ⟨m, g, p, hf⟩

theorem matched_release (h : Refines y a) (f : Nat) :
    Matched y a (.release f) := by
  by_cases hopen : ∃ m fFlags fPos, y.files f = .opened m fFlags fPos
  · obtain ⟨m, fFlags, fPos, hf⟩ := hopen
    have hfiles : a.files f = .opened m fFlags fPos := by rw [h.files, hf]
    have hcall : driver.step y (.release f) =
        some (y.setFile f .closed, .release) := by
      show y.call (.release f) = _
      simp only [System.call, hf]
    refine Matched.of_step hcall fun _ =>
      ⟨_, ?_, h.setFile fun m hm => by cases hm⟩
    show a.call (.release f) = _
    simp only [Stores.call, hfiles]
    rfl
  · exact h.matched_unopened trivial fun m g p hf => hopen ⟨m, g, p, hf⟩

theorem matched (h : Refines y a) (c : Call) : Matched y a c := by
  cases c with
  | openFile f m fFlags locked fresh =>
      exact h.matched_openFile f m fFlags locked fresh
  | wake f signalPending relocked => exact h.matched_wake f signalPending relocked
  | read f at? buf count uncopied => exact h.matched_read f at? buf count uncopied
  | write f at? buf locked copy =>
      exact h.matched_write f at? buf locked copy
  | llseek f newpos whence => exact h.matched_llseek f newpos whence
  | ioctl f ioctlNum uncopied => exact h.matched_ioctl f ioctlNum uncopied
  | release f => exact h.matched_release f

end Refines

theorem refines_loaded {e : InitEnv} (h : (cddInit e).1 = 0) :
    Refines (loaded e) Stores.start := by
  refine ⟨worldInv_loaded h, fun m => ?_, rfl, fun f m hm => by cases hm⟩
  have hdev : ((loaded e).devState m).dev =
      liveDev (loaded e).world.cddMajor m m m := loaded_cddDev h m
  refine ⟨?_, ?_, ?_, fun b hb => ?_⟩
  · rw [hdev]
    rfl
  · rw [hdev]
    rfl
  · rw [hdev]
    rfl
  · simp [DevState.buffer, hdev, liveDev] at hb

/-! ## Programs -/

theorem refines_run {e : InitEnv} (h : (cddInit e).1 = 0) {cs : List Call}
    {y : System} (hrun : driver.Run (loaded e) cs y)
    (hcs : driver.EveryStep Exact (loaded e) cs) : ∃ a, Refines y a := by
  obtain ⟨-, a, -, ha⟩ := hrun.simulates (N := stores) (R := Refines)
    (fun hR hstep hexact => by
      obtain ⟨b, hb, hR'⟩ := (hR.matched _).2 _ _ hstep hexact
      exact ⟨_, b, .cons hb (.nil b), hR'⟩) hcs (refines_loaded h)
  exact ⟨a, ha⟩

/-- A call of a program that sees the stores: its offsets are far from
wrapping around. -/
def Call.Small (a : Stores) : Call → Prop
  | .openFile _ _ _ _ fresh => fresh ≠ none
  | .write f at? _ _ _ => ∀ m fFlags fPos, a.files f = .opened m fFlags fPos →
      (a.device m).place (at?.getD fPos) < 2 ^ 31
  | .llseek f newpos whence => ∀ m fFlags fPos target,
      a.files f = .opened m fFlags fPos →
      (a.device m).target fPos newpos whence = some target →
      -2 ^ 31 ≤ target ∧ target < 2 ^ 32
  | _ => True

theorem Refines.exact_of_small {y : System} {a : Stores} (h : Refines y a)
    {c : Call} (hc : c.Small a) : c.exact y = true := by
  cases c with
  | openFile f m fFlags locked fresh =>
      cases fresh with
      | none => exact absurd rfl hc
      | some data => cases locked <;> rfl
  | write f at? buf locked copy =>
      cases locked with
      | false => rfl
      | true =>
          cases hf : y.files f with
          | opened m fFlags fPos =>
              have hplace := hc m fFlags fPos (by rw [h.files, hf])
              simp only [Call.exact, hf, decide_eq_true_eq, h.deviceOffset_eq]
              exact .inl hplace
          | _ => simp only [Call.exact, hf]
  | llseek f newpos whence =>
      cases hf : y.files f with
      | opened m fFlags fPos =>
          have htarget := (h.device m).target fPos newpos whence
          have htarget : seekTarget fPos newpos whence (y.world.cddDev m) =
            (a.device m).target fPos newpos whence := htarget
          have hcounter := h.world.counter_lt m
          simp only [Call.exact, hf, htarget]
          cases htgt : (a.device m).target fPos newpos whence with
          | none => rfl
          | some target =>
              obtain ⟨hlow, hhigh⟩ :=
                hc m fFlags fPos target (by rw [h.files, hf]) htgt
              have hwrap : toUInt target =
                  if target < 0 then target + 2 ^ 32 else target := by
                unfold toUInt wrapU
                omega
              rw [decide_eq_true_eq, hwrap]
              split <;> omega
      | _ => simp only [Call.exact, hf]
  | _ => rfl

/-- Whatever a program that keeps to small offsets is told by the stores, it is
told by the driver, and it returns the same. -/
theorem Refines.client {ρ : Type} {y : System} {a b : Stores} {r : ρ}
    {p : Client Call Told ρ} (h : Refines y a)
    (hp : p.Returns stores Call.Small a b r) :
    ∃ z, p.run (driver.view Reply.told) y = some (z, r) ∧ Refines z b := by
  refine hp.run_refined (R := Refines) ?_ h
  intro y a c b told hR hsmall hstore
  have hexact := hR.exact_of_small hsmall
  obtain ⟨hstuck, hmatch⟩ := hR.matched c
  cases hy : driver.step y c with
  | none =>
      rw [hstuck hy] at hstore
      cases hstore
  | some r =>
      obtain ⟨z, o⟩ := r
      obtain ⟨b', hb', hR'⟩ := hmatch z o hy hexact
      obtain ⟨rfl, rfl⟩ := Prod.mk.inj (Option.some.inj (hb'.symm.trans hstore))
      exact ⟨z, by simp only [Machine.view, hy, Option.map_some], hR'⟩

/-! ## The refinement -/

end CddDriver
