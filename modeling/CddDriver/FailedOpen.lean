import CddDriver.Files
import Mathlib.Tactic.Common
/-!
# What an open that fails leaves behind

`CDD_open` allocates before it decides whether it may proceed, and none of its
error exits takes the new buffer back.  A call that fails is invisible to the
other files of the device exactly when that allocation was: it came to nothing
on a device without a buffer, or returned memory that shows the old content.
On a device that has content but no buffer to show it, no memory does.
-/

namespace CddDriver

open Lib

def HasLiveBuffer (s : DevState) : Prop :=
  ∃ p x, s.dev.cddStorage = some p ∧ s.heap[p]? = some x ∧ x.releases = []

/-- Nothing that other files of the device can see has changed from `s` to
`s'`. -/
structure Invisible (s s' : DevState) : Prop where
  counter : s'.dev.counter = s.dev.counter
  content : ∀ i < s.dev.counter, s'.byteAt i = s.byteAt i
  append : s'.dev.append = s.dev.append
  activeOpens : s'.dev.activeOpens = s.dev.activeOpens
  live : HasLiveBuffer s → HasLiveBuffer s'

theorem Invisible.refl (s : DevState) : Invisible s s :=
  ⟨rfl, fun _ _ => rfl, rfl, rfl, id⟩

/-- An open that gets the lock finds no buffer that its allocation, when it
fails, takes away; when it succeeds, it returns memory with the old content. -/
structure HarmlessAllocation (locked : Bool) (fresh : Option (Nat → Byte))
    (s : DevState) : Prop where
  failed : locked = true → fresh = none → s.dev.cddStorage = none
  kept : locked = true → ∀ data, fresh = some data →
    ∀ i < s.dev.counter, s.byteAt i = some (data i)

section Device

variable {major : Nat} {m : Minor} {s s' : DevState}

theorem DeviceInv.hasLiveBuffer (h : DeviceInv major m s) {p : Nat}
    (hp : s.dev.cddStorage = some p) : HasLiveBuffer s := by
  obtain ⟨x, hx, -, hrel⟩ := h.storage_entry hp
  exact ⟨p, x, hp, hx, hrel⟩

theorem invisible_null_iff (h : DeviceInv major m s) :
    Invisible s ⟨{ s.dev with cddStorage := none }, s.heap⟩ ↔
      s.dev.cddStorage = none := by
  constructor
  · intro hinv
    cases hp : s.dev.cddStorage with
    | none => rfl
    | some p =>
        obtain ⟨q, x, hq, -⟩ := hinv.live (h.hasLiveBuffer hp)
        cases hq
  · intro hnone
    have hsame : (⟨{ s.dev with cddStorage := none }, s.heap⟩ : DevState) = s := by
      rw [← hnone]
    rw [hsame]
    exact Invisible.refl s

theorem invisible_allocated_iff (data : Nat → Byte) (m : Minor) (s : DevState) :
    Invisible s (allocated data m s) ↔
      ∀ i < s.dev.counter, s.byteAt i = some (data i) := by
  constructor
  · intro hinv i hi
    rw [← hinv.content i hi, allocated_byteAt]
  · intro hsame
    refine ⟨rfl, ?_, rfl, rfl, fun _ => ?_⟩
    · intro i hi
      rw [allocated_byteAt, hsame i hi]
    · exact ⟨s.heap.length, _, rfl, Ledger.getElem?_acquire_self _ _, rfl⟩

theorem cddOpen_invisible_iff (h : DeviceInv major m s) {locked : Bool}
    {fresh : Option (Nat → Byte)} {fFlags : Nat} {status : OpenStatus}
    (hopen : cddOpen locked fresh fFlags s = some (s', status))
    (hstatus : status ≠ .returned 0) :
    Invisible s s' ↔ HarmlessAllocation locked fresh s := by
  cases locked with
  | false =>
      obtain ⟨rfl, -⟩ := Prod.mk.inj (Option.some.inj hopen)
      exact iff_of_true (Invisible.refl s)
        ⟨fun hl => (by cases hl), fun hl => (by cases hl)⟩
  | true =>
      rcases openBody_cases h.minor_eq hopen with
        ⟨rfl, rfl, -⟩ | ⟨data, rfl, hrest⟩
      · rw [invisible_null_iff h]
        exact ⟨fun hnone => ⟨fun _ _ => hnone, fun _ _ hd => (by cases hd)⟩,
          fun hc => hc.failed rfl rfl⟩
      · rcases openRest_cases hrest with ⟨-, hret, -⟩ | ⟨-, rfl, -⟩
        · exact absurd hret hstatus
        · rw [invisible_allocated_iff]
          constructor
          · intro hsame
            refine ⟨fun _ hd => (by cases hd), ?_⟩
            intro _ data' hd
            obtain rfl := Option.some.inj hd
            exact hsame
          · intro hc
            exact hc.kept rfl data rfl

theorem cddOpenWake_unchanged {signalPending relocked : Bool} {fFlags : Nat}
    {status : OpenStatus}
    (hwake : cddOpenWake signalPending relocked fFlags s = some (s', status))
    (hstatus : status ≠ .returned 0) : s' = s := by
  unfold cddOpenWake at hwake
  split at hwake
  · exact (Prod.mk.inj (Option.some.inj hwake)).1.symm
  split at hwake
  · exact (Prod.mk.inj (Option.some.inj hwake)).1.symm
  rcases openRest_cases hwake with ⟨-, hret, -⟩ | ⟨-, hsame, -⟩
  · exact absurd hret hstatus
  · exact hsame

end Device

/-- Of the steps of an open that does not succeed, only the first one can
change the device. -/
theorem OpenCall.own_steps {f : Nat} {m : Minor} {fFlags : Nat} {locked : Bool}
    {fresh : Option (Nat → Byte)} {y z : System}
    {own : List (DevState × DevState)} {status : OpenStatus}
    (h : OpenCall f m fFlags locked fresh y own status z)
    (hstatus : status ≠ .returned 0) :
    ∃ s' first rest, own = (y.devState m, s') :: rest ∧
      cddOpen locked fresh fFlags (y.devState m) = some (s', first) ∧
      first ≠ .returned 0 ∧ ∀ p ∈ rest, p.2 = p.1 := by
  induction h with
  | called hstep =>
      obtain ⟨-, s, hopen, hz⟩ := openFile_slot hstep
      have hs : ∀ z : System, z.world = y.world.setDevState m s →
          z.devState m = s := by
        intro z hz
        simp only [System.devState, hz, World.devState_setDevState_self]
      refine ⟨s, _, [], ?_, hopen, hstatus, fun p hp => (by cases hp)⟩
      rw [hs _ hz]
  | others _ _ _ ih => exact ih (by simp)
  | woken hcall hstep ih =>
      obtain ⟨s', first, rest, rfl, hopen, hfirst, hrest⟩ := ih (by simp)
      obtain ⟨-, s, hwake, hu⟩ := wake_slot hcall.slot hstep
      refine ⟨s', first, _, List.cons_append, hopen, hfirst, ?_⟩
      intro p hp
      rcases List.mem_append.mp hp with hp | hp
      · exact hrest p hp
      · obtain rfl := List.mem_singleton.mp hp
        simp only [System.devState, hu, World.devState_setDevState_self]
        exact cddOpenWake_unchanged hwake hstatus

/-- A call of `CDD_open` that fails, in whatever way and after however many
rounds, is invisible exactly when its allocation was harmless. -/
theorem failedOpen_invisible_iff {e : InitEnv} (h : (cddInit e).1 = 0)
    {cs : List Call} {y z : System} (hrun : driver.Run (loaded e) cs y)
    {f : Nat} {m : Minor} {fFlags : Nat} {locked : Bool}
    {fresh : Option (Nat → Byte)} {own : List (DevState × DevState)} {r : Int}
    (hcall : OpenCall f m fFlags locked fresh y own (.returned r) z)
    (hr : r ≠ 0) :
    (∀ p ∈ own, Invisible p.1 p.2) ↔
      HarmlessAllocation locked fresh (y.devState m) := by
  have hstatus : OpenStatus.returned r ≠ .returned 0 := by simpa using hr
  obtain ⟨s', first, rest, rfl, hopen, hfirst, hrest⟩ := hcall.own_steps hstatus
  have hdevice : DeviceInv y.world.cddMajor m (y.devState m) :=
    (worldInv_run h hrun).device m
  rw [← cddOpen_invisible_iff hdevice hopen hfirst]
  constructor
  · intro hall
    exact hall _ List.mem_cons_self
  · intro hvisible p hp
    rcases List.mem_cons.mp hp with rfl | hp
    · exact hvisible
    · rw [hrest p hp]
      exact Invisible.refl p.1

theorem failedOpen_invisible_signalled :
    ∃ own z, OpenCall 0 0 oRdonly true (some fun _ => 0) (loaded undisturbed) own
        (.returned (-erestartsys)) z ∧
      own.length = 2 ∧ ∀ p ∈ own, Invisible p.1 p.2 := by
  have hrun : ((driver.step (loaded undisturbed)
      (.openFile 0 0 oRdonly true (some fun _ => 0))).bind fun y =>
      (driver.step y.1 (.wake 0 true true)).map fun z =>
        (y.2.openStatus?, z.2.openStatus?)) =
      some (some .waiting, some (.returned (-erestartsys))) := by decide
  obtain ⟨⟨y, o₁⟩, hopen, hmap⟩ := Option.bind_eq_some_iff.mp hrun
  obtain ⟨⟨z, o₂⟩, hwake, heq⟩ := Option.map_eq_some_iff.mp hmap
  obtain ⟨hwaiting, hsignalled⟩ := Prod.mk.inj heq
  obtain rfl := Reply.openStatus?_eq_some.mp hwaiting
  obtain rfl := Reply.openStatus?_eq_some.mp hsignalled
  have hcall := OpenCall.woken (OpenCall.called hopen) hwake
  refine ⟨_, z, hcall, rfl, ?_⟩
  refine (failedOpen_invisible_iff cddInit_undisturbed (.nil _) hcall
    (by decide)).mpr ⟨fun _ hd => (by cases hd), ?_⟩
  intro _ data _ i hi
  have hempty : ((loaded undisturbed).devState 0).dev.counter = 0 :=
    congrArg CDDdev.counter (loaded_cddDev cddInit_undisturbed 0)
  rw [hempty] at hi
  exact absurd hi (Nat.not_lt_zero i)

/-- An open whose allocation fails returns `-ENOMEM` and takes the buffer of
the device away; one with `O_RDONLY`, `O_TRUNC` and `O_NONBLOCK` returns
`-EAGAIN` and has replaced the content. -/
theorem not_failedOpen_invisible_buffer_lost :
    ∃ y u v, driver.exec (loaded undisturbed)
        [.openFile 0 0 oWronly true (some fun _ => 0),
          .write 0 none [65] true .whole] = some y ∧
      (OpenCall 1 0 oWronly true none y [(y.devState 0, u.devState 0)]
          (.returned (-enomem)) u ∧ ¬ Invisible (y.devState 0) (u.devState 0)) ∧
      OpenCall 1 0 (oRdonly ||| oTrunc ||| oNonblock) true (some fun _ => 0) y
          [(y.devState 0, v.devState 0)] (.returned (-eagain)) v ∧
        ¬ Invisible (y.devState 0) (v.devState 0) := by
  have hrun : ((driver.exec (loaded undisturbed)
      [.openFile 0 0 oWronly true (some fun _ => 0),
        .write 0 none [65] true .whole]).bind fun y =>
      (driver.step y (.openFile 1 0 oWronly true none)).bind fun u =>
      (driver.step y (.openFile 1 0 (oRdonly ||| oTrunc ||| oNonblock) true
        (some fun _ => 0))).map fun v =>
        (((y.devState 0).dev.counter, (y.devState 0).byteAt 0),
          (u.2.openStatus?, (u.1.devState 0).byteAt 0),
          (v.2.openStatus?, (v.1.devState 0).byteAt 0))) =
      some ((1, some 65), (some (.returned (-enomem)), none),
        (some (.returned (-eagain)), some 0)) := by decide
  obtain ⟨y, hy, hrest⟩ := Option.bind_eq_some_iff.mp hrun
  obtain ⟨⟨u, o₁⟩, hu, hrest⟩ := Option.bind_eq_some_iff.mp hrest
  obtain ⟨⟨v, o₂⟩, hv, heq⟩ := Option.map_eq_some_iff.mp hrest
  simp only [Prod.mk.injEq] at heq
  obtain ⟨⟨hcounter, hbyte⟩, ⟨hfailed, hlost⟩, hrefused, hreplaced⟩ := heq
  obtain rfl := Reply.openStatus?_eq_some.mp hfailed
  obtain rfl := Reply.openStatus?_eq_some.mp hrefused
  have hvisible : ∀ s', s'.byteAt 0 ≠ some 65 →
      ¬ Invisible (y.devState 0) s' := by
    intro s' hs' hinv
    exact hs' ((hinv.content 0 (by omega)).trans hbyte)
  refine ⟨y, u, v, hy, ⟨.called hu, hvisible _ ?_⟩, .called hv, hvisible _ ?_⟩
  · rw [hlost]
    decide
  · rw [hreplaced]
    decide

end CddDriver
