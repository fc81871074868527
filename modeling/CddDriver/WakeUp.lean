import CddDriver.Concurrent
import CddDriver.Invariant
import Mathlib.Tactic.Common
/-!
# No wake-up of a blocked open is lost

An open that finds the device empty gives the lock back, queues itself, looks
at the counter once more without the lock, and sleeps.  A write raises the
counter under the lock, gives the lock back and wakes whoever is queued.  The
second look comes after the queueing and the wake-up after the update, so a
sleeper that misses the content still has its wake-up to come.
-/

namespace CddDriver

open Lib

/-- The call is a write that has updated the counter and has not yet executed
`release_oblk`. -/
def Pc.owesWakeUp : Pc → Bool
  | .writeUnlock retval _ | .writeWake retval _ => 0 ≤ retval
  | _ => false

/-! ## What the steps do to the counter and to the wake-ups -/

theorem Pc.step_counter {locked signalPending : Bool} {w w' : Shared} {op : Op}
    {pc pc' : Pc} {es : List SyncEvent} (hat : Op.At op pc)
    (h : pc.step locked signalPending w = some (es, w', pc')) :
    w'.dev.dev.counter ≤ w.dev.dev.counter ∨ pc'.owesWakeUp = true := by
  cases Pc.steps_of_step h with
  | openNoMemory hopen => exact .inl (openBody_counter hopen)
  | openEmpty _ hopen => exact .inl (openBody_counter hopen)
  | openFilled hopen => exact .inl (openBody_counter hopen)
  | waitEnds _ hcommit => exact .inl (openCommit_counter hcommit)
  | writeStores hwrite =>
      cases hat with
      | waiting hflags _ => cases hflags
      | writeBody hrange =>
          have hcount := vfsRange_count hrange
          rcases writeBody_cases hcount hwrite with
            rfl | ⟨pos, -, -, ⟨t, -, ht, rfl⟩ | ⟨t, -, -, rfl⟩⟩
          · exact .inl (le_refl _)
          · left
            show t.dev.counter ≤ w.dev.dev.counter
            rw [DevState.poke_dev ht]
          · right
            simp [owesWakeUp]
  | _ => exact .inl (le_refl _)

theorem Pc.step_waitSchedule {locked signalPending : Bool} {w w' : Shared}
    {pc : Pc} {fFlags : Nat} {es : List SyncEvent}
    (h : pc.step locked signalPending w = some (es, w', .waitSchedule fFlags)) :
    w' = w ∧ contentIsUnavailable w.dev.dev fFlags ≠ 0 := by
  cases Pc.steps_of_step h with
  | waitSleeps hun => exact ⟨rfl, hun⟩

theorem Pc.step_owesWakeUp {locked signalPending : Bool} {w w' : Shared}
    {pc pc' : Pc} {es : List SyncEvent} (howes : pc.owesWakeUp = true)
    (h : pc.step locked signalPending w = some (es, w', pc')) :
    pc'.owesWakeUp = true ∨ es = [.wakeAll] := by
  cases Pc.steps_of_step h with
  | writeUnlocks _ => exact .inl howes
  | writeFails hretval =>
      simp only [owesWakeUp, decide_eq_true_eq] at howes
      exact absurd howes hretval
  | writeWakes => exact .inr rfl
  | _ => cases howes

/-! ## The invariant -/

/-- While the device has content, a reading open that sleeps and has not been
woken has its wake-up still to come. -/
def WakeUpOwed (y : Conc) : Prop :=
  ∀ p fFlags, y.pcs p = .waitSchedule fFlags → hasFlag fFlags oTrunc = false →
    y.queue.woken p = false → 0 < y.shared.dev.dev.counter →
    ∃ q, (y.pcs q).owesWakeUp = true

theorem wakeUpOwed_start (ops : Nat → Op) (w : Shared) :
    WakeUpOwed (Conc.start ops w) := by
  intro p fFlags hp
  simp only [Conc.start] at hp
  cases hop : ops p <;> rw [hop] at hp <;> cases hp

theorem WakeUpOwed.ran {ops : Nat → Op} {y z : Conc} {p : Nat}
    {signalPending : Bool} {es : List SyncEvent} {pc' : Pc}
    (h : WakeUpOwed y) (hinv : ConcInv ops y)
    (hran : Ran ops y z p signalPending es pc') : WakeUpOwed z := by
  intro q fFlags hq htrunc hwoken hcounter
  have hstep := hran.step
  rw [hran.pcs] at hq
  by_cases hqp : q = p
  · -- the process that moved has just looked at the counter
    subst hqp
    rw [Function.update_self] at hq
    rw [hq] at hstep
    obtain ⟨hshared, hun⟩ := Pc.step_waitSchedule hstep
    have hempty := contentIsUnavailable_reader htrunc hun
    rw [hshared, hempty] at hcounter
    exact absurd hcounter (Nat.lt_irrefl 0)
  · rw [Function.update_of_ne hqp] at hq
    have hqueued : y.queue.queued q = true := by
      rw [hinv.queue q, hq]
      rfl
    have hasleep : y.queue.woken q = false ∧ es ≠ [.wakeAll] := by
      rcases hran.event with ⟨rfl, -, hqueue⟩ | ⟨e, rfl, -, hqueue, -⟩
      · rw [hqueue] at hwoken
        exact ⟨hwoken, by simp⟩
      · rw [hqueue] at hwoken
        obtain ⟨hbefore, hnone⟩ := WaitQueue.apply_asleep hqp hwoken
        exact ⟨hbefore, fun he => hnone hqueued (List.singleton_inj.mp he)⟩
    have hmoved : pc'.owesWakeUp = true →
        ∃ q, (z.pcs q).owesWakeUp = true := by
      intro howes
      exact ⟨p, by rwa [hran.pcs, Function.update_self]⟩
    rcases Pc.step_counter (hinv.at p) hstep with hle | howes
    · -- the counter was positive before, so somebody owed the wake-up
      obtain ⟨r, hr⟩ := h q fFlags hq htrunc hasleep.1 (by omega)
      by_cases hrp : r = p
      · subst hrp
        rcases Pc.step_owesWakeUp hr hstep with howes | hwake
        · exact hmoved howes
        · exact absurd hwake hasleep.2
      · exact ⟨r, by rwa [hran.pcs, Function.update_of_ne hrp]⟩
    · exact hmoved howes

theorem WakeUpOwed.step {ops : Nat → Op} {y z : Conc} {t : Turn} {o : Unit}
    (h : WakeUpOwed y) (hinv : ConcInv ops y)
    (hstep : (concurrent ops).step y t = some (z, o)) : WakeUpOwed z := by
  cases t with
  | run p signalPending =>
      obtain ⟨es, pc', hran⟩ := ran_of_step hstep
      exact h.ran hinv hran
  | wake p =>
      obtain ⟨hshared, -, hpcs, -, hwoken⟩ := wake_step hstep
      intro q fFlags hq htrunc hasleep hcounter
      rw [hpcs] at hq ⊢
      rw [hshared] at hcounter
      exact h q fFlags hq htrunc (hwoken q hasleep) hcounter

/-- Wherever the calls of any number of processes have come: if the device has
content and a reading open sleeps without having been woken, then some write
has updated the counter and not yet executed `release_oblk`. -/
theorem asleep_wakeUp_owed {ops : Nat → Op} {w : Shared} {ts : List Turn}
    {y : Conc} (hrun : (concurrent ops).Run (Conc.start ops w) ts y)
    {p fFlags : Nat} (hp : y.pcs p = .waitSchedule fFlags)
    (htrunc : hasFlag fFlags oTrunc = false)
    (hasleep : y.queue.woken p = false)
    (hcounter : 0 < y.shared.dev.dev.counter) :
    ∃ q, (y.pcs q).owesWakeUp = true := by
  have hboth : ConcInv ops y ∧ WakeUpOwed y :=
    Machine.Run.invariant (I := fun y => ConcInv ops y ∧ WakeUpOwed y)
      (fun h hstep => ⟨h.1.step hstep, h.2.step h.1 hstep⟩) hrun
      ⟨concInv_start ops w, wakeUpOwed_start ops w⟩
  exact hboth.2 p fFlags hp htrunc hasleep hcounter

def readerAndWriter : Nat → Op
  | 0 => .openFile oWronly (some fun _ => 0)
  | 1 => .openFile oRdonly (some fun _ => 0)
  | _ => .write 0 [65] .whole 0

theorem asleep_wakeUp_owed_one_writer :
    ∃ y, (concurrent readerAndWriter).Run
        (Conc.start readerAndWriter ⟨(loaded undisturbed).devState 0, []⟩)
        ([0, 0, 0, 1, 1, 1, 1, 1, 2, 2].map fun p => .run p false) y ∧
      y.pcs 1 = .waitSchedule oRdonly ∧ ∃ q, (y.pcs q).owesWakeUp = true := by
  have hrun : ((concurrent readerAndWriter).exec
      (Conc.start readerAndWriter ⟨(loaded undisturbed).devState 0, []⟩)
      ([0, 0, 0, 1, 1, 1, 1, 1, 2, 2].map fun p => .run p false)).map (fun y =>
        ((match y.pcs 1 with | .waitSchedule fFlags => some fFlags | _ => none),
          y.queue.woken 1, y.shared.dev.dev.counter)) =
      some (some oRdonly, false, 1) := by decide
  obtain ⟨y, hexec, heq⟩ := Option.map_eq_some_iff.mp hrun
  simp only [Prod.mk.injEq] at heq
  obtain ⟨hpc, hwoken, hcounter⟩ := heq
  have hp : y.pcs 1 = .waitSchedule oRdonly := by
    cases hy : y.pcs 1 with
    | waitSchedule fFlags =>
        rw [hy] at hpc
        rw [Option.some.inj hpc]
    | _ =>
        rw [hy] at hpc
        cases hpc
  have hrun := Machine.run_of_exec hexec
  exact ⟨y, hrun, hp,
    asleep_wakeUp_owed hrun hp (by decide) hwoken (by omega)⟩

end CddDriver
