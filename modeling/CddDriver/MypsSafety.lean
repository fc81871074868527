import CddDriver.MypsRounds
import Mathlib.Tactic.Common
/-!
# Iterators and tasks over whole runs

What holds of every run of rounds: an iterator is freed exactly once when no
call loses it, and no call uses a task that was not found when the task behind
each PID that was taken is alive.
-/

namespace CddDriver

open Lib

/-! ## Iterators -/

/-- When the rounds are over, every iterator was freed exactly once, and none was
at hand after it was freed, exactly when no call lost one. -/
theorem freedOnce_iff_keepsIterator {k : TaskTable} {is : List MypsTurn}
    {y : MypsSystem} (hrun : mypsRounds.Run (.initial k) is y) (hover : y.Over) :
    (mypsRounds.EveryState MypsSystem.AtHandLive (.initial k) is ∧
        y.myps.iters.ReleasedOnce) ↔
      mypsRounds.EveryStep (fun y i _ _ => KeepsIterator y i) (.initial k) is := by
  have hinitial := MypsSystem.sound_initial k
  have hlive : mypsRounds.EveryState MypsSystem.AtHandLive (.initial k) is := by
    refine Machine.everyState_of_invariant mypsRounds_sound ?_ is hinitial
    intro z hz f v reader taken hv
    obtain ⟨i, hi, -⟩ := hz.iter hv
    exact ⟨i, hi⟩
  have hidle : ∀ f, y.holds f = none := by
    intro f
    unfold MypsSystem.holds
    cases hr : y.files[f]? with
    | none => rfl
    | some r =>
        obtain rfl := hover.2 r (List.mem_of_getElem? hr)
        rfl
  have hcovered : y.Covered ↔ (MypsSystem.initial k).Covered ∧
      mypsRounds.EveryStep (fun y i _ _ => KeepsIterator y i) (.initial k) is :=
    hrun.iff_everyStep mypsRounds_sound
      (fun h => MypsSystem.running_of_turn (mypsRounds_step h))
      mypsRounds_covered_iff hinitial hover.1
  have hsound := hrun.invariant mypsRounds_sound hinitial
  rw [and_iff_right hlive, Ledger.releasedOnce_iff hsound.custody hidle]
  exact hcovered.trans (and_iff_right (MypsSystem.covered_initial k))

def stoppedEarly : List MypsTurn :=
  [.ctOpen, .ctSeqStart 0 shellEnv 0, .ctSeqShow 0, .ctSeqStop 0]

def readToTheEnd : List MypsTurn :=
  [.ctOpen, .ctSeqStart 0 shellEnv 0, .ctSeqShow 0, .ctSeqNext 0 0,
    .ctSeqShow 0, .ctSeqNext 0 0, .ctSeqStop 0]

theorem freedOnce_iff_keepsIterator_early :
    ∃ y, mypsRounds.Run (.initial shellTable) stoppedEarly y ∧ y.Over ∧
      mypsRounds.EveryState MypsSystem.AtHandLive (.initial shellTable)
        stoppedEarly ∧ y.myps.iters.ReleasedOnce := by
  have hend : (mypsRounds.exec (.initial shellTable) stoppedEarly).map
      (fun y => (y.fault, y.files)) = some (false, [.idle]) := by decide
  obtain ⟨y, hexec, heq⟩ := Option.map_eq_some_iff.mp hend
  obtain ⟨hfault, hfiles⟩ := Prod.mk.inj heq
  have hover : y.Over := ⟨hfault, by simp [hfiles]⟩
  have hrun := Machine.run_of_exec hexec
  have hkeeps : mypsRounds.EveryStep (fun y i _ _ => KeepsIterator y i)
      (.initial shellTable) stoppedEarly :=
    Machine.everyStep_of_check (c := fun y i => decide (KeepsIterator y i))
      (fun _ _ _ _ => of_decide_eq_true) (by decide)
  exact ⟨y, hrun, hover, (freedOnce_iff_keepsIterator hrun hover).mpr hkeeps⟩

/-- The iterator of a listing that is read to its end is never freed. -/
theorem not_freedOnce_readToTheEnd :
    ∃ y, mypsRounds.Run (.initial shellTable) readToTheEnd y ∧ y.Over ∧
      ¬ y.myps.iters.ReleasedOnce := by
  have hend : (mypsRounds.exec (.initial shellTable) readToTheEnd).map
      (fun y => (y.fault, y.files, y.myps.iters.map Entry.releases)) =
        some (false, [.idle], [[]]) := by decide
  obtain ⟨y, hexec, heq⟩ := Option.map_eq_some_iff.mp hend
  obtain ⟨hfault, heq⟩ := Prod.mk.inj heq
  obtain ⟨hfiles, hiters⟩ := Prod.mk.inj heq
  refine ⟨y, Machine.run_of_exec hexec, ⟨hfault, by simp [hfiles]⟩, ?_⟩
  intro honce
  obtain ⟨e, he, hnil⟩ : ∃ e ∈ y.myps.iters, e.releases = [] := by
    rw [← List.mem_map, hiters]
    exact List.mem_singleton_self _
  have hlen := honce e he
  rw [hnil] at hlen
  cases hlen

/-! ## Tasks -/

/-- No call uses a task that was not found exactly when the task behind each PID
that is looked up is alive. -/
theorem noFault_iff_targetAlive (k : TaskTable) (is : List MypsTurn) :
    mypsRounds.EveryState (fun y => y.fault = false) (.initial k) is ↔
      mypsRounds.EveryStep (fun y i _ _ => TargetAlive y i) (.initial k) is :=
  Machine.everyState_iff_everyStep mypsRounds_sound
    (fun h _ hz => mypsRounds_fault_iff h hz) (MypsSystem.sound_initial k) rfl

def readerTable : TaskTable :=
  shellTable.fork readerTask shellTasks.children (by decide) (by decide)

/-- The PID of the shell is accepted, the shell exits, and the next session looks
it up. -/
theorem not_noFault_vanished :
    ∃ y, mypsRounds.Run (.initial readerTable)
        [.ctOpen, .ctWrite "100".toList, .exit 100 (fun _ => []) (fun _ => 0),
          .ctSeqStart 0 readerEnv 0] y ∧ y.fault = true := by
  have hend : (mypsRounds.exec (.initial readerTable)
      [.ctOpen, .ctWrite "100".toList, .exit 100 (fun _ => []) (fun _ => 0),
        .ctSeqStart 0 readerEnv 0]).map MypsSystem.fault = some true := by decide
  obtain ⟨y, hexec, hfault⟩ := Option.map_eq_some_iff.mp hend
  exact ⟨y, Machine.run_of_exec hexec, hfault⟩

end CddDriver
