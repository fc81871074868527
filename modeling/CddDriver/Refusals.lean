import CddDriver.Linearised
import Mathlib.Tactic.Common
/-!
# Why a call is refused

A call returns `-ERESTARTSYS` only when it tried the lock while another call
held it, or woke up with a signal pending.  That `down_write_trylock` fails on
a semaphore that is held and on no other is the kernel's doing and an
assumption here: the turns of this module may make it fail at will.
-/

namespace CddDriver

open Lib

def Answer.refused : Answer → Bool
  | .openFile r => r = -erestartsys
  | .write retval _ => retval = -erestartsys
  | _ => false

def Pc.settlesRefused (pc : Pc) : Bool := pc.result?.any Answer.refused

theorem Pc.settlesRefused_of_refused {pc : Pc} (h : pc.refused = true) :
    pc.settlesRefused = true := by
  obtain ⟨a, rfl⟩ := Pc.refused_done h
  cases a with
  | openFile => exact h
  | write => exact h
  | _ => cases h

theorem writeBody_retval_ne {buf : List Byte} {copy : UserCopy} {ppos : Int}
    {s : DevState} {w : WriteResult} (hcount : buf.length ≤ maxRwCount)
    (h : writeBody buf copy ppos s = some w) : w.retval ≠ -erestartsys := by
  have hfault : -efault ≠ -erestartsys := by decide
  rcases writeBody_cases hcount h with
    rfl | ⟨pos, -, -, ⟨t, -, -, rfl⟩ | ⟨t, -, -, rfl⟩⟩
  · exact hfault
  · exact hfault
  · show (buf.length : Int) ≠ -erestartsys
    unfold erestartsys
    omega

theorem Pc.step_settlesRefused {op : Op} {pc pc' : Pc}
    {locked signalPending : Bool} {w w' : Shared} {es : List SyncEvent}
    (hat : Op.At op pc) (h : pc.step locked signalPending w = some (es, w', pc'))
    (hbefore : pc.settlesRefused = false) (hafter : pc'.settlesRefused = true) :
    (pc.wants = some .write ∧ locked = false) ∨
      (signalPending = true ∧ ∃ fFlags, pc = .waitSignal fFlags) := by
  have hsteps := Pc.steps_of_step h
  cases hsteps with
  | openRefused hlocked => exact .inl ⟨rfl, hlocked⟩
  | waitRefused hlocked => exact .inl ⟨rfl, hlocked⟩
  | writeRefused hlocked => exact .inl ⟨rfl, hlocked⟩
  | waitSignalled hsignal => exact .inr ⟨hsignal, _, rfl⟩
  | openNoMemory => exact absurd hafter (by decide)
  | openFilled => exact absurd hafter (by decide)
  | waitEnds => exact absurd hafter (by decide)
  | @openEmpty fFlags =>
      simp only [settlesRefused, result?] at hafter
      split at hafter
      · exact absurd hafter (by decide)
      · cases hafter
  | @waitAgain fFlags =>
      simp only [settlesRefused, result?] at hafter
      split at hafter
      · exact absurd hafter (by decide)
      · cases hafter
  | waitGivesUp => exact absurd hafter (by decide)
  | writeStores hwrite =>
      cases hat with
      | waiting hflags _ => cases hflags
      | writeBody hrange =>
          have hne := writeBody_retval_ne (vfsRange_count hrange) hwrite
          exact absurd (of_decide_eq_true hafter) hne
  | openReturns => exact absurd (hbefore.symm.trans hafter) Bool.false_ne_true
  | writeUnlocks => exact absurd (hbefore.symm.trans hafter) Bool.false_ne_true
  | writeFails => exact absurd (hbefore.symm.trans hafter) Bool.false_ne_true
  | writeWakes => exact absurd (hbefore.symm.trans hafter) Bool.false_ne_true
  | _ => cases hafter

/-! ## Trylocks that may fail -/

namespace Conc

/-- The outcome of a lock attempt of process `p` when the kernel may let an
attempt to lock for writing fail. -/
def attempts (y : Conc) (p : Nat) (fails : Bool) : Bool :=
  y.granted p && !(fails && (y.pcs p).wants = some .write)

def attemptStep (ops : Nat → Op) (y : Conc) :
    Turn × Bool → Option (Conc × Unit)
  | (.run p signalPending, fails) =>
      if y.ready ops p then
        ((y.pcs p).step (y.attempts p fails) signalPending y.shared).map fun r =>
          (r.1.foldl (emit p)
            { y with shared := r.2.1, pcs := Function.update y.pcs p r.2.2 }, ())
      else none
  | (.wake p, _) => y.step ops (.wake p)

end Conc

/-- The machine of turns in which the kernel chooses at each turn whether
`down_write_trylock` fails. -/
def attempting (ops : Nat → Op) : Machine Conc (Turn × Bool) Unit :=
  ⟨Conc.attemptStep ops⟩

/-- What is assumed of `down_write_trylock`: it fails only on a semaphore that is
held, for writing or for reading. -/
def TrylockFailsHeld (y : Conc) (t : Turn × Bool) (_ : Unit) (_ : Conc) : Prop :=
  ∀ p signalPending, t = (.run p signalPending, true) →
    (y.pcs p).wants = some .write → y.sem.writer ≠ none ∨ y.sem.readers ≠ []

theorem attempts_eq_granted {y : Conc} {p : Nat} {fails : Bool}
    (h : fails = true → (y.pcs p).wants = some .write →
      y.sem.writer ≠ none ∨ y.sem.readers ≠ []) :
    y.attempts p fails = y.granted p := by
  unfold Conc.attempts
  by_cases hfails : fails = true ∧ (y.pcs p).wants = some .write
  · obtain ⟨rfl, hwants⟩ := hfails
    have hrefused : y.sem.grants .write = false := by
      rcases h rfl hwants with hwriter | hreaders
      · simp [RwSem.grants, hwriter]
      · simp [RwSem.grants, hreaders]
    simp [Conc.granted, hwants, hrefused]
  · have hnot : (fails && decide ((y.pcs p).wants = some .write)) = false := by
      simpa using hfails
    rw [hnot, Bool.not_false, Bool.and_true]

theorem step_of_attempt {ops : Nat → Op} {y z : Conc} {t : Turn × Bool}
    {o : Unit} (hfails : TrylockFailsHeld y t o z)
    (h : (attempting ops).step y t = some (z, o)) :
    (concurrent ops).step y t.1 = some (z, o) := by
  obtain ⟨turn, fails⟩ := t
  cases turn with
  | wake p => exact h
  | run p signalPending =>
      have h : y.attemptStep ops (.run p signalPending, fails) = some (z, o) := h
      have hsame : y.attempts p fails = y.granted p :=
        attempts_eq_granted fun hf => hfails p signalPending (by rw [hf])
      simp only [Conc.attemptStep, hsame] at h
      exact h

theorem run_of_attempts {ops : Nat → Op} {y z : Conc} {ts : List (Turn × Bool)}
    (hrun : (attempting ops).Run y ts z)
    (hfails : (attempting ops).EveryStep TrylockFailsHeld y ts) :
    (concurrent ops).Run y (ts.map Prod.fst) z := by
  induction hrun with
  | nil y => exact .nil y
  | cons hstep _ ih =>
      obtain ⟨hfirst, hrest⟩ := hfails _ _ hstep
      exact .cons (step_of_attempt hfirst hstep) (ih hrest)

/-! ## The cause of a refusal -/

/-- Wherever the calls have come, with a trylock that fails only on a semaphore
that is held: a call that has returned `-ERESTARTSYS` tried the lock for writing
at some time when another call held it, or had a signal pending when it woke
up. -/
theorem refused_for_cause {ops : Nat → Op} {w : Shared} {ts : List (Turn × Bool)}
    {y : Conc} (hrun : (attempting ops).Run (Conc.start ops w) ts y)
    (hfails : (attempting ops).EveryStep TrylockFailsHeld (Conc.start ops w) ts)
    {p : Nat} (hp : (y.pcs p).refused = true) :
    ∃ before turn fails after u, ts = before ++ (turn, fails) :: after ∧
      (attempting ops).Run (Conc.start ops w) before u ∧
      ((∃ signalPending, turn = .run p signalPending ∧
          (u.pcs p).wants = some .write ∧
          ∃ q, q ≠ p ∧ (u.pcs q).view.held ≠ none) ∨
        (turn = .run p true ∧ ∃ fFlags, u.pcs p = .waitSignal fFlags)) := by
  have hstart : ¬ ((Conc.start ops w).pcs p).settlesRefused = true := by
    simp only [Conc.start, Pc.settlesRefused, Op.start_result?]
    exact Bool.false_ne_true
  obtain ⟨before, ⟨turn, fails⟩, after, u, v, o, rfl, hbefore, hstep, hu, hv⟩ :=
    hrun.arises (P := fun y => (y.pcs p).settlesRefused = true) hstart
      (Pc.settlesRefused_of_refused hp)
  refine ⟨before, turn, fails, after, u, rfl, hbefore, ?_⟩
  have hinv : ConcInv ops u :=
    Machine.Run.invariant ConcInv.step
      (run_of_attempts hbefore hfails.before) (concInv_start ops w)
  have hstep := step_of_attempt (hfails.after hbefore _ _ hstep).1 hstep
  cases turn with
  | wake q =>
      obtain ⟨-, -, hpcs, -⟩ := wake_step hstep
      rw [hpcs] at hv
      exact absurd hv hu
  | run q signalPending =>
      obtain ⟨es, pc', hran⟩ := ran_of_step hstep
      rw [hran.pcs] at hv
      by_cases hqp : p = q
      · subst hqp
        rw [Function.update_self] at hv
        rcases Pc.step_settlesRefused (hinv.at p) hran.step
          (Bool.eq_false_iff.mpr hu) hv with ⟨hwants, hlocked⟩ | ⟨rfl, hwaits⟩
        · left
          have hrefused : u.sem.grants .write = false := by
            simpa only [Conc.granted, hwants] using hlocked
          obtain ⟨q, hq⟩ := hinv.sem.held_of_refused hrefused
          refine ⟨signalPending, rfl, hwants, q, ?_, hq⟩
          rintro rfl
          rw [Pc.view_of_wants hwants] at hq
          exact hq rfl
        · exact .inr ⟨rfl, hwaits⟩
      · rw [Function.update_of_ne hqp] at hv
        exact absurd hv hu

theorem refused_for_cause_two_writers :
    ∃ y, (attempting twoWriters).Run
        (Conc.start twoWriters ⟨(loaded undisturbed).devState 0, []⟩)
        ([0, 0, 0, 1, 2].map fun p => (.run p false, p = 2)) y ∧
      ∃ before turn fails after u,
        ([0, 0, 0, 1, 2].map fun p => (Turn.run p false, decide (p = 2))) =
          before ++ (turn, fails) :: after ∧
        (attempting twoWriters).Run
          (Conc.start twoWriters ⟨(loaded undisturbed).devState 0, []⟩) before u ∧
        ((∃ signalPending, turn = .run 2 signalPending ∧
            (u.pcs 2).wants = some .write ∧
            ∃ q, q ≠ 2 ∧ (u.pcs q).view.held ≠ none) ∨
          (turn = .run 2 true ∧ ∃ fFlags, u.pcs 2 = .waitSignal fFlags)) := by
  have hexec : ((attempting twoWriters).exec
      (Conc.start twoWriters ⟨(loaded undisturbed).devState 0, []⟩)
      ([0, 0, 0, 1, 2].map fun p => (.run p false, p = 2))).map
        (fun y => (y.pcs 2).refused) = some true := by decide
  have hheld : (attempting twoWriters).check
      (fun y t => !t.2 || y.sem.writer.isSome)
      (Conc.start twoWriters ⟨(loaded undisturbed).devState 0, []⟩)
      ([0, 0, 0, 1, 2].map fun p => (.run p false, p = 2)) = true := by decide
  obtain ⟨y, hy, hrefused⟩ := Option.map_eq_some_iff.mp hexec
  have hrun := Machine.run_of_exec hy
  refine ⟨y, hrun, refused_for_cause hrun (Machine.everyStep_of_check ?_ hheld)
    hrefused⟩
  rintro u t o v hwriter p signalPending rfl -
  exact .inl (Option.isSome_iff_ne_none.mp hwriter)

end CddDriver
