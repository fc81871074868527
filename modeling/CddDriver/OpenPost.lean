import CddDriver.Calls
import CddDriver.Lib.Machine
import Mathlib.Tactic.Common
/-!
# What an open that succeeds has done

`CDD_open` next to other calls that may do anything to the device while it does
not hold the semaphore.  However often it slept, at its return it has counted
itself, set `append` and truncated the device that it found when it took the
semaphore for the last time.
-/

namespace CddDriver

open Lib

/-! ## An open among other calls -/

/-- The next step of the call itself, with the outcomes of its lock attempt and
its signal check, or whatever others do while they can. -/
inductive Amid where
  | own (locked signalPending : Bool)
  | others (w : Shared)

def Amid.step : Pc × Shared → Amid → Option ((Pc × Shared) × List SyncEvent)
  | (pc, w), .own locked signalPending =>
      (pc.step locked signalPending w).map fun r => ((r.2.2, r.2.1), r.1)
  | (pc, _), .others w =>
      if pc.view.held = none then some ((pc, w), []) else none

def amid : Machine (Pc × Shared) Amid (List SyncEvent) := ⟨Amid.step⟩

def lastAcquired (s : DevState) (x : Pc × Shared) (_ : Amid)
    (es : List SyncEvent) (_ : Pc × Shared) : DevState :=
  if .acquire .write ∈ es then x.2.dev else s

/-- What a successful open does between its last acquisition of the semaphore,
when it finds `d`, and its release, when it leaves `d'`. -/
structure OpenPost (fFlags : Nat) (d d' : CDDdev) : Prop where
  activeOpens : d'.activeOpens = (d.activeOpens + 1) % 2 ^ 32
  append : d'.append = true ↔ hasFlag fFlags oAppend = true
  counter : d'.counter = if hasFlag fFlags oTrunc then 0 else d.counter
  content : fFlags &&& oAccmode = oRdonly → 0 < d'.counter

/-! ## The last round -/

theorem contentIsUnavailable_eq_zero {d : CDDdev} {fFlags : Nat}
    (hread : fFlags &&& oAccmode = oRdonly)
    (h : contentIsUnavailable d fFlags = 0) :
    0 < d.counter ∧ hasFlag fFlags oTrunc = false := by
  simp only [contentIsUnavailable, hread] at h
  split at h
  · cases h
  · next hcontent =>
      cases htrunc : hasFlag fFlags oTrunc <;> simp_all [Nat.pos_iff_ne_zero]

theorem openPost_commit {fFlags : Nat} {s s' : DevState}
    (hcontent : contentIsUnavailable s.dev fFlags = 0)
    (hcommit : openCommit fFlags s = some s') :
    OpenPost fFlags s.dev s'.dev := by
  rw [openCommit_dev hcommit]
  refine ⟨rfl, Iff.rfl, rfl, fun hread => ?_⟩
  obtain ⟨hpos, htrunc⟩ := contentIsUnavailable_eq_zero hread hcontent
  simpa [committed, htrunc] using hpos

theorem allocateStorage_fields (fresh : Option (Nat → Byte)) (s : DevState) :
    (allocateStorage fresh s).2.dev.counter = s.dev.counter ∧
      (allocateStorage fresh s).2.dev.activeOpens = s.dev.activeOpens := by
  simp only [allocateStorage]
  split <;> exact ⟨rfl, rfl⟩

theorem openPost_openBody {fresh : Option (Nat → Byte)} {fFlags : Nat}
    {s s' : DevState}
    (h : openBody fresh fFlags s = some (s', .returned 0)) :
    OpenPost fFlags s.dev s'.dev := by
  obtain ⟨hcounter, hopens⟩ := allocateStorage_fields fresh s
  simp only [openBody] at h
  split at h
  · exact absurd (Prod.mk.inj (Option.some.inj h)).2 (by decide)
  · rcases openRest_cases h with ⟨hcontent, -, hcommit⟩ | ⟨-, -, hstatus⟩
    · have hpost := openPost_commit hcontent hcommit
      refine ⟨?_, hpost.append, ?_, hpost.content⟩
      · rw [hpost.activeOpens, hopens]
      · rw [hpost.counter, hcounter]
    · exact absurd rfl hstatus

/-! ## The invariant -/

/-- The call is an open with flags `fFlags`.  While it holds the semaphore and
has not come to its end, the device is as it was at the acquisition; when it
has come to its end with 0, the postcondition holds. -/
def OpenInv (fFlags : Nat) (x : (Pc × Shared) × DevState) : Prop :=
  match x.1.1 with
  | .openLock g _ | .waitUnlock g | .waitPrepare g | .waitRetest g
  | .waitSchedule g | .waitFinish g | .waitSignal g | .waitRelock g => g = fFlags
  | .openBody g _ | .waitTest g => g = fFlags ∧ x.2 = x.1.2.dev
  | .openUnlock r => r = 0 → OpenPost fFlags x.2.dev x.1.2.dev.dev
  | .done a => ∃ r, a = .openFile r
  | _ => False

theorem OpenInv.others {fFlags : Nat} {pc : Pc} {w w' : Shared} {s : DevState}
    (h : OpenInv fFlags ((pc, w), s)) (hfree : pc.view.held = none) :
    OpenInv fFlags ((pc, w'), s) := by
  cases pc with
  | openBody => cases hfree
  | openUnlock => cases hfree
  | waitTest => cases hfree
  | _ => exact h

theorem OpenInv.own {fFlags : Nat} {pc pc' : Pc} {w w' : Shared} {s : DevState}
    {locked signalPending : Bool} {es : List SyncEvent} {i : Amid}
    (h : OpenInv fFlags ((pc, w), s))
    (hstep : pc.step locked signalPending w = some (es, w', pc')) :
    OpenInv fFlags ((pc', w'), lastAcquired s (pc, w) i es (pc', w')) := by
  cases Pc.steps_of_step hstep with
  | openLocked => exact ⟨h, by simp [lastAcquired]⟩
  | openRefused => exact ⟨_, rfl⟩
  | openNoMemory => exact fun hr => absurd hr (by decide)
  | openEmpty => exact h.1
  | openFilled hopen =>
      obtain ⟨rfl, hs : s = w.dev⟩ := h
      subst hs
      exact fun _ => openPost_openBody hopen
  | openReturns => exact ⟨_, rfl⟩
  | waitGivesUp => exact ⟨_, rfl⟩
  | waitSignalled => exact ⟨_, rfl⟩
  | waitRefused => exact ⟨_, rfl⟩
  | waitRelocked => exact ⟨h, by simp [lastAcquired]⟩
  | waitAgain => exact h.1
  | waitEnds hcontent hcommit =>
      obtain ⟨rfl, hs : s = w.dev⟩ := h
      subst hs
      exact fun _ => openPost_commit hcontent hcommit
  | waitUnlocks => exact h
  | waitQueues => exact h
  | waitSleeps => exact h
  | waitStays => exact h
  | waitAwakes => exact h
  | waitDequeues => exact h
  | waitUnsignalled => exact h
  | _ => exact h.elim

theorem openInv_step {fFlags : Nat} {x z : (Pc × Shared) × DevState} {i : Amid}
    {es : List SyncEvent} (h : OpenInv fFlags x)
    (hstep : (amid.observe lastAcquired).step x i = some (z, es)) :
    OpenInv fFlags z := by
  obtain ⟨⟨pc, w⟩, s⟩ := x
  obtain ⟨⟨pc', w'⟩, s'⟩ := z
  obtain ⟨hamid, rfl⟩ := Machine.observe_step.mp hstep
  cases i with
  | own locked signalPending =>
      obtain ⟨⟨fs, v, pc''⟩, hpc, heq⟩ := Option.map_eq_some_iff.mp hamid
      simp only [Prod.mk.injEq] at heq
      obtain ⟨⟨rfl, rfl⟩, rfl⟩ := heq
      exact h.own hpc
  | others v =>
      have hamid : (if pc.view.held = none then some ((pc, v), []) else none) =
        some ((pc', w'), es) := hamid
      split at hamid
      · next hfree =>
          simp only [Option.some.injEq, Prod.mk.injEq] at hamid
          obtain ⟨⟨rfl, rfl⟩, rfl⟩ := hamid
          exact h.others hfree
      · cases hamid

/-- A call of `CDD_open` that is about to return 0 has counted itself, set
`append`, truncated if asked to, and found content if it only reads, on the
device it found at its last acquisition of the semaphore. -/
theorem openPost_of_returned {fFlags : Nat} {fresh : Option (Nat → Byte)}
    {w w' w'' : Shared} {is : List Amid} {pc : Pc} {s : DevState}
    {locked signalPending : Bool} {es : List SyncEvent}
    (hrun : (amid.observe lastAcquired).Run
      ((.openLock fFlags fresh, w), w.dev) is ((pc, w'), s))
    (hreturn : pc.step locked signalPending w' =
      some (es, w'', .done (.openFile 0))) :
    OpenPost fFlags s.dev w''.dev.dev := by
  have hinv : OpenInv fFlags ((pc, w'), s) :=
    Machine.Run.invariant openInv_step hrun rfl
  have hsteps := Pc.steps_of_step hreturn
  generalize hanswer : Pc.done (.openFile 0) = pc' at hsteps
  cases hsteps with
  | openReturns =>
      obtain rfl := Answer.openFile.inj (Pc.done.inj hanswer)
      exact hinv rfl
  | _ => simp [erestartsys, eagain, enotty] at hanswer

theorem openPost_of_returned_slept :
    ∃ w s w', (amid.observe lastAcquired).Run
        ((.openLock (oRdonly ||| oAppend) (some fun _ => 0),
          ⟨⟨CDDdev.zero, []⟩, []⟩), ⟨CDDdev.zero, []⟩)
        [.own true false, .own true false, .own true false, .own true false,
          .own true false, .others ⟨⟨{ CDDdev.zero with counter := 1 }, []⟩, []⟩,
          .own true false, .own true false, .own true false, .own true false,
          .own true false] ((.openUnlock 0, w), s) ∧
      (Pc.openUnlock 0).step true false w =
        some ([.release .write], w', .done (.openFile 0)) ∧
      s.dev.counter = 1 ∧
      OpenPost (oRdonly ||| oAppend) s.dev w'.dev.dev := by
  have hrun := @Machine.run_of_exec _ _ _ (amid.observe lastAcquired)
    ((.openLock (oRdonly ||| oAppend) (some fun _ => 0),
      ⟨⟨CDDdev.zero, []⟩, []⟩), ⟨CDDdev.zero, []⟩) _
    [.own true false, .own true false, .own true false, .own true false,
      .own true false, .others ⟨⟨{ CDDdev.zero with counter := 1 }, []⟩, []⟩,
      .own true false, .own true false, .own true false, .own true false,
      .own true false] rfl
  have hreturn (w : Shared) : (Pc.openUnlock 0).step true false w =
    some ([.release .write], w, .done (.openFile 0)) := rfl
  exact ⟨_, _, _, hrun, hreturn _, rfl, openPost_of_returned hrun (hreturn _)⟩

end CddDriver
