import CddDriver.Linearised
import CddDriver.StoreRefinement
import CddDriver.WakeUp
import Mathlib.Tactic.Common
/-!
# Progress

When the calls of many processes take turns, a call is held up only by what is
to hold it up, and it returns within a bounded number of its own turns.
-/

namespace CddDriver

open Lib

/-! ## No step faults -/

section Total

variable {major : Nat} {m : Minor} {s : DevState}

theorem openCommit_total (h : DeviceInv major m s) (hs : s.dev.cddStorage ≠ none)
    (fFlags : Nat) : ∃ s', openCommit fFlags s = some s' := by
  have hcounted : DeviceInv major m ⟨countOpen s.dev, s.heap⟩ :=
    ⟨h.wired, h.counter_le, h.allocLen_eq, h.storage⟩
  have hle : 0 + [(0 : Byte)].length ≤ getStorageLength m := getStorageLength_pos m
  obtain ⟨u, hu⟩ := hcounted.poke hs hle
  cases htrunc : hasFlag fFlags oTrunc with
  | true => simp [openCommit, htrunc, hu]
  | false => simp [openCommit, htrunc]

theorem openTest_total (h : DeviceInv major m s) (hs : s.dev.cddStorage ≠ none)
    (fFlags : Nat) : ∃ r, openTest fFlags s = some r := by
  unfold openTest
  split
  · exact ⟨_, rfl⟩
  · obtain ⟨s', hs'⟩ := openCommit_total h hs fFlags
    rw [hs']
    exact ⟨_, rfl⟩

theorem readBody_total (h : DeviceInv major m s) (hs : s.dev.cddStorage ≠ none)
    {count : Nat} {ppos : Int} (hrange : vfsRange ppos count = true)
    (buf : Nat → Byte) (uncopied : Nat) :
    ∃ r, readBody buf count uncopied ppos s = some r := by
  obtain ⟨p, hp⟩ := Option.ne_none_iff_exists'.mp hs
  obtain ⟨b, hb⟩ := h.buffered hp
  obtain ⟨r, hr, -⟩ := hb.cddRead_total hrange buf uncopied
  exact ⟨r, hr⟩

def Pc.usesBuffer : Pc → Bool
  | .waitTest _ | .readBody _ _ _ _ | .writeBody _ _ _ => true
  | _ => false

theorem Pc.step_total {op : Op} {pc : Pc} {locked signalPending : Bool}
    {w : Shared} (hat : Op.At op pc) (hdev : DeviceInv major m w.dev)
    (hbuffer : pc.usesBuffer = true → w.dev.dev.cddStorage ≠ none)
    (hlocked : pc.wants = some .read → locked = true)
    (hunreturned : ∀ a, pc ≠ .done a) :
    ∃ r, pc.step locked signalPending w = some r := by
  cases pc with
  | openLock => cases locked <;> exact ⟨_, rfl⟩
  | openBody fFlags fresh =>
      cases fresh with
      | none => simp [Pc.step, allocateStorage_none]
      | some data =>
          obtain ⟨r, hr⟩ := openTest_total (hdev.allocated data)
            (Option.some_ne_none _) fFlags
          simp only [Pc.step, allocateStorage_some hdev.minor_eq data,
            reduceCtorEq, if_false]
          exact ⟨_, congrArg (Option.map _) hr⟩
  | waitUnlock =>
      simp only [Pc.step]
      split <;> exact ⟨_, rfl⟩
  | waitRetest =>
      simp only [Pc.step]
      split
      · exact ⟨_, rfl⟩
      · split <;> exact ⟨_, rfl⟩
  | waitSignal => cases signalPending <;> exact ⟨_, rfl⟩
  | waitRelock => cases locked <;> exact ⟨_, rfl⟩
  | waitTest fFlags =>
      obtain ⟨r, hr⟩ := openTest_total hdev (hbuffer rfl) fFlags
      exact ⟨_, congrArg (Option.map _) hr⟩
  | readLock =>
      rw [hlocked rfl]
      exact ⟨_, rfl⟩
  | readBody buf count uncopied ppos =>
      cases hat with
      | waiting hflags _ => cases hflags
      | readBody hrange =>
          obtain ⟨r, hr⟩ := readBody_total hdev (hbuffer rfl) hrange buf uncopied
          exact ⟨_, congrArg (Option.map _) hr⟩
  | writeLock => cases locked <;> exact ⟨_, rfl⟩
  | writeBody buf copy ppos =>
      cases hat with
      | waiting hflags _ => cases hflags
      | writeBody hrange =>
          obtain ⟨r, hr⟩ := Refines.writeBody_total hdev (hbuffer rfl)
            (vfsRange_count hrange) copy ppos
          exact ⟨_, congrArg (Option.map _) hr⟩
  | writeUnlock =>
      simp only [Pc.step]
      split <;> exact ⟨_, rfl⟩
  | ioctlSwitch =>
      simp only [Pc.step]
      split <;> exact ⟨_, rfl⟩
  | ioctlLock =>
      rw [hlocked rfl]
      exact ⟨_, rfl⟩
  | done a => exact absurd rfl (hunreturned a)
  | _ => exact ⟨_, rfl⟩

end Total

/-! ## When a turn is possible -/

section Possible

variable {major : Nat} {m : Minor} {ops : Nat → Op} {y z : Conc} {t : Serial}
  {p : Nat}

/-- Behind every state of a run there is a serial execution. -/
theorem trailsSpared_run {e : InitEnv} (h : (cddInit e).1 = 0)
    {retbuf : List Char} {ts : List Turn}
    (hrun : (concurrent ops).Run
      (Conc.start ops ⟨(loaded e).devState m, retbuf⟩) ts y)
    (hkept : (concurrent ops).EveryStep BufferKept
      (Conc.start ops ⟨(loaded e).devState m, retbuf⟩) ts) :
    ∃ t, TrailsSpared (loaded e).world.cddMajor m ops y t := by
  have hdev := (worldInv_loaded h).device m
  obtain ⟨-, t, -, ht⟩ := hrun.simulates trailsSpared_step hkept
    ⟨sound_start ops _, _, spares_start ops _, trails_start ops hdev⟩
  exact ⟨t, ht⟩

theorem TrailsSpared.opened (h : TrailsSpared major m ops y t)
    (hp : (y.pcs p).hasOpened = true) : y.shared.dev.dev.cddStorage ≠ none := by
  obtain ⟨-, pcs, hspares, htrails⟩ := h
  have hopened : (pcs p).hasOpened = true := by
    rcases hspares p with hsame | ⟨hrefused, -⟩
    · rw [hsame, hp]
    · rw [Pc.not_hasOpened_of_refused hrefused] at hp
      cases hp
  apply htrails.alike.storage
  exact htrails.opened p (htrails.agree.hasOpened
    (fun _ _ => Answer.SameReturn.hasOpened) hopened)

theorem TrailsSpared.buffer (h : TrailsSpared major m ops y t)
    (hadmits : y.admits (ops p) = true) (huses : (y.pcs p).usesBuffer = true) :
    y.shared.dev.dev.cddStorage ≠ none := by
  have hat := h.1.inv.at p
  generalize hop : ops p = op at hat hadmits
  generalize hpc : y.pcs p = pc at hat huses
  cases hat with
  | readBody => exact h.opened (Bool.and_eq_true_iff.mp hadmits).1
  | writeBody => exact h.opened (Bool.and_eq_true_iff.mp hadmits).1
  | waiting hflags _ =>
      cases pc with
      | readBody => cases hflags
      | writeBody => cases hflags
      | waitTest fFlags =>
          obtain ⟨-, pcs, hspares, htrails⟩ := h
          have hsame : pcs p = y.pcs p := by
            refine (hspares p).resolve_right ?_
            rintro ⟨hrefused, -⟩
            rw [hpc] at hrefused
            cases hrefused
          apply htrails.waiting p <;> rw [hsame, hpc]
          · exact Option.some_ne_none _
          · rfl
      | _ => cases huses
  | _ => cases huses

theorem TrailsSpared.device (h : TrailsSpared major m ops y t) :
    DeviceInv major m y.shared.dev := by
  obtain ⟨-, pcs, -, htrails⟩ := h
  exact htrails.alike.left

theorem TrailsSpared.turn (h : TrailsSpared major m ops y t)
    (hready : y.ready ops p = true) (hadmits : y.admits (ops p) = true)
    (hlock : (y.pcs p).wants = some .read → y.sem.writer = none)
    (hunreturned : ∀ a, y.pcs p ≠ .done a) (signalPending : Bool) :
    ∃ z, (concurrent ops).step y (.run p signalPending) = some (z, ()) := by
  have hgranted : (y.pcs p).wants = some .read → y.granted p = true := by
    intro hwants
    simp only [Conc.granted, hwants, RwSem.grants, hlock hwants,
      Option.isNone_none]
  obtain ⟨r, hr⟩ : ∃ r, (y.pcs p).step (y.granted p) signalPending y.shared =
      some r := Pc.step_total (h.1.inv.at p) h.device (h.buffer hadmits) hgranted
        hunreturned
  have hstep : Conc.step ops y (.run p signalPending) =
      some (r.1.foldl (Conc.emit p)
        { y with shared := r.2.1, pcs := Function.update y.pcs p r.2.2 }, ()) := by
    simp only [Conc.step, hready, if_true, hr, Option.map_some]
  exact ⟨_, hstep⟩

theorem ConcInv.writer_ne (h : ConcInv ops y) {q : Nat}
    (hwants : (y.pcs p).wants = some .read) (hq : y.sem.writer = some q) :
    q ≠ p := by
  rintro rfl
  have hheld := (h.sem.writer q).mpr hq
  rw [Pc.view_of_wants hwants] at hheld
  cases hheld

/-- What may keep a process from its turn: it has returned, it sleeps, its file
is not open, or it waits to read behind a writer. -/
def HeldUp (ops : Nat → Op) (y : Conc) (p : Nat) : Prop :=
  (∃ a, y.pcs p = .done a) ∨
  (∃ fFlags, y.pcs p = .waitSchedule fFlags ∧ y.queue.woken p = false) ∨
  ((y.pcs p).begun = false ∧ y.admits (ops p) = false) ∨
  ((y.pcs p).wants = some .read ∧ ∃ q, q ≠ p ∧ y.sem.writer = some q)

theorem HeldUp.idle (h : HeldUp ops y p) :
    (y.pcs p).view.held = none ∧ (y.pcs p).owesWakeUp = false := by
  rcases h with ⟨a, hp⟩ | ⟨fFlags, hp, -⟩ | ⟨hbegun, -⟩ | ⟨hwants, -⟩
  · rw [hp]
    exact ⟨rfl, rfl⟩
  · rw [hp]
    exact ⟨rfl, rfl⟩
  · cases hpc : y.pcs p <;> rw [hpc] at hbegun <;> first
      | exact ⟨rfl, rfl⟩
      | cases hbegun
  · cases hpc : y.pcs p <;> rw [hpc] at hwants <;> first
      | exact ⟨rfl, rfl⟩
      | cases hwants

end Possible

def writerAndReaders : Nat → Op
  | 0 => .openFile oRdwr (some fun _ => 0)
  | 1 => .write 0 [65] .whole 0
  | _ => .read 0 (fun _ => 0) 1 0 0

/-- A bound on the turns that a call takes from a point on, as long as it is
not resumed; a sleep counts as two. -/
def Pc.left : Pc → Nat
  | .openLock _ _ | .waitRelock _ => 9
  | .openBody _ _ | .waitTest _ => 8
  | .waitUnlock _ => 7
  | .waitPrepare _ => 6
  | .waitRetest _ | .ioctlSwitch _ _ => 5
  | .waitSchedule _ | .writeLock _ _ _ | .ioctlLock _ _ => 4
  | .readLock _ _ _ _ | .writeBody _ _ _ | .ioctlUsage _ _ => 3
  | .waitFinish _ | .readBody _ _ _ _ | .writeUnlock _ _ | .ioctlCopy _ _ => 2
  | .openUnlock _ | .waitSignal _ | .readUnlock _ | .writeWake _ _
  | .ioctlUnlock _ _ => 1
  | .done _ => 0

/-- The call is about to go on after a sleep, since no signal is pending. -/
def Pc.resumes (signalPending : Bool) : Pc → Bool
  | .waitSignal _ => !signalPending
  | _ => false

/-- A step comes closer to the return, unless it resumes the call. -/
theorem Pc.step_left {locked signalPending : Bool} {w w' : Shared} {pc pc' : Pc}
    {es : List SyncEvent}
    (h : pc.step locked signalPending w = some (es, w', pc'))
    (hresumes : pc.resumes signalPending = false) :
    pc'.left < pc.left ∧
      (∀ fFlags, pc = .waitSchedule fFlags → pc'.left + 2 ≤ pc.left) := by
  cases Pc.steps_of_step h with
  | waitUnsignalled hsignal =>
      simp only [Pc.resumes, hsignal] at hresumes
      cases hresumes
  | waitAwakes =>
      have hsleep : (2 : Nat) + 2 ≤ 4 := by omega
      exact ⟨by simp only [Pc.left]; omega, fun _ _ => hsleep⟩
  | _ => exact ⟨by simp only [Pc.left]; omega, fun _ hpc => by cases hpc⟩

theorem Pc.step_left_resumed {locked signalPending : Bool} {w w' : Shared}
    {pc pc' : Pc} {es : List SyncEvent}
    (h : pc.step locked signalPending w = some (es, w', pc'))
    (hresumes : pc.resumes signalPending = true) : pc'.left + 1 ≤ pc.left + 9 := by
  cases Pc.steps_of_step h with
  | waitUnsignalled => simp only [Pc.left]; omega
  | waitSignalled hsignal =>
      simp only [Pc.resumes, hsignal] at hresumes
      cases hresumes
  | _ => cases hresumes

def Turn.of (p : Nat) : Turn → Bool
  | .run q _ => q = p
  | .wake _ => false

def Turn.resumes (p : Nat) (y : Conc) : Turn → Bool
  | .run q signalPending => q = p && (y.pcs p).resumes signalPending
  | .wake _ => false

theorem turns_ranked {ops : Nat → Op} {w : Shared} {ts : List Turn} {y : Conc}
    (hrun : (concurrent ops).Run (Conc.start ops w) ts y) (p : Nat) :
    ((concurrent ops).seen (fun _ t => t.of p) (Conc.start ops w) ts).length +
        (y.pcs p).left ≤
      (ops p).start.left + 9 * ((concurrent ops).seen
        (fun y t => t.resumes p y) (Conc.start ops w) ts).length := by
  refine hrun.ranked (fun y => (y.pcs p).left) ?_ ?_ ?_
  · intro y turn z o hstep hcounts
    cases turn with
    | run q signalPending =>
        obtain ⟨es, pc', hran⟩ := ran_of_step hstep
        have hqp : p ≠ q := fun hpq => of_decide_eq_false hcounts hpq.symm
        rw [hran.pcs, Function.update_of_ne hqp]
    | wake q =>
        obtain ⟨-, -, hpcs, -⟩ := wake_step hstep
        rw [hpcs]
  · intro y turn z o hstep hcounts hresets
    cases turn with
    | run q signalPending =>
        obtain ⟨es, pc', hran⟩ := ran_of_step hstep
        obtain rfl : q = p := of_decide_eq_true hcounts
        have hresumes : (y.pcs q).resumes signalPending = false := by
          simpa [Turn.resumes] using hresets
        have hleft := (Pc.step_left hran.step hresumes).1
        rw [hran.pcs, Function.update_self]
        omega
    | wake q => cases hcounts
  · intro y turn z o hstep hresets
    cases turn with
    | run q signalPending =>
        obtain ⟨es, pc', hran⟩ := ran_of_step hstep
        obtain ⟨hq, hresumes⟩ := Bool.and_eq_true_iff.mp hresets
        obtain rfl : q = p := of_decide_eq_true hq
        rw [hran.pcs, Function.update_self]
        exact Pc.step_left_resumed hran.step hresumes
    | wake q => cases hresets

def Op.turns : Op → Option Nat
  | .openFile _ _ => none
  | .read .. => some 3
  | .write .. => some 4
  | .ioctl .. => some 5

theorem Op.start_left {op : Op} {n : Nat} (h : op.turns = some n) :
    op.start.left = n := by
  cases op <;> cases h <;> rfl

theorem Op.At.not_resumes {op : Op} {pc : Pc} {n : Nat} (hat : Op.At op pc)
    (h : op.turns = some n) (signalPending : Bool) :
    pc.resumes signalPending = false := by
  cases hat <;> first
    | rfl
    | cases h

theorem resumes_seen_eq_nil {ops : Nat → Op} {w : Shared} {ts : List Turn}
    {y : Conc} {p n : Nat}
    (hrun : (concurrent ops).Run (Conc.start ops w) ts y)
    (h : (ops p).turns = some n) :
    (concurrent ops).seen (fun y t => t.resumes p y) (Conc.start ops w) ts = [] := by
  refine hrun.seen_eq_nil (I := ConcInv ops) ?_ (concInv_start ops w)
  intro y turn z o hinv hstep
  refine ⟨hinv.step hstep, ?_⟩
  cases turn with
  | run q signalPending =>
      simp only [Turn.resumes, (hinv.at p).not_resumes h, Bool.and_false]
  | wake q => rfl

theorem Pc.done_of_left {pc : Pc} (h : pc.left = 0) : ∃ a, pc = .done a := by
  cases pc with
  | done a => exact ⟨a, rfl⟩
  | _ => cases h

/-- In every run a process takes at most as many turns as its call has steps,
and nine more for each time that its call goes on after a sleep.  Reads, writes
and ioctls, which never sleep, return after three, four and five turns. -/
theorem turns_bounded {ops : Nat → Op} {w : Shared} {ts : List Turn} {y : Conc}
    (hrun : (concurrent ops).Run (Conc.start ops w) ts y) (p : Nat) :
    ((concurrent ops).seen (fun _ t => t.of p) (Conc.start ops w) ts).length +
        (y.pcs p).left ≤
      (ops p).start.left + 9 * ((concurrent ops).seen
        (fun y t => t.resumes p y) (Conc.start ops w) ts).length ∧
    ∀ n, (ops p).turns = some n →
      ((concurrent ops).seen (fun _ t => t.of p) (Conc.start ops w) ts).length ≤ n ∧
      (((concurrent ops).seen (fun _ t => t.of p) (Conc.start ops w) ts).length = n →
        ∃ a, y.pcs p = .done a) := by
  have hranked := turns_ranked hrun p
  refine ⟨hranked, fun n hn => ?_⟩
  rw [resumes_seen_eq_nil hrun hn, Op.start_left hn, List.length_nil, Nat.mul_zero,
    Nat.add_zero] at hranked
  refine ⟨by omega, fun htaken => Pc.done_of_left ?_⟩
  omega

theorem turns_bounded_reader :
    ∃ y, (concurrent writerAndReaders).Run
        (Conc.start writerAndReaders ⟨(loaded undisturbed).devState 0, []⟩)
        ([0, 0, 0, 2, 3, 2, 3, 3, 2].map fun p => .run p false) y ∧
      ((concurrent writerAndReaders).seen (fun _ t => t.of 2)
          (Conc.start writerAndReaders ⟨(loaded undisturbed).devState 0, []⟩)
          ([0, 0, 0, 2, 3, 2, 3, 3, 2].map fun p => .run p false)).length = 3 ∧
      ∃ a, y.pcs 2 = .done a := by
  have hexec : ((concurrent writerAndReaders).exec
      (Conc.start writerAndReaders ⟨(loaded undisturbed).devState 0, []⟩)
      ([0, 0, 0, 2, 3, 2, 3, 3, 2].map fun p => .run p false)).isSome = true := by
    decide
  have htaken : ((concurrent writerAndReaders).seen (fun _ t => t.of 2)
      (Conc.start writerAndReaders ⟨(loaded undisturbed).devState 0, []⟩)
      ([0, 0, 0, 2, 3, 2, 3, 3, 2].map fun p => .run p false)).length = 3 := by
    decide
  obtain ⟨y, hy⟩ := Option.isSome_iff_exists.mp hexec
  have hrun := Machine.run_of_exec hy
  exact ⟨y, hrun, htaken, ((turns_bounded hrun 2).2 3 rfl).2 htaken⟩

end CddDriver
