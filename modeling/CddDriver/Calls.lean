import CddDriver.Lib.LockTrace
import CddDriver.FileOps
import CddDriver.OpSpec
import CddDriver.ProcFs
import Mathlib.Tactic.Common
/-!
# The calls as control points

`CDD_open` with `wait_for_content`, `CDD_read`, `CDD_write`, `CDD_ioctl` and
`readproc_CDD2`, cut at every point where they touch the semaphore or the wait
queue.  Between two steps of a call other calls may change the device; what is
done under the lock is one step.
-/

namespace CddDriver

open Lib

/-! ## Calls and what they return -/

/-- A call with its arguments, the outcome of its allocation and that of its user
copy.  `via` names the file of the call; `ppos` is the file position that the VFS
passes, so calls that share a file bring theirs with them. -/
inductive Op where
  | openFile (fFlags : Nat) (fresh : Option (Nat → Byte))
  | read (via : Nat) (buf : Nat → Byte) (count uncopied : Nat) (ppos : Int)
  | write (via : Nat) (buf : List Byte) (copy : UserCopy) (ppos : Int)
  | ioctl (via ioctlNum uncopied : Nat)

inductive Answer where
  | openFile (r : Int)
  | read (r : ReadResult)
  | write (retval ppos : Int)
  | ioctl (retval : Int) (text : List Char)

structure Shared where
  dev : DevState
  retbuf : List Char

/-! ## Control points -/

inductive Pc where
  | openLock (fFlags : Nat) (fresh : Option (Nat → Byte))
  | openBody (fFlags : Nat) (fresh : Option (Nat → Byte))
  | openUnlock (r : Int)
  | waitUnlock (fFlags : Nat)
  | waitPrepare (fFlags : Nat)
  | waitRetest (fFlags : Nat)
  | waitSchedule (fFlags : Nat)
  | waitFinish (fFlags : Nat)
  | waitSignal (fFlags : Nat)
  | waitRelock (fFlags : Nat)
  | waitTest (fFlags : Nat)
  | readLock (buf : Nat → Byte) (count uncopied : Nat) (ppos : Int)
  | readBody (buf : Nat → Byte) (count uncopied : Nat) (ppos : Int)
  | readUnlock (r : ReadResult)
  | writeLock (buf : List Byte) (copy : UserCopy) (ppos : Int)
  | writeBody (buf : List Byte) (copy : UserCopy) (ppos : Int)
  | writeUnlock (retval ppos : Int)
  | writeWake (retval ppos : Int)
  | ioctlSwitch (ioctlNum uncopied : Nat)
  | ioctlLock (cmd : UsageCmd) (uncopied : Nat)
  | ioctlUsage (cmd : UsageCmd) (uncopied : Nat)
  | ioctlCopy (cmd : UsageCmd) (uncopied : Nat)
  | ioctlUnlock (retval : Int) (text : List Char)
  | done (a : Answer)

def Op.start : Op → Pc
  | .openFile fFlags fresh => .openLock fFlags fresh
  | .read _ buf count uncopied ppos => .readLock buf count uncopied ppos
  | .write _ buf copy ppos => .writeLock buf copy ppos
  | .ioctl _ ioctlNum uncopied => .ioctlSwitch ioctlNum uncopied

def Pc.wants : Pc → Option LockMode
  | .openLock _ _ | .waitRelock _ | .writeLock _ _ _ => some .write
  | .readLock _ _ _ _ | .ioctlLock _ _ => some .read
  | _ => none

/-- The loop test of `wait_for_content` with the lock held, and the rest of
`CDD_open` when the loop ends. -/
def openTest (fFlags : Nat) (s : DevState) : Option (DevState × Pc) :=
  if contentIsUnavailable s.dev fFlags ≠ 0 then some (s, .waitUnlock fFlags)
  else (openCommit fFlags s).map fun s => (s, .openUnlock 0)

/-- One step of a call: the events it emits, what it leaves of the device and
the next control point.  `locked` is the outcome of a lock attempt.  `none`:
the call waits for the lock, or a kernel fault, or it has returned. -/
def Pc.step (locked signalPending : Bool) (w : Shared) :
    Pc → Option (List SyncEvent × Shared × Pc)
  | .openLock fFlags fresh =>
      if locked then some ([.acquire .write], w, .openBody fFlags fresh)
      else some ([], w, .done (.openFile (-erestartsys)))
  | .openBody fFlags fresh =>
      let allocated := allocateStorage fresh w.dev
      let s := { allocated.2 with dev :=
        { allocated.2.dev with cddStorage := allocated.1 } }
      if allocated.1 = none then
        some ([], { w with dev := s }, .openUnlock (-enomem))
      else (openTest fFlags s).map fun r => ([], { w with dev := r.1 }, r.2)
  | .openUnlock r => some ([.release .write], w, .done (.openFile r))
  | .waitUnlock fFlags =>
      if hasFlag fFlags oNonblock then
        some ([.release .write], w, .done (.openFile (-eagain)))
      else some ([.release .write], w, .waitPrepare fFlags)
  | .waitPrepare fFlags => some ([.enqueue], w, .waitRetest fFlags)
  | .waitRetest fFlags =>
      let ret := contentIsUnavailable w.dev.dev fFlags
      if ret < 0 then some ([], w, .done (.openFile ret))
      else if ret > 0 then some ([], w, .waitSchedule fFlags)
      else some ([], w, .waitFinish fFlags)
  | .waitSchedule fFlags => some ([], w, .waitFinish fFlags)
  | .waitFinish fFlags => some ([.dequeue], w, .waitSignal fFlags)
  | .waitSignal fFlags =>
      if signalPending then some ([], w, .done (.openFile (-erestartsys)))
      else some ([], w, .waitRelock fFlags)
  | .waitRelock fFlags =>
      if locked then some ([.acquire .write], w, .waitTest fFlags)
      else some ([], w, .done (.openFile (-erestartsys)))
  | .waitTest fFlags =>
      (openTest fFlags w.dev).map fun r => ([], { w with dev := r.1 }, r.2)
  | .readLock buf count uncopied ppos =>
      if locked then
        some ([.acquire .read], w, .readBody buf count uncopied ppos)
      else none
  | .readBody buf count uncopied ppos =>
      (CddDriver.readBody buf count uncopied ppos w.dev).map fun r =>
        ([], w, .readUnlock r)
  | .readUnlock r => some ([.release .read], w, .done (.read r))
  | .writeLock buf copy ppos =>
      if locked then some ([.acquire .write], w, .writeBody buf copy ppos)
      else some ([], w, .done (.write (-erestartsys) ppos))
  | .writeBody buf copy ppos =>
      (CddDriver.writeBody buf copy ppos w.dev).map fun r =>
        ([], { w with dev := r.state }, .writeUnlock r.retval r.ppos)
  | .writeUnlock retval ppos =>
      if retval ≥ 0 then some ([.release .write], w, .writeWake retval ppos)
      else some ([.release .write], w, .done (.write retval ppos))
  | .writeWake retval ppos => some ([.wakeAll], w, .done (.write retval ppos))
  | .ioctlSwitch ioctlNum uncopied =>
      match ioctlCmd ioctlNum with
      | some cmd => some ([], w, .ioctlLock cmd uncopied)
      | none => some ([], w, .done (.ioctl (-enotty) []))
  | .ioctlLock cmd uncopied =>
      if locked then some ([.acquire .read], w, .ioctlUsage cmd uncopied)
      else none
  | .ioctlUsage cmd uncopied =>
      some ([], { w with retbuf := getCDDUsage cmd w.dev.dev },
        .ioctlCopy cmd uncopied)
  | .ioctlCopy _ uncopied =>
      let str := w.retbuf ++ ['\x00']
      let left := min uncopied str.length
      some ([], w, .ioctlUnlock (if left ≠ 0 then -efault else 0)
        (str.take (str.length - left)))
  | .ioctlUnlock retval text =>
      some ([.release .read], w, .done (.ioctl retval text))
  | .done _ => none

/-! ## readproc_CDD2 -/

structure ProcShared where
  cddDev : Minor → CDDdev
  proc : ProcState

inductive ProcPc where
  | lookup (devfname : List Char) (len : Nat) (old : List Char)
  | lock (devfname : List Char) (m : Minor) (len : Nat) (old : List Char)
  | body (devfname : List Char) (m : Minor) (len : Nat) (old : List Char)
  | unlock (retval : Int) (buf : List Char)
  | done (retval : Int) (buf : List Char)

def ProcPc.step (locked : Bool) (w : ProcShared) :
    ProcPc → Option (List SyncEvent × ProcShared × ProcPc)
  | .lookup devfname len old =>
      match lookupCDDdproc devfname w.proc with
      | none => some ([], w, .done (-einval) old)
      | some m => some ([], w, .lock devfname m len old)
  | .lock devfname m len old =>
      if locked then some ([.acquire .read], w, .body devfname m len old)
      else some ([], w, .done (-erestartsys) old)
  | .body devfname m len old =>
      let r := readprocBody devfname m len old
        (w.cddDev (w.proc.procs m).minor) w.proc
      some ([], { w with proc := r.2.2 }, .unlock r.1 r.2.1)
  | .unlock retval buf => some ([.release .read], w, .done retval buf)
  | .done _ _ => none

/-! ## Lock and wait-queue discipline -/

def Pc.view : Pc → SyncView
  | .openBody _ _ | .openUnlock _ | .waitUnlock _ | .waitTest _
  | .writeBody _ _ _ | .writeUnlock _ _ => .holding .write
  | .readBody _ _ _ _ | .readUnlock _ | .ioctlUsage _ _ | .ioctlCopy _ _
  | .ioctlUnlock _ _ => .holding .read
  | .waitRetest _ | .waitSchedule _ | .waitFinish _ => .waiting
  | _ => .idle

def ProcPc.view : ProcPc → SyncView
  | .body _ _ _ _ | .unlock _ _ => .holding .read
  | _ => .idle

def Pc.openStatus : Pc → OpenStatus
  | .openUnlock r => .returned r
  | .waitUnlock fFlags =>
      if hasFlag fFlags oNonblock then .returned (-eagain) else .waiting
  | _ => .waiting

/-- The steps of a call, one rule for each way from a control point to the
next, with its guard. -/
inductive Pc.Steps (locked signalPending : Bool) (w : Shared) :
    Pc → List SyncEvent → Shared → Pc → Prop where
  | openLocked {fFlags : Nat} {fresh : Option (Nat → Byte)} : locked = true →
      Steps locked signalPending w (.openLock fFlags fresh) [.acquire .write] w
        (.openBody fFlags fresh)
  | openRefused {fFlags : Nat} {fresh : Option (Nat → Byte)} : locked = false →
      Steps locked signalPending w (.openLock fFlags fresh) [] w
        (.done (.openFile (-erestartsys)))
  | openNoMemory {fFlags : Nat} {fresh : Option (Nat → Byte)} {s : DevState} :
      CddDriver.openBody fresh fFlags w.dev = some (s, .returned (-enomem)) →
      Steps locked signalPending w (.openBody fFlags fresh) []
        { w with dev := s } (.openUnlock (-enomem))
  | openEmpty {fFlags : Nat} {data : Nat → Byte} {s : DevState} :
      contentIsUnavailable w.dev.dev fFlags ≠ 0 →
      CddDriver.openBody (some data) fFlags w.dev =
        some (s, (Pc.waitUnlock fFlags).openStatus) →
      Steps locked signalPending w (.openBody fFlags (some data)) []
        { w with dev := s } (.waitUnlock fFlags)
  | openFilled {fFlags : Nat} {fresh : Option (Nat → Byte)} {s : DevState} :
      CddDriver.openBody fresh fFlags w.dev = some (s, .returned 0) →
      Steps locked signalPending w (.openBody fFlags fresh) []
        { w with dev := s } (.openUnlock 0)
  | openReturns {r : Int} :
      Steps locked signalPending w (.openUnlock r) [.release .write] w
        (.done (.openFile r))
  | waitGivesUp {fFlags : Nat} : hasFlag fFlags oNonblock = true →
      Steps locked signalPending w (.waitUnlock fFlags) [.release .write] w
        (.done (.openFile (-eagain)))
  | waitUnlocks {fFlags : Nat} : hasFlag fFlags oNonblock = false →
      Steps locked signalPending w (.waitUnlock fFlags) [.release .write] w
        (.waitPrepare fFlags)
  | waitQueues {fFlags : Nat} :
      Steps locked signalPending w (.waitPrepare fFlags) [.enqueue] w
        (.waitRetest fFlags)
  | waitSleeps {fFlags : Nat} : contentIsUnavailable w.dev.dev fFlags ≠ 0 →
      Steps locked signalPending w (.waitRetest fFlags) [] w
        (.waitSchedule fFlags)
  | waitStays {fFlags : Nat} : contentIsUnavailable w.dev.dev fFlags = 0 →
      Steps locked signalPending w (.waitRetest fFlags) [] w
        (.waitFinish fFlags)
  | waitAwakes {fFlags : Nat} :
      Steps locked signalPending w (.waitSchedule fFlags) [] w
        (.waitFinish fFlags)
  | waitDequeues {fFlags : Nat} :
      Steps locked signalPending w (.waitFinish fFlags) [.dequeue] w
        (.waitSignal fFlags)
  | waitSignalled {fFlags : Nat} : signalPending = true →
      Steps locked signalPending w (.waitSignal fFlags) [] w
        (.done (.openFile (-erestartsys)))
  | waitUnsignalled {fFlags : Nat} : signalPending = false →
      Steps locked signalPending w (.waitSignal fFlags) [] w
        (.waitRelock fFlags)
  | waitRelocked {fFlags : Nat} : locked = true →
      Steps locked signalPending w (.waitRelock fFlags) [.acquire .write] w
        (.waitTest fFlags)
  | waitRefused {fFlags : Nat} : locked = false →
      Steps locked signalPending w (.waitRelock fFlags) [] w
        (.done (.openFile (-erestartsys)))
  | waitAgain {fFlags : Nat} : contentIsUnavailable w.dev.dev fFlags ≠ 0 →
      Steps locked signalPending w (.waitTest fFlags) [] w (.waitUnlock fFlags)
  | waitEnds {fFlags : Nat} {s : DevState} :
      contentIsUnavailable w.dev.dev fFlags = 0 →
      openCommit fFlags w.dev = some s →
      Steps locked signalPending w (.waitTest fFlags) [] { w with dev := s }
        (.openUnlock 0)
  | readLocked {buf : Nat → Byte} {count uncopied : Nat} {ppos : Int} :
      locked = true →
      Steps locked signalPending w (.readLock buf count uncopied ppos)
        [.acquire .read] w (.readBody buf count uncopied ppos)
  | readCopies {buf : Nat → Byte} {count uncopied : Nat} {ppos : Int}
      {r : ReadResult} :
      CddDriver.readBody buf count uncopied ppos w.dev = some r →
      Steps locked signalPending w (.readBody buf count uncopied ppos) [] w
        (.readUnlock r)
  | readReturns {r : ReadResult} :
      Steps locked signalPending w (.readUnlock r) [.release .read] w
        (.done (.read r))
  | writeLocked {buf : List Byte} {copy : UserCopy} {ppos : Int} :
      locked = true →
      Steps locked signalPending w (.writeLock buf copy ppos)
        [.acquire .write] w (.writeBody buf copy ppos)
  | writeRefused {buf : List Byte} {copy : UserCopy} {ppos : Int} :
      locked = false →
      Steps locked signalPending w (.writeLock buf copy ppos) [] w
        (.done (.write (-erestartsys) ppos))
  | writeStores {buf : List Byte} {copy : UserCopy} {ppos : Int}
      {r : WriteResult} :
      CddDriver.writeBody buf copy ppos w.dev = some r →
      Steps locked signalPending w (.writeBody buf copy ppos) []
        { w with dev := r.state } (.writeUnlock r.retval r.ppos)
  | writeUnlocks {retval ppos : Int} : 0 ≤ retval →
      Steps locked signalPending w (.writeUnlock retval ppos)
        [.release .write] w (.writeWake retval ppos)
  | writeFails {retval ppos : Int} : ¬ 0 ≤ retval →
      Steps locked signalPending w (.writeUnlock retval ppos)
        [.release .write] w (.done (.write retval ppos))
  | writeWakes {retval ppos : Int} :
      Steps locked signalPending w (.writeWake retval ppos) [.wakeAll] w
        (.done (.write retval ppos))
  | ioctlKnown {ioctlNum uncopied : Nat} {cmd : UsageCmd} :
      ioctlCmd ioctlNum = some cmd →
      Steps locked signalPending w (.ioctlSwitch ioctlNum uncopied) [] w
        (.ioctlLock cmd uncopied)
  | ioctlUnknown {ioctlNum uncopied : Nat} : ioctlCmd ioctlNum = none →
      Steps locked signalPending w (.ioctlSwitch ioctlNum uncopied) [] w
        (.done (.ioctl (-enotty) []))
  | ioctlLocked {cmd : UsageCmd} {uncopied : Nat} : locked = true →
      Steps locked signalPending w (.ioctlLock cmd uncopied) [.acquire .read] w
        (.ioctlUsage cmd uncopied)
  | ioctlFills {cmd : UsageCmd} {uncopied : Nat} :
      Steps locked signalPending w (.ioctlUsage cmd uncopied) []
        { w with retbuf := getCDDUsage cmd w.dev.dev } (.ioctlCopy cmd uncopied)
  | ioctlCopies {cmd : UsageCmd} {uncopied : Nat} {text : List Char} :
      text = w.retbuf ++ ['\x00'] →
      Steps locked signalPending w (.ioctlCopy cmd uncopied) [] w
        (.ioctlUnlock (if min uncopied text.length ≠ 0 then -efault else 0)
          (text.take (text.length - min uncopied text.length)))
  | ioctlReturns {retval : Int} {text : List Char} :
      Steps locked signalPending w (.ioctlUnlock retval text) [.release .read] w
        (.done (.ioctl retval text))

theorem openTest_cases {fFlags : Nat} {s s' : DevState} {pc : Pc}
    (h : openTest fFlags s = some (s', pc)) :
    (contentIsUnavailable s.dev fFlags ≠ 0 ∧ s' = s ∧ pc = .waitUnlock fFlags) ∨
      (contentIsUnavailable s.dev fFlags = 0 ∧ openCommit fFlags s = some s' ∧
        pc = .openUnlock 0) := by
  unfold openTest at h
  by_cases hun : contentIsUnavailable s.dev fFlags = 0
  · rw [if_neg (not_not.mpr hun)] at h
    obtain ⟨t, ht, heq⟩ := Option.map_eq_some_iff.mp h
    obtain ⟨rfl, rfl⟩ := Prod.mk.inj heq
    exact .inr ⟨hun, ht, rfl⟩
  · rw [if_pos hun] at h
    obtain ⟨rfl, rfl⟩ := Prod.mk.inj (Option.some.inj h)
    exact .inl ⟨hun, rfl, rfl⟩

theorem openTest_openRest {fFlags : Nat} {s s' : DevState} {pc : Pc}
    (h : openTest fFlags s = some (s', pc)) :
    openRest fFlags s = some (s', pc.openStatus) := by
  unfold openRest waitHead
  rcases openTest_cases h with ⟨hun, rfl, rfl⟩ | ⟨hun, hcommit, rfl⟩
  · rw [if_pos hun]
    cases hnonblock : hasFlag fFlags oNonblock <;>
      simp [Pc.openStatus, hnonblock]
  · simp [hun, hcommit, Pc.openStatus]

theorem Pc.steps_openBody {locked signalPending : Bool} {w w' : Shared}
    {fFlags : Nat} {fresh : Option (Nat → Byte)} {pc' : Pc}
    {es : List SyncEvent}
    (h : (Pc.openBody fFlags fresh).step locked signalPending w =
      some (es, w', pc')) :
    Pc.Steps locked signalPending w (.openBody fFlags fresh) es w' pc' := by
  have hcounter := allocateStorage_counter fresh w.dev
  simp only [Pc.step] at h
  split at h
  next hnull =>
    cases h
    refine .openNoMemory ?_
    simp [CddDriver.openBody, hnull]
  next hsome =>
    obtain ⟨⟨s, pc⟩, htest, heq⟩ := Option.map_eq_some_iff.mp h
    cases heq
    have hbody : CddDriver.openBody fresh fFlags w.dev =
        some (s, pc.openStatus) := by
      simp only [CddDriver.openBody]
      rw [if_neg hsome]
      exact openTest_openRest htest
    rcases openTest_cases htest with ⟨hun, -, rfl⟩ | ⟨-, -, rfl⟩
    · cases fresh with
      | none => exact absurd (congrArg Prod.fst (allocateStorage_none _)) hsome
      | some data =>
          refine .openEmpty (fun hz => hun ?_) hbody
          exact (contentIsUnavailable_congr hcounter fFlags).trans hz
    · exact .openFilled hbody

theorem Pc.steps_of_step {locked signalPending : Bool} {w w' : Shared}
    {pc pc' : Pc} {es : List SyncEvent}
    (h : pc.step locked signalPending w = some (es, w', pc')) :
    Pc.Steps locked signalPending w pc es w' pc' := by
  cases pc with
  | openLock fFlags fresh =>
      cases locked <;> cases h
      · exact .openRefused rfl
      · exact .openLocked rfl
  | openBody fFlags fresh => exact Pc.steps_openBody h
  | waitUnlock fFlags =>
      cases hnonblock : hasFlag fFlags oNonblock <;>
        simp only [Pc.step, hnonblock] at h <;> cases h
      · exact .waitUnlocks hnonblock
      · exact .waitGivesUp hnonblock
  | waitRetest fFlags =>
      -- the test has no negative result, so its error branch is dead
      rcases contentIsUnavailable_eq w.dev.dev fFlags with hret | hret <;>
        simp only [Pc.step, hret] at h <;> cases h
      · exact .waitStays hret
      · exact .waitSleeps (by omega)
  | waitSignal fFlags =>
      cases signalPending <;> cases h
      · exact .waitUnsignalled rfl
      · exact .waitSignalled rfl
  | waitRelock fFlags =>
      cases locked <;> cases h
      · exact .waitRefused rfl
      · exact .waitRelocked rfl
  | waitTest fFlags =>
      obtain ⟨⟨s, pc⟩, htest, heq⟩ := Option.map_eq_some_iff.mp h
      cases heq
      rcases openTest_cases htest with ⟨hun, rfl, rfl⟩ | ⟨hcontent, hcommit, rfl⟩
      · exact .waitAgain hun
      · exact .waitEnds hcontent hcommit
  | readLock buf count uncopied ppos =>
      cases locked <;> cases h
      exact .readLocked rfl
  | readBody buf count uncopied ppos =>
      obtain ⟨r, hread, heq⟩ := Option.map_eq_some_iff.mp h
      cases heq
      exact .readCopies hread
  | writeLock buf copy ppos =>
      cases locked <;> cases h
      · exact .writeRefused rfl
      · exact .writeLocked rfl
  | writeBody buf copy ppos =>
      obtain ⟨r, hwrite, heq⟩ := Option.map_eq_some_iff.mp h
      cases heq
      exact .writeStores hwrite
  | writeUnlock retval ppos =>
      simp only [Pc.step] at h
      split at h
      next hretval =>
        cases h
        exact .writeUnlocks hretval
      next hretval =>
        cases h
        exact .writeFails hretval
  | ioctlSwitch ioctlNum uncopied =>
      simp only [Pc.step] at h
      split at h
      next cmd hcmd =>
        cases h
        exact .ioctlKnown hcmd
      next hcmd =>
        cases h
        exact .ioctlUnknown hcmd
  | ioctlLock cmd uncopied =>
      cases locked <;> cases h
      exact .ioctlLocked rfl
  | ioctlCopy cmd uncopied =>
      cases h
      exact .ioctlCopies rfl
  | done a => cases h
  | _ =>
      cases h
      constructor

/-- Each step of a call takes the view of its control point to the view of the
next one. -/
theorem Pc.step_view {locked signalPending : Bool} {w w' : Shared} {pc pc' : Pc}
    {es : List SyncEvent}
    (h : pc.step locked signalPending w = some (es, w', pc')) :
    pc.view.replay es = some pc'.view := by
  cases Pc.steps_of_step h <;> rfl

theorem Pc.step_event {locked signalPending : Bool} {w w' : Shared}
    {pc pc' : Pc} {es : List SyncEvent}
    (h : pc.step locked signalPending w = some (es, w', pc')) :
    es = [] ∨ ∃ e, es = [e] ∧
      (∀ m, e = .acquire m → pc.wants = some m ∧ locked = true) ∧
      (e = .wakeAll → ∃ retval ppos, pc = .writeWake retval ppos) := by
  cases Pc.steps_of_step h <;> simp_all [Pc.wants]

def Pc.writesShared : Pc → Bool
  | .openBody _ _ | .waitTest _ | .writeBody _ _ _ | .ioctlUsage _ _ => true
  | _ => false

theorem Pc.step_shared {locked signalPending : Bool} {w w' : Shared}
    {pc pc' : Pc} {es : List SyncEvent} (hpc : pc.writesShared = false)
    (h : pc.step locked signalPending w = some (es, w', pc')) : w' = w := by
  cases Pc.steps_of_step h
  case openNoMemory => cases hpc
  case openEmpty => cases hpc
  case openFilled => cases hpc
  case waitEnds => cases hpc
  case writeStores => cases hpc
  case ioctlFills => cases hpc
  all_goals rfl

theorem ProcPc.step_view {locked : Bool} {w w' : ProcShared} {pc pc' : ProcPc}
    {es : List SyncEvent} (h : pc.step locked w = some (es, w', pc')) :
    pc.view.replay es = some pc'.view := by
  cases pc with
  | lookup devfname len old =>
      simp only [ProcPc.step] at h
      split at h <;> cases h <;> rfl
  | lock devfname m len old =>
      simp only [ProcPc.step] at h
      split at h <;> cases h <;> rfl
  | done retval buf => cases h
  | _ =>
      cases h
      rfl

inductive Point where
  | file (pc : Pc)
  | proc (pc : ProcPc)

def Point.view : Point → SyncView
  | .file pc => pc.view
  | .proc pc => pc.view

/-- A step of one call, from whatever state the other calls have left, with
any outcome of its lock attempt, its allocation, its user copy, its signal
check and its sleep. -/
inductive Point.Step : Point → List SyncEvent → Point → Prop where
  | file {locked signalPending : Bool} {w w' : Shared} {pc pc' : Pc}
      {es : List SyncEvent} :
      pc.step locked signalPending w = some (es, w', pc') →
      Point.Step (.file pc) es (.file pc')
  | proc {locked : Bool} {w w' : ProcShared} {pc pc' : ProcPc}
      {es : List SyncEvent} :
      pc.step locked w = some (es, w', pc') →
      Point.Step (.proc pc) es (.proc pc')

theorem Point.step_view {k l : Point} {es : List SyncEvent}
    (h : Point.Step k es l) : k.view.replay es = some l.view := by
  cases h with
  | file h => exact Pc.step_view h
  | proc h => exact ProcPc.step_view h

inductive Point.Entry : Point → Prop where
  | file (op : Op) : Point.Entry (.file op.start)
  | proc (devfname : List Char) (len : Nat) (old : List Char) :
      Point.Entry (.proc (.lookup devfname len old))

inductive Point.Returned : Point → Prop where
  | file (a : Answer) : Point.Returned (.file (.done a))
  | proc (retval : Int) (buf : List Char) :
      Point.Returned (.proc (.done retval buf))

/-- Whatever a call has done up to any point of it, it has taken the semaphore
only when it held it in no mode and released it only in the mode it held; and
when it has returned, it holds nothing and is not queued. -/
theorem path_disciplined {k l : Point} {es : List SyncEvent} (hentry : k.Entry)
    (hpath : Path Point.Step k es l) :
    ∃ v, SyncView.idle.replay es = some v ∧ (l.Returned → v = .idle) := by
  have hreplay := @Path.replay_eq _ _ Point.view Point.step_view _ _ _ hpath
  have hidle : k.view = .idle := by
    cases hentry with
    | file op => cases op <;> rfl
    | proc devfname len old => rfl
  rw [hidle] at hreplay
  refine ⟨l.view, hreplay, fun hreturned => ?_⟩
  cases hreturned with
  | file a => rfl
  | proc retval buf => rfl

theorem path_disciplined_blocking_open :
    Path Point.Step (.file (.openLock oRdonly (some fun _ => 0)))
        [.acquire .write, .release .write, .enqueue, .dequeue, .acquire .write,
          .release .write] (.file (.done (.openFile 0))) ∧
      ∃ v, SyncView.idle.replay [.acquire .write, .release .write, .enqueue,
          .dequeue, .acquire .write, .release .write] = some v ∧
        (Point.Returned (.file (.done (.openFile 0))) → v = .idle) := by
  have step (counter : Nat) {pc pc' : Pc} {es : List SyncEvent} {w' : Shared}
      (h : pc.step true false ⟨⟨{ CDDdev.zero with counter }, []⟩, []⟩ =
        some (es, w', pc')) :
      Point.Step (.file pc) es (.file pc') := .file h
  have hstart : Path Point.Step
      (.file (.openLock oRdonly (some fun _ => 0))) []
      (.file (.openLock oRdonly (some fun _ => 0))) := .nil _
  have hlocked := hstart.snoc (step 0 rfl)
  have hallocated := hlocked.snoc (step 0 rfl)
  have hunlocked := hallocated.snoc (step 0 rfl)
  have hqueued := hunlocked.snoc (step 0 rfl)
  have hretested := hqueued.snoc (step 0 rfl)
  have hwoken := hretested.snoc (step 1 rfl)
  have hdequeued := hwoken.snoc (step 1 rfl)
  have hnosignal := hdequeued.snoc (step 1 rfl)
  have hrelocked := hnosignal.snoc (step 1 rfl)
  have hcommitted := hrelocked.snoc (step 1 rfl)
  have hreturned := hcommitted.snoc (step 1 rfl)
  exact ⟨hreturned,
    path_disciplined (.file (.openFile oRdonly (some fun _ => 0))) hreturned⟩

end CddDriver
