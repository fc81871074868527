import CddDriver.Calls
import CddDriver.Lib.Machine
import CddDriver.Lib.Sync
import CddDriver.System
import Mathlib.Tactic.Common
/-!
# Calls of many processes on one device

Any number of processes, each with one call, take turns at the steps of their
calls.  They share the device, its semaphore, its wait queue and the static
buffer of `get_CDD_usage`.
-/

namespace CddDriver

open Lib

/-! ## The interleaving -/

structure Conc where
  shared : Shared
  sem : RwSem Nat
  queue : WaitQueue Nat
  pcs : Nat → Pc

/-- A turn: process `p` takes one step, or something other than `release_oblk`
makes it runnable. -/
inductive Turn where
  | run (p : Nat) (signalPending : Bool)
  | wake (p : Nat)

def Answer.hasOpened : Answer → Bool
  | .openFile r => r = 0
  | _ => false

def Pc.hasOpened : Pc → Bool
  | .done a => a.hasOpened
  | _ => false

/-- The VFS passes a call on when its file is open and its range is sound. -/
def Op.admitted (opened : Nat → Bool) : Op → Bool
  | .openFile _ _ => true
  | .read via _ count _ ppos => opened via && vfsRange ppos count
  | .write via buf _ ppos => opened via && vfsRange ppos buf.length
  | .ioctl via _ _ => opened via

namespace Conc

def start (ops : Nat → Op) (w : Shared) : Conc where
  shared := w
  sem := RwSem.free
  queue := WaitQueue.empty
  pcs p := (ops p).start

def admits (y : Conc) (op : Op) : Bool :=
  op.admitted fun p => (y.pcs p).hasOpened

def ready (ops : Nat → Op) (y : Conc) (p : Nat) : Bool :=
  match y.pcs p with
  | .waitSchedule _ => y.queue.woken p
  | .readLock _ _ _ _ | .writeLock _ _ _ | .ioctlSwitch _ _ => y.admits (ops p)
  | _ => true

def granted (y : Conc) (p : Nat) : Bool :=
  match (y.pcs p).wants with
  | some m => y.sem.grants m
  | none => false

def emit (p : Nat) (y : Conc) (e : SyncEvent) : Conc :=
  { y with sem := y.sem.apply p e, queue := y.queue.apply p e }

def step (ops : Nat → Op) (y : Conc) : Turn → Option (Conc × Unit)
  | .run p signalPending =>
      if y.ready ops p then
        ((y.pcs p).step (y.granted p) signalPending y.shared).map fun r =>
          (r.1.foldl (emit p)
            { y with shared := r.2.1, pcs := Function.update y.pcs p r.2.2 }, ())
      else none
  | .wake p =>
      some ({ y with queue :=
        { y.queue with woken := Function.update y.queue.woken p true } }, ())

end Conc

def concurrent (ops : Nat → Op) : Machine Conc Turn Unit := ⟨Conc.step ops⟩

/-! ## What one turn does -/

/-- A step of process `p` from `y` to `z`: its call goes from `pc` to `pc'`
and emits nothing, or one event that the semaphore allows. -/
structure Ran (ops : Nat → Op) (y z : Conc) (p : Nat) (signalPending : Bool)
    (es : List SyncEvent) (pc' : Pc) : Prop where
  ready : y.ready ops p = true
  step : (y.pcs p).step (y.granted p) signalPending y.shared =
    some (es, z.shared, pc')
  pcs : z.pcs = Function.update y.pcs p pc'
  event : (es = [] ∧ z.sem = y.sem ∧ z.queue = y.queue) ∨
    ∃ e, es = [e] ∧ z.sem = y.sem.apply p e ∧ z.queue = y.queue.apply p e ∧
      (∀ m, e = .acquire m → y.sem.grants m = true) ∧
      (e = .wakeAll → ∃ retval ppos, y.pcs p = .writeWake retval ppos)

theorem ran_of_step {ops : Nat → Op} {y z : Conc} {p : Nat}
    {signalPending : Bool} {o : Unit}
    (h : (concurrent ops).step y (.run p signalPending) = some (z, o)) :
    ∃ es pc', Ran ops y z p signalPending es pc' := by
  have h : Conc.step ops y (.run p signalPending) = some (z, o) := h
  simp only [Conc.step] at h
  split at h
  next hready =>
    obtain ⟨⟨es, w, pc'⟩, hstep, heq⟩ := Option.map_eq_some_iff.mp h
    obtain ⟨rfl, -⟩ := Prod.mk.inj heq
    rcases Pc.step_event hstep with rfl | ⟨e, rfl, hgrant, hwake⟩
    · exact ⟨[], pc', hready, hstep, rfl, .inl ⟨rfl, rfl, rfl⟩⟩
    · refine ⟨[e], pc', hready, hstep, rfl, .inr ⟨e, rfl, rfl, rfl, ?_, hwake⟩⟩
      intro m hm
      obtain ⟨hwants, hgranted⟩ := hgrant m hm
      simpa only [Conc.granted, hwants] using hgranted
  · cases h

theorem Ran.silent {ops : Nat → Op} {y z : Conc} {p : Nat} {signalPending : Bool}
    {pc' : Pc} (hran : Ran ops y z p signalPending [] pc') :
    z.sem = y.sem ∧ z.queue = y.queue := by
  rcases hran.event with ⟨-, hkept⟩ | ⟨e, he, -⟩
  · exact hkept
  · cases he

theorem Ran.emitted {ops : Nat → Op} {y z : Conc} {p : Nat} {signalPending : Bool}
    {e : SyncEvent} {pc' : Pc} (hran : Ran ops y z p signalPending [e] pc') :
    z.sem = y.sem.apply p e ∧ z.queue = y.queue.apply p e := by
  rcases hran.event with ⟨hnil, -⟩ | ⟨e', he, hsem, hqueue, -⟩
  · cases hnil
  · obtain rfl := List.singleton_inj.mp he
    exact ⟨hsem, hqueue⟩

theorem wake_step {ops : Nat → Op} {y z : Conc} {p : Nat} {o : Unit}
    (h : (concurrent ops).step y (.wake p) = some (z, o)) :
    z.shared = y.shared ∧ z.sem = y.sem ∧ z.pcs = y.pcs ∧
      z.queue.queued = y.queue.queued ∧
      ∀ q, z.queue.woken q = false → y.queue.woken q = false := by
  have h : Conc.step ops y (.wake p) = some (z, o) := h
  obtain ⟨rfl, -⟩ := Prod.mk.inj (Option.some.inj h)
  refine ⟨rfl, rfl, rfl, rfl, fun q hq => ?_⟩
  by_cases hqp : q = p
  · subst hqp
    simp at hq
  · simpa [Function.update_of_ne hqp] using hq

/-! ## The control points of each call -/

def Pc.waitFlags : Pc → Option Nat
  | .waitUnlock fFlags | .waitPrepare fFlags | .waitRetest fFlags
  | .waitSchedule fFlags | .waitFinish fFlags | .waitSignal fFlags
  | .waitRelock fFlags | .waitTest fFlags => some fFlags
  | _ => none

/-- `At op pc`: a process with the call `op` can be at `pc`.  A nonblocking
open gets no further than the first unlocking of `wait_for_content`. -/
inductive Op.At : Op → Pc → Prop where
  | openLock {fFlags : Nat} {fresh : Option (Nat → Byte)} :
      Op.At (.openFile fFlags fresh) (.openLock fFlags fresh)
  | openBody {fFlags : Nat} {fresh : Option (Nat → Byte)} :
      Op.At (.openFile fFlags fresh) (.openBody fFlags fresh)
  | waiting {fFlags : Nat} {data : Nat → Byte} {pc : Pc} :
      pc.waitFlags = some fFlags →
      (pc = .waitUnlock fFlags ∨ hasFlag fFlags oNonblock = false) →
      Op.At (.openFile fFlags (some data)) pc
  | openUnlock {fFlags : Nat} {fresh : Option (Nat → Byte)} {r : Int} :
      Op.At (.openFile fFlags fresh) (.openUnlock r)
  | openDone {fFlags : Nat} {fresh : Option (Nat → Byte)} {r : Int} :
      Op.At (.openFile fFlags fresh) (.done (.openFile r))
  | readLock {via count uncopied : Nat} {buf : Nat → Byte} {ppos : Int} :
      Op.At (.read via buf count uncopied ppos)
        (.readLock buf count uncopied ppos)
  | readBody {via count uncopied : Nat} {buf : Nat → Byte} {ppos : Int} :
      vfsRange ppos count = true →
      Op.At (.read via buf count uncopied ppos)
        (.readBody buf count uncopied ppos)
  | readUnlock {via count uncopied : Nat} {buf : Nat → Byte} {ppos : Int}
      {r : ReadResult} :
      Op.At (.read via buf count uncopied ppos) (.readUnlock r)
  | readDone {via count uncopied : Nat} {buf : Nat → Byte} {ppos : Int}
      {r : ReadResult} :
      Op.At (.read via buf count uncopied ppos) (.done (.read r))
  | writeLock {via : Nat} {copy : UserCopy} {buf : List Byte} {ppos : Int} :
      Op.At (.write via buf copy ppos) (.writeLock buf copy ppos)
  | writeBody {via : Nat} {copy : UserCopy} {buf : List Byte} {ppos : Int} :
      vfsRange ppos buf.length = true →
      Op.At (.write via buf copy ppos) (.writeBody buf copy ppos)
  | writeUnlock {via : Nat} {copy : UserCopy} {buf : List Byte} {ppos : Int}
      {retval ppos' : Int} :
      Op.At (.write via buf copy ppos) (.writeUnlock retval ppos')
  | writeWake {via : Nat} {copy : UserCopy} {buf : List Byte} {ppos : Int}
      {retval ppos' : Int} :
      Op.At (.write via buf copy ppos) (.writeWake retval ppos')
  | writeDone {via : Nat} {copy : UserCopy} {buf : List Byte} {ppos : Int}
      {retval ppos' : Int} :
      Op.At (.write via buf copy ppos) (.done (.write retval ppos'))
  | ioctlSwitch {via ioctlNum uncopied : Nat} :
      Op.At (.ioctl via ioctlNum uncopied) (.ioctlSwitch ioctlNum uncopied)
  | ioctlLock {via ioctlNum uncopied : Nat} {cmd : UsageCmd} :
      ioctlCmd ioctlNum = some cmd →
      Op.At (.ioctl via ioctlNum uncopied) (.ioctlLock cmd uncopied)
  | ioctlUsage {via ioctlNum uncopied : Nat} {cmd : UsageCmd} :
      ioctlCmd ioctlNum = some cmd →
      Op.At (.ioctl via ioctlNum uncopied) (.ioctlUsage cmd uncopied)
  | ioctlCopy {via ioctlNum uncopied : Nat} {cmd : UsageCmd} :
      ioctlCmd ioctlNum = some cmd →
      Op.At (.ioctl via ioctlNum uncopied) (.ioctlCopy cmd uncopied)
  | ioctlUnlock {via ioctlNum uncopied : Nat} {retval : Int}
      {text : List Char} :
      Op.At (.ioctl via ioctlNum uncopied) (.ioctlUnlock retval text)
  | ioctlDone {via ioctlNum uncopied : Nat} {retval : Int} {text : List Char} :
      Op.At (.ioctl via ioctlNum uncopied) (.done (.ioctl retval text))

theorem Op.at_start (op : Op) : Op.At op op.start := by
  cases op with
  | openFile => exact .openLock
  | read => exact .readLock
  | write => exact .writeLock
  | ioctl => exact .ioctlSwitch

theorem Op.At.wait {op : Op} {fFlags : Nat} {pc pc' : Pc} (hat : Op.At op pc)
    (hflags : pc.waitFlags = some fFlags) (hflags' : pc'.waitFlags = some fFlags)
    (hblocks : pc = .waitUnlock fFlags → hasFlag fFlags oNonblock = false) :
    Op.At op pc' := by
  cases hat with
  | waiting h hor =>
      obtain rfl := Option.some.inj (h.symm.trans hflags)
      exact .waiting hflags' (.inr (hor.elim hblocks id))
  | _ => cases hflags

theorem Op.At.wait_end {op : Op} {fFlags : Nat} {pc : Pc} {r : Int}
    (hat : Op.At op pc) (hflags : pc.waitFlags = some fFlags) :
    Op.At op (.openUnlock r) ∧ Op.At op (.done (.openFile r)) := by
  cases hat with
  | waiting => exact ⟨.openUnlock, .openDone⟩
  | _ => cases hflags

theorem Ran.at {ops : Nat → Op} {y z : Conc} {p : Nat} {signalPending : Bool}
    {es : List SyncEvent} {pc' : Pc} (h : Ran ops y z p signalPending es pc')
    (hat : Op.At (ops p) (y.pcs p)) : Op.At (ops p) pc' := by
  have hsteps := Pc.steps_of_step h.step
  have hready := h.ready
  generalize hop : ops p = op at hat ⊢
  generalize hpc : y.pcs p = pc at hat hsteps
  generalize z.shared = w' at hsteps
  simp only [Conc.ready, hpc, hop] at hready
  cases hsteps with
  | waitUnlocks hblocks => exact hat.wait rfl rfl (fun _ => hblocks)
  | waitQueues => exact hat.wait rfl rfl Pc.noConfusion
  | waitSleeps => exact hat.wait rfl rfl Pc.noConfusion
  | waitStays => exact hat.wait rfl rfl Pc.noConfusion
  | waitAwakes => exact hat.wait rfl rfl Pc.noConfusion
  | waitDequeues => exact hat.wait rfl rfl Pc.noConfusion
  | waitUnsignalled => exact hat.wait rfl rfl Pc.noConfusion
  | waitRelocked => exact hat.wait rfl rfl Pc.noConfusion
  | waitAgain => exact hat.wait rfl rfl Pc.noConfusion
  | waitEnds => exact (hat.wait_end rfl).1
  | waitGivesUp => exact (hat.wait_end rfl).2
  | waitSignalled => exact (hat.wait_end rfl).2
  | waitRefused => exact (hat.wait_end rfl).2
  | openEmpty =>
      cases hat with
      | openBody => exact .waiting rfl (.inl rfl)
      | waiting hflags _ => cases hflags
  | readLocked =>
      cases hat with
      | readLock => exact .readBody (Bool.and_eq_true_iff.mp hready).2
      | waiting hflags _ => cases hflags
  | writeLocked =>
      cases hat with
      | writeLock => exact .writeBody (Bool.and_eq_true_iff.mp hready).2
      | waiting hflags _ => cases hflags
  | ioctlKnown hcmd =>
      cases hat with
      | ioctlSwitch => exact .ioctlLock hcmd
      | waiting hflags _ => cases hflags
  | _ =>
      cases hat with
      | waiting hflags _ => cases hflags
      | _ => constructor <;> assumption

/-! ## The invariant -/

/-- The semaphore and the queue know what each process holds, and each process
is at a control point of its call. -/
structure ConcInv (ops : Nat → Op) (y : Conc) : Prop where
  sem : y.sem.Reflects fun p => (y.pcs p).view.held
  queue : ∀ p, y.queue.queued p = (y.pcs p).view.queued
  «at» : ∀ p, Op.At (ops p) (y.pcs p)

theorem concInv_start (ops : Nat → Op) (w : Shared) :
    ConcInv ops (Conc.start ops w) := by
  have hidle : ∀ p, ((Conc.start ops w).pcs p).view = .idle := by
    intro p
    simp only [Conc.start]
    cases ops p <;> rfl
  refine ⟨?_, ?_, fun p => Op.at_start (ops p)⟩
  · simp only [hidle]
    exact RwSem.Reflects.free
  · intro p
    rw [hidle]
    rfl

theorem update_view {β : Type} (f : SyncView → β) (pcs : Nat → Pc) (p : Nat)
    (pc' : Pc) :
    (fun q => f ((Function.update pcs p pc' q).view)) =
      Function.update (fun q => f (pcs q).view) p (f pc'.view) := by
  funext q
  by_cases hq : q = p
  · subst hq
    simp
  · simp [Function.update_of_ne hq]

theorem ConcInv.ran {ops : Nat → Op} {y z : Conc} {p : Nat}
    {signalPending : Bool} {es : List SyncEvent} {pc' : Pc}
    (h : ConcInv ops y) (hran : Ran ops y z p signalPending es pc') :
    ConcInv ops z := by
  have hview := Pc.step_view hran.step
  have hat : ∀ q, Op.At (ops q) (z.pcs q) := by
    intro q
    rw [hran.pcs]
    by_cases hq : q = p
    · subst hq
      rw [Function.update_self]
      exact hran.at (h.at q)
    · rw [Function.update_of_ne hq]
      exact h.at q
  refine ⟨?_, ?_, hat⟩
  · rw [hran.pcs, update_view SyncView.held]
    rcases hran.event with ⟨rfl, hsem, -⟩ | ⟨e, rfl, hsem, -, hgrant, -⟩
    · have hsame : (y.pcs p).view = pc'.view := Option.some.inj hview
      rw [hsem, ← hsame, Function.update_eq_self]
      exact h.sem
    · obtain ⟨v, hnext, hv⟩ := Option.bind_eq_some_iff.mp hview
      obtain rfl : v = pc'.view := Option.some.inj hv
      rw [hsem]
      exact h.sem.apply rfl hnext hgrant
  · intro q
    have hqueued : z.queue.queued =
        Function.update y.queue.queued p pc'.view.queued := by
      rcases hran.event with ⟨rfl, -, hqueue⟩ | ⟨e, rfl, -, hqueue, -⟩
      · have hsame : (y.pcs p).view = pc'.view := Option.some.inj hview
        rw [hqueue, ← hsame, ← h.queue p, Function.update_eq_self]
      · obtain ⟨v, hnext, hv⟩ := Option.bind_eq_some_iff.mp hview
        obtain rfl : v = pc'.view := Option.some.inj hv
        rw [hqueue]
        exact WaitQueue.apply_queued (h.queue p) hnext
    rw [hqueued, hran.pcs]
    by_cases hq : q = p
    · subst hq
      simp
    · rw [Function.update_of_ne hq, Function.update_of_ne hq]
      exact h.queue q

theorem ConcInv.step {ops : Nat → Op} {y z : Conc} {t : Turn} {o : Unit}
    (h : ConcInv ops y) (hstep : (concurrent ops).step y t = some (z, o)) :
    ConcInv ops z := by
  cases t with
  | run p signalPending =>
      obtain ⟨es, pc', hran⟩ := ran_of_step hstep
      exact h.ran hran
  | wake p =>
      obtain ⟨-, hsem, hpcs, hqueued, -⟩ := wake_step hstep
      refine ⟨?_, ?_, ?_⟩
      · rw [hsem, hpcs]
        exact h.sem
      · rw [hqueued, hpcs]
        exact h.queue
      · rw [hpcs]
        exact h.at

/-- While a call holds the semaphore for writing, no other call holds it: what
a call does under the lock may count as one step. -/
theorem holds_alone {ops : Nat → Op} {w : Shared} {ts : List Turn} {y : Conc}
    (hrun : (concurrent ops).Run (Conc.start ops w) ts y) {p q : Nat}
    (hp : (y.pcs p).view.held = some .write)
    (hq : (y.pcs q).view.held ≠ none) : q = p := by
  have hinv : ConcInv ops y :=
    Machine.Run.invariant ConcInv.step hrun (concInv_start ops w)
  exact hinv.sem.alone hp hq

end CddDriver
