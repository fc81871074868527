import CddDriver.Concurrent
import CddDriver.Invariant
import Mathlib.Tactic.Common
/-!
# Calls one after another

The same calls, each executed from its start to its return before the next one
begins.  A call of the interleaved system has settled on its answer some time
before it returns; until then it leaves the device as it found it, apart from
an open that goes to sleep.
-/

namespace CddDriver

open Lib

/-! ## Serial execution -/

/-- A call that runs alone and gets its lock: what it leaves of the device and
its answer.  `none`: a kernel fault, or an open that sleeps. -/
def Op.serve : Op → DevState → Option (DevState × Answer)
  | .openFile fFlags fresh, s =>
      match cddOpen true fresh fFlags s with
      | some (s, .returned r) => some (s, .openFile r)
      | _ => none
  | .read _ buf count uncopied ppos, s =>
      (cddRead buf count uncopied ppos s).map fun r => (s, .read r)
  | .write _ buf copy ppos, s =>
      (cddWrite true buf copy ppos s).map fun r =>
        (r.state, .write r.retval r.ppos)
  | .ioctl _ ioctlNum uncopied, s =>
      let r := cddIoctl ioctlNum uncopied s.dev
      some (s, .ioctl r.1 r.2)

theorem serve_openFile {fFlags : Nat} {fresh : Option (Nat → Byte)}
    {s s' : DevState} {a : Answer} :
    (Op.openFile fFlags fresh).serve s = some (s', a) ↔
      ∃ r, openBody fresh fFlags s = some (s', .returned r) ∧
        a = .openFile r := by
  have hlocked : cddOpen true fresh fFlags s = openBody fresh fFlags s := rfl
  simp only [Op.serve, hlocked]
  constructor
  · intro h
    split at h
    next u r hopen =>
      obtain ⟨rfl, rfl⟩ := Prod.mk.inj (Option.some.inj h)
      exact ⟨r, hopen, rfl⟩
    next => cases h
  · rintro ⟨r, hopen, rfl⟩
    rw [hopen]

/-! ### A call whose steps nobody interrupts -/

def stepper {ω κ : Type} (step : ω → κ → Option (List SyncEvent × ω × κ)) :
    Machine (ω × κ) Unit (List SyncEvent) where
  step x _ := (step x.1 x.2).map fun r => ((r.2.1, r.2.2), r.1)

theorem stepper_cons {ω κ : Type} {step : ω → κ → Option (List SyncEvent × ω × κ)}
    {w w' : ω} {k k' : κ} {es : List SyncEvent} {n : Nat} {x : ω × κ}
    (hstep : step w k = some (es, w', k'))
    (hrun : (stepper step).Run (w', k') (List.replicate n ()) x) :
    (stepper step).Run (w, k) (List.replicate (n + 1) ()) x := by
  refine .cons (o := es) ?_ hrun
  simp [stepper, hstep]

/-- A call that gets its locks and no signal. -/
def alone : Machine (Shared × Pc) Unit (List SyncEvent) :=
  stepper fun w pc => pc.step true false w

theorem alone_cons {w w' : Shared} {pc pc' : Pc} {es : List SyncEvent}
    {n : Nat} {x : Shared × Pc}
    (hstep : pc.step true false w = some (es, w', pc'))
    (hrun : alone.Run (w', pc') (List.replicate n ()) x) :
    alone.Run (w, pc) (List.replicate (n + 1) ()) x :=
  stepper_cons hstep hrun

theorem alone_openFile {fFlags : Nat} {fresh : Option (Nat → Byte)} {w : Shared}
    {s : DevState} {r : Int}
    (h : openBody fresh fFlags w.dev = some (s, .returned r)) :
    alone.Run (w, .openLock fFlags fresh) (List.replicate 3 ())
      ({ w with dev := s }, .done (.openFile r)) := by
  refine alone_cons rfl ?_
  simp only [openBody] at h
  split at h
  next hnull =>
    obtain ⟨rfl, hr⟩ := Prod.mk.inj (Option.some.inj h)
    obtain rfl := OpenStatus.returned.inj hr
    exact alone_cons (if_pos hnull) (alone_cons rfl (.nil _))
  next hsome =>
    generalize hs : ({ (allocateStorage fresh w.dev).2 with dev :=
      { (allocateStorage fresh w.dev).2.dev with
        cddStorage := (allocateStorage fresh w.dev).1 } } : DevState) = u at h
    rcases openRest_cases h with ⟨hcontent, hr, hcommit⟩ | ⟨hun, rfl, -⟩
    · obtain rfl := OpenStatus.returned.inj hr
      have htest : openTest fFlags u = some (s, .openUnlock 0) := by
        simp [openTest, hcontent, hcommit]
      refine alone_cons (by simp only [Pc.step, if_neg hsome, hs, htest]; rfl) ?_
      exact alone_cons rfl (.nil _)
    · have htest : openTest fFlags s = some (s, .waitUnlock fFlags) := by
        simp [openTest, hun]
      have hnonblock : hasFlag fFlags oNonblock = true ∧ r = -eagain := by
        rw [openTest_openRest htest] at h
        simp only [Pc.openStatus, Option.some.injEq, Prod.mk.injEq, true_and] at h
        split at h
        · next hflag => exact ⟨hflag, (OpenStatus.returned.inj h).symm⟩
        · cases h
      obtain ⟨hflag, rfl⟩ := hnonblock
      refine alone_cons (by simp only [Pc.step, if_neg hsome, hs, htest]; rfl) ?_
      exact alone_cons (if_pos hflag) (.nil _)

/-- `serve` is what the steps of the call do when no other call takes one. -/
theorem alone_serve {op : Op} {w : Shared} {s : DevState} {a : Answer}
    (h : op.serve w.dev = some (s, a)) :
    ∃ n w', alone.Run (w, op.start) (List.replicate n ()) (w', .done a) ∧
      w'.dev = s := by
  cases op with
  | openFile fFlags fresh =>
      obtain ⟨r, hopen, rfl⟩ := serve_openFile.mp h
      exact ⟨3, _, alone_openFile hopen, rfl⟩
  | read via buf count uncopied ppos =>
      obtain ⟨r, hread, heq⟩ := Option.map_eq_some_iff.mp h
      obtain ⟨rfl, rfl⟩ := Prod.mk.inj heq
      have hbody : readBody buf count uncopied ppos w.dev = some r := hread
      refine ⟨3, w, alone_cons rfl ?_, rfl⟩
      refine alone_cons (by simp only [Pc.step, hbody]; rfl) ?_
      exact alone_cons rfl (.nil _)
  | write via buf copy ppos =>
      obtain ⟨r, hwrite, heq⟩ := Option.map_eq_some_iff.mp h
      obtain ⟨rfl, rfl⟩ := Prod.mk.inj heq
      have hbody : writeBody buf copy ppos w.dev = some r := hwrite
      have hunlocked : ∃ n, alone.Run
          ({ w with dev := r.state }, .writeUnlock r.retval r.ppos)
          (List.replicate n ())
          ({ w with dev := r.state }, .done (.write r.retval r.ppos)) := by
        by_cases hretval : r.retval ≥ 0
        · exact ⟨2, alone_cons (if_pos hretval) (alone_cons rfl (.nil _))⟩
        · exact ⟨1, alone_cons (if_neg hretval) (.nil _)⟩
      obtain ⟨n, hn⟩ := hunlocked
      refine ⟨n + 2, { w with dev := r.state }, alone_cons rfl ?_, rfl⟩
      exact alone_cons (by simp only [Pc.step, hbody]; rfl) hn
  | ioctl via ioctlNum uncopied =>
      obtain ⟨rfl, rfl⟩ := Prod.mk.inj (Option.some.inj h)
      cases hcmd : ioctlCmd ioctlNum with
      | none =>
          have hanswer : cddIoctl ioctlNum uncopied w.dev.dev = (-enotty, []) := by
            simp only [cddIoctl, hcmd]
          rw [hanswer]
          refine ⟨1, w, ?_, rfl⟩
          exact alone_cons (by simp only [Op.start, Pc.step, hcmd]; rfl) (.nil _)
      | some cmd =>
          have hanswer : cddIoctl ioctlNum uncopied w.dev.dev =
              ioctlBody cmd uncopied w.dev.dev := by
            simp only [cddIoctl, hcmd]
          rw [hanswer]
          refine ⟨5, { w with retbuf := getCDDUsage cmd w.dev.dev }, ?_, rfl⟩
          refine alone_cons (by simp only [Op.start, Pc.step, hcmd]; rfl) ?_
          refine alone_cons rfl (alone_cons rfl ?_)
          exact alone_cons rfl (alone_cons rfl (.nil _))

theorem procAlone_readprocCDD2 (locked : Bool) (devfname : List Char) (len : Nat)
    (old : List Char) (w : ProcShared) :
    ∃ n, (stepper fun w (pc : ProcPc) => pc.step locked w).Run
      (w, .lookup devfname len old) (List.replicate n ())
      ({ w with proc := (readprocCDD2 locked devfname len old w.cddDev w.proc).2.2 },
        .done (readprocCDD2 locked devfname len old w.cddDev w.proc).1
          (readprocCDD2 locked devfname len old w.cddDev w.proc).2.1) := by
  unfold readprocCDD2
  cases hlookup : lookupCDDdproc devfname w.proc with
  | none =>
      have hstep : ProcPc.step locked w (.lookup devfname len old) =
          some ([], w, .done (-einval) old) := by
        simp only [ProcPc.step, hlookup]
      exact ⟨1, stepper_cons hstep (.nil _)⟩
  | some m =>
      have hstep : ProcPc.step locked w (.lookup devfname len old) =
          some ([], w, .lock devfname m len old) := by
        simp only [ProcPc.step, hlookup]
      cases locked with
      | false => exact ⟨2, stepper_cons hstep (stepper_cons rfl (.nil _))⟩
      | true =>
          simp only [Bool.not_true, Bool.false_eq_true, if_false]
          refine ⟨4, stepper_cons hstep (stepper_cons rfl (stepper_cons rfl ?_))⟩
          exact stepper_cons rfl (.nil _)

/-! ### A serial execution -/

/-- The device and the answers that the calls executed so far have returned. -/
structure Serial where
  dev : DevState
  answers : Nat → Option Answer

namespace Serial

def start (s : DevState) : Serial := ⟨s, fun _ => none⟩

def hasOpened (t : Serial) (p : Nat) : Bool :=
  match t.answers p with
  | some a => a.hasOpened
  | none => false

def step (ops : Nat → Op) (t : Serial) (p : Nat) : Option (Serial × Unit) :=
  if (t.answers p).isNone && (ops p).admitted t.hasOpened then
    ((ops p).serve t.dev).map fun r =>
      (⟨r.1, Function.update t.answers p (some r.2)⟩, ())
  else none

end Serial

def serial (ops : Nat → Op) : Machine Serial Nat Unit := ⟨Serial.step ops⟩

theorem serial_step_eq_some {ops : Nat → Op} {t u : Serial} {p : Nat} {o : Unit} :
    (serial ops).step t p = some (u, o) ↔
      t.answers p = none ∧ (ops p).admitted t.hasOpened = true ∧
        ∃ a, (ops p).serve t.dev = some (u.dev, a) ∧
          u.answers = Function.update t.answers p (some a) := by
  show Serial.step ops t p = some (u, o) ↔ _
  unfold Serial.step
  constructor
  · intro h
    split at h
    · next hc =>
        obtain ⟨hnew, hadmitted⟩ := Bool.and_eq_true_iff.mp hc
        obtain ⟨⟨s, a⟩, hserve, heq⟩ := Option.map_eq_some_iff.mp h
        obtain ⟨rfl, -⟩ := Prod.mk.inj heq
        exact ⟨Option.isNone_iff_eq_none.mp hnew, hadmitted, a, hserve, rfl⟩
    · cases h
  · rintro ⟨hnew, hadmitted, a, hserve, hanswers⟩
    rw [hnew, hadmitted, hserve]
    cases u
    simp only at hanswers
    simp [hanswers]

theorem serial_answer_kept {ops : Nat → Op} {p : Nat} {a : Answer}
    {t u : Serial} {q : Nat} {o : Unit} (h : t.answers p = some a)
    (hstep : (serial ops).step t q = some (u, o)) : u.answers p = some a := by
  obtain ⟨hnew, -, b, -, hanswers⟩ := serial_step_eq_some.mp hstep
  have hpq : p ≠ q := by
    rintro rfl
    rw [h] at hnew
    cases hnew
  rw [hanswers, Function.update_of_ne hpq, h]

def RangeFits (d : CDDdev) (buf : List Byte) (ppos : Int) : Prop :=
  0 ≤ writePos d ppos ∧ writePos d ppos + buf.length ≤ d.allocLen

theorem serve_write {via : Nat} {buf : List Byte} {copy : UserCopy} {ppos : Int}
    {s s' : DevState} {a : Answer} (hcount : buf.length ≤ maxRwCount)
    (hcopied : copy.uncopied = 0)
    (h : (Op.write via buf copy ppos).serve s = some (s', a)) :
    a = .write buf.length (toLong (ppos + buf.length)) ∨
      (¬ RangeFits s.dev buf ppos ∧ a = .write (-efault) ppos) := by
  obtain ⟨r, hwrite, heq⟩ := Option.map_eq_some_iff.mp h
  obtain ⟨-, rfl⟩ := Prod.mk.inj heq
  have hbody : writeBody buf copy ppos s = some r := hwrite
  by_cases hfits : RangeFits s.dev buf ppos
  · left
    obtain ⟨hnonneg, hle⟩ := hfits
    have hexact := toUInt_writeEnd hnonneg (writePos_lt s.dev ppos) hcount
    simp only [writeBody, hexact, hcopied, Nat.zero_min] at hbody
    rw [if_neg (by omega), if_neg (by omega)] at hbody
    split at hbody
    · cases hbody
    · have hret : toInt buf.length = buf.length := by
        unfold maxRwCount at hcount
        exact wrapS_eq_self (by omega) (by omega) (by omega)
      simp only [ne_eq, not_true_eq_false, if_false, Option.some.injEq] at hbody
      rw [← hbody, hret]
  · right
    refine ⟨hfits, ?_⟩
    rcases writeBody_cases hcount hbody with
      rfl | ⟨pos, hpos, hle, -⟩
    · rfl
    · exact absurd ⟨by omega, by omega⟩ hfits

/-- In a serial execution a write whose user copy succeeds returns the number
of its bytes, unless its range did not fit when its turn came. -/
theorem serial_write {ops : Nat → Op} {s t : Serial} {log : List Nat}
    (hrun : (serial ops).Run s log t) {p via : Nat} {buf : List Byte}
    {copy : UserCopy} {ppos : Int} {a : Answer}
    (hop : ops p = .write via buf copy ppos) (hcopied : copy.uncopied = 0)
    (hnew : s.answers p = none) (ha : t.answers p = some a) :
    a = .write buf.length (toLong (ppos + buf.length)) ∨
      ∃ before after u, log = before ++ p :: after ∧
        (serial ops).Run s before u ∧ ¬ RangeFits u.dev.dev buf ppos ∧
        a = .write (-efault) ppos := by
  induction hrun with
  | nil s =>
      rw [hnew] at ha
      cases ha
  | @cons s u t q o log hstep hrest ih =>
      obtain ⟨-, hadmitted, b, hserve, hanswers⟩ := serial_step_eq_some.mp hstep
      by_cases hq : p = q
      · subst hq
        have hnow : u.answers p = some b := by
          rw [hanswers, Function.update_self]
        have hkeep : t.answers p = some b :=
          Machine.Run.invariant serial_answer_kept hrest hnow
        obtain rfl : b = a := Option.some.inj (hkeep.symm.trans ha)
        rw [hop] at hserve hadmitted
        have hcount : buf.length ≤ maxRwCount :=
          vfsRange_count (Bool.and_eq_true_iff.mp hadmitted).2
        rcases serve_write hcount hcopied hserve with hall | ⟨hfits, hnone⟩
        · exact .inl hall
        · exact .inr ⟨[], log, s, rfl, .nil s, hfits, hnone⟩
      · have hstill : u.answers p = none := by
          rw [hanswers, Function.update_of_ne hq, hnew]
        rcases ih hstill ha with hall | ⟨before, after, v, rfl, hbefore, hrest⟩
        · exact .inl hall
        · exact .inr ⟨q :: before, after, v, rfl, .cons hstep hbefore, hrest⟩

/-! ## The answer that a call has settled on -/

/-- The answer that a call will return, once nothing can change it. -/
def Pc.result? : Pc → Option Answer
  | .openUnlock r => some (.openFile r)
  | .waitUnlock fFlags =>
      if hasFlag fFlags oNonblock then some (.openFile (-eagain)) else none
  | .readUnlock r => some (.read r)
  | .writeUnlock retval ppos => some (.write retval ppos)
  | .writeWake retval ppos => some (.write retval ppos)
  | .ioctlUnlock retval text => some (.ioctl retval text)
  | .done a => some a
  | _ => none

@[simp] theorem Op.start_result? (op : Op) : op.start.result? = none := by
  cases op <;> rfl

@[simp] theorem Op.start_waitFlags (op : Op) : op.start.waitFlags = none := by
  cases op <;> rfl

/-- What a step of a call that gets its locks and no signal does to the device
and to the answer of the call. -/
inductive Moves (op : Op) (w w' : Shared) : Pc → Pc → Prop where
  /-- The device and the answer stay. -/
  | same {pc pc' : Pc} :
      w'.dev = w.dev → pc'.result? = pc.result? →
      (pc'.waitFlags ≠ none → pc.waitFlags ≠ none) → Moves op w w' pc pc'
  /-- The step does all that the call does when it runs alone. -/
  | serves {pc pc' : Pc} {a : Answer} :
      pc.result? = none → pc'.result? = some a →
      (∀ fFlags fresh, op = .openFile fFlags fresh →
        pc = .openBody fFlags fresh) →
      op.serve w.dev = some (w'.dev, a) → Moves op w w' pc pc'
  /-- An open replaces the buffer and goes to sleep. -/
  | sleeps {fFlags : Nat} {data : Nat → Byte} :
      op = .openFile fFlags (some data) →
      contentIsUnavailable w.dev.dev fFlags ≠ 0 →
      hasFlag fFlags oNonblock = false →
      CddDriver.openBody (some data) fFlags w.dev = some (w'.dev, .waiting) →
      Moves op w w' (.openBody fFlags (some data)) (.waitUnlock fFlags)
  /-- An open that has slept finds content. -/
  | wakes {fFlags : Nat} {data : Nat → Byte} :
      op = .openFile fFlags (some data) →
      contentIsUnavailable w.dev.dev fFlags = 0 →
      openCommit fFlags w.dev = some w'.dev →
      Moves op w w' (.waitTest fFlags) (.openUnlock 0)
  /-- An ioctl hands out what the static buffer holds. -/
  | copies {via ioctlNum uncopied : Nat} {cmd : UsageCmd} {text : List Char}
      {retval : Int} :
      op = .ioctl via ioctlNum uncopied → ioctlCmd ioctlNum = some cmd →
      w' = w → text = w.retbuf ++ ['\x00'] →
      retval = (if min uncopied text.length ≠ 0 then -efault else 0) →
      Moves op w w' (.ioctlCopy cmd uncopied)
        (.ioctlUnlock retval (text.take (text.length - min uncopied text.length)))

theorem Moves.wait {op : Op} {w w' : Shared} {pc pc' : Pc} (hw : w'.dev = w.dev)
    (hresult : pc'.result? = pc.result?) (hflags : pc.waitFlags ≠ none) :
    Moves op w w' pc pc' :=
  .same hw hresult fun _ => hflags

theorem Moves.keep {op : Op} {w w' : Shared} {pc pc' : Pc} (hw : w'.dev = w.dev)
    (hresult : pc'.result? = pc.result?) (hflags : pc'.waitFlags = none) :
    Moves op w w' pc pc' :=
  .same hw hresult fun h => absurd hflags h

theorem Moves.openBody {op : Op} {w w' : Shared} {fFlags : Nat}
    {fresh : Option (Nat → Byte)} {pc' : Pc} {r : Int}
    (hat : Op.At op (.openBody fFlags fresh))
    (hresult : pc'.result? = some (.openFile r))
    (hopen : CddDriver.openBody fresh fFlags w.dev = some (w'.dev, .returned r)) :
    Moves op w w' (.openBody fFlags fresh) pc' := by
  cases hat with
  | waiting hflags _ => cases hflags
  | openBody =>
      refine .serves rfl hresult ?_ (serve_openFile.mpr ⟨r, hopen, rfl⟩)
      intro fFlags' fresh' heq
      cases heq
      rfl

theorem Op.At.waits {op : Op} {fFlags : Nat} {pc : Pc} (hat : Op.At op pc)
    (hflags : pc.waitFlags = some fFlags) :
    (∃ data, op = .openFile fFlags (some data)) ∧
      (pc ≠ .waitUnlock fFlags → hasFlag fFlags oNonblock = false) := by
  cases hat with
  | @waiting _ data _ h hor =>
      obtain rfl := Option.some.inj (h.symm.trans hflags)
      exact ⟨⟨data, rfl⟩, hor.resolve_left⟩
  | _ => cases hflags

theorem Pc.step_moves {op : Op} {pc pc' : Pc} {locked signalPending : Bool}
    {w w' : Shared} {es : List SyncEvent} (hat : Op.At op pc)
    (hlocked : pc.wants = some .write → locked = true)
    (hsignal : signalPending = false)
    (h : pc.step locked signalPending w = some (es, w', pc')) :
    Moves op w w' pc pc' := by
  cases Pc.steps_of_step h with
  | openRefused hno => simp [hlocked rfl] at hno
  | waitRefused hno => simp [hlocked rfl] at hno
  | writeRefused hno => simp [hlocked rfl] at hno
  | waitSignalled hyes => simp [hsignal] at hyes
  | openNoMemory hopen => exact .openBody hat rfl hopen
  | openFilled hopen => exact .openBody hat rfl hopen
  | @openEmpty fFlags data s hun hopen =>
      cases hnonblock : hasFlag fFlags oNonblock with
      | true =>
          refine .openBody hat (r := -eagain) ?_ ?_
          · simp [Pc.result?, hnonblock]
          · simpa [Pc.openStatus, hnonblock] using hopen
      | false =>
          cases hat with
          | waiting hflags _ => cases hflags
          | openBody =>
              refine .sleeps rfl hun hnonblock ?_
              simpa [Pc.openStatus, hnonblock] using hopen
  | waitGivesUp hnonblock =>
      exact .keep rfl (by simp [Pc.result?, hnonblock]) rfl
  | waitUnlocks hblocks =>
      exact .wait rfl (by simp [Pc.result?, hblocks]) (Option.some_ne_none _)
  | waitQueues => exact .wait rfl rfl (Option.some_ne_none _)
  | waitSleeps => exact .wait rfl rfl (Option.some_ne_none _)
  | waitStays => exact .wait rfl rfl (Option.some_ne_none _)
  | waitAwakes => exact .wait rfl rfl (Option.some_ne_none _)
  | waitDequeues => exact .wait rfl rfl (Option.some_ne_none _)
  | waitUnsignalled => exact .wait rfl rfl (Option.some_ne_none _)
  | waitRelocked => exact .wait rfl rfl (Option.some_ne_none _)
  | waitAgain =>
      have hblocks := (hat.waits rfl).2 Pc.noConfusion
      exact .wait rfl (by simp [Pc.result?, hblocks]) (Option.some_ne_none _)
  | waitEnds hcontent hcommit =>
      obtain ⟨data, hop⟩ := (hat.waits rfl).1
      exact .wakes hop hcontent hcommit
  | readCopies hread =>
      cases hat with
      | waiting hflags _ => cases hflags
      | readBody =>
          refine .serves rfl rfl (fun _ _ hop => (by cases hop)) ?_
          simp [Op.serve, cddRead, hread]
  | writeStores hwrite =>
      cases hat with
      | waiting hflags _ => cases hflags
      | writeBody =>
          refine .serves rfl rfl (fun _ _ hop => (by cases hop)) ?_
          simp [Op.serve, cddWrite, hwrite]
  | ioctlUnknown hcmd =>
      cases hat with
      | waiting hflags _ => cases hflags
      | ioctlSwitch =>
          refine .serves rfl rfl (fun _ _ hop => (by cases hop)) ?_
          simp [Op.serve, cddIoctl, hcmd]
  | ioctlCopies htext =>
      cases hat with
      | waiting hflags _ => cases hflags
      | ioctlCopy hcmd => exact .copies rfl hcmd rfl htext rfl
  | _ => exact .keep rfl rfl rfl

end CddDriver
