import CddDriver.Contention
import CddDriver.Lib.Sync
import CddDriver.Load
import CddDriver.Serial
import Mathlib.Tactic.Common
/-!
# Usage reports of many callers

Calls of any number of processes on all devices, among them reads of the
entries of `/proc/CDD`.  The strings of a report pass through `retbuf` of
`get_CDD_usage` and through `result1` to `result3` of `readproc_CDD2`, which
are static: the semaphore of one device does not keep callers on other devices,
or other readers, away from them.  A report is right as long as no caller
overwrites a string that another one has still to copy.
-/

namespace CddDriver

open Lib

/-! ## readproc_CDD2, string by string -/

/-- What all callers share: the devices with the records of `/proc`, and the
static strings; `results cmd` is `result1`, `result2` or `result3`. -/
structure UsageShared where
  world : World
  retbuf : List Char
  results : UsageCmd → List Char

structure Report where
  devfname : List Char
  usrsp : Minor
  minor : Minor
  len : Nat
  old : List Char

inductive ReportPc where
  | lookup (devfname : List Char) (len : Nat) (old : List Char)
  | lock (r : Report)
  | test (r : Report)
  | usage (r : Report) (cmd : UsageCmd)
  | strcpy (r : Report) (cmd : UsageCmd)
  | snprintf (r : Report)
  | unlock (r : Report) (retval : Int) (buf : List Char)
  | done (retval : Int) (buf : List Char)

def reportText (r : Report) (results : UsageCmd → List Char) (p : ProcState) :
    List Char :=
  "Mode: ".toList ++
    (if (p.procs r.usrsp).procflag then "Written" else "Readable").toList ++
    ['\n'] ++ r.devfname ++ ['('] ++ formatInt r.minor ++
    ") Group Number: ".toList ++ formatInt 42 ++ ['\n'] ++
    "Team Members: ".toList ++ "Mike Mehr".toList ++ ", ".toList ++
    procvalueString p r.usrsp ++ ['\n'] ++
    results .devsize ++ ['\n'] ++
    results .devused ++ ['\n'] ++
    results .devopens ++ ['\n']

def ReportPc.afterCopy (r : Report) : UsageCmd → ReportPc
  | .devsize => .usage r .devused
  | .devused => .usage r .devopens
  | .devopens => .snprintf r

def ReportPc.step (locked : Bool) (w : UsageShared) :
    ReportPc → Option (List SyncEvent × UsageShared × ReportPc)
  | .lookup devfname len old =>
      match lookupCDDdproc devfname w.world.proc with
      | none => some ([], w, .done (-einval) old)
      | some m =>
          some ([], w, .lock ⟨devfname, m, (w.world.proc.procs m).minor, len, old⟩)
  | .lock r =>
      if locked then some ([.acquire .read], w, .test r)
      else some ([], w, .done (-erestartsys) r.old)
  | .test r =>
      if w.world.proc.eof then
        let proc := { w.world.proc with eof := false }
        some ([], { w with world := { w.world with proc } }, .unlock r 0 r.old)
      else some ([], w, .usage r .devsize)
  | .usage r cmd =>
      some ([], { w with retbuf := getCDDUsage cmd (w.world.cddDev r.minor) },
        .strcpy r cmd)
  | .strcpy r cmd =>
      some ([], { w with results := Function.update w.results cmd w.retbuf },
        .afterCopy r cmd)
  | .snprintf r =>
      let buf := snprintfString r.len (reportText r w.results w.world.proc) r.old
      let proc := updateProc r.usrsp (fun q => { q with procflag := false })
        { w.world.proc with eof := true }
      some ([], { w with world := { w.world with proc } },
        .unlock r (toInt buf.length) buf)
  | .unlock _ retval buf => some ([.release .read], w, .done retval buf)
  | .done _ _ => none

def ReportPc.view : ReportPc → SyncView
  | .test _ | .usage _ _ | .strcpy _ _ | .snprintf _ | .unlock _ _ _ =>
      .holding .read
  | _ => .idle

def ReportPc.record : ReportPc → Option Report
  | .lookup _ _ _ | .done _ _ => none
  | .lock r | .test r | .usage r _ | .strcpy r _ | .snprintf r
  | .unlock r _ _ => some r

def ReportPc.device (pc : ReportPc) : Option Minor := pc.record.map Report.minor

inductive ReportPc.Steps (locked : Bool) (w : UsageShared) :
    ReportPc → List SyncEvent → UsageShared → ReportPc → Prop where
  | unknown {devfname : List Char} {len : Nat} {old : List Char} :
      lookupCDDdproc devfname w.world.proc = none →
      Steps locked w (.lookup devfname len old) [] w (.done (-einval) old)
  | found {devfname : List Char} {len : Nat} {old : List Char} {m : Minor} :
      lookupCDDdproc devfname w.world.proc = some m →
      Steps locked w (.lookup devfname len old) [] w
        (.lock ⟨devfname, m, (w.world.proc.procs m).minor, len, old⟩)
  | locked {r : Report} : locked = true →
      Steps locked w (.lock r) [.acquire .read] w (.test r)
  | refused {r : Report} : locked = false →
      Steps locked w (.lock r) [] w (.done (-erestartsys) r.old)
  | atEof {r : Report} {proc : ProcState} :
      proc = { w.world.proc with eof := false } →
      Steps locked w (.test r) [] { w with world := { w.world with proc } }
        (.unlock r 0 r.old)
  | starts {r : Report} :
      Steps locked w (.test r) [] w (.usage r .devsize)
  | fills {r : Report} {cmd : UsageCmd} :
      Steps locked w (.usage r cmd) []
        { w with retbuf := getCDDUsage cmd (w.world.cddDev r.minor) }
        (.strcpy r cmd)
  | copies {r : Report} {cmd : UsageCmd} :
      Steps locked w (.strcpy r cmd) []
        { w with results := Function.update w.results cmd w.retbuf }
        (.afterCopy r cmd)
  | formats {r : Report} {buf : List Char} {proc : ProcState} :
      buf = snprintfString r.len (reportText r w.results w.world.proc) r.old →
      proc = updateProc r.usrsp (fun q => { q with procflag := false })
        { w.world.proc with eof := true } →
      Steps locked w (.snprintf r) [] { w with world := { w.world with proc } }
        (.unlock r (toInt buf.length) buf)
  | returns {r : Report} {retval : Int} {buf : List Char} :
      Steps locked w (.unlock r retval buf) [.release .read] w
        (.done retval buf)

theorem ReportPc.steps_of_step {locked : Bool} {w w' : UsageShared}
    {pc pc' : ReportPc} {es : List SyncEvent}
    (h : pc.step locked w = some (es, w', pc')) :
    ReportPc.Steps locked w pc es w' pc' := by
  cases pc with
  | lookup devfname len old =>
      simp only [ReportPc.step] at h
      split at h
      next hlookup =>
        cases h
        exact .unknown hlookup
      next m hlookup =>
        cases h
        exact .found hlookup
  | lock r =>
      cases locked <;> cases h
      · exact .refused rfl
      · exact .locked rfl
  | test r =>
      simp only [ReportPc.step] at h
      split at h <;> cases h
      · exact .atEof rfl
      · exact .starts
  | snprintf r =>
      cases h
      exact .formats rfl rfl
  | done retval buf => cases h
  | _ =>
      cases h
      constructor

theorem reportAlone_readprocCDD2 (locked : Bool) (devfname : List Char)
    (len : Nat) (old : List Char) (w : UsageShared) :
    ∃ n w', (stepper fun w (pc : ReportPc) => pc.step locked w).Run
      (w, .lookup devfname len old) (List.replicate n ())
      (w', .done
        (readprocCDD2 locked devfname len old w.world.cddDev w.world.proc).1
        (readprocCDD2 locked devfname len old w.world.cddDev w.world.proc).2.1) ∧
      w'.world = { w.world with proc :=
        (readprocCDD2 locked devfname len old w.world.cddDev
          w.world.proc).2.2 } := by
  unfold readprocCDD2
  cases hlookup : lookupCDDdproc devfname w.world.proc with
  | none =>
      have hstep : ReportPc.step locked w (.lookup devfname len old) =
          some ([], w, .done (-einval) old) := by
        simp only [ReportPc.step, hlookup]
      exact ⟨1, w, stepper_cons hstep (.nil _), rfl⟩
  | some m =>
      have hstep : ReportPc.step locked w (.lookup devfname len old) =
          some ([], w,
            .lock ⟨devfname, m, (w.world.proc.procs m).minor, len, old⟩) := by
        simp only [ReportPc.step, hlookup]
      cases locked with
      | false => exact ⟨2, w, stepper_cons hstep (stepper_cons rfl (.nil _)), rfl⟩
      | true =>
          simp only [Bool.not_true, Bool.false_eq_true, if_false, readprocBody]
          cases heof : w.world.proc.eof with
          | true =>
              have htest : ∀ r : Report, ReportPc.step true w (.test r) =
                  some ([], { w with world := { w.world with proc :=
                    { w.world.proc with eof := false } } }, .unlock r 0 r.old) := by
                intro r
                simp only [ReportPc.step, heof, if_true]
              simp only [if_true]
              apply Exists.intro 4
              apply Exists.intro
              constructor
              · refine stepper_cons hstep (stepper_cons rfl ?_)
                exact stepper_cons (htest _) (stepper_cons rfl (.nil _))
              · rfl
          | false =>
              have htest : ∀ r : Report, ReportPc.step true w (.test r) =
                  some ([], w, .usage r .devsize) := by
                intro r
                simp only [ReportPc.step, heof]
                rfl
              simp only [Bool.false_eq_true, if_false]
              apply Exists.intro 11
              apply Exists.intro
              constructor
              · refine stepper_cons hstep (stepper_cons rfl ?_)
                refine stepper_cons (htest _) ?_
                -- three times: fill `retbuf`, copy it
                refine stepper_cons rfl (stepper_cons rfl ?_)
                refine stepper_cons rfl (stepper_cons rfl ?_)
                refine stepper_cons rfl (stepper_cons rfl ?_)
                exact stepper_cons rfl (stepper_cons rfl (.nil _))
              · rfl

/-! ## Callers -/

/-- One of the other four calls, on the device `m`, or a `/proc` read. -/
inductive Caller where
  | file (m : Minor) (pc : Pc)
  | report (pc : ReportPc)

def Caller.view : Caller → SyncView
  | .file _ pc => pc.view
  | .report pc => pc.view

def Caller.device : Caller → Option Minor
  | .file m _ => some m
  | .report pc => pc.device

def Caller.wants : Caller → Option LockMode
  | .file _ pc => pc.wants
  | .report (.lock _) => some .read
  | .report _ => none

def Caller.step (locked signalPending : Bool) (w : UsageShared) :
    Caller → Option (List SyncEvent × UsageShared × Caller)
  | .file m pc =>
      (pc.step locked signalPending ⟨w.world.devState m, w.retbuf⟩).map fun r =>
        (r.1, { w with
          world := w.world.setDevState m r.2.1.dev, retbuf := r.2.1.retbuf },
          .file m r.2.2)
  | .report pc =>
      (pc.step locked w).map fun r => (r.1, r.2.1, .report r.2.2)

inductive Caller.Steps (locked signalPending : Bool) (w : UsageShared) :
    Caller → List SyncEvent → UsageShared → Caller → Prop where
  | file {m : Minor} {pc pc' : Pc} {es : List SyncEvent} {u : Shared} :
      pc.step locked signalPending ⟨w.world.devState m, w.retbuf⟩ =
        some (es, u, pc') →
      Steps locked signalPending w (.file m pc) es
        { w with world := w.world.setDevState m u.dev, retbuf := u.retbuf }
        (.file m pc')
  | report {pc pc' : ReportPc} {es : List SyncEvent} {w' : UsageShared} :
      pc.step locked w = some (es, w', pc') →
      Steps locked signalPending w (.report pc) es w' (.report pc')

theorem Caller.steps_of_step {locked signalPending : Bool} {w w' : UsageShared}
    {c c' : Caller} {es : List SyncEvent}
    (h : c.step locked signalPending w = some (es, w', c')) :
    Caller.Steps locked signalPending w c es w' c' := by
  cases c with
  | file m pc =>
      obtain ⟨⟨es, u, pc'⟩, hstep, heq⟩ := Option.map_eq_some_iff.mp h
      cases heq
      exact .file hstep
  | report pc =>
      obtain ⟨⟨es, w', pc'⟩, hstep, heq⟩ := Option.map_eq_some_iff.mp h
      cases heq
      exact .report hstep

/-- The semaphore of each device, and the callers.  What the VFS checks of the
arguments is left out; it would only make for fewer runs. -/
structure Usage where
  shared : UsageShared
  sems : Minor → RwSem Nat
  callers : Nat → Caller

structure UsageTurn where
  p : Nat
  signalPending : Bool

namespace Usage

def granted (y : Usage) (c : Caller) : Bool :=
  match c.device, c.wants with
  | some m, some mode => (y.sems m).grants mode
  | _, _ => false

def emit (p : Nat) (device : Option Minor) (es : List SyncEvent)
    (sems : Minor → RwSem Nat) : Minor → RwSem Nat :=
  match device with
  | some m => Function.update sems m (es.foldl (fun sem e => sem.apply p e) (sems m))
  | none => sems

def step (y : Usage) (t : UsageTurn) : Option (Usage × Unit) :=
  let c := y.callers t.p
  (c.step (y.granted c) t.signalPending y.shared).map fun r =>
    (⟨r.2.1, emit t.p c.device r.1 y.sems,
      Function.update y.callers t.p r.2.2⟩, ())

end Usage

def usage : Machine Usage UsageTurn Unit := ⟨Usage.step⟩

/-- A call with its arguments: an open, read, write or ioctl of the device `m`,
or a read of `/proc/CDD/<devfname>` into a buffer of `len` bytes with the string
`old` in it. -/
inductive UsageCall where
  | file (m : Minor) (op : Op)
  | readproc (devfname : List Char) (len : Nat) (old : List Char)

def UsageCall.start : UsageCall → Caller
  | .file m op => .file m op.start
  | .readproc devfname len old => .report (.lookup devfname len old)

def Usage.start (calls : Nat → UsageCall) (w : UsageShared) : Usage where
  shared := w
  sems _ := RwSem.free
  callers p := (calls p).start

theorem usage_step {y z : Usage} {t : UsageTurn} {o : Unit}
    (h : usage.step y t = some (z, o)) :
    ∃ es c', (y.callers t.p).step (y.granted (y.callers t.p)) t.signalPending
        y.shared = some (es, z.shared, c') ∧
      z.callers = Function.update y.callers t.p c' ∧
      z.sems = Usage.emit t.p (y.callers t.p).device es y.sems := by
  have h : Usage.step y t = some (z, o) := h
  simp only [Usage.step] at h
  obtain ⟨⟨es, w, c'⟩, hstep, heq⟩ := Option.map_eq_some_iff.mp h
  obtain ⟨rfl, -⟩ := Prod.mk.inj heq
  exact ⟨es, c', hstep, rfl, rfl⟩

/-! ## The semaphores -/

def Caller.holds (c : Caller) (m : Minor) : Option LockMode :=
  if c.device = some m then c.view.held else none

theorem Caller.holds_of_idle {c : Caller} (h : c.view.held = none) (m : Minor) :
    c.holds m = none := by
  simp [Caller.holds, h]

structure Caller.Emits (locked : Bool) (c c' : Caller) (m : Minor)
    (e : SyncEvent) : Prop where
  device : c.device = some m
  next : ∃ v, c.view.next e = some v ∧ c'.holds m = v.held
  granted : ∀ mode, e = .acquire mode → c.wants = some mode ∧ locked = true
  others : ∀ k, k ≠ m → c'.holds k = c.holds k

theorem Caller.step_emits {locked signalPending : Bool} {w w' : UsageShared}
    {c c' : Caller} {es : List SyncEvent}
    (h : c.step locked signalPending w = some (es, w', c')) :
    (es = [] ∧ ∀ m, c'.holds m = c.holds m) ∨
      ∃ m e, es = [e] ∧ c.Emits locked c' m e := by
  cases Caller.steps_of_step h with
  | @file m pc pc' es u hstep =>
      have hview := Pc.step_view hstep
      rcases Pc.step_event hstep with rfl | ⟨e, rfl, hgrant, -⟩
      · have hsame : pc.view = pc'.view := Option.some.inj hview
        refine .inl ⟨rfl, fun k => ?_⟩
        simp [Caller.holds, Caller.device, Caller.view, hsame]
      · obtain ⟨v, hnext, hv⟩ := Option.bind_eq_some_iff.mp hview
        obtain rfl : v = pc'.view := Option.some.inj hv
        refine .inr ⟨m, e, rfl, rfl, ⟨pc'.view, hnext, ?_⟩, hgrant, ?_⟩
        · simp [Caller.holds, Caller.device, Caller.view]
        · intro k hk
          simp [Caller.holds, Caller.device, Ne.symm hk]
  | report hstep =>
      cases ReportPc.steps_of_step hstep with
      | locked hlocked =>
          refine .inr ⟨_, _, rfl, rfl, ⟨.holding .read, rfl, ?_⟩, ?_, ?_⟩
          · exact if_pos rfl
          · rintro mode ⟨⟩
            exact ⟨rfl, hlocked⟩
          · intro k hk
            simp [Caller.holds, Caller.device, ReportPc.device,
              ReportPc.record, Ne.symm hk]
      | returns =>
          refine .inr ⟨_, _, rfl, rfl, ⟨.idle, rfl, ?_⟩, ?_, ?_⟩
          · exact Caller.holds_of_idle rfl _
          · rintro mode ⟨⟩
          · intro k hk
            simp [Caller.holds, Caller.device, ReportPc.device,
              ReportPc.record, Ne.symm hk]
      | unknown => exact .inl ⟨rfl, fun _ => rfl⟩
      | found =>
          refine .inl ⟨rfl, fun k => ?_⟩
          rw [Caller.holds_of_idle rfl, Caller.holds_of_idle rfl]
      | refused =>
          refine .inl ⟨rfl, fun k => ?_⟩
          rw [Caller.holds_of_idle rfl, Caller.holds_of_idle rfl]
      | @copies r cmd => exact .inl ⟨rfl, fun _ => by cases cmd <;> rfl⟩
      | _ => exact .inl ⟨rfl, fun _ => rfl⟩

def Usage.SemsReflect (y : Usage) : Prop :=
  ∀ m, (y.sems m).Reflects fun p => (y.callers p).holds m

theorem semsReflect_start (calls : Nat → UsageCall) (w : UsageShared) :
    (Usage.start calls w).SemsReflect := by
  intro m
  have hidle : ∀ p, ((Usage.start calls w).callers p).holds m = none := by
    intro p
    apply Caller.holds_of_idle
    simp only [Usage.start]
    cases calls p with
    | file k op => cases op <;> rfl
    | readproc devfname len old => rfl
  simp only [hidle]
  exact RwSem.Reflects.free

theorem Usage.SemsReflect.step {y z : Usage} {t : UsageTurn} {o : Unit}
    (h : y.SemsReflect) (hstep : usage.step y t = some (z, o)) :
    z.SemsReflect := by
  obtain ⟨es, c', hmove, hcallers, hsems⟩ := usage_step hstep
  intro m
  have hupdate : (fun p => (z.callers p).holds m) =
      Function.update (fun p => (y.callers p).holds m) t.p (c'.holds m) := by
    funext q
    rw [hcallers]
    by_cases hq : q = t.p
    · subst hq
      simp
    · simp [Function.update_of_ne hq]
  rw [hupdate, hsems]
  rcases Caller.step_emits hmove with ⟨rfl, hsame⟩ | ⟨k, e, rfl, hemits⟩
  · have hkept : Usage.emit t.p (y.callers t.p).device [] y.sems = y.sems := by
      cases hdevice : (y.callers t.p).device with
      | none => rfl
      | some k => exact Function.update_eq_self k y.sems
    rw [hkept, hsame m, Function.update_eq_self]
    exact h m
  · simp only [hemits.device, Usage.emit, List.foldl_cons, List.foldl_nil]
    by_cases hm : m = k
    · subst hm
      obtain ⟨v, hnext, hv⟩ := hemits.next
      rw [Function.update_self, hv]
      refine (h m).apply ?_ hnext fun mode he => ?_
      · exact if_pos hemits.device
      · obtain ⟨hwants, hgranted⟩ := hemits.granted mode he
        simpa only [Usage.granted, hemits.device, hwants] using hgranted
    · rw [Function.update_of_ne hm, hemits.others m hm, Function.update_eq_self]
      exact h m

end CddDriver
