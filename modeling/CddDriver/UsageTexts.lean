import CddDriver.UsageStrings
import Mathlib.Tactic.Common
/-!
# Whose text a caller receives

An ioctl receives what `retbuf` holds when it copies, and a `/proc` read formats
what `result1` to `result3` hold.  Over whole runs, each caller receives the text
for its own device and command if no string is overwritten with a different one.
-/

namespace CddDriver

open Lib

/-! ## Callers and their calls -/

/-- The caller is at a point of its call, and a `/proc` read has found the
record of the name it was called with. -/
inductive UsageCall.At (proc : ProcState) : UsageCall → Caller → Prop where
  | file {m : Minor} {op : Op} {pc : Pc} :
      (∀ via ioctlNum uncopied, op = .ioctl via ioctlNum uncopied →
        Op.At op pc) →
      UsageCall.At proc (.file m op) (.file m pc)
  | lookup {devfname : List Char} {len : Nat} {old : List Char} :
      UsageCall.At proc (.readproc devfname len old)
        (.report (.lookup devfname len old))
  | found {r : Report} {pc : ReportPc} : pc.record = some r →
      lookupCDDdproc r.devfname proc = some r.usrsp →
      (proc.procs r.usrsp).minor = r.minor →
      UsageCall.At proc (.readproc r.devfname r.len r.old) (.report pc)
  | returned {devfname : List Char} {len : Nat} {old : List Char} {retval : Int}
      {buf : List Char} :
      UsageCall.At proc (.readproc devfname len old)
        (.report (.done retval buf))

theorem UsageCall.at_start (proc : ProcState) (call : UsageCall) :
    call.At proc call.start := by
  cases call with
  | file m op => exact .file fun _ _ _ _ => Op.at_start op
  | readproc devfname len old => exact .lookup

theorem Op.At.step_ioctl {via ioctlNum uncopied : Nat} {pc pc' : Pc}
    {locked signalPending : Bool} {w w' : Shared} {es : List SyncEvent}
    (hat : Op.At (.ioctl via ioctlNum uncopied) pc)
    (h : pc.step locked signalPending w = some (es, w', pc')) :
    Op.At (.ioctl via ioctlNum uncopied) pc' := by
  cases hat with
  | ioctlSwitch =>
      cases Pc.steps_of_step h with
      | ioctlKnown hcmd => exact .ioctlLock hcmd
      | ioctlUnknown => exact .ioctlDone
  | ioctlLock hcmd =>
      cases Pc.steps_of_step h
      exact .ioctlUsage hcmd
  | ioctlUsage hcmd =>
      cases Pc.steps_of_step h
      exact .ioctlCopy hcmd
  | ioctlCopy =>
      cases Pc.steps_of_step h
      exact .ioctlUnlock
  | ioctlUnlock =>
      cases Pc.steps_of_step h
      exact .ioctlDone
  | ioctlDone => cases h

theorem ReportPc.step_record {locked : Bool} {w w' : UsageShared}
    {pc pc' : ReportPc} {es : List SyncEvent} {r : Report}
    (h : pc.step locked w = some (es, w', pc')) (hr : pc.record = some r) :
    pc'.record = some r ∨ ∃ retval buf, pc' = .done retval buf := by
  cases ReportPc.steps_of_step h with
  | unknown => cases hr
  | found => cases hr
  | refused => exact .inr ⟨_, _, rfl⟩
  | returns => exact .inr ⟨_, _, rfl⟩
  | @copies r cmd => cases cmd <;> exact .inl hr
  | _ => exact .inl hr

section Step

variable {locked signalPending : Bool} {w w' : UsageShared} {c c' : Caller}
  {es : List SyncEvent}

theorem UsageCall.At.kept {call : UsageCall} {d : Caller}
    (hat : call.At w.world.proc d)
    (h : c.step locked signalPending w = some (es, w', c')) :
    call.At w'.world.proc d := by
  cases hat with
  | file hop => exact .file hop
  | lookup => exact .lookup
  | found hr hlookup hminor =>
      refine .found hr ?_ ?_
      · rw [Caller.step_lookup h]
        exact hlookup
      · rw [(Caller.step_records h _).2]
        exact hminor
  | returned => exact .returned

theorem UsageCall.At.step {call : UsageCall} (hat : call.At w.world.proc c)
    (h : c.step locked signalPending w = some (es, w', c')) :
    call.At w'.world.proc c' := by
  have hkept := hat.kept h
  cases Caller.steps_of_step h with
  | @file m pc pc' es u hstep =>
      cases hat with
      | file hop =>
          refine .file ?_
          rintro via ioctlNum uncopied rfl
          exact (hop via ioctlNum uncopied rfl).step_ioctl hstep
  | report hstep =>
      cases hkept with
      | @lookup devfname len old =>
          cases ReportPc.steps_of_step hstep with
          | unknown => exact .returned
          | found hlookup =>
              exact .found (r := ⟨devfname, _, _, len, old⟩) rfl hlookup rfl
      | found hr hlookup hminor =>
          rcases ReportPc.step_record hstep hr with hr' | ⟨retval, buf, rfl⟩
          · exact .found hr' hlookup hminor
          · exact .returned
      | returned => cases hstep

end Step

/-! ## The text that a caller receives -/

def ReportPc.result? : ReportPc → Option (Int × List Char)
  | .unlock _ retval buf | .done retval buf => some (retval, buf)
  | _ => none

/-- At some moment of the run `ts` from `s`, the caller `p` held the semaphore
of the device `m` for reading and the world satisfied `Q`. -/
def During (s : Usage) (ts : List UsageTurn) (p : Nat) (m : Minor)
    (Q : World → Prop) : Prop :=
  ∃ before after u, ts = before ++ after ∧ usage.Run s before u ∧
    (u.callers p).holds m = some .read ∧ Q u.shared.world

/-- After the run `ts` from `s`, every ioctl that has its text has got the one
for its command on its device at a moment of its call; and every `/proc` read
that has got a text has got the report on the device it asked for, likewise. -/
structure OwnTexts (calls : Nat → UsageCall) (s : Usage) (ts : List UsageTurn)
    (z : Usage) : Prop where
  ioctl : ∀ p m via ioctlNum uncopied pc retval text,
    calls p = .file m (.ioctl via ioctlNum uncopied) →
    ioctlCmd ioctlNum ≠ none → z.callers p = .file m pc →
    pc.result? = some (.ioctl retval text) →
    During s ts p m fun w =>
      (retval, text) = cddIoctl ioctlNum uncopied (w.cddDev m)
  readproc : ∀ p devfname len old pc retval buf,
    calls p = .readproc devfname len old → z.callers p = .report pc →
    pc.result? = some (retval, buf) → (retval ≤ 0 ∧ buf = old) ∨
      ∃ m minor, During s ts p minor fun w =>
        lookupCDDdproc devfname w.proc = some m ∧
        (w.proc.procs m).minor = minor ∧ retval = toInt buf.length ∧
        buf = snprintfString len
          (procReport devfname m (w.cddDev minor) w.proc) old

theorem During.snoc {s : Usage} {ts : List UsageTurn} {p : Nat} {m : Minor}
    {Q : World → Prop} (h : During s ts p m Q) (t : UsageTurn) :
    During s (ts ++ [t]) p m Q := by
  obtain ⟨before, after, u, rfl, hrun, hholds, hQ⟩ := h
  exact ⟨before, after ++ [t], u, List.append_assoc .., hrun, hholds, hQ⟩

theorem Op.At.ioctl_settles {via ioctlNum uncopied : Nat} {pc pc' : Pc}
    {locked signalPending : Bool} {w w' : Shared} {es : List SyncEvent}
    {retval : Int} {text : List Char}
    (hat : Op.At (.ioctl via ioctlNum uncopied) pc)
    (hknown : ioctlCmd ioctlNum ≠ none)
    (h : pc.step locked signalPending w = some (es, w', pc'))
    (hresult : pc'.result? = some (.ioctl retval text)) :
    pc.result? = some (.ioctl retval text) ∨
      ∃ cmd, pc = .ioctlCopy cmd uncopied ∧ ioctlCmd ioctlNum = some cmd ∧
        ∀ d, w.retbuf = getCDDUsage cmd d →
          (retval, text) = cddIoctl ioctlNum uncopied d := by
  cases hat with
  | ioctlSwitch =>
      cases Pc.steps_of_step h with
      | ioctlKnown => cases hresult
      | ioctlUnknown hcmd => exact absurd hcmd hknown
  | ioctlLock =>
      cases Pc.steps_of_step h
      cases hresult
  | ioctlUsage =>
      cases Pc.steps_of_step h
      cases hresult
  | @ioctlCopy _ _ _ cmd hcmd =>
      cases Pc.steps_of_step h with
      | ioctlCopies htext =>
          refine .inr ⟨cmd, rfl, hcmd, fun d hd => ?_⟩
          obtain ⟨rfl, rfl⟩ := Answer.ioctl.inj (Option.some.inj hresult)
          subst htext
          simp only [cddIoctl, hcmd, ioctlBody, hd]
  | ioctlUnlock =>
      cases Pc.steps_of_step h
      exact .inl hresult
  | ioctlDone => cases h

theorem UsageCall.At.report_settles {proc : ProcState} {devfname : List Char}
    {len : Nat} {old : List Char} {locked : Bool} {w w' : UsageShared}
    {pc pc' : ReportPc} {es : List SyncEvent} {retval : Int} {buf : List Char}
    (hat : UsageCall.At proc (.readproc devfname len old) (.report pc))
    (h : pc.step locked w = some (es, w', pc'))
    (hresult : pc'.result? = some (retval, buf)) :
    pc.result? = some (retval, buf) ∨ (retval ≤ 0 ∧ buf = old) ∨
      ∃ r, pc = .snprintf r ∧ retval = toInt buf.length ∧
        buf = snprintfString r.len (reportText r w.results w.world.proc) r.old := by
  cases hat with
  | lookup =>
      cases ReportPc.steps_of_step h with
      | unknown =>
          obtain ⟨rfl, rfl⟩ := Prod.mk.inj (Option.some.inj hresult)
          exact .inr (.inl ⟨by decide, rfl⟩)
      | found => cases hresult
  | found hr =>
      cases ReportPc.steps_of_step h with
      | unknown => cases hr
      | found => cases hr
      | refused =>
          obtain rfl := Option.some.inj hr
          obtain ⟨rfl, rfl⟩ := Prod.mk.inj (Option.some.inj hresult)
          exact .inr (.inl ⟨by decide, rfl⟩)
      | atEof =>
          obtain rfl := Option.some.inj hr
          obtain ⟨rfl, rfl⟩ := Prod.mk.inj (Option.some.inj hresult)
          exact .inr (.inl ⟨Int.le_refl 0, rfl⟩)
      | @copies r cmd => cases cmd <;> cases hresult
      | formats hbuf =>
          obtain ⟨rfl, rfl⟩ := Prod.mk.inj (Option.some.inj hresult)
          exact .inr (.inr ⟨_, rfl, rfl, hbuf⟩)
      | returns => exact .inl hresult
      | _ => cases hresult
  | returned => cases h

theorem reportText_own {r : Report} {results : UsageCmd → List Char} {d : CDDdev}
    {p : ProcState} (hown : ∀ cmd, results cmd = getCDDUsage cmd d)
    (hminor : (p.procs r.usrsp).minor = r.minor) :
    reportText r results p = procReport r.devfname r.usrsp d p := by
  unfold reportText procReport
  simp only [hown, hminor]

structure TakesInv (cmds : UsageCmd → Prop) (calls : Nat → UsageCall)
    (z : Usage) : Prop where
  sems : z.SemsReflect
  «at» : ∀ p, (calls p).At z.shared.world.proc (z.callers p)
  intact : Intact cmds z

structure TextInv (calls : Nat → UsageCall) (s : Usage) (ts : List UsageTurn)
    (z : Usage) : Prop where
  takes : TakesInv (fun _ => True) calls z
  own : OwnTexts calls s ts z

theorem takesInv_start (cmds : UsageCmd → Prop) (calls : Nat → UsageCall)
    (w : UsageShared) : TakesInv cmds calls (Usage.start calls w) :=
  ⟨semsReflect_start calls w, fun _ => UsageCall.at_start _ _,
    intact_start cmds calls w⟩

theorem start_result? {calls : Nat → UsageCall} {w : UsageShared} {p : Nat} :
    (∀ m pc, (Usage.start calls w).callers p = .file m pc → pc.result? = none) ∧
      ∀ pc, (Usage.start calls w).callers p = .report pc → pc.result? = none := by
  have hstart : (Usage.start calls w).callers p = (calls p).start := rfl
  rw [hstart]
  cases calls p with
  | file k op =>
      refine ⟨fun m pc hp => ?_, fun pc hp => (by cases hp)⟩
      obtain ⟨-, rfl⟩ := Caller.file.inj hp
      exact Op.start_result? op
  | readproc devfname len old =>
      refine ⟨fun m pc hp => (by cases hp), fun pc hp => ?_⟩
      obtain rfl := Caller.report.inj hp
      rfl

theorem textInv_start (calls : Nat → UsageCall) (w : UsageShared) :
    TextInv calls (Usage.start calls w) [] (Usage.start calls w) := by
  refine ⟨takesInv_start _ calls w, ?_, ?_⟩
  · intro p m via ioctlNum uncopied pc retval text _ _ hp hresult
    rw [start_result?.1 m pc hp] at hresult
    cases hresult
  · intro p devfname len old pc retval buf _ hp hresult
    rw [start_result?.2 pc hp] at hresult
    cases hresult

section Step

variable {cmds : UsageCmd → Prop} {calls : Nat → UsageCall} {s y z : Usage}
  {ts : List UsageTurn} {t : UsageTurn} {o : Unit}

theorem TakesInv.step (h : TakesInv cmds calls y)
    (hstep : usage.step y t = some (z, o)) (hapart : NoOverwrite cmds y t o z) :
    TakesInv cmds calls z := by
  obtain ⟨es, c', hmove, hcallers, -⟩ := usage_step hstep
  refine ⟨h.sems.step hstep, fun p => ?_, h.intact.step h.sems hstep hapart⟩
  rw [hcallers]
  by_cases hp : p = t.p
  · subst hp
    rw [Function.update_self]
    exact (h.at t.p).step hmove
  · rw [Function.update_of_ne hp]
    exact (h.at p).kept hmove

theorem TakesInv.ioctl_now (h : TakesInv cmds calls y)
    (hstep : usage.step y t = some (z, o)) {m : Minor}
    {via ioctlNum uncopied : Nat} {pc : Pc} {retval : Int} {text : List Char}
    (hcall : calls t.p = .file m (.ioctl via ioctlNum uncopied))
    (hknown : ioctlCmd ioctlNum ≠ none)
    (hcmds : ∀ cmd, ioctlCmd ioctlNum = some cmd → cmds cmd)
    (hp : z.callers t.p = .file m pc)
    (hresult : pc.result? = some (.ioctl retval text)) :
    (∃ pc', y.callers t.p = .file m pc' ∧
        pc'.result? = some (.ioctl retval text)) ∨
      ∃ cmd, y.callers t.p = .file m (.ioctlCopy cmd uncopied) ∧
        ioctlCmd ioctlNum = some cmd ∧
        (retval, text) = cddIoctl ioctlNum uncopied (y.shared.world.cddDev m) := by
  obtain ⟨es, c', hmove, hcallers, -⟩ := usage_step hstep
  rw [hcallers, Function.update_self] at hp
  subst hp
  have hat := h.at t.p
  rw [hcall] at hat
  cases hpc : y.callers t.p with
  | report pc => rw [hpc] at hat; cases hat
  | file k pc =>
      rw [hpc] at hat hmove
      generalize z.shared = w' at hmove
      cases hat with
      | file hop =>
          cases Caller.steps_of_step hmove with
          | file hpcstep =>
              rcases (hop _ _ _ rfl).ioctl_settles hknown hpcstep hresult with
                hbefore | ⟨cmd, rfl, hcmd, htext⟩
              · exact .inl ⟨pc, rfl, hbefore⟩
              · have hfilled : (y.callers t.p).filled = some (m, cmd) := by
                  rw [hpc]
                  rfl
                exact .inr ⟨cmd, rfl, hcmd,
                  htext _ (h.intact.retbuf _ _ _ (hcmds cmd hcmd) hfilled)⟩

theorem TextInv.ioctl_step (h : TextInv calls s ts y) (hrun : usage.Run s ts y)
    (hstep : usage.step y t = some (z, o)) {m : Minor}
    {via ioctlNum uncopied : Nat} {pc : Pc} {retval : Int} {text : List Char}
    (hcall : calls t.p = .file m (.ioctl via ioctlNum uncopied))
    (hknown : ioctlCmd ioctlNum ≠ none) (hp : z.callers t.p = .file m pc)
    (hresult : pc.result? = some (.ioctl retval text)) :
    During s (ts ++ [t]) t.p m fun w =>
      (retval, text) = cddIoctl ioctlNum uncopied (w.cddDev m) := by
  rcases h.takes.ioctl_now hstep hcall hknown (fun _ _ => trivial) hp hresult with
    ⟨pc', hpc, hbefore⟩ | ⟨cmd, hpc, -, htext⟩
  · exact (h.own.ioctl _ _ _ _ _ _ _ _ hcall hknown hpc hbefore).snoc t
  · have hfilled : (y.callers t.p).filled = some (m, cmd) := by
      rw [hpc]
      rfl
    exact ⟨ts, [t], y, rfl, hrun, Caller.holds_of_filled hfilled, htext⟩

/-- The `/proc` read that takes this turn has had its text before, gets none, or
formats it now; its strings for `cmds` tell of the device as it is. -/
theorem TakesInv.readproc_now (h : TakesInv cmds calls y)
    (hstep : usage.step y t = some (z, o)) {devfname : List Char} {len : Nat}
    {old : List Char} {pc : ReportPc} {retval : Int} {buf : List Char}
    (hcall : calls t.p = .readproc devfname len old)
    (hp : z.callers t.p = .report pc)
    (hresult : pc.result? = some (retval, buf)) :
    (∃ pc', y.callers t.p = .report pc' ∧ pc'.result? = some (retval, buf)) ∨
      (retval ≤ 0 ∧ buf = old) ∨
      ∃ m minor, y.callers t.p = .report (.snprintf ⟨devfname, m, minor, len, old⟩) ∧
        (y.callers t.p).holds minor = some .read ∧
        lookupCDDdproc devfname y.shared.world.proc = some m ∧
        (y.shared.world.proc.procs m).minor = minor ∧ retval = toInt buf.length ∧
        buf = snprintfString len (reportText ⟨devfname, m, minor, len, old⟩
          y.shared.results y.shared.world.proc) old ∧
        ∀ cmd, cmds cmd → y.shared.results cmd =
          getCDDUsage cmd (y.shared.world.cddDev minor) := by
  obtain ⟨es, c', hmove, hcallers, -⟩ := usage_step hstep
  rw [hcallers, Function.update_self] at hp
  subst hp
  have hat := h.at t.p
  rw [hcall] at hat
  cases hpc : y.callers t.p with
  | file k pc => rw [hpc] at hat; cases hat
  | report pc =>
      rw [hpc] at hat hmove
      cases Caller.steps_of_step hmove with
      | report hpcstep =>
          rcases hat.report_settles hpcstep hresult with
            hbefore | hnone | ⟨r, rfl, hretval, hbuf⟩
          · exact .inl ⟨pc, rfl, hbefore⟩
          · exact .inr (.inl hnone)
          · cases hat with
            | found hr hlookup hminor =>
                obtain rfl := Option.some.inj hr
                have hcopied : ∀ cmd, (y.callers t.p).copied cmd = some r.minor := by
                  intro cmd
                  rw [hpc]
                  rfl
                have hholds := Caller.holds_of_copied (hcopied .devsize)
                rw [hpc] at hholds
                exact .inr (.inr ⟨_, _, rfl, hholds, hlookup, hminor, hretval, hbuf,
                  fun cmd hcmd => h.intact.results _ _ _ hcmd (hcopied cmd)⟩)

theorem TextInv.readproc_step (h : TextInv calls s ts y)
    (hrun : usage.Run s ts y) (hstep : usage.step y t = some (z, o))
    {devfname : List Char} {len : Nat} {old : List Char} {pc : ReportPc}
    {retval : Int} {buf : List Char}
    (hcall : calls t.p = .readproc devfname len old)
    (hp : z.callers t.p = .report pc)
    (hresult : pc.result? = some (retval, buf)) :
    (retval ≤ 0 ∧ buf = old) ∨
      ∃ m minor, During s (ts ++ [t]) t.p minor fun w =>
        lookupCDDdproc devfname w.proc = some m ∧
        (w.proc.procs m).minor = minor ∧ retval = toInt buf.length ∧
        buf = snprintfString len
          (procReport devfname m (w.cddDev minor) w.proc) old := by
  rcases h.takes.readproc_now hstep hcall hp hresult with
    ⟨pc', hpc, hbefore⟩ | hnone |
      ⟨m, minor, -, hholds, hlookup, hminor, hretval, hbuf, hown⟩
  · rcases h.own.readproc _ _ _ _ _ _ _ hcall hpc hbefore with
      hnone | ⟨m, minor, hduring⟩
    · exact .inl hnone
    · exact .inr ⟨m, minor, hduring.snoc t⟩
  · exact .inl hnone
  · rw [reportText_own (fun cmd => hown cmd trivial) hminor] at hbuf
    exact .inr ⟨m, minor, ts, [t], y, rfl, hrun, hholds, hlookup, hminor, hretval,
      hbuf⟩

theorem TextInv.step (h : TextInv calls s ts y) (hrun : usage.Run s ts y)
    (hstep : usage.step y t = some (z, o))
    (hapart : NoOverwrite (fun _ => True) y t o z) :
    TextInv calls s (ts ++ [t]) z := by
  obtain ⟨es, c', -, hcallers, -⟩ := usage_step hstep
  refine ⟨h.takes.step hstep hapart, ?_, ?_⟩
  · intro p m via ioctlNum uncopied pc retval text hcall hknown hpc hresult
    by_cases hp : p = t.p
    · subst hp
      exact h.ioctl_step hrun hstep hcall hknown hpc hresult
    · rw [hcallers, Function.update_of_ne hp] at hpc
      exact (h.own.ioctl _ _ _ _ _ _ _ _ hcall hknown hpc hresult).snoc t
  · intro p devfname len old pc retval buf hcall hpc hresult
    by_cases hp : p = t.p
    · subst hp
      exact h.readproc_step hrun hstep hcall hpc hresult
    · rw [hcallers, Function.update_of_ne hp] at hpc
      rcases h.own.readproc _ _ _ _ _ _ _ hcall hpc hresult with
        hnone | ⟨m, minor, hduring⟩
      · exact .inl hnone
      · exact .inr ⟨m, minor, hduring.snoc t⟩

end Step

/-- In every run in which no text is overwritten with a different one before
its caller has taken it, every caller receives the text for its own command and
its own device, with the values at a moment of its call. -/
theorem ownTexts_of_noOverwrite {calls : Nat → UsageCall} {w : UsageShared}
    {ts : List UsageTurn} {z : Usage}
    (hrun : usage.Run (Usage.start calls w) ts z)
    (hapart : usage.EveryStep (NoOverwrite fun _ => True)
      (Usage.start calls w) ts) :
    OwnTexts calls (Usage.start calls w) ts z :=
  (Machine.Run.invariant_along
    (fun hprefix h hstep hc => TextInv.step h hprefix hstep hc) hrun hapart
    (textInv_start calls w)).own

/-! ### Runs of two devices -/

/-- Processes 0 and 1 open the devices `m` and `k` to write; through these files
processes 2 and 3 ask for the size of the first and the fill level of the
second.  All others read `/proc/CDD/CDD2`. -/
def twoDevices (m k : Minor) : Nat → UsageCall
  | 0 => .file m (.openFile oWronly (some fun _ => 0))
  | 1 => .file k (.openFile oWronly (some fun _ => 0))
  | 2 => .file m (.ioctl 0 (ior 0) 0)
  | 3 => .file k (.ioctl 1 (ior 1) 0)
  | _ => .readproc "CDD2".toList 4096 []

def UsageShared.loaded : UsageShared :=
  ⟨(CddDriver.loaded undisturbed).world, [], fun _ => []⟩

def turns (ps : List Nat) : List UsageTurn := ps.map fun p => ⟨p, false⟩

/-- Both ioctls and a `/proc` read hold their locks at once, but take their
texts one after another. -/
def oneByOne : List UsageTurn :=
  turns [0, 0, 0, 1, 1, 1, 2, 2, 3, 3, 4, 4, 2, 2, 3, 3, 4, 4, 4, 4, 4, 4, 4, 4,
    2, 3, 4]

/-- Process 3 fills `retbuf` before process 2 has copied its text. -/
def overlapping : List UsageTurn :=
  turns [0, 0, 0, 1, 1, 1, 2, 2, 2, 3, 3, 3, 2, 2]

def Usage.apart (n : Nat) (y : Usage) (t : UsageTurn) : Bool :=
  t.p < n && (List.range n).all fun q =>
    ((y.callers t.p).fills.isNone || (y.callers q).filled.isNone) &&
      match (y.callers t.p).copies with
      | some (_, cmd) => ((y.callers q).copied cmd).isNone
      | none => true

theorem noOverwrite_of_apart {n : Nat} {cmds : UsageCmd → Prop}
    {calls : Nat → UsageCall} {w : UsageShared} {ts : List UsageTurn}
    (h : usage.check (Usage.apart n) (Usage.start calls w) ts = true) :
    usage.EveryStep (NoOverwrite cmds) (Usage.start calls w) ts := by
  refine Machine.everyStep_of_invariant
    (I := fun y => ∀ q, n ≤ q → y.callers q = (calls q).start)
    (C := fun y t _ _ => y.apart n t = true) ?_ (fun q _ => rfl)
    (Machine.everyStep_of_check (fun _ _ _ _ hc => hc) h)
  intro y t z o hidle hstep hapart
  simp only [Usage.apart, Bool.and_eq_true, decide_eq_true_eq, List.all_eq_true,
    List.mem_range, Bool.or_eq_true, Option.isNone_iff_eq_none] at hapart
  obtain ⟨hn, hall⟩ := hapart
  refine ⟨⟨?_, ?_⟩, ?_⟩
  · intro m cmd hfills q m' cmd' _ hfilled
    by_cases hq : q < n
    · rcases (hall q hq).1 with hnone | hnone
      · cases hnone.symm.trans hfills
      · cases hnone.symm.trans hfilled
    · rw [hidle q (by omega), ((calls q).start_strings cmd).1] at hfilled
      cases hfilled
  · intro m cmd _ hcopies q m' hcopied
    by_cases hq : q < n
    · have hnone := (hall q hq).2
      rw [hcopies] at hnone
      rw [Option.isNone_iff_eq_none.mp hnone] at hcopied
      cases hcopied
    · rw [hidle q (by omega), ((calls q).start_strings cmd).2] at hcopied
      cases hcopied
  · obtain ⟨es, c', -, hcallers, -⟩ := usage_step hstep
    intro q hq
    rw [hcallers, Function.update_of_ne (by omega)]
    exact hidle q hq

def Caller.told : Caller → Option (Minor × Int × List Char)
  | .file m (.done (.ioctl retval text)) => some (m, retval, text)
  | _ => none

theorem ownTexts_of_noOverwrite_two_devices :
    ∃ z, usage.Run (Usage.start (twoDevices 0 1) .loaded) oneByOne z ∧
      (z.callers 2).told =
        some (0, 0, "Buffer Length - Allocated: 4096".toList ++ ['\x00']) ∧
      OwnTexts (twoDevices 0 1) (Usage.start (twoDevices 0 1) .loaded)
        oneByOne z := by
  have hruns : (usage.exec (Usage.start (twoDevices 0 1) .loaded) oneByOne).map
        (fun z => (z.callers 2).told) =
      some (some (0, 0,
        "Buffer Length - Allocated: 4096".toList ++ ['\x00'])) := by
    decide
  have hapart : usage.check (Usage.apart 5) (Usage.start (twoDevices 0 1) .loaded)
      oneByOne = true := by decide
  obtain ⟨z, hz, htold⟩ := Option.map_eq_some_iff.mp hruns
  have hrun := Machine.run_of_exec hz
  exact ⟨z, hrun, htold,
    ownTexts_of_noOverwrite hrun (noOverwrite_of_apart hapart)⟩

/-- Asked for the size of device 0, the driver answers with the fill level of
device 1. -/
theorem not_ownTexts_overwritten :
    ∃ z, usage.Run (Usage.start (twoDevices 0 1) .loaded) overlapping z ∧
      (z.callers 2).told =
        some (0, 0, "Buffer Length - Used: 0".toList ++ ['\x00']) ∧
      ¬ OwnTexts (twoDevices 0 1) (Usage.start (twoDevices 0 1) .loaded)
        overlapping z := by
  have hrun : (usage.exec (Usage.start (twoDevices 0 1) .loaded)
      overlapping).map (fun z => (z.callers 2).told) =
      some (some (0, 0, "Buffer Length - Used: 0".toList ++ ['\x00'])) := by
    decide
  obtain ⟨z, hz, htold⟩ := Option.map_eq_some_iff.mp hrun
  refine ⟨z, Machine.run_of_exec hz, htold, fun hown => ?_⟩
  have hdone : z.callers 2 = .file 0 (.done (.ioctl 0
      ("Buffer Length - Used: 0".toList ++ ['\x00']))) := by
    unfold Caller.told at htold
    split at htold
    · next m retval text hcaller =>
        obtain ⟨rfl, rfl, rfl⟩ := by simpa using htold
        exact hcaller
    · cases htold
  obtain ⟨-, -, u, -, -, -, htext⟩ := hown.ioctl 2 0 0 (ior 0) 0 _ _ _ rfl
    (by decide) hdone rfl
  have hcmd : ioctlCmd (ior 0) = some .devsize := rfl
  have hsize : usageFmt .devused ++ ['0', '\x00'] = usageFmt .devsize ++
      (formatInt (usageValue .devsize (u.shared.world.cddDev 0)) ++ ['\x00']) := by
    calc
      _ = "Buffer Length - Used: 0".toList ++ ['\x00'] := by decide
      _ = (cddIoctl (ior 0) 0 (u.shared.world.cddDev 0)).2 :=
        (Prod.mk.inj htext).2
      _ = _ := by
        simp only [cddIoctl, hcmd, ioctlBody, getCDDUsage_eq, Nat.zero_min,
          Nat.sub_zero, List.take_length, List.append_assoc]
  cases usageFmt_inj hsize

end CddDriver
