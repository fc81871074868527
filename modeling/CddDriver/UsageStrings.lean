import CddDriver.UsageReports
import Mathlib.Tactic.Common
/-!
# The strings of usage reports

Who fills and who copies the static strings, what a step does to them, and when
the string that a caller has still to take is the text for its own device and
command: as long as nobody overwrites it in between with a different text.
-/

namespace CddDriver

open Lib

/-! ## Filling and copying -/

def Caller.fills : Caller → Option (Minor × UsageCmd)
  | .file m (.ioctlUsage cmd _) => some (m, cmd)
  | .report (.usage r cmd) => some (r.minor, cmd)
  | _ => none

/-- The device and the command for which the caller has filled `retbuf`, which
it has still to copy. -/
def Caller.filled : Caller → Option (Minor × UsageCmd)
  | .file m (.ioctlCopy cmd _) => some (m, cmd)
  | .report (.strcpy r cmd) => some (r.minor, cmd)
  | _ => none

def Caller.copies : Caller → Option (Minor × UsageCmd)
  | .report (.strcpy r cmd) => some (r.minor, cmd)
  | _ => none

def UsageCmd.before : UsageCmd → UsageCmd → Bool
  | .devsize, .devused | .devsize, .devopens | .devused, .devopens => true
  | _, _ => false

/-- Whether the call has copied the string for `cmd`, which it has still to
format. -/
def ReportPc.copied (cmd : UsageCmd) : ReportPc → Bool
  | .usage _ next | .strcpy _ next => cmd.before next
  | .snprintf _ => true
  | _ => false

def Caller.copied (cmd : UsageCmd) : Caller → Option Minor
  | .file _ _ => none
  | .report pc => if pc.copied cmd then pc.device else none

theorem Caller.holds_of_fills {c : Caller} {m : Minor} {cmd : UsageCmd}
    (h : c.fills = some (m, cmd)) : c.holds m = some .read := by
  unfold Caller.fills at h
  split at h <;> cases h <;> exact if_pos rfl

theorem Caller.holds_of_filled {c : Caller} {m : Minor} {cmd : UsageCmd}
    (h : c.filled = some (m, cmd)) : c.holds m = some .read := by
  unfold Caller.filled at h
  split at h <;> cases h <;> exact if_pos rfl

theorem Caller.filled_of_copies {c : Caller} {x : Minor × UsageCmd}
    (h : c.copies = some x) : c.filled = some x := by
  unfold Caller.copies at h
  split at h
  · exact h
  · cases h

theorem Caller.filled_of_fills {c : Caller} {x : Minor × UsageCmd}
    (h : c.fills = some x) : c.filled = none := by
  unfold Caller.fills at h
  split at h
  · rfl
  · rfl
  · cases h

theorem Caller.copied_of_copies {c : Caller} {m : Minor} {cmd : UsageCmd}
    (h : c.copies = some (m, cmd)) : c.copied cmd = none := by
  unfold Caller.copies at h
  split at h
  · next r next =>
      obtain ⟨rfl, rfl⟩ := Prod.mk.inj (Option.some.inj h)
      cases next <;> rfl
  · cases h

theorem Caller.holds_of_copied {c : Caller} {m : Minor} {cmd : UsageCmd}
    (h : c.copied cmd = some m) : c.holds m = some .read := by
  cases c with
  | file k pc => cases h
  | report pc =>
      simp only [Caller.copied, Option.ite_none_right_eq_some] at h
      obtain ⟨hcopied, hdevice⟩ := h
      have hview : pc.view = .holding .read := by
        cases pc <;> first | rfl | cases hcopied
      simp [Caller.holds, Caller.device, Caller.view, hdevice, hview,
        SyncView.holding]

/-! ## What a step does to the strings and to the devices -/

section Step

variable {locked signalPending : Bool} {w w' : UsageShared} {c c' : Caller}
  {es : List SyncEvent}

theorem Caller.step_retbuf (h : c.step locked signalPending w = some (es, w', c')) :
    w'.retbuf =
      match c.fills with
      | some (m, cmd) => getCDDUsage cmd (w.world.cddDev m)
      | none => w.retbuf := by
  cases Caller.steps_of_step h with
  | file hstep => cases Pc.steps_of_step hstep <;> rfl
  | report hstep => cases ReportPc.steps_of_step hstep <;> rfl

theorem Caller.step_results
    (h : c.step locked signalPending w = some (es, w', c')) :
    w'.results =
      match c.copies with
      | some (_, cmd) => Function.update w.results cmd w.retbuf
      | none => w.results := by
  cases Caller.steps_of_step h with
  | file => rfl
  | report hstep => cases ReportPc.steps_of_step hstep <;> rfl

theorem Caller.step_cddDev
    (h : c.step locked signalPending w = some (es, w', c')) {m : Minor}
    (hm : c.holds m ≠ some .write) : w'.world.cddDev m = w.world.cddDev m := by
  cases Caller.steps_of_step h with
  | @file k pc pc' es u hstep =>
      by_cases hk : m = k
      · subst hk
        have hdev : u.dev.dev = w.world.cddDev m := by
          cases hwrites : pc.writesShared with
          | false =>
              rw [Pc.step_shared hwrites hstep]
              rfl
          | true =>
              rcases Pc.held_of_writesShared hwrites with hheld | ⟨cmd, n, rfl⟩
              · exact absurd ((if_pos rfl).trans hheld) hm
              · cases hstep
                rfl
        exact (Function.update_self m u.dev.dev w.world.cddDev).trans hdev
      · exact w.world.cddDev_setDevState_ne u.dev hk
  | report hstep => cases ReportPc.steps_of_step hstep <;> rfl

theorem Caller.step_filled (h : c.step locked signalPending w = some (es, w', c'))
    {x : Minor × UsageCmd} (hx : c'.filled = some x) : c.fills = some x := by
  cases Caller.steps_of_step h with
  | file hstep => cases Pc.steps_of_step hstep <;> exact hx
  | report hstep =>
      cases ReportPc.steps_of_step hstep with
      | fills => exact hx
      | @copies r cmd => cases cmd <;> cases hx
      | _ => cases hx

theorem Caller.step_copied (h : c.step locked signalPending w = some (es, w', c'))
    {m : Minor} {cmd : UsageCmd} (hm : c'.copied cmd = some m) :
    c.copied cmd = some m ∨ c.copies = some (m, cmd) := by
  cases Caller.steps_of_step h with
  | file => cases hm
  | report hstep =>
      cases ReportPc.steps_of_step hstep with
      | starts => cases cmd <;> cases hm
      | fills => exact .inl hm
      | @copies r cmd' =>
          cases cmd' <;> cases cmd <;> cases hm <;> first
            | exact .inr rfl
            | exact .inl rfl
      | _ => cases hm

theorem Caller.step_records
    (h : c.step locked signalPending w = some (es, w', c')) (m : Minor) :
    (w'.world.proc.procs m).procname = (w.world.proc.procs m).procname ∧
      (w'.world.proc.procs m).minor = (w.world.proc.procs m).minor := by
  cases Caller.steps_of_step h with
  | file => exact ⟨rfl, rfl⟩
  | report hstep =>
      cases ReportPc.steps_of_step hstep with
      | atEof hproc =>
          subst hproc
          exact ⟨rfl, rfl⟩
      | @formats r buf proc hbuf hproc =>
          subst hproc
          by_cases hm : m = r.usrsp
          · subst hm
            simp [updateProc]
          · simp [updateProc, Function.update_of_ne hm]
      | _ => exact ⟨rfl, rfl⟩

theorem Caller.step_lookup
    (h : c.step locked signalPending w = some (es, w', c'))
    (devname : List Char) :
    lookupCDDdproc devname w'.world.proc =
      lookupCDDdproc devname w.world.proc := by
  simp only [lookupCDDdproc, (Caller.step_records h _).1]

end Step

/-! ## Texts and values -/

def usageFmt : UsageCmd → List Char
  | .devsize => "Buffer Length - Allocated: ".toList
  | .devused => "Buffer Length - Used: ".toList
  | .devopens => "# Opens: ".toList

def usageValue : UsageCmd → CDDdev → Int
  | .devsize, d => toInt d.allocLen
  | .devused, d => toInt d.counter
  | .devopens, d => toInt d.activeOpens

theorem getCDDUsage_eq (cmd : UsageCmd) (d : CDDdev) :
    getCDDUsage cmd d = usageFmt cmd ++ formatInt (usageValue cmd d) := by
  unfold getCDDUsage usageFmt usageValue
  cases cmd <;> rfl

theorem formatInt_inj {m n : Int} (h : formatInt m = formatInt n) : m = n := by
  have hsign : ∀ {k l : Int}, k < 0 → ¬ l < 0 → formatInt k ≠ formatInt l := by
    intro k l hk hl heq
    simp only [formatInt, if_pos hk, if_neg hl, List.singleton_append,
      List.nil_append] at heq
    have hmem : '-' ∈ Nat.toDigits 10 l.natAbs := heq ▸ List.mem_cons_self
    have hdigit := Nat.isDigit_of_mem_toDigits (by decide) (by decide) hmem
    cases hdigit
  have hdigits : ∀ {k l : Int}, Nat.toDigits 10 k.natAbs =
      Nat.toDigits 10 l.natAbs → k.natAbs = l.natAbs := by
    intro k l heq
    have hvalue := congrArg (fun cs => Nat.ofDigitChars 10 cs 0) heq
    simpa only [Nat.ofDigitChars_ten_toDigits] using hvalue
  by_cases hm : m < 0
  · by_cases hn : n < 0
    · simp only [formatInt, if_pos hm, if_pos hn, List.singleton_append,
        List.cons.injEq, true_and] at h
      have habs := hdigits h
      omega
    · exact absurd h (hsign hm hn)
  · by_cases hn : n < 0
    · exact absurd h.symm (hsign hn hm)
    · simp only [formatInt, if_neg hm, if_neg hn, List.nil_append] at h
      have habs := hdigits h
      omega

theorem usageFmt_inj {cmd cmd' : UsageCmd} {cs cs' : List Char}
    (h : usageFmt cmd ++ cs = usageFmt cmd' ++ cs') : cmd = cmd' := by
  have hfirst : (usageFmt cmd ++ cs)[0]? = (usageFmt cmd' ++ cs')[0]? := by rw [h]
  have hlater : (usageFmt cmd ++ cs)[16]? = (usageFmt cmd' ++ cs')[16]? := by
    rw [h]
  cases cmd with
  | devsize =>
      cases cmd' with
      | devsize => rfl
      | devused => cases (show some 'A' = some 'U' from hlater)
      | devopens => cases (show some 'B' = some '#' from hfirst)
  | devused =>
      cases cmd' with
      | devsize => cases (show some 'U' = some 'A' from hlater)
      | devused => rfl
      | devopens => cases (show some 'B' = some '#' from hfirst)
  | devopens =>
      cases cmd' with
      | devsize => cases (show some '#' = some 'B' from hfirst)
      | devused => cases (show some '#' = some 'B' from hfirst)
      | devopens => rfl

/-- Two texts are equal exactly when they tell of the same command and the same
value. -/
theorem getCDDUsage_inj {cmd cmd' : UsageCmd} {d d' : CDDdev} :
    getCDDUsage cmd d = getCDDUsage cmd' d' ↔
      cmd = cmd' ∧ usageValue cmd d = usageValue cmd d' := by
  rw [getCDDUsage_eq, getCDDUsage_eq]
  constructor
  · intro h
    obtain rfl := usageFmt_inj h
    exact ⟨rfl, formatInt_inj (List.append_cancel_left h)⟩
  · rintro ⟨rfl, hvalue⟩
    rw [hvalue]

/-! ## No text is overwritten with a different one -/

/-- Whose string for one of `cmds` in `retbuf` is overwritten by this turn asked
for the same command on a device with the same value; and so did whose string in
`result1`, `result2` or `result3` is. -/
structure NoOverwrite (cmds : UsageCmd → Prop) (y : Usage) (t : UsageTurn)
    (_ : Unit) (_ : Usage) : Prop where
  retbuf : ∀ m cmd, (y.callers t.p).fills = some (m, cmd) →
    ∀ q m' cmd', cmds cmd' → (y.callers q).filled = some (m', cmd') → cmd' = cmd ∧
      usageValue cmd (y.shared.world.cddDev m') =
        usageValue cmd (y.shared.world.cddDev m)
  results : ∀ m cmd, cmds cmd → (y.callers t.p).copies = some (m, cmd) →
    ∀ q m', (y.callers q).copied cmd = some m' →
      usageValue cmd (y.shared.world.cddDev m') =
        usageValue cmd (y.shared.world.cddDev m)

/-- What a caller has still to copy or to format for one of `cmds` is the text
for its own device and command. -/
structure Intact (cmds : UsageCmd → Prop) (y : Usage) : Prop where
  retbuf : ∀ q m cmd, cmds cmd → (y.callers q).filled = some (m, cmd) →
    y.shared.retbuf = getCDDUsage cmd (y.shared.world.cddDev m)
  results : ∀ q m cmd, cmds cmd → (y.callers q).copied cmd = some m →
    y.shared.results cmd = getCDDUsage cmd (y.shared.world.cddDev m)

theorem UsageCall.start_strings (call : UsageCall) (cmd : UsageCmd) :
    call.start.filled = none ∧ call.start.copied cmd = none := by
  cases call with
  | file m op => cases op <;> exact ⟨rfl, rfl⟩
  | readproc devfname len old => exact ⟨rfl, rfl⟩

theorem intact_start (cmds : UsageCmd → Prop) (calls : Nat → UsageCall)
    (w : UsageShared) : Intact cmds (Usage.start calls w) := by
  refine ⟨fun q m cmd _ hq => ?_, fun q m cmd _ hq => ?_⟩
  · cases ((calls q).start_strings cmd).1.symm.trans hq
  · cases ((calls q).start_strings cmd).2.symm.trans hq

theorem Usage.SemsReflect.cddDev_kept {y z : Usage} {t : UsageTurn} {o : Unit}
    (h : y.SemsReflect) (hstep : usage.step y t = some (z, o)) {q : Nat}
    {m : Minor} (hq : (y.callers q).holds m = some .read) :
    z.shared.world.cddDev m = y.shared.world.cddDev m := by
  obtain ⟨es, c', hmove, -, -⟩ := usage_step hstep
  apply Caller.step_cddDev hmove
  intro hwrite
  obtain rfl : q = t.p := (h m).alone hwrite (by simp [hq])
  rw [hq] at hwrite
  cases hwrite

section Step

variable {cmds : UsageCmd → Prop} {y z : Usage} {t : UsageTurn} {o : Unit}

theorem Intact.retbuf_step (h : Intact cmds y) (hsems : y.SemsReflect)
    (hstep : usage.step y t = some (z, o)) (hapart : NoOverwrite cmds y t o z)
    {q : Nat} {m : Minor} {cmd : UsageCmd} (hcmd : cmds cmd)
    (hq : (z.callers q).filled = some (m, cmd)) :
    z.shared.retbuf = getCDDUsage cmd (z.shared.world.cddDev m) := by
  obtain ⟨es, c', hmove, hcallers, -⟩ := usage_step hstep
  rw [hcallers] at hq
  by_cases hqp : q = t.p
  · subst hqp
    rw [Function.update_self] at hq
    have hfills := Caller.step_filled hmove hq
    rw [Caller.step_retbuf hmove, hfills,
      hsems.cddDev_kept hstep (Caller.holds_of_fills hfills)]
  · rw [Function.update_of_ne hqp] at hq
    rw [Caller.step_retbuf hmove,
      hsems.cddDev_kept hstep (Caller.holds_of_filled hq)]
    cases hfills : (y.callers t.p).fills with
    | none => exact h.retbuf q m cmd hcmd hq
    | some x =>
        obtain ⟨rfl, hvalue⟩ := hapart.retbuf _ _ hfills q m cmd hcmd hq
        exact (getCDDUsage_inj.mpr ⟨rfl, hvalue⟩).symm

theorem copied_before (hstep : usage.step y t = some (z, o)) {q : Nat}
    {m : Minor} {cmd : UsageCmd} (hq : (z.callers q).copied cmd = some m) :
    (y.callers q).copied cmd = some m ∨
      (y.callers q).copies = some (m, cmd) ∧ q = t.p := by
  obtain ⟨es, c', hmove, hcallers, -⟩ := usage_step hstep
  rw [hcallers] at hq
  by_cases hqp : q = t.p
  · subst hqp
    rw [Function.update_self] at hq
    exact (Caller.step_copied hmove hq).imp_right fun hc => ⟨hc, rfl⟩
  · rw [Function.update_of_ne hqp] at hq
    exact .inl hq

theorem Intact.results_step (h : Intact cmds y) (hsems : y.SemsReflect)
    (hstep : usage.step y t = some (z, o)) (hapart : NoOverwrite cmds y t o z)
    {q : Nat} {m : Minor} {cmd : UsageCmd} (hcmd : cmds cmd)
    (hq : (z.callers q).copied cmd = some m) :
    z.shared.results cmd = getCDDUsage cmd (z.shared.world.cddDev m) := by
  obtain ⟨es, c', hmove, -, -⟩ := usage_step hstep
  rcases copied_before hstep hq with hcopied | ⟨hcopies, rfl⟩
  · rw [Caller.step_results hmove,
      hsems.cddDev_kept hstep (Caller.holds_of_copied hcopied)]
    cases hcopies : (y.callers t.p).copies with
    | none => exact h.results q m cmd hcmd hcopied
    | some x =>
        obtain ⟨k, cmd'⟩ := x
        by_cases hsame : cmd = cmd'
        · subst hsame
          have htext := h.retbuf _ _ _ hcmd (Caller.filled_of_copies hcopies)
          have hvalue := hapart.results _ _ hcmd hcopies q m hcopied
          simp only [Function.update_self, htext]
          exact (getCDDUsage_inj.mpr ⟨rfl, hvalue⟩).symm
        · simp only [Function.update_of_ne hsame]
          exact h.results q m cmd hcmd hcopied
  · have hfilled := Caller.filled_of_copies hcopies
    rw [Caller.step_results hmove, hcopies,
      hsems.cddDev_kept hstep (Caller.holds_of_filled hfilled)]
    simp only [Function.update_self]
    exact h.retbuf _ m cmd hcmd hfilled

theorem Intact.step (h : Intact cmds y) (hsems : y.SemsReflect)
    (hstep : usage.step y t = some (z, o)) (hapart : NoOverwrite cmds y t o z) :
    Intact cmds z :=
  ⟨fun _ _ _ hcmd hq => h.retbuf_step hsems hstep hapart hcmd hq,
    fun _ _ _ hcmd hq => h.results_step hsems hstep hapart hcmd hq⟩

theorem Intact.noOverwrite (h : Intact cmds y) (hsems : y.SemsReflect)
    (hstep : usage.step y t = some (z, o)) (hz : Intact cmds z) :
    NoOverwrite cmds y t o z := by
  obtain ⟨es, c', hmove, hcallers, -⟩ := usage_step hstep
  have hkept := @hsems.cddDev_kept _ _ _ _ hstep
  constructor
  · intro m cmd hfills q m' cmd' hcmd hfilled
    have hqp : q ≠ t.p := by
      rintro rfl
      cases (Caller.filled_of_fills hfills).symm.trans hfilled
    have hstill : (z.callers q).filled = some (m', cmd') := by
      rw [hcallers, Function.update_of_ne hqp]
      exact hfilled
    have htext := hz.retbuf q m' cmd' hcmd hstill
    rw [Caller.step_retbuf hmove, hfills,
      hkept (Caller.holds_of_filled hfilled)] at htext
    obtain ⟨rfl, hvalue⟩ := getCDDUsage_inj.mp htext
    exact ⟨rfl, hvalue.symm⟩
  · intro m cmd hcmd hcopies q m' hcopied
    have hqp : q ≠ t.p := by
      rintro rfl
      cases (Caller.copied_of_copies hcopies).symm.trans hcopied
    have hstill : (z.callers q).copied cmd = some m' := by
      rw [hcallers, Function.update_of_ne hqp]
      exact hcopied
    have htext := hz.results q m' cmd hcmd hstill
    rw [Caller.step_results hmove, hcopies,
      hkept (Caller.holds_of_copied hcopied)] at htext
    simp only [Function.update_self] at htext
    rw [h.retbuf _ _ _ hcmd (Caller.filled_of_copies hcopies)] at htext
    exact (getCDDUsage_inj.mp htext).2.symm

end Step

/-- What the callers have still to take is right in every state of a run
exactly when none of it is overwritten with a different text. -/
theorem intact_iff_noOverwrite {cmds : UsageCmd → Prop}
    {calls : Nat → UsageCall} {w : UsageShared} {ts : List UsageTurn} :
    usage.EveryState (Intact cmds) (Usage.start calls w) ts ↔
      usage.EveryStep (NoOverwrite cmds) (Usage.start calls w) ts :=
  Machine.everyState_iff_everyStep_of (J := fun y => y.SemsReflect ∧ Intact cmds y)
    And.right
    (fun ⟨hsems, h⟩ hstep => ⟨h.noOverwrite hsems hstep,
      fun hapart => ⟨hsems.step hstep, h.step hsems hstep hapart⟩⟩)
    ⟨semsReflect_start calls w, intact_start cmds calls w⟩

end CddDriver
