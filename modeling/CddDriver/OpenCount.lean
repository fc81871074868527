import CddDriver.OpenPost
import CddDriver.UsageTexts
import CddDriver.UserCopies
import Mathlib.Tactic.Common
/-!
# How many opens a device has had

`CDD_open` counts itself under the lock, on the one way out that returns 0.  So
a caller that holds the semaphore finds in `active_opens` the number of opens
that have returned 0, modulo `2 ^ 32`; `get_CDD_usage` hands it on as an `int`.
-/

namespace CddDriver

open Lib

/-! ## The step that counts -/

theorem openBody_activeOpens {fresh : Option (Nat → Byte)} {fFlags : Nat}
    {s s' : DevState} {status : OpenStatus}
    (h : openBody fresh fFlags s = some (s', status))
    (hstatus : status ≠ .returned 0) :
    s'.dev.activeOpens = s.dev.activeOpens := by
  have hopens := (allocateStorage_fields fresh s).2
  simp only [openBody] at h
  split at h
  · obtain ⟨rfl, -⟩ := Prod.mk.inj (Option.some.inj h)
    exact hopens
  · rcases openRest_cases h with ⟨-, hret, -⟩ | ⟨-, rfl, -⟩
    · exact absurd hret hstatus
    · exact hopens

theorem writeBody_activeOpens {buf : List Byte} {copy : UserCopy} {ppos : Int}
    {s : DevState} {w : WriteResult} (h : writeBody buf copy ppos s = some w) :
    w.state.dev.activeOpens = s.dev.activeOpens := by
  rw [writeBody_eq] at h
  split at h
  · obtain rfl := Option.some.inj h
    rfl
  · obtain ⟨t, ht, rfl⟩ := Option.map_eq_some_iff.mp h
    have hdev := DevState.poke_dev ht
    dsimp only
    split
    · rw [hdev]
    · split <;> simp only [hdev]

def Caller.returnsOpen (m : Minor) : Caller → Bool
  | .file k (.openUnlock r) => k = m && r = 0
  | _ => false

theorem Caller.returnsOpen_eq_true {c : Caller} {m : Minor} :
    c.returnsOpen m = true ↔ c = .file m (.openUnlock 0) := by
  unfold Caller.returnsOpen
  split
  · simp
  · next hne =>
      refine ⟨fun h => (by cases h), fun h => ?_⟩
      exact absurd h (hne m 0)

theorem Caller.holds_of_returnsOpen {c : Caller} {m : Minor}
    (h : c.returnsOpen m = true) : c.holds m = some .write := by
  rw [Caller.returnsOpen_eq_true.mp h]
  exact if_pos rfl

/-- A step of a call counts the open and gets to its return with 0, or does
neither. -/
theorem Pc.step_opens {locked signalPending : Bool} {w w' : Shared} {pc pc' : Pc}
    {es : List SyncEvent} (h : pc.step locked signalPending w = some (es, w', pc')) :
    (pc' = .openUnlock 0 ∧ pc ≠ .openUnlock 0 ∧ pc.view.held = some .write ∧
        w'.dev.dev.activeOpens = (w.dev.dev.activeOpens + 1) % 2 ^ 32) ∨
      (pc' ≠ .openUnlock 0 ∧
        w'.dev.dev.activeOpens = w.dev.dev.activeOpens) := by
  cases Pc.steps_of_step h with
  | openNoMemory hbody =>
      exact .inr ⟨by simp [enomem], openBody_activeOpens hbody (by decide)⟩
  | @openEmpty fFlags data s hun hbody =>
      refine .inr ⟨by simp, openBody_activeOpens hbody ?_⟩
      simp only [Pc.openStatus]
      split
      · decide
      · simp
  | openFilled hbody =>
      exact .inl ⟨rfl, by simp, rfl, (openPost_openBody hbody).activeOpens⟩
  | waitEnds hcontent hcommit =>
      exact .inl ⟨rfl, by simp, rfl, (openPost_commit hcontent hcommit).activeOpens⟩
  | writeStores hbody => exact .inr ⟨by simp, writeBody_activeOpens hbody⟩
  | _ => exact .inr ⟨by simp, rfl⟩

theorem Caller.step_opens {locked signalPending : Bool} {w w' : UsageShared}
    {c c' : Caller} {es : List SyncEvent}
    (h : c.step locked signalPending w = some (es, w', c')) (m : Minor) :
    (c'.returnsOpen m = true ∧ c.returnsOpen m = false ∧
        c.holds m = some .write ∧ (w'.world.cddDev m).activeOpens =
          ((w.world.cddDev m).activeOpens + 1) % 2 ^ 32) ∨
      (c'.returnsOpen m = false ∧
        (w'.world.cddDev m).activeOpens = (w.world.cddDev m).activeOpens) := by
  simp only [← Bool.not_eq_true, Caller.returnsOpen_eq_true]
  cases Caller.steps_of_step h with
  | @file k pc pc' es u hstep =>
      simp only [Caller.file.injEq]
      by_cases hk : m = k
      · subst hk
        have hdev : (w.world.setDevState m u.dev).cddDev m = u.dev.dev := by
          simp [World.setDevState]
        rw [hdev]
        rcases Pc.step_opens hstep with ⟨hpc', hpc, hheld, hopens⟩ | ⟨hnot, hopens⟩
        · exact .inl ⟨⟨rfl, hpc'⟩, fun heq => hpc heq.2, (if_pos rfl).trans hheld,
            hopens⟩
        · exact .inr ⟨fun heq => hnot heq.2, hopens⟩
      · rw [w.world.cddDev_setDevState_ne u.dev hk]
        exact .inr ⟨fun heq => hk heq.1.symm, rfl⟩
  | report hstep =>
      refine .inr ⟨by simp, ?_⟩
      cases ReportPc.steps_of_step hstep <;> rfl

/-! ## The opens that have returned -/

/-- How many opens of the device `m` return 0 in the run `ts` from `y`. -/
def opensReturned (m : Minor) : Usage → List UsageTurn → Nat
  | _, [] => 0
  | y, t :: ts =>
      match usage.step y t with
      | some r => ((y.callers t.p).returnsOpen m).toNat + opensReturned m r.1 ts
      | none => 0

theorem opensReturned_append {s y : Usage} {ts : List UsageTurn} (m : Minor)
    (hrun : usage.Run s ts y) (us : List UsageTurn) :
    opensReturned m s (ts ++ us) = opensReturned m s ts + opensReturned m y us := by
  induction hrun with
  | nil s => simp [opensReturned]
  | cons hfirst _ ih =>
      simp only [List.cons_append, opensReturned, hfirst]
      omega

theorem opensReturned_snoc {s y z : Usage} {ts : List UsageTurn} {t : UsageTurn}
    {o : Unit} (m : Minor) (hrun : usage.Run s ts y)
    (hstep : usage.step y t = some (z, o)) :
    opensReturned m s (ts ++ [t]) =
      opensReturned m s ts + ((y.callers t.p).returnsOpen m).toNat := by
  rw [opensReturned_append m hrun]
  simp [opensReturned, hstep]

theorem opensReturned_le_append (m : Minor) (s : Usage) (ts us : List UsageTurn) :
    opensReturned m s ts ≤ opensReturned m s (ts ++ us) := by
  induction ts generalizing s with
  | nil => exact Nat.zero_le _
  | cons t ts ih =>
      simp only [List.cons_append, opensReturned]
      cases usage.step s t with
      | none => exact Nat.le_refl 0
      | some r =>
          have hrest := ih r.1
          dsimp only
          omega

/-- `active_opens` of the device `m` is the number `n` of the opens that have
returned 0, and one more while an open that has counted itself still holds the
lock. -/
structure CountInv (m : Minor) (n : Nat) (y : Usage) : Prop where
  counted : ∀ p, (y.callers p).returnsOpen m = true →
    (y.shared.world.cddDev m).activeOpens = (n + 1) % 2 ^ 32
  settled : (∀ p, (y.callers p).returnsOpen m = false) →
    (y.shared.world.cddDev m).activeOpens = n % 2 ^ 32

theorem UsageCall.start_returnsOpen (call : UsageCall) (m : Minor) :
    call.start.returnsOpen m = false := by
  cases call with
  | file k op => cases op <;> rfl
  | readproc devfname len old => rfl

theorem countInv_start {calls : Nat → UsageCall} {w : UsageShared} {m : Minor}
    (h : (w.world.cddDev m).activeOpens = 0) :
    CountInv m 0 (Usage.start calls w) where
  counted p hp := by
    rw [show ((Usage.start calls w).callers p).returnsOpen m = false from
      (calls p).start_returnsOpen m] at hp
    cases hp
  settled _ := h

theorem CountInv.step {m : Minor} {n : Nat} {y z : Usage} {t : UsageTurn} {o : Unit}
    (h : CountInv m n y) (hsems : y.SemsReflect)
    (hstep : usage.step y t = some (z, o)) :
    CountInv m (n + ((y.callers t.p).returnsOpen m).toNat) z := by
  obtain ⟨es, c', hmove, hcallers, -⟩ := usage_step hstep
  -- who holds the lock for writing is the only one that may have counted itself
  have halone : ∀ p q, (y.callers p).holds m = some .write → q ≠ p →
      (y.callers q).returnsOpen m = false := by
    intro p q hp hq
    by_contra hret
    have hheld := Caller.holds_of_returnsOpen (Bool.not_eq_false _ ▸ hret)
    exact hq ((hsems m).alone hp (by simp [hheld]))
  have hself : z.callers t.p = c' := by rw [hcallers, Function.update_self]
  have hothers : ∀ q, q ≠ t.p → z.callers q = y.callers q := by
    intro q hq
    rw [hcallers, Function.update_of_ne hq]
  rcases Caller.step_opens hmove m with ⟨hret', hret, hheld, hopens⟩ | ⟨hret', hopens⟩
  · have hnone : ∀ q, (y.callers q).returnsOpen m = false := by
      intro q
      by_cases hq : q = t.p
      · rw [hq, hret]
      · exact halone t.p q hheld hq
    rw [hret, Bool.toNat_false, Nat.add_zero]
    constructor
    · intro _ _
      rw [hopens, h.settled hnone, Nat.mod_add_mod]
    · intro hall
      have hfalse := hall t.p
      rw [hself, hret'] at hfalse
      cases hfalse
  · cases hret : (y.callers t.p).returnsOpen m with
    | true =>
        constructor
        · intro p hp
          by_cases hpt : p = t.p
          · rw [hpt, hself, hret'] at hp
            cases hp
          · rw [hothers p hpt,
              halone t.p p (Caller.holds_of_returnsOpen hret) hpt] at hp
            cases hp
        · intro _
          rw [hopens, h.counted t.p hret, Bool.toNat_true]
    | false =>
        rw [Bool.toNat_false, Nat.add_zero]
        constructor
        · intro p hp
          by_cases hpt : p = t.p
          · rw [hpt, hself, hret'] at hp
            cases hp
          · rw [hothers p hpt] at hp
            rw [hopens, h.counted p hp]
        · intro hall
          rw [hopens]
          apply h.settled
          intro q
          by_cases hq : q = t.p
          · rw [hq, hret]
          · rw [← hothers q hq]
            exact hall q

/-- A caller that holds the semaphore finds the number of returned opens. -/
theorem CountInv.of_reader {m : Minor} {n : Nat} {y : Usage} (h : CountInv m n y)
    (hsems : y.SemsReflect) {p : Nat} (hp : (y.callers p).holds m = some .read) :
    (y.shared.world.cddDev m).activeOpens = n % 2 ^ 32 := by
  apply h.settled
  intro q
  by_contra hret
  have hheld := Caller.holds_of_returnsOpen (Bool.not_eq_false _ ▸ hret)
  obtain rfl : p = q := (hsems m).alone hheld (by simp [hp])
  rw [hp] at hheld
  cases hheld

/-! ## The number that is printed -/

def opensLine (n : Nat) : List Char := usageFmt .devopens ++ Nat.toDigits 10 n

theorem usageValue_devopens (d : CDDdev) :
    usageValue .devopens d = toInt d.activeOpens := by
  rw [usageValue.eq_def]

theorem getCDDUsage_opensLine {d : CDDdev} (h : d.activeOpens < 2 ^ 31) :
    getCDDUsage .devopens d = opensLine d.activeOpens := by
  have hself : toInt d.activeOpens = d.activeOpens :=
    wrapS_eq_self (by omega) (by omega) (by omega)
  rw [getCDDUsage_eq, usageValue_devopens, hself, formatInt_natCast, opensLine]

def copiedOut (uncopied : Nat) (str : List Char) : Int × List Char :=
  (if min uncopied str.length ≠ 0 then -efault else 0,
    str.take (str.length - min uncopied str.length))

/-- At some moment of the run `ts` from `s`, the caller `p` held the semaphore
of the device `m` for reading, and `Q` held of the world and of the number of
opens of `m` that had returned 0. -/
def DuringOpens (s : Usage) (ts : List UsageTurn) (p : Nat) (m : Minor)
    (Q : World → Nat → Prop) : Prop :=
  ∃ before after u, ts = before ++ after ∧ usage.Run s before u ∧
    (u.callers p).holds m = some .read ∧
    Q u.shared.world (opensReturned m s before)

theorem DuringOpens.snoc {s : Usage} {ts : List UsageTurn} {p : Nat} {m : Minor}
    {Q : World → Nat → Prop} (h : DuringOpens s ts p m Q) (t : UsageTurn) :
    DuringOpens s (ts ++ [t]) p m Q := by
  obtain ⟨before, after, u, rfl, hrun, hholds, hQ⟩ := h
  exact ⟨before, after ++ [t], u, List.append_assoc .., hrun, hholds, hQ⟩

/-- After the run `ts` from `s`, every ioctl and every `/proc` read that has got
the number of opens has got the number of the opens of its device that had
returned 0 at a moment of its call; the other strings for `cmds` in a `/proc`
read are right at that moment. -/
structure ExactOpens (cmds : UsageCmd → Prop) (calls : Nat → UsageCall)
    (s : Usage) (ts : List UsageTurn) (z : Usage) : Prop where
  ioctl : ∀ p m via uncopied pc retval text,
    calls p = .file m (.ioctl via (ior 2) uncopied) → z.callers p = .file m pc →
    pc.result? = some (.ioctl retval text) →
    DuringOpens s ts p m fun _ n =>
      (retval, text) = copiedOut uncopied (opensLine n ++ ['\x00'])
  readproc : ∀ p devfname len old pc retval buf,
    calls p = .readproc devfname len old → z.callers p = .report pc →
    pc.result? = some (retval, buf) → (retval ≤ 0 ∧ buf = old) ∨
      ∃ m minor results, DuringOpens s ts p minor fun w n =>
        lookupCDDdproc devfname w.proc = some m ∧
        (w.proc.procs m).minor = minor ∧ retval = toInt buf.length ∧
        buf = snprintfString len
          (reportText ⟨devfname, m, minor, len, old⟩ results w.proc) old ∧
        results .devopens = opensLine n ∧
        ∀ cmd, cmds cmd → results cmd = getCDDUsage cmd (w.cddDev minor)

def Caller.tellsOpens : Caller → Option Minor
  | .file m (.ioctlCopy .devopens _) => some m
  | .report (.snprintf r) => some r.minor
  | _ => none

/-- Who is about to hand out the number of opens of a device finds less than
`2 ^ 31` of them. -/
def FewOpens (y : Usage) (t : UsageTurn) (_ : Unit) (_ : Usage) : Prop :=
  ∀ m, (y.callers t.p).tellsOpens = some m →
    (y.shared.world.cddDev m).activeOpens < 2 ^ 31

instance (y : Usage) (t : UsageTurn) (o : Unit) (z : Usage) :
    Decidable (FewOpens y t o z) :=
  inferInstanceAs (Decidable (∀ m, (y.callers t.p).tellsOpens = some m →
    (y.shared.world.cddDev m).activeOpens < 2 ^ 31))

structure OpensInv (cmds : UsageCmd → Prop) (calls : Nat → UsageCall)
    (s : Usage) (ts : List UsageTurn) (z : Usage) : Prop where
  takes : TakesInv cmds calls z
  count : ∀ m, CountInv m (opensReturned m s ts) z
  exact : (∀ m, opensReturned m s ts < 2 ^ 32) → ExactOpens cmds calls s ts z

section Exact

variable {cmds : UsageCmd → Prop} {calls : Nat → UsageCall} {s y z : Usage}
  {ts : List UsageTurn} {t : UsageTurn} {o : Unit}

theorem OpensInv.usage_eq (h : OpensInv cmds calls s ts y) {p : Nat} {m : Minor}
    (hp : (y.callers p).holds m = some .read)
    (hbound : opensReturned m s ts < 2 ^ 32)
    (hfew : (y.shared.world.cddDev m).activeOpens < 2 ^ 31) :
    getCDDUsage .devopens (y.shared.world.cddDev m) =
      opensLine (opensReturned m s ts) := by
  have hcount := (h.count m).of_reader h.takes.sems hp
  rw [Nat.mod_eq_of_lt hbound] at hcount
  rw [getCDDUsage_opensLine hfew, hcount]

theorem OpensInv.ioctl_step (h : OpensInv cmds calls s ts y)
    (hcmds : cmds .devopens) (hrun : usage.Run s ts y)
    (hstep : usage.step y t = some (z, o)) (hfew : FewOpens y t o z)
    (hbound : ∀ m, opensReturned m s ts < 2 ^ 32) {m : Minor} {via uncopied : Nat}
    {pc : Pc} {retval : Int} {text : List Char}
    (hcall : calls t.p = .file m (.ioctl via (ior 2) uncopied))
    (hp : z.callers t.p = .file m pc)
    (hresult : pc.result? = some (.ioctl retval text)) :
    DuringOpens s (ts ++ [t]) t.p m fun _ n =>
      (retval, text) = copiedOut uncopied (opensLine n ++ ['\x00']) := by
  have hknown : ioctlCmd (ior 2) = some .devopens := rfl
  have hasked : ∀ cmd, ioctlCmd (ior 2) = some cmd → cmds cmd := by
    intro cmd hcmd
    obtain rfl : .devopens = cmd := Option.some.inj (hknown.symm.trans hcmd)
    exact hcmds
  rcases h.takes.ioctl_now hstep hcall (by rw [hknown]; simp) hasked hp hresult with
    ⟨pc', hpc, hbefore⟩ | ⟨cmd, hpc, hcmd, htext⟩
  · exact ((h.exact hbound).ioctl _ _ _ _ _ _ _ hcall hpc hbefore).snoc t
  · obtain rfl : .devopens = cmd := Option.some.inj (hknown.symm.trans hcmd)
    have hfilled : (y.callers t.p).filled = some (m, .devopens) := by
      rw [hpc]
      rfl
    have htells : (y.callers t.p).tellsOpens = some m := by
      rw [hpc]
      rfl
    have hholds := Caller.holds_of_filled hfilled
    have husage := h.usage_eq hholds (hbound m) (hfew m htells)
    refine ⟨ts, [t], y, rfl, hrun, hholds, ?_⟩
    show (retval, text) =
      copiedOut uncopied (opensLine (opensReturned m s ts) ++ ['\x00'])
    rw [htext, ← husage]
    simp only [cddIoctl, hknown, ioctlBody, copiedOut]

theorem OpensInv.readproc_step (h : OpensInv cmds calls s ts y)
    (hcmds : cmds .devopens) (hrun : usage.Run s ts y)
    (hstep : usage.step y t = some (z, o)) (hfew : FewOpens y t o z)
    (hbound : ∀ m, opensReturned m s ts < 2 ^ 32)
    {devfname : List Char} {len : Nat} {old : List Char} {pc : ReportPc}
    {retval : Int} {buf : List Char}
    (hcall : calls t.p = .readproc devfname len old)
    (hp : z.callers t.p = .report pc)
    (hresult : pc.result? = some (retval, buf)) :
    (retval ≤ 0 ∧ buf = old) ∨
      ∃ m minor results, DuringOpens s (ts ++ [t]) t.p minor fun w n =>
        lookupCDDdproc devfname w.proc = some m ∧
        (w.proc.procs m).minor = minor ∧ retval = toInt buf.length ∧
        buf = snprintfString len
          (reportText ⟨devfname, m, minor, len, old⟩ results w.proc) old ∧
        results .devopens = opensLine n ∧
        ∀ cmd, cmds cmd → results cmd = getCDDUsage cmd (w.cddDev minor) := by
  rcases h.takes.readproc_now hstep hcall hp hresult with
    ⟨pc', hpc, hbefore⟩ | hnone |
      ⟨m, minor, hpc, hholds, hlookup, hminor, hret, hbuf, hown⟩
  · rcases (h.exact hbound).readproc _ _ _ _ _ _ _ hcall hpc hbefore with
      hnone | ⟨m, minor, results, hduring⟩
    · exact .inl hnone
    · exact .inr ⟨m, minor, results, hduring.snoc t⟩
  · exact .inl hnone
  · have htells : (y.callers t.p).tellsOpens = some minor := by
      rw [hpc]
      rfl
    have husage := h.usage_eq hholds (hbound minor) (hfew minor htells)
    exact .inr ⟨m, minor, y.shared.results, ts, [t], y, rfl, hrun, hholds, hlookup,
      hminor, hret, hbuf, (hown .devopens hcmds).trans husage, hown⟩

theorem OpensInv.step (h : OpensInv cmds calls s ts y) (hcmds : cmds .devopens)
    (hrun : usage.Run s ts y) (hstep : usage.step y t = some (z, o))
    (hapart : NoOverwrite cmds y t o z) (hfew : FewOpens y t o z) :
    OpensInv cmds calls s (ts ++ [t]) z := by
  obtain ⟨es, c', -, hcallers, -⟩ := usage_step hstep
  refine ⟨h.takes.step hstep hapart, fun m => ?_, fun hbound => ?_⟩
  · rw [opensReturned_snoc m hrun hstep]
    exact (h.count m).step h.takes.sems hstep
  have hbound' : ∀ m, opensReturned m s ts < 2 ^ 32 := fun m =>
    Nat.lt_of_le_of_lt (opensReturned_le_append m s ts [t]) (hbound m)
  constructor
  · intro p m via uncopied pc retval text hcall hpc hresult
    by_cases hp : p = t.p
    · subst hp
      exact h.ioctl_step hcmds hrun hstep hfew hbound' hcall hpc hresult
    · rw [hcallers, Function.update_of_ne hp] at hpc
      exact ((h.exact hbound').ioctl _ _ _ _ _ _ _ hcall hpc hresult).snoc t
  · intro p devfname len old pc retval buf hcall hpc hresult
    by_cases hp : p = t.p
    · subst hp
      exact h.readproc_step hcmds hrun hstep hfew hbound' hcall hpc hresult
    · rw [hcallers, Function.update_of_ne hp] at hpc
      rcases (h.exact hbound').readproc _ _ _ _ _ _ _ hcall hpc hresult with
        hnone | ⟨m, minor, results, hduring⟩
      · exact .inl hnone
      · exact .inr ⟨m, minor, results, hduring.snoc t⟩

end Exact

/-- In every run from a load in which no text with a number of opens is
overwritten with a different one, less than `2 ^ 31` opens of a device have
returned 0 whenever their number is handed out, and less than `2 ^ 32` of them
return 0 at all, every caller is told the number of opens that had returned 0 at
a moment of its call.  As far as other texts are not overwritten either, the
other lines of a `/proc` report are right at that moment too. -/
theorem exactOpens_of_fewOpens {e : InitEnv} (hload : (cddInit e).1 = 0)
    {calls : Nat → UsageCall} {w : UsageShared} (hw : w.world = (loaded e).world)
    {cmds : UsageCmd → Prop} (hcmds : cmds .devopens)
    {ts : List UsageTurn} {z : Usage}
    (hrun : usage.Run (Usage.start calls w) ts z)
    (hapart : usage.EveryStep (NoOverwrite cmds) (Usage.start calls w) ts)
    (hfew : usage.EveryStep FewOpens (Usage.start calls w) ts)
    (hbound : ∀ m, opensReturned m (Usage.start calls w) ts < 2 ^ 32) :
    ExactOpens cmds calls (Usage.start calls w) ts z := by
  have hstart :
      OpensInv cmds calls (Usage.start calls w) [] (Usage.start calls w) := by
    refine ⟨takesInv_start cmds calls w, fun m => countInv_start ?_,
      fun _ => ⟨?_, ?_⟩⟩
    · have hdev : (loaded e).world.cddDev m =
          liveDev (loaded e).world.cddMajor m m m := loaded_cddDev hload m
      rw [hw, hdev]
      rfl
    · intro p m via uncopied pc retval text _ hp hresult
      rw [start_result?.1 m pc hp] at hresult
      cases hresult
    · intro p devfname len old pc retval buf _ hp hresult
      rw [start_result?.2 pc hp] at hresult
      cases hresult
  have hend : OpensInv cmds calls (Usage.start calls w) ts z :=
    Machine.Run.invariant_along
      (fun hprefix h hstep hc => OpensInv.step h hcmds hprefix hstep hc.1 hc.2)
      hrun (hapart.and hfew) hstart
  exact hend.exact hbound

/-! ### One open, and very many -/

def opensThenAsks (m : Minor) : Nat → UsageCall
  | 0 => .file m (.ioctl 1 (ior 2) 0)
  | _ => .file m (.openFile oWronly (some fun _ => 0))

theorem exactOpens_of_fewOpens_one :
    ∃ z, usage.Run (Usage.start (opensThenAsks 0) .loaded)
        (turns [1, 1, 1, 0, 0, 0, 0, 0]) z ∧
      (z.callers 0).told = some (0, 0, "# Opens: 1".toList ++ ['\x00']) ∧
      ExactOpens (· = .devopens) (opensThenAsks 0) (Usage.start (opensThenAsks 0) .loaded)
        (turns [1, 1, 1, 0, 0, 0, 0, 0]) z := by
  have hruns : (usage.exec (Usage.start (opensThenAsks 0) .loaded)
      (turns [1, 1, 1, 0, 0, 0, 0, 0])).map (fun z => (z.callers 0).told) =
      some (some (0, 0, "# Opens: 1".toList ++ ['\x00'])) := by decide
  have hapart : usage.check (Usage.apart 2) (Usage.start (opensThenAsks 0) .loaded)
      (turns [1, 1, 1, 0, 0, 0, 0, 0]) = true := by decide
  obtain ⟨z, hz, htold⟩ := Option.map_eq_some_iff.mp hruns
  have hrun := Machine.run_of_exec hz
  have hfew : usage.EveryStep FewOpens (Usage.start (opensThenAsks 0) .loaded)
      (turns [1, 1, 1, 0, 0, 0, 0, 0]) :=
    Machine.everyStep_of_check (c := fun y t => decide (FewOpens y t () y))
      (fun _ _ _ _ h => of_decide_eq_true h) (by decide)
  exact ⟨z, hrun, htold, @exactOpens_of_fewOpens _ cddInit_undisturbed _ _ rfl
    (· = .devopens) rfl _ _ hrun (noOverwrite_of_apart hapart) hfew (by decide)⟩

def manyOpens (n : Nat) : List UsageTurn :=
  turns ((List.range n).flatMap fun p => [p + 1, p + 1, p + 1])

theorem manyOpens_succ (n : Nat) :
    manyOpens (n + 1) = manyOpens n ++ turns [n + 1, n + 1, n + 1] := by
  simp [manyOpens, turns, List.range_succ]

structure Opened (m : Minor) (n : Nat) (y : Usage) : Prop where
  asks : y.callers 0 = .file m (.ioctlSwitch (ior 2) 0)
  opens : ∀ p, n < p →
    y.callers p = .file m (.openLock oWronly (some fun _ => 0))
  free : y.sems m = RwSem.free
  minor : minorOf (y.shared.world.cddDev m).devno = m
  activeOpens : (y.shared.world.cddDev m).activeOpens = n % 2 ^ 32

theorem usage_file_step {y : Usage} {p : Nat} {m : Minor} {pc pc' : Pc}
    {es : List SyncEvent} {u : Shared} (hp : y.callers p = .file m pc)
    (h : pc.step (y.granted (.file m pc)) false
      ⟨y.shared.world.devState m, y.shared.retbuf⟩ = some (es, u, pc')) :
    ∃ z, usage.step y ⟨p, false⟩ = some (z, ()) ∧
      z.callers = Function.update y.callers p (.file m pc') ∧
      z.sems = Usage.emit p (some m) es y.sems ∧
      z.shared.world.devState m = u.dev ∧ z.shared.retbuf = u.retbuf := by
  have hstep : Usage.step y ⟨p, false⟩ =
      some (⟨{ y.shared with
          world := y.shared.world.setDevState m u.dev, retbuf := u.retbuf },
        Usage.emit p (some m) es y.sems,
        Function.update y.callers p (.file m pc')⟩, ()) := by
    simp only [Usage.step, hp, Caller.step, Caller.device, h, Option.map_some]
  exact ⟨_, hstep, rfl, rfl, World.devState_setDevState_self _ _ _, rfl⟩

theorem openBody_writer {m : Minor} {w : Shared} (hm : minorOf w.dev.dev.devno = m)
    (locked signalPending : Bool) (data : Nat → Byte) :
    ∃ u, Pc.step locked signalPending w (.openBody oWronly (some data)) =
        some ([], u, .openUnlock 0) ∧
      u.dev.dev.devno = w.dev.dev.devno ∧
      u.dev.dev.activeOpens = (w.dev.dev.activeOpens + 1) % 2 ^ 32 := by
  have hun : contentIsUnavailable (allocated data m w.dev).dev oWronly = 0 :=
    contentIsUnavailable_writer (by decide)
  have htrunc : hasFlag oWronly oTrunc = false := by decide
  have happend : hasFlag oWronly oAppend = false := by decide
  have hcommit : openCommit oWronly (allocated data m w.dev) =
      some ⟨countOpen (allocated data m w.dev).dev,
        (allocated data m w.dev).heap⟩ := by
    simp [openCommit, htrunc, happend]
  have hstep : Pc.step locked signalPending w (.openBody oWronly (some data)) =
      (openTest oWronly (allocated data m w.dev)).map fun r =>
        ([], { w with dev := r.1 }, r.2) := by
    simp only [Pc.step, allocateStorage_some hm, reduceCtorEq, if_false]
    rfl
  rw [hstep, openTest, hun, if_neg (by decide), hcommit]
  exact ⟨_, rfl, rfl, rfl⟩

theorem Opened.next {m : Minor} {n : Nat} {y : Usage} (h : Opened m n y) :
    ∃ z, usage.Run y (turns [n + 1, n + 1, n + 1]) z ∧ Opened m (n + 1) z ∧
      opensReturned m y (turns [n + 1, n + 1, n + 1]) = 1 := by
  have hlock := h.opens (n + 1) (Nat.lt_succ_self n)
  have hgranted : y.granted (.file m (.openLock oWronly (some fun _ => 0))) = true := by
    simp only [Usage.granted, Caller.device, Caller.wants, Pc.wants, h.free]
    rfl
  have hacquire : ∀ w : Shared, Pc.step
      (y.granted (.file m (.openLock oWronly (some fun _ => 0)))) false w
        (.openLock oWronly (some fun _ => 0)) =
      some ([.acquire .write], w, .openBody oWronly (some fun _ => 0)) := by
    intro w
    rw [hgranted]
    rfl
  obtain ⟨y₁, hstep₁, hcallers₁, hsems₁, hdev₁, -⟩ :=
    usage_file_step hlock (hacquire _)
  have hbody : y₁.callers (n + 1) = .file m (.openBody oWronly (some fun _ => 0)) := by
    rw [hcallers₁, Function.update_self]
  have hminor : minorOf (y₁.shared.world.devState m).dev.devno = m := by
    rw [hdev₁]
    exact h.minor
  obtain ⟨u, hu, hdevno, hopens⟩ := @openBody_writer m
    ⟨y₁.shared.world.devState m, y₁.shared.retbuf⟩ hminor
    (y₁.granted (.file m (.openBody oWronly (some fun _ => 0)))) false fun _ => 0
  obtain ⟨y₂, hstep₂, hcallers₂, hsems₂, hdev₂, -⟩ := usage_file_step hbody hu
  have hunlock : y₂.callers (n + 1) = .file m (.openUnlock 0) := by
    rw [hcallers₂, Function.update_self]
  obtain ⟨y₃, hstep₃, hcallers₃, hsems₃, hdev₃, -⟩ := usage_file_step hunlock rfl
  have hdev : (y₃.shared.world.devState m).dev = u.dev.dev := by
    rw [hdev₃, hdev₂]
  have hothers : ∀ p, p ≠ n + 1 → y₃.callers p = y.callers p := by
    intro p hp
    rw [hcallers₃, Function.update_of_ne hp, hcallers₂, Function.update_of_ne hp,
      hcallers₁, Function.update_of_ne hp]
  refine ⟨y₃, .cons hstep₁ (.cons hstep₂ (.cons hstep₃ (.nil _))),
    ⟨?_, ?_, ?_, ?_, ?_⟩, ?_⟩
  · rw [hothers 0 (by omega), h.asks]
  · intro p hp
    rw [hothers p (by omega), h.opens p (by omega)]
  · rw [hsems₃, hsems₂, hsems₁]
    simp [Usage.emit, h.free, RwSem.apply, RwSem.free]
  · show minorOf (y₃.shared.world.devState m).dev.devno = m
    rw [hdev, hdevno]
    exact hminor
  · show (y₃.shared.world.devState m).dev.activeOpens = _
    rw [hdev, hopens, hdev₁]
    show ((y.shared.world.cddDev m).activeOpens + 1) % 2 ^ 32 = _
    rw [h.activeOpens, Nat.mod_add_mod]
  · simp [turns, opensReturned, hstep₁, hstep₂, hstep₃, hlock, hbody, hunlock,
      Caller.returnsOpen]

theorem opened_manyOpens {w : UsageShared} {m : Minor}
    (hminor : minorOf (w.world.cddDev m).devno = m)
    (hopens : (w.world.cddDev m).activeOpens = 0) (n : Nat) :
    ∃ y, usage.Run (Usage.start (opensThenAsks m) w) (manyOpens n) y ∧
      Opened m n y ∧
      opensReturned m (Usage.start (opensThenAsks m) w) (manyOpens n) = n := by
  induction n with
  | zero =>
      refine ⟨_, .nil _, ⟨rfl, fun p hp => ?_, rfl, hminor, hopens⟩, rfl⟩
      obtain ⟨k, rfl⟩ := Nat.exists_eq_succ_of_ne_zero (Nat.ne_of_gt hp)
      rfl
  | succ n ih =>
      obtain ⟨y, hrun, hopened, hcount⟩ := ih
      obtain ⟨z, hnext, hopened', hone⟩ := hopened.next
      rw [manyOpens_succ]
      refine ⟨z, hrun.append hnext, hopened', ?_⟩
      rw [opensReturned_append m hrun, hcount, hone]

theorem Opened.ask {m : Minor} {n : Nat} {y : Usage} (h : Opened m n y) :
    ∃ z, usage.Run y (turns [0, 0, 0, 0, 0]) z ∧
      opensReturned m y (turns [0, 0, 0, 0, 0]) = 0 ∧
      z.callers 0 = .file m (.done (.ioctl 0
        (getCDDUsage .devopens (y.shared.world.cddDev m) ++ ['\x00']))) := by
  obtain ⟨y₁, hstep₁, hcallers₁, hsems₁, hdev₁, -⟩ := usage_file_step h.asks rfl
  have hlock : y₁.callers 0 = .file m (.ioctlLock .devopens 0) := by
    rw [hcallers₁, Function.update_self]
  have hfree : y₁.sems m = RwSem.free := by
    rw [hsems₁]
    simp [Usage.emit, h.free]
  have hgranted : y₁.granted (.file m (.ioctlLock .devopens 0)) = true := by
    simp only [Usage.granted, Caller.device, Caller.wants, Pc.wants, hfree]
    rfl
  have hacquire : ∀ w : Shared, Pc.step
      (y₁.granted (.file m (.ioctlLock .devopens 0))) false w
        (.ioctlLock .devopens 0) =
      some ([.acquire .read], w, .ioctlUsage .devopens 0) := by
    intro w
    rw [hgranted]
    rfl
  obtain ⟨y₂, hstep₂, hcallers₂, -, hdev₂, -⟩ := usage_file_step hlock (hacquire _)
  have husage : y₂.callers 0 = .file m (.ioctlUsage .devopens 0) := by
    rw [hcallers₂, Function.update_self]
  obtain ⟨y₃, hstep₃, hcallers₃, -, -, hretbuf₃⟩ := usage_file_step husage rfl
  have hcopy : y₃.callers 0 = .file m (.ioctlCopy .devopens 0) := by
    rw [hcallers₃, Function.update_self]
  obtain ⟨y₄, hstep₄, hcallers₄, -, -, -⟩ := usage_file_step hcopy rfl
  have hunlock : y₄.callers 0 = .file m (.ioctlUnlock 0
      (getCDDUsage .devopens (y.shared.world.cddDev m) ++ ['\x00'])) := by
    rw [hcallers₄, Function.update_self, hretbuf₃, hdev₂, hdev₁]
    simp only [Nat.zero_min, Nat.sub_zero, List.take_length, ne_eq,
      not_true_eq_false, if_false]
    rfl
  obtain ⟨y₅, hstep₅, hcallers₅, -, -, -⟩ := usage_file_step hunlock rfl
  refine ⟨y₅, .cons hstep₁ (.cons hstep₂ (.cons hstep₃ (.cons hstep₄
    (.cons hstep₅ (.nil _))))), ?_, ?_⟩
  · simp [turns, opensReturned, hstep₁, hstep₂, hstep₃, hstep₄, hstep₅, h.asks,
      hlock, husage, hcopy, hunlock, Caller.returnsOpen]
  · rw [hcallers₅, Function.update_self]

theorem asks_after_many {n : Nat} (hmany : 2 ^ 31 ≤ n) (hlt : n < 2 ^ 32) :
    ∃ z, usage.Run (Usage.start (opensThenAsks 0) .loaded)
        (manyOpens n ++ turns [0, 0, 0, 0, 0]) z ∧
      opensReturned 0 (Usage.start (opensThenAsks 0) .loaded)
        (manyOpens n ++ turns [0, 0, 0, 0, 0]) = n ∧
      (z.callers 0).told = some (0, 0, usageFmt .devopens ++
        formatInt ((n : Int) - 2 ^ 32) ++ ['\x00']) ∧
      ¬ ExactOpens (· = .devopens) (opensThenAsks 0)
        (Usage.start (opensThenAsks 0) .loaded)
        (manyOpens n ++ turns [0, 0, 0, 0, 0]) z := by
  obtain ⟨y, hrun, hopened, hcount⟩ :=
    @opened_manyOpens .loaded 0 (by decide) (by decide) n
  obtain ⟨z, hask, hnone, hdone⟩ := hopened.ask
  have hopens : (y.shared.world.cddDev 0).activeOpens = n := by
    rw [hopened.activeOpens, Nat.mod_eq_of_lt hlt]
  have hvalue : usageValue .devopens (y.shared.world.cddDev 0) = (n : Int) - 2 ^ 32 := by
    rw [usageValue_devopens, hopens]
    unfold toInt wrapS
    omega
  rw [getCDDUsage_eq, hvalue] at hdone
  refine ⟨z, hrun.append hask, ?_, ?_, fun hexact => ?_⟩
  · rw [opensReturned_append 0 hrun, hcount, hnone, Nat.add_zero]
  · rw [hdone]
    rfl
  · obtain ⟨before, -, -, -, -, -, htext⟩ :=
      hexact.ioctl 0 0 1 0 _ _ _ rfl hdone rfl
    have hline : formatInt ((n : Int) - 2 ^ 32) =
        formatInt (opensReturned 0 (Usage.start (opensThenAsks 0) .loaded) before) := by
      have hstr := (Prod.mk.inj htext).2
      simp only [Nat.zero_min, Nat.sub_zero, List.take_length] at hstr
      rw [formatInt_natCast]
      exact List.append_cancel_left (List.append_cancel_right hstr)
    have hsame := formatInt_inj hline
    omega

/-- After `2 ^ 31` opens of device 0 the number of opens is told as
`-2147483648`. -/
theorem not_exactOpens_negative :
    ∃ z, usage.Run (Usage.start (opensThenAsks 0) .loaded)
        (manyOpens (2 ^ 31) ++ turns [0, 0, 0, 0, 0]) z ∧
      opensReturned 0 (Usage.start (opensThenAsks 0) .loaded)
        (manyOpens (2 ^ 31) ++ turns [0, 0, 0, 0, 0]) = 2 ^ 31 ∧
      (z.callers 0).told =
        some (0, 0, "# Opens: -2147483648".toList ++ ['\x00']) ∧
      ¬ ExactOpens (· = .devopens) (opensThenAsks 0)
        (Usage.start (opensThenAsks 0) .loaded)
        (manyOpens (2 ^ 31) ++ turns [0, 0, 0, 0, 0]) z := by
  obtain ⟨z, hrun, hcount, htold, hnot⟩ :=
    @asks_after_many (2 ^ 31) (le_refl _) (by decide)
  refine ⟨z, hrun, hcount, ?_, hnot⟩
  have hline : usageFmt .devopens ++ formatInt (((2 ^ 31 : Nat) : Int) - 2 ^ 32) =
      "# Opens: -2147483648".toList := by decide
  rw [htold, hline]

end CddDriver
