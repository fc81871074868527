import CddDriver.Alike
import Mathlib.Tactic.Common
/-!
# Contention

The calls of any number of processes against the same calls executed one after
another.  A call takes its place in the serial order at the step at which it
settles on its answer, while it holds the lock.

A call that finds the lock taken where it only tries it has no such step: it
returns `-ERESTARTSYS`, which no serial execution returns.
-/

namespace CddDriver

open Lib

/-! ## Conditions on the steps of a run -/

def Turn.Quiet (t : Turn) : Prop := ∀ p, t ≠ .run p true

def LockFree (y : Conc) (t : Turn) (_ : Unit) (_ : Conc) : Prop :=
  ∀ p signalPending, t = .run p signalPending →
    (y.pcs p).wants = some .write → y.sem.grants .write = true

/-- An open that gets no memory finds the device without a buffer. -/
def BufferKept (y : Conc) (t : Turn) (_ : Unit) (_ : Conc) : Prop :=
  ∀ p signalPending fFlags, t = .run p signalPending →
    y.pcs p = .openBody fFlags none → y.shared.dev.dev.cddStorage = none

def NoOpenWaits (y : Conc) (t : Turn) (_ : Unit) (_ : Conc) : Prop :=
  ∀ p signalPending fFlags data, t = .run p signalPending →
    y.pcs p = .openBody fFlags (some data) →
    contentIsUnavailable y.shared.dev.dev fFlags ≠ 0 →
    hasFlag fFlags oNonblock = true

/-- An ioctl fills the static buffer of `get_CDD_usage` when all others that
have still to copy from it asked for the same.  They all hold the lock for
reading, so the text is the same too. -/
def TextsApart (y : Conc) (t : Turn) (_ : Unit) (_ : Conc) : Prop :=
  ∀ p signalPending cmd uncopied, t = .run p signalPending →
    y.pcs p = .ioctlUsage cmd uncopied →
    ∀ q cmd' uncopied', y.pcs q = .ioctlCopy cmd' uncopied' → cmd' = cmd

/-! ## Admitted calls -/

def Pc.begun : Pc → Bool
  | .readLock _ _ _ _ | .writeLock _ _ _ | .ioctlSwitch _ _ => false
  | _ => true

theorem Op.admitted_mono {opened opened' : Nat → Bool}
    (h : ∀ p, opened p = true → opened' p = true) {op : Op}
    (hop : op.admitted opened = true) : op.admitted opened' = true := by
  cases op with
  | openFile => rfl
  | read via buf count uncopied ppos =>
      obtain ⟨hvia, hrange⟩ := Bool.and_eq_true_iff.mp hop
      exact Bool.and_eq_true_iff.mpr ⟨h via hvia, hrange⟩
  | write via buf copy ppos =>
      obtain ⟨hvia, hrange⟩ := Bool.and_eq_true_iff.mp hop
      exact Bool.and_eq_true_iff.mpr ⟨h via hvia, hrange⟩
  | ioctl via ioctlNum uncopied => exact h via hop

structure Sound (ops : Nat → Op) (y : Conc) : Prop where
  inv : ConcInv ops y
  admitted : ∀ p, (y.pcs p).begun = true → y.admits (ops p) = true

theorem sound_start (ops : Nat → Op) (w : Shared) :
    Sound ops (Conc.start ops w) := by
  refine ⟨concInv_start ops w, fun p hp => ?_⟩
  simp only [Conc.start] at hp
  cases hop : ops p with
  | openFile => rfl
  | _ =>
      rw [hop] at hp
      cases hp

section Ran

variable {ops : Nat → Op} {y z : Conc} {p : Nat} {signalPending : Bool}
  {es : List SyncEvent} {pc' : Pc}

theorem Sound.admits (h : Sound ops y)
    (hran : Ran ops y z p signalPending es pc') : y.admits (ops p) = true := by
  have hready := hran.ready
  cases hpc : y.pcs p with
  | readLock => simpa only [Conc.ready, hpc] using hready
  | writeLock => simpa only [Conc.ready, hpc] using hready
  | ioctlSwitch => simpa only [Conc.ready, hpc] using hready
  | _ =>
      apply h.admitted p
      rw [hpc]
      rfl

theorem Ran.hasOpened (hran : Ran ops y z p signalPending es pc') {q : Nat}
    (hq : (y.pcs q).hasOpened = true) : (z.pcs q).hasOpened = true := by
  have hqp : q ≠ p := by
    rintro rfl
    have hstep := hran.step
    cases hpc : y.pcs q with
    | done a =>
        rw [hpc] at hstep
        cases hstep
    | _ =>
        rw [hpc] at hq
        cases hq
  rw [hran.pcs, Function.update_of_ne hqp]
  exact hq

theorem Sound.ran (h : Sound ops y)
    (hran : Ran ops y z p signalPending es pc') : Sound ops z := by
  refine ⟨h.inv.ran hran, fun q hq => ?_⟩
  have hbefore : y.admits (ops q) = true := by
    by_cases hqp : q = p
    · subst hqp
      exact h.admits hran
    · rw [hran.pcs, Function.update_of_ne hqp] at hq
      exact h.admitted q hq
  exact Op.admitted_mono (fun _ => hran.hasOpened) hbefore

end Ran

theorem Sound.step {ops : Nat → Op} {y z : Conc} {t : Turn} {o : Unit}
    (h : Sound ops y) (hstep : (concurrent ops).step y t = some (z, o)) :
    Sound ops z := by
  cases t with
  | run p signalPending =>
      obtain ⟨es, pc', hran⟩ := ran_of_step hstep
      exact h.ran hran
  | wake p =>
      refine ⟨h.inv.step hstep, fun q hq => ?_⟩
      obtain ⟨-, -, hpcs, -⟩ := wake_step hstep
      have hadmits : z.admits (ops q) = y.admits (ops q) := by
        simp only [Conc.admits, hpcs]
      rw [hpcs] at hq
      rw [hadmits]
      exact h.admitted q hq

/-! ## Agreement with a serial execution -/

/-- The calls that have settled on an answer are those executed in `t`, and
their answers are related by `R`. -/
def Agree (R : Answer → Answer → Prop) (pcs : Nat → Pc) (t : Serial) : Prop :=
  ∀ p, Option.Rel R (pcs p).result? (t.answers p)

namespace Agree

variable {R : Answer → Answer → Prop} {pcs : Nat → Pc} {t : Serial} {p : Nat}
  {pc' : Pc}

theorem start (ops : Nat → Op) (w : Shared) :
    Agree R (Conc.start ops w).pcs (Serial.start w.dev) := by
  intro p
  have hnone : ((Conc.start ops w).pcs p).result? = none :=
    Op.start_result? (ops p)
  rw [hnone]
  exact .none

theorem eq_none (h : Agree R pcs t) (hp : (pcs p).result? = none) :
    t.answers p = none := by
  have hrel := h p
  rw [hp] at hrel
  generalize t.answers p = answer at hrel ⊢
  cases hrel
  rfl

theorem of_done (h : Agree R pcs t) {a : Answer} (hp : pcs p = .done a) :
    ∃ a', t.answers p = some a' ∧ R a a' := by
  have hrel := h p
  rw [hp] at hrel
  generalize t.answers p = answer at hrel ⊢
  cases hrel with
  | some hR => exact ⟨_, rfl, hR⟩

theorem hasOpened (h : Agree R pcs t)
    (hR : ∀ a a', R a a' → a'.hasOpened = a.hasOpened)
    (hp : (pcs p).hasOpened = true) : t.hasOpened p = true := by
  cases hpc : pcs p with
  | done a =>
      obtain ⟨a', ha', haa'⟩ := h.of_done hpc
      rw [hpc] at hp
      simp only [Serial.hasOpened, ha', hR a a' haa']
      exact hp
  | _ =>
      rw [hpc] at hp
      cases hp

theorem same (h : Agree R pcs t) (hp : pc'.result? = (pcs p).result?) :
    Agree R (Function.update pcs p pc') t := by
  intro q
  by_cases hq : q = p
  · subst hq
    rw [Function.update_self, hp]
    exact h q
  · rw [Function.update_of_ne hq]
    exact h q

theorem settle (h : Agree R pcs t) {s : DevState} {a a' : Answer}
    (hp : pc'.result? = some a) (haa' : R a a') :
    Agree R (Function.update pcs p pc')
      ⟨s, Function.update t.answers p (some a')⟩ := by
  intro q
  by_cases hq : q = p
  · subst hq
    simp only [Function.update_self, hp]
    exact .some haa'
  · simp only [Function.update_of_ne hq]
    exact h q

theorem run {ops : Nat → Op} {y : Conc} (h : Agree R y.pcs t)
    (hR : ∀ a a', R a a' → a'.hasOpened = a.hasOpened)
    (hp : (y.pcs p).result? = none) (hadmits : y.admits (ops p) = true)
    {s : DevState} {a' : Answer}
    (hserve : (ops p).serve t.dev = some (s, a')) :
    (serial ops).Run t [p] ⟨s, Function.update t.answers p (some a')⟩ := by
  have hadmitted : (ops p).admitted t.hasOpened = true :=
    Op.admitted_mono (fun _ => h.hasOpened hR) hadmits
  exact .cons (o := ()) (serial_step_eq_some.mpr
    ⟨h.eq_none hp, hadmitted, a', hserve, rfl⟩) (.nil _)

end Agree

/-! ## The same return values -/

/-- The serial execution `t` behind the interleaving: its device may have
other buffers. -/
structure Trails (major : Nat) (m : Minor) (w : Shared) (pcs : Nat → Pc)
    (t : Serial) : Prop where
  agree : Agree Answer.SameReturn pcs t
  alike : Alike major m w.dev t.dev
  opened : ∀ p, t.hasOpened p = true → t.dev.dev.cddStorage ≠ none
  waiting : ∀ p, (pcs p).waitFlags ≠ none → (pcs p).result? = none →
    w.dev.dev.cddStorage ≠ none

theorem trails_start {major : Nat} {m : Minor} {w : Shared} (ops : Nat → Op)
    (h : DeviceInv major m w.dev) :
    Trails major m w (Conc.start ops w).pcs (Serial.start w.dev) := by
  refine ⟨Agree.start ops w, Alike.refl h, fun p hp => ?_, fun p hp => ?_⟩
  · cases hp
  · exact absurd (Op.start_waitFlags (ops p)) hp

theorem Trails.opened_settle {major : Nat} {m : Minor} {w : Shared}
    {pcs : Nat → Pc} {t : Serial} (h : Trails major m w pcs t) {p : Nat}
    {s : DevState} {a' : Answer}
    (hs : t.dev.dev.cddStorage ≠ none ∨ a'.hasOpened = true →
      s.dev.cddStorage ≠ none) :
    ∀ q, Serial.hasOpened ⟨s, Function.update t.answers p (some a')⟩ q = true →
      s.dev.cddStorage ≠ none := by
  intro q hq
  by_cases hqp : q = p
  · subst hqp
    simp only [Serial.hasOpened, Function.update_self] at hq
    exact hs (.inr hq)
  · simp only [Serial.hasOpened, Function.update_of_ne hqp] at hq
    exact hs (.inl (h.opened q hq))

theorem Trails.waiting_update {major : Nat} {m : Minor} {w w' : Shared}
    {pcs : Nat → Pc} {t : Serial} (h : Trails major m w pcs t) {p : Nat}
    {pc' : Pc}
    (hkeeps : w.dev.dev.cddStorage ≠ none → w'.dev.dev.cddStorage ≠ none)
    (hself : pc'.waitFlags ≠ none → pc'.result? = none →
      w'.dev.dev.cddStorage ≠ none) :
    ∀ q, (Function.update pcs p pc' q).waitFlags ≠ none →
      (Function.update pcs p pc' q).result? = none →
      w'.dev.dev.cddStorage ≠ none := by
  intro q hflags hresult
  by_cases hq : q = p
  · subst hq
    rw [Function.update_self] at hflags hresult
    exact hself hflags hresult
  · rw [Function.update_of_ne hq] at hflags hresult
    exact hkeeps (h.waiting q hflags hresult)

theorem Trails.ran {major : Nat} {m : Minor} {ops : Nat → Op} {y z : Conc}
    {p : Nat} {pc' : Pc} {t : Serial}
    (h : Trails major m y.shared y.pcs t)
    (hadmits : y.admits (ops p) = true)
    (hpcs : z.pcs = Function.update y.pcs p pc')
    (hmoves : Moves (ops p) y.shared z.shared (y.pcs p) pc')
    (hkept : ∀ fFlags, y.pcs p = .openBody fFlags none →
      y.shared.dev.dev.cddStorage = none) :
    ∃ js t', (serial ops).Run t js t' ∧
      Trails major m z.shared z.pcs t' := by
  have hR : ∀ a a' : Answer, a.SameReturn a' → a'.hasOpened = a.hasOpened :=
    fun _ _ => Answer.SameReturn.hasOpened
  generalize hpc : y.pcs p = pc at hmoves
  generalize hop : ops p = op at hmoves
  generalize z.shared = w' at hmoves ⊢
  rw [hpcs]
  cases hmoves with
  | same hdev hresult hflags =>
      rw [← hpc] at hresult hflags
      refine ⟨[], t, .nil t, h.agree.same hresult, ?_, h.opened,
        h.waiting_update ?_ ?_⟩
      · rw [hdev]
        exact h.alike
      · rw [hdev]
        exact id
      · intro hwait hnone
        rw [hdev]
        exact h.waiting p (hflags hwait) (by rw [← hresult, hnone])
  | @serves _ _ a hnone hsome hopen hserve =>
      rw [← hop] at hserve
      have hopened : ∀ q, (y.pcs q).hasOpened = true →
          t.dev.dev.cddStorage ≠ none :=
        fun q hq => h.opened q (h.agree.hasOpened hR hq)
      have hempty : ∀ fFlags, ops p = .openFile fFlags none →
          y.shared.dev.dev.cddStorage = none := by
        intro fFlags hfile
        exact hkept fFlags (by rw [hpc, hopen fFlags none (by rw [← hop, hfile])])
      obtain ⟨s, a', hserve', hsame, halike, hstorage, hkeeps⟩ :=
        h.alike.serve hopened hadmits hempty hserve
      refine ⟨[p], _, h.agree.run hR (by rw [hpc, hnone]) hadmits hserve',
        h.agree.settle hsome hsame, halike, h.opened_settle hstorage,
        h.waiting_update hkeeps ?_⟩
      intro _ hresult
      rw [hsome] at hresult
      cases hresult
  | @sleeps fFlags data _ _ hblocks hopen =>
      obtain ⟨halike, hstorage⟩ := h.alike.sleeps hopen
      have hresult : (Pc.waitUnlock fFlags).result? = (y.pcs p).result? := by
        rw [hpc]
        simp [Pc.result?, hblocks]
      exact ⟨[], t, .nil t, h.agree.same hresult, halike, h.opened,
        h.waiting_update (fun _ => hstorage) (fun _ _ => hstorage)⟩
  | @wakes fFlags data hfile hcontent hcommit =>
      have hbuffer : y.shared.dev.dev.cddStorage ≠ none :=
        h.waiting p (by rw [hpc]; exact Option.some_ne_none _) (by rw [hpc]; rfl)
      obtain ⟨s, hopen, halike, hs⟩ := h.alike.wakes hbuffer hcontent hcommit
      have hserve : (ops p).serve t.dev = some (s, .openFile 0) := by
        rw [hop, hfile]
        exact serve_openFile.mpr ⟨0, hopen, rfl⟩
      have hkeeps := halike.storage hs
      exact ⟨[p], _, h.agree.run hR (by rw [hpc]; rfl) hadmits hserve,
        h.agree.settle rfl rfl, halike, h.opened_settle (fun _ => hs),
        h.waiting_update (fun _ => hkeeps) (fun _ _ => hkeeps)⟩
  | @copies via ioctlNum uncopied cmd text retval hioctl hcmd hw htext hretval =>
      have hserve : (ops p).serve t.dev = some (t.dev,
          .ioctl (cddIoctl ioctlNum uncopied t.dev.dev).1
            (cddIoctl ioctlNum uncopied t.dev.dev).2) := by
        rw [hop, hioctl]
        rfl
      have hsame : retval = (cddIoctl ioctlNum uncopied t.dev.dev).1 := by
        rw [hretval, htext]
        simp only [cddIoctl, hcmd, ioctlBody]
        exact ioctl_retval uncopied _ _
      subst hw
      refine ⟨[p], _, h.agree.run hR (by rw [hpc]; rfl) hadmits hserve,
        h.agree.settle rfl hsame, h.alike, h.opened_settle ?_,
        h.waiting_update id (fun hwait => absurd rfl hwait)⟩
      rintro (hs | hopened)
      · exact hs
      · cases hopened

/-! ## The same answers on the same device -/

/-- The serial execution `t` behind an interleaving in which no open sleeps
and the texts of ioctls do not meet. -/
structure Mirrors (w : Shared) (pcs : Nat → Pc) (t : Serial) : Prop where
  agree : Agree Eq pcs t
  dev : t.dev = w.dev
  awake : ∀ p, (pcs p).waitFlags ≠ none → (pcs p).result? ≠ none
  text : ∀ p cmd uncopied, pcs p = .ioctlCopy cmd uncopied →
    w.retbuf = getCDDUsage cmd w.dev.dev

theorem mirrors_start (ops : Nat → Op) (w : Shared) :
    Mirrors w (Conc.start ops w).pcs (Serial.start w.dev) := by
  refine ⟨Agree.start ops w, rfl, fun p hp => ?_, fun p cmd uncopied hp => ?_⟩
  · exact absurd (Op.start_waitFlags (ops p)) hp
  · simp only [Conc.start] at hp
    cases hop : ops p <;> rw [hop] at hp <;> cases hp

theorem Pc.step_ioctlCopy {locked signalPending : Bool} {w w' : Shared} {pc : Pc}
    {es : List SyncEvent} {cmd : UsageCmd} {uncopied : Nat}
    (h : pc.step locked signalPending w =
      some (es, w', .ioctlCopy cmd uncopied)) :
    w'.retbuf = getCDDUsage cmd w'.dev.dev := by
  cases Pc.steps_of_step h with
  | ioctlFills => rfl

theorem Pc.step_ioctlUsage {locked signalPending : Bool} {w w' : Shared}
    {pc' : Pc} {es : List SyncEvent} {cmd : UsageCmd} {uncopied : Nat}
    (h : Pc.step locked signalPending w (.ioctlUsage cmd uncopied) =
      some (es, w', pc')) :
    w'.retbuf = getCDDUsage cmd w'.dev.dev := by
  cases Pc.steps_of_step h with
  | ioctlFills => rfl

theorem Pc.held_of_writesShared {pc : Pc} (h : pc.writesShared = true) :
    pc.view.held = some .write ∨ ∃ cmd uncopied, pc = .ioctlUsage cmd uncopied := by
  cases pc with
  | openBody => exact .inl rfl
  | waitTest => exact .inl rfl
  | writeBody => exact .inl rfl
  | ioctlUsage cmd uncopied => exact .inr ⟨cmd, uncopied, rfl⟩
  | _ => cases h

/-- What an ioctl has put in the static buffer is still right when it copies
it: it holds the lock for reading, and no ioctl for another command comes
between. -/
theorem text_ran {ops : Nat → Op} {y z : Conc} {p : Nat} {signalPending : Bool}
    {es : List SyncEvent} {pc' : Pc}
    (hinv : ConcInv ops y) (hran : Ran ops y z p signalPending es pc')
    (htext : ∀ q cmd uncopied, y.pcs q = .ioctlCopy cmd uncopied →
      y.shared.retbuf = getCDDUsage cmd y.shared.dev.dev)
    (hapart : ∀ cmd uncopied, y.pcs p = .ioctlUsage cmd uncopied →
      ∀ q cmd' uncopied', y.pcs q = .ioctlCopy cmd' uncopied' → cmd' = cmd) :
    ∀ q cmd uncopied, z.pcs q = .ioctlCopy cmd uncopied →
      z.shared.retbuf = getCDDUsage cmd z.shared.dev.dev := by
  intro q cmd uncopied hq
  have hstep := hran.step
  rw [hran.pcs] at hq
  by_cases hqp : q = p
  · subst hqp
    rw [Function.update_self] at hq
    rw [hq] at hstep
    exact Pc.step_ioctlCopy hstep
  · rw [Function.update_of_ne hqp] at hq
    cases hwrites : (y.pcs p).writesShared with
    | false =>
        rw [Pc.step_shared hwrites hstep]
        exact htext q cmd uncopied hq
    | true =>
        rcases Pc.held_of_writesShared hwrites with hheld | ⟨cmd', n, husage⟩
        · have hreads : (y.pcs q).view.held ≠ none := by
            rw [hq]
            exact Option.some_ne_none _
          exact absurd (hinv.sem.alone hheld hreads) hqp
        · obtain rfl := hapart cmd' n husage q cmd uncopied hq
          rw [husage] at hstep
          exact Pc.step_ioctlUsage hstep

theorem Mirrors.ran {ops : Nat → Op} {y z : Conc} {p : Nat} {pc' : Pc}
    {t : Serial} (h : Mirrors y.shared y.pcs t)
    (hadmits : y.admits (ops p) = true)
    (hpcs : z.pcs = Function.update y.pcs p pc')
    (hmoves : Moves (ops p) y.shared z.shared (y.pcs p) pc')
    (hblocks : ∀ fFlags data, y.pcs p = .openBody fFlags (some data) →
      contentIsUnavailable y.shared.dev.dev fFlags ≠ 0 →
      hasFlag fFlags oNonblock = true)
    (htext : ∀ q cmd uncopied, z.pcs q = .ioctlCopy cmd uncopied →
      z.shared.retbuf = getCDDUsage cmd z.shared.dev.dev) :
    ∃ js t', (serial ops).Run t js t' ∧ Mirrors z.shared z.pcs t' := by
  have hR : ∀ a a' : Answer, a = a' → a'.hasOpened = a.hasOpened := by
    rintro a _ rfl
    rfl
  have hawake : (pc'.waitFlags ≠ none → pc'.result? ≠ none) →
      ∀ q, (z.pcs q).waitFlags ≠ none → (z.pcs q).result? ≠ none := by
    intro hself q hflags
    rw [hpcs] at hflags ⊢
    by_cases hq : q = p
    · subst hq
      rw [Function.update_self] at hflags ⊢
      exact hself hflags
    · rw [Function.update_of_ne hq] at hflags ⊢
      exact h.awake q hflags
  generalize hpc : y.pcs p = pc at hmoves
  generalize hop : ops p = op at hmoves
  generalize hw' : z.shared = w' at hmoves htext
  rw [hpcs] at hawake htext ⊢
  cases hmoves with
  | same hdev hresult hflags =>
      rw [← hpc] at hresult hflags
      refine ⟨[], t, .nil t, h.agree.same hresult, h.dev.trans hdev.symm,
        hawake ?_, htext⟩
      intro hwait
      rw [hresult]
      exact h.awake p (hflags hwait)
  | serves hnone hsome _ hserve =>
      rw [← hop, ← h.dev] at hserve
      refine ⟨[p], _, h.agree.run hR (by rw [hpc, hnone]) hadmits hserve,
        h.agree.settle hsome rfl, rfl, hawake (fun _ => ?_), htext⟩
      rw [hsome]
      exact Option.some_ne_none _
  | sleeps _ hun hnonblock _ =>
      rw [hblocks _ _ hpc hun] at hnonblock
      cases hnonblock
  | wakes _ _ _ =>
      have hsettled := h.awake p (by rw [hpc]; exact Option.some_ne_none _)
      rw [hpc] at hsettled
      exact absurd rfl hsettled
  | @copies via ioctlNum uncopied cmd text retval hioctl hcmd hw hfill hretval =>
      subst hw
      have hfilled := h.text p cmd uncopied hpc
      have hserve : (ops p).serve t.dev = some (t.dev, .ioctl retval
          (text.take (text.length - min uncopied text.length))) := by
        rw [hop, hioctl, h.dev, hretval, hfill, hfilled]
        simp only [Op.serve, cddIoctl, hcmd, ioctlBody]
      exact ⟨[p], _, h.agree.run hR (by rw [hpc]; rfl) hadmits hserve,
        h.agree.settle rfl rfl, h.dev,
        hawake (fun hwait => absurd rfl hwait), htext⟩

/-! ## Serialisation -/

theorem Ran.moves {ops : Nat → Op} {y z : Conc} {p : Nat} {signalPending : Bool}
    {es : List SyncEvent} {pc' : Pc} (hran : Ran ops y z p signalPending es pc')
    (hat : Op.At (ops p) (y.pcs p)) (hquiet : signalPending = false)
    (hfree : (y.pcs p).wants = some .write → y.sem.grants .write = true) :
    Moves (ops p) y.shared z.shared (y.pcs p) pc' := by
  refine Pc.step_moves hat (fun hwants => ?_) hquiet hran.step
  simp only [Conc.granted, hwants, hfree hwants]

theorem trails_step {major : Nat} {m : Minor} {ops : Nat → Op} {y z : Conc}
    {t : Serial} {turn : Turn} {o : Unit}
    (h : Sound ops y ∧ Trails major m y.shared y.pcs t)
    (hstep : (concurrent ops).step y turn = some (z, o))
    (hc : turn.Quiet ∧ LockFree y turn o z ∧ BufferKept y turn o z) :
    ∃ js t', (serial ops).Run t js t' ∧ Sound ops z ∧
      Trails major m z.shared z.pcs t' := by
  obtain ⟨hsound, htrails⟩ := h
  obtain ⟨hquiet, hfree, hkept⟩ := hc
  have hsound' := hsound.step hstep
  cases turn with
  | run p signalPending =>
      obtain ⟨es, pc', hran⟩ := ran_of_step hstep
      have hsignal : signalPending = false :=
        Bool.eq_false_iff.mpr fun hs => hquiet p (by rw [hs])
      have hmoves := hran.moves (hsound.inv.at p) hsignal
        (hfree p signalPending rfl)
      obtain ⟨js, t', hjs, ht'⟩ := htrails.ran (hsound.admits hran) hran.pcs
        hmoves (fun fFlags => hkept p signalPending fFlags rfl)
      exact ⟨js, t', hjs, hsound', ht'⟩
  | wake p =>
      obtain ⟨hshared, -, hpcs, -⟩ := wake_step hstep
      refine ⟨[], t, .nil t, hsound', ?_⟩
      rw [hshared, hpcs]
      exact htrails

theorem mirrors_step {ops : Nat → Op} {y z : Conc} {t : Serial} {turn : Turn}
    {o : Unit} (h : Sound ops y ∧ Mirrors y.shared y.pcs t)
    (hstep : (concurrent ops).step y turn = some (z, o))
    (hc : turn.Quiet ∧ LockFree y turn o z ∧ NoOpenWaits y turn o z ∧
      TextsApart y turn o z) :
    ∃ js t', (serial ops).Run t js t' ∧ Sound ops z ∧
      Mirrors z.shared z.pcs t' := by
  obtain ⟨hsound, hmirrors⟩ := h
  obtain ⟨hquiet, hfree, hblocks, hapart⟩ := hc
  have hsound' := hsound.step hstep
  cases turn with
  | run p signalPending =>
      obtain ⟨es, pc', hran⟩ := ran_of_step hstep
      have hsignal : signalPending = false :=
        Bool.eq_false_iff.mpr fun hs => hquiet p (by rw [hs])
      have hmoves := hran.moves (hsound.inv.at p) hsignal
        (hfree p signalPending rfl)
      have htext := text_ran hsound.inv hran hmirrors.text
        (fun cmd uncopied => hapart p signalPending cmd uncopied rfl)
      obtain ⟨js, t', hjs, ht'⟩ := hmirrors.ran (hsound.admits hran) hran.pcs
        hmoves (fun fFlags data => hblocks p signalPending fFlags data rfl) htext
      exact ⟨js, t', hjs, hsound', ht'⟩
  | wake p =>
      obtain ⟨hshared, -, hpcs, -⟩ := wake_step hstep
      refine ⟨[], t, .nil t, hsound', ?_⟩
      rw [hshared, hpcs]
      exact hmirrors

/-- The calls in `log`, executed one after another from `s`, lead to `t`; they
include every call that has returned in `y`, and its answer is the serial one
up to `R`. -/
structure SerialisedBy (R : Answer → Answer → Prop) (ops : Nat → Op)
    (s : DevState) (y : Conc) (log : List Nat) (t : Serial) : Prop where
  run : (serial ops).Run (Serial.start s) log t
  answers : ∀ p a, y.pcs p = .done a → ∃ a', t.answers p = some a' ∧ R a a'

/-- Every write that has returned and whose user copy succeeds has returned the
number of its bytes, unless its range did not fit when its turn came. -/
def WritesReturnCount (ops : Nat → Op) (s : DevState) (y : Conc)
    (log : List Nat) : Prop :=
  ∀ p via buf copy ppos retval ppos', ops p = .write via buf copy ppos →
    copy.uncopied = 0 → y.pcs p = .done (.write retval ppos') →
    retval = buf.length ∨ ∃ before after u, log = before ++ p :: after ∧
      (serial ops).Run (Serial.start s) before u ∧
      ¬ RangeFits u.dev.dev buf ppos

theorem SerialisedBy.write {ops : Nat → Op} {s : DevState} {y : Conc}
    {log : List Nat} {t : Serial}
    (h : SerialisedBy Answer.SameReturn ops s y log t) {p via : Nat}
    {buf : List Byte} {copy : UserCopy} {ppos retval ppos' : Int}
    (hop : ops p = .write via buf copy ppos) (hcopied : copy.uncopied = 0)
    (hp : y.pcs p = .done (.write retval ppos')) :
    retval = buf.length ∨ ∃ before after u, log = before ++ p :: after ∧
      (serial ops).Run (Serial.start s) before u ∧
      ¬ RangeFits u.dev.dev buf ppos ∧ retval = -efault := by
  obtain ⟨a', ha', hsame⟩ := h.answers p _ hp
  rcases serial_write h.run hop hcopied rfl ha' with
    rfl | ⟨before, after, u, hlog, hbefore, hfits, rfl⟩
  · exact .inl hsame.1
  · exact .inr ⟨before, after, u, hlog, hbefore, hfits, hsame.1⟩

/-- As long as no signal arrives and the lock is free whenever a call tries it,
contention does not show.  Every call returns what it returns in some serial
execution, and every write whose range fits returns its count; the calls also
read the same bytes and leave the same device when no open sleeps and no two
ioctls for different commands share the static buffer. -/
theorem concurrent_serialised {e : InitEnv} (h : (cddInit e).1 = 0) {m : Minor}
    {ops : Nat → Op} {retbuf : List Char} {ts : List Turn} {y : Conc}
    (hrun : (concurrent ops).Run
      (Conc.start ops ⟨(loaded e).devState m, retbuf⟩) ts y)
    (hquiet : ∀ t ∈ ts, t.Quiet)
    (hfree : (concurrent ops).EveryStep LockFree
      (Conc.start ops ⟨(loaded e).devState m, retbuf⟩) ts) :
    ((concurrent ops).EveryStep BufferKept
        (Conc.start ops ⟨(loaded e).devState m, retbuf⟩) ts →
      ∃ log t, SerialisedBy Answer.SameReturn ops ((loaded e).devState m) y log t ∧
        WritesReturnCount ops ((loaded e).devState m) y log) ∧
    ((concurrent ops).EveryStep NoOpenWaits
        (Conc.start ops ⟨(loaded e).devState m, retbuf⟩) ts →
      (concurrent ops).EveryStep TextsApart
        (Conc.start ops ⟨(loaded e).devState m, retbuf⟩) ts →
      ∃ log t, SerialisedBy Eq ops ((loaded e).devState m) y log t ∧
        t.dev = y.shared.dev) := by
  have hdev := (worldInv_loaded h).device m
  have hsound := sound_start ops ⟨(loaded e).devState m, retbuf⟩
  constructor
  · intro hkept
    obtain ⟨log, t, hlog, -, htrails⟩ := hrun.simulates trails_step
      ((hfree.and hkept).and_forall_mem hquiet) ⟨hsound, trails_start ops hdev⟩
    have hserialised : SerialisedBy Answer.SameReturn ops
        ((loaded e).devState m) y log t :=
      ⟨hlog, fun p a => htrails.agree.of_done⟩
    refine ⟨log, t, hserialised, ?_⟩
    intro p via buf copy ppos retval ppos' hop hcopied hp
    rcases hserialised.write hop hcopied hp with
      hall | ⟨before, after, u, hlog, hbefore, hfits, -⟩
    · exact .inl hall
    · exact .inr ⟨before, after, u, hlog, hbefore, hfits⟩
  · intro hblocks hapart
    obtain ⟨log, t, hlog, -, hmirrors⟩ := hrun.simulates mirrors_step
      ((hfree.and (hblocks.and hapart)).and_forall_mem hquiet)
      ⟨hsound, mirrors_start ops _⟩
    exact ⟨log, t, ⟨hlog, fun p a => hmirrors.agree.of_done⟩, hmirrors.dev⟩

def Conc.smooth (y : Conc) : Turn → Bool
  | .run p _ =>
      ((y.pcs p).wants ≠ some .write || y.sem.grants .write) &&
        match y.pcs p with
        | .openBody _ none | .ioctlUsage _ _ => false
        | .openBody fFlags (some _) =>
            contentIsUnavailable y.shared.dev.dev fFlags = 0
        | _ => true
  | .wake _ => true

theorem conditions_of_smooth {y z : Conc} {t : Turn} {o : Unit}
    (h : y.smooth t = true) :
    LockFree y t o z ∧ BufferKept y t o z ∧ NoOpenWaits y t o z ∧
      TextsApart y t o z := by
  refine ⟨?_, ?_, ?_, ?_⟩
  · rintro p signalPending rfl hwants
    simp only [Conc.smooth, Bool.and_eq_true, hwants] at h
    simpa using h.1
  · rintro p signalPending fFlags rfl hpc
    simp [Conc.smooth, hpc] at h
  · rintro p signalPending fFlags data rfl hpc hun
    simp only [Conc.smooth, Bool.and_eq_true, hpc, decide_eq_true_eq] at h
    exact absurd h.2 hun
  · rintro p signalPending cmd uncopied rfl hpc
    simp [Conc.smooth, hpc] at h

def twoWriters : Nat → Op
  | 0 => .openFile oWronly (some fun _ => 0)
  | 1 => .write 0 [65] .whole 0
  | _ => .write 0 [66] .whole 0

theorem concurrent_serialised_two_writers :
    ∃ y, (concurrent twoWriters).Run
        (Conc.start twoWriters ⟨(loaded undisturbed).devState 0, []⟩)
        ([0, 0, 0, 1, 1, 1, 2, 1, 2, 2, 2].map fun p => .run p false) y ∧
      (∃ log t, SerialisedBy Answer.SameReturn twoWriters
          ((loaded undisturbed).devState 0) y log t ∧
        WritesReturnCount twoWriters ((loaded undisturbed).devState 0) y log) ∧
      ∃ log t, SerialisedBy Eq twoWriters ((loaded undisturbed).devState 0)
        y log t ∧ t.dev = y.shared.dev := by
  have hruns : ((concurrent twoWriters).exec
      (Conc.start twoWriters ⟨(loaded undisturbed).devState 0, []⟩)
      ([0, 0, 0, 1, 1, 1, 2, 1, 2, 2, 2].map fun p => .run p false)).isSome =
        true := by decide
  have hsmooth : (concurrent twoWriters).check Conc.smooth
      (Conc.start twoWriters ⟨(loaded undisturbed).devState 0, []⟩)
      ([0, 0, 0, 1, 1, 1, 2, 1, 2, 2, 2].map fun p => .run p false) =
        true := by decide
  obtain ⟨y, hy⟩ := Option.isSome_iff_exists.mp hruns
  have hrun := Machine.run_of_exec hy
  have hquiet : ∀ t ∈ [0, 0, 0, 1, 1, 1, 2, 1, 2, 2, 2].map
      fun p => Turn.run p false, t.Quiet := by
    intro t ht q
    obtain ⟨p, -, rfl⟩ := List.mem_map.mp ht
    simp
  obtain ⟨hserialised, hexact⟩ := concurrent_serialised cddInit_undisturbed hrun
    hquiet (Machine.everyStep_of_check
      (fun _ _ _ _ hc => (conditions_of_smooth hc).1) hsmooth)
  exact ⟨y, hrun, hserialised (Machine.everyStep_of_check
      (fun _ _ _ _ hc => (conditions_of_smooth hc).2.1) hsmooth),
    hexact (Machine.everyStep_of_check
      (fun _ _ _ _ hc => (conditions_of_smooth hc).2.2.1) hsmooth)
      (Machine.everyStep_of_check
        (fun _ _ _ _ hc => (conditions_of_smooth hc).2.2.2) hsmooth)⟩

def Pc.written : Pc → Option (Int × Int)
  | .done (.write retval ppos) => some (retval, ppos)
  | _ => none

/-- The second write tries the lock while the first one holds it, and returns
what no serial execution returns. -/
theorem not_concurrent_serialised_trylock :
    (cddInit undisturbed).1 = 0 ∧
      ∃ y, (concurrent twoWriters).Run
          (Conc.start twoWriters ⟨(loaded undisturbed).devState 0, []⟩)
          ([0, 0, 0, 1, 2].map fun p => .run p false) y ∧
        ¬ ∃ log t, SerialisedBy Answer.SameReturn twoWriters
          ((loaded undisturbed).devState 0) y log t := by
  have hrun : ((concurrent twoWriters).exec
      (Conc.start twoWriters ⟨(loaded undisturbed).devState 0, []⟩)
      ([0, 0, 0, 1, 2].map fun p => .run p false)).map
        (fun y => (y.pcs 2).written) = some (some (-erestartsys, 0)) := by decide
  obtain ⟨y, hy, hmap⟩ := Option.map_eq_some_iff.mp hrun
  have hp : y.pcs 2 = .done (.write (-erestartsys) 0) := by
    unfold Pc.written at hmap
    split at hmap
    · next retval ppos hpc =>
        obtain ⟨rfl, rfl⟩ := Prod.mk.inj (Option.some.inj hmap)
        exact hpc
    · cases hmap
  refine ⟨cddInit_undisturbed, y, Machine.run_of_exec hy, ?_⟩
  rintro ⟨log, t, hserialised⟩
  have hop : twoWriters 2 = .write 0 [66] .whole 0 := rfl
  rcases hserialised.write hop rfl hp with hall | ⟨-, -, -, -, -, -, hfault⟩
  · exact absurd hall (by decide)
  · exact absurd hfault (by decide)

end CddDriver
