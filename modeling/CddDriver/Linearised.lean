import CddDriver.Contention
import CddDriver.Lib.Trace
import Mathlib.Tactic.Common
/-!
# The calls in real time

Calls that find the lock taken or are interrupted by a signal return
`-ERESTARTSYS`, and it is as if they had not been made.  The other calls have a
serial order in which a call that returns before another one starts comes first.
-/

namespace CddDriver

open Lib

/-! ## Refused calls -/

/-- The call has returned `-ERESTARTSYS`. -/
def Pc.refused : Pc → Bool
  | .done (.openFile r) => r = -erestartsys
  | .done (.write retval _) => retval = -erestartsys
  | _ => false

theorem Pc.refused_done {pc : Pc} (h : pc.refused = true) : ∃ a, pc = .done a := by
  cases pc with
  | done a => exact ⟨a, rfl⟩
  | _ => cases h

theorem Pc.not_hasOpened_of_refused {pc : Pc} (h : pc.refused = true) :
    pc.hasOpened = false := by
  obtain ⟨a, rfl⟩ := Pc.refused_done h
  cases a with
  | openFile r =>
      have hr : r = -erestartsys := of_decide_eq_true h
      rw [hr]
      rfl
  | _ => rfl

theorem Op.start_hasOpened (op : Op) : op.start.hasOpened = false := by
  cases op <;> rfl

theorem Pc.view_of_wants {pc : Pc} {mode : LockMode} (h : pc.wants = some mode) :
    pc.view = .idle := by
  cases pc with
  | openLock => rfl
  | waitRelock => rfl
  | readLock => rfl
  | writeLock => rfl
  | ioctlLock => rfl
  | _ => cases h

/-- A step does what a step does that gets its lock and no signal, or it ends
the call and leaves everything as it is. -/
theorem Pc.step_moves_or_refused {op : Op} {pc pc' : Pc}
    {locked signalPending : Bool} {w w' : Shared} {es : List SyncEvent}
    (hat : Op.At op pc)
    (h : pc.step locked signalPending w = some (es, w', pc')) :
    Moves op w w' pc pc' ∨
      (w' = w ∧ pc.result? = none ∧ pc'.refused = true) := by
  have hsteps := Pc.steps_of_step h
  cases hsteps with
  | openRefused => exact .inr ⟨rfl, rfl, rfl⟩
  | waitRefused => exact .inr ⟨rfl, rfl, rfl⟩
  | writeRefused => exact .inr ⟨rfl, rfl, rfl⟩
  | waitSignalled => exact .inr ⟨rfl, rfl, rfl⟩
  | waitUnsignalled hsignal =>
      exact .inl (Pc.step_moves hat (fun hwants => by cases hwants) hsignal h)
  | openLocked hlocked =>
      exact .inl (.keep rfl rfl rfl)
  | waitRelocked hlocked =>
      exact .inl (.wait rfl rfl (Option.some_ne_none _))
  | writeLocked hlocked =>
      exact .inl (.keep rfl rfl rfl)
  | _ =>
      -- no other step looks at the signals
      exact .inl (@Pc.step_moves op _ _ locked false w _ _ hat
        (fun hwants => by cases hwants) rfl h)

/-! ## The calls that count -/

/-- `pcs` is `y` without some of the calls that were refused. -/
def Spares (ops : Nat → Op) (y : Conc) (pcs : Nat → Pc) : Prop :=
  ∀ p, pcs p = y.pcs p ∨ ((y.pcs p).refused = true ∧ pcs p = (ops p).start)

section Spares

variable {ops : Nat → Op} {y z : Conc} {pcs : Nat → Pc} {p : Nat}
  {signalPending : Bool} {es : List SyncEvent} {pc' : Pc}

theorem spares_start (ops : Nat → Op) (w : Shared) :
    Spares ops (Conc.start ops w) (Conc.start ops w).pcs :=
  fun _ => .inl rfl

theorem Spares.admits (h : Spares ops y pcs) (op : Op) :
    Conc.admits { y with pcs := pcs } op = y.admits op := by
  have hopened : ∀ q, (pcs q).hasOpened = (y.pcs q).hasOpened := by
    intro q
    rcases h q with hq | ⟨hrefused, hq⟩
    · rw [hq]
    · rw [hq, Op.start_hasOpened, Pc.not_hasOpened_of_refused hrefused]
  simp only [Conc.admits, hopened]

theorem Spares.of_ran (h : Spares ops y pcs)
    (hran : Ran ops y z p signalPending es pc') : pcs p = y.pcs p := by
  rcases h p with hp | ⟨hrefused, -⟩
  · exact hp
  · obtain ⟨a, ha⟩ := Pc.refused_done hrefused
    have hstep := hran.step
    rw [ha] at hstep
    cases hstep

theorem Spares.update (h : Spares ops y pcs) (hpcs : z.pcs = Function.update y.pcs p pc')
    {pc : Pc} (hpc : pc = pc' ∨ (pc'.refused = true ∧ pc = (ops p).start)) :
    Spares ops z (Function.update pcs p pc) := by
  intro q
  rw [hpcs]
  by_cases hq : q = p
  · subst hq
    simpa only [Function.update_self] using hpc
  · simpa only [Function.update_of_ne hq] using h q

end Spares

/-! ## The simulations -/

section Steps

variable {ops : Nat → Op} {y z : Conc} {t : Serial} {turn : Turn} {o : Unit}

def TrailsSpared (major : Nat) (m : Minor) (ops : Nat → Op) (y : Conc)
    (t : Serial) : Prop :=
  Sound ops y ∧ ∃ pcs, Spares ops y pcs ∧ Trails major m y.shared pcs t

theorem trailsSpared_step {major : Nat} {m : Minor}
    (h : TrailsSpared major m ops y t)
    (hstep : (concurrent ops).step y turn = some (z, o))
    (hkept : BufferKept y turn o z) :
    ∃ js t', (serial ops).Run t js t' ∧ TrailsSpared major m ops z t' := by
  obtain ⟨hsound, pcs, hspares, htrails⟩ := h
  have hsound' := hsound.step hstep
  cases turn with
  | run p signalPending =>
      obtain ⟨es, pc', hran⟩ := ran_of_step hstep
      have hp := hspares.of_ran hran
      rcases Pc.step_moves_or_refused (hsound.inv.at p) hran.step with
        hmoves | ⟨hw, hnone, hrefused⟩
      · rw [← hp] at hmoves
        have hadmits := (hspares.admits (ops p)).trans (hsound.admits hran)
        obtain ⟨js, t', hjs, ht'⟩ := Trails.ran
          (y := { y with pcs := pcs })
          (z := { z with pcs := Function.update pcs p pc' }) htrails hadmits rfl
          hmoves (fun fFlags hpc => hkept p signalPending fFlags rfl (hp ▸ hpc))
        exact ⟨js, t', hjs, hsound', _, hspares.update hran.pcs (.inl rfl), ht'⟩
      · have hstart : (ops p).start.result? = (pcs p).result? := by
          rw [hp, hnone, Op.start_result?]
        have hspares' := hspares.update hran.pcs (.inr ⟨hrefused, rfl⟩)
        refine ⟨[], t, .nil t, hsound', _, hspares', ?_⟩
        rw [hw]
        exact ⟨htrails.agree.same hstart, htrails.alike, htrails.opened,
          htrails.waiting_update id fun hflags => absurd (Op.start_waitFlags _) hflags⟩
  | wake p =>
      obtain ⟨hshared, -, hpcs, -⟩ := wake_step hstep
      refine ⟨[], t, .nil t, hsound', pcs, fun q => ?_, ?_⟩
      · rw [hpcs]
        exact hspares q
      · rw [hshared]
        exact htrails

def MirrorsSpared (ops : Nat → Op) (y : Conc) (t : Serial) : Prop :=
  Sound ops y ∧ ∃ pcs, Spares ops y pcs ∧ Mirrors y.shared pcs t

theorem Spares.ioctlCopy {pcs : Nat → Pc} (h : Spares ops y pcs) {q : Nat}
    {cmd : UsageCmd} {uncopied : Nat} :
    pcs q = .ioctlCopy cmd uncopied ↔ y.pcs q = .ioctlCopy cmd uncopied := by
  rcases h q with hq | ⟨hrefused, hq⟩
  · rw [hq]
  · obtain ⟨a, ha⟩ := Pc.refused_done hrefused
    rw [hq, ha]
    constructor
    · intro hstart
      cases hop : ops q <;> rw [hop] at hstart <;> cases hstart
    · intro hdone
      cases hdone

theorem mirrorsSpared_step (h : MirrorsSpared ops y t)
    (hstep : (concurrent ops).step y turn = some (z, o))
    (hc : NoOpenWaits y turn o z ∧ TextsApart y turn o z) :
    ∃ js t', (serial ops).Run t js t' ∧ MirrorsSpared ops z t' := by
  obtain ⟨hsound, pcs, hspares, hmirrors⟩ := h
  obtain ⟨hblocks, hapart⟩ := hc
  have hsound' := hsound.step hstep
  cases turn with
  | run p signalPending =>
      obtain ⟨es, pc', hran⟩ := ran_of_step hstep
      have hp := hspares.of_ran hran
      have htext := text_ran hsound.inv hran
        (fun q cmd uncopied hq =>
          hmirrors.text q cmd uncopied (hspares.ioctlCopy.mpr hq))
        (fun cmd uncopied => hapart p signalPending cmd uncopied rfl)
      rcases Pc.step_moves_or_refused (hsound.inv.at p) hran.step with
        hmoves | ⟨hw, hnone, hrefused⟩
      · rw [← hp] at hmoves
        have hadmits := (hspares.admits (ops p)).trans (hsound.admits hran)
        have hspares' := hspares.update hran.pcs (.inl rfl)
        obtain ⟨js, t', hjs, ht'⟩ := Mirrors.ran
          (y := { y with pcs := pcs })
          (z := { z with pcs := Function.update pcs p pc' }) hmirrors hadmits rfl
          hmoves
          (fun fFlags data hpc =>
            hblocks p signalPending fFlags data rfl (hp ▸ hpc))
          (fun q cmd uncopied hq =>
            htext q cmd uncopied (hspares'.ioctlCopy.mp hq))
        exact ⟨js, t', hjs, hsound', _, hspares', ht'⟩
      · have hstart : (ops p).start.result? = (pcs p).result? := by
          rw [hp, hnone, Op.start_result?]
        have hspares' := hspares.update hran.pcs (.inr ⟨hrefused, rfl⟩)
        refine ⟨[], t, .nil t, hsound', _, hspares', ?_⟩
        refine ⟨hmirrors.agree.same hstart, by rw [hw]; exact hmirrors.dev,
          fun q hflags => ?_, fun q cmd uncopied hq =>
            htext q cmd uncopied (hspares'.ioctlCopy.mp hq)⟩
        by_cases hq : q = p
        · subst hq
          rw [Function.update_self, Op.start_waitFlags] at hflags
          exact absurd rfl hflags
        · rw [Function.update_of_ne hq] at hflags ⊢
          exact hmirrors.awake q hflags
  | wake p =>
      obtain ⟨hshared, -, hpcs, -⟩ := wake_step hstep
      refine ⟨[], t, .nil t, hsound', pcs, fun q => ?_, ?_⟩
      · rw [hpcs]
        exact hspares q
      · rw [hshared]
        exact hmirrors

end Steps

/-! ## The serial order -/

/-- A serial execution executes no call twice, and gives exactly the calls it
executes an answer. -/
theorem serial_log {ops : Nat → Op} {s t : Serial} {log : List Nat}
    (hrun : (serial ops).Run s log t) :
    log.Nodup ∧ (∀ p ∈ log, s.answers p = none) ∧
      ∀ p, t.answers p ≠ none ↔ s.answers p ≠ none ∨ p ∈ log := by
  induction hrun with
  | nil s =>
      refine ⟨List.nodup_nil, ?_, ?_⟩
      · intro p hp
        cases hp
      · intro p
        simp
  | @cons s u t q o log hstep _ ih =>
      obtain ⟨hnodup, hnew, hanswered⟩ := ih
      obtain ⟨hq, -, b, -, hanswers⟩ := serial_step_eq_some.mp hstep
      have hqu : u.answers q = some b := by rw [hanswers, Function.update_self]
      have hnot : q ∉ log := by
        intro hmem
        rw [hnew q hmem] at hqu
        cases hqu
      have hother : ∀ p, p ≠ q → u.answers p = s.answers p := by
        intro p hpq
        rw [hanswers, Function.update_of_ne hpq]
      refine ⟨List.nodup_cons.mpr ⟨hnot, hnodup⟩, ?_, ?_⟩
      · intro p hp
        rcases List.mem_cons.mp hp with rfl | hmem
        · exact hq
        · rw [← hother p (fun hpq => hnot (hpq ▸ hmem))]
          exact hnew p hmem
      · intro p
        rw [hanswered p, List.mem_cons]
        by_cases hpq : p = q
        · subst hpq
          simp [hqu]
        · rw [hother p hpq]
          simp [hpq]

theorem serial_mem_log {ops : Nat → Op} {s : DevState} {t : Serial}
    {log : List Nat} (hrun : (serial ops).Run (Serial.start s) log t) (p : Nat) :
    p ∈ log ↔ t.answers p ≠ none := by
  have hanswered := (serial_log hrun).2.2 p
  rw [hanswered]
  simp [Serial.start]

/-- The calls in `log`, executed one after another, lead to `t`.  A call that
has returned in `y` is among them with its answer up to `R`, or it was refused.
At every time of the run, the calls that have returned are in a first part of
the log and those that have not yet started are not. -/
structure Linearised (R : Answer → Answer → Prop) (ops : Nat → Op) (w : Shared)
    (ts : List Turn) (y : Conc) (log : List Nat) (t : Serial) : Prop where
  run : (serial ops).Run (Serial.start w.dev) log t
  nodup : log.Nodup
  answers : ∀ p a, y.pcs p = .done a →
    (∃ a', t.answers p = some a' ∧ R a a') ∨
      ((y.pcs p).refused = true ∧ p ∉ log)
  realTime : ∀ before after u, ts = before ++ after →
    (concurrent ops).Run (Conc.start ops w) before u →
      ∃ first rest, log = first ++ rest ∧
        (∀ p a, u.pcs p = .done a → p ∈ first ∨ (u.pcs p).refused = true) ∧
        ∀ p, u.pcs p = (ops p).start → p ∉ first

def AgreesSpared (R : Answer → Answer → Prop) (ops : Nat → Op) (y : Conc)
    (t : Serial) : Prop :=
  ∃ pcs, Spares ops y pcs ∧ Agree R pcs t

section Agrees

variable {R : Answer → Answer → Prop} {ops : Nat → Op} {y : Conc} {t : Serial}

theorem AgreesSpared.answers (h : AgreesSpared R ops y t) {p : Nat} {a : Answer}
    (hp : y.pcs p = .done a) :
    (∃ a', t.answers p = some a' ∧ R a a') ∨
      ((y.pcs p).refused = true ∧ t.answers p = none) := by
  obtain ⟨pcs, hspares, hagree⟩ := h
  rcases hspares p with hsame | ⟨hrefused, hstart⟩
  · exact .inl (hagree.of_done (hsame.trans hp))
  · have hnone : (pcs p).result? = none := by rw [hstart, Op.start_result?]
    exact .inr ⟨hrefused, hagree.eq_none hnone⟩

theorem AgreesSpared.not_started (h : AgreesSpared R ops y t) {p : Nat}
    (hp : y.pcs p = (ops p).start) : t.answers p = none := by
  obtain ⟨pcs, hspares, hagree⟩ := h
  apply hagree.eq_none
  rcases hspares p with hsame | ⟨-, hstart⟩
  · rw [hsame, hp, Op.start_result?]
  · rw [hstart, Op.start_result?]

theorem Linearised.of_agrees {w : Shared} {ts : List Turn} {log : List Nat}
    (hrun : (serial ops).Run (Serial.start w.dev) log t)
    (hlast : AgreesSpared R ops y t)
    (hparts : ∀ before after u, ts = before ++ after →
      (concurrent ops).Run (Conc.start ops w) before u →
        ∃ first rest v, log = first ++ rest ∧
          (serial ops).Run (Serial.start w.dev) first v ∧
          AgreesSpared R ops u v) :
    Linearised R ops w ts y log t := by
  refine ⟨hrun, (serial_log hrun).1, fun p a hp => ?_, ?_⟩
  · rcases hlast.answers hp with hexecuted | ⟨hrefused, hnone⟩
    · exact .inl hexecuted
    · exact .inr ⟨hrefused, fun hmem => (serial_mem_log hrun p).mp hmem hnone⟩
  · intro before after u hts hbefore
    obtain ⟨first, rest, v, hlog, hfirst, hagrees⟩ :=
      hparts before after u hts hbefore
    refine ⟨first, rest, hlog, fun p a hp => ?_, fun p hp hmem => ?_⟩
    · rcases hagrees.answers hp with ⟨a', ha', -⟩ | ⟨hrefused, -⟩
      · left
        apply (serial_mem_log hfirst p).mpr
        rw [ha']
        exact Option.some_ne_none a'
      · exact .inr hrefused
    · exact (serial_mem_log hfirst p).mp hmem (hagrees.not_started hp)

end Agrees

/-- Whether or not signals arrive and locks are taken, the calls have a serial
order in real time, without those that return `-ERESTARTSYS`; these do nothing.
Every other call returns what it returns in that order, as long as no open loses
a buffer; the calls also read the same bytes and leave the same device when no
open sleeps and no two ioctls for different commands share the static buffer. -/
theorem concurrent_linearised {e : InitEnv} (h : (cddInit e).1 = 0) {m : Minor}
    {ops : Nat → Op} {retbuf : List Char} {ts : List Turn} {y : Conc}
    (hrun : (concurrent ops).Run
      (Conc.start ops ⟨(loaded e).devState m, retbuf⟩) ts y) :
    ((concurrent ops).EveryStep BufferKept
        (Conc.start ops ⟨(loaded e).devState m, retbuf⟩) ts →
      ∃ log t, Linearised Answer.SameReturn ops
        ⟨(loaded e).devState m, retbuf⟩ ts y log t) ∧
    ((concurrent ops).EveryStep NoOpenWaits
        (Conc.start ops ⟨(loaded e).devState m, retbuf⟩) ts →
      (concurrent ops).EveryStep TextsApart
        (Conc.start ops ⟨(loaded e).devState m, retbuf⟩) ts →
      ∃ log t, Linearised Eq ops ⟨(loaded e).devState m, retbuf⟩ ts y log t ∧
        t.dev = y.shared.dev) := by
  have hdev := (worldInv_loaded h).device m
  have hsound := sound_start ops ⟨(loaded e).devState m, retbuf⟩
  have hspares := spares_start ops ⟨(loaded e).devState m, retbuf⟩
  constructor
  · intro hkept
    obtain ⟨log, t, hlog, ⟨-, pcs, hlast, htrails⟩, hparts⟩ :=
      hrun.simulates_along trailsSpared_step hkept
        ⟨hsound, _, hspares, trails_start ops hdev⟩
    refine ⟨log, t, .of_agrees hlog ⟨pcs, hlast, htrails.agree⟩ ?_⟩
    intro before after u hts hbefore
    obtain ⟨first, rest, v, hlog, hfirst, -, pcs, hspares, htrails⟩ :=
      hparts before after u hts hbefore
    exact ⟨first, rest, v, hlog, hfirst, pcs, hspares, htrails.agree⟩
  · intro hblocks hapart
    obtain ⟨log, t, hlog, ⟨-, pcs, hlast, hmirrors⟩, hparts⟩ :=
      hrun.simulates_along mirrorsSpared_step (hblocks.and hapart)
        ⟨hsound, _, hspares, mirrors_start ops _⟩
    refine ⟨log, t, .of_agrees hlog ⟨pcs, hlast, hmirrors.agree⟩ ?_,
      hmirrors.dev⟩
    intro before after u hts hbefore
    obtain ⟨first, rest, v, hlog, hfirst, -, pcs, hspares, hmirrors⟩ :=
      hparts before after u hts hbefore
    exact ⟨first, rest, v, hlog, hfirst, pcs, hspares, hmirrors.agree⟩

theorem bufferKept_step {ops : Nat → Op}
    (hops : ∀ p fFlags, ops p ≠ .openFile fFlags none) {y z : Conc} {turn : Turn}
    {o : Unit} (hy : ConcInv ops y) : BufferKept y turn o z := by
  intro p _ fFlags _ hpc
  have hat := hy.at p
  rw [hpc] at hat
  generalize hop : ops p = op at hat
  cases hat with
  | openBody => exact absurd hop (hops p fFlags)
  | waiting hflags _ => cases hflags

theorem bufferKept_of_memory {ops : Nat → Op}
    (hops : ∀ p fFlags, ops p ≠ .openFile fFlags none) {y : Conc}
    (hy : ConcInv ops y) (ts : List Turn) :
    (concurrent ops).EveryStep BufferKept y ts := by
  induction ts generalizing y with
  | nil => trivial
  | cons turn ts ih =>
      intro z o hstep
      exact ⟨bufferKept_step hops hy, ih (hy.step hstep)⟩

theorem concurrent_linearised_two_writers :
    ∃ y, (concurrent twoWriters).Run
        (Conc.start twoWriters ⟨(loaded undisturbed).devState 0, []⟩)
        ([0, 0, 0, 1, 2, 1, 1, 1].map fun p => .run p false) y ∧
      (y.pcs 2).refused = true ∧
      ∃ log t, Linearised Answer.SameReturn twoWriters
        ⟨(loaded undisturbed).devState 0, []⟩
        ([0, 0, 0, 1, 2, 1, 1, 1].map fun p => .run p false) y log t := by
  have hexec : ((concurrent twoWriters).exec
      (Conc.start twoWriters ⟨(loaded undisturbed).devState 0, []⟩)
      ([0, 0, 0, 1, 2, 1, 1, 1].map fun p => .run p false)).map
        (fun y => (y.pcs 2).refused) = some true := by decide
  obtain ⟨y, hy, hrefused⟩ := Option.map_eq_some_iff.mp hexec
  have hrun := Machine.run_of_exec hy
  have hmemory : ∀ p fFlags, twoWriters p ≠ .openFile fFlags none := by
    intro p fFlags
    match p with
    | 0 => simp [twoWriters]
    | 1 => simp [twoWriters]
    | _ + 2 => simp [twoWriters]
  have hkept := bufferKept_of_memory hmemory
    (concInv_start twoWriters ⟨(loaded undisturbed).devState 0, []⟩)
    ([0, 0, 0, 1, 2, 1, 1, 1].map fun p => .run p false)
  exact ⟨y, hrun, hrefused, (concurrent_linearised cddInit_undisturbed hrun).1 hkept⟩

end CddDriver
