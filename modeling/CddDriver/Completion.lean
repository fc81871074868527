import CddDriver.OpenPost
import CddDriver.Progress
import Mathlib.Tactic.Common
/-!
# Every call comes to its end

From wherever the calls of many processes have come, each call can be brought
to its return without any signal, and without a wake-up other than that of
`release_oblk`.  Only an open that came for content that is not there ends up
asleep.
-/

namespace CddDriver

open Lib

/-! ## The opens that wait are readers -/

theorem contentIsUnavailable_rdonly {d : CDDdev} {fFlags : Nat}
    (h : contentIsUnavailable d fFlags ≠ 0) : fFlags &&& oAccmode = oRdonly := by
  by_contra hwriter
  exact h (contentIsUnavailable_writer hwriter)

theorem contentIsUnavailable_mono {d d' : CDDdev} {fFlags : Nat}
    (hle : d'.counter ≤ d.counter) (h : contentIsUnavailable d fFlags ≠ 0) :
    contentIsUnavailable d' fFlags ≠ 0 := by
  intro hzero
  obtain ⟨hpos, htrunc⟩ :=
    contentIsUnavailable_eq_zero (contentIsUnavailable_rdonly h) hzero
  have hempty := contentIsUnavailable_reader htrunc h
  omega

theorem Pc.step_waitFlags {locked signalPending : Bool} {w w' : Shared}
    {pc pc' : Pc} {es : List SyncEvent} {fFlags : Nat}
    (h : pc.step locked signalPending w = some (es, w', pc'))
    (hflags : pc'.waitFlags = some fFlags) :
    pc.waitFlags = some fFlags ∨ fFlags &&& oAccmode = oRdonly := by
  cases Pc.steps_of_step h with
  | openEmpty hun =>
      obtain rfl := Option.some.inj hflags
      exact .inr (contentIsUnavailable_rdonly hun)
  | waitUnlocks => exact .inl hflags
  | waitQueues => exact .inl hflags
  | waitSleeps => exact .inl hflags
  | waitStays => exact .inl hflags
  | waitAwakes => exact .inl hflags
  | waitDequeues => exact .inl hflags
  | waitUnsignalled => exact .inl hflags
  | waitRelocked => exact .inl hflags
  | waitAgain => exact .inl hflags
  | _ => cases hflags

def WaitersRead (y : Conc) : Prop :=
  ∀ p fFlags, (y.pcs p).waitFlags = some fFlags → fFlags &&& oAccmode = oRdonly

theorem waitersRead_start (ops : Nat → Op) (w : Shared) :
    WaitersRead (Conc.start ops w) := by
  intro p fFlags hp
  simp only [Conc.start] at hp
  cases hop : ops p <;> rw [hop] at hp <;> cases hp

theorem WaitersRead.step {ops : Nat → Op} {y z : Conc} {t : Turn} {o : Unit}
    (h : WaitersRead y) (hstep : (concurrent ops).step y t = some (z, o)) :
    WaitersRead z := by
  intro p fFlags hp
  cases t with
  | run q signalPending =>
      obtain ⟨es, pc', hran⟩ := ran_of_step hstep
      rw [hran.pcs] at hp
      by_cases hpq : p = q
      · subst hpq
        rw [Function.update_self] at hp
        exact (Pc.step_waitFlags hran.step hp).elim (h p fFlags) id
      · rw [Function.update_of_ne hpq] at hp
        exact h p fFlags hp
  | wake q =>
      obtain ⟨-, -, hpcs, -⟩ := wake_step hstep
      rw [hpcs] at hp
      exact h p fFlags hp

/-! ## The turns of a call that nobody disturbs -/

/-- A bound on the turns that a call takes from a point on when no signal is
pending and nobody else has a turn.  Without content an open that has been woken
goes round once before it sleeps. -/
def Pc.quietLeft (d : CDDdev) (woken : Bool) : Pc → Nat
  | .openLock fFlags _ => if contentIsUnavailable d fFlags = 0 then 3 else 5
  | .openBody fFlags _ => if contentIsUnavailable d fFlags = 0 then 2 else 4
  | .waitUnlock fFlags => if contentIsUnavailable d fFlags = 0 then 8 else 3
  | .waitPrepare fFlags => if contentIsUnavailable d fFlags = 0 then 7 else 2
  | .waitRetest fFlags =>
      if contentIsUnavailable d fFlags = 0 then 6 else if woken then 9 else 1
  | .waitSchedule fFlags =>
      if contentIsUnavailable d fFlags = 0 then 6 else if woken then 8 else 0
  | .waitFinish fFlags => if contentIsUnavailable d fFlags = 0 then 5 else 7
  | .waitSignal fFlags => if contentIsUnavailable d fFlags = 0 then 4 else 6
  | .waitRelock fFlags => if contentIsUnavailable d fFlags = 0 then 3 else 5
  | .waitTest fFlags => if contentIsUnavailable d fFlags = 0 then 2 else 4
  | pc => pc.left

theorem Pc.quietLeft_le (d : CDDdev) (woken : Bool) (pc : Pc) :
    pc.quietLeft d woken ≤ 9 := by
  cases pc with
  | waitRetest fFlags =>
      simp only [quietLeft]
      split
      · omega
      · split <;> omega
  | waitSchedule fFlags =>
      simp only [quietLeft]
      split
      · omega
      · split <;> omega
  | _ =>
      simp only [quietLeft, left]
      first
        | omega
        | split <;> omega

/-- A step without a signal, from a point at which the call does not sleep. -/
theorem Pc.step_quietLeft {locked : Bool} {w w' : Shared} {pc pc' : Pc}
    {es : List SyncEvent} {woken woken' : Bool}
    (h : pc.step locked false w = some (es, w', pc'))
    (hawake : ∀ fFlags, pc = .waitSchedule fFlags → woken = true)
    (hwoken : es = [] → woken' = woken) (hqueues : es = [.enqueue] → woken' = false) :
    pc'.quietLeft w'.dev.dev woken' < pc.quietLeft w.dev.dev woken := by
  cases Pc.steps_of_step h with
  | openEmpty hun hbody =>
      have hun' := contentIsUnavailable_mono (openBody_counter hbody) hun
      simp only [quietLeft, if_neg hun, if_neg hun']
      omega
  | waitQueues =>
      simp only [quietLeft, hqueues rfl]
      split <;> simp
  | waitSleeps hun =>
      simp only [quietLeft, if_neg hun, hwoken rfl]
      split <;> omega
  | waitStays hcontent =>
      simp only [quietLeft, if_pos hcontent]
      omega
  | waitAwakes =>
      simp only [quietLeft, hawake _ rfl, if_true]
      split <;> omega
  | waitAgain hun =>
      simp only [quietLeft, if_neg hun]
      omega
  | waitEnds hcontent =>
      simp only [quietLeft, if_pos hcontent, left]
      omega
  | waitSignalled hsignal => cases hsignal
  | _ =>
      simp only [quietLeft, left]
      first
        | omega
        | split <;> omega

def Conc.quietLeft (y : Conc) (p : Nat) : Nat :=
  (y.pcs p).quietLeft y.shared.dev.dev (y.queue.woken p)

theorem Ran.quietLeft {ops : Nat → Op} {y z : Conc} {p : Nat}
    {es : List SyncEvent} {pc' : Pc} (hran : Ran ops y z p false es pc')
    (hawake : ∀ fFlags, y.pcs p = .waitSchedule fFlags → y.queue.woken p = true) :
    z.quietLeft p < y.quietLeft p := by
  have hat : z.pcs p = pc' := by rw [hran.pcs, Function.update_self]
  unfold Conc.quietLeft
  rw [hat]
  refine Pc.step_quietLeft hran.step hawake ?_ ?_
  · rintro rfl
    rw [hran.silent.2]
  · rintro rfl
    rw [hran.emitted.2]
    simp [WaitQueue.apply]

/-! ## The way to the end -/

/-- The call has returned, or is an open that sleeps on a device that has no
content for it. -/
def Rests (y : Conc) (p : Nat) : Prop :=
  (∃ a, y.pcs p = .done a) ∨
    ∃ fFlags, y.pcs p = .waitSchedule fFlags ∧ y.queue.woken p = false ∧
      contentIsUnavailable y.shared.dev.dev fFlags ≠ 0

def Alert (y : Conc) (p : Nat) : Prop :=
  ∀ fFlags, y.pcs p = .waitSchedule fFlags →
    y.queue.woken p = true ∨ contentIsUnavailable y.shared.dev.dev fFlags ≠ 0

section Completion

variable {major : Nat} {m : Minor} {ops : Nat → Op} {y z : Conc} {t : Serial}
  {p q : Nat} {signalPending : Bool} {es : List SyncEvent} {pc' : Pc}

theorem Ran.admits (hran : Ran ops y z p signalPending es pc') {op : Op}
    (hop : y.admits op = true) : z.admits op = true :=
  Op.admitted_mono (fun _ => hran.hasOpened) hop

theorem Ran.writer (hran : Ran ops y z p signalPending es pc')
    (hq : z.sem.writer = some q) : q = p ∨ y.sem.writer = some q := by
  rcases hran.event with ⟨-, hsem, -⟩ | ⟨e, -, hsem, -⟩
  · right
    rw [← hsem, hq]
  · rw [hsem] at hq
    cases e with
    | acquire mode =>
        cases mode with
        | write => exact .inl (Option.some.inj hq).symm
        | read => exact .inr hq
    | release mode =>
        cases mode with
        | write => cases hq
        | read => exact .inr hq
    | _ => exact .inr hq

theorem TrailsSpared.turn_ran (h : TrailsSpared major m ops y t)
    (hmemory : ∀ p fFlags, ops p ≠ .openFile fFlags none)
    (hready : y.ready ops p = true) (hadmits : y.admits (ops p) = true)
    (hlock : (y.pcs p).wants = some .read → y.sem.writer = none)
    (hunreturned : ∀ a, y.pcs p ≠ .done a) :
    ∃ z t' es pc', (concurrent ops).step y (.run p false) = some (z, ()) ∧
      TrailsSpared major m ops z t' ∧ Ran ops y z p false es pc' := by
  obtain ⟨z, hz⟩ := h.turn hready hadmits hlock hunreturned false
  obtain ⟨-, t', -, ht'⟩ :=
    trailsSpared_step h hz (bufferKept_step hmemory h.1.inv)
  obtain ⟨es, pc', hran⟩ := ran_of_step hz
  exact ⟨z, t', es, pc', hz, ht', hran⟩

/-! ### The process that holds the lock for writing -/

def Pc.unlocks : Pc → Bool
  | .openUnlock _ | .waitUnlock _ | .writeUnlock _ _ => true
  | _ => false

theorem Pc.step_unlocks {locked : Bool} {w w' : Shared} {pc : Pc}
    (h : pc.step locked signalPending w = some (es, w', pc'))
    (hunlocks : pc.unlocks = true) : es = [.release .write] := by
  cases Pc.steps_of_step h with
  | openReturns => rfl
  | waitGivesUp => rfl
  | waitUnlocks => rfl
  | writeUnlocks => rfl
  | writeFails => rfl
  | _ => cases hunlocks

theorem Pc.step_holding {locked : Bool} {w w' : Shared} {pc : Pc}
    (h : pc.step locked signalPending w = some (es, w', pc'))
    (hheld : pc.view.held = some .write) (hunlocks : pc.unlocks = false) :
    es = [] ∧ pc'.unlocks = true := by
  cases Pc.steps_of_step h with
  | openNoMemory => exact ⟨rfl, rfl⟩
  | openEmpty => exact ⟨rfl, rfl⟩
  | openFilled => exact ⟨rfl, rfl⟩
  | waitAgain => exact ⟨rfl, rfl⟩
  | waitEnds => exact ⟨rfl, rfl⟩
  | writeStores => exact ⟨rfl, rfl⟩
  | openReturns => cases hunlocks
  | waitGivesUp => cases hunlocks
  | waitUnlocks => cases hunlocks
  | writeUnlocks => cases hunlocks
  | writeFails => cases hunlocks
  | _ => cases hheld

theorem Ran.unlocked (hran : Ran ops y z p signalPending es pc')
    (hunlocks : (y.pcs p).unlocks = true) : z.sem.writer = none := by
  obtain rfl := Pc.step_unlocks hran.step hunlocks
  rw [hran.emitted.1]
  rfl

theorem TrailsSpared.writer_turn (h : TrailsSpared major m ops y t)
    (hmemory : ∀ p fFlags, ops p ≠ .openFile fFlags none)
    (hq : y.sem.writer = some q) :
    ∃ z t' es pc', (concurrent ops).step y (.run q false) = some (z, ()) ∧
      TrailsSpared major m ops z t' ∧ Ran ops y z q false es pc' := by
  have hheld := (h.1.inv.sem.writer q).mpr hq
  have hwants : (y.pcs q).wants ≠ some .read := by
    intro hwants
    rw [Pc.view_of_wants hwants] at hheld
    cases hheld
  have hbegun : (y.pcs q).begun = true := by
    cases hpc : y.pcs q <;> rw [hpc] at hheld <;> first
      | rfl
      | cases hheld
  have hready : y.ready ops q = true := by
    cases hpc : y.pcs q <;> rw [hpc] at hheld <;> simp only [Conc.ready, hpc] <;>
      cases hheld
  refine h.turn_ran hmemory hready (h.1.admitted q hbegun)
    (fun hread => absurd hread hwants) ?_
  intro a ha
  rw [ha] at hheld
  cases hheld

/-- Within two turns of the process that holds it, the lock is free, and the
other processes are where they were. -/
theorem TrailsSpared.lock_released (h : TrailsSpared major m ops y t)
    (hmemory : ∀ p fFlags, ops p ≠ .openFile fFlags none)
    (hq : y.sem.writer = some q) {op : Op} (hadmits : y.admits op = true) :
    ∃ ts z t', (concurrent ops).Run y ts z ∧ TrailsSpared major m ops z t' ∧
      z.sem.writer = none ∧ (∀ r, r ≠ q → z.pcs r = y.pcs r) ∧
      z.admits op = true ∧ ts.length ≤ 2 ∧ ∀ turn ∈ ts, turn = .run q false := by
  obtain ⟨z, t', es, pc', hz, ht', hran⟩ := h.writer_turn hmemory hq
  have hheld := (h.1.inv.sem.writer q).mpr hq
  have hothers : ∀ r, r ≠ q → z.pcs r = y.pcs r := by
    intro r hr
    rw [hran.pcs, Function.update_of_ne hr]
  cases hunlocks : (y.pcs q).unlocks with
  | true =>
      refine ⟨[.run q false], z, t', .cons hz (.nil z), ht', hran.unlocked hunlocks,
        hothers, hran.admits hadmits, by simp, ?_⟩
      intro turn hturn
      exact List.mem_singleton.mp hturn
  | false =>
      obtain ⟨rfl, hunlocks'⟩ := Pc.step_holding hran.step hheld hunlocks
      have hat : z.pcs q = pc' := by rw [hran.pcs, Function.update_self]
      obtain ⟨z', t'', es', pc'', hz', ht'', hran'⟩ :=
        ht'.writer_turn hmemory (by rw [hran.silent.1]; exact hq)
      refine ⟨[.run q false, .run q false], z', t'', .cons hz (.cons hz' (.nil z')),
        ht'', hran'.unlocked (by rw [hat]; exact hunlocks'), ?_,
        hran'.admits (hran.admits hadmits), by simp, ?_⟩
      · intro r hr
        rw [hran'.pcs, Function.update_of_ne hr, hothers r hr]
      · intro turn hturn
        simpa using hturn

/-- If another process holds the lock for writing, it gives it back. -/
theorem TrailsSpared.lock_obtainable (h : TrailsSpared major m ops y t)
    (hmemory : ∀ p fFlags, ops p ≠ .openFile fFlags none)
    (hadmits : y.admits (ops p) = true) :
    ∃ ts z t', (concurrent ops).Run y ts z ∧ TrailsSpared major m ops z t' ∧
      z.admits (ops p) = true ∧ (∀ q, z.sem.writer = some q → q = p) ∧
      ts.length ≤ 2 ∧ (∀ q, y.sem.writer = some q ∨ z.pcs q = y.pcs q) ∧
      ∀ turn ∈ ts, ∃ q, turn = .run q false ∧ y.sem.writer = some q := by
  by_cases hother : ∃ q, y.sem.writer = some q ∧ q ≠ p
  · obtain ⟨q, hq, -⟩ := hother
    obtain ⟨ts, z, t', hts, ht', hfree, hsame, hadmits', hlen, hturns⟩ :=
      h.lock_released hmemory hq hadmits
    refine ⟨ts, z, t', hts, ht', hadmits', ?_, hlen, ?_, ?_⟩
    · intro r hr
      rw [hfree] at hr
      cases hr
    · intro r
      by_cases hr : r = q
      · exact .inl (hr ▸ hq)
      · exact .inr (hsame r hr)
    · intro turn hturn
      exact ⟨q, hturns turn hturn, hq⟩
  · refine ⟨[], y, t, .nil y, h, hadmits, ?_, Nat.zero_le 2, fun _ => .inr rfl,
      fun _ hturn => by cases hturn⟩
    intro q hq
    by_contra hqp
    exact hother ⟨q, hq, hqp⟩

/-! ### The process that owes the wake-up -/

theorem TrailsSpared.wakes (h : TrailsSpared major m ops y t)
    (hmemory : ∀ p fFlags, ops p ≠ .openFile fFlags none)
    (howes : (y.pcs q).owesWakeUp = true) (hq : y.sem.writer ≠ some q)
    {fFlags : Nat} (hp : y.pcs p = .waitSchedule fFlags) :
    ∃ z t', (concurrent ops).step y (.run q false) = some (z, ()) ∧
      TrailsSpared major m ops z t' ∧ z.sem = y.sem ∧ z.shared = y.shared ∧
      z.pcs p = y.pcs p ∧ z.queue.woken p = true ∧
      ∀ op, y.admits op = true → z.admits op = true := by
  have hqp : p ≠ q := by
    rintro rfl
    rw [hp] at howes
    cases howes
  cases hpc : y.pcs q with
  | writeUnlock retval ppos =>
      exact absurd ((h.1.inv.sem.writer q).mp (by rw [hpc]; rfl)) hq
  | writeWake retval ppos =>
      have hready : y.ready ops q = true := by simp only [Conc.ready, hpc]
      have hwants : (y.pcs q).wants ≠ some .read := by
        rw [hpc]
        simp [Pc.wants]
      obtain ⟨z, t', es, pc', hz, ht', hran⟩ := h.turn_ran hmemory hready
        (h.1.admitted q (by rw [hpc]; rfl)) (fun hread => absurd hread hwants)
        (by simp [hpc])
      obtain ⟨rfl, hshared⟩ : es = [.wakeAll] ∧ z.shared = y.shared := by
        have hstep := hran.step
        rw [hpc] at hstep
        obtain ⟨hes, heq⟩ := Prod.mk.inj (Option.some.inj hstep)
        exact ⟨hes.symm, (Prod.mk.inj heq).1.symm⟩
      obtain ⟨hsem, hqueue⟩ := hran.emitted
      refine ⟨z, t', hz, ht', hsem, hshared, ?_, ?_, fun op => hran.admits⟩
      · rw [hran.pcs, Function.update_of_ne hqp]
      · have hqueued : y.queue.queued p = true := by
          rw [h.1.inv.queue p, hp]
          rfl
        rw [hqueue]
        simp [WaitQueue.apply, hqueued]
  | _ => rw [hpc] at howes; cases howes

/-- A sleeper for which there is content is woken by a process that owes the
wake-up. -/
theorem TrailsSpared.alert (h : TrailsSpared major m ops y t)
    (hmemory : ∀ p fFlags, ops p ≠ .openFile fFlags none)
    (howed : WakeUpOwed y) (hreaders : WaitersRead y)
    (hadmits : y.admits (ops p) = true)
    (hwriter : ∀ q, y.sem.writer = some q → q = p) :
    ∃ ts z t', (concurrent ops).Run y ts z ∧ TrailsSpared major m ops z t' ∧
      z.admits (ops p) = true ∧ (∀ q, z.sem.writer = some q → q = p) ∧
      Alert z p ∧ ts.length + z.quietLeft p ≤ 9 ∧
      ∀ turn ∈ ts, ∃ q, turn = .run q false ∧ (y.pcs q).owesWakeUp = true := by
  by_cases halert : Alert y p
  · refine ⟨[], y, t, .nil y, h, hadmits, hwriter, halert, ?_,
      fun _ hturn => by cases hturn⟩
    rw [List.length_nil, Nat.zero_add]
    exact Pc.quietLeft_le _ _ _
  · simp only [Alert, not_forall, not_or, Bool.not_eq_true, not_not] at halert
    obtain ⟨fFlags, hp, hasleep, hcontent⟩ := halert
    obtain ⟨hcounter, htrunc⟩ := contentIsUnavailable_eq_zero
      (hreaders p fFlags (by rw [hp]; rfl)) hcontent
    obtain ⟨q, howes⟩ := howed p fFlags hp htrunc hasleep hcounter
    have hq : y.sem.writer ≠ some q := by
      intro hq
      obtain rfl := hwriter q hq
      rw [hp] at howes
      cases howes
    obtain ⟨z, t', hz, ht', hsem, hshared, hsame, hwoken, hadmits'⟩ :=
      h.wakes hmemory howes hq hp
    refine ⟨[.run q false], z, t', .cons hz (.nil z), ht', hadmits' _ hadmits,
      by rw [hsem]; exact hwriter, fun _ _ => .inl hwoken, ?_, ?_⟩
    · simp only [Conc.quietLeft, hsame, hp, hshared, Pc.quietLeft, if_pos hcontent,
        List.length_singleton]
      omega
    · intro turn hturn
      exact ⟨q, List.mem_singleton.mp hturn, howes⟩

/-! ### The process itself -/

theorem TrailsSpared.closer (h : TrailsSpared major m ops y t)
    (hmemory : ∀ p fFlags, ops p ≠ .openFile fFlags none)
    (hadmits : y.admits (ops p) = true)
    (hwriter : ∀ q, y.sem.writer = some q → q = p)
    (halert : Alert y p) (hunrested : ¬ Rests y p) :
    ∃ z t', (concurrent ops).step y (.run p false) = some (z, ()) ∧
      TrailsSpared major m ops z t' ∧ z.admits (ops p) = true ∧
      (∀ q, z.sem.writer = some q → q = p) ∧ Alert z p ∧
      z.quietLeft p < y.quietLeft p := by
  obtain ⟨hunreturned, hsleep⟩ := not_or.mp hunrested
  have hawake : ∀ fFlags, y.pcs p = .waitSchedule fFlags →
      y.queue.woken p = true := by
    intro fFlags hp
    by_contra hasleep
    exact hsleep ⟨fFlags, hp, Bool.eq_false_iff.mpr hasleep,
      (halert fFlags hp).resolve_left hasleep⟩
  have hready : y.ready ops p = true := by
    cases hpc : y.pcs p with
    | waitSchedule fFlags => simp only [Conc.ready, hpc, hawake fFlags hpc]
    | _ => simp only [Conc.ready, hpc, hadmits]
  have hlock : (y.pcs p).wants = some .read → y.sem.writer = none := by
    intro hwants
    cases hq : y.sem.writer with
    | none => rfl
    | some q => exact absurd (hwriter q hq) (h.1.inv.writer_ne hwants hq)
  obtain ⟨z, t', es, pc', hz, ht', hran⟩ :=
    h.turn_ran hmemory hready hadmits hlock (not_exists.mp hunreturned)
  refine ⟨z, t', hz, ht', hran.admits hadmits, ?_, ?_, hran.quietLeft hawake⟩
  · intro q hq
    exact (hran.writer hq).elim id (hwriter q)
  · intro fFlags hp
    rw [hran.pcs, Function.update_self] at hp
    have hstep := hran.step
    rw [hp] at hstep
    -- it has just looked at the counter
    obtain ⟨hshared, hun⟩ := Pc.step_waitSchedule hstep
    rw [hshared]
    exact .inr hun

theorem TrailsSpared.comes_to_rest (h : TrailsSpared major m ops y t)
    (hmemory : ∀ p fFlags, ops p ≠ .openFile fFlags none)
    (hadmits : y.admits (ops p) = true)
    (hwriter : ∀ q, y.sem.writer = some q → q = p) (halert : Alert y p) :
    ∃ ts z, (concurrent ops).Run y ts z ∧ Rests z p ∧
      ts.length ≤ y.quietLeft p ∧ ∀ turn ∈ ts, turn = .run p false := by
  generalize hleft : y.quietLeft p = n
  induction n using Nat.strong_induction_on generalizing y t with
  | h n ih =>
      by_cases hrests : Rests y p
      · exact ⟨[], y, .nil y, hrests, Nat.zero_le n,
          fun _ hturn => by cases hturn⟩
      · obtain ⟨z, t', hz, ht', hadmits', hwriter', halert', hlt⟩ :=
          h.closer hmemory hadmits hwriter halert hrests
        obtain ⟨ts, u, hts, hu, hlen, hturns⟩ :=
          ih _ (hleft ▸ hlt) ht' hadmits' hwriter' halert' rfl
        refine ⟨.run p false :: ts, u, .cons hz hts, hu, ?_, ?_⟩
        · rw [List.length_cons]
          omega
        · intro turn hturn
          exact (List.mem_cons.mp hturn).elim id (hturns turn)

end Completion

/-- As long as memory lasts there is no deadlock, whatever state the calls have
come to and with no signal at any turn: every call whose file is open comes
within eleven turns to its return or, if it is an open, to a sleep on a device
that has no content for it.  The turns are its own, those of the process that
holds the lock for writing and those of a write that still has `release_oblk` to
execute. -/
theorem call_completes {e : InitEnv} (h : (cddInit e).1 = 0) {m : Minor}
    {ops : Nat → Op} (hmemory : ∀ p fFlags, ops p ≠ .openFile fFlags none)
    {retbuf : List Char} {ts : List Turn} {y : Conc}
    (hrun : (concurrent ops).Run
      (Conc.start ops ⟨(loaded e).devState m, retbuf⟩) ts y)
    {p : Nat} (hadmits : y.admits (ops p) = true) :
    ∃ ts' z, (concurrent ops).Run y ts' z ∧ Rests z p ∧ ts'.length ≤ 11 ∧
      ∀ turn ∈ ts', ∃ q, turn = .run q false ∧
        (q = p ∨ y.sem.writer = some q ∨ (y.pcs q).owesWakeUp = true) := by
  obtain ⟨t, ht⟩ := trailsSpared_run h hrun
    (bufferKept_of_memory hmemory (concInv_start ops _) ts)
  obtain ⟨ts₁, y₁, t₁, hts₁, ht₁, hadmits₁, hwriter₁, hlen₁, hothers, hturns₁⟩ :=
    ht.lock_obtainable hmemory hadmits
  have hall : (ConcInv ops y₁ ∧ WakeUpOwed y₁) ∧ WaitersRead y₁ :=
    Machine.Run.invariant
      (I := fun y => (ConcInv ops y ∧ WakeUpOwed y) ∧ WaitersRead y)
      (fun h hstep => ⟨⟨h.1.1.step hstep, h.1.2.step h.1.1 hstep⟩, h.2.step hstep⟩)
      (hrun.append hts₁)
      ⟨⟨concInv_start ops _, wakeUpOwed_start ops _⟩, waitersRead_start ops _⟩
  obtain ⟨ts₂, y₂, t₂, hts₂, ht₂, hadmits₂, hwriter₂, halert, hlen₂, hturns₂⟩ :=
    ht₁.alert hmemory hall.1.2 hall.2 hadmits₁ hwriter₁
  obtain ⟨ts₃, z, hts₃, hz, hlen₃, hturns₃⟩ :=
    ht₂.comes_to_rest hmemory hadmits₂ hwriter₂ halert
  refine ⟨ts₁ ++ (ts₂ ++ ts₃), z, hts₁.append (hts₂.append hts₃), hz, ?_, ?_⟩
  · rw [List.length_append, List.length_append]
    omega
  · intro turn hturn
    rcases List.mem_append.mp hturn with hmem | hmem
    · obtain ⟨q, hq, hheld⟩ := hturns₁ turn hmem
      exact ⟨q, hq, .inr (.inl hheld)⟩
    rcases List.mem_append.mp hmem with hmem | hmem
    · obtain ⟨q, hq, howes⟩ := hturns₂ turn hmem
      refine ⟨q, hq, .inr ((hothers q).imp_right fun hsame => ?_)⟩
      rw [← hsame]
      exact howes
    · exact ⟨p, hturns₃ turn hmem, .inl rfl⟩

theorem call_completes_sleeper :
    ∃ y ts' z, (concurrent readerAndWriter).Run
        (Conc.start readerAndWriter ⟨(loaded undisturbed).devState 0, []⟩)
        ([0, 0, 0, 1, 1, 1, 1, 1, 2, 2].map fun p => .run p false) y ∧
      (concurrent readerAndWriter).step y (.run 1 false) = none ∧
      (concurrent readerAndWriter).Run y ts' z ∧ Rests z 1 ∧
      ts'.length ≤ 11 := by
  have hmemory : ∀ p fFlags, readerAndWriter p ≠ .openFile fFlags none := by
    intro p fFlags
    match p with
    | 0 => simp [readerAndWriter]
    | 1 => simp [readerAndWriter]
    | _ + 2 => simp [readerAndWriter]
  have hexec : ((concurrent readerAndWriter).exec
      (Conc.start readerAndWriter ⟨(loaded undisturbed).devState 0, []⟩)
      ([0, 0, 0, 1, 1, 1, 1, 1, 2, 2].map fun p => .run p false)).map
        (fun y => (y.admits (readerAndWriter 1),
          ((concurrent readerAndWriter).step y (.run 1 false)).isNone)) =
          some (true, true) := by decide
  obtain ⟨y, hy, heq⟩ := Option.map_eq_some_iff.mp hexec
  obtain ⟨hadmits, hasleep⟩ := Prod.mk.inj heq
  have hrun := Machine.run_of_exec hy
  obtain ⟨ts', z, hts', hz, hlen, -⟩ :=
    call_completes cddInit_undisturbed hmemory hrun hadmits
  exact ⟨y, ts', z, hrun, Option.isNone_iff_eq_none.mp hasleep, hts', hz, hlen⟩

end CddDriver
