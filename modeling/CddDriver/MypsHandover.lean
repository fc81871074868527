import CddDriver.Lib.Machine
import CddDriver.MypsWrites
import Mathlib.Logic.Function.Basic
import Mathlib.Tactic.Common
/-!
# From a write to the next session

A PID that `ct_write` stores in `testid` is for the next `ct_seq_start`.  Both
try the mutex once and do without it when it is busy.  The calls of many
callers are interleaved at the lock attempt, the critical section and the
unlock.
-/

namespace CddDriver

open Lib

/-! ## Calls in steps -/

/-- Where a caller is.  A start goes on after the unlock, with the task that it
found or a null pointer. -/
inductive CallPc where
  | idle
  | storing (buf : List Char)
  | stored (retval pid : Int)
  | starting (e : StartEnv)
  | started (found : Bool)
  | crashed

def CallPc.holdsMutex : CallPc → Bool
  | .idle | .crashed => false
  | _ => true

structure Handover where
  testid : Int
  mtx : Option Nat
  pcs : Nat → CallPc

/-- What is observed of the calls: a PID is stored; a write that stored it
returns; a start begins; and a start has settled on a task, with the PID that it
took for it. -/
inductive HandoverEvent where
  | accepted (c : Nat) (pid : Int)
  | returned (c : Nat) (pid : Int)
  | began (c : Nat)
  | chose (c : Nat) (current : Task) (taken : Option Int) (task : Option Task)
  deriving DecidableEq

/-- The first step of a call, or the next one; the tasks are those of the
moment. -/
inductive HandoverTurn where
  | ctWrite (c : Nat) (allocated : Bool) (buf : List Char)
  | ctSeqStart (c : Nat) (e : StartEnv)
  | go (c : Nat) (k : TaskTable)

namespace Handover

def initial : Handover := ⟨0, none, fun _ => .idle⟩

def setPc (y : Handover) (c : Nat) (pc : CallPc) : Handover :=
  { y with pcs := Function.update y.pcs c pc }

def beginWrite (y : Handover) (c : Nat) (allocated : Bool) (buf : List Char) :
    Handover × List HandoverEvent :=
  if allocated && y.mtx.isNone then
    ({ y with mtx := some c }.setPc c (.storing buf), [])
  else (y, [])

def beginStart (y : Handover) (c : Nat) (e : StartEnv) :
    Handover × List HandoverEvent :=
  if !e.allocated then (y, [.began c, .chose c e.current none none])
  else if y.mtx.isNone then
    ({ y with mtx := some c }.setPc c (.starting e), [.began c])
  else (y, [.began c, .chose c e.current none (some e.current)])

def advance (y : Handover) (c : Nat) (k : TaskTable) :
    Option (Handover × List HandoverEvent) :=
  match y.pcs c with
  | .storing buf =>
      let r := ctWriteBody k.toTasks buf.length (userString buf) y.testid
      some ({ y with testid := r.2 }.setPc c (.stored r.1 r.2),
        if 0 ≤ r.1 then [.accepted c r.2] else [])
  | .stored retval pid =>
      some ({ y with mtx := none }.setPc c .idle,
        if 0 ≤ retval then [.returned c pid] else [])
  | .starting e =>
      let s : Myps := ⟨y.testid, []⟩
      let e := { e with locked := true }
      let r := startTarget e k.toTasks s
      some ({ y with testid := r.2.2.testid }.setPc c (.started r.1.isSome),
        [.chose c e.current (takenPid e s) r.1])
  | .started found =>
      some ({ y with mtx := none }.setPc c (if found then .idle else .crashed), [])
  | .idle | .crashed => none

def turn (y : Handover) : HandoverTurn → Option (Handover × List HandoverEvent)
  | .ctWrite c allocated buf =>
      match y.pcs c with
      | .idle => some (y.beginWrite c allocated buf)
      | _ => none
  | .ctSeqStart c e =>
      match y.pcs c with
      | .idle => some (y.beginStart c e)
      | _ => none
  | .go c k => y.advance c k

end Handover

/-- The machine of the calls, with all that was observed so far, newest first. -/
def handovers : Machine (Handover × List HandoverEvent) HandoverTurn
    (List HandoverEvent) :=
  (Machine.mk Handover.turn).observe fun log _ _ o _ => o.reverse ++ log

/-! ## The law and its condition -/

/-- The PID that was accepted last and that no start has taken. -/
def pendingPid : List HandoverEvent → Option Int
  | [] => none
  | .accepted _ pid :: _ => some pid
  | .chose _ _ (some _) _ :: _ => none
  | _ :: log => pendingPid log

/-- The PID of the last write that returned, when no start has begun and no write
was accepted since. -/
def duePid : List HandoverEvent → Option Int
  | [] => none
  | .returned _ pid :: _ => some pid
  | .accepted _ _ :: _ | .began _ :: _ => none
  | _ :: log => duePid log

/-- The PID that was due when the caller's start began, unless a write was
accepted since. -/
def owedPid (c : Nat) : List HandoverEvent → Option Int
  | [] => none
  | .began d :: log => if d = c then duePid log else owedPid c log
  | .accepted _ _ :: _ => none
  | _ :: log => owedPid c log

/-- A start that settles on a task after the events `log` takes what it is owed
and finds its task.  It takes nothing but the pending PID, for the task of that
PID, and with no PID pending it settles on its own process. -/
def ChoosesDuly (log : List HandoverEvent) (c : Nat) (current : Task)
    (taken : Option Int) (task : Option Task) : Prop :=
  (∀ p ∈ owedPid c log, taken = some p ∧ ∃ t ∈ task, t.pid = p) ∧
    (∀ p ∈ taken, pendingPid log = some p ∧ ∀ t ∈ task, t.pid = p) ∧
    (pendingPid log = none → taken = none ∧ task = some current)

def HandedOver : List HandoverEvent → Prop
  | [] => True
  | .chose c current taken task :: log =>
      ChoosesDuly log c current taken task ∧ HandedOver log
  | _ :: log => HandedOver log

/-- A start that begins with no PID pending has memory.  One that begins when a
PID is due has memory and gets the mutex, and the task of that PID is alive when
the start looks it up. -/
def ServesDue (y : Handover) (log : List HandoverEvent) : HandoverTurn → Prop
  | .ctWrite _ _ _ => True
  | .ctSeqStart _ e =>
      (pendingPid log = none → e.allocated = true) ∧
        (duePid log ≠ none → e.allocated = true ∧ y.mtx = none)
  | .go c k =>
      match y.pcs c with
      | .starting _ => ∀ p ∈ owedPid c log, (k.task p).isSome
      | _ => True

/-! ## The moves -/

namespace Handover

inductive Moves (y : Handover) : HandoverTurn → Handover → List HandoverEvent → Prop
  | writeFails (c : Nat) (allocated : Bool) (buf : List Char) :
      Moves y (.ctWrite c allocated buf) y []
  | writeLocks (c : Nat) (allocated : Bool) (buf : List Char) : y.mtx = none →
      Moves y (.ctWrite c allocated buf)
        ⟨y.testid, some c, Function.update y.pcs c (.storing buf)⟩ []
  | startNoMemory (c : Nat) (e : StartEnv) : e.allocated = false →
      Moves y (.ctSeqStart c e) y [.began c, .chose c e.current none none]
  | startBusy (c : Nat) (e : StartEnv) : e.allocated = true → y.mtx ≠ none →
      Moves y (.ctSeqStart c e) y
        [.began c, .chose c e.current none (some e.current)]
  | startLocks (c : Nat) (e : StartEnv) : e.allocated = true → y.mtx = none →
      Moves y (.ctSeqStart c e)
        ⟨y.testid, some c, Function.update y.pcs c (.starting e)⟩ [.began c]
  | accepts {c : Nat} (k : TaskTable) {buf : List Char} {retval pid : Int} :
      y.pcs c = .storing buf → pid ≠ 0 →
      Moves y (.go c k)
        ⟨pid, y.mtx, Function.update y.pcs c (.stored retval pid)⟩
        [.accepted c pid]
  | rejects {c : Nat} (k : TaskTable) {buf : List Char} {retval : Int} :
      y.pcs c = .storing buf → retval < 0 →
      Moves y (.go c k)
        ⟨y.testid, y.mtx, Function.update y.pcs c (.stored retval y.testid)⟩ []
  | returns {c : Nat} (k : TaskTable) {retval pid : Int} :
      y.pcs c = .stored retval pid → 0 ≤ retval →
      Moves y (.go c k) ⟨y.testid, none, Function.update y.pcs c .idle⟩
        [.returned c pid]
  | fails {c : Nat} (k : TaskTable) {retval pid : Int} :
      y.pcs c = .stored retval pid →
      Moves y (.go c k) ⟨y.testid, none, Function.update y.pcs c .idle⟩ []
  | choosesOwn {c : Nat} (k : TaskTable) {e : StartEnv} (found : Bool) :
      y.pcs c = .starting e → y.testid = 0 →
      Moves y (.go c k)
        ⟨y.testid, y.mtx, Function.update y.pcs c (.started found)⟩
        [.chose c e.current none (some e.current)]
  | chooses {c : Nat} (k : TaskTable) {e : StartEnv} (found : Bool) :
      y.pcs c = .starting e → y.testid ≠ 0 →
      Moves y (.go c k) ⟨0, y.mtx, Function.update y.pcs c (.started found)⟩
        [.chose c e.current (some y.testid) (k.task y.testid)]
  | unlocks {c : Nat} (k : TaskTable) {found : Bool} {pc : CallPc} :
      y.pcs c = .started found → pc = .idle ∨ pc = .crashed →
      Moves y (.go c k) ⟨y.testid, none, Function.update y.pcs c pc⟩ []

variable {y z : Handover} {c : Nat} {k : TaskTable} {i : HandoverTurn}
  {o : List HandoverEvent}

theorem beginWrite_moves (y : Handover) (c : Nat) (allocated : Bool)
    (buf : List Char) :
    Moves y (.ctWrite c allocated buf) (y.beginWrite c allocated buf).1
      (y.beginWrite c allocated buf).2 := by
  unfold beginWrite
  split
  · next hlocks =>
      have hfree : y.mtx = none := by
        rw [Bool.and_eq_true, Option.isNone_iff_eq_none] at hlocks
        exact hlocks.2
      exact .writeLocks c allocated buf hfree
  · exact .writeFails c allocated buf

theorem beginStart_moves (y : Handover) (c : Nat) (e : StartEnv) :
    Moves y (.ctSeqStart c e) (y.beginStart c e).1 (y.beginStart c e).2 := by
  unfold beginStart
  cases hmem : e.allocated with
  | false => exact .startNoMemory c e hmem
  | true =>
      rw [if_neg (by simp)]
      split
      · next hfree => exact .startLocks c e hmem (Option.isNone_iff_eq_none.mp hfree)
      · next hbusy =>
          exact .startBusy c e hmem fun hnone => hbusy (by rw [hnone]; rfl)

theorem advance_moves (h : y.advance c k = some (z, o)) :
    Moves y (.go c k) z o := by
  unfold advance at h
  split at h
  · next buf hpc =>
      obtain ⟨rfl, rfl⟩ := Prod.mk.inj (Option.some.inj h)
      rcases ctWriteBody_cases k buf.length (userString buf) y.testid with
        ⟨v, t, -, -, -, ht, hbody⟩ | ⟨-, err, herr, hbody⟩
      · rw [hbody, if_pos (Int.natCast_nonneg _)]
        exact .accepts k hpc (Int.ne_of_gt (k.pid_pos ht))
      · rw [hbody, if_neg (by omega)]
        exact .rejects k hpc herr
  · next retval pid hpc =>
      obtain ⟨rfl, rfl⟩ := Prod.mk.inj (Option.some.inj h)
      split
      · next hge => exact .returns k hpc hge
      · exact .fails k hpc
  · next e hpc =>
      obtain ⟨rfl, rfl⟩ := Prod.mk.inj (Option.some.inj h)
      by_cases hzero : y.testid = 0
      · have hown : takenPid { e with locked := true } ⟨y.testid, []⟩ = none := by
          simp [takenPid, hzero]
        rw [startTarget_of_own hown, hown]
        exact .choosesOwn (e := e) k _ hpc hzero
      · have htaken : takenPid { e with locked := true } ⟨y.testid, []⟩ =
            some y.testid := by
          simp [takenPid, hzero]
        rw [startTarget_of_taken htaken, htaken]
        exact .chooses (e := e) k _ hpc hzero
  · next found hpc =>
      obtain ⟨rfl, rfl⟩ := Prod.mk.inj (Option.some.inj h)
      refine .unlocks k hpc ?_
      cases found
      · exact .inr rfl
      · exact .inl rfl
  · cases h
  · cases h

theorem turn_moves (h : y.turn i = some (z, o)) : Moves y i z o := by
  unfold turn at h
  cases i with
  | ctWrite c allocated buf =>
      dsimp only at h
      split at h
      · obtain ⟨rfl, rfl⟩ := Prod.mk.inj (Option.some.inj h)
        exact beginWrite_moves y c allocated buf
      · cases h
  | ctSeqStart c e =>
      dsimp only at h
      split at h
      · obtain ⟨rfl, rfl⟩ := Prod.mk.inj (Option.some.inj h)
        exact beginStart_moves y c e
      · cases h
  | go c k => exact advance_moves h

/-! ## A call that is alone -/

theorem setPc_back (hpc : y.pcs c = .idle) (testid : Int) (mtx : Option Nat)
    (pc pc' : CallPc) :
    Handover.mk testid mtx (Function.update (Function.update (Function.update y.pcs
      c pc) c pc') c .idle) = ⟨testid, mtx, y.pcs⟩ := by
  rw [Function.update_idem, Function.update_idem, ← hpc, Function.update_eq_self]

theorem writeAlone_ctWrite {buf : List Char} {data : Nat → Char}
    {bufs : Ledger (Block Char) Unit} {retval : Int} {w : MypsData} (k' : TaskTable)
    (hpc : y.pcs c = .idle) (hfree : y.mtx = none)
    (hcount : buf.length ≤ maxRwCount)
    (hwrite : ctWrite (some data) k.toTasks buf ⟨y.testid, false, bufs⟩ =
      some (retval, w)) :
    (Machine.mk Handover.turn).exec y [.ctWrite c true buf, .go c k, .go c k'] =
      some { y with testid := w.testid } := by
  obtain ⟨b, heq⟩ := ctWrite_eq (z := ⟨y.testid, false, bufs⟩) data k.toTasks
    rfl hcount
  obtain ⟨-, rfl⟩ := Prod.mk.inj (Option.some.inj (hwrite.symm.trans heq))
  simp only [Machine.exec, turn, hpc, beginWrite, hfree, Option.isNone_none,
    Bool.and_self, if_true, Option.bind_some, setPc, advance, Function.update_self,
    setPc_back hpc]

theorem startAlone_ctSeqStart {e : StartEnv} {s u : Myps} {v : Option Nat}
    (k' : TaskTable) (hpc : y.pcs c = .idle) (hfree : y.mtx = none)
    (hmem : e.allocated = true) (hs : s.testid = y.testid)
    (hstart : ctSeqStart { e with locked := true } k.toTasks none 0 s =
      some (u, v)) :
    (Machine.mk Handover.turn).exec y [.ctSeqStart c e, .go c k, .go c k'] =
      some { y with testid := u.testid } := by
  obtain ⟨current, allocated, locked, fresh⟩ := e
  obtain rfl : allocated = true := hmem
  obtain ⟨hfound, htestid⟩ := ctSeqStart_first rfl hstart
  have hsame : (Myps.mk y.testid []).testid = s.testid := hs.symm
  obtain ⟨htask, hleft⟩ := @startTarget_congr
    ⟨current, true, true, fresh⟩ k.toTasks _ _ hsame
  simp only [Machine.exec, turn, hpc, beginStart, hfree, Option.isNone_none,
    Bool.not_true, Bool.false_eq_true, if_false, if_true, Option.bind_some, setPc,
    advance, Function.update_self, htask, hfound, hleft, ← htestid,
    setPc_back hpc]

/-! ## What is pending -/

/-- The mutex is that of the caller inside.  `testid` is the pending PID, also
behind a caller that stored it; a due PID is pending and no start is about to take
it; and what a start inside is owed is pending. -/
structure Sound (y : Handover) (log : List HandoverEvent) : Prop where
  locked : ∀ c, (y.pcs c).holdsMutex = true ↔ y.mtx = some c
  pending : pendingPid log = if y.testid = 0 then none else some y.testid
  stored : ∀ {c retval pid}, y.pcs c = .stored retval pid → 0 ≤ retval →
    pendingPid log = some pid
  due : ∀ {p}, duePid log = some p →
    pendingPid log = some p ∧ ∀ c e, y.pcs c ≠ .starting e
  owed : ∀ {c e p}, y.pcs c = .starting e → owedPid c log = some p →
    pendingPid log = some p

theorem sound_initial : initial.Sound [] where
  locked c := by simp [initial, CallPc.holdsMutex]
  pending := rfl
  stored h := by cases h
  due h := by cases h
  owed h := by cases h

variable {log log' : List HandoverEvent}

theorem Sound.alone (h : y.Sound log) (hc : (y.pcs c).holdsMutex = true) :
    ∀ d, d ≠ c → (y.pcs d).holdsMutex = false := by
  intro d hne
  rw [← Bool.not_eq_true, h.locked d, (h.locked c).mp hc]
  exact fun heq => hne (Option.some.inj heq).symm

theorem Sound.nobody (h : y.Sound log) (hfree : y.mtx = none) :
    ∀ d, (y.pcs d).holdsMutex = false := by
  intro d
  rw [← Bool.not_eq_true, h.locked d, hfree]
  simp

theorem sound_of_alone {testid : Int} {mtx : Option Nat} {pc : CallPc}
    (hothers : ∀ d, d ≠ c → (y.pcs d).holdsMutex = false)
    (hlocked : pc.holdsMutex = true ↔ mtx = some c) (hmtx : ∀ d, d ≠ c → mtx ≠ some d)
    (hpending : pendingPid log' = if testid = 0 then none else some testid)
    (hstored : ∀ retval pid, pc = .stored retval pid → 0 ≤ retval →
      pendingPid log' = some pid)
    (hdue : ∀ p, duePid log' = some p →
      pendingPid log' = some p ∧ ∀ e, pc ≠ .starting e)
    (howed : ∀ e p, pc = .starting e → owedPid c log' = some p →
      pendingPid log' = some p) :
    Sound ⟨testid, mtx, Function.update y.pcs c pc⟩ log' := by
  have hinside : ∀ {d pc'}, Function.update y.pcs c pc d = pc' →
      pc'.holdsMutex = true → d = c ∧ pc' = pc := by
    intro d pc' hd hpc'
    by_cases hdc : d = c
    · rw [hdc, Function.update_self] at hd
      exact ⟨hdc, hd.symm⟩
    · rw [Function.update_of_ne hdc] at hd
      rw [← hd, hothers d hdc] at hpc'
      cases hpc'
  refine ⟨fun d => ?_, hpending, fun hd hge => ?_, fun hp => ?_, fun hd hp => ?_⟩
  · dsimp only
    by_cases hdc : d = c
    · rw [hdc, Function.update_self]
      exact hlocked
    · rw [Function.update_of_ne hdc]
      simp [hothers d hdc, hmtx d hdc]
  · obtain ⟨-, heq⟩ := hinside hd rfl
    exact hstored _ _ heq.symm hge
  · obtain ⟨hpend, hpc⟩ := hdue _ hp
    refine ⟨hpend, fun d e hd => ?_⟩
    obtain ⟨-, heq⟩ := hinside hd rfl
    exact hpc e heq.symm
  · obtain ⟨rfl, heq⟩ := hinside hd rfl
    exact howed _ _ heq.symm hp

/-- A start that does not get to the mutex leaves everything as it was. -/
theorem Sound.passedBy (h : y.Sound log) (c : Nat) (current : Task)
    (task : Option Task) :
    y.Sound (.chose c current none task :: .began c :: log) where
  locked := h.locked
  pending := h.pending
  stored := h.stored
  due hp := by cases hp
  owed {d e p} hd hp := by
    unfold owedPid owedPid at hp
    split at hp
    · exact (h.due hp).1
    · exact h.owed hd hp

theorem Sound.lock (h : y.Sound log) (hfree : y.mtx = none) (c : Nat) {pc : CallPc}
    (hholds : pc.holdsMutex = true) (hnew : ∀ retval pid, pc ≠ .stored retval pid)
    (hpending : pendingPid log' = pendingPid log)
    (hdue : ∀ p, duePid log' = some p →
      duePid log = some p ∧ ∀ e, pc ≠ .starting e)
    (howed : ∀ e p, pc = .starting e → owedPid c log' = some p →
      duePid log = some p) :
    Sound ⟨y.testid, some c, Function.update y.pcs c pc⟩ log' := by
  apply sound_of_alone fun d _ => h.nobody hfree d
  · exact iff_of_true hholds rfl
  · exact fun d hd heq => hd (Option.some.inj heq).symm
  · exact hpending.trans h.pending
  · exact fun retval pid hpc => absurd hpc (hnew retval pid)
  · intro p hp
    obtain ⟨hold, hpc⟩ := hdue p hp
    exact ⟨hpending.trans (h.due hold).1, hpc⟩
  · intro e p hpc hp
    exact hpending.trans (h.due (howed e p hpc hp)).1

theorem Sound.inside (h : y.Sound log) (hc : (y.pcs c).holdsMutex = true)
    {testid : Int} (pc : CallPc) (hpc : ∀ e, pc ≠ .starting e)
    (hpending : pendingPid log' = if testid = 0 then none else some testid)
    (hstored : ∀ retval pid, pc = .stored retval pid → 0 ≤ retval →
      pendingPid log' = some pid)
    (hdue : ∀ p, duePid log' = some p → pendingPid log' = some p)
    {mtx : Option Nat} (hmtx : mtx = if pc.holdsMutex then y.mtx else none) :
    Sound ⟨testid, mtx, Function.update y.pcs c pc⟩ log' := by
  have hlocked := (h.locked c).mp hc
  apply sound_of_alone (h.alone hc)
  · rw [hmtx, hlocked]
    cases pc.holdsMutex <;> simp
  · intro d hd
    rw [hmtx, hlocked]
    cases pc.holdsMutex
    · simp
    · exact fun heq => hd (Option.some.inj heq).symm
  · exact hpending
  · exact hstored
  · exact fun p hp => ⟨hdue p hp, hpc⟩
  · exact fun e p he => absurd he (hpc e)

theorem Sound.insideOn (h : y.Sound log) (hc : (y.pcs c).holdsMutex = true)
    (pc : CallPc) (hpc : ∀ e, pc ≠ .starting e)
    (hnew : ∀ retval pid, pc = .stored retval pid → retval < 0)
    (hpending : pendingPid log' = pendingPid log) (hdue : duePid log' = duePid log)
    {mtx : Option Nat} (hmtx : mtx = if pc.holdsMutex then y.mtx else none) :
    Sound ⟨y.testid, mtx, Function.update y.pcs c pc⟩ log' := by
  refine h.inside hc pc hpc (hpending.trans h.pending) ?_ ?_ hmtx
  · intro retval pid heq hge
    have hlt := hnew retval pid heq
    omega
  · intro p hp
    exact hpending.trans (h.due (hdue.symm.trans hp)).1

theorem Moves.sound (hmove : Moves y i z o) (h : y.Sound log) :
    z.Sound (o.reverse ++ log) := by
  cases hmove with
  | writeFails c allocated buf => exact h
  | writeLocks c allocated buf hfree =>
      apply h.lock hfree c rfl
      · exact fun _ _ h => by cases h
      · rfl
      · exact fun p hp => ⟨hp, fun _ h => by cases h⟩
      · exact fun _ _ h => by cases h
  | startNoMemory c e hmem => exact h.passedBy c e.current none
  | startBusy c e hmem hbusy => exact h.passedBy c e.current (some e.current)
  | startLocks c e hmem hfree =>
      apply h.lock hfree c rfl
      · exact fun _ _ h => by cases h
      · rfl
      · exact fun p hp => by cases hp
      · intro _ p _ hp
        have howed : owedPid c (.began c :: log) = duePid log := if_pos rfl
        exact howed.symm.trans hp
  | @accepts c k buf retval pid hpc hne =>
      refine h.inside (by rw [hpc]; rfl) (.stored retval pid)
        (fun _ h => by cases h) (if_neg hne).symm ?_ ?_ rfl
      · intro retval' pid' heq _
        obtain ⟨-, rfl⟩ := CallPc.stored.inj heq
        rfl
      · exact fun p hp => by cases hp
  | @rejects c k buf retval hpc herr =>
      refine h.insideOn (by rw [hpc]; rfl) (.stored retval y.testid)
        (fun _ h => by cases h) ?_ rfl rfl rfl
      intro retval' pid' heq
      obtain ⟨rfl, -⟩ := CallPc.stored.inj heq
      exact herr
  | returns k hpc hge =>
      -- what the write stored is pending, since nobody else was inside
      refine h.inside (by rw [hpc]; rfl) .idle (fun _ h => by cases h) ?_
        (fun _ _ h => by cases h) ?_ rfl
      · exact h.pending
      · intro p hp
        obtain rfl := Option.some.inj hp
        exact h.stored hpc hge
  | fails k hpc =>
      exact h.insideOn (by rw [hpc]; rfl) .idle (fun _ h => by cases h)
        (fun _ _ h => by cases h) rfl rfl rfl
  | choosesOwn k found hpc hzero =>
      refine h.insideOn (by rw [hpc]; rfl) (.started found) (fun _ h => by cases h)
        (fun _ _ h => by cases h) ?_ ?_ rfl
      · rfl
      · rfl
  | chooses k found hpc hne =>
      -- nothing is due while a start is about to take what is pending
      refine h.inside (by rw [hpc]; rfl) (.started found) (fun _ h => by cases h) ?_
        (fun _ _ h => by cases h) ?_ rfl
      · rfl
      · exact fun p hp => absurd hpc ((h.due hp).2 _ _)
  | unlocks k hpc hout =>
      rcases hout with rfl | rfl
      · exact h.insideOn (by rw [hpc]; rfl) .idle (fun _ h => by cases h)
          (fun _ _ h => by cases h) rfl rfl rfl
      · exact h.insideOn (by rw [hpc]; rfl) .crashed (fun _ h => by cases h)
          (fun _ _ h => by cases h) rfl rfl rfl

/-! ## One step of the law -/

instance (log : List HandoverEvent) (c : Nat) (current : Task)
    (taken : Option Int) (task : Option Task) :
    Decidable (ChoosesDuly log c current taken task) :=
  inferInstanceAs (Decidable (_ ∧ _ ∧ _))

instance : ∀ log, Decidable (HandedOver log)
  | [] => inferInstanceAs (Decidable True)
  | .chose c current taken task :: log =>
      @instDecidableAnd _ _ (inferInstanceAs
        (Decidable (ChoosesDuly log c current taken task)))
        (instDecidableHandedOver log)
  | .accepted _ _ :: log | .returned _ _ :: log | .began _ :: log =>
      instDecidableHandedOver log

theorem choosesDuly_passedBy (log : List HandoverEvent) (c : Nat) (current : Task)
    (task : Option Task) :
    ChoosesDuly (.began c :: log) c current none task ↔
      duePid log = none ∧ (pendingPid log = none → task = some current) := by
  have howed : owedPid c (.began c :: log) = duePid log := if_pos rfl
  have hpending : pendingPid (.began c :: log) = pendingPid log := rfl
  unfold ChoosesDuly
  rw [howed, hpending]
  constructor
  · rintro ⟨hdue, -, hown⟩
    refine ⟨?_, fun hnone => (hown hnone).2⟩
    cases hp : duePid log with
    | none => rfl
    | some p =>
        obtain ⟨htaken, -⟩ := hdue p hp
        cases htaken
  · rintro ⟨hdue, hown⟩
    refine ⟨fun p hp => ?_, fun p hp => ?_, fun hnone => ⟨rfl, hown hnone⟩⟩
    · rw [hdue] at hp
      cases hp
    · cases hp

theorem choosesDuly_inside (h : y.Sound log) {e : StartEnv}
    (hpc : y.pcs c = .starting e) (hne : y.testid ≠ 0) :
    ChoosesDuly log c e.current (some y.testid) (k.task y.testid) ↔
      ∀ p ∈ owedPid c log, (k.task p).isSome := by
  have hpending : pendingPid log = some y.testid := h.pending.trans (if_neg hne)
  have howed : ∀ p ∈ owedPid c log, y.testid = p := fun p hp =>
    Option.some.inj (hpending.symm.trans (h.owed hpc hp))
  constructor
  · rintro ⟨hserves, -⟩ p hp
    obtain ⟨-, t, ht, -⟩ := hserves p hp
    rw [howed p hp] at ht
    exact Option.isSome_iff_exists.mpr ⟨t, ht⟩
  · intro halive
    refine ⟨fun p hp => ?_, fun p hp => ?_, fun hnone => ?_⟩
    · obtain ⟨t, ht⟩ := Option.isSome_iff_exists.mp (halive p hp)
      obtain rfl := howed p hp
      exact ⟨rfl, t, ht, k.pid_eq ht⟩
    · obtain rfl := Option.some.inj hp
      exact ⟨hpending, fun t ht => k.pid_eq ht⟩
    · rw [hpending] at hnone
      cases hnone

theorem choosesDuly_own (h : y.Sound log) {e : StartEnv}
    (hpc : y.pcs c = .starting e) (hzero : y.testid = 0) :
    ChoosesDuly log c e.current none (some e.current) ∧
      ∀ p ∈ owedPid c log, (k.task p).isSome := by
  have hpending : pendingPid log = none := h.pending.trans (if_pos hzero)
  have howed : ∀ p, ¬ p ∈ owedPid c log := by
    intro p hp
    have hsome := h.owed hpc hp
    rw [hpending] at hsome
    cases hsome
  refine ⟨⟨fun p hp => absurd hp (howed p), fun p hp => ?_, fun _ => ⟨rfl, rfl⟩⟩,
    fun p hp => absurd hp (howed p)⟩
  cases hp

theorem servesDue_go (log : List HandoverEvent)
    (hpc : ∀ e, y.pcs c ≠ .starting e) : ServesDue y log (.go c k) := by
  unfold ServesDue
  dsimp only
  split
  · next e he => exact absurd he (hpc e)
  · trivial

theorem servesDue_starting (log : List HandoverEvent) {e : StartEnv}
    (hpc : y.pcs c = .starting e) :
    ServesDue y log (.go c k) ↔ ∀ p ∈ owedPid c log, (k.task p).isSome := by
  simp only [ServesDue, hpc]

/-- A move is lawful exactly when it serves what is due. -/
theorem Moves.handedOver_iff (hmove : Moves y i z o) (h : y.Sound log) :
    HandedOver (o.reverse ++ log) ↔ HandedOver log ∧ ServesDue y log i := by
  cases hmove with
  | writeFails c allocated buf => exact (and_iff_left trivial).symm
  | writeLocks c allocated buf hfree => exact (and_iff_left trivial).symm
  | startNoMemory c e hmem =>
      show ChoosesDuly (.began c :: log) c e.current none none ∧ HandedOver log ↔ _
      rw [choosesDuly_passedBy, and_comm]
      simp [ServesDue, hmem, and_comm]
  | startBusy c e hmem hbusy =>
      show ChoosesDuly (.began c :: log) c e.current none (some e.current) ∧
        HandedOver log ↔ _
      rw [choosesDuly_passedBy, and_comm]
      simp [ServesDue, hmem, hbusy]
  | startLocks c e hmem hfree =>
      exact (and_iff_left ⟨fun _ => hmem, fun _ => ⟨hmem, hfree⟩⟩).symm
  | accepts k hpc hne =>
      exact (and_iff_left (servesDue_go log fun e => by simp [hpc])).symm
  | rejects k hpc herr =>
      exact (and_iff_left (servesDue_go log fun e => by simp [hpc])).symm
  | returns k hpc hge =>
      exact (and_iff_left (servesDue_go log fun e => by simp [hpc])).symm
  | fails k hpc =>
      exact (and_iff_left (servesDue_go log fun e => by simp [hpc])).symm
  | @choosesOwn c k e found hpc hzero =>
      obtain ⟨hduly, hserves⟩ := @choosesDuly_own y c k log h e hpc hzero
      rw [servesDue_starting log hpc, and_iff_left hserves]
      exact and_iff_right hduly
  | @chooses c k e found hpc hne =>
      rw [servesDue_starting log hpc, ← choosesDuly_inside h hpc hne, and_comm]
      rfl
  | unlocks k hpc hout =>
      exact (and_iff_left (servesDue_go log fun e => by simp [hpc])).symm

end Handover

/-! ## Whole runs -/

theorem handovers_step {y z : Handover} {log log' : List HandoverEvent}
    {i : HandoverTurn} {o : List HandoverEvent}
    (hstep : handovers.step (y, log) i = some ((z, log'), o)) :
    Handover.Moves y i z o ∧ log' = o.reverse ++ log := by
  obtain ⟨hturn, hlog⟩ := Machine.observe_step.mp hstep
  exact ⟨Handover.turn_moves hturn, hlog⟩

/-- In every interleaving, every session start settles as it should exactly when
each that begins with something due gets memory, the mutex and a live task. -/
theorem handedOver_iff_servesDue (is : List HandoverTurn) :
    handovers.EveryState (fun y => HandedOver y.2) (.initial, []) is ↔
      handovers.EveryStep (fun y i _ _ => ServesDue y.1 y.2 i) (.initial, []) is := by
  apply Machine.everyState_iff_everyStep (I := fun y => y.1.Sound y.2)
  · rintro ⟨y, log⟩ i ⟨z, log'⟩ o h hstep
    obtain ⟨hmove, rfl⟩ := handovers_step hstep
    exact hmove.sound h
  · rintro ⟨y, log⟩ i ⟨z, log'⟩ o h hlaw hstep
    obtain ⟨hmove, rfl⟩ := handovers_step hstep
    exact (hmove.handedOver_iff h).trans (and_iff_right hlaw)
  · exact Handover.sound_initial
  · trivial

/-- A second write holds the mutex when the session starts that should list the
children of the shell. -/
theorem not_handedOver_busy :
    ∃ y, handovers.Run (.initial, [])
        [.ctWrite 1 true "100".toList, .go 1 shellTable, .go 1 shellTable,
          .ctWrite 2 true "x".toList, .ctSeqStart 3 readerEnv] y ∧
      y.2 = [.chose 3 readerTask none (some readerTask), .began 3,
        .returned 1 100, .accepted 1 100] ∧
      ¬ HandedOver y.2 := by
  have hend : (handovers.exec (.initial, [])
      [.ctWrite 1 true "100".toList, .go 1 shellTable, .go 1 shellTable,
        .ctWrite 2 true "x".toList, .ctSeqStart 3 readerEnv]).map Prod.snd =
      some [.chose 3 readerTask none (some readerTask), .began 3,
        .returned 1 100, .accepted 1 100] := by decide
  obtain ⟨y, hexec, hlog⟩ := Option.map_eq_some_iff.mp hend
  refine ⟨y, Machine.run_of_exec hexec, hlog, ?_⟩
  rw [hlog]
  decide

end CddDriver
