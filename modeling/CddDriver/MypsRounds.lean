import CddDriver.Lib.Custody
import CddDriver.Lib.Machine
import CddDriver.MypsWrites
import Mathlib.Tactic.Common
/-!
# Rounds of reading /proc/myps

The seq file layer calls `ct_seq_start`, `ct_seq_show`, `ct_seq_next` and
`ct_seq_stop` in rounds, on any number of open files, while PIDs are written and
tasks come and go.  The iterator of a round is freed by `ct_seq_stop`, and by
nothing else.
-/

namespace CddDriver

open Lib

/-! ## Files -/

/-- The round that an open file is in: none, or one whose last call returned the
iterator `v` or null.  With the iterator stand the PID of the process that reads
and the PID that `ct_seq_start` took from `testid`, if it did. -/
inductive SeqRound where
  | idle
  | active (v : Nat) (reader : Int) (taken : Option Int)
  | ended
  deriving DecidableEq

def SeqRound.iterator : SeqRound → Option Nat
  | .active v _ _ => some v
  | _ => none

def SeqRound.takenPid : SeqRound → Option Int
  | .active _ _ taken => taken
  | _ => none

/-- The tasks, the data of the module, the open files, and whether a call used a
null pointer or memory that was freed. -/
structure MypsSystem where
  tasks : TaskTable
  myps : Myps
  files : List SeqRound
  fault : Bool

/-- A call on a file, a write, or a change of the tasks.  A task that appears or
exits changes lists of children, and with them the place of each cursor. -/
inductive MypsTurn where
  | ctOpen
  | ctSeqStart (f : Nat) (e : StartEnv) (pos : Nat)
  | ctSeqShow (f : Nat)
  | ctSeqNext (f pos : Nat)
  | ctSeqStop (f : Nat)
  | ctWrite (buf : List Char)
  | fork (t : Task) (children : Int → List Task) (place : Nat → Nat)
  | exit (pid : Int) (children : Int → List Task) (place : Nat → Nat)

/-! ## Tasks that come and go -/

def TaskTable.fork (k : TaskTable) (t : Task) (children : Int → List Task)
    (hpos : 0 < t.pid) (hlt : t.pid < 2 ^ 31) : TaskTable where
  task nr := if nr = t.pid then some t else k.task nr
  children := children
  found {nr u} h := by
    split at h
    · next hnr =>
        obtain rfl := Option.some.inj h
        exact ⟨hnr.symm, hnr ▸ hpos, hnr ▸ hlt⟩
    · exact k.found h

def TaskTable.exit (k : TaskTable) (pid : Int) (children : Int → List Task) :
    TaskTable where
  task nr := if nr = pid then none else k.task nr
  children := children
  found {nr u} h := by
    split at h
    · cases h
    · exact k.found h

def Myps.replace (place : Nat → Nat) (s : Myps) : Myps :=
  { s with iters := s.iters.mapIdx fun v e =>
      { e with item := { e.item with pos := place v } } }

/-! ## Turns -/

namespace MypsSystem

def initial (k : TaskTable) : MypsSystem := ⟨k, ⟨0, []⟩, [], false⟩

def after (y : MypsSystem) (f : Nat) (s : Myps) (r : SeqRound) : MypsSystem :=
  { y with myps := s, files := y.files.set f r }

def faulted (y : MypsSystem) : MypsSystem := { y with fault := true }

def start (y : MypsSystem) (f : Nat) (e : StartEnv) (pos : Nat) : MypsSystem :=
  match CddDriver.ctSeqStart e y.tasks.toTasks none pos y.myps with
  | none => y.faulted
  | some (s, none) => y.after f s .ended
  | some (s, some v) =>
      y.after f s (.active v e.current.pid (takenPid e y.myps))

def next (y : MypsSystem) (f v pos : Nat) (reader : Int) (taken : Option Int) :
    MypsSystem :=
  match CddDriver.ctSeqNext y.tasks.toTasks v pos y.myps with
  | none => y.faulted
  | some (s, none, _) => y.after f s .ended
  | some (s, some v, _) => y.after f s (.active v reader taken)

def stop (y : MypsSystem) (f : Nat) (v : Option Nat) : MypsSystem :=
  match CddDriver.ctSeqStop y.tasks.toTasks v y.myps with
  | none => y.faulted
  | some s => y.after f s .idle

def reading (y : MypsSystem) (pid : Int) : Bool :=
  y.files.any fun r =>
    match r with
    | .active _ reader _ => reader = pid
    | _ => false

/-- One turn; after a fault there is none.  No PID is given out again while a
round keeps its `struct pid`, so a kept PID names the task it was taken for. -/
def turn (y : MypsSystem) (i : MypsTurn) : Option MypsSystem :=
  if y.fault then none
  else
    match i with
    | .ctOpen => some { y with files := y.files ++ [.idle] }
    | .ctSeqStart f e pos =>
        if y.files[f]? = some .idle ∧
            y.tasks.task e.current.pid = some e.current then
          some (y.start f e pos)
        else none
    | .ctSeqShow f =>
        match y.files[f]? with
        | some (.active v _ _) =>
            some (if (y.myps.iter v).isSome then y else y.faulted)
        | _ => none
    | .ctSeqNext f pos =>
        match y.files[f]? with
        | some (.active v reader taken) => some (y.next f v pos reader taken)
        | _ => none
    | .ctSeqStop f =>
        match y.files[f]? with
        | some (.active v _ _) => some (y.stop f (some v))
        | some .ended => some (y.stop f none)
        | _ => none
    | .ctWrite buf =>
        some { y with myps := { y.myps with testid :=
          (ctWriteBody y.tasks.toTasks buf.length (userString buf)
            y.myps.testid).2 } }
    | .fork t children place =>
        if h : (0 < t.pid ∧ t.pid < 2 ^ 31) ∧ y.tasks.task t.pid = none ∧
            ∀ r ∈ y.files, r.takenPid ≠ some t.pid then
          some { y with
            tasks := y.tasks.fork t children h.1.1 h.1.2
            myps := y.myps.replace place }
        else none
    | .exit pid children place =>
        if (y.tasks.task pid).isSome ∧ y.reading pid = false then
          some { y with
            tasks := y.tasks.exit pid children
            myps := y.myps.replace place }
        else none

end MypsSystem

def mypsRounds : Machine MypsSystem MypsTurn Unit :=
  ⟨fun y i => (y.turn i).map fun z => (z, ())⟩

/-! ## The laws and their conditions -/

abbrev MypsSystem.AtHand (y : MypsSystem) (f v : Nat) (reader : Int)
    (taken : Option Int) : Prop :=
  y.files[f]? = some (.active v reader taken)

def MypsSystem.holds (y : MypsSystem) (f : Nat) : Option Nat :=
  (y.files[f]?).bind SeqRound.iterator

def MypsSystem.takenBy (y : MypsSystem) (f : Nat) : Option Int :=
  (y.files[f]?).bind SeqRound.takenPid

/-- The task that a call looks up is alive: the one whose PID the call takes, or
that of a PID taken before.  A start without memory looks up none. -/
def TargetAlive (y : MypsSystem) : MypsTurn → Prop
  | .ctSeqStart _ e pos =>
      e.allocated = true → pos = 0 → ∀ p ∈ takenPid e y.myps,
        (y.tasks.task p).isSome
  | .ctSeqNext f _ | .ctSeqStop f =>
      ∀ p ∈ y.takenBy f, (y.tasks.task p).isSome
  | _ => True

/-- A start that has memory is a first one and finds a child; the iterator does
not reach the head of the list. -/
def KeepsIterator (y : MypsSystem) : MypsTurn → Prop
  | .ctSeqStart _ e pos =>
      e.allocated = true → pos = 0 ∧
        ∀ t ∈ (startTarget e y.tasks.toTasks y.myps).1,
          y.tasks.children t.pid ≠ []
  | .ctSeqNext f _ =>
      ∀ v ∈ y.holds f, ∀ i ∈ y.myps.iter v,
        (i.pos + 1) % ((y.tasks.children i.head).length + 1) ≠
          (y.tasks.children i.head).length
  | _ => True

instance (y : MypsSystem) : ∀ i, Decidable (TargetAlive y i)
  | .ctSeqStart _ e pos => inferInstanceAs (Decidable (e.allocated = true →
      pos = 0 → ∀ p ∈ takenPid e y.myps, (y.tasks.task p).isSome))
  | .ctSeqNext f _ | .ctSeqStop f => inferInstanceAs (Decidable
      (∀ p ∈ y.takenBy f, (y.tasks.task p).isSome))
  | .ctOpen | .ctSeqShow _ | .ctWrite _ | .fork _ _ _ | .exit _ _ _ =>
      inferInstanceAs (Decidable True)

instance (y : MypsSystem) : ∀ i, Decidable (KeepsIterator y i)
  | .ctSeqStart _ e pos => inferInstanceAs (Decidable (e.allocated = true →
      pos = 0 ∧ ∀ t ∈ (startTarget e y.tasks.toTasks y.myps).1,
        y.tasks.children t.pid ≠ []))
  | .ctSeqNext f _ => inferInstanceAs (Decidable
      (∀ v ∈ y.holds f, ∀ i ∈ y.myps.iter v,
        (i.pos + 1) % ((y.tasks.children i.head).length + 1) ≠
          (y.tasks.children i.head).length))
  | .ctOpen | .ctSeqShow _ | .ctSeqStop _ | .ctWrite _ | .fork _ _ _
    | .exit _ _ _ => inferInstanceAs (Decidable True)

def MypsSystem.AtHandLive (y : MypsSystem) : Prop :=
  ∀ f v reader taken, y.AtHand f v reader taken →
    ∃ i, y.myps.iter v = some i

def MypsSystem.Over (y : MypsSystem) : Prop :=
  y.fault = false ∧ ∀ r ∈ y.files, r = .idle

/-! ## The outcomes of a start -/

inductive StartCase (e : StartEnv) (k : Tasks) (pos : Nat) (s : Myps) :
    Option (Myps × Option Nat) → Prop where
  | noMemory : e.allocated = false → StartCase e k pos s (some (s, none))
  | noTask : e.allocated = true → pos = 0 → (startTarget e k s).1 = none →
      StartCase e k pos s none
  | noChild {u : Myps} {i : SeqIter} {t : Task} : e.allocated = true → pos = 0 →
      (startTarget e k s).1 = some t → k.children t.pid = [] →
      u.iters = s.iters.acquire i → StartCase e k pos s (some (u, none))
  | first {u : Myps} {i : SeqIter} {t : Task} : e.allocated = true → pos = 0 →
      (startTarget e k s).1 = some t → k.children t.pid ≠ [] →
      u.iters = s.iters.acquire i → i.ptpid = (startTarget e k s).2.1 →
      StartCase e k pos s (some (u, some s.iters.length))
  | again {u : Myps} {i : SeqIter} : e.allocated = true → pos ≠ 0 →
      u.iters = s.iters.acquire i → StartCase e k pos s (some (u, none))

theorem ctSeqStart_case (e : StartEnv) (k : Tasks) (pos : Nat) (s : Myps) :
    StartCase e k pos s (ctSeqStart e k none pos s) := by
  have hiters := startTarget_iters e k s
  unfold ctSeqStart
  cases hmem : e.allocated with
  | false => exact .noMemory hmem
  | true =>
      simp only [Bool.not_true, Bool.false_eq_true, if_false]
      by_cases hpos : pos = 0
      · rw [if_pos hpos]
        cases htarget : (startTarget e k s).1 with
        | none => exact .noTask hmem hpos htarget
        | some t =>
            simp only [Option.map_some, List.length_eq_zero_iff]
            by_cases hnil : k.children t.pid = []
            · rw [if_pos hnil]
              exact .noChild hmem hpos htarget hnil
                (congrArg (Ledger.acquire · _) hiters)
            · rw [if_neg hnil]
              exact .first hmem hpos htarget hnil
                (congrArg (Ledger.acquire · _) hiters) rfl
      · rw [if_neg hpos]
        exact .again hmem hpos rfl

/-! ## Who has the iterators -/

namespace MypsSystem

variable {y z : MypsSystem} {f : Nat} {s : Myps} {r : SeqRound}

def Covered (y : MypsSystem) : Prop :=
  Custody.Covered y.myps.iters.given y.holds

/-- Files have iterators of their own, each with the PID of the task that the
round is about; the process of a round is alive. -/
structure Sound (y : MypsSystem) : Prop where
  custody : Custody y.myps.iters.given y.holds
  iter : ∀ {f v reader taken}, y.AtHand f v reader taken →
    ∃ i, y.myps.iter v = some i ∧ i.ptpid = some (taken.getD reader)
  reader : ∀ {f v reader taken}, y.AtHand f v reader taken →
    ∃ t, y.tasks.task reader = some t

theorem sound_initial (k : TaskTable) : (initial k).Sound where
  custody := Custody.nothing
  iter h := by cases h
  reader h := by cases h

theorem covered_initial (k : TaskTable) : (initial k).Covered := by
  intro v h
  cases h

theorem holds_of_atHand {v : Nat} {reader : Int} {taken : Option Int}
    (h : y.AtHand f v reader taken) : y.holds f = some v := by
  unfold holds
  rw [h]
  rfl

theorem takenBy_of_atHand {v : Nat} {reader : Int} {taken : Option Int}
    (h : y.AtHand f v reader taken) : y.takenBy f = taken := by
  unfold takenBy
  rw [h]
  rfl

theorem holds_after (hf : y.files[f]? ≠ none) :
    (y.after f s r).holds = Function.update y.holds f r.iterator := by
  have hlt : f < y.files.length := by
    by_contra hge
    exact hf (List.getElem?_eq_none (Nat.not_lt.mp hge))
  funext g
  unfold holds after
  by_cases hg : g = f
  · rw [hg, List.getElem?_set_self hlt, Function.update_self]
    rfl
  · rw [List.getElem?_set_ne (Ne.symm hg), Function.update_of_ne hg]

/-- A call on a file leaves the state sound if it does so for the iterator of
that file and changes no other. -/
theorem Sound.after (h : y.Sound) (hf : y.files[f]? ≠ none)
    (hcustody : Custody s.iters.given (Function.update y.holds f r.iterator))
    (hother : ∀ v, y.holds f ≠ some v → ∀ i, y.myps.iter v = some i →
      s.iter v = some i)
    (hself : ∀ v reader taken, r = .active v reader taken →
      (∃ i, s.iter v = some i ∧ i.ptpid = some (taken.getD reader)) ∧
        ∃ t, y.tasks.task reader = some t) : (y.after f s r).Sound := by
  have hround : ∀ {g v reader taken},
      (y.after f s r).AtHand g v reader taken →
        r = .active v reader taken ∨ g ≠ f ∧ y.AtHand g v reader taken := by
    intro g v reader taken hg
    unfold AtHand MypsSystem.after at hg
    by_cases hgf : g = f
    · rw [hgf, List.getElem?_set_self'] at hg
      obtain ⟨r', -, heq⟩ := Option.map_eq_some_iff.mp hg
      exact .inl heq
    · rw [List.getElem?_set_ne (Ne.symm hgf)] at hg
      exact .inr ⟨hgf, hg⟩
  refine ⟨?_, fun hg => ?_, fun hg => ?_⟩
  · rw [holds_after hf]
    exact hcustody
  · rcases hround hg with hr | ⟨hgf, hold⟩
    · exact (hself _ _ _ hr).1
    · obtain ⟨i, hi, hptpid⟩ := h.iter hold
      refine ⟨i, hother _ (fun hv => hgf ?_) i hi, hptpid⟩
      exact h.custody.unique (holds_of_atHand hold) hv
  · rcases hround hg with hr | ⟨-, hold⟩
    · exact (hself _ _ _ hr).2
    · exact h.reader hold

theorem covered_after (hf : y.files[f]? ≠ none) :
    (y.after f s r).Covered ↔
      Custody.Covered s.iters.given (Function.update y.holds f r.iterator) := by
  unfold Covered
  rw [holds_after hf]
  rfl

/-! ### A call without an iterator at hand -/

theorem Sound.passed (h : y.Sound) (hf : y.files[f]? ≠ none)
    (hfree : y.holds f = none) (hs : s = y.myps) (hr : r.iterator = none) :
    (y.after f s r).Sound ∧ ((y.after f s r).Covered ↔ y.Covered) := by
  have hsame : Function.update y.holds f r.iterator = y.holds := by
    rw [hr, ← hfree, Function.update_eq_self]
  subst hs
  constructor
  · apply h.after hf
    · rw [hsame]
      exact h.custody
    · exact fun _ _ _ hi => hi
    · rintro v reader taken rfl
      cases hr
  · rw [covered_after hf, hsame]
    rfl

theorem iter_of_acquire {u : Myps} {i j : SeqIter} {v : Nat}
    (hs : u.iters = s.iters.acquire j) (hi : s.iter v = some i) :
    u.iter v = some i := by
  rw [Myps.iter_eq_some] at hi ⊢
  rw [hs]
  exact Ledger.getElem?_acquire_of_some j hi

theorem Sound.lost (h : y.Sound) (hf : y.files[f]? ≠ none)
    (hfree : y.holds f = none) {i : SeqIter}
    (hs : s.iters = y.myps.iters.acquire i) :
    (y.after f s .ended).Sound ∧ ¬ (y.after f s .ended).Covered := by
  have hsame : Function.update y.holds f SeqRound.ended.iterator = y.holds := by
    rw [show SeqRound.ended.iterator = y.holds f from hfree.symm,
      Function.update_eq_self]
  obtain ⟨hcustody, hlost⟩ :=
    h.custody.lose (Ledger.given_length y.myps.iters)
  rw [← Ledger.given_acquire _ i, ← hs] at hcustody hlost
  constructor
  · apply h.after hf
    · rwa [hsame]
    · exact fun v _ j hj => iter_of_acquire hs hj
    · rintro v reader taken hr
      cases hr
  · rwa [covered_after hf, hsame]

theorem Sound.granted (h : y.Sound) (hf : y.files[f]? ≠ none)
    (hfree : y.holds f = none) {i : SeqIter} {reader : Int} {taken : Option Int}
    (hs : s.iters = y.myps.iters.acquire i)
    (hptpid : i.ptpid = some (taken.getD reader))
    (hreader : ∃ t, y.tasks.task reader = some t) :
    (y.after f s (.active y.myps.iters.length reader taken)).Sound ∧
      ((y.after f s (.active y.myps.iters.length reader taken)).Covered ↔
        y.Covered) := by
  obtain ⟨hcustody, hcovered⟩ :=
    h.custody.grant (Ledger.given_length y.myps.iters) hfree
  rw [← Ledger.given_acquire _ i, ← hs] at hcustody hcovered
  constructor
  · apply h.after hf
    · exact hcustody
    · exact fun v _ j hj => iter_of_acquire hs hj
    · rintro v reader' taken' hr
      obtain ⟨rfl, rfl, rfl⟩ := SeqRound.active.inj hr
      refine ⟨⟨i, ?_, hptpid⟩, hreader⟩
      rw [Myps.iter_eq_some, hs]
      exact Ledger.getElem?_acquire_self _ i
  · rw [covered_after hf]
    exact hcovered

/-! ### A call on an iterator -/

section OnIterator

variable {v : Nat} {reader : Int} {taken : Option Int} {i : SeqIter}

theorem given_of_iter {v : Nat} (hi : s.iter v = some i) :
    s.iters.given v = some [] := by
  unfold Ledger.given
  rw [Myps.iter_eq_some.mp hi]
  rfl

theorem Sound.moved (h : y.Sound) (hv : y.AtHand f v reader taken)
    (hi : y.myps.iter v = some i) (next : Nat)
    (hs : s.iters = y.myps.iters.update v fun i => { i with pos := next }) :
    ((y.after f s (.active v reader taken)).Sound ∧
        ((y.after f s (.active v reader taken)).Covered ↔ y.Covered)) ∧
      (y.after f s .ended).Sound ∧ ¬ (y.after f s .ended).Covered := by
  have hf : y.files[f]? ≠ none := by simp [hv]
  have hholds := holds_of_atHand hv
  have hgiven : s.iters.given = y.myps.iters.given := by
    rw [hs]
    exact Ledger.given_update _ _ _
  have hother : ∀ w, y.holds f ≠ some w → ∀ j, y.myps.iter w = some j →
      s.iter w = some j := by
    intro w hw j hj
    have hne : v ≠ w := by
      rintro rfl
      exact hw hholds
    rw [Myps.iter_eq_some] at hj ⊢
    rw [hs]
    exact (Ledger.getElem?_update_ne _ _ hne).trans hj
  have hsame : Function.update y.holds f (SeqRound.active v reader taken).iterator =
      y.holds := by
    rw [show (SeqRound.active v reader taken).iterator = y.holds f from
      hholds.symm, Function.update_eq_self]
  obtain ⟨hcustody, hlost⟩ := h.custody.drop hholds
  refine ⟨⟨?_, ?_⟩, ?_, ?_⟩
  · apply h.after hf
    · rw [hsame, hgiven]
      exact h.custody
    · exact hother
    · rintro v' reader' taken' hr
      obtain ⟨rfl, rfl, rfl⟩ := SeqRound.active.inj hr
      obtain ⟨j, hj, hptpid⟩ := h.iter hv
      obtain rfl := Option.some.inj (hi.symm.trans hj)
      refine ⟨⟨{ i with pos := next }, ?_, hptpid⟩, h.reader hv⟩
      rw [Myps.iter_eq_some] at hi ⊢
      rw [hs]
      exact Ledger.getElem?_update_self _ hi
  · rw [covered_after hf, hsame, hgiven]
    rfl
  · apply h.after hf
    · rw [hgiven]
      exact hcustody
    · exact hother
    · rintro v' reader' taken' hr
      cases hr
  · rw [covered_after hf, hgiven]
    exact hlost

theorem Sound.freed (h : y.Sound) (hv : y.AtHand f v reader taken)
    (hi : y.myps.iter v = some i) :
    (y.after f (y.myps.kfree v) .idle).Sound ∧
      ((y.after f (y.myps.kfree v) .idle).Covered ↔ y.Covered) := by
  have hf : y.files[f]? ≠ none := by simp [hv]
  have hholds := holds_of_atHand hv
  have hgiven := Ledger.given_release () (given_of_iter hi)
  obtain ⟨hcustody, hcovered⟩ := @Custody.release _ _ _ _ _ _ _ _ _ () h.custody hholds
  rw [← hgiven] at hcustody hcovered
  constructor
  · apply h.after hf
    · exact hcustody
    · intro w hw j hj
      have hne : v ≠ w := by
        rintro rfl
        exact hw hholds
      rw [Myps.iter_eq_some] at hj ⊢
      exact (Ledger.getElem?_release_ne _ _ hne).trans hj
    · rintro v' reader' taken' hr
      cases hr
  · rw [covered_after hf]
    exact hcovered

end OnIterator

/-! ### The outcome of a turn -/

inductive Outcome (y : MypsSystem) (i : MypsTurn) : MypsSystem → Prop where
  | faulted : ¬ TargetAlive y i → Outcome y i y.faulted
  | done {z : MypsSystem} : TargetAlive y i → z.fault = y.fault → z.Sound →
      (z.Covered ↔ y.Covered ∧ KeepsIterator y i) → Outcome y i z

theorem Sound.not_alive {v : Nat} {reader : Int} {taken : Option Int}
    (h : y.Sound) (hv : y.AtHand f v reader taken)
    (htask : pidTask y.tasks.toTasks (some (taken.getD reader)) = none) :
    ¬ ∀ p ∈ y.takenBy f, (y.tasks.task p).isSome := by
  intro halive
  have hdead : y.tasks.task (taken.getD reader) = none := htask
  cases taken with
  | none =>
      obtain ⟨t, ht⟩ := h.reader hv
      rw [show (none : Option Int).getD reader = reader from rfl, ht] at hdead
      cases hdead
  | some p =>
      have hp := halive p (takenBy_of_atHand hv)
      rw [show (some p).getD reader = p from rfl] at hdead
      rw [hdead] at hp
      cases hp

theorem targetAlive_of_found {e : StartEnv} {pos : Nat} {t : Task}
    (htarget : (startTarget e y.tasks.toTasks y.myps).1 = some t) :
    TargetAlive y (.ctSeqStart f e pos) := by
  intro _ _ p hp
  rw [startTarget_of_taken hp] at htarget
  exact Option.isSome_iff_exists.mpr ⟨t, htarget⟩

theorem start_outcome {e : StartEnv} (h : y.Sound)
    (hidle : y.files[f]? = some .idle)
    (hcurrent : y.tasks.task e.current.pid = some e.current) (pos : Nat) :
    Outcome y (.ctSeqStart f e pos) (y.start f e pos) := by
  have hf : y.files[f]? ≠ none := by simp [hidle]
  have hfree : y.holds f = none := by
    unfold holds
    rw [hidle]
    rfl
  have hcase := ctSeqStart_case e y.tasks.toTasks pos y.myps
  unfold start
  generalize CddDriver.ctSeqStart e y.tasks.toTasks none pos y.myps = res at hcase
  cases hcase with
  | noMemory hmem =>
      have hmem' : e.allocated ≠ true := by simp [hmem]
      obtain ⟨hsound, hcovered⟩ := @Sound.passed y f y.myps .ended h hf hfree rfl rfl
      refine .done (fun ha => absurd ha hmem') rfl hsound ?_
      rw [hcovered]
      exact (and_iff_left fun ha => absurd ha hmem').symm
  | noTask hmem hpos htarget =>
      refine .faulted fun halive => ?_
      obtain ⟨p, hp, hnone⟩ := startTarget_eq_none_iff.mp htarget
      have halive := halive hmem hpos p hp
      rw [hnone] at halive
      cases halive
  | noChild hmem hpos htarget hnil hs =>
      obtain ⟨hsound, hlost⟩ := h.lost hf hfree hs
      refine .done (targetAlive_of_found htarget) rfl hsound (iff_of_false hlost ?_)
      rintro ⟨-, hkeeps⟩
      exact (hkeeps hmem).2 _ htarget hnil
  | first hmem hpos htarget hne hs hptpid =>
      rw [startTarget_ptpid hcurrent htarget] at hptpid
      obtain ⟨hsound, hcovered⟩ := h.granted hf hfree hs hptpid ⟨_, hcurrent⟩
      refine .done (targetAlive_of_found htarget) rfl hsound ?_
      rw [hcovered]
      refine (and_iff_left fun _ => ⟨hpos, fun t ht => ?_⟩).symm
      obtain rfl := Option.some.inj (htarget.symm.trans ht)
      exact hne
  | again hmem hpos hs =>
      obtain ⟨hsound, hlost⟩ := h.lost hf hfree hs
      refine .done (fun _ hzero => absurd hzero hpos) rfl hsound
        (iff_of_false hlost ?_)
      rintro ⟨-, hkeeps⟩
      exact hpos (hkeeps hmem).1

theorem show_outcome {v : Nat} {reader : Int} {taken : Option Int} (h : y.Sound)
    (hv : y.AtHand f v reader taken) :
    Outcome y (.ctSeqShow f)
      (if (y.myps.iter v).isSome then y else y.faulted) := by
  obtain ⟨i, hi, -⟩ := h.iter hv
  rw [if_pos (by rw [hi]; rfl)]
  exact .done trivial rfl h (and_iff_left trivial).symm

theorem next_outcome {v : Nat} {reader : Int} {taken : Option Int} (h : y.Sound)
    (hv : y.AtHand f v reader taken) (pos : Nat) :
    Outcome y (.ctSeqNext f pos) (y.next f v pos reader taken) := by
  obtain ⟨i, hi, hptpid⟩ := h.iter hv
  unfold next CddDriver.ctSeqNext
  rw [hi, Option.bind_some, hptpid]
  cases htask : pidTask y.tasks.toTasks (some (taken.getD reader)) with
  | none =>
      exact .faulted fun halive => h.not_alive hv htask halive
  | some t =>
      have halive : TargetAlive y (.ctSeqNext f pos) := by
        intro p hp
        obtain rfl := (takenBy_of_atHand hv).symm.trans hp
        exact Option.isSome_iff_exists.mpr ⟨t, htask⟩
      obtain ⟨⟨hsound, hcovered⟩, hsound', hlost⟩ := h.moved
        (s := { y.myps with iters := y.myps.iters.update v fun j =>
          { j with pos := (i.pos + 1) % ((y.tasks.children i.head).length + 1) } })
        hv hi _ rfl
      have hkeeps : KeepsIterator y (.ctSeqNext f pos) ↔
          (i.pos + 1) % ((y.tasks.children i.head).length + 1) ≠
            (y.tasks.children i.head).length := by
        constructor
        · exact fun hk => hk v (holds_of_atHand hv) i hi
        · intro hne v' hv' i' hi'
          obtain rfl := Option.some.inj ((holds_of_atHand hv).symm.trans hv')
          obtain rfl := Option.some.inj (hi.symm.trans hi')
          exact hne
      simp only [Option.map_some]
      by_cases hend : (i.pos + 1) % ((y.tasks.children i.head).length + 1) =
          (y.tasks.children i.head).length
      · rw [if_pos hend]
        refine .done halive rfl hsound' (iff_of_false hlost ?_)
        exact fun hk => hkeeps.mp hk.2 hend
      · rw [if_neg hend]
        refine .done halive rfl hsound ?_
        rw [hcovered]
        exact (and_iff_left (hkeeps.mpr hend)).symm

theorem stop_outcome {v : Nat} {reader : Int} {taken : Option Int} (h : y.Sound)
    (hv : y.AtHand f v reader taken) :
    Outcome y (.ctSeqStop f) (y.stop f (some v)) := by
  obtain ⟨i, hi, hptpid⟩ := h.iter hv
  unfold stop CddDriver.ctSeqStop
  simp only [hi, Option.bind_some, hptpid]
  cases htask : pidTask y.tasks.toTasks (some (taken.getD reader)) with
  | none => exact .faulted fun halive => h.not_alive hv htask halive
  | some t =>
      have halive : TargetAlive y (.ctSeqStop f) := by
        intro p hp
        obtain rfl := (takenBy_of_atHand hv).symm.trans hp
        exact Option.isSome_iff_exists.mpr ⟨t, htask⟩
      obtain ⟨hsound, hcovered⟩ := h.freed hv hi
      exact .done halive rfl hsound (hcovered.trans (and_iff_left trivial).symm)

/-! ### The other turns -/

theorem Sound.framed (h : y.Sound) (hfiles : z.files = y.files)
    (hgiven : z.myps.iters.given = y.myps.iters.given)
    (hiter : ∀ v i, y.myps.iter v = some i →
      ∃ j, z.myps.iter v = some j ∧ j.ptpid = i.ptpid)
    (hreader : ∀ f v reader taken, y.AtHand f v reader taken →
      ∃ t, z.tasks.task reader = some t) :
    z.Sound ∧ (z.Covered ↔ y.Covered) := by
  have hholds : z.holds = y.holds := by
    unfold holds
    rw [hfiles]
  refine ⟨⟨?_, fun hv => ?_, fun hv => ?_⟩, ?_⟩
  · rw [hgiven, hholds]
    exact h.custody
  · unfold AtHand at hv
    rw [hfiles] at hv
    obtain ⟨i, hi, hptpid⟩ := h.iter hv
    obtain ⟨j, hj, hsame⟩ := hiter _ i hi
    exact ⟨j, hj, hsame.trans hptpid⟩
  · unfold AtHand at hv
    rw [hfiles] at hv
    exact hreader _ _ _ _ hv
  · unfold Covered
    rw [hgiven, hholds]

theorem given_replace (place : Nat → Nat) (s : Myps) :
    (s.replace place).iters.given = s.iters.given := by
  funext v
  unfold Ledger.given Myps.replace
  rw [List.getElem?_mapIdx, Option.map_map]
  rfl

theorem iter_replace (place : Nat → Nat) {v : Nat} {i : SeqIter}
    (hi : s.iter v = some i) :
    ∃ j, (s.replace place).iter v = some j ∧ j.ptpid = i.ptpid := by
  refine ⟨{ i with pos := place v }, ?_, rfl⟩
  rw [Myps.iter_eq_some] at hi ⊢
  unfold Myps.replace
  rw [List.getElem?_mapIdx, hi]
  rfl

theorem Sound.opened (h : y.Sound) :
    { y with files := y.files ++ [SeqRound.idle] }.Sound ∧
      ({ y with files := y.files ++ [SeqRound.idle] }.Covered ↔ y.Covered) := by
  have hfiles : ∀ (g : Nat) r, (y.files ++ [SeqRound.idle])[g]? = some r →
      r = .idle ∨ y.files[g]? = some r := by
    intro g r hg
    rw [List.getElem?_append] at hg
    split at hg
    · exact .inr hg
    · exact .inl (List.mem_singleton.mp (List.mem_of_getElem? hg))
  have hholds : { y with files := y.files ++ [SeqRound.idle] }.holds = y.holds := by
    funext g
    unfold holds
    rw [List.getElem?_append]
    split
    · rfl
    · next hge =>
        rw [List.getElem?_eq_none (Nat.not_lt.mp hge)]
        cases hr : [SeqRound.idle][g - y.files.length]? with
        | none => rfl
        | some r =>
            rw [List.mem_singleton.mp (List.mem_of_getElem? hr)]
            rfl
  refine ⟨⟨?_, fun hv => ?_, fun hv => ?_⟩, ?_⟩
  · rw [hholds]
    exact h.custody
  · rcases hfiles _ _ hv with hr | hold
    · cases hr
    · exact h.iter hold
  · rcases hfiles _ _ hv with hr | hold
    · cases hr
    · exact h.reader hold
  · unfold Covered
    rw [hholds]

theorem fork_task {k : TaskTable} {t : Task} {children : Int → List Task}
    (hpos : 0 < t.pid) (hlt : t.pid < 2 ^ 31) {pid : Int}
    (h : ∃ u, k.task pid = some u) :
    ∃ u, (k.fork t children hpos hlt).task pid = some u := by
  unfold TaskTable.fork
  dsimp only
  split
  · exact ⟨t, rfl⟩
  · exact h

theorem reading_of_atHand {v : Nat} {reader : Int} {taken : Option Int}
    (hv : y.AtHand f v reader taken) : y.reading reader = true := by
  unfold reading
  rw [List.any_eq_true]
  exact ⟨_, List.mem_of_getElem? hv, decide_eq_true rfl⟩

theorem framed_outcome {i : MypsTurn} (halive : TargetAlive y i)
    (hkeeps : KeepsIterator y i) (hfault : z.fault = y.fault)
    (h : z.Sound ∧ (z.Covered ↔ y.Covered)) : Outcome y i z :=
  .done halive hfault h.1 (h.2.trans (and_iff_left hkeeps).symm)

theorem running_of_turn {i : MypsTurn} (hz : y.turn i = some z) :
    y.fault = false := by
  unfold turn at hz
  split at hz
  · cases hz
  · next hfault => exact Bool.eq_false_iff.mpr hfault

theorem ended_outcome (h : y.Sound) (hended : y.files[f]? = some .ended) :
    Outcome y (.ctSeqStop f) (y.stop f none) := by
  have hfree : y.holds f = none := by
    unfold holds
    rw [hended]
    rfl
  refine framed_outcome (fun p hp => ?_) trivial rfl
    (h.passed (by simp [hended]) hfree rfl rfl)
  unfold takenBy at hp
  rw [hended] at hp
  cases hp

theorem fork_outcome {t : Task} (h : y.Sound) (children : Int → List Task)
    (place : Nat → Nat) (hpos : 0 < t.pid) (hlt : t.pid < 2 ^ 31) :
    Outcome y (.fork t children place)
      { y with
        tasks := y.tasks.fork t children hpos hlt
        myps := y.myps.replace place } := by
  refine framed_outcome trivial trivial rfl ?_
  apply h.framed
  · rfl
  · exact given_replace place y.myps
  · exact fun _ _ hi => iter_replace place hi
  · exact fun _ _ _ _ hv => fork_task hpos hlt (h.reader hv)

theorem exit_outcome {pid : Int} (h : y.Sound) (hout : y.reading pid = false)
    (children : Int → List Task) (place : Nat → Nat) :
    Outcome y (.exit pid children place)
      { y with
        tasks := y.tasks.exit pid children
        myps := y.myps.replace place } := by
  refine framed_outcome trivial trivial rfl ?_
  apply h.framed
  · rfl
  · exact given_replace place y.myps
  · exact fun _ _ hi => iter_replace place hi
  · intro g v reader taken hv
    have hne : reader ≠ pid := by
      rintro rfl
      rw [reading_of_atHand hv] at hout
      cases hout
    obtain ⟨t, ht⟩ := h.reader hv
    exact ⟨t, (if_neg hne).trans ht⟩

theorem turn_outcome {i : MypsTurn} (h : y.Sound) (hz : y.turn i = some z) :
    Outcome y i z := by
  have hrunning := running_of_turn hz
  unfold turn at hz
  rw [if_neg (by simp [hrunning])] at hz
  cases i with
  | ctOpen =>
      obtain rfl := Option.some.inj hz
      exact framed_outcome trivial trivial rfl h.opened
  | ctSeqStart f e pos =>
      dsimp only at hz
      split at hz
      · next hguard =>
          obtain rfl := Option.some.inj hz
          exact start_outcome h hguard.1 hguard.2 pos
      · cases hz
  | ctSeqShow f =>
      dsimp only at hz
      split at hz
      · next hv =>
          obtain rfl := Option.some.inj hz
          exact show_outcome h hv
      · cases hz
  | ctSeqNext f pos =>
      dsimp only at hz
      split at hz
      · next hv =>
          obtain rfl := Option.some.inj hz
          exact next_outcome h hv pos
      · cases hz
  | ctSeqStop f =>
      dsimp only at hz
      split at hz
      · next hv =>
          obtain rfl := Option.some.inj hz
          exact stop_outcome h hv
      · next hended =>
          obtain rfl := Option.some.inj hz
          exact ended_outcome h hended
      · cases hz
  | ctWrite buf =>
      obtain rfl := Option.some.inj hz
      exact framed_outcome trivial trivial rfl
        (h.framed rfl rfl (fun _ i hi => ⟨i, hi, rfl⟩) fun _ _ _ _ hv => h.reader hv)
  | fork t children place =>
      dsimp only at hz
      split at hz
      · next hguard =>
          obtain rfl := Option.some.inj hz
          exact fork_outcome h children place hguard.1.1 hguard.1.2
      · cases hz
  | exit pid children place =>
      dsimp only at hz
      split at hz
      · next hguard =>
          obtain rfl := Option.some.inj hz
          exact exit_outcome h hguard.2 children place
      · cases hz

end MypsSystem

section Step

variable {y z : MypsSystem} {i : MypsTurn} {o : Unit}

theorem mypsRounds_step (hz : mypsRounds.step y i = some (z, o)) :
    y.turn i = some z := by
  obtain ⟨z', hturn, heq⟩ := Option.map_eq_some_iff.mp hz
  obtain ⟨rfl, -⟩ := Prod.mk.inj heq
  exact hturn

theorem mypsRounds_sound (h : y.Sound)
    (hz : mypsRounds.step y i = some (z, o)) : z.Sound := by
  cases MypsSystem.turn_outcome h (mypsRounds_step hz) with
  | faulted => exact ⟨h.custody, h.iter, h.reader⟩
  | done _ _ hsound _ => exact hsound

/-- A call faults exactly when it looks up a task that is gone. -/
theorem mypsRounds_fault_iff (h : y.Sound)
    (hz : mypsRounds.step y i = some (z, o)) :
    z.fault = false ↔ TargetAlive y i := by
  have hrunning := MypsSystem.running_of_turn (mypsRounds_step hz)
  cases MypsSystem.turn_outcome h (mypsRounds_step hz) with
  | faulted hgone => exact iff_of_false (fun h => by cases h) hgone
  | done halive hfault _ _ => exact iff_of_true (hfault.trans hrunning) halive

/-- A call that goes through loses no iterator exactly when it keeps its own. -/
theorem mypsRounds_covered_iff (h : y.Sound)
    (hz : mypsRounds.step y i = some (z, o)) (hfault : z.fault = false) :
    z.Covered ↔ y.Covered ∧ KeepsIterator y i := by
  cases MypsSystem.turn_outcome h (mypsRounds_step hz) with
  | faulted => cases hfault
  | done _ _ _ hcovered => exact hcovered

end Step

end CddDriver
