import CddDriver.FileOps
import CddDriver.Lib.SeqFile
import Mathlib.Tactic.Common
/-!
# The sequence behind /proc/myps

The iterator of `proc_seq_ops.c` over the children of a task: `ct_seq_start`,
`ct_seq_next`, `ct_seq_stop` and `ct_seq_show`, with the iterators they
allocate and free.  The tasks are those of the kernel, by PID; a task that is
not there is a null pointer, and using one is a fault.  `seq_open` leaves the
field `private` null, and no function of the module assigns it.
-/

namespace CddDriver

open Lib

/-! ## Tasks -/

structure Task where
  comm : List Char
  pid : Int
  parentComm : List Char
  parentPid : Int
  state : Int
  prio : Int
  rtPriority : Nat
  /-- The counter of `files`, when that is non-null. -/
  files : Option Int
  deriving DecidableEq

/-- The live tasks and their lists of children, by PID. -/
structure Tasks where
  task : Int → Option Task
  children : Int → List Task

/-- `find_vpid`; a `struct pid` is named by its number. -/
def findVpid (k : Tasks) (nr : Int) : Option Int :=
  if (k.task nr).isSome then some nr else none

def pidTask (k : Tasks) (ptpid : Option Int) : Option Task := ptpid.bind k.task

/-! ## Iterators -/

/-- `seqiter_t`.  A position in a list of `n` children is the index of a child,
or `n` for the head of the list. -/
structure SeqIter where
  pos : Nat
  /-- PID of the task whose list of children this is. -/
  head : Int
  posMax : Nat
  ptpid : Option Int

/-- The data of the module: the PID to report on, 0 for the current task, and
every iterator that `kmalloc` returned. -/
structure Myps where
  testid : Int
  iters : Ledger SeqIter Unit

/-- The iterator behind a pointer; one that was freed must not be used. -/
def Myps.iter (s : Myps) (v : Nat) : Option SeqIter :=
  (s.iters[v]?).bind fun e => if e.releases = [] then some e.item else none

def Myps.alloc (i : SeqIter) (s : Myps) : Myps :=
  { s with iters := s.iters.acquire i }

def Myps.kfree (v : Nat) (s : Myps) : Myps :=
  { s with iters := s.iters.release v () }

/-- The process that reads, with the outcomes of `kmalloc` and `mutex_trylock`
and the content of the memory that `kmalloc` returns. -/
structure StartEnv where
  current : Task
  allocated : Bool
  locked : Bool
  fresh : SeqIter

/-- The task that a first start reports on and the PID it keeps for it, with
`testid` used up. -/
def startTarget (e : StartEnv) (k : Tasks) (s : Myps) :
    Option Task × Option Int × Myps :=
  if e.locked && s.testid ≠ 0 then
    let ptpid := findVpid k s.testid
    (pidTask k ptpid, ptpid, { s with testid := 0 })
  else (some e.current, findVpid k e.current.pid, s)

/-- `ct_seq_start` with `s->private = priv` and `*pos = pos`. -/
def ctSeqStart (e : StartEnv) (k : Tasks) (priv : Option Nat) (pos : Nat)
    (s : Myps) : Option (Myps × Option Nat) :=
  let spos := s.iters.length
  if !e.allocated then some (s, none)
  else if pos = 0 then
    let (testTask, ptpid, s) := startTarget e k s
    testTask.map fun testTask =>
      let n := (k.children testTask.pid).length
      if n = 0 then (s.alloc { e.fresh with ptpid := ptpid }, none)
      else (s.alloc ⟨0, testTask.pid, pos + n, ptpid⟩, some spos)
  else
    let s := s.alloc e.fresh
    match priv with
    | none => some (s, none)
    | some sspos =>
        (s.iter sspos).bind fun i =>
          -- the message names the task in both cases
          (pidTask k i.ptpid).map fun _ =>
            if pos ≠ i.posMax then (s.kfree spos, some sspos) else (s, none)

/-- `ct_seq_next`; `*pos` stays as it is. -/
def ctSeqNext (k : Tasks) (spos pos : Nat) (s : Myps) :
    Option (Myps × Option Nat × Nat) :=
  (s.iter spos).bind fun i =>
    (pidTask k i.ptpid).map fun _ =>
      let n := (k.children i.head).length
      let next := (i.pos + 1) % (n + 1)
      let s := { s with
        iters := s.iters.update spos fun i => { i with pos := next } }
      if next = n then (s, none, pos) else (s, some spos, pos)

def ctSeqStop (k : Tasks) (v : Option Nat) (s : Myps) : Option Myps :=
  match v with
  | none => some s
  | some spos =>
      (s.iter spos).bind fun i =>
        (pidTask k i.ptpid).map fun _ => s.kfree spos

/-! ## Records -/

def taskStateNames : List (Int × List Char) :=
  [(0, "TASK_RUNNING".toList), (1, "TASK_INTERRUPTIBLE".toList),
    (2, "TASK_UNINTERRUPTIBLE".toList), (8, "__TASK_TRACED".toList),
    (4, "__TASK_STOPPED".toList)]

def lookupNameHelper (table : List (Int × List Char)) (index : Int) :
    List Char :=
  match table with
  | [] => "__UNKNOWN__".toList
  | (property, name) :: table =>
      if property = index then name else lookupNameHelper table index

def taskLine (t : Task) : List Char :=
  "Task ".toList ++ t.comm ++ " (pid ".toList ++ formatInt t.pid ++
    "), child of ".toList ++ t.parentComm ++ " (pid ".toList ++
    formatInt t.parentPid ++ "). State=".toList ++ formatInt t.state ++ ['('] ++
    lookupNameHelper taskStateNames t.state ++ "), priority=".toList ++
    formatInt t.prio ++ "(RT=".toList ++ formatInt (toInt t.rtPriority) ++
    "). ".toList ++ formatInt (t.files.getD 0) ++ " open files.\n".toList

def ctSeqShow (k : Tasks) (spos : Nat) (s : Myps) : Option (List Char) :=
  (s.iter spos).bind fun i => ((k.children i.head)[i.pos]?).map taskLine

/-- `ct_seq_ops`, as one process uses them on one open file. -/
def ctSeqOps (e : StartEnv) (k : Tasks) : SeqOps Myps Nat where
  start := ctSeqStart e k none
  next := ctSeqNext k
  stop := ctSeqStop k
  record := ctSeqShow k

/-! ## The walk over the children -/

section Walk

variable {e : StartEnv} {k : Tasks} {s s' : Myps} {v : Nat} {i : SeqIter}

theorem Myps.iter_alloc (i : SeqIter) (s : Myps) :
    (s.alloc i).iter s.iters.length = some i := by
  simp [Myps.iter, Myps.alloc]

theorem Myps.iter_eq_some :
    s.iter v = some i ↔ s.iters[v]? = some ⟨i, []⟩ := by
  unfold Myps.iter
  cases h : s.iters[v]? with
  | none => simp
  | some e =>
      obtain ⟨item, releases⟩ := e
      simp [and_comm]

theorem Myps.iter_update (f : SeqIter → SeqIter) (h : s.iter v = some i) :
    Myps.iter { s with iters := s.iters.update v f } v = some (f i) :=
  Myps.iter_eq_some.mpr
    (Ledger.getElem?_update_self f (Myps.iter_eq_some.mp h))

structure AtChild (k : Tasks) (t : Task) (j v : Nat) (s : Myps) : Prop where
  inside : j < (k.children t.pid).length
  iter : ∃ i, s.iter v = some i ∧ i.pos = j ∧ i.head = t.pid ∧
    ∃ u, pidTask k i.ptpid = some u

theorem AtChild.show {t : Task} {j : Nat} (h : AtChild k t j v s) :
    ctSeqShow k v s = ((k.children t.pid).map taskLine)[j]? := by
  obtain ⟨i, hi, rfl, hhead, -⟩ := h.iter
  unfold ctSeqShow
  rw [hi, Option.bind_some, hhead, List.getElem?_map]

theorem AtChild.next {t : Task} {j : Nat} (h : AtChild k t j v s) (pos : Nat) :
    ∃ s', ctSeqNext k v pos s =
        some (if j + 1 = (k.children t.pid).length then (s', none, pos)
          else (s', some v, pos)) ∧
      (j + 1 < (k.children t.pid).length → AtChild k t (j + 1) v s') := by
  obtain ⟨i, hi, rfl, hhead, u, hu⟩ := h.iter
  have hinside := h.inside
  have hnext : (i.pos + 1) % ((k.children t.pid).length + 1) = i.pos + 1 :=
    Nat.mod_eq_of_lt (by omega)
  refine ⟨{ s with
    iters := s.iters.update v fun i' => { i' with pos := i.pos + 1 } }, ?_, ?_⟩
  · simp only [ctSeqNext, hi, Option.bind_some, hu, Option.map_some, hhead, hnext]
  · intro hlt
    exact ⟨hlt, _, Myps.iter_update _ hi, rfl, hhead, u, hu⟩

theorem ctSeqOps_walks (e : StartEnv) (k : Tasks) (t : Task) :
    (ctSeqOps e k).Walks ((k.children t.pid).map taskLine) (AtChild k t) := by
  constructor
  · intro j v s h
    obtain ⟨line, hline⟩ : ∃ line, ((k.children t.pid).map taskLine)[j]? =
        some line := by
      rw [List.getElem?_map, List.getElem?_eq_getElem h.inside]
      exact ⟨_, rfl⟩
    exact ⟨line, hline, h.show.trans hline⟩
  · intro j v s pos h hlt
    rw [List.length_map] at hlt
    obtain ⟨s', hnext, hat⟩ := h.next pos
    rw [if_neg (by omega)] at hnext
    exact ⟨s', v, pos, hnext, hat hlt⟩
  · intro j v s pos h hlast
    rw [List.length_map] at hlast
    obtain ⟨s', hnext, -⟩ := h.next pos
    rw [if_pos hlast] at hnext
    exact ⟨s', pos, hnext⟩
  · intro j v s h
    obtain ⟨i, hi, -, -, u, hu⟩ := h.iter
    exact ⟨s.kfree v, by simp [ctSeqOps, ctSeqStop, hi, hu]⟩
  · exact fun s => ⟨s, rfl⟩

/-- The task that a session started by `e` in `s` reports on is `t`, and it is
alive, as is the process that reads. -/
structure Targets (e : StartEnv) (k : Tasks) (s : Myps) (t : Task) : Prop where
  current : k.task e.current.pid = some e.current
  target : (startTarget e k s).1 = some t

theorem Targets.pidTask {t : Task} (h : Targets e k s t) :
    ∃ u, CddDriver.pidTask k (startTarget e k s).2.1 = some u := by
  have htarget := h.target
  unfold startTarget at htarget ⊢
  split at htarget
  · next hwritten =>
      rw [if_pos hwritten]
      exact ⟨t, htarget⟩
  · next hown =>
      rw [if_neg hown]
      simp [findVpid, CddDriver.pidTask, h.current]

theorem startTarget_iters (e : StartEnv) (k : Tasks) (s : Myps) :
    (startTarget e k s).2.2.iters = s.iters := by
  unfold startTarget
  split <;> rfl

theorem Targets.start_first {t : Task} (h : Targets e k s t) :
    ∃ u, ((e.allocated = false ∨ k.children t.pid = []) ∧
        ctSeqStart e k none 0 s = some (u, none)) ∨
      ∃ v, e.allocated = true ∧ ctSeqStart e k none 0 s = some (u, some v) ∧
        AtChild k t 0 v u := by
  have htarget := h.target
  obtain ⟨u, hu⟩ := h.pidTask
  unfold ctSeqStart
  cases e.allocated with
  | false => exact ⟨s, .inl ⟨.inl rfl, rfl⟩⟩
  | true =>
      simp only [Bool.not_true, Bool.false_eq_true, if_false, if_true, htarget,
        Option.map_some]
      have hiters := startTarget_iters e k s
      generalize startTarget e k s = r at hu hiters
      by_cases hnil : k.children t.pid = []
      · exact ⟨_, .inl ⟨.inr hnil, by rw [if_pos (by simp [hnil])]⟩⟩
      · have hlen : (k.children t.pid).length ≠ 0 := by simpa using hnil
        rw [if_neg hlen, ← hiters]
        exact ⟨_, .inr ⟨_, trivial, rfl, Nat.pos_of_ne_zero hlen, _,
          Myps.iter_alloc _ _, rfl, rfl, u, hu⟩⟩

/-- No later start finds an iterator. -/
theorem ctSeqStart_again (e : StartEnv) (k : Tasks) {pos : Nat} (hpos : 0 < pos)
    (s : Myps) : ∃ s', ctSeqStart e k none pos s = some (s', none) := by
  have hne : pos ≠ 0 := by omega
  unfold ctSeqStart
  cases e.allocated
  · exact ⟨s, rfl⟩
  · simp [hne]

theorem ctSeqOps_startsOnce (e : StartEnv) (k : Tasks) (t : Task) :
    (ctSeqOps e k).StartsOnce ((k.children t.pid).map taskLine) (AtChild k t) :=
  ⟨ctSeqOps_walks e k t, fun _ s hpos => ctSeqStart_again e k hpos s⟩

end Walk

/-! ## What a first start looks up -/

section Target

variable {e : StartEnv} {k : Tasks} {s : Myps}

def takenPid (e : StartEnv) (s : Myps) : Option Int :=
  if e.locked && s.testid ≠ 0 then some s.testid else none

theorem pidTask_findVpid (k : Tasks) (nr : Int) :
    pidTask k (findVpid k nr) = k.task nr := by
  unfold pidTask findVpid
  cases h : k.task nr <;> simp [h]

theorem startTarget_of_taken {p : Int} (h : takenPid e s = some p) :
    startTarget e k s = (k.task p, findVpid k p, { s with testid := 0 }) := by
  unfold takenPid at h
  split at h
  · next htakes =>
      obtain rfl := Option.some.inj h
      unfold startTarget
      rw [if_pos htakes]
      simp only [pidTask_findVpid]
  · cases h

theorem startTarget_of_own (h : takenPid e s = none) :
    startTarget e k s = (some e.current, findVpid k e.current.pid, s) := by
  unfold takenPid at h
  split at h
  · cases h
  · next hown =>
      unfold startTarget
      rw [if_neg hown]

theorem startTarget_eq_none_iff :
    (startTarget e k s).1 = none ↔
      ∃ p, takenPid e s = some p ∧ k.task p = none := by
  cases h : takenPid e s with
  | none =>
      rw [startTarget_of_own h]
      simp
  | some p =>
      rw [startTarget_of_taken h]
      simp

theorem startTarget_ptpid {t : Task} (hcurrent : k.task e.current.pid = some e.current)
    (ht : (startTarget e k s).1 = some t) :
    (startTarget e k s).2.1 = some ((takenPid e s).getD e.current.pid) := by
  cases h : takenPid e s with
  | none =>
      rw [startTarget_of_own h]
      simp [findVpid, hcurrent]
  | some p =>
      rw [startTarget_of_taken h] at ht ⊢
      have hsome : k.task p = some t := ht
      simp [findVpid, hsome]

theorem ctSeqStart_first {u : Myps} {v : Option Nat} (hmem : e.allocated = true)
    (h : ctSeqStart e k none 0 s = some (u, v)) :
    (startTarget e k s).1.isSome = true ∧
      u.testid = (startTarget e k s).2.2.testid := by
  unfold ctSeqStart at h
  simp only [hmem, Bool.not_true, Bool.false_eq_true, if_false, if_true,
    Option.map_eq_some_iff] at h
  obtain ⟨t, ht, heq⟩ := h
  rw [ht]
  split at heq
  · obtain ⟨rfl, -⟩ := Prod.mk.inj heq
    exact ⟨rfl, rfl⟩
  · obtain ⟨rfl, -⟩ := Prod.mk.inj heq
    exact ⟨rfl, rfl⟩

theorem startTarget_congr {u : Myps} (h : s.testid = u.testid) :
    (startTarget e k s).1 = (startTarget e k u).1 ∧
      (startTarget e k s).2.2.testid = (startTarget e k u).2.2.testid := by
  unfold startTarget
  rw [h]
  split
  · exact ⟨rfl, rfl⟩
  · exact ⟨rfl, h⟩

end Target

/-! ## What a session lists -/

def listing (k : Tasks) (t : Task) : List Char :=
  ((k.children t.pid).map taskLine).flatten

theorem taskLine_ne_nil (t : Task) : taskLine t ≠ [] := by
  unfold taskLine
  simp only [List.append_assoc]
  exact List.append_ne_nil_of_left_ne_nil (by decide) _

theorem listing_eq_nil {k : Tasks} {t : Task} :
    listing k t = [] ↔ k.children t.pid = [] := by
  unfold listing
  rw [List.flatten_eq_nil_iff]
  constructor
  · intro hall
    refine List.eq_nil_iff_forall_not_mem.mpr fun c hc => ?_
    exact taskLine_ne_nil c (hall _ (List.mem_map_of_mem hc))
  · intro hnil
    simp [hnil]

/-- A session with any read calls, each of which takes at least one line, ends
after at most two of them.  It has listed every child once exactly when there
was memory for the iterator and the whole listing fits the first read call, or
there is no child.  The calls cut their chunks as `SeqOps.fill` does; a `seq_read`
that keeps the record crossing the user's size would deliver that one too. -/
theorem session_lists_iff {e : StartEnv} {k : Tasks} {s : Myps} {t : Task}
    (h : Targets e k s t) {fuel : Nat}
    (hfuel : (k.children t.pid).length ≤ fuel) {q : SeqRequest}
    {qs : List SeqRequest}
    (hroom : ∀ r ∈ q :: qs, ∀ c ∈ k.children t.pid, r.Holds (taskLine c).length) :
    ∃ out ended, (ctSeqOps e k).session fuel (q :: qs) 0 s = some (out, ended) ∧
      (qs ≠ [] → ended = true) ∧
      (ended = true → (out = listing k t ↔ k.children t.pid = [] ∨
        e.allocated = true ∧ q.Holds (listing k t).length)) := by
  have hops := ctSeqOps_startsOnce e k t
  obtain ⟨u, ⟨hnone, hstart⟩ | ⟨v, halloc, hstart, hv⟩⟩ := h.start_first
  · refine ⟨[], true, hops.session_null fuel q qs hstart, fun _ => rfl, fun _ => ?_⟩
    rw [eq_comm, listing_eq_nil]
    constructor
    · exact .inl
    · rintro (hnil | ⟨halloc, -⟩)
      · exact hnil
      · exact hnone.resolve_left (by simp [halloc])
  · have hfuel' : ((k.children t.pid).map taskLine).length ≤ fuel := by
      rwa [List.length_map]
    have hroom' : ∀ line ∈ (k.children t.pid).map taskLine,
        q.Holds line.length := by
      intro line hline
      obtain ⟨c, hc, rfl⟩ := List.mem_map.mp hline
      exact hroom q List.mem_cons_self c hc
    obtain ⟨out, hout, hiff⟩ := hops.session_complete_iff hstart hv hfuel' hroom'
    have hsome : k.children t.pid ≠ [] := by
      intro hnil
      exact absurd hv.inside (by simp [hnil])
    refine ⟨out, _, hout, decide_eq_true, fun _ => ?_⟩
    rw [or_iff_right hsome, and_iff_right halloc]
    exact hiff

def shell : Task := ⟨"sh".toList, 100, "init".toList, 1, 1, 120, 0, some 1⟩

def shellChild (pid : Int) : Task :=
  ⟨"ps".toList, pid, "sh".toList, 100, 0, 120, 0, some 1⟩

def shellTasks : Tasks where
  task nr := if nr = 100 then some shell else none
  children nr := if nr = 100 then [shellChild 101, shellChild 102] else []

def shellEnv : StartEnv := ⟨shell, true, true, ⟨0, 0, 0, none⟩⟩

def readerTask : Task := ⟨"cat".toList, 200, "init".toList, 1, 0, 120, 0, some 1⟩

def readerEnv : StartEnv := ⟨readerTask, true, true, ⟨0, 0, 0, none⟩⟩

theorem shell_targets : Targets shellEnv shellTasks ⟨0, []⟩ shell :=
  ⟨by decide, by decide⟩

theorem session_lists_page :
    ∃ out, (ctSeqOps shellEnv shellTasks).session 2 [⟨4096, 4096⟩, ⟨4096, 4096⟩]
        0 ⟨0, []⟩ = some (out, true) ∧
      out = listing shellTasks shell := by
  have hroom : ∀ r ∈ [SeqRequest.mk 4096 4096, ⟨4096, 4096⟩],
      ∀ c ∈ shellTasks.children shell.pid, r.Holds (taskLine c).length := by
    decide +kernel
  obtain ⟨out, ended, hout, hends, hlists⟩ :=
    @session_lists_iff _ _ _ _ shell_targets 2 (by decide) _ _ hroom
  obtain rfl := hends (by simp)
  exact ⟨out, hout, (hlists rfl).mpr (.inr ⟨rfl, by decide +kernel⟩)⟩

/-- With a buffer that takes one line, the session ends after the first of two
children. -/
theorem not_session_lists_two_chunks :
    (∀ r ∈ [SeqRequest.mk 4096 128, ⟨4096, 128⟩],
      ∀ c ∈ shellTasks.children shell.pid, r.Holds (taskLine c).length) ∧
    (ctSeqOps shellEnv shellTasks).session 2 [⟨4096, 128⟩, ⟨4096, 128⟩] 0 ⟨0, []⟩ =
      some (taskLine (shellChild 101), true) ∧
    taskLine (shellChild 101) ≠ listing shellTasks shell := by
  refine ⟨?_, ?_, ?_⟩ <;> decide +kernel

end CddDriver
