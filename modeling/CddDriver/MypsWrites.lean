import CddDriver.Lib.Kstrtox
import CddDriver.Myps
import CddDriver.ProcWrites
import Mathlib.Tactic.Common
/-!
# Writes to /proc/myps

`ct_write` takes the PID of a task from the string that is written, and stores
it for the next session.  The number is read as a `long` and looked up as an
`int`.
-/

namespace CddDriver

open Lib

/-! ## ct_write -/

/-- The tasks of a kernel with one PID number space, as `find_vpid` and `t->pid`
see the same numbers there: each is found under its own PID, a positive
`pid_t`. -/
structure TaskTable extends Tasks where
  found : ∀ {nr t}, task nr = some t → t.pid = nr ∧ 0 < nr ∧ nr < 2 ^ 31

def erange : Int := 34

def kstrErrno : KstrError → Int
  | .erange => -erange
  | .einval => -einval

structure MypsData where
  testid : Int
  /-- Whether the mutex is taken. -/
  mtx : Bool
  bufs : Ledger (Block Char) Unit

/-- Store `cs` at `buf2 + pos`; the memory must not have been freed, and a store
must stay inside it. -/
def MypsData.poke (buf2 pos : Nat) (cs : List Char) (z : MypsData) :
    Option MypsData :=
  (z.bufs.live buf2).bind fun b =>
    if pos + cs.length ≤ b.size then
      some { z with bufs := z.bufs.update buf2 fun b => b.store pos cs }
    else none

def MypsData.kfree (buf2 : Nat) (z : MypsData) : MypsData :=
  { z with bufs := z.bufs.release buf2 () }

/-- The string in the user's buffer, which a NUL may end early. -/
def userString (buf : List Char) : List Char := buf.takeWhile (· ≠ '\x00')

/-- The bytes that `strncpy_from_user` stores: the string, and its NUL when that
is within the bytes it may copy. -/
def strncpyFromUser (buf : List Char) : List Char :=
  buf.take ((userString buf).length + 1)

/-- From `kstrtol` to the label `DoneSem`: `retval` and `testid`. -/
def ctWriteBody (k : Tasks) (count : Nat) (text : List Char) (testid : Int) :
    Int × Int :=
  match kstrtol text with
  | .error err => (kstrErrno err, testid)
  | .ok nr =>
      -- the parameter of `find_vpid` is an `int`
      match pidTask k (findVpid k (toInt nr)) with
      | none => (-einval, testid)
      | some ftask => (count, ftask.pid)

/-- `ct_write`, when `kmalloc` returns memory with the content `fresh`, or null. -/
def ctWrite (fresh : Option (Nat → Char)) (k : Tasks) (buf : List Char)
    (z : MypsData) : Option (Int × MypsData) :=
  let count := buf.length
  let len := max (toULong (count + 1)).toNat 10
  match fresh with
  | none => some (-enomem, z)
  | some data =>
      let buf2 := z.bufs.length
      let z := { z with bufs := z.bufs.acquire ⟨len, data⟩ }
      (z.poke buf2 0 ("TEST!".toList ++ ['\x00'])).bind fun z =>
        if z.mtx then some (-erestartsys, z.kfree buf2)
        else
          let z := { z with mtx := true }
          (z.poke buf2 0 (strncpyFromUser buf)).bind fun z =>
            (z.poke buf2 count ['\x00']).bind fun z =>
              (z.bufs.live buf2).map fun b =>
                let r := ctWriteBody k count (cString b) z.testid
                let z := { z with testid := r.2, mtx := false }
                (r.1, z.kfree buf2)

/-! ## The law and its condition -/

def Names (k : Tasks) (buf : List Char) (p : Int) : Prop :=
  integerOf (userString buf) = some p ∧ ∃ t, k.task p = some t

/-- A write succeeds and leaves `p` in `testid` exactly when its string names
`p`.  Otherwise it fails and leaves `testid` alone.  In both cases it stays
inside its buffer, gives back the mutex and frees the buffer once. -/
def AcceptsNamed (fresh : Option (Nat → Char)) (k : Tasks) (buf : List Char)
    (z : MypsData) : Prop :=
  ∃ retval y, ctWrite fresh k buf z = some (retval, y) ∧
    (∀ p, retval = buf.length ∧ y.testid = p ↔ Names k buf p) ∧
    ((∀ p, ¬ Names k buf p) → retval < 0 ∧ y.testid = z.testid) ∧
    y.mtx = false ∧
    (fresh = none → y.bufs = z.bufs) ∧
    (fresh ≠ none → ∃ b, y.bufs = z.bufs ++ [⟨b, [()]⟩])

/-- Without memory the string names no task.  With memory, a `long` that it
denotes is an `int`, or no task has the PID that narrowing makes of it. -/
def NarrowsHarmlessly (fresh : Option (Nat → Char)) (k : Tasks)
    (buf : List Char) : Prop :=
  (fresh = none → ∀ p, ¬ Names k buf p) ∧
    (fresh ≠ none → ∀ v, integerOf (userString buf) = some v →
      -2 ^ 63 ≤ v → v < 2 ^ 63 →
        -2 ^ 31 ≤ v ∧ v < 2 ^ 31 ∨ k.task (toInt v) = none)

/-! ## The temporary buffer -/

theorem MypsData.poke_newest {testid : Int} {mtx : Bool}
    {l : Ledger (Block Char) Unit} {b : Block Char} {pos : Nat} {cs : List Char}
    (h : pos + cs.length ≤ b.size) :
    MypsData.poke l.length pos cs ⟨testid, mtx, l ++ [⟨b, []⟩]⟩ =
      some ⟨testid, mtx, l ++ [⟨b.store pos cs, []⟩]⟩ := by
  unfold MypsData.poke
  rw [Ledger.live_append, Option.bind_some, if_pos h, Ledger.update_append]

theorem MypsData.kfree_newest {testid : Int} {mtx : Bool}
    {l : Ledger (Block Char) Unit} {b : Block Char} :
    MypsData.kfree l.length ⟨testid, mtx, l ++ [⟨b, []⟩]⟩ =
      ⟨testid, mtx, l ++ [⟨b, [()]⟩]⟩ := by
  unfold MypsData.kfree
  rw [Ledger.release_append]
  rfl

section UserString

variable (buf : List Char)

theorem strncpyFromUser_cases :
    userString buf = buf ∧ strncpyFromUser buf = buf ∨
      (userString buf).length < buf.length ∧
        strncpyFromUser buf = userString buf ++ ['\x00'] := by
  have hsplit : userString buf = buf ∨
      ∃ rest, buf = userString buf ++ '\x00' :: rest := by
    induction buf with
    | nil => exact .inl rfl
    | cons c buf ih =>
        by_cases hc : c = '\x00'
        · exact .inr ⟨buf, by simp [userString, hc]⟩
        · have hcons : userString (c :: buf) = c :: userString buf := by
            simp [userString, hc]
          rw [hcons]
          rcases ih with hall | ⟨rest, hrest⟩
          · exact .inl (by rw [hall])
          · exact .inr ⟨rest, congrArg (c :: ·) hrest⟩
  unfold strncpyFromUser
  rcases hsplit with hall | ⟨rest, hrest⟩
  · rw [hall]
    exact .inl ⟨rfl, List.take_of_length_le (Nat.le_succ _)⟩
  · generalize userString buf = s at hrest
    subst hrest
    refine .inr ⟨by simp, ?_⟩
    rw [List.take_length_add_append]
    rfl

theorem userString_length_le : (userString buf).length ≤ buf.length := by
  rcases strncpyFromUser_cases buf with ⟨hall, -⟩ | ⟨hlt, -⟩
  · rw [hall]
  · omega

theorem strncpyFromUser_length_le : (strncpyFromUser buf).length ≤ buf.length :=
  List.length_take_le' _ _

theorem not_nul_mem_userString : '\x00' ∉ userString buf := by
  intro hmem
  have hall := List.all_takeWhile (l := buf) (p := fun c => decide (c ≠ '\x00'))
  have hnot := List.all_eq_true.mp hall _ hmem
  exact absurd rfl (of_decide_eq_true hnot)

theorem cString_copied {b : Block Char} (hb : buf.length < b.size) :
    cString ((b.store 0 (strncpyFromUser buf)).store buf.length ['\x00']) =
      userString buf := by
  have hle := userString_length_le buf
  refine cString_eq (not_nul_mem_userString buf) (Nat.lt_of_le_of_lt hle hb) ?_ ?_
  · intro i hi
    rw [Block.store_outside _ (.inl (by omega))]
    rcases strncpyFromUser_cases buf with ⟨hall, hcopy⟩ | ⟨-, hcopy⟩
    · have hin : i < (strncpyFromUser buf).length := by
        rw [hcopy]
        omega
      rw [Block.store_start_inside _ hin]
      simp only [hcopy, hall]
    · have hin : i < (strncpyFromUser buf).length := by
        rw [hcopy, List.length_append]
        omega
      rw [Block.store_start_inside _ hin]
      simp only [hcopy, List.getElem_append_left hi]
  · rcases strncpyFromUser_cases buf with ⟨hall, -⟩ | ⟨hlt, hcopy⟩
    · rw [hall]
      have hin : 0 < ['\x00'].length := Nat.one_pos
      exact Block.store_inside _ hin
    · have hin : (userString buf).length < (strncpyFromUser buf).length := by
        rw [hcopy, List.length_append]
        exact Nat.lt_succ_self _
      rw [Block.store_outside _ (.inl hlt), Block.store_start_inside _ hin]
      simp only [hcopy, List.getElem_concat_length]

end UserString

/-! ## PIDs -/

namespace TaskTable

variable {nr : Int} {t : Task} (k : TaskTable)

theorem pid_eq (h : k.task nr = some t) : t.pid = nr := (k.found h).1

theorem pid_pos (h : k.task nr = some t) : 0 < nr := (k.found h).2.1

theorem pid_lt (h : k.task nr = some t) : nr < 2 ^ 31 := (k.found h).2.2

end TaskTable

/-! ## One write -/

variable {fresh : Option (Nat → Char)} {k : TaskTable} {buf : List Char}
  {z : MypsData}

theorem ctWrite_eq (data : Nat → Char) (k : Tasks) (hmtx : z.mtx = false)
    (hcount : buf.length ≤ maxRwCount) :
    ∃ b, ctWrite (some data) k buf z =
      some ((ctWriteBody k buf.length (userString buf) z.testid).1,
        ⟨(ctWriteBody k buf.length (userString buf) z.testid).2, false,
          z.bufs ++ [⟨b, [()]⟩]⟩) := by
  have hlen : (toULong (buf.length + 1)).toNat = buf.length + 1 := by
    unfold maxRwCount at hcount
    rw [toULong, wrapU_eq_self (by omega) (by omega)]
    omega
  have hcopied := strncpyFromUser_length_le buf
  obtain ⟨testid, mtx, bufs⟩ := z
  obtain rfl : mtx = false := hmtx
  unfold ctWrite Ledger.acquire
  simp only [hlen]
  rw [MypsData.poke_newest (by simp)]
  simp only [Option.bind_some, Bool.false_eq_true, if_false]
  rw [MypsData.poke_newest]
  · simp only [Option.bind_some]
    rw [MypsData.poke_newest]
    · simp only [Option.bind_some, Ledger.live_append, Option.map_some,
        MypsData.kfree_newest]
      rw [cString_copied]
      · exact ⟨_, rfl⟩
      · show buf.length < max (buf.length + 1) 10
        omega
    · show buf.length + 1 ≤ max (buf.length + 1) 10
      omega
  · show 0 + (strncpyFromUser buf).length ≤ max (buf.length + 1) 10
    omega

theorem ctWriteBody_cases (k : TaskTable) (count : Nat) (text : List Char)
    (testid : Int) :
    (∃ v t, integerOf text = some v ∧ -2 ^ 63 ≤ v ∧ v < 2 ^ 63 ∧
        k.task (toInt v) = some t ∧
        ctWriteBody k.toTasks count text testid = ((count : Int), toInt v)) ∨
      ((∀ v, integerOf text = some v → -2 ^ 63 ≤ v → v < 2 ^ 63 →
          k.task (toInt v) = none) ∧
        ∃ err, err < 0 ∧
          ctWriteBody k.toTasks count text testid = (err, testid)) := by
  unfold ctWriteBody
  cases hparse : kstrtol text with
  | error err =>
      refine .inr ⟨fun v hv hge hlt => ?_, kstrErrno err, ?_, rfl⟩
      · rw [kstrtol_ok_iff.mpr ⟨hv, hge, hlt⟩] at hparse
        cases hparse
      · cases err <;> decide
  | ok v =>
      obtain ⟨hv, hge, hlt⟩ := kstrtol_ok_iff.mp hparse
      simp only [pidTask_findVpid]
      cases ht : k.task (toInt v) with
      | none =>
          refine .inr ⟨fun w hw _ _ => ?_, -einval, by decide, rfl⟩
          obtain rfl := Option.some.inj (hv.symm.trans hw)
          exact ht
      | some t =>
          refine .inl ⟨v, t, hv, hge, hlt, ht, ?_⟩
          simp only [k.pid_eq ht]

theorem Names.toInt_eq {p : Int} (h : Names k.toTasks buf p) :
    -2 ^ 63 ≤ p ∧ p < 2 ^ 63 ∧ toInt p = p := by
  obtain ⟨-, t, ht⟩ := h
  have hpos := k.pid_pos ht
  have hlt := k.pid_lt ht
  have hself : toInt p = p := wrapS_eq_self (by omega) (by omega) (by omega)
  omega

theorem acceptsNamed_none_iff (hmtx : z.mtx = false) :
    AcceptsNamed none k.toTasks buf z ↔ ∀ p, ¬ Names k.toTasks buf p := by
  constructor
  · rintro ⟨retval, y, hwrite, hiff, -⟩ p hp
    obtain ⟨rfl, rfl⟩ := Prod.mk.inj (Option.some.inj hwrite)
    have hretval := ((hiff p).mpr hp).1
    unfold enomem at hretval
    omega
  · intro hnone
    refine ⟨-enomem, z, rfl, fun p => ?_, fun _ => ⟨by decide, rfl⟩, hmtx,
      fun _ => rfl, fun h => absurd rfl h⟩
    refine iff_of_false ?_ (hnone p)
    rintro ⟨hretval, -⟩
    unfold enomem at hretval
    omega

theorem acceptsNamed_found_iff {data : Nat → Char} {v : Int} {t : Task}
    {b : Block Char} (hv : integerOf (userString buf) = some v)
    (ht : k.task (toInt v) = some t)
    (hwrite : ctWrite (some data) k.toTasks buf z =
      some ((buf.length : Int), ⟨toInt v, false, z.bufs ++ [⟨b, [()]⟩]⟩)) :
    AcceptsNamed (some data) k.toTasks buf z ↔ -2 ^ 31 ≤ v ∧ v < 2 ^ 31 := by
  constructor
  · rintro ⟨retval, y, heq, hiff, -⟩
    obtain ⟨rfl, rfl⟩ := Prod.mk.inj (Option.some.inj (hwrite.symm.trans heq))
    obtain ⟨hself, -⟩ := (hiff (toInt v)).mp ⟨rfl, rfl⟩
    have hpos := k.pid_pos ht
    have hint := k.pid_lt ht
    have hvalue : v = toInt v := Option.some.inj (hv.symm.trans hself)
    omega
  · rintro ⟨hge, hlt⟩
    have hself : toInt v = v := wrapS_eq_self (by omega) (by omega) (by omega)
    have hnames : Names k.toTasks buf v := ⟨hv, t, hself ▸ ht⟩
    refine ⟨_, _, hwrite, fun p => ?_, fun hno => absurd hnames (hno v), rfl,
      fun h => (by cases h), fun _ => ⟨b, rfl⟩⟩
    constructor
    · rintro ⟨-, rfl⟩
      exact hself.symm ▸ hnames
    · rintro ⟨hp, -⟩
      obtain rfl := Option.some.inj (hv.symm.trans hp)
      exact ⟨rfl, hself⟩

theorem acceptsNamed_rejected {data : Nat → Char} {err : Int} {b : Block Char}
    (hnone : ∀ v, integerOf (userString buf) = some v → -2 ^ 63 ≤ v →
      v < 2 ^ 63 → k.task (toInt v) = none) (herr : err < 0)
    (hwrite : ctWrite (some data) k.toTasks buf z =
      some (err, ⟨z.testid, false, z.bufs ++ [⟨b, [()]⟩]⟩)) :
    AcceptsNamed (some data) k.toTasks buf z := by
  have hno : ∀ p, ¬ Names k.toTasks buf p := by
    intro p hp
    obtain ⟨hge, hlt, hself⟩ := hp.toInt_eq
    obtain ⟨hv, t, ht⟩ := hp
    have hdead := hnone p hv hge hlt
    rw [hself, ht] at hdead
    cases hdead
  refine ⟨err, _, hwrite, fun p => iff_of_false ?_ (hno p), fun _ => ⟨herr, rfl⟩,
    rfl, fun h => (by cases h), fun _ => ⟨b, rfl⟩⟩
  rintro ⟨hretval, -⟩
  omega

/-- A write succeeds exactly for the PIDs of live tasks when narrowing what it
parsed leads to none that was not written, and a write that names one has
memory. -/
theorem acceptsNamed_iff_narrowsHarmlessly (hmtx : z.mtx = false)
    (hcount : buf.length ≤ maxRwCount) :
    AcceptsNamed fresh k.toTasks buf z ↔
      NarrowsHarmlessly fresh k.toTasks buf := by
  unfold NarrowsHarmlessly
  cases fresh with
  | none => simp only [acceptsNamed_none_iff hmtx, ne_eq, not_true_eq_false,
      false_imp_iff, and_true, true_imp_iff]
  | some data =>
      obtain ⟨b, hwrite⟩ := ctWrite_eq data k.toTasks hmtx hcount
      simp only [reduceCtorEq, false_imp_iff, true_and, ne_eq, not_false_eq_true,
        true_imp_iff]
      rcases ctWriteBody_cases k buf.length (userString buf) z.testid with
        ⟨v, t, hv, hge, hlt, ht, hbody⟩ | ⟨hnone, err, herr, hbody⟩
      · rw [hbody] at hwrite
        rw [acceptsNamed_found_iff hv ht hwrite]
        constructor
        · intro hrange w hw _ _
          obtain rfl := Option.some.inj (hv.symm.trans hw)
          exact .inl hrange
        · intro hall
          refine (hall v hv hge hlt).resolve_right fun hdead => ?_
          rw [ht] at hdead
          cases hdead
      · rw [hbody] at hwrite
        exact iff_of_true (acceptsNamed_rejected hnone herr hwrite)
          fun v hv hge hlt => .inr (hnone v hv hge hlt)

def shellTable : TaskTable where
  toTasks := shellTasks
  found {nr t} h := by
    simp only [shellTasks] at h
    split at h
    · next hnr =>
        obtain rfl := Option.some.inj h
        exact ⟨hnr.symm, by omega, by omega⟩
    · cases h

theorem acceptsNamed_iff_narrowsHarmlessly_shell :
    AcceptsNamed (some fun _ => 'x') shellTasks "100\n".toList ⟨0, false, []⟩ := by
  refine (@acceptsNamed_iff_narrowsHarmlessly _ shellTable _ ⟨0, false, []⟩ rfl
    (by decide)).mpr ⟨fun h => (by cases h), fun _ v hv _ _ => .inl ?_⟩
  have hvalue : integerOf (userString "100\n".toList) = some 100 := by decide
  obtain rfl := Option.some.inj (hvalue.symm.trans hv)
  decide

/-- A number that is `2 ^ 32` too large is taken for the PID of the shell. -/
theorem not_acceptsNamed_wide :
    (∃ y, ctWrite (some fun _ => 'x') shellTasks "4294967396".toList
        ⟨0, false, []⟩ = some (10, y) ∧ y.testid = 100) ∧
      ¬ AcceptsNamed (some fun _ => 'x') shellTasks "4294967396".toList
        ⟨0, false, []⟩ := by
  have hvalue : integerOf (userString "4294967396".toList) = some 4294967396 := by
    decide
  have hbody : ctWriteBody shellTasks 10 (userString "4294967396".toList) 0 =
      (10, 100) := by decide
  obtain ⟨b, hwrite⟩ := @ctWrite_eq "4294967396".toList ⟨0, false, []⟩
    (fun _ => 'x') shellTasks rfl (by decide)
  rw [show "4294967396".toList.length = 10 from rfl, hbody] at hwrite
  refine ⟨⟨_, hwrite, rfl⟩, ?_⟩
  have hiff := @acceptsNamed_found_iff shellTable _ ⟨0, false, []⟩ (fun _ => 'x')
    _ shell b hvalue rfl hwrite
  rw [show shellTasks = shellTable.toTasks from rfl, hiff]
  decide

end CddDriver
