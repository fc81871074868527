import CddDriver.Invariant
import CddDriver.ProcSessions
import Mathlib.Tactic.Common
/-!
# Writes to the entries of /proc/CDD

`writeproc_CDD2` replaces the name of the second team member.  It stores at
most `CDD_PROCLEN` characters, the last of them a NUL, whatever part of a
longer write they are.
-/

namespace CddDriver

open Lib

/-! ## writeproc_CDD2 -/

def cddProclen : Int := 32

def UserCopy.fetch (copy : UserCopy) (bytes : List Char) : Nat × List Char :=
  (min copy.uncopied bytes.length, copy.stored '\x00' bytes)

def valueBlock (p : ProcState) (m : Minor) : Option (Block Char) :=
  ((p.procs m).procvalue.bind fun h => p.values[h]?).map Entry.item

/-- Store `cs` at `CDD_procvalue + pos`.  Storing outside the memory that it
points to is a kernel fault: `none`. -/
def pokeValue (m : Minor) (pos : Int) (cs : List Char) (p : ProcState) :
    Option ProcState :=
  if cs = [] then some p
  else
    match (p.procs m).procvalue, valueBlock p m with
    | some h, some b =>
        if 0 ≤ pos ∧ pos + cs.length ≤ b.size then
          some { p with values := p.values.update h fun b => b.store pos.toNat cs }
        else none
    | _, _ => none

/-- `length`, narrowed from `count` and clamped. -/
def writeprocLength (buf : List Char) : Int :=
  let length := toInt buf.length
  if length < cddProclen then length else cddProclen

def writeprocChunk (buf : List Char) : List Char :=
  buf.take (toULong (writeprocLength buf)).toNat

def writeprocBody (m : Minor) (buf : List Char) (copy : UserCopy)
    (p : ProcState) : Option (Int × ProcState) :=
  let length := writeprocLength buf
  let fetched := copy.fetch (writeprocChunk buf)
  (pokeValue m 0 fetched.2 p).bind fun p =>
    if fetched.1 ≠ 0 then some (-efault, p)
    else
      (pokeValue m (length - 1) ['\x00'] p).map fun p =>
        (length, updateProc m (fun r => { r with procflag := true }) p)

def writeprocCDD2 (devfname buf : List Char) (copy : UserCopy) (p : ProcState) :
    Option (Int × ProcState) :=
  match lookupCDDdproc devfname p with
  | none => some (-einval, p)
  | some m => writeprocBody m buf copy p

/-! ## The module with its entries -/

/-- A system call on a device file, or on the entry of the device `m`. -/
inductive ModuleCall where
  | device (c : Call)
  | readproc (m : Minor) (locked : Bool) (len : Nat) (old : List Char)
  | writeproc (m : Minor) (buf : List Char) (copy : UserCopy)

inductive ModuleReply where
  | device (o : Reply)
  | readproc (retval : Int) (text : List Char)
  | writeproc (retval : Int)

namespace System

def setProc (p : ProcState) (y : System) : System :=
  { y with world := { y.world with proc := p } }

def moduleCall (y : System) : ModuleCall → Option (System × ModuleReply)
  | .device c => (y.call c).map fun r => (r.1, .device r.2)
  | .readproc m locked len old =>
      if maxRwCount < len then none
      else
        let r := readprocCDD2 locked (getDevname m) len old y.world.cddDev
          y.world.proc
        some (y.setProc r.2.2, .readproc r.1 r.2.1)
  | .writeproc m buf copy =>
      if maxRwCount < buf.length then none
      else
        (writeprocCDD2 (getDevname m) buf copy y.world.proc).map fun r =>
          (y.setProc r.2, .writeproc r.1)

end System

def moduleDriver : Machine System ModuleCall ModuleReply := ⟨System.moduleCall⟩

/-! ## The string in a block -/

section CString

variable {b : Block Char}

theorem cString_length_le_iff {k : Nat} (hk : k < b.size) :
    (cString b).length ≤ k ↔ ∃ i ≤ k, b.data i = '\x00' := by
  have hlength : (cString b).length =
      ((List.range b.size).map b.data).findIdx fun c => !decide (c ≠ '\x00') := by
    rw [cString, List.takeWhile_eq_take_findIdx_not, List.length_take]
    exact Nat.min_eq_left List.findIdx_le_length
  rw [hlength]
  constructor
  · intro hle
    have hlt : ((List.range b.size).map b.data).findIdx
        (fun c => !decide (c ≠ '\x00')) <
          ((List.range b.size).map b.data).length := by
      simpa using Nat.lt_of_le_of_lt hle hk
    have hnul := List.findIdx_getElem (w := hlt)
    exact ⟨_, hle, by simpa using hnul⟩
  · rintro ⟨i, hi, hnul⟩
    by_contra hlt
    have hnot := List.not_of_lt_findIdx (Nat.lt_of_le_of_lt hi (Nat.not_le.mp hlt))
    simp [hnul] at hnot

theorem cString_getElem {i : Nat} (h : i < (cString b).length) :
    (cString b)[i] = b.data i := by
  have hpre : cString b <+: (List.range b.size).map b.data :=
    List.takeWhile_prefix _
  rw [hpre.getElem h]
  simp

theorem cString_eq {s : List Char} (hs : '\x00' ∉ s) (hlt : s.length < b.size)
    (hdata : ∀ i (hi : i < s.length), b.data i = s[i])
    (hnul : b.data s.length = '\x00') : cString b = s := by
  have hle : (cString b).length ≤ s.length :=
    (cString_length_le_iff hlt).mpr ⟨s.length, le_refl _, hnul⟩
  have hge : s.length ≤ (cString b).length := by
    by_contra hshort
    obtain ⟨i, hi, hzero⟩ :=
      (cString_length_le_iff (b := b) (k := (cString b).length) (by omega)).mp
        (le_refl _)
    have hmem : s[i] ∈ s := List.getElem_mem (by omega)
    rw [← hdata i (by omega), hzero] at hmem
    exact hs hmem
  apply List.ext_getElem (Nat.le_antisymm hle hge)
  intro i hi hi'
  rw [cString_getElem hi, hdata i hi']

end CString

/-! ## What a report shows -/

def reportShowing (m : Minor) (written : Bool) (member : List Char) (d : CDDdev) :
    List Char :=
  "Mode: ".toList ++ (if written then "Written" else "Readable").toList ++
    ['\n'] ++ getDevname m ++ ['('] ++ formatInt m ++
    ") Group Number: ".toList ++ formatInt 42 ++ ['\n'] ++
    "Team Members: ".toList ++ "Mike Mehr".toList ++ ", ".toList ++
    member ++ ['\n'] ++
    getCDDUsage .devsize d ++ ['\n'] ++
    getCDDUsage .devused d ++ ['\n'] ++
    getCDDUsage .devopens d ++ ['\n']

theorem Wired.deviceReport_eq {p : ProcState} (h : Wired p)
    (cddDev : Minor → CDDdev) (m : Minor) :
    deviceReport cddDev m p = reportShowing m (p.procs m).procflag
      (procvalueString p m) (cddDev m) := by
  unfold deviceReport procReport reportShowing
  rw [h.minor]

theorem reportShowing_inj {m : Minor} {written : Bool} {s s' : List Char}
    {d : CDDdev} : reportShowing m written s d = reportShowing m written s' d ↔ s = s' := by
  unfold reportShowing
  simp only [List.append_assoc, List.append_cancel_left_eq,
    List.append_cancel_right_eq]

/-! ## What a write does to the values -/

theorem procvalueString_eq {p : ProcState} {m : Minor} {b : Block Char}
    (h : valueBlock p m = some b) : procvalueString p m = cString b := by
  obtain ⟨e, he, rfl⟩ := Option.map_eq_some_iff.mp h
  rw [procvalueString, he]

/-- Each record has a value buffer of its own, as `CDDproc_init` allocates
them. -/
structure ValuesInv (p : ProcState) : Prop extends Wired p where
  distinct : ∀ {m k : Minor} {h : Nat}, (p.procs m).procvalue = some h →
    (p.procs k).procvalue = some h → m = k
  block : ∀ m, ∃ b, valueBlock p m = some b ∧ b.size = procvalueSize

/-- `q` is `p` with the content `b` in the value buffer of the device `m`, and
with its flag set if `written`. -/
structure ValueSet (m : Minor) (b : Block Char) (written : Bool)
    (p q : ProcState) : Prop where
  block : valueBlock q = Function.update (valueBlock p) m (some b)
  procs : q.procs = Function.update p.procs m
    { p.procs m with procflag := (p.procs m).procflag || written }
  eof : q.eof = p.eof

section Value

variable {p q : ProcState} {m : Minor} {b : Block Char}

theorem valueBlock_eq_some :
    valueBlock p m = some b ↔
      ∃ h e, (p.procs m).procvalue = some h ∧ p.values[h]? = some e ∧
        e.item = b := by
  simp only [valueBlock, Option.map_eq_some_iff, Option.bind_eq_some_iff]
  constructor
  · rintro ⟨e, ⟨h, hh, he⟩, rfl⟩
    exact ⟨h, e, hh, he, rfl⟩
  · rintro ⟨h, e, hh, he, rfl⟩
    exact ⟨e, ⟨h, hh, he⟩, rfl⟩

theorem ValuesInv.procvalueString_congr {p q : ProcState} (h : ValuesInv p)
    (hblock : valueBlock q m = valueBlock p m) :
    procvalueString q m = procvalueString p m := by
  obtain ⟨b, hb, -⟩ := h.block m
  rw [procvalueString_eq hb, procvalueString_eq (hblock.trans hb)]

theorem ValueSet.block_self {written : Bool} (h : ValueSet m b written p q) :
    valueBlock q m = some b := by
  rw [h.block, Function.update_self]

theorem ValueSet.block_ne {written : Bool} {k : Minor}
    (h : ValueSet m b written p q) (hk : k ≠ m) :
    valueBlock q k = valueBlock p k := by
  rw [h.block, Function.update_of_ne hk]

theorem ValueSet.trans {b' : Block Char} {r : ProcState} {w w' : Bool}
    (h : ValueSet m b w p q) (h' : ValueSet m b' w' q r) :
    ValueSet m b' (w || w') p r := by
  refine ⟨?_, ?_, h'.eof.trans h.eof⟩
  · rw [h'.block, h.block, Function.update_idem]
  · rw [h'.procs, h.procs, Function.update_self, Function.update_idem,
      Bool.or_assoc]

def SameRecord (r r' : CDDproc) : Prop :=
  r'.procname = r.procname ∧ r'.minor = r.minor ∧ r'.procvalue = r.procvalue

theorem updateProc_sameRecord (m k : Minor) (written : Bool) (p : ProcState) :
    SameRecord (p.procs k)
      ((CddDriver.updateProc m (fun r => { r with procflag := written }) p).procs
        k) := by
  by_cases hk : k = m
  · subst hk
    simp [SameRecord, CddDriver.updateProc]
  · simp [SameRecord, CddDriver.updateProc, hk]

theorem ValuesInv.of_sameRecord (h : ValuesInv p)
    (hrecord : ∀ k, SameRecord (p.procs k) (q.procs k))
    (hblock : ∀ k, ∃ b, valueBlock q k = some b ∧ b.size = procvalueSize) :
    ValuesInv q := by
  refine ⟨⟨fun k => ?_, fun k => ?_⟩, fun {j k a} hj hk => ?_, hblock⟩
  · rw [(hrecord k).1, h.procname]
  · rw [(hrecord k).2.1, h.minor]
  · rw [(hrecord _).2.2] at hj hk
    exact h.distinct hj hk

theorem ValueSet.valuesInv {written : Bool} (h : ValueSet m b written p q)
    (hinv : ValuesInv p) (hsize : b.size = procvalueSize) : ValuesInv q := by
  apply hinv.of_sameRecord
  · intro k
    have hprocs : q.procs k = (CddDriver.updateProc m
        (fun r => { r with procflag := (p.procs m).procflag || written })
        p).procs k := by
      rw [h.procs]
      rfl
    rw [hprocs]
    exact updateProc_sameRecord m k _ p
  · intro k
    by_cases hk : k = m
    · subst hk
      exact ⟨b, h.block_self, hsize⟩
    · rw [h.block_ne hk]
      exact hinv.block k

theorem ValuesInv.pokeValue (h : ValuesInv p) (hb : valueBlock p m = some b)
    (pos : Nat) (cs : List Char) (hle : pos + cs.length ≤ b.size) :
    ∃ q, pokeValue m pos cs p = some q ∧
      ValueSet m (b.store pos cs) false p q := by
  have hprocs : p.procs = Function.update p.procs m
      { p.procs m with procflag := (p.procs m).procflag || false } := by
    simp
  unfold CddDriver.pokeValue
  by_cases hcs : cs = []
  · subst hcs
    refine ⟨p, if_pos rfl, ?_, hprocs, rfl⟩
    rw [Block.store_nil, ← hb, Function.update_eq_self]
  obtain ⟨a, e, ha, he, rfl⟩ := valueBlock_eq_some.mp hb
  have hstored := Ledger.getElem?_update_self
    (fun b : Block Char => b.store pos cs) he
  rw [if_neg hcs, ha, hb]
  dsimp only
  rw [if_pos ⟨Int.natCast_nonneg pos, by exact_mod_cast hle⟩]
  refine ⟨_, rfl, ?_, hprocs, rfl⟩
  funext k
  by_cases hk : k = m
  · subst hk
    rw [Function.update_self]
    exact valueBlock_eq_some.mpr ⟨a, _, ha, hstored, rfl⟩
  · rw [Function.update_of_ne hk]
    unfold valueBlock
    cases hak : (p.procs k).procvalue with
    | none => rfl
    | some c =>
        have hne : a ≠ c := by
          rintro rfl
          exact hk (h.distinct hak ha)
        dsimp only [Option.bind_some]
        rw [Ledger.getElem?_update_ne _ _ hne]

theorem ValueSet.flagged (h : ValueSet m b false p q) :
    ValueSet m b true p (CddDriver.updateProc m
      (fun r => { r with procflag := true }) q) := by
  refine ⟨?_, ?_, h.eof⟩
  · rw [← h.block]
    ext k
    unfold valueBlock
    rw [(updateProc_sameRecord m k true q).2.2]
    rfl
  · simp [CddDriver.updateProc, h.procs]

end Value

/-! ## The outcomes of a write -/

section Outcome

variable {p q : ProcState} {m : Minor} {b : Block Char} {buf : List Char}
  {copy : UserCopy}

theorem writeprocLength_eq (h : buf.length ≤ maxRwCount) :
    writeprocLength buf = (min buf.length 32 : Nat) := by
  unfold maxRwCount at h
  have hint : toInt buf.length = buf.length :=
    wrapS_eq_self (by omega) (by omega) (by omega)
  simp only [writeprocLength, hint, cddProclen]
  split <;> omega

theorem writeprocChunk_eq (h : buf.length ≤ maxRwCount) :
    writeprocChunk buf = buf.take 32 := by
  have hlong : toULong (min buf.length 32 : Nat) = (min buf.length 32 : Nat) :=
    wrapU_eq_self (by omega) (by omega)
  rw [writeprocChunk, writeprocLength_eq h, hlong, Int.toNat_natCast,
    List.take_eq_take_iff]
  omega

theorem UserCopy.fetch_length_le (copy : UserCopy) (bytes : List Char) :
    (copy.fetch bytes).2.length ≤ bytes.length :=
  copy.length_stored_le _ bytes

theorem UserCopy.fetch_of_complete {bytes : List Char}
    (h : (copy.fetch bytes).1 = 0) : (copy.fetch bytes).2 = bytes :=
  UserCopy.stored_of_copied h

/-- The content of the value buffer after a copy and the terminating NUL. -/
def terminated (chunk : List Char) (b : Block Char) : Block Char :=
  (b.store 0 chunk).store (chunk.length - 1) ['\x00']

theorem terminated_data (chunk : List Char) (b : Block Char) :
    (terminated chunk b).data (chunk.length - 1) = '\x00' := by
  have hlength : 0 < ['\x00'].length := Nat.one_pos
  exact (b.store 0 chunk).store_inside hlength

/-- The string that a write leaves is what it copied, without the last
character. -/
theorem cString_terminated {chunk : List Char} (hchunk : chunk ≠ [])
    (hnul : '\x00' ∉ chunk.dropLast) (hle : chunk.length ≤ b.size) :
    cString (terminated chunk b) = chunk.dropLast := by
  have hpos := List.length_pos_iff.mpr hchunk
  have hlength : chunk.dropLast.length = chunk.length - 1 := List.length_dropLast
  apply cString_eq hnul
  · show chunk.dropLast.length < b.size
    omega
  · intro i hi
    rw [terminated, Block.store_outside _ (.inl (by omega)),
      b.store_start_inside (by omega), List.getElem_dropLast]
  · rw [hlength]
    exact terminated_data chunk b

inductive WriteprocOutcome (m : Minor) (buf : List Char) (copy : UserCopy)
    (b : Block Char) (p : ProcState) : Option (Int × ProcState) → Prop where
  /-- The terminating NUL goes to `CDD_procvalue[-1]`. -/
  | outside : buf = [] → WriteprocOutcome m buf copy b p none
  | faulted {q : ProcState} :
      (copy.fetch (buf.take 32)).1 ≠ 0 →
      ValueSet m (b.store 0 (copy.fetch (buf.take 32)).2) false p q →
      WriteprocOutcome m buf copy b p (some (-efault, q))
  | stored {q : ProcState} :
      buf ≠ [] → (copy.fetch (buf.take 32)).1 = 0 →
      ValueSet m (terminated (buf.take 32) b) true p q →
      WriteprocOutcome m buf copy b p (some ((buf.take 32).length, q))

theorem writeprocCDD2_outcome (h : ValuesInv p) (hb : valueBlock p m = some b)
    (hcount : buf.length ≤ maxRwCount) (copy : UserCopy) :
    WriteprocOutcome m buf copy b p
      (writeprocCDD2 (getDevname m) buf copy p) := by
  obtain ⟨c, hc, hsize⟩ := h.block m
  obtain rfl : b = c := Option.some.inj (hb.symm.trans hc)
  unfold procvalueSize at hsize
  unfold writeprocCDD2
  rw [h.lookupCDDdproc m]
  dsimp only
  unfold writeprocBody
  rw [writeprocLength_eq hcount, writeprocChunk_eq hcount]
  by_cases hnil : buf = []
  · obtain ⟨a, e, ha, he, rfl⟩ := valueBlock_eq_some.mp hb
    subst hnil
    simpa [UserCopy.fetch, UserCopy.stored, pokeValue, ha, hb] using .outside rfl
  have hlength : (buf.take 32).length = min buf.length 32 := by
    rw [List.length_take, Nat.min_comm]
  have hfetched := copy.fetch_length_le (buf.take 32)
  obtain ⟨p₁, hp₁, hset⟩ :=
    h.pokeValue hb 0 (copy.fetch (buf.take 32)).2 (by omega)
  have hp₁ : pokeValue m 0 (copy.fetch (buf.take 32)).2 p = some p₁ := hp₁
  dsimp only
  rw [hp₁, Option.bind_some]
  by_cases hleft : (copy.fetch (buf.take 32)).1 = 0
  · have hpos := List.length_pos_iff.mpr hnil
    have hlast : ((min buf.length 32 : Nat) : Int) - 1 =
        (min buf.length 32 - 1 : Nat) := by omega
    obtain ⟨p₂, hp₂, hset₂⟩ :=
      (hset.valuesInv h hsize).pokeValue hset.block_self
        (min buf.length 32 - 1) ['\x00']
        (by simp only [List.length_singleton, Block.store]; omega)
    rw [if_neg (by simp [hleft]), hlast, hp₂, Option.map_some]
    have hwritten := (hset.trans hset₂).flagged
    rw [UserCopy.fetch_of_complete hleft, ← hlength] at hwritten
    rw [← hlength]
    exact .stored hnil hleft hwritten
  · rw [if_pos hleft]
    exact .faulted hleft hset

end Outcome

/-! ## The values after the load -/

def initialMember : List Char := "Team Member #2".toList

structure OwnValues (p : ProcState) : Prop where
  distinct : ∀ {m k : Minor} {h : Nat}, (p.procs m).procvalue = some h →
    (p.procs k).procvalue = some h → m = k
  lt : ∀ {m : Minor} {h : Nat}, (p.procs m).procvalue = some h →
    h < p.values.length

def FreshRecord (m : Minor) (p : ProcState) : Prop :=
  procvalueString p m = initialMember ∧
    ∃ b, valueBlock p m = some b ∧ b.size = procvalueSize

section Init

variable {e : ProcInitEnv} {m : Minor} {p : ProcState}

theorem cddProcInit_values :
    (cddProcInit e m p).values = p.values.acquire
      (Block.store ⟨procvalueSize, e.fresh⟩ 0 (initialMember ++ ['\x00'])) := by
  have hupdate : ∀ f (p : ProcState), (updateProc m f p).values = p.values :=
    fun _ _ => rfl
  have hvalues : ∀ created name (p : ProcState),
      (createCDDProcdirEntry created name p).2.values = p.values := by
    intro created name p
    unfold createCDDProcdirEntry
    by_cases hzero : p.topdirRefcount = 0 <;> cases created <;> simp [hzero]
  have hmarker : ∀ created (p : ProcState),
      (cddProcLogMarkerInit created p).values = p.values :=
    fun created p => hvalues created markerName p
  unfold cddProcInit initialMember
  dsimp only
  rw [hupdate, hvalues]
  split
  · rw [hmarker, hupdate]
  · rw [hupdate]

theorem cddProcInit_record (n : Minor) :
    ((cddProcInit e m p).procs n).procvalue =
        (if n = m then some p.values.length else (p.procs n).procvalue) ∧
      ((cddProcInit e m p).procs n).procflag = (p.procs n).procflag := by
  have hprocs := fun created name p =>
    (createCDDProcdirEntry_fields created name p).2.2.2
  simp only [cddProcInit, cddProcLogMarkerInit]
  split <;> by_cases hn : n = m <;> simp [updateProc, hprocs, hn]

theorem OwnValues.init (h : OwnValues p) : OwnValues (cddProcInit e m p) := by
  have hhandle : ∀ {n : Minor} {a : Nat},
      ((cddProcInit e m p).procs n).procvalue = some a →
        (n = m ∧ a = p.values.length) ∨
          (n ≠ m ∧ (p.procs n).procvalue = some a ∧ a < p.values.length) := by
    intro n a ha
    rw [(cddProcInit_record n).1] at ha
    by_cases hn : n = m
    · rw [if_pos hn] at ha
      exact .inl ⟨hn, (Option.some.inj ha).symm⟩
    · rw [if_neg hn] at ha
      exact .inr ⟨hn, ha, h.lt ha⟩
  constructor
  · intro j k a hj hk
    rcases hhandle hj with ⟨rfl, hlen⟩ | ⟨-, hj, hlt⟩ <;>
      rcases hhandle hk with ⟨rfl, hlen'⟩ | ⟨-, hk, hlt'⟩
    · rfl
    · omega
    · omega
    · exact h.distinct hj hk
  · intro n a ha
    rw [cddProcInit_values, Ledger.acquire, List.length_append]
    rcases hhandle ha with ⟨-, hlen⟩ | ⟨-, -, hlt⟩
    · exact Nat.lt_succ_of_le (Nat.le_of_eq hlen)
    · exact Nat.lt_succ_of_lt hlt

theorem cddProcInit_fresh : FreshRecord m (cddProcInit e m p) := by
  have hb : valueBlock (cddProcInit e m p) m = some
      (Block.store ⟨procvalueSize, e.fresh⟩ 0 (initialMember ++ ['\x00'])) := by
    have hself := Ledger.getElem?_acquire_self p.values
      (Block.store ⟨procvalueSize, e.fresh⟩ 0 (initialMember ++ ['\x00']))
    rw [← cddProcInit_values] at hself
    refine valueBlock_eq_some.mpr ⟨p.values.length, _, ?_, hself, rfl⟩
    rw [(cddProcInit_record m).1, if_pos rfl]
  refine ⟨?_, _, hb, rfl⟩
  rw [procvalueString_eq hb]
  have hlength : initialMember.length = 14 := by decide
  apply cString_eq
  · decide
  · show initialMember.length < procvalueSize
    decide
  · intro i hi
    rw [Block.store_start_inside _ (by simp; omega), List.getElem_append_left hi]
  · rw [Block.store_start_inside _ (by simp)]
    simp

theorem FreshRecord.init {n : Minor} (h : FreshRecord n p) (hn : n ≠ m) :
    FreshRecord n (cddProcInit e m p) := by
  obtain ⟨hmember, b, hb, hsize⟩ := h
  obtain ⟨a, x, ha, hx, rfl⟩ := valueBlock_eq_some.mp hb
  have hb' : valueBlock (cddProcInit e m p) n = some x.item := by
    refine valueBlock_eq_some.mpr ⟨a, x, ?_, ?_, rfl⟩
    · rw [(cddProcInit_record n).1, if_neg hn, ha]
    · rw [cddProcInit_values]
      exact Ledger.getElem?_acquire_of_some _ hx
  refine ⟨?_, _, hb', hsize⟩
  rw [procvalueString_eq hb', ← hmember, procvalueString_eq hb]

end Init

section Loop

variable {e : InitEnv} {is : List Minor} {w : World}

theorem foldl_goLive_ownValues (h : OwnValues w.proc) :
    OwnValues (is.foldl (goLive e) w).proc := by
  induction is generalizing w with
  | nil => exact h
  | cons i is ih => exact ih h.init

theorem foldl_goLive_fresh {n : Minor} (h : n ∈ is ∨ FreshRecord n w.proc) :
    FreshRecord n (is.foldl (goLive e) w).proc := by
  induction is generalizing w with
  | nil => exact h.resolve_left List.not_mem_nil
  | cons i is ih =>
      rw [List.foldl_cons]
      apply ih
      by_cases hn : n = i
      · subst hn
        exact .inr cddProcInit_fresh
      · refine h.imp (fun hmem => (List.mem_cons.mp hmem).resolve_left hn) ?_
        exact fun hw => hw.init hn

theorem foldl_goLive_procflag (n : Minor) :
    ((is.foldl (goLive e) w).proc.procs n).procflag =
      (w.proc.procs n).procflag := by
  induction is generalizing w with
  | nil => rfl
  | cons i is ih =>
      rw [List.foldl_cons, ih]
      exact (cddProcInit_record n).2

end Loop

section Loaded

variable {e : InitEnv} (h : (cddInit e).1 = 0)
include h

theorem loaded_fresh (n : Minor) : FreshRecord n (cddInit e).2.proc := by
  have hmem : ∀ n : Minor, n ∈ minors := by decide
  rw [cddInit_eq_zero h]
  exact foldl_goLive_fresh (.inl (hmem n))

theorem loaded_valuesInv : ValuesInv (cddInit e).2.proc := by
  have hnone : ∀ m, ((loopStart e).proc.procs m).procvalue = none := by
    intro m
    rw [loopStart_proc]
    unfold cddProcSeqInit
    split <;> rfl
  have hstart : OwnValues (loopStart e).proc := by
    constructor
    · intro m k a hm
      rw [hnone] at hm
      cases hm
    · intro m a hm
      rw [hnone] at hm
      cases hm
  have hown : OwnValues (cddInit e).2.proc := by
    rw [cddInit_eq_zero h]
    exact foldl_goLive_ownValues hstart
  exact ⟨loaded_wired h, hown.distinct, fun m => (loaded_fresh h m).2⟩

theorem loaded_procflag (n : Minor) :
    ((cddInit e).2.proc.procs n).procflag = false := by
  rw [cddInit_eq_zero h, foldl_goLive_procflag, loopStart_proc]
  unfold cddProcSeqInit
  split <;> rfl

end Loaded

/-! ## Runs of the module -/

structure SameValues (p q : ProcState) : Prop where
  values : q.values = p.values
  record : ∀ n, SameRecord (p.procs n) (q.procs n)

theorem SameValues.refl (p : ProcState) : SameValues p p :=
  ⟨rfl, fun _ => ⟨rfl, rfl, rfl⟩⟩

theorem SameValues.flag (m : Minor) (written eof : Bool) (p : ProcState) :
    SameValues p (updateProc m (fun r => { r with procflag := written })
      { p with eof := eof }) :=
  ⟨rfl, fun n => updateProc_sameRecord m n written { p with eof := eof }⟩

theorem SameValues.valueBlock {p q : ProcState} (h : SameValues p q) :
    valueBlock q = valueBlock p := by
  ext n
  unfold CddDriver.valueBlock
  rw [(h.record n).2.2, h.values]

theorem SameValues.valuesInv {p q : ProcState} (h : SameValues p q)
    (hinv : ValuesInv p) : ValuesInv q := by
  apply hinv.of_sameRecord h.record
  intro n
  rw [h.valueBlock]
  exact hinv.block n

theorem readprocCDD2_sameValues (locked : Bool) (devfname : List Char)
    (len : Nat) (old : List Char) (cddDev : Minor → CDDdev) (p : ProcState) :
    SameValues p (readprocCDD2 locked devfname len old cddDev p).2.2 := by
  unfold readprocCDD2
  split
  · exact .refl p
  · split
    · exact .refl p
    · unfold readprocBody
      split
      · exact ⟨rfl, fun _ => ⟨rfl, rfl, rfl⟩⟩
      · exact .flag _ false true p

section Step

variable {y z : System} {o : ModuleReply}

theorem moduleDriver_device {c : Call}
    (h : moduleDriver.step y (.device c) = some (z, o)) :
    ∃ o', o = .device o' ∧ driver.step y c = some (z, o') := by
  obtain ⟨⟨u, o'⟩, hstep, heq⟩ := Option.map_eq_some_iff.mp h
  obtain ⟨rfl, rfl⟩ := Prod.mk.inj heq
  exact ⟨o', rfl, hstep⟩

theorem moduleDriver_readproc {m : Minor} {locked : Bool} {len : Nat}
    {old : List Char}
    (h : moduleDriver.step y (.readproc m locked len old) = some (z, o)) :
    len ≤ maxRwCount ∧ ∃ r, r = readprocCDD2 locked (getDevname m) len old
      y.world.cddDev y.world.proc ∧ z = y.setProc r.2.2 ∧
        o = .readproc r.1 r.2.1 := by
  simp only [moduleDriver, System.moduleCall] at h
  split at h
  · cases h
  next hlen =>
    obtain ⟨rfl, rfl⟩ := Prod.mk.inj (Option.some.inj h)
    exact ⟨by omega, _, rfl, rfl, rfl⟩

theorem moduleDriver_writeproc {m : Minor} {buf : List Char} {copy : UserCopy}
    (h : moduleDriver.step y (.writeproc m buf copy) = some (z, o)) :
    buf.length ≤ maxRwCount ∧ ∃ retval q,
      writeprocCDD2 (getDevname m) buf copy y.world.proc = some (retval, q) ∧
        z = y.setProc q ∧ o = .writeproc retval := by
  simp only [moduleDriver, System.moduleCall] at h
  split at h
  · cases h
  next hcount =>
    obtain ⟨⟨retval, q⟩, hwrite, heq⟩ := Option.map_eq_some_iff.mp h
    obtain ⟨rfl, rfl⟩ := Prod.mk.inj heq
    exact ⟨by omega, retval, q, hwrite, rfl, rfl⟩

theorem driver_step_proc {c : Call} {o : Reply}
    (h : driver.step y c = some (z, o)) : z.world.proc = y.world.proc := by
  obtain ⟨cddDev, heap, hz⟩ := (effect_of_step h).frame
  rw [hz]

theorem ValuesInv.writeproc_sets {m : Minor} {buf : List Char} {copy : UserCopy}
    (h : ValuesInv y.world.proc)
    (hstep : moduleDriver.step y (.writeproc m buf copy) = some (z, o)) :
    ∃ b written q, ValueSet m b written y.world.proc q ∧
      b.size = procvalueSize ∧ z = y.setProc q := by
  obtain ⟨hcount, retval, q, hwrite, rfl, -⟩ := moduleDriver_writeproc hstep
  obtain ⟨b, hb, hsize⟩ := h.block m
  have hout := writeprocCDD2_outcome h hb hcount copy
  rw [hwrite] at hout
  cases hout with
  | faulted _ hset => exact ⟨_, _, q, hset, hsize, rfl⟩
  | stored _ _ hset => exact ⟨_, _, q, hset, hsize, rfl⟩

theorem ValuesInv.step {c : ModuleCall} (h : ValuesInv y.world.proc)
    (hstep : moduleDriver.step y c = some (z, o)) : ValuesInv z.world.proc := by
  cases c with
  | device c =>
      obtain ⟨o', -, hdevice⟩ := moduleDriver_device hstep
      rw [driver_step_proc hdevice]
      exact h
  | readproc m locked len old =>
      obtain ⟨-, r, rfl, rfl, -⟩ := moduleDriver_readproc hstep
      exact (readprocCDD2_sameValues _ _ _ _ _ _).valuesInv h
  | writeproc m buf copy =>
      obtain ⟨b, written, q, hset, hsize, rfl⟩ := h.writeproc_sets hstep
      exact hset.valuesInv h hsize

def ModuleCall.WritesTo (m : Minor) : ModuleCall → Prop
  | .writeproc k _ _ => k = m
  | _ => False

theorem ValuesInv.step_valueBlock {c : ModuleCall} {m : Minor}
    (h : ValuesInv y.world.proc) (hstep : moduleDriver.step y c = some (z, o))
    (hc : ¬ c.WritesTo m) :
    valueBlock z.world.proc m = valueBlock y.world.proc m := by
  cases c with
  | device c =>
      obtain ⟨o', -, hdevice⟩ := moduleDriver_device hstep
      rw [driver_step_proc hdevice]
  | readproc k locked len old =>
      obtain ⟨-, r, rfl, rfl, -⟩ := moduleDriver_readproc hstep
      exact congrFun (readprocCDD2_sameValues _ _ _ _ _ _).valueBlock m
  | writeproc k buf copy =>
      obtain ⟨b, written, q, hset, -, rfl⟩ := h.writeproc_sets hstep
      have hk : m ≠ k := fun heq => hc heq.symm
      exact hset.block_ne hk

end Step

theorem valuesInv_run {e : InitEnv} (h : (cddInit e).1 = 0)
    {cs : List ModuleCall} {y : System}
    (hrun : moduleDriver.Run (loaded e) cs y) : ValuesInv y.world.proc :=
  Machine.Run.invariant (I := fun y => ValuesInv y.world.proc) ValuesInv.step hrun
    (loaded_valuesInv h)

end CddDriver
