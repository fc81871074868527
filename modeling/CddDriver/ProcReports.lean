import CddDriver.ProcReadOut
import Mathlib.Tactic.Common
/-!
# What the reports say in a sequential run

Writes to the entries, complete reports and calls on the device files, one
after another.  The flag and the value of a record follow what happened to its
own entry; `eof`, which all entries share, is clear between any two reports.
-/

namespace CddDriver

open Lib

/-! ## Sequential runs and their history -/

inductive ProcEvent where
  | wrote (m : Minor) (s : List Char)
  | reported (m : Minor)
  deriving DecidableEq

/-- Whether the entry of the device `m` was written since its last complete
report, or since the load. -/
def writtenSince (m : Minor) (hist : List ProcEvent) : Bool :=
  hist.foldl (fun written event =>
    match event with
    | .wrote k _ => written || k = m
    | .reported k => written && k ≠ m) false

/-- The string last written to the entry of the device `m` without its last
character, or the name that `CDDproc_init` gave. -/
def memberOf (m : Minor) (hist : List ProcEvent) : List Char :=
  hist.foldl (fun member event =>
    match event with
    | .wrote k s => if k = m then s.dropLast else member
    | .reported _ => member) initialMember

def ModuleCall.OnDevice : ModuleCall → Prop
  | .device _ => True
  | _ => False

/-- The states that sequential runs reach from a load, with what happened to
the entries so far: writes of 1 to 32 characters whose copy succeeds, complete
reports, of which the first read has room for all, and calls on device files
at any time. -/
inductive Sequential (e : InitEnv) : List ProcEvent → System → Prop where
  | start : Sequential e [] (loaded e)
  | wrote {hist : List ProcEvent} {y z : System} {m : Minor} {s : List Char}
      {padded : Bool} {retval : Int} :
      Sequential e hist y → s ≠ [] → s.length ≤ 32 → '\x00' ∉ s →
      moduleDriver.step y (.writeproc m s ⟨0, padded⟩) =
        some (z, .writeproc retval) →
      Sequential e (hist ++ [.wrote m s]) z
  | reported {hist : List ProcEvent} {y z : System} {m : Minor} {len : Nat}
      {out : List Char} :
      Sequential e hist y →
      (deviceReport y.world.cddDev m y.world.proc).length < len →
      ReadOut m ModuleCall.OnDevice len y out z →
      Sequential e (hist ++ [.reported m]) z
  | device {hist : List ProcEvent} {y z : System} {c : Call} {o : Reply} :
      Sequential e hist y → driver.step y c = some (z, o) → Sequential e hist z

/-- The report that is due: the mode, the second team member, and the size and
fill level of the device in decimal. -/
def expectedReport (m : Minor) (written : Bool) (member : List Char)
    (d : CDDdev) : List Char :=
  "Mode: ".toList ++ (if written then "Written" else "Readable").toList ++
    ['\n'] ++ getDevname m ++ ['('] ++ formatInt m ++
    ") Group Number: ".toList ++ formatInt 42 ++ ['\n'] ++
    "Team Members: ".toList ++ "Mike Mehr".toList ++ ", ".toList ++
    member ++ ['\n'] ++
    "Buffer Length - Allocated: ".toList ++ Nat.toDigits 10 d.allocLen ++ ['\n'] ++
    "Buffer Length - Used: ".toList ++ Nat.toDigits 10 d.counter ++ ['\n'] ++
    getCDDUsage .devopens d ++ ['\n']

/-! ## One event -/

theorem writtenSince_append (m : Minor) (hist : List ProcEvent)
    (event : ProcEvent) :
    writtenSince m (hist ++ [event]) =
      match event with
      | .wrote k _ => writtenSince m hist || k = m
      | .reported k => writtenSince m hist && k ≠ m := by
  unfold writtenSince
  rw [List.foldl_append]
  rfl

theorem memberOf_append (m : Minor) (hist : List ProcEvent) (event : ProcEvent) :
    memberOf m (hist ++ [event]) =
      match event with
      | .wrote k s => if k = m then s.dropLast else memberOf m hist
      | .reported _ => memberOf m hist := by
  unfold memberOf
  rw [List.foldl_append]
  rfl

/-- The flags and values of the records are those that the history says, and
no end of file is pending. -/
structure ReportsInv (hist : List ProcEvent) (y : System) : Prop where
  values : ValuesInv y.world.proc
  world : WorldInv y.world
  eof : y.world.proc.eof = false
  procflag : ∀ m, (y.world.proc.procs m).procflag = writtenSince m hist
  member : ∀ m, procvalueString y.world.proc m = memberOf m hist

section Event

variable {hist : List ProcEvent} {y z : System} {m : Minor}

theorem ReportsInv.device {c : Call} {o : Reply} (h : ReportsInv hist y)
    (hstep : driver.step y c = some (z, o)) : ReportsInv hist z := by
  have hproc := driver_step_proc hstep
  refine ⟨?_, h.world.step hstep, ?_, fun k => ?_, fun k => ?_⟩ <;> rw [hproc]
  · exact h.values
  · exact h.eof
  · exact h.procflag k
  · exact h.member k

theorem WorldInv.setProc (h : WorldInv y.world) (p : ProcState) :
    WorldInv (y.setProc p).world :=
  ⟨h.device, h.owned⟩

theorem ReportsInv.wrote {s : List Char} {padded : Bool} {retval : Int}
    (h : ReportsInv hist y) (hs : s ≠ []) (hlen : s.length ≤ 32)
    (hnul : '\x00' ∉ s)
    (hstep : moduleDriver.step y (.writeproc m s ⟨0, padded⟩) =
      some (z, .writeproc retval)) :
    ReportsInv (hist ++ [.wrote m s]) z := by
  have hvalues := h.values.step hstep
  obtain ⟨hcount, r, q, hwrite, rfl, -⟩ := moduleDriver_writeproc hstep
  obtain ⟨b, hb, hsize⟩ := h.values.block m
  have hpage : procvalueSize = 4096 := rfl
  have hcopied : ((⟨0, padded⟩ : UserCopy).fetch (s.take 32)).1 = 0 := by
    simp [UserCopy.fetch]
  have hout := writeprocCDD2_outcome h.values hb hcount ⟨0, padded⟩
  rw [hwrite] at hout
  cases hout with
  | faulted hleft => exact absurd hcopied hleft
  | stored _ _ hset =>
      rw [List.take_of_length_le hlen] at hset
      refine ⟨hvalues, h.world.setProc q, hset.eof.trans h.eof, fun k => ?_,
        fun k => ?_⟩
      · show (q.procs k).procflag = _
        rw [hset.procs, writtenSince_append, ← h.procflag k]
        by_cases hk : k = m
        · subst hk
          simp
        · simp [hk, Ne.symm hk]
      · show procvalueString q k = _
        rw [memberOf_append]
        dsimp only
        by_cases hk : k = m
        · subst hk
          have hfree : '\x00' ∉ s.dropLast := fun hmem =>
            hnul (List.mem_of_mem_dropLast hmem)
          rw [if_pos rfl, procvalueString_eq hset.block_self,
            cString_terminated hs hfree (by omega)]
        · rw [if_neg (Ne.symm hk), ← h.member k]
          exact h.values.procvalueString_congr (hset.block_ne hk)

theorem ReadsOn.onDevice {out : List Char}
    (hreads : ReadsOn m ModuleCall.OnDevice y out z) (h : ValuesInv y.world.proc)
    (hworld : WorldInv y.world) (heof : y.world.proc.eof = true) :
    z.world.proc = { y.world.proc with eof := false } ∧ WorldInv z.world := by
  -- device calls leave `/proc` as it is, and keep the invariant of the devices
  obtain ⟨-, u, ⟨hproc, hu⟩, rfl⟩ := hreads.pending
    (I := fun u => u.world.proc = y.world.proc ∧ WorldInv u.world)
    (by
      rintro v u c o ⟨hproc, hv⟩ hc hstep
      cases c with
      | device c =>
          obtain ⟨o', -, hdevice⟩ := moduleDriver_device hstep
          exact ⟨(driver_step_proc hdevice).trans hproc, hv.step hdevice⟩
      | readproc => exact hc.elim
      | writeproc => exact hc.elim)
    (fun hu => by
      rw [hu.1]
      exact ⟨h, heof⟩)
    ⟨rfl, hworld⟩
  exact ⟨by rw [← hproc]; rfl, hu.setProc _⟩

theorem ReportsInv.reported {len : Nat} {out : List Char} (h : ReportsInv hist y)
    (hlen : (deviceReport y.world.cddDev m y.world.proc).length < len)
    (hout : ReadOut m ModuleCall.OnDevice len y out z) :
    ReportsInv (hist ++ [.reported m]) z := by
  cases hout with
  | atOnce _ hstep =>
      obtain ⟨hmax, r, rfl, -, heq⟩ := moduleDriver_readproc hstep
      rw [h.values.toWired.readprocCDD2_report h.eof hlen hmax] at heq
      have hpos := @deviceReport_pos y.world.cddDev y.world.proc m
      have hzero := (ModuleReply.readproc.inj heq).1
      omega
  | begun _ hstep _ hreads =>
      have hvalues := h.values.step hstep
      obtain ⟨hmax, r, rfl, rfl, -⟩ := moduleDriver_readproc hstep
      rw [h.values.toWired.readprocCDD2_report h.eof hlen hmax] at hvalues hreads
      obtain ⟨hz, hworld⟩ := hreads.onDevice hvalues (h.world.setProc _) rfl
      have hflag : ∀ k, (z.world.proc.procs k).procflag =
          if k = m then false else (y.world.proc.procs k).procflag := by
        intro k
        rw [hz]
        by_cases hk : k = m
        · subst hk
          simp [System.setProc, updateProc]
        · simp [System.setProc, updateProc, hk]
      have hsame : SameValues y.world.proc z.world.proc := by
        rw [hz]
        exact .flag m false false y.world.proc
      refine ⟨hsame.valuesInv h.values, hworld, by rw [hz], fun k => ?_, fun k => ?_⟩
      · rw [hflag, writtenSince_append, ← h.procflag k]
        by_cases hk : k = m
        · subst hk
          simp
        · simp [hk, Ne.symm hk]
      · rw [memberOf_append, ← h.member k]
        exact h.values.procvalueString_congr (congrFun hsame.valueBlock k)

end Event

/-! ## Every run -/

section Run

variable {e : InitEnv} {hist : List ProcEvent} {y : System}

theorem reportsInv_loaded (hload : (cddInit e).1 = 0) :
    ReportsInv [] (loaded e) where
  values := loaded_valuesInv hload
  world := worldInv_loaded hload
  eof := loaded_eof hload
  procflag := loaded_procflag hload
  member m := (loaded_fresh hload m).1

theorem Sequential.reportsInv (hseq : Sequential e hist y)
    (hload : (cddInit e).1 = 0) : ReportsInv hist y := by
  induction hseq with
  | start => exact reportsInv_loaded hload
  | wrote _ hs hlen hnul hstep ih => exact ih.wrote hs hlen hnul hstep
  | reported _ hlen hout ih => exact ih.reported hlen hout
  | device _ hstep ih => exact ih.device hstep

theorem getCDDUsage_devsize {d : CDDdev} (h : d.allocLen < 2 ^ 31) :
    getCDDUsage .devsize d =
      "Buffer Length - Allocated: ".toList ++ Nat.toDigits 10 d.allocLen := by
  have hself : toInt d.allocLen = d.allocLen :=
    wrapS_eq_self (by omega) (by omega) (by omega)
  rw [← formatInt_natCast, ← hself]
  rfl

theorem getCDDUsage_devused {d : CDDdev} (h : d.counter < 2 ^ 31) :
    getCDDUsage .devused d =
      "Buffer Length - Used: ".toList ++ Nat.toDigits 10 d.counter := by
  have hself : toInt d.counter = d.counter :=
    wrapS_eq_self (by omega) (by omega) (by omega)
  rw [← formatInt_natCast, ← hself]
  rfl

theorem reportShowing_eq_expectedReport {d : CDDdev} (hsize : d.allocLen < 2 ^ 31)
    (hused : d.counter < 2 ^ 31) (m : Minor) (written : Bool)
    (member : List Char) :
    reportShowing m written member d = expectedReport m written member d := by
  unfold reportShowing expectedReport
  rw [getCDDUsage_devsize hsize, getCDDUsage_devused hused]
  simp only [List.append_assoc]

theorem ReportsInv.deviceReport_eq (h : ReportsInv hist y) (m : Minor) :
    deviceReport y.world.cddDev m y.world.proc =
      expectedReport m (writtenSince m hist) (memberOf m hist)
        (y.world.cddDev m) := by
  calc
    deviceReport y.world.cddDev m y.world.proc =
        reportShowing m (y.world.proc.procs m).procflag
          (procvalueString y.world.proc m) (y.world.cddDev m) :=
      h.values.toWired.deviceReport_eq y.world.cddDev m
    _ = reportShowing m (writtenSince m hist) (memberOf m hist)
          (y.world.cddDev m) := by rw [h.procflag, h.member]
    _ = expectedReport m (writtenSince m hist) (memberOf m hist)
          (y.world.cddDev m) :=
      reportShowing_eq_expectedReport (h.world.allocLen_lt m)
        (h.world.counter_lt m) m _ _

theorem ValueSet.deviceReport_ne {k m : Minor} {b : Block Char} {written : Bool}
    {p q : ProcState} (hset : ValueSet k b written p q) (h : ValuesInv p)
    (hsize : b.size = procvalueSize) (hm : m ≠ k) (cddDev : Minor → CDDdev) :
    deviceReport cddDev m q = deviceReport cddDev m p := by
  have hq := hset.valuesInv h hsize
  rw [hq.toWired.deviceReport_eq, h.toWired.deviceReport_eq,
    h.procvalueString_congr (hset.block_ne hm), hset.procs,
    Function.update_of_ne hm]

/-- Each complete report says what its entry's own history and the device
determine, and no write to one entry changes the report of another. -/
theorem sequential_reports_right (hload : (cddInit e).1 = 0)
    (hseq : Sequential e hist y) (m : Minor) :
    (∀ {len : Nat} {out : List Char} {z : System},
        (deviceReport y.world.cddDev m y.world.proc).length < len →
        ReadOut m ModuleCall.OnDevice len y out z →
        out = expectedReport m (writtenSince m hist) (memberOf m hist)
          (y.world.cddDev m)) ∧
      ∀ {k : Minor} {s : List Char} {copy : UserCopy} {z : System}
        {o : ModuleReply}, k ≠ m →
        moduleDriver.step y (.writeproc k s copy) = some (z, o) →
        deviceReport z.world.cddDev m z.world.proc =
          deviceReport y.world.cddDev m y.world.proc := by
  have hinv := hseq.reportsInv hload
  constructor
  · intro len out z hlen hout
    have hother : ∀ c : ModuleCall, c.OnDevice → ¬ c.ReadsEntry := by
      intro c hc
      cases c with
      | device => exact not_false
      | readproc => exact hc.elim
      | writeproc => exact hc.elim
    rw [hout.delivers hother hinv.values, hinv.eof, ← hinv.deviceReport_eq]
    simp only [Bool.false_eq_true, if_false]
    exact List.take_of_length_le (by omega)
  · intro k s copy z o hk hstep
    obtain ⟨b, written, q, hset, hsize, rfl⟩ := hinv.values.writeproc_sets hstep
    exact hset.deviceReport_ne hinv.values hsize (Ne.symm hk) _

end Run

theorem sequential_reports_right_renamed :
    ∃ y out z, Sequential undisturbed [.wrote 0 "My Word!\n".toList] y ∧
      ReadOut 0 ModuleCall.OnDevice 512 y out z ∧
      out = expectedReport 0 true "My Word!".toList (y.world.cddDev 0) := by
  have hfits : (moduleDriver.exec (loaded undisturbed)
      [.writeproc 0 "My Word!\n".toList ⟨0, false⟩]).map (fun y =>
        decide ((deviceReport y.world.cddDev 0 y.world.proc).length < 512)) =
      some true := by decide +kernel
  obtain ⟨y, hexec, hlen⟩ := Option.map_eq_some_iff.mp hfits
  obtain ⟨⟨u, o⟩, hstep, hend⟩ := Option.bind_eq_some_iff.mp hexec
  obtain rfl : u = y := Option.some.inj hend
  obtain ⟨-, retval, q, -, -, rfl⟩ := moduleDriver_writeproc hstep
  have hseq : Sequential undisturbed [.wrote 0 "My Word!\n".toList] u :=
    .wrote .start (by decide) (by decide) (by decide) hstep
  obtain ⟨out, z, hout⟩ := exists_readOut 0 ModuleCall.OnDevice
    (hseq.reportsInv cddInit_undisturbed).values (show 0 < 512 by decide)
    (by decide)
  exact ⟨u, out, z, hseq, hout,
    (sequential_reports_right cddInit_undisturbed hseq 0).1
      (of_decide_eq_true hlen) hout⟩

end CddDriver
