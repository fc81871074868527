import CddDriver.Loaded
import CddDriver.OpSpec
import CddDriver.ProcTree
import Mathlib.Tactic.Common
/-!
# Reading sessions on the entries of /proc/CDD

`readproc_CDD2` tells the first read of a session from the last by the variable
`eof`, of which there is one for all entries and all readers.  A session gets
its report and then its end of file as long as nobody else's read falls between
the two.
-/

namespace CddDriver

open Lib

/-! ## Sessions and their reads -/

/-- What one call returned: its value, the string in the caller's buffer and
the report of the device as it stood. -/
structure Delivery where
  retval : Int
  text : List Char
  report : List Char

def Delivery.IsReport (x : Delivery) : Prop :=
  x.retval = x.report.length ∧ x.text = x.report

structure ProcReaders where
  proc : ProcState
  received : Nat → List Delivery

/-- One `read` of a session; `old` is the string at its buffer before. -/
structure ProcRead where
  session : Nat
  len : Nat
  old : List Char

/-- A session ends with the read that returns 0. -/
def Ended (l : List Delivery) : Prop := ∃ x ∈ l, x.retval = 0

instance (l : List Delivery) : Decidable (Ended l) :=
  inferInstanceAs (Decidable (∃ x ∈ l, x.retval = 0))

section Sessions

/- The device values, and the device whose entry a session reads. -/
variable (cddDev : Minor → CDDdev) (entry : Nat → Minor)

def deviceReport (m : Minor) (p : ProcState) : List Char :=
  procReport (getDevname m) m (cddDev m) p

/-- A session reads on until it has ended, into a buffer larger than the
report that it comes for. -/
def ProcReaders.step (r : ProcReaders) (c : ProcRead) :
    Option (ProcReaders × Unit) :=
  let m := entry c.session
  let report := deviceReport cddDev m r.proc
  if Ended (r.received c.session) then none
  else if maxRwCount < c.len then none
  else if r.received c.session = [] ∧ c.len ≤ report.length then none
  else
    let res := readprocCDD2 true (getDevname m) c.len c.old cddDev r.proc
    some (⟨res.2.2, Function.update r.received c.session
      (r.received c.session ++ [⟨res.1, res.2.1, report⟩])⟩, ())

def procReads : Machine ProcReaders ProcRead Unit :=
  ⟨ProcReaders.step cddDev entry⟩

end Sessions

/-! ## The law and its condition -/

/-- A session has its report and not yet its end of file. -/
def Midway (l : List Delivery) : Prop := ∃ x, l = [x] ∧ x.IsReport

/-- What one session may have received: nothing, its report, or its report and
one 0. -/
def Orderly (l : List Delivery) : Prop :=
  l = [] ∨ Midway l ∨ ∃ x y, l = [x, y] ∧ x.IsReport ∧ y.retval = 0

def Isolated (r : ProcReaders) : Prop := ∀ s, Orderly (r.received s)

/-- No other session is between its report and its end of file. -/
def Undivided (r : ProcReaders) (c : ProcRead) (_ : Unit) (_ : ProcReaders) :
    Prop :=
  ∀ s, s ≠ c.session → ¬ Midway (r.received s)

/-! ## One read -/

structure Wired (p : ProcState) : Prop where
  procname : ∀ m, (p.procs m).procname = getDevname m
  minor : ∀ m, (p.procs m).minor = m

section Read

variable {cddDev : Minor → CDDdev} {p : ProcState} {m : Minor} {len : Nat}
  {old : List Char}

theorem Wired.lookupCDDdproc (h : Wired p) (m : Minor) :
    lookupCDDdproc (getDevname m) p = some m := by
  have hname : ∀ n : Minor,
      decide (getDevname m = (p.procs n).procname) = decide (n = m) := by
    intro n
    rw [h.procname, decide_eq_decide]
    exact ⟨fun heq => (getDevname_injective heq).symm, fun heq => heq ▸ rfl⟩
  have hfind : ∀ m : Minor,
      (List.finRange cddNumDevs).find? (fun n => decide (n = m)) = some m := by
    decide
  unfold CddDriver.lookupCDDdproc
  simp only [hname, hfind]

theorem Wired.readprocCDD2_eof (h : Wired p) (heof : p.eof = true) :
    readprocCDD2 true (getDevname m) len old cddDev p =
      (0, old, { p with eof := false }) := by
  unfold readprocCDD2 readprocBody
  rw [h.lookupCDDdproc m]
  simp [heof]

theorem Wired.readprocCDD2_first (h : Wired p) (heof : p.eof = false)
    (hlen : 0 < len) (hmax : len ≤ maxRwCount) :
    readprocCDD2 true (getDevname m) len old cddDev p =
      ((((deviceReport cddDev m p).take (len - 1)).length : Int),
        (deviceReport cddDev m p).take (len - 1),
        updateProc m (fun r => { r with procflag := false })
          { p with eof := true }) := by
  have htext : snprintfString len (deviceReport cddDev m p) old =
      (deviceReport cddDev m p).take (len - 1) := by
    rw [snprintfString, if_neg (by omega)]
  have hretval : toInt ((deviceReport cddDev m p).take (len - 1)).length =
      ((deviceReport cddDev m p).take (len - 1)).length := by
    have hle : ((deviceReport cddDev m p).take (len - 1)).length ≤ len - 1 :=
      List.length_take_le _ _
    unfold maxRwCount at hmax
    exact wrapS_eq_self (by omega) (by omega) (by omega)
  unfold deviceReport at htext hretval
  unfold readprocCDD2 readprocBody
  rw [h.lookupCDDdproc m]
  simp only [heof, h.minor, htext, hretval, deviceReport, Bool.not_true,
    Bool.false_eq_true, if_false]

theorem Wired.readprocCDD2_report (h : Wired p) (heof : p.eof = false)
    (hfits : (deviceReport cddDev m p).length < len) (hlen : len ≤ maxRwCount) :
    readprocCDD2 true (getDevname m) len old cddDev p =
      (((deviceReport cddDev m p).length : Int), deviceReport cddDev m p,
        updateProc m (fun r => { r with procflag := false })
          { p with eof := true }) := by
  have htake : (deviceReport cddDev m p).take (len - 1) =
      deviceReport cddDev m p := List.take_of_length_le (by omega)
  rw [h.readprocCDD2_first heof (by omega) hlen, htake]

theorem Wired.readprocCDD2_refused (h : Wired p) :
    readprocCDD2 false (getDevname m) len old cddDev p =
      (-erestartsys, old, p) := by
  unfold readprocCDD2
  rw [h.lookupCDDdproc m]
  rfl

theorem deviceReport_pos : 0 < (deviceReport cddDev m p).length := by
  unfold deviceReport procReport
  simp only [List.length_append, String.length_toList]
  have hmode : "Mode: ".length = 6 := rfl
  omega

theorem Wired.updateProc (h : Wired p) (b c : Bool) :
    Wired (updateProc m (fun r => { r with procflag := b }) { p with eof := c }) := by
  constructor <;> intro n <;> by_cases hn : n = m <;>
    simp [CddDriver.updateProc, hn, h.procname, h.minor]

end Read

/-! ## Runs of reads -/

theorem not_midway_nil : ¬ Midway [] := by
  rintro ⟨x, hx, -⟩
  cases hx

theorem not_orderly_zero {text report : List Char} (h : 0 < report.length) :
    ¬ Orderly [⟨0, text, report⟩] := by
  rintro (hnil | ⟨x, hx, hret, -⟩ | ⟨x, y, hxy, -⟩)
  · cases hnil
  · obtain rfl := List.singleton_inj.mp hx
    change (0 : Int) = report.length at hret
    omega
  · cases hxy

structure Tidy (r : ProcReaders) : Prop where
  wired : Wired r.proc
  orderly : Isolated r
  eof : r.proc.eof = true ↔ ∃ s, Midway (r.received s)
  alone : ∀ s s', Midway (r.received s) → Midway (r.received s') → s = s'

section Runs

variable {cddDev : Minor → CDDdev} {entry : Nat → Minor} {r r' : ProcReaders}
  {c : ProcRead} {u : Unit}

theorem procReads_step (h : (procReads cddDev entry).step r c = some (r', u)) :
    ¬ Ended (r.received c.session) ∧ c.len ≤ maxRwCount ∧
      (r.received c.session = [] →
        (deviceReport cddDev (entry c.session) r.proc).length < c.len) ∧
      ∃ res, res = readprocCDD2 true (getDevname (entry c.session)) c.len c.old
          cddDev r.proc ∧
        r' = ⟨res.2.2, Function.update r.received c.session
          (r.received c.session ++ [⟨res.1, res.2.1,
            deviceReport cddDev (entry c.session) r.proc⟩])⟩ := by
  simp only [procReads, ProcReaders.step] at h
  split at h
  · cases h
  split at h
  · cases h
  split at h
  · cases h
  next hended hlen hfirst =>
    obtain ⟨rfl, -⟩ := Prod.mk.inj (Option.some.inj h)
    refine ⟨hended, by omega, fun hnil => ?_, _, rfl, rfl⟩
    by_contra hshort
    exact hfirst ⟨hnil, by omega⟩

theorem Isolated.update (h : Isolated r) {l : List Delivery} (hl : Orderly l)
    (p : ProcState) (s : Nat) : Isolated ⟨p, Function.update r.received s l⟩ := by
  intro s'
  change Orderly (Function.update r.received s l s')
  by_cases hs' : s' = s
  · rw [hs', Function.update_self]
    exact hl
  · rw [Function.update_of_ne hs']
    exact h s'

theorem Tidy.first (h : Tidy r) {s : Nat} {m : Minor} {x : Delivery}
    (hx : x.IsReport) (hnone : ∀ s, ¬ Midway (r.received s)) :
    Tidy ⟨updateProc m (fun q => { q with procflag := false })
        { r.proc with eof := true }, Function.update r.received s [x]⟩ := by
  have hmid : Midway [x] := ⟨x, rfl, hx⟩
  have honly : ∀ s', Midway (Function.update r.received s [x] s') → s' = s := by
    intro s' hs'
    by_contra hne
    rw [Function.update_of_ne hne] at hs'
    exact hnone s' hs'
  refine ⟨h.wired.updateProc false true, h.orderly.update (.inr (.inl hmid)) _ s,
    iff_of_true rfl ⟨s, ?_⟩, ?_⟩
  · simpa only [Function.update_self] using hmid
  · intro s₁ s₂ h₁ h₂
    rw [honly s₁ h₁, honly s₂ h₂]

theorem Tidy.last (h : Tidy r) {s : Nat} {y : Delivery}
    (hmid : Midway (r.received s)) (hy : y.retval = 0) :
    Tidy ⟨{ r.proc with eof := false },
      Function.update r.received s (r.received s ++ [y])⟩ := by
  obtain ⟨x, hx, hreport⟩ := hmid
  have hnone : ∀ s',
      ¬ Midway (Function.update r.received s (r.received s ++ [y]) s') := by
    intro s' hs'
    by_cases hne : s' = s
    · rw [hne, Function.update_self, hx] at hs'
      obtain ⟨z, hz, -⟩ := hs'
      cases hz
    · rw [Function.update_of_ne hne] at hs'
      exact hne (h.alone s' s hs' ⟨x, hx, hreport⟩)
  have horderly : Orderly (r.received s ++ [y]) :=
    .inr (.inr ⟨x, y, by rw [hx]; rfl, hreport, hy⟩)
  refine ⟨⟨h.wired.procname, h.wired.minor⟩, h.orderly.update horderly _ s, ?_, ?_⟩
  · exact iff_of_false Bool.false_ne_true fun ⟨s', hs'⟩ => hnone s' hs'
  · intro s₁ s₂ h₁
    exact absurd h₁ (hnone s₁)

theorem Tidy.step (h : Tidy r)
    (hstep : (procReads cddDev entry).step r c = some (r', u)) :
    (Isolated r' → Undivided r c u r') ∧ (Undivided r c u r' → Tidy r') := by
  obtain ⟨hended, hlen, hfits, res, rfl, rfl⟩ := procReads_step hstep
  rcases h.orderly c.session with hnil | hmid | ⟨x, y, hxy, -, hzero⟩
  · cases heof : r.proc.eof with
    | true =>
        -- `eof` was set for another session: this one gets a 0 first
        obtain ⟨s, hs⟩ := h.eof.mp heof
        have hne : s ≠ c.session := by
          rintro rfl
          exact not_midway_nil (hnil ▸ hs)
        refine ⟨fun hall => ?_, fun hundivided => absurd hs (hundivided s hne)⟩
        have horderly := hall c.session
        rw [h.wired.readprocCDD2_eof heof, hnil] at horderly
        simp only [Function.update_self, List.nil_append] at horderly
        exact absurd horderly (not_orderly_zero deviceReport_pos)
    | false =>
        have hnone : ∀ s, ¬ Midway (r.received s) := by
          intro s hs
          exact absurd (h.eof.mpr ⟨s, hs⟩) (by simp [heof])
        refine ⟨fun _ s _ => hnone s, fun _ => ?_⟩
        rw [h.wired.readprocCDD2_report heof (hfits hnil) hlen, hnil]
        exact h.first ⟨rfl, rfl⟩ hnone
  · refine ⟨fun _ s hne hs => hne (h.alone s c.session hs hmid), fun _ => ?_⟩
    rw [h.wired.readprocCDD2_eof (h.eof.mpr ⟨c.session, hmid⟩)]
    exact h.last hmid rfl
  · exact absurd ⟨y, by simp [hxy], hzero⟩ hended

end Runs

/-! ## The module after the load -/

theorem foldl_goLive_record (e : InitEnv) {n : Minor} {is : List Minor}
    {w : World}
    (h : n ∈ is ∨ (w.proc.procs n).procname = getDevname n ∧
      (w.proc.procs n).minor = n) :
    ((is.foldl (goLive e) w).proc.procs n).procname = getDevname n ∧
      ((is.foldl (goLive e) w).proc.procs n).minor = n := by
  induction is generalizing w with
  | nil => exact h.resolve_left List.not_mem_nil
  | cons i is ih =>
      rw [List.foldl_cons]
      have hprocs := cddProcInit_procs (e := e.proc i) (m := i) (p := w.proc) n
      apply ih
      by_cases hn : n = i
      · rw [if_pos hn, if_pos hn, if_pos hn] at hprocs
        exact .inr ⟨hn ▸ hprocs.2.1, hn ▸ hprocs.2.2⟩
      · rw [if_neg hn, if_neg hn, if_neg hn] at hprocs
        refine h.imp (fun hmem => (List.mem_cons.mp hmem).resolve_left hn) ?_
        exact fun hw => ⟨hprocs.2.1.trans hw.1, hprocs.2.2.trans hw.2⟩

section Loaded

variable {e : InitEnv} (h : (cddInit e).1 = 0)
include h

theorem loaded_wired : Wired (cddInit e).2.proc := by
  have hmem : ∀ n : Minor, n ∈ minors := by decide
  rw [cddInit_eq_zero h]
  exact ⟨fun n => (foldl_goLive_record e (.inl (hmem n))).1,
    fun n => (foldl_goLive_record e (.inl (hmem n))).2⟩

theorem loaded_eof : (cddInit e).2.proc.eof = false := by
  have hstart : (loopStart e).proc.eof = false := by
    rw [loopStart_proc]
    unfold cddProcSeqInit
    split <;> rfl
  rw [cddInit_eq_zero h, minors_eq]
  simpa [goLive, cddProcInit_eof] using hstart

end Loaded

/-- From records as `CDDproc_init` leaves them, every session is isolated in
every state of a run exactly when each read is made while no other session is
midway. -/
theorem sessions_isolated_iff (cddDev : Minor → CDDdev) (entry : Nat → Minor)
    {p : ProcState} (hwired : Wired p) (heof : p.eof = false)
    (cs : List ProcRead) :
    (procReads cddDev entry).EveryState Isolated ⟨p, fun _ => []⟩ cs ↔
      (procReads cddDev entry).EveryStep Undivided ⟨p, fun _ => []⟩ cs := by
  refine Machine.everyState_iff_everyStep_of Tidy.orderly Tidy.step ?_
  refine ⟨hwired, fun _ => .inl rfl, ?_, fun s _ hs => absurd hs not_midway_nil⟩
  exact iff_of_false (by simp [heof]) fun ⟨_, hs⟩ => not_midway_nil hs

def freshReads (m : Minor) : Machine ProcReaders ProcRead Unit :=
  procReads (cddInit undisturbed).2.cddDev fun _ => m

def freshReaders : ProcReaders := ⟨(cddInit undisturbed).2.proc, fun _ => []⟩

theorem sessions_isolated_single :
    ∃ r, (freshReads 0).exec freshReaders [⟨0, 512, []⟩, ⟨0, 512, []⟩] = some r ∧
      (r.received 0).length = 2 ∧ Isolated r := by
  have hrun : (((freshReads 0).exec freshReaders [⟨0, 512, []⟩, ⟨0, 512, []⟩]).map
      fun r => (r.received 0).length) = some 2 := by decide +kernel
  obtain ⟨r, hexec, hlength⟩ := Option.map_eq_some_iff.mp hrun
  refine ⟨r, hexec, hlength, ?_⟩
  refine ((sessions_isolated_iff _ _ (loaded_wired cddInit_undisturbed)
    (loaded_eof cddInit_undisturbed) _).mpr ?_).last (Machine.run_of_exec hexec)
  intro t o ht
  obtain ⟨-, -, -, res, -, rfl⟩ := procReads_step ht
  refine ⟨fun _ _ => not_midway_nil, fun u o' _ => ⟨?_, trivial⟩⟩
  intro s hs
  dsimp only
  rw [Function.update_of_ne hs]
  exact not_midway_nil

/-- The first read of a second session falls between the two reads of the
first and gets the 0 that ends it. -/
theorem not_sessions_isolated_interleaved :
    ∃ r x,
      (freshReads 0).exec freshReaders [⟨0, 512, []⟩, ⟨1, 512, []⟩] = some r ∧
      r.received 1 = [x] ∧ x.retval = 0 ∧ x.report ≠ [] ∧ ¬ Isolated r := by
  have hrun : (((freshReads 0).exec freshReaders [⟨0, 512, []⟩, ⟨1, 512, []⟩]).map
      fun r => (r.received 1).map fun x => (x.retval, x.report.isEmpty)) =
      some [(0, false)] := by decide +kernel
  obtain ⟨r, hexec, hlog⟩ := Option.map_eq_some_iff.mp hrun
  obtain ⟨x, hx, heq⟩ := List.map_eq_singleton_iff.mp hlog
  obtain ⟨hzero, hreport⟩ := Prod.mk.inj heq
  have hsome : x.report ≠ [] := by simpa using hreport
  refine ⟨r, x, hexec, hx, hzero, hsome, fun hall => ?_⟩
  have horderly := hall 1
  obtain ⟨retval, text, report⟩ := x
  obtain rfl : retval = 0 := hzero
  rw [hx] at horderly
  exact not_orderly_zero (List.length_pos_iff.mpr hsome) horderly

end CddDriver
