import CddDriver.Ownership
import Mathlib.Tactic.Common
/-!
# The content of a device across opens

The driver next to an abstract memory for each device, which remembers the
bytes last stored since the last truncation.  `CDD_open` gives the device a new
buffer each time, so the two stay together exactly as long as the memory that
an open obtains happens to hold the old content, or there is none to keep.
-/

namespace CddDriver

open Lib

/-! ## The abstract memories -/

abbrev Journal := Minor → Known Byte

def noteOpen (m : Minor) (fFlags : Nat) (status : OpenStatus) (g : Journal) :
    Journal :=
  if status = .returned 0 ∧ hasFlag fFlags oTrunc = true then
    Function.update g m Known.nothing
  else g

def noteWrite (m : Minor) (start retval : Int) (buf : List Byte) (d : CDDdev)
    (g : Journal) : Journal :=
  if 0 ≤ retval then
    Function.update g m ((g m).store (writePos d start).toNat buf)
  else g

def journal (g : Journal) (y : System) (c : Call) (o : Reply) (_ : System) :
    Journal :=
  match c, o with
  | .openFile _ m fFlags _ _, .openFile status => noteOpen m fFlags status g
  | .wake f _ _, .openFile status =>
      match y.files f with
      | .opening m fFlags => noteOpen m fFlags status g
      | _ => g
  | .write f _ buf _ _, .write start retval =>
      match y.files f with
      | .opened m _ _ =>
          noteWrite m start retval buf (y.world.cddDev m) g
      | _ => g
  | _, _ => g

/-! ## The law and its condition -/

def Call.Smooth : Call → Prop
  | .openFile _ _ _ locked fresh => locked = true ∧ fresh ≠ none
  | .wake _ _ relocked => relocked = true
  | .read _ _ _ _ uncopied => uncopied = 0
  | .write _ _ _ locked copy => locked = true ∧ copy.uncopied = 0
  | _ => True

/-- A read delivers the bytes last stored where it reads. -/
def ReadsStored (s : System × Journal) (c : Call) (o : Reply) : Prop :=
  ∀ f at? buf count uncopied start r m fFlags fPos,
    c = .read f at? buf count uncopied → o = .read start r →
    s.1.files f = .opened m fFlags fPos → ∀ (i : Nat) v, (i : Int) < r.retval →
      s.2 m (start.toNat + i) = some v → r.buf i = v

def ContentKept (s s' : DevState) : Prop :=
  s'.dev.counter = s.dev.counter ∧
    ∀ i < s.dev.counter, s'.byteAt i = s.byteAt i

/-- An open without `O_TRUNC` keeps the content, at its call and at each
wake-up. -/
def OpenKeepsContent (y : System) (c : Call) (z : System) : Prop :=
  (∀ f m fFlags locked fresh, c = .openFile f m fFlags locked fresh →
    hasFlag fFlags oTrunc = false → ContentKept (y.devState m) (z.devState m)) ∧
  ∀ f signalPending relocked m fFlags, c = .wake f signalPending relocked →
    y.files f = .opening m fFlags → hasFlag fFlags oTrunc = false →
    ContentKept (y.devState m) (z.devState m)

def DataSurvives (s : System × Journal) (c : Call) (o : Reply)
    (t : System × Journal) : Prop :=
  ReadsStored s c o ∧ OpenKeepsContent s.1 c t.1

/-- An open finds nothing to keep, or may truncate what it finds, or obtains
memory that holds the old content. -/
def NothingToLose (y : System) (c : Call) (_ : Reply) (_ : System) : Prop :=
  ∀ f m fFlags data, c = .openFile f m fFlags true (some data) →
    (y.world.cddDev m).counter = 0 ∨
    (hasFlag fFlags oTrunc = true ∧ fFlags &&& oAccmode ≠ oRdonly) ∨
    ∀ i < (y.world.cddDev m).counter, (y.devState m).byteAt i = some (data i)

/-! ## What the operations do to the content -/

section Device

variable {major : Nat} {m : Minor} {s s' : DevState} {fFlags : Nat}
  {status : OpenStatus}

theorem byteAt_congr (hstorage : s'.dev.cddStorage = s.dev.cddStorage)
    (hheap : s'.heap = s.heap) (i : Nat) : s'.byteAt i = s.byteAt i := by
  simp only [DevState.byteAt, DevState.buffer, hstorage, hheap]

theorem openRest_content (h : openRest fFlags s = some (s', status)) :
    (status = .returned 0 ∧ hasFlag fFlags oTrunc = true ∧
        s'.dev.counter = 0) ∨
      (s'.dev.counter = s.dev.counter ∧ (∀ i, s'.byteAt i = s.byteAt i) ∧
        (hasFlag fFlags oTrunc = true →
          status ≠ .returned 0 ∧ contentIsUnavailable s.dev fFlags ≠ 0)) := by
  rcases openRest_cases h with ⟨-, hstatus, hcommit⟩ | ⟨hun, rfl, hstatus⟩
  · have hdev := openCommit_dev hcommit
    cases htrunc : hasFlag fFlags oTrunc with
    | true =>
        refine .inl ⟨hstatus, rfl, ?_⟩
        simp [hdev, committed, htrunc]
    | false =>
        refine .inr ⟨?_, ?_, fun htrue => by cases htrue⟩
        · simp [hdev, committed, htrunc]
        · have hheap := openCommit_heap hcommit htrunc
          exact byteAt_congr (by simp [hdev, committed]) hheap
  · exact .inr ⟨rfl, fun _ => rfl, fun _ => ⟨hstatus, hun⟩⟩

theorem openBody_content {data : Nat → Byte} (hm : minorOf s.dev.devno = m)
    (h : openBody (some data) fFlags s = some (s', status)) :
    (status = .returned 0 ∧ hasFlag fFlags oTrunc = true ∧
        s'.dev.counter = 0) ∨
      (s'.dev.counter = s.dev.counter ∧ (∀ i, s'.byteAt i = some (data i)) ∧
        (hasFlag fFlags oTrunc = true → status ≠ .returned 0 ∧
          fFlags &&& oAccmode = oRdonly)) := by
  rcases openBody_cases hm h with ⟨hnone, -⟩ | ⟨data', heq, hrest⟩
  · cases hnone
  · obtain rfl := Option.some.inj heq
    rcases openRest_content hrest with hleft | ⟨hcounter, hbyte, hstatus⟩
    · exact .inl hleft
    · refine .inr ⟨hcounter, ?_, ?_⟩
      · intro i
        rw [hbyte, allocated_byteAt]
      · intro htrunc
        obtain ⟨hne, hun⟩ := hstatus htrunc
        refine ⟨hne, ?_⟩
        by_contra hwrite
        exact hun (contentIsUnavailable_writer hwrite)

def Shows (k : Known Byte) (s : DevState) : Prop :=
  ∀ i v, k i = some v → i < s.dev.counter ∧ s.byteAt i = some v

theorem Shows.nothing (s : DevState) : Shows Known.nothing s := by
  intro i v hv
  cases hv

theorem Shows.kept {k : Known Byte} (h : Shows k s) (hkept : ContentKept s s') :
    Shows k s' := by
  intro i v hv
  obtain ⟨hi, hbyte⟩ := h i v hv
  exact ⟨by rw [hkept.1]; exact hi, by rw [hkept.2 i hi, hbyte]⟩

theorem Shows.writeBody {k : Known Byte} {buf : List Byte} {copy : UserCopy}
    {start : Int} {w : WriteResult} (h : Shows k s)
    (hcount : buf.length ≤ maxRwCount) (hcopied : copy.uncopied = 0)
    (hwrite : writeBody buf copy start s = some w) :
    Shows (if 0 ≤ w.retval then k.store (writePos s.dev start).toNat buf else k)
      w.state := by
  have hfail : ¬ (0 : Int) ≤ -efault := by decide
  rcases writeBody_cases hcount hwrite with
    rfl | ⟨pos, hpos, -, ⟨t, hleft, -, rfl⟩ | ⟨t, -, ht, rfl⟩⟩
  · rw [if_neg hfail]
    exact h
  · rw [hcopied] at hleft
    exact absurd (Nat.zero_min buf.length) hleft
  · rw [if_pos (Int.natCast_nonneg buf.length), hpos, Int.toNat_natCast]
    intro i v hv
    have hshown : i < max t.dev.counter (pos + buf.length) ∧
        t.byteAt i = some v := by
      rw [DevState.poke_dev ht]
      rcases Known.store_eq_some hv with ⟨j, hj, rfl, rfl⟩ | ⟨hout, hold⟩
      · exact ⟨by omega, DevState.poke_byteAt_inside ht hj⟩
      · obtain ⟨hi, hb⟩ := h i v hold
        exact ⟨by omega, by rw [DevState.poke_byteAt_outside ht hout, hb]⟩
    exact ⟨hshown.1, (byteAt_congr rfl rfl i).trans hshown.2⟩

end Device

/-! ## The simulation -/

structure JournalInv (s : System × Journal) : Prop where
  world : WorldInv s.1.world
  shows : ∀ m, Shows (s.2 m) (s.1.devState m)

theorem byteAt_of_frame {w : World} {m k : Minor} {s : DevState} (h : WorldInv w)
    (hframe : Frame m (w.devState m) s) (hk : k ≠ m) {i : Nat} {v : Byte}
    (hv : (w.devState k).byteAt i = some v) :
    ((w.setDevState m s).devState k).byteAt i = some v := by
  obtain ⟨p, x, hp, hx, hdata⟩ := DevState.byteAt_eq_some_iff.mp hv
  have hdev := w.cddDev_setDevState_ne s hk
  refine DevState.byteAt_eq_some_iff.mpr ⟨p, x, ?_, ?_, hdata⟩
  · exact (congrArg CDDdev.cddStorage hdev).trans hp
  · refine hframe.content p x hx ?_
    intro hm
    exact hk (h.storage_inj hp hm)

theorem JournalInv.setDevState {y z : System} {g g' : Journal} {m : Minor}
    {s : DevState} (h : JournalInv (y, g))
    (hs : DeviceInv y.world.cddMajor m s) (hframe : Frame m (y.devState m) s)
    (hz : z.world = y.world.setDevState m s) (hother : ∀ k, k ≠ m → g' k = g k)
    (hself : Shows (g' m) s) : JournalInv (z, g') := by
  constructor
  · simp only [hz]
    exact h.world.setDevState hs hframe
  · intro k
    simp only [System.devState, hz]
    by_cases hk : k = m
    · subst hk
      rw [World.devState_setDevState_self]
      exact hself
    · intro i v hv
      rw [hother k hk] at hv
      obtain ⟨hi, hbyte⟩ := h.shows k i v hv
      refine ⟨?_, byteAt_of_frame h.world hframe hk hbyte⟩
      have hdev := y.world.cddDev_setDevState_ne s hk
      exact hi.trans_eq (congrArg CDDdev.counter hdev).symm

theorem noteOpen_other {m k : Minor} (fFlags : Nat) (status : OpenStatus)
    (g : Journal) (hk : k ≠ m) : noteOpen m fFlags status g k = g k := by
  unfold noteOpen
  split
  · exact Function.update_of_ne hk _ _
  · rfl

theorem noteWrite_self (m : Minor) (start retval : Int) (buf : List Byte)
    (d : CDDdev) (g : Journal) :
    noteWrite m start retval buf d g m =
      if 0 ≤ retval then (g m).store (writePos d start).toNat buf else g m := by
  unfold noteWrite
  split
  · exact Function.update_self _ _ _
  · rfl

theorem noteWrite_other {m k : Minor} (start retval : Int) (buf : List Byte)
    (d : CDDdev) (g : Journal) (hk : k ≠ m) :
    noteWrite m start retval buf d g k = g k := by
  unfold noteWrite
  split
  · exact Function.update_of_ne hk _ _
  · rfl

theorem Shows.noteOpen {m : Minor} {s s' : DevState} {fFlags : Nat}
    {status : OpenStatus} {g : Journal} (h : Shows (g m) s)
    (hcases : (status = .returned 0 ∧ hasFlag fFlags oTrunc = true) ∨
      ContentKept s s') : Shows (noteOpen m fFlags status g m) s' := by
  unfold CddDriver.noteOpen
  split
  · rw [Function.update_self]
    exact Shows.nothing s'
  · next hnot =>
      rcases hcases with htrunc | hkept
      · exact absurd htrunc hnot
      · exact h.kept hkept

theorem noteOpen_failed {m : Minor} {fFlags : Nat} {status : OpenStatus}
    (g : Journal) (h : status ≠ .returned 0) : noteOpen m fFlags status g = g :=
  if_neg fun hnot => h hnot.1

theorem ContentKept.refl (s : DevState) : ContentKept s s :=
  ⟨rfl, fun _ _ => rfl⟩

/-- An open that has nothing to lose truncates or keeps the content. -/
theorem openBody_keeps {y : System} {f : Nat} {m : Minor} {fFlags : Nat}
    {data : Nat → Byte} {s : DevState} {status : OpenStatus} {o : Reply}
    {z : System} (hm : minorOf (y.world.cddDev m).devno = m)
    (hcond : NothingToLose y (.openFile f m fFlags true (some data)) o z)
    (h : openBody (some data) fFlags (y.devState m) = some (s, status)) :
    (status = .returned 0 ∧ hasFlag fFlags oTrunc = true) ∨
      ContentKept (y.devState m) s := by
  rcases openBody_content hm h with ⟨hret, htrunc, -⟩ | ⟨hcounter, hbyte, hstatus⟩
  · exact .inl ⟨hret, htrunc⟩
  · refine .inr ⟨hcounter, fun i hi => ?_⟩
    rw [hbyte]
    rcases hcond f m fFlags data rfl with hzero | ⟨htrunc, hwrite⟩ | hsame
    · exact absurd (hzero ▸ hi : i < 0) (Nat.not_lt_zero i)
    · exact absurd (hstatus htrunc).2 hwrite
    · exact (hsame i hi).symm

theorem dataSurvives_same {y z : System} {g : Journal} {c : Call} {o : Reply}
    (h : JournalInv (y, g)) (hz : z.world = y.world)
    (hread : ∀ f at? buf count uncopied, c ≠ .read f at? buf count uncopied) :
    DataSurvives (y, g) c o (z, g) ∧ JournalInv (z, g) := by
  have hkept : ∀ m, ContentKept (y.devState m) (z.devState m) := by
    intro m
    simp only [System.devState, hz]
    exact ContentKept.refl _
  refine ⟨⟨?_, ?_, ?_⟩, ⟨by simpa [hz] using h.world, ?_⟩⟩
  · intro f at? buf count uncopied _ _ _ _ _ hc
    exact absurd hc (hread f at? buf count uncopied)
  · exact fun _ m _ _ _ _ _ => hkept m
  · exact fun _ _ _ m _ _ _ _ => hkept m
  · intro m
    simpa [System.devState, hz] using h.shows m

theorem dataSurvives_open {y z : System} {g : Journal} {m : Minor}
    {fFlags : Nat} {s : DevState} {status : OpenStatus} (h : JournalInv (y, g))
    (hs : DeviceInv y.world.cddMajor m s) (hframe : Frame m (y.devState m) s)
    (hz : z.world = y.world.setDevState m s)
    (hkeeps : (status = .returned 0 ∧ hasFlag fFlags oTrunc = true) ∨
      ContentKept (y.devState m) s) :
    (hasFlag fFlags oTrunc = false →
        ContentKept (y.devState m) (z.devState m)) ∧
      JournalInv (z, noteOpen m fFlags status g) := by
  have hdev : z.devState m = s := by
    simp only [System.devState, hz, World.devState_setDevState_self]
  constructor
  · intro htrunc
    rw [hdev]
    rcases hkeeps with ⟨-, htrue⟩ | hkept
    · rw [htrunc] at htrue
      cases htrue
    · exact hkept
  · exact h.setDevState hs hframe hz
      (fun k hk => noteOpen_other fFlags status g hk)
      ((h.shows m).noteOpen hkeeps)

theorem readsStored_read {y : System} {g : Journal} {f : Nat} {m : Minor}
    {fFlags : Nat} {fPos : Int} {at? : Option Int} {buf : Nat → Byte}
    {count uncopied : Nat} {r : ReadResult} (h : JournalInv (y, g))
    (hf : y.files f = .opened m fFlags fPos)
    (hrange : vfsRange (at?.getD fPos) count = true)
    (hread : readBody buf count uncopied (at?.getD fPos) (y.devState m) =
      some r) :
    ReadsStored (y, g) (.read f at? buf count uncopied)
      (.read (at?.getD fPos) r) := by
  have hm := h.world.device m
  obtain ⟨hnonneg, hcount, hsum⟩ := vfsRange_eq_true.mp hrange
  intro f' at' buf' count' uncopied' start r' m' fFlags' fPos' hc ho hf' i v hi hv
  simp only [Call.read.injEq] at hc
  obtain ⟨rfl, -⟩ := hc
  obtain ⟨rfl, rfl⟩ := Reply.read.inj ho
  rw [hf] at hf'
  obtain ⟨rfl, rfl, rfl⟩ := FileSlot.opened.inj hf'
  have hpos : 0 < r.retval := by omega
  obtain ⟨start, n, hstart, hn, -, hbytes⟩ :=
    readBody_pos hm.counter_lt hcount hnonneg hsum hread hpos
  obtain ⟨-, hbyte⟩ := h.shows m (start + i) v (by simpa [hstart] using hv)
  have hgot := hbytes i (by omega)
  exact Option.some.inj (hgot.symm.trans hbyte)

theorem dataSurvives_opened {y z : System} {g : Journal} {f : Nat} {m : Minor}
    {fFlags : Nat} {data : Nat → Byte} {s : DevState} {status : OpenStatus}
    (h : JournalInv (y, g))
    (hcond : NothingToLose y (.openFile f m fFlags true (some data))
      (.openFile status) z)
    (hopen : openBody (some data) fFlags (y.devState m) = some (s, status))
    (hz : z.world = y.world.setDevState m s) :
    DataSurvives (y, g) (.openFile f m fFlags true (some data))
        (.openFile status) (z, noteOpen m fFlags status g) ∧
      JournalInv (z, noteOpen m fFlags status g) := by
  have hm := h.world.device m
  obtain ⟨hkept, hnext⟩ := dataSurvives_open h (hm.openBody hopen)
    (openBody_frame hm.minor_eq hopen) hz
    (openBody_keeps hm.minor_eq hcond hopen)
  refine ⟨⟨fun _ _ _ _ _ _ _ _ _ _ hc => (by cases hc), ?_,
    fun _ _ _ _ _ hc => (by cases hc)⟩, hnext⟩
  intro f' m' fFlags' locked fresh hc
  simp only [Call.openFile.injEq] at hc
  obtain ⟨-, rfl, rfl, -⟩ := hc
  exact hkept

theorem dataSurvives_resumed {y z : System} {g : Journal} {f : Nat} {m : Minor}
    {fFlags : Nat} {s : DevState} {status : OpenStatus} (h : JournalInv (y, g))
    (hf : y.files f = .opening m fFlags)
    (hrest : openRest fFlags (y.devState m) = some (s, status))
    (hz : z.world = y.world.setDevState m s) :
    DataSurvives (y, g) (.wake f false true) (.openFile status)
        (z, noteOpen m fFlags status g) ∧
      JournalInv (z, noteOpen m fFlags status g) := by
  have hm := h.world.device m
  have hkeeps : (status = .returned 0 ∧ hasFlag fFlags oTrunc = true) ∨
      ContentKept (y.devState m) s := by
    rcases openRest_content hrest with
      ⟨hret, htrunc, -⟩ | ⟨hcounter, hbyte, -⟩
    · exact .inl ⟨hret, htrunc⟩
    · exact .inr ⟨hcounter, fun i _ => hbyte i⟩
  obtain ⟨hkept, hnext⟩ := dataSurvives_open h (hm.openRest hrest)
    (openRest_frame hrest) hz hkeeps
  refine ⟨⟨fun _ _ _ _ _ _ _ _ _ _ hc => (by cases hc),
    fun _ _ _ _ _ hc => (by cases hc), ?_⟩, hnext⟩
  intro f' _ _ m' fFlags' hc hf'
  simp only [Call.wake.injEq] at hc
  obtain ⟨rfl, -⟩ := hc
  rw [hf] at hf'
  obtain ⟨rfl, rfl⟩ := FileSlot.opening.inj hf'
  exact hkept

theorem dataSurvives_read {y z : System} {g : Journal} {f : Nat} {m : Minor}
    {fFlags : Nat} {fPos : Int} {at? : Option Int} {buf : Nat → Byte}
    {count uncopied : Nat} {r : ReadResult} (h : JournalInv (y, g))
    (hf : y.files f = .opened m fFlags fPos)
    (hrange : vfsRange (at?.getD fPos) count = true)
    (hread : readBody buf count uncopied (at?.getD fPos) (y.devState m) =
      some r) (hz : z.world = y.world) :
    DataSurvives (y, g) (.read f at? buf count uncopied)
        (.read (at?.getD fPos) r) (z, g) ∧ JournalInv (z, g) := by
  refine ⟨⟨readsStored_read h hf hrange hread,
    fun _ _ _ _ _ hc => (by cases hc),
    fun _ _ _ _ _ hc => (by cases hc)⟩, by simpa [hz] using h.world, ?_⟩
  intro k
  have hdev : z.devState k = y.devState k := by
    simp only [System.devState, hz]
  show Shows (g k) (z.devState k)
  rw [hdev]
  exact h.shows k

theorem dataSurvives_written {y z : System} {g : Journal} {f : Nat} {m : Minor}
    {at? : Option Int} {buf : List Byte} {copy : UserCopy} {start : Int}
    {w : WriteResult} (h : JournalInv (y, g)) (hcount : buf.length ≤ maxRwCount)
    (hcopied : copy.uncopied = 0)
    (hwrite : writeBody buf copy start (y.devState m) = some w)
    (hz : z.world = y.world.setDevState m w.state) :
    DataSurvives (y, g) (.write f at? buf true copy) (.write start w.retval)
        (z, noteWrite m start w.retval buf (y.world.cddDev m) g) ∧
      JournalInv (z, noteWrite m start w.retval buf (y.world.cddDev m) g) := by
  have hm := h.world.device m
  refine ⟨⟨fun _ _ _ _ _ _ _ _ _ _ hc => (by cases hc),
    fun _ _ _ _ _ hc => (by cases hc),
    fun _ _ _ _ _ hc => (by cases hc)⟩, ?_⟩
  refine h.setDevState (hm.writeBody hcount hwrite)
    (writeBody_frame hcount hwrite) hz
    (fun k hk => noteWrite_other _ _ _ _ g hk) ?_
  rw [noteWrite_self]
  exact (h.shows m).writeBody hcount hcopied hwrite

/-- One system call: the data survives it, and the abstract memories go on
agreeing with the driver. -/
theorem dataSurvives_step {s t : System × Journal} {c : Call} {o : Reply}
    (h : JournalInv s) (hstep : (driver.observe journal).step s c = some (t, o))
    (hcond : c.Smooth ∧ NothingToLose s.1 c o t.1) :
    DataSurvives s c o t ∧ JournalInv t := by
  obtain ⟨y, g⟩ := s
  obtain ⟨z, g'⟩ := t
  obtain ⟨hcall, rfl⟩ := Machine.observe_step.mp hstep
  obtain ⟨hsmooth, hcond⟩ := hcond
  have heff := effect_of_step hcall
  generalize hw : z.world = w at heff
  cases heff with
  | opened hopen =>
      obtain ⟨data, rfl⟩ := Option.ne_none_iff_exists'.mp hsmooth.2
      exact dataSurvives_opened h hcond hopen hw
  | openRefused => exact absurd hsmooth.1 (by decide)
  | @resumed f m fFlags s status hf hrest =>
      have hnote : journal g y (.wake f false true) (.openFile status) z =
          noteOpen m fFlags status g := by
        simp only [journal, hf]
      rw [hnote]
      exact dataSurvives_resumed h hf hrest hw
  | @wakeRefused f signalPending relocked =>
      have hnote : journal g y (.wake f signalPending relocked)
          (.openFile (.returned (-erestartsys))) z = g := by
        simp only [journal]
        split
        · exact noteOpen_failed g (by decide)
        · rfl
      rw [hnote]
      exact dataSurvives_same h hw (fun _ _ _ _ _ hc => by cases hc)
  | hasRead hf hrange hread => exact dataSurvives_read h hf hrange hread hw
  | @written f m fFlags fPos at? buf copy w hf hrange hwrite =>
      have hnote : journal g y (.write f at? buf true copy)
          (.write (at?.getD fPos) w.retval) z =
          noteWrite m (at?.getD fPos) w.retval buf (y.world.cddDev m) g := by
        simp only [journal, hf]
      rw [hnote]
      exact dataSurvives_written h (vfsRange_count hrange) hsmooth.2 hwrite hw
  | writeRefused => exact absurd hsmooth.1 (by decide)
  | seeked => exact dataSurvives_same h hw (fun _ _ _ _ _ hc => by cases hc)
  | queried => exact dataSurvives_same h hw (fun _ _ _ _ _ hc => by cases hc)
  | released => exact dataSurvives_same h hw (fun _ _ _ _ _ hc => by cases hc)

/-- In a run of calls that succeed in all they ask the kernel for, whose opens
have nothing to lose, the data of every device survives every call. -/
theorem everyStep_dataSurvives {e : InitEnv} (h : (cddInit e).1 = 0)
    {cs : List Call} (hsmooth : ∀ c ∈ cs, c.Smooth)
    (hcond : driver.EveryStep NothingToLose (loaded e) cs) :
    (driver.observe journal).EveryStep DataSurvives
      (loaded e, fun _ => Known.nothing) cs := by
  have hinit : JournalInv (loaded e, fun _ => Known.nothing) :=
    ⟨worldInv_loaded h, fun m => Shows.nothing _⟩
  exact Machine.everyStep_of_invariant dataSurvives_step hinit
    ((Machine.everyStep_observe _ hcond).and_forall_mem hsmooth)

theorem everyStep_dataSurvives_write_read :
    (driver.observe journal).EveryStep DataSurvives
      (loaded undisturbed, fun _ => Known.nothing)
      [.openFile 0 0 oRdwr true (some fun _ => 0), .write 0 none [65] true .whole,
        .read 0 (some 0) (fun _ => 0) 1 0] := by
  refine everyStep_dataSurvives cddInit_undisturbed ?_ ?_
  · simp [Call.Smooth]
  · intro y o _
    refine ⟨?_, fun z o _ => ⟨fun _ _ _ _ hc => (by cases hc), fun u o _ =>
      ⟨fun _ _ _ _ hc => (by cases hc), trivial⟩⟩⟩
    intro f m fFlags data hc
    simp only [Call.openFile.injEq] at hc
    obtain ⟨-, rfl, -⟩ := hc
    exact .inl (congrArg CDDdev.counter (loaded_cddDev cddInit_undisturbed 0))

/-- A byte written through one file is gone for a second file that opens the
device to read it. -/
theorem not_everyStep_dataSurvives_reopen :
    (cddInit undisturbed).1 = 0 ∧
      ¬ (driver.observe journal).EveryStep DataSurvives
        (loaded undisturbed, fun _ => Known.nothing)
        ([.openFile 0 0 oWronly true (some fun _ => 0),
          .write 0 none [65] true .whole,
          .openFile 1 0 oRdonly true (some fun _ => 0)] ++
          [.read 1 none (fun _ => 0) 1 0]) := by
  refine ⟨cddInit_undisturbed, fun hall => ?_⟩
  have hrun : (((driver.observe journal).exec
      (loaded undisturbed, fun _ => Known.nothing)
      [.openFile 0 0 oWronly true (some fun _ => 0),
        .write 0 none [65] true .whole,
        .openFile 1 0 oRdonly true (some fun _ => 0)]).bind fun s =>
      ((driver.observe journal).step s (.read 1 none (fun _ => 0) 1 0)).map
        fun t => (s.1.files 1, s.2 0 0,
          (match t.2 with
            | .read start r => (start, r.retval, r.buf 0)
            | _ => (0, 0, 0)))) =
      some (.opened 0 oRdonly 0, some 65, (0, 1, 0)) := by decide
  obtain ⟨s, hs, hmap⟩ := Option.bind_eq_some_iff.mp hrun
  obtain ⟨⟨t, o⟩, hstep, heq⟩ := Option.map_eq_some_iff.mp hmap
  simp only [Prod.mk.injEq] at heq
  obtain ⟨hfile, hnoted, hreply⟩ := heq
  have hlast := (hall.last (Machine.run_of_exec hs) hstep).1
  cases o with
  | read start r =>
      simp only [Prod.mk.injEq] at hreply
      obtain ⟨rfl, hretval, hbuf⟩ := hreply
      have hread := hlast 1 none (fun _ => 0) 1 0 0 r 0 oRdonly 0 rfl rfl hfile
        0 65 (by rw [hretval]; decide) hnoted
      rw [hbuf] at hread
      exact absurd hread (by decide)
  | _ => simp at hreply

end CddDriver
