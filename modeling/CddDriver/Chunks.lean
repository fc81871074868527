import CddDriver.Files
import CddDriver.Reopen
import CddDriver.UserCopies
import Mathlib.Tactic.Common
/-!
# What is written in chunks is read back in chunks

One file is opened for reading and writing with truncation, filled in chunks
of any size, rewound and read in chunks of any other size.  Other processes
may do what they like except open or write the same device.
-/

namespace CddDriver

open Lib

/-! ## One file among others -/

def Call.Passes (f : Nat) (m : Minor) (y : System) (c : Call) : Prop :=
  c.file ≠ f ∧
    match c with
    | .openFile _ k _ _ _ => k ≠ m
    | .wake g _ _ => ∀ fFlags, y.files g ≠ .opening m fFlags
    | .write g _ _ _ _ => ∀ fFlags fPos, y.files g ≠ .opened m fFlags fPos
    | _ => True

/-- From `y` on, the chunks have been written through the file `f`, in order
and with all bytes copied, whatever became of each. -/
inductive Writes (f : Nat) (m : Minor) (y : System) :
    List (List Byte) → System → Prop where
  | start : Writes f m y [] y
  | others {chunks : List (List Byte)} {z u : System} {c : Call} {o : Reply} :
      Writes f m y chunks z → c.Passes f m z → driver.step z c = some (u, o) →
      Writes f m y chunks u
  | chunk {chunks : List (List Byte)} {z u : System} {chunk : List Byte}
      {copy : UserCopy} {o : Reply} :
      Writes f m y chunks z → chunk.length ≤ maxRwCount → copy.uncopied = 0 →
      driver.step z (.write f none chunk true copy) = some (u, o) →
      Writes f m y (chunks ++ [chunk]) u

def ReadResult.bytes (r : ReadResult) : List Byte :=
  (List.range r.retval.toNat).map r.buf

/-- From `y` on, reads of positive sizes through the file `f` have returned
the bytes, and the last one ended with a 0 or not. -/
inductive Reads (f : Nat) (m : Minor) (y : System) :
    List Byte → Bool → System → Prop where
  | start : Reads f m y [] false y
  | others {bytes : List Byte} {ended : Bool} {z u : System} {c : Call}
      {o : Reply} :
      Reads f m y bytes ended z → c.Passes f m z →
      driver.step z c = some (u, o) → Reads f m y bytes ended u
  | read {bytes : List Byte} {ended : Bool} {z u : System} {buf : Nat → Byte}
      {count : Nat} {start : Int} {r : ReadResult} :
      Reads f m y bytes ended z → 0 < count →
      driver.step z (.read f none buf count 0) = some (u, .read start r) →
      Reads f m y (bytes ++ r.bytes) (r.retval = 0) u

/-- The chunks that fit after those accepted before, put together. -/
def accepted (capacity : Nat) (chunks : List (List Byte)) : List Byte :=
  chunks.foldl (fun bytes chunk =>
    if bytes.length + chunk.length ≤ capacity then bytes ++ chunk else bytes) []

theorem accepted_append (capacity : Nat) (chunks : List (List Byte))
    (chunk : List Byte) :
    accepted capacity (chunks ++ [chunk]) =
      if (accepted capacity chunks).length + chunk.length ≤ capacity then
        accepted capacity chunks ++ chunk
      else accepted capacity chunks := by
  unfold accepted
  rw [List.foldl_append]
  rfl

/-- The next chunk is accepted exactly when it fits; otherwise nothing
changes. -/
def WritesNext (f : Nat) (capacity : Nat) (bytes : List Byte) (y : System) :
    Prop :=
  ∀ (chunk : List Byte) (copy : UserCopy), chunk.length ≤ maxRwCount →
    copy.uncopied = 0 →
    ∃ z r, driver.step y (.write f none chunk true copy) =
        some (z, .write bytes.length r) ∧
      if bytes.length + chunk.length ≤ capacity then r = chunk.length
      else r = -efault ∧ z = y

/-- The next read of a positive size returns 0 exactly when all is read. -/
def ReadsNext (f : Nat) (bytes returned : List Byte) (y : System) : Prop :=
  ∀ (buf : Nat → Byte) (count : Nat), 0 < count → count ≤ maxRwCount →
    ∃ z r, driver.step y (.read f none buf count 0) =
        some (z, .read returned.length r) ∧
      r.bytes.length = r.retval ∧ (r.retval = 0 ↔ returned = bytes)

/-! ## What the other processes leave alone -/

section Others

variable {f : Nat} {m : Minor} {y z : System} {c : Call} {o : Reply}

theorem Call.Passes.frame (hc : c.Passes f m y) (h : WorldInv y.world)
    (hstep : driver.step y c = some (z, o)) :
    z.files f = y.files f ∧ z.world.cddDev m = y.world.cddDev m ∧
      ∀ i v, (y.devState m).byteAt i = some v →
        (z.devState m).byteAt i = some v := by
  refine ⟨step_files_ne hstep hc.1, ?_⟩
  -- an operation on another device
  have hother : ∀ {k : Minor} {s : DevState}, m ≠ k →
      Frame k (y.devState k) s → z.world = y.world.setDevState k s →
      z.world.cddDev m = y.world.cddDev m ∧
        ∀ i v, (y.devState m).byteAt i = some v →
          (z.devState m).byteAt i = some v := by
    intro k s hk hframe hz
    unfold System.devState
    rw [hz]
    exact ⟨y.world.cddDev_setDevState_ne s hk,
      fun i v hv => byteAt_of_frame h hframe hk hv⟩
  have heff := effect_of_step hstep
  generalize hz : z.world = w at heff
  cases heff with
  | @opened _ k _ _ _ _ hopen =>
      exact hz ▸ hother (Ne.symm hc.2) (openBody_frame (h.device k).minor_eq hopen) hz
  | @resumed _ k fFlags _ _ hslot hrest =>
      have hk : m ≠ k := by
        rintro rfl
        exact hc.2 fFlags hslot
      exact hz ▸ hother hk (openRest_frame hrest) hz
  | @written _ k fFlags fPos _ _ _ _ hslot hrange hwrite =>
      have hk : m ≠ k := by
        rintro rfl
        exact hc.2 fFlags fPos hslot
      exact hz ▸ hother hk (writeBody_frame (vfsRange_count hrange) hwrite) hz
  | _ =>
      unfold System.devState
      rw [hz]
      exact ⟨rfl, fun _ _ hv => hv⟩

end Others

/-! ## The file and the device between two calls -/

structure Filled (f : Nat) (m : Minor) (fFlags : Nat) (bytes : List Byte)
    (pos : Nat) (y : System) : Prop where
  world : WorldInv y.world
  slot : y.files f = .opened m fFlags pos
  storage : ∃ p, (y.world.cddDev m).cddStorage = some p
  counter : (y.world.cddDev m).counter = bytes.length
  content : ∀ i v, bytes[i]? = some v → (y.devState m).byteAt i = some v

section Filled

variable {f : Nat} {m : Minor} {fFlags : Nat} {bytes : List Byte} {pos : Nat}
  {y z : System} {c : Call} {o : Reply}

theorem filled_setDevState {s : DevState}
    (hworld : WorldInv
      ((y.setDevState m s).setFile f (.opened m fFlags pos)).world)
    (hstorage : ∃ p, s.dev.cddStorage = some p)
    (hcounter : s.dev.counter = bytes.length)
    (hcontent : ∀ i v, bytes[i]? = some v → s.byteAt i = some v) :
    Filled f m fFlags bytes pos
      ((y.setDevState m s).setFile f (.opened m fFlags pos)) := by
  have hs : ((y.setDevState m s).setFile f (.opened m fFlags pos)).devState m = s :=
    World.devState_setDevState_self y.world m s
  have hdev := congrArg DevState.dev hs
  refine ⟨hworld, Function.update_self _ _ _, ?_, ?_, ?_⟩
  · exact hstorage.imp fun p hp => (congrArg CDDdev.cddStorage hdev).trans hp
  · exact (congrArg CDDdev.counter hdev).trans hcounter
  · intro i v hv
    rw [hs]
    exact hcontent i v hv

theorem Filled.others (h : Filled f m fFlags bytes pos y)
    (hc : c.Passes f m y) (hstep : driver.step y c = some (z, o)) :
    Filled f m fFlags bytes pos z := by
  obtain ⟨hfile, hdev, hbytes⟩ := hc.frame h.world hstep
  refine ⟨h.world.step hstep, hfile.trans h.slot, ?_, ?_, ?_⟩
  · rw [hdev]
    exact h.storage
  · rw [hdev]
    exact h.counter
  · exact fun i v hv => hbytes i v (h.content i v hv)

theorem Filled.buffered (h : Filled f m fFlags bytes pos y) :
    ∃ b, Buffered (y.devState m) b := by
  obtain ⟨p, hp⟩ := h.storage
  exact (h.world.device m).buffered hp

theorem Filled.allocLen (h : Filled f m fFlags bytes pos y) :
    (y.world.cddDev m).allocLen = getStorageLength m := by
  obtain ⟨p, hp⟩ := h.storage
  exact ((h.world.device m).storage p hp).1

theorem Filled.length_le (h : Filled f m fFlags bytes pos y) :
    bytes.length ≤ getStorageLength m := by
  have hle := (h.world.device m).counter_le
  rw [← h.counter, ← h.allocLen]
  exact hle

theorem Filled.vfsRange (h : Filled f m fFlags bytes pos y)
    (hpos : pos ≤ bytes.length) {count : Nat} (hcount : count ≤ maxRwCount) :
    vfsRange (pos : Int) count = true := by
  have hle := h.length_le
  have hlen := getStorageLength_le m
  refine vfsRange_eq_true.mpr ⟨by omega, hcount, ?_⟩
  unfold maxRwCount at hcount
  omega

/-! ### Writing -/

theorem Filled.writePos (h : Filled f m fFlags bytes bytes.length y) :
    writePos (y.devState m).dev (bytes.length : Nat) = (bytes.length : Nat) := by
  have hcounter : (y.devState m).dev.counter = bytes.length := h.counter
  have hle := h.length_le
  have hlen := getStorageLength_le m
  unfold CddDriver.writePos
  rw [hcounter, ite_self]
  exact wrapS_eq_self (by omega) (by omega) (by omega)

theorem Filled.write_refused (h : Filled f m fFlags bytes bytes.length y)
    {chunk : List Byte} (hcount : chunk.length ≤ maxRwCount)
    (hfull : getStorageLength m < bytes.length + chunk.length)
    (copy : UserCopy) :
    driver.step y (.write f none chunk true copy) =
      some (y, .write bytes.length (-efault)) := by
  have hrange := h.vfsRange (le_refl _) hcount
  have hfull : (y.devState m).dev.allocLen < bytes.length + chunk.length := by
    rw [show (y.devState m).dev.allocLen = getStorageLength m from h.allocLen]
    exact hfull
  have hwrite : cddWrite true chunk copy bytes.length (y.devState m) = _ :=
    writeBody_refused h.writePos hcount hfull
  rw [step_write h.slot hrange hwrite]
  simp only [System.setDevState, System.setFile, System.devState,
    World.setDevState_devState]
  rw [← h.slot, Function.update_eq_self]

theorem Filled.write_fits (h : Filled f m fFlags bytes bytes.length y)
    {chunk : List Byte} (hcount : chunk.length ≤ maxRwCount)
    (hfits : bytes.length + chunk.length ≤ getStorageLength m)
    {copy : UserCopy} (hcopied : copy.uncopied = 0) :
    ∃ z, driver.step y (.write f none chunk true copy) =
        some (z, .write bytes.length chunk.length) ∧
      Filled f m fFlags (bytes ++ chunk) (bytes ++ chunk).length z := by
  obtain ⟨b, hb⟩ := h.buffered
  have hrange := h.vfsRange (le_refl _) hcount
  have hfits' : bytes.length + chunk.length ≤ (y.devState m).dev.allocLen := by
    rw [show (y.devState m).dev.allocLen = getStorageLength m from h.allocLen]
    exact hfits
  obtain ⟨t, ht, hwrite⟩ := hb.live.writeBody_fits hcopied h.writePos hcount hfits'
  have hstep : driver.step y (.write f none chunk true copy) = _ :=
    step_write h.slot hrange hwrite
  have hadd : toLong (bytes.length + chunk.length) =
      ((bytes ++ chunk).length : Nat) := by
    have hlen := getStorageLength_le m
    calc toLong (bytes.length + chunk.length)
        = bytes.length + chunk.length :=
          wrapS_eq_self (by omega) (by omega) (by omega)
      _ = ((bytes ++ chunk).length : Nat) := by simp
  rw [hadd] at hstep
  have hcounter : (y.devState m).dev.counter = bytes.length := h.counter
  have hsame : ∀ i, (DevState.mk { (y.devState m).dev with
      counter := max (y.devState m).dev.counter (bytes.length + chunk.length) }
      t.heap).byteAt i = t.byteAt i :=
    byteAt_congr (congrArg CDDdev.cddStorage (DevState.poke_dev ht)).symm rfl
  refine ⟨_, hstep, filled_setDevState (h.world.step hstep) h.storage ?_ ?_⟩
  · simp [hcounter]
  · intro i v hv
    rw [hsame]
    by_cases hi : i < bytes.length
    · rw [List.getElem?_append_left hi] at hv
      rw [DevState.poke_byteAt_outside ht (.inl hi)]
      exact h.content i v hv
    · obtain ⟨j, rfl⟩ : ∃ j, i = bytes.length + j := ⟨i - bytes.length, by omega⟩
      rw [List.getElem?_append_right (by omega), Nat.add_sub_cancel_left] at hv
      obtain ⟨hj, rfl⟩ := List.getElem?_eq_some_iff.mp hv
      exact DevState.poke_byteAt_inside ht hj

/-! ### Reading -/

theorem Filled.seek (h : Filled f m fFlags bytes pos y) :
    ∃ z, driver.step y (.llseek f 0 seekSet) = some (z, .llseek 0) ∧
      Filled f m fFlags bytes 0 z := by
  have hseek : cddLlseek pos 0 seekSet (y.world.cddDev m) = (0, 0) := by
    simp [cddLlseek, wrapS, wrapU]
  have hstep : driver.step y (.llseek f 0 seekSet) =
      some (y.setFile f (.opened m fFlags 0), .llseek 0) := by
    show y.call (.llseek f 0 seekSet) = _
    simp only [System.call, h.slot, hseek]
  exact ⟨_, hstep, h.world, Function.update_self _ _ _, h.storage, h.counter,
    h.content⟩

theorem Filled.read (h : Filled f m fFlags bytes pos y)
    (hpos : pos ≤ bytes.length) {count : Nat} (hcount : count ≤ maxRwCount)
    (buf : Nat → Byte) :
    ∃ z r, driver.step y (.read f none buf count 0) = some (z, .read pos r) ∧
      r.retval = min count (bytes.length - pos) ∧
      r.bytes = (bytes.drop pos).take count ∧
      Filled f m fFlags bytes (pos + min count (bytes.length - pos)) z := by
  obtain ⟨b, hb⟩ := h.buffered
  have hrange := h.vfsRange hpos hcount
  have hcounter : (y.devState m).dev.counter = bytes.length := h.counter
  have hread := hb.readBody_eq hrange buf
  have hn : delivered (y.devState m).dev pos count =
      min count (bytes.length - pos) := by
    unfold delivered
    omega
  rw [hn] at hread
  generalize hlen : min count (bytes.length - pos) = n at hread ⊢
  have hstep : driver.step y (.read f none buf count 0) = some
      (y.setFile f (.opened m fFlags (pos + n)), .read pos
        ⟨n, pos + n, fun i =>
          if i < n then b.mem.data ((pos : Int).toNat + i)
          else if i = n ∧ i ≠ 0 then 0 else buf i⟩) := by
    show y.call (.read f none buf count 0) = _
    simp only [System.call, h.slot, Option.getD_none, hrange, if_true, cddRead,
      hread, Option.map_some]
    rfl
  have hslot : (y.setFile f (.opened m fFlags (pos + n))).files f =
      .opened m fFlags ((pos + n : Nat) : Int) := by
    rw [Int.natCast_add]
    exact Function.update_self _ _ _
  refine ⟨_, _, hstep, rfl, ?_, h.world, hslot, h.storage, h.counter, h.content⟩
  apply List.ext_getElem
  · simp [ReadResult.bytes, hlen]
  · intro i hi hi'
    have hin : i < n := by simpa [ReadResult.bytes] using hi
    have hbyte := h.content (pos + i) _ (List.getElem?_eq_getElem (by omega))
    simp only [DevState.byteAt, hb.buffer, Option.map_some,
      Option.some.injEq] at hbyte
    simp [ReadResult.bytes, hin, hbyte]

/-! ### Opening -/

theorem filled_open (h : WorldInv y.world) (hf : y.files f = .closed)
    (hwrite : fFlags &&& oAccmode ≠ oRdonly)
    (htrunc : hasFlag fFlags oTrunc = true) (data : Nat → Byte) :
    ∃ z, driver.step y (.openFile f m fFlags true (some data)) =
        some (z, .openFile (.returned 0)) ∧
      Filled f m fFlags [] 0 z := by
  have hdevice := (h.device m).allocated data
  obtain ⟨x, hx, hsize, -⟩ := hdevice.storage_entry rfl
  have hlen := getStorageLength_pos m
  have hfits : 0 + [(0 : Byte)].length ≤ x.item.mem.size := by
    rw [hsize]
    exact hlen
  obtain ⟨t, ht⟩ := DevState.poke_eq_some
    (s := ⟨countOpen (allocated data m (y.devState m)).dev,
      (allocated data m (y.devState m)).heap⟩) rfl hx hfits
  obtain ⟨s, hs⟩ : ∃ s, openCommit fFlags (allocated data m (y.devState m)) =
      some s := by
    simp [openCommit, htrunc, ht]
  have hopen : cddOpen true (some data) fFlags (y.devState m) =
      some (s, .returned 0) := by
    show openBody (some data) fFlags (y.devState m) = _
    have hminor : minorOf (y.devState m).dev.devno = m := (h.device m).minor_eq
    rw [openBody_some hminor, openRest, waitHead,
      contentIsUnavailable_writer hwrite]
    simp [hs]
  have hstep : driver.step y (.openFile f m fFlags true (some data)) =
      some ((y.setDevState m s).setFile f (.opened m fFlags (0 : Nat)),
        .openFile (.returned 0)) := step_openFile hf hopen
  have hdev := openCommit_dev hs
  refine ⟨_, hstep, filled_setDevState (h.step hstep)
    ⟨(y.devState m).heap.length, ?_⟩ ?_ ?_⟩
  · rw [hdev]
    rfl
  · rw [hdev]
    simp [committed, htrunc]
  · intro i v hv
    simp at hv

end Filled

/-! ## The two halves of a session -/

section Session

variable {f : Nat} {m : Minor} {fFlags : Nat} {bytes : List Byte}
  {chunks : List (List Byte)} {y z u : System} {o : Reply}

theorem Filled.chunk (h : Filled f m fFlags bytes bytes.length y)
    {chunk : List Byte} (hcount : chunk.length ≤ maxRwCount)
    {copy : UserCopy} (hcopied : copy.uncopied = 0)
    (hstep : driver.step y (.write f none chunk true copy) = some (z, o)) :
    ∃ next, next = (if bytes.length + chunk.length ≤ getStorageLength m then
        bytes ++ chunk else bytes) ∧
      Filled f m fFlags next next.length z := by
  refine ⟨_, rfl, ?_⟩
  split
  · next hfits =>
      obtain ⟨v, hv, hfilled⟩ := h.write_fits hcount hfits hcopied
      obtain ⟨rfl, -⟩ := Prod.mk.inj (Option.some.inj (hstep.symm.trans hv))
      exact hfilled
  · next hfull =>
      have hv := h.write_refused hcount (Nat.not_le.mp hfull) copy
      obtain ⟨rfl, -⟩ := Prod.mk.inj (Option.some.inj (hstep.symm.trans hv))
      exact h

theorem Writes.filled (h : Writes f m y chunks z)
    (hy : Filled f m fFlags [] 0 y) :
    Filled f m fFlags (accepted (getStorageLength m) chunks)
      (accepted (getStorageLength m) chunks).length z := by
  induction h with
  | start => exact hy
  | others _ hc hstep ih => exact ih.others hc hstep
  | chunk _ hcount hcopied hstep ih =>
      obtain ⟨next, hnext, hfilled⟩ := ih.chunk hcount hcopied hstep
      rw [accepted_append, ← hnext]
      exact hfilled

theorem Filled.writesNext (h : Filled f m fFlags bytes bytes.length y) :
    WritesNext f (y.world.cddDev m).allocLen bytes y := by
  intro chunk copy hcount hcopied
  rw [h.allocLen]
  split
  · next hfits =>
      obtain ⟨z, hz, -⟩ := h.write_fits hcount hfits hcopied
      exact ⟨z, _, hz, rfl⟩
  · next hfull =>
      exact ⟨y, _, h.write_refused hcount (Nat.not_le.mp hfull) copy, rfl, rfl⟩

theorem Reads.filled {returned : List Byte} {ended : Bool}
    (h : Reads f m y returned ended z) (hy : Filled f m fFlags bytes 0 y) :
    ∃ pos, Filled f m fFlags bytes pos z ∧ pos ≤ bytes.length ∧
      returned = bytes.take pos ∧ (ended = true → pos = bytes.length) := by
  induction h with
  | start => exact ⟨0, hy, Nat.zero_le _, rfl, fun hended => by cases hended⟩
  | others _ hc hstep ih =>
      obtain ⟨pos, hpos, hrest⟩ := ih
      exact ⟨pos, hpos.others hc hstep, hrest⟩
  | @read _ _ z u buf count start r _ hcount hstep ih =>
      obtain ⟨pos, hpos, hle, rfl, -⟩ := ih
      have hlimit : count ≤ maxRwCount := by
        have heff := effect_of_step hstep
        generalize u.world = w at heff
        cases heff with
        | hasRead _ hrange _ => exact vfsRange_count hrange
      obtain ⟨v, r', hread, hretval, hbytes, hfilled⟩ := hpos.read hle hlimit buf
      obtain ⟨rfl, hreply⟩ := Prod.mk.inj (Option.some.inj (hstep.symm.trans hread))
      obtain ⟨-, rfl⟩ := Reply.read.inj hreply
      refine ⟨_, hfilled, by omega, ?_, fun hended => ?_⟩
      · have hclamp : (bytes.drop pos).take count =
            (bytes.drop pos).take (min count (bytes.length - pos)) := by
          rw [List.take_eq_take_iff, List.length_drop]
          omega
        rw [hbytes, hclamp, List.take_add]
      · have hzero := of_decide_eq_true hended
        omega

theorem Filled.readsNext {pos : Nat} (h : Filled f m fFlags bytes pos y)
    (hpos : pos ≤ bytes.length) : ReadsNext f bytes (bytes.take pos) y := by
  intro buf count hcount hlimit
  obtain ⟨z, r, hread, hretval, hbytes, -⟩ := h.read hpos hlimit buf
  have hlength : (bytes.take pos).length = pos := List.length_take_of_le hpos
  refine ⟨z, r, by rw [hlength]; exact hread, ?_, ?_⟩
  · rw [hbytes, hretval, List.length_take, List.length_drop]
  · rw [List.take_eq_self_iff]
    omega

end Session

/-- Whatever the chunks, those that fit are accepted and read back in order,
whatever the sizes of the reads; and a chunk that does not fit changes
nothing. -/
theorem chunks_readBack {e : InitEnv} (h : (cddInit e).1 = 0) {cs : List Call}
    {y : System} (hrun : driver.Run (loaded e) cs y) {f : Nat}
    (hf : y.files f = .closed) (m : Minor) {fFlags : Nat}
    (hrdwr : fFlags &&& oAccmode = oRdwr) (htrunc : hasFlag fFlags oTrunc = true)
    (data : Nat → Byte) :
    ∃ z, driver.step y (.openFile f m fFlags true (some data)) =
        some (z, .openFile (.returned 0)) ∧
      ∀ chunks u, Writes f m z chunks u →
        WritesNext f (u.world.cddDev m).allocLen
            (accepted (u.world.cddDev m).allocLen chunks) u ∧
          ∃ v, driver.step u (.llseek f 0 seekSet) = some (v, .llseek 0) ∧
            ∀ returned ended w, Reads f m v returned ended w →
              ReadsNext f (accepted (u.world.cddDev m).allocLen chunks) returned w ∧
              (ended = true →
                returned = accepted (u.world.cddDev m).allocLen chunks ∧
                w.files f =
                  .opened m fFlags (w.world.cddDev m).counter) := by
  have hwrite : fFlags &&& oAccmode ≠ oRdonly := by
    rw [hrdwr]
    decide
  obtain ⟨z, hopen, hz⟩ := filled_open (m := m) (worldInv_run h hrun) hf hwrite
    htrunc data
  refine ⟨z, hopen, fun chunks u hwrites => ?_⟩
  have hu := hwrites.filled hz
  rw [hu.allocLen]
  refine ⟨hu.allocLen ▸ hu.writesNext, ?_⟩
  obtain ⟨v, hseek, hv⟩ := hu.seek
  refine ⟨v, hseek, fun returned ended w hreads => ?_⟩
  obtain ⟨pos, hw, hle, rfl, hend⟩ := hreads.filled hv
  refine ⟨hw.readsNext hle, fun hended => ?_⟩
  obtain rfl := hend hended
  refine ⟨List.take_length, ?_⟩
  rw [hw.counter]
  exact hw.slot

def Reply.readResult? : Reply → Option ReadResult
  | .read _ r => some r
  | _ => none

theorem Reply.readResult?_eq_some {o : Reply} {r : ReadResult} :
    o.readResult? = some r ↔ ∃ start, o = .read start r := by
  cases o <;> simp [readResult?]

theorem chunks_readBack_two_bytes :
    ∃ z u v w, driver.step (loaded undisturbed)
        (.openFile 0 1 (oRdwr ||| oTrunc) true (some fun _ => 0)) =
          some (z, .openFile (.returned 0)) ∧
      Writes 0 1 z [[65, 66]] u ∧
      driver.step u (.llseek 0 0 seekSet) = some (v, .llseek 0) ∧
      Reads 0 1 v [65, 66] true w := by
  obtain ⟨z, hopen, hall⟩ := @chunks_readBack undisturbed cddInit_undisturbed []
    _ (.nil _) 0 rfl 1 (oRdwr ||| oTrunc) (by decide) (by decide) fun _ => 0
  have hrun : ((driver.step (loaded undisturbed)
      (.openFile 0 1 (oRdwr ||| oTrunc) true (some fun _ => 0))).bind fun z =>
      (driver.step z.1 (.write 0 none [65, 66] true .whole)).bind fun u =>
      (driver.step u.1 (.llseek 0 0 seekSet)).bind fun v =>
      (driver.step v.1 (.read 0 none (fun _ => 7) 5 0)).bind fun w =>
      (driver.step w.1 (.read 0 none (fun _ => 7) 3 0)).bind fun x =>
      w.2.readResult?.bind fun _ => x.2.readResult?.map fun r =>
        ((u.1.world.cddDev 1).allocLen, r.retval)) = some (16, 0) := by decide
  rw [hopen, Option.bind_some] at hrun
  obtain ⟨⟨u, _⟩, hwrite, hrun⟩ := Option.bind_eq_some_iff.mp hrun
  obtain ⟨⟨v, _⟩, hseek, hrun⟩ := Option.bind_eq_some_iff.mp hrun
  obtain ⟨⟨w, _⟩, hfirst, hrun⟩ := Option.bind_eq_some_iff.mp hrun
  obtain ⟨⟨x, _⟩, hlast, hrun⟩ := Option.bind_eq_some_iff.mp hrun
  obtain ⟨r, hr, hrun⟩ := Option.bind_eq_some_iff.mp hrun
  obtain ⟨q, hq, heq⟩ := Option.map_eq_some_iff.mp hrun
  obtain ⟨_, rfl⟩ := Reply.readResult?_eq_some.mp hr
  obtain ⟨_, rfl⟩ := Reply.readResult?_eq_some.mp hq
  obtain ⟨hcapacity, hend⟩ := Prod.mk.inj heq
  have hwrites : Writes 0 1 z [[65, 66]] u := .chunk .start (by decide) rfl hwrite
  obtain ⟨-, v', hseek', hreads⟩ := hall _ u hwrites
  obtain ⟨rfl, -⟩ := Prod.mk.inj (Option.some.inj (hseek.symm.trans hseek'))
  have hsession : Reads 0 1 v _ _ x :=
    .read (.read .start (by decide) hfirst) (by decide) hlast
  rw [hend] at hsession
  obtain ⟨-, hback⟩ := hreads _ _ x hsession
  rw [(hback rfl).1, hcapacity] at hsession
  exact ⟨z, u, v, x, hopen, hwrites, hseek', hsession⟩

end CddDriver
