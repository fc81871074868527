import CddDriver.ProcWrites
import Mathlib.Tactic.Common
/-!
# Writes that stay inside the value buffer

`writeproc_CDD2` clamps its count from above only, and a copy that falls short
leaves the value without the NUL that the other way out stores.
-/

namespace CddDriver

open Lib

/-! ## The law and its condition -/

/-- The offsets from `CDD_procvalue` that a write stores at. -/
def writtenIndices (buf : List Char) (copy : UserCopy) : List Int :=
  let fetched := copy.fetch (writeprocChunk buf)
  (List.range fetched.2.length).map (fun i : Nat => (i : Int)) ++
    if fetched.1 = 0 then [writeprocLength buf - 1] else []

/-- The write stores inside the 4096 bytes, and leaves a terminated value of
which at most 31 bytes are formatted, or the string that was there. -/
def StaysInside (m : Minor) (buf : List Char) (copy : UserCopy) (p : ProcState) :
    Prop :=
  (∀ i ∈ writtenIndices buf copy, 0 ≤ i ∧ i < procvalueSize) ∧
    ∃ retval q b, writeprocCDD2 (getDevname m) buf copy p = some (retval, q) ∧
      valueBlock q m = some b ∧ (∃ i < procvalueSize, b.data i = '\x00') ∧
      ((procvalueString q m).length ≤ 31 ∨
        procvalueString q m = procvalueString p m)

/-- The write has a character.  If its copy falls short, then a NUL is among
what is copied, or in the value behind that and before offset 32; or what is
copied is there already, in a value that is terminated. -/
def Contained (m : Minor) (buf : List Char) (copy : UserCopy) (p : ProcState) :
    Prop :=
  let fetched := copy.fetch (writeprocChunk buf)
  buf ≠ [] ∧
    (fetched.1 = 0 ∨ '\x00' ∈ fetched.2 ∨
      ∃ b, valueBlock p m = some b ∧
        ((∃ i < 32, fetched.2.length ≤ i ∧ b.data i = '\x00') ∨
          (∀ i, ∀ hi : i < fetched.2.length, b.data i = fetched.2[i]) ∧
            ∃ i < procvalueSize, b.data i = '\x00'))

/-! ## One copy -/

section Block

variable {b : Block Char} {xs : List Char}

theorem store_zero_nul_iff (hle : xs.length ≤ 32) :
    (∃ i ≤ 31, (b.store 0 xs).data i = '\x00') ↔
      '\x00' ∈ xs ∨ ∃ i < 32, xs.length ≤ i ∧ b.data i = '\x00' := by
  constructor
  · rintro ⟨i, hi, hnul⟩
    by_cases hin : i < xs.length
    · rw [b.store_start_inside hin] at hnul
      exact .inl (hnul ▸ List.getElem_mem hin)
    · rw [Block.store_start_outside _ (by omega)] at hnul
      exact .inr ⟨i, by omega, by omega, hnul⟩
  · rintro (hmem | ⟨i, hi, hout, hnul⟩)
    · obtain ⟨i, hin, hnul⟩ := List.getElem_of_mem hmem
      exact ⟨i, by omega, (b.store_start_inside hin).trans hnul⟩
    · exact ⟨i, by omega, (b.store_start_outside hout).trans hnul⟩

theorem store_zero_kept_iff (hsize : b.size = procvalueSize)
    (hle : xs.length ≤ 32) :
    ((∃ i < procvalueSize, (b.store 0 xs).data i = '\x00') ∧
        ((cString (b.store 0 xs)).length ≤ 31 ∨
          cString (b.store 0 xs) = cString b)) ↔
      '\x00' ∈ xs ∨ (∃ i < 32, xs.length ≤ i ∧ b.data i = '\x00') ∨
        (∀ i, ∀ hi : i < xs.length, b.data i = xs[i]) ∧
          ∃ i < procvalueSize, b.data i = '\x00' := by
  have hpage : procvalueSize = 4096 := rfl
  have hlt : 31 < (b.store 0 xs).size := by
    show 31 < b.size
    omega
  rw [cString_length_le_iff hlt, store_zero_nul_iff hle]
  constructor
  · rintro ⟨⟨j, hj, hnul⟩, hshort | hsame⟩
    · exact hshort.imp_right .inl
    by_cases hshort : '\x00' ∈ xs ∨ ∃ i < 32, xs.length ≤ i ∧ b.data i = '\x00'
    · exact hshort.imp_right .inl
    -- the string is longer than what was copied, so it shows all of that
    have hlong : 31 < (cString (b.store 0 xs)).length := by
      rw [← store_zero_nul_iff hle, ← cString_length_le_iff hlt] at hshort
      exact Nat.not_le.mp hshort
    refine .inr (.inr ⟨fun i hi => ?_, j, hj, ?_⟩)
    · rw [← b.store_start_inside hi,
        ← cString_getElem (b := b) (by rw [← hsame]; omega),
        ← cString_getElem (b := b.store 0 xs) (by omega)]
      simp only [hsame]
    · rw [← hnul, b.store_start_outside]
      by_contra hin
      rw [b.store_start_inside (Nat.not_le.mp hin)] at hnul
      exact hshort (.inl (hnul ▸ List.getElem_mem _))
  · rintro (hmem | hbehind | ⟨hsame, hterm⟩)
    · obtain ⟨i, hi, hnul⟩ := (store_zero_nul_iff hle).mpr (.inl hmem)
      exact ⟨⟨i, by omega, hnul⟩, .inl (.inl hmem)⟩
    · obtain ⟨i, hi, hnul⟩ := (store_zero_nul_iff hle).mpr (.inr hbehind)
      exact ⟨⟨i, by omega, hnul⟩, .inl (.inr hbehind)⟩
    · rw [Block.store_start_eq_self hsame]
      exact ⟨hterm, .inr rfl⟩

end Block

theorem writtenIndices_inside {buf : List Char} (hbuf : buf ≠ [])
    (hcount : buf.length ≤ maxRwCount) (copy : UserCopy) :
    ∀ i ∈ writtenIndices buf copy, 0 ≤ i ∧ i < procvalueSize := by
  have hpage : procvalueSize = 4096 := rfl
  have hpos := List.length_pos_iff.mpr hbuf
  have hle := copy.fetch_length_le (buf.take 32)
  rw [List.length_take] at hle
  unfold writtenIndices
  rw [writeprocChunk_eq hcount, writeprocLength_eq hcount]
  intro i hi
  rcases List.mem_append.mp hi with hi | hi
  · obtain ⟨j, hj, rfl⟩ := List.mem_map.mp hi
    have hj := List.mem_range.mp hj
    omega
  · split at hi
    · obtain rfl := List.mem_singleton.mp hi
      omega
    · cases hi

/-- In every state that a run from a load reaches, the next write to an entry
stays inside the value buffer exactly when it is contained. -/
theorem staysInside_iff_contained {e : InitEnv} (hload : (cddInit e).1 = 0)
    {cs : List ModuleCall} {y : System}
    (hrun : moduleDriver.Run (loaded e) cs y) (m : Minor) {buf : List Char}
    (hcount : buf.length ≤ maxRwCount) (copy : UserCopy) :
    StaysInside m buf copy y.world.proc ↔ Contained m buf copy y.world.proc := by
  have hinv := valuesInv_run hload hrun
  obtain ⟨b, hb, hsize⟩ := hinv.block m
  have hpage : procvalueSize = 4096 := rfl
  have hle := copy.fetch_length_le (buf.take 32)
  rw [List.length_take] at hle
  have hout := writeprocCDD2_outcome hinv hb hcount copy
  unfold StaysInside Contained
  rw [writeprocChunk_eq hcount]
  dsimp only
  generalize hwrite :
    writeprocCDD2 (getDevname m) buf copy y.world.proc = res at hout
  cases hout with
  | outside hnil =>
      refine iff_of_false ?_ fun h => h.1 hnil
      rintro ⟨-, _, _, _, h, -⟩
      cases h
  | @faulted q hleft hset =>
      have hbuf : buf ≠ [] := by
        rintro rfl
        exact hleft (by simp [UserCopy.fetch])
      have hinside := writtenIndices_inside hbuf hcount copy
      have hshort : (copy.fetch (buf.take 32)).2.length ≤ 32 := by omega
      have hkept := store_zero_kept_iff hsize hshort
      rw [procvalueString_eq hb, hb]
      simp only [hleft, hbuf, false_or, ne_eq, not_false_eq_true, true_and,
        Option.some.injEq, exists_eq_left']
      rw [← hkept]
      constructor
      · rintro ⟨-, _, _, c, heq, hc, hterm, hstring⟩
        obtain ⟨-, rfl⟩ := Prod.mk.inj heq
        obtain rfl := Option.some.inj (hset.block_self.symm.trans hc)
        rw [procvalueString_eq hset.block_self] at hstring
        exact ⟨hterm, hstring⟩
      · rintro ⟨hterm, hstring⟩
        refine ⟨hinside, _, q, _, rfl, hset.block_self, hterm, ?_⟩
        rwa [procvalueString_eq hset.block_self]
  | @stored q hbuf hleft hset =>
      have hchunk : (buf.take 32).length - 1 ≤ 31 := by
        rw [List.length_take]
        omega
      have hnul := terminated_data (buf.take 32) b
      refine iff_of_true ⟨writtenIndices_inside hbuf hcount copy, _, q, _, rfl,
        hset.block_self, ⟨_, by omega, hnul⟩, .inl ?_⟩ ⟨hbuf, .inl hleft⟩
      rw [procvalueString_eq hset.block_self, cString_length_le_iff]
      · exact ⟨_, hchunk, hnul⟩
      · show 31 < b.size
        omega

theorem staysInside_iff_contained_shorter :
    ∃ y, moduleDriver.exec (loaded undisturbed)
        [.writeproc 0 "My Word!".toList ⟨0, false⟩] = some y ∧
      StaysInside 0 "Ann".toList ⟨0, false⟩ y.world.proc := by
  have hgoes : (moduleDriver.exec (loaded undisturbed)
      [.writeproc 0 "My Word!".toList ⟨0, false⟩]).isSome = true := by decide
  obtain ⟨y, hexec⟩ := Option.isSome_iff_exists.mp hgoes
  have hcontained : Contained 0 "Ann".toList ⟨0, false⟩ y.world.proc :=
    ⟨by decide, .inl (by decide)⟩
  exact ⟨y, hexec, (staysInside_iff_contained cddInit_undisturbed
    (Machine.run_of_exec hexec) 0 (by decide) _).mpr hcontained⟩

/-- A write of no characters stores its NUL in front of the buffer. -/
theorem not_staysInside_empty :
    writtenIndices [] ⟨0, false⟩ = [-1] ∧
      ¬ StaysInside 0 [] ⟨0, false⟩ (loaded undisturbed).world.proc := by
  have hindices : writtenIndices [] ⟨0, false⟩ = [-1] := by decide
  refine ⟨hindices, fun h => ?_⟩
  have hfirst := h.1 (-1) (hindices ▸ List.mem_singleton_self _)
  exact absurd hfirst.1 (by decide)

end CddDriver
