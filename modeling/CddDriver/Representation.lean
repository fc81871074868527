import CddDriver.Invariant
import Mathlib.Tactic.Common
/-!
# Pointer, size and fill level of a device

The three fields agree in every state of a run exactly when no open of the run
fails to allocate on a device that already has a buffer: `CDD_open` stores the
null pointer over the old buffer and leaves `alloc_len` and `counter`.
-/

namespace CddDriver

open Lib

/-- The representation invariant: no buffer, no size and no content, or a live
buffer of `alloc_len` bytes that is filled up to `counter`. -/
def RepInv (s : DevState) : Prop :=
  (s.dev.cddStorage = none ∧ s.dev.allocLen = 0 ∧ s.dev.counter = 0) ∨
    ∃ p x, s.dev.cddStorage = some p ∧ s.heap[p]? = some x ∧
      x.releases = [] ∧ x.item.mem.size = s.dev.allocLen ∧
      s.dev.counter ≤ s.dev.allocLen

/-- An open fails to allocate only where there is no buffer to lose. -/
def NoBufferLost (y : System) (c : Call) (_ : Reply) (_ : System) : Prop :=
  ∀ f m fFlags, c = .openFile f m fFlags true none →
    (y.world.cddDev m).cddStorage = none

section Device

variable {major : Nat} {m : Minor} {s s' : DevState}

theorem repInv_iff_of_inv (h : DeviceInv major m s) :
    RepInv s ↔ (s.dev.cddStorage = none → s.dev.allocLen = 0) := by
  constructor
  · rintro (⟨-, hlen, -⟩ | ⟨p, x, hp, -⟩) hnone
    · exact hlen
    · rw [hp] at hnone
      cases hnone
  · intro hnull
    cases hp : s.dev.cddStorage with
    | none =>
        have hlen := hnull hp
        have hle := h.counter_le
        exact .inl ⟨hp, hlen, by omega⟩
    | some p =>
        obtain ⟨x, hx, hsize, hrel⟩ := h.storage_entry hp
        exact .inr ⟨p, x, hp, hx, hrel, hsize, h.counter_le⟩

theorem repInv_openBody {fresh : Option (Nat → Byte)} {fFlags : Nat}
    {status : OpenStatus} (h : DeviceInv major m s) (hrep : RepInv s)
    (hopen : openBody fresh fFlags s = some (s', status)) :
    RepInv s' ↔ (fresh = none → s.dev.cddStorage = none) := by
  rw [repInv_iff_of_inv (h.openBody hopen)]
  rw [repInv_iff_of_inv h] at hrep
  rcases openBody_cases h.minor_eq hopen with
    ⟨rfl, rfl, -⟩ | ⟨data, rfl, hrest⟩
  · constructor
    · intro hlen _
      have hzero : s.dev.allocLen = 0 := hlen rfl
      cases hp : s.dev.cddStorage with
      | none => rfl
      | some p =>
          have hpos := getStorageLength_pos m
          have hlen := (h.storage p hp).1
          omega
    · intro hnone _
      exact hrep (hnone rfl)
  · constructor
    · intro _ hfresh
      cases hfresh
    · intro _ hnone
      rw [(openRest_storage hrest).1] at hnone
      cases hnone

end Device

theorem repInv_of_untouched {w : World} {m k : Minor} {s : DevState}
    (hframe : Frame m (w.devState m) s) (hk : k ≠ m)
    (hinv : WorldInv w) (h : RepInv (w.devState k)) :
    RepInv ((w.setDevState m s).devState k) := by
  have hdev := w.cddDev_setDevState_ne s hk
  have hkeep : DeviceInv w.cddMajor k ((w.setDevState m s).devState k) :=
    (hinv.device k).of_shape_kept hdev fun _ _ hx => hframe.shape_kept hx
  rw [repInv_iff_of_inv hkeep]
  rw [repInv_iff_of_inv (hinv.device k)] at h
  simpa [World.devState, hdev] using h

/-- An operation on device `m` keeps the representation of all devices exactly
when it keeps that of `m`. -/
theorem repInv_setDevState {w : World} {m : Minor} {s : DevState}
    (hinv : WorldInv w) (hframe : Frame m (w.devState m) s)
    (h : ∀ k, RepInv (w.devState k)) :
    (∀ k, RepInv ((w.setDevState m s).devState k)) ↔ RepInv s := by
  constructor
  · intro hall
    have hm := hall m
    rwa [World.devState_setDevState_self] at hm
  · intro hm k
    by_cases hk : k = m
    · subst hk
      rwa [World.devState_setDevState_self]
    · exact repInv_of_untouched hframe hk hinv (h k)

theorem repInv_effect {y : System} {c : Call} {o : Reply} {w : World} (z : System)
    (hinv : WorldInv y.world) (h : ∀ k, RepInv (y.devState k))
    (heff : Effect y c o w) :
    (∀ k, RepInv (w.devState k)) ↔ NoBufferLost y c o z := by
  cases heff with
  | @opened _ m _ fresh s _ hopen =>
      have hm := hinv.device m
      rw [repInv_setDevState hinv (openBody_frame hm.minor_eq hopen) h,
        repInv_openBody hm (h m) hopen]
      constructor
      · intro hkeep f k fFlags hc
        simp only [Call.openFile.injEq] at hc
        obtain ⟨-, rfl, -, -, hnone⟩ := hc
        exact hkeep hnone
      · rintro hkeep rfl
        exact hkeep _ m _ rfl
  | @resumed _ m _ _ _ _ hrest =>
      have hm := hinv.device m
      rw [repInv_setDevState hinv (openRest_frame hrest) h,
        repInv_iff_of_inv (hm.openRest hrest)]
      refine iff_of_true ?_ (fun _ _ _ hc => by cases hc)
      obtain ⟨hstorage, hlen⟩ := openRest_storage hrest
      rw [hstorage, hlen]
      exact (repInv_iff_of_inv hm).mp (h m)
  | @written _ m _ _ _ _ _ w _ hrange hwrite =>
      have hm := hinv.device m
      have hcount := vfsRange_count hrange
      rw [repInv_setDevState hinv (writeBody_frame hcount hwrite) h,
        repInv_iff_of_inv (hm.writeBody hcount hwrite)]
      refine iff_of_true ?_ (fun _ _ _ hc => by cases hc)
      obtain ⟨hstorage, hlen⟩ := writeBody_storage hcount hwrite
      rw [hstorage, hlen]
      exact (repInv_iff_of_inv hm).mp (h m)
  | _ => exact iff_of_true h (fun _ _ _ hc => by cases hc)

/-- The representation invariant holds in every state of a run exactly when
no open of the run loses a buffer to a failed allocation. -/
theorem everyState_repInv_iff {e : InitEnv} (h : (cddInit e).1 = 0)
    (cs : List Call) :
    driver.EveryState (fun y => ∀ m, RepInv (y.devState m)) (loaded e) cs ↔
      driver.EveryStep NoBufferLost (loaded e) cs := by
  refine Machine.everyState_iff_everyStep (I := fun y => WorldInv y.world)
    WorldInv.step ?_ (worldInv_loaded h) ?_
  · intro y c z o hinv hrep hstep
    exact repInv_effect z hinv hrep (effect_of_step hstep)
  · intro m
    refine (repInv_iff_of_inv ((worldInv_loaded h).device m)).mpr ?_
    intro _
    exact congrArg CDDdev.allocLen (loaded_cddDev h m)

theorem everyState_repInv_one_open :
    driver.EveryState (fun y => ∀ m, RepInv (y.devState m)) (loaded undisturbed)
        [.openFile 0 0 oWronly true (some fun _ => 0)] ↔
      driver.EveryStep NoBufferLost (loaded undisturbed)
        [.openFile 0 0 oWronly true (some fun _ => 0)] :=
  everyState_repInv_iff cddInit_undisturbed _

/-- A second open that fails with `-ENOMEM` leaves the null pointer with
`alloc_len = 4096`. -/
theorem not_everyState_repInv_failed_reopen :
    (cddInit undisturbed).1 = 0 ∧
      ¬ driver.EveryState (fun y => ∀ m, RepInv (y.devState m))
        (loaded undisturbed)
        [.openFile 0 0 oWronly true (some fun _ => 0),
          .openFile 1 0 oWronly true none] := by
  refine ⟨cddInit_undisturbed, fun hall => ?_⟩
  have hfields : (driver.exec (loaded undisturbed)
      [.openFile 0 0 oWronly true (some fun _ => 0),
        .openFile 1 0 oWronly true none]).map
      (fun y => ((y.devState 0).dev.cddStorage, (y.devState 0).dev.allocLen)) =
        some (none, 4096) := by decide
  obtain ⟨y, hy, heq⟩ := Option.map_eq_some_iff.mp hfields
  simp only [Prod.mk.injEq] at heq
  rcases hall.last (Machine.run_of_exec hy) 0 with ⟨-, hlen, -⟩ | ⟨p, x, hp, -⟩
  · omega
  · rw [hp] at heq
    cases heq.1

end CddDriver
