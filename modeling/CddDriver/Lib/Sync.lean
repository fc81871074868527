import CddDriver.Lib.LockTrace
import Mathlib.Logic.Function.Basic
import Mathlib.Tactic.Common
/-!
# Reader-writer semaphores and wait queues

The state of a reader-writer semaphore and of a wait queue that many users
share, driven by the events of `LockTrace`.  A semaphore reflects what its
users think they hold as long as each of them acquires only what the semaphore
grants; a queue always does.
-/

namespace CddDriver.Lib

/-- The user that holds the semaphore for writing and those that hold it for
reading. -/
structure RwSem (ι : Type) where
  writer : Option ι
  readers : List ι

namespace RwSem

variable {ι : Type}

def free : RwSem ι := ⟨none, []⟩

/-- Whether an attempt to acquire the semaphore in a mode succeeds now. -/
def grants (sem : RwSem ι) : LockMode → Bool
  | .write => sem.writer.isNone && sem.readers.isEmpty
  | .read => sem.writer.isNone

def apply [DecidableEq ι] (sem : RwSem ι) (p : ι) : SyncEvent → RwSem ι
  | .acquire .write => { sem with writer := some p }
  | .acquire .read => { sem with readers := p :: sem.readers }
  | .release .write => { sem with writer := none }
  | .release .read => { sem with readers := sem.readers.erase p }
  | _ => sem

/-- The semaphore knows of each user the mode in which it holds it, and a
writer excludes all others. -/
structure Reflects (sem : RwSem ι) (held : ι → Option LockMode) : Prop where
  writer : ∀ p, held p = some .write ↔ sem.writer = some p
  reader : ∀ p, held p = some .read ↔ p ∈ sem.readers
  exclusive : sem.writer ≠ none → sem.readers = []
  nodup : sem.readers.Nodup

theorem Reflects.free : (RwSem.free : RwSem ι).Reflects fun _ => none where
  writer p := by simp [RwSem.free]
  reader p := by simp [RwSem.free]
  exclusive _ := rfl
  nodup := List.nodup_nil

variable {sem : RwSem ι} {held : ι → Option LockMode}

theorem Reflects.alone (h : sem.Reflects held) {p q : ι}
    (hp : held p = some .write) (hq : held q ≠ none) : q = p := by
  have hwriter := (h.writer p).mp hp
  cases hmode : held q with
  | none => exact absurd hmode hq
  | some mode =>
      cases mode with
      | write =>
          have hwriter' := (h.writer q).mp hmode
          rw [hwriter] at hwriter'
          exact (Option.some.inj hwriter').symm
      | read =>
          have hmem := (h.reader q).mp hmode
          rw [h.exclusive (by simp [hwriter])] at hmem
          cases hmem

theorem Reflects.held_of_refused (h : sem.Reflects held)
    (hrefused : sem.grants .write = false) : ∃ p, held p ≠ none := by
  cases hwriter : sem.writer with
  | some p =>
      refine ⟨p, ?_⟩
      rw [(h.writer p).mpr hwriter]
      exact Option.some_ne_none _
  | none =>
      cases hreaders : sem.readers with
      | nil => simp [grants, hwriter, hreaders] at hrefused
      | cons p ps =>
          have hmem : p ∈ sem.readers := by
            rw [hreaders]
            exact List.mem_cons_self
          refine ⟨p, ?_⟩
          rw [(h.reader p).mpr hmem]
          exact Option.some_ne_none _

variable [DecidableEq ι] {p : ι}

theorem Reflects.acquire_write (h : sem.Reflects held)
    (hfree : sem.grants .write = true) :
    (sem.apply p (.acquire .write)).Reflects
      (Function.update held p (some .write)) := by
  simp only [grants, Bool.and_eq_true, Option.isNone_iff_eq_none,
    List.isEmpty_iff] at hfree
  obtain ⟨hwriter, hreaders⟩ := hfree
  refine ⟨fun q => ?_, fun q => ?_, fun _ => hreaders, h.nodup⟩
  · by_cases hq : q = p
    · subst hq
      simp [RwSem.apply]
    · have hold := h.writer q
      rw [hwriter] at hold
      rw [Function.update_of_ne hq, hold]
      simp [RwSem.apply, Ne.symm hq]
  · by_cases hq : q = p
    · subst hq
      simp [RwSem.apply, hreaders]
    · rw [Function.update_of_ne hq]
      exact h.reader q

theorem Reflects.acquire_read (h : sem.Reflects held) (hp : held p = none)
    (hfree : sem.grants .read = true) :
    (sem.apply p (.acquire .read)).Reflects
      (Function.update held p (some .read)) := by
  simp only [grants, Option.isNone_iff_eq_none] at hfree
  have hnot : p ∉ sem.readers := by
    intro hmem
    rw [(h.reader p).mpr hmem] at hp
    cases hp
  refine ⟨fun q => ?_, fun q => ?_, fun hw => absurd hfree hw,
    List.nodup_cons.mpr ⟨hnot, h.nodup⟩⟩
  · by_cases hq : q = p
    · subst hq
      simp [RwSem.apply, hfree]
    · rw [Function.update_of_ne hq]
      exact h.writer q
  · by_cases hq : q = p
    · subst hq
      simp [RwSem.apply]
    · rw [Function.update_of_ne hq, h.reader q]
      simp [RwSem.apply, hq]

theorem Reflects.release_write (h : sem.Reflects held)
    (hp : held p = some .write) :
    (sem.apply p (.release .write)).Reflects (Function.update held p none) := by
  have hwriter := (h.writer p).mp hp
  have hreaders := h.exclusive (by simp [hwriter])
  refine ⟨fun q => ?_, fun q => ?_, fun hw => absurd rfl hw, h.nodup⟩
  · by_cases hq : q = p
    · subst hq
      simp [RwSem.apply]
    · rw [Function.update_of_ne hq, h.writer q, hwriter]
      simp [RwSem.apply, Ne.symm hq]
  · by_cases hq : q = p
    · subst hq
      simp [RwSem.apply, hreaders]
    · rw [Function.update_of_ne hq]
      exact h.reader q

theorem Reflects.release_read (h : sem.Reflects held)
    (hp : held p = some .read) :
    (sem.apply p (.release .read)).Reflects (Function.update held p none) := by
  refine ⟨fun q => ?_, fun q => ?_, fun hw => ?_, h.nodup.erase p⟩
  · by_cases hq : q = p
    · subst hq
      have hnot : sem.writer ≠ some q := by
        intro hwriter
        rw [(h.writer q).mpr hwriter] at hp
        cases hp
      simp [RwSem.apply, hnot]
    · rw [Function.update_of_ne hq]
      exact h.writer q
  · by_cases hq : q = p
    · subst hq
      simp [RwSem.apply, h.nodup.mem_erase_iff]
    · rw [Function.update_of_ne hq, h.reader q]
      simp [RwSem.apply, h.nodup.mem_erase_iff, hq]
  · have hnil : sem.readers = [] := h.exclusive hw
    simp [RwSem.apply, hnil]

/-- An event that the discipline allows, and that acquires only what is
granted, keeps the semaphore and its users in agreement. -/
theorem Reflects.apply (h : sem.Reflects held) {v v' : SyncView} {e : SyncEvent}
    (hp : held p = v.held) (hnext : v.next e = some v')
    (hgrant : ∀ m, e = .acquire m → sem.grants m = true) :
    (sem.apply p e).Reflects (Function.update held p v'.held) := by
  cases e with
  | acquire m =>
      obtain ⟨hnone, rfl⟩ : v.held = none ∧ { v with held := some m } = v' := by
        simpa [SyncView.next] using hnext
      rw [hnone] at hp
      have hfree := hgrant m rfl
      cases m with
      | write => exact h.acquire_write hfree
      | read => exact h.acquire_read hp hfree
  | release m =>
      obtain ⟨hheld, rfl⟩ : v.held = some m ∧ { v with held := none } = v' := by
        simpa [SyncView.next] using hnext
      rw [hheld] at hp
      cases m with
      | write => exact h.release_write hp
      | read => exact h.release_read hp
  | _ =>
      have hheld : v'.held = v.held := by
        simp only [SyncView.next, Option.some.injEq] at hnext
        rw [← hnext]
      rw [hheld, ← hp, Function.update_eq_self]
      exact h

end RwSem

/-- Who is on a wait queue, and who has been woken since it went there. -/
structure WaitQueue (ι : Type) where
  queued : ι → Bool
  woken : ι → Bool

namespace WaitQueue

variable {ι : Type}

def empty : WaitQueue ι := ⟨fun _ => false, fun _ => false⟩

variable [DecidableEq ι]

def apply (wq : WaitQueue ι) (p : ι) : SyncEvent → WaitQueue ι
  | .enqueue =>
      ⟨Function.update wq.queued p true, Function.update wq.woken p false⟩
  | .dequeue => { wq with queued := Function.update wq.queued p false }
  | .wakeAll => { wq with woken := fun q => wq.woken q || wq.queued q }
  | _ => wq

theorem apply_queued {wq : WaitQueue ι} {p : ι} {v v' : SyncView} {e : SyncEvent}
    (hp : wq.queued p = v.queued) (hnext : v.next e = some v') :
    (wq.apply p e).queued = Function.update wq.queued p v'.queued := by
  have hkeep : v'.queued = v.queued →
      wq.queued = Function.update wq.queued p v'.queued := by
    intro hv
    rw [hv, ← hp, Function.update_eq_self]
  cases e with
  | acquire m =>
      apply hkeep
      simp only [SyncView.next, Option.ite_none_right_eq_some,
        Option.some.injEq] at hnext
      rw [← hnext.2]
  | release m =>
      apply hkeep
      simp only [SyncView.next, Option.ite_none_right_eq_some,
        Option.some.injEq] at hnext
      rw [← hnext.2]
  | enqueue =>
      obtain rfl := Option.some.inj hnext
      rfl
  | dequeue =>
      obtain rfl := Option.some.inj hnext
      rfl
  | wakeAll =>
      obtain rfl := Option.some.inj hnext
      exact hkeep rfl

theorem apply_asleep {wq : WaitQueue ι} {p q : ι} {e : SyncEvent} (hq : q ≠ p)
    (hasleep : (wq.apply p e).woken q = false) :
    wq.woken q = false ∧ (wq.queued q = true → e ≠ .wakeAll) := by
  cases e with
  | enqueue =>
      refine ⟨?_, fun _ he => by cases he⟩
      rwa [show (wq.apply p .enqueue).woken q = wq.woken q from
        Function.update_of_ne hq _ _] at hasleep
  | wakeAll =>
      have hboth : wq.woken q = false ∧ wq.queued q = false := by
        simpa [apply] using hasleep
      refine ⟨hboth.1, fun hqueued => ?_⟩
      rw [hboth.2] at hqueued
      cases hqueued
  | _ => exact ⟨hasleep, fun _ he => by cases he⟩

end WaitQueue

end CddDriver.Lib
