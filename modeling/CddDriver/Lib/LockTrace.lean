import Mathlib.Tactic.Common
/-!
# Lock and wait-queue discipline of a call

One call's view of a reader-writer semaphore and a wait queue: the mode in
which the call holds the semaphore and whether it is on the queue.  `replay`
runs a trace of synchronisation events against that view and fails at the
first event that breaks the discipline.

A program given as control points with steps that emit events is disciplined
when each control point can be assigned a view that its steps respect
(`Path.replay_eq`).
-/

namespace CddDriver.Lib

inductive LockMode where
  | read
  | write
  deriving DecidableEq

inductive SyncEvent where
  | acquire (m : LockMode)
  | release (m : LockMode)
  | enqueue
  | dequeue
  | wakeAll
  deriving DecidableEq

/-- The mode a call holds the semaphore in, and whether it is queued. -/
structure SyncView where
  held : Option LockMode
  queued : Bool
  deriving DecidableEq

namespace SyncView

def idle : SyncView := ⟨none, false⟩

def holding (m : LockMode) : SyncView := ⟨some m, false⟩

def waiting : SyncView := ⟨none, true⟩

/-- The view after an event; `none` when the event breaks the discipline:
acquiring while holding, or releasing in a mode that is not held. -/
def next (v : SyncView) : SyncEvent → Option SyncView
  | .acquire m => if v.held = none then some { v with held := some m } else none
  | .release m =>
      if v.held = some m then some { v with held := none } else none
  | .enqueue => some { v with queued := true }
  | .dequeue => some { v with queued := false }
  | .wakeAll => some v

def replay : SyncView → List SyncEvent → Option SyncView
  | v, [] => some v
  | v, e :: es => (v.next e).bind fun v' => replay v' es

theorem replay_append {v w : SyncView} {es fs : List SyncEvent}
    (h : v.replay es = some w) : v.replay (es ++ fs) = w.replay fs := by
  induction es generalizing v with
  | nil =>
      obtain rfl : v = w := by simpa [replay] using h
      rfl
  | cons e es ih =>
      obtain ⟨v', hnext, hrest⟩ := Option.bind_eq_some_iff.mp h
      simp only [List.cons_append, replay, hnext, Option.bind_some]
      exact ih hrest

end SyncView

/-- The paths of a program whose step `κ → List SyncEvent → κ → Prop` moves
between control points and emits events. -/
inductive Path {κ : Type} (step : κ → List SyncEvent → κ → Prop) :
    κ → List SyncEvent → κ → Prop where
  | nil (k : κ) : Path step k [] k
  | snoc {k l m : κ} {es fs : List SyncEvent} :
      Path step k es l → step l fs m → Path step k (es ++ fs) m

/-- If every step takes the view of its control point to the view of the next
one, then so does every path. -/
theorem Path.replay_eq {κ : Type} {step : κ → List SyncEvent → κ → Prop}
    {view : κ → SyncView}
    (hstep : ∀ {k es l}, step k es l → (view k).replay es = some (view l))
    {k l : κ} {es : List SyncEvent} (hpath : Path step k es l) :
    (view k).replay es = some (view l) := by
  induction hpath with
  | nil => rfl
  | snoc _ hlast ih => rw [SyncView.replay_append ih, hstep hlast]

end CddDriver.Lib
