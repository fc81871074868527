import CddDriver.Lib.Machine
import Mathlib.Tactic.Common
/-!
# What a run shows

The inputs of a run with their outputs, and the part of them that an observer
sees.  When the steps that the observer does not see leave alone what it can
tell apart, the steps it sees are a run of their own.
-/

namespace CddDriver.Lib.Machine

variable {σ τ ι ο κ : Type} (M : Machine σ ι ο)

/-- The inputs that the observer sees, with their outputs. -/
def seen (sees : σ → ι → Bool) : σ → List ι → List (ι × ο)
  | _, [] => []
  | s, i :: is =>
      match M.step s i with
      | some (t, o) =>
          if sees s i then (i, o) :: seen sees t is else seen sees t is
      | none => []

def view (v : ο → κ) : Machine σ ι κ :=
  ⟨fun s i => (M.step s i).map fun r => (r.1, v r.2)⟩

def trace (s : σ) (is : List ι) : List (ι × ο) := M.seen (fun _ _ => true) s is

variable {M}

theorem seen_cons_shown {sees : σ → ι → Bool} {s t : σ} {i : ι} {o : ο}
    (is : List ι) (hstep : M.step s i = some (t, o)) (hsees : sees s i = true) :
    M.seen sees s (i :: is) = (i, o) :: M.seen sees t is := by
  simp only [seen, hstep, hsees, if_true]

theorem seen_cons_hidden {sees : σ → ι → Bool} {s t : σ} {i : ι} {o : ο}
    (is : List ι) (hstep : M.step s i = some (t, o)) (hsees : sees s i = false) :
    M.seen sees s (i :: is) = M.seen sees t is := by
  simp only [seen, hstep, hsees, Bool.false_eq_true, if_false]

theorem trace_cons {s t : σ} {i : ι} {o : ο} (is : List ι)
    (hstep : M.step s i = some (t, o)) :
    M.trace s (i :: is) = (i, o) :: M.trace t is :=
  seen_cons_shown is hstep rfl

theorem Run.unique {s t u : σ} {is : List ι} (ht : M.Run s is t)
    (hu : M.Run s is u) : t = u := by
  induction ht with
  | nil s =>
      cases hu
      rfl
  | cons hstep _ ih =>
      cases hu with
      | cons hstep' hrest =>
          obtain ⟨rfl, -⟩ :=
            Prod.mk.inj (Option.some.inj (hstep.symm.trans hstep'))
          exact ih hrest

/-- The simulation rule with its prefixes: at every time of the run, `N` has
come to a state that matches by a first part of its inputs. -/
theorem Run.simulates_along {π : Type} {N : Machine τ κ π} {R : σ → τ → Prop}
    {C : σ → ι → ο → σ → Prop}
    (hstep : ∀ {s t i s' o}, R s t → M.step s i = some (s', o) → C s i o s' →
      ∃ js t', N.Run t js t' ∧ R s' t')
    {s s' : σ} {is : List ι} (hrun : M.Run s is s') (hC : M.EveryStep C s is)
    {t : τ} (hR : R s t) :
    ∃ js t', N.Run t js t' ∧ R s' t' ∧
      ∀ before after u, is = before ++ after → M.Run s before u →
        ∃ first rest v, js = first ++ rest ∧ N.Run t first v ∧ R u v := by
  induction hrun generalizing t with
  | nil s =>
      refine ⟨[], t, .nil t, hR, ?_⟩
      intro before after u heq hbefore
      obtain ⟨rfl, -⟩ := List.append_eq_nil_iff.mp heq.symm
      cases hbefore
      exact ⟨[], [], t, rfl, .nil t, hR⟩
  | @cons s u s' i o is hfirst _ ih =>
      obtain ⟨hc, hrest⟩ := hC _ _ hfirst
      obtain ⟨js, v, hjs, hv⟩ := hstep hR hfirst hc
      obtain ⟨ks, t', hks, ht', hparts⟩ := ih hrest hv
      refine ⟨js ++ ks, t', hjs.append hks, ht', ?_⟩
      intro before after x heq hbefore
      cases hbefore with
      | nil => exact ⟨[], js ++ ks, t, rfl, .nil t, hR⟩
      | @cons _ u' _ j o' before hfirst' hbefore =>
          obtain ⟨rfl, hrest⟩ := List.cons.inj heq
          obtain ⟨rfl, -⟩ :=
            Prod.mk.inj (Option.some.inj (hfirst.symm.trans hfirst'))
          obtain ⟨first, rest, w, hks', hw, hR'⟩ :=
            hparts before after x hrest hbefore
          refine ⟨js ++ first, rest, w, ?_, hjs.append hw, hR'⟩
          rw [hks', List.append_assoc]

theorem Run.arises {P : σ → Prop} {s t : σ} {is : List ι} (hrun : M.Run s is t)
    (hs : ¬ P s) (ht : P t) :
    ∃ before i after u v o, is = before ++ i :: after ∧ M.Run s before u ∧
      M.step u i = some (v, o) ∧ ¬ P u ∧ P v := by
  induction hrun with
  | nil s => exact absurd ht hs
  | @cons s u t i o is hstep _ ih =>
      by_cases hu : P u
      · exact ⟨[], i, is, s, u, o, rfl, .nil s, hstep, hs, hu⟩
      · obtain ⟨before, j, after, v, x, o', rfl, hbefore, hlater, hv, hx⟩ :=
          ih hu ht
        exact ⟨i :: before, j, after, v, x, o', rfl, .cons hstep hbefore, hlater,
          hv, hx⟩

theorem Run.seen_eq_nil {sees : σ → ι → Bool} {I : σ → Prop}
    (hstep : ∀ {s i t o}, I s → M.step s i = some (t, o) →
      I t ∧ sees s i = false)
    {s t : σ} {is : List ι} (hrun : M.Run s is t) (hs : I s) :
    M.seen sees s is = [] := by
  induction hrun with
  | nil s => rfl
  | @cons s u t i o is hfirst _ ih =>
      obtain ⟨hu, hhidden⟩ := hstep hs hfirst
      rw [seen_cons_hidden is hfirst hhidden]
      exact ih hu

/-- The ranking rule: when the steps that count lower the rank, those that reset
it raise it by less than `k` and all others do not raise it, then there are no
more steps that count than the rank at the start and `k` for each reset. -/
theorem Run.ranked {counts resets : σ → ι → Bool} {k : Nat} (rank : σ → Nat)
    (hother : ∀ {s i t o}, M.step s i = some (t, o) → counts s i = false →
      rank t ≤ rank s)
    (hcounts : ∀ {s i t o}, M.step s i = some (t, o) → counts s i = true →
      resets s i = false → rank t < rank s)
    (hresets : ∀ {s i t o}, M.step s i = some (t, o) → resets s i = true →
      rank t + 1 ≤ rank s + k)
    {s t : σ} {is : List ι} (hrun : M.Run s is t) :
    (M.seen counts s is).length + rank t ≤
      rank s + k * (M.seen resets s is).length := by
  induction hrun with
  | nil s => simp [seen]
  | @cons s u t i o is hstep _ ih =>
      have hshown : (M.seen counts s (i :: is)).length ≤
          (M.seen counts u is).length + 1 := by
        simp only [seen, hstep]
        split <;> simp
      cases hr : resets s i with
      | true =>
          have hrank := hresets hstep hr
          rw [seen_cons_shown is hstep hr, List.length_cons, Nat.mul_succ]
          omega
      | false =>
          rw [seen_cons_hidden is hstep hr]
          cases hc : counts s i with
          | true =>
              have hrank := hcounts hstep hc hr
              omega
          | false =>
              have hrank := hother hstep hc
              rw [seen_cons_hidden is hstep hc]
              omega

/-- The projection rule: when each step that the observer sees is matched by
the same step of `N`, and each other step by none, then the seen inputs of a
run are a run of `N`, with the outputs that the observer saw. -/
theorem Run.project {N : Machine τ ι ο} {R : σ → τ → Prop}
    {sees : σ → ι → Bool}
    (hshown : ∀ {s t i s' o}, R s t → M.step s i = some (s', o) →
      sees s i = true → ∃ t', N.step t i = some (t', o) ∧ R s' t')
    (hhidden : ∀ {s t i s' o}, R s t → M.step s i = some (s', o) →
      sees s i = false → R s' t)
    {s s' : σ} {is : List ι} (hrun : M.Run s is s') {t : τ} (hR : R s t) :
    ∃ t', N.Run t ((M.seen sees s is).map Prod.fst) t' ∧
      N.trace t ((M.seen sees s is).map Prod.fst) = M.seen sees s is ∧
      R s' t' := by
  induction hrun generalizing t with
  | nil s => exact ⟨t, .nil t, rfl, hR⟩
  | @cons s u s' i o is hstep _ ih =>
      cases hsees : sees s i with
      | true =>
          obtain ⟨v, hmatch, hv⟩ := hshown hR hstep hsees
          obtain ⟨t', hrest, htrace, hR'⟩ := ih hv
          rw [seen_cons_shown is hstep hsees, List.map_cons]
          refine ⟨t', .cons hmatch hrest, ?_, hR'⟩
          rw [trace_cons _ hmatch, htrace]
      | false =>
          rw [seen_cons_hidden is hstep hsees]
          exact ih (hhidden hR hstep hsees)

end CddDriver.Lib.Machine
