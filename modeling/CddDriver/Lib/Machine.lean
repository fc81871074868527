import Mathlib.Tactic.Common
/-!
# Executable machines and their runs

A machine is a partial step function: `step s i` is the state and the output
that input `i` leads to, or `none` when `i` cannot happen in `s`.  Runs are
driven by a list of inputs.  The rules below carry a property of one step to
every step and every state of a run.
-/

namespace CddDriver.Lib

/-- A machine with states `σ`, inputs `ι` and outputs `ο`. -/
structure Machine (σ ι ο : Type) where
  step : σ → ι → Option (σ × ο)

namespace Machine

variable {σ ι ο γ : Type} (M : Machine σ ι ο)

/-- `Run s is t`: the inputs `is` lead from `s` to `t`. -/
inductive Run : σ → List ι → σ → Prop where
  | nil (s : σ) : Run s [] s
  | cons {s t u : σ} {i : ι} {o : ο} {is : List ι} :
      M.step s i = some (t, o) → Run t is u → Run s (i :: is) u

/-- The state after the inputs `is`, when each of them can happen. -/
def exec : σ → List ι → Option σ
  | s, [] => some s
  | s, i :: is => (M.step s i).bind fun r => exec r.1 is

/-- `P` holds of `s` and of every state that the inputs `is` pass through. -/
def EveryState (P : σ → Prop) : σ → List ι → Prop
  | s, [] => P s
  | s, i :: is => P s ∧ ∀ t o, M.step s i = some (t, o) → EveryState P t is

/-- `C` holds of every step that the inputs `is` take from `s`. -/
def EveryStep (C : σ → ι → ο → σ → Prop) : σ → List ι → Prop
  | _, [] => True
  | s, i :: is => ∀ t o, M.step s i = some (t, o) → C s i o t ∧ EveryStep C t is

variable {M}

theorem run_of_exec {s t : σ} {is : List ι} (h : M.exec s is = some t) :
    M.Run s is t := by
  induction is generalizing s with
  | nil =>
      obtain rfl : s = t := by simpa [exec] using h
      exact .nil s
  | cons i is ih =>
      obtain ⟨⟨u, o⟩, hstep, hrest⟩ := Option.bind_eq_some_iff.mp h
      exact .cons hstep (ih hrest)

namespace Run

theorem append {s t u : σ} {is js : List ι} (h₁ : M.Run s is t)
    (h₂ : M.Run t js u) : M.Run s (is ++ js) u := by
  induction h₁ with
  | nil s => exact h₂
  | cons hstep _ ih => exact .cons hstep (ih h₂)

/-- The invariant rule: what every step preserves holds at the end of a run. -/
theorem invariant {I : σ → Prop}
    (hstep : ∀ {s i t o}, I s → M.step s i = some (t, o) → I t)
    {s t : σ} {is : List ι} (hrun : M.Run s is t) (hs : I s) : I t := by
  induction hrun with
  | nil s => exact hs
  | cons h _ ih => exact ih (hstep hs h)

theorem snoc {s t u : σ} {i : ι} {o : ο} {is : List ι} (h : M.Run s is t)
    (hstep : M.step t i = some (u, o)) : M.Run s (is ++ [i]) u :=
  h.append (.cons hstep (.nil u))

/-- The invariant rule for a property that also speaks of the inputs so far,
when every step of the run meets `C`. -/
theorem invariant_along {I : List ι → σ → Prop} {C : σ → ι → ο → σ → Prop}
    {s : σ} (hstep : ∀ {is t i u o}, M.Run s is t → I is t →
      M.step t i = some (u, o) → C t i o u → I (is ++ [i]) u)
    {t : σ} {is : List ι} (hrun : M.Run s is t) (hC : M.EveryStep C s is)
    (hs : I [] s) : I is t := by
  -- the induction runs over what is left of the run, after the inputs `done`
  have hrest : ∀ {u v : σ} {rest : List ι}, M.Run u rest v →
      M.EveryStep C u rest → ∀ done, M.Run s done u → I done u →
        I (done ++ rest) v := by
    intro u v rest hrest
    induction hrest with
    | nil u =>
        intro _ done _ hI
        rwa [List.append_nil]
    | cons hfirst _ ih =>
        intro hC done hdone hI
        obtain ⟨hc, hCrest⟩ := hC _ _ hfirst
        have hnext := ih hCrest (done ++ [_]) (hdone.snoc hfirst)
          (hstep hdone hI hfirst hc)
        rwa [List.append_assoc] at hnext
  exact hrest hrun hC [] (.nil s) hs

/-- The simulation rule: when each step that meets `C` is matched by steps of
the machine `N`, then so is a whole run. -/
theorem simulates {τ κ π : Type} {N : Machine τ κ π} {R : σ → τ → Prop}
    {C : σ → ι → ο → σ → Prop}
    (hstep : ∀ {s t i s' o}, R s t → M.step s i = some (s', o) → C s i o s' →
      ∃ js t', N.Run t js t' ∧ R s' t')
    {s s' : σ} {is : List ι} (hrun : M.Run s is s') (hC : M.EveryStep C s is)
    {t : τ} (hR : R s t) : ∃ js t', N.Run t js t' ∧ R s' t' := by
  induction hrun generalizing t with
  | nil s => exact ⟨[], t, .nil t, hR⟩
  | cons hfirst _ ih =>
      obtain ⟨hc, hrest⟩ := hC _ _ hfirst
      obtain ⟨js, u, hjs, hu⟩ := hstep hR hfirst hc
      obtain ⟨ks, v, hks, hv⟩ := ih hrest hu
      exact ⟨js ++ ks, v, hjs.append hks, hv⟩

end Run

theorem EveryState.head {P : σ → Prop} {s : σ} {is : List ι}
    (h : M.EveryState P s is) : P s := by
  cases is with
  | nil => exact h
  | cons i is => exact h.1

theorem EveryState.last {P : σ → Prop} {s t : σ} {is : List ι}
    (h : M.EveryState P s is) (hrun : M.Run s is t) : P t := by
  induction hrun with
  | nil s => exact h
  | cons hstep _ ih => exact ih (h.2 _ _ hstep)

theorem EveryStep.before {C : σ → ι → ο → σ → Prop} {s : σ} {is js : List ι}
    (h : M.EveryStep C s (is ++ js)) : M.EveryStep C s is := by
  induction is generalizing s with
  | nil => trivial
  | cons i is ih =>
      intro t o hstep
      obtain ⟨hc, hrest⟩ := h t o hstep
      exact ⟨hc, ih hrest⟩

theorem EveryStep.after {C : σ → ι → ο → σ → Prop} {s t : σ} {is js : List ι}
    (h : M.EveryStep C s (is ++ js)) (hrun : M.Run s is t) :
    M.EveryStep C t js := by
  induction hrun with
  | nil s => exact h
  | cons hfirst _ ih => exact ih (h _ _ hfirst).2

theorem EveryStep.last {C : σ → ι → ο → σ → Prop} {s t u : σ} {is : List ι}
    {i : ι} {o : ο} (h : M.EveryStep C s (is ++ [i])) (hrun : M.Run s is t)
    (hstep : M.step t i = some (u, o)) : C t i o u :=
  (h.after hrun u o hstep).1

theorem everyState_of_invariant {I P : σ → Prop}
    (hstep : ∀ {s i t o}, I s → M.step s i = some (t, o) → I t)
    (hP : ∀ {s}, I s → P s) {s : σ} (is : List ι) (hs : I s) :
    M.EveryState P s is := by
  induction is generalizing s with
  | nil => exact hP hs
  | cons i is ih => exact ⟨hP hs, fun t o h => ih (hstep hs h)⟩

/-- A step condition that each step derives from an invariant and a weaker
condition holds of the whole run. -/
theorem everyStep_of_invariant {I : σ → Prop} {C D : σ → ι → ο → σ → Prop}
    (hstep : ∀ {s i t o}, I s → M.step s i = some (t, o) → C s i o t →
      D s i o t ∧ I t)
    {s : σ} {is : List ι} (hs : I s) (hC : M.EveryStep C s is) :
    M.EveryStep D s is := by
  induction is generalizing s with
  | nil => trivial
  | cons i is ih =>
      intro t o h
      obtain ⟨hc, hrest⟩ := hC t o h
      obtain ⟨hd, ht⟩ := hstep hs h hc
      exact ⟨hd, ih ht hrest⟩

def check (M : Machine σ ι ο) (c : σ → ι → Bool) : σ → List ι → Bool
  | _, [] => true
  | s, i :: is =>
      match M.step s i with
      | some r => c s i && M.check c r.1 is
      | none => true

theorem everyStep_of_check {c : σ → ι → Bool} {C : σ → ι → ο → σ → Prop}
    (hc : ∀ s i o t, c s i = true → C s i o t) {s : σ} {is : List ι}
    (h : M.check c s is = true) : M.EveryStep C s is := by
  induction is generalizing s with
  | nil => trivial
  | cons i is ih =>
      intro t o hstep
      simp only [check, hstep, Bool.and_eq_true] at h
      exact ⟨hc s i o t h.1, ih h.2⟩

theorem EveryStep.and {C D : σ → ι → ο → σ → Prop} {s : σ} {is : List ι}
    (hC : M.EveryStep C s is) (hD : M.EveryStep D s is) :
    M.EveryStep (fun s i o t => C s i o t ∧ D s i o t) s is := by
  induction is generalizing s with
  | nil => trivial
  | cons i is ih =>
      intro t o hstep
      obtain ⟨hc, hCrest⟩ := hC t o hstep
      obtain ⟨hd, hDrest⟩ := hD t o hstep
      exact ⟨⟨hc, hd⟩, ih hCrest hDrest⟩

theorem EveryStep.and_forall_mem {C : σ → ι → ο → σ → Prop} {Q : ι → Prop}
    {s : σ} {is : List ι} (h : M.EveryStep C s is) (hQ : ∀ i ∈ is, Q i) :
    M.EveryStep (fun s i o t => Q i ∧ C s i o t) s is := by
  induction is generalizing s with
  | nil => trivial
  | cons i is ih =>
      intro t o hstep
      obtain ⟨hc, hrest⟩ := h t o hstep
      exact ⟨⟨hQ i List.mem_cons_self, hc⟩,
        ih hrest fun j hj => hQ j (List.mem_cons_of_mem i hj)⟩

/-- A state property that an invariant `J` implies holds in every state of a
run exactly when each step meets the condition under which it keeps `J`. -/
theorem everyState_iff_everyStep_of {J P : σ → Prop}
    {C : σ → ι → ο → σ → Prop} (hJ : ∀ {s}, J s → P s)
    (hstep : ∀ {s i t o}, J s → M.step s i = some (t, o) →
      (P t → C s i o t) ∧ (C s i o t → J t))
    {s : σ} {is : List ι} (hs : J s) :
    M.EveryState P s is ↔ M.EveryStep C s is := by
  induction is generalizing s with
  | nil => exact ⟨fun _ => trivial, fun _ => hJ hs⟩
  | cons i is ih =>
      constructor
      · intro h t o ht
        obtain ⟨hnec, hsuff⟩ := hstep hs ht
        have hc := hnec (h.2 t o ht).head
        exact ⟨hc, (ih (hsuff hc)).mp (h.2 t o ht)⟩
      · intro h
        refine ⟨hJ hs, fun t o ht => ?_⟩
        obtain ⟨hc, hrest⟩ := h t o ht
        exact (ih ((hstep hs ht).2 hc)).mpr hrest

/-- Under an invariant `I`, a state property that holds at the start holds in
every state of a run exactly when each step meets the condition that one step
needs to preserve it. -/
theorem everyState_iff_everyStep {I P : σ → Prop} {C : σ → ι → ο → σ → Prop}
    (hI : ∀ {s i t o}, I s → M.step s i = some (t, o) → I t)
    (hstep : ∀ {s i t o}, I s → P s → M.step s i = some (t, o) →
      (P t ↔ C s i o t))
    {s : σ} {is : List ι} (hs : I s) (hP : P s) :
    M.EveryState P s is ↔ M.EveryStep C s is := by
  refine everyState_iff_everyStep_of (J := fun s => I s ∧ P s) And.right ?_
    ⟨hs, hP⟩
  rintro s i t o ⟨hIs, hPs⟩ ht
  have hiff := hstep hIs hPs ht
  exact ⟨hiff.mp, fun hc => ⟨hI hIs ht, hiff.mpr hc⟩⟩

/-- A property that a step keeps exactly when it meets `C`, and that nothing
brings back, holds at the end of a run exactly when it held at the start and
every step met `C`.  Only runs to a state with `Q` count, which the states that
have a step also satisfy. -/
theorem Run.iff_everyStep {I P Q : σ → Prop} {C : σ → ι → ο → σ → Prop}
    (hI : ∀ {s i t o}, I s → M.step s i = some (t, o) → I t)
    (hQ : ∀ {s i t o}, M.step s i = some (t, o) → Q s)
    (hstep : ∀ {s i t o}, I s → M.step s i = some (t, o) → Q t →
      (P t ↔ P s ∧ C s i o t))
    {s t : σ} {is : List ι} (hrun : M.Run s is t) (hs : I s) (ht : Q t) :
    P t ↔ P s ∧ M.EveryStep C s is := by
  induction hrun with
  | nil s => exact ⟨fun h => ⟨h, trivial⟩, And.left⟩
  | @cons s u t i o is hfirst hrest ih =>
      have hu : Q u := by
        cases hrest with
        | nil => exact ht
        | cons hnext _ => exact hQ hnext
      rw [ih (hI hs hfirst) ht, hstep hs hfirst hu, and_assoc]
      refine and_congr_right fun _ => ⟨fun h u' o' hstep' => ?_, fun h => h u o hfirst⟩
      obtain ⟨rfl, rfl⟩ := Prod.mk.inj (Option.some.inj (hfirst.symm.trans hstep'))
      exact h

/-! ## Observers -/

/-- `M` together with a history variable that each step updates. -/
def observe (M : Machine σ ι ο) (note : γ → σ → ι → ο → σ → γ) :
    Machine (σ × γ) ι ο where
  step s i := (M.step s.1 i).map fun r => ((r.1, note s.2 s.1 i r.2 r.1), r.2)

theorem observe_step {note : γ → σ → ι → ο → σ → γ} {s : σ} {g g' : γ} {i : ι}
    {t : σ} {o : ο} :
    (M.observe note).step (s, g) i = some ((t, g'), o) ↔
      M.step s i = some (t, o) ∧ g' = note g s i o t := by
  simp only [observe, Option.map_eq_some_iff]
  constructor
  · rintro ⟨⟨u, o'⟩, hstep, heq⟩
    simp only [Prod.mk.injEq] at heq
    obtain ⟨⟨rfl, rfl⟩, rfl⟩ := heq
    exact ⟨hstep, rfl⟩
  · rintro ⟨hstep, rfl⟩
    exact ⟨(t, o), hstep, rfl⟩

theorem everyStep_observe {note : γ → σ → ι → ο → σ → γ}
    {C : σ → ι → ο → σ → Prop} {s : σ} {is : List ι} (g : γ)
    (h : M.EveryStep C s is) :
    (M.observe note).EveryStep (fun s i o t => C s.1 i o t.1) (s, g) is := by
  induction is generalizing s g with
  | nil => trivial
  | cons i is ih =>
      rintro ⟨t, g'⟩ o hstep
      obtain ⟨hc, hrest⟩ := h t o (observe_step.mp hstep).1
      exact ⟨hc, ih g' hrest⟩

theorem everyStep_of_observe {note : γ → σ → ι → ο → σ → γ}
    {C : σ → ι → ο → σ → Prop} {s : σ} {g : γ} {is : List ι}
    (h : (M.observe note).EveryStep (fun s i o t => C s.1 i o t.1) (s, g) is) :
    M.EveryStep C s is := by
  induction is generalizing s g with
  | nil => trivial
  | cons i is ih =>
      intro t o hstep
      obtain ⟨hc, hrest⟩ := h (t, note g s i o t) o (observe_step.mpr ⟨hstep, rfl⟩)
      exact ⟨hc, ih hrest⟩

end Machine

end CddDriver.Lib
