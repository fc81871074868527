import CddDriver.Lib.Trace
import Mathlib.Tactic.Common
/-!
# Programs that use a machine

A client makes calls and goes on as their results tell it.  A machine that
refines another one gives every client the result that the other one gives it.
-/

namespace CddDriver.Lib

/-- A program that makes calls `ι` with results `κ` and returns a `ρ`. -/
inductive Client (ι κ ρ : Type) where
  | done (r : ρ)
  | call (i : ι) (next : κ → Client ι κ ρ)

namespace Client

variable {σ τ ι κ ρ : Type}

def run (M : Machine σ ι κ) : Client ι κ ρ → σ → Option (σ × ρ)
  | .done r, s => some (s, r)
  | .call i next, s => (M.step s i).bind fun x => (next x.2).run M x.1

theorem run_call {N : Machine τ ι κ} {i : ι} {next : κ → Client ι κ ρ}
    {t t' : τ} {k : κ} (h : N.step t i = some (t', k)) :
    (Client.call i next).run N t = (next k).run N t' := by
  simp only [run, h, Option.bind_some]

/-- The client runs from `t` to `t'` and returns `r`, and each call that it
makes meets `C` in the state it is made in. -/
inductive Returns (N : Machine τ ι κ) (C : τ → ι → Prop) :
    Client ι κ ρ → τ → τ → ρ → Prop where
  | done (t : τ) (r : ρ) : Returns N C (.done r) t t r
  | call {i : ι} {next : κ → Client ι κ ρ} {t u t' : τ} {k : κ} {r : ρ} :
      C t i → N.step t i = some (u, k) → Returns N C (next k) u t' r →
      Returns N C (.call i next) t t' r

/-- A client whose calls meet `C` returns the same on a machine whose steps
match those that meet `C`. -/
theorem Returns.run_refined {M : Machine σ ι κ} {N : Machine τ ι κ}
    {R : σ → τ → Prop} {C : τ → ι → Prop}
    (hstep : ∀ {s t i t' k}, R s t → C t i → N.step t i = some (t', k) →
      ∃ s', M.step s i = some (s', k) ∧ R s' t')
    {c : Client ι κ ρ} {s : σ} {t t' : τ} {r : ρ} (h : c.Returns N C t t' r)
    (hR : R s t) : ∃ s', c.run M s = some (s', r) ∧ R s' t' := by
  induction h generalizing s with
  | done t r => exact ⟨s, rfl, hR⟩
  | call hc hcall _ ih =>
      obtain ⟨u, hu, hR'⟩ := hstep hR hc hcall
      obtain ⟨s', hs', hlast⟩ := ih hR'
      exact ⟨s', by rw [run_call hu, hs'], hlast⟩

end Client

end CddDriver.Lib
