import YellowBull.Lib.Interleaving
import YellowBull.Lib.Machine

/-!
# Machines that run a family of components

A machine whose steps are steps of one component or another: each step emits the inputs of the
components that it makes, under their keys. Components may come up on the way. Where each of them
follows its inputs (`Projects`), a run of the machine shows a run of every component, on the inputs
under its key, from an initial state (`run_projects`): what the others do in between does not
matter.
-/

namespace Machine

open Interleaving

variable {σ τ ι β κ : Type*} [DecidableEq κ]

section Shows

variable (part : τ → β → Option τ) (init : τ → Prop) (absent : σ → κ → Prop)
variable (R : σ → κ → τ → Prop)

/-- Under the key, the inputs `log` have led a component from an initial state to one that the state
`s` shows, or there is no component and no input yet. -/
def Shows (s : σ) (log : List (κ × β)) (k : κ) : Prop :=
  (absent s k ∧ proj k log = []) ∨
    ∃ t t', init t ∧ run part t (proj k log) = some t' ∧ R s k t'

/-- Each component of the machine follows its inputs. `absent s k` says that there is no component
under the key yet, and `R s k t` that there is one, in the state `t`. -/
structure Projects (step : σ → ι → Option σ) (emit : σ → ι → List (κ × β)) (Inv : σ → Prop)
    (ok : σ → ι → Prop) : Prop where
  inv : ∀ s a s', Inv s → ok s a → step s a = some s' → Inv s'
  old : ∀ s a s' k t, Inv s → ok s a → step s a = some s' → R s k t →
    ∃ t', run part t (proj k (emit s a)) = some t' ∧ R s' k t'
  /-- A component that comes up starts in an initial state. -/
  new : ∀ s a s' k, Inv s → ok s a → step s a = some s' → absent s k →
    Shows part init absent R s' (emit s a) k

end Shows

/-- A run shows runs of the components, each on the inputs under its key. -/
theorem run_projects {step : σ → ι → Option σ} {emit : σ → ι → List (κ × β)}
    {part : τ → β → Option τ} {init : τ → Prop} {absent : σ → κ → Prop} {R : σ → κ → τ → Prop}
    {Inv : σ → Prop} {ok : σ → ι → Prop} (h : Projects part init absent R step emit Inv ok)
    {s s' : σ} (hinv : Inv s) (habsent : ∀ k, absent s k) {as : List ι}
    (hok : EveryRunStep step ok s as) (hrun : run step s as = some s') :
    Inv s' ∧ ∀ k, Shows part init absent R s' (trace step emit s as) k := by
  -- One step more, behind what was emitted so far.
  have hstep : ∀ s log a s', (Inv s ∧ ∀ k, Shows part init absent R s log k) → ok s a →
      step s a = some s' →
      Inv s' ∧ ∀ k, Shows part init absent R s' (log ++ emit s a) k := by
    rintro s log a s' ⟨hs, hkeys⟩ ha hs'
    refine ⟨h.inv s a s' hs ha hs', fun k => ?_⟩
    rcases hkeys k with ⟨hk, hnil⟩ | ⟨t, t', hinit, hpart, hR⟩
    · have hnew := h.new s a s' k hs ha hs' hk
      unfold Shows at hnew ⊢
      rwa [proj_append, hnil, List.nil_append]
    · obtain ⟨t'', hpart', hR'⟩ := h.old s a s' k t' hs ha hs' hR
      have hrun' : run part t (proj k (log ++ emit s a)) = some t'' := by
        rw [proj_append, run_append, hpart]
        exact hpart'
      exact .inr ⟨t, t'', hinit, hrun', hR'⟩
  have hstart : Inv s ∧ ∀ k, Shows part init absent R s ([] : List (κ × β)) k :=
    ⟨hinv, fun k => .inl ⟨habsent k, rfl⟩⟩
  exact run_trace_invariant (fun s log => Inv s ∧ ∀ k, Shows part init absent R s log k) hstep
    hstart hok hrun

end Machine
