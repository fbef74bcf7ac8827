import BgqVrnic.Runs

namespace Refinements

open Runs

variable {σ τ ι κ : Type*} {step : σ → ι → Option σ} {step' : τ → κ → Option τ} {ok : σ → ι → Prop}
  {ok' : τ → κ → Prop} {R : σ → τ → Prop} {s s' : σ} {t : τ} {is : List ι}

/-- Each step of the first machine is a step of the second one, or changes nothing that the second one shows. -/
def Simulates (step : σ → ι → Option σ) (ok : σ → ι → Prop) (step' : τ → κ → Option τ)
    (ok' : τ → κ → Prop) (R : σ → τ → Prop) : Prop :=
  ∀ s t i s', R s t → ok s i → step s i = some s' →
    R s' t ∨ ∃ j t', ok' t j ∧ step' t j = some t' ∧ R s' t'

theorem Simulates.run (hsim : Simulates step ok step' ok' R) (h : R s t) (hm : Meets step ok s is)
    (hr : run step s is = some s') :
    ∃ js t', Runs.run step' t js = some t' ∧ Meets step' ok' t js ∧ R s' t' := by
  induction is generalizing s t with
  | nil =>
    cases Option.some.inj hr
    exact ⟨[], t, rfl, trivial, h⟩
  | cons i is ih =>
    obtain ⟨u, hu, hr⟩ := Option.bind_eq_some_iff.mp hr
    obtain ⟨hi, hm⟩ := hm u hu
    rcases hsim s t i u h hi hu with hsame | ⟨j, t', hj, ht', hR⟩
    · exact ih hsame hm hr
    · obtain ⟨js, t'', hrun, hmeets, hR'⟩ := ih hR hm hr
      refine ⟨j :: js, t'', ?_, ?_, hR'⟩
      · rw [Runs.run, ht']
        exact hrun
      · intro v hv
        rw [ht'] at hv
        cases Option.some.inj hv
        exact ⟨hj, hmeets⟩

/-- Each step of the first machine is a run of the second one. -/
def Implements (step : σ → ι → Option σ) (ok : σ → ι → Prop) (step' : τ → κ → Option τ)
    (ok' : τ → κ → Prop) (R : σ → τ → Prop) : Prop :=
  ∀ s t i s', R s t → ok s i → step s i = some s' →
    ∃ js t', Runs.run step' t js = some t' ∧ Meets step' ok' t js ∧ R s' t'

theorem Implements.run (himp : Implements step ok step' ok' R) (h : R s t) (hm : Meets step ok s is)
    (hr : Runs.run step s is = some s') :
    ∃ js t', Runs.run step' t js = some t' ∧ Meets step' ok' t js ∧ R s' t' := by
  induction is generalizing s t with
  | nil =>
    cases Option.some.inj hr
    exact ⟨[], t, rfl, trivial, h⟩
  | cons i is ih =>
    obtain ⟨u, hu, hr⟩ := Option.bind_eq_some_iff.mp hr
    obtain ⟨hi, hm⟩ := hm u hu
    obtain ⟨js, t', hrun, hmeets, hR⟩ := himp s t i u h hi hu
    obtain ⟨ks, t'', hrun', hmeets', hR'⟩ := ih hR hm hr
    refine ⟨js ++ ks, t'', ?_, ?_, hR'⟩
    · rw [run_append, hrun]
      exact hrun'
    · apply meets_append.mpr
      refine ⟨hmeets, fun v hv => ?_⟩
      rw [hrun] at hv
      cases Option.some.inj hv
      exact hmeets'

end Refinements
