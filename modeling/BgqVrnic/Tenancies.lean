import Mathlib.Logic.Function.Basic

namespace Tenancies

/-- Units that are let to parties on terms of their own, and what can be seen of each unit. -/
structure Estate (ρ κ α β : Type*) where
  view : ρ → β
  tenant : κ → ρ → Option α

variable {ρ κ α β : Type*}

/-- No unit has two tenants, each that has one shows its terms, and the others can be seen to be vacant. -/
structure Sound (vacant : β → Prop) (shows : α → β → Prop) (E : Estate ρ κ α β) : Prop where
  alone : ∀ j k r, E.tenant j r ≠ none → E.tenant k r ≠ none → j = k
  shown : ∀ k r a, E.tenant k r = some a → shows a (E.view r)
  empty : ∀ r, (∀ k, E.tenant k r = none) → vacant (E.view r)

/-- Whoever had a unit of the one look has it with the other, and a vacant unit stays vacant. -/
structure Keeps (vacant : β → Prop) (shows : α → β → Prop) (v v' : β) : Prop where
  vacant : vacant v → vacant v'
  shows : ∀ a, shows a v → shows a v'

theorem Keeps.of_eq {vacant : β → Prop} {shows : α → β → Prop} {v v' : β} (h : v' = v) :
    Keeps vacant shows v v' := by
  subst h
  exact ⟨id, fun _ => id⟩

namespace Sound

variable {vacant : β → Prop} {shows : α → β → Prop} {E E' : Estate ρ κ α β} {k : κ} {r : ρ}

/-- The party `k` gets units that nobody has, and loses none. -/
theorem take (h : Sound vacant shows E) (hothers : ∀ j, j ≠ k → E'.tenant j = E.tenant j)
    (hk : ∀ r, E'.tenant k r = E.tenant k r ∧ Keeps vacant shows (E.view r) (E'.view r) ∨
      (∀ j, E.tenant j r = none) ∧ ∃ a, E'.tenant k r = some a ∧ shows a (E'.view r)) :
    Sound vacant shows E' := by
  -- what another party has has not been touched
  have hkept : ∀ j r, j ≠ k → E'.tenant j r ≠ none →
      E'.tenant k r = E.tenant k r ∧ Keeps vacant shows (E.view r) (E'.view r) := by
    intro j r hj htenant
    rcases hk r with hsame | ⟨hfree, -⟩
    · exact hsame
    · rw [hothers j hj, hfree j] at htenant
      exact absurd rfl htenant
  constructor
  · intro i j r hi hj
    by_cases hik : i = k
    · by_cases hjk : j = k
      · rw [hik, hjk]
      · obtain ⟨htenant, -⟩ := hkept j r hjk hj
        rw [hik, htenant] at hi
        rw [hothers j hjk] at hj
        rw [hik]
        exact h.alone k j r hi hj
    · obtain ⟨htenant, -⟩ := hkept i r hik hi
      rw [hothers i hik] at hi
      by_cases hjk : j = k
      · rw [hjk, htenant] at hj
        rw [hjk]
        exact h.alone i k r hi hj
      · rw [hothers j hjk] at hj
        exact h.alone i j r hi hj
  · intro j r a ha
    by_cases hjk : j = k
    · subst hjk
      rcases hk r with ⟨htenant, hview⟩ | ⟨-, b, hb, hshows⟩
      · exact hview.shows a (h.shown j r a (htenant ▸ ha))
      · rw [ha] at hb
        cases hb
        exact hshows
    · obtain ⟨-, hview⟩ := hkept j r hjk (by rw [ha]; exact Option.some_ne_none a)
      exact hview.shows a (h.shown j r a (hothers j hjk ▸ ha))
  · intro r hr
    rcases hk r with ⟨htenant, hview⟩ | ⟨-, a, ha, -⟩
    · apply hview.vacant
      apply h.empty
      intro j
      by_cases hjk : j = k
      · rw [hjk, ← htenant]
        exact hr k
      · rw [← hothers j hjk]
        exact hr j
    · rw [hr k] at ha
      cases ha

/-- The party `k` gives units back that it has, and the others stay. -/
theorem give (h : Sound vacant shows E) (hothers : ∀ j, j ≠ k → E'.tenant j = E.tenant j)
    (hk : ∀ r, E'.tenant k r = E.tenant k r ∧ Keeps vacant shows (E.view r) (E'.view r) ∨
      E.tenant k r ≠ none ∧ E'.tenant k r = none ∧ vacant (E'.view r)) :
    Sound vacant shows E' := by
  have hless : ∀ j r, E'.tenant j r ≠ none → E'.tenant j r = E.tenant j r := by
    intro j r hj
    by_cases hjk : j = k
    · subst hjk
      rcases hk r with ⟨htenant, -⟩ | ⟨-, hnone, -⟩
      · exact htenant
      · exact absurd hnone hj
    · rw [hothers j hjk]
  constructor
  · intro i j r hi hj
    have hi' := hless i r hi
    have hj' := hless j r hj
    rw [hi'] at hi
    rw [hj'] at hj
    exact h.alone i j r hi hj
  · intro j r a ha
    have htenant := hless j r (by rw [ha]; exact Option.some_ne_none a)
    rw [ha] at htenant
    rcases hk r with ⟨-, hview⟩ | ⟨hhad, hnone, -⟩
    · exact hview.shows a (h.shown j r a htenant.symm)
    · -- a unit that `k` has given back had no other tenant
      have hjk : j = k := h.alone j k r (by rw [← htenant]; exact Option.some_ne_none a) hhad
      rw [hjk, hnone] at ha
      cases ha
  · intro r hr
    rcases hk r with ⟨htenant, hview⟩ | ⟨-, -, hvacant⟩
    · apply hview.vacant
      apply h.empty
      intro j
      by_cases hjk : j = k
      · rw [hjk, ← htenant]
        exact hr k
      · rw [← hothers j hjk]
        exact hr j
    · exact hvacant

/-- A unit changes its looks, but still shows its tenant's terms. -/
theorem alter (h : Sound vacant shows E) (htenant : E'.tenant = E.tenant)
    (hview : ∀ r, Keeps vacant shows (E.view r) (E'.view r) ∨
      ∃ k a, E.tenant k r = some a ∧ shows a (E'.view r)) :
    Sound vacant shows E' := by
  constructor
  · rw [htenant]
    exact h.alone
  · intro k r a ha
    rw [htenant] at ha
    rcases hview r with hsame | ⟨j, b, hb, hshows⟩
    · exact hsame.shows a (h.shown k r a ha)
    · have hjk : j = k := h.alone j k r (by rw [hb]; exact Option.some_ne_none b)
        (by rw [ha]; exact Option.some_ne_none a)
      rw [hjk, ha] at hb
      cases hb
      exact hshows
  · intro r hr
    rw [htenant] at hr
    rcases hview r with hsame | ⟨j, b, hb, -⟩
    · exact hsame.vacant (h.empty r hr)
    · rw [hr j] at hb
      cases hb

end Sound

end Tenancies
