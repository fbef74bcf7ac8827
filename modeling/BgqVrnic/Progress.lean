import BgqVrnic.Runs
import Mathlib.Algebra.Order.BigOperators.Group.Finset
import Mathlib.Order.WellFounded

namespace Progress

open Runs

variable {σ ι α : Type*} {step : σ → ι → Option σ} {allowed : ι → Prop} {goal : σ → Prop} {s s' : σ}
  {is : List ι}

/-- Inputs of the allowed kind lead from the state to the goal. -/
def Reaches (step : σ → ι → Option σ) (allowed : ι → Prop) (goal : σ → Prop) (s : σ) : Prop :=
  ∃ is s', (∀ i ∈ is, allowed i) ∧ run step s is = some s' ∧ goal s'

theorem Reaches.here (h : goal s) : Reaches step allowed goal s :=
  ⟨[], s, fun _ hi => absurd hi List.not_mem_nil, rfl, h⟩

theorem Reaches.after {i : ι} (hi : allowed i) (hs : step s i = some s') (h : Reaches step allowed goal s') :
    Reaches step allowed goal s := by
  obtain ⟨is, t, his, hr, ht⟩ := h
  refine ⟨i :: is, t, ?_, ?_, ht⟩
  · intro j hj
    rcases List.mem_cons.mp hj with rfl | hj
    · exact hi
    · exact his j hj
  · rw [run, hs]
    exact hr

/-- Where an allowed step keeps the invariant and lowers the rank as long as the goal is not reached, it is
reached. -/
theorem reaches_of_rank [Preorder α] [WellFoundedLT α] (Inv : σ → Prop) (rank : σ → α)
    (hstep : ∀ s, Inv s → ¬ goal s →
      ∃ i s', allowed i ∧ step s i = some s' ∧ Inv s' ∧ rank s' < rank s)
    (h : Inv s) : Reaches step allowed (fun s' => Inv s' ∧ goal s') s := by
  induction hr : rank s using WellFoundedLT.induction generalizing s with
  | ind a ih =>
    subst hr
    by_cases hgoal : goal s
    · exact .here ⟨h, hgoal⟩
    · obtain ⟨i, s', hi, hs, hinv, hlt⟩ := hstep s h hgoal
      exact .after hi hs (ih _ hlt hinv rfl)

/-- One party alone lowers the sum over all parties. -/
theorem sum_lt {ν : Type*} [Fintype ν] {f g : ν → Nat} (v : ν) (hlt : f v < g v) (hother : ∀ w, w ≠ v → f w = g w) :
    ∑ w, f w < ∑ w, g w := by
  apply Finset.sum_lt_sum
  · intro w _
    by_cases hw : w = v
    · subst hw
      exact hlt.le
    · exact (hother w hw).le
  · exact ⟨v, Finset.mem_univ v, hlt⟩

end Progress
