import Mathlib.Data.List.Basic

namespace Loops

variable {σ υ ι β : Type*} {f : σ → ι → σ} {is : List ι}

/-- What no turn of a loop changes. -/
theorem foldl_keeps (seen : σ → β) (h : ∀ i ∈ is, ∀ s, seen (f s i) = seen s) (s : σ) :
    seen (is.foldl f s) = seen s := by
  induction is generalizing s with
  | nil => rfl
  | cons i is ih =>
    rw [List.foldl_cons, ih fun j hj => h j (List.mem_cons_of_mem _ hj)]
    exact h i List.mem_cons_self s

/-- A loop each turn of which brings some units to rest: afterwards all that were hit in some turn are at rest, and
the others are as before. -/
theorem foldl_cells (seen : σ → υ → β) (hit : υ → ι → Prop) [∀ u i, Decidable (hit u i)] (settle : β → β)
    (hsettle : ∀ b, settle (settle b) = settle b)
    (h : ∀ i ∈ is, ∀ s u, seen (f s i) u = if hit u i then settle (seen s u) else seen s u) (s : σ) (u : υ) :
    seen (is.foldl f s) u = if ∃ i ∈ is, hit u i then settle (seen s u) else seen s u := by
  induction is generalizing s with
  | nil => simp
  | cons i is ih =>
    rw [List.foldl_cons, ih fun j hj => h j (List.mem_cons_of_mem _ hj), h i List.mem_cons_self]
    simp only [List.exists_mem_cons_iff]
    by_cases hi : hit u i
    · rw [if_pos hi, if_pos (Or.inl hi), hsettle, ite_self]
    · rw [if_neg hi]
      simp only [hi, false_or]

/-- A loop that does something at one index only. -/
theorem foldl_range_only {f : σ → Nat → σ} {k n : Nat} (hk : k < n) (h : ∀ s i, i ≠ k → f s i = s) (s : σ) :
    (List.range n).foldl f s = f s k := by
  induction n with
  | zero => omega
  | succ n ih =>
    rw [List.range_succ, List.foldl_append, List.foldl_cons, List.foldl_nil]
    by_cases hn : n = k
    · subst hn
      have hstill : ∀ i ∈ List.range n, ∀ t, id (f t i) = id t := fun i hi t =>
        h t i (Nat.ne_of_lt (List.mem_range.mp hi))
      have hbefore : (List.range n).foldl f s = s := foldl_keeps id hstill s
      rw [hbefore]
    · rw [h _ _ hn]
      apply ih
      omega

/-- A loop over parties each turn of which brings its party from `pre` to `post` and leaves the others where they
are. -/
theorem foldlM_parties {f : σ → ι → Option σ} {pre post : ι → σ → Prop} (hnodup : is.Nodup)
    (hturn : ∀ i s, pre i s →
      ∃ s', f s i = some s' ∧ post i s' ∧ ∀ j, j ≠ i → (pre j s → pre j s') ∧ (post j s → post j s'))
    {s : σ} (h : ∀ i ∈ is, pre i s) (hrest : ∀ i, i ∉ is → post i s) :
    ∃ s', is.foldlM f s = some s' ∧ ∀ i, post i s' := by
  induction is generalizing s with
  | nil => exact ⟨s, rfl, fun i => hrest i List.not_mem_nil⟩
  | cons i is ih =>
    obtain ⟨hi, hnodup⟩ := List.nodup_cons.mp hnodup
    obtain ⟨t, ht, hpost, hothers⟩ := hturn i s (h i List.mem_cons_self)
    have hpre : ∀ j ∈ is, pre j t := fun j hj =>
      (hothers j fun he => hi (he ▸ hj)).1 (h j (List.mem_cons_of_mem _ hj))
    have hdone : ∀ j, j ∉ is → post j t := by
      intro j hj
      by_cases hji : j = i
      · exact hji ▸ hpost
      · apply (hothers j hji).2
        apply hrest
        intro hmem
        rcases List.mem_cons.mp hmem with he | hmem
        · exact hji he
        · exact hj hmem
    obtain ⟨s', hs', hall⟩ := ih hnodup hpre hdone
    refine ⟨s', ?_, hall⟩
    rw [List.foldlM_cons, ht]
    exact hs'

end Loops
