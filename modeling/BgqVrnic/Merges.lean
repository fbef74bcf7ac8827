import Mathlib.Algebra.BigOperators.Group.Finset.Basic
import Mathlib.Data.List.Basic
import Mathlib.Order.Basic

namespace Merges

variable {ι α κ : Type*}

/-- `x` has gone from the front of list `i`, and no list starts with a smaller one. -/
structure Takes [LE κ] (key : α → κ) (Ls : ι → List α) (i : ι) (x : α) (Ls' : ι → List α) : Prop where
  front : Ls i = x :: Ls' i
  others : ∀ j, j ≠ i → Ls' j = Ls j
  least : ∀ j y, (Ls j).head? = some y → key x ≤ key y

/-- From the lists `Ls`, with one least front element after the other going to `out`, `Ls'` are left. -/
inductive Merge [LE κ] (key : α → κ) : (ι → List α) → List (ι × α) → (ι → List α) → Prop
  | done (Ls : ι → List α) : Merge key Ls [] Ls
  | take {Ls Ls' Ls'' : ι → List α} {i : ι} {x : α} {out : List (ι × α)} :
    Takes key Ls i x Ls' → Merge key Ls' out Ls'' → Merge key Ls ((i, x) :: out) Ls''

variable {key : α → κ} {Ls Ls' Ls'' : ι → List α} {i j : ι} {x y : α} {out out' : List (ι × α)}

theorem Merge.trans [LE κ] (h : Merge key Ls out Ls') (h' : Merge key Ls' out' Ls'') :
    Merge key Ls (out ++ out') Ls'' := by
  induction h with
  | done Ls => exact h'
  | take htake _ ih => exact .take htake (ih h')

/-- Of every list the front has gone out, in its order, and the rest is left. -/
theorem Merge.shares [LE κ] [DecidableEq ι] (h : Merge key Ls out Ls') (j : ι) :
    Ls j = (out.filter fun p => p.1 = j).map Prod.snd ++ Ls' j := by
  induction h with
  | done Ls => rfl
  | @take Ls Ls' Ls'' i x out htake _ ih =>
    by_cases hj : j = i
    · subst hj
      rw [htake.front, ih]
      simp
    · rw [← htake.others j hj, ih]
      simp [Ne.symm hj]

theorem Merge.mem [LE κ] [DecidableEq ι] (h : Merge key Ls out Ls') (hx : (j, x) ∈ out) :
    x ∈ Ls j := by
  rw [h.shares j]
  refine List.mem_append_left _ (List.mem_map.mpr ⟨(j, x), ?_, rfl⟩)
  exact List.mem_filter.mpr ⟨hx, by simp⟩

/-- One element less is in the lists of `s` once one of them has given one. -/
theorem Takes.length [LE κ] [DecidableEq ι] (h : Takes key Ls i x Ls') {s : Finset ι} (hi : i ∈ s) :
    ∑ j ∈ s, (Ls j).length = (∑ j ∈ s, (Ls' j).length) + 1 := by
  have hrest : ∑ j ∈ s.erase i, (Ls j).length = ∑ j ∈ s.erase i, (Ls' j).length :=
    Finset.sum_congr rfl fun j hj => by rw [h.others j (Finset.ne_of_mem_erase hj)]
  rw [← Finset.add_sum_erase s _ hi, ← Finset.add_sum_erase s (fun j => (Ls' j).length) hi, hrest,
    h.front, List.length_cons]
  omega

/-- What has gone out and what is left are as many as there were. -/
theorem Merge.length [LE κ] [DecidableEq ι] {s : Finset ι} (h : Merge key Ls out Ls')
    (hs : ∀ j, j ∉ s → Ls j = []) :
    ∑ j ∈ s, (Ls j).length = out.length + ∑ j ∈ s, (Ls' j).length := by
  induction h with
  | done Ls => simp
  | @take Ls Ls' Ls'' i x out htake _ ih =>
    have hi : i ∈ s := by
      by_contra hi
      have hnil := hs i hi
      rw [htake.front] at hnil
      cases hnil
    have hs' : ∀ j, j ∉ s → Ls' j = [] := fun j hj => by
      rw [htake.others j fun hji => hj (hji ▸ hi)]
      exact hs j hj
    rw [htake.length hi, ih hs', List.length_cons]
    omega

variable [Preorder κ]

/-- What has been taken is no greater than anything in sorted lists. -/
theorem Takes.least_mem (h : Takes key Ls i x Ls')
    (hs : ∀ j, (Ls j).Pairwise fun a b => key a ≤ key b) (hy : y ∈ Ls j) : key x ≤ key y := by
  have hsorted := hs j
  have hleast := h.least j
  cases hl : Ls j with
  | nil => simp [hl] at hy
  | cons z l =>
    rw [hl] at hy hsorted hleast
    have hz := hleast z rfl
    rcases List.mem_cons.mp hy with rfl | hy
    · exact hz
    · exact hz.trans ((List.pairwise_cons.mp hsorted).1 y hy)

theorem Takes.sorted (h : Takes key Ls i x Ls')
    (hs : ∀ j, (Ls j).Pairwise fun a b => key a ≤ key b) (j : ι) :
    (Ls' j).Pairwise fun a b => key a ≤ key b := by
  by_cases hj : j = i
  · subst hj
    have hsorted := hs j
    rw [h.front] at hsorted
    exact hsorted.of_cons
  · rw [h.others j hj]
    exact hs j

/-- Sorted lists go out sorted. -/
theorem Merge.sorted [DecidableEq ι] (h : Merge key Ls out Ls')
    (hs : ∀ j, (Ls j).Pairwise fun a b => key a ≤ key b) :
    out.Pairwise fun a b => key a.2 ≤ key b.2 := by
  induction h with
  | done Ls => exact List.Pairwise.nil
  | @take Ls Ls' Ls'' i x out htake hrest ih =>
    refine List.pairwise_cons.mpr ⟨fun p hp => ?_, ih (htake.sorted hs)⟩
    have hmem : p.2 ∈ Ls' p.1 := hrest.mem hp
    have hold : p.2 ∈ Ls p.1 := by
      by_cases hj : p.1 = i
      · rw [hj] at hmem ⊢
        rw [htake.front]
        exact List.mem_cons_of_mem x hmem
      · rwa [htake.others p.1 hj] at hmem
    exact htake.least_mem hs hold

end Merges
