import Mathlib.Algebra.Order.Ring.Int
import Mathlib.Data.List.Basic
import Mathlib.Logic.Function.Iterate

namespace Sweeps

variable {ι σ : Type*} {goesOn : ι → Bool} {next : ι → ι} {body : ι → σ → σ} {i : ι} {s : σ}
  {k rounds : Nat}

/-- `for (; goesOn i; i = next i) body`, or nothing if it is still going on after so many rounds. -/
def sweep (goesOn : ι → Bool) (next : ι → ι) (body : ι → σ → σ) : Nat → ι → σ → Option σ
  | 0, _, _ => none
  | rounds + 1, i, s =>
    if goesOn i then sweep goesOn next body rounds (next i) (body i s) else some s

/-- The values of the counter in the first `k` rounds. -/
def counters (next : ι → ι) (i : ι) (k : Nat) : List ι := (List.range k).map fun j => next^[j] i

@[simp] theorem counters_zero : counters next i 0 = [] := rfl

@[simp] theorem counters_length : (counters next i k).length = k := by
  rw [counters, List.length_map, List.length_range]

theorem counters_succ : counters next i (k + 1) = i :: counters next (next i) k := by
  unfold counters
  rw [List.range_succ_eq_map, List.map_cons, List.map_map]
  rfl

/-- A loop that goes on for `k` rounds and not for another one. -/
theorem sweep_eq (hon : ∀ j < k, goesOn (next^[j] i) = true) (hoff : goesOn (next^[k] i) = false)
    (hrounds : k < rounds) :
    sweep goesOn next body rounds i s = some ((counters next i k).foldl (fun s i => body i s) s) := by
  induction k generalizing i s rounds with
  | zero =>
    obtain ⟨r, rfl⟩ : ∃ r, rounds = r + 1 := ⟨rounds - 1, by omega⟩
    have hoff : goesOn i = false := hoff
    rw [sweep, hoff]
    rfl
  | succ k ih =>
    obtain ⟨r, rfl⟩ : ∃ r, rounds = r + 1 := ⟨rounds - 1, by omega⟩
    have hfirst : goesOn i = true := hon 0 (by omega)
    have hrest : ∀ j < k, goesOn (next^[j] (next i)) = true := fun j hj => hon (j + 1) (by omega)
    rw [sweep, if_pos hfirst, ih hrest hoff (by omega), counters_succ, List.foldl_cons]

section UInt64

variable {first stop last : UInt64} {body : UInt64 → σ → σ}

theorem toNat_iterate (i : UInt64) {j : Nat} (h : i.toNat + j < 2 ^ 64) :
    ((· + 1)^[j] i).toNat = i.toNat + j := by
  induction j with
  | zero => rfl
  | succ j ih =>
    have hj := ih (by omega)
    have hone : (1 : UInt64).toNat = 1 := rfl
    rw [Function.iterate_succ_apply', UInt64.toNat_add, hj, hone]
    omega

theorem counters_toNat (h : first.toNat + k ≤ 2 ^ 64) :
    (counters (· + 1) first k).map UInt64.toNat = List.range' first.toNat k := by
  unfold counters
  rw [List.map_map, List.range'_eq_map_range]
  refine List.map_congr_left fun j hj => ?_
  have hj := List.mem_range.mp hj
  exact toNat_iterate first (by omega)

/-- `for (i = first; i < stop; i++)` -/
theorem sweep_below (h : first ≤ stop) (hrounds : stop.toNat - first.toNat < rounds) :
    sweep (fun i => decide (i < stop)) (· + 1) body rounds first s =
      some ((counters (· + 1) first (stop.toNat - first.toNat)).foldl (fun s i => body i s) s) := by
  have hle : first.toNat ≤ stop.toNat := h
  have hstop := stop.toNat_lt
  refine sweep_eq (fun j hj => ?_) ?_ hrounds
  · rw [decide_eq_true_iff, UInt64.lt_iff_toNat_lt, toNat_iterate first (by omega)]
    omega
  · rw [decide_eq_false_iff_not, UInt64.lt_iff_toNat_lt, toNat_iterate first (by omega)]
    omega

/-- `for (i = first; i <= last; i++)`, with a `last` that is not the greatest number there is. -/
theorem sweep_upTo (hlast : last.toNat + 1 < 2 ^ 64) (hrounds : last.toNat + 1 - first.toNat < rounds) :
    sweep (fun i => decide (i ≤ last)) (· + 1) body rounds first s =
      some ((counters (· + 1) first (last.toNat + 1 - first.toNat)).foldl (fun s i => body i s) s) := by
  have hfirst := first.toNat_lt
  refine sweep_eq (fun j hj => ?_) ?_ hrounds
  · rw [decide_eq_true_iff, UInt64.le_iff_toNat_le, toNat_iterate first (by omega)]
    omega
  · rw [decide_eq_false_iff_not, UInt64.le_iff_toNat_le, toNat_iterate first (by omega)]
    omega

end UInt64

end Sweeps
