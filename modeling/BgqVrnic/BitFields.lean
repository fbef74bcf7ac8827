import Mathlib.Algebra.Order.Ring.Int
import Mathlib.Data.List.Basic
import Mathlib.Tactic.Ring

namespace BitFields

/-- A row of fields, each with its width in bits and its value. -/
abbrev Row := List (Nat × Nat)

def width : Row → Nat
  | [] => 0
  | f :: fs => f.1 + width fs

/-- The row as one number, with its first field in the most significant bits. -/
def pack : Row → Nat
  | [] => 0
  | f :: fs => f.2 * 2 ^ width fs + pack fs

/-- No value is too large for its field. -/
def Fits (fs : Row) : Prop := ∀ f ∈ fs, f.2 < 2 ^ f.1

variable {fs gs : Row} {f : Nat × Nat}

theorem fits_cons : Fits (f :: fs) ↔ f.2 < 2 ^ f.1 ∧ Fits fs := List.forall_mem_cons

theorem Fits.tail (h : Fits (f :: fs)) : Fits fs := fun g hg => h g (List.mem_cons_of_mem _ hg)

theorem Fits.right (h : Fits (fs ++ gs)) : Fits gs := fun g hg => h g (List.mem_append_right _ hg)

theorem pack_lt (h : Fits fs) : pack fs < 2 ^ width fs := by
  induction fs with
  | nil => exact Nat.one_pos
  | cons f fs ih =>
    have hrest := ih h.tail
    have hf : f.2 + 1 ≤ 2 ^ f.1 := h f List.mem_cons_self
    calc pack (f :: fs) < (f.2 + 1) * 2 ^ width fs := by
          rw [pack, Nat.add_mul, Nat.one_mul]
          omega
      _ ≤ 2 ^ f.1 * 2 ^ width fs := Nat.mul_le_mul_right _ hf
      _ = 2 ^ width (f :: fs) := by rw [width, Nat.pow_add]

theorem width_append : width (fs ++ gs) = width fs + width gs := by
  induction fs with
  | nil => rw [List.nil_append, width, Nat.zero_add]
  | cons f fs ih => rw [List.cons_append, width, width, ih, Nat.add_assoc]

theorem pack_append : pack (fs ++ gs) = pack fs * 2 ^ width gs + pack gs := by
  induction fs with
  | nil => rw [List.nil_append, pack, Nat.zero_mul, Nat.zero_add]
  | cons f fs ih =>
    rw [List.cons_append, pack, pack, ih, width_append, Nat.pow_add, Nat.add_mul, Nat.mul_assoc, Nat.add_assoc]

/-- What is behind a field is shifted out. -/
theorem pack_shift (h : Fits gs) : pack (fs ++ gs) / 2 ^ width gs = pack fs := by
  rw [pack_append, Nat.mul_comm, Nat.mul_add_div (Nat.two_pow_pos _), Nat.div_eq_of_lt (pack_lt h), Nat.add_zero]

/-- Part of a field is read back from its place, with `a` bits in front of it in the field and `c` behind. -/
theorem pack_part {a w c : Nat} (h : Fits (fs ++ f :: gs)) (hf : f.1 = a + w + c) :
    pack (fs ++ f :: gs) / 2 ^ (width gs + c) % 2 ^ w = f.2 / 2 ^ c % 2 ^ w := by
  have hsplit : fs ++ f :: gs = (fs ++ [f]) ++ gs := by rw [List.append_assoc, List.singleton_append]
  have hfront : pack (fs ++ [f]) = 2 ^ c * (2 ^ w * (2 ^ a * pack fs)) + f.2 := by
    rw [pack_append]
    simp only [pack, width, Nat.add_zero, Nat.pow_zero, Nat.mul_one]
    rw [hf, Nat.pow_add, Nat.pow_add]
    ring
  rw [hsplit, Nat.pow_add, ← Nat.div_div_eq_div_mul, pack_shift h.right.tail, hfront,
    Nat.mul_add_div (Nat.two_pow_pos c), Nat.mul_add_mod]

/-- The bits of a number that are on, among the first `n`. -/
def ones (n v : Nat) : Nat := (List.range n).countP fun i => v.testBit i

variable {n v i j k : Nat}

theorem ones_succ : ones (n + 1) v = ones n v + (v.testBit n).toNat := by
  rw [ones, List.range_succ, List.countP_append, List.countP_singleton, ones]
  cases v.testBit n <;> rfl

theorem ones_pred_two_pow (hk : k ≤ n) : ones n (2 ^ k - 1) = k := by
  induction n generalizing k with
  | zero =>
    obtain rfl : k = 0 := by omega
    rfl
  | succ n ih =>
    rw [ones_succ, Nat.testBit_two_pow_sub_one]
    by_cases hkn : k ≤ n
    · rw [ih hkn, decide_eq_false (by omega)]
      rfl
    · obtain rfl : k = n + 1 := by omega
      have hsame : ones n (2 ^ (n + 1) - 1) = ones n (2 ^ n - 1) := by
        apply List.countP_congr
        intro i hi
        have hi := List.mem_range.mp hi
        rw [Nat.testBit_two_pow_sub_one, Nat.testBit_two_pow_sub_one, decide_eq_true (by omega),
          decide_eq_true (by omega)]
      rw [hsame, ih le_rfl, decide_eq_true (by omega)]
      rfl

theorem ones_eq_zero (h : ones n v = 0) (hi : i < n) : v.testBit i = false := by
  have hnone := List.countP_eq_zero.mp h i (List.mem_range.mpr hi)
  exact Bool.eq_false_iff.mpr hnone

/-- At most one bit is on in zero and in the powers of two. -/
theorem ones_le_one_iff (hv : v < 2 ^ n) : ones n v ≤ 1 ↔ v = 0 ∨ ∃ k < n, v = 2 ^ k := by
  induction n generalizing v with
  | zero =>
    obtain rfl : v = 0 := by omega
    exact ⟨fun _ => .inl rfl, fun _ => Nat.zero_le 1⟩
  | succ n ih =>
    rw [ones_succ]
    by_cases htop : v.testBit n = true
    · -- the highest bit is on, so that the rest has to be zero
      have hge := Nat.ge_two_pow_of_testBit htop
      rw [htop]
      constructor
      · intro h
        have hzero : ones n v = 0 := by
          change ones n v + 1 ≤ 1 at h
          omega
        refine .inr ⟨n, Nat.lt_succ_self n, ?_⟩
        apply Nat.eq_of_testBit_eq
        intro i
        rw [Nat.testBit_two_pow]
        rcases lt_trichotomy i n with hi | rfl | hi
        · rw [ones_eq_zero hzero hi, decide_eq_false (by omega)]
        · rw [htop, decide_eq_true rfl]
        · have hlt : v < 2 ^ i := hv.trans_le (Nat.pow_le_pow_right (by omega) hi)
          rw [Nat.testBit_lt_two_pow hlt, decide_eq_false (by omega)]
      · rintro (rfl | ⟨k, hk, rfl⟩)
        · rw [Nat.zero_testBit] at htop
          cases htop
        · rw [Nat.testBit_two_pow, decide_eq_true_eq] at htop
          subst htop
          have hzero : ones k (2 ^ k) = 0 := by
            apply List.countP_eq_zero.mpr
            intro i hi
            have hi := List.mem_range.mp hi
            rw [Nat.testBit_two_pow, decide_eq_true_eq]
            omega
          rw [hzero]
          rfl
    · have htop : v.testBit n = false := Bool.eq_false_iff.mpr htop
      have hlt : v < 2 ^ n := by
        by_contra hge
        have hbit := Nat.testBit_of_two_pow_le_and_two_pow_add_one_gt (Nat.le_of_not_lt hge) hv
        rw [htop] at hbit
        cases hbit
      rw [htop, Bool.toNat_false, Nat.add_zero, ih hlt]
      constructor
      · rintro (rfl | ⟨k, hk, rfl⟩)
        · exact .inl rfl
        · exact .inr ⟨k, by omega, rfl⟩
      · rintro (rfl | ⟨k, hk, rfl⟩)
        · exact .inl rfl
        · exact .inr ⟨k, (Nat.pow_lt_pow_iff_right (by omega)).mp hlt, rfl⟩

end BitFields
