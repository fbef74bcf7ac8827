import Mathlib.Data.Nat.Bitwise

namespace Alignment

variable {w k x bytes : Nat}

/-- A mask of the high bits keeps the multiple of the power of two below. -/
theorem and_high_mask (hx : x < 2 ^ w) (hk : k ≤ w) :
    x &&& ((2 ^ k - 1) ^^^ (2 ^ w - 1)) = x - x % 2 ^ k := by
  have hmul : x - x % 2 ^ k = x / 2 ^ k * 2 ^ k := by
    have hdiv := Nat.div_add_mod' x (2 ^ k)
    omega
  have hshift : x / 2 ^ k * 2 ^ k = x >>> k <<< k := by
    rw [Nat.shiftLeft_eq, Nat.shiftRight_eq_div_pow]
  rw [hmul, hshift]
  apply Nat.eq_of_testBit_eq
  intro i
  rw [Nat.testBit_and, Nat.testBit_xor, Nat.testBit_two_pow_sub_one, Nat.testBit_two_pow_sub_one,
    Nat.testBit_shiftLeft, Nat.testBit_shiftRight]
  by_cases hik : i < k
  · have hiw : i < w := by omega
    simp [hik, hiw]
  · have hki : k ≤ i := by omega
    have hsum : k + (i - k) = i := by omega
    by_cases hiw : i < w
    · simp [hik, hiw, hsum]
      omega
    · have hbit : x.testBit i = false := by
        apply Nat.testBit_eq_false_of_lt
        exact Nat.lt_of_lt_of_le hx (Nat.pow_le_pow_right (by decide) (by omega))
      simp [hbit, hsum]

/-- The next multiple of a power of two after a number of `w` bits, in `w` bits. -/
def next (w k x : Nat) : Nat := (x + 2 ^ k) % 2 ^ w - (x + 2 ^ k) % 2 ^ w % 2 ^ k

theorem next_aligned : next w k x % 2 ^ k = 0 := by
  have hmul : next w k x = (x + 2 ^ k) % 2 ^ w / 2 ^ k * 2 ^ k := by
    have hdiv := Nat.div_add_mod' ((x + 2 ^ k) % 2 ^ w) (2 ^ k)
    unfold next
    omega
  rw [hmul, Nat.mul_mod_left]

theorem next_mod (hk : k ≤ w) : (x + 2 ^ k) % 2 ^ w % 2 ^ k = x % 2 ^ k := by
  rw [Nat.mod_mod_of_dvd _ (Nat.pow_dvd_pow 2 hk), Nat.add_mod_right]

/-- The way to the next multiple, around the end of the numbers if need be. -/
theorem next_gap (hx : x < 2 ^ w) (hk : k ≤ w) (hlow : x % 2 ^ k ≠ 0) :
    (next w k x + 2 ^ w - x) % 2 ^ w = 2 ^ k - x % 2 ^ k := by
  have hmod := next_mod (x := x) hk
  have hpow : 2 ^ k ≤ 2 ^ w := Nat.pow_le_pow_right (by decide) hk
  have hr : x % 2 ^ k < 2 ^ k := Nat.mod_lt _ (Nat.two_pow_pos k)
  have hle : (x + 2 ^ k) % 2 ^ w % 2 ^ k ≤ (x + 2 ^ k) % 2 ^ w := Nat.mod_le _ _
  unfold next
  rw [hmod] at hle ⊢
  by_cases hfits : x + 2 ^ k < 2 ^ w
  · rw [Nat.mod_eq_of_lt hfits] at hle ⊢
    have hgap : x + 2 ^ k - x % 2 ^ k + 2 ^ w - x = 2 ^ w + (2 ^ k - x % 2 ^ k) := by omega
    rw [hgap, Nat.add_mod_left]
    apply Nat.mod_eq_of_lt
    omega
  · have hwrap : (x + 2 ^ k) % 2 ^ w = x + 2 ^ k - 2 ^ w := by
      rw [Nat.mod_eq_sub_mod (by omega)]
      apply Nat.mod_eq_of_lt
      omega
    rw [hwrap] at hle ⊢
    have hgap : x + 2 ^ k - 2 ^ w - x % 2 ^ k + 2 ^ w - x = 2 ^ k - x % 2 ^ k := by omega
    rw [hgap]
    apply Nat.mod_eq_of_lt
    omega

/-- Doubling until a number of bytes has room. -/
def grow (bytes : Nat) : Nat → Nat → Nat
  | 0, area => area
  | fuel + 1, area => if area < bytes then grow bytes fuel (2 * area) else area

theorem grow_pow {fuel : Nat} (h : bytes ≤ 2 ^ (k + fuel)) :
    ∃ j, k ≤ j ∧ j ≤ k + fuel ∧ grow bytes fuel (2 ^ k) = 2 ^ j ∧ bytes ≤ 2 ^ j := by
  induction fuel generalizing k with
  | zero => exact ⟨k, by omega, by omega, rfl, h⟩
  | succ fuel ih =>
    rw [grow]
    split
    next =>
      have hdouble : 2 * 2 ^ k = 2 ^ (k + 1) := by rw [Nat.pow_succ, Nat.mul_comm]
      rw [hdouble]
      obtain ⟨j, hkj, hj, hgrow, hroom⟩ := ih (k := k + 1) (by rwa [Nat.add_right_comm])
      exact ⟨j, by omega, by omega, hgrow, hroom⟩
    next hroom => exact ⟨k, by omega, by omega, rfl, by omega⟩

end Alignment
