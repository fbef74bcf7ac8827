import Mathlib.Data.List.Basic

namespace Bitmaps

/-- Whether the bit of weight `2 ^ b` is on. -/
def has (w : UInt64) (b : Nat) : Bool := w.toBitVec.getLsbD b

def bit (b : Nat) : UInt64 := 1 <<< UInt64.ofNat b

variable {u v w m : UInt64} {b c : Nat}

theorem ext (h : ∀ b, has u b = has v b) : u = v := by
  apply UInt64.eq_of_toBitVec_eq
  apply BitVec.eq_of_getLsbD_eq
  intro b _
  exact h b

@[simp] theorem has_zero : has 0 b = false := by
  simp [has]

@[simp] theorem has_or : has (u ||| v) b = (has u b || has v b) := by
  simp [has]

theorem has_and : has (u &&& v) b = (has u b && has v b) := by
  simp [has]

@[simp] theorem has_clear : has (w &&& ~~~m) b = (has w b && !has m b) := by
  by_cases hb : b < 64
  · simp [has, hb]
  · have hw : has w b = false := by
      rw [has, BitVec.getLsbD_of_ge _ _ (by omega)]
    rw [has_and, hw, Bool.false_and, Bool.false_and]

theorem has_bit (hc : c < 64) : has (bit c) b = decide (b = c) := by
  have hc' : (UInt64.ofNat c).toNat = c := UInt64.toNat_ofNat_of_lt' (by simp only [UInt64.size]; omega)
  have hshift : ((UInt64.ofNat c).toBitVec % 64).toNat = c := by
    simp only [BitVec.toNat_umod, UInt64.toNat_toBitVec, hc', show (64 : BitVec 64).toNat = 64 from rfl]
    omega
  simp only [has, bit, UInt64.toBitVec_shiftLeft, BitVec.shiftLeft_eq', BitVec.getLsbD_shiftLeft, hshift]
  by_cases h : b = c
  · subst h
    simp [hc]
  · have hne : ¬(b - c = 0 ∧ c ≤ b) := by omega
    simp [h]
    omega

theorem bit_ne_zero (hc : c < 64) : bit c ≠ 0 := by
  intro hzero
  have hhas := congrArg (fun w => has w c) hzero
  simp [has_bit hc] at hhas

/-- The usual test of a single bit. -/
theorem and_bit_ne_zero (hc : c < 64) : w &&& bit c ≠ 0 ↔ has w c = true := by
  constructor
  · intro h
    by_contra hw
    apply h
    apply ext
    intro b
    rw [has_and, has_bit hc, has_zero]
    by_cases hb : b = c
    · rw [hb, Bool.eq_false_iff.mpr hw, Bool.false_and]
    · rw [decide_eq_false hb, Bool.and_false]
  · intro h hzero
    have hbit := congrArg (fun v => has v c) hzero
    simp only [has_and, has_bit hc, h, has_zero, decide_true, Bool.and_true] at hbit
    cases hbit

/-- A word cut down to a byte. -/
theorem has_toUInt8 : has w.toUInt8.toUInt64 b = (decide (b < 8) && has w b) := by
  rw [has, UInt8.toBitVec_toUInt64, UInt64.toBitVec_toUInt8, BitVec.getLsbD_setWidth, BitVec.getLsbD_setWidth, has]
  by_cases hb : b < 8
  · rw [decide_eq_true hb, decide_eq_true (by omega : b < 64), Bool.true_and, Bool.true_and]
  · rw [decide_eq_false hb, Bool.false_and, Bool.and_false]

/-- A fold that adds to a word the bits of the elements it meets. -/
theorem has_foldl {σ β : Type*} (word : σ → UInt64) (add : σ → β → σ) (q : β → Bool)
    (hadd : ∀ s x, has (word (add s x)) b = (has (word s) b || q x)) (l : List β) (s : σ) :
    has (word (l.foldl add s)) b = (has (word s) b || l.any q) := by
  induction l generalizing s with
  | nil => rw [List.foldl_nil, List.any_nil, Bool.or_false]
  | cons x l ih => rw [List.foldl_cons, ih, hadd, List.any_cons, Bool.or_assoc]

end Bitmaps
