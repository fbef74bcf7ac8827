import Mathlib.Logic.Function.Basic
import Mathlib.Data.List.Nodup

namespace Fields

/-- A record seen field by field: what a field holds, and the copying of one field from a record into
another. -/
structure View (ι R : Type*) (V : ι → Type*) where
  value : (a : ι) → R → V a
  copy : ι → R → R → R
  value_copy : ∀ a src dst, value a (copy a src dst) = value a src
  value_copy_of_ne : ∀ {a b}, b ≠ a → ∀ src dst, value b (copy a src dst) = value b dst

variable {ι R : Type*} {V : ι → Type*} (F : View ι R V) {src dst : R} {a b : ι} {l : List ι}
variable {p : ι → Bool}

/-- Copy those fields of a list, in its order, that a mask selects. -/
def View.copyMasked (p : ι → Bool) (src : R) : List ι → R → R
  | [], dst => dst
  | a :: l, dst => View.copyMasked p src l (if p a then F.copy a src dst else dst)

theorem View.value_copyMasked_of_not_mem (h : ¬ (b ∈ l ∧ p b = true)) :
    F.value b (F.copyMasked p src l dst) = F.value b dst := by
  induction l generalizing dst with
  | nil => rfl
  | cons a l ih =>
    have hrest : ¬ (b ∈ l ∧ p b = true) := fun hb => h ⟨List.mem_cons_of_mem _ hb.1, hb.2⟩
    rw [copyMasked, ih hrest]
    split
    next hp =>
      apply F.value_copy_of_ne
      rintro rfl
      exact h ⟨List.mem_cons_self, hp⟩
    next => rfl

theorem View.value_copyMasked_of_eq (h : F.value b dst = F.value b src) :
    F.value b (F.copyMasked p src l dst) = F.value b src := by
  induction l generalizing dst with
  | nil => exact h
  | cons a l ih =>
    rw [copyMasked]
    apply ih
    split
    next =>
      by_cases hab : b = a
      · rw [hab]
        exact F.value_copy a src dst
      · rw [F.value_copy_of_ne hab, h]
    next => exact h

theorem View.value_copyMasked_of_mem (hb : b ∈ l) (hp : p b = true) :
    F.value b (F.copyMasked p src l dst) = F.value b src := by
  induction l generalizing dst with
  | nil => simp at hb
  | cons a l ih =>
    rw [copyMasked]
    rcases List.mem_cons.mp hb with rfl | hb
    · rw [if_pos hp]
      exact F.value_copyMasked_of_eq (F.value_copy b src dst)
    · exact ih hb

/-- What no field's copying changes stays. -/
theorem View.copyMasked_keeps {β : Type*} {f : R → β}
    (hf : ∀ a src dst, f (F.copy a src dst) = f dst) : f (F.copyMasked p src l dst) = f dst := by
  induction l generalizing dst with
  | nil => rfl
  | cons a l ih =>
    rw [copyMasked, ih]
    split
    next => exact hf a src dst
    next => rfl

/-- Sets of fields as a machine word holds them: asking for a field, and taking one out. -/
structure Mask (ι M : Type*) where
  has : M → ι → Bool
  clear : ι → M → M
  has_clear : ∀ a m, has (clear a m) a = false
  has_clear_of_ne : ∀ {a b}, b ≠ a → ∀ m, has (clear a m) b = has m b

variable {M : Type*} (K : Mask ι M) {m : M}

/-- Copying with a mask that loses each field it has copied: what is left of the mask, and the record. -/
def View.copyClearing (src : R) : List ι → M × R → M × R
  | [], s => s
  | a :: l, s =>
    View.copyClearing src l (if K.has s.1 a then (K.clear a s.1, F.copy a src s.2) else s)

theorem View.copyMasked_congr {q : ι → Bool} (h : ∀ a ∈ l, p a = q a) :
    F.copyMasked p src l dst = F.copyMasked q src l dst := by
  induction l generalizing dst with
  | nil => rfl
  | cons a l ih =>
    rw [copyMasked, copyMasked, h a List.mem_cons_self]
    exact ih fun b hb => h b (List.mem_cons_of_mem _ hb)

/-- Clearing on the way changes nothing for a list without repetitions. -/
theorem View.copyClearing_snd (hl : l.Nodup) :
    (F.copyClearing K src l (m, dst)).2 = F.copyMasked (K.has m) src l dst := by
  induction l generalizing m dst with
  | nil => rfl
  | cons a l ih =>
    obtain ⟨ha, hl⟩ := List.nodup_cons.mp hl
    rw [copyClearing, copyMasked]
    by_cases hm : K.has m a = true
    · rw [if_pos hm, if_pos hm, ih hl]
      apply F.copyMasked_congr
      intro b hb
      apply K.has_clear_of_ne
      rintro rfl
      exact ha hb
    · rw [if_neg hm, if_neg hm, ih hl]

end Fields
