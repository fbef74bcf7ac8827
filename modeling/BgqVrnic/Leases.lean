import Mathlib.Data.List.Nodup
import Mathlib.Logic.Function.Basic

namespace Leases

/-- Resources that are taken, given up and taken again. `uses` counts how often each has been taken, a
holder has a resource for one of its uses, and `spent` lists the uses that have been given up. -/
structure Ledger (ρ η : Type*) where
  uses : ρ → Nat
  live : ρ → Prop
  holds : η → Option (ρ × Nat)
  spent : List (ρ × Nat)

variable {ρ η : Type*}

/-- A holder's use is the present one, it is the only holder's, and no use is given up twice. -/
structure Sound (L : Ledger ρ η) : Prop where
  current : ∀ h r n, L.holds h = some (r, n) → L.live r ∧ L.uses r = n ∧ (r, n) ∉ L.spent
  alone : ∀ h h' r n n', L.holds h = some (r, n) → L.holds h' = some (r, n') → h = h'
  past : ∀ r n, (r, n) ∈ L.spent → n ≤ L.uses r
  once : L.spent.Nodup

namespace Sound

variable {L L' : Ledger ρ η} {a b : η} {r₀ : ρ} {n₀ : Nat}

/-- Holders may lose what they have. -/
theorem keep (h : Sound L) (huses : L'.uses = L.uses) (hspent : L'.spent = L.spent)
    (hholds : ∀ x r n, L'.holds x = some (r, n) → L.holds x = some (r, n) ∧ L'.live r) :
    Sound L' where
  current x r n hx := by
    obtain ⟨hold, hlive⟩ := hholds x r n hx
    obtain ⟨-, hn, hnot⟩ := h.current x r n hold
    rw [huses, hspent]
    exact ⟨hlive, hn, hnot⟩
  alone x y r n n' hx hy := h.alone x y r n n' (hholds x r n hx).1 (hholds y r n' hy).1
  past := by
    rw [huses, hspent]
    exact h.past
  once := hspent ▸ h.once

/-- A resource that was not in use is taken, for one holder at most. -/
theorem take [DecidableEq ρ] (h : Sound L) (hdead : ¬ L.live r₀)
    (huses : L'.uses = Function.update L.uses r₀ (L.uses r₀ + 1)) (hspent : L'.spent = L.spent)
    (hholds : ∀ x r n, L'.holds x = some (r, n) →
      L.holds x = some (r, n) ∧ (L.live r → L'.live r) ∨
        x = a ∧ r = r₀ ∧ n = L.uses r₀ + 1 ∧ L'.live r₀) : Sound L' where
  current x r n hx := by
    rw [huses, hspent]
    rcases hholds x r n hx with ⟨hold, hlive⟩ | ⟨-, rfl, rfl, hlive⟩
    · obtain ⟨hl, hn, hnot⟩ := h.current x r n hold
      have hne : r ≠ r₀ := by
        rintro rfl
        exact hdead hl
      rw [Function.update_of_ne hne]
      exact ⟨hlive hl, hn, hnot⟩
    · rw [Function.update_self]
      refine ⟨hlive, rfl, fun hmem => ?_⟩
      have hle := h.past _ _ hmem
      omega
  alone x y r n n' hx hy := by
    have hold : ∀ z k, L.holds z = some (r, k) → r ≠ r₀ := by
      rintro z k hz rfl
      exact hdead (h.current z r k hz).1
    rcases hholds x r n hx with ⟨hx, -⟩ | ⟨rfl, rfl, -, -⟩
    · rcases hholds y r n' hy with ⟨hy, -⟩ | ⟨-, rfl, -, -⟩
      · exact h.alone x y r n n' hx hy
      · exact absurd rfl (hold x n hx)
    · rcases hholds y r n' hy with ⟨hy, -⟩ | ⟨rfl, -, -, -⟩
      · exact absurd rfl (hold y n' hy)
      · rfl
  past r n hmem := by
    rw [hspent] at hmem
    have hle := h.past r n hmem
    rw [huses, Function.update_apply]
    split
    next he =>
      subst he
      omega
    next => exact hle
  once := hspent ▸ h.once

/-- One holder hands its use on to another. -/
theorem pass (h : Sound L) (huses : L'.uses = L.uses) (hspent : L'.spent = L.spent)
    (ha : L.holds a = some (r₀, n₀))
    (hholds : ∀ x r n, L'.holds x = some (r, n) →
      (x ≠ a ∧ L.holds x = some (r, n) ∨ x = b ∧ (r, n) = (r₀, n₀)) ∧ L'.live r) : Sound L' where
  current x r n hx := by
    rw [huses, hspent]
    obtain ⟨⟨-, hold⟩ | ⟨-, he⟩, hlive⟩ := hholds x r n hx
    · exact ⟨hlive, (h.current x r n hold).2⟩
    · rw [← he] at ha
      exact ⟨hlive, (h.current a r n ha).2⟩
  alone x y r n n' hx hy := by
    obtain ⟨⟨hxa, hx⟩ | ⟨rfl, hx⟩, -⟩ := hholds x r n hx
    · obtain ⟨⟨-, hy⟩ | ⟨-, hy⟩, -⟩ := hholds y r n' hy
      · exact h.alone x y r n n' hx hy
      · rw [← hy] at ha
        exact absurd (h.alone x a r n n' hx ha) hxa
    · obtain ⟨⟨hya, hy⟩ | ⟨rfl, -⟩, -⟩ := hholds y r n' hy
      · rw [← hx] at ha
        exact absurd (h.alone y a r n' n hy ha) hya
      · rfl
  past := by
    rw [huses, hspent]
    exact h.past
  once := hspent ▸ h.once

/-- A holder gives its use up. -/
theorem spend (h : Sound L) (ha : L.holds a = some (r₀, n₀)) (huses : L'.uses = L.uses)
    (hspent : L'.spent = L.spent ++ [(r₀, n₀)])
    (hholds : ∀ x r n, L'.holds x = some (r, n) →
      x ≠ a ∧ L.holds x = some (r, n) ∧ L'.live r) : Sound L' where
  current x r n hx := by
    obtain ⟨hxa, hold, hlive⟩ := hholds x r n hx
    obtain ⟨-, hn, hnot⟩ := h.current x r n hold
    rw [huses, hspent]
    refine ⟨hlive, hn, fun hmem => ?_⟩
    rcases List.mem_append.mp hmem with hmem | hmem
    · exact hnot hmem
    · rw [← List.mem_singleton.mp hmem] at ha
      exact hxa (h.alone x a r n n hold ha)
  alone x y r n n' hx hy :=
    h.alone x y r n n' (hholds x r n hx).2.1 (hholds y r n' hy).2.1
  past r n hmem := by
    rw [hspent] at hmem
    rw [huses]
    rcases List.mem_append.mp hmem with hmem | hmem
    · exact h.past r n hmem
    · cases List.mem_singleton.mp hmem
      have hn := (h.current a r₀ n₀ ha).2.1
      omega
  once := by
    rw [hspent]
    refine h.once.append (List.nodup_singleton _) fun x hx hs => ?_
    rw [List.mem_singleton.mp hs] at hx
    exact (h.current a r₀ n₀ ha).2.2 hx

end Sound

end Leases
