import Mathlib.Logic.Function.Basic

namespace Ownership

variable {κ ρ β : Type*}

/-- Every cell that is there is held by one party alone, and nobody holds a cell that is not there. -/
structure Owned (heap : ρ → Option β) (holder : κ → Option ρ) : Prop where
  alone : ∀ j k r, holder j = some r → holder k = some r → j = k
  there : ∀ r, heap r ≠ none ↔ ∃ k, holder k = some r

/-- The party `k` comes to hold `x`, and touches only cells that are its own or were not there. -/
structure Moves [DecidableEq κ] (heap : ρ → Option β) (holder : κ → Option ρ) (heap' : ρ → Option β) (k : κ)
    (x : Option ρ) : Prop where
  owned : Owned heap' (Function.update holder k x)
  frame : ∀ r, heap' r ≠ heap r → holder k = some r ∨ heap r = none

/-- What is held, if anything is, stays with who has it or is given back. -/
def Drops [DecidableEq ρ] (heap : ρ → Option β) (r : ρ) (heap' : ρ → Option β) (before after : Bool) : Prop :=
  (heap' = heap ∧ after = before) ∨ (heap' = Function.update heap r none ∧ before = true ∧ after = false)

variable {heap heap' : ρ → Option β} {holder : κ → Option ρ} {j k : κ} {r r' : ρ} {b : β} {x : Option ρ}

/-- Nothing is there and nobody holds anything. -/
theorem Owned.empty (hheap : ∀ r, heap r = none) (hholder : ∀ k, holder k = none) : Owned heap holder := by
  constructor
  · intro j k r hj
    rw [hholder j] at hj
    cases hj
  · refine fun r => ⟨fun hr => absurd (hheap r) hr, fun ⟨k, hk⟩ => ?_⟩
    rw [hholder k] at hk
    cases hk

theorem Owned.fresh_ne (h : Owned heap holder) (hr : heap r = none) : holder j ≠ some r :=
  fun hj => (h.there r).mpr ⟨j, hj⟩ hr

/-- What others hold stays as it is. -/
theorem Owned.others (h : Owned heap holder) (hframe : ∀ r, heap' r ≠ heap r → holder k = some r ∨ heap r = none)
    (hjk : j ≠ k) (hj : holder j = some r) : heap' r = heap r := by
  by_contra hne
  rcases hframe r hne with hk | hr
  · exact hjk (h.alone j k r hj hk)
  · exact h.fresh_ne hr hj

variable [DecidableEq κ]

theorem Owned.keep (h : Owned heap holder) (hk : holder k = x) : Moves heap holder heap k x := by
  subst hk
  refine ⟨?_, fun r hr => absurd rfl hr⟩
  rw [Function.update_eq_self]
  exact h

variable [DecidableEq ρ]

theorem Owned.write (h : Owned heap holder) (hk : holder k = some r) :
    Moves heap holder (Function.update heap r (some b)) k (some r) := by
  constructor
  · rw [← hk, Function.update_eq_self]
    refine ⟨h.alone, fun r' => ?_⟩
    by_cases hr : r' = r
    · subst hr
      rw [Function.update_self]
      exact ⟨fun _ => ⟨k, hk⟩, fun _ => Option.some_ne_none b⟩
    · rw [Function.update_of_ne hr]
      exact h.there r'
  · intro r' hne
    by_cases hr : r' = r
    · subst hr
      exact .inl hk
    · rw [Function.update_of_ne hr] at hne
      exact absurd rfl hne

/-- What is held is there, and can be changed where it is. -/
theorem Owned.modify {f : β → β} (h : Owned heap holder) (hk : holder k = some r) :
    Moves heap holder (Function.update heap r ((heap r).map f)) k (some r) := by
  obtain ⟨b, hb⟩ := Option.ne_none_iff_exists'.mp ((h.there r).mpr ⟨k, hk⟩)
  rw [hb]
  exact h.write hk

theorem Owned.give (h : Owned heap holder) (hk : holder k = some r) :
    Moves heap holder (Function.update heap r none) k none := by
  constructor
  · constructor
    · intro i j r' hi hj
      by_cases hik : i = k
      · rw [hik, Function.update_self] at hi
        cases hi
      · by_cases hjk : j = k
        · rw [hjk, Function.update_self] at hj
          cases hj
        · rw [Function.update_of_ne hik] at hi
          rw [Function.update_of_ne hjk] at hj
          exact h.alone i j r' hi hj
    · intro r'
      by_cases hr : r' = r
      · subst hr
        rw [Function.update_self]
        refine ⟨fun hne => absurd rfl hne, ?_⟩
        rintro ⟨j, hj⟩
        by_cases hjk : j = k
        · rw [hjk, Function.update_self] at hj
          cases hj
        · rw [Function.update_of_ne hjk] at hj
          exact absurd (h.alone j k r' hj hk) hjk
      · rw [Function.update_of_ne hr, h.there r']
        constructor
        · rintro ⟨j, hj⟩
          refine ⟨j, ?_⟩
          have hjk : j ≠ k := by
            rintro rfl
            rw [hk] at hj
            exact hr (Option.some.inj hj).symm
          rw [Function.update_of_ne hjk]
          exact hj
        · rintro ⟨j, hj⟩
          by_cases hjk : j = k
          · rw [hjk, Function.update_self] at hj
            cases hj
          · rw [Function.update_of_ne hjk] at hj
            exact ⟨j, hj⟩
  · intro r' hne
    by_cases hr : r' = r
    · subst hr
      exact .inl hk
    · rw [Function.update_of_ne hr] at hne
      exact absurd rfl hne

theorem Drops.kept {before : Bool} : Drops heap r heap before before := .inl ⟨rfl, rfl⟩

theorem Drops.given : Drops heap r (Function.update heap r none) true false := .inr ⟨rfl, rfl, rfl⟩

theorem Drops.held {before after : Bool} (h : Drops heap r heap' before after) (hafter : after = true) :
    before = true ∧ heap' = heap := by
  rcases h with ⟨hheap, rfl⟩ | ⟨-, -, rfl⟩
  · exact ⟨hafter, hheap⟩
  · cases hafter

theorem Owned.drop {before after : Bool} (h : Owned heap holder) (hdrops : Drops heap r heap' before after)
    (hk : holder k = if before then some r else none) :
    Moves heap holder heap' k (if after then some r else none) := by
  rcases hdrops with ⟨rfl, rfl⟩ | ⟨rfl, rfl, rfl⟩
  · exact h.keep hk
  · exact h.give hk

theorem Owned.take (h : Owned heap holder) (hk : holder k = none) (hr : heap r = none) :
    Moves heap holder (Function.update heap r (some b)) k (some r) := by
  constructor
  · constructor
    · intro i j r' hi hj
      by_cases hik : i = k
      · by_cases hjk : j = k
        · rw [hik, hjk]
        · rw [hik, Function.update_self] at hi
          rw [Function.update_of_ne hjk, ← hi] at hj
          exact absurd hj (h.fresh_ne hr)
      · rw [Function.update_of_ne hik] at hi
        by_cases hjk : j = k
        · rw [hjk, Function.update_self] at hj
          rw [← hj] at hi
          exact absurd hi (h.fresh_ne hr)
        · rw [Function.update_of_ne hjk] at hj
          exact h.alone i j r' hi hj
    · intro r'
      by_cases hr' : r' = r
      · subst hr'
        rw [Function.update_self]
        exact ⟨fun _ => ⟨k, Function.update_self ..⟩, fun _ => Option.some_ne_none b⟩
      · rw [Function.update_of_ne hr', h.there r']
        constructor
        · rintro ⟨j, hj⟩
          refine ⟨j, ?_⟩
          have hjk : j ≠ k := by
            rintro rfl
            rw [hk] at hj
            cases hj
          rw [Function.update_of_ne hjk]
          exact hj
        · rintro ⟨j, hj⟩
          by_cases hjk : j = k
          · rw [hjk, Function.update_self] at hj
            exact absurd (Option.some.inj hj).symm hr'
          · rw [Function.update_of_ne hjk] at hj
            exact ⟨j, hj⟩
  · intro r' hne
    by_cases hr' : r' = r
    · subst hr'
      exact .inr hr
    · rw [Function.update_of_ne hr'] at hne
      exact absurd rfl hne

/-- A new cell takes the place of the one that is held. -/
theorem Owned.swap (h : Owned heap holder) (hk : holder k = some r) (hr : heap r' = none) :
    Moves heap holder (Function.update (Function.update heap r none) r' (some b)) k (some r') := by
  have hgive := h.give hk
  have hne : r' ≠ r := by
    rintro rfl
    exact h.fresh_ne hr hk
  have hfree : Function.update heap r none r' = none := by
    rw [Function.update_of_ne hne]
    exact hr
  have htake := hgive.owned.take (b := b) (Function.update_self k none holder) hfree
  constructor
  · have howned := htake.owned
    rwa [Function.update_idem] at howned
  · intro i hi
    by_cases hir : i = r
    · rw [hir]
      exact .inl hk
    · right
      by_cases hir' : i = r'
      · rw [hir']
        exact hr
      · rw [Function.update_of_ne hir', Function.update_of_ne hir] at hi
        exact absurd rfl hi

/-- What `k` holds goes to a party that has held nothing. -/
theorem Owned.pass (h : Owned heap holder) (hk : holder k = some r) (hj : holder j = none) :
    Owned heap (Function.update (Function.update holder k none) j (some r)) := by
  have hjk : j ≠ k := by
    rintro rfl
    rw [hk] at hj
    cases hj
  obtain ⟨b, hb⟩ := Option.ne_none_iff_exists'.mp ((h.there r).mpr ⟨k, hk⟩)
  have hnone : Function.update holder k none j = none := by
    rw [Function.update_of_ne hjk]
    exact hj
  have htake := (h.give hk).owned.take (b := b) hnone (Function.update_self r none heap)
  have howned := htake.owned
  rw [Function.update_idem, ← hb, Function.update_eq_self] at howned
  exact howned

end Ownership
