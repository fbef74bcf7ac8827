import Mathlib.Logic.Function.Basic

namespace Reservations

/-- A cell of memory and the processors that hold a reservation on it. -/
structure Cell (κ α : Type*) where
  value : α
  reserved : κ → Bool

namespace Cell

variable {κ α : Type*} {loaded : κ → Option α} {c : Cell κ α} {k : κ} {u v : α}

/-- The store takes place only if `k` still holds its reservation. -/
def storeConditional (c : Cell κ α) (k : κ) (v : α) : Cell κ α × Bool :=
  if c.reserved k then (⟨v, fun _ => false⟩, true) else (c, false)

/-- Who still holds the reservation of its last load has loaded what is in the cell. -/
def Agrees (loaded : κ → Option α) (c : Cell κ α) : Prop :=
  ∀ k v, loaded k = some v → c.reserved k = true → v = c.value

theorem storeConditional_of_reserved (h : c.reserved k = true) :
    c.storeConditional k v = (⟨v, fun _ => false⟩, true) := if_pos h

theorem storeConditional_of_lost (h : c.reserved k = false) : c.storeConditional k v = (c, false) := by
  apply if_neg
  rw [h]
  exact Bool.false_ne_true

theorem agrees_of_none (h : ∀ j, c.reserved j = false) : Agrees loaded c := by
  intro j w _ hr
  rw [h j] at hr
  cases hr

/-- Between a load and the conditional store that succeeds, nobody has stored anything. -/
theorem Agrees.value_of_reserved (h : Agrees loaded c) (hk : loaded k = some u) (hr : c.reserved k = true) :
    c.value = u :=
  (h k u hk hr).symm

variable [DecidableEq κ]

def loadReserved (c : Cell κ α) (k : κ) : Cell κ α × α :=
  ({ c with reserved := Function.update c.reserved k true }, c.value)

/-- A store by `k` takes the reservations of all others away. -/
def store (c : Cell κ α) (k : κ) (v : α) : Cell κ α := ⟨v, fun j => decide (j = k) && c.reserved k⟩

/-- A reservation may get lost at any time. -/
def lose (c : Cell κ α) (k : κ) : Cell κ α :=
  { c with reserved := Function.update c.reserved k false }

theorem Agrees.forget (h : Agrees loaded c) : Agrees (Function.update loaded k none) c := by
  intro j w hj hr
  by_cases hjk : j = k
  · rw [hjk, Function.update_self] at hj
    cases hj
  · rw [Function.update_of_ne hjk] at hj
    exact h j w hj hr

theorem Agrees.loadReserved (h : Agrees loaded c) :
    Agrees (Function.update loaded k (some c.value)) (c.loadReserved k).1 := by
  intro j w hj hr
  by_cases hjk : j = k
  · rw [hjk, Function.update_self] at hj
    exact (Option.some.inj hj).symm
  · rw [Function.update_of_ne hjk] at hj
    change Function.update c.reserved k true j = true at hr
    rw [Function.update_of_ne hjk] at hr
    exact h j w hj hr

theorem agrees_store : Agrees (Function.update loaded k none) (c.store k v) := by
  intro j w hj hr
  by_cases hjk : j = k
  · rw [hjk, Function.update_self] at hj
    cases hj
  · change (decide (j = k) && c.reserved k) = true at hr
    rw [decide_eq_false hjk] at hr
    cases hr

theorem Agrees.lose (h : Agrees loaded c) : Agrees loaded (c.lose k) := by
  intro j w hj hr
  by_cases hjk : j = k
  · change Function.update c.reserved k false j = true at hr
    rw [hjk, Function.update_self] at hr
    cases hr
  · change Function.update c.reserved k false j = true at hr
    rw [Function.update_of_ne hjk] at hr
    exact h j w hj hr

end Cell

end Reservations
