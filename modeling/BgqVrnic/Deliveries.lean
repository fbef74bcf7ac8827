import BgqVrnic.Runs
import Mathlib.Algebra.BigOperators.Group.List.Basic
import Mathlib.Algebra.Order.Ring.Int
import Mathlib.Data.List.Perm.Basic

namespace Deliveries

open Runs

variable {α ρ : Type*}

/-- Messages that have been put in from outside, those on their way, and those that have been handled, each with the
messages that it led to. -/
structure Net (α : Type*) where
  sent : List α
  flight : List α
  handled : List (α × List α)

/-- A message is put in, or one on its way is handled, with whatever result. -/
inductive Event (α ρ : Type*)
  | send (a : α)
  | deliver (k : Nat) (r : ρ)
  deriving DecidableEq, Repr

namespace Net

def empty : Net α := ⟨[], [], []⟩

/-- The messages that handled ones led to. -/
def led (n : Net α) : List α := n.handled.flatMap Prod.snd

def step (react : α → ρ → List α) (n : Net α) : Event α ρ → Option (Net α)
  | .send a => some { n with sent := n.sent ++ [a], flight := n.flight ++ [a] }
  | .deliver k r =>
    (n.flight[k]?).map fun a =>
      { n with
        flight := n.flight.eraseIdx k ++ react a r
        handled := n.handled ++ [(a, react a r)] }

/-- No message gets lost or comes from nowhere, and each handled one led to what it leads to. -/
structure Kept (react : α → ρ → List α) (n : Net α) : Prop where
  conserved : (n.handled.map Prod.fst ++ n.flight).Perm (n.sent ++ n.led)
  caused : ∀ x ∈ n.handled, ∃ r, x.2 = react x.1 r

variable {react : α → ρ → List α} {n n' : Net α} {e : Event α ρ} {es : List (Event α ρ)} {w : α → Nat}

theorem kept_empty : (empty : Net α).Kept react := ⟨.nil, fun _ hx => absurd hx List.not_mem_nil⟩

theorem step_deliver {k : Nat} {r : ρ} (hs : step react n (.deliver k r) = some n') :
    ∃ a, n.flight.Perm (a :: n.flight.eraseIdx k) ∧
      n' = { n with
        flight := n.flight.eraseIdx k ++ react a r
        handled := n.handled ++ [(a, react a r)] } := by
  obtain ⟨a, ha, rfl⟩ := Option.map_eq_some_iff.mp hs
  obtain ⟨hk, rfl⟩ := List.getElem?_eq_some_iff.mp ha
  exact ⟨_, (List.getElem_cons_eraseIdx_perm hk).symm, rfl⟩

theorem Kept.step (h : n.Kept react) (hs : n.step react e = some n') : n'.Kept react := by
  cases e with
  | send a =>
    cases Option.some.inj hs
    refine ⟨?_, h.caused⟩
    have hperm := h.conserved.append_right [a]
    have hswap : (n.sent ++ n.led ++ [a]).Perm (n.sent ++ [a] ++ n.led) := by
      rw [List.append_assoc, List.append_assoc]
      exact List.perm_append_comm.append_left _
    exact (List.append_assoc .. ▸ hperm).trans hswap
  | deliver k r =>
    obtain ⟨a, hperm, rfl⟩ := step_deliver hs
    constructor
    · have hled : (n.handled ++ [(a, react a r)]).flatMap Prod.snd = n.led ++ react a r := by
        simp [led]
      show ((n.handled ++ [(a, react a r)]).map Prod.fst ++ (n.flight.eraseIdx k ++ react a r)).Perm
        (n.sent ++ (n.handled ++ [(a, react a r)]).flatMap Prod.snd)
      have hflight : (n.handled.map Prod.fst ++ ([a] ++ n.flight.eraseIdx k)).Perm (n.sent ++ n.led) :=
        (hperm.symm.append_left _).trans h.conserved
      have hmore := hflight.append_right (react a r)
      rw [hled]
      simpa using hmore
    · intro x hx
      rcases List.mem_append.mp hx with hx | hx
      · exact h.caused x hx
      · rw [List.mem_singleton.mp hx]
        exact ⟨r, rfl⟩

theorem kept_run (hr : run (step react) (empty : Net α) es = some n) : n.Kept react :=
  run_preserves (fun _ _ _ h hs => Kept.step h hs) kept_empty hr

/-- What the messages on their way weigh. -/
def weight (w : α → Nat) (n : Net α) : Nat := (n.flight.map w).sum

/-- Where a message leads to less than it weighs, nothing but deliveries can go on only so long. -/
theorem deliveries_bounded (hw : ∀ a r, ((react a r).map w).sum < w a) (hes : ∀ e ∈ es, ∃ k r, e = .deliver k r)
    (hr : run (step react) n es = some n') : es.length + n'.weight w ≤ n.weight w := by
  induction es generalizing n with
  | nil =>
    cases Option.some.inj hr
    simp
  | cons e es ih =>
    obtain ⟨k, r, rfl⟩ := hes e List.mem_cons_self
    obtain ⟨t, ht, hr⟩ := Option.bind_eq_some_iff.mp hr
    have hrest := ih (fun e he => hes e (List.mem_cons_of_mem _ he)) hr
    obtain ⟨a, hperm, rfl⟩ := step_deliver ht
    have hsum := (hperm.map w).sum_eq
    have hless := hw a r
    simp only [weight, List.map_append, List.sum_append] at hrest
    simp only [List.map_cons, List.sum_cons] at hsum
    simp only [weight, List.length_cons]
    omega

end Net

end Deliveries
