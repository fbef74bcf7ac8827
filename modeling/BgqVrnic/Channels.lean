import Mathlib.Data.List.Basic
import Mathlib.Logic.Function.Basic

namespace Channels

/-- A network that keeps the order of each sender's items: what each one has sent, what of it is on its way, and
what has arrived, with its sender. -/
structure Channel (ν β : Type*) where
  sent : ν → List β
  flight : ν → List β
  arrived : List (ν × β)

variable {ν β : Type*} [DecidableEq ν]

def ofSender (k : ν) (l : List (ν × β)) : List β := (l.filter fun x => x.1 = k).map Prod.snd

namespace Channel

def empty : Channel ν β := ⟨fun _ => [], fun _ => [], []⟩

def send (c : Channel ν β) (k : ν) (items : List β) : Channel ν β :=
  { c with
    sent := Function.update c.sent k (c.sent k ++ items)
    flight := Function.update c.flight k (c.flight k ++ items) }

/-- The first item on the way from `k` arrives. -/
def arrive (c : Channel ν β) (k : ν) : Option (β × Channel ν β) :=
  match c.flight k with
  | [] => none
  | x :: rest =>
    some (x, { c with
      flight := Function.update c.flight k rest
      arrived := c.arrived ++ [(k, x)] })

/-- Nothing is lost, made up, sent twice or overtaken. -/
def Kept (c : Channel ν β) : Prop := ∀ k, c.sent k = ofSender k c.arrived ++ c.flight k

end Channel

variable {k j : ν} {x : β} {l : List (ν × β)}

theorem ofSender_append_self : ofSender k (l ++ [(k, x)]) = ofSender k l ++ [x] := by
  simp [ofSender]

theorem ofSender_append_other (hj : j ≠ k) : ofSender k (l ++ [(j, x)]) = ofSender k l := by
  simp [ofSender, hj]

theorem ofSender_take (k : ν) (l : List (ν × β)) (n : Nat) : ofSender k (l.take n) <+: ofSender k l :=
  ((List.take_prefix n l).filter _).map Prod.snd

namespace Channel

variable {c c' : Channel ν β} {items : List β}

theorem kept_empty : (empty : Channel ν β).Kept := fun _ => rfl

theorem Kept.send (h : c.Kept) : (c.send k items).Kept := by
  intro j
  have hj := h j
  by_cases hjk : j = k
  · subst hjk
    simp only [Channel.send, Function.update_self]
    rw [hj, List.append_assoc]
  · simp only [Channel.send, Function.update_of_ne hjk]
    exact hj

theorem arrive_eq_some :
    c.arrive k = some (x, c') ↔
      ∃ rest, c.flight k = x :: rest ∧
        { c with flight := Function.update c.flight k rest, arrived := c.arrived ++ [(k, x)] } = c' := by
  unfold arrive
  cases c.flight k with
  | nil => simp
  | cons y rest =>
    simp only [Option.some.injEq, Prod.mk.injEq, List.cons.injEq]
    constructor
    · rintro ⟨rfl, rfl⟩
      exact ⟨rest, ⟨rfl, rfl⟩, rfl⟩
    · rintro ⟨_, ⟨rfl, rfl⟩, rfl⟩
      exact ⟨rfl, rfl⟩

theorem Kept.arrive (h : c.Kept) (ha : c.arrive k = some (x, c')) : c'.Kept := by
  obtain ⟨rest, hrest, rfl⟩ := arrive_eq_some.mp ha
  intro j
  have hj := h j
  by_cases hjk : j = k
  · subst hjk
    simp only [Function.update_self, ofSender_append_self]
    rw [hj, hrest, List.append_assoc, List.singleton_append]
  · simp only [Function.update_of_ne hjk, ofSender_append_other (Ne.symm hjk)]
    exact hj

/-- Of what a sender has sent the first part has arrived. -/
theorem Kept.prefix_sent (h : c.Kept) (k : ν) (n : Nat) : ofSender k (c.arrived.take n) <+: c.sent k := by
  have hall := List.prefix_append (ofSender k c.arrived) (c.flight k)
  rw [← h k] at hall
  exact (ofSender_take k c.arrived n).trans hall

end Channel

end Channels
