import Mathlib.Data.List.Nodup
import Mathlib.Data.Option.Basic

namespace Sessions

variable {α ω : Type*}

/-- The sessions that are open, in the order in which they were opened, each with its owner. -/
abbrev Table (α ω : Type*) := List (α × ω)

def ids (t : Table α ω) : List α := t.map Prod.fst

variable {t : Table α ω} {q : α → Bool} {a : α} {o : ω} {x : α × ω}

@[simp] theorem ids_append (t u : Table α ω) : ids (t ++ u) = ids t ++ ids u := List.map_append

theorem mem_ids (h : x ∈ t) : x.1 ∈ ids t := List.mem_map_of_mem h

section Close

variable [DecidableEq α]

def close (a : α) (t : Table α ω) : Table α ω := t.filter fun x => x.1 ≠ a

theorem mem_close : x ∈ close a t ↔ x ∈ t ∧ x.1 ≠ a := by
  unfold close
  rw [List.mem_filter, decide_eq_true_eq]

/-- In a table without duplicates, closing a session erases it. -/
theorem ids_close (h : (ids t).Nodup) (a : α) : ids (close a t) = (ids t).erase a := by
  rw [h.erase_eq_filter]
  unfold ids close
  rw [List.filter_map]
  congr 1
  apply List.filter_congr
  intro x _
  simp [bne, Bool.beq_eq_decide_eq]

end Close

section Owner

variable [DecidableEq ω]

/-- An owner gives up its sessions. -/
def leave (o : ω) (t : Table α ω) : Table α ω := t.filter fun x => x.2 ≠ o

def first (o : ω) (t : Table α ω) : Option α := (t.find? fun x => x.2 = o).map Prod.fst

/-- No session ahead of the first one of the owner answers to `q`, and none at all if it has none. -/
def Unmasked (q : α → Bool) (o : ω) (t : Table α ω) : Prop :=
  ∀ x ∈ t.takeWhile (fun x => x.2 ≠ o), q x.1 = false

instance (q : α → Bool) (o : ω) (t : Table α ω) : Decidable (Unmasked q o t) :=
  inferInstanceAs (Decidable (∀ x ∈ t.takeWhile _, q x.1 = false))

theorem leave_length_le (o : ω) (t : Table α ω) : (leave o t).length ≤ t.length :=
  List.length_filter_le _ t

/-- Leaving takes sessions away exactly if the owner has some. -/
theorem leave_length_eq_iff : (leave o t).length = t.length ↔ ∀ x ∈ t, x.2 ≠ o := by
  unfold leave
  rw [List.length_filter_eq_length_iff]
  simp only [decide_eq_true_eq]

theorem leave_eq_self (h : ∀ x ∈ t, x.2 ≠ o) : leave o t = t := by
  apply List.filter_eq_self.mpr
  intro x hx
  rw [decide_eq_true_eq]
  exact h x hx

theorem first_mem (h : first o t = some a) : (a, o) ∈ t := by
  obtain ⟨x, hx, rfl⟩ := Option.map_eq_some_iff.mp h
  have ho := List.find?_some hx
  rw [decide_eq_true_eq] at ho
  have hmem := List.mem_of_find?_eq_some hx
  rwa [← ho]

theorem first_cons_of_ne (h : x.2 ≠ o) : first o (x :: t) = first o t := by
  unfold first
  rw [List.find?_cons_of_neg (by simpa using h)]

theorem unmasked_cons_of_ne (h : x.2 ≠ o) :
    Unmasked q o (x :: t) ↔ q x.1 = false ∧ Unmasked q o t := by
  unfold Unmasked
  rw [List.takeWhile_cons_of_pos (by simpa using h)]
  exact List.forall_mem_cons

/-- Where the owner's sessions answer to `q`, the first session that does is the owner's first one
exactly if no other masks it. -/
theorem find_ids_eq_first_iff (hn : (ids t).Nodup) (hq : ∀ x ∈ t, x.2 = o → q x.1 = true) :
    (ids t).find? q = first o t ↔ Unmasked q o t := by
  induction t with
  | nil => simp [ids, first, Unmasked]
  | cons x t ih =>
    obtain ⟨hx, hn⟩ := List.nodup_cons.mp hn
    have ih := ih hn fun y hy => hq y (List.mem_cons_of_mem x hy)
    by_cases ho : x.2 = o
    · have hqx := hq x List.mem_cons_self ho
      have hfirst : first o (x :: t) = some x.1 := by
        unfold first
        rw [List.find?_cons_of_pos (by simpa using ho), Option.map_some]
      have hnone : Unmasked q o (x :: t) := by
        unfold Unmasked
        rw [List.takeWhile_cons_of_neg (by simpa using ho)]
        exact nofun
      have hfind : (ids (x :: t)).find? q = some x.1 := List.find?_cons_of_pos hqx
      rw [hfind, hfirst]
      exact ⟨fun _ => hnone, fun _ => rfl⟩
    · rw [first_cons_of_ne ho, unmasked_cons_of_ne ho]
      cases hqx : q x.1 with
      | false =>
        have hfind : (ids (x :: t)).find? q = (ids t).find? q := by
          apply List.find?_cons_of_neg
          rw [hqx]
          exact Bool.false_ne_true
        rw [hfind, ih]
        exact ⟨fun h => ⟨rfl, h⟩, And.right⟩
      | true =>
        have hfind : (ids (x :: t)).find? q = some x.1 := List.find?_cons_of_pos hqx
        rw [hfind]
        constructor
        · intro h
          exact absurd (mem_ids (first_mem h.symm)) hx
        · rintro ⟨h, -⟩
          cases h

end Owner

end Sessions
