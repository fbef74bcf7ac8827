import Mathlib.Data.List.Basic
import Mathlib.Data.List.Nodup
import Mathlib.Logic.Function.Basic

namespace Pools

/-- Numbered blocks of memory, with the list of those that are free and the list of those that wait for
something to happen outside. -/
structure Pool (β : Type*) where
  free : List Nat
  posted : List Nat
  block : Nat → β

variable {β : Type*} {p p' p'' : Pool β} {i : Nat} {f : β → β} {held : List Nat}

namespace Pool

def blocks (p : Pool β) : List Nat := p.free ++ p.posted

def set (i : Nat) (f : β → β) (p : Pool β) : Pool β :=
  { p with block := Function.update p.block i (f (p.block i)) }

/-- The first free block, which is set up for whoever takes it. -/
def take (f : β → β) (p : Pool β) : Option (Nat × Pool β) :=
  match p.free with
  | [] => none
  | i :: free => some (i, { p with free := free }.set i f)

def release (i : Nat) (p : Pool β) : Pool β := { p with free := i :: p.free }

def post (i : Nat) (p : Pool β) : Pool β := { p with posted := i :: p.posted }

@[simp] theorem blocks_set : (p.set i f).blocks = p.blocks := rfl

@[simp] theorem free_set : (p.set i f).free = p.free := rfl

@[simp] theorem posted_set : (p.set i f).posted = p.posted := rfl

@[simp] theorem posted_release : (p.release i).posted = p.posted := rfl

@[simp] theorem block_release : (p.release i).block = p.block := rfl

@[simp] theorem block_post : (p.post i).block = p.block := rfl

@[simp] theorem block_set_self : (p.set i f).block i = f (p.block i) := Function.update_self ..

theorem block_set_of_ne {j : Nat} (h : j ≠ i) : (p.set i f).block j = p.block j :=
  Function.update_of_ne h _ _

theorem set_set {g : β → β} : (p.set i f).set i g = p.set i fun b => g (f b) := by
  unfold set
  dsimp only
  rw [Function.update_idem, Function.update_self]

theorem take_none : p.take f = none ↔ p.free = [] := by
  unfold take
  cases p.free with
  | nil => simp
  | cons j free => simp

theorem take_eq (h : p.take f = some (i, p')) :
    p.free = i :: p'.free ∧ p'.posted = p.posted ∧
      p'.block = Function.update p.block i (f (p.block i)) := by
  unfold take at h
  cases hfree : p.free with
  | nil => simp [hfree] at h
  | cons j free =>
    simp only [hfree, Option.some.injEq, Prod.mk.injEq] at h
    obtain ⟨rfl, rfl⟩ := h
    exact ⟨rfl, rfl, rfl⟩

end Pool

/-- Where `p` has become `p'`, the blocks that are missing from the two lists are those that are held. -/
def Holding (held : List Nat) (p p' : Pool β) : Prop := (held ++ p'.blocks).Perm p.blocks

namespace Holding

theorem refl (p : Pool β) : Holding [] p p := List.Perm.refl _

theorem set (h : Holding held p p') (i : Nat) (f : β → β) : Holding held p (p'.set i f) := h

theorem take (h : Holding held p p') (ht : p'.take f = some (i, p'')) :
    Holding (i :: held) p p'' := by
  obtain ⟨hfree, hposted, -⟩ := Pool.take_eq ht
  refine List.Perm.trans ?_ h
  rw [Pool.blocks, Pool.blocks, hfree, hposted]
  exact List.perm_middle.symm

theorem release (h : Holding (i :: held) p p') : Holding held p (p'.release i) := by
  refine List.Perm.trans ?_ h
  exact List.perm_middle

theorem post (h : Holding (i :: held) p p') : Holding held p (p'.post i) := by
  refine List.Perm.trans ?_ h
  have hfree : (held ++ (p'.post i).blocks).Perm (held ++ p'.free ++ i :: p'.posted) := by
    rw [List.append_assoc]
    rfl
  refine hfree.trans (List.perm_middle.trans ?_)
  rw [List.append_assoc]
  rfl

theorem swap {j : Nat} (h : Holding (i :: j :: held) p p') : Holding (j :: i :: held) p p' :=
  (List.Perm.swap i j _).trans h

theorem trans (h : Holding [] p p') (h' : Holding held p' p'') : Holding held p p'' :=
  List.Perm.trans h' h

theorem nodup (h : Holding held p p') (hp : p.blocks.Nodup) : (held ++ p'.blocks).Nodup :=
  h.nodup_iff.mpr hp

/-- Held blocks are not in the lists any more. -/
theorem not_conserved (h : Holding (i :: held) p p') : ¬ Holding [] p p' := by
  intro hall
  have hlong := h.length_eq
  have hshort := hall.length_eq
  simp only [List.length_append, List.length_cons, List.nil_append] at hlong hshort
  omega

end Holding

end Pools
