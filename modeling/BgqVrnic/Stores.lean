import BgqVrnic.Pools
import BgqVrnic.Tails

namespace Pools

open Intrusive

/-- A pool as links through its blocks: `held` are the blocks in the hands of those that have taken them,
and `postings` those that have been posted from there, the latest first. -/
structure Store (β : Type*) where
  next : Nat → Option Nat
  block : Nat → β
  free : Option Nat
  posted : Option Nat
  held : List Nat
  postings : List Nat

/-- What the holders of blocks may do; blocks that are not in hand are left alone. -/
inductive Op (β : Type*)
  | take (f : β → β)
  | release (i : Nat) (f : β → β)
  | post (i : Nat) (f : β → β)
  | write (i : Nat) (f : β → β)

variable {β : Type*} {f : β → β} {i : Nat}

namespace Store

def set (i : Nat) (f : β → β) (c : Store β) : Store β :=
  { c with block := Function.update c.block i (f (c.block i)) }

def take (f : β → β) (c : Store β) : Store β :=
  match c.free with
  | none => c
  | some i => { c.set i f with free := c.next i, held := i :: c.held }

def release (i : Nat) (f : β → β) (c : Store β) : Store β :=
  { c.set i f with
    next := Function.update c.next i c.free
    free := some i
    held := c.held.erase i }

def post (i : Nat) (f : β → β) (c : Store β) : Store β :=
  { c.set i f with
    next := Function.update c.next i c.posted
    posted := some i
    held := c.held.erase i
    postings := i :: c.postings }

def call (c : Store β) : Op β → Store β
  | .take f => c.take f
  | .release i f => if i ∈ c.held then c.release i f else c
  | .post i f => if i ∈ c.held then c.post i f else c
  | .write i f => if i ∈ c.held then c.set i f else c

def calls (c : Store β) (ops : List (Op β)) : Store β := ops.foldl call c

/-- The links lead through the lists of the pool. -/
structure Shows (c : Store β) (p : Pool β) : Prop where
  free : Chain c.next c.free p.free
  posted : Chain c.next c.posted p.posted
  block : c.block = p.block

/-- What the holders may have done: blocks have moved between hands and the lists, those posted came in
front of the list, and all others are as before. -/
structure Outside (c : Store β) (p : Pool β) (c' : Store β) (p' : Pool β) : Prop where
  shows : c'.Shows p'
  blocks : (c'.held ++ p'.blocks).Perm (c.held ++ p.blocks)
  posts : ∃ l, c'.postings = l ++ c.postings ∧ p'.posted = l ++ p.posted
  frame : ∀ j, j ∉ c.held ++ p.free →
    j ∉ c'.held ++ p'.free ∧ c'.next j = c.next j ∧ c'.block j = c.block j

variable {c c' c'' : Store β} {p p' p'' : Pool β}

theorem Shows.set (h : c.Shows p) : (c.set i f).Shows (p.set i f) := by
  refine ⟨h.free, h.posted, ?_⟩
  show Function.update c.block i _ = Function.update p.block i _
  rw [h.block]

theorem Outside.refl (h : c.Shows p) : Outside c p c p where
  shows := h
  blocks := List.Perm.refl _
  posts := ⟨[], rfl, rfl⟩
  frame _ hj := ⟨hj, rfl, rfl⟩

theorem Outside.trans (h : Outside c p c' p') (h' : Outside c' p' c'' p'') : Outside c p c'' p'' where
  shows := h'.shows
  blocks := h'.blocks.trans h.blocks
  posts := by
    obtain ⟨l, hc, hp⟩ := h.posts
    obtain ⟨l', hc', hp'⟩ := h'.posts
    exact ⟨l' ++ l, by rw [hc', hc, List.append_assoc], by rw [hp', hp, List.append_assoc]⟩
  frame j hj := by
    obtain ⟨hout, hnext, hblock⟩ := h.frame j hj
    obtain ⟨hout', hnext', hblock'⟩ := h'.frame j hout
    exact ⟨hout', hnext'.trans hnext, hblock'.trans hblock⟩

/-- A block in hand is not in the lists. -/
theorem not_mem_blocks (hn : (c.held ++ p.blocks).Nodup) (hi : i ∈ c.held) : i ∉ p.blocks :=
  (List.nodup_append'.mp hn).2.2 hi

theorem outside_take (h : c.Shows p) (f : β → β) : ∃ p', Outside c p (c.take f) p' := by
  have hchain := h.free
  unfold take
  cases hlist : p.free with
  | nil =>
    rw [hlist] at hchain
    rw [show c.free = none from hchain]
    exact ⟨p, Outside.refl h⟩
  | cons i free =>
    rw [hlist] at hchain
    rw [hchain.1]
    have hblock : (c.set i f).block = (p.set i f).block := h.set.block
    refine ⟨{ p.set i f with free := free }, ⟨hchain.2, h.posted, hblock⟩, ?_, ⟨[], rfl, rfl⟩,
      fun j hj => ?_⟩
    · rw [Pool.blocks, Pool.blocks, hlist]
      exact List.perm_middle.symm
    · rw [hlist, List.mem_append, List.mem_cons] at hj
      show j ∉ (i :: c.held) ++ free ∧ _
      rw [List.mem_append, List.mem_cons]
      exact ⟨by tauto, rfl, Function.update_of_ne (by tauto) _ _⟩

theorem outside_release (h : c.Shows p) (hn : (c.held ++ p.blocks).Nodup) (hi : i ∈ c.held)
    (f : β → β) :
    Outside c p (c.release i f) ((p.set i f).release i) := by
  obtain ⟨hf, hp⟩ := not_or.mp (mt List.mem_append.mpr (not_mem_blocks hn hi))
  refine ⟨⟨h.free.push hf, h.posted.congr fun x hx => ?_, h.set.block⟩, ?_, ⟨[], rfl, rfl⟩,
    fun j hj => ?_⟩
  · exact Function.update_of_ne (ne_of_mem_of_not_mem hx hp) _ _
  · refine List.perm_middle.trans ?_
    exact (List.perm_cons_erase hi).symm.append_right _
  · obtain ⟨hheld, hfree⟩ := not_or.mp (mt List.mem_append.mpr hj)
    have hji : j ≠ i := fun he => hheld (he ▸ hi)
    refine ⟨List.not_mem_append (fun he => hheld (List.mem_of_mem_erase he)) ?_, ?_, ?_⟩
    · exact fun he => (List.mem_cons.mp he).elim hji hfree
    · exact Function.update_of_ne hji _ _
    · exact Function.update_of_ne hji _ _

theorem outside_post (h : c.Shows p) (hn : (c.held ++ p.blocks).Nodup) (hi : i ∈ c.held)
    (f : β → β) :
    Outside c p (c.post i f) ((p.set i f).post i) := by
  obtain ⟨hf, hp⟩ := not_or.mp (mt List.mem_append.mpr (not_mem_blocks hn hi))
  refine ⟨⟨h.free.congr fun x hx => ?_, h.posted.push hp, h.set.block⟩, ?_, ⟨[i], rfl, rfl⟩,
    fun j hj => ?_⟩
  · exact Function.update_of_ne (ne_of_mem_of_not_mem hx hf) _ _
  · have hmove : (c.held.erase i ++ (p.free ++ i :: p.posted)).Perm
        (i :: (c.held.erase i ++ (p.free ++ p.posted))) := by
      rw [← List.append_assoc, ← List.append_assoc]
      exact List.perm_middle
    refine hmove.trans ?_
    exact (List.perm_cons_erase hi).symm.append_right _
  · obtain ⟨hheld, hfree⟩ := not_or.mp (mt List.mem_append.mpr hj)
    have hji : j ≠ i := fun he => hheld (he ▸ hi)
    refine ⟨List.not_mem_append (fun he => hheld (List.mem_of_mem_erase he)) hfree, ?_, ?_⟩
    · exact Function.update_of_ne hji _ _
    · exact Function.update_of_ne hji _ _

theorem outside_write (h : c.Shows p) (hi : i ∈ c.held) (f : β → β) :
    Outside c p (c.set i f) (p.set i f) := by
  refine ⟨h.set, List.Perm.refl _, ⟨[], rfl, rfl⟩, fun j hj => ⟨hj, rfl, ?_⟩⟩
  have hji : j ≠ i := fun he => hj (List.mem_append_left _ (he ▸ hi))
  exact Function.update_of_ne hji _ _

theorem outside_call (h : c.Shows p) (hn : (c.held ++ p.blocks).Nodup) (op : Op β) :
    ∃ p', Outside c p (c.call op) p' := by
  cases op with
  | take f => exact outside_take h f
  | release i f =>
    show ∃ p', Outside c p (if i ∈ c.held then c.release i f else c) p'
    split
    next hi => exact ⟨_, outside_release h hn hi f⟩
    next => exact ⟨p, Outside.refl h⟩
  | post i f =>
    show ∃ p', Outside c p (if i ∈ c.held then c.post i f else c) p'
    split
    next hi => exact ⟨_, outside_post h hn hi f⟩
    next => exact ⟨p, Outside.refl h⟩
  | write i f =>
    show ∃ p', Outside c p (if i ∈ c.held then c.set i f else c) p'
    split
    next hi => exact ⟨_, outside_write h hi f⟩
    next => exact ⟨p, Outside.refl h⟩

/-- Whatever the holders do, it keeps to this. -/
theorem outside_calls (h : c.Shows p) (hn : (c.held ++ p.blocks).Nodup) (ops : List (Op β)) :
    ∃ p', Outside c p (c.calls ops) p' := by
  induction ops generalizing c p with
  | nil => exact ⟨p, Outside.refl h⟩
  | cons op ops ih =>
    obtain ⟨p', hone⟩ := outside_call h hn op
    obtain ⟨p'', hrest⟩ := ih hone.shows (hone.blocks.nodup_iff.mpr hn)
    exact ⟨p'', hone.trans hrest⟩

end Store

end Pools
