import Mathlib.Data.List.Perm.Subperm
import BgqVrnic.Bitmaps
import BgqVrnic.Tenancies
import BgqVrnic.FifoSubgroups

namespace BgqVrnic.InjOwners

open Bitmaps Runs

/-- The masks of `Kernel_DeallocateInjFifos`: of the priorities, and of the two DCRs. -/
def deallocateMasks (sgid : Nat) (fifoids : List Nat) : UInt64 × UInt64 :=
  fifoids.foldl (fun masks fifoid =>
    let gfid := fifoid + sgid * numInjFifosPerSubgroup
    let fifoBitNumber := 32 + sgid * numInjFifosPerSubgroup + fifoid
    (masks.1 ||| 1 <<< UInt64.ofNat (31 - gfid), masks.2 ||| bitNumber fifoBitNumber)) (0, 0)

def clearPriority (groupStatus : Option MuAddress) (mask : UInt64) (mu : MuFifoRegs) : Option MuFifoRegs :=
  match groupStatus with
  | some ⟨.injStatus g s, _⟩ =>
    some { mu with
      injPriority := Function.update mu.injPriority g (Function.update (mu.injPriority g) s
        (mu.injPriority g s &&& ~~~mask)) }
  | _ => none

def clearRemoteGet (gid : Nat) (mask : UInt64) (mu : MuFifoRegs) : MuFifoRegs :=
  { mu with injRemoteGet := Function.update mu.injRemoteGet gid (mu.injRemoteGet gid &&& ~~~mask) }

/-- The system FIFO bits are reset to 1. -/
def resetSystem (gid : Nat) (mask : UInt64) (mu : MuFifoRegs) : MuFifoRegs :=
  { mu with injSystem := Function.update mu.injSystem gid (mu.injSystem gid ||| mask) }

/-- `Kernel_DeallocateInjFifos`, or nothing if an assertion fails or the status pointer leads nowhere. -/
def kernelDeallocateInjFifos (sg : FifoSubGroup MuspiInjFifo) (fifoids : List Nat) (mu : MuFifoRegs) :
    Option MuFifoRegs :=
  let gid := sg.subgroupid / numFifoSubgroups
  let sgid := sg.subgroupid % numFifoSubgroups
  if fifoids.any (numInjFifosPerSubgroup ≤ ·) then none
  else
    let masks := deallocateMasks sgid fifoids
    let mu := { mu with injStart := fifoids.foldl (fun start id => setStart start gid sgid id 0) mu.injStart }
    let priority := if masks.1 ≠ 0 then clearPriority sg.groupStatus masks.1 mu else some mu
    priority.map fun mu =>
      let mu := if masks.2 ≠ 0 then clearRemoteGet gid masks.2 mu else mu
      if masks.2 ≠ 0 then resetSystem gid masks.2 mu else mu

/-- What `Kernel_InjFifoInit` writes to the start of a FIFO, through the pointer in the subgroup structure. -/
def injFifoInitStart (sg : FifoSubGroup MuspiInjFifo) (fifoid : Nat) (paStart : UInt64) (mu : MuFifoRegs) :
    Option MuFifoRegs :=
  if numInjFifosPerSubgroup ≤ fifoid then none
  else
    match (sg.fifos fifoid).hwfifo with
    | some ⟨.injFifo g s i, _⟩ => some { mu with injStart := setStart mu.injStart g s i paStart }
    | _ => none

/-- A party's subgroup structure, and the FIFOs it has been given with their attributes. -/
structure Holder where
  sg : FifoSubGroup MuspiInjFifo
  held : Nat → Option InjFifoAttributes

structure Node (κ : Type) where
  mu : MuFifoRegs
  holder : κ → Holder

inductive Call (κ : Type)
  | allocate (k : κ) (subgrpid : Nat) (fifos : List (Nat × InjFifoAttributes))
  | init (k : κ) (fifoid : Nat) (paStart : UInt64)
  | deallocate (k : κ) (fifoids : List Nat)

/-- What a party holds after an allocation has been answered. -/
def Holder.granted (h : Holder) (fifos : List (Nat × InjFifoAttributes)) (rc : Int)
    (sg : FifoSubGroup MuspiInjFifo) : Holder :=
  if rc = 0 then ⟨sg, fun id => fifos.lookup id⟩ else ⟨sg, h.held⟩

def Holder.released (h : Holder) (fifoids : List Nat) : Holder :=
  { h with held := fun id => if id ∈ fifoids then none else h.held id }

def Node.step {κ : Type} [DecidableEq κ] (s : Node κ) : Call κ → Option (Node κ)
  | .allocate k subgrpid fifos =>
    (kernelAllocateInjFifos subgrpid fifos (s.holder k).sg s.mu).map fun r =>
      ⟨r.2.2, Function.update s.holder k ((s.holder k).granted fifos r.1 r.2.1)⟩
  | .init k fifoid paStart =>
    (injFifoInitStart (s.holder k).sg fifoid paStart s.mu).map fun mu => { s with mu := mu }
  | .deallocate k fifoids =>
    (kernelDeallocateInjFifos (s.holder k).sg fifoids s.mu).map fun mu =>
      ⟨mu, Function.update s.holder k ((s.holder k).released fifoids)⟩

/-- A party asks for each FIFO once and with nothing left in its structure, starts its FIFOs at an address, and
gives back only what it has. -/
def Call.Allowed {κ : Type} (s : Node κ) : Call κ → Prop
  | .allocate k _ fifos =>
    (∀ id < numInjFifosPerSubgroup, (s.holder k).held id = none) ∧ (fifos.map Prod.fst).Nodup
  | .init k fifoid paStart => (s.holder k).held fifoid ≠ none ∧ paStart ≠ 0
  | .deallocate k fifoids => ∀ id ∈ fifoids, (s.holder k).held id ≠ none

instance {κ : Type} (s : Node κ) : (c : Call κ) → Decidable (c.Allowed s)
  | .allocate _ _ _ => inferInstanceAs (Decidable (_ ∧ _))
  | .init _ _ _ => inferInstanceAs (Decidable (_ ∧ _))
  | .deallocate k fifoids => inferInstanceAs (Decidable (∀ id ∈ fifoids, (s.holder k).held id ≠ none))

/-- The node after a reset of the hardware. -/
def resetRegs : MuFifoRegs :=
  ⟨fun _ _ _ => 0, fun _ _ _ => 0, fun _ _ => 0, fun _ => 0, fun _ => 0xFFFFFFFF, fun _ => 0xFFFF⟩

def Node.reset (κ : Type) : Node κ :=
  ⟨resetRegs, fun _ => ⟨⟨fun _ => ⟨none, none, fun _ => 0⟩, none, 0⟩, fun _ => none⟩⟩

section Registers

/-- A FIFO of the node: its group, its subgroup and its number. -/
abbrev InjUnit := Nat × Fin numFifoSubgroups × Fin numInjFifosPerSubgroup

/-- Whether a FIFO is one of a subgroup's. -/
def isOf (subgrpid : Nat) (u : InjUnit) : Prop :=
  u.1 = subgrpid / numFifoSubgroups ∧ (u.2.1 : Nat) = subgrpid % numFifoSubgroups

instance (subgrpid : Nat) (u : InjUnit) : Decidable (isOf subgrpid u) :=
  inferInstanceAs (Decidable (_ ∧ _))

/-- The weight of a FIFO's bit in the registers of its group. -/
def place (sgid fifoid : Nat) : Nat := 31 - (sgid * numInjFifosPerSubgroup + fifoid)

structure FifoView where
  start : UInt64
  priority : Bool
  remoteGet : Bool
  system : Bool
  deriving DecidableEq, Repr

/-- All that the registers say about a FIFO. -/
def view (mu : MuFifoRegs) (u : InjUnit) : FifoView :=
  ⟨mu.injStart u.1 u.2.1 u.2.2, has (mu.injPriority u.1 u.2.1) (place u.2.1 u.2.2),
    has (mu.injRemoteGet u.1) (place u.2.1 u.2.2), has (mu.injSystem u.1) (place u.2.1 u.2.2)⟩

variable {mu : MuFifoRegs} {u : InjUnit} {gid sgid g s id fifoid b : Nat} {ids : List Nat}
  {fifos : List (Nat × InjFifoAttributes)} {masks : InjFifoMasks} {a : InjFifoAttributes}

theorem place_lt : place sgid id < 64 := by
  unfold place
  omega

theorem place_inj (hs : s < numFifoSubgroups) (hid : id < numInjFifosPerSubgroup)
    (hsgid : sgid < numFifoSubgroups) (hfifoid : fifoid < numInjFifosPerSubgroup) :
    place s id = place sgid fifoid ↔ s = sgid ∧ id = fifoid := by
  simp only [numFifoSubgroups, numInjFifosPerSubgroup] at hs hid hsgid hfifoid
  simp only [place, numInjFifosPerSubgroup]
  omega

theorem priorityBit_eq : (1 : UInt64) <<< UInt64.ofNat (31 - (id + sgid * numInjFifosPerSubgroup)) =
    bit (place sgid id) := by
  rw [place, Nat.add_comm]
  rfl

theorem bitNumber_eq : bitNumber (32 + sgid * numInjFifosPerSubgroup + id) = bit (place sgid id) := by
  have h : 63 - (32 + sgid * numInjFifosPerSubgroup + id) = 31 - (sgid * numInjFifosPerSubgroup + id) := by
    omega
  rw [bitNumber, h]
  rfl

theorem has_place : has (bit (place sgid id)) b = decide (b = place sgid id) := has_bit place_lt

/-- Among FIFOs that are listed once, the one with a number decides what is found there. -/
theorem any_eq_lookup (hnodup : (fifos.map Prod.fst).Nodup) (q : InjFifoAttributes → Bool) :
    (fifos.any fun f => q f.2 && decide (id = f.1)) = (fifos.lookup id).any q := by
  induction fifos with
  | nil => rfl
  | cons f fifos ih =>
    obtain ⟨hf, hnodup⟩ := List.nodup_cons.mp hnodup
    rw [List.any_cons, ih hnodup, List.lookup_cons]
    by_cases hid : id = f.1
    · subst hid
      have hnone : fifos.lookup f.1 = none := List.lookup_eq_none_iff.mpr fun p hp => by
        have hne : f.1 ≠ p.1 := fun he => hf (List.mem_map.mpr ⟨p, hp, he.symm⟩)
        simpa using hne
      rw [hnone]
      simp
    · have hne : (id == f.1) = false := by simpa using hid
      rw [hne, decide_eq_false hid, Bool.and_false, Bool.false_or]

theorem any_place (hs : s < numFifoSubgroups) (hid : id < numInjFifosPerSubgroup)
    (hsgid : sgid < numFifoSubgroups) (hids : ∀ f ∈ fifos, f.1 < numInjFifosPerSubgroup)
    (hnodup : (fifos.map Prod.fst).Nodup) (q : InjFifoAttributes → Bool) :
    (fifos.any fun f => q f.2 && decide (place s id = place sgid f.1)) =
      (decide (s = sgid) && (fifos.lookup id).any q) := by
  rw [← any_eq_lookup hnodup]
  by_cases hsg : s = sgid
  · subst hsg
    rw [decide_eq_true rfl, Bool.true_and, Bool.eq_iff_iff, List.any_eq_true, List.any_eq_true]
    refine exists_congr fun f => and_congr_right fun hf => ?_
    simp only [place_inj hs hid hs (hids f hf), true_and]
  · rw [decide_eq_false hsg, Bool.false_and, List.any_eq_false]
    intro f hf
    have hiff := place_inj hs hid hsgid (hids f hf)
    simp only [hiff, hsg, false_and, decide_false, Bool.and_false]
    exact Bool.false_ne_true

/-- A mask that collects the FIFOs with an attribute. -/
theorem has_mask (hs : s < numFifoSubgroups) (hid : id < numInjFifosPerSubgroup)
    (hsgid : sgid < numFifoSubgroups) (hids : ∀ f ∈ fifos, f.1 < numInjFifosPerSubgroup)
    (hnodup : (fifos.map Prod.fst).Nodup) (word : InjFifoMasks → UInt64) (q : InjFifoAttributes → Bool)
    (hzero : word ⟨0, 0, 0, 0, 0, 0⟩ = 0)
    (hadd : ∀ masks f, word (InjFifoMasks.add sgid masks f) =
      if q f.2 then word masks ||| bit (place sgid f.1) else word masks) :
    has (word (fifos.foldl (InjFifoMasks.add sgid) ⟨0, 0, 0, 0, 0, 0⟩)) (place s id) =
      (decide (s = sgid) && (fifos.lookup id).any q) := by
  rw [← any_place hs hid hsgid hids hnodup q,
    has_foldl word _ fun f => q f.2 && decide (place s id = place sgid f.1), hzero, has_zero, Bool.false_or]
  intro masks f
  rw [hadd]
  cases q f.2 with
  | false => simp
  | true => simp [has_place]

/-- The priorities after the attributes have been set, whether or not a mask is empty. -/
theorem has_injPriority : has ((mu.setInjAttributes gid sgid masks).injPriority g s) b =
    if g = gid ∧ s = sgid then
      (has (mu.injPriority g s) b && !has masks.isNormalPriority b) || has masks.isHiPriority b
    else has (mu.injPriority g s) b := by
  have hp : (mu.setInjAttributes gid sgid masks).injPriority =
      if masks.isHiPriority ≠ 0 ∨ masks.isNormalPriority ≠ 0 then
        Function.update mu.injPriority gid (Function.update (mu.injPriority gid) sgid
          ((mu.injPriority gid sgid &&& ~~~masks.isNormalPriority) ||| masks.isHiPriority))
      else mu.injPriority := by
    unfold MuFifoRegs.setInjAttributes
    dsimp only
    split <;> split <;> split <;> rfl
  rw [hp]
  split
  next =>
    by_cases hg : g = gid
    · subst hg
      rw [Function.update_self]
      by_cases hs : s = sgid
      · subst hs
        rw [Function.update_self, if_pos ⟨rfl, rfl⟩, has_or, has_clear]
      · rw [Function.update_of_ne hs, if_neg (fun h => hs h.2)]
    · rw [Function.update_of_ne hg, if_neg (fun h => hg h.1)]
  next hzero =>
    push Not at hzero
    rw [hzero.1, hzero.2, has_zero, Bool.not_false, Bool.and_true, Bool.or_false, ite_self]

theorem has_injRemoteGet : has ((mu.setInjAttributes gid sgid masks).injRemoteGet g) b =
    if g = gid then
      (has (mu.injRemoteGet g) b && !has masks.isNotForRemoteGet b) || has masks.isForRemoteGet b
    else has (mu.injRemoteGet g) b := by
  have hr : (mu.setInjAttributes gid sgid masks).injRemoteGet =
      if masks.isForRemoteGet ≠ 0 ∨ masks.isNotForRemoteGet ≠ 0 then
        Function.update mu.injRemoteGet gid
          ((mu.injRemoteGet gid &&& ~~~masks.isNotForRemoteGet) ||| masks.isForRemoteGet)
      else mu.injRemoteGet := by
    unfold MuFifoRegs.setInjAttributes
    dsimp only
    split <;> split <;> split <;> rfl
  rw [hr]
  split
  next =>
    by_cases hg : g = gid
    · subst hg
      rw [Function.update_self, if_pos rfl, has_or, has_clear]
    · rw [Function.update_of_ne hg, if_neg hg]
  next hzero =>
    push Not at hzero
    rw [hzero.1, hzero.2, has_zero, Bool.not_false, Bool.and_true, Bool.or_false, ite_self]

theorem has_injSystem : has ((mu.setInjAttributes gid sgid masks).injSystem g) b =
    if g = gid then (has (mu.injSystem g) b || has masks.isSystem b) && !has masks.isUser b
    else has (mu.injSystem g) b := by
  have hy : (mu.setInjAttributes gid sgid masks).injSystem =
      if masks.isUser ≠ 0 ∨ masks.isSystem ≠ 0 then
        Function.update mu.injSystem gid ((mu.injSystem gid ||| masks.isSystem) &&& ~~~masks.isUser)
      else mu.injSystem := by
    unfold MuFifoRegs.setInjAttributes
    dsimp only
    split <;> split <;> split <;> rfl
  rw [hy]
  split
  next =>
    by_cases hg : g = gid
    · subst hg
      rw [Function.update_self, if_pos rfl, has_clear, has_or]
    · rw [Function.update_of_ne hg, if_neg hg]
  next hzero =>
    push Not at hzero
    rw [hzero.1, hzero.2, has_zero, Bool.not_false, Bool.and_true, Bool.or_false, ite_self]

/-- The registers say about a FIFO what has been asked for it, if it was listed. -/
theorem view_setInjAttributes (hsgid : sgid < numFifoSubgroups)
    (hids : ∀ f ∈ fifos, f.1 < numInjFifosPerSubgroup) (hnodup : (fifos.map Prod.fst).Nodup) :
    view (mu.setInjAttributes gid sgid (fifos.foldl (InjFifoMasks.add sgid) ⟨0, 0, 0, 0, 0, 0⟩)) u =
      if u.1 = gid ∧ (u.2.1 : Nat) = sgid then
        (fifos.lookup (u.2.2 : Nat)).elim (view mu u) fun a => ⟨(view mu u).start, a.priority, a.remoteGet, a.system⟩
      else view mu u := by
  have hmask := fun word q => has_mask u.2.1.isLt u.2.2.isLt hsgid hids hnodup word q
  have hhi := hmask (·.isHiPriority) (·.priority) rfl fun m f => by
    simp only [InjFifoMasks.add, priorityBit_eq]
  have hnormal := hmask (·.isNormalPriority) (!·.priority) rfl fun m f => by
    simp only [InjFifoMasks.add, priorityBit_eq]
    cases f.2.priority <;> rfl
  have hrget := hmask (·.isForRemoteGet) (·.remoteGet) rfl fun m f => by
    simp only [InjFifoMasks.add, bitNumber_eq]
  have hnot := hmask (·.isNotForRemoteGet) (!·.remoteGet) rfl fun m f => by
    simp only [InjFifoMasks.add, bitNumber_eq]
    cases f.2.remoteGet <;> rfl
  have hsystem := hmask (·.isSystem) (·.system) rfl fun m f => by
    simp only [InjFifoMasks.add, bitNumber_eq]
  have huser := hmask (·.isUser) (!·.system) rfl fun m f => by
    simp only [InjFifoMasks.add, bitNumber_eq]
    cases f.2.system <;> rfl
  rw [view, has_injPriority, has_injRemoteGet, has_injSystem, hhi, hnormal, hrget, hnot, hsystem, huser,
    (setInjAttributes_starts ..).1]
  by_cases hg : u.1 = gid
  · by_cases hs : (u.2.1 : Nat) = sgid
    · subst hg hs
      simp only [and_self, if_true, decide_true, Bool.true_and]
      cases fifos.lookup (u.2.2 : Nat) with
      | none => simp [view]
      | some a => cases a with
        | mk remoteGet system priority => cases remoteGet <;> cases system <;> cases priority <;> simp [view]
    · simp [view, hs]
  · simp only [hg, false_and, if_false, view]

theorem view_setStart {start : Nat → Nat → Nat → UInt64} :
    view { mu with injStart := start } u =
      { view mu u with start := start u.1 u.2.1 u.2.2 } := rfl

end Registers

section Calls

variable {mu mu' : MuFifoRegs} {u : InjUnit} {gid sgid subgrpid id : Nat} {rc : Int} {b : Bool}
  {ids free : List Nat} {fifos : List (Nat × InjFifoAttributes)} {sg sg' : FifoSubGroup MuspiInjFifo}
  {a : InjFifoAttributes} {num : Nat} {pa : UInt64}

/-- A search that comes to an answer has looked at existing FIFOs only. -/
theorem searchFree_cases (h : searchFree num free ids = some b) :
    b = true ∧ (∀ id ∈ ids, id < num ∧ id ∈ free) ∨ b = false ∧ ∃ id ∈ ids, id ∉ free := by
  induction ids with
  | nil =>
    cases Option.some.inj h
    exact .inl ⟨rfl, fun id hid => absurd hid List.not_mem_nil⟩
  | cons id ids ih =>
    rw [searchFree] at h
    split at h
    · cases h
    next hlt =>
      split at h
      next hfree =>
        rcases ih h with ⟨hb, hall⟩ | ⟨hb, k, hk, hnot⟩
        · refine .inl ⟨hb, fun k hk => ?_⟩
          rcases List.mem_cons.mp hk with rfl | hk
          · exact ⟨Nat.not_le.mp hlt, hfree⟩
          · exact hall k hk
        · exact .inr ⟨hb, k, List.mem_cons_of_mem _ hk, hnot⟩
      next hnot =>
        cases Option.some.inj h
        exact .inr ⟨rfl, id, List.mem_cons_self, hnot⟩

theorem allocated_regs (st : FifoSubGroup MuspiInjFifo × MuFifoRegs) :
    (fifos.foldl (allocateInjFifo gid sgid) st).2 =
      { st.2 with
        injStart := (fifos.map Prod.fst).foldl (fun start id => setStart start gid sgid id 0x40)
          st.2.injStart } := by
  induction fifos generalizing st with
  | nil => rfl
  | cons fifo fifos ih =>
    rw [List.foldl_cons, ih]
    rfl

/-- The subgroup structure after the last loop: its FIFOs are reached at the addresses of their kind. -/
theorem allocated_sg (hnodup : (fifos.map Prod.fst).Nodup) (st : FifoSubGroup MuspiInjFifo × MuFifoRegs) :
    (fifos.foldl (allocateInjFifo gid sgid) st).1 =
      { st.1 with
        fifos := fun id => (fifos.lookup id).elim (st.1.fifos id) fun a =>
          { st.1.fifos id with
            hwfifo := some ⟨.injFifo gid sgid id, a.system⟩
            hwInjfifo := some ⟨.injCounter gid sgid id, a.system⟩ } } := by
  induction fifos generalizing st with
  | nil => rfl
  | cons fifo fifos ih =>
    obtain ⟨hnew, hnodup⟩ := List.nodup_cons.mp hnodup
    rw [List.foldl_cons, ih hnodup]
    simp only [allocateInjFifo, FifoSubGroup.setFifo]
    congr 1
    funext id
    rw [List.lookup_cons]
    by_cases hid : id = fifo.1
    · subst hid
      have hnone : fifos.lookup fifo.1 = none := List.lookup_eq_none_iff.mpr fun p hp => by
        have hne : fifo.1 ≠ p.1 := fun he => hnew (List.mem_map.mpr ⟨p, hp, he.symm⟩)
        simpa using hne
      rw [hnone, Function.update_self]
      simp
    · have hne : (id == fifo.1) = false := by simpa using hid
      rw [hne, Function.update_of_ne hid]

theorem lookup_mem (h : fifos.lookup id = some a) : id ∈ fifos.map Prod.fst := by
  induction fifos with
  | nil => cases h
  | cons f fifos ih =>
    rw [List.lookup_cons] at h
    split at h
    next he =>
      rw [eq_of_beq he]
      exact List.mem_cons_self
    next => exact List.mem_cons_of_mem _ (ih h)

/-- `Kernel_AllocateInjFifos` gives all that is asked for, with its attributes, or refuses because not all of it is
free. -/
theorem allocate_cases (hnodup : (fifos.map Prod.fst).Nodup)
    (h : kernelAllocateInjFifos subgrpid fifos sg mu = some (rc, sg', mu')) :
    (rc = EAGAIN ∧ sg' = sg ∧ mu' = mu ∧ ¬ ∀ id ∈ fifos.map Prod.fst, id < numInjFifosPerSubgroup ∧
        mu.injStart (subgrpid / numFifoSubgroups) (subgrpid % numFifoSubgroups) id = 0) ∨
      (rc = 0 ∧ (∀ id ∈ fifos.map Prod.fst, id < numInjFifosPerSubgroup ∧
          mu.injStart (subgrpid / numFifoSubgroups) (subgrpid % numFifoSubgroups) id = 0) ∧
        sg'.subgroupid = subgrpid ∧
        (∃ p, sg'.groupStatus =
          some ⟨.injStatus (subgrpid / numFifoSubgroups) (subgrpid % numFifoSubgroups), p⟩) ∧
        (∀ id a, fifos.lookup id = some a →
          (sg'.fifos id).hwfifo =
              some ⟨.injFifo (subgrpid / numFifoSubgroups) (subgrpid % numFifoSubgroups) id, a.system⟩ ∧
            (sg'.fifos id).hwInjfifo =
              some ⟨.injCounter (subgrpid / numFifoSubgroups) (subgrpid % numFifoSubgroups) id, a.system⟩) ∧
        ∀ u : InjUnit, view mu' u =
          if isOf subgrpid u then
            (fifos.lookup (u.2.2 : Nat)).elim (view mu u) fun a => ⟨0x40, a.priority, a.remoteGet, a.system⟩
          else view mu u) := by
  unfold kernelAllocateInjFifos at h
  dsimp only at h
  split at h
  · cases h
  split at h
  next hfew =>
    cases Option.some.inj h
    refine .inl ⟨rfl, rfl, rfl, fun hall => ?_⟩
    -- a list without repetitions of free FIFOs is no longer than the list of the free ones
    have hsub : (fifos.map Prod.fst).Subperm (kernelQueryInjFifos mu subgrpid) :=
      List.subperm_of_subset hnodup fun id hid => mem_freeFifos.mpr (hall id hid)
    have hlength := hsub.length_le
    rw [List.length_map] at hlength
    omega
  next hmany =>
    obtain ⟨found, hfound, hr⟩ := Option.map_eq_some_iff.mp h
    rcases searchFree_cases hfound with ⟨rfl, hall⟩ | ⟨rfl, id, hid, hnot⟩
    · simp only [Bool.true_eq_false, if_false, Prod.mk.injEq] at hr
      obtain ⟨rfl, hr⟩ := hr
      have hfree : ∀ id ∈ fifos.map Prod.fst, id < numInjFifosPerSubgroup ∧
          mu.injStart (subgrpid / numFifoSubgroups) (subgrpid % numFifoSubgroups) id = 0 := fun id hid =>
        ⟨(hall id hid).1, (mem_freeFifos.mp (hall id hid).2).2⟩
      have hregs := congrArg Prod.snd hr
      have hsg := congrArg Prod.fst hr
      rw [allocated_regs] at hregs
      rw [allocated_sg hnodup] at hsg
      dsimp only at hregs hsg
      refine .inr ⟨rfl, hfree, ?_, ?_, ?_, ?_⟩
      · rw [← hsg]
      · rw [← hsg]
        exact ⟨_, rfl⟩
      · intro id a ha
        rw [← hsg]
        simp only [ha, Option.elim_some, and_self]
      · intro u
        have hsgid : subgrpid % numFifoSubgroups < numFifoSubgroups := Nat.mod_lt _ (by decide)
        have hids : ∀ f ∈ fifos, f.1 < numInjFifosPerSubgroup := fun f hf =>
          (hfree f.1 (List.mem_map_of_mem hf)).1
        rw [← hregs, view_setStart, view_setInjAttributes hsgid hids hnodup, foldl_setStart,
          (setInjAttributes_starts ..).1]
        by_cases hu : isOf subgrpid u
        · rw [if_pos hu, if_pos (show _ ∧ _ from hu)]
          cases hl : fifos.lookup (u.2.2 : Nat) with
          | none =>
            have hnot : (u.2.2 : Nat) ∉ fifos.map Prod.fst := fun hmem => by
              obtain ⟨f, hf, hfe⟩ := List.mem_map.mp hmem
              have hne := List.lookup_eq_none_iff.mp hl f hf
              rw [hfe] at hne
              simp at hne
            rw [if_neg fun hu => hnot hu.2.2]
            rfl
          | some a =>
            rw [if_pos ⟨hu.1, hu.2, lookup_mem hl⟩]
            rfl
        · rw [if_neg hu, if_neg (show ¬(_ ∧ _) from hu), if_neg fun hm => hu ⟨hm.1, hm.2.1⟩]
          rfl
    · simp only [if_true, Prod.mk.injEq] at hr
      obtain ⟨rfl, rfl, rfl⟩ := hr
      exact .inl ⟨rfl, rfl, rfl, fun hall => hnot (mem_freeFifos.mpr (hall id hid))⟩

theorem has_deallocateMasks {s : Nat} (hs : s < numFifoSubgroups) (hid : id < numInjFifosPerSubgroup)
    (hsgid : sgid < numFifoSubgroups) (hids : ∀ k ∈ ids, k < numInjFifosPerSubgroup) :
    has (deallocateMasks sgid ids).1 (place s id) = (decide (s = sgid) && decide (id ∈ ids)) ∧
      has (deallocateMasks sgid ids).2 (place s id) = (decide (s = sgid) && decide (id ∈ ids)) := by
  have hany : (ids.any fun k => decide (place s id = place sgid k)) =
      (decide (s = sgid) && decide (id ∈ ids)) := by
    rw [Bool.eq_iff_iff, List.any_eq_true, Bool.and_eq_true, decide_eq_true_iff, decide_eq_true_iff]
    constructor
    · rintro ⟨k, hk, hplace⟩
      obtain ⟨hsg, rfl⟩ := (place_inj hs hid hsgid (hids k hk)).mp (of_decide_eq_true hplace)
      exact ⟨hsg, hk⟩
    · rintro ⟨rfl, hmem⟩
      exact ⟨id, hmem, decide_eq_true rfl⟩
  rw [← hany]
  unfold deallocateMasks
  constructor
  · rw [has_foldl Prod.fst _ fun k => decide (place s id = place sgid k)]
    · rw [has_zero, Bool.false_or]
    · intro m k
      dsimp only
      rw [has_or, priorityBit_eq, has_place]
  · rw [has_foldl Prod.snd _ fun k => decide (place s id = place sgid k)]
    · rw [has_zero, Bool.false_or]
    · intro m k
      dsimp only
      rw [has_or, bitNumber_eq, has_place]

theorem clearPriority_view {p : Bool} {mask : UInt64} {g s : Nat}
    (h : (if mask ≠ 0 then clearPriority (some ⟨.injStatus g s, p⟩) mask mu else some mu) = some mu') :
    view mu' u = { view mu u with
      priority := (view mu u).priority &&
        !(decide (u.1 = g ∧ (u.2.1 : Nat) = s) && has mask (place u.2.1 u.2.2)) } := by
  split at h
  next =>
    cases Option.some.inj h
    by_cases hg : u.1 = g
    · by_cases hs : (u.2.1 : Nat) = s
      · simp [view, hg, hs, Function.update_self]
      · simp [view, hg, hs, Function.update_self]
    · simp [view, hg]
  next hzero =>
    cases Option.some.inj h
    rw [Decidable.not_not.mp hzero, has_zero, Bool.and_false, Bool.not_false, Bool.and_true]

theorem clearRemoteGet_view {mask : UInt64} :
    view (if mask ≠ 0 then clearRemoteGet gid mask mu else mu) u = { view mu u with
      remoteGet := (view mu u).remoteGet && !(decide (u.1 = gid) && has mask (place u.2.1 u.2.2)) } := by
  split
  next =>
    by_cases hg : u.1 = gid
    · simp [view, clearRemoteGet, hg, Function.update_self]
    · simp [view, clearRemoteGet, hg]
  next hzero =>
    rw [Decidable.not_not.mp hzero, has_zero, Bool.and_false, Bool.not_false, Bool.and_true]

theorem resetSystem_view {mask : UInt64} :
    view (if mask ≠ 0 then resetSystem gid mask mu else mu) u = { view mu u with
      system := (view mu u).system || (decide (u.1 = gid) && has mask (place u.2.1 u.2.2)) } := by
  split
  next =>
    by_cases hg : u.1 = gid
    · simp [view, resetSystem, hg, Function.update_self]
    · simp [view, resetSystem, hg]
  next hzero =>
    rw [Decidable.not_not.mp hzero, has_zero, Bool.and_false, Bool.or_false]

theorem deallocate_nil (h : kernelDeallocateInjFifos sg [] mu = some mu') : mu' = mu := by
  simpa [kernelDeallocateInjFifos, deallocateMasks] using h.symm

/-- `Kernel_DeallocateInjFifos` brings what is listed back to what a reset leaves, and nothing else changes. -/
theorem deallocate_view {p : Bool}
    (hstatus : sg.groupStatus = some ⟨.injStatus (sg.subgroupid / numFifoSubgroups)
      (sg.subgroupid % numFifoSubgroups), p⟩)
    (h : kernelDeallocateInjFifos sg ids mu = some mu') (u : InjUnit) :
    view mu' u =
      if isOf sg.subgroupid u ∧ (u.2.2 : Nat) ∈ ids then ⟨0, false, false, true⟩ else view mu u := by
  have hsgid : sg.subgroupid % numFifoSubgroups < numFifoSubgroups := Nat.mod_lt _ (by decide)
  unfold kernelDeallocateInjFifos at h
  dsimp only at h
  split at h
  · cases h
  next hlt =>
    have hids : ∀ k ∈ ids, k < numInjFifosPerSubgroup := by
      intro k hk
      by_contra hge
      exact hlt (List.any_eq_true.mpr ⟨k, hk, decide_eq_true (Nat.not_lt.mp hge)⟩)
    obtain ⟨mu₁, hpriority, rfl⟩ := Option.map_eq_some_iff.mp h
    rw [hstatus] at hpriority
    obtain ⟨hone, htwo⟩ := has_deallocateMasks u.2.1.isLt u.2.2.isLt hsgid hids
    rw [resetSystem_view, clearRemoteGet_view, clearPriority_view hpriority, hone, htwo, view_setStart,
      foldl_setStart]
    by_cases hg : u.1 = sg.subgroupid / numFifoSubgroups
    · by_cases hs : (u.2.1 : Nat) = sg.subgroupid % numFifoSubgroups
      · by_cases hid : (u.2.2 : Nat) ∈ ids
        · simp [isOf, hg, hs, hid]
        · simp [hid, view]
      · simp [isOf, hs, view]
    · simp [isOf, hg, view]

end Calls

/-- What a reset leaves, and what a deallocation brings a FIFO back to. -/
def FifoView.Vacant (v : FifoView) : Prop := v = ⟨0, false, false, true⟩

def FifoView.Shows (a : InjFifoAttributes) (v : FifoView) : Prop :=
  v.start ≠ 0 ∧ v.priority = a.priority ∧ v.remoteGet = a.remoteGet ∧ v.system = a.system

def Holder.tenant (h : Holder) (u : InjUnit) : Option InjFifoAttributes :=
  if isOf h.sg.subgroupid u then h.held u.2.2 else none

/-- The FIFOs of the node as units that the parties have. -/
def Node.estate {κ : Type} (s : Node κ) : Tenancies.Estate InjUnit κ InjFifoAttributes FifoView :=
  ⟨view s.mu, fun k => (s.holder k).tenant⟩

/-- A party's pointers lead to its FIFOs, with the privilege that the DCR asks for. -/
def Holder.Reached (h : Holder) : Prop :=
  ∀ id a, h.held id = some a →
    (h.sg.fifos id).hwfifo =
        some ⟨.injFifo (h.sg.subgroupid / numFifoSubgroups) (h.sg.subgroupid % numFifoSubgroups) id, a.system⟩ ∧
      (h.sg.fifos id).hwInjfifo =
        some ⟨.injCounter (h.sg.subgroupid / numFifoSubgroups) (h.sg.subgroupid % numFifoSubgroups) id,
          a.system⟩ ∧
      ∃ p, h.sg.groupStatus =
        some ⟨.injStatus (h.sg.subgroupid / numFifoSubgroups) (h.sg.subgroupid % numFifoSubgroups), p⟩

/-- No FIFO has two owners, the registers say of each what its owner asked for and of the others what a reset
leaves, and every owner reaches its FIFOs. -/
structure Node.Owned {κ : Type} (s : Node κ) : Prop where
  sound : Tenancies.Sound FifoView.Vacant FifoView.Shows s.estate
  reached : ∀ k, (s.holder k).Reached

/-- An allocation is granted exactly if nobody has a FIFO that it asks for, and leaves no trace if it is refused. -/
def Node.Answers {κ : Type} (s : Node κ) : Prop :=
  ∀ k subgrpid fifos rc sg' mu', (fifos.map Prod.fst).Nodup →
    kernelAllocateInjFifos subgrpid fifos (s.holder k).sg s.mu = some (rc, sg', mu') →
      (rc = 0 ↔ (∀ id ∈ fifos.map Prod.fst, id < numInjFifosPerSubgroup) ∧
        ∀ u : InjUnit, isOf subgrpid u → (u.2.2 : Nat) ∈ fifos.map Prod.fst →
          ∀ j, (s.holder j).tenant u = none) ∧
      (rc ≠ 0 → rc = EAGAIN ∧ sg' = (s.holder k).sg ∧ mu' = s.mu)

section Owners

variable {κ : Type} {s s' : Node κ}

theorem Node.Owned.start_eq_zero_iff (h : s.Owned) (u : InjUnit) :
    s.mu.injStart u.1 u.2.1 u.2.2 = 0 ↔ ∀ j, (s.holder j).tenant u = none := by
  constructor
  · intro hstart j
    by_contra hj
    obtain ⟨a, ha⟩ := Option.ne_none_iff_exists'.mp hj
    exact (h.sound.shown j u a ha).1 hstart
  · intro hnone
    have hvacant : (view s.mu u).Vacant := h.sound.empty u hnone
    exact congrArg FifoView.start hvacant

theorem Node.Owned.answers (h : s.Owned) : s.Answers := by
  intro k subgrpid fifos rc sg' mu' hnodup hcall
  -- what the code looks at: the starts of the FIFOs that are asked for
  have hfree : (∀ id ∈ fifos.map Prod.fst, id < numInjFifosPerSubgroup ∧
        s.mu.injStart (subgrpid / numFifoSubgroups) (subgrpid % numFifoSubgroups) id = 0) ↔
      (∀ id ∈ fifos.map Prod.fst, id < numInjFifosPerSubgroup) ∧
        ∀ u : InjUnit, isOf subgrpid u → (u.2.2 : Nat) ∈ fifos.map Prod.fst →
          ∀ j, (s.holder j).tenant u = none := by
    constructor
    · intro hall
      refine ⟨fun id hid => (hall id hid).1, fun u hu hid => (h.start_eq_zero_iff u).mp ?_⟩
      rw [hu.1, hu.2]
      exact (hall _ hid).2
    · rintro ⟨hlt, hnone⟩ id hid
      have hsgid : subgrpid % numFifoSubgroups < numFifoSubgroups := Nat.mod_lt _ (by decide)
      exact ⟨hlt id hid, (h.start_eq_zero_iff ⟨_, ⟨_, hsgid⟩, ⟨id, hlt id hid⟩⟩).mpr
        (hnone ⟨_, ⟨_, hsgid⟩, ⟨id, hlt id hid⟩⟩ ⟨rfl, rfl⟩ hid)⟩
  rcases allocate_cases hnodup hcall with ⟨rfl, rfl, rfl, hnot⟩ | ⟨rfl, hall, -⟩
  · refine ⟨⟨fun hrc => absurd hrc (by decide), fun hnone => absurd (hfree.mpr hnone) hnot⟩, fun _ => ?_⟩
    exact ⟨rfl, rfl, rfl⟩
  · exact ⟨⟨fun _ => hfree.mp hall, fun _ => rfl⟩, fun hrc => absurd rfl hrc⟩

theorem Node.Owned.init (h : s.Owned) {k : κ} {fifoid : Nat} {paStart : UInt64} {mu' : MuFifoRegs}
    (hheld : (s.holder k).held fifoid ≠ none) (hpa : paStart ≠ 0)
    (hcall : injFifoInitStart (s.holder k).sg fifoid paStart s.mu = some mu') :
    Node.Owned { s with mu := mu' } := by
  refine ⟨h.sound.alter rfl fun u => ?_, h.reached⟩
  obtain ⟨a, ha⟩ := Option.ne_none_iff_exists'.mp hheld
  unfold injFifoInitStart at hcall
  rw [(h.reached k fifoid a ha).1] at hcall
  split at hcall
  · cases hcall
  next hlt =>
    cases Option.some.inj hcall
    simp only [Node.estate, view_setStart, setStart_apply]
    split
    next hu =>
      have htenant : (s.holder k).tenant u = some a := by
        rw [Holder.tenant, if_pos ⟨hu.1, hu.2.1⟩, hu.2.2]
        exact ha
      exact .inr ⟨k, a, htenant, hpa, (h.sound.shown k u a htenant).2⟩
    next => exact .inl (.of_eq rfl)

variable [DecidableEq κ]

theorem Node.Owned.allocate (h : s.Owned) {k : κ} {subgrpid : Nat} {fifos : List (Nat × InjFifoAttributes)}
    (hnone : ∀ id < numInjFifosPerSubgroup, (s.holder k).held id = none)
    (hnodup : (fifos.map Prod.fst).Nodup) {rc : Int}
    {sg' : FifoSubGroup MuspiInjFifo} {mu' : MuFifoRegs}
    (hcall : kernelAllocateInjFifos subgrpid fifos (s.holder k).sg s.mu = some (rc, sg', mu')) :
    Node.Owned ⟨mu', Function.update s.holder k ((s.holder k).granted fifos rc sg')⟩ := by
  rcases allocate_cases hnodup hcall with ⟨rfl, rfl, rfl, -⟩ | ⟨rfl, hfree, hsub, ⟨p, hstatus⟩, hptr, hview⟩
  · have hsame : (s.holder k).granted fifos EAGAIN (s.holder k).sg = s.holder k := if_neg (by decide)
    rw [hsame, Function.update_eq_self]
    exact h
  · have hgranted : (s.holder k).granted fifos 0 sg' = ⟨sg', fun id => fifos.lookup id⟩ := if_pos rfl
    rw [hgranted]
    constructor
    · refine h.sound.take (k := k) ?_ ?_
      · intro j hj
        simp only [Node.estate, Function.update_of_ne hj]
      · intro u
        simp only [Node.estate, Function.update_self, Holder.tenant, hsub, hview u, hnone _ u.2.2.isLt, ite_self]
        by_cases hu : isOf subgrpid u
        · rw [if_pos hu, if_pos hu]
          cases hl : fifos.lookup (u.2.2 : Nat) with
          | none => exact .inl ⟨rfl, .of_eq rfl⟩
          | some a =>
            refine .inr ⟨(h.start_eq_zero_iff u).mp ?_, a, rfl, show (0x40 : UInt64) ≠ 0 by decide, rfl, rfl, rfl⟩
            rw [hu.1, hu.2]
            exact (hfree _ (lookup_mem hl)).2
        · exact .inl ⟨if_neg hu, .of_eq (if_neg hu)⟩
    · intro j
      dsimp only
      by_cases hj : j = k
      · subst hj
        rw [Function.update_self]
        intro id a ha
        dsimp only
        rw [hsub]
        exact ⟨(hptr id a ha).1, (hptr id a ha).2, p, hstatus⟩
      · rw [Function.update_of_ne hj]
        exact h.reached j

theorem Node.Owned.deallocate (h : s.Owned) {k : κ} {fifoids : List Nat} {mu' : MuFifoRegs}
    (hheld : ∀ id ∈ fifoids, (s.holder k).held id ≠ none)
    (hcall : kernelDeallocateInjFifos (s.holder k).sg fifoids s.mu = some mu') :
    Node.Owned ⟨mu', Function.update s.holder k ((s.holder k).released fifoids)⟩ := by
  constructor
  · refine h.sound.give (k := k) ?_ ?_
    · intro j hj
      simp only [Node.estate, Function.update_of_ne hj]
    · intro u
      simp only [Node.estate, Function.update_self, Holder.tenant, Holder.released]
      cases fifoids with
      | nil =>
        rw [deallocate_nil hcall]
        exact .inl ⟨by simp, .of_eq rfl⟩
      | cons id ids =>
        obtain ⟨a, ha⟩ := Option.ne_none_iff_exists'.mp (hheld id List.mem_cons_self)
        obtain ⟨-, -, p, hstatus⟩ := h.reached k id a ha
        rw [deallocate_view hstatus hcall]
        by_cases hu : isOf (s.holder k).sg.subgroupid u
        · by_cases hmem : (u.2.2 : Nat) ∈ id :: ids
          · refine .inr ?_
            rw [if_pos hu, if_pos hu, if_pos hmem, if_pos ⟨hu, hmem⟩]
            exact ⟨hheld _ hmem, rfl, rfl⟩
          · exact .inl ⟨by rw [if_neg hmem], .of_eq (if_neg fun hb => hmem hb.2)⟩
        · exact .inl ⟨by rw [if_neg hu, if_neg hu], .of_eq (if_neg fun hb => hu hb.1)⟩
  · intro j
    dsimp only
    by_cases hj : j = k
    · subst hj
      rw [Function.update_self]
      intro id a ha
      refine h.reached j id a ?_
      simp only [Holder.released] at ha
      split at ha
      · cases ha
      · exact ha
    · rw [Function.update_of_ne hj]
      exact h.reached j

theorem Node.Owned.step (h : s.Owned) {c : Call κ} (hc : c.Allowed s) (hs : s.step c = some s') : s'.Owned := by
  cases c with
  | allocate k subgrpid fifos =>
    obtain ⟨r, hcall, rfl⟩ := Option.map_eq_some_iff.mp hs
    exact h.allocate hc.1 hc.2 hcall
  | init k fifoid paStart =>
    obtain ⟨mu', hcall, rfl⟩ := Option.map_eq_some_iff.mp hs
    exact h.init hc.1 hc.2 hcall
  | deallocate k fifoids =>
    obtain ⟨mu', hcall, rfl⟩ := Option.map_eq_some_iff.mp hs
    exact h.deallocate hc hcall

theorem reset_owned (κ : Type) : (Node.reset κ).Owned where
  sound := by
    constructor
    · intro j k u hj
      exact absurd (ite_self _) hj
    · intro k u a ha
      simp [Node.estate, Holder.tenant, Node.reset] at ha
    · intro u _
      have hall : ∀ b < 32, has 0xFFFFFFFF b = true := by decide
      have hsystem := hall (place u.2.1 u.2.2) (by unfold place; omega)
      simp [FifoView.Vacant, Node.estate, view, Node.reset, resetRegs, hsystem]
  reached k id a ha := by cases ha

/-- The FIFOs of the injection side, whoever allocates them, in whatever order. -/
theorem injFifos_owned (calls : List (Call κ)) (hcalls : Meets Node.step Call.Allowed (Node.reset κ) calls) :
    Always Node.step (fun s => s.Owned ∧ s.Answers) (Node.reset κ) calls :=
  (always_of_step (fun _ _ _ h hc hs => h.step hc hs) (reset_owned κ) hcalls).imp fun _ h => ⟨h, h.answers⟩

/-- The injection FIFO of the number `i` of subgroup 66. -/
def fifo66 (i : Nat) (h : i < numInjFifosPerSubgroup) : InjUnit := (16, ⟨2, by decide⟩, ⟨i, h⟩)

/-- Two parties in one subgroup: a FIFO that the first gives back is the second's, as the second wants it. -/
def shared : List (Call Bool) :=
  [.allocate false 66 [(0, ⟨false, true, false⟩), (3, ⟨true, true, true⟩)], .init false 3 0x1000,
    .allocate true 66 [(0, ⟨false, false, true⟩)], .deallocate false [0],
    .allocate true 66 [(0, ⟨false, false, true⟩)]]

theorem injFifos_owned_shared :
    Always Node.step (fun s => s.Owned ∧ s.Answers) (Node.reset Bool) shared ∧
      (run Node.step (Node.reset Bool) shared).map (fun s =>
        ((s.holder true).tenant (fifo66 0 (by decide)), (s.holder false).tenant (fifo66 3 (by decide)),
          view s.mu (fifo66 0 (by decide)))) =
        some (some ⟨false, false, true⟩, some ⟨true, true, true⟩, ⟨0x40, true, false, false⟩) :=
  ⟨injFifos_owned shared (by decide +kernel), by decide +kernel⟩

end Owners

end BgqVrnic.InjOwners
