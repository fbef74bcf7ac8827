import BgqVrnic.InjOwners

namespace BgqVrnic.BaseAddresses

open Bitmaps Runs InjOwners

def EACCES : Int := 13

def numDataCountersPerSubgroup : Nat := 8

/-- The entry of the table that stands for none: all 37 address bits are on. -/
def freeEntry : UInt64 := 0x1FFFFFFFFF

/-- The base address table of the MU, by group, subgroup and number, and the two DCRs that say which subgroups are
the system's. -/
structure BatRegs where
  mode0 : UInt64
  mode1 : UInt64
  entry : Nat → Nat → Nat → UInt64

def BatRegs.setEntry (mu : BatRegs) (gid sgid batid : Nat) (value : UInt64) : BatRegs :=
  { mu with entry := setStart mu.entry gid sgid batid value }

/-- A pointer to the table of a subgroup. -/
structure BatAddress where
  gid : Nat
  sgid : Nat
  privileged : Bool
  deriving DecidableEq, Repr

/-- `MUSPI_BaseAddressTableSubGroup_t` -/
structure BatSubGroup where
  subgrpid : Nat
  permissions : UInt8
  hwBat : Option BatAddress
  swBat : Nat → UInt64

/-- `Kernel_QueryBaseAddressTable` -/
def kernelQueryBaseAddressTable (mu : BatRegs) (subgrpid : Nat) : List Nat :=
  (List.range numDataCountersPerSubgroup).filter fun i =>
    mu.entry (subgrpid / numFifoSubgroups) (subgrpid % numFifoSubgroups) i = freeEntry

/-- Whether a subgroup is the system's, as `Kernel_AllocateBaseAddressTable` reads it. -/
def systemStatus (mu : BatRegs) (subgrpid : Nat) : Bool :=
  if subgrpid ≤ 63 then mu.mode0 &&& (0x8000000000000000 >>> UInt64.ofNat subgrpid) ≠ 0
  else mu.mode1 &&& (0x8000000000000000 >>> UInt64.ofNat (subgrpid - 64)) ≠ 0

/-- The DCR that says for whom a subgroup is, as it is set by an allocation and reset by a deallocation. -/
def setMode (mu : BatRegs) (subgrpid : Nat) (system : Bool) : BatRegs :=
  let bitOf (dcr : UInt64) (b : Nat) : UInt64 :=
    if system then dcr ||| bitNumber b else dcr &&& ~~~bitNumber b
  if subgrpid < (numFifoGroups - 1) * numFifoSubgroups then { mu with mode0 := bitOf mu.mode0 subgrpid }
  else { mu with mode1 := bitOf mu.mode1 (subgrpid - (numFifoGroups - 1) * numFifoSubgroups) }

/-- `_BN(batid) >> 56` -/
def permissionBit (batid : Nat) : UInt64 := bitNumber batid >>> 56

/-- The last loop of `Kernel_AllocateBaseAddressTable`, for one entry. -/
def allocateEntry (gid sgid : Nat) (s : BatSubGroup × BatRegs) (batid : Nat) : BatSubGroup × BatRegs :=
  ({ s.1 with
      permissions := (s.1.permissions.toUInt64 ||| permissionBit batid).toUInt8
      swBat := Function.update s.1.swBat batid 0 },
    s.2.setEntry gid sgid batid 0)

/-- `Kernel_AllocateBaseAddressTable`, or nothing if an assertion fails. -/
def kernelAllocateBaseAddressTable (subgrpid : Nat) (batids : List Nat) (system : Bool) (sg : BatSubGroup)
    (mu : BatRegs) : Option (Int × BatSubGroup × BatRegs) :=
  let freeBatIds := kernelQueryBaseAddressTable mu subgrpid
  if numFifoSubgroupsPerNode ≤ subgrpid ∨ numDataCountersPerSubgroup < batids.length ∨ batids = [] then none
  else if freeBatIds.length < batids.length then some (EAGAIN, sg, mu)
  else
    let status := if freeBatIds.length < numDataCountersPerSubgroup then systemStatus mu subgrpid else system
    if system ≠ status then some (EACCES, sg, mu)
    else
      (searchFree numDataCountersPerSubgroup freeBatIds batids).map fun found =>
        if found = false then (EAGAIN, sg, mu)
        else
          let gid := subgrpid / numFifoSubgroups
          let sgid := subgrpid % numFifoSubgroups
          let sg := { sg with subgrpid := subgrpid, hwBat := some ⟨gid, sgid, system⟩, permissions := 0 }
          (0, batids.foldl (allocateEntry gid sgid) (sg, setMode mu subgrpid system))

/-- The loop of `Kernel_DeallocateBaseAddressTable`, for one entry. -/
def deallocateEntry (s : BatSubGroup × BatRegs) (batid : Nat) : Option (BatSubGroup × BatRegs) :=
  if numDataCountersPerSubgroup ≤ batid then none
  else s.1.hwBat.map fun hw =>
    ({ s.1 with
        permissions := (s.1.permissions.toUInt64 &&& ~~~permissionBit batid).toUInt8
        swBat := Function.update s.1.swBat batid 0 },
      s.2.setEntry hw.gid hw.sgid batid freeEntry)

/-- `Kernel_DeallocateBaseAddressTable`: the last entry that is given back takes the subgroup back to the
system. -/
def kernelDeallocateBaseAddressTable (sg : BatSubGroup) (batids : List Nat) (mu : BatRegs) :
    Option (BatSubGroup × BatRegs) :=
  if numDataCountersPerSubgroup < batids.length ∨ batids = [] then none
  else
    (batids.foldlM deallocateEntry (sg, mu)).map fun s =>
      if (kernelQueryBaseAddressTable s.2 s.1.subgrpid).length = numDataCountersPerSubgroup then
        (s.1, setMode s.2 s.1.subgrpid true)
      else s

/-- `bat->permissions & (_BN(entryid) >> 56)` -/
def permitted (bat : BatSubGroup) (entryid : Nat) : Bool :=
  bat.permissions.toUInt64 &&& permissionBit entryid ≠ 0

/-- `MUSPI_SetBaseAddress` -/
def muspiSetBaseAddress (bat : BatSubGroup) (entryid : Nat) (baseAddress : UInt64) (mu : BatRegs) :
    Option (BatSubGroup × BatRegs) :=
  if numDataCountersPerSubgroup ≤ entryid ∨ permitted bat entryid = false then none
  else bat.hwBat.map fun hw =>
    ({ bat with swBat := Function.update bat.swBat entryid baseAddress },
      mu.setEntry hw.gid hw.sgid entryid baseAddress)

/-- `MUSPI_GetBaseAddress`: the shadow is read, not the table. -/
def muspiGetBaseAddress (bat : BatSubGroup) (entryid : Nat) : Option UInt64 :=
  if numDataCountersPerSubgroup ≤ entryid ∨ permitted bat entryid = false then none
  else some (bat.swBat entryid)

/-- A party's subgroup structure, and the entries it has been given, with the mode it has asked for. -/
structure Holder where
  sg : BatSubGroup
  held : Nat → Option Bool

structure Node (κ : Type) where
  mu : BatRegs
  holder : κ → Holder

inductive Call (κ : Type)
  | allocate (k : κ) (subgrpid : Nat) (batids : List Nat) (system : Bool)
  | set (k : κ) (entryid : Nat) (baseAddress : UInt64)
  | deallocate (k : κ) (batids : List Nat)

def Holder.granted (h : Holder) (batids : List Nat) (system : Bool) (rc : Int) (sg : BatSubGroup) : Holder :=
  if rc = 0 then ⟨sg, fun id => if id ∈ batids then some system else none⟩ else ⟨sg, h.held⟩

def Holder.released (h : Holder) (batids : List Nat) (sg : BatSubGroup) : Holder :=
  ⟨sg, fun id => if id ∈ batids then none else h.held id⟩

def Node.step {κ : Type} [DecidableEq κ] (s : Node κ) : Call κ → Option (Node κ)
  | .allocate k subgrpid batids system =>
    (kernelAllocateBaseAddressTable subgrpid batids system (s.holder k).sg s.mu).map fun r =>
      ⟨r.2.2, Function.update s.holder k ((s.holder k).granted batids system r.1 r.2.1)⟩
  | .set k entryid baseAddress =>
    (muspiSetBaseAddress (s.holder k).sg entryid baseAddress s.mu).map fun r =>
      ⟨r.2, Function.update s.holder k { s.holder k with sg := r.1 }⟩
  | .deallocate k batids =>
    (kernelDeallocateBaseAddressTable (s.holder k).sg batids s.mu).map fun r =>
      ⟨r.2, Function.update s.holder k ((s.holder k).released batids r.1)⟩

/-- A party allocates with nothing left in its structure, stores addresses that fit, and gives back only what it
has. -/
def Call.Allowed {κ : Type} (s : Node κ) : Call κ → Prop
  | .allocate k _ _ _ => ∀ id < numDataCountersPerSubgroup, (s.holder k).held id = none
  | .set _ _ baseAddress => baseAddress ≠ freeEntry
  | .deallocate k batids => ∀ id ∈ batids, (s.holder k).held id ≠ none

instance {κ : Type} (s : Node κ) : (c : Call κ) → Decidable (c.Allowed s)
  | .allocate k _ _ _ =>
    inferInstanceAs (Decidable (∀ id < numDataCountersPerSubgroup, (s.holder k).held id = none))
  | .set _ _ baseAddress => inferInstanceAs (Decidable (baseAddress ≠ freeEntry))
  | .deallocate k batids => inferInstanceAs (Decidable (∀ id ∈ batids, (s.holder k).held id ≠ none))

/-- The node after a reset of the hardware. -/
def Node.reset (κ : Type) : Node κ :=
  ⟨⟨0xFFFFFFFFFFFFFFFF, 0xFFFFFFFFFFFFFFFF, fun _ _ _ => freeEntry⟩,
    fun _ => ⟨⟨0, 0, none, fun _ => 0⟩, fun _ => none⟩⟩

section Registers

variable {mu : BatRegs} {sub sub' id k : Nat} {system : Bool}

theorem shifted_eq (hk : k < 64) : (0x8000000000000000 : UInt64) >>> UInt64.ofNat k = bit (63 - k) := by
  have hall : ∀ k < 64, (0x8000000000000000 : UInt64) >>> UInt64.ofNat k = bit (63 - k) := by decide
  exact hall k hk

theorem permissionBit_eq (hid : id < numDataCountersPerSubgroup) : permissionBit id = bit (7 - id) := by
  have hall : ∀ id < 8, permissionBit id = bit (7 - id) := by decide
  exact hall id hid

theorem systemStatus_eq (hsub : sub < numFifoSubgroupsPerNode) : systemStatus mu sub =
    if sub < 64 then has mu.mode0 (63 - sub) else has mu.mode1 (63 - (sub - 64)) := by
  simp only [numFifoSubgroupsPerNode, numFifoGroups, numFifoSubgroups] at hsub
  unfold systemStatus
  by_cases hlow : sub < 64
  · rw [if_pos (by omega : sub ≤ 63), if_pos hlow, shifted_eq hlow, Bool.eq_iff_iff, decide_eq_true_iff]
    exact and_bit_ne_zero (by omega)
  · rw [if_neg (by omega : ¬ sub ≤ 63), if_neg hlow, shifted_eq (by omega), Bool.eq_iff_iff, decide_eq_true_iff]
    exact and_bit_ne_zero (by omega)

/-- The DCRs hold a bit for each subgroup, and setting one leaves the others. -/
theorem systemStatus_setMode (hsub : sub < numFifoSubgroupsPerNode) (hsub' : sub' < numFifoSubgroupsPerNode) :
    systemStatus (setMode mu sub system) sub' = if sub' = sub then system else systemStatus mu sub' := by
  rw [systemStatus_eq hsub', systemStatus_eq hsub']
  simp only [numFifoSubgroupsPerNode, numFifoGroups, numFifoSubgroups] at hsub hsub'
  have hbit : ∀ (dcr : UInt64) (b c : Nat), b < 64 → c < 64 →
      has (if system then dcr ||| bitNumber b else dcr &&& ~~~bitNumber b) (63 - c) =
        if c = b then system else has dcr (63 - c) := by
    intro dcr b c hb hc
    have hword : bitNumber b = bit (63 - b) := rfl
    have hiff : 63 - c = 63 - b ↔ c = b := by omega
    cases system <;> by_cases hcb : c = b <;> simp [hword, has_bit (by omega : 63 - b < 64), hiff, hcb]
  unfold setMode
  by_cases hlow : sub < 64
  · rw [if_pos (show sub < (numFifoGroups - 1) * numFifoSubgroups from hlow)]
    by_cases hlow' : sub' < 64
    · rw [if_pos hlow', if_pos hlow']
      exact hbit mu.mode0 sub sub' hlow hlow'
    · rw [if_neg hlow', if_neg hlow', if_neg (by omega : ¬ sub' = sub)]
  · rw [if_neg (show ¬ sub < (numFifoGroups - 1) * numFifoSubgroups from hlow)]
    by_cases hlow' : sub' < 64
    · rw [if_pos hlow', if_pos hlow', if_neg (by omega : ¬ sub' = sub)]
    · rw [if_neg hlow', if_neg hlow']
      have h := hbit mu.mode1 (sub - 64) (sub' - 64) (by omega) (by omega)
      have hiff : sub' - 64 = sub - 64 ↔ sub' = sub := by omega
      simp only [hiff] at h
      exact h

theorem setMode_entry : (setMode mu sub system).entry = mu.entry := by
  unfold setMode
  by_cases hlow : sub < (numFifoGroups - 1) * numFifoSubgroups
  · rw [if_pos hlow]
  · rw [if_neg hlow]

theorem permitted_eq {sg : BatSubGroup} (hid : id < numDataCountersPerSubgroup) :
    permitted sg id = has sg.permissions.toUInt64 (7 - id) := by
  rw [permitted, permissionBit_eq hid, Bool.eq_iff_iff, decide_eq_true_iff]
  exact and_bit_ne_zero (by omega)

/-- An entry of the table: its group, its subgroup and its number. -/
abbrev BatUnit := Fin numFifoGroups × Fin numFifoSubgroups × Fin numDataCountersPerSubgroup

def subOf (u : BatUnit) : Nat := u.1 * numFifoSubgroups + u.2.1

structure EntryView where
  value : UInt64
  system : Bool
  deriving DecidableEq, Repr

def view (mu : BatRegs) (u : BatUnit) : EntryView := ⟨mu.entry u.1 u.2.1 u.2.2, systemStatus mu (subOf u)⟩

theorem subOf_lt (u : BatUnit) : subOf u < numFifoSubgroupsPerNode := by
  have h1 := u.1.isLt
  have h2 := u.2.1.isLt
  simp only [numFifoGroups, numFifoSubgroups] at h1 h2
  simp only [subOf, numFifoSubgroupsPerNode, numFifoGroups, numFifoSubgroups]
  omega

theorem subOf_eq_iff {u : BatUnit} :
    subOf u = sub ↔ (u.1 : Nat) = sub / numFifoSubgroups ∧ (u.2.1 : Nat) = sub % numFifoSubgroups := by
  have h2 := u.2.1.isLt
  simp only [numFifoSubgroups] at h2
  simp only [subOf, numFifoSubgroups]
  omega

theorem exists_unit {i : Nat} (hsub : sub < numFifoSubgroupsPerNode) (hi : i < numDataCountersPerSubgroup) :
    ∃ u : BatUnit, (u.1 : Nat) = sub / numFifoSubgroups ∧ (u.2.1 : Nat) = sub % numFifoSubgroups ∧
      (u.2.2 : Nat) = i := by
  have hgid : sub / numFifoSubgroups < numFifoGroups := Nat.div_lt_of_lt_mul (by
    rw [Nat.mul_comm]
    exact hsub)
  have hsgid : sub % numFifoSubgroups < numFifoSubgroups := Nat.mod_lt _ (by decide)
  exact ⟨⟨⟨_, hgid⟩, ⟨_, hsgid⟩, ⟨i, hi⟩⟩, rfl, rfl, rfl⟩

theorem mem_query {i : Nat} : i ∈ kernelQueryBaseAddressTable mu sub ↔ i < numDataCountersPerSubgroup ∧
    mu.entry (sub / numFifoSubgroups) (sub % numFifoSubgroups) i = freeEntry := by
  rw [kernelQueryBaseAddressTable, List.mem_filter, List.mem_range, decide_eq_true_iff]

theorem query_length_le : (kernelQueryBaseAddressTable mu sub).length ≤ numDataCountersPerSubgroup := by
  have h := List.length_filter_le (fun i => decide (mu.entry (sub / numFifoSubgroups)
    (sub % numFifoSubgroups) i = freeEntry)) (List.range numDataCountersPerSubgroup)
  rw [List.length_range] at h
  exact h

/-- Some entries of a subgroup are not free. -/
theorem query_length_lt : (kernelQueryBaseAddressTable mu sub).length < numDataCountersPerSubgroup ↔
    ∃ i < numDataCountersPerSubgroup,
      mu.entry (sub / numFifoSubgroups) (sub % numFifoSubgroups) i ≠ freeEntry := by
  have h := List.length_filter_lt_length_iff_exists (l := List.range numDataCountersPerSubgroup)
    (p := fun i => decide (mu.entry (sub / numFifoSubgroups) (sub % numFifoSubgroups) i = freeEntry))
  rw [List.length_range] at h
  rw [kernelQueryBaseAddressTable, h]
  simp only [List.mem_range, decide_eq_true_iff]

end Registers

section Calls

variable {mu mu' : BatRegs} {sg sg' : BatSubGroup} {sub id : Nat} {ids : List Nat} {system : Bool} {rc : Int}

/-- When an allocation is granted: the entries are free, and those of the subgroup that are not are for the same
use. -/
def Grantable (mu : BatRegs) (sub : Nat) (ids : List Nat) (system : Bool) : Prop :=
  (∀ id ∈ ids, id < numDataCountersPerSubgroup ∧
      mu.entry (sub / numFifoSubgroups) (sub % numFifoSubgroups) id = freeEntry) ∧
    ((∃ i < numDataCountersPerSubgroup,
      mu.entry (sub / numFifoSubgroups) (sub % numFifoSubgroups) i ≠ freeEntry) → systemStatus mu sub = system)

/-- What an allocation that is granted leaves. -/
structure Gives (sub : Nat) (ids : List Nat) (system : Bool) (sg : BatSubGroup) (mu : BatRegs) (sg' : BatSubGroup)
    (mu' : BatRegs) : Prop where
  inside : sub < numFifoSubgroupsPerNode
  nonempty : ids ≠ []
  grantable : Grantable mu sub ids system
  subgrpid : sg'.subgrpid = sub
  hwBat : sg'.hwBat = some ⟨sub / numFifoSubgroups, sub % numFifoSubgroups, system⟩
  swBat : ∀ i, sg'.swBat i = if i ∈ ids then 0 else sg.swBat i
  permissions : ∀ i < numDataCountersPerSubgroup, permitted sg' i = decide (i ∈ ids)
  looks : ∀ u, view mu' u =
    if subOf u = sub then ⟨if (u.2.2 : Nat) ∈ ids then 0 else (view mu u).value, system⟩ else view mu u

/-- What a deallocation leaves: the mode changes only for a subgroup that is free after it. -/
structure Frees (sub : Nat) (ids : List Nat) (sg : BatSubGroup) (mu : BatRegs) (sg' : BatSubGroup)
    (mu' : BatRegs) : Prop where
  subgrpid : sg'.subgrpid = sub
  hwBat : sg'.hwBat = sg.hwBat
  swBat : ∀ i, sg'.swBat i = if i ∈ ids then 0 else sg.swBat i
  permissions : ∀ i < numDataCountersPerSubgroup, permitted sg' i = (permitted sg i && !decide (i ∈ ids))
  value : ∀ u : BatUnit, (view mu' u).value =
    if subOf u = sub ∧ (u.2.2 : Nat) ∈ ids then freeEntry else (view mu u).value
  mode : (∀ u : BatUnit, subOf u = sub → (view mu' u).value = freeEntry) ∧
      systemStatus mu' sub = true ∨
    (∃ u : BatUnit, subOf u = sub ∧ (view mu' u).value ≠ freeEntry) ∧
      systemStatus mu' sub = systemStatus mu sub
  others : ∀ sub' < numFifoSubgroupsPerNode, sub' ≠ sub → systemStatus mu' sub' = systemStatus mu sub'

/-- What `MUSPI_SetBaseAddress` leaves. -/
structure Stores (sub id : Nat) (value : UInt64) (sg : BatSubGroup) (mu : BatRegs) (sg' : BatSubGroup)
    (mu' : BatRegs) : Prop where
  subgrpid : sg'.subgrpid = sub
  hwBat : sg'.hwBat = sg.hwBat
  swBat : ∀ i, sg'.swBat i = if i = id then value else sg.swBat i
  permissions : sg'.permissions = sg.permissions
  value : ∀ u : BatUnit, (view mu' u).value =
    if subOf u = sub ∧ (u.2.2 : Nat) = id then value else (view mu u).value
  mode : ∀ sub', systemStatus mu' sub' = systemStatus mu sub'

theorem allocated_entries {gid sgid : Nat} (s : BatSubGroup × BatRegs) :
    (ids.foldl (allocateEntry gid sgid) s).2 =
      { s.2 with entry := ids.foldl (fun entry id => setStart entry gid sgid id 0) s.2.entry } := by
  induction ids generalizing s with
  | nil => rfl
  | cons id ids ih =>
    rw [List.foldl_cons, ih]
    rfl

/-- The subgroup structure after the last loop. -/
theorem allocated_sg (gid sgid : Nat) (hids : ∀ k ∈ ids, k < numDataCountersPerSubgroup)
    (s : BatSubGroup × BatRegs) :
    (ids.foldl (allocateEntry gid sgid) s).1.subgrpid = s.1.subgrpid ∧
      (ids.foldl (allocateEntry gid sgid) s).1.hwBat = s.1.hwBat ∧
      (∀ i, (ids.foldl (allocateEntry gid sgid) s).1.swBat i = if i ∈ ids then 0 else s.1.swBat i) ∧
      ∀ i < numDataCountersPerSubgroup, permitted (ids.foldl (allocateEntry gid sgid) s).1 i =
        (permitted s.1 i || decide (i ∈ ids)) := by
  induction ids generalizing s with
  | nil => simp
  | cons id ids ih =>
    obtain ⟨hsub, hhw, hsw, hperm⟩ := ih (fun k hk => hids k (List.mem_cons_of_mem _ hk))
      (allocateEntry gid sgid s id)
    refine ⟨hsub, hhw, fun i => ?_, fun i hi => ?_⟩
    · rw [List.foldl_cons, hsw i]
      simp only [allocateEntry, Function.update_apply, List.mem_cons]
      by_cases hid : i = id <;> by_cases hmem : i ∈ ids <;> simp [hid, hmem]
    · have hid : id < numDataCountersPerSubgroup := hids id List.mem_cons_self
      rw [List.foldl_cons, hperm i hi, permitted_eq hi, permitted_eq hi, allocateEntry]
      simp only [numDataCountersPerSubgroup] at hi hid
      simp only [has_toUInt8, has_or, permissionBit_eq hid, has_bit (by omega : 7 - id < 64), List.mem_cons]
      have hiff : 7 - i = 7 - id ↔ i = id := by omega
      simp only [hiff, decide_eq_true (by omega : 7 - i < 8), Bool.true_and, Bool.decide_or, Bool.or_assoc]

/-- `Kernel_AllocateBaseAddressTable` gives all that is asked for, or leaves everything as it is. -/
theorem allocate_cases (h : kernelAllocateBaseAddressTable sub ids system sg mu = some (rc, sg', mu')) :
    sub < numFifoSubgroupsPerNode ∧
      ((rc ≠ 0 ∧ sg' = sg ∧ mu' = mu ∧ (ids.Nodup → ¬ Grantable mu sub ids system)) ∨
        (rc = 0 ∧ Gives sub ids system sg mu sg' mu')) := by
  unfold kernelAllocateBaseAddressTable at h
  dsimp only at h
  split at h
  · cases h
  next hargs =>
    push Not at hargs
    refine ⟨hargs.1, ?_⟩
    split at h
    next hfew =>
      cases Option.some.inj h
      refine .inl ⟨by decide, rfl, rfl, fun hnodup hg => ?_⟩
      have hsubperm : ids.Subperm (kernelQueryBaseAddressTable mu sub) :=
        List.subperm_of_subset hnodup fun id hid => mem_query.mpr (hg.1 id hid)
      have hlength := hsubperm.length_le
      omega
    next hmany =>
      generalize hst : (if (kernelQueryBaseAddressTable mu sub).length < numDataCountersPerSubgroup then
        systemStatus mu sub else system) = status at h
      split at h
      next hmode =>
        cases Option.some.inj h
        refine .inl ⟨by decide, rfl, rfl, fun _ hg => ?_⟩
        split at hst
        next htaken => exact hmode ((hg.2 (query_length_lt.mp htaken)).symm.trans hst)
        next => exact hmode hst
      next hmode =>
        obtain ⟨found, hfound, hr⟩ := Option.map_eq_some_iff.mp h
        rcases searchFree_cases hfound with ⟨rfl, hall⟩ | ⟨rfl, id, hid, hnot⟩
        · simp only [Bool.true_eq_false, if_false, Prod.mk.injEq] at hr
          obtain ⟨rfl, hr⟩ := hr
          have hids : ∀ k ∈ ids, k < numDataCountersPerSubgroup := fun k hk => (hall k hk).1
          have hregs := congrArg Prod.snd hr
          have hsg := congrArg Prod.fst hr
          rw [allocated_entries] at hregs
          dsimp only at hregs hsg
          obtain ⟨hsub, hhw, hsw, hperm⟩ := allocated_sg (sub / numFifoSubgroups) (sub % numFifoSubgroups) hids
            ({ sg with
                subgrpid := sub
                hwBat := some ⟨sub / numFifoSubgroups, sub % numFifoSubgroups, system⟩
                permissions := 0 }, setMode mu sub system)
          rw [hsg] at hsub hhw hsw hperm
          refine .inr ⟨rfl, hargs.1, hargs.2.2, ⟨fun id hid => mem_query.mp (hall id hid).2, fun htaken => ?_⟩,
            hsub, hhw, hsw, fun i hi => ?_, fun u => ?_⟩
          · rw [if_pos (query_length_lt.mpr htaken)] at hst
            exact hst.trans (Decidable.not_not.mp hmode).symm
          · rw [hperm i hi]
            have hzero : permitted { sg with
                subgrpid := sub
                hwBat := some ⟨sub / numFifoSubgroups, sub % numFifoSubgroups, system⟩
                permissions := 0 } i = false := by
              rw [permitted_eq hi]
              exact has_zero
            rw [hzero, Bool.false_or]
          · have hmodes : systemStatus mu' (subOf u) =
                if subOf u = sub then system else systemStatus mu (subOf u) := by
              rw [← hregs, ← systemStatus_setMode hargs.1 (subOf_lt u)]
              rfl
            rw [view, hmodes, ← hregs]
            dsimp only
            rw [foldl_setStart, setMode_entry]
            by_cases hu : subOf u = sub
            · obtain ⟨hg, hs⟩ := subOf_eq_iff.mp hu
              rw [if_pos hu, if_pos hu]
              simp only [hg, hs, true_and, view]
            · rw [if_neg hu, if_neg hu, if_neg fun hm => hu (subOf_eq_iff.mpr ⟨hm.1, hm.2.1⟩), view]
        · simp only [if_true, Prod.mk.injEq] at hr
          obtain ⟨rfl, rfl, rfl⟩ := hr
          refine .inl ⟨by decide, rfl, rfl, fun _ hg => hnot (mem_query.mpr (hg.1 id hid))⟩

theorem deallocated {hw : BatAddress} (hhw : sg.hwBat = some hw)
    (h : ids.foldlM deallocateEntry (sg, mu) = some (sg', mu')) :
    sg'.subgrpid = sg.subgrpid ∧ sg'.hwBat = sg.hwBat ∧
      (∀ i, sg'.swBat i = if i ∈ ids then 0 else sg.swBat i) ∧
      (∀ i < numDataCountersPerSubgroup, permitted sg' i = (permitted sg i && !decide (i ∈ ids))) ∧
      mu' = { mu with
        entry := ids.foldl (fun entry id => setStart entry hw.gid hw.sgid id freeEntry) mu.entry } := by
  induction ids generalizing sg mu with
  | nil =>
    cases Option.some.inj h
    simp
  | cons id ids ih =>
    rw [List.foldlM_cons] at h
    obtain ⟨⟨sg₁, mu₁⟩, hone, hrest⟩ := Option.bind_eq_some_iff.mp h
    unfold deallocateEntry at hone
    split at hone
    · cases hone
    next hid =>
      rw [hhw] at hone
      cases Option.some.inj hone
      dsimp only at hrest
      have hhw₁ : BatSubGroup.hwBat { sg with
          permissions := (sg.permissions.toUInt64 &&& ~~~permissionBit id).toUInt8
          swBat := Function.update sg.swBat id 0 } = some hw := hhw
      obtain ⟨hsub, hhw', hsw, hperm, hmu⟩ := ih hhw₁ hrest
      refine ⟨hsub, hhw', fun i => ?_, fun i hi => ?_, hmu⟩
      · rw [hsw i]
        simp only [Function.update_apply, List.mem_cons]
        by_cases hid : i = id <;> by_cases hmem : i ∈ ids <;> simp [hid, hmem]
      · rw [hperm i hi, permitted_eq hi, permitted_eq hi]
        simp only [numDataCountersPerSubgroup] at hi hid
        simp only [has_toUInt8, has_clear, permissionBit_eq (Nat.not_le.mp hid),
          has_bit (by omega : 7 - id < 64), List.mem_cons]
        have hiff : 7 - i = 7 - id ↔ i = id := by omega
        simp only [hiff, decide_eq_true (by omega : 7 - i < 8), Bool.true_and, Bool.decide_or, Bool.not_or,
          Bool.and_assoc]

theorem deallocate_frees {p : Bool} (hsub : sub < numFifoSubgroupsPerNode) (hsg : sg.subgrpid = sub)
    (hhw : sg.hwBat = some ⟨sub / numFifoSubgroups, sub % numFifoSubgroups, p⟩)
    (h : kernelDeallocateBaseAddressTable sg ids mu = some (sg', mu')) : Frees sub ids sg mu sg' mu' := by
  unfold kernelDeallocateBaseAddressTable at h
  split at h
  · cases h
  obtain ⟨⟨sg₁, mu₁⟩, hloop, hr⟩ := Option.map_eq_some_iff.mp h
  obtain ⟨hsub₁, hhw₁, hsw, hperm, hmu₁⟩ := deallocated hhw hloop
  dsimp only at hr
  rw [hsub₁, hsg] at hr
  have hvalue : ∀ u : BatUnit, mu₁.entry u.1 u.2.1 u.2.2 =
      if subOf u = sub ∧ (u.2.2 : Nat) ∈ ids then freeEntry else (view mu u).value := by
    intro u
    rw [hmu₁]
    dsimp only
    rw [foldl_setStart]
    simp only [subOf_eq_iff, and_assoc]
    rfl
  split at hr
  next hfull =>
    cases hr
    refine ⟨hsub₁.trans hsg, hhw₁, hsw, hperm, fun u => ?_, .inl ⟨fun u hu => ?_, ?_⟩, fun sub' hsub' hne => ?_⟩
    · rw [view, setMode_entry]
      exact hvalue u
    · obtain ⟨hg, hs⟩ := subOf_eq_iff.mp hu
      have hnone : ¬ ∃ i < numDataCountersPerSubgroup,
          mu₁.entry (sub / numFifoSubgroups) (sub % numFifoSubgroups) i ≠ freeEntry := by
        rw [← query_length_lt, hfull]
        exact lt_irrefl _
      push Not at hnone
      rw [view, setMode_entry, hg, hs]
      exact hnone _ u.2.2.isLt
    · rw [systemStatus_setMode hsub hsub, if_pos rfl]
    · rw [systemStatus_setMode hsub hsub', if_neg hne, hmu₁]
      rfl
  next hfull =>
    cases hr
    refine ⟨hsub₁.trans hsg, hhw₁, hsw, hperm, hvalue, .inr ⟨?_, ?_⟩, fun sub' _ _ => ?_⟩
    · obtain ⟨i, hi, hne⟩ := query_length_lt.mp (lt_of_le_of_ne query_length_le hfull)
      obtain ⟨u, hg, hs, hu⟩ := exists_unit hsub hi
      refine ⟨u, subOf_eq_iff.mpr ⟨hg, hs⟩, ?_⟩
      rw [view, hg, hs, hu]
      exact hne
    · rw [hmu₁]
      rfl
    · rw [hmu₁]
      rfl

theorem set_cases {value : UInt64} (h : muspiSetBaseAddress sg id value mu = some (sg', mu')) :
    id < numDataCountersPerSubgroup ∧ permitted sg id = true ∧
      ∀ sub p, sg.subgrpid = sub → sg.hwBat = some ⟨sub / numFifoSubgroups, sub % numFifoSubgroups, p⟩ →
        Stores sub id value sg mu sg' mu' := by
  unfold muspiSetBaseAddress at h
  split at h
  · cases h
  next hargs =>
    push Not at hargs
    refine ⟨hargs.1, Bool.eq_true_of_not_eq_false hargs.2, fun sub p hsg hhw => ?_⟩
    rw [hhw] at h
    cases Option.some.inj h
    refine ⟨hsg, hhw.symm, fun i => Function.update_apply .., rfl, fun u => ?_, fun _ => rfl⟩
    rw [view, BatRegs.setEntry]
    dsimp only
    rw [setStart_apply]
    simp only [subOf_eq_iff, and_assoc]
    rfl

end Calls

def EntryView.Vacant (v : EntryView) : Prop := v.value = freeEntry

def EntryView.Shows (system : Bool) (v : EntryView) : Prop := v.value ≠ freeEntry ∧ v.system = system

def Holder.tenant (h : Holder) (u : BatUnit) : Option Bool :=
  if subOf u = h.sg.subgrpid then h.held u.2.2 else none

/-- The entries of the table as units that the parties have. -/
def Node.estate {κ : Type} (s : Node κ) : Tenancies.Estate BatUnit κ Bool EntryView :=
  ⟨view s.mu, fun k => (s.holder k).tenant⟩

/-- A party's pointer leads to its subgroup, and its permission bits are those of its entries. -/
structure Holder.Reached (h : Holder) : Prop where
  hwBat : ∀ id system, h.held id = some system → h.sg.subgrpid < numFifoSubgroupsPerNode ∧
    h.sg.hwBat = some ⟨h.sg.subgrpid / numFifoSubgroups, h.sg.subgrpid % numFifoSubgroups, system⟩
  permissions : ∀ id < numDataCountersPerSubgroup, permitted h.sg id = (h.held id).isSome

/-- No entry has two owners, an owned one is used in the mode its owner asked for, the owner's shadow is what the
hardware has, and a subgroup that nobody uses is the system's. -/
structure Node.Owned {κ : Type} (s : Node κ) : Prop where
  sound : Tenancies.Sound EntryView.Vacant EntryView.Shows s.estate
  reached : ∀ k, (s.holder k).Reached
  shadow : ∀ k u system, (s.holder k).tenant u = some system →
    (s.holder k).sg.swBat u.2.2 = (view s.mu u).value
  unused : ∀ sub < numFifoSubgroupsPerNode,
    (∀ k u, subOf u = sub → (s.holder k).tenant u = none) → systemStatus s.mu sub = true

/-- An allocation is granted exactly if nobody has an entry that it asks for, and nobody has one of the subgroup in
the other mode, and leaves no trace if it is refused. -/
def Node.Answers {κ : Type} (s : Node κ) : Prop :=
  ∀ k sub batids system rc sg' mu', batids.Nodup →
    kernelAllocateBaseAddressTable sub batids system (s.holder k).sg s.mu = some (rc, sg', mu') →
      (rc = 0 ↔ (∀ id ∈ batids, id < numDataCountersPerSubgroup) ∧ ∀ j u, subOf u = sub →
        ((u.2.2 : Nat) ∈ batids → (s.holder j).tenant u = none) ∧
          (s.holder j).tenant u ≠ some (!system)) ∧
      (rc ≠ 0 → sg' = (s.holder k).sg ∧ mu' = s.mu)

/-- A party reads an address back exactly if it has the entry, and reads what the hardware uses. -/
def Node.ReadsBack {κ : Type} (s : Node κ) : Prop :=
  ∀ k u, subOf u = (s.holder k).sg.subgrpid →
    muspiGetBaseAddress (s.holder k).sg u.2.2 = ((s.holder k).tenant u).map fun _ => (view s.mu u).value

section Owners

variable {κ : Type} {s s' : Node κ}

theorem Node.Owned.value_eq_iff (h : s.Owned) (u : BatUnit) :
    (view s.mu u).value = freeEntry ↔ ∀ j, (s.holder j).tenant u = none := by
  constructor
  · intro hfree j
    by_contra hj
    obtain ⟨system, ha⟩ := Option.ne_none_iff_exists'.mp hj
    exact (h.sound.shown j u system ha).1 hfree
  · intro hnone
    exact h.sound.empty u hnone

/-- What the code looks at before it grants anything. -/
theorem Node.Owned.grantable_iff (h : s.Owned) {sub : Nat} (hsub : sub < numFifoSubgroupsPerNode)
    {batids : List Nat} {system : Bool} : Grantable s.mu sub batids system ↔
      (∀ id ∈ batids, id < numDataCountersPerSubgroup) ∧ ∀ j u, subOf u = sub →
        ((u.2.2 : Nat) ∈ batids → (s.holder j).tenant u = none) ∧ (s.holder j).tenant u ≠ some (!system) := by
  constructor
  · rintro ⟨hfree, hmode⟩
    refine ⟨fun id hid => (hfree id hid).1, fun j u hu => ⟨fun hmem => ?_, fun hother => ?_⟩⟩
    · obtain ⟨hg, hs⟩ := subOf_eq_iff.mp hu
      refine (h.value_eq_iff u).mp ?_ j
      rw [view, hg, hs]
      exact (hfree _ hmem).2
    · obtain ⟨hg, hs⟩ := subOf_eq_iff.mp hu
      obtain ⟨hvalue, hsystem⟩ := h.sound.shown j u _ hother
      have htaken := hmode ⟨u.2.2, u.2.2.isLt, by rw [← hg, ← hs]; exact hvalue⟩
      rw [← hu] at htaken
      exact absurd (htaken.symm.trans hsystem) (by simp)
  · rintro ⟨hlt, hnone⟩
    refine ⟨fun id hid => ⟨hlt id hid, ?_⟩, ?_⟩
    · obtain ⟨u, hg, hs, rfl⟩ := exists_unit hsub (hlt id hid)
      rw [← hg, ← hs]
      exact (h.value_eq_iff u).mpr fun j => (hnone j u (subOf_eq_iff.mpr ⟨hg, hs⟩)).1 hid
    · rintro ⟨i, hi, hne⟩
      obtain ⟨u, hg, hs, rfl⟩ := exists_unit hsub hi
      rw [← hg, ← hs] at hne
      have hu := subOf_eq_iff.mpr ⟨hg, hs⟩
      have hsome := mt (h.value_eq_iff u).mpr hne
      push Not at hsome
      obtain ⟨j, hj⟩ := hsome
      obtain ⟨mode, hmode⟩ := Option.ne_none_iff_exists'.mp hj
      have hother := (hnone j u hu).2
      rw [hmode] at hother
      have hsame : mode = system := by
        cases mode <;> cases system <;> simp at hother ⊢
      rw [← hu, ← hsame]
      exact (h.sound.shown j u mode hmode).2

theorem Node.Owned.answers (h : s.Owned) : s.Answers := by
  intro k sub batids system rc sg' mu' hnodup hcall
  obtain ⟨hsub, ⟨hrc, hsg, hmu, hnot⟩ | ⟨rfl, hg⟩⟩ := allocate_cases hcall
  · exact ⟨⟨fun hzero => absurd hzero hrc, fun hall => absurd ((h.grantable_iff hsub).mpr hall) (hnot hnodup)⟩,
      fun _ => ⟨hsg, hmu⟩⟩
  · exact ⟨⟨fun _ => (h.grantable_iff hsub).mp hg.grantable, fun _ => rfl⟩, fun hrc => absurd rfl hrc⟩

theorem Node.Owned.readsBack (h : s.Owned) : s.ReadsBack := by
  intro k u hu
  have htenant : (s.holder k).tenant u = (s.holder k).held u.2.2 := if_pos hu
  rw [muspiGetBaseAddress, (h.reached k).permissions _ u.2.2.isLt, ← htenant]
  cases hmode : (s.holder k).tenant u with
  | none => simp
  | some mode =>
    rw [if_neg, h.shadow k u mode hmode]
    · rfl
    · have hlt := u.2.2.isLt
      simp only [Option.isSome_some, Bool.true_eq_false, or_false]
      omega

theorem Holder.tenant_of_held {hd : Holder} {u : BatUnit} {mode : Bool} (hu : subOf u = hd.sg.subgrpid)
    (hheld : hd.held u.2.2 = some mode) : hd.tenant u = some mode := by
  rw [Holder.tenant, if_pos hu, hheld]

section Granted

variable {sub : Nat} {batids : List Nat} {system : Bool} {sg sg' : BatSubGroup} {mu' : BatRegs}

/-- The entries that are given out were free. -/
theorem Gives.free (g : Gives sub batids system sg s.mu sg' mu') (h : s.Owned) {u : BatUnit} (hu : subOf u = sub)
    (hmem : (u.2.2 : Nat) ∈ batids) (j : κ) : (s.holder j).tenant u = none :=
  (((h.grantable_iff g.inside).mp g.grantable).2 j u hu).1 hmem

/-- Where an entry is in use, the mode was already the one that is asked for. -/
theorem Gives.keeps (g : Gives sub batids system sg s.mu sg' mu') {u : BatUnit}
    (hmem : ¬(subOf u = sub ∧ (u.2.2 : Nat) ∈ batids)) :
    Tenancies.Keeps EntryView.Vacant EntryView.Shows (view s.mu u) (view mu' u) := by
  rw [g.looks u]
  by_cases hu : subOf u = sub
  · rw [if_pos hu, if_neg fun hid => hmem ⟨hu, hid⟩]
    refine ⟨id, fun mode hmode => ⟨hmode.1, ?_⟩⟩
    obtain ⟨hgid, hsgid⟩ := subOf_eq_iff.mp hu
    have hstatus := g.grantable.2 ⟨u.2.2, u.2.2.isLt, by
      rw [← hgid, ← hsgid]
      exact hmode.1⟩
    rw [← hu] at hstatus
    exact hstatus.symm.trans hmode.2
  · rw [if_neg hu]
    exact .of_eq rfl

theorem Gives.reached (g : Gives sub batids system sg s.mu sg' mu') :
    Holder.Reached ⟨sg', fun id => if id ∈ batids then some system else none⟩ := by
  refine ⟨fun id mode hid => ?_, fun id hid => ?_⟩
  · dsimp only at hid ⊢
    split at hid
    · cases hid
      rw [g.subgrpid]
      exact ⟨g.inside, g.hwBat⟩
    · cases hid
  · dsimp only
    rw [g.permissions id hid]
    split <;> simp [*]

/-- An entry that is not given back looks as before, unless it was free as well. -/
theorem Frees.keeps {sg : BatSubGroup} (g : Frees sub batids sg s.mu sg' mu') {u : BatUnit}
    (hu : ¬(subOf u = sub ∧ (u.2.2 : Nat) ∈ batids)) :
    Tenancies.Keeps EntryView.Vacant EntryView.Shows (view s.mu u) (view mu' u) := by
  have hvalue := g.value u
  rw [if_neg hu] at hvalue
  refine ⟨fun hvacant => hvalue.trans hvacant, fun mode hmode => ⟨hvalue ▸ hmode.1, ?_⟩⟩
  have hstatus : systemStatus mu' (subOf u) = systemStatus s.mu (subOf u) := by
    by_cases hsub : subOf u = sub
    · rcases g.mode with ⟨hfree, -⟩ | ⟨-, hsame⟩
      · exact absurd (hvalue.symm.trans (hfree u hsub)) hmode.1
      · rw [hsub]
        exact hsame
    · exact g.others _ (subOf_lt u) hsub
  exact hstatus.trans hmode.2

end Granted

variable [DecidableEq κ] {k : κ} {sub : Nat} {batids : List Nat} {system : Bool} {sg' : BatSubGroup}
  {mu' : BatRegs}

theorem Node.Owned.allocate (h : s.Owned)
    (hnone : ∀ id < numDataCountersPerSubgroup, (s.holder k).held id = none)
    (g : Gives sub batids system (s.holder k).sg s.mu sg' mu') :
    Node.Owned ⟨mu', Function.update s.holder k
      ⟨sg', fun id => if id ∈ batids then some system else none⟩⟩ := by
  constructor
  · refine h.sound.take (k := k) ?_ ?_
    · intro j hj
      simp only [Node.estate, Function.update_of_ne hj]
    · intro u
      simp only [Node.estate, Function.update_self, Holder.tenant, g.subgrpid, hnone _ u.2.2.isLt, ite_self]
      by_cases hu : subOf u = sub ∧ (u.2.2 : Nat) ∈ batids
      · rw [if_pos hu.1, if_pos hu.2, g.looks u, if_pos hu.1, if_pos hu.2]
        exact .inr ⟨g.free h hu.1 hu.2, system, rfl, show (0 : UInt64) ≠ freeEntry by decide, rfl⟩
      · refine .inl ⟨?_, g.keeps hu⟩
        by_cases hsub : subOf u = sub
        · rw [if_pos hsub, if_neg fun hmem => hu ⟨hsub, hmem⟩]
        · rw [if_neg hsub]
  · intro j
    dsimp only
    by_cases hj : j = k
    · rw [hj, Function.update_self]
      exact g.reached
    · rw [Function.update_of_ne hj]
      exact h.reached j
  · intro j u mode htenant
    dsimp only at htenant ⊢
    by_cases hj : j = k
    · rw [hj, Function.update_self] at htenant ⊢
      simp only [Holder.tenant, g.subgrpid] at htenant
      split at htenant
      next hu =>
        split at htenant
        next hmem => rw [g.swBat, if_pos hmem, g.looks u, if_pos hu, if_pos hmem]
        next => cases htenant
      next => cases htenant
    · rw [Function.update_of_ne hj] at htenant ⊢
      have hmem : ¬(subOf u = sub ∧ (u.2.2 : Nat) ∈ batids) := fun hu => by
        rw [g.free h hu.1 hu.2 j] at htenant
        cases htenant
      rw [h.shadow j u mode htenant, g.looks u]
      by_cases hu : subOf u = sub
      · rw [if_pos hu, if_neg fun hid => hmem ⟨hu, hid⟩]
      · rw [if_neg hu]
  · intro sub' hsub' hnobody
    by_cases hsame : sub' = sub
    · -- the subgroup has an owner now
      obtain ⟨id, hid⟩ := List.exists_mem_of_ne_nil _ g.nonempty
      obtain ⟨u, hgid, hsgid, rfl⟩ := exists_unit g.inside (g.grantable.1 id hid).1
      have hu := subOf_eq_iff.mpr ⟨hgid, hsgid⟩
      have htenant := hnobody k u (hu.trans hsame.symm)
      simp [Function.update_self, Holder.tenant, g.subgrpid, hu, hid] at htenant
    · obtain ⟨u, hgid, hsgid, -⟩ := exists_unit (i := 0) hsub' (by decide)
      have hu := subOf_eq_iff.mpr ⟨hgid, hsgid⟩
      have hmode := congrArg EntryView.system (g.looks u)
      rw [if_neg (by rw [hu]; exact hsame)] at hmode
      have hold : systemStatus s.mu sub' = true := by
        refine h.unused sub' hsub' fun j v hv => ?_
        have hj := hnobody j v hv
        dsimp only at hj
        by_cases hjk : j = k
        · rw [hjk, Holder.tenant, hnone _ v.2.2.isLt, ite_self]
        · rw [Function.update_of_ne hjk] at hj
          exact hj
      rw [← hu] at hold ⊢
      exact hmode.trans hold

theorem Node.Owned.set (h : s.Owned) {id : Nat} {mode : Bool} {value : UInt64}
    (hid : id < numDataCountersPerSubgroup) (hheld : (s.holder k).held id = some mode) (hvalue : value ≠ freeEntry)
    (g : Stores (s.holder k).sg.subgrpid id value (s.holder k).sg s.mu sg' mu') :
    Node.Owned ⟨mu', Function.update s.holder k { s.holder k with sg := sg' }⟩ := by
  have htenant : ∀ j, (Function.update s.holder k { s.holder k with sg := sg' } j).tenant =
      (s.holder j).tenant := by
    intro j
    by_cases hj : j = k
    · rw [hj, Function.update_self]
      funext u
      simp only [Holder.tenant, g.subgrpid]
    · rw [Function.update_of_ne hj]
  have hmode : ∀ u, (view mu' u).system = (view s.mu u).system := fun u => g.mode _
  constructor
  · refine h.sound.alter (funext htenant) fun u => ?_
    by_cases hu : subOf u = (s.holder k).sg.subgrpid ∧ (u.2.2 : Nat) = id
    · have hk : (s.holder k).tenant u = some mode := by
        rw [Holder.tenant, if_pos hu.1, hu.2, hheld]
      refine .inr ⟨k, mode, hk, ?_, (hmode u).trans (h.sound.shown k u mode hk).2⟩
      rw [Node.estate, g.value u, if_pos hu]
      exact hvalue
    · have hsame : view mu' u = view s.mu u := by
        have hold := g.value u
        rw [if_neg hu] at hold
        rw [view, view, EntryView.mk.injEq]
        exact ⟨hold, hmode u⟩
      exact .inl (.of_eq hsame)
  · intro j
    dsimp only
    by_cases hj : j = k
    · rw [hj, Function.update_self]
      refine ⟨fun i m hi => ?_, fun i hi => ?_⟩
      · dsimp only
        rw [g.subgrpid, g.hwBat]
        exact (h.reached k).hwBat i m hi
      · dsimp only
        rw [permitted, g.permissions]
        exact (h.reached k).permissions i hi
    · rw [Function.update_of_ne hj]
      exact h.reached j
  · intro j u m hm
    dsimp only at hm ⊢
    rw [htenant j] at hm
    rw [g.value u]
    by_cases hj : j = k
    · subst hj
      have hu : subOf u = (s.holder j).sg.subgrpid := by
        by_contra hne
        rw [Holder.tenant, if_neg hne] at hm
        cases hm
      rw [Function.update_self, g.swBat]
      by_cases hui : (u.2.2 : Nat) = id
      · rw [if_pos hui, if_pos ⟨hu, hui⟩]
      · rw [if_neg hui, if_neg fun hb => hui hb.2]
        exact h.shadow j u m hm
    · rw [Function.update_of_ne hj, if_neg]
      · exact h.shadow j u m hm
      · rintro ⟨hu, rfl⟩
        have hk : (s.holder k).tenant u ≠ none := by
          rw [Holder.tenant, if_pos hu, hheld]
          exact Option.some_ne_none _
        exact hj (h.sound.alone j k u (fun hnone => by
          have hm' : (s.holder j).tenant u = none := hnone
          rw [hm] at hm'
          cases hm') hk)
  · intro sub' hsub' hnobody
    rw [g.mode]
    exact h.unused sub' hsub' fun j u hu => htenant j ▸ hnobody j u hu

theorem Node.Owned.deallocate (h : s.Owned) (hheld : ∀ id ∈ batids, (s.holder k).held id ≠ none)
    (g : Frees (s.holder k).sg.subgrpid batids (s.holder k).sg s.mu sg' mu') :
    Node.Owned ⟨mu', Function.update s.holder k ((s.holder k).released batids sg')⟩ := by
  have hsound : Tenancies.Sound EntryView.Vacant EntryView.Shows (Node.estate
      ⟨mu', Function.update s.holder k ((s.holder k).released batids sg')⟩) := by
    refine h.sound.give (k := k) ?_ ?_
    · intro j hj
      simp only [Node.estate, Function.update_of_ne hj]
    · intro u
      simp only [Node.estate, Function.update_self, Holder.tenant, Holder.released, g.subgrpid]
      by_cases hu : subOf u = (s.holder k).sg.subgrpid ∧ (u.2.2 : Nat) ∈ batids
      · rw [if_pos hu.1, if_pos hu.1, if_pos hu.2]
        refine .inr ⟨hheld _ hu.2, rfl, ?_⟩
        rw [EntryView.Vacant, g.value u, if_pos hu]
      · refine .inl ⟨?_, g.keeps hu⟩
        by_cases hsub : subOf u = (s.holder k).sg.subgrpid
        · rw [if_pos hsub, if_pos hsub, if_neg fun hmem => hu ⟨hsub, hmem⟩]
        · rw [if_neg hsub, if_neg hsub]
  refine ⟨hsound, fun j => ?_, fun j u mode htenant => ?_, fun sub' hsub' hnobody => ?_⟩
  · dsimp only
    by_cases hj : j = k
    · rw [hj, Function.update_self]
      refine ⟨fun id mode hid => ?_, fun id hid => ?_⟩
      · dsimp only [Holder.released] at hid ⊢
        split at hid
        · cases hid
        · rw [g.subgrpid, g.hwBat]
          exact (h.reached k).hwBat id mode hid
      · dsimp only [Holder.released]
        rw [g.permissions id hid, (h.reached k).permissions id hid]
        by_cases hmem : id ∈ batids
        · simp [hmem]
        · simp [hmem]
    · rw [Function.update_of_ne hj]
      exact h.reached j
  · dsimp only at htenant ⊢
    by_cases hj : j = k
    · rw [hj, Function.update_self] at htenant ⊢
      simp only [Holder.tenant, Holder.released, g.subgrpid] at htenant
      split at htenant
      next hu =>
        split at htenant
        next => cases htenant
        next hmem =>
          rw [Holder.released, g.swBat, if_neg hmem, g.value u, if_neg fun hb => hmem hb.2]
          exact h.shadow k u mode (Holder.tenant_of_held hu htenant)
      next => cases htenant
    · rw [Function.update_of_ne hj] at htenant ⊢
      rw [g.value u, if_neg]
      · exact h.shadow j u mode htenant
      · rintro ⟨hu, hmem⟩
        have hk : (s.holder k).tenant u ≠ none := by
          rw [Holder.tenant, if_pos hu]
          exact hheld _ hmem
        have hj' : (s.holder j).tenant u ≠ none := by
          rw [htenant]
          exact Option.some_ne_none _
        exact hj (h.sound.alone j k u hj' hk)
  · by_cases hsame : sub' = (s.holder k).sg.subgrpid
    · rw [hsame]
      rcases g.mode with ⟨-, hsystem⟩ | ⟨⟨u, hu, hne⟩, -⟩
      · exact hsystem
      · exact absurd (hsound.empty u fun j => hnobody j u (hu.trans hsame.symm)) hne
    · rw [g.others sub' hsub' hsame]
      refine h.unused sub' hsub' fun j u hu => ?_
      have hj := hnobody j u hu
      dsimp only at hj
      by_cases hjk : j = k
      · rw [hjk, Holder.tenant, if_neg]
        exact fun hsub => hsame (hu.symm.trans hsub)
      · rw [Function.update_of_ne hjk] at hj
        exact hj

theorem Node.Owned.step (h : s.Owned) {c : Call κ} (hc : c.Allowed s) (hs : s.step c = some s') : s'.Owned := by
  cases c with
  | allocate k sub batids system =>
    obtain ⟨r, hcall, rfl⟩ := Option.map_eq_some_iff.mp hs
    obtain ⟨-, ⟨hrc, hsg, hmu, -⟩ | ⟨hrc, g⟩⟩ := allocate_cases hcall
    · rw [Holder.granted, if_neg hrc, hsg, hmu, Function.update_eq_self]
      exact h
    · rw [Holder.granted, if_pos hrc]
      exact h.allocate hc g
  | set k entryid baseAddress =>
    obtain ⟨r, hcall, rfl⟩ := Option.map_eq_some_iff.mp hs
    obtain ⟨hid, hpermitted, hstores⟩ := set_cases hcall
    -- the permission bit is on only for an entry that is held
    rw [(h.reached k).permissions entryid hid] at hpermitted
    obtain ⟨mode, hheld⟩ := Option.isSome_iff_exists.mp hpermitted
    obtain ⟨-, hhw⟩ := (h.reached k).hwBat entryid mode hheld
    exact h.set hid hheld hc (hstores _ mode rfl hhw)
  | deallocate k batids =>
    obtain ⟨r, hcall, rfl⟩ := Option.map_eq_some_iff.mp hs
    have hne : batids ≠ [] := by
      rintro rfl
      simp [kernelDeallocateBaseAddressTable] at hcall
    obtain ⟨id, hid⟩ := List.exists_mem_of_ne_nil _ hne
    obtain ⟨mode, hheld⟩ := Option.ne_none_iff_exists'.mp (hc id hid)
    obtain ⟨hsub, hhw⟩ := (h.reached k).hwBat id mode hheld
    exact h.deallocate hc (deallocate_frees hsub rfl hhw hcall)

theorem reset_owned (κ : Type) : (Node.reset κ).Owned := by
  constructor
  · constructor
    · intro j k u hj
      exact absurd (ite_self _) hj
    · intro k u mode hmode
      simp [Node.estate, Holder.tenant, Node.reset] at hmode
    · intro u _
      rfl
  · intro k
    refine ⟨fun id mode hid => ?_, fun id hid => ?_⟩
    · cases hid
    · rw [permitted_eq hid]
      exact has_zero
  · intro k u mode hmode
    rw [Holder.tenant] at hmode
    split at hmode <;> cases hmode
  · intro sub hsub _
    have hall : ∀ b < 64, has 0xFFFFFFFFFFFFFFFF b = true := by decide
    rw [systemStatus_eq hsub]
    split
    · exact hall _ (by omega)
    · exact hall _ (by omega)

/-- The base address table, whoever allocates its entries, stores in them and gives them back, in whatever
order. -/
theorem entries_owned (calls : List (Call κ)) (hcalls : Meets Node.step Call.Allowed (Node.reset κ) calls) :
    Always Node.step (fun s => s.Owned ∧ s.Answers ∧ s.ReadsBack) (Node.reset κ) calls :=
  (always_of_step (fun _ _ _ h hc hs => h.step hc hs) (reset_owned κ) hcalls).imp fun _ h =>
    ⟨h, h.answers, h.readsBack⟩

/-- Two parties in the last subgroup: the second gets no entry for the users as long as the first has one for the
system. -/
def shared : List (Call Bool) :=
  [.allocate false 67 [0, 7] true, .set false 7 0x4000, .allocate true 67 [1] false, .deallocate false [0, 7],
    .allocate true 67 [1] false]

theorem entries_owned_shared :
    Always Node.step (fun s => s.Owned ∧ s.Answers ∧ s.ReadsBack) (Node.reset Bool) shared ∧
      (run Node.step (Node.reset Bool) shared).map (fun s =>
        ((s.holder false).held 7, (s.holder true).held 1, systemStatus s.mu 67, systemStatus s.mu 66)) =
        some (none, some false, false, true) :=
  ⟨entries_owned shared (by decide +kernel), by decide +kernel⟩

end Owners

end BgqVrnic.BaseAddresses
