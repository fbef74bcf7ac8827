import BgqVrnic.MuResets

namespace BgqVrnic.Links

open Bitmaps InjOwners BaseAddresses

section Tables

variable {bat bat' : BatRegs} {sg : BatSubGroup} {sub : Nat} {ids : List Nat} {system p : Bool}

theorem allocateTable_some (sg : BatSubGroup) (bat : BatRegs) (system : Bool) (hsub : sub < numFifoSubgroupsPerNode)
    (hlength : ids.length ≤ numDataCountersPerSubgroup) (hne : ids ≠ [])
    (hids : ∀ id ∈ ids, id < numDataCountersPerSubgroup) :
    ∃ r, kernelAllocateBaseAddressTable sub ids system sg bat = some r := by
  unfold kernelAllocateBaseAddressTable
  dsimp only
  rw [if_neg (by
    push Not
    exact ⟨hsub, hlength, hne⟩), searchFree_eq hids]
  generalize (if (kernelQueryBaseAddressTable bat sub).length < numDataCountersPerSubgroup then
    systemStatus bat sub else system) = status
  split
  · exact ⟨_, rfl⟩
  · split
    · exact ⟨_, rfl⟩
    · exact ⟨_, rfl⟩

/-- The loop of `activate_base_address_table`: every entry that it has permission for is set. -/
theorem setEntries (values : Nat → UInt64) (bat : BatRegs)
    (hhw : sg.hwBat = some ⟨sub / numFifoSubgroups, sub % numFifoSubgroups, p⟩)
    (hids : ∀ i ∈ ids, i < numDataCountersPerSubgroup ∧ permitted sg i = true) :
    ∃ sg' bat', ids.foldlM (fun s i => muspiSetBaseAddress s.1 i (values i) s.2) (sg, bat) = some (sg', bat') ∧
      sg'.hwBat = sg.hwBat ∧ sg'.permissions = sg.permissions ∧
      (∀ i, sg'.swBat i = if i ∈ ids then values i else sg.swBat i) ∧
      ∀ u, BaseAddresses.view bat' u = { BaseAddresses.view bat u with
        value := if subOf u = sub ∧ (u.2.2 : Nat) ∈ ids then values u.2.2
          else (BaseAddresses.view bat u).value } := by
  induction ids generalizing sg bat with
  | nil => exact ⟨sg, bat, rfl, rfl, rfl, fun i => by simp, fun u => by simp⟩
  | cons id ids ih =>
    obtain ⟨⟨hid, hperm⟩, hrest⟩ := List.forall_mem_cons.mp hids
    have hone : muspiSetBaseAddress sg id (values id) bat =
        some ({ sg with swBat := Function.update sg.swBat id (values id) },
          bat.setEntry (sub / numFifoSubgroups) (sub % numFifoSubgroups) id (values id)) := by
      rw [muspiSetBaseAddress, if_neg (by simp [hid, hperm]), hhw]
      rfl
    obtain ⟨sg', bat', hrun, hhw', hperm', hsw, hview⟩ := @ih
      { sg with swBat := Function.update sg.swBat id (values id) }
      (bat.setEntry (sub / numFifoSubgroups) (sub % numFifoSubgroups) id (values id)) hhw hrest
    refine ⟨sg', bat', ?_, hhw', hperm', fun i => ?_, fun u => ?_⟩
    · rw [List.foldlM_cons, hone]
      exact hrun
    · rw [hsw i]
      simp only [Function.update_apply, List.mem_cons]
      by_cases hi : i = id
      · simp [hi]
      · simp [hi]
    · rw [hview u]
      simp only [BaseAddresses.view, BatRegs.setEntry, setStart_apply, List.mem_cons, EntryView.mk.injEq]
      refine ⟨?_, rfl⟩
      by_cases hu : subOf u = sub
      · obtain ⟨hg, hs⟩ := subOf_eq_iff.mp hu
        by_cases hi : (u.2.2 : Nat) = id
        · simp [hu, hg, hs, hi]
        · simp [hu, hg, hs, hi]
      · have hnot : ¬((u.1 : Nat) = sub / numFifoSubgroups ∧ (u.2.1 : Nat) = sub % numFifoSubgroups) :=
          fun h => hu (subOf_eq_iff.mpr h)
        rw [if_neg fun h => hu h.1, if_neg fun h => hnot ⟨h.1, h.2.1⟩, if_neg fun h => hu h.1]

/-- Before the table of a link is activated: nobody has it, or the link has all of it already. -/
def TableReady (sub : Nat) (sg : BatSubGroup) (bat : BatRegs) : Prop :=
  (∀ u, subOf u = sub → (BaseAddresses.view bat u).system = true) ∧
    ((∀ u, subOf u = sub → (BaseAddresses.view bat u).value = freeEntry) ∨
      (∀ u, subOf u = sub → (BaseAddresses.view bat u).value ≠ freeEntry) ∧
        (∃ p, sg.hwBat = some ⟨sub / numFifoSubgroups, sub % numFifoSubgroups, p⟩) ∧
        ∀ i < numDataCountersPerSubgroup, permitted sg i = true)

/-- Whether or not the allocation is granted, the structure then has the permissions for the whole table. -/
theorem allocateTable_ready (hsub : sub < numFifoSubgroupsPerNode) (h : TableReady sub sg bat) :
    ∃ r, kernelAllocateBaseAddressTable sub (List.range numDataCountersPerSubgroup) true sg bat = some r ∧
      (∃ p, r.2.1.hwBat = some ⟨sub / numFifoSubgroups, sub % numFifoSubgroups, p⟩) ∧
      (∀ i < numDataCountersPerSubgroup, permitted r.2.1 i = true) ∧
      (∀ u, subOf u = sub → (BaseAddresses.view r.2.2 u).system = true) ∧
      ∀ u, subOf u ≠ sub → BaseAddresses.view r.2.2 u = BaseAddresses.view bat u := by
  obtain ⟨⟨rc, sg', bat'⟩, hr⟩ := allocateTable_some sg bat true hsub
    (by simp : (List.range numDataCountersPerSubgroup).length ≤ _) (by decide) fun id hid => List.mem_range.mp hid
  refine ⟨_, hr, ?_⟩
  obtain ⟨hsystem, hfree | ⟨htaken, hhw, hperm⟩⟩ := h
  · -- nothing of the table is in use, so that the allocation is granted
    have hgrantable : Grantable bat sub (List.range numDataCountersPerSubgroup) true := by
      refine ⟨fun id hid => ⟨List.mem_range.mp hid, ?_⟩, fun _ => ?_⟩
      · obtain ⟨u, hg, hs, hu⟩ := exists_unit hsub (List.mem_range.mp hid)
        rw [← hg, ← hs, ← hu]
        exact hfree u (subOf_eq_iff.mpr ⟨hg, hs⟩)
      · obtain ⟨u, hg, hs, -⟩ := exists_unit (i := 0) hsub (by decide)
        have hu := subOf_eq_iff.mpr ⟨hg, hs⟩
        rw [← hu]
        exact hsystem u hu
    obtain ⟨-, ⟨-, -, -, hnot⟩ | ⟨-, g⟩⟩ := allocate_cases hr
    · exact absurd hgrantable (hnot List.nodup_range)
    · refine ⟨⟨true, g.hwBat⟩, fun i hi => ?_, fun u hu => ?_, fun u hu => ?_⟩
      · rw [g.permissions i hi, decide_eq_true (List.mem_range.mpr hi)]
      · rw [g.looks u, if_pos hu]
      · rw [g.looks u, if_neg hu]
  · obtain ⟨-, ⟨-, rfl, rfl, -⟩ | ⟨-, g⟩⟩ := allocate_cases hr
    · exact ⟨hhw, hperm, hsystem, fun _ _ => rfl⟩
    · obtain ⟨u, hg, hs, hu⟩ := exists_unit (i := 0) hsub (by decide)
      have hvalue := (g.grantable.1 0 (by simp [numDataCountersPerSubgroup])).2
      rw [← hg, ← hs, ← hu] at hvalue
      exact absurd hvalue (htaken u (subOf_eq_iff.mpr ⟨hg, hs⟩))

end Tables

/-- What is written down about a link in `struct MU_subgroup_memory`, apart from its shadows. -/
structure MuSubgroupMemory.Good (m : MuSubgroupMemory) : Prop where
  inside : m.subgroupID < numFifoSubgroupsPerNode
  group : m.subgroupID / numFifoSubgroups = sysGroupid
  batids : m.batids = List.range numDataCountersPerSubgroup
  batvalues : ∀ i < numDataCountersPerSubgroup, m.batvalues i ≠ freeEntry
  injAligned : m.injRegion.baseVaddr &&& 0xFFFFFFFFFFFFFFC0 = m.injRegion.baseVaddr
  injLength : 128 ≤ m.injRegion.length ∧ m.injRegion.length &&& 0x3F = 0
  injEnd : m.injRegion.baseVaddr < m.injRegion.baseVaddr + m.injRegion.length
  injPaddr : m.injRegion.basePaddr ≠ 0
  recAligned : m.recRegion.baseVaddr &&& 0xFFFFFFFFFFFFFFE0 = m.recRegion.baseVaddr
  recLength : 544 + 32 ≤ m.recRegion.length ∧ m.recRegion.length &&& 0x1F = 0
  recPaddr : m.recRegion.basePaddr ≠ 0

/-- The link's structure for its table: it may use every entry, and knows what is in it. -/
structure MuSubgroupMemory.TableHeld (m : MuSubgroupMemory) : Prop where
  hwBat : ∃ p, m.bat.hwBat = some ⟨m.subgroupID / numFifoSubgroups, m.subgroupID % numFifoSubgroups, p⟩
  permissions : ∀ i < numDataCountersPerSubgroup, permitted m.bat i = true
  swBat : ∀ i < numDataCountersPerSubgroup, m.bat.swBat i = m.batvalues i

section Activations

variable {m : MuSubgroupMemory} {mu : Mu}

theorem activateTable (hm : m.Good) (h : TableReady m.subgroupID m.bat mu.bat) :
    ∃ sg bat, activateBaseAddressTable m mu = some ({ m with bat := sg }, { mu with bat := bat }) ∧
      MuSubgroupMemory.TableHeld { m with bat := sg } ∧
      ∀ u, BaseAddresses.view bat u =
        if subOf u = m.subgroupID then ⟨m.batvalues u.2.2, true⟩ else BaseAddresses.view mu.bat u := by
  obtain ⟨⟨rc, sg₁, bat₁⟩, halloc, ⟨p, hhw⟩, hperm, hsystem, hother⟩ := allocateTable_ready hm.inside h
  obtain ⟨sg₂, bat₂, hloop, hhw₂, hperm₂, hsw, hview⟩ := setEntries m.batvalues bat₁ hhw
    fun i (hi : i ∈ List.range numDataCountersPerSubgroup) =>
      ⟨List.mem_range.mp hi, hperm i (List.mem_range.mp hi)⟩
  refine ⟨sg₂, bat₂, ?_, ⟨⟨p, hhw₂.trans hhw⟩, fun i hi => ?_, fun i hi => ?_⟩, fun u => ?_⟩
  · rw [activateBaseAddressTable, hm.batids, halloc, Option.bind_some, hloop]
    rfl
  · rw [permitted, hperm₂]
    exact hperm i hi
  · rw [hsw i, if_pos (List.mem_range.mpr hi)]
  · rw [hview u]
    by_cases hu : subOf u = m.subgroupID
    · rw [if_pos ⟨hu, List.mem_range.mpr u.2.2.isLt⟩, if_pos hu]
      exact congrArg (EntryView.mk _) (hsystem u hu)
    · rw [if_neg fun h => hu h.1, if_neg hu]
      exact hother u hu

theorem size_ge {n k : UInt64} (h : k ≤ n) : ¬ n - 1 + 1 < k := by
  rw [UInt64.sub_add_cancel]
  exact UInt64.not_lt.mpr h

/-- An allocation of injection FIFOs leaves the reception FIFOs to whom they were. -/
theorem allocateInj_rec {subgrpid : Nat} {fifos : List (Nat × InjFifoAttributes)}
    {sg : FifoSubGroup MuspiInjFifo} {fifoRegs : MuFifoRegs} {r : Int × FifoSubGroup MuspiInjFifo × MuFifoRegs}
    (h : kernelAllocateInjFifos subgrpid fifos sg fifoRegs = some r) :
    r.2.2.recStart = fifoRegs.recStart ∧ r.2.2.recSystem = fifoRegs.recSystem := by
  have hattributes : ∀ gid sgid masks, (fifoRegs.setInjAttributes gid sgid masks).recStart = fifoRegs.recStart ∧
      (fifoRegs.setInjAttributes gid sgid masks).recSystem = fifoRegs.recSystem := by
    intro gid sgid masks
    unfold MuFifoRegs.setInjAttributes
    dsimp only
    split <;> split <;> split <;> exact ⟨rfl, rfl⟩
  unfold kernelAllocateInjFifos at h
  dsimp only at h
  split at h
  · cases h
  · split at h
    · cases Option.some.inj h
      exact ⟨rfl, rfl⟩
    · obtain ⟨found, -, rfl⟩ := Option.map_eq_some_iff.mp h
      split
      · exact ⟨rfl, rfl⟩
      · rw [InjOwners.allocated_regs]
        exact hattributes ..

theorem allocateInj_some {subgrpid : Nat} (sg : FifoSubGroup MuspiInjFifo) (fifoRegs : MuFifoRegs)
    (a : InjFifoAttributes) (hsub : subgrpid < numFifoSubgroupsPerNode) :
    ∃ r, kernelAllocateInjFifos subgrpid [(0, a)] sg fifoRegs = some r := by
  unfold kernelAllocateInjFifos
  dsimp only
  rw [if_neg (by
    push Not
    exact ⟨hsub, by simp [numInjFifosPerSubgroup]⟩), List.map_cons, List.map_nil,
    searchFree_eq (by simp [numInjFifosPerSubgroup])]
  split
  · exact ⟨_, rfl⟩
  · exact ⟨_, rfl⟩

/-- What the registers say about the injection FIFOs once a link has been activated. -/
def MuSubgroupMemory.injFifos (m : MuSubgroupMemory) (inj : InjUnit → InjLook) (u : InjUnit) : InjLook :=
  if Within m.subgroupID u.1 u.2.1 ∧ (u.2.2 : Nat) = 0 then
    { inj u with
      start := m.injRegion.basePaddr
      hw := { (inj u).hw with
        size1 := m.injRegion.length - 1
        paHead := m.injRegion.basePaddr
        paTail := m.injRegion.basePaddr }
      remoteGet := false
      system := true
      enabled := true }
  else inj u

def MuSubgroupMemory.injFresh (m : MuSubgroupMemory) (freeSpace : UInt64) : FifoShadow :=
  { FifoShadow.cleared.init m.injRegion.baseVaddr m.injRegion.basePaddr (m.injRegion.length - 1) with
    freeSpace := freeSpace }

theorem injFifoInit_eq (freeSpace : HwFifo → UInt64) (mu : Mu) {g s : Nat} {q : Bool} (hm : m.Good)
    (hid : m.ififoid = 0)
    (hhw : (m.ififoSubgroup.fifos 0).hwfifo = some ⟨.injFifo g s 0, q⟩) :
    ∃ free, kernelInjFifoInit freeSpace 0 (m.injRegion.length - 1) m mu =
      some ({ m with
          injShadow := Function.update m.injShadow 0
            { (m.injShadow 0).init m.injRegion.baseVaddr m.injRegion.basePaddr (m.injRegion.length - 1) with
              freeSpace := free } },
        { mu with
          fifos := { mu.fifos with injStart := setStart mu.fifos.injStart g s 0 m.injRegion.basePaddr }
          inj := setAt mu.inj g s 0 { mu.inj g s 0 with
            size1 := m.injRegion.length - 1
            paHead := m.injRegion.basePaddr
            paTail := m.injRegion.basePaddr } }) := by
  have hargs : ¬(numInjFifosPerSubgroup ≤ 0 ∨
      m.injRegion.baseVaddr &&& 0xFFFFFFFFFFFFFFC0 ≠ m.injRegion.baseVaddr ∨
      m.injRegion.length - 1 + 1 < 128 ∨ m.injRegion.length - 1 + 1 &&& 0x3F ≠ 0 ∨
      ¬ m.injRegion.baseVaddr < m.injRegion.baseVaddr + m.injRegion.length) := by
    have hlength := size_ge hm.injLength.1
    rw [UInt64.sub_add_cancel] at hlength ⊢
    simp [numInjFifosPerSubgroup, hm.injAligned, hlength, hm.injLength.2, hm.injEnd]
  unfold kernelInjFifoInit
  simp only [hid, UInt64.add_zero]
  rw [if_neg hargs, hhw]
  exact ⟨_, rfl⟩

/-- An allocation of the first FIFO, as its look shows it. -/
theorem injLook_allocated {sub : Nat} {regs : MuFifoRegs} {a : InjFifoAttributes}
    (hview : ∀ u : InjUnit, InjOwners.view regs u =
      if isOf sub u then
        (([(0, a)] : List (Nat × InjFifoAttributes)).lookup (u.2.2 : Nat)).elim (InjOwners.view mu.fifos u)
          fun a => ⟨0x40, a.priority, a.remoteGet, a.system⟩
      else InjOwners.view mu.fifos u) (u : InjUnit) :
    Mu.injLook { mu with fifos := regs } u =
      if Within sub u.1 u.2.1 ∧ (u.2.2 : Nat) = 0 then
        { mu.injLook u with start := 0x40, remoteGet := a.remoteGet, system := a.system }
      else mu.injLook u := by
  have hv : InjOwners.view regs u = if Within sub u.1 u.2.1 ∧ (u.2.2 : Nat) = 0 then
      ⟨0x40, a.priority, a.remoteGet, a.system⟩ else InjOwners.view mu.fifos u := by
    rw [hview u]
    by_cases hu : Within sub u.1 u.2.1
    · rw [if_pos (show isOf sub u from hu)]
      by_cases hid : (u.2.2 : Nat) = 0
      · rw [if_pos ⟨hu, hid⟩, hid]
        rfl
      · have hne : ((u.2.2 : Nat) == 0) = false := beq_eq_false_iff_ne.mpr hid
        rw [if_neg fun h => hid h.2, List.lookup_cons, hne]
        rfl
    · rw [if_neg (show ¬isOf sub u from hu), if_neg fun h => hu h.1]
  have hlook : ∀ regs : MuFifoRegs, Mu.injLook { mu with fifos := regs } u =
      { mu.injLook u with
        start := (InjOwners.view regs u).start
        remoteGet := (InjOwners.view regs u).remoteGet
        system := (InjOwners.view regs u).system } := fun _ => rfl
  rw [hlook, hv]
  split <;> rfl

/-- A FIFO that has been initialised and enabled, as its look shows it. -/
theorem injLook_started (mu : Mu) {g sg : Nat} {hw : HwFifo} {pa : UInt64} (hsg : sg < numFifoSubgroups)
    (u : InjUnit) :
    Mu.injLook { mu with
        fifos := { mu.fifos with injStart := setStart mu.fifos.injStart g sg 0 pa }
        inj := setAt mu.inj g sg 0 hw
        injEnabled := Function.update mu.injEnabled g (mu.injEnabled g ||| bit (place sg 0)) } u =
      if (u.1 = g ∧ (u.2.1 : Nat) = sg) ∧ (u.2.2 : Nat) = 0 then
        { mu.injLook u with start := pa, hw := hw, enabled := true }
      else mu.injLook u := by
  have hplace := place_inj u.2.1.isLt u.2.2.isLt hsg (by decide : 0 < numInjFifosPerSubgroup)
  by_cases hg : u.1 = g
  · by_cases hu : (u.2.1 : Nat) = sg ∧ (u.2.2 : Nat) = 0
    · rw [if_pos ⟨⟨hg, hu.1⟩, hu.2⟩]
      simp [Mu.injLook, setStart_apply, setAt_apply, hg, hu, has_place]
    · rw [if_neg fun h => hu ⟨h.1.2, h.2⟩]
      simp [Mu.injLook, setStart_apply, setAt_apply, hg, hu, has_place, hplace.not.mpr hu]
  · rw [if_neg fun h => hg h.1.1]
    simp [Mu.injLook, setStart_apply, setAt_apply, hg]

theorem activateInj (freeSpace : HwFifo → UInt64) (priority : Bool) (hm : m.Good)
    (hfree : ∀ u, Within m.subgroupID u.1 u.2.1 → (mu.looks.inj u).start = 0) :
    ∃ sg free mu', activateInjfifos freeSpace priority m mu = some (0,
        { m with
          ififoid := 0
          ififoSubgroup := sg
          injShadow := Function.update (fun _ => .cleared) 0 (m.injFresh free) }, mu') ∧
      (sg.fifos 0).hwfifo =
        some ⟨.injFifo (m.subgroupID / numFifoSubgroups) (m.subgroupID % numFifoSubgroups) 0, true⟩ ∧
      mu'.looks = { mu.looks with inj := m.injFifos mu.looks.inj } := by
  obtain ⟨⟨rc, sg, regs⟩, halloc⟩ := allocateInj_some m.ififoSubgroup mu.fifos ⟨false, true, priority⟩ hm.inside
  have hsgid : m.subgroupID % numFifoSubgroups < numFifoSubgroups := Nat.mod_lt _ (by decide)
  obtain ⟨hrecStart, hrecSystem⟩ := allocateInj_rec halloc
  obtain ⟨-, -, -, hnot⟩ | ⟨rfl, -, hsubid, ⟨q, hstatus⟩, hfifo, hview⟩ :=
    InjOwners.allocate_cases (by simp) halloc
  · refine absurd (fun id hid => ?_) hnot
    rw [List.map_cons, List.map_nil, List.mem_singleton] at hid
    subst hid
    exact ⟨Nat.zero_lt_succ 7, hfree (m.subgroupID / numFifoSubgroups, ⟨_, hsgid⟩, ⟨0, by decide⟩) ⟨rfl, rfl⟩⟩
  · obtain ⟨hhw, -⟩ := hfifo 0 ⟨false, true, priority⟩ rfl
    have hm' : MuSubgroupMemory.Good
        { m with ififoid := 0, ififoSubgroup := sg, injShadow := fun _ => .cleared } := { hm with }
    obtain ⟨free, hinit⟩ := injFifoInit_eq freeSpace { mu with fifos := regs } hm' rfl hhw
    refine ⟨sg, free, ?_, ?_, hhw, ?_⟩
    rotate_left
    · rw [activateInjfifos]
      dsimp only
      rw [halloc, Option.bind_some, if_neg (by simp), hinit, Option.bind_some, kernelInjFifoActivate,
        if_neg (by simp [numInjFifosPerSubgroup]), hstatus]
      rfl
    · have hbit : (1 : UInt64) <<<
          UInt64.ofNat (31 - (0 + sg.subgroupid % numFifoSubgroups * numInjFifosPerSubgroup)) =
          bit (place (m.subgroupID % numFifoSubgroups) 0) := by
        rw [hsubid]
        exact priorityBit_eq
      apply Looks.ext
      · funext u
        simp only [if_true, hbit]
        refine (injLook_started { mu with fifos := regs } hsgid u).trans ?_
        rw [injLook_allocated hview u]
        unfold MuSubgroupMemory.injFifos Within
        split
        next hu =>
          obtain ⟨⟨hg, hs⟩, hi⟩ := hu
          have hhw : mu.inj (m.subgroupID / numFifoSubgroups) (m.subgroupID % numFifoSubgroups) 0 =
              (mu.looks.inj u).hw := by
            rw [← hg, ← hs, ← hi]
            rfl
          rw [hhw]
          rfl
        next => rfl
      · funext u
        exact congrArg₂ (fun (start : Nat → Nat → Nat → UInt64) (system : Nat → UInt64) =>
          { mu.recLook u with
            start := start u.1 u.2.1 u.2.2
            system := has (system u.1) (recPlace u.2.1 u.2.2) }) hrecStart hrecSystem
      · rfl

/-- `Kernel_AllocateRecFifos` for the first FIFO of a subgroup, if it is free. -/
theorem allocateRec_eq {sub : Nat} (sg : FifoSubGroup MuspiRecFifo) (regs : MuFifoRegs)
    (hsub : sub < numFifoSubgroupsPerNode)
    (hfree : regs.recStart (sub / numFifoSubgroups) (sub % numFifoSubgroups) 0 = 0) :
    ∃ sg', kernelAllocateRecFifos sub [(0, ⟨true⟩)] sg regs = some (0, sg',
        { regs with
          recStart := setStart regs.recStart (sub / numFifoSubgroups) (sub % numFifoSubgroups) 0 0x240
          recSystem := Function.update regs.recSystem (sub / numFifoSubgroups)
            (regs.recSystem (sub / numFifoSubgroups) ||| bit (recPlace (sub % numFifoSubgroups) 0)) }) ∧
      sg'.subgroupid = sub ∧
      (sg'.fifos 0).hwfifo = some ⟨.recFifo (sub / numFifoSubgroups) (sub % numFifoSubgroups) 0, true⟩ := by
  have hmem : 0 ∈ kernelQueryRecFifos regs sub := mem_freeFifos.mpr ⟨by decide, hfree⟩
  have hfew : ¬ (kernelQueryRecFifos regs sub).length < ([(0, ⟨true⟩)] : List (Nat × RecFifoAttributes)).length :=
    Nat.not_lt.mpr (List.length_pos_of_mem hmem)
  have hmask : bitNumber (48 + sub % numFifoSubgroups * numRecFifosPerSubgroup + 0) =
      bit (recPlace (sub % numFifoSubgroups) 0) := recBitNumber_eq
  have hne : bit (recPlace (sub % numFifoSubgroups) 0) ≠ 0 := bit_ne_zero (Nat.lt_trans recPlace_lt (by decide))
  have hmasks : recFifoMasks (sub % numFifoSubgroups) [(0, ⟨true⟩)] =
      (0, bit (recPlace (sub % numFifoSubgroups) 0)) := by
    simp only [recFifoMasks, List.foldl_cons, List.foldl_nil, hmask, if_true, UInt64.zero_or]
  unfold kernelAllocateRecFifos
  dsimp only
  rw [if_neg (by
    push Not
    exact ⟨hsub, by simp [numRecFifosPerSubgroup]⟩), if_neg hfew,
    searchFree_eq (by simp [numRecFifosPerSubgroup])]
  have hfound : decide (∀ id ∈ (List.range 1).map fun _ => ([0] : List Nat).getD 0 0,
      id ∈ kernelQueryRecFifos regs sub) = true := by
    rw [decide_eq_true_iff]
    intro id hid
    obtain ⟨_, _, rfl⟩ := List.mem_map.mp hid
    exact hmem
  refine ⟨(allocateRecFifo (sub / numFifoSubgroups) (sub % numFifoSubgroups)
    (⟨fun _ => ⟨none, fun _ => 0⟩, some ⟨.recStatus (sub / numFifoSubgroups) (sub % numFifoSubgroups), true⟩, sub⟩,
      regs) (0, ⟨true⟩)).1, ?_, rfl, rfl⟩
  rw [hmasks]
  simp only [List.map_cons, List.map_nil, List.length_cons, List.length_nil, hfound]
  simp [allocateRecFifo, MuFifoRegs.setRecSystem, hne]

def MuSubgroupMemory.recFifos (m : MuSubgroupMemory) (rcv : RecUnit → RecLook) (u : RecUnit) : RecLook :=
  if Within m.subgroupID u.1 u.2.1 ∧ (u.2.2 : Nat) = 0 then
    { start := m.recRegion.basePaddr
      hw := { (rcv u).hw with
        size1 := m.recRegion.length - 1
        paHead := m.recRegion.basePaddr
        paTail := m.recRegion.basePaddr }
      system := true
      enabled := true
      threshold := false
      packet := true }
  else rcv u

def MuSubgroupMemory.recFresh (m : MuSubgroupMemory) : FifoShadow :=
  FifoShadow.cleared.init m.recRegion.baseVaddr m.recRegion.basePaddr (m.recRegion.length - 1)

def MuSubgroupMemory.interrupts (m : MuSubgroupMemory) : UInt64 :=
  bit (recPlace (m.subgroupID % numFifoSubgroups) 0)

theorem recFifoInit_eq (mu : Mu) {g s : Nat} {q : Bool} (hm : m.Good) (hid : m.rfifoids = 0)
    (hhw : (m.rfifoSubgroup.fifos 0).hwfifo = some ⟨.recFifo g s 0, q⟩) :
    kernelRecFifoInit 0 (m.recRegion.length - 1) m mu =
      some ({ m with
          recShadow := Function.update m.recShadow 0
            ((m.recShadow 0).init m.recRegion.baseVaddr m.recRegion.basePaddr (m.recRegion.length - 1)) },
        { mu with
          fifos := { mu.fifos with recStart := setStart mu.fifos.recStart g s 0 m.recRegion.basePaddr }
          rcv := setAt mu.rcv g s 0 { mu.rcv g s 0 with
            size1 := m.recRegion.length - 1
            paHead := m.recRegion.basePaddr
            paTail := m.recRegion.basePaddr } }) := by
  have hargs : ¬(numRecFifosPerSubgroup ≤ 0 ∨
      m.recRegion.baseVaddr &&& 0xFFFFFFFFFFFFFFE0 ≠ m.recRegion.baseVaddr ∨
      m.recRegion.length - 1 + 1 < 544 + 32 ∨ m.recRegion.length - 1 + 1 &&& 0x1F ≠ 0) := by
    have hlength := size_ge hm.recLength.1
    rw [UInt64.sub_add_cancel] at hlength ⊢
    push Not
    exact ⟨by decide, hm.recAligned, hlength, hm.recLength.2⟩
  unfold kernelRecFifoInit
  simp only [hid, UInt64.add_zero]
  rw [if_neg hargs, hhw]

/-- A reception FIFO that has been allocated, initialised and enabled, with its interrupt for packets, as its look
shows it. -/
theorem recLook_started (mu : Mu) {g sg : Nat} {hw : HwFifo} {pa pa' : UInt64} (hsg : sg < numFifoSubgroups)
    (u : RecUnit) :
    Mu.recLook { mu with
        fifos := { mu.fifos with
          recStart := setStart (setStart mu.fifos.recStart g sg 0 pa') g sg 0 pa
          recSystem := Function.update mu.fifos.recSystem g (mu.fifos.recSystem g ||| bit (recPlace sg 0)) }
        rcv := setAt mu.rcv g sg 0 hw
        recThreshold := Function.update mu.recThreshold g (mu.recThreshold g &&& ~~~bit (recPlace sg 0))
        recPacket := Function.update mu.recPacket g (mu.recPacket g ||| bit (recPlace sg 0))
        recEnabled := Function.update mu.recEnabled g (mu.recEnabled g ||| bit (recPlace sg 0)) } u =
      if (u.1 = g ∧ (u.2.1 : Nat) = sg) ∧ (u.2.2 : Nat) = 0 then ⟨pa, hw, true, true, false, true⟩
      else mu.recLook u := by
  have hplace := recPlace_inj u.2.1.isLt u.2.2.isLt hsg (by decide : 0 < numRecFifosPerSubgroup)
  by_cases hg : u.1 = g
  · by_cases hu : (u.2.1 : Nat) = sg ∧ (u.2.2 : Nat) = 0
    · rw [if_pos ⟨⟨hg, hu.1⟩, hu.2⟩]
      simp [Mu.recLook, setStart_apply, setAt_apply, hg, hu, has_recPlace]
    · rw [if_neg fun h => hu ⟨h.1.2, h.2⟩]
      simp [Mu.recLook, setStart_apply, setAt_apply, hg, hu, has_recPlace, hplace.not.mpr hu]
  · rw [if_neg fun h => hg h.1.1]
    simp [Mu.recLook, setStart_apply, setAt_apply, hg]

theorem activateRec (hm : m.Good)
    (hfree : ∀ u, Within m.subgroupID u.1 u.2.1 → (mu.looks.rcv u).start = 0) :
    ∃ sg mu', activateRecfifos m mu = some (0,
        { m with
          rfifoids := 0
          rfifoSubgroup := sg
          recShadow := Function.update (fun _ => .cleared) 0 m.recFresh
          clearInterruptsMask := m.interrupts }, mu') ∧
      (sg.fifos 0).hwfifo =
        some ⟨.recFifo (m.subgroupID / numFifoSubgroups) (m.subgroupID % numFifoSubgroups) 0, true⟩ ∧
      mu'.looks = { mu.looks with rcv := m.recFifos mu.looks.rcv } := by
  have hsgid : m.subgroupID % numFifoSubgroups < numFifoSubgroups := Nat.mod_lt _ (by decide)
  obtain ⟨sg, halloc, hsubid, hhw⟩ := allocateRec_eq m.rfifoSubgroup mu.fifos hm.inside
    (hfree (m.subgroupID / numFifoSubgroups, ⟨_, hsgid⟩, ⟨0, by decide⟩) ⟨rfl, rfl⟩)
  have hm' : MuSubgroupMemory.Good
      { m with rfifoids := 0, rfifoSubgroup := sg, recShadow := fun _ => .cleared } := { hm with }
  have hinit := fun regs => recFifoInit_eq { mu with fifos := regs } hm' rfl hhw
  have hbit : bitNumber (48 + m.subgroupID % numFifoSubgroups * numRecFifosPerSubgroup + 0) =
      bit (recPlace (m.subgroupID % numFifoSubgroups) 0) := recBitNumber_eq
  have henable : (1 : UInt64) <<< UInt64.ofNat (15 - m.subgroupID % numFifoSubgroups * numRecFifosPerSubgroup - 0) =
      m.interrupts := rfl
  have hinterrupts : m.interrupts ≠ 0 := bit_ne_zero (Nat.lt_trans recPlace_lt (by decide))
  refine ⟨sg, ?_, ?_, hhw, ?_⟩
  rotate_left
  · rw [activateRecfifos]
    dsimp only
    rw [halloc, Option.bind_some, if_neg (by simp), hinit, Option.bind_some, henable,
      kernelConfigureRecFifoInterrupts, if_neg (by simp [numRecFifosPerSubgroup]), Option.bind_some,
      kernelRecFifoEnable, if_neg (by simp [hinterrupts, sysGroupid, numFifoGroups])]
    rfl
  · have hgroup := hm.group
    simp only [hsubid, Bool.false_eq_true, if_false, if_true, hbit, ← hgroup]
    apply Looks.ext
    · rfl
    · funext u
      refine (recLook_started mu hsgid u).trans ?_
      unfold MuSubgroupMemory.recFifos Within
      dsimp only
      by_cases hu : (u.1 = m.subgroupID / numFifoSubgroups ∧ (u.2.1 : Nat) = m.subgroupID % numFifoSubgroups) ∧
          (u.2.2 : Nat) = 0
      · have hrcv : mu.rcv (m.subgroupID / numFifoSubgroups) (m.subgroupID % numFifoSubgroups) 0 =
            (mu.looks.rcv u).hw := by
          rw [← hu.1.1, ← hu.1.2, ← hu.2]
          rfl
        rw [if_pos hu, if_pos hu, hrcv]
      · rw [if_neg hu, if_neg hu]
        rfl
    · rfl

end Activations

end BgqVrnic.Links
