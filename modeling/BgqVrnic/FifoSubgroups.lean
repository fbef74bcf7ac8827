import BgqVrnic.QpNumbers

namespace BgqVrnic

def numFifoGroups : Nat := 17

def numFifoSubgroups : Nat := 4

def numFifoSubgroupsPerNode : Nat := numFifoGroups * numFifoSubgroups

def numInjFifosPerSubgroup : Nat := 8

def numRecFifosPerSubgroup : Nat := 4

/-- What a pointer into the memory map of the MU leads to. -/
inductive MuRegister
  | injStatus (gid sgid : Nat)
  | injFifo (gid sgid fifoid : Nat)
  | injCounter (gid sgid fifoid : Nat)
  | recStatus (gid sgid : Nat)
  | recFifo (gid sgid fifoid : Nat)
  deriving DecidableEq, Repr

/-- An address of the MU, with or without the bit of `PHYMAP_PRIVILEGEDOFFSET`. -/
structure MuAddress where
  register : MuRegister
  privileged : Bool
  deriving DecidableEq, Repr

/-- `MUSPI_InjFifo_t`, with the bytes of the fields that are only cleared here. -/
structure MuspiInjFifo where
  hwfifo : Option MuAddress
  hwInjfifo : Option MuAddress
  shadow : Nat → UInt8

/-- `MUSPI_RecFifo_t`, likewise. -/
structure MuspiRecFifo where
  hwfifo : Option MuAddress
  shadow : Nat → UInt8

/-- `MUSPI_InjFifoSubGroup_t` and `MUSPI_RecFifoSubGroup_t` -/
structure FifoSubGroup (φ : Type) where
  fifos : Nat → φ
  groupStatus : Option MuAddress
  subgroupid : Nat

def FifoSubGroup.setFifo {φ : Type} (sg : FifoSubGroup φ) (fifoid : Nat) (fifo : φ → φ) : FifoSubGroup φ :=
  { sg with fifos := Function.update sg.fifos fifoid (fifo (sg.fifos fifoid)) }

structure InjFifoAttributes where
  remoteGet : Bool
  system : Bool
  priority : Bool
  deriving DecidableEq, Repr, Inhabited

structure RecFifoAttributes where
  system : Bool
  deriving DecidableEq, Repr, Inhabited

/-- The registers of the MU that an allocation reads and writes: the starts of the FIFOs by group, subgroup and
number, the priorities by group and subgroup, and the DCRs by group. -/
structure MuFifoRegs where
  injStart : Nat → Nat → Nat → UInt64
  recStart : Nat → Nat → Nat → UInt64
  injPriority : Nat → Nat → UInt64
  injRemoteGet : Nat → UInt64
  injSystem : Nat → UInt64
  recSystem : Nat → UInt64

/-- The `start` of a FIFO, among those of all groups. -/
def setStart (start : Nat → Nat → Nat → UInt64) (gid sgid fifoid : Nat) (pa : UInt64) :
    Nat → Nat → Nat → UInt64 :=
  Function.update start gid (Function.update (start gid) sgid
    (Function.update (start gid sgid) fifoid pa))

/-- A FIFO whose start address is zero is considered free. -/
def freeFifos (num : Nat) (start : Nat → UInt64) : List Nat := (List.range num).filter fun i => start i = 0

/-- `Kernel_QueryInjFifos` -/
def kernelQueryInjFifos (mu : MuFifoRegs) (subgrpid : Nat) : List Nat :=
  freeFifos numInjFifosPerSubgroup (mu.injStart (subgrpid / numFifoSubgroups) (subgrpid % numFifoSubgroups))

/-- `Kernel_QueryRecFifos` -/
def kernelQueryRecFifos (mu : MuFifoRegs) (subgrpid : Nat) : List Nat :=
  freeFifos numRecFifosPerSubgroup (mu.recStart (subgrpid / numFifoSubgroups) (subgrpid % numFifoSubgroups))

/-- The search for ids among the free ones: whether all are found, or nothing if an assertion fails. -/
def searchFree (num : Nat) (freeFifoIds : List Nat) : List Nat → Option Bool
  | [] => some true
  | fifoid :: fifoids =>
    if num ≤ fifoid then none
    else if fifoid ∈ freeFifoIds then searchFree num freeFifoIds fifoids
    else some false

/-- `_BN(b)` -/
def bitNumber (b : Nat) : UInt64 := 1 <<< UInt64.ofNat (63 - b)

/-- The masks that are collected over the FIFOs. -/
structure InjFifoMasks where
  isForRemoteGet : UInt64
  isNotForRemoteGet : UInt64
  isSystem : UInt64
  isUser : UInt64
  isHiPriority : UInt64
  isNormalPriority : UInt64

def InjFifoMasks.add (sgid : Nat) (masks : InjFifoMasks) (fifo : Nat × InjFifoAttributes) : InjFifoMasks :=
  let gfid := fifo.1 + sgid * numInjFifosPerSubgroup
  let priority : UInt64 := 1 <<< UInt64.ofNat (31 - gfid)
  let bit := bitNumber (32 + sgid * numInjFifosPerSubgroup + fifo.1)
  { isHiPriority := if fifo.2.priority then masks.isHiPriority ||| priority else masks.isHiPriority
    isNormalPriority :=
      if fifo.2.priority then masks.isNormalPriority else masks.isNormalPriority ||| priority
    isForRemoteGet := if fifo.2.remoteGet then masks.isForRemoteGet ||| bit else masks.isForRemoteGet
    isNotForRemoteGet := if fifo.2.remoteGet then masks.isNotForRemoteGet else masks.isNotForRemoteGet ||| bit
    isUser := if fifo.2.system then masks.isUser else masks.isUser ||| bit
    isSystem := if fifo.2.system then masks.isSystem ||| bit else masks.isSystem }

/-- The register of the priorities, the DCR for remote gets and the one for system FIFOs are set. -/
def MuFifoRegs.setInjAttributes (gid sgid : Nat) (masks : InjFifoMasks) (mu : MuFifoRegs) : MuFifoRegs :=
  let mu := if masks.isHiPriority ≠ 0 ∨ masks.isNormalPriority ≠ 0 then
      { mu with
        injPriority := Function.update mu.injPriority gid (Function.update (mu.injPriority gid) sgid
          ((mu.injPriority gid sgid &&& ~~~masks.isNormalPriority) ||| masks.isHiPriority)) }
    else mu
  let mu := if masks.isForRemoteGet ≠ 0 ∨ masks.isNotForRemoteGet ≠ 0 then
      { mu with
        injRemoteGet := Function.update mu.injRemoteGet gid
          ((mu.injRemoteGet gid &&& ~~~masks.isNotForRemoteGet) ||| masks.isForRemoteGet) }
    else mu
  if masks.isUser ≠ 0 ∨ masks.isSystem ≠ 0 then
    { mu with
      injSystem := Function.update mu.injSystem gid
        ((mu.injSystem gid ||| masks.isSystem) &&& ~~~masks.isUser) }
  else mu

/-- The last loop of `Kernel_AllocateInjFifos`, for one FIFO. -/
def allocateInjFifo (gid sgid : Nat) (s : FifoSubGroup MuspiInjFifo × MuFifoRegs)
    (fifo : Nat × InjFifoAttributes) : FifoSubGroup MuspiInjFifo × MuFifoRegs :=
  (s.1.setFifo fifo.1 fun f =>
      { f with
        hwfifo := some ⟨.injFifo gid sgid fifo.1, fifo.2.system⟩
        hwInjfifo := some ⟨.injCounter gid sgid fifo.1, fifo.2.system⟩ },
    { s.2 with injStart := setStart s.2.injStart gid sgid fifo.1 0x40 })

/-- `Kernel_AllocateInjFifos`, with the arrays `fifoids` and `fifoAttrs` as one list, or nothing if an assertion
fails. -/
def kernelAllocateInjFifos (subgrpid : Nat) (fifos : List (Nat × InjFifoAttributes))
    (sg : FifoSubGroup MuspiInjFifo) (mu : MuFifoRegs) :
    Option (Int × FifoSubGroup MuspiInjFifo × MuFifoRegs) :=
  let fifoids := fifos.map Prod.fst
  let freeFifoIds := kernelQueryInjFifos mu subgrpid
  if numFifoSubgroupsPerNode ≤ subgrpid ∨ numInjFifosPerSubgroup < fifos.length then none
  else if freeFifoIds.length < fifos.length then some (EAGAIN, sg, mu)
  else
    (searchFree numInjFifosPerSubgroup freeFifoIds fifoids).map fun found =>
      if found = false then (EAGAIN, sg, mu)
      else
        let gid := subgrpid / numFifoSubgroups
        let sgid := subgrpid % numFifoSubgroups
        let system := fifos.any fun fifo => fifo.2.system
        let masks := fifos.foldl (InjFifoMasks.add sgid) ⟨0, 0, 0, 0, 0, 0⟩
        let sg := ⟨fun _ => ⟨none, none, fun _ => 0⟩, some ⟨.injStatus gid sgid, system⟩, subgrpid⟩
        (0, fifos.foldl (allocateInjFifo gid sgid) (sg, mu.setInjAttributes gid sgid masks))

/-- The masks of the users' and of the system's reception FIFOs. -/
def recFifoMasks (sgid : Nat) (fifos : List (Nat × RecFifoAttributes)) : UInt64 × UInt64 :=
  fifos.foldl (fun masks fifo =>
    let bit := bitNumber (48 + sgid * numRecFifosPerSubgroup + fifo.1)
    if fifo.2.system then (masks.1, masks.2 ||| bit) else (masks.1 ||| bit, masks.2)) (0, 0)

def MuFifoRegs.setRecSystem (gid : Nat) (masks : UInt64 × UInt64) (mu : MuFifoRegs) : MuFifoRegs :=
  if masks.1 ≠ 0 ∨ masks.2 ≠ 0 then
    { mu with
      recSystem := Function.update mu.recSystem gid
        ((mu.recSystem gid ||| masks.2) &&& ~~~masks.1) }
  else mu

/-- The last loop of `Kernel_AllocateRecFifos`, for one FIFO. -/
def allocateRecFifo (gid sgid : Nat) (s : FifoSubGroup MuspiRecFifo × MuFifoRegs)
    (fifo : Nat × RecFifoAttributes) : FifoSubGroup MuspiRecFifo × MuFifoRegs :=
  (s.1.setFifo fifo.1 fun f => { f with hwfifo := some ⟨.recFifo gid sgid fifo.1, fifo.2.system⟩ },
    { s.2 with recStart := setStart s.2.recStart gid sgid fifo.1 0x240 })

/-- `Kernel_AllocateRecFifos`. Its search counts with `i`, but reads the id at `idx`, which is still zero. -/
def kernelAllocateRecFifos (subgrpid : Nat) (fifos : List (Nat × RecFifoAttributes))
    (sg : FifoSubGroup MuspiRecFifo) (mu : MuFifoRegs) :
    Option (Int × FifoSubGroup MuspiRecFifo × MuFifoRegs) :=
  let fifoids := fifos.map Prod.fst
  let freeFifoIds := kernelQueryRecFifos mu subgrpid
  let idx := 0
  if numFifoSubgroupsPerNode ≤ subgrpid ∨ numRecFifosPerSubgroup < fifos.length then none
  else if freeFifoIds.length < fifos.length then some (EAGAIN, sg, mu)
  else
    (searchFree numRecFifosPerSubgroup freeFifoIds
        ((List.range fifos.length).map fun _ => fifoids.getD idx 0)).map fun found =>
      if found = false then (EAGAIN, sg, mu)
      else
        let gid := subgrpid / numFifoSubgroups
        let sgid := subgrpid % numFifoSubgroups
        let system := fifos.any fun fifo => fifo.2.system
        let sg := ⟨fun _ => ⟨none, fun _ => 0⟩, some ⟨.recStatus gid sgid, system⟩, subgrpid⟩
        (0, fifos.foldl (allocateRecFifo gid sgid) (sg, mu.setRecSystem gid (recFifoMasks sgid fifos)))

section Allocation

variable {num : Nat} {ids : List Nat} {gid sgid g s i id : Nat} {pa : UInt64}
  {start : Nat → Nat → Nat → UInt64} {mu mu' : MuFifoRegs}

theorem mem_freeFifos {start : Nat → UInt64} : i ∈ freeFifos num start ↔ i < num ∧ start i = 0 := by
  rw [freeFifos, List.mem_filter, List.mem_range, decide_eq_true_iff]

theorem searchFree_eq {freeFifoIds : List Nat} (h : ∀ id ∈ ids, id < num) :
    searchFree num freeFifoIds ids = some (decide (∀ id ∈ ids, id ∈ freeFifoIds)) := by
  induction ids with
  | nil => rfl
  | cons id ids ih =>
    have hid := h id (List.mem_cons_self ..)
    have hrest := ih fun k hk => h k (List.mem_cons_of_mem _ hk)
    rw [searchFree, if_neg (Nat.not_le.mpr hid), hrest]
    by_cases hfree : id ∈ freeFifoIds
    · rw [if_pos hfree]
      simp only [List.forall_mem_cons, hfree, true_and]
    · rw [if_neg hfree]
      simp only [List.forall_mem_cons, hfree, false_and, decide_false]

theorem setStart_apply : setStart start gid sgid id pa g s i =
    if g = gid ∧ s = sgid ∧ i = id then pa else start g s i := by
  unfold setStart
  by_cases hg : g = gid
  · subst hg
    rw [Function.update_self]
    by_cases hs : s = sgid
    · subst hs
      rw [Function.update_self, Function.update_apply]
      simp
    · rw [Function.update_of_ne hs, if_neg (fun h => hs h.2.1)]
  · rw [Function.update_of_ne hg, if_neg (fun h => hg h.1)]

theorem foldl_setStart : (ids.foldl (fun start id => setStart start gid sgid id pa) start) g s i =
    if g = gid ∧ s = sgid ∧ i ∈ ids then pa else start g s i := by
  induction ids generalizing start with
  | nil => simp
  | cons id ids ih =>
    rw [List.foldl_cons, ih, setStart_apply]
    by_cases hrest : g = gid ∧ s = sgid ∧ i ∈ ids
    · rw [if_pos hrest, if_pos ⟨hrest.1, hrest.2.1, List.mem_cons_of_mem _ hrest.2.2⟩]
    · rw [if_neg hrest]
      by_cases hid : g = gid ∧ s = sgid ∧ i = id
      · rw [if_pos hid, if_pos ⟨hid.1, hid.2.1, hid.2.2 ▸ List.mem_cons_self ..⟩]
      · rw [if_neg hid, if_neg]
        rintro ⟨hg, hs, hi⟩
        rcases List.mem_cons.mp hi with hi | hi
        · exact hid ⟨hg, hs, hi⟩
        · exact hrest ⟨hg, hs, hi⟩

/-- What an allocation comes to: all FIFOs in the list were free and exactly these become allocated, or nothing has
changed. The starts are those of the FIFOs of its kind, and then those of the other kind. -/
inductive AllocatesListed {φ : Type} (start other : MuFifoRegs → Nat → Nat → Nat → UInt64) (gid sgid : Nat)
    (ids : List Nat) (sg : FifoSubGroup φ) (mu : MuFifoRegs) : Option (Int × FifoSubGroup φ × MuFifoRegs) → Prop
  | allocated (sg' : FifoSubGroup φ) (mu' : MuFifoRegs)
      (free : ∀ id ∈ ids, start mu gid sgid id = 0)
      (listed : ∀ id ∈ ids, start mu' gid sgid id ≠ 0)
      (unlisted : ∀ g s i, ¬(g = gid ∧ s = sgid ∧ i ∈ ids) → start mu' g s i = start mu g s i)
      (otherKind : other mu' = other mu) : AllocatesListed start other gid sgid ids sg mu (some (0, sg', mu'))
  | unchanged : AllocatesListed start other gid sgid ids sg mu (some (EAGAIN, sg, mu))

/-- Once the starts have been set, nothing is left to show but that the FIFOs were free. -/
theorem AllocatesListed.ofFree {φ : Type} {start other : MuFifoRegs → Nat → Nat → Nat → UInt64}
    {sg sg' : FifoSubGroup φ} (hfree : ∀ id ∈ ids, start mu gid sgid id = 0) (hpa : pa ≠ 0)
    (hstart : start mu' = ids.foldl (fun start id => setStart start gid sgid id pa) (start mu))
    (hother : other mu' = other mu) :
    AllocatesListed start other gid sgid ids sg mu (some (0, sg', mu')) := by
  refine .allocated sg' mu' hfree (fun id hid => ?_) (fun g s i hnot => ?_) hother
  · rw [hstart, foldl_setStart, if_pos ⟨rfl, rfl, hid⟩]
    exact hpa
  · rw [hstart, foldl_setStart, if_neg hnot]

theorem AllocatesListed.free_of_success {φ : Type} {start other : MuFifoRegs → Nat → Nat → Nat → UInt64}
    {sg sg' : FifoSubGroup φ} (h : AllocatesListed start other gid sgid ids sg mu (some (0, sg', mu'))) :
    ∀ id ∈ ids, start mu gid sgid id = 0 := by
  generalize hr : some ((0 : Int), sg', mu') = r at h
  cases h with
  | allocated _ _ free => exact free
  | unchanged =>
    have hrc := (Prod.mk.inj (Option.some.inj hr)).1
    exact absurd hrc (by decide)

/-- A search that reads the first id again and again. -/
theorem forall_mem_first {P : Nat → Prop} (ids : List Nat) :
    (∀ id ∈ (List.range ids.length).map fun _ => ids.getD 0 0, P id) ↔
      ∀ first, ids.head? = some first → P first := by
  cases ids with
  | nil => simp
  | cons id ids =>
    constructor
    · intro h first hfirst
      cases Option.some.inj hfirst
      exact h id (List.mem_map.mpr ⟨0, by simp, rfl⟩)
    · intro h k hk
      obtain ⟨_, _, rfl⟩ := List.mem_map.mp hk
      exact h id rfl

end Allocation

section Calls

variable {subgrpid : Nat} {mu : MuFifoRegs}

theorem setInjAttributes_starts (gid sgid : Nat) (masks : InjFifoMasks) (mu : MuFifoRegs) :
    (mu.setInjAttributes gid sgid masks).injStart = mu.injStart ∧
      (mu.setInjAttributes gid sgid masks).recStart = mu.recStart := by
  unfold MuFifoRegs.setInjAttributes
  dsimp only
  split <;> split <;> split <;> exact ⟨rfl, rfl⟩

theorem setRecSystem_starts (gid : Nat) (masks : UInt64 × UInt64) (mu : MuFifoRegs) :
    (mu.setRecSystem gid masks).injStart = mu.injStart ∧
      (mu.setRecSystem gid masks).recStart = mu.recStart := by
  unfold MuFifoRegs.setRecSystem
  split <;> exact ⟨rfl, rfl⟩

theorem foldl_allocateInjFifo (gid sgid : Nat) (fifos : List (Nat × InjFifoAttributes))
    (st : FifoSubGroup MuspiInjFifo × MuFifoRegs) :
    (fifos.foldl (allocateInjFifo gid sgid) st).2.injStart =
        (fifos.map Prod.fst).foldl (fun start id => setStart start gid sgid id 0x40) st.2.injStart ∧
      (fifos.foldl (allocateInjFifo gid sgid) st).2.recStart = st.2.recStart := by
  induction fifos generalizing st with
  | nil => exact ⟨rfl, rfl⟩
  | cons fifo fifos ih => exact ih (allocateInjFifo gid sgid st fifo)

theorem foldl_allocateRecFifo (gid sgid : Nat) (fifos : List (Nat × RecFifoAttributes))
    (st : FifoSubGroup MuspiRecFifo × MuFifoRegs) :
    (fifos.foldl (allocateRecFifo gid sgid) st).2.recStart =
        (fifos.map Prod.fst).foldl (fun start id => setStart start gid sgid id 0x240) st.2.recStart ∧
      (fifos.foldl (allocateRecFifo gid sgid) st).2.injStart = st.2.injStart := by
  induction fifos generalizing st with
  | nil => exact ⟨rfl, rfl⟩
  | cons fifo fifos ih => exact ih (allocateRecFifo gid sgid st fifo)

/-- `Kernel_AllocateInjFifos` allocates what is listed or nothing at all. -/
theorem kernelAllocateInjFifos_listed (hsub : subgrpid < numFifoSubgroupsPerNode)
    (fifos : List (Nat × InjFifoAttributes)) (hlength : fifos.length ≤ numInjFifosPerSubgroup)
    (hids : ∀ id ∈ fifos.map Prod.fst, id < numInjFifosPerSubgroup) (sg : FifoSubGroup MuspiInjFifo) :
    AllocatesListed MuFifoRegs.injStart MuFifoRegs.recStart (subgrpid / numFifoSubgroups)
      (subgrpid % numFifoSubgroups) (fifos.map Prod.fst) sg mu (kernelAllocateInjFifos subgrpid fifos sg mu) := by
  unfold kernelAllocateInjFifos
  dsimp only
  rw [if_neg (by omega)]
  split
  · exact .unchanged
  rw [searchFree_eq hids, Option.map_some]
  split
  · exact .unchanged
  next hfound =>
    have hall := of_decide_eq_true (Bool.eq_true_of_not_eq_false hfound)
    have hset := setInjAttributes_starts (subgrpid / numFifoSubgroups) (subgrpid % numFifoSubgroups)
      (fifos.foldl (InjFifoMasks.add (subgrpid % numFifoSubgroups)) ⟨0, 0, 0, 0, 0, 0⟩) mu
    obtain ⟨hinj, hrec⟩ := foldl_allocateInjFifo (subgrpid / numFifoSubgroups) (subgrpid % numFifoSubgroups)
      fifos (_, mu.setInjAttributes (subgrpid / numFifoSubgroups) (subgrpid % numFifoSubgroups)
        (fifos.foldl (InjFifoMasks.add (subgrpid % numFifoSubgroups)) ⟨0, 0, 0, 0, 0, 0⟩))
    rw [hset.1] at hinj
    exact .ofFree (fun id hid => (mem_freeFifos.mp (hall id hid)).2) (by decide) hinj (hrec.trans hset.2)

/-- `Kernel_AllocateRecFifos` allocates what is listed or nothing at all, unless the first FIFO in the list is free
and another one is not. -/
theorem kernelAllocateRecFifos_listed_iff (hsub : subgrpid < numFifoSubgroupsPerNode)
    (fifos : List (Nat × RecFifoAttributes)) (hlength : fifos.length ≤ numRecFifosPerSubgroup)
    (hids : ∀ id ∈ fifos.map Prod.fst, id < numRecFifosPerSubgroup) (sg : FifoSubGroup MuspiRecFifo) :
    AllocatesListed MuFifoRegs.recStart MuFifoRegs.injStart (subgrpid / numFifoSubgroups)
        (subgrpid % numFifoSubgroups) (fifos.map Prod.fst) sg mu (kernelAllocateRecFifos subgrpid fifos sg mu) ↔
      (kernelQueryRecFifos mu subgrpid).length < fifos.length ∨
        (∃ first, (fifos.map Prod.fst).head? = some first ∧ first ∉ kernelQueryRecFifos mu subgrpid) ∨
        ∀ id ∈ fifos.map Prod.fst, id ∈ kernelQueryRecFifos mu subgrpid := by
  have hfirst : ∀ id ∈ (List.range fifos.length).map fun _ => (fifos.map Prod.fst).getD 0 0,
      id < numRecFifosPerSubgroup := by
    rw [← List.length_map Prod.fst, forall_mem_first]
    exact fun first hfirst => hids first (List.mem_of_mem_head? hfirst)
  unfold kernelAllocateRecFifos
  dsimp only
  rw [if_neg (by omega)]
  split
  next hfew => exact ⟨fun _ => .inl hfew, fun _ => .unchanged⟩
  next hmany =>
    rw [searchFree_eq hfirst, Option.map_some]
    split
    next hfound =>
      refine ⟨fun _ => .inr (.inl ?_), fun _ => .unchanged⟩
      have hmissing := of_decide_eq_false hfound
      rw [← List.length_map Prod.fst, forall_mem_first] at hmissing
      push Not at hmissing
      exact hmissing
    next hfound =>
      have hall := of_decide_eq_true (Bool.eq_true_of_not_eq_false hfound)
      rw [← List.length_map Prod.fst, forall_mem_first] at hall
      constructor
      · intro h
        exact .inr (.inr fun id hid => mem_freeFifos.mpr ⟨hids id hid, h.free_of_success id hid⟩)
      · rintro (hfew | ⟨first, hhead, htaken⟩ | hfree)
        · exact absurd hfew hmany
        · exact absurd (hall first hhead) htaken
        · have hset := setRecSystem_starts (subgrpid / numFifoSubgroups)
            (recFifoMasks (subgrpid % numFifoSubgroups) fifos) mu
          obtain ⟨hrec, hinj⟩ := foldl_allocateRecFifo (subgrpid / numFifoSubgroups)
            (subgrpid % numFifoSubgroups) fifos (_, mu.setRecSystem (subgrpid / numFifoSubgroups)
              (recFifoMasks (subgrpid % numFifoSubgroups) fifos))
          rw [hset.2] at hrec
          exact .ofFree (fun id hid => (mem_freeFifos.mp (hfree id hid)).2) (by decide) hrec
            (hinj.trans hset.1)

/-- Both calls, on any list of FIFOs of a subgroup. -/
theorem kernelAllocateFifos_listed (subgrpid : Nat) (mu : MuFifoRegs) (hsub : subgrpid < numFifoSubgroupsPerNode) :
    (∀ (fifos : List (Nat × InjFifoAttributes)) (sg : FifoSubGroup MuspiInjFifo),
        fifos.length ≤ numInjFifosPerSubgroup →
        (∀ id ∈ fifos.map Prod.fst, id < numInjFifosPerSubgroup) →
          AllocatesListed MuFifoRegs.injStart MuFifoRegs.recStart (subgrpid / numFifoSubgroups)
            (subgrpid % numFifoSubgroups) (fifos.map Prod.fst) sg mu
            (kernelAllocateInjFifos subgrpid fifos sg mu)) ∧
      ∀ (fifos : List (Nat × RecFifoAttributes)) (sg : FifoSubGroup MuspiRecFifo),
        fifos.length ≤ numRecFifosPerSubgroup →
        (∀ id ∈ fifos.map Prod.fst, id < numRecFifosPerSubgroup) →
          (AllocatesListed MuFifoRegs.recStart MuFifoRegs.injStart (subgrpid / numFifoSubgroups)
              (subgrpid % numFifoSubgroups) (fifos.map Prod.fst) sg mu
              (kernelAllocateRecFifos subgrpid fifos sg mu) ↔
            (kernelQueryRecFifos mu subgrpid).length < fifos.length ∨
              (∃ first, (fifos.map Prod.fst).head? = some first ∧
                first ∉ kernelQueryRecFifos mu subgrpid) ∨
              ∀ id ∈ fifos.map Prod.fst, id ∈ kernelQueryRecFifos mu subgrpid) :=
  ⟨fun fifos sg hlength hids => kernelAllocateInjFifos_listed hsub fifos hlength hids sg,
    fun fifos sg hlength hids => kernelAllocateRecFifos_listed_iff hsub fifos hlength hids sg⟩

/-- A node on which only the reception FIFO 1 of the first subgroup is allocated. -/
def oneRecFifo : MuFifoRegs :=
  ⟨fun _ _ _ => 0, setStart (fun _ _ _ => 0) 0 0 1 0x240, fun _ _ => 0, fun _ => 0, fun _ => 0, fun _ => 0⟩

def emptySubGroup : FifoSubGroup MuspiRecFifo := ⟨fun _ => ⟨none, fun _ => 0⟩, none, 0⟩

theorem kernelAllocateFifos_listed_first :
    AllocatesListed MuFifoRegs.recStart MuFifoRegs.injStart 0 0 [1, 0] emptySubGroup oneRecFifo
        (kernelAllocateRecFifos 0 [(1, ⟨true⟩), (0, ⟨true⟩)] emptySubGroup oneRecFifo) ∧
      (kernelAllocateRecFifos 0 [(1, ⟨true⟩), (0, ⟨true⟩)] emptySubGroup oneRecFifo).map Prod.fst =
        some EAGAIN :=
  ⟨((kernelAllocateFifos_listed 0 oneRecFifo (by decide)).2 [(1, ⟨true⟩), (0, ⟨true⟩)] emptySubGroup
    (by decide) (by decide)).mpr (.inr (.inl ⟨1, rfl, by decide⟩)), rfl⟩

/-- The same two FIFOs the other way round: the one that is taken is allocated once more. -/
theorem takenFifo_allocated :
    (kernelAllocateRecFifos 0 [(0, ⟨true⟩), (1, ⟨true⟩)] emptySubGroup oneRecFifo).map Prod.fst = some 0 ∧
      ¬AllocatesListed MuFifoRegs.recStart MuFifoRegs.injStart 0 0 [0, 1] emptySubGroup oneRecFifo
        (kernelAllocateRecFifos 0 [(0, ⟨true⟩), (1, ⟨true⟩)] emptySubGroup oneRecFifo) := by
  refine ⟨rfl, fun h => ?_⟩
  have hfree := h.free_of_success 1 (by decide)
  exact absurd hfree (by decide)

end Calls

end BgqVrnic
