import BgqVrnic.BaseAddresses
import BgqVrnic.ConnTypes

namespace BgqVrnic.Links

open Bitmaps InjOwners BaseAddresses

/-- `MUHWI_Fifo_t` without its start, and the `descCount` of an injection FIFO. -/
structure HwFifo where
  size1 : UInt64
  paHead : UInt64
  paTail : UInt64
  descCount : UInt64
  deriving DecidableEq, Repr

/-- The registers of the MU: the FIFOs by group, subgroup and number, and by group the status and the DCRs that
enable FIFOs and interrupts. -/
structure Mu where
  fifos : MuFifoRegs
  bat : BatRegs
  inj : Nat → Nat → Nat → HwFifo
  rcv : Nat → Nat → Nat → HwFifo
  injEnabled : Nat → UInt64
  recEnabled : Nat → UInt64
  injThreshold : Nat → UInt64
  recThreshold : Nat → UInt64
  recPacket : Nat → UInt64

/-- One value among those of all groups. -/
def setAt {α : Type} (f : Nat → Nat → Nat → α) (gid sgid id : Nat) (v : α) : Nat → Nat → Nat → α :=
  Function.update f gid (Function.update (f gid) sgid (Function.update (f gid sgid) id v))

/-- The shadow of a FIFO in `MUSPI_InjFifo_t` or `MUSPI_RecFifo_t`, next to its pointers into the MU. -/
structure FifoShadow where
  paStart : UInt64
  vaStart : UInt64
  size1 : UInt64
  vaHead : UInt64
  vaTail : UInt64
  vaEnd : UInt64
  descCount : UInt64
  freeSpace : UInt64
  numInjected : UInt64
  deriving DecidableEq, Repr

def FifoShadow.cleared : FifoShadow := ⟨0, 0, 0, 0, 0, 0, 0, 0, 0⟩

/-- `struct mudm_memory_region`, which is read as a `Kernel_MemoryRegion_t` -/
structure MemoryRegion where
  length : UInt64
  baseVaddr : UInt64
  basePaddr : UInt64
  deriving DecidableEq, Repr

/-- `struct MU_subgroup_memory` -/
structure MuSubgroupMemory where
  subgroupID : Nat
  ififoSubgroup : FifoSubGroup MuspiInjFifo
  injShadow : Nat → FifoShadow
  rfifoSubgroup : FifoSubGroup MuspiRecFifo
  recShadow : Nat → FifoShadow
  bat : BatSubGroup
  batids : List Nat
  batvalues : Nat → UInt64
  rfifoids : Nat
  ififoid : Nat
  clearInterruptsMask : UInt64
  injRegion : MemoryRegion
  recRegion : MemoryRegion

/-- What `Kernel_InjFifoInit` and `Kernel_RecFifoInit` write to the shadow. -/
def FifoShadow.init (s : FifoShadow) (vaStart paStart size1 : UInt64) : FifoShadow :=
  { s with
    vaStart := vaStart
    paStart := paStart
    vaHead := vaStart
    vaTail := vaStart
    size1 := size1
    vaEnd := vaStart + size1 + 1 }

/-- `Kernel_InjFifoInit`; `freeSpace` is what the MU computes for the register of that name. -/
def kernelInjFifoInit (freeSpace : HwFifo → UInt64) (startoffset size1 : UInt64) (m : MuSubgroupMemory) (mu : Mu) :
    Option (MuSubgroupMemory × Mu) :=
  let region := m.injRegion
  let fifoid := m.ififoid
  let vaStart := region.baseVaddr + startoffset
  let paStart := region.basePaddr + startoffset
  if numInjFifosPerSubgroup ≤ fifoid ∨ vaStart &&& 0xFFFFFFFFFFFFFFC0 ≠ vaStart ∨ size1 + 1 < 128 ∨
      (size1 + 1) &&& 0x3F ≠ 0 ∨ ¬ vaStart < region.baseVaddr + region.length then none
  else
    match (m.ififoSubgroup.fifos fifoid).hwfifo with
    | some ⟨.injFifo g s i, _⟩ =>
      let hw : HwFifo := { mu.inj g s i with size1 := size1, paHead := paStart, paTail := paStart }
      some ({ m with
          injShadow := Function.update m.injShadow fifoid
            { (m.injShadow fifoid).init vaStart paStart size1 with freeSpace := freeSpace hw } },
        { mu with
          fifos := { mu.fifos with injStart := setStart mu.fifos.injStart g s i paStart }
          inj := setAt mu.inj g s i hw })
    | _ => none

/-- `Kernel_RecFifoInit` -/
def kernelRecFifoInit (startoffset size1 : UInt64) (m : MuSubgroupMemory) (mu : Mu) :
    Option (MuSubgroupMemory × Mu) :=
  let region := m.recRegion
  let fifoid := m.rfifoids
  let vaStart := region.baseVaddr + startoffset
  let paStart := region.basePaddr + startoffset
  if numRecFifosPerSubgroup ≤ fifoid ∨ vaStart &&& 0xFFFFFFFFFFFFFFE0 ≠ vaStart ∨ size1 + 1 < 544 + 32 ∨
      (size1 + 1) &&& 0x1F ≠ 0 then none
  else
    match (m.rfifoSubgroup.fifos fifoid).hwfifo with
    | some ⟨.recFifo g s i, _⟩ =>
      let hw : HwFifo := { mu.rcv g s i with size1 := size1, paHead := paStart, paTail := paStart }
      some ({ m with
          recShadow := Function.update m.recShadow fifoid
            ((m.recShadow fifoid).init vaStart paStart size1) },
        { mu with
          fifos := { mu.fifos with recStart := setStart mu.fifos.recStart g s i paStart }
          rcv := setAt mu.rcv g s i hw })
    | _ => none

/-- `Kernel_InjFifoActivate`, for one FIFO. The status has the bits of the whole group. -/
def kernelInjFifoActivate (sg : FifoSubGroup MuspiInjFifo) (fifoid : Nat) (activate : Bool) (mu : Mu) : Option Mu :=
  if numInjFifosPerSubgroup ≤ fifoid then none
  else
    let sgid := sg.subgroupid % numFifoSubgroups
    let gfid := fifoid + sgid * numInjFifosPerSubgroup
    let bits : UInt64 := 1 <<< UInt64.ofNat (31 - gfid)
    match sg.groupStatus with
    | some ⟨.injStatus g _, _⟩ =>
      some { mu with
        injEnabled := Function.update mu.injEnabled g
          (if activate then mu.injEnabled g ||| bits else mu.injEnabled g &&& ~~~bits) }
    | _ => none

/-- `activate_injfifos`. Nobody has set the priority that is passed on: it is what the stack holds. -/
def activateInjfifos (freeSpace : HwFifo → UInt64) (priority : Bool) (m : MuSubgroupMemory) (mu : Mu) :
    Option (Int × MuSubgroupMemory × Mu) :=
  let m := { m with ififoid := 0 }
  (kernelAllocateInjFifos m.subgroupID [(m.ififoid, ⟨false, true, priority⟩)] m.ififoSubgroup mu.fifos).bind
    fun r =>
      if r.1 ≠ 0 then some (-EFAULT, { m with ififoSubgroup := r.2.1 }, { mu with fifos := r.2.2 })
      else
        (kernelInjFifoInit freeSpace 0 (m.injRegion.length - 1)
          { m with ififoSubgroup := r.2.1, injShadow := fun _ => .cleared } { mu with fifos := r.2.2 }).bind fun s =>
            (kernelInjFifoActivate s.1.ififoSubgroup s.1.ififoid true s.2).map fun mu => (0, s.1, mu)

/-- `activate_base_address_table`: whether the allocation is refused does not matter to it. -/
def activateBaseAddressTable (m : MuSubgroupMemory) (mu : Mu) : Option (MuSubgroupMemory × Mu) :=
  (kernelAllocateBaseAddressTable m.subgroupID m.batids true m.bat mu.bat).bind fun r =>
    ((List.range numDataCountersPerSubgroup).foldlM (fun s i =>
        muspiSetBaseAddress s.1 i (m.batvalues i) s.2) (r.2.1, r.2.2)).map fun s =>
      ({ m with bat := s.1 }, { mu with bat := s.2 })

/-- `SYS_GROUPID` -/
def sysGroupid : Nat := 16

/-- `Kernel_ConfigureRecFifoInterrupts`, for one FIFO. -/
def kernelConfigureRecFifoInterrupts (subgrpid fifoid : Nat) (thresholdCrossing packetArrival : Bool) (mu : Mu) :
    Option Mu :=
  if numRecFifosPerSubgroup ≤ fifoid then none
  else
    let gid := subgrpid / numFifoSubgroups
    let sgid := subgrpid % numFifoSubgroups
    let bit := bitNumber (48 + sgid * numRecFifosPerSubgroup + fifoid)
    let configure (dcr : UInt64) (on : Bool) : UInt64 := if on then dcr ||| bit else dcr &&& ~~~bit
    some { mu with
      recThreshold := Function.update mu.recThreshold gid (configure (mu.recThreshold gid) thresholdCrossing)
      recPacket := Function.update mu.recPacket gid (configure (mu.recPacket gid) packetArrival) }

/-- `Kernel_RecFifoEnable` -/
def kernelRecFifoEnable (groupid : Nat) (enableBits : UInt64) (mu : Mu) : Option Mu :=
  if numFifoGroups ≤ groupid ∨ enableBits = 0 then none
  else some { mu with recEnabled := Function.update mu.recEnabled groupid (mu.recEnabled groupid ||| enableBits) }

/-- `activate_recfifos` -/
def activateRecfifos (m : MuSubgroupMemory) (mu : Mu) : Option (Int × MuSubgroupMemory × Mu) :=
  let m := { m with rfifoids := 0 }
  let groupid := sysGroupid
  (kernelAllocateRecFifos m.subgroupID [(m.rfifoids, ⟨true⟩)] m.rfifoSubgroup mu.fifos).bind fun r =>
    if r.1 ≠ 0 then some (-EFAULT, { m with rfifoSubgroup := r.2.1 }, { mu with fifos := r.2.2 })
    else
      (kernelRecFifoInit 0 (m.recRegion.length - 1)
        { m with rfifoSubgroup := r.2.1, recShadow := fun _ => .cleared } { mu with fifos := r.2.2 }).bind fun s =>
          let recFifoEnableBits : UInt64 := 1 <<< UInt64.ofNat
            (15 - (m.subgroupID % numFifoSubgroups) * numRecFifosPerSubgroup - m.rfifoids)
          (kernelConfigureRecFifoInterrupts s.1.rfifoSubgroup.subgroupid s.1.rfifoids false true s.2).bind fun mu =>
            (kernelRecFifoEnable groupid recFifoEnableBits mu).map fun mu =>
              (0, { s.1 with clearInterruptsMask := recFifoEnableBits }, mu)

/-- `MUSPI_RESET_t`, without what is for the network devices and the collectives only. -/
structure MuspiReset where
  sequence : Nat
  clearUser : Bool
  clearSystem : Bool
  clearAllsubgroups : Bool
  clearSubgroup : Nat
  lastSequenceID : Nat
  deriving DecidableEq, Repr

/-- `MUSPI_InitReset` -/
def muspiInitReset : MuspiReset := ⟨1, true, false, true, 0, 0xff⟩

/-- `MUSPI_InitResetHold` -/
def muspiInitResetHold (subgroup : Nat) : MuspiReset :=
  { muspiInitReset with
    clearSystem := true
    clearAllsubgroups := false
    clearSubgroup := subgroup
    lastSequenceID := 7 }

/-- `MUSPI_InitResetRelease` -/
def muspiInitResetRelease (subgroup : Nat) : MuspiReset :=
  { muspiInitReset with
    clearSystem := true
    clearAllsubgroups := false
    clearSubgroup := subgroup
    sequence := 8 }

/-- `_B8(b, -1)` and `_B4(b, -1)`: a field of ones whose last bit is `b`. -/
def onesUpTo (width b : Nat) : UInt64 := ((1 <<< UInt64.ofNat width) - 1) <<< UInt64.ofNat (63 - b)

/-- `MUSPI_ResetDisableUserReception`, for one group. -/
def disableGroup (r : MuspiReset) (mu : Mu) (g : Nat) : Mu :=
  if !r.clearAllsubgroups && g ≠ r.clearSubgroup / numFifoSubgroups then mu
  else
    let sgid := r.clearSubgroup % numFifoSubgroups
    let disable : UInt64 := 0xffffffff
    let disable := if r.clearUser then disable else disable &&& mu.fifos.injSystem g
    let disable := if !r.clearSystem then disable &&& ~~~mu.fifos.injSystem g
      else if !r.clearAllsubgroups then disable &&& onesUpTo 8 (32 + 7 + 8 * sgid)
      else disable
    let keep : UInt64 := 0xffff
    let keep := if r.clearUser then keep else keep &&& ~~~mu.fifos.recSystem g
    let keep := if !r.clearSystem then keep &&& mu.fifos.recSystem g
      else if !r.clearAllsubgroups then keep &&& ~~~onesUpTo 4 (48 + 3 + 4 * sgid)
      else keep
    { mu with
      injEnabled := Function.update mu.injEnabled g (mu.injEnabled g &&& ~~~disable)
      recEnabled := Function.update mu.recEnabled g (keep &&& mu.recEnabled g) }

def muspiResetDisableUserReception (r : MuspiReset) (mu : Mu) : Mu :=
  (List.range numFifoGroups).foldl (disableGroup r) mu

/-- `MUSPI_ResetInitInjFifoSubgroupMU`, for one FIFO. -/
def resetInitInjFifo (r : MuspiReset) (g sg : Nat) (mu : Mu) (i : Nat) : Mu :=
  let fifoBitmask := bitNumber (32 + sg * numInjFifosPerSubgroup + i)
  let system := mu.fifos.injSystem g &&& fifoBitmask ≠ 0
  if r.clearSystem ∧ system ∨ r.clearUser ∧ ¬ system then
    { mu with
      fifos := { mu.fifos with
        injStart := setStart mu.fifos.injStart g sg i 0
        injPriority := Function.update mu.fifos.injPriority g (Function.update (mu.fifos.injPriority g) sg
          (mu.fifos.injPriority g sg &&& ~~~fifoBitmask))
        injRemoteGet := Function.update mu.fifos.injRemoteGet g (mu.fifos.injRemoteGet g &&& ~~~fifoBitmask) }
      inj := setAt mu.inj g sg i ⟨0x3f, 0, 0, 0⟩
      injThreshold := Function.update mu.injThreshold g (mu.injThreshold g &&& ~~~fifoBitmask) }
  else mu

/-- `MUSPI_ResetInitRecFifoSubgroupMU`, for one FIFO. -/
def resetInitRecFifo (r : MuspiReset) (g sg : Nat) (mu : Mu) (i : Nat) : Mu :=
  let fifoBitmask := bitNumber (48 + sg * numRecFifosPerSubgroup + i)
  let system := mu.fifos.recSystem g &&& fifoBitmask ≠ 0
  if r.clearSystem ∧ system ∨ r.clearUser ∧ ¬ system then
    { mu with
      fifos := { mu.fifos with recStart := setStart mu.fifos.recStart g sg i 0 }
      rcv := setAt mu.rcv g sg i { mu.rcv g sg i with size1 := 0x1F, paHead := 0, paTail := 0 }
      recThreshold := Function.update mu.recThreshold g (mu.recThreshold g &&& ~~~fifoBitmask)
      recPacket := Function.update mu.recPacket g (mu.recPacket g &&& ~~~fifoBitmask) }
  else mu

/-- The base address table of a subgroup in `MUSPI_ResetRestoreMU`: only a users' one is emptied. -/
def resetBat (g sg : Nat) (bat : BatRegs) : BatRegs :=
  let mode := if g / 16 = 0 then bat.mode0 else bat.mode1
  if mode &&& (0x8000000000000000 >>> UInt64.ofNat (g % 16 * numFifoSubgroups + sg)) = 0 then
    (List.range numDataCountersPerSubgroup).foldl (fun bat i => bat.setEntry g sg i freeEntry) bat
  else bat

def restoreSubgroup (r : MuspiReset) (g : Nat) (mu : Mu) (sg : Nat) : Mu :=
  if !r.clearAllsubgroups && sg ≠ r.clearSubgroup % numFifoSubgroups then mu
  else
    let mu := (List.range numInjFifosPerSubgroup).foldl (resetInitInjFifo r g sg) mu
    let mu := (List.range numRecFifosPerSubgroup).foldl (resetInitRecFifo r g sg) mu
    { mu with bat := resetBat g sg mu.bat }

def restoreGroup (r : MuspiReset) (mu : Mu) (g : Nat) : Mu :=
  if !r.clearAllsubgroups && g ≠ r.clearSubgroup / numFifoSubgroups then mu
  else
    let mu := (List.range numFifoSubgroups).foldl (restoreSubgroup r g) mu
    if r.clearUser then
      { mu with
        fifos := { mu.fifos with
          injSystem := Function.update mu.fifos.injSystem g 0xFFFFFFFF
          recSystem := Function.update mu.fifos.recSystem g 0xFFFF } }
    else mu

/-- `MUSPI_ResetRestoreMU` -/
def muspiResetRestoreMU (r : MuspiReset) (mu : Mu) : Mu :=
  let mu := (List.range numFifoGroups).foldl (restoreGroup r) mu
  if r.clearUser then { mu with bat := { mu.bat with mode0 := ~~~0, mode1 := ~~~0 } } else mu

/-- `MUSPI_Reset`: the calls of its present sequence number that change these registers. -/
def muspiReset (r : MuspiReset) (mu : Mu) : Int × MuspiReset × Mu :=
  let mu := if r.sequence = 2 then muspiResetDisableUserReception r mu else mu
  let mu := if r.sequence = 8 then muspiResetRestoreMU r mu else mu
  if r.sequence = 10 ∨ r.sequence = r.lastSequenceID then (0, r, mu)
  else (EAGAIN, { r with sequence := r.sequence + 1 }, mu)

/-- `do … while(rc == EAGAIN)`, or nothing if it goes on for longer. -/
def resetLoop : Nat → MuspiReset → Mu → Option Mu
  | 0, _, _ => none
  | fuel + 1, r, mu =>
    match muspiReset r mu with
    | (rc, r, mu) => if rc = EAGAIN then resetLoop fuel r mu else some mu

/-- What `mudm_resetIOlink` does to the MU for one link before it activates any. -/
def resetLink (subgroupID : Nat) (mu : Mu) : Option Mu :=
  (resetLoop 16 (muspiInitResetHold subgroupID) mu).bind (resetLoop 16 (muspiInitResetRelease subgroupID))

/-- And how it activates a link again. -/
def activateLink (freeSpace : HwFifo → UInt64) (priority : Bool) (m : MuSubgroupMemory) (mu : Mu) :
    Option (MuSubgroupMemory × Mu) :=
  (activateBaseAddressTable m mu).bind fun s =>
    ((activateInjfifos freeSpace priority s.1 s.2).map Prod.snd).bind fun s =>
      (activateRecfifos s.1 s.2).map Prod.snd

/-- `init_subgroup_id` -/
def initSubgroupId (l : Link) : Nat := if l = 0 then 66 else 67

/-- The links' memory in `struct my_context`, and the MU. -/
structure Node where
  mem : Link → MuSubgroupMemory
  mu : Mu

/-- One turn of a loop over the links. -/
def Node.onLink (f : Link → MuSubgroupMemory → Mu → Option (MuSubgroupMemory × Mu)) (s : Node) (l : Link) :
    Option Node :=
  (f l (s.mem l) s.mu).map fun r => ⟨Function.update s.mem l r.1, r.2⟩

def Node.eachLink (f : Link → MuSubgroupMemory → Mu → Option (MuSubgroupMemory × Mu)) (s : Node) : Option Node :=
  ([0, 1] : List Link).foldlM (Node.onLink f) s

/-- The loops of `mudm_init` that activate the links: for their tables, for what they send and for what they
receive. -/
def Node.activateLinks (freeSpace : HwFifo → UInt64) (priority : Link → Bool) (s : Node) : Option Node :=
  (s.eachLink fun _ m mu => activateBaseAddressTable m mu).bind fun s =>
    (s.eachLink fun l m mu => (activateInjfifos freeSpace (priority l) m mu).map Prod.snd).bind fun s =>
      s.eachLink fun _ m mu => (activateRecfifos m mu).map Prod.snd

/-- The two loops of `mudm_resetIOlink` over the links: those of the block are reset, and then activated. -/
def Node.resetIOlink (freeSpace : HwFifo → UInt64) (priority : Link → Bool) (flagged : Link → Bool) (s : Node) :
    Option Node :=
  (s.eachLink fun l m mu =>
      if flagged l then (resetLink m.subgroupID mu).map fun mu => (m, mu) else some (m, mu)).bind fun s =>
    s.eachLink fun l m mu => if flagged l then activateLink freeSpace (priority l) m mu else some (m, mu)

end BgqVrnic.Links
