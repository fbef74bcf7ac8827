import BgqVrnic.MuLinks
import BgqVrnic.Loops

namespace BgqVrnic.Links

open Bitmaps InjOwners BaseAddresses Loops

section Looks

/-- Whether a group and a subgroup in it are those of a subgroup of the node. -/
def Within (sub g s : Nat) : Prop := g = sub / numFifoSubgroups ∧ s = sub % numFifoSubgroups

instance (sub g s : Nat) : Decidable (Within sub g s) := inferInstanceAs (Decidable (_ ∧ _))

abbrev RecUnit := Nat × Fin numFifoSubgroups × Fin numRecFifosPerSubgroup

def recPlace (sgid fifoid : Nat) : Nat := 15 - (sgid * numRecFifosPerSubgroup + fifoid)

structure InjLook where
  start : UInt64
  hw : HwFifo
  remoteGet : Bool
  system : Bool
  enabled : Bool
  threshold : Bool
  deriving DecidableEq, Repr

structure RecLook where
  start : UInt64
  hw : HwFifo
  system : Bool
  enabled : Bool
  threshold : Bool
  packet : Bool
  deriving DecidableEq, Repr

/-- What the registers say, FIFO by FIFO and entry by entry. -/
@[ext] structure Looks where
  inj : InjUnit → InjLook
  rcv : RecUnit → RecLook
  bat : BatUnit → EntryView

def Mu.injLook (mu : Mu) (u : InjUnit) : InjLook :=
  ⟨mu.fifos.injStart u.1 u.2.1 u.2.2, mu.inj u.1 u.2.1 u.2.2, has (mu.fifos.injRemoteGet u.1) (place u.2.1 u.2.2),
    has (mu.fifos.injSystem u.1) (place u.2.1 u.2.2), has (mu.injEnabled u.1) (place u.2.1 u.2.2),
    has (mu.injThreshold u.1) (place u.2.1 u.2.2)⟩

def Mu.recLook (mu : Mu) (u : RecUnit) : RecLook :=
  ⟨mu.fifos.recStart u.1 u.2.1 u.2.2, mu.rcv u.1 u.2.1 u.2.2, has (mu.fifos.recSystem u.1) (recPlace u.2.1 u.2.2),
    has (mu.recEnabled u.1) (recPlace u.2.1 u.2.2), has (mu.recThreshold u.1) (recPlace u.2.1 u.2.2),
    has (mu.recPacket u.1) (recPlace u.2.1 u.2.2)⟩

def Mu.looks (mu : Mu) : Looks := ⟨mu.injLook, mu.recLook, BaseAddresses.view mu.bat⟩

/-- A reset that is held: the FIFOs of the subgroup are disabled. -/
def Looks.hold (sub : Nat) (l : Looks) : Looks :=
  { l with
    inj := fun u => if Within sub u.1 u.2.1 then { l.inj u with enabled := false } else l.inj u
    rcv := fun u => if Within sub u.1 u.2.1 then { l.rcv u with enabled := false } else l.rcv u }

def InjLook.clear (k : InjLook) : InjLook := ⟨0, ⟨0x3f, 0, 0, 0⟩, false, true, k.enabled, false⟩

def RecLook.clear (k : RecLook) : RecLook :=
  ⟨0, { k.hw with size1 := 0x1F, paHead := 0, paTail := 0 }, true, k.enabled, false, false⟩

/-- A reset that is released: the FIFOs of the subgroup are cleared, and what is in its group becomes the
system's. -/
def Looks.release (sub : Nat) (l : Looks) : Looks where
  inj := fun u =>
    if Within sub u.1 u.2.1 then (l.inj u).clear
    else { l.inj u with system := (l.inj u).system || decide (u.1 = sub / numFifoSubgroups) }
  rcv := fun u =>
    if Within sub u.1 u.2.1 then (l.rcv u).clear
    else { l.rcv u with system := (l.rcv u).system || decide (u.1 = sub / numFifoSubgroups) }
  bat := fun u => ⟨if subOf u = sub ∧ (l.bat u).system = false then freeEntry else (l.bat u).value, true⟩

end Looks

section Resets

variable {mu : Mu} {sub g sg s id fifoid b : Nat}

theorem recPlace_lt : recPlace sgid fifoid < 16 := by
  unfold recPlace
  omega

theorem recPlace_inj (hs : s < numFifoSubgroups) (hid : id < numRecFifosPerSubgroup)
    (hsg : sg < numFifoSubgroups) (hfifoid : fifoid < numRecFifosPerSubgroup) :
    recPlace s id = recPlace sg fifoid ↔ s = sg ∧ id = fifoid := by
  simp only [numFifoSubgroups, numRecFifosPerSubgroup] at hs hid hsg hfifoid
  simp only [recPlace, numRecFifosPerSubgroup]
  omega

theorem recBitNumber_eq : bitNumber (48 + sg * numRecFifosPerSubgroup + id) = bit (recPlace sg id) := by
  have h : 63 - (48 + sg * numRecFifosPerSubgroup + id) = 15 - (sg * numRecFifosPerSubgroup + id) := by
    omega
  rw [bitNumber, h]
  rfl

theorem has_recPlace : has (bit (recPlace sg id)) b = decide (b = recPlace sg id) :=
  has_bit (Nat.lt_trans recPlace_lt (by decide))

theorem has_ones (hb : b < 32) : has 0xFFFFFFFF b = true := by
  have hall : ∀ b < 32, has 0xFFFFFFFF b = true := by decide
  exact hall b hb

theorem has_recOnes (hb : b < 16) : has 0xFFFF b = true := by
  have hall : ∀ b < 16, has 0xFFFF b = true := by decide
  exact hall b hb

/-- The field of a subgroup's FIFOs covers their places and no others. -/
theorem has_disable {w : UInt64} (hsg : sg < numFifoSubgroups) (hs : s < numFifoSubgroups)
    (hid : id < numInjFifosPerSubgroup) :
    has (w &&& ~~~(0xFFFFFFFF &&& onesUpTo 8 (39 + 8 * sg))) (place s id) =
      (has w (place s id) && !decide (s = sg)) := by
  have hall : ∀ sg < 4, ∀ s < 4, ∀ id < 8, has (onesUpTo 8 (39 + 8 * sg)) (place s id) = decide (s = sg) := by
    decide +kernel
  have hplace : place s id < 32 := by
    unfold place
    omega
  rw [has_clear, has_and, has_ones hplace, hall sg hsg s hs id hid, Bool.true_and]

theorem has_keep {w : UInt64} (hsg : sg < numFifoSubgroups) (hs : s < numFifoSubgroups)
    (hid : id < numRecFifosPerSubgroup) :
    has (0xFFFF &&& ~~~onesUpTo 4 (51 + 4 * sg) &&& w) (recPlace s id) =
      (!decide (s = sg) && has w (recPlace s id)) := by
  have hall : ∀ sg < 4, ∀ s < 4, ∀ id < 4, has (onesUpTo 4 (51 + 4 * sg)) (recPlace s id) = decide (s = sg) := by
    decide +kernel
  rw [has_and, has_clear, has_recOnes recPlace_lt, hall sg hsg s hs id hid, Bool.true_and]

theorem disableGroup_hold : disableGroup { muspiInitResetHold sub with sequence := 2 } mu (sub / numFifoSubgroups) =
    { mu with
      injEnabled := Function.update mu.injEnabled (sub / numFifoSubgroups)
        (mu.injEnabled (sub / numFifoSubgroups) &&&
          ~~~(0xffffffff &&& onesUpTo 8 (39 + 8 * (sub % numFifoSubgroups))))
      recEnabled := Function.update mu.recEnabled (sub / numFifoSubgroups)
        (0xffff &&& ~~~onesUpTo 4 (51 + 4 * (sub % numFifoSubgroups)) &&&
          mu.recEnabled (sub / numFifoSubgroups)) } := by
  simp [disableGroup, muspiInitResetHold, muspiInitReset]

theorem group_lt (hsub : sub < numFifoSubgroupsPerNode) : sub / numFifoSubgroups < numFifoGroups :=
  Nat.div_lt_of_lt_mul (by
    rw [Nat.mul_comm]
    exact hsub)

theorem looks_disable (hsub : sub < numFifoSubgroupsPerNode) :
    (muspiResetDisableUserReception { muspiInitResetHold sub with sequence := 2 } mu).looks = mu.looks.hold sub := by
  have hsgid : sub % numFifoSubgroups < numFifoSubgroups := Nat.mod_lt _ (by decide)
  have honly : ∀ t i, i ≠ sub / numFifoSubgroups →
      disableGroup { muspiInitResetHold sub with sequence := 2 } t i = t := fun t i hi => by
    simp [disableGroup, muspiInitResetHold, muspiInitReset, hi]
  rw [muspiResetDisableUserReception, foldl_range_only (group_lt hsub) honly, disableGroup_hold]
  apply Looks.ext
  · funext u
    by_cases hg : u.1 = sub / numFifoSubgroups
    · have hbit := has_disable (w := mu.injEnabled (sub / numFifoSubgroups)) hsgid u.2.1.isLt u.2.2.isLt
      by_cases hs : (u.2.1 : Nat) = sub % numFifoSubgroups
      · simp_all [Looks.hold, Mu.looks, Mu.injLook, Within]
      · simp_all [Looks.hold, Mu.looks, Mu.injLook, Within]
    · simp [Looks.hold, Mu.looks, Mu.injLook, Within, hg]
  · funext u
    by_cases hg : u.1 = sub / numFifoSubgroups
    · have hbit := has_keep (w := mu.recEnabled (sub / numFifoSubgroups)) hsgid u.2.1.isLt u.2.2.isLt
      by_cases hs : (u.2.1 : Nat) = sub % numFifoSubgroups
      · simp_all [Looks.hold, Mu.looks, Mu.recLook, Within]
      · simp_all [Looks.hold, Mu.looks, Mu.recLook, Within]
    · simp [Looks.hold, Mu.looks, Mu.recLook, Within, hg]
  · rfl

theorem setAt_apply {α : Type} {f : Nat → Nat → Nat → α} {v : α} {g s i : Nat} :
    setAt f g s i v = fun g' s' i' => if g' = g ∧ s' = s ∧ i' = i then v else f g' s' i' := by
  funext g' s' i'
  unfold setAt
  by_cases hg : g' = g
  · subst hg
    rw [Function.update_self]
    by_cases hs : s' = s
    · subst hs
      rw [Function.update_self, Function.update_apply]
      simp
    · rw [Function.update_of_ne hs, if_neg fun h => hs h.2.1]
  · rw [Function.update_of_ne hg, if_neg fun h => hg h.1]

/-- A reset that is released clears the system's FIFOs as well as the users'. -/
theorem released (sub : Nat) (p : Prop) :
    (muspiInitResetRelease sub).clearSystem ∧ p ∨ (muspiInitResetRelease sub).clearUser ∧ ¬p := by
  by_cases hp : p
  · exact .inl ⟨rfl, hp⟩
  · exact .inr ⟨rfl, hp⟩

/-- A FIFO that is cleared on its own keeps its owner. -/
def InjLook.clearKept (k : InjLook) : InjLook := { k.clear with system := k.system }

def RecLook.clearKept (k : RecLook) : RecLook := { k.clear with system := k.system }

theorem looks_resetInitInjFifo (sub g : Nat) (mu : Mu) (hsg : sg < numFifoSubgroups)
    (hid : id < numInjFifosPerSubgroup) :
    (resetInitInjFifo (muspiInitResetRelease sub) g sg mu id).looks =
      { mu.looks with
        inj := fun u =>
          if u.1 = g ∧ (u.2.1 : Nat) = sg ∧ (u.2.2 : Nat) = id then (mu.looks.inj u).clearKept
          else mu.looks.inj u } := by
  unfold resetInitInjFifo
  dsimp only
  rw [if_pos (released sub _), bitNumber_eq]
  apply Looks.ext
  · funext u
    have hiff := place_inj u.2.1.isLt u.2.2.isLt hsg hid
    by_cases hg : u.1 = g
    · by_cases hu : (u.2.1 : Nat) = sg ∧ (u.2.2 : Nat) = id
      · simp_all [Mu.looks, Mu.injLook, setStart_apply, setAt_apply, has_place, InjLook.clear, InjLook.clearKept]
      · simp [Mu.looks, Mu.injLook, setStart_apply, setAt_apply, has_place, hu, hg, hiff.not.mpr hu]
    · simp [Mu.looks, Mu.injLook, setStart_apply, setAt_apply, hg]
  · rfl
  · rfl

theorem looks_resetInitRecFifo (sub g : Nat) (mu : Mu) (hsg : sg < numFifoSubgroups)
    (hid : id < numRecFifosPerSubgroup) :
    (resetInitRecFifo (muspiInitResetRelease sub) g sg mu id).looks =
      { mu.looks with
        rcv := fun u =>
          if u.1 = g ∧ (u.2.1 : Nat) = sg ∧ (u.2.2 : Nat) = id then (mu.looks.rcv u).clearKept
          else mu.looks.rcv u } := by
  unfold resetInitRecFifo
  dsimp only
  rw [if_pos (released sub _), recBitNumber_eq]
  apply Looks.ext
  · rfl
  · funext u
    have hiff := recPlace_inj u.2.1.isLt u.2.2.isLt hsg hid
    by_cases hg : u.1 = g
    · by_cases hu : (u.2.1 : Nat) = sg ∧ (u.2.2 : Nat) = id
      · simp_all [Mu.looks, Mu.recLook, setStart_apply, setAt_apply, has_recPlace, RecLook.clear, RecLook.clearKept]
      · simp [Mu.looks, Mu.recLook, setStart_apply, setAt_apply, has_recPlace, hu, hg, hiff.not.mpr hu]
    · simp [Mu.looks, Mu.recLook, setStart_apply, setAt_apply, hg]
  · rfl

theorem looks_injFifos (sub g : Nat) (mu : Mu) (hsg : sg < numFifoSubgroups) :
    ((List.range numInjFifosPerSubgroup).foldl (resetInitInjFifo (muspiInitResetRelease sub) g sg) mu).looks =
      { mu.looks with
        inj := fun u =>
          if u.1 = g ∧ (u.2.1 : Nat) = sg then (mu.looks.inj u).clearKept else mu.looks.inj u } := by
  have hone := fun (i : Nat) (hi : i ∈ List.range numInjFifosPerSubgroup) (t : Mu) =>
    looks_resetInitInjFifo sub g t hsg (List.mem_range.mp hi)
  apply Looks.ext
  · funext u
    have hcells := foldl_cells (fun t : Mu => t.looks.inj)
      (fun u i => u.1 = g ∧ (u.2.1 : Nat) = sg ∧ (u.2.2 : Nat) = i) InjLook.clearKept (fun _ => rfl)
      (fun i hi t u => congrFun (congrArg Looks.inj (hone i hi t)) u) mu u
    have hlt := u.2.2.isLt
    simpa [hlt] using hcells
  · exact foldl_keeps (fun t : Mu => t.looks.rcv) (fun i hi t => by rw [hone i hi t]) mu
  · exact foldl_keeps (fun t : Mu => t.looks.bat) (fun i hi t => by rw [hone i hi t]) mu

theorem looks_recFifos (sub g : Nat) (mu : Mu) (hsg : sg < numFifoSubgroups) :
    ((List.range numRecFifosPerSubgroup).foldl (resetInitRecFifo (muspiInitResetRelease sub) g sg) mu).looks =
      { mu.looks with
        rcv := fun u =>
          if u.1 = g ∧ (u.2.1 : Nat) = sg then (mu.looks.rcv u).clearKept else mu.looks.rcv u } := by
  have hone := fun (i : Nat) (hi : i ∈ List.range numRecFifosPerSubgroup) (t : Mu) =>
    looks_resetInitRecFifo sub g t hsg (List.mem_range.mp hi)
  apply Looks.ext
  · exact foldl_keeps (fun t : Mu => t.looks.inj) (fun i hi t => by rw [hone i hi t]) mu
  · funext u
    have hcells := foldl_cells (fun t : Mu => t.looks.rcv)
      (fun u i => u.1 = g ∧ (u.2.1 : Nat) = sg ∧ (u.2.2 : Nat) = i) RecLook.clearKept (fun _ => rfl)
      (fun i hi t u => congrFun (congrArg Looks.rcv (hone i hi t)) u) mu u
    have hlt := u.2.2.isLt
    simpa [hlt] using hcells
  · exact foldl_keeps (fun t : Mu => t.looks.bat) (fun i hi t => by rw [hone i hi t]) mu

theorem entry_setEntries {bat : BatRegs} {ids : List Nat} {value : UInt64} :
    ids.foldl (fun bat i => bat.setEntry g sg i value) bat =
      { bat with entry := ids.foldl (fun entry i => setStart entry g sg i value) bat.entry } := by
  induction ids generalizing bat with
  | nil => rfl
  | cons i ids ih =>
    rw [List.foldl_cons, ih]
    rfl

/-- Whether a subgroup is a user's, as `MUSPI_ResetRestoreMU` reads it. -/
theorem resetBat_mode {bat : BatRegs} (hsub : sub < numFifoSubgroupsPerNode) :
    (if sub / numFifoSubgroups / 16 = 0 then bat.mode0 else bat.mode1) &&&
        (0x8000000000000000 >>>
          UInt64.ofNat (sub / numFifoSubgroups % 16 * numFifoSubgroups + sub % numFifoSubgroups)) = 0 ↔
      systemStatus bat sub = false := by
  simp only [numFifoSubgroupsPerNode, numFifoGroups, numFifoSubgroups] at hsub
  unfold systemStatus
  by_cases hlow : sub ≤ 63
  · have hplace : sub / numFifoSubgroups % 16 * numFifoSubgroups + sub % numFifoSubgroups = sub := by
      simp only [numFifoSubgroups]
      omega
    have hbank : sub / numFifoSubgroups / 16 = 0 := by
      simp only [numFifoSubgroups]
      omega
    rw [if_pos hbank, if_pos hlow, hplace, decide_eq_false_iff_not, Decidable.not_not]
  · have hplace : sub / numFifoSubgroups % 16 * numFifoSubgroups + sub % numFifoSubgroups = sub - 64 := by
      simp only [numFifoSubgroups]
      omega
    have hbank : ¬ sub / numFifoSubgroups / 16 = 0 := by
      simp only [numFifoSubgroups]
      omega
    rw [if_neg hbank, if_neg hlow, hplace, decide_eq_false_iff_not, Decidable.not_not]

theorem view_resetBat (bat : BatRegs) (hsub : sub < numFifoSubgroupsPerNode) (u : BatUnit) :
    BaseAddresses.view (resetBat (sub / numFifoSubgroups) (sub % numFifoSubgroups) bat) u =
      { BaseAddresses.view bat u with
        value := if subOf u = sub ∧ (BaseAddresses.view bat u).system = false then freeEntry
          else (BaseAddresses.view bat u).value } := by
  unfold resetBat
  dsimp only
  by_cases hmode : systemStatus bat sub = false
  · rw [if_pos ((resetBat_mode hsub).mpr hmode), entry_setEntries]
    simp only [BaseAddresses.view, foldl_setStart, List.mem_range, u.2.2.isLt, and_true, ← subOf_eq_iff]
    by_cases hu : subOf u = sub
    · simp only [hu, hmode, and_self, if_true]
      exact congrArg (EntryView.mk freeEntry) hmode
    · simp only [hu, false_and, if_false]
      rfl
  · rw [if_neg fun h => hmode ((resetBat_mode hsub).mp h), if_neg]
    rintro ⟨hu, h⟩
    exact hmode (hu ▸ h)

/-- `MUSPI_ResetRestoreMU` for one subgroup, without its loops over the others. -/
theorem restoreMU_release (hsub : sub < numFifoSubgroupsPerNode) :
    muspiResetRestoreMU (muspiInitResetRelease sub) mu =
      (fun mu : Mu =>
        { mu with
          fifos := { mu.fifos with
            injSystem := Function.update mu.fifos.injSystem (sub / numFifoSubgroups) 0xFFFFFFFF
            recSystem := Function.update mu.fifos.recSystem (sub / numFifoSubgroups) 0xFFFF }
          bat := { resetBat (sub / numFifoSubgroups) (sub % numFifoSubgroups) mu.bat with
            mode0 := ~~~0
            mode1 := ~~~0 } })
        ((List.range numRecFifosPerSubgroup).foldl
          (resetInitRecFifo (muspiInitResetRelease sub) (sub / numFifoSubgroups) (sub % numFifoSubgroups))
          ((List.range numInjFifosPerSubgroup).foldl
            (resetInitInjFifo (muspiInitResetRelease sub) (sub / numFifoSubgroups) (sub % numFifoSubgroups))
            mu)) := by
  have hsgid : sub % numFifoSubgroups < numFifoSubgroups := Nat.mod_lt _ (by decide)
  have hgroup : ∀ t i, i ≠ sub / numFifoSubgroups →
      restoreGroup (muspiInitResetRelease sub) t i = t := fun t i hi => by
    simp [restoreGroup, muspiInitResetRelease, muspiInitReset, hi]
  have hsubgroup : ∀ t i, i ≠ sub % numFifoSubgroups →
      restoreSubgroup (muspiInitResetRelease sub) (sub / numFifoSubgroups) t i = t := fun t i hi => by
    simp [restoreSubgroup, muspiInitResetRelease, muspiInitReset, hi]
  have hmine : ∀ t, restoreGroup (muspiInitResetRelease sub) t (sub / numFifoSubgroups) =
      (fun mu : Mu =>
        { mu with
          fifos := { mu.fifos with
            injSystem := Function.update mu.fifos.injSystem (sub / numFifoSubgroups) 0xFFFFFFFF
            recSystem := Function.update mu.fifos.recSystem (sub / numFifoSubgroups) 0xFFFF } })
        (restoreSubgroup (muspiInitResetRelease sub) (sub / numFifoSubgroups) t (sub % numFifoSubgroups)) := by
    intro t
    rw [← foldl_range_only hsgid hsubgroup]
    simp [restoreGroup, muspiInitResetRelease, muspiInitReset]
  rw [muspiResetRestoreMU, foldl_range_only (group_lt hsub) hgroup, hmine]
  simp [restoreSubgroup, muspiInitResetRelease, muspiInitReset]

theorem systemStatus_full (bat : BatRegs) (hsub : sub < numFifoSubgroupsPerNode) :
    systemStatus { bat with mode0 := ~~~0, mode1 := ~~~0 } sub = true := by
  have hall : ∀ b < 64, has (~~~0) b = true := by decide
  rw [systemStatus_eq hsub]
  split
  · exact hall _ (by omega)
  · exact hall _ (by omega)

theorem looks_release (hsub : sub < numFifoSubgroupsPerNode) :
    (muspiResetRestoreMU (muspiInitResetRelease sub) mu).looks = mu.looks.release sub := by
  have hsgid : sub % numFifoSubgroups < numFifoSubgroups := Nat.mod_lt _ (by decide)
  rw [restoreMU_release hsub]
  generalize hinj : (List.range numInjFifosPerSubgroup).foldl
    (resetInitInjFifo (muspiInitResetRelease sub) (sub / numFifoSubgroups) (sub % numFifoSubgroups)) mu = mu₁
  generalize hrec : (List.range numRecFifosPerSubgroup).foldl
    (resetInitRecFifo (muspiInitResetRelease sub) (sub / numFifoSubgroups) (sub % numFifoSubgroups)) mu₁ = mu₂
  have hlooks₁ := looks_injFifos sub (sub / numFifoSubgroups) mu hsgid
  have hlooks := looks_recFifos sub (sub / numFifoSubgroups) mu₁ hsgid
  rw [hinj] at hlooks₁
  rw [hrec, hlooks₁] at hlooks
  apply Looks.ext
  · funext u
    have hone : mu₂.injLook u = if Within sub u.1 u.2.1 then (mu.injLook u).clearKept else mu.injLook u :=
      congrFun (congrArg Looks.inj hlooks) u
    have hplace : place u.2.1 u.2.2 < 32 := by
      unfold place
      omega
    have hsystem : has (Function.update mu₂.fifos.injSystem (sub / numFifoSubgroups) 0xFFFFFFFF u.1)
        (place u.2.1 u.2.2) = ((mu₂.injLook u).system || decide (u.1 = sub / numFifoSubgroups)) := by
      by_cases hg : u.1 = sub / numFifoSubgroups
      · rw [hg, Function.update_self, has_ones hplace, decide_eq_true rfl, Bool.or_true]
      · rw [Function.update_of_ne hg, decide_eq_false hg, Bool.or_false, Mu.injLook]
    calc _ = { mu₂.injLook u with system := (mu₂.injLook u).system || decide (u.1 = sub / numFifoSubgroups) } :=
          congrArg (fun b => { mu₂.injLook u with system := b }) hsystem
      _ = _ := by
        rw [hone]
        simp only [Looks.release]
        by_cases hu : Within sub u.1 u.2.1
        · rw [if_pos hu, if_pos hu, decide_eq_true hu.1, Bool.or_true]
          rfl
        · rw [if_neg hu, if_neg hu]
          rfl
  · funext u
    have hone : mu₂.recLook u = if Within sub u.1 u.2.1 then (mu.recLook u).clearKept else mu.recLook u :=
      congrFun (congrArg Looks.rcv hlooks) u
    have hsystem : has (Function.update mu₂.fifos.recSystem (sub / numFifoSubgroups) 0xFFFF u.1)
        (recPlace u.2.1 u.2.2) = ((mu₂.recLook u).system || decide (u.1 = sub / numFifoSubgroups)) := by
      by_cases hg : u.1 = sub / numFifoSubgroups
      · rw [hg, Function.update_self, has_recOnes recPlace_lt, decide_eq_true rfl, Bool.or_true]
      · rw [Function.update_of_ne hg, decide_eq_false hg, Bool.or_false, Mu.recLook]
    calc _ = { mu₂.recLook u with system := (mu₂.recLook u).system || decide (u.1 = sub / numFifoSubgroups) } :=
          congrArg (fun b => { mu₂.recLook u with system := b }) hsystem
      _ = _ := by
        rw [hone]
        simp only [Looks.release]
        by_cases hu : Within sub u.1 u.2.1
        · rw [if_pos hu, if_pos hu, decide_eq_true hu.1, Bool.or_true]
          rfl
        · rw [if_neg hu, if_neg hu]
          rfl
  · funext u
    have hbat : BaseAddresses.view mu₂.bat u = BaseAddresses.view mu.bat u := congrFun (congrArg Looks.bat hlooks) u
    have hreset := view_resetBat mu₂.bat hsub u
    rw [hbat] at hreset
    have hvalue := congrArg EntryView.value hreset
    simp only [Looks.release, Mu.looks]
    rw [BaseAddresses.view, systemStatus_full _ (subOf_lt u)]
    exact congrArg (EntryView.mk · true) hvalue

theorem resetLoop_hold : resetLoop 16 (muspiInitResetHold sub) mu =
    some (muspiResetDisableUserReception { muspiInitResetHold sub with sequence := 2 } mu) := by
  simp [resetLoop, muspiReset, muspiInitResetHold, muspiInitReset, EAGAIN]

theorem resetLoop_release : resetLoop 16 (muspiInitResetRelease sub) mu =
    some (muspiResetRestoreMU (muspiInitResetRelease sub) mu) := by
  simp [resetLoop, muspiReset, muspiInitResetRelease, muspiInitReset, EAGAIN]

/-- The reset of a link goes to its end. -/
theorem resetLink_looks (mu : Mu) (hsub : sub < numFifoSubgroupsPerNode) :
    ∃ mu', resetLink sub mu = some mu' ∧ mu'.looks = (mu.looks.hold sub).release sub := by
  refine ⟨muspiResetRestoreMU (muspiInitResetRelease sub)
    (muspiResetDisableUserReception { muspiInitResetHold sub with sequence := 2 } mu), ?_, ?_⟩
  · rw [resetLink, resetLoop_hold, Option.bind_some, resetLoop_release]
  · rw [looks_release hsub, looks_disable hsub]

end Resets

end BgqVrnic.Links
