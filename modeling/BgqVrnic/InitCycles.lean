import BgqVrnic.InitFailures

namespace BgqVrnic

/-- A cycle with allocations that succeed: `mudm_init` and, when that has succeeded, `mudm_terminate`. Only
the cleanup table is there from earlier ones. -/
def initCycle (info : InitInfo) (n : Nat) (t : List CleanupEntry) : Option (Int × InitState) :=
  (mudmInit info (fun _ => false) n ⟨t, false, [], [], []⟩).map fun (rc, s) =>
    (rc, if rc = 0 then (mudmTerminate s).2 else s)

/-- The cleanup table before cycle `n` -/
def tableBefore (info : InitInfo) : Nat → Option (List CleanupEntry)
  | 0 => some []
  | n + 1 => do
    let t ← tableBefore info n
    let (_, s) ← initCycle info n t
    some s.cleanTable

/-- `mudm_init` succeeds, and the cycle ends with each of its regions freed once, and no region of another
one. -/
def CycleSound (info : InitInfo) (n : Nat) (t : List CleanupEntry) : Prop :=
  ∃ s, initCycle info n t = some (0, s) ∧ FreedOnce s ∧ ∀ r ∈ s.freed, r.init = n

/-- So do the first `m` cycles. -/
def CyclesSound (info : InitInfo) (m : Nat) : Prop :=
  ∀ n < m, ∃ t, tableBefore info n = some t ∧ CycleSound info n t

/-- The context in use has its magic, and the table has what it had and every region given since. -/
structure Underway (t : List CleanupEntry) (s : InitState) : Prop where
  tracked : Tracked t s
  magic : s.magic = true

variable {refuses : Region → Bool} {n : Nat} {l : List Region} {s s' : InitState} {r : MemRegion}
  {fn : CleanupFn} {t : List CleanupEntry} {ks : List Link} {g : Link → Region} {k : Link} {p : PktSize}
  {info : InitInfo}

theorem Underway.allocObject (h : Underway t s) :
    Underway t (BgqVrnic.allocObject refuses r fn s).2 := by
  unfold BgqVrnic.allocObject
  split
  next => exact h
  next =>
    split
    next => exact ⟨⟨h.tracked.table, h.tracked.freed⟩, h.magic⟩
    next =>
      refine ⟨⟨?_, h.tracked.freed⟩, h.magic⟩
      simp [h.tracked.table]

theorem Underway.forLinks (h : Underway t s) :
    Underway t (BgqVrnic.forLinks (fun k => BgqVrnic.allocObject refuses ⟨n, g k⟩ fn) ks s).2 := by
  induction ks generalizing s with
  | nil => exact h
  | cons k ks ih =>
    unfold BgqVrnic.forLinks
    dsimp only
    split
    next => exact ih h.allocObject
    next => exact h.allocObject

theorem Underway.rdmaLoop (h : Underway t s)
    (hs : ks.foldlM (rdmaInitLink refuses n) s = some s') : Underway t s' := by
  induction ks generalizing s with
  | nil =>
    cases Option.some.inj hs
    exact h
  | cons k ks ih =>
    rw [List.foldlM_cons] at hs
    obtain ⟨s₁, hone, hrest⟩ := Option.bind_eq_some_iff.mp hs
    unfold rdmaInitLink at hone
    dsimp only at hone
    split at hone
    next =>
      cases Option.some.inj hone
      exact ih h.allocObject hrest
    next => cases hone

theorem Underway.allocPktListObject (h : Underway t s) :
    Underway t (BgqVrnic.allocPktListObject refuses n p k s).2 := by
  unfold BgqVrnic.allocPktListObject
  dsimp only
  split
  next => exact h.allocObject
  next =>
    split
    next => exact h.allocObject.allocObject
    next => exact h.allocObject.allocObject.allocObject

theorem Underway.pktLoop (h : Underway t s) :
    Underway t (ks.foldl (fun s k => (BgqVrnic.allocPktListObject refuses n p k s).2) s) := by
  induction ks generalizing s with
  | nil => exact h
  | cons k ks ih => exact ih h.allocPktListObject

theorem orAllocError_success {r : Int × InitState} {rest : InitState → Option (Int × InitState)}
    (h : orAllocError r rest = some (0, s)) : r.1 = 0 ∧ rest r.2 = some (0, s) := by
  unfold orAllocError at h
  split at h
  next =>
    have hrc : (-ENOMEM : Int) = 0 := congrArg Prod.fst (Option.some.inj h)
    exact absurd hrc (by decide)
  next hrc => exact ⟨not_not.mp hrc, h⟩

theorem Underway.mudmInitEnd (h : Underway t s)
    (hs : BgqVrnic.mudmInitEnd refuses n s = some (0, s')) : Underway t s' := by
  unfold BgqVrnic.mudmInitEnd connListAlloc at hs
  dsimp only at hs
  split at hs
  next hrc =>
    have hzero := congrArg Prod.fst (Option.some.inj hs)
    exact absurd hzero hrc
  next =>
    split at hs
    next =>
      cases Option.some.inj hs
      exact h.allocObject
    next => cases hs

theorem Underway.mudmInitRegions (h : Underway t s)
    (hs : BgqVrnic.mudmInitRegions refuses n s = some (0, s')) : Underway t s' := by
  obtain ⟨r, hrdma, hrest⟩ := Option.bind_eq_some_iff.mp hs
  obtain ⟨s₀, hloop, hr⟩ := Option.bind_eq_some_iff.mp hrdma
  cases Option.some.inj hr
  have h₀ := h.rdmaLoop hloop
  have h₁ := (orAllocError_success (orAllocError_success hrest).2).2
  have h₂ := (orAllocError_success (orAllocError_success h₁).2).2
  exact h₀.forLinks.pktLoop.pktLoop.forLinks.forLinks.mudmInitEnd h₂

/-- When `mudm_init` has succeeded, the table has the entries of earlier cycles and its own. -/
theorem mudmInit_underway (ha : info.Accepted)
    (hs : mudmInit info (fun _ => false) n ⟨t, false, [], [], []⟩ = some (0, s)) : Underway t s := by
  unfold mudmInit at hs
  rw [if_neg (not_not.mpr ha.1.symm), ha.callbacks, if_neg (by simp), if_neg (by simp)] at hs
  obtain ⟨hadd, hrest⟩ := orAllocError_success hs
  refine Underway.mudmInitRegions ⟨⟨?_, ?_⟩, rfl⟩ hrest
  · unfold addObject at hadd ⊢
    split at hadd
    next => exact absurd (show (-ENOMEM : Int) = 0 from hadd) (by decide)
    next hroom =>
      rw [if_neg hroom]
      simp
  · unfold addObject
    split <;> rfl

theorem Underway.mudmTerminate (h : Underway t s) :
    (BgqVrnic.mudmTerminate s).2.freed = (t.map CleanupEntry.memregion ++ s.granted).reverse ∧
      (BgqVrnic.mudmTerminate s).2.granted = s.granted ∧
      (BgqVrnic.mudmTerminate s).2.cleanTable = s.cleanTable := by
  unfold BgqVrnic.mudmTerminate
  rw [if_pos h.magic, processCleanupTable_eq, h.tracked.freed, h.tracked.table]
  exact ⟨rfl, rfl, rfl⟩

/-- With an empty table and no refusal, `mudm_init` gets all its regions. -/
theorem mudmInit_empty (ha : info.Accepted) :
    ∃ s, mudmInit info (fun _ => false) n ⟨[], false, [], [], []⟩ = some (0, s) ∧
      Course (fun _ => false) n initRegions s := by
  rcases mudmInit_runs (n := n) ha (fun _ => false) rfl fun _ => rfl with
    ⟨⟨k, hk⟩, -⟩ | ⟨-, s, l, hcourse, -, -, hsub, hwhole, heq⟩
  · simp at hk
  · have hlen : l.length < 25 := by
      have hle : (l ++ [Region.connections]).length ≤ 22 := hsub.length_le
      rw [List.length_append, List.length_singleton] at hle
      omega
    obtain ⟨s', hcourse', hend⟩ := hcourse.mudmInitEnd hlen
    have hall : l ++ [Region.connections] = initRegions :=
      hwhole.resolve_right fun ⟨r, _, hr⟩ => by simp at hr
    rw [hall] at hcourse'
    have hmem : ∀ r, ⟨n, r⟩ ∈ s'.granted := fun r => hcourse'.mem_granted.mpr ⟨mem_initRegions r, rfl⟩
    refine ⟨s', ?_, hcourse'⟩
    rw [heq, hend, if_neg (by simp), if_pos fun k => ⟨hmem _, hmem _⟩]

/-- A cycle that begins with an empty table is as it should be, and leaves the table with its regions. -/
theorem initCycle_empty (ha : info.Accepted) :
    ∃ s, initCycle info n [] = some (0, s) ∧ FreedOnce s ∧ (∀ r ∈ s.freed, r.init = n) ∧
      s.cleanTable ≠ [] := by
  obtain ⟨s, hs, hcourse⟩ := mudmInit_empty (n := n) ha
  have hunder := mudmInit_underway ha hs
  obtain ⟨hfreed, hgranted, htable⟩ := hunder.mudmTerminate
  have hall : s.granted = initRegions.map (MemRegion.mk n) := by
    rw [hcourse.granted]
    rfl
  have hnodup := hcourse.granted_nodup (List.Sublist.refl _)
  refine ⟨(mudmTerminate s).2, ?_, fun r => ?_, fun r hr => ?_, ?_⟩
  · unfold initCycle
    rw [hs]
    rfl
  · rw [hfreed, hgranted, List.map_nil, List.nil_append, List.count_reverse]
    exact hnodup.count
  · rw [hfreed, hall, List.map_nil, List.nil_append, List.mem_reverse] at hr
    obtain ⟨r', -, rfl⟩ := List.mem_map.mp hr
    rfl
  · intro hnil
    rw [htable] at hnil
    have hentries := hunder.tracked.table
    rw [hnil, hall] at hentries
    cases hentries

/-- A cycle that finds entries in the table frees their regions again, if its `mudm_init` succeeds. -/
theorem cycleSound_iff (ha : info.Accepted) : CycleSound info n t ↔ t = [] := by
  constructor
  · rintro ⟨s, hs, hfreed, -⟩
    obtain ⟨⟨rc, s₁⟩, hinit, hend⟩ := Option.map_eq_some_iff.mp hs
    have hrc : rc = 0 := congrArg Prod.fst hend
    subst hrc
    have hstate : (mudmTerminate s₁).2 = s := congrArg Prod.snd hend
    obtain ⟨hall, hgranted, -⟩ := (mudmInit_underway ha hinit).mudmTerminate
    rw [hstate] at hall hgranted
    cases t with
    | nil => rfl
    | cons e t =>
      have hcount := hfreed e.memregion
      rw [hall, hgranted, List.count_reverse, List.map_cons, List.cons_append, List.count_cons_self,
        List.count_append] at hcount
      split at hcount
      next hmem =>
        have hpos := List.count_pos_iff.mpr hmem
        omega
      next => omega
  · rintro rfl
    obtain ⟨s, hs, hfreed, hown, -⟩ := initCycle_empty (n := n) ha
    exact ⟨s, hs, hfreed, hown⟩

/-- `process_cleanup_table` leaves its entries behind, so that the first cycle is the only good one. -/
theorem cycles_sound_iff (ha : info.Accepted) (m : Nat) : CyclesSound info m ↔ m ≤ 1 := by
  constructor
  · intro h
    by_contra hm
    obtain ⟨t, ht, hsound⟩ := h 1 (by omega)
    obtain ⟨s, hs, -, -, hne⟩ := initCycle_empty (n := 0) ha
    have hbefore : tableBefore info 1 = some s.cleanTable := by
      unfold tableBefore tableBefore
      dsimp only [Option.bind_eq_bind, Option.bind_some]
      rw [hs]
      rfl
    cases Option.some.inj (ht.symm.trans hbefore)
    exact hne ((cycleSound_iff ha).mp hsound)
  · intro hm n hn
    have hzero : n = 0 := by omega
    subst hzero
    exact ⟨[], rfl, (cycleSound_iff ha).mpr rfl⟩

theorem one_cycle_sound : CyclesSound driverInfo 1 :=
  (cycles_sound_iff ⟨rfl, rfl, rfl, rfl, rfl, rfl⟩ 1).mpr (by decide)

/-- The second `mudm_init` finds no room for its first subgroup, and frees 22 regions of the first one. -/
theorem second_cycle_fails :
    ((tableBefore driverInfo 1).bind (initCycle driverInfo 1)).map
        (fun (rc, s) => (rc, s.granted.length, s.freed.length,
          (s.freed.filter fun r => r.init = 0).length)) = some (-ENOMEM, 3, 25, 22) ∧
      ¬ CyclesSound driverInfo 2 := by
  have hsecond : ((tableBefore driverInfo 1).bind (initCycle driverInfo 1)).map
      (fun (rc, s) => (rc, s.granted.length, s.freed.length,
        (s.freed.filter fun r => r.init = 0).length)) = some (-ENOMEM, 3, 25, 22) := by decide
  refine ⟨hsecond, fun h => ?_⟩
  obtain ⟨t, ht, s, hs, -⟩ := h 1 (by omega)
  rw [ht, Option.bind_some, hs] at hsecond
  cases hsecond

end BgqVrnic
