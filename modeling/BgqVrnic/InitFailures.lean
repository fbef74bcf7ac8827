import Mathlib.Data.List.Nodup
import Mathlib.Data.List.Count
import BgqVrnic.CleanupTable

namespace BgqVrnic

/-- Every region of the cleanup table was there before, or has been given since; nothing has been freed. -/
structure Tracked (t : List CleanupEntry) (s : InitState) : Prop where
  table : s.cleanTable.map CleanupEntry.memregion = t.map CleanupEntry.memregion ++ s.granted
  freed : s.freed = []

/-- The user has been asked for the regions `l`, with a table that was empty. -/
structure Course (refuses : Region → Bool) (n : Nat) (l : List Region) (s : InitState) : Prop where
  tracked : Tracked [] s
  granted : s.granted = (l.filter fun r => !refuses r).map (MemRegion.mk n)
  refused : s.refused = (l.filter refuses).map (MemRegion.mk n)

/-- Each region that was given has been freed once, and no other. -/
def FreedOnce (s : InitState) : Prop :=
  ∀ r, s.freed.count r = if r ∈ s.granted then 1 else 0

/-- `mudm_init` returns. It returns 0 only if no region was refused, and if one was then every region that
it got has been freed, once, and no other. -/
def FailsClean (info : InitInfo) (refuses : Region → Bool) (n : Nat) : Prop :=
  ∃ rc s, mudmInit info refuses n ⟨[], false, [], [], []⟩ = some (rc, s) ∧
    (rc = 0 → s.refused = []) ∧ (s.refused ≠ [] → FreedOnce s)

/-- The version is the right one and no callback is missing. -/
def InitInfo.Accepted (info : InitInfo) : Prop :=
  info.callersVersion = mudmVersion ∧ info.allocate = true ∧ info.status = true ∧
    info.recvConn = true ∧ info.recv = true ∧ info.free = true

/-- The context and the RDMA regions are given; and one of the regions whose status is looked at is not, or
all the others are. -/
def RefusedWhereChecked (refuses : Region → Bool) : Prop :=
  refuses .context = false ∧ (∀ k, refuses (.rdma k) = false) ∧
    ((∃ k, refuses (.subgroup k) = true ∨ refuses (.injRegion k) = true ∨
      refuses (.recRegion k) = true) ∨ ∀ r, refuses r = false)

variable {refuses : Region → Bool} {n : Nat} {l l' : List Region} {s s' : InitState} {r : Region}
  {fn : CleanupFn} {t : List CleanupEntry} {ks : List Link} {g : Link → Region} {k : Link} {p : PktSize}
  {info : InitInfo}

/-- The regions of the packets of one size and one link. -/
def pktRegions (p : PktSize) (k : Link) : List Region := [.controls p k, .packets p k, .descriptors p k]

/-- All regions, in the order of `mudm_init`. -/
def initRegions : List Region :=
  [.context] ++ ioLinks.map .rdma ++ ioLinks.map .subgroup ++ ioLinks.flatMap (pktRegions .full) ++
    ioLinks.flatMap (pktRegions .small) ++ ioLinks.map .injRegion ++ ioLinks.map .recRegion ++
    [.connections]

theorem initRegions_nodup : initRegions.Nodup := by decide

theorem processCleanupTable_eq (s : InitState) :
    processCleanupTable s =
      { s with freed := s.freed ++ (s.cleanTable.map CleanupEntry.memregion).reverse } := by
  have hfold : ∀ (es : List CleanupEntry) (s : InitState), es.foldl CleanupEntry.cleanup s =
      { s with freed := s.freed ++ es.map CleanupEntry.memregion } := by
    intro es
    induction es with
    | nil => simp
    | cons e es ih =>
      intro s
      have hone : e.cleanup s = s.freeMem e.memregion := by
        obtain ⟨memregion, cleanupFn⟩ := e
        rcases cleanupFn with - | fn
        · rfl
        · cases fn <;> rfl
      rw [List.foldl_cons, hone, ih]
      simp [InitState.freeMem]
  unfold processCleanupTable
  rw [hfold, List.map_reverse]

theorem Tracked.processCleanupTable (h : Tracked [] s) (hnodup : s.granted.Nodup) :
    FreedOnce (BgqVrnic.processCleanupTable s) := by
  intro r
  have htable : s.cleanTable.map CleanupEntry.memregion = s.granted := h.table
  rw [processCleanupTable_eq, h.freed, htable, List.nil_append]
  dsimp only
  rw [List.count_reverse]
  exact hnodup.count

theorem Course.granted_nodup (h : Course refuses n l s) (hl : l.Sublist initRegions) :
    s.granted.Nodup := by
  rw [h.granted]
  refine (List.Nodup.filter _ (initRegions_nodup.sublist hl)).map fun a b hab => ?_
  exact congrArg MemRegion.name hab

theorem Course.mem_granted (h : Course refuses n l s) :
    ⟨n, r⟩ ∈ s.granted ↔ r ∈ l ∧ refuses r = false := by
  rw [h.granted, List.mem_map]
  simp

theorem Course.refused_iff (h : Course refuses n l s) :
    s.refused = [] ↔ ∀ r ∈ l, refuses r = false := by
  rw [h.refused, List.map_eq_nil_iff, List.filter_eq_nil_iff]
  simp

theorem Course.length_table (h : Course refuses n l s) : s.cleanTable.length ≤ l.length := by
  have htable : s.cleanTable.map CleanupEntry.memregion = s.granted := h.tracked.table
  have hlen := congrArg List.length htable
  rw [List.length_map, h.granted, List.length_map] at hlen
  rw [hlen]
  exact List.length_filter_le _ _

theorem Course.allocObject (h : Course refuses n l s) (r : Region) (fn : CleanupFn)
    (hl : l.length < 25) :
    (BgqVrnic.allocObject refuses ⟨n, r⟩ fn s).1 = (if refuses r then -ENOMEM else 0) ∧
      Course refuses n (l ++ [r]) (BgqVrnic.allocObject refuses ⟨n, r⟩ fn s).2 := by
  have hroom : ¬ maxCleanupEntries ≤ s.cleanTable.length := by
    have hlen := h.length_table
    unfold maxCleanupEntries
    omega
  have htable : s.cleanTable.map CleanupEntry.memregion = s.granted := h.tracked.table
  unfold BgqVrnic.allocObject
  rw [if_neg hroom]
  by_cases hr : refuses r = true
  · rw [if_pos hr, if_pos hr]
    refine ⟨rfl, ⟨h.tracked.table, h.tracked.freed⟩, ?_, ?_⟩
    · rw [List.filter_append, h.granted]
      simp [hr]
    · rw [List.filter_append, h.refused]
      simp [hr]
  · rw [if_neg hr, if_neg hr]
    refine ⟨rfl, ⟨?_, h.tracked.freed⟩, ?_, ?_⟩
    · simp [htable]
    · rw [List.filter_append, h.granted]
      simp [hr]
    · rw [List.filter_append, h.refused]
      simp [hr]

/-- A loop of `mudm_init` over the links gives every region that it asks for, or ends with the first one
that is refused. -/
theorem Course.forLinks (h : Course refuses n l s) (g : Link → Region) (fn : CleanupFn) (ks : List Link)
    (hl : l.length + ks.length ≤ 25) :
    ∃ rc s' ks', BgqVrnic.forLinks (fun k => BgqVrnic.allocObject refuses ⟨n, g k⟩ fn) ks s = (rc, s') ∧
      Course refuses n (l ++ ks'.map g) s' ∧ ks'.Sublist ks ∧
      (rc = 0 ∧ ks' = ks ∧ (∀ k ∈ ks, refuses (g k) = false) ∨
        rc = -ENOMEM ∧ ∃ k ∈ ks', refuses (g k) = true) := by
  induction ks generalizing l s with
  | nil => exact ⟨0, s, [], rfl, by simpa using h, List.Sublist.refl _, Or.inl ⟨rfl, rfl, nofun⟩⟩
  | cons k ks ih =>
    rw [List.length_cons] at hl
    obtain ⟨hrc, hone⟩ := h.allocObject (g k) fn (by omega)
    unfold BgqVrnic.forLinks
    dsimp only
    rw [hrc]
    by_cases hk : refuses (g k) = true
    · rw [if_pos hk, if_neg (by decide)]
      exact ⟨_, _, [k], rfl, hone, by simp, Or.inr ⟨rfl, k, by simp, hk⟩⟩
    · rw [if_neg hk, if_pos rfl]
      obtain ⟨rc, s', ks', heq, hcourse, hsub, hend⟩ := ih hone (by simp; omega)
      refine ⟨rc, s', k :: ks', heq, by simpa using hcourse, hsub.cons_cons k, ?_⟩
      rcases hend with ⟨hrc, rfl, hgiven⟩ | ⟨hrc, j, hj, href⟩
      · refine Or.inl ⟨hrc, rfl, fun j hj => ?_⟩
        rcases List.mem_cons.mp hj with rfl | hj
        · simpa using hk
        · exact hgiven j hj
      · exact Or.inr ⟨hrc, j, List.mem_cons_of_mem k hj, href⟩

theorem Course.rdmaInit_given (h : Course refuses n l s) (ks : List Link)
    (hl : l.length + ks.length ≤ 25)
    (hgiven : ∀ k ∈ ks, refuses (.rdma k) = false) :
    ∃ s', ks.foldlM (rdmaInitLink refuses n) s = some s' ∧
      Course refuses n (l ++ ks.map .rdma) s' := by
  induction ks generalizing l s with
  | nil => exact ⟨s, rfl, by simpa using h⟩
  | cons k ks ih =>
    rw [List.length_cons] at hl
    obtain ⟨-, hone⟩ := h.allocObject (.rdma k) .freeMem (by omega)
    have hmem := hone.mem_granted.mpr ⟨by simp, hgiven k (by simp)⟩
    obtain ⟨s', heq, hcourse⟩ := ih hone (by simp; omega) fun j hj => hgiven j (by simp [hj])
    refine ⟨s', ?_, by simpa using hcourse⟩
    rw [List.foldlM_cons]
    unfold rdmaInitLink
    dsimp only
    rw [if_pos hmem]
    exact heq

/-- A refused RDMA region is written to all the same. -/
theorem Course.rdmaInit_refused (h : Course refuses n l s) (hl : l.length + ks.length ≤ 25)
    (hrefused : ∃ k ∈ ks, refuses (.rdma k) = true) : ks.foldlM (rdmaInitLink refuses n) s = none := by
  induction ks generalizing l s with
  | nil => simp at hrefused
  | cons k ks ih =>
    rw [List.length_cons] at hl
    obtain ⟨-, hone⟩ := h.allocObject (.rdma k) .freeMem (by omega)
    rw [List.foldlM_cons]
    unfold rdmaInitLink
    dsimp only
    by_cases hk : refuses (.rdma k) = true
    · have hmem : ¬ ⟨n, .rdma k⟩ ∈ (BgqVrnic.allocObject refuses ⟨n, .rdma k⟩ .freeMem s).2.granted := by
        rw [hone.mem_granted]
        simp [hk]
      rw [if_neg hmem]
      rfl
    · have hmem := hone.mem_granted.mpr ⟨by simp, (by simpa using hk : refuses (.rdma k) = false)⟩
      rw [if_pos hmem]
      refine ih hone (by simp; omega) ?_
      obtain ⟨j, hj, href⟩ := hrefused
      rcases List.mem_cons.mp hj with rfl | hj
      · exact absurd href hk
      · exact ⟨j, hj, href⟩

/-- The controls are asked for in any case, the rest as long as nothing has been refused. -/
theorem Course.allocPktListObject (h : Course refuses n l s) (hl : l.length + 3 ≤ 25) :
    ∃ l', Course refuses n (l ++ l') (BgqVrnic.allocPktListObject refuses n p k s).2 ∧
      l'.Sublist (pktRegions p k) ∧ .controls p k ∈ l' ∧
      (l' = pktRegions p k ∨ ∃ r ∈ l', refuses r = true) := by
  obtain ⟨hrc₁, h₁⟩ := h.allocObject (.controls p k) .freeMem (by omega)
  unfold BgqVrnic.allocPktListObject
  dsimp only
  rw [hrc₁]
  by_cases hr₁ : refuses (.controls p k) = true
  · rw [if_pos hr₁, if_pos (by decide)]
    exact ⟨_, h₁, by simp [pktRegions], by simp, Or.inr ⟨_, by simp, hr₁⟩⟩
  rw [if_neg hr₁, if_neg (by decide)]
  obtain ⟨hrc₂, h₂⟩ := h₁.allocObject (.packets p k) .freeMem (by simp; omega)
  rw [hrc₂]
  by_cases hr₂ : refuses (.packets p k) = true
  · rw [if_pos hr₂, if_pos (by decide)]
    rw [List.append_assoc] at h₂
    exact ⟨_, h₂, by simp [pktRegions], by simp, Or.inr ⟨_, by simp, hr₂⟩⟩
  rw [if_neg hr₂, if_neg (by decide)]
  obtain ⟨-, h₃⟩ := h₂.allocObject (.descriptors p k) .freeMem (by simp; omega)
  rw [List.append_assoc, List.append_assoc] at h₃
  exact ⟨_, h₃, List.Sublist.refl _, by simp, Or.inl rfl⟩

theorem Course.pktLoop (h : Course refuses n l s) (p : PktSize) (ks : List Link)
    (hl : l.length + 3 * ks.length ≤ 25) :
    ∃ l', Course refuses n (l ++ l')
        (ks.foldl (fun s k => (BgqVrnic.allocPktListObject refuses n p k s).2) s) ∧
      l'.Sublist (ks.flatMap (pktRegions p)) ∧ (∀ k ∈ ks, .controls p k ∈ l') ∧
      (l' = ks.flatMap (pktRegions p) ∨ ∃ r ∈ l', refuses r = true) := by
  induction ks generalizing l s with
  | nil => exact ⟨[], by simpa using h, List.Sublist.refl _, nofun, Or.inl rfl⟩
  | cons k ks ih =>
    rw [List.length_cons] at hl
    obtain ⟨l₁, h₁, hsub₁, hctl₁, hall₁⟩ := h.allocPktListObject (p := p) (k := k) (by omega)
    have hlen₁ : l₁.length ≤ 3 := hsub₁.length_le
    obtain ⟨l₂, h₂, hsub₂, hctl₂, hall₂⟩ := ih h₁ (by simp; omega)
    rw [List.foldl_cons, List.flatMap_cons]
    refine ⟨l₁ ++ l₂, by simpa using h₂, hsub₁.append hsub₂, fun j hj => ?_, ?_⟩
    · rcases List.mem_cons.mp hj with rfl | hj
      · exact List.mem_append_left _ hctl₁
      · exact List.mem_append_right _ (hctl₂ j hj)
    · rcases hall₁ with rfl | ⟨r, hr, href⟩
      · rcases hall₂ with rfl | ⟨r, hr, href⟩
        · exact Or.inl rfl
        · exact Or.inr ⟨r, List.mem_append_right _ hr, href⟩
      · exact Or.inr ⟨r, List.mem_append_left _ hr, href⟩

/-- The end at `ALLOC_ERROR` frees what it should. -/
theorem Course.allocError (h : Course refuses n l s) (hl : l.Sublist initRegions) :
    ∃ s', BgqVrnic.allocError s = some (-ENOMEM, s') ∧ FreedOnce s' :=
  ⟨_, rfl, h.tracked.processCleanupTable (h.granted_nodup hl)⟩

/-- What `mudm_init` asks for, given what its loops have asked for. -/
def askedRegions (subgroups full small injs recs rest : List Region) : List Region :=
  [.context] ++ ioLinks.map .rdma ++ subgroups ++ full ++ small ++ injs ++ recs ++ rest

theorem askedRegions_sublist {l₁ l₂ l₃ l₄ l₅ l₆ : List Region}
    (h₁ : l₁.Sublist (ioLinks.map .subgroup)) (h₂ : l₂.Sublist (ioLinks.flatMap (pktRegions .full)))
    (h₃ : l₃.Sublist (ioLinks.flatMap (pktRegions .small)))
    (h₄ : l₄.Sublist (ioLinks.map .injRegion)) (h₅ : l₅.Sublist (ioLinks.map .recRegion))
    (h₆ : l₆.Sublist [.connections]) : (askedRegions l₁ l₂ l₃ l₄ l₅ l₆).Sublist initRegions :=
  ((((((List.Sublist.refl _).append h₁).append h₂).append h₃).append h₄).append h₅).append h₆

theorem course_context (hc : refuses .context = false) :
    Course refuses n [.context]
      ⟨[⟨⟨n, .context⟩, some .freeMem⟩], true, [⟨n, .context⟩], [], []⟩ where
  tracked := ⟨rfl, rfl⟩
  granted := by simp [hc]
  refused := by simp [hc]

/-- The status of an allocation is looked at, and the region refused. -/
def CheckedRefused (refuses : Region → Bool) : Prop :=
  ∃ k, refuses (.subgroup k) = true ∨ refuses (.injRegion k) = true ∨ refuses (.recRegion k) = true

theorem InitInfo.Accepted.callbacks (h : info.Accepted) :
    (!info.allocate || !info.status || !info.recvConn || !info.recv || !info.free) = false := by
  obtain ⟨-, hallocate, hstatus, hrecvConn, hrecv, hfree⟩ := h
  simp [hallocate, hstatus, hrecvConn, hrecv, hfree]

theorem mudmInit_refused_context (ha : info.Accepted) (hc : refuses .context = true) :
    mudmInit info refuses n ⟨[], false, [], [], []⟩ =
      some (-ENOMEM, ⟨[], false, [], [⟨n, .context⟩], [⟨n, .context⟩]⟩) := by
  unfold mudmInit
  rw [if_neg (not_not.mpr ha.1.symm), ha.callbacks, if_neg (by simp), if_pos hc]
  rfl

theorem mudmInit_context (ha : info.Accepted) (hc : refuses .context = false) :
    mudmInit info refuses n ⟨[], false, [], [], []⟩ =
      mudmInitRegions refuses n
        ⟨[⟨⟨n, .context⟩, some .freeMem⟩], true, [⟨n, .context⟩], [], []⟩ := by
  unfold mudmInit
  rw [if_neg (not_not.mpr ha.1.symm), ha.callbacks, if_neg (by simp), hc]
  rfl

theorem mudmInit_refused_rdma (ha : info.Accepted) (hc : refuses .context = false)
    (hr : ∃ k, refuses (.rdma k) = true) :
    mudmInit info refuses n ⟨[], false, [], [], []⟩ = none := by
  obtain ⟨k, hk⟩ := hr
  have hnone := (course_context (n := n) hc).rdmaInit_refused (by decide) ⟨k, mem_ioLinks k, hk⟩
  rw [mudmInit_context ha hc]
  unfold mudmInitRegions rdmaInit
  rw [hnone]
  rfl

theorem orAllocError_zero (rest : InitState → Option (Int × InitState)) :
    orAllocError (0, s) rest = rest s := if_neg (by simp)

theorem orAllocError_failed (rest : InitState → Option (Int × InitState)) :
    orAllocError (-ENOMEM, s) rest = allocError s :=
  if_pos (show (-ENOMEM : Int) ≠ 0 by decide)

theorem Course.orAllocError (h : Course refuses n l s) (g : Link → Region) (fn : CleanupFn)
    (hl : l.length + 2 ≤ 25)
    (hsub : ∀ ks' : List Link, ks'.Sublist ioLinks → (l ++ ks'.map g).Sublist initRegions)
    (rest : InitState → Option (Int × InitState)) :
    (∃ k, refuses (g k) = true) ∧
        (∃ s', BgqVrnic.orAllocError
            (BgqVrnic.forLinks (fun k => BgqVrnic.allocObject refuses ⟨n, g k⟩ fn) ioLinks s) rest =
          some (-ENOMEM, s') ∧ FreedOnce s') ∨
      (∀ k, refuses (g k) = false) ∧ ∃ s', Course refuses n (l ++ ioLinks.map g) s' ∧
        BgqVrnic.orAllocError
          (BgqVrnic.forLinks (fun k => BgqVrnic.allocObject refuses ⟨n, g k⟩ fn) ioLinks s) rest =
        rest s' := by
  obtain ⟨rc, s', ks', heq, hcourse, hks', hend⟩ := h.forLinks g fn ioLinks hl
  rw [heq]
  rcases hend with ⟨rfl, rfl, hgiven⟩ | ⟨rfl, k, -, hk⟩
  · exact Or.inr ⟨fun k => hgiven k (mem_ioLinks k), s', hcourse, orAllocError_zero rest⟩
  · rw [orAllocError_failed]
    exact Or.inl ⟨⟨k, hk⟩, hcourse.allocError (hsub ks' hks')⟩

theorem mudmInit_runs (ha : info.Accepted) (refuses : Region → Bool) (hc : refuses .context = false)
    (hr : ∀ k, refuses (.rdma k) = false) :
    (CheckedRefused refuses ∧ ∃ s, mudmInit info refuses n ⟨[], false, [], [], []⟩ = some (-ENOMEM, s) ∧
      FreedOnce s) ∨
    ¬ CheckedRefused refuses ∧ ∃ s l, Course refuses n l s ∧ .context ∈ l ∧
      (∀ p k, .controls p k ∈ l) ∧ (l ++ [Region.connections]).Sublist initRegions ∧
      (l ++ [Region.connections] = initRegions ∨ ∃ r ∈ l, refuses r = true) ∧
      mudmInit info refuses n ⟨[], false, [], [], []⟩ = mudmInitEnd refuses n s := by
  obtain ⟨s₀, hrdma, h₀⟩ := (course_context (n := n) hc).rdmaInit_given ioLinks (by decide)
    fun k _ => hr k
  rw [mudmInit_context ha hc]
  unfold mudmInitRegions rdmaInit
  rw [hrdma]
  dsimp only [Option.bind_some, Option.bind_eq_bind]
  rw [orAllocError_zero]
  have hnone : ∀ l : List Region, List.Sublist [] l := List.nil_sublist
  have hall : ∀ l : List Region, List.Sublist l l := List.Sublist.refl
  have hmap : ∀ (g : Link → Region) (ks' : List Link), ks'.Sublist ioLinks →
      (ks'.map g).Sublist (ioLinks.map g) := fun g ks' h => h.map g
  rcases h₀.orAllocError .subgroup .freeMUSubgroupMem (by decide)
    (fun ks' hks' => by
      simpa [askedRegions] using askedRegions_sublist (hmap _ _ hks') (hnone _) (hnone _) (hnone _)
        (hnone _) (hnone _)) _ with
    ⟨⟨k, hk⟩, hfail⟩ | ⟨hsubgroup, s₁, h₁, heq₁⟩
  · exact Or.inl ⟨⟨k, Or.inl hk⟩, hfail⟩
  rw [heq₁]
  obtain ⟨l₂, h₂, hsub₂, hctl₂, hall₂⟩ := h₁.pktLoop .full ioLinks (by decide)
  have hlen₂ : l₂.length ≤ 6 := hsub₂.length_le
  obtain ⟨l₃, h₃, hsub₃, hctl₃, hall₃⟩ := h₂.pktLoop .small ioLinks (by
    simp [ioLinks]
    omega)
  have hlen₃ : l₃.length ≤ 6 := hsub₃.length_le
  rcases h₃.orAllocError .injRegion .freeMUInjRegion (by
    simp [ioLinks]
    omega) (fun ks' hks' => by
      simpa [askedRegions] using askedRegions_sublist (hall _) hsub₂ hsub₃ (hmap _ _ hks')
        (hnone _) (hnone _)) _ with ⟨⟨k, hk⟩, hfail⟩ | ⟨hinj, s₄, h₄, heq₄⟩
  · exact Or.inl ⟨⟨k, Or.inr (Or.inl hk)⟩, hfail⟩
  rw [heq₄]
  rcases h₄.orAllocError .recRegion .freeRecfifo (by
    simp [ioLinks]
    omega) (fun ks' hks' => by
      simpa [askedRegions] using askedRegions_sublist (hall _) hsub₂ hsub₃ (hall _) (hmap _ _ hks')
        (hnone _)) _ with ⟨⟨k, hk⟩, hfail⟩ | ⟨hrec, s₅, h₅, heq₅⟩
  · exact Or.inl ⟨⟨k, Or.inr (Or.inr hk)⟩, hfail⟩
  rw [heq₅]
  refine Or.inr ⟨?_, s₅, _, h₅, by simp, ?_, ?_, ?_, rfl⟩
  · rintro ⟨k, hk | hk | hk⟩
    · simp [hsubgroup k] at hk
    · simp [hinj k] at hk
    · simp [hrec k] at hk
  · intro p k
    cases p with
    | full => simp [hctl₂ k (mem_ioLinks k)]
    | small => simp [hctl₃ k (mem_ioLinks k)]
  · exact askedRegions_sublist (hall _) hsub₂ hsub₃ (hall _) (hall _) (hall _)
  · rcases hall₂ with rfl | ⟨r, hr, href⟩
    · rcases hall₃ with rfl | ⟨r, hr, href⟩
      · exact Or.inl rfl
      · exact Or.inr ⟨r, by simp [hr], href⟩
    · exact Or.inr ⟨r, by simp [hr], href⟩

theorem mem_initRegions (r : Region) : r ∈ initRegions := by
  cases r with
  | context => simp [initRegions]
  | rdma k => simp [initRegions, mem_ioLinks]
  | subgroup k => simp [initRegions, mem_ioLinks]
  | controls p k => cases p <;> simp [initRegions, pktRegions, mem_ioLinks]
  | packets p k => cases p <;> simp [initRegions, pktRegions, mem_ioLinks]
  | descriptors p k => cases p <;> simp [initRegions, pktRegions, mem_ioLinks]
  | injRegion k => simp [initRegions, mem_ioLinks]
  | recRegion k => simp [initRegions, mem_ioLinks]
  | connections => simp [initRegions]

theorem Course.not_freedOnce (h : Course refuses n l s) (hl : .context ∈ l)
    (hc : refuses .context = false) : ¬ FreedOnce s := by
  intro hfreed
  have hone := hfreed ⟨n, .context⟩
  rw [h.tracked.freed, if_pos (h.mem_granted.mpr ⟨hl, hc⟩)] at hone
  cases hone

/-- The end of `mudm_init`: it returns 0 whatever the packets have got, as long as their controls are
there. -/
theorem Course.mudmInitEnd (h : Course refuses n l s) (hl : l.length < 25) :
    ∃ s', Course refuses n (l ++ [Region.connections]) s' ∧
      BgqVrnic.mudmInitEnd refuses n s =
        if refuses .connections then some (-ENOMEM, s')
        else if ∀ k, ⟨n, .controls .full k⟩ ∈ s'.granted ∧ ⟨n, .controls .small k⟩ ∈ s'.granted then
          some (0, s')
        else none := by
  obtain ⟨hrc, hconn⟩ := h.allocObject .connections .freeMem hl
  refine ⟨_, hconn, ?_⟩
  unfold BgqVrnic.mudmInitEnd connListAlloc
  dsimp only
  rw [hrc]
  by_cases hr : refuses .connections = true
  · rw [if_pos hr, if_pos (by decide), if_pos hr]
  · rw [if_neg hr, if_neg (by simp), if_neg hr]

theorem failsClean_of_rejected (ha : ¬ info.Accepted) : FailsClean info refuses n := by
  by_cases hversion : mudmVersion = info.callersVersion
  · have hcallbacks : (!info.allocate || !info.status || !info.recvConn || !info.recv || !info.free) =
        true := by
      by_contra hall
      refine ha ⟨hversion.symm, ?_⟩
      simpa [and_assoc] using hall
    refine ⟨-EINVAL, ⟨[], false, [], [], []⟩, ?_, fun _ => rfl, fun hne => absurd rfl hne⟩
    unfold mudmInit
    rw [if_neg (not_not.mpr hversion), if_pos hcallbacks]
  · refine ⟨-EBADRQC, ⟨[], false, [], [], []⟩, ?_, fun _ => rfl, fun hne => absurd rfl hne⟩
    unfold mudmInit
    rw [if_pos hversion]

theorem not_failsClean_of_context (ha : info.Accepted) (hc : refuses .context = true) :
    ¬ FailsClean info refuses n := by
  rintro ⟨rc, s, hs, -, hfreed⟩
  cases Option.some.inj (hs.symm.trans (mudmInit_refused_context ha hc))
  have hone := hfreed (by simp) ⟨n, .context⟩
  simp at hone

/-- The outcome when the context and the RDMA regions are given and the checked ones are, too. -/
theorem Course.failsClean_iff (h : Course refuses n l s) (hc : refuses .context = false)
    (hcontext : .context ∈ l) (hcontrols : ∀ p k, .controls p k ∈ l)
    (hsub : (l ++ [Region.connections]).Sublist initRegions)
    (hwhole : l ++ [Region.connections] = initRegions ∨ ∃ r ∈ l, refuses r = true)
    (heq : mudmInit info refuses n ⟨[], false, [], [], []⟩ = BgqVrnic.mudmInitEnd refuses n s) :
    FailsClean info refuses n ↔ ∀ r, refuses r = false := by
  have hlen : l.length < 25 := by
    have hle : (l ++ [Region.connections]).length ≤ 22 := hsub.length_le
    rw [List.length_append, List.length_singleton] at hle
    omega
  obtain ⟨s', hcourse, hend⟩ := h.mudmInitEnd hlen
  unfold FailsClean
  rw [heq, hend]
  constructor
  · rintro ⟨rc, s'', hs, hzero, hfreed⟩
    by_cases hr : refuses .connections = true
    · rw [if_pos hr] at hs
      cases Option.some.inj hs
      have hne : s'.refused ≠ [] := fun hnil => by
        have hnot := hcourse.refused_iff.mp hnil .connections (by simp)
        simp [hr] at hnot
      exact absurd (hfreed hne) (hcourse.not_freedOnce (by simp [hcontext]) hc)
    · rw [if_neg hr] at hs
      split at hs
      next =>
        cases Option.some.inj hs
        have hgiven := hcourse.refused_iff.mp (hzero rfl)
        intro r
        rcases hwhole with hwhole | ⟨r', hr', href⟩
        · exact hgiven r (hwhole ▸ mem_initRegions r)
        · have hnot := hgiven r' (List.mem_append_left _ hr')
          simp [href] at hnot
      next => cases hs
  · intro hgiven
    have hmem : ∀ k, ⟨n, .controls .full k⟩ ∈ s'.granted ∧ ⟨n, .controls .small k⟩ ∈ s'.granted :=
      fun k => ⟨hcourse.mem_granted.mpr ⟨List.mem_append_left _ (hcontrols .full k), hgiven _⟩,
        hcourse.mem_granted.mpr ⟨List.mem_append_left _ (hcontrols .small k), hgiven _⟩⟩
    rw [if_neg (by simp [hgiven]), if_pos hmem]
    have hnil := hcourse.refused_iff.mpr fun r _ => hgiven r
    exact ⟨0, s', rfl, fun _ => hnil, fun hne => absurd hnil hne⟩

/-- A failed allocation is handled where its status is looked at, and nowhere else. -/
theorem fails_clean_iff (info : InitInfo) (refuses : Region → Bool) (n : Nat) :
    FailsClean info refuses n ↔ (info.Accepted → RefusedWhereChecked refuses) := by
  by_cases ha : info.Accepted
  swap
  · exact iff_of_true (failsClean_of_rejected ha) fun h => absurd h ha
  rw [forall_prop_of_true ha]
  by_cases hc : refuses .context = true
  · refine iff_of_false (not_failsClean_of_context ha hc) fun h => ?_
    have hgiven := h.1
    simp [hc] at hgiven
  replace hc : refuses .context = false := by simpa using hc
  by_cases hr : ∃ k, refuses (.rdma k) = true
  · refine iff_of_false ?_ fun h => ?_
    · rintro ⟨rc, s, hs, -⟩
      rw [mudmInit_refused_rdma ha hc hr] at hs
      cases hs
    · obtain ⟨k, hk⟩ := hr
      have hgiven := h.2.1 k
      simp [hk] at hgiven
  replace hr : ∀ k, refuses (.rdma k) = false := by simpa using hr
  rcases mudmInit_runs (n := n) ha refuses hc hr with
    ⟨hchecked, s, hs, hfreed⟩ | ⟨hchecked, s, l, hcourse, hcontext, hcontrols, hsub, hwhole, heq⟩
  · refine iff_of_true ?_ ⟨hc, hr, Or.inl hchecked⟩
    exact ⟨_, s, hs, fun hzero => absurd hzero (by decide), fun _ => hfreed⟩
  · rw [hcourse.failsClean_iff hc hcontext hcontrols hsub hwhole heq]
    exact ⟨fun hall => ⟨hc, hr, Or.inr hall⟩, fun h => h.2.2.resolve_left hchecked⟩

/-- The version of the data mover and all callbacks. -/
def driverInfo : InitInfo := ⟨mudmVersion, true, true, true, true, true⟩

/-- What `mudm_init` returns when this region is refused, with the number of regions it has got by then and
those it has freed. -/
def initWithout (r : Region) : Option (Int × Nat × List MemRegion) :=
  (mudmInit driverInfo (fun r' => r' = r) 0 ⟨[], false, [], [], []⟩).map fun (rc, s) =>
    (rc, s.granted.length, s.freed)

/-- A context that was not given is freed. Without an RDMA region, and without the controls of the packets,
there is an access to the null page. Without packets `mudm_init` returns 0, and without connections it
frees nothing of what it has got. -/
theorem init_mishandles_failures :
    initWithout .context = some (-ENOMEM, 0, [⟨0, .context⟩]) ∧
      initWithout (.rdma 0) = none ∧ initWithout (.controls .small 1) = none ∧
      initWithout (.packets .full 0) = some (0, 20, []) ∧
      initWithout .connections = some (-ENOMEM, 21, []) ∧
      ¬ FailsClean driverInfo (fun r => r = .packets .full 0) 0 := by
  refine ⟨by decide, by decide, by decide, by decide, by decide, ?_⟩
  rintro ⟨rc, s, hs, hzero, -⟩
  have hrefused : s.refused = [] := by
    refine hzero ?_
    have hrc : (mudmInit driverInfo (fun r => r = .packets .full 0) 0 ⟨[], false, [], [], []⟩).map
      Prod.fst = some 0 := by decide
    rw [hs] at hrc
    exact Option.some.inj hrc
  have hlist : (mudmInit driverInfo (fun r => r = .packets .full 0) 0 ⟨[], false, [], [], []⟩).map
      (fun o => o.2.refused) = some [⟨0, .packets .full 0⟩] := by decide
  rw [hs] at hlist
  rw [Option.map_some, hrefused] at hlist
  cases hlist

end BgqVrnic
