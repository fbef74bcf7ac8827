import BgqVrnic.WorkRequests
import BgqVrnic.XlateExact

namespace BgqVrnic

/-- `sg_dma_address` and `sg_dma_len` of a mapped stretch of pages. -/
structure DmaEntry where
  address : Nat
  length : Nat
  deriving DecidableEq, Repr

/-- `struct ib_umem` -/
structure IbUmem where
  pageSize : Nat
  offset : Nat
  chunkList : List (List DmaEntry)
  deriving DecidableEq, Repr

namespace IbUmem

def entries (umem : IbUmem) : List DmaEntry := umem.chunkList.flatten

/-- The pages of an entry: its length shifted by `ilog2(page_size)`. -/
def pages (umem : IbUmem) (entry : DmaEntry) : Nat := entry.length >>> umem.pageSize.log2

/-- `ib_umem_page_count` -/
def pageCount (umem : IbUmem) : Nat := (umem.entries.map umem.pages).sum

end IbUmem

/-- `MUDM_MAX_SGL_LENGTH` -/
def mudmMaxSglLength : Nat := 2 ^ 28

/-- What the loops of `bgvrnic_reg_user_mr` work on; the SGEs stand with the latest first. -/
structure SgeMap where
  sge : List MudmSgl
  bytesToMap : Nat
  deriving DecidableEq, Repr

namespace SgeMap

/-- The body of the loops from the truncation on. An SGE has 36 bits for its address and 28 for its
length; sums of the two are taken with 36 bits, and sums of lengths with 32. -/
def put (address pLen : Nat) (s : SgeMap) : SgeMap :=
  let pLen := min pLen s.bytesToMap
  let fresh : SgeMap := ⟨⟨address % 2 ^ 36, pLen % 2 ^ 28⟩ :: s.sge, s.bytesToMap - pLen⟩
  match s.sge with
  | [] => fresh
  | last :: sge =>
    if (last.physicalAddr + last.memlength) % 2 ^ 36 ≠ address ∨
        mudmMaxSglLength ≤ (last.memlength + pLen) % 2 ^ 32 then fresh
    else
      ⟨⟨last.physicalAddr, (last.memlength + pLen) % 2 ^ 28⟩ :: sge, s.bytesToMap - pLen⟩

/-- The body of the loops at page `k` of an entry. -/
def mapPage (umem : IbUmem) (entry : DmaEntry) (s : SgeMap) (k : Nat) : SgeMap :=
  let address := (entry.address + umem.pageSize * k % 2 ^ 32) % 2 ^ 64
  let pLen := entry.length
  if s.sge = [] then
    s.put ((address + umem.offset) % 2 ^ 64) ((pLen + 2 ^ 32 - umem.offset) % 2 ^ 32)
  else s.put address pLen

def mapEntry (umem : IbUmem) (s : SgeMap) (entry : DmaEntry) : SgeMap :=
  (List.range (umem.pages entry)).foldl (mapPage umem entry) s

end SgeMap

/-- The loops over the chunks, their entries and the pages of these; the length is kept as a `u32`. -/
def IbUmem.mapped (umem : IbUmem) (length : Nat) : SgeMap :=
  umem.chunkList.foldl (fun s chunk => chunk.foldl (SgeMap.mapEntry umem) s) ⟨[], length % 2 ^ 32⟩

/-- The answers that `bgvrnic_reg_user_mr` gets: the pinned memory, whether there is memory for the region,
what `bgvrnic_alloc_lkey` returns, and whether there is memory for the SGEs and for the shorter copy. -/
structure RegAnswers where
  umem : Except Int IbUmem
  mrAlloc : Bool
  lkeyRc : Int
  sgeAlloc : Bool
  newSge : Bool

def bgvrnicRegUserMr (env : RegAnswers) (start length : Nat) : Except Int MemoryRegion :=
  if length = 0 then .error (-EINVAL)
  else
    match env.umem with
    | .error rc => .error rc
    | .ok umem =>
      if env.mrAlloc = false then .error (-ENOMEM)
      else if env.lkeyRc ≠ 0 then .error (-EINVAL)
      else if env.sgeAlloc = false then .error (-ENOMEM)
      else
        let sge := (umem.mapped length).sge.reverse
        if sge.length < umem.pageCount ∧ env.newSge = false then .error (-ENOMEM)
        else .ok ⟨start, length, sge⟩

/-- What `ib_umem_get` hands over: an offset into the first page, and mapped stretches of whole pages that
fit the types of their fields. -/
structure IbUmem.Pinned (umem : IbUmem) : Prop where
  pageSize : ∃ shift < 31, umem.pageSize = 2 ^ shift
  offset : umem.offset < umem.pageSize
  whole : ∀ e ∈ umem.entries, ∃ pages, 0 < pages ∧ e.length = pages * umem.pageSize
  wide : ∀ e ∈ umem.entries, e.length < 2 ^ 32 ∧ e.address + e.length ≤ 2 ^ 64

/-- The memory of an entry, and what the loops map at its pages behind the first one: each time as many
bytes as the whole entry has. -/
structure Stretch where
  piece : DmaEntry
  again : List DmaEntry

def Stretch.visits (t : Stretch) : List DmaEntry := t.piece :: t.again

namespace IbUmem

variable (umem : IbUmem)

def again (e : DmaEntry) : List DmaEntry :=
  (List.range' 1 (umem.pages e - 1)).map fun k => ⟨e.address + umem.pageSize * k, e.length⟩

/-- The stretches of the memory to be registered, the first one from the offset on. -/
def stretches : List Stretch :=
  match umem.entries with
  | [] => []
  | e :: es =>
    ⟨⟨e.address + umem.offset, e.length - umem.offset⟩, umem.again e⟩ ::
      es.map fun e => ⟨e, umem.again e⟩

end IbUmem

namespace SgeMap

def run (s : SgeMap) (vs : List DmaEntry) : SgeMap := vs.foldl (fun s v => s.put v.address v.length) s

end SgeMap

variable {umem : IbUmem} {e : DmaEntry} {s s' : SgeMap} {vs vs' : List DmaEntry} {a n k length : Nat}

namespace IbUmem.Pinned

theorem pages (h : umem.Pinned) (he : e ∈ umem.entries) :
    0 < umem.pages e ∧ e.length = umem.pages e * umem.pageSize := by
  obtain ⟨shift, -, hsize⟩ := h.pageSize
  obtain ⟨pages, hpos, hlen⟩ := h.whole e he
  have hpages : umem.pages e = pages := by
    unfold IbUmem.pages
    rw [hsize, Nat.log2_two_pow, Nat.shiftRight_eq_div_pow, hlen, hsize]
    exact Nat.mul_div_cancel _ (Nat.two_pow_pos shift)
  rw [hpages]
  exact ⟨hpos, hlen⟩

theorem size_pos (h : umem.Pinned) : 0 < umem.pageSize := by
  obtain ⟨shift, -, hsize⟩ := h.pageSize
  exact hsize ▸ Nat.two_pow_pos shift

/-- The address of a page is computed without a carry. -/
theorem address (h : umem.Pinned) (he : e ∈ umem.entries) (hk : k < umem.pages e) :
    (e.address + umem.pageSize * k % 2 ^ 32) % 2 ^ 64 = e.address + umem.pageSize * k := by
  obtain ⟨-, hlen⟩ := h.pages he
  obtain ⟨hwide, hend⟩ := h.wide e he
  have hin : umem.pageSize * k + umem.pageSize ≤ e.length := by
    rw [hlen, Nat.mul_comm (umem.pages e)]
    exact Nat.mul_le_mul_left umem.pageSize hk
  have hpos := h.size_pos
  rw [Nat.mod_eq_of_lt (by omega : umem.pageSize * k < 2 ^ 32), Nat.mod_eq_of_lt (by omega)]

end IbUmem.Pinned

namespace SgeMap

theorem put_ne_nil (a n : Nat) (s : SgeMap) : (s.put a n).sge ≠ [] := by
  unfold put
  dsimp only
  split
  · nofun
  · split <;> nofun

theorem run_append : s.run (vs ++ vs') = (s.run vs).run vs' := List.foldl_append

theorem run_ne_nil (h : s.sge ≠ []) : (s.run vs).sge ≠ [] := by
  induction vs generalizing s with
  | nil => exact h
  | cons v vs ih => exact ih (put_ne_nil _ _ _)

theorem run_cons_ne_nil (s : SgeMap) (v : DmaEntry) (vs : List DmaEntry) : (s.run (v :: vs)).sge ≠ [] := by
  show ((s.put v.address v.length).run vs).sge ≠ []
  exact run_ne_nil (put_ne_nil v.address v.length s)

/-- Pages behind the first mapping are taken as they are. -/
theorem foldl_mapPage (hp : umem.Pinned) (he : e ∈ umem.entries) (hs : s.sge ≠ []) {ks : List Nat}
    (hks : ∀ k ∈ ks, k < umem.pages e) :
    ks.foldl (mapPage umem e) s =
      s.run (ks.map fun k => ⟨e.address + umem.pageSize * k, e.length⟩) := by
  induction ks generalizing s with
  | nil => rfl
  | cons k ks ih =>
    have hone : mapPage umem e s k = s.put (e.address + umem.pageSize * k) e.length := by
      unfold mapPage
      dsimp only
      rw [if_neg hs, hp.address he (hks k List.mem_cons_self)]
    rw [List.foldl_cons, hone]
    exact ih (put_ne_nil _ _ _) fun k hk => hks k (List.mem_cons_of_mem _ hk)

theorem range_pages (h : 0 < n) : List.range n = 0 :: List.range' 1 (n - 1) := by
  obtain ⟨m, rfl⟩ := Nat.exists_eq_succ_of_ne_zero (Nat.ne_of_gt h)
  rw [List.range_eq_range', List.range'_succ, Nat.succ_sub_one]

theorem again_pages (h : k ∈ List.range' 1 (n - 1)) : k < n := by
  have hk := List.mem_range'_1.mp h
  omega

theorem mapEntry_eq (hp : umem.Pinned) (he : e ∈ umem.entries) (hs : s.sge ≠ []) :
    s.mapEntry umem e = s.run (Stretch.visits ⟨e, umem.again e⟩) := by
  have hpages : ∀ k ∈ List.range (umem.pages e), k < umem.pages e := fun k => List.mem_range.mp
  unfold mapEntry
  rw [foldl_mapPage hp he hs hpages, range_pages (hp.pages he).1]
  rfl

/-- The first mapping starts at the offset. -/
theorem mapEntry_first (hp : umem.Pinned) (he : e ∈ umem.entries) (hs : s.sge = []) :
    s.mapEntry umem e = s.run (Stretch.visits
      ⟨⟨e.address + umem.offset, e.length - umem.offset⟩, umem.again e⟩) := by
  obtain ⟨hpages, hlen⟩ := hp.pages he
  obtain ⟨hwide, hend⟩ := hp.wide e he
  have hoff := hp.offset
  have hone : umem.pageSize ≤ e.length := by
    rw [hlen]
    exact Nat.le_mul_of_pos_left _ hpages
  have hfirst : mapPage umem e s 0 = s.put (e.address + umem.offset) (e.length - umem.offset) := by
    unfold mapPage
    dsimp only
    rw [if_pos hs, hp.address he hpages, Nat.mul_zero, Nat.add_zero]
    congr 1 <;> omega
  unfold mapEntry
  rw [range_pages hpages, List.foldl_cons, hfirst,
    foldl_mapPage hp he (put_ne_nil _ _ _) fun k => again_pages]
  rfl

theorem foldl_mapEntry (hp : umem.Pinned) {es : List DmaEntry} (hes : ∀ e ∈ es, e ∈ umem.entries)
    (hs : s.sge ≠ []) :
    es.foldl (mapEntry umem) s = s.run (es.flatMap fun e => Stretch.visits ⟨e, umem.again e⟩) := by
  induction es generalizing s with
  | nil => rfl
  | cons e es ih =>
    rw [List.foldl_cons, mapEntry_eq hp (hes e List.mem_cons_self) hs, List.flatMap_cons, run_append]
    exact ih (fun e he => hes e (List.mem_cons_of_mem _ he)) (run_ne_nil hs)

end SgeMap

/-- The loops put one visit after the other. -/
theorem IbUmem.Pinned.mapped_eq (h : umem.Pinned) (length : Nat) :
    umem.mapped length =
      SgeMap.run ⟨[], length % 2 ^ 32⟩ (umem.stretches.flatMap Stretch.visits) := by
  have hflat : umem.mapped length =
      umem.entries.foldl (SgeMap.mapEntry umem) ⟨[], length % 2 ^ 32⟩ := by
    unfold IbUmem.mapped IbUmem.entries
    rw [List.foldl_flatten]
  rw [hflat]
  unfold IbUmem.stretches
  cases hes : umem.entries with
  | nil => rfl
  | cons e es =>
    have hmem : ∀ e' ∈ e :: es, e' ∈ umem.entries := fun e' he => hes ▸ he
    dsimp only
    rw [List.foldl_cons, SgeMap.mapEntry_first h (hmem e List.mem_cons_self) rfl, List.flatMap_cons,
      SgeMap.run_append, List.flatMap_map]
    exact SgeMap.foldl_mapEntry h (fun e' he => hmem e' (List.mem_cons_of_mem _ he))
      (SgeMap.run_cons_ne_nil _ _ _)

end BgqVrnic
