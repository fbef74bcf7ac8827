import Mathlib.Data.List.Pairwise
import BgqVrnic.Alignment
import BgqVrnic.Chain

namespace BgqVrnic.RdmaSections

open Alignment Intrusive

/-- `sizeof (struct mu_element)` -/
def muElementSize : Nat := 16

/-- `sizeof (struct mudm_rdma_object)` -/
def rdmaObjectSize : Nat := 64

/-- `compute_rdma_section_size`: the size of a section, and the number of elements. -/
def computeRdmaSectionSize (maxConnections numIoLinks : Nat) : Nat × Nat :=
  let objectsPerConnection := if 1 < numIoLinks then 2 else 4
  let numMuElements := objectsPerConnection * maxConnections % 2 ^ 32
  let numMuElements := if numMuElements < 128 then 128 else numMuElements
  let compareAreaSize := grow (numMuElements * muElementSize) 53 2048
  (compareAreaSize,
    if compareAreaSize = numMuElements * muElementSize then numMuElements - 1 else numMuElements)

/-- What the allocator gives for a link; a physical address has 64 bits. -/
structure RdmaAllocation where
  baseVaddr : Nat
  basePaddr : Nat
  paddr_lt : basePaddr < 2 ^ 64
  deriving DecidableEq, Repr

/-- What `rdma_obj_init` writes to an element of `rdma_obj_list`. -/
structure RdmaObject where
  next : Option Nat
  rdmaObjectPa : Nat
  mue : Nat
  deriving DecidableEq, Repr

/-- What `rdma_init` sets up for a link: the region with the bytes that were asked for, `memblock`,
`compare_area`, and `rdma_obj_ctls` with its fields. `offset` is `compare_block_offset`. -/
structure RdmaLink where
  region : RdmaAllocation
  bytes : Nat
  paStart : Nat
  mask : Nat
  offset : Nat
  compareArea : Nat
  ctls : Nat
  objList : Nat
  numObj : Nat
  baseVa : Nat
  basePa : Nat
  bcastControls : Nat
  bcastControlsOffset : Nat
  compareAreaSize : Nat
  deriving DecidableEq, Repr

/-- `rdma_obj_init`: the `i`th object. The loop links each to the next, and the last one is linked to none
behind it. -/
def RdmaLink.object (l : RdmaLink) (i : Nat) : RdmaObject :=
  { next := if i = l.numObj - 1 then none else some (i + 1)
    rdmaObjectPa := (l.basePa + i * muElementSize) % 2 ^ 64
    mue := l.baseVa + i * muElementSize }

/-- A turn of the loop of `rdma_init`, with the number of elements and `compare_block_offset` as the turn
before has left them. `ctlsBytes` is the size of `struct rdma_obj_controls`. -/
def rdmaInitLink (ctlsBytes rss numMuElements offset : Nat) (region : RdmaAllocation) : RdmaLink :=
  let lowbitMask := rss - 1
  let mask := lowbitMask ^^^ (2 ^ 64 - 1)
  let unaligned := region.basePaddr &&& lowbitMask ≠ 0
  let paStart := if unaligned then (region.basePaddr + rss) % 2 ^ 64 &&& mask else region.basePaddr
  let offset := if unaligned then (paStart + 2 ^ 64 - region.basePaddr) % 2 ^ 64 else offset
  let compareArea := region.baseVaddr + offset
  let ctls := compareArea + rss
  let numObj := (numMuElements + (2 ^ 64 - 1)) % 2 ^ 64
  { region := region
    bytes := rss * 2 + ctlsBytes + numMuElements * rdmaObjectSize
    paStart := paStart
    mask := mask
    offset := offset
    compareArea := compareArea
    ctls := ctls
    objList := ctls + ctlsBytes
    numObj := numObj
    baseVa := compareArea
    basePa := paStart
    bcastControls := compareArea + numObj * muElementSize
    bcastControlsOffset := numObj * muElementSize
    compareAreaSize := rss }

def rdmaInitLinks (ctlsBytes rss : Nat) : Nat → Nat → List RdmaAllocation → List RdmaLink
  | _, _, [] => []
  | numMuElements, offset, region :: regions =>
    let l := rdmaInitLink ctlsBytes rss numMuElements offset region
    l :: rdmaInitLinks ctlsBytes rss l.numObj l.offset regions

/-- `rdma_init` with what the allocator gives for each link -/
def rdmaInit (ctlsBytes maxConnections : Nat) (regions : List RdmaAllocation) : List RdmaLink :=
  let (rss, numMuElements) := computeRdmaSectionSize maxConnections regions.length
  rdmaInitLinks ctlsBytes rss numMuElements 0 regions

/-- Virtual address `va` and physical address `pa` are the same place of an allocation. -/
def RdmaAllocation.SamePlace (r : RdmaAllocation) (va pa : Nat) : Prop :=
  r.baseVaddr ≤ va ∧ pa = (r.basePaddr + (va - r.baseVaddr)) % 2 ^ 64

/-- What a link needs for its counters to work. -/
structure LinkSound (ctlsBytes rss : Nat) (l : RdmaLink) : Prop where
  size : ∃ k, rss = 2 ^ k
  aligned : l.paStart % rss = 0
  place : l.region.SamePlace l.compareArea l.paStart
  objects : ∀ i < l.numObj, l.region.SamePlace (l.object i).mue (l.object i).rdmaObjectPa
  distinct : ∀ i < l.numObj, (l.object i).mue ≠ l.bcastControls ∧
    ∀ j < l.numObj, i ≠ j → (l.object i).mue ≠ (l.object j).mue
  inside : ∀ i < l.numObj, l.compareArea ≤ (l.object i).mue ∧
    (l.object i).mue + muElementSize ≤ l.compareArea + rss
  bcast : l.compareArea ≤ l.bcastControls ∧ l.bcastControls + muElementSize ≤ l.compareArea + rss
  room : l.region.baseVaddr ≤ l.ctls ∧ l.ctls + ctlsBytes = l.objList ∧
    l.objList + l.numObj * rdmaObjectSize ≤ l.region.baseVaddr + l.bytes

variable {k n offset ctlsBytes rss maxConnections : Nat} {r : RdmaAllocation}
variable {regions : List RdmaAllocation} {l : RdmaLink}

theorem section_size (maxConnections numIoLinks : Nat) :
    ∃ k, k ≤ 64 ∧ (computeRdmaSectionSize maxConnections numIoLinks).1 = 2 ^ k ∧
      ((computeRdmaSectionSize maxConnections numIoLinks).2 + 1) * muElementSize ≤ 2 ^ k := by
  unfold computeRdmaSectionSize
  dsimp only
  generalize hper : (if 1 < numIoLinks then 2 else 4) * maxConnections % 2 ^ 32 = per
  have hlt : per < 2 ^ 32 := by
    rw [← hper]
    exact Nat.mod_lt _ (by decide)
  generalize hn : (if per < 128 then 128 else per) = n
  have hle : n * muElementSize ≤ 2 ^ (11 + 53) := by
    unfold muElementSize
    split at hn <;> omega
  obtain ⟨j, hj, hj', hgrow, hroom⟩ := grow_pow hle
  have hstart : 2048 = 2 ^ 11 := rfl
  rw [hstart, hgrow]
  refine ⟨j, hj', rfl, ?_⟩
  have hsixteen : 2 ^ j = 16 * 2 ^ (j - 4) := by
    have hsplit : j = 4 + (j - 4) := by omega
    calc 2 ^ j = 2 ^ (4 + (j - 4)) := congrArg (2 ^ ·) hsplit
      _ = 2 ^ 4 * 2 ^ (j - 4) := Nat.pow_add ..
  have helem : muElementSize = 16 := rfl
  rw [helem] at hroom ⊢
  generalize 2 ^ j = area at *
  split
  next heq =>
    have hpos : 1 ≤ n := by
      rw [← hn]
      split <;> omega
    omega
  next hne => omega

/-- The allocation for a link starts where a section can start. -/
def RdmaAllocation.Aligned (rss : Nat) (r : RdmaAllocation) : Prop := r.basePaddr % rss = 0

instance (rss : Nat) (r : RdmaAllocation) : Decidable (r.Aligned rss) :=
  inferInstanceAs (Decidable (_ = _))

section Link

variable (C : Nat) (hk : k ≤ 64)

theorem initLink_aligned (offset : Nat) (ha : r.Aligned (2 ^ k)) :
    (rdmaInitLink C (2 ^ k) n offset r).paStart = r.basePaddr ∧
      (rdmaInitLink C (2 ^ k) n offset r).offset = offset := by
  have hlow : r.basePaddr &&& (2 ^ k - 1) = 0 := by
    rw [Nat.and_two_pow_sub_one_eq_mod]
    exact ha
  unfold rdmaInitLink
  simp only [hlow]
  exact ⟨rfl, rfl⟩

include hk

theorem initLink_unaligned (offset : Nat) (ha : ¬ r.Aligned (2 ^ k)) :
    (rdmaInitLink C (2 ^ k) n offset r).paStart = next 64 k r.basePaddr ∧
      (rdmaInitLink C (2 ^ k) n offset r).offset = 2 ^ k - r.basePaddr % 2 ^ k := by
  have hlow : r.basePaddr &&& (2 ^ k - 1) ≠ 0 := by
    rw [Nat.and_two_pow_sub_one_eq_mod]
    exact ha
  have hpa : (r.basePaddr + 2 ^ k) % 2 ^ 64 &&& ((2 ^ k - 1) ^^^ (2 ^ 64 - 1)) =
      next 64 k r.basePaddr := and_high_mask (Nat.mod_lt _ (by decide)) hk
  have hgap := next_gap r.paddr_lt hk ha
  constructor
  · show (if _ then _ else _) = _
    rw [if_pos hlow, hpa]
  · show (if _ then (_ + 2 ^ 64 - r.basePaddr) % 2 ^ 64 else _) = _
    rw [if_pos hlow, if_pos hlow, hpa, hgap]

/-- The offset that a turn leaves behind. -/
theorem initLink_offset_lt (hoff : offset < 2 ^ k) :
    (rdmaInitLink C (2 ^ k) n offset r).offset < 2 ^ k := by
  by_cases ha : r.Aligned (2 ^ k)
  · rw [(initLink_aligned C _ ha).2]
    exact hoff
  · rw [(initLink_unaligned C hk _ ha).2]
    unfold RdmaAllocation.Aligned at ha
    omega

/-- The two offsets agree, except that of an aligned allocation with one from an earlier turn. -/
theorem initLink_place_iff (hoff : offset < 2 ^ k) :
    r.SamePlace (rdmaInitLink C (2 ^ k) n offset r).compareArea
        (rdmaInitLink C (2 ^ k) n offset r).paStart ↔ (r.Aligned (2 ^ k) → offset = 0) := by
  have hlt := r.paddr_lt
  have hpow : 2 ^ k ≤ 2 ^ 64 := Nat.pow_le_pow_right (by decide) hk
  have harea : (rdmaInitLink C (2 ^ k) n offset r).compareArea =
      r.baseVaddr + (rdmaInitLink C (2 ^ k) n offset r).offset := rfl
  unfold RdmaAllocation.SamePlace
  rw [harea, Nat.add_sub_cancel_left]
  by_cases ha : r.Aligned (2 ^ k)
  · obtain ⟨hpa, ho⟩ := initLink_aligned C offset ha (n := n)
    rw [hpa, ho]
    constructor
    · rintro ⟨-, hsame⟩ -
      omega
    · intro hz
      rw [hz ha]
      omega
  · obtain ⟨hpa, ho⟩ := initLink_unaligned C hk offset ha (n := n)
    refine iff_of_true ⟨by omega, ?_⟩ fun h => absurd h ha
    rw [hpa, ho, ← next_gap r.paddr_lt hk ha]
    have hnext : next 64 k r.basePaddr < 2 ^ 64 := by
      have hmod : (r.basePaddr + 2 ^ k) % 2 ^ 64 < 2 ^ 64 := Nat.mod_lt _ (by decide)
      unfold next
      omega
    rw [Nat.add_mod_mod]
    have hsum : r.basePaddr + (next 64 k r.basePaddr + 2 ^ 64 - r.basePaddr) =
        next 64 k r.basePaddr + 2 ^ 64 := by omega
    rw [hsum, Nat.add_mod_right, Nat.mod_eq_of_lt hnext]

/-- A link is sound exactly if there was an element left for it and its offset is its own. -/
theorem linkSound_iff (hoff : offset < 2 ^ k) (hn : (n + 1) * muElementSize ≤ 2 ^ k) :
    LinkSound C (2 ^ k) (rdmaInitLink C (2 ^ k) n offset r) ↔
      1 ≤ n ∧ (r.Aligned (2 ^ k) → offset = 0) := by
  have hpow : 2 ^ k ≤ 2 ^ 64 := Nat.pow_le_pow_right (by decide) hk
  have helem : muElementSize = 16 := rfl
  have hplace := initLink_place_iff C hk hoff (n := n) (r := r)
  have hlt := initLink_offset_lt C hk hoff (n := n) (r := r)
  have hnum : (rdmaInitLink C (2 ^ k) n offset r).numObj = (n + (2 ^ 64 - 1)) % 2 ^ 64 := rfl
  have hbcast : (rdmaInitLink C (2 ^ k) n offset r).bcastControls =
      (rdmaInitLink C (2 ^ k) n offset r).compareArea +
        (rdmaInitLink C (2 ^ k) n offset r).numObj * muElementSize := rfl
  rw [helem] at hn
  constructor
  · intro h
    refine ⟨?_, hplace.mp h.place⟩
    by_contra hzero
    have hz : n = 0 := by omega
    have hend := h.bcast.2
    rw [hbcast, hnum, hz, helem] at hend
    omega
  · rintro ⟨hpos, hown⟩
    have hsame := hplace.mpr hown
    have hobj : (rdmaInitLink C (2 ^ k) n offset r).numObj = n - 1 := by
      rw [hnum]
      omega
    refine ⟨⟨k, rfl⟩, ?_, hsame, fun i _ => ?_, fun i hi => ⟨?_, fun j _ hij => ?_⟩, fun i hi => ?_,
      ?_, ?_⟩
    · by_cases ha : r.Aligned (2 ^ k)
      · rw [(initLink_aligned C _ ha).1]
        exact ha
      · rw [(initLink_unaligned C hk _ ha).1]
        exact next_aligned
    · obtain ⟨hva, hpa⟩ := hsame
      have hsum : (rdmaInitLink C (2 ^ k) n offset r).compareArea + i * muElementSize - r.baseVaddr =
          (rdmaInitLink C (2 ^ k) n offset r).compareArea - r.baseVaddr + i * muElementSize := by omega
      refine ⟨Nat.le_trans hva (Nat.le_add_right ..), ?_⟩
      show ((rdmaInitLink C (2 ^ k) n offset r).paStart + i * muElementSize) % 2 ^ 64 =
        (r.basePaddr + ((rdmaInitLink C (2 ^ k) n offset r).compareArea + i * muElementSize -
          r.baseVaddr)) % 2 ^ 64
      rw [hpa, hsum, Nat.mod_add_mod, Nat.add_assoc]
    · show (rdmaInitLink C (2 ^ k) n offset r).compareArea + i * muElementSize ≠ _
      rw [hbcast, helem]
      omega
    · show (rdmaInitLink C (2 ^ k) n offset r).compareArea + i * muElementSize ≠
        (rdmaInitLink C (2 ^ k) n offset r).compareArea + j * muElementSize
      rw [helem]
      omega
    · show (rdmaInitLink C (2 ^ k) n offset r).compareArea ≤
          (rdmaInitLink C (2 ^ k) n offset r).compareArea + i * muElementSize ∧
        (rdmaInitLink C (2 ^ k) n offset r).compareArea + i * muElementSize + muElementSize ≤ _
      rw [helem]
      omega
    · rw [hbcast, hobj, helem]
      omega
    · have harea : (rdmaInitLink C (2 ^ k) n offset r).compareArea =
          r.baseVaddr + (rdmaInitLink C (2 ^ k) n offset r).offset := rfl
      have hctls : (rdmaInitLink C (2 ^ k) n offset r).ctls =
          (rdmaInitLink C (2 ^ k) n offset r).compareArea + 2 ^ k := rfl
      have hlist : (rdmaInitLink C (2 ^ k) n offset r).objList =
          (rdmaInitLink C (2 ^ k) n offset r).ctls + C := rfl
      have hbytes : (rdmaInitLink C (2 ^ k) n offset r).bytes =
          2 ^ k * 2 + C + n * rdmaObjectSize := rfl
      have hsize : rdmaObjectSize = 64 := rfl
      have hregion : (rdmaInitLink C (2 ^ k) n offset r).region = r := rfl
      rw [hregion, hlist, hbytes, hobj, hctls, harea, hsize]
      omega

end Link

/-- There is an element for each link, and no link that starts aligned comes after one that does not. -/
def LinksAligned (rss n : Nat) (regions : List RdmaAllocation) : Prop :=
  regions.length ≤ n ∧ regions.Pairwise fun a b => b.Aligned rss → a.Aligned rss

/-- The links of a loop that goes on with an offset from the turns before. -/
theorem initLinks_sound_iff (C : Nat) (hk : k ≤ 64) (hoff : offset < 2 ^ k)
    (hn : (n + 1) * muElementSize ≤ 2 ^ k) :
    (∀ l ∈ rdmaInitLinks C (2 ^ k) n offset regions, LinkSound C (2 ^ k) l) ↔
      LinksAligned (2 ^ k) n regions ∧ (offset ≠ 0 → ∀ r ∈ regions, ¬ r.Aligned (2 ^ k)) := by
  induction regions generalizing n offset with
  | nil => simp [rdmaInitLinks, LinksAligned]
  | cons r regions ih =>
    rw [rdmaInitLinks, List.forall_mem_cons, linkSound_iff C hk hoff hn]
    by_cases hpos : 1 ≤ n
    · have hlt : n < 2 ^ 64 := by
        have hpow : 2 ^ k ≤ 2 ^ 64 := Nat.pow_le_pow_right (by decide) hk
        unfold muElementSize at hn
        omega
      have hobj : (rdmaInitLink C (2 ^ k) n offset r).numObj = n - 1 := by
        show (n + (2 ^ 64 - 1)) % 2 ^ 64 = n - 1
        omega
      have hn' : (n - 1 + 1) * muElementSize ≤ 2 ^ k :=
        Nat.le_trans (Nat.mul_le_mul_right _ (by omega)) hn
      rw [hobj, ih (initLink_offset_lt C hk hoff) hn']
      unfold LinksAligned
      rw [List.length_cons, List.pairwise_cons, List.forall_mem_cons]
      have hlen : regions.length ≤ n - 1 ↔ regions.length + 1 ≤ n := by omega
      rw [hlen]
      by_cases ha : r.Aligned (2 ^ k)
      · rw [(initLink_aligned C _ ha).2]
        constructor
        · rintro ⟨⟨-, hz⟩, ⟨hroom, hpairs⟩, -⟩
          exact ⟨⟨hroom, fun _ _ _ => ha, hpairs⟩, fun hoff => absurd (hz ha) hoff⟩
        · rintro ⟨⟨hroom, -, hpairs⟩, hold⟩
          have hz : offset = 0 := by
            by_contra hoff
            exact (hold hoff).1 ha
          exact ⟨⟨hpos, fun _ => hz⟩, ⟨hroom, hpairs⟩, fun hoff => absurd hz hoff⟩
      · rw [(initLink_unaligned C hk _ ha).2]
        have hne : 2 ^ k - r.basePaddr % 2 ^ k ≠ 0 := by
          have hmod := Nat.mod_lt r.basePaddr (Nat.two_pow_pos k)
          omega
        constructor
        · rintro ⟨-, ⟨hroom, hpairs⟩, hlater⟩
          have hnone := hlater hne
          exact ⟨⟨hroom, fun b hb hba => absurd hba (hnone b hb), hpairs⟩, fun _ => ⟨ha, hnone⟩⟩
        · rintro ⟨⟨hroom, hfirst, hpairs⟩, -⟩
          have hnone : ∀ b ∈ regions, ¬ b.Aligned (2 ^ k) := fun b hb hba => ha (hfirst b hb hba)
          exact ⟨⟨hpos, fun h => absurd h ha⟩, ⟨hroom, hpairs⟩, fun _ => hnone⟩
    · refine iff_of_false (fun h => hpos h.1.1) fun h => ?_
      have hlen := h.1.1
      rw [List.length_cons] at hlen
      omega

/-- The memory of the links is laid out as it should be exactly if there is an element for each link and no
aligned allocation comes after one that is not. -/
theorem rdmaInit_sound_iff (ctlsBytes maxConnections : Nat) (regions : List RdmaAllocation) :
    (∀ l ∈ rdmaInit ctlsBytes maxConnections regions,
        LinkSound ctlsBytes (computeRdmaSectionSize maxConnections regions.length).1 l) ↔
      LinksAligned (computeRdmaSectionSize maxConnections regions.length).1
        (computeRdmaSectionSize maxConnections regions.length).2 regions := by
  obtain ⟨k, hk, hsize, hroom⟩ := section_size maxConnections regions.length
  have hall : rdmaInit ctlsBytes maxConnections regions =
      rdmaInitLinks ctlsBytes (computeRdmaSectionSize maxConnections regions.length).1
        (computeRdmaSectionSize maxConnections regions.length).2 0 regions := rfl
  rw [hall, hsize, initLinks_sound_iff ctlsBytes hk (Nat.two_pow_pos k) hroom]
  simp

/-- A first link that does not start aligned, and a second one that does. -/
def unalignedThenAligned : List RdmaAllocation :=
  [⟨0x10000800, 0x800, by decide⟩, ⟨0x20000000, 0x100000, by decide⟩]

theorem second_link_misplaced :
    ¬ ∀ (ctlsBytes maxConnections : Nat) (regions : List RdmaAllocation),
      ∀ l ∈ rdmaInit ctlsBytes maxConnections regions,
        LinkSound ctlsBytes (computeRdmaSectionSize maxConnections regions.length).1 l := by
  intro h
  obtain ⟨l, hl, hva, hpa⟩ : ∃ l ∈ rdmaInit 184 128 unalignedThenAligned,
      l.compareArea = l.region.baseVaddr + 0x800 ∧ l.paStart = l.region.basePaddr := by
    refine ⟨_, List.mem_cons_of_mem _ List.mem_cons_self, ?_, ?_⟩
    · decide
    · decide
  have hplace := (h 184 128 unalignedThenAligned l hl).place.2
  have hlt := l.region.paddr_lt
  rw [hva, hpa] at hplace
  omega

end BgqVrnic.RdmaSections
