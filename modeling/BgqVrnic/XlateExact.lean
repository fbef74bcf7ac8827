import BgqVrnic.XlateOutcomes

namespace BgqVrnic

/-- The physical bytes that a list of pieces describes, in order. -/
def physBytes (es : List MudmSgl) : List Nat :=
  es.flatMap fun e => List.range' e.physicalAddr e.memlength

namespace IbSge

/-- The range lies inside the region that its key names. -/
def Inside (mrs : RegionTable) (u : IbSge) : Prop :=
  ∃ mr, mrs u.lkey = some mr ∧ mr.start ≤ u.addr ∧ u.addr + u.length ≤ mr.start + mr.length

/-- The pieces of its region that the range begins in and covers. -/
def slice (mrs : RegionTable) (u : IbSge) : List MudmSgl :=
  (mrs u.lkey).elim [] fun mr => regionSlice mr.sge (regionOffset mr u.addr) u.length

/-- The physical bytes of a range inside its region. -/
def physical (mrs : RegionTable) (u : IbSge) : List Nat :=
  (mrs u.lkey).elim [] fun mr =>
    ((physBytes mr.sge).drop (u.addr - mr.start)).take u.length

end IbSge

/-- How many pieces the ranges fall into. -/
def piecesNeeded (mrs : RegionTable) (us : List IbSge) : Nat :=
  (us.map fun u => (u.slice mrs).length).sum

def totalLength (us : List IbSge) : Nat := (us.map IbSge.length).sum

/-- The ranges lie inside their regions and need at most `n` pieces. -/
def Coverable (mrs : RegionTable) (n : Nat) (us : List IbSge) : Prop :=
  (∀ u ∈ us, u.Inside mrs) ∧ piecesNeeded mrs us ≤ n

/-- The output is the physical bytes of the ranges, as many as the return value says, and nothing is
written from index `n` on. -/
structure Xlation.Exact (mrs : RegionTable) (us : List IbSge) (base : Nat → MudmSgl) (n : Nat)
    (x : Xlation) : Prop where
  bytes : physBytes x.pieces = us.flatMap (IbSge.physical mrs)
  total : x.rc = totalBytes x.pieces
  room : x.numPsge ≤ n
  behind : ∀ i, n ≤ i → x.psge i = base i

/-- A list that can be translated is, and any other is refused. -/
structure XlateSound (mrs : RegionTable) (us : List IbSge) (base : Nat → MudmSgl) (n : Nat) :
    Prop where
  translates : Coverable mrs n us →
    ∃ x, bgvrnicXlateSgl mrs us base n = some x ∧ x.Exact mrs us base n
  refuses : ¬ Coverable mrs n us → ∃ x, bgvrnicXlateSgl mrs us base n = some x ∧ x.rc < 0

/-- A region's pieces make up its length. -/
def Registered (mrs : RegionTable) : Prop :=
  ∀ k mr, mrs k = some mr → totalBytes mr.sge = mr.length

/-- The inputs that `bgvrnic_xlate_sgl` has the right answer for: no range that it comes to starts
outside; a list that can be translated leaves an output slot unused and has a length that an `int`
holds; one that cannot does not get to its end, or gets there with a length that is negative as an
`int`. -/
structure XlateFits (mrs : RegionTable) (us : List IbSge) (n : Nat) : Prop where
  starts : StartsInside mrs n 0 us
  spare : Coverable mrs n us →
    (us = [] ∨ piecesNeeded mrs us < n) ∧ totalLength us < 2 ^ 31
  stopped : ¬ Coverable mrs n us → ∀ pieces, scatterSlices mrs us = some pieces →
    pieces.length < n → 2 ^ 31 ≤ totalLength us % 2 ^ 32

variable {mrs : RegionTable} {us : List IbSge} {u : IbSge} {base : Nat → MudmSgl} {x : Xlation}
  {es sge pieces : List MudmSgl} {n k off : Nat} {mr : MemoryRegion}

theorem length_physBytes (es : List MudmSgl) : (physBytes es).length = totalBytes es := by
  unfold physBytes totalBytes
  simp [List.length_flatMap]

theorem physBytes_cons (e : MudmSgl) (es : List MudmSgl) :
    physBytes (e :: es) = List.range' e.physicalAddr e.memlength ++ physBytes es :=
  List.flatMap_cons

theorem physBytes_append (es es' : List MudmSgl) :
    physBytes (es ++ es') = physBytes es ++ physBytes es' := List.flatMap_append

theorem physBytes_takeBytes (es : List MudmSgl) (n : Nat) :
    physBytes (takeBytes es n) = (physBytes es).take n := by
  induction es generalizing n with
  | nil => simp [takeBytes, physBytes]
  | cons e es ih =>
    have hlen : (List.range' e.physicalAddr e.memlength).length = e.memlength := List.length_range'
    rw [physBytes_cons, takeBytes]
    by_cases hn : n ≤ e.memlength
    · rw [if_pos hn, List.take_append_of_le_length (by rwa [hlen]), List.take_range'_of_length_ge hn]
      simp [physBytes]
    · rw [if_neg hn, List.take_append, hlen, List.take_of_length_le (by rw [hlen]; omega), ← ih,
        physBytes_cons]

/-- What `locate` drops are the bytes before the offset. -/
theorem physBytes_locate (sge : List MudmSgl) (off : Nat) :
    (physBytes (locate sge off).1).drop (locate sge off).2 = (physBytes sge).drop off := by
  induction sge generalizing off with
  | nil => simp [locate, physBytes]
  | cons e sge ih =>
    have hlen : (List.range' e.physicalAddr e.memlength).length = e.memlength := List.length_range'
    unfold locate
    by_cases hc : off ≠ 0 ∧ e.memlength ≤ off
    · have hgone : (List.range' e.physicalAddr e.memlength).drop off = [] :=
        List.drop_of_length_le (by rw [hlen]; exact hc.2)
      rw [if_pos hc, ih, physBytes_cons, List.drop_append, hgone, hlen, List.nil_append]
    · rw [if_neg hc]

/-- The slice of a region describes the bytes of the range. -/
theorem physBytes_regionSlice (sge : List MudmSgl) (off n : Nat) :
    physBytes (regionSlice sge off n) = ((physBytes sge).drop off).take n := by
  have hloc := physBytes_locate sge off
  unfold regionSlice
  split
  next off' he =>
    rw [he] at hloc
    rw [← hloc]
    simp [physBytes]
  next e es off' he =>
    rw [he] at hloc
    have hoff : off' ≤ e.memlength := by
      have := locate_offset he
      omega
    have hskip : physBytes (⟨e.physicalAddr + off', e.memlength - off'⟩ :: es) =
        (physBytes (e :: es)).drop off' := by
      have hlen : (List.range' e.physicalAddr e.memlength).length = e.memlength :=
        List.length_range'
      rw [physBytes_cons, physBytes_cons, List.drop_append_of_le_length (by rwa [hlen]),
        List.drop_range', Nat.mul_one]
    rw [physBytes_takeBytes, hskip, hloc]

theorem totalBytes_regionSlice (sge : List MudmSgl) (off n : Nat) :
    totalBytes (regionSlice sge off n) = min n (totalBytes sge - off) := by
  rw [← length_physBytes, physBytes_regionSlice, List.length_take, List.length_drop,
    length_physBytes]

theorem scatterSlices_length (h : scatterSlices mrs us = some pieces) :
    pieces.length = piecesNeeded mrs us := by
  induction us generalizing pieces with
  | nil =>
    cases Option.some.inj h
    rfl
  | cons u us ih =>
    obtain ⟨mr, hmr, h⟩ := Option.bind_eq_some_iff.mp h
    dsimp only at h
    split at h
    next => cases h
    next =>
      obtain ⟨rest, hrest, h⟩ := Option.bind_eq_some_iff.mp h
      cases Option.some.inj h
      have hslice : u.slice mrs = regionSlice mr.sge (regionOffset mr u.addr) u.length := by
        simp [IbSge.slice, hmr]
      rw [List.length_append, ih hrest]
      simp [piecesNeeded, hslice]

/-- As long as the output has room, ranges that start inside regions have slices. -/
theorem scatterSlices_of_starts (hkeys : ∀ u ∈ us, mrs u.lkey ≠ none) (hs : StartsInside mrs n k us)
    (hroom : k + piecesNeeded mrs us < n) :
    ∃ pieces, scatterSlices mrs us = some pieces := by
  induction us generalizing k with
  | nil => exact ⟨[], rfl⟩
  | cons u us ih =>
    cases hmr : mrs u.lkey with
    | none => exact absurd hmr (hkeys u (by simp))
    | some mr =>
      unfold StartsInside at hs
      simp only [hmr] at hs
      obtain ⟨hne, hrest⟩ := hs
      have hslice : u.slice mrs = regionSlice mr.sge (regionOffset mr u.addr) u.length := by
        simp [IbSge.slice, hmr]
      have hneed : piecesNeeded mrs (u :: us) =
          (regionSlice mr.sge (regionOffset mr u.addr) u.length).length + piecesNeeded mrs us := by
        simp [piecesNeeded, hslice]
      obtain ⟨rest, hr⟩ := ih (fun v hv => hkeys v (by simp [hv])) (hrest (by omega)) (by omega)
      exact ⟨regionSlice mr.sge (regionOffset mr u.addr) u.length ++ rest,
        by simp [scatterSlices, hmr, hne, hr]⟩

/-- Inside its region, a range has the bytes that its slice describes. -/
theorem IbSge.Inside.slice (hreg : Registered mrs) (hin : u.Inside mrs) (haddr : u.addr < 2 ^ 64) :
    physBytes (u.slice mrs) = u.physical mrs ∧ totalBytes (u.slice mrs) = u.length := by
  obtain ⟨mr, hmr, hlo, hhi⟩ := hin
  have hoff : regionOffset mr u.addr = u.addr - mr.start := by
    unfold regionOffset
    omega
  have hslice : u.slice mrs = regionSlice mr.sge (u.addr - mr.start) u.length := by
    simp [IbSge.slice, hmr, hoff]
  have htotal := hreg _ mr hmr
  rw [hslice, physBytes_regionSlice, totalBytes_regionSlice, htotal]
  exact ⟨by simp [IbSge.physical, hmr], by omega⟩

theorem scatterSlices_inside (hreg : Registered mrs) (hin : ∀ u ∈ us, u.Inside mrs)
    (haddr : ∀ u ∈ us, u.addr < 2 ^ 64) (h : scatterSlices mrs us = some pieces) :
    physBytes pieces = us.flatMap (IbSge.physical mrs) ∧ totalBytes pieces = totalLength us := by
  induction us generalizing pieces with
  | nil =>
    cases Option.some.inj h
    exact ⟨rfl, rfl⟩
  | cons u us ih =>
    obtain ⟨mr, hmr, h⟩ := Option.bind_eq_some_iff.mp h
    dsimp only at h
    split at h
    next => cases h
    next =>
      obtain ⟨rest, hrest, h⟩ := Option.bind_eq_some_iff.mp h
      cases Option.some.inj h
      have hslice : u.slice mrs = regionSlice mr.sge (regionOffset mr u.addr) u.length := by
        simp [IbSge.slice, hmr]
      obtain ⟨hbytes, hlen⟩ := (hin u (by simp)).slice hreg (haddr u (by simp))
      obtain ⟨hbytes', hlen'⟩ := ih (fun v hv => hin v (by simp [hv]))
        (fun v hv => haddr v (by simp [hv])) hrest
      rw [hslice] at hbytes hlen
      rw [physBytes_append, hbytes, hbytes']
      refine ⟨rfl, ?_⟩
      unfold totalBytes totalLength at *
      rw [List.map_append, List.sum_append, hlen, hlen', List.map_cons, List.sum_cons]

/-- A translation stops at a `BUG_ON`, or gets to the end of the list, or fails. -/
theorem xlate_cases (us : List IbSge) (base : Nat → MudmSgl) (n : Nat) (hp : Placed mrs) :
    (¬ StartsInside mrs n 0 us ∧ bgvrnicXlateSgl mrs us base n = none) ∨
    StartsInside mrs n 0 us ∧ ∃ x, bgvrnicXlateSgl mrs us base n = some x ∧
      ((∃ pieces, scatterSlices mrs us = some pieces ∧ (us = [] ∨ pieces.length < n) ∧
          x.Holds base pieces ∧ x.rc = toInt32 (totalLength us)) ∨
        x.rc < 0 ∧ us ≠ [] ∧ ∀ pieces, scatterSlices mrs us = some pieces → n ≤ pieces.length) := by
  have hstart : PieceArea.Holds ⟨base, 0⟩ base [] := ⟨rfl, by simp, fun i _ => rfl⟩
  cases us with
  | nil =>
    exact Or.inr ⟨trivial, ⟨0, base, 0⟩, rfl, Or.inl ⟨[], rfl, Or.inl rfl, hstart, rfl⟩⟩
  | cons u us =>
    by_cases hn : 0 < n
    · rcases xlateFrom_outcome (u :: us) 0 hp hstart hn with
        ⟨hout, hnone⟩ | ⟨hin, x, hx, -⟩
      · exact Or.inl ⟨hout, hnone⟩
      · refine Or.inr ⟨hin, x, hx, ?_⟩
        by_cases hfits : ∃ pieces, scatterSlices mrs (u :: us) = some pieces ∧ pieces.length < n
        · obtain ⟨pieces, hpieces, hlen⟩ := hfits
          obtain ⟨y, hy, hholds, hrc⟩ := xlateFrom_fits hp hstart hpieces
            (by rw [List.length_nil, Nat.zero_add]; exact hlen) (rfl : toInt32 0 = 0)
          cases Option.some.inj (hx.symm.trans hy)
          rw [Int.zero_add] at hrc
          exact Or.inl ⟨pieces, hpieces, Or.inr hlen, hholds, hrc⟩
        · refine Or.inr ⟨?_, by simp, fun pieces hpieces => ?_⟩
          · by_contra hrc
            obtain ⟨pieces, hpieces, hlen, -⟩ := xlateFrom_holds hp hstart hn hx (by omega)
            exact hfits ⟨pieces, hpieces, hlen⟩
          · by_contra hlen
            exact hfits ⟨pieces, hpieces, by omega⟩
    · -- without room for a single piece nothing but an unknown key or a `BUG_ON` comes first
      have hn : n = 0 := by omega
      subst hn
      unfold bgvrnicXlateSgl xlateFrom StartsInside
      cases hmr : mrs u.lkey with
      | none =>
        have hneg : -ENOMEM < 0 := by decide
        exact Or.inr ⟨trivial, _, rfl, Or.inr ⟨hneg, by simp, fun _ _ => Nat.zero_le _⟩⟩
      | some mr =>
        dsimp only
        by_cases hnil : regionSlice mr.sge (regionOffset mr u.addr) u.length = []
        · refine Or.inl ⟨fun h => h.1 hnil, ?_⟩
          rw [xlateSge_eq_none.mpr hnil]
          rfl
        · obtain ⟨a, ha⟩ := Option.ne_none_iff_exists'.mp fun h => hnil (xlateSge_eq_none.mp h)
          rw [ha]
          refine Or.inr ⟨⟨hnil, fun h => by omega⟩, ⟨-E2BIG, a.psge, 0⟩, by simp, ?_⟩
          have hneg : -E2BIG < 0 := by decide
          exact Or.inr ⟨hneg, by simp, fun _ _ => Nat.zero_le _⟩

theorem toInt32_of_lt {t : Nat} (h : t < 2 ^ 31) : toInt32 t = t := by
  have hge := toInt32_ge t
  have hlt := toInt32_lt t
  have hmod := toInt32_emod t
  omega

theorem toInt32_neg_iff (t : Nat) : toInt32 t < 0 ↔ 2 ^ 31 ≤ t % 2 ^ 32 := by
  have hge := toInt32_ge t
  have hlt := toInt32_lt t
  have hmod := toInt32_emod t
  omega

/-- What the translation writes before the end of the list is what the ranges describe. -/
theorem Xlation.Holds.exact (hreg : Registered mrs) (haddr : ∀ u ∈ us, u.addr < 2 ^ 64)
    (hin : ∀ u ∈ us, u.Inside mrs) (hs : scatterSlices mrs us = some pieces)
    (hlen : us = [] ∨ pieces.length < n) (hx : x.Holds base pieces)
    (hrc : x.rc = toInt32 (totalLength us)) (hshort : totalLength us < 2 ^ 31) :
    x.Exact mrs us base n := by
  obtain ⟨hbytes, htotal⟩ := scatterSlices_inside hreg hin haddr hs
  have hcount : x.numPsge = pieces.length := hx.count
  have hroom : pieces.length ≤ n := by
    rcases hlen with rfl | hlen
    · cases Option.some.inj hs
      exact Nat.zero_le n
    · exact Nat.le_of_lt hlen
  refine ⟨?_, ?_, by omega, fun i hi => hx.behind i (by omega)⟩
  · rw [hx.pieces_eq, hbytes]
  · rw [hx.pieces_eq, htotal, hrc, toInt32_of_lt hshort]

/-- A list of ranges is translated as it has to be exactly where it avoids the boundaries of the
capacity, of the regions and of the `int`. -/
theorem xlate_sound_iff (hp : Placed mrs) (hreg : Registered mrs)
    (haddr : ∀ u ∈ us, u.addr < 2 ^ 64) : XlateSound mrs us base n ↔ XlateFits mrs us n := by
  rcases xlate_cases us base n hp with
    ⟨hout, hnone⟩ | ⟨hstarts, x, hx, ⟨pieces, hpieces, hlen, hholds, hrc⟩ | ⟨hneg, hne, hfull⟩⟩
  · refine iff_of_false (fun h => ?_) fun h => hout h.starts
    by_cases ht : Coverable mrs n us
    · obtain ⟨x, hx, -⟩ := h.translates ht
      cases hnone.symm.trans hx
    · obtain ⟨x, hx, -⟩ := h.refuses ht
      cases hnone.symm.trans hx
  · have hneed := scatterSlices_length hpieces
    constructor
    · intro h
      refine ⟨hstarts, fun ht => ⟨hneed ▸ hlen, ?_⟩, fun ht pieces' hpieces' hlen' => ?_⟩
      · obtain ⟨y, hy, hexact⟩ := h.translates ht
        cases Option.some.inj (hx.symm.trans hy)
        obtain ⟨-, htotal⟩ := scatterSlices_inside hreg ht.1 haddr hpieces
        have hsum := hexact.total
        rw [hholds.pieces_eq, htotal, hrc] at hsum
        have hlt := toInt32_lt (totalLength us)
        omega
      · obtain ⟨y, hy, hyneg⟩ := h.refuses ht
        cases Option.some.inj (hx.symm.trans hy)
        rw [hrc] at hyneg
        exact (toInt32_neg_iff _).mp hyneg
    · intro h
      refine ⟨fun ht => ⟨x, hx, ?_⟩, fun ht => ⟨x, hx, ?_⟩⟩
      · exact hholds.exact hreg haddr ht.1 hpieces hlen hrc (h.spare ht).2
      · have hlt : pieces.length < n := by
          refine hlen.resolve_left fun hus => ht ?_
          subst hus
          exact ⟨by simp, Nat.zero_le n⟩
        rw [hrc]
        exact (toInt32_neg_iff _).mpr (h.stopped ht pieces hpieces hlt)
  · constructor
    · intro h
      refine ⟨hstarts, fun ht => ?_, fun ht pieces hpieces hlen => ?_⟩
      · obtain ⟨y, hy, hexact⟩ := h.translates ht
        cases Option.some.inj (hx.symm.trans hy)
        have htotal := hexact.total
        omega
      · have hle := hfull pieces hpieces
        omega
    · intro h
      refine ⟨fun ht => ?_, fun ht => ⟨x, hx, hneg⟩⟩
      have hlt : piecesNeeded mrs us < n := (h.spare ht).1.resolve_left hne
      have hkeys : ∀ u ∈ us, mrs u.lkey ≠ none := fun u hu hnone => by
        obtain ⟨mr, hmr, -⟩ := ht.1 u hu
        cases hnone.symm.trans hmr
      obtain ⟨pieces, hpieces⟩ := scatterSlices_of_starts hkeys hstarts (by omega)
      have hle := hfull pieces hpieces
      rw [scatterSlices_length hpieces] at hle
      omega

/-- A region of 58 pages that lie apart. -/
def pages : MemoryRegion :=
  ⟨0x10000, 58 * 4096, (List.range 58).map fun i => ⟨0x1000000 + 8192 * i, 4096⟩⟩

def pagedRegion : RegionTable := fun k => if k = 1 then some pages else none

theorem pagedRegion_eq {k : Nat} (h : pagedRegion k = some mr) : mr = pages := by
  unfold pagedRegion at h
  split at h
  · exact (Option.some.inj h).symm
  · cases h

/-- A range from the middle of the first page on, and an empty one. -/
theorem xlate_sound_pages :
    XlateSound pagedRegion [⟨0x10800, 55 * 4096, 1⟩, ⟨0x10000, 0, 1⟩]
      (fun _ => default) mudmMaxSge := by
  have ht : Coverable pagedRegion mudmMaxSge
      [⟨0x10800, 55 * 4096, 1⟩, ⟨0x10000, 0, 1⟩] := by
    refine ⟨fun u hu => ⟨pages, ?_⟩, by decide⟩
    simp only [List.mem_cons, List.not_mem_nil, or_false] at hu
    rcases hu with rfl | rfl
    · exact ⟨rfl, by decide, by decide⟩
    · exact ⟨rfl, by decide, by decide⟩
  refine (xlate_sound_iff (fun k mr h => ?_) (fun k mr h => ?_) (by decide)).mpr ⟨?_, ?_, ?_⟩
  · cases pagedRegion_eq h
    decide
  · cases pagedRegion_eq h
    decide
  · exact ⟨by decide, fun _ => ⟨by decide, fun _ => trivial⟩⟩
  · exact fun _ => ⟨Or.inr (by decide), by decide⟩
  · exact fun hnot => absurd ht hnot

/-- A range that needs all 58 output slots is refused, one that begins where the region ends is a
`BUG`, and one that runs past that end is accepted. -/
theorem xlate_boundaries :
    ¬ XlateSound pagedRegion [⟨0x10000, 58 * 4096, 1⟩] (fun _ => default) mudmMaxSge ∧
      ¬ XlateSound pagedRegion [⟨0x10000 + 58 * 4096, 4, 1⟩] (fun _ => default) mudmMaxSge ∧
      ¬ XlateSound pagedRegion [⟨0x10000 + 57 * 4096, 8192, 1⟩] (fun _ => default) mudmMaxSge := by
  refine ⟨fun h => ?_, fun h => ?_, fun h => ?_⟩
  · have ht : Coverable pagedRegion mudmMaxSge [⟨0x10000, 58 * 4096, 1⟩] := by
      refine ⟨fun u hu => ⟨pages, ?_⟩, by decide⟩
      rw [List.mem_singleton.mp hu]
      exact ⟨rfl, by decide, by decide⟩
    obtain ⟨x, hx, hexact⟩ := h.translates ht
    have hrc : (bgvrnicXlateSgl pagedRegion [⟨0x10000, 58 * 4096, 1⟩] (fun _ => default)
        mudmMaxSge).map Xlation.rc = some (-E2BIG) := by decide
    rw [hx] at hrc
    have htotal := hexact.total
    rw [Option.some.inj hrc] at htotal
    have hneg : -E2BIG < 0 := by decide
    omega
  · have hnone : bgvrnicXlateSgl pagedRegion [⟨0x10000 + 58 * 4096, 4, 1⟩] (fun _ => default)
        mudmMaxSge = none := xlate_outside (rfl : pagedRegion 1 = some pages) (by decide)
    obtain ⟨x, hx, -⟩ := h.refuses fun ht => by
      obtain ⟨mr, hmr, -, hle⟩ := ht.1 ⟨0x10000 + 58 * 4096, 4, 1⟩ (by simp)
      cases pagedRegion_eq hmr
      exact absurd hle (by decide)
    cases hnone.symm.trans hx
  · obtain ⟨x, hx, hneg⟩ := h.refuses fun ht => by
      obtain ⟨mr, hmr, -, hle⟩ := ht.1 ⟨0x10000 + 57 * 4096, 8192, 1⟩ (by simp)
      cases pagedRegion_eq hmr
      exact absurd hle (by decide)
    have hrc : (bgvrnicXlateSgl pagedRegion [⟨0x10000 + 57 * 4096, 8192, 1⟩] (fun _ => default)
        mudmMaxSge).map Xlation.rc = some 8192 := by decide
    rw [hx] at hrc
    rw [Option.some.inj hrc] at hneg
    exact absurd hneg (by decide)

end BgqVrnic
