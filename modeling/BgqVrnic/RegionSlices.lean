import BgqVrnic.XlateSgl

namespace BgqVrnic

/-- The first `n` bytes of the memory that a list of pieces describes. -/
def takeBytes : List MudmSgl → Nat → List MudmSgl
  | [], _ => []
  | e :: es, n =>
    if n ≤ e.memlength then [⟨e.physicalAddr, n⟩] else e :: takeBytes es (n - e.memlength)

def takeRest (es : List MudmSgl) (n : Nat) : List MudmSgl := if n = 0 then [] else takeBytes es n

def totalBytes (es : List MudmSgl) : Nat := (es.map MudmSgl.memlength).sum

/-- The part of a region that `n` bytes from offset `off` on cover; empty if the offset is past the
region's end. -/
def regionSlice (sge : List MudmSgl) (off n : Nat) : List MudmSgl :=
  match locate sge off with
  | ([], _) => []
  | (e :: es, off) => takeBytes (⟨e.physicalAddr + off, e.memlength - off⟩ :: es) n

/-- The slices that a scatter list selects, if its keys and offsets are all good. -/
def scatterSlices (mrs : RegionTable) : List IbSge → Option (List MudmSgl)
  | [] => some []
  | u :: us => do
    let mr ← mrs u.lkey
    let slice := regionSlice mr.sge (regionOffset mr u.addr) u.length
    if slice = [] then none else some (slice ++ (← scatterSlices mrs us))

/-- Entries of a registered region are pieces of the physical address space, within the 36 and 28
bits of their fields, and none starts at the null address. -/
def Physical (mrs : RegionTable) : Prop :=
  ∀ k mr, mrs k = some mr → ∀ e ∈ mr.sge,
    0 < e.physicalAddr ∧ e.physicalAddr < 2 ^ 36 ∧ e.physicalAddr + e.memlength ≤ 2 ^ 36 ∧
      e.memlength < 2 ^ 28

/-- Entries of a registered region lie in the 36-bit physical address space. -/
def Placed (mrs : RegionTable) : Prop :=
  ∀ k mr, mrs k = some mr → ∀ e ∈ mr.sge,
    e.physicalAddr < 2 ^ 36 ∧ e.physicalAddr + e.memlength ≤ 2 ^ 36

/-- The output array begins with the pieces of `l`, and is as before behind them. -/
structure PieceArea.Holds (a : PieceArea) (base : Nat → MudmSgl) (l : List MudmSgl) : Prop where
  count : a.pi = l.length
  pieces : ∀ i e, l[i]? = some e → a.psge i = e
  behind : ∀ i, l.length ≤ i → a.psge i = base i

variable {a a' : PieceArea} {base : Nat → MudmSgl} {l es sge : List MudmSgl} {e : MudmSgl}
variable {limit off off' n : Nat} {mrs : RegionTable} {us : List IbSge} {total : Int} {x : Xlation}
variable {mr : MemoryRegion}

theorem Physical.placed (hp : Physical mrs) : Placed mrs := fun k mr hmr e he =>
  ⟨(hp k mr hmr e he).2.1, (hp k mr hmr e he).2.2.1⟩

theorem PieceArea.Holds.put (h : a.Holds base l) (e : MudmSgl) :
    (a.put e).Holds base (l ++ [e]) := by
  refine ⟨by simp [PieceArea.put, h.count], fun i e' hi => ?_, fun i hi => ?_⟩
  · simp only [PieceArea.put, h.count]
    by_cases hl : i < l.length
    · rw [Function.update_of_ne (by omega)]
      exact h.pieces i e' (by rwa [List.getElem?_append_left hl] at hi)
    · have he : i = l.length := by
        have := (List.getElem?_eq_some_iff.mp hi).1
        simp only [List.length_append, List.length_singleton] at this
        omega
      subst he
      rw [Function.update_self]
      simpa using hi
  · simp only [List.length_append, List.length_singleton] at hi
    simp only [PieceArea.put, h.count]
    rw [Function.update_of_ne (by omega)]
    exact h.behind i (by omega)

/-- The inner loop appends the rest of the bytes, as far as there is room. -/
theorem fillPieces_holds (h : a.Holds base l) (hl : l.length ≤ limit) :
    (fillPieces limit es n a).Holds base (l ++ (takeRest es n).take (limit - l.length)) := by
  induction es generalizing n a l with
  | nil =>
    have hn : takeRest [] n = [] := by
      unfold takeRest
      split <;> rfl
    simpa [fillPieces, hn] using h
  | cons e es ih =>
    unfold fillPieces
    split
    next hgo =>
      obtain ⟨hn, hpi⟩ := hgo
      rw [h.count] at hpi
      have htake : ∀ (f : MudmSgl) (fs : List MudmSgl),
          l ++ (f :: fs).take (limit - l.length) = l ++ [f] ++ fs.take (limit - (l ++ [f]).length) := by
        intro f fs
        have hs : limit - l.length = (limit - (l.length + 1)) + 1 := by omega
        rw [hs]
        simp
      split
      next hlt =>
        have hr : takeRest (e :: es) n = [⟨e.physicalAddr, n⟩] := by
          rw [takeRest, if_neg hn, takeBytes, if_pos (by omega)]
        rw [hr, htake]
        simpa using h.put ⟨e.physicalAddr, n⟩
      next hge =>
        have hr : takeRest (e :: es) n = e :: takeRest es (n - e.memlength) := by
          rw [takeRest, if_neg hn, takeBytes]
          by_cases he : n = e.memlength
          · rw [if_pos (by omega), takeRest, if_pos (by omega), he]
          · rw [if_neg (by omega), takeRest, if_neg (by omega)]
        rw [hr, htake]
        refine ih (h.put e) ?_
        simp only [List.length_append, List.length_singleton]
        omega
    next hstop =>
      have hn : (takeRest (e :: es) n).take (limit - l.length) = [] := by
        by_cases hz : n = 0
        · simp [takeRest, hz]
        · have : limit - l.length = 0 := by
            have := h.count
            omega
          simp [this]
      rw [hn, List.append_nil]
      exact h

theorem locate_mem (h : locate sge off = (e :: es, off')) : e ∈ sge ∧ ∀ f ∈ es, f ∈ sge := by
  induction sge generalizing off with
  | nil => simp [locate] at h
  | cons s sge ih =>
    unfold locate at h
    split at h
    next =>
      obtain ⟨he, hes⟩ := ih h
      exact ⟨List.mem_cons_of_mem _ he, fun f hf => List.mem_cons_of_mem _ (hes f hf)⟩
    next =>
      cases h
      exact ⟨List.mem_cons_self .., fun f hf => List.mem_cons_of_mem _ hf⟩

/-- The offset that is left lies inside the entry, or is zero. -/
theorem locate_offset (h : locate sge off = (e :: es, off')) : off' = 0 ∨ off' < e.memlength := by
  induction sge generalizing off with
  | nil => simp [locate] at h
  | cons s sge ih =>
    unfold locate at h
    split at h
    next => exact ih h
    next hc =>
      cases h
      omega

theorem takeBytes_ne_nil (n : Nat) : takeBytes (e :: es) n ≠ [] := by
  unfold takeBytes
  split <;> simp

/-- One user SGE appends its slice of the region, as far as there is room. -/
theorem xlateSge_holds
    (hp : ∀ e ∈ sge, e.physicalAddr < 2 ^ 36 ∧ e.physicalAddr + e.memlength ≤ 2 ^ 36)
    (h : a.Holds base l) (hl : l.length < limit) :
    (regionSlice sge off n = [] ∧ xlateSge limit sge off n a = none) ∨
      (regionSlice sge off n ≠ [] ∧ ∃ a', xlateSge limit sge off n a = some a' ∧
        a'.Holds base (l ++ (regionSlice sge off n).take (limit - l.length))) := by
  unfold regionSlice xlateSge
  cases hloc : locate sge off with
  | mk rest off' =>
    cases rest with
    | nil => exact Or.inl ⟨rfl, rfl⟩
    | cons e es =>
      have he := hp e (locate_mem hloc).1
      have hoff := locate_offset hloc
      have hpa : (e.physicalAddr + off') % 2 ^ 36 = e.physicalAddr + off' :=
        Nat.mod_eq_of_lt (by omega)
      refine Or.inr ⟨takeBytes_ne_nil n, ?_⟩
      simp only [hpa]
      have hs : limit - l.length = (limit - (l.length + 1)) + 1 := by omega
      split
      next hlt =>
        refine ⟨_, rfl, ?_⟩
        rw [takeBytes, if_pos (by dsimp only; omega), hs]
        simpa using h.put ⟨e.physicalAddr + off', n⟩
      next hge =>
        refine ⟨_, rfl, ?_⟩
        have hfill : (fillPieces limit es (n - (e.memlength - off'))
            (a.put ⟨e.physicalAddr + off', e.memlength - off'⟩)).Holds base _ :=
          fillPieces_holds (h.put _)
            (by simp only [List.length_append, List.length_singleton]; omega)
        have ht : takeBytes (⟨e.physicalAddr + off', e.memlength - off'⟩ :: es) n =
            ⟨e.physicalAddr + off', e.memlength - off'⟩ ::
              takeRest es (n - (e.memlength - off')) := by
          rw [takeBytes]
          dsimp only
          by_cases heq : n = e.memlength - off'
          · rw [if_pos (by omega), takeRest, if_pos (by omega), heq]
          · rw [if_neg (by omega), takeRest, if_neg (by omega)]
        rw [ht, hs]
        simpa using hfill

/-- Where the output array of a translation holds the pieces of `l`. -/
def Xlation.Holds (x : Xlation) (base : Nat → MudmSgl) (l : List MudmSgl) : Prop :=
  PieceArea.Holds ⟨x.psge, x.numPsge⟩ base l

theorem Xlation.Holds.pieces_eq (h : x.Holds base l) : x.pieces = l := by
  have hcount : x.numPsge = l.length := h.count
  apply List.ext_getElem
  · simp [Xlation.pieces, hcount]
  · intro i hi hi'
    have he : l[i]? = some l[i] := List.getElem?_eq_getElem hi'
    simpa [Xlation.pieces] using PieceArea.Holds.pieces h i l[i] he

/-- A translation that does not fail writes the slices that its list selects. -/
theorem xlateFrom_holds (hp : Placed mrs) (h : a.Holds base l) (hl : l.length < limit)
    (hx : xlateFrom mrs limit us total a = some x) (hrc : 0 ≤ x.rc) :
    ∃ pieces, scatterSlices mrs us = some pieces ∧ (l ++ pieces).length < limit ∧
      x.Holds base (l ++ pieces) := by
  induction us generalizing total a l with
  | nil =>
    cases Option.some.inj hx
    exact ⟨[], rfl, by simpa using hl, by simpa [Xlation.Holds] using h⟩
  | cons u us ih =>
    unfold xlateFrom at hx
    cases hmr : mrs u.lkey with
    | none =>
      rw [hmr] at hx
      cases Option.some.inj hx
      have hneg : -ENOMEM < 0 := by decide
      dsimp only at hrc
      omega
    | some mr =>
      rw [hmr] at hx
      obtain ⟨a₁, ha₁, hx⟩ := Option.bind_eq_some_iff.mp hx
      rcases xlateSge_holds (n := u.length) (hp _ mr hmr) h hl with ⟨-, hnone⟩ | ⟨hne, a₂, ha₂, hholds⟩
      · rw [hnone] at ha₁
        cases ha₁
      · rw [ha₂] at ha₁
        cases ha₁
        by_cases hfull : limit ≤ a₁.pi
        · rw [if_pos hfull] at hx
          cases Option.some.inj hx
          have hneg : -E2BIG < 0 := by decide
          dsimp only at hrc
          omega
        · rw [if_neg hfull] at hx
          have hcount := hholds.count
          rw [List.length_append, List.length_take] at hcount
          rw [List.take_of_length_le (by omega)] at hholds
          obtain ⟨pieces, hpieces, hlen, hx⟩ := ih hholds (by rw [List.length_append]; omega) hx
          rw [List.append_assoc] at hlen hx
          exact ⟨regionSlice mr.sge (regionOffset mr u.addr) u.length ++ pieces,
            by simp [scatterSlices, hmr, hne, hpieces], hlen, hx⟩

theorem toInt32_add (x y : Int) : toInt32 (toInt32 x + y) = toInt32 (x + y) := Int.bmod_add_bmod

/-- Slices that fit the output array are translated, with the sum of the SGE lengths as the result. -/
theorem xlateFrom_fits {pieces : List MudmSgl} (hp : Placed mrs) (h : a.Holds base l)
    (hs : scatterSlices mrs us = some pieces) (hl : l.length + pieces.length < limit)
    (ht : toInt32 total = total) :
    ∃ x, xlateFrom mrs limit us total a = some x ∧ x.Holds base (l ++ pieces) ∧
      x.rc = toInt32 (total + (us.map IbSge.length).sum) := by
  induction us generalizing total a l pieces with
  | nil =>
    cases Option.some.inj hs
    exact ⟨⟨total, a.psge, a.pi⟩, rfl, by simpa [Xlation.Holds] using h, by simpa using ht.symm⟩
  | cons u us ih =>
    obtain ⟨mr, hmr, hs⟩ := Option.bind_eq_some_iff.mp hs
    rcases xlateSge_holds (n := u.length) (hp _ mr hmr) h (by omega : l.length < limit) with
      ⟨hnil, -⟩ | ⟨hne, a', ha', hholds⟩
    · dsimp only at hs
      rw [if_pos hnil] at hs
      cases hs
    · dsimp only at hs
      rw [if_neg hne] at hs
      obtain ⟨rest, hrest, hs⟩ := Option.bind_eq_some_iff.mp hs
      cases Option.some.inj hs
      rw [List.length_append] at hl
      rw [List.take_of_length_le (by omega)] at hholds
      have hcount := hholds.count
      rw [List.length_append] at hcount
      have hroom : ¬ limit ≤ a'.pi := by omega
      have ht' : toInt32 (toInt32 (total + u.length)) = toInt32 (total + u.length) :=
        Int.bmod_bmod
      obtain ⟨x, hx, hpieces, hrc⟩ := ih hholds hrest (by rw [List.length_append]; omega) ht'
      refine ⟨x, ?_, by rwa [List.append_assoc] at hpieces, ?_⟩
      · unfold xlateFrom
        simp only [hmr]
        rw [ha']
        simpa [hroom] using hx
      · rw [hrc, toInt32_add]
        simp only [List.map_cons, List.sum_cons]
        congr 1
        omega

theorem xlate_one (hp : Placed mrs) {u : IbSge} (hmr : mrs u.lkey = some mr)
    (hne : regionSlice mr.sge (regionOffset mr u.addr) u.length ≠ []) (hlimit : 0 < limit) :
    ∃ x, bgvrnicXlateSgl mrs [u] base limit = some x ∧
      x.Holds base ((regionSlice mr.sge (regionOffset mr u.addr) u.length).take limit) ∧
      x.rc = if limit ≤ (regionSlice mr.sge (regionOffset mr u.addr) u.length).length then -E2BIG
        else toInt32 u.length := by
  have hstart : PieceArea.Holds ⟨base, 0⟩ base [] := ⟨rfl, by simp, fun i _ => rfl⟩
  rcases xlateSge_holds (n := u.length) (hp _ mr hmr) hstart hlimit with
    ⟨hnil, -⟩ | ⟨-, a', ha', hholds⟩
  · exact absurd hnil hne
  · rw [List.nil_append, List.length_nil, Nat.sub_zero] at hholds
    have hcount := hholds.count
    rw [List.length_take] at hcount
    unfold bgvrnicXlateSgl xlateFrom
    simp only [hmr]
    rw [ha']
    by_cases hfull : limit ≤ (regionSlice mr.sge (regionOffset mr u.addr) u.length).length
    · have hpi : limit ≤ a'.pi := by omega
      have hnum : a'.pi = limit := by omega
      subst hnum
      exact ⟨⟨-E2BIG, a'.psge, a'.pi⟩, by simp, hholds, by simp [hfull]⟩
    · have hpi : ¬ limit ≤ a'.pi := by omega
      exact ⟨⟨toInt32 u.length, a'.psge, a'.pi⟩, by simp [hpi, xlateFrom], hholds, by simp [hfull]⟩

/-- The `BUG_ON` is met exactly where the region has no slice. -/
theorem xlateSge_eq_none : xlateSge limit sge off n a = none ↔ regionSlice sge off n = [] := by
  unfold xlateSge regionSlice
  generalize locate sge off = r
  obtain ⟨es, off⟩ := r
  cases es with
  | nil => exact iff_of_true rfl rfl
  | cons e es =>
    refine iff_of_false ?_ (takeBytes_ne_nil n)
    dsimp only
    split <;> exact nofun

/-- An offset past the region's entries is a `BUG`. -/
theorem xlate_outside {u : IbSge} (hmr : mrs u.lkey = some mr)
    (hnil : regionSlice mr.sge (regionOffset mr u.addr) u.length = []) :
    bgvrnicXlateSgl mrs [u] base limit = none := by
  unfold bgvrnicXlateSgl xlateFrom
  simp only [hmr]
  rw [xlateSge_eq_none.mpr hnil]
  rfl

theorem totalBytes_takeBytes : totalBytes (takeBytes es n) = min n (totalBytes es) := by
  induction es generalizing n with
  | nil => simp [takeBytes, totalBytes]
  | cons e es ih =>
    have hcons : totalBytes (e :: es) = e.memlength + totalBytes es := by simp [totalBytes]
    rw [hcons, takeBytes]
    by_cases hn : n ≤ e.memlength
    · rw [if_pos hn]
      simp only [totalBytes, List.map_cons, List.map_nil, List.sum_cons, List.sum_nil]
      omega
    · rw [if_neg hn]
      have ht := ih (n := n - e.memlength)
      simp only [totalBytes, List.map_cons, List.sum_cons] at ht ⊢
      omega

theorem totalBytes_regionSlice_le : totalBytes (regionSlice sge off n) ≤ n := by
  unfold regionSlice
  split
  next => simp [totalBytes]
  next =>
    rw [totalBytes_takeBytes]
    exact Nat.min_le_left ..

/-- `e` describes bytes of one of the pieces. -/
def MudmSgl.Within (e : MudmSgl) (pieces : List MudmSgl) : Prop :=
  ∃ f ∈ pieces, f.physicalAddr ≤ e.physicalAddr ∧
    e.physicalAddr + e.memlength ≤ f.physicalAddr + f.memlength

theorem takeBytes_within {f : MudmSgl} (h : f ∈ takeBytes es n) : f.Within es := by
  induction es generalizing n with
  | nil => simp [takeBytes] at h
  | cons e es ih =>
    unfold takeBytes at h
    split at h
    next hn =>
      obtain rfl := List.mem_singleton.mp h
      exact ⟨e, List.mem_cons_self .., Nat.le_refl _, by dsimp only; omega⟩
    next =>
      rcases List.mem_cons.mp h with rfl | h
      · exact ⟨f, List.mem_cons_self .., Nat.le_refl _, Nat.le_refl _⟩
      · obtain ⟨g, hg, hle⟩ := ih h
        exact ⟨g, List.mem_cons_of_mem _ hg, hle⟩

theorem regionSlice_within {f : MudmSgl} (h : f ∈ regionSlice sge off n) : f.Within sge := by
  unfold regionSlice at h
  split at h
  next => simp at h
  next e es off' hloc =>
    obtain ⟨he, hes⟩ := locate_mem hloc
    have hoff := locate_offset hloc
    obtain ⟨g, hg, hlo, hhi⟩ := takeBytes_within h
    rcases List.mem_cons.mp hg with rfl | hg
    · dsimp only at hlo hhi
      exact ⟨e, he, by omega, by omega⟩
    · exact ⟨g, hes g hg, hlo, hhi⟩

theorem MudmSgl.Within.short {f : MudmSgl} (hp : Physical mrs) {k : Nat} (hk : mrs k = some mr)
    (h : f.Within mr.sge) : 0 < f.physicalAddr ∧ f.memlength < 2 ^ 28 := by
  obtain ⟨e, he, hlo, hhi⟩ := h
  have := hp k mr hk e he
  omega

theorem scatterSlices_within {pieces : List MudmSgl} {f : MudmSgl}
    (h : scatterSlices mrs us = some pieces) (hf : f ∈ pieces) :
    ∃ k mr, mrs k = some mr ∧ f.Within mr.sge := by
  induction us generalizing pieces with
  | nil =>
    cases Option.some.inj h
    simp at hf
  | cons u us ih =>
    obtain ⟨mr, hmr, h⟩ := Option.bind_eq_some_iff.mp h
    by_cases hne : regionSlice mr.sge (regionOffset mr u.addr) u.length = []
    · simp [hne] at h
    · dsimp only at h
      rw [if_neg hne] at h
      obtain ⟨rest, hrest, h⟩ := Option.bind_eq_some_iff.mp h
      cases Option.some.inj h
      rcases List.mem_append.mp hf with hf | hf
      · exact ⟨u.lkey, mr, hmr, regionSlice_within hf⟩
      · exact ih hrest hf

theorem scatterSlices_short {pieces : List MudmSgl} {f : MudmSgl} (hp : Physical mrs)
    (h : scatterSlices mrs us = some pieces) (hf : f ∈ pieces) :
    0 < f.physicalAddr ∧ f.memlength < 2 ^ 28 := by
  obtain ⟨k, mr, hmr, hin⟩ := scatterSlices_within h hf
  exact hin.short hp hmr

theorem scatterSlices_eq_nil (h : scatterSlices mrs us = some []) : us = [] := by
  cases us with
  | nil => rfl
  | cons u us =>
    obtain ⟨mr, hmr, h⟩ := Option.bind_eq_some_iff.mp h
    by_cases hne : regionSlice mr.sge (regionOffset mr u.addr) u.length = []
    · simp [hne] at h
    · dsimp only at h
      rw [if_neg hne] at h
      obtain ⟨rest, hrest, h⟩ := Option.bind_eq_some_iff.mp h
      simp [hne] at h

end BgqVrnic
