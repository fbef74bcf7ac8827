import BgqVrnic.RegPieces
import Mathlib.Data.List.Chain

namespace BgqVrnic

/-- The loops over stretches of memory. -/
def walk (ts : List Stretch) (length : Nat) : SgeMap :=
  SgeMap.run ⟨[], length % 2 ^ 32⟩ (ts.flatMap Stretch.visits)

/-- The bytes of the stretches. -/
def dmaPieces (ts : List Stretch) : List DmaEntry := ts.map Stretch.piece

/-- The SGEs are the first `length` bytes of the stretches, and none is empty. -/
structure WalkExact (ts : List Stretch) (length : Nat) : Prop where
  bytes : (walk ts length).bytes = (dmaBytes (dmaPieces ts)).take length
  solid : (walk ts length).Solid

/-- The length has 32 bits. Up to the stretch `t` where the memory to be registered ends, stretches are
single pages below 2^36 of which less than 2^28 bytes are wanted; from its second page on, all pages are where
that memory ends. -/
structure PagesFit (ts : List Stretch) (length : Nat) (pre : List Stretch) (t : Stretch)
    (post : List Stretch) : Prop where
  split : ts = pre ++ t :: post
  short : length < 2 ^ 32
  begins : dmaLength (dmaPieces pre) < length
  ends : length ≤ dmaLength (dmaPieces pre) + t.piece.length
  single : ∀ x ∈ pre, x.again = []
  low : ∀ x ∈ pre ++ [t], x.piece.address < 2 ^ 36
  small : ∀ x ∈ pre, x.piece.length < 2 ^ 28
  smallLast : length - dmaLength (dmaPieces pre) < 2 ^ 28
  behind : ∀ v ∈ t.again ++ post.flatMap Stretch.visits,
    v.address = (t.piece.address + (length - dmaLength (dmaPieces pre))) % 2 ^ 36

/-- Stretches are not empty, and their lengths have 32 bits. -/
structure Sized (ts : List Stretch) : Prop where
  piece : ∀ t ∈ ts, 0 < t.piece.length ∧ t.piece.length < 2 ^ 32
  again : ∀ t ∈ ts, ∀ v ∈ t.again, 0 < v.length

variable {ts pre post l r : List Stretch} {t x : Stretch} {length : Nat} {vs vs' : List DmaEntry}
  {v : DmaEntry}

theorem fits_start (n : Nat) : (⟨[], n⟩ : SgeMap).Fits := nofun

theorem dmaLength_visits (ts : List Stretch) :
    dmaLength (ts.flatMap Stretch.visits) =
      dmaLength (dmaPieces ts) + dmaLength (ts.flatMap Stretch.again) := by
  induction ts with
  | nil => rfl
  | cons t ts ih =>
    have hpieces : dmaPieces (t :: ts) = t.piece :: dmaPieces ts := rfl
    rw [List.flatMap_cons, List.flatMap_cons, dmaLength_append, dmaLength_append, ih, hpieces,
      dmaLength_cons, Stretch.visits, dmaLength_cons]
    omega

theorem flatMap_visits_single (h : ∀ t ∈ ts, t.again = []) :
    ts.flatMap Stretch.visits = dmaPieces ts := by
  induction ts with
  | nil => rfl
  | cons t ts ih =>
    rw [List.flatMap_cons, ih fun x hx => h x (List.mem_cons_of_mem t hx), Stretch.visits,
      h t List.mem_cons_self]
    rfl

theorem again_nil_of_length (hs : Sized ts) (h : dmaLength (ts.flatMap Stretch.again) = 0) :
    ∀ t ∈ ts, t.again = [] := by
  intro t ht
  cases hagain : t.again with
  | nil => rfl
  | cons v vs =>
    have hmem : v ∈ ts.flatMap Stretch.again := List.mem_flatMap.mpr ⟨t, ht, by simp [hagain]⟩
    have hle := length_le_dmaLength hmem
    have hpos := hs.again t ht v (by simp [hagain])
    omega

/-- The stretch in which the bytes come to `n`. -/
theorem exists_split {n : Nat} (hpos : 0 < n) (h : n ≤ dmaLength (dmaPieces ts)) :
    ∃ pre t post, ts = pre ++ t :: post ∧ dmaLength (dmaPieces pre) < n ∧
      n ≤ dmaLength (dmaPieces pre) + t.piece.length := by
  induction ts generalizing n with
  | nil => exact absurd h (Nat.not_le.mpr hpos)
  | cons t ts ih =>
    have hcons : ∀ l, dmaLength (dmaPieces (t :: l)) = t.piece.length + dmaLength (dmaPieces l) :=
      fun _ => rfl
    by_cases hn : n ≤ t.piece.length
    · exact ⟨[], t, ts, rfl, hpos, by simpa [dmaPieces, dmaLength] using hn⟩
    · rw [hcons] at h
      obtain ⟨pre, t', post, rfl, hlt, hle⟩ := ih (n := n - t.piece.length) (by omega) (by omega)
      refine ⟨t :: pre, t', post, rfl, ?_, ?_⟩
      · rw [hcons]
        omega
      · rw [hcons]
        omega

namespace WalkExact

section

variable (h : WalkExact ts length) (hall : length ≤ dmaLength (dmaPieces ts))

include h hall

/-- No byte is lost on the way, and the length has not been cut. -/
theorem covered : length < 2 ^ 32 ∧ (walk ts length).covers = length := by
  have hstart : (⟨[], length % 2 ^ 32⟩ : SgeMap).covers = length % 2 ^ 32 := Nat.zero_add _
  have hle : (walk ts length).covers ≤ length % 2 ^ 32 :=
    hstart ▸ SgeMap.covers_run (ts.flatMap Stretch.visits) _
  have htotal : totalBytes (walk ts length).sge = length := by
    rw [← SgeMap.length_bytes, h.bytes, List.length_take, length_dmaBytes]
    exact Nat.min_eq_left hall
  have hge : length ≤ (walk ts length).covers := by
    unfold SgeMap.covers
    omega
  have hmod := Nat.mod_le length (2 ^ 32)
  have hlt := Nat.mod_lt length (Nat.two_pow_pos 32)
  omega

theorem before (hvs : ts.flatMap Stretch.visits = vs ++ vs') :
    (SgeMap.run ⟨[], length⟩ vs).Fits ∧ (SgeMap.run ⟨[], length⟩ vs).covers = length ∧
      (SgeMap.run ⟨[], length⟩ vs).bytesToMap = length - dmaLength vs ∧
      (SgeMap.run ⟨[], length⟩ vs).run vs' = walk ts length := by
  obtain ⟨hshort, hcovers⟩ := h.covered hall
  have hrun : (SgeMap.run ⟨[], length⟩ vs).run vs' = walk ts length := by
    unfold walk
    rw [Nat.mod_eq_of_lt hshort, hvs, SgeMap.run_append]
  refine ⟨(fits_start length).run vs, ?_, SgeMap.bytesToMap_run vs _, hrun⟩
  have hle := SgeMap.covers_run vs ⟨[], length⟩
  have hge := SgeMap.covers_run vs' (SgeMap.run ⟨[], length⟩ vs)
  have hstart : (⟨[], length⟩ : SgeMap).covers = length := Nat.zero_add _
  rw [hrun, hcovers] at hge
  omega

/-- A page visited while bytes are wanted shows its address at the place of the first of them. -/
theorem byte (hvs : ts.flatMap Stretch.visits = vs ++ v :: vs') (hpos : 0 < v.length)
    (hleft : dmaLength vs < length) :
    min v.length (length - dmaLength vs) < 2 ^ 28 ∧
      ∃ b, (dmaBytes (dmaPieces ts))[dmaLength vs]? = some b ∧ b % 2 ^ 36 = v.address % 2 ^ 36 ∧
        (b = v.address → v.address < 2 ^ 36) := by
  obtain ⟨hf, hcovers, hmap, hrun⟩ := h.before hall hvs
  obtain ⟨-, hend⟩ := h.covered hall
  set s : SgeMap := SgeMap.run ⟨[], length⟩ vs
  have hput : (s.put v.address v.length).covers = s.covers := by
    have hle := SgeMap.covers_put v.address v.length s
    have hge := SgeMap.covers_run vs' (s.put v.address v.length)
    have hrest : (s.put v.address v.length).run vs' = walk ts length := hrun
    rw [hrest, hend] at hge
    omega
  obtain ⟨hlong, b, hbytes, hmod, hlow⟩ := SgeMap.put_adds hf hput
  rw [hmap] at hlong hbytes
  refine ⟨hlong, b, ?_, hmod, hlow⟩
  have hlen : s.bytes.length = dmaLength vs := by
    rw [SgeMap.length_bytes]
    unfold SgeMap.covers at hcovers
    omega
  have hpre : (s.put v.address v.length).bytes <+: (walk ts length).bytes := by
    have hsame : ((s.put v.address v.length).run vs').covers = (s.put v.address v.length).covers := by
      rw [show (s.put v.address v.length).run vs' = walk ts length from hrun, hend, hput, hcovers]
    rw [← hrun]
    exact SgeMap.run_adds (hf.put v.address v.length) hsame
  have hfirst : (s.put v.address v.length).bytes[dmaLength vs]? = some b := by
    rw [hbytes, List.getElem?_append_right (Nat.le_of_eq hlen), hlen, Nat.sub_self,
      List.getElem?_range' (by omega)]
    simp
  obtain ⟨rest, hrest⟩ := hpre
  have hin : dmaLength vs < (s.put v.address v.length).bytes.length :=
    (List.getElem?_eq_some_iff.mp hfirst).1
  rw [← List.getElem?_take_of_lt hleft, ← h.bytes, ← hrest, List.getElem?_append_left hin]
  exact hfirst

/-- A page visited behind the last of the bytes is where they end. -/
theorem idle (hpos : 0 < length) (hvs : ts.flatMap Stretch.visits = vs ++ vs')
    (hdone : length ≤ dmaLength vs) :
    ∃ b, (dmaBytes (dmaPieces ts))[length - 1]? = some b ∧
      ∀ v ∈ vs', v.address = (b + 1) % 2 ^ 36 := by
  obtain ⟨hf, hcovers, hmap, hrun⟩ := h.before hall hvs
  have hzero : (SgeMap.run ⟨[], length⟩ vs).bytesToMap = 0 := by rw [hmap]; omega
  obtain ⟨hsolid, hends, hsame⟩ := SgeMap.run_idle hzero (hrun ▸ h.solid) hf
  have hwalk : SgeMap.run ⟨[], length⟩ vs = walk ts length := hsame.symm.trans hrun
  rw [hwalk] at hcovers hzero hends hsolid
  have htotal : (walk ts length).bytes.length = length := by
    rw [SgeMap.length_bytes]
    unfold SgeMap.covers at hcovers
    omega
  cases hsge : (walk ts length).sge with
  | nil =>
    have hnone : (walk ts length).bytes = [] := by
      unfold SgeMap.bytes
      rw [hsge]
      rfl
    rw [hnone] at htotal
    exact absurd htotal (Nat.ne_of_lt hpos)
  | cons last sge =>
    have hlong : 0 < last.memlength := hsolid last (by simp [hsge])
    have hlastByte : (walk ts length).bytes[length - 1]? =
        some (last.physicalAddr + (last.memlength - 1)) := by
      have hbytes := SgeMap.bytes_cons last sge (walk ts length).bytesToMap
      rw [← hsge] at hbytes
      have hsum : (walk ts length).bytes.length = (physBytes sge.reverse).length + last.memlength := by
        rw [show (walk ts length).bytes = _ from hbytes, List.length_append, List.length_range']
      rw [show (walk ts length).bytes = _ from hbytes,
        List.getElem?_append_right (by omega), List.getElem?_range' (by omega)]
      congr 1
      omega
    rw [h.bytes, List.getElem?_take_of_lt (by omega)] at hlastByte
    refine ⟨_, hlastByte, fun v hv => ?_⟩
    obtain ⟨last', hl, hend⟩ := hends v hv
    rw [hsge] at hl
    cases Option.some.inj hl
    rw [← hend]
    unfold MudmSgl.endAddr
    congr 1
    omega

/-- Behind stretches that have been visited once each, the next one is below 2^36 and not too long. -/
theorem low (hsized : Sized ts) (hts : ts = l ++ t :: r) (hsingle : ∀ x ∈ l, x.again = [])
    (hleft : dmaLength (dmaPieces l) < length) :
    t.piece.address < 2 ^ 36 ∧ min t.piece.length (length - dmaLength (dmaPieces l)) < 2 ^ 28 := by
  have hvs : ts.flatMap Stretch.visits =
      dmaPieces l ++ t.piece :: (t.again ++ r.flatMap Stretch.visits) := by
    rw [hts, List.flatMap_append, flatMap_visits_single hsingle, List.flatMap_cons]
    rfl
  have hlong := (hsized.piece t (by simp [hts])).1
  obtain ⟨hshort, b, hb, -, hlow⟩ := h.byte hall hvs hlong hleft
  have hpieces : dmaPieces ts = dmaPieces l ++ t.piece :: dmaPieces r := by
    rw [hts]
    exact List.map_append
  have hfirst := getElem?_dmaBytes (dmaPieces l) (dmaPieces r) hlong
  rw [← hpieces, Nat.add_zero, hb] at hfirst
  exact ⟨hlow (Option.some.inj hfirst), hshort⟩

end

end WalkExact

/-- Where the SGEs are exact, the pages fit. -/
theorem WalkExact.pagesFit (h : WalkExact ts length) (hsized : Sized ts) (hpos : 0 < length)
    (hall : length ≤ dmaLength (dmaPieces ts)) : ∃ pre t post, PagesFit ts length pre t post := by
  obtain ⟨pre, t, post, hts, hbegins, hends⟩ := exists_split hpos hall
  refine ⟨pre, t, post, ?_⟩
  have hpieces : dmaPieces ts = dmaPieces pre ++ t.piece :: dmaPieces post := by
    rw [hts]
    exact List.map_append
  have hvs : ts.flatMap Stretch.visits =
      pre.flatMap Stretch.visits ++ t.piece :: (t.again ++ post.flatMap Stretch.visits) := by
    rw [hts, List.flatMap_append, List.flatMap_cons]
    rfl
  have hmem : ∀ x ∈ pre, x ∈ ts := fun x hx => by simp [hts, hx]
  obtain ⟨hlong, hwide⟩ := hsized.piece t (by simp [hts])
  -- The walk reaches the last stretch with exactly the bytes of those before it.
  have hsum := dmaLength_visits pre
  have hexact : dmaLength (pre.flatMap Stretch.again) = 0 := by
    by_cases hleft : dmaLength (pre.flatMap Stretch.visits) < length
    · obtain ⟨-, b, hb, hmod, -⟩ := h.byte hall hvs hlong hleft
      have hat := getElem?_dmaBytes (e := t.piece)
        (i := dmaLength (pre.flatMap Stretch.again)) (dmaPieces pre) (dmaPieces post) (by omega)
      rw [← hpieces, ← hsum, hb] at hat
      have hb' := Option.some.inj hat
      omega
    · obtain ⟨b, hb, hidle⟩ := h.idle hall hpos hvs (Nat.not_lt.mp hleft)
      have hat := getElem?_dmaBytes (e := t.piece)
        (i := length - 1 - dmaLength (dmaPieces pre)) (dmaPieces pre) (dmaPieces post) (by omega)
      rw [← hpieces, show dmaLength (dmaPieces pre) + (length - 1 - dmaLength (dmaPieces pre)) = length - 1
        by omega, hb] at hat
      have hb' := Option.some.inj hat
      have haddr := hidle t.piece List.mem_cons_self
      omega
  have hsingle : ∀ x ∈ pre, x.again = [] := again_nil_of_length
    ⟨fun x hx => hsized.piece x (hmem x hx), fun x hx => hsized.again x (hmem x hx)⟩ hexact
  obtain ⟨hlow, hsmall⟩ := h.low hall hsized hts hsingle hbegins
  have hbefore : ∀ x ∈ pre, x.piece.address < 2 ^ 36 ∧ x.piece.length < 2 ^ 28 := by
    intro x hx
    obtain ⟨l, r, hpre⟩ := List.append_of_mem hx
    have hlength : dmaLength (dmaPieces pre) =
        dmaLength (dmaPieces l) + (x.piece.length + dmaLength (dmaPieces r)) := by
      rw [hpre, dmaPieces, List.map_append, dmaLength_append]
      rfl
    have hsplit : ts = l ++ x :: (r ++ t :: post) := by
      rw [hts, hpre]
      simp
    obtain ⟨hxlow, hxsmall⟩ := h.low hall hsized hsplit
      (fun y hy => hsingle y (by simp [hpre, hy])) (by omega)
    exact ⟨hxlow, by omega⟩
  refine
    { split := hts, short := (h.covered hall).1, begins := hbegins, ends := hends, single := hsingle
      low := fun x hx => ?_, small := fun x hx => (hbefore x hx).2, smallLast := by omega
      behind := fun v hv => ?_ }
  · rcases List.mem_append.mp hx with hx | hx
    · exact (hbefore x hx).1
    · rw [List.mem_singleton.mp hx]
      exact hlow
  · have hvs' : ts.flatMap Stretch.visits =
        (dmaPieces pre ++ [t.piece]) ++ (t.again ++ post.flatMap Stretch.visits) := by
      rw [hvs, flatMap_visits_single hsingle]
      simp
    have hdone : length ≤ dmaLength (dmaPieces pre ++ [t.piece]) := by
      rw [dmaLength_append]
      exact hends
    obtain ⟨b, hb, hidle⟩ := h.idle hall hpos hvs' hdone
    have hat := getElem?_dmaBytes (e := t.piece)
      (i := length - 1 - dmaLength (dmaPieces pre)) (dmaPieces pre) (dmaPieces post) (by omega)
    rw [← hpieces, show dmaLength (dmaPieces pre) + (length - 1 - dmaLength (dmaPieces pre)) = length - 1
      by omega, hb] at hat
    rw [hidle v hv, Option.some.inj hat]
    congr 1
    omega

/-- Where the pages fit, the SGEs are exact. -/
theorem PagesFit.exact (h : PagesFit ts length pre t post) (hsized : Sized ts)
    (hchain : (dmaPieces (pre ++ [t])).IsChain Unwrapped) : WalkExact ts length := by
  have hpieces : dmaPieces ts = dmaPieces pre ++ t.piece :: dmaPieces post := by
    rw [h.split]
    exact List.map_append
  have hbegins := h.begins
  have hends := h.ends
  set rest := length - dmaLength (dmaPieces pre) with hrest
  -- Of the last stretch only what is wanted is mapped.
  set es := dmaPieces pre ++ [⟨t.piece.address, rest⟩] with hes
  have hlength : dmaLength es = length := by
    rw [hes, dmaLength_append]
    show dmaLength (dmaPieces pre) + (rest + 0) = length
    omega
  have hrun : SgeMap.run ⟨[], length⟩ (dmaPieces pre ++ [t.piece]) = SgeMap.run ⟨[], length⟩ es := by
    rw [hes, SgeMap.run_append, SgeMap.run_append]
    have hleft := SgeMap.bytesToMap_run (dmaPieces pre) ⟨[], length⟩
    have hmin : min t.piece.length (SgeMap.run ⟨[], length⟩ (dmaPieces pre)).bytesToMap = rest := by
      rw [hleft]
      dsimp only
      omega
    have hput := SgeMap.put_min t.piece.address t.piece.length (SgeMap.run ⟨[], length⟩ (dmaPieces pre))
    rw [hmin] at hput
    exact hput
  have hfit : ∀ e ∈ es, e.address < 2 ^ 36 ∧ 0 < e.length ∧ e.length < 2 ^ 28 := by
    intro e he
    rcases List.mem_append.mp he with he | he
    · obtain ⟨x, hx, rfl⟩ := List.mem_map.mp he
      have hxts : x ∈ ts := by simp [h.split, hx]
      exact ⟨h.low x (by simp [hx]), (hsized.piece x hxts).1, h.small x hx⟩
    · rw [List.mem_singleton.mp he]
      exact ⟨h.low t (by simp), show 0 < rest by omega, h.smallLast⟩
  have hunwrapped : es.IsChain Unwrapped := by
    rw [dmaPieces, List.map_append] at hchain
    rw [hes]
    rw [List.isChain_append] at hchain ⊢
    exact ⟨hchain.1, List.isChain_singleton _, fun x hx y hy => by
      cases Option.some.inj hy
      exact hchain.2.2 x hx t.piece rfl⟩
  obtain ⟨hbytes, hsolid, hlast⟩ := SgeMap.run_pieces (fits_start length) nofun
    (Nat.le_of_eq hlength) hfit hunwrapped nofun
  have hzero : (SgeMap.run ⟨[], length⟩ es).bytesToMap = 0 := by
    rw [SgeMap.bytesToMap_run, hlength, Nat.sub_self]
  have hne : (SgeMap.run ⟨[], length⟩ es).sge ≠ [] := by
    rw [← hrun, SgeMap.run_append]
    exact SgeMap.run_cons_ne_nil _ _ _
  have hsame : walk ts length = SgeMap.run ⟨[], length⟩ es := by
    have hvs : ts.flatMap Stretch.visits =
        (dmaPieces pre ++ [t.piece]) ++ (t.again ++ post.flatMap Stretch.visits) := by
      rw [h.split, List.flatMap_append, flatMap_visits_single h.single, List.flatMap_cons]
      simp [Stretch.visits]
    unfold walk
    rw [Nat.mod_eq_of_lt h.short, hvs, SgeMap.run_append, hrun]
    refine SgeMap.run_same hzero ((fits_start length).run es) fun v hv => ?_
    obtain ⟨last, sge, hsge⟩ := List.exists_cons_of_ne_nil hne
    refine ⟨last, by simp [hsge], ?_⟩
    have hend := hlast last (by simp [hsge]) ⟨t.piece.address, rest⟩ (by simp [hes])
    unfold MudmSgl.endAddr
    rw [hend, h.behind v hv]
  refine ⟨?_, hsame ▸ hsolid⟩
  rw [hsame, hbytes, hpieces]
  show [] ++ dmaBytes es = _
  rw [List.nil_append, hes, dmaBytes_append, dmaBytes_append, List.take_append, length_dmaBytes,
    List.take_of_length_le (by rw [length_dmaBytes]; omega)]
  congr 1
  have hcons : dmaBytes (t.piece :: dmaPieces post) =
    List.range' t.piece.address t.piece.length ++ dmaBytes (dmaPieces post) := rfl
  have hcut : List.range' t.piece.address t.piece.length =
      List.range' t.piece.address rest ++ List.range' (t.piece.address + rest) (t.piece.length - rest) := by
    rw [List.range'_append_1]
    congr 1
    omega
  rw [hcons, List.take_append_of_le_length (by rw [List.length_range']; omega), hcut,
    List.take_left' List.length_range']
  exact List.append_nil _

/-- The SGEs of a region are the physical bytes of the pinned memory from the offset on, none of them empty
or too long for its field, and no more of them than there are pages. -/
structure RegionExact (umem : IbUmem) (length : Nat) (sge : List MudmSgl) : Prop where
  bytes : physBytes sge = ((dmaBytes umem.entries).drop umem.offset).take length
  total : totalBytes sge = length
  fields : ∀ e ∈ sge, 0 < e.memlength ∧ e.memlength < 2 ^ 28
  room : sge.length ≤ umem.pageCount

variable {umem : IbUmem} {env : RegAnswers} {mr : MemoryRegion} {start : Nat} {e : DmaEntry}

namespace IbUmem.Pinned

theorem offset_lt (h : umem.Pinned) (he : e ∈ umem.entries) : umem.offset < e.length := by
  obtain ⟨hpages, hlen⟩ := h.pages he
  have hone : umem.pageSize ≤ e.length := by
    rw [hlen]
    exact Nat.le_mul_of_pos_left _ hpages
  exact Nat.lt_of_lt_of_le h.offset hone

theorem pieces_eq (h : umem.Pinned) :
    dmaBytes (dmaPieces umem.stretches) = (dmaBytes umem.entries).drop umem.offset := by
  have hrest : ∀ es : List DmaEntry, dmaPieces (es.map fun e => ⟨e, umem.again e⟩) = es := by
    intro es
    unfold dmaPieces
    rw [List.map_map]
    exact List.map_id _
  unfold IbUmem.stretches
  cases hes : umem.entries with
  | nil => exact (List.drop_nil).symm
  | cons e es =>
    have hoff := h.offset_lt (e := e) (by simp [hes])
    have hcons : dmaBytes (e :: es) = List.range' e.address e.length ++ dmaBytes es := rfl
    rw [hcons, List.drop_append_of_le_length (by rw [List.length_range']; omega), List.drop_range',
      Nat.mul_one]
    show List.range' (e.address + umem.offset) (e.length - umem.offset) ++
      dmaBytes (dmaPieces (es.map fun e => ⟨e, umem.again e⟩)) = _
    rw [hrest]

theorem sized (h : umem.Pinned) : Sized umem.stretches := by
  have hagain : ∀ e ∈ umem.entries, ∀ v ∈ umem.again e, 0 < v.length := by
    intro e he v hv
    obtain ⟨k, -, rfl⟩ := List.mem_map.mp hv
    exact Nat.zero_lt_of_lt (h.offset_lt (e := e) he)
  have hstretch : ∀ t ∈ umem.stretches, ∃ e ∈ umem.entries, t.again = umem.again e ∧
      0 < t.piece.length ∧ t.piece.length ≤ e.length := by
    intro t ht
    unfold IbUmem.stretches at ht
    cases hes : umem.entries with
    | nil => simp [hes] at ht
    | cons e es =>
      rw [hes] at ht
      rcases List.mem_cons.mp ht with rfl | ht
      · have hoff := h.offset_lt (e := e) (by simp [hes])
        exact ⟨e, List.mem_cons_self, rfl, Nat.sub_pos_of_lt hoff, Nat.sub_le _ _⟩
      · obtain ⟨e', he', rfl⟩ := List.mem_map.mp ht
        have hoff := h.offset_lt (e := e') (by simp [hes, he'])
        exact ⟨e', List.mem_cons_of_mem e he', rfl, Nat.zero_lt_of_lt hoff, Nat.le_refl _⟩
  refine ⟨fun t ht => ?_, fun t ht => ?_⟩
  · obtain ⟨e, he, -, hpos, hle⟩ := hstretch t ht
    exact ⟨hpos, Nat.lt_of_le_of_lt hle (h.wide e he).1⟩
  · obtain ⟨e, he, hsame, -⟩ := hstretch t ht
    rw [hsame]
    exact hagain e he

theorem length_visits (h : umem.Pinned) :
    (umem.stretches.flatMap Stretch.visits).length = umem.pageCount := by
  have hone : ∀ e ∈ umem.entries, (umem.again e).length + 1 = umem.pages e := by
    intro e he
    have hpos := (h.pages he).1
    unfold IbUmem.again
    rw [List.length_map, List.length_range']
    omega
  unfold IbUmem.stretches IbUmem.pageCount
  cases hes : umem.entries with
  | nil => rfl
  | cons e es =>
    have hlens : ∀ es : List DmaEntry, (∀ e ∈ es, e ∈ umem.entries) →
        ((es.map fun e => (⟨e, umem.again e⟩ : Stretch)).flatMap Stretch.visits).length =
          (es.map umem.pages).sum := by
      intro es hmem
      induction es with
      | nil => rfl
      | cons e es ih =>
        rw [List.map_cons, List.flatMap_cons, List.length_append,
          ih fun e he => hmem e (List.mem_cons_of_mem _ he), List.map_cons, List.sum_cons,
          ← hone e (hmem e List.mem_cons_self)]
        rfl
    rw [List.flatMap_cons, List.length_append, hlens es fun e he => by simp [hes, he], List.map_cons,
      List.sum_cons, ← hone e (by simp [hes])]
    rfl

end IbUmem.Pinned

theorem regionExact_iff (hp : umem.Pinned) (hall : umem.offset + length ≤ dmaLength umem.entries) :
    RegionExact umem length (umem.mapped length).sge.reverse ↔ WalkExact umem.stretches length := by
  have hwalk : umem.mapped length = walk umem.stretches length := hp.mapped_eq length
  have hfits : (walk umem.stretches length).Fits := (fits_start _).run _
  rw [hwalk]
  constructor
  · intro h
    refine ⟨?_, fun e he => (h.fields e (List.mem_reverse.mpr he)).1⟩
    rw [hp.pieces_eq]
    exact h.bytes
  · intro h
    have hbytes : physBytes (walk umem.stretches length).sge.reverse =
        ((dmaBytes umem.entries).drop umem.offset).take length := by
      rw [← hp.pieces_eq]
      exact h.bytes
    refine
      { bytes := hbytes, total := ?_
        fields := fun e he => ⟨h.solid e (List.mem_reverse.mp he), (hfits e (List.mem_reverse.mp he)).2⟩
        room := ?_ }
    · rw [← length_physBytes, hbytes, List.length_take, List.length_drop, length_dmaBytes]
      omega
    · have hroom := SgeMap.length_sge_run (umem.stretches.flatMap Stretch.visits)
        ⟨[], length % 2 ^ 32⟩
      rw [hp.length_visits] at hroom
      rw [List.length_reverse]
      exact hroom.trans (Nat.le_of_eq (Nat.zero_add _))

theorem sge_of_bgvrnicRegUserMr (henv : env.umem = .ok umem)
    (h : bgvrnicRegUserMr env start length = .ok mr) : mr.sge = (umem.mapped length).sge.reverse := by
  unfold bgvrnicRegUserMr at h
  rw [henv] at h
  dsimp only at h
  split_ifs at h
  cases h
  rfl

/-- A registered region is exact only if the pages fit, and then it is, unless one of them begins 2^36 below
the end of the one before it. -/
theorem bgvrnicRegUserMr_exact (hp : umem.Pinned) (hpos : 0 < length)
    (hall : umem.offset + length ≤ dmaLength umem.entries) (henv : env.umem = .ok umem)
    (h : bgvrnicRegUserMr env start length = .ok mr) :
    (RegionExact umem length mr.sge → ∃ pre t post, PagesFit umem.stretches length pre t post) ∧
      ∀ pre t post, PagesFit umem.stretches length pre t post →
        (dmaPieces (pre ++ [t])).IsChain Unwrapped → RegionExact umem length mr.sge := by
  have hlength : length ≤ dmaLength (dmaPieces umem.stretches) := by
    rw [← length_dmaBytes, hp.pieces_eq, List.length_drop, length_dmaBytes]
    omega
  rw [sge_of_bgvrnicRegUserMr henv h, regionExact_iff hp hall]
  exact ⟨fun hexact => hexact.pagesFit hp.sized hpos hlength,
    fun pre t post hfit hchain => hfit.exact hp.sized hchain⟩

/-- Two adjacent pages of 4 KiB. -/
def mergedPages : IbUmem := ⟨4096, 100, [[⟨0x10000, 4096⟩, ⟨0x11000, 4096⟩]]⟩

/-- The answers of a call that goes through with this memory. -/
def granted (umem : IbUmem) : RegAnswers := ⟨.ok umem, true, 0, true, true⟩

theorem mergedPages_pinned : mergedPages.Pinned where
  pageSize := ⟨12, by decide, rfl⟩
  offset := by decide
  whole e he := ⟨1, by decide, by revert e; decide⟩
  wide := by decide

theorem bgvrnicRegUserMr_exact_merged : RegionExact mergedPages 5000 [⟨0x10064, 5000⟩] :=
  (bgvrnicRegUserMr_exact mergedPages_pinned (by decide) (by decide)
    (rfl : (granted mergedPages).umem = .ok mergedPages)
    (rfl : bgvrnicRegUserMr (granted mergedPages) 0 5000 = .ok ⟨0, 5000, [⟨0x10064, 5000⟩]⟩)).2
    [⟨⟨0x10064, 3996⟩, []⟩] ⟨⟨0x11000, 4096⟩, []⟩ []
    { split := rfl, short := by decide, begins := by decide, ends := by decide, single := by decide
      low := by decide, small := by decide, smallLast := by decide, behind := by decide }
    (by decide)

/-- The same two pages, mapped as one DMA entry. -/
def oneEntry : IbUmem := ⟨4096, 0, [[⟨0x10000, 8192⟩]]⟩

/-- The second page of the entry gets an SGE of length 0, which ends a list of SGEs; with a second entry
behind, the first one's second page is registered in its place. -/
theorem two_page_entry_walked_twice :
    oneEntry.Pinned ∧
      bgvrnicRegUserMr (granted oneEntry) 0 8192 = .ok ⟨0, 8192, [⟨0x10000, 8192⟩, ⟨0x11000, 0⟩]⟩ ∧
      ¬ RegionExact oneEntry 8192 [⟨0x10000, 8192⟩, ⟨0x11000, 0⟩] ∧
      (⟨4096, 0, [[⟨0x10000, 8192⟩, ⟨0x40000, 8192⟩]]⟩ : IbUmem).mapped 16384 =
        ⟨[⟨0x41000, 0⟩, ⟨0x40000, 0⟩, ⟨0x11000, 8192⟩, ⟨0x10000, 8192⟩], 0⟩ := by
  refine ⟨⟨⟨12, by decide, rfl⟩, by decide, fun e he => ⟨2, by decide, by revert e; decide⟩, by decide⟩,
    by rfl, fun h => ?_, by decide⟩
  have hlast := (h.fields ⟨0x11000, 0⟩ (by simp)).1
  exact absurd hlast (by decide)

end BgqVrnic
