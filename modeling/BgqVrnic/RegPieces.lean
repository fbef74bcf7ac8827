import BgqVrnic.RegUserMr

namespace BgqVrnic

def dmaBytes (es : List DmaEntry) : List Nat := es.flatMap fun e => List.range' e.address e.length

def dmaLength (es : List DmaEntry) : Nat := (es.map DmaEntry.length).sum

/-- The second piece does not begin 2^36 below the end of the first. -/
def Unwrapped (x y : DmaEntry) : Prop := y.address + 2 ^ 36 ≠ x.address + x.length

instance (x y : DmaEntry) : Decidable (Unwrapped x y) := inferInstanceAs (Decidable (_ ≠ _))

/-- Where an SGE ends, as the loops see it. -/
def MudmSgl.endAddr (e : MudmSgl) : Nat := (e.physicalAddr + e.memlength) % 2 ^ 36

namespace SgeMap

def bytes (s : SgeMap) : List Nat := physBytes s.sge.reverse

/-- What has been mapped and what is still to be. -/
def covers (s : SgeMap) : Nat := totalBytes s.sge + s.bytesToMap

/-- The fields of the SGEs have their widths. -/
def Fits (s : SgeMap) : Prop := ∀ e ∈ s.sge, e.physicalAddr < 2 ^ 36 ∧ e.memlength < 2 ^ 28

end SgeMap

variable {s : SgeMap} {vs vs' : List DmaEntry} {v e : DmaEntry} {es es' : List DmaEntry} {a n i : Nat}
  {last : MudmSgl} {sge : List MudmSgl}

theorem totalBytes_cons (e : MudmSgl) (es : List MudmSgl) :
    totalBytes (e :: es) = e.memlength + totalBytes es := rfl

theorem length_dmaBytes (es : List DmaEntry) : (dmaBytes es).length = dmaLength es := by
  unfold dmaBytes dmaLength
  rw [List.length_flatMap]
  simp only [List.length_range']

theorem dmaBytes_append (es es' : List DmaEntry) : dmaBytes (es ++ es') = dmaBytes es ++ dmaBytes es' :=
  List.flatMap_append

theorem dmaLength_append (es es' : List DmaEntry) :
    dmaLength (es ++ es') = dmaLength es + dmaLength es' := by
  unfold dmaLength
  rw [List.map_append, List.sum_append]

theorem dmaLength_cons (e : DmaEntry) (es : List DmaEntry) :
    dmaLength (e :: es) = e.length + dmaLength es := rfl

theorem length_le_dmaLength (hv : v ∈ vs) : v.length ≤ dmaLength vs := by
  induction vs with
  | nil => simp at hv
  | cons w vs ih =>
    rw [dmaLength_cons]
    rcases List.mem_cons.mp hv with rfl | hv
    · exact Nat.le_add_right _ _
    · exact (ih hv).trans (Nat.le_add_left _ _)

/-- The bytes of an entry behind others. -/
theorem getElem?_dmaBytes (es es' : List DmaEntry) (hi : i < e.length) :
    (dmaBytes (es ++ e :: es'))[dmaLength es + i]? = some (e.address + i) := by
  have hcons : dmaBytes (e :: es') = List.range' e.address e.length ++ dmaBytes es' := rfl
  rw [dmaBytes_append, List.getElem?_append_right (by rw [length_dmaBytes]; omega), length_dmaBytes,
    Nat.add_sub_cancel_left, hcons, List.getElem?_append_left (by rwa [List.length_range']),
    List.getElem?_range' hi, Nat.one_mul]

namespace SgeMap

/-- A page extends the last SGE or begins a new one. -/
theorem put_cases (a n : Nat) (s : SgeMap) :
    (∃ last sge, s.sge = last :: sge ∧ last.endAddr = a ∧
      (last.memlength + min n s.bytesToMap) % 2 ^ 32 < 2 ^ 28 ∧
      s.put a n = ⟨⟨last.physicalAddr, (last.memlength + min n s.bytesToMap) % 2 ^ 28⟩ :: sge,
        s.bytesToMap - min n s.bytesToMap⟩) ∨
    ((∀ last ∈ s.sge.head?, last.endAddr ≠ a ∨
        2 ^ 28 ≤ (last.memlength + min n s.bytesToMap) % 2 ^ 32) ∧
      s.put a n = ⟨⟨a % 2 ^ 36, min n s.bytesToMap % 2 ^ 28⟩ :: s.sge,
        s.bytesToMap - min n s.bytesToMap⟩) := by
  unfold put MudmSgl.endAddr mudmMaxSglLength
  cases hs : s.sge with
  | nil => exact Or.inr ⟨by simp, rfl⟩
  | cons last sge =>
    dsimp only
    by_cases hnew : (last.physicalAddr + last.memlength) % 2 ^ 36 ≠ a ∨
        2 ^ 28 ≤ (last.memlength + min n s.bytesToMap) % 2 ^ 32
    · rw [if_pos hnew]
      exact Or.inr ⟨by simpa using hnew, rfl⟩
    · rw [if_neg hnew]
      obtain ⟨hend, hlen⟩ := not_or.mp hnew
      exact Or.inl ⟨last, sge, rfl, not_not.mp hend, Nat.not_le.mp hlen, rfl⟩

theorem bytesToMap_put (a n : Nat) (s : SgeMap) : (s.put a n).bytesToMap = s.bytesToMap - n := by
  rcases put_cases a n s with ⟨last, sge, -, -, -, hput⟩ | ⟨-, hput⟩
  · rw [hput]
    dsimp only
    omega
  · rw [hput]
    dsimp only
    omega

theorem bytesToMap_run (vs : List DmaEntry) (s : SgeMap) :
    (s.run vs).bytesToMap = s.bytesToMap - dmaLength vs := by
  induction vs generalizing s with
  | nil => rfl
  | cons v vs ih =>
    have hstep := ih (s.put v.address v.length)
    rw [bytesToMap_put] at hstep
    rw [dmaLength_cons]
    exact hstep.trans (by omega)

theorem length_sge_put (a n : Nat) (s : SgeMap) : (s.put a n).sge.length ≤ s.sge.length + 1 := by
  rcases put_cases a n s with ⟨last, sge, hs, -, -, hput⟩ | ⟨-, hput⟩
  · rw [hput, hs]
    simp
  · rw [hput]
    simp

theorem length_sge_run (vs : List DmaEntry) (s : SgeMap) :
    (s.run vs).sge.length ≤ s.sge.length + vs.length := by
  induction vs generalizing s with
  | nil => exact Nat.le_refl _
  | cons v vs ih =>
    have hstep := ih (s.put v.address v.length)
    have hone := length_sge_put v.address v.length s
    rw [List.length_cons]
    exact hstep.trans (by omega)

theorem Fits.put (h : s.Fits) (a n : Nat) : (s.put a n).Fits := by
  rcases put_cases a n s with ⟨last, sge, hs, -, -, hput⟩ | ⟨-, hput⟩
  · rw [hput]
    intro e he
    rcases List.mem_cons.mp he with rfl | he
    · exact ⟨(h last (by simp [hs])).1, Nat.mod_lt _ (Nat.two_pow_pos 28)⟩
    · exact h e (by simp [hs, he])
  · rw [hput]
    intro e he
    rcases List.mem_cons.mp he with rfl | he
    · exact ⟨Nat.mod_lt _ (Nat.two_pow_pos 36), Nat.mod_lt _ (Nat.two_pow_pos 28)⟩
    · exact h e he

theorem Fits.run (h : s.Fits) (vs : List DmaEntry) : (s.run vs).Fits := by
  induction vs generalizing s with
  | nil => exact h
  | cons v vs ih => exact ih (h.put v.address v.length)

/-- Bytes may get lost, but do not come from nowhere. -/
theorem covers_put (a n : Nat) (s : SgeMap) : (s.put a n).covers ≤ s.covers := by
  unfold covers
  rcases put_cases a n s with ⟨last, sge, hs, -, -, hput⟩ | ⟨-, hput⟩
  · rw [hput, hs, totalBytes_cons, totalBytes_cons]
    dsimp only
    have hmod := Nat.mod_le (last.memlength + min n s.bytesToMap) (2 ^ 28)
    omega
  · rw [hput, totalBytes_cons]
    dsimp only
    have hmod := Nat.mod_le (min n s.bytesToMap) (2 ^ 28)
    omega

theorem covers_run (vs : List DmaEntry) (s : SgeMap) : (s.run vs).covers ≤ s.covers := by
  induction vs generalizing s with
  | nil => exact Nat.le_refl _
  | cons v vs ih => exact (ih _).trans (covers_put _ _ _)

theorem bytes_cons (e : MudmSgl) (sge : List MudmSgl) (b : Nat) :
    bytes ⟨e :: sge, b⟩ = physBytes sge.reverse ++ List.range' e.physicalAddr e.memlength := by
  unfold bytes
  rw [List.reverse_cons, physBytes_append]
  simp [physBytes]

theorem length_bytes (s : SgeMap) : s.bytes.length = totalBytes s.sge := by
  unfold bytes
  rw [length_physBytes]
  unfold totalBytes
  rw [List.map_reverse, List.sum_reverse]

/-- A page that loses no bytes adds them behind the others, from its address on as far as 36 bits show. -/
theorem put_adds (hf : s.Fits) (h : (s.put a n).covers = s.covers) :
    min n s.bytesToMap < 2 ^ 28 ∧ ∃ b, (s.put a n).bytes = s.bytes ++
      List.range' b (min n s.bytesToMap) ∧ b % 2 ^ 36 = a % 2 ^ 36 ∧ (b = a → a < 2 ^ 36) := by
  unfold covers at h
  rcases put_cases a n s with ⟨last, sge, hs, hend, hshort, hput⟩ | ⟨-, hput⟩
  · have hfit := hf last (by simp [hs])
    rw [hput, hs, totalBytes_cons, totalBytes_cons] at h
    dsimp only at h
    have hkeep : (last.memlength + min n s.bytesToMap) % 2 ^ 28 =
        last.memlength + min n s.bytesToMap := by omega
    have hold : s.bytes = physBytes sge.reverse ++ List.range' last.physicalAddr last.memlength := by
      have hbytes := bytes_cons last sge s.bytesToMap
      rwa [← hs] at hbytes
    have hlt := Nat.mod_lt (last.memlength + min n s.bytesToMap) (Nat.two_pow_pos 28)
    refine ⟨by omega, last.physicalAddr + last.memlength, ?_, ?_, fun _ => ?_⟩
    · rw [hput, bytes_cons, hkeep, hold, List.append_assoc, List.range'_append_1]
    · rw [← hend]
      exact (Nat.mod_mod _ _).symm
    · rw [← hend]
      exact Nat.mod_lt _ (Nat.two_pow_pos 36)
  · rw [hput, totalBytes_cons] at h
    dsimp only at h
    have hkeep : min n s.bytesToMap % 2 ^ 28 = min n s.bytesToMap := by omega
    have hlt := Nat.mod_lt (min n s.bytesToMap) (Nat.two_pow_pos 28)
    refine ⟨by omega, a % 2 ^ 36, ?_, Nat.mod_mod _ _, fun hb => ?_⟩
    · rw [hput, bytes_cons, hkeep]
      rfl
    · rw [← hb]
      exact Nat.mod_lt _ (Nat.two_pow_pos 36)

/-- Pages that lose no bytes leave those before them where they are. -/
theorem run_adds (hf : s.Fits) (h : (s.run vs).covers = s.covers) : s.bytes <+: (s.run vs).bytes := by
  induction vs generalizing s with
  | nil => exact List.prefix_rfl
  | cons v vs ih =>
    have hone := covers_put v.address v.length s
    have hrest := covers_run vs (s.put v.address v.length)
    have hput : (s.put v.address v.length).covers = s.covers :=
      Nat.le_antisymm hone (h ▸ hrest)
    obtain ⟨-, b, hbytes, -⟩ := put_adds hf hput
    refine List.IsPrefix.trans ?_ (ih (hf.put v.address v.length) (h.trans hput.symm))
    rw [hbytes]
    exact List.prefix_append _ _

/-- The SGEs are all of some length. -/
def Solid (s : SgeMap) : Prop := ∀ e ∈ s.sge, 0 < e.memlength

/-- When all has been mapped, a page that does not lie where the last SGE ends gets one of length 0. -/
theorem put_idle (h : s.bytesToMap = 0) (hsolid : (s.put a n).Solid) (hf : s.Fits) :
    s.Solid ∧ (∃ last ∈ s.sge.head?, last.endAddr = a) ∧ s.put a n = s := by
  have hmin : min n s.bytesToMap = 0 := by rw [h, Nat.min_zero]
  rcases put_cases a n s with ⟨last, sge, hs, hend, -, hput⟩ | ⟨-, hput⟩
  · have hsame : s.put a n = s := by
      have hlen : last.memlength % 2 ^ 28 = last.memlength := Nat.mod_eq_of_lt (hf last (by simp [hs])).2
      rw [hput, hmin, Nat.add_zero, hlen, Nat.sub_zero, ← hs]
    exact ⟨hsame ▸ hsolid, ⟨last, by simp [hs], hend⟩, hsame⟩
  · rw [hput, hmin] at hsolid
    exact absurd (hsolid _ List.mem_cons_self) (Nat.lt_irrefl 0)

theorem run_idle (h : s.bytesToMap = 0) (hsolid : (s.run vs).Solid) (hf : s.Fits) :
    s.Solid ∧ (∀ v ∈ vs, ∃ last ∈ s.sge.head?, last.endAddr = v.address) ∧ s.run vs = s := by
  induction vs generalizing s with
  | nil => exact ⟨hsolid, by simp, rfl⟩
  | cons v vs ih =>
    have hzero : (s.put v.address v.length).bytesToMap = 0 := by rw [bytesToMap_put, h, Nat.zero_sub]
    obtain ⟨hput, hall, hrun⟩ := ih hzero hsolid (hf.put v.address v.length)
    obtain ⟨hs, hend, hsame⟩ := put_idle h hput hf
    rw [hsame] at hall hrun
    refine ⟨hs, fun w hw => ?_, ?_⟩
    · rcases List.mem_cons.mp hw with rfl | hw
      · exact hend
      · exact hall w hw
    · show (s.put v.address v.length).run vs = s
      rw [hsame]
      exact hrun

/-- Once the bytes are used up, a page where the last SGE ends changes nothing. -/
theorem put_same (h : s.bytesToMap = 0) (hf : s.Fits) (hend : ∃ last ∈ s.sge.head?, last.endAddr = a) :
    s.put a n = s := by
  obtain ⟨last, hlast, hend⟩ := hend
  have hmin : min n s.bytesToMap = 0 := by rw [h, Nat.min_zero]
  have hlen : last.memlength < 2 ^ 28 := (hf last (List.mem_of_mem_head? hlast)).2
  rcases put_cases a n s with ⟨last', sge, hs, -, -, hput⟩ | ⟨hnew, -⟩
  · have hl : last' = last := by simpa [hs] using hlast
    subst hl
    rw [hput, hmin, Nat.add_zero, Nat.mod_eq_of_lt hlen, Nat.sub_zero, ← hs]
  · rcases hnew last hlast with hne | hfull
    · exact absurd hend hne
    · rw [hmin, Nat.add_zero] at hfull
      omega

theorem run_same (h : s.bytesToMap = 0) (hf : s.Fits)
    (hend : ∀ v ∈ vs, ∃ last ∈ s.sge.head?, last.endAddr = v.address) : s.run vs = s := by
  induction vs with
  | nil => rfl
  | cons v vs ih =>
    show (s.put v.address v.length).run vs = s
    rw [put_same h hf (hend v List.mem_cons_self)]
    exact ih fun w hw => hend w (List.mem_cons_of_mem v hw)

/-- Only as much of a page counts as is still to be mapped. -/
theorem put_min (a n : Nat) (s : SgeMap) : s.put a n = s.put a (min n s.bytesToMap) := by
  unfold put
  rw [Nat.min_assoc, Nat.min_self]

/-- A page that fits its SGE is added behind the others, unless the last SGE ends 2^36 above it. -/
theorem put_next (hf : s.Fits) (hsolid : s.Solid) (ha : a < 2 ^ 36) (hn : 0 < n) (hlong : n < 2 ^ 28)
    (hleft : n ≤ s.bytesToMap)
    (hwrap : ∀ last ∈ s.sge.head?, a + 2 ^ 36 ≠ last.physicalAddr + last.memlength) :
    (s.put a n).bytes = s.bytes ++ List.range' a n ∧ (s.put a n).Solid ∧
      ∀ last ∈ (s.put a n).sge.head?, last.physicalAddr + last.memlength = a + n := by
  have hmin : min n s.bytesToMap = n := Nat.min_eq_left hleft
  rcases put_cases a n s with ⟨last, sge, hs, hend, hshort, hput⟩ | ⟨-, hput⟩
  · have hfit := hf last (by simp [hs])
    have hsum : last.physicalAddr + last.memlength = a := by
      have hne := hwrap last (by simp [hs])
      unfold MudmSgl.endAddr at hend
      omega
    rw [hmin] at hshort hput
    have hkeep : (last.memlength + n) % 2 ^ 28 = last.memlength + n := by omega
    have hold : s.bytes = physBytes sge.reverse ++ List.range' last.physicalAddr last.memlength := by
      have hbytes := bytes_cons last sge s.bytesToMap
      rwa [← hs] at hbytes
    rw [hput, hkeep]
    refine ⟨?_, fun e he => ?_, fun e he => ?_⟩
    · rw [bytes_cons, hold, List.append_assoc, ← hsum, List.range'_append_1]
    · rcases List.mem_cons.mp he with rfl | he
      · exact Nat.add_pos_right _ hn
      · exact hsolid e (by simp [hs, he])
    · cases Option.some.inj he
      show last.physicalAddr + (last.memlength + n) = a + n
      omega
  · rw [hmin, Nat.mod_eq_of_lt ha, Nat.mod_eq_of_lt hlong] at hput
    rw [hput]
    refine ⟨bytes_cons _ _ _, fun e he => ?_, fun e he => ?_⟩
    · rcases List.mem_cons.mp he with rfl | he
      · exact hn
      · exact hsolid e he
    · cases Option.some.inj he
      rfl

/-- Pieces below 2^36 of less than 2^28 bytes each are mapped one behind the other. -/
theorem run_pieces (hf : s.Fits) (hsolid : s.Solid) (hleft : dmaLength es ≤ s.bytesToMap)
    (hes : ∀ e ∈ es, e.address < 2 ^ 36 ∧ 0 < e.length ∧ e.length < 2 ^ 28)
    (hchain : es.IsChain Unwrapped)
    (hwrap : ∀ last ∈ s.sge.head?, ∀ e ∈ es.head?,
      e.address + 2 ^ 36 ≠ last.physicalAddr + last.memlength) :
    (s.run es).bytes = s.bytes ++ dmaBytes es ∧ (s.run es).Solid ∧
      ∀ last ∈ (s.run es).sge.head?, ∀ e ∈ es.getLast?,
        last.physicalAddr + last.memlength = e.address + e.length := by
  induction es generalizing s with
  | nil => exact ⟨(List.append_nil _).symm, hsolid, by simp⟩
  | cons e es ih =>
    rw [dmaLength_cons] at hleft
    obtain ⟨ha, hpos, hlong⟩ := hes e List.mem_cons_self
    obtain ⟨hbytes, hsolid', hlast⟩ := put_next hf hsolid ha hpos hlong (by omega)
      fun last hl => hwrap last hl e rfl
    have hroom : dmaLength es ≤ (s.put e.address e.length).bytesToMap := by
      rw [bytesToMap_put]
      omega
    have hnext : ∀ last ∈ (s.put e.address e.length).sge.head?, ∀ f ∈ es.head?,
        f.address + 2 ^ 36 ≠ last.physicalAddr + last.memlength := by
      intro last hl f hf
      rw [hlast last hl]
      cases es with
      | nil => simp at hf
      | cons f' es =>
        cases Option.some.inj hf
        exact (List.isChain_cons_cons.mp hchain).1
    obtain ⟨hbytes', hsolid'', hlast'⟩ := ih (hf.put e.address e.length) hsolid' hroom
      (fun f hf => hes f (List.mem_cons_of_mem e hf)) hchain.of_cons hnext
    refine ⟨?_, hsolid'', fun last hl f hf => ?_⟩
    · show ((s.put e.address e.length).run es).bytes = _
      rw [hbytes', hbytes, List.append_assoc]
      rfl
    · cases es with
      | nil =>
        cases Option.some.inj hf
        exact hlast last hl
      | cons f' es => exact hlast' last hl f hf

end SgeMap

end BgqVrnic
