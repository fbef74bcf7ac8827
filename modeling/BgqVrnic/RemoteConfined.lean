import BgqVrnic.RemoteAccess
import BgqVrnic.RecvReport

namespace BgqVrnic

open RemoteRequest

variable {mrs : RegionTable} {mr : MemoryRegion} {op : RdmaOp} {wr : RecvWr}
variable {pkt : SendRemotePayload} {pieces : List MudmSgl} {n : Nat}

theorem toU32_toInt32 (h : n < 2 ^ 32) : toU32 (toInt32 n) = n := by
  have := toInt32_emod n
  unfold toU32
  omega

/-- The two ranges of an `int` that was assigned an unsigned number. -/
theorem toInt32_natCast (n : Nat) :
    toInt32 n = if n % 2 ^ 32 < 2 ^ 31 then ((n % 2 ^ 32 : Nat) : Int)
      else ((n % 2 ^ 32 : Nat) : Int) - 2 ^ 32 := by
  have hmod : toInt32 n = Int.bmod ((n % 2 ^ 32 : Nat) : Int) (2 ^ 32) := by
    rw [Int.natCast_emod]
    exact (Int.emod_bmod ..).symm
  rw [hmod]
  by_cases hn : n % 2 ^ 32 < 2 ^ 31
  · rw [if_pos hn]
    exact Int.bmod_eq_of_le (by omega) (by omega)
  · rw [if_neg hn, ← Int.sub_bmod_right]
    exact Int.bmod_eq_of_le (by omega) (by omega)

theorem toU64_toInt32 (h : n < 2 ^ 31) : toU64 (toInt32 n) = n := by
  rw [toInt32_natCast, Nat.mod_eq_of_lt (by omega), if_pos h]
  unfold toU64
  omega

/-- A length that is negative as an `int` is asked for as a huge number of bytes. -/
theorem toU64_toInt32_ge (h : n < 2 ^ 32) (hneg : 2 ^ 31 ≤ n) : 2 ^ 32 ≤ toU64 (toInt32 n) := by
  rw [toInt32_natCast, Nat.mod_eq_of_lt h, if_neg (by omega)]
  unfold toU64
  omega

theorem serve_rdma {stack sge : Nat → MudmSgl} {rounds : Nat} {x : Xlation}
    (hx : bgvrnicXlateSgl mrs [⟨pkt.remoteVaddr, pkt.dataLength, pkt.rkey⟩] stack mudmMaxSge =
      some x) (hrc : toU32 x.rc = pkt.dataLength) :
    ((rdma op pkt).withSge sge).serve mrs stack rounds =
      some (x.numPsge, op.call (toU64 x.rc) pkt.rdmaObject x.psge sge rounds) := by
  simp [withSge, serve, muRecvRdma, hx, hrc]

theorem rdma_unknown_confined (hmr : mrs pkt.rkey = none) :
    Confined mrs (.rdma op pkt) ↔ pkt.dataLength ≠ toU32 (-ENOMEM) := by
  have hx : ∀ stack, bgvrnicXlateSgl mrs [⟨pkt.remoteVaddr, pkt.dataLength, pkt.rkey⟩] stack
      mudmMaxSge = some ⟨-ENOMEM, stack, mudmMaxSge⟩ := by
    intro stack
    simp [bgvrnicXlateSgl, xlateFrom, hmr]
  constructor
  · intro hconf hlen
    have hzero : ∀ i, bytesBefore emptyEntries i = 0 := by
      intro i
      induction i with
      | zero => rfl
      | succ i ih => simp [bytesBefore, ih, emptyEntries]
    have hsum : ∀ i, bytesBefore emptyEntries i % 2 ^ 32 < toU64 (-ENOMEM) := by
      intro i
      rw [hzero i]
      decide
    have hlive : ∀ i, (emptyEntries i).physicalAddr ≠ 0 := fun i => Nat.one_ne_zero
    obtain ⟨sge, rounds, p, hp, -⟩ :=
      op.call_endless pkt.rdmaObject hlive hsum 0
    obtain ⟨-, f, hf, -⟩ := hconf _ _ _ _ _ (serve_rdma (hx emptyEntries) hlen.symm) p hp
    simp [memory, hmr] at hf
  · intro hlen stack sge rounds num dma hserve
    simp [withSge, serve, muRecvRdma, hx, hlen.symm] at hserve

theorem rdma_known_confined (hp : Physical mrs) (hlen : pkt.dataLength < 2 ^ 32)
    (hmr : mrs pkt.rkey = some mr)
    (hslice : regionSlice mr.sge (regionOffset mr pkt.remoteVaddr) pkt.dataLength = pieces) :
    Confined mrs (.rdma op pkt) ↔
      pieces = [] ∨
        if mudmMaxSge ≤ pieces.length then pkt.dataLength ≠ toU32 (-E2BIG)
        else pkt.dataLength < 2 ^ 31 ∧ totalBytes pieces = pkt.dataLength := by
  have hwithin : ∀ f ∈ pieces, f.Within mr.sge := by
    intro f hf
    exact regionSlice_within (hslice ▸ hf)
  have hphys : ∀ f ∈ pieces, 0 < f.physicalAddr ∧ f.memlength < 2 ^ 28 := by
    intro f hf
    exact (hwithin f hf).short hp hmr
  have hle : totalBytes pieces ≤ pkt.dataLength := hslice ▸ totalBytes_regionSlice_le
  by_cases hne : pieces = []
  · simp only [hne, true_or, iff_true]
    intro stack sge rounds num dma hserve
    have hnone : bgvrnicXlateSgl mrs [⟨pkt.remoteVaddr, pkt.dataLength, pkt.rkey⟩] stack
        mudmMaxSge = none := xlate_outside hmr (hslice.trans hne)
    simp [withSge, serve, muRecvRdma, hnone] at hserve
  · have hone : ∀ stack, ∃ x, bgvrnicXlateSgl mrs
        [⟨pkt.remoteVaddr, pkt.dataLength, pkt.rkey⟩] stack mudmMaxSge = some x ∧
        x.Holds stack (pieces.take mudmMaxSge) ∧
        x.rc = if mudmMaxSge ≤ pieces.length then -E2BIG else toInt32 pkt.dataLength := by
      intro stack
      subst hslice
      exact xlate_one hp.placed hmr hne (by decide)
    -- A result that gets past the check and asks for more than the pieces hold overruns them.
    have hoverrun : ∀ rc, rc = (if mudmMaxSge ≤ pieces.length then -E2BIG
          else toInt32 pkt.dataLength) → toU32 rc = pkt.dataLength →
        (totalBytes (pieces.take mudmMaxSge) < toU64 rc ∨ 2 ^ 32 ≤ toU64 rc) →
        ¬ Confined mrs (.rdma op pkt) := by
      intro rc hrcs hlength hshort hconf
      obtain ⟨x, hx, hholds, hrc⟩ := hone emptyEntries
      have hrc : x.rc = rc := hrc.trans hrcs.symm
      obtain ⟨sge, rounds, p, hput, hentry⟩ := op.call_overruns pkt.rdmaObject hholds
        (fun f hf => (hphys f (List.mem_of_mem_take hf)).1) hshort
      rw [← hrc] at hput hlength
      have := (hconf _ _ _ _ _ (serve_rdma hx hlength) p hput).1
      omega
    simp only [hne, false_or]
    by_cases hfull : mudmMaxSge ≤ pieces.length
    · simp only [hfull, if_true] at hone hoverrun ⊢
      constructor
      · intro hconf hlength
        exact hoverrun (-E2BIG) rfl hlength.symm (Or.inr (by decide)) hconf
      · intro hlength stack sge rounds num dma hserve
        obtain ⟨x, hx, -, hrc⟩ := hone stack
        simp [withSge, serve, muRecvRdma, hx, hrc, hlength.symm] at hserve
    · rw [List.take_of_length_le (by omega)] at hone hoverrun
      simp only [hfull, if_false] at hone hoverrun ⊢
      have hcheck := toU32_toInt32 hlen
      constructor
      · intro hconf
        by_contra hnot
        refine hoverrun (toInt32 pkt.dataLength) rfl hcheck ?_ hconf
        by_cases hpos : pkt.dataLength < 2 ^ 31
        · rw [toU64_toInt32 hpos]
          exact Or.inl (by omega)
        · exact Or.inr (toU64_toInt32_ge hlen (by omega))
      · rintro ⟨hpos, htotal⟩ stack sge rounds num dma hserve p hput
        obtain ⟨x, hx, hholds, hrc⟩ := hone stack
        rw [serve_rdma hx (hrc ▸ hcheck), hrc, toU64_toInt32 hpos] at hserve
        cases hserve
        obtain ⟨hentry, hin⟩ := RdmaOp.call_within hholds
          (fun f hf => (hphys f hf).2) hne (by omega) hpos hput
        exact ⟨hentry, hin.trans (by simpa [memory, hmr] using hwithin)⟩

theorem serve_message {stack sge : Nat → MudmSgl} {rounds : Nat} {x : Xlation}
    (hx : bgvrnicXlateSgl mrs wr.sgList stack mudmMaxSge = some x) (hrc : 0 ≤ x.rc) :
    ((message wr pkt).withSge sge).serve mrs stack rounds =
      some (x.numPsge,
        RdmaOp.read.call (min x.rc.toNat pkt.dataLength) pkt.rdmaObject x.psge sge rounds) := by
  have hneg : ¬ x.rc < 0 := by omega
  simp [withSge, serve, recvRemoteRead, hx, hneg, RdmaOp.call]

/-- The translation of a receive buffer is good exactly for good keys and addresses, less than 58 pieces
and less than 2 GiB. -/
theorem recvBuffer_outcome (hp : Physical mrs) (wr : RecvWr) (stack : Nat → MudmSgl) :
    (∃ x pieces, bgvrnicXlateSgl mrs wr.sgList stack mudmMaxSge = some x ∧ 0 ≤ x.rc ∧
        x.Holds stack pieces ∧ x.rc.toNat = wr.capacity % 2 ^ 32 ∧
        scatterSlices mrs wr.sgList = some pieces ∧ pieces.length < mudmMaxSge ∧
        wr.capacity % 2 ^ 32 < 2 ^ 31) ∨
      (∀ x, bgvrnicXlateSgl mrs wr.sgList stack mudmMaxSge = some x → x.rc < 0) ∧
        ∀ pieces, scatterSlices mrs wr.sgList = some pieces → pieces.length < mudmMaxSge →
          ¬ wr.capacity % 2 ^ 32 < 2 ^ 31 := by
  have hstart : PieceArea.Holds ⟨stack, 0⟩ stack [] := ⟨rfl, by simp, fun i _ => rfl⟩
  by_cases hgood : ∃ x, bgvrnicXlateSgl mrs wr.sgList stack mudmMaxSge = some x ∧ 0 ≤ x.rc
  · obtain ⟨x, hx, hrc⟩ := hgood
    obtain ⟨pieces, hpieces, hlen, hholds⟩ := xlateFrom_holds hp.placed hstart (by decide) hx hrc
    obtain ⟨hmod, hlt⟩ := xlateFrom_total (by decide) hx hrc
    have hcap : ((wr.sgList.map IbSge.length).sum : Int) = wr.capacity := rfl
    refine Or.inl ⟨x, pieces, hx, hrc, hholds, ?_, hpieces, hlen, ?_⟩
    · omega
    · omega
  · refine Or.inr ⟨fun x hx => ?_, fun pieces hpieces hlen hlt => ?_⟩
    · by_contra hrc
      exact hgood ⟨x, hx, Int.not_lt.mp hrc⟩
    · obtain ⟨x, hx, -, hrc⟩ := xlateFrom_fits hp.placed hstart hpieces
        (by rw [List.length_nil, Nat.zero_add]; exact hlen) (show toInt32 0 = 0 by decide)
      apply hgood
      refine ⟨x, hx, ?_⟩
      have hcap : (wr.sgList.map IbSge.length).sum = wr.capacity := rfl
      have hmod := toInt32_emod (wr.capacity : Int)
      have hlow := toInt32_ge (wr.capacity : Int)
      rw [Int.zero_add, hcap] at hrc
      omega

/-- A read of no bytes from an entry without bytes still sends a put. -/
theorem read_nothing (rdmaObject : Nat) {l : Nat → MudmSgl} (h : l 0 = ⟨1, 0⟩) :
    ∃ p ∈ (RdmaOp.read.call 0 rdmaObject l emptyEntries 1).puts, p.entry = 0 := by
  simp [RdmaOp.call, mudmRdmaRead, readLoop, Walk.start, Walk.live, Walk.sum, Walk.chunk, Walk.put,
    finishRead, ReadWalk.flush, ReadWalk.makeRoom, emptyEntries, h]

/-- A covered message is one whose buffer, if it can be translated at all, has SGEs, and pieces with
room for the bytes that are read. -/
theorem message_covered_iff : Covered mrs (.message wr pkt) ↔
    ∀ pieces, scatterSlices mrs wr.sgList = some pieces → pieces.length < mudmMaxSge →
      wr.capacity % 2 ^ 32 < 2 ^ 31 →
        wr.sgList ≠ [] ∧ min (wr.capacity % 2 ^ 32) pkt.dataLength ≤ totalBytes pieces := by
  have hcap : (wr.sgList.map IbSge.length).sum = wr.capacity := rfl
  cases hs : scatterSlices mrs wr.sgList with
  | none => simp [Covered, hs]
  | some pieces =>
    simp only [Covered, hs, hcap]
    constructor
    · intro hcov l hl hroom hlt
      cases Option.some.inj hl
      rcases hcov with hfull | hneg | hfits
      · omega
      · omega
      · exact hfits
    · intro hcov
      by_cases hfull : mudmMaxSge ≤ pieces.length
      · exact Or.inl hfull
      by_cases hneg : 2 ^ 31 ≤ wr.capacity % 2 ^ 32
      · exact Or.inr (Or.inl hneg)
      · exact Or.inr (Or.inr (hcov pieces rfl (Nat.lt_of_not_le hfull) (Nat.lt_of_not_le hneg)))

/-- The put that is sent for a WQE without buffers uses an entry off the stack, and so does one for
bytes that the pieces have no room for. -/
theorem message_covered_of_confined (hp : Physical mrs)
    (hconf : Confined mrs (.message wr pkt)) : Covered mrs (.message wr pkt) := by
  refine message_covered_iff.mpr fun pieces hs hroom hlt => ?_
  rcases recvBuffer_outcome hp wr emptyEntries with
    ⟨x, pieces', hx, hpos, hholds, hbytes, hs', -, -⟩ | ⟨-, hbad⟩
  · rw [hs] at hs'
    cases Option.some.inj hs'
    have hnum : x.numPsge = pieces.length := hholds.count
    have hentries : ∀ sge rounds,
        ∀ p ∈ (RdmaOp.read.call (min x.rc.toNat pkt.dataLength) pkt.rdmaObject x.psge sge
          rounds).puts, p.entry < x.numPsge :=
      fun sge rounds p hput => (hconf _ _ _ _ _ (serve_message hx hpos) p hput).1
    refine ⟨fun hnil => ?_, ?_⟩
    · have hpieces : pieces = [] := by
        rw [hnil] at hs
        exact (Option.some.inj hs).symm
      have hzero : min x.rc.toNat pkt.dataLength = 0 := by
        rw [hbytes, RecvWr.capacity, hnil]
        simp
      rw [hpieces] at hholds
      obtain ⟨p, hput, -⟩ := read_nothing pkt.rdmaObject (hholds.behind 0 (Nat.le_refl _))
      rw [← hzero] at hput
      have hlt := hentries _ _ p hput
      rw [hnum, hpieces, List.length_nil] at hlt
      omega
    · by_contra hshort
      obtain ⟨sge, rounds, p, hput, hentry⟩ := RdmaOp.read.call_overruns pkt.rdmaObject hholds
        (fun f hf => (scatterSlices_short hp hs hf).1) (Or.inl (Nat.lt_of_not_le hshort))
      rw [← hbytes] at hput
      have := hentries sge rounds p hput
      omega
  · exact absurd hlt (hbad pieces hs hroom)

theorem message_confined_of_covered (hp : Physical mrs)
    (hcov : Covered mrs (.message wr pkt)) : Confined mrs (.message wr pkt) := by
  intro stack sge rounds num dma hserve p hput
  rcases recvBuffer_outcome hp wr stack with
    ⟨x, pieces, hx, hpos, hholds, hbytes, hs, hroom, hlt⟩ | ⟨hneg, -⟩
  · obtain ⟨hne, hcover⟩ := message_covered_iff.mp hcov pieces hs hroom hlt
    have hne' : pieces ≠ [] := by
      intro hnil
      rw [hnil] at hs
      exact hne (scatterSlices_eq_nil hs)
    have hmem : (message wr pkt).memory mrs = pieces := by simp [memory, hs]
    rw [serve_message hx hpos, hbytes] at hserve
    cases hserve
    rw [hmem]
    exact RdmaOp.call_within hholds (fun f hf => (scatterSlices_short hp hs hf).2) hne' hcover
      (Nat.lt_of_le_of_lt (Nat.min_le_left ..) (by omega)) hput
  · -- A work request whose translation fails is a `BUG`.
    obtain ⟨x, hx, hserve⟩ := Option.bind_eq_some_iff.mp hserve
    simp [hneg x hx] at hserve

theorem message_confined (hp : Physical mrs) :
    Confined mrs (.message wr pkt) ↔ Covered mrs (.message wr pkt) :=
  ⟨message_covered_of_confined hp, message_confined_of_covered hp⟩

/-- A request is confined to its memory, for any list of the peer's and any stack, exactly when the
translation covers it. -/
theorem remote_access_confined_iff {req : RemoteRequest} (hp : Physical mrs)
    (hlen : req.pkt.dataLength < 2 ^ 32) : Confined mrs req ↔ Covered mrs req := by
  cases req with
  | message wr pkt => exact message_confined hp
  | rdma op pkt =>
    cases hmr : mrs pkt.rkey with
    | none =>
      simp only [Covered, hmr]
      exact rdma_unknown_confined hmr
    | some mr =>
      simp only [Covered, hmr]
      exact rdma_known_confined hp hlen hmr rfl

/-- A device that knows one region, of two pages. -/
def twoPages : RegionTable := fun k =>
  if k = 1 then some ⟨0x10000, 8192, [⟨0x4000, 8192⟩]⟩ else none

theorem twoPages_physical : Physical twoPages := by
  intro k mr hmr e he
  by_cases hk : k = 1
  · rw [twoPages, if_pos hk] at hmr
    cases hmr
    obtain rfl := List.mem_singleton.mp he
    decide
  · rw [twoPages, if_neg hk] at hmr
    cases hmr

/-- A request for bytes of that region from its start on. -/
def pageRequest (dataLength : Nat) (sge : Nat → MudmSgl) : SendRemotePayload :=
  { requestID := 1, remoteVaddr := 0x10000, rkey := 1, sglNum := 1, dataLength := dataLength
    immediateData := 0, flags := 0, rdmaObject := 0x800, sge := sge }

theorem remote_access_confined_iff_read :
    Confined twoPages (.rdma .read (pageRequest 8192 emptyEntries)) := by
  have hcovered : Covered twoPages (.rdma .read (pageRequest 8192 emptyEntries)) := by
    simp [Covered, twoPages, pageRequest, regionSlice, regionOffset, locate, takeBytes, totalBytes,
      mudmMaxSge]
  exact (remote_access_confined_iff twoPages_physical (by decide)).mpr hcovered

/-- Eight bytes more than the region has are read from wherever the stack points to. -/
theorem write_past_region :
    ¬ Confined twoPages (.rdma .write (pageRequest 8200 emptyEntries)) := by
  intro hconf
  let stack : Nat → MudmSgl := fun _ => ⟨0x9000, 8⟩
  let remote : Nat → MudmSgl := fun _ => ⟨0x1000, 8200⟩
  have hserve : ((rdma .write (pageRequest 8200 emptyEntries)).withSge remote).serve twoPages stack 2 =
      some (1, ⟨[⟨0, 0x4000, 0x1000, 8192⟩, ⟨1, 0x9000, 0x3000, 8⟩], false, some 0⟩) := by
    decide +kernel
  have hentry := (hconf _ _ _ _ _ hserve ⟨1, 0x9000, 0x3000, 8⟩ (by simp)).1
  exact absurd hentry (by decide)

end BgqVrnic
