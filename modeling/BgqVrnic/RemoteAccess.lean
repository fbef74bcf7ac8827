import BgqVrnic.WalkBounds
import BgqVrnic.VerbsTypes

namespace BgqVrnic

inductive RdmaOp
  | read | write
  deriving DecidableEq, Repr, Inhabited

/-- A C `uint64_t` after an assignment from an `int`. -/
def toU64 (x : Int) : Nat := (x % 2 ^ 64).toNat

def RdmaOp.call (op : RdmaOp) (bytesXfer rdmaObject : Nat) (localSgl remoteSgl : Nat → MudmSgl)
    (rounds : Nat) : Dma :=
  match op with
  | .read => mudmRdmaRead bytesXfer rdmaObject localSgl remoteSgl rounds
  | .write => mudmRdmaWrite bytesXfer localSgl remoteSgl rounds

/-- The `MUDM_RDMA_READ` and `MUDM_RDMA_WRITE` cases of `mu_recv_cb`: the number of local pieces that
the translation reports, and what is done with them. `none` is the `BUG_ON` for a result of the
translation that is not the length asked for. -/
def muRecvRdma (mrs : RegionTable) (stack : Nat → MudmSgl) (rounds : Nat) (op : RdmaOp)
    (pkt : SendRemotePayload) : Option (Nat × Dma) := do
  let usge : IbSge := ⟨pkt.remoteVaddr, pkt.dataLength, pkt.rkey⟩
  let x ← bgvrnicXlateSgl mrs [usge] stack mudmMaxSge
  if toU32 x.rc = usge.length then
    some (x.numPsge, op.call (toU64 x.rc) pkt.rdmaObject x.psge pkt.sge rounds)
  else none

/-- The transfer that `bgvrnic_recv_remote` starts for the work request of the WQE it uses up. -/
def recvRemoteRead (mrs : RegionTable) (stack : Nat → MudmSgl) (rounds : Nat) (wr : RecvWr)
    (pkt : SendRemotePayload) : Option (Nat × Dma) := do
  let x ← bgvrnicXlateSgl mrs wr.sgList stack mudmMaxSge
  if x.rc < 0 then none
  else
    some (x.numPsge,
      mudmRdmaRead (min x.rc.toNat pkt.dataLength) pkt.rdmaObject x.psge pkt.sge rounds)

/-- The packets that make a node access its own memory for a peer; a message comes with the work
request of the WQE that it uses up. -/
inductive RemoteRequest
  | rdma (op : RdmaOp) (pkt : SendRemotePayload)
  | message (wr : RecvWr) (pkt : SendRemotePayload)

namespace RemoteRequest

def pkt : RemoteRequest → SendRemotePayload
  | rdma _ pkt => pkt
  | message _ pkt => pkt

def withSge (sge : Nat → MudmSgl) : RemoteRequest → RemoteRequest
  | rdma op pkt => rdma op { pkt with sge := sge }
  | message wr pkt => message wr { pkt with sge := sge }

def serve (mrs : RegionTable) (stack : Nat → MudmSgl) (rounds : Nat) :
    RemoteRequest → Option (Nat × Dma)
  | rdma op pkt => muRecvRdma mrs stack rounds op pkt
  | message wr pkt => recvRemoteRead mrs stack rounds wr pkt

/-- The memory a request is allowed to touch: the region of its key, or the buffers of the WQE. -/
def memory (mrs : RegionTable) : RemoteRequest → List MudmSgl
  | rdma _ pkt => (mrs pkt.rkey).elim [] MemoryRegion.sge
  | message wr _ => (scatterSlices mrs wr.sgList).getD []

/-- Whatever list the peer sends along and whatever lies on the stack, no put uses an entry that the
translation has not written, nor leaves the memory of the request. -/
def Confined (mrs : RegionTable) (req : RemoteRequest) : Prop :=
  ∀ stack sge rounds num dma, (req.withSge sge).serve mrs stack rounds = some (num, dma) →
    ∀ p ∈ dma.puts, p.entry < num ∧ MudmSgl.Within ⟨p.localPa, p.length⟩ (req.memory mrs)

/-- The requests that are confined. An unknown key and too many pieces are caught only as long as the
length asked for differs from the error code, and a length that the pieces do not add up to, or that
is negative as an `int`, is not caught at all; nor is a WQE without buffers. -/
def Covered (mrs : RegionTable) : RemoteRequest → Prop
  | rdma _ pkt =>
    match mrs pkt.rkey with
    | none => pkt.dataLength ≠ toU32 (-ENOMEM)
    | some mr =>
      let slice := regionSlice mr.sge (regionOffset mr pkt.remoteVaddr) pkt.dataLength
      slice = [] ∨
        if mudmMaxSge ≤ slice.length then pkt.dataLength ≠ toU32 (-E2BIG)
        else pkt.dataLength < 2 ^ 31 ∧ totalBytes slice = pkt.dataLength
  | message wr pkt =>
    match scatterSlices mrs wr.sgList with
    | none => True
    | some pieces =>
      mudmMaxSge ≤ pieces.length ∨ 2 ^ 31 ≤ (wr.sgList.map IbSge.length).sum % 2 ^ 32 ∨
        wr.sgList ≠ [] ∧
          min ((wr.sgList.map IbSge.length).sum % 2 ^ 32) pkt.dataLength ≤ totalBytes pieces

end RemoteRequest

variable {mrs : RegionTable} {x : Xlation} {base : Nat → MudmSgl} {pieces memory : List MudmSgl}
variable {sge : Nat → MudmSgl} {i n bytesXfer rounds : Nat} {p : Put}

/-- The memory behind the output array in the bad runs: entries with an address and no bytes. -/
def emptyEntries (_ : Nat) : MudmSgl := ⟨1, 0⟩

theorem Xlation.Holds.bytes_take (h : x.Holds base pieces) (hi : i ≤ pieces.length) :
    bytesBefore x.psge i = totalBytes (pieces.take i) := by
  induction i with
  | zero => rfl
  | succ i ih =>
    have hget : pieces[i]? = some pieces[i] := List.getElem?_eq_getElem (by omega)
    have he : x.psge i = pieces[i] := h.pieces i _ hget
    have htake : pieces.take (i + 1) = pieces.take i ++ [pieces[i]] := by
      rw [List.take_add_one, hget]
      rfl
    rw [htake]
    simp only [bytesBefore, ih (by omega), he, totalBytes, List.map_append, List.map_cons,
      List.map_nil, List.sum_append, List.sum_cons, List.sum_nil, Nat.add_zero]

theorem Xlation.Holds.bytes_le (h : x.Holds emptyEntries pieces) :
    bytesBefore x.psge i ≤ totalBytes pieces := by
  have hall : bytesBefore x.psge pieces.length = totalBytes pieces := by
    rw [h.bytes_take (Nat.le_refl _), List.take_length]
  induction i with
  | zero => exact Nat.zero_le _
  | succ i ih =>
    by_cases hi : i < pieces.length
    · rw [← hall]
      exact bytesBefore_mono hi
    · have he : x.psge i = ⟨1, 0⟩ := h.behind i (by omega)
      simpa [bytesBefore, he] using ih

/-- What stays inside the entries that a translation has written stays inside its pieces. -/
theorem Put.Inside.within (hp : p.Inside x.psge x.numPsge) (h : x.Holds base pieces) :
    p.entry < x.numPsge ∧ MudmSgl.Within ⟨p.localPa, p.length⟩ pieces := by
  obtain ⟨hlt, hlo, hhi⟩ := hp
  have hcount : x.numPsge = pieces.length := h.count
  have hget : pieces[p.entry]? = some pieces[p.entry] := List.getElem?_eq_getElem (by omega)
  have he : x.psge p.entry = pieces[p.entry] := h.pieces p.entry _ hget
  rw [he] at hlo hhi
  exact ⟨hlt, pieces[p.entry], List.getElem_mem _, hlo, hhi⟩

theorem MudmSgl.Within.trans {e : MudmSgl} (h : e.Within pieces)
    (hall : ∀ f ∈ pieces, f.Within memory) : e.Within memory := by
  obtain ⟨f, hf, hlo, hhi⟩ := h
  obtain ⟨g, hg, hlo', hhi'⟩ := hall f hf
  exact ⟨g, hg, by omega, by omega⟩

/-- Pieces that cover the transfer confine it. -/
theorem RdmaOp.call_within {op : RdmaOp} {rdmaObject : Nat} (h : x.Holds base pieces)
    (hshort : ∀ f ∈ pieces, f.memlength < 2 ^ 28) (hne : pieces ≠ [])
    (hcover : bytesXfer ≤ totalBytes pieces) (hbytes : bytesXfer < 2 ^ 31)
    (hp : p ∈ (op.call bytesXfer rdmaObject x.psge sge rounds).puts) :
    p.entry < x.numPsge ∧ MudmSgl.Within ⟨p.localPa, p.length⟩ pieces := by
  have hcount : x.numPsge = pieces.length := h.count
  have hnum : 0 < x.numPsge := by
    rw [hcount]
    exact List.length_pos_iff.mpr hne
  have hshort' : ∀ i < x.numPsge, (x.psge i).memlength < 2 ^ 28 := by
    intro i hi
    have hget : pieces[i]? = some pieces[i] := List.getElem?_eq_getElem (by omega)
    have he : x.psge i = pieces[i] := h.pieces i _ hget
    rw [he]
    exact hshort _ (List.getElem_mem _)
  have hcover' : bytesXfer ≤ bytesBefore x.psge x.numPsge := by
    rw [hcount, h.bytes_take (Nat.le_refl _), List.take_length]
    exact hcover
  cases op with
  | read => exact (mudmRdmaRead_inside hshort' hcover' hbytes hnum p hp).within h
  | write => exact (mudmRdmaWrite_inside hshort' hcover' hbytes hnum p hp).within h

/-- A transfer whose bytes never come together uses any entry in time. -/
theorem RdmaOp.call_endless (op : RdmaOp) (rdmaObject : Nat) {l : Nat → MudmSgl} (hlive : ∀ i, (l i).physicalAddr ≠ 0)
    (hsum : ∀ i, bytesBefore l i % 2 ^ 32 < bytesXfer) (n : Nat) :
    ∃ sge rounds, ∃ p ∈ (op.call bytesXfer rdmaObject l sge rounds).puts, p.entry = n := by
  cases op with
  | read => exact ⟨mirror l, n + 9, mudmRdmaRead_mirror hlive hsum⟩
  | write => exact ⟨mirror l, n + 1, mudmRdmaWrite_mirror hlive hsum⟩

/-- Pieces that fall short of the transfer are overrun. -/
theorem RdmaOp.call_overruns (op : RdmaOp) (rdmaObject : Nat) (h : x.Holds emptyEntries pieces)
    (hlive : ∀ f ∈ pieces, 0 < f.physicalAddr)
    (hshort : totalBytes pieces < bytesXfer ∨ 2 ^ 32 ≤ bytesXfer) :
    ∃ sge rounds, ∃ p ∈ (op.call bytesXfer rdmaObject x.psge sge rounds).puts,
      p.entry = x.numPsge := by
  refine op.call_endless rdmaObject (fun i => ?_) (fun i => ?_) x.numPsge
  · by_cases hi : i < pieces.length
    · have hget : pieces[i]? = some pieces[i] := List.getElem?_eq_getElem hi
      have he : x.psge i = pieces[i] := h.pieces i _ hget
      rw [he]
      exact Nat.ne_of_gt (hlive _ (List.getElem_mem hi))
    · have he : x.psge i = ⟨1, 0⟩ := h.behind i (by omega)
      rw [he]
      exact Nat.one_ne_zero
  · have hle : bytesBefore x.psge i ≤ totalBytes pieces := h.bytes_le
    rcases hshort with hlt | hbig
    · exact Nat.lt_of_le_of_lt (Nat.le_trans (Nat.mod_le ..) hle) hlt
    · exact Nat.lt_of_lt_of_le (Nat.mod_lt _ (by decide)) hbig

end BgqVrnic
