import BgqVrnic.RecvQueue
import BgqVrnic.Runs
import BgqVrnic.XlateOutcomes

namespace BgqVrnic

/-- A message that uses up a receive WQE, with the answer of `mudm_rdma_read` if it is remote. -/
structure Arrival where
  msg : DataMsg
  rdmaRead : Int

namespace Arrival

def length (a : Arrival) : Nat :=
  match a.msg with
  | .imm length => length
  | .remote pl => pl.dataLength

/-- The immediate data that the sender supplied. -/
def immData (a : Arrival) : Option Nat :=
  match a.msg with
  | .imm _ => none
  | .remote pl => if pl.hasImm then some pl.immediateData else none

def cancelled (a : Arrival) : Bool :=
  match a.msg with
  | .imm _ => false
  | .remote _ => a.rdmaRead = -ECANCELED

/-- The transfer of the message is left to the transport, which will report on it. -/
def pending (a : Arrival) : Bool :=
  match a.msg with
  | .imm _ => false
  | .remote _ => a.rdmaRead = -EINPROGRESS

/-- The length a WQE gets whose SGE lengths add up to `total` in the code's arithmetic. -/
def wqeLength (a : Arrival) (total : Nat) : Nat :=
  match a.msg with
  | .imm length => min length total
  | .remote _ => total

def wqeStatus (a : Arrival) (total : Nat) : Int :=
  if a.cancelled then ibWcRemAbortErr else if total < a.length then ibWcLocLenErr else ibWcSuccess

end Arrival

/-- The size of a receive buffer. -/
def RecvWr.capacity (wr : RecvWr) : Nat := (wr.sgList.map IbSge.length).sum

/-- What a CQE should report about a message and the status delivered for it, if any. -/
structure ReportsReceipt (capacity : Nat) (a : Arrival) (delivered : Option Int) (wc : IbWc) :
    Prop where
  byteLen : wc.byteLen = min a.length capacity
  success : wc.status = ibWcSuccess → a.length ≤ capacity ∧ ∀ st, delivered = some st → st = 0
  immData : wc.immData = a.immData

/-- When the code's CQE does report that: a remote message must fill its buffer, be cancelled or too
long for it if its transfer fails, and carry no immediate zero. The total of the SGE lengths is a
32-bit number, which matters for buffers of 4 GiB and more. -/
def ReceiptKept (capacity : Nat) (a : Arrival) (delivered : Option Int) : Prop :=
  match a.msg with
  | .imm length => capacity < 2 ^ 32 ∨ length ≤ capacity % 2 ^ 32
  | .remote pl =>
    (if capacity < 2 ^ 32 then capacity ≤ pl.dataLength else pl.dataLength = capacity % 2 ^ 32) ∧
    (a.rdmaRead = -ECANCELED ∨ capacity % 2 ^ 32 < pl.dataLength ∨
      ∀ st, delivered = some st → st = 0) ∧
    (pl.hasImm = true → pl.immediateData ≠ 0)

/-- The fields of a WQE that a message has used up. -/
structure Received (a : Arrival) (w : RecvWqe) : Prop where
  length : w.length = a.wqeLength (w.wr.capacity % 2 ^ 32)
  status : w.status = a.wqeStatus (w.wr.capacity % 2 ^ 32)
  immData : w.immData = a.immData.getD 0

variable {mrs : RegionTable} {us : List IbSge} {total : Int} {area : PieceArea} {x : Xlation}
variable {limit : Nat} {env : RecvEnv} {w w' : RecvWqe} {msg : DataMsg} {a : Arrival}

theorem xlate_capacity (h : bgvrnicXlateSgl mrs w.wr.sgList env.stack mudmMaxSge = some x)
    (hx : ¬ x.rc < 0) : x.rc.toNat = w.wr.capacity % 2 ^ 32 ∧ toU32 x.rc = x.rc.toNat := by
  obtain ⟨hmod, hlt⟩ := xlateFrom_total (by decide) h (by omega)
  have hcap : ((w.wr.sgList.map IbSge.length).sum : Int) = w.wr.capacity := rfl
  unfold toU32
  omega

/-- The copies of an immediate message place as many bytes as the WQE's length says. -/
theorem copyPieces_sum {es copies : List MudmSgl} {n : Nat} (h : copyPieces es n = some copies) :
    (copies.map MudmSgl.memlength).sum = n := by
  induction es generalizing n copies with
  | nil =>
    cases n with
    | zero =>
      cases Option.some.inj h
      rfl
    | succ n => cases h
  | cons e es ih =>
    cases n with
    | zero =>
      cases Option.some.inj h
      rfl
    | succ n =>
      unfold copyPieces at h
      dsimp only at h
      split at h
      next hle =>
        obtain ⟨copies', hc, rfl⟩ := Option.map_eq_some_iff.mp h
        have := ih hc
        simp only [List.map_cons, List.sum_cons]
        omega
      next hle =>
        cases Option.some.inj h
        simp only [List.map_cons, List.map_nil, List.sum_cons, List.sum_nil]
        omega

theorem recvImmed_places {n : Nat} {copies : List MudmSgl} {rc : Int}
    (h : bgvrnicRecvImmed env w n = some (w', copies, rc)) :
    (copies.map MudmSgl.memlength).sum = w'.length := by
  obtain ⟨x, -, h⟩ := Option.bind_eq_some_iff.mp h
  split at h
  next => cases h
  next =>
    obtain ⟨copies', hc, h⟩ := Option.bind_eq_some_iff.mp h
    cases Option.some.inj h
    exact copyPieces_sum hc

theorem wqeStatus_remote {pl : SendRemotePayload} {rd : Int} {t : Nat} (h : rd ≠ -ECANCELED) :
    (Arrival.mk (.remote pl) rd).wqeStatus t =
      if t < pl.dataLength then ibWcLocLenErr else ibWcSuccess := by
  have hc : (Arrival.mk (.remote pl) rd).cancelled = false := decide_eq_false h
  rw [Arrival.wqeStatus, hc]
  rfl

theorem wqeStatus_cancelled {pl : SendRemotePayload} {t : Nat} :
    (Arrival.mk (.remote pl) (-ECANCELED)).wqeStatus t = ibWcRemAbortErr := by
  simp [Arrival.wqeStatus, Arrival.cancelled]

theorem receiveInto_spec (hs : w.status = 0) (hi : w.immData = 0)
    (h : receiveInto env w msg = some w') :
    w'.id = w.id ∧ w'.wr = w.wr ∧
      (w'.state ≠ .init ∧ (w'.state = .run → (Arrival.mk msg env.rdmaRead).pending = true)) ∧
      Received ⟨msg, env.rdmaRead⟩ w' := by
  cases msg with
  | imm n =>
    obtain ⟨⟨w₁, copies, rc⟩, hr, rfl⟩ := Option.map_eq_some_iff.mp h
    obtain ⟨x, hx, hr⟩ := Option.bind_eq_some_iff.mp hr
    split at hr
    next => cases hr
    next hneg =>
      obtain ⟨copies', -, hr⟩ := Option.bind_eq_some_iff.mp hr
      obtain ⟨hcap, -⟩ := xlate_capacity hx hneg
      cases Option.some.inj hr
      refine ⟨rfl, rfl, by simp, ⟨?_, ?_, hi⟩⟩
      · simp only [Arrival.wqeLength, hcap]
        split <;> omega
      · dsimp only
        rw [hcap]
        rfl
  | remote pl =>
    obtain ⟨⟨w₁, rc⟩, hr, rfl⟩ := Option.map_eq_some_iff.mp h
    obtain ⟨x, hx, hr⟩ := Option.bind_eq_some_iff.mp hr
    split at hr
    next => cases hr
    next hneg =>
      obtain ⟨hcap, hu⟩ := xlate_capacity hx hneg
      have hlen : (initRemoteWqe w x.rc pl).length = w.wr.capacity % 2 ^ 32 := hu.trans hcap
      have hst : (initRemoteWqe w x.rc pl).status =
          if w.wr.capacity % 2 ^ 32 < pl.dataLength then ibWcLocLenErr else ibWcSuccess := by
        simp only [initRemoteWqe, hcap, hs]
        rfl
      have himm : (initRemoteWqe w x.rc pl).immData =
          (Arrival.mk (.remote pl) env.rdmaRead).immData.getD 0 := by
        simp only [initRemoteWqe, Arrival.immData, hi]
        split <;> rfl
      unfold settleRecv at hr
      split at hr
      next hc =>
        cases Option.some.inj hr
        exact ⟨rfl, rfl, by simp, hlen, by simp [Arrival.wqeStatus, Arrival.cancelled, hc], himm⟩
      next hc =>
        have hst' : (initRemoteWqe w x.rc pl).status =
            (Arrival.mk (.remote pl) env.rdmaRead).wqeStatus (w.wr.capacity % 2 ^ 32) := by
          rw [hst, wqeStatus_remote hc]
        split at hr
        next =>
          cases Option.some.inj hr
          exact ⟨rfl, rfl, by simp, hlen, hst', himm⟩
        next =>
          split at hr
          next hp =>
            cases Option.some.inj hr
            exact ⟨rfl, rfl, ⟨by simp, fun _ => decide_eq_true hp⟩, hlen, hst', himm⟩
          next => cases hr

theorem Arrival.wqeStatus_nonneg (a : Arrival) (t : Nat) : 0 ≤ a.wqeStatus t := by
  unfold Arrival.wqeStatus
  split
  · decide
  · split <;> decide

/-- A used-up WQE never has the negative status that the status callback waits for. -/
theorem Received.status_nonneg (h : Received a w) : ¬ w.status < 0 := by
  have := a.wqeStatus_nonneg (w.wr.capacity % 2 ^ 32)
  rw [h.status]
  omega

theorem wcStatus_success {st : Int} (h : 0 ≤ st) : wcStatus st = ibWcSuccess ↔ st = 0 := by
  unfold wcStatus
  split
  next he => simp [he]
  next he =>
    rw [if_neg (by omega)]
    rfl

/-- The CQE for a used-up WQE is right exactly under the condition. -/
theorem Received.reports_iff {delivered : Option Int} (h : Received a w)
    (hd : a.pending = false → delivered = none) (qpNum : Nat) :
    ReportsReceipt w.wr.capacity a delivered (cqeOf qpNum w w.wr.wrId .recv) ↔
      ReceiptKept w.wr.capacity a delivered := by
  obtain ⟨msg, rd⟩ := a
  generalize hcap : w.wr.capacity = cap at h ⊢
  have hle : cap % 2 ^ 32 ≤ cap := Nat.mod_le _ _
  have hlt : cap % 2 ^ 32 < 2 ^ 32 := Nat.mod_lt _ (by decide)
  obtain ⟨hlen, hst, himm⟩ := h
  rw [hcap] at hlen hst
  cases msg with
  | imm n =>
    have hnone : delivered = none := hd rfl
    have hlen' : w.length = min n (cap % 2 ^ 32) := hlen
    have hst' : w.status = if cap % 2 ^ 32 < n then ibWcLocLenErr else ibWcSuccess := hst
    have himm' : w.immData = 0 := himm
    have hiff : ReceiptKept cap ⟨.imm n, rd⟩ delivered ↔
      (cap < 2 ^ 32 ∨ n ≤ cap % 2 ^ 32) := Iff.rfl
    rw [hiff]
    constructor
    · intro hr
      have hb : w.length = min n cap := hr.byteLen
      omega
    · intro hk
      refine ⟨?_, ?_, ?_⟩
      · have hb : w.length = min n cap := by omega
        exact hb
      · intro hs
        have hz : w.status = 0 := (wcStatus_success (by rw [hst']; split <;> decide)).mp hs
        rw [hst'] at hz
        split at hz
        next => cases hz
        next hn => exact ⟨by show n ≤ cap; omega, by simp [hnone]⟩
      · simp [cqeOf, himm', Arrival.immData]
  | remote pl =>
    have hlen' : w.length = cap % 2 ^ 32 := hlen
    have hst0 : 0 ≤ w.status := by
      rw [hst]
      exact Arrival.wqeStatus_nonneg _ _
    -- the CQE says success exactly if the transfer was not cancelled and the buffer large enough
    have hok : wcStatus w.status = ibWcSuccess ↔ rd ≠ -ECANCELED ∧ pl.dataLength ≤ cap % 2 ^ 32 := by
      rw [wcStatus_success hst0, hst]
      by_cases hc : rd = -ECANCELED
      · rw [hc, wqeStatus_cancelled]
        exact ⟨fun h => absurd h (by decide), fun h => absurd rfl h.1⟩
      · rw [wqeStatus_remote hc]
        split
        next hlt => exact ⟨fun h => absurd h (by decide), fun h => absurd hlt (by omega)⟩
        next hge => exact ⟨fun _ => ⟨hc, by omega⟩, fun _ => rfl⟩
    have himm' : (if w.immData ≠ 0 then some w.immData else none) =
        (if pl.hasImm then some pl.immediateData else none) ↔
          (pl.hasImm = true → pl.immediateData ≠ 0) := by
      rw [himm, Arrival.immData]
      cases hb : pl.hasImm with
      | false => simp [hb]
      | true => by_cases hz : pl.immediateData = 0 <;> simp [hb, hz]
    constructor
    · intro hr
      have hb : w.length = min pl.dataLength cap := hr.byteLen
      refine ⟨?_, ?_, himm'.mp hr.immData⟩
      · split <;> omega
      · by_cases hc : rd = -ECANCELED
        · exact Or.inl hc
        · by_cases hs : cap % 2 ^ 32 < pl.dataLength
          · exact Or.inr (Or.inl hs)
          · exact Or.inr (Or.inr (hr.success (hok.mpr ⟨hc, by omega⟩)).2)
    · rintro ⟨hb, hs, hi⟩
      refine ⟨?_, fun hsucc => ?_, himm'.mpr hi⟩
      · have hb' : w.length = min pl.dataLength cap := by
          split at hb <;> omega
        exact hb'
      · obtain ⟨hc, hge⟩ := hok.mp hsucc
        have hle' : pl.dataLength ≤ cap := by omega
        exact ⟨hle', (hs.resolve_left hc).resolve_left (by omega)⟩

end BgqVrnic
