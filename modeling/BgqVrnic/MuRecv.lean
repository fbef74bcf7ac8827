import BgqVrnic.PacketSequence
import BgqVrnic.RecvQueue

namespace BgqVrnic

/-- The types that `mu_recv_cb` tells apart. -/
inductive RecvType
  | ipImmed | pktDataImm | pktDataRemote | rdmaRead | rdmaWrite | other
  deriving DecidableEq, Repr, Inhabited

/-- A packet as it lies in front of `mu_recv_cb`, by the fields of its header that are read there; the
type says whether the payload is there. -/
structure MuPacket where
  type : RecvType
  sequenceNumber : Nat
  payloadLength : Nat
  destQpn : Nat
  payload : SendRemotePayload

def MuPacket.dataMsg (pkt : MuPacket) : DataMsg :=
  match pkt.type with
  | .pktDataImm => .imm pkt.payloadLength
  | _ => .remote pkt.payload

/-- What `mu_recv_cb` uses of a queue pair; `cmId` says whether it has one, and the context is the null
pointer before the queue pair is connected. -/
structure MuQp where
  qp : VrnicQp
  rqPsn : Nat
  cmId : Bool
  muContext : Option Nat

/-- What the handler meets outside the queue pair: also memory for a WQE, the value of
`mudm_rdma_write` once it is not `-EBUSY`, that of `mudm_disconnect`, and whether a direct put that the
transport injects for the packet finds its link active. -/
structure MuRecvEnv extends RecvEnv where
  wqeAlloc : Bool
  rdmaWrite : Int
  disconnect : Int
  linkActive : Bool

/-- What becomes of the WQE of a remote read; in the last case it is only reported on the console. -/
inductive RdmaReadEnd
  | freed | running | failed
  deriving DecidableEq, Repr

/-- The range that a remote access names, translated; `none` is the `BUG_ON` for a result that is not the
length asked for. -/
def muRecvRange (env : MuRecvEnv) (pkt : SendRemotePayload) : Option Xlation := do
  let x ← bgvrnicXlateSgl env.mrs [⟨pkt.remoteVaddr, pkt.dataLength, pkt.rkey⟩] env.stack mudmMaxSge
  if toU32 x.rc = pkt.dataLength then some x else none

/-- A direct put with the object that the packet names as its counter goes in, and runs into the
`MUSPI_assert` of `set_counter_directput`. -/
def MuRecvEnv.PutAsserts (env : MuRecvEnv) (pkt : SendRemotePayload) : Prop :=
  env.linkActive = true ∧ pkt.rdmaObject % 8 ≠ 0

instance (env : MuRecvEnv) (pkt : SendRemotePayload) : Decidable (env.PutAsserts pkt) :=
  inferInstanceAs (Decidable (_ ∧ _))

/-- The `MUDM_RDMA_READ` case, with its `BUG_ON` for a WQE that there is no memory for. The transport
takes the context of the queue pair, and for `-EINVAL` it tells the other side with a direct put. -/
def muRecvRdmaRead (muContext : Option Nat) (env : MuRecvEnv) (pkt : SendRemotePayload) :
    Option (RdmaReadEnd × Int) := do
  let _ ← muRecvRange env pkt
  if env.wqeAlloc = false then none
  else if muContext = none ∨ (env.rdmaRead = -EINVAL ∧ env.PutAsserts pkt) then none
  else if env.rdmaRead = 0 ∨ env.rdmaRead = -ECANCELED then some (.freed, env.rdmaRead)
  else if env.rdmaRead = -EINPROGRESS then some (.running, 0)
  else some (.failed, env.rdmaRead)

/-- The `MUDM_RDMA_WRITE` case; there is a `BUG_ON` for a transfer that fails. -/
def muRecvRdmaWrite (muContext : Option Nat) (env : MuRecvEnv) (pkt : SendRemotePayload) :
    Option Int := do
  let _ ← muRecvRange env pkt
  if muContext = none ∨ env.PutAsserts pkt then none
  else if env.rdmaWrite = 0 ∨ env.rdmaWrite = -ECANCELED then some env.rdmaWrite else none

/-- The return value of the data case: that of the receive into the first unused WQE, or that of the
disconnect. -/
def dataRc (env : MuRecvEnv) (msg : DataMsg) (rq : List RecvWqe) : Int :=
  match rq.find? (·.state = .init), msg with
  | some wqe, .imm length => (bgvrnicRecvImmed env.toRecvEnv wqe length).elim 0 (·.2.2)
  | some wqe, .remote pl => (bgvrnicRecvRemote env.toRecvEnv wqe pl).elim 0 Prod.snd
  | none, _ => env.disconnect

/-- What a packet does to its queue pair: the receive WQE it uses up, those reported on, and the WQE of
a remote read. -/
structure RecvOutcome where
  q : MuQp
  rc : Int
  used : Option Nat
  reported : List (RecvWqe × List IbWc)
  rdma : Option (Nat × RdmaReadEnd)

/-- The switch of `mu_recv_cb`. The transfer of a remote message takes the context of the queue pair, and
so does the disconnect for a message without a WQE. -/
def muRecvSwitch (q : MuQp) (env : MuRecvEnv) (pkt : MuPacket) : Option RecvOutcome :=
  match pkt.type with
  | .pktDataImm | .pktDataRemote => do
    let rc := dataRc env pkt.dataMsg q.qp.rq
    let (qp, used, reported) ← muRecvData q.qp env.toRecvEnv pkt.dataMsg
    match used with
    | some _ =>
      if pkt.type = .pktDataRemote ∧ q.muContext = none then none
      else some ⟨{ q with qp := qp }, rc, used, reported, none⟩
    | none =>
      let _ ← q.muContext
      let qp := if q.cmId then { qp with qpState := .sqe } else qp
      some ⟨{ q with qp := qp }, rc, none, [], none⟩
  | .rdmaRead => do
    let (e, rc) ← muRecvRdmaRead q.muContext env pkt.payload
    let qp := { q.qp with nextWqe := q.qp.nextWqe + 1 }
    some ⟨{ q with qp := qp }, rc, none, [], some (q.qp.nextWqe, e)⟩
  | .rdmaWrite => do
    let rc ← muRecvRdmaWrite q.muContext env pkt.payload
    some ⟨q, rc, none, [], none⟩
  | _ => some ⟨q, 0, none, [], none⟩

/-- A data message with an unused WQE, or with none, or a remote access, or a packet that is not for the queue
pair. -/
inductive SwitchOutcome (q : MuQp) (env : MuRecvEnv) (pkt : MuPacket) : RecvOutcome → Prop
  | taken (qp : VrnicQp) (id : Nat) (reported : List (RecvWqe × List IbWc))
      (ht : pkt.type = .pktDataImm ∨ pkt.type = .pktDataRemote)
      (hdata : muRecvData q.qp env.toRecvEnv pkt.dataMsg = some (qp, some id, reported)) :
      SwitchOutcome q env pkt
        ⟨{ q with qp := qp }, dataRc env pkt.dataMsg q.qp.rq, some id, reported, none⟩
  | refused (qp : VrnicQp) (reported : List (RecvWqe × List IbWc))
      (ht : pkt.type = .pktDataImm ∨ pkt.type = .pktDataRemote)
      (hdata : muRecvData q.qp env.toRecvEnv pkt.dataMsg = some (qp, none, reported)) :
      SwitchOutcome q env pkt
        ⟨{ q with qp := if q.cmId then { qp with qpState := .sqe } else qp },
          dataRc env pkt.dataMsg q.qp.rq, none, [], none⟩
  | read (e : RdmaReadEnd) (rc : Int) (ht : pkt.type = .rdmaRead)
      (hread : muRecvRdmaRead q.muContext env pkt.payload = some (e, rc)) :
      SwitchOutcome q env pkt
        ⟨{ q with qp := { q.qp with nextWqe := q.qp.nextWqe + 1 } }, rc, none, [],
          some (q.qp.nextWqe, e)⟩
  | write (rc : Int) (ht : pkt.type = .rdmaWrite)
      (hwrite : muRecvRdmaWrite q.muContext env pkt.payload = some rc) :
      SwitchOutcome q env pkt ⟨q, rc, none, [], none⟩
  | silent (ht : pkt.type = .ipImmed ∨ pkt.type = .other) :
      SwitchOutcome q env pkt ⟨q, 0, none, [], none⟩

theorem muRecvSwitch_outcome {q : MuQp} {env : MuRecvEnv} {pkt : MuPacket} {r : RecvOutcome}
    (h : muRecvSwitch q env pkt = some r) : SwitchOutcome q env pkt r := by
  unfold muRecvSwitch at h
  cases ht : pkt.type with
  | pktDataImm | pktDataRemote =>
    have hdata : pkt.type = .pktDataImm ∨ pkt.type = .pktDataRemote := by simp [ht]
    rw [ht] at h
    obtain ⟨⟨qp, used, reported⟩, hd, h⟩ := Option.bind_eq_some_iff.mp h
    cases used with
    | some id =>
      obtain ⟨-, h⟩ := Option.ite_none_left_eq_some.mp h
      cases Option.some.inj h
      exact .taken qp id reported hdata hd
    | none =>
      obtain ⟨c, -, h⟩ := Option.bind_eq_some_iff.mp h
      cases Option.some.inj h
      exact .refused qp reported hdata hd
  | rdmaRead =>
    rw [ht] at h
    obtain ⟨⟨e, rc⟩, hread, h⟩ := Option.bind_eq_some_iff.mp h
    cases Option.some.inj h
    exact .read e rc ht hread
  | rdmaWrite =>
    rw [ht] at h
    obtain ⟨rc, hwrite, h⟩ := Option.bind_eq_some_iff.mp h
    cases Option.some.inj h
    exact .write rc ht hwrite
  | ipImmed | other =>
    have hsilent : pkt.type = .ipImmed ∨ pkt.type = .other := by simp [ht]
    rw [ht] at h
    cases Option.some.inj h
    exact .silent hsilent

/-- `mu_recv_cb` from the check of the sequence number on. -/
def muRecvQp (q : MuQp) (env : MuRecvEnv) (pkt : MuPacket) : Option RecvOutcome := do
  let (rqPsn, mismatch) := validatePsn q.rqPsn pkt.sequenceNumber
  let r ← muRecvSwitch { q with rqPsn := rqPsn } env pkt
  some { r with rc := if mismatch ∧ r.rc = 0 then -EPROTO else r.rc }

/-- `mu_recv_cb` on the queue pairs of a device, by their numbers; `netRx` is the value of `bgvrnic_rx`.
`none` is a `BUG`, or the use of a queue pair that is not there. -/
def MuQp.muRecvCb (qps : Nat → Option MuQp) (netRx : Int) (env : MuRecvEnv) (pkt : MuPacket) :
    Option ((Nat → Option MuQp) × Int) :=
  if pkt.type = .ipImmed then some (qps, netRx)
  else do
    let q ← qps pkt.destQpn
    let r ← muRecvQp q env pkt
    some (Function.update qps pkt.destQpn (some r.q), r.rc)

end BgqVrnic
