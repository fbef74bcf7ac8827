import BgqVrnic.Completions

namespace BgqVrnic

/-- What a pass over the send queue meets outside the queue: the registered regions, the payload
structure as it lies on the stack, the transport's return values and CQE allocation, per WQE. -/
structure SendEnv where
  mrs : RegionTable
  stack : Nat → SendRemotePayload
  transport : Nat → Int
  cqeAlloc : Nat → Bool

/-- The record a pass leaves: a call of the transport with its result, or a WQE taken off the queue
with the CQEs appended for it, each with the states of the WQEs still ahead in the queue. -/
inductive SendEvent
  | handed (id : Nat) (call : MuCall) (result : Int) (ahead : List WqeState)
  | completed (id : Nat) (cqes : List IbWc) (ahead : List WqeState)

/-- The loop of `bgvrnic_process_send_wqes` in the middle: `ahead` are the WQEs it has passed and
left on the queue. -/
structure SendPass where
  ahead : List SendWqe
  scq : VrnicCq
  rc : Int
  remainingWqes : Nat
  events : List SendEvent

structure SendResult where
  sq : List SendWqe
  scq : VrnicCq
  rc : Int
  events : List SendEvent

def SendPass.aheadStates (p : SendPass) : List WqeState := p.ahead.map Wqe.state

def SendPass.result (p : SendPass) (rest : List SendWqe) : SendResult :=
  { sq := p.ahead ++ rest
    scq := p.scq
    rc := if p.rc < 0 then p.rc else p.remainingWqes
    events := p.events }

/-- The remote payload of a WQE; fields that are not assigned keep what the stack held. -/
def sendPayload (stack : SendRemotePayload) (wqe : SendWqe) (x : Xlation) : SendRemotePayload :=
  { stack with
    requestID := wqe.id
    sglNum := x.numPsge
    dataLength := toU32 x.rc
    sge := x.psge
    immediateData := if wqe.immDataValid then wqe.immData else stack.immediateData
    flags := (if wqe.immDataValid then mudmImmediateData else 0) |||
      (if wqe.wr.solicited then mudmSolicited else 0) }

def SendRemotePayload.withRemote (pl : SendRemotePayload) (wr : SendWr) : SendRemotePayload :=
  { pl with remoteVaddr := wr.remoteAddr, rkey := wr.rkey }

/-- The transport call for a WQE; `none` is the opcode that is only reported on the console. -/
def sendCall (wqe : SendWqe) (pl : SendRemotePayload) : Option MuCall :=
  match wqe.wr.opcode with
  | .send =>
    if pl.sglNum = 1 ∧ pl.dataLength ≤ mudmMaxPayloadSize then
      some (.sendPkt wqe.id .pktDataImm (pl.sge 0).physicalAddr ((pl.sge 0).memlength % 2 ^ 16))
    else some (.sendMessageRemote .pktDataRemote pl)
  | .sendWithImm => some (.sendMessageRemote .pktDataRemote pl)
  | .rdmaRead => some (.sendMessageRemote .rdmaWrite (pl.withRemote wqe.wr))
  | .rdmaWrite | .rdmaWriteWithImm => some (.sendMessageRemote .rdmaRead (pl.withRemote wqe.wr))
  | _ => none

/-- A CQE for a signaled WQE, and the WQE leaves the queue. -/
def retireSend (qp : VrnicQp) (env : SendEnv) (wqe : SendWqe) (p : SendPass) : Option SendPass :=
  if qp.sigAllWr || wqe.wr.signaled then do
    let (cq, rc) ← addSendCqe p.scq qp.qpNum wqe (env.cqeAlloc wqe.id)
    let cqes := cq.entries.drop p.scq.entries.length
    some { p with
      scq := cq, rc := rc, events := p.events ++ [.completed wqe.id cqes p.aheadStates] }
  else some { p with events := p.events ++ [.completed wqe.id [] p.aheadStates] }

def keepSend (wqe : SendWqe) (p : SendPass) : SendPass :=
  { p with ahead := p.ahead ++ [wqe], remainingWqes := p.remainingWqes + 1 }

/-- What follows the transport call, by its return value; `none` is the `BUG` for any other. -/
def settleSend (qp : VrnicQp) (env : SendEnv) (wqe : SendWqe) (p : SendPass) : Option SendPass :=
  if wqe.status = -ECANCELED then
    retireSend qp env { wqe with status := ibWcRemAbortErr, state := .done } p
  else if wqe.status = 0 then retireSend qp env { wqe with state := .done } p
  else if wqe.status = -EINPROGRESS then some (keepSend { wqe with state := .run } p)
  else if wqe.status = -EBUSY then some (keepSend { wqe with state := .wait } p)
  else none

/-- Send a WQE whose scatter list has been translated. -/
def handSend (qp : VrnicQp) (env : SendEnv) (wqe : SendWqe) (x : Xlation) (p : SendPass) :
    Option SendPass :=
  let wqe := { wqe with length := toU32 x.rc }
  match sendCall wqe (sendPayload (env.stack wqe.id) wqe x) with
  | some call =>
    settleSend qp env { wqe with status := env.transport wqe.id }
      { p with
        events := p.events ++ [.handed wqe.id call (env.transport wqe.id) p.aheadStates] }
  | none => settleSend qp env wqe p

/-- `bgvrnic_process_send_wqes` from the cursor on; `none` is a `BUG`. -/
def processSendFrom (qp : VrnicQp) (env : SendEnv) :
    List SendWqe → SendPass → Option SendResult
  | [], p => some (p.result [])
  | wqe :: rest, p =>
    match wqe.state with
    | .init | .wait => do
      let x ← bgvrnicXlateSgl env.mrs wqe.wr.sgList (env.stack wqe.id).sge mudmMaxSge
      -- the translation's result is tested after its assignment to an unsigned field
      if (toU32 x.rc : Int) < 0 then
        let p ← retireSend qp env wqe p
        some { p.result rest with rc := toU32 x.rc }
      else
        let p ← handSend qp env wqe x p
        processSendFrom qp env rest p
    | .run => some ({ p with remainingWqes := p.remainingWqes + 1 }.result (wqe :: rest))
    | .done => do
      let p ← retireSend qp env wqe p
      processSendFrom qp env rest p
    | .invalid => none

def bgvrnicProcessSendWqes (qp : VrnicQp) (env : SendEnv) : Option SendResult :=
  processSendFrom qp env qp.sq ⟨[], qp.scq, 0, 0, []⟩

end BgqVrnic
