import BgqVrnic.ConnPackets
import BgqVrnic.VerbsTypes

namespace BgqVrnic

/-- `-ECONNREFUSED` as the 32-bit status of a reply carries it. -/
def connRefusedStatus : Nat := 2 ^ 32 - 111

inductive CepState
  | connecting | connected | disconnected
  deriving DecidableEq, Repr, Inhabited

/-- `struct bgvrnic_cep`; pointers are numbers, `none` being the null pointer. -/
structure Cep where
  vrnicQp : Option Nat
  muContext : Option Nat
  remoteQpn : Nat
  remoteAddr : Nat
  remoteRequestId : Nat
  sourceQpn : Nat
  state : CepState
  deriving DecidableEq, Repr, Inhabited

/-- What connection management uses of `struct bgvrnic_qp`. -/
structure CmQp where
  qpNum : Nat
  cmId : Option Nat
  muContext : Option Nat
  qpState : QpState
  destQpNum : Nat
  sqDraining : Bool
  deriving DecidableEq, Repr, Inhabited

/-- `struct bgvrnic_listener`, by the address of its `cm_id`. -/
structure Listener where
  addr : Nat
  port : Nat
  deriving DecidableEq, Repr

/-- The addresses of a `cm_id`. -/
structure CmAddr where
  localAddr : Nat
  localPort : Nat
  remoteAddr : Nat
  remotePort : Nat
  deriving DecidableEq, Repr, Inhabited

/-- `struct iw_cm_conn_param` -/
structure ConnParam where
  qpn : Nat
  privateData : List UInt8
  deriving DecidableEq, Repr, Inhabited

/-- `struct bgvrnic_device` with the tables of the layer below: the queue pairs and endpoints by their
addresses, the numbers of `qp_pool`, the list of endpoints, and the `provider_data` of each `cm_id`. -/
structure VrnicDev where
  m : MyContext
  qp : Nat → Option CmQp
  idr : Nat → Option Nat
  cep : Nat → Option Cep
  ceps : List Nat
  providerData : Nat → Option Nat
  listeners : List Listener

namespace VrnicDev

variable (s : VrnicDev)

def setQp (p : Nat) (q : CmQp) : VrnicDev := { s with qp := Function.update s.qp p (some q) }

def setProvider (cmId : Nat) (e : Option Nat) : VrnicDev :=
  { s with providerData := Function.update s.providerData cmId e }

/-- An endpoint in fresh memory goes to the end of the list. -/
def addCep (e : Nat) (k : Cep) : VrnicDev :=
  { s with cep := Function.update s.cep e (some k), ceps := s.ceps ++ [e] }

/-- `list_del` and `kfree` -/
def dropCep (e : Nat) : VrnicDev :=
  { s with cep := Function.update s.cep e none, ceps := s.ceps.erase e }

/-- `bgvrnic_get_qp` -/
def getQp (qpn : Nat) : Option Nat := s.idr qpn

/-- A listener for the address and the port that the request asks for, `INADDR_ANY` being 0. -/
def listens (body : ConnectBody) : Bool :=
  s.listeners.any fun l => (l.addr = 0 || body.destIPAddr = l.addr) && body.destPort = l.port

/-- The endpoint that a reply is for, by the number of its request. -/
def findCep (requestId : Nat) : Option Nat :=
  s.ceps.find? fun e => (s.cep e).any fun k => k.remoteRequestId = requestId

end VrnicDev

/-- The header of a request or a reply, as far as the caller of the layer below fills it in. -/
def cmHeader (sourceQpn destQpn : Nat) : IonetHeader := { (default : IonetHeader) with sourceQpn, destQpn }

/-- A request or a reply on behalf of a `cm_id`. -/
def cmBody (addr : CmAddr) (sourceRequestId status : Nat) (privateData : List UInt8) : ConnectBody :=
  { sourcePort := addr.localPort
    destPort := addr.remotePort
    sourceIPAddr := addr.localAddr
    destIPAddr := addr.remoteAddr
    sourceRequestId := sourceRequestId
    status := status
    privateData := privateData }

/-- The request of `bgvrnic_connect` for the queue pair at `p`. -/
def connectMsg (addr : CmAddr) (param : ConnParam) (p : Nat) : IonetConnect :=
  ⟨cmHeader param.qpn mudmUnknownQpn, cmBody addr p 0 param.privateData⟩

/-- The reply of `bgvrnic_accept` on behalf of an endpoint. -/
def acceptMsg (addr : CmAddr) (param : ConnParam) (cep : Cep) : IonetConnect :=
  ⟨cmHeader param.qpn cep.sourceQpn, cmBody addr cep.remoteRequestId 0 param.privateData⟩

/-- The reply of `bgvrnic_reject`. -/
def rejectMsg (addr : CmAddr) (privateData : List UInt8) (cep : Cep) : IonetConnect :=
  ⟨cmHeader cep.sourceQpn cep.remoteQpn,
    cmBody addr cep.remoteRequestId connRefusedStatus privateData⟩

/-- The reply to a request that nobody listens for. -/
def refuseMsg (pkt : ConnPacket) : IonetConnect :=
  { ionetHdr := cmHeader pkt.desc.hdr.destQpn pkt.desc.hdr.sourceQpn
    body :=
      { sourcePort := pkt.body.destPort
        destPort := pkt.body.sourcePort
        sourceIPAddr := pkt.body.destIPAddr
        destIPAddr := pkt.body.sourceIPAddr
        sourceRequestId := pkt.body.sourceRequestId
        status := connRefusedStatus
        privateData := [] } }

/-- The endpoint of `bgvrnic_connect`. -/
def connectCep (destNode : Nat) (param : ConnParam) (p : Nat) : Cep :=
  { vrnicQp := some p
    muContext := none
    remoteQpn := mudmUnknownQpn
    remoteAddr := destNode
    remoteRequestId := p
    sourceQpn := param.qpn
    state := .connecting }

/-- The endpoint of a request that has come in on the context `c`. -/
def requestCep (c : Nat) (pkt : ConnPacket) : Cep :=
  { vrnicQp := none
    muContext := some c
    remoteQpn := pkt.desc.hdr.destQpn
    remoteAddr := pkt.desc.hdr.torusSourceNode
    remoteRequestId := pkt.body.sourceRequestId
    sourceQpn := pkt.desc.hdr.sourceQpn
    state := .connecting }

/-- `bgvrnic_connect`, with the memory that it gets for its endpoint. A call of this file that gives no
state meets a `BUG_ON`, a null pointer or memory that has been freed. -/
def bgvrnicConnect (s : VrnicDev) (env : CallEnv) (mem : Option Nat) (cmId : Nat) (addr : CmAddr)
    (destNode : Nat) (param : ConnParam) : Option (Int × VrnicDev) :=
  match mem with
  | none => some (-ENOMEM, s)
  | some e =>
    if mudmMaxPrivateData < param.privateData.length then some (-EINVAL, s)
    else
      match s.getQp param.qpn with
      | none => some (-EINVAL, s)
      | some p => do
        let q ← s.qp p
        let res ← mudmConnect s.m env destNode (connectMsg addr param p)
        -- a call that fails may have stored the context as well
        let q := { q with muContext := res.connContext.or q.muContext }
        let s := { s with m := res.m }
        if res.rc ≠ 0 then
          some (res.rc, (s.setQp p { q with cmId := none }).setProvider cmId none)
        else
          some (0, ((s.setQp p { q with cmId := some cmId }).addCep e
            (connectCep destNode param p)).setProvider cmId (some e))

/-- The end of `bgvrnic_reject`, and of `bgvrnic_accept` when it fails: the endpoint goes, if there is
one. -/
def endRequest (s : VrnicDev) (cmId : Nat) (rc : Int) : Option (Int × VrnicDev) :=
  match s.providerData cmId with
  | none => some (rc, s)
  | some e => do
    let _ ← s.cep e
    some (rc, (s.dropCep e).setProvider cmId none)

/-- `bgvrnic_accept`, with what the event handler returns. -/
def bgvrnicAccept (s : VrnicDev) (env : CallEnv) (cmId : Nat) (addr : CmAddr) (param : ConnParam)
    (eventRc : Int) : Option (Int × VrnicDev) :=
  if mudmMaxPrivateData < param.privateData.length then endRequest s cmId (-EINVAL)
  else
    match s.getQp param.qpn with
    | none => endRequest s cmId (-EINVAL)
    | some p => do
      let e ← s.providerData cmId
      let cep ← s.cep e
      let q ← s.qp p
      let c ← cep.muContext
      let q :=
        { q with
          cmId := some cmId
          qpState := .rts
          destQpNum := cep.remoteQpn
          muContext := some c }
      let res ← mudmConnReply s.m env c (acceptMsg addr param cep)
      let s := { s with
        m := res.m
        cep := Function.update s.cep e (some { cep with vrnicQp := some p, state := .connected }) }
      if res.rc ≠ 0 then endRequest (s.setQp p { q with cmId := none }) cmId res.rc
      else if eventRc ≠ 0 then endRequest (s.setQp p { q with cmId := none }) cmId eventRc
      else some (0, s.setQp p q)

/-- `bgvrnic_reject` -/
def bgvrnicReject (s : VrnicDev) (env : CallEnv) (cmId : Nat) (addr : CmAddr)
    (privateData : List UInt8) : Option (Int × VrnicDev) :=
  if mudmMaxPrivateData < privateData.length then endRequest s cmId (-EINVAL)
  else do
    let e ← s.providerData cmId
    let cep ← s.cep e
    let c ← cep.muContext
    let res ← mudmConnReply s.m env c (rejectMsg addr privateData cep)
    endRequest { s with m := res.m } cmId res.rc

/-- `mu_connect_cb` for a request on the context `c`: the connection manager makes a `cm_id` for the
endpoint of a request that somebody listens for. -/
def connRequestCb (s : VrnicDev) (env : CallEnv) (mem : Option Nat) (cmId c : Nat) (eventRc : Int)
    (pkt : ConnPacket) : Option (Int × VrnicDev) :=
  if s.listens pkt.body then
    match mem with
    | none => some (-ENOMEM, s)
    | some e => some (eventRc, (s.addCep e (requestCep c pkt)).setProvider cmId (some e))
  else
    -- what this reply returns is not passed on
    (mudmConnReply s.m env c (refuseMsg pkt)).map fun res => (0, { s with m := res.m })

/-- `mu_connect_cb` for a reply, whatever its status. -/
def connReplyCb (s : VrnicDev) (eventRc : Int) (pkt : ConnPacket) : Option (Int × VrnicDev) :=
  match s.findCep pkt.body.sourceRequestId with
  | none => some (-EINVAL, s)
  | some e => do
    let cep ← s.cep e
    let p ← cep.vrnicQp
    let q ← s.qp p
    let cmId ← q.cmId
    let q := { q with destQpNum := pkt.desc.hdr.destQpn }
    let q := if eventRc ≠ 0 then q else { q with qpState := .rts }
    some (eventRc, ((s.setQp p q).dropCep e).setProvider cmId none)

/-- `mu_connect_cb` for a disconnect, with what the event handler returns for its two events. -/
def disconnectedCb (s : VrnicDev) (eventRc closeRc : Int) (hdr : IonetHeader) :
    Option (Int × VrnicDev) :=
  match s.getQp hdr.destQpn with
  | none => some (0, s)
  | some p => do
    let q ← s.qp p
    match q.cmId with
    | none => some (0, s)
    | some cmId =>
      let q := { q with qpState := .sqe }
      if eventRc ≠ 0 then some (eventRc, s.setQp p q)
      else some (closeRc, (s.setQp p { q with cmId := none }).setProvider cmId none)

/-- `connect_request` with its callback -/
def requestArrives (s : VrnicDev) (env : CallEnv) (mem : Option Nat) (cmId : Nat) (eventRc : Int)
    (pkt : ConnPacket) : Option (Int × VrnicDev) :=
  match connectRequest s.m env.timeBase pkt with
  | (m, none) => some (-EXFULL, { s with m := m })
  | (m, some c) => connRequestCb { s with m := m } env mem cmId c eventRc pkt

/-- `connect_reply` with its callback -/
def replyArrives (s : VrnicDev) (eventRc : Int) (pkt : ConnPacket) : Option (Int × VrnicDev) :=
  match replyContext s.m pkt with
  | none => some (if pkt.payload.destConnIndex < s.m.maxConnections then -EFAULT else -1, s)
  | some c => do
    let m ← replyArrived s.m pkt c
    let (rc, s) ← connReplyCb { s with m := m } eventRc pkt
    let m ← replyHandled s.m pkt c
    some (rc, { s with m := m })

/-- `disconnect_request` with its callback -/
def disconnectArrives (s : VrnicDev) (eventRc closeRc : Int) (hdr : IonetHeader) :
    Option (Int × VrnicDev) := do
  let (m, rc, c) ← disconnectRequest s.m hdr
  match c with
  | none => some (rc, { s with m := m })
  | some _ => disconnectedCb { s with m := m } eventRc closeRc hdr

/-- `mu_recv_cb` for a data packet, by whether a receive is posted for it. -/
def muRecvCb (s : VrnicDev) (env : CallEnv) (qpn : Nat) (posted : Bool) : Option VrnicDev := do
  let p ← s.getQp qpn
  let q ← s.qp p
  if posted then some s
  else
    let q := if q.cmId.isSome then { q with qpState := .sqe } else q
    let c ← q.muContext
    let (m, _, _) ← mudmDisconnect s.m env c
    some ({ s with m := m }.setQp p q)

/-- `bgvrnic_modify_qp` as far as it changes the state, to `newState` if that is one. `remainingWqes` is
what the pass over the send queue returns and `eventRc` what the event handler does. -/
def bgvrnicModifyQp (s : VrnicDev) (env : CallEnv) (p : Nat) (newState : Option QpState)
    (remainingWqes : Int) (eventRc : Int) : Option (Int × VrnicDev) := do
  let q ← s.qp p
  match newState with
  | none => some (-EINVAL, s)
  | some st =>
    if st = .rts ∧ q.muContext = none then some (-EINVAL, s)
    else if st = .sqd then
      let q := { q with sqDraining := 0 < remainingWqes }
      if q.sqDraining = false ∧ q.cmId.isSome then
        let c ← q.muContext
        let (m, _, _) ← mudmDisconnect s.m env c
        some (eventRc, { s with m := m }.setQp p { q with cmId := none, qpState := st })
      else some (0, s.setQp p { q with qpState := st })
    else some (0, s.setQp p { q with qpState := st })

/-- `bgvrnic_create_qp`: the queue pair in fresh zeroed memory, with the number that it gets. -/
def bgvrnicCreateQp (s : VrnicDev) (p qpn : Nat) : VrnicDev :=
  { s with idr := Function.update s.idr qpn (some p) }.setQp p
    { qpNum := qpn
      cmId := none
      muContext := none
      qpState := .reset
      destQpNum := 0
      sqDraining := false }

/-- `bgvrnic_destroy_qp`, once the references to the queue pair are gone. -/
def bgvrnicDestroyQp (s : VrnicDev) (env : CallEnv) (p : Nat) (eventRc : Int) :
    Option (Int × VrnicDev) := do
  let q ← s.qp p
  let s := { s with
    idr := Function.update s.idr q.qpNum none
    qp := Function.update s.qp p none }
  match q.cmId with
  | none => some (0, s)
  | some _ =>
    let c ← q.muContext
    let (m, _, _) ← mudmDisconnect s.m env c
    some (if q.qpState = .rts then eventRc else 0, { s with m := m })

/-- The context that `bgvrnic_post_send` sends on. -/
def postSendContext (q : CmQp) : Option Nat := if q.qpState ≠ .rts then none else q.muContext

end BgqVrnic
