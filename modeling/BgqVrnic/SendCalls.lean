import BgqVrnic.ConnCalls
import BgqVrnic.Resources
import BgqVrnic.RemoteGet

namespace BgqVrnic

open Pools

/-- What a call finds at the injection FIFO of a link: whether the link is active when the call comes in
and at each of its injections, the numbers that its injections get, the fifo as each of its looks at a
descriptor finds it, and how many of the puts that it has sent the peer has not executed yet at each of its
looks at a counter. -/
structure InjEnv where
  atEntry : Bool
  active : Nat → Bool
  number : Nat → Nat
  looks : Nat → InjFifo
  behind : Nat → Nat

/-- What the injection with the given index returns. -/
def InjEnv.inject (env : InjEnv) (k : Nat) : Nat := if env.active k then env.number k else noDesc

/-- `MUSPI_CheckDescComplete`, as the given look finds it. -/
def InjEnv.complete (env : InjEnv) (look desc : Nat) : Bool :=
  ((env.looks look).checkDescComplete desc).2

/-- Where a call is after some turns of its loops. -/
inductive CallPhase
  | looping
  | waiting (desc : Nat)
  | counting (value : Nat)
  | returned (rc : Int)
  deriving DecidableEq, Repr

/-- The MU has taken a packet, or it is going to. -/
def keepPkt (env : InjEnv) (look pktd desc : Nat) (p : Pool PktDescriptor) : Pool PktDescriptor :=
  if env.complete look desc then releasePktToFree pktd p else releasePktToPoll pktd desc p

namespace Connection

/-- The pools that a connection takes its blocks from. -/
abbrev packets (conn : Connection) : PoolName := .packetcontrols conn.packetcontrols

abbrev smallPackets (conn : Connection) : PoolName := .smallpaObjCtls conn.smallpaObjCtls

abbrev objects (conn : Connection) : PoolName := .rdmaObjCtls conn.rdmaObjCtls

end Connection

def torusMaxPayloadSize : Nat := 512

/-- The loop of `mudm_send_pkt`, from the given look on. -/
def sendPktLoop (env : InjEnv) (requestId desc : Nat) :
    Nat → Nat → Pool PktDescriptor → CallPhase × Pool PktDescriptor
  | 0, _, p => (.waiting desc, p)
  | turns + 1, look, p =>
    if env.complete look desc then (.returned 0, p)
    else if desc = noDesc then (.returned (-ECANCELED), p)
    else
      match if requestId ≠ 0 then allocPktMessage p else none with
      | some (spo, p) =>
        (.returned (-EINPROGRESS), releasePktToPoll spo desc (setPktReqId spo requestId p))
      | none => sendPktLoop env requestId desc turns (look + 1) p

/-- `mudm_send_pkt` -/
def mudmSendPkt (env : Link → InjEnv) (r : Resources) (conn : Connection)
    (requestId payloadLength turns : Nat) : CallPhase × Resources :=
  if torusMaxPayloadSize < payloadLength then (.returned (-EINVAL), r)
  else if conn.magic = false then (.returned (-EFAULT), r)
  else
    let env := env conn.injfifoCtls
    let (phase, p) := sendPktLoop env requestId (env.inject 0) turns 0 (r conn.smallPackets)
    (phase, r.put conn.smallPackets p)

def mudmMaxRemoteSge : Nat := 58

/-- The types that `mudm_send_message_remote` tells apart. -/
inductive RemoteType
  | rdmaWrite | rdmaRead | pktDataRemote | rdmaReadImm | other
  deriving DecidableEq, Repr

/-- What `mudm_send_message_remote` reads of `struct ionet_send_remote_payload`. -/
structure RemotePayload where
  requestId : Nat
  sglNum : Nat
  dataLength : Nat
  deriving DecidableEq, Repr, Inhabited

/-- `mudm_send_message_remote`, on the context `c`. -/
def mudmSendMessageRemote (env : Link → InjEnv) (r : Resources) (c : Nat) (conn : Connection)
    (type : RemoteType) (payload : RemotePayload) : Int × Resources :=
  let env := env conn.injfifoCtls
  if payload.sglNum = 0 then (-EFAULT, r)
  else if mudmMaxRemoteSge < payload.sglNum then (-E2BIG, r)
  else if env.atEntry = false then (-ECANCELED, r)
  else
    match allocPktMessage (r conn.packets) with
    | none => (-EBUSY, r)
    | some (pktd, p) =>
      if type = .other then (-EINVAL, r.put conn.packets (releasePktToFree pktd p))
      else
        match allocateRdmaObject (r conn.objects) with
        | none => (-EBUSY, r.put conn.packets (releasePktToFree pktd p))
        | some (mro, objs) =>
          let objs := objs.set mro fun _ =>
            { remoteRdmaObjPa := 0
              -- a remote end that reads writes 8 bytes to complete the request
              muCounter := if type = .rdmaWrite then payload.dataLength else 8
              error := 0
              localRequestId := payload.requestId
              localConnect := c }
          (-EINPROGRESS,
            (r.put conn.packets (keepPkt env 0 pktd (env.inject 0) p)).put conn.objects
              (releaseRdmaObjToPoll mro objs))

/-- `mudm_send_message_remote` fails, and frees its packet if it has one, or posts an object. -/
inductive MessageRemoteOutcome (env : Link → InjEnv) (r : Resources) (c : Nat) (conn : Connection)
    (type : RemoteType) (payload : RemotePayload) : Int × Resources → Prop
  | stopped (rc : Int) (hrc : rc ≠ -EINPROGRESS) :
      MessageRemoteOutcome env r c conn type payload (rc, r)
  | freed (rc : Int) (pktd : Nat) (p : Pool PktDescriptor) (hrc : rc ≠ -EINPROGRESS)
      (hpkt : allocPktMessage (r conn.packets) = some (pktd, p)) :
      MessageRemoteOutcome env r c conn type payload
        (rc, r.put conn.packets (releasePktToFree pktd p))
  | posted (pktd : Nat) (p : Pool PktDescriptor) (mro : Nat) (objs : Pool MudmRdmaObject)
      (hpkt : allocPktMessage (r conn.packets) = some (pktd, p))
      (hobj : allocateRdmaObject (r conn.objects) = some (mro, objs)) :
      MessageRemoteOutcome env r c conn type payload (-EINPROGRESS,
        (r.put conn.packets (keepPkt (env conn.injfifoCtls) 0 pktd
          ((env conn.injfifoCtls).inject 0) p)).put conn.objects
          (releaseRdmaObjToPoll mro (objs.set mro fun _ =>
            { remoteRdmaObjPa := 0
              muCounter := if type = .rdmaWrite then payload.dataLength else 8
              error := 0
              localRequestId := payload.requestId
              localConnect := c })))

theorem mudmSendMessageRemote_outcome {env : Link → InjEnv} {r : Resources} {c : Nat}
    {conn : Connection} {type : RemoteType} {payload : RemotePayload} {x : Int × Resources}
    (h : mudmSendMessageRemote env r c conn type payload = x) :
    MessageRemoteOutcome env r c conn type payload x := by
  subst h
  unfold mudmSendMessageRemote
  dsimp only
  split
  · exact .stopped _ (by decide)
  split
  · exact .stopped _ (by decide)
  split
  · exact .stopped _ (by decide)
  split
  · exact .stopped _ (by decide)
  next pktd p hpkt =>
    split
    · exact .freed _ pktd p (by decide) hpkt
    split
    · exact .freed _ pktd p (by decide) hpkt
    next mro objs hobj => exact .posted pktd p mro objs hpkt hobj

inductive IoLinkOption
  | port6 | port7 | port10 | allPorts | defaultIoLink | cnb2IoNode | noIoLink
  deriving DecidableEq, Repr

/-- `IO_link_choice` in `mudm_send_msg` -/
def IoLinkOption.link : IoLinkOption → Link
  | .port6 | .port7 => 1
  | _ => 0

/-- `while (MUSPI_CheckDescComplete(...) == 0);` -/
def waitComplete (env : InjEnv) (desc : Nat) : Nat → Nat → CallPhase
  | 0, _ => .waiting desc
  | turns + 1, look =>
    if env.complete look desc then .returned 0 else waitComplete env desc turns (look + 1)

/-- `mudm_send_msg` -/
def mudmSendMsg (env : Link → InjEnv) (options : IoLinkOption) (payloadLength turns : Nat) :
    CallPhase :=
  if torusMaxPayloadSize < payloadLength then .returned (-EINVAL)
  else waitComplete (env options.link) ((env options.link).inject 0) turns 0

/-- What `mudm_rdma_read` is called with, apart from its lists. -/
structure ReadRequest extends GetRequest where
  conn : Connection
  connIndex : Nat
  requestId : Nat
  rdmaObject : Nat

/-- The variables of `mudm_rdma_read` once it has its packet and its object, and how often it has
injected and looked; as history, the lengths of the puts built, and how many of them have been sent. -/
structure ReadCall where
  walk : Walk
  putdescCount : Nat
  descCount : Nat
  injections : Nat
  looks : Nat
  phase : CallPhase
  packets : Pool PktDescriptor
  objects : Pool MudmRdmaObject
  lengths : List Nat
  sent : Nat

namespace ReadCall

/-- `dput_memfifo` with the descriptors in the packet -/
def dput (env : InjEnv) (s : ReadCall) : ReadCall :=
  { s with
    descCount := env.inject s.injections
    injections := s.injections + 1
    sent := if env.active s.injections then s.lengths.length else s.sent }

/-- The rest of the descriptors goes out, if there are any. -/
def sendRest (env : InjEnv) (s : ReadCall) : ReadCall := if 0 < s.putdescCount then s.dput env else s

theorem sendRest_packets {env : InjEnv} {s : ReadCall} : (s.sendRest env).packets = s.packets := by
  unfold sendRest
  split
  · rfl
  · rfl

theorem sendRest_objects {env : InjEnv} {s : ReadCall} : (s.sendRest env).objects = s.objects := by
  unfold sendRest
  split
  · rfl
  · rfl

theorem sendRest_walk {env : InjEnv} {s : ReadCall} : (s.sendRest env).walk = s.walk := by
  unfold sendRest
  split
  · rfl
  · rfl

/-- `mu_counter` of the object: each put that the peer executes takes its length off. -/
def counter (env : InjEnv) (q : ReadRequest) (s : ReadCall) : Int :=
  (q.bytesXfer - (s.lengths.take (s.sent - env.behind s.looks)).sum) % 2 ^ 64

/-- What follows the loop of `mudm_rdma_read`, up to where it waits for its counter. -/
def finish (env : InjEnv) (q : ReadRequest) (pktd mro : Nat) (s : ReadCall) : ReadCall :=
  if s.walk.totalbytes = q.bytesXfer then
    let s := s.sendRest env
    { s with
      packets := keepPkt env s.looks pktd s.descCount s.packets
      objects := releaseRdmaObjToPoll mro s.objects
      phase := .returned (-EINPROGRESS) }
  else if s.descCount = noDesc then
    { s with
      packets := releasePktToFree pktd s.packets
      objects := freeRdmaObj mro s.objects
      phase := .returned (-EINVAL) }
  else if q.bytesXfer < s.walk.totalbytes then { s.sendRest env with phase := .counting 0 }
  else
    { s with
      objects := s.objects.set mro fun o => { o with localRequestId := 0 }
      phase := .counting (q.bytesXfer - s.walk.totalbytes) }

/-- The counter is what the call waits for. With too few bytes, only a request that names an object of the
other end has its own packet and object released. -/
def counted (q : ReadRequest) (pktd mro : Nat) (s : ReadCall) : ReadCall :=
  if q.bytesXfer < s.walk.totalbytes ∨ q.rdmaObject ≠ 0 then
    { s with
      packets := releasePktToFree pktd s.packets
      objects := freeRdmaObj mro s.objects
      phase := .returned (-EINVAL) }
  else { s with phase := .returned (-EINVAL) }

/-- One more descriptor in the packet; the loop is left with the last byte. -/
def build (env : InjEnv) (q : ReadRequest) (pktd mro : Nat) (s : ReadCall) : ReadCall :=
  let s :=
    { s with
      putdescCount := s.putdescCount + 1
      lengths := s.lengths ++ [s.walk.clipped q.bytesXfer] }
  if q.bytesXfer ≤ s.walk.sum then
    { s with walk := { s.walk with totalbytes := s.walk.sum } }.finish env q pktd mro
  else { s with walk := s.walk.advance q.localSgl q.remoteSgl }

/-- A turn of the loop, or a look at the descriptor or the counter that the call waits for. -/
def turn (env : InjEnv) (q : ReadRequest) (pktd mro : Nat) (s : ReadCall) : ReadCall :=
  match s.phase with
  | .looping =>
    if s.walk.live then
      if s.putdescCount = 8 then { s.dput env with phase := .waiting (env.inject s.injections) }
      else s.build env q pktd mro
    else s.finish env q pktd mro
  | .waiting desc =>
    if env.complete s.looks desc then
      { s with looks := s.looks + 1, putdescCount := 0, phase := .looping }
    else { s with looks := s.looks + 1 }
  | .counting value =>
    if s.counter env q = value then s.counted q pktd mro else { s with looks := s.looks + 1 }
  | .returned _ => s

end ReadCall

/-- `mudm_rdma_read` in front of its loop. -/
def ReadCall.start (q : ReadRequest) (packets : Pool PktDescriptor) (objects : Pool MudmRdmaObject) :
    ReadCall :=
  { walk := q.start
    putdescCount := 0
    descCount := noDesc
    injections := 0
    looks := 0
    phase := .looping
    packets := packets
    objects := objects
    lengths := []
    sent := 0 }

/-- The object of a remote get before its first descriptor is built. -/
def ReadRequest.object (q : ReadRequest) : MudmRdmaObject :=
  { remoteRdmaObjPa := q.rdmaObject
    muCounter := q.bytesXfer
    error := 0
    localRequestId := q.requestId
    localConnect := q.connIndex }

/-- `mudm_rdma_read` -/
def mudmRdmaReadCall (env : Link → InjEnv) (r : Resources) (q : ReadRequest) (turns : Nat) :
    CallPhase × Resources :=
  if q.conn.magic = false then (.returned (-EFAULT), r)
  else
    match allocPktMessage (r q.conn.packets) with
    | none => (.returned (-EBUSY), r)
    | some (pktd, packets) =>
      match allocateRdmaObject (r q.conn.objects) with
      | none => (.returned (-EBUSY), r.put q.conn.packets (releasePktToFree pktd packets))
      | some (mro, objects) =>
        let start := ReadCall.start q packets (objects.set mro fun _ => q.object)
        let s := (ReadCall.turn (env q.conn.injfifoCtls) q pktd mro)^[turns] start
        (s.phase, (r.put q.conn.packets s.packets).put q.conn.objects s.objects)

/-- `mudm_rdma_read` fails before it has what it takes, or comes to its loop. -/
inductive RdmaReadOutcome (env : Link → InjEnv) (r : Resources) (q : ReadRequest) (turns : Nat)
    (phase : CallPhase) (r' : Resources) : Prop
  | stopped (rc : Int)
      (hstop : q.conn.magic = false ∧ rc = -EFAULT ∨ (r q.conn.packets).free = [] ∧ rc = -EBUSY)
      (hphase : phase = .returned rc) (hr : r' = r)
  | freed (pktd : Nat) (packets : Pool PktDescriptor)
      (hpkt : allocPktMessage (r q.conn.packets) = some (pktd, packets))
      (hobj : (r q.conn.objects).free = []) (hphase : phase = .returned (-EBUSY))
      (hr : r' = r.put q.conn.packets (releasePktToFree pktd packets))
  | entered (pktd : Nat) (packets : Pool PktDescriptor) (mro : Nat) (objects : Pool MudmRdmaObject)
      (s : ReadCall) (hmagic : q.conn.magic = true)
      (hpkt : allocPktMessage (r q.conn.packets) = some (pktd, packets))
      (hobj : allocateRdmaObject (r q.conn.objects) = some (mro, objects))
      (hs : s = (ReadCall.turn (env q.conn.injfifoCtls) q pktd mro)^[turns]
        (ReadCall.start q packets (objects.set mro fun _ => q.object)))
      (hphase : s.phase = phase)
      (hr : r' = (r.put q.conn.packets s.packets).put q.conn.objects s.objects)

theorem mudmRdmaReadCall_outcome {env : Link → InjEnv} {r r' : Resources} {q : ReadRequest}
    {turns : Nat} {phase : CallPhase} (h : mudmRdmaReadCall env r q turns = (phase, r')) :
    RdmaReadOutcome env r q turns phase r' := by
  unfold mudmRdmaReadCall at h
  split at h
  next hmagic =>
    cases h
    exact .stopped _ (Or.inl ⟨hmagic, rfl⟩) rfl rfl
  next hmagic =>
    split at h
    next hpkt =>
      cases h
      exact .stopped _ (Or.inr ⟨Pool.take_none.mp hpkt, rfl⟩) rfl rfl
    next pktd packets hpkt =>
      split at h
      next hobj =>
        cases h
        exact .freed pktd packets hpkt (Pool.take_none.mp hobj) rfl rfl
      next mro objects hobj =>
        obtain ⟨hphase, hr⟩ := Prod.mk.inj h
        exact .entered pktd packets mro objects _ (eq_true_of_ne_false hmagic) hpkt hobj rfl hphase
          hr.symm

/-- `mudm_rdma_read_on_torus`; without a counter of its caller's it waits for its own, but not if a
poller is active. -/
def mudmRdmaReadOnTorus (env : Link → InjEnv) (r : Resources) (magic : Bool) (bytesXfer : Nat)
    (counterGiven pollActive : Bool) : Int × Resources :=
  if magic = false then (-EFAULT, r)
  else
    match allocPktMessage (r (.smallpaObjCtls 0)) with
    | none => (-EBUSY, r)
    | some (pktd, p) =>
      if counterGiven then
        (0, r.put (.smallpaObjCtls 0) (releasePktToPoll pktd ((env 0).inject 0) p))
      else
        -- the packet is released on every way that is left
        let r := r.put (.smallpaObjCtls 0) (releasePktToFree pktd p)
        match allocateRdmaObject (r (.rdmaObjCtls 0)) with
        | none => (-EBUSY, r)
        | some (mro, objs) =>
          let objs := objs.set mro fun o => { o with muCounter := bytesXfer, error := 0 }
          if pollActive = false then (0, r.put (.rdmaObjCtls 0) (freeRdmaObj mro objs))
          else (-EFAULT, r.put (.rdmaObjCtls 0) (releaseRdmaObjToPoll mro objs))

/-- `mudm_pkt_imm`, with the lengths of the entries of its list. -/
def mudmPktImm (r : Resources) (magic : Bool) (dataLength : Nat) (memlengths : List Nat) :
    Int × Resources :=
  if magic = false then (-EFAULT, r)
  else
    match allocPktMessage (r (.packetcontrols 0)) with
    | none => (-EBUSY, r)
    | some (pktd, p) =>
      if low16 memlengths.sum ≠ dataLength then
        (-EFAULT, r.put (.packetcontrols 0) (releasePktToFree pktd p))
      else (-EINVAL, r.put (.packetcontrols 0) p)

/-- The packet of a connection request or reply: there is nothing to wait for if its injection was
cancelled. -/
def keepConnPkt (env : InjEnv) (pktd : Nat) (p : Pool PktDescriptor) : Pool PktDescriptor :=
  if env.inject 0 = noDesc then releasePktToFree pktd p else keepPkt env 0 pktd (env.inject 0) p

/-- What the connection layer is told about a packet and the link that it goes out on. -/
def InjEnv.callEnv (env : InjEnv) (pktFree : Bool) (timeBase : Nat) : CallEnv :=
  ⟨pktFree, env.inject 0 ≠ noDesc, timeBase⟩

/-- `mudm_connect` with the pool that its packet comes from. -/
def mudmConnectPkt (env : Link → InjEnv) (r : Resources) (m : MyContext) (timeBase destNode : Nat)
    (req : IonetConnect) : Option (CallResult × Resources) :=
  if m.magic = false then some (⟨m, -EINVAL, none, none⟩, r)
  else if mudmMaxPrivateData < req.body.privateData.length then some (⟨m, -EINVAL, none, none⟩, r)
  else
    match connListGetfree m timeBase with
    | none => some (⟨m, -EXFULL, none, none⟩, r)
    | some (c, m) =>
      let m := m.modify c (Connection.orientRequest m destNode)
      let env := env (m.conn c).injfifoCtls
      match allocPktMessage (r (m.conn c).packets) with
      | none => (sendRequest m (env.callEnv false timeBase) destNode req c).map fun res => (res, r)
      | some (pktd, p) =>
        (sendRequest m (env.callEnv true timeBase) destNode req c).map fun res =>
          (res, r.put (m.conn c).packets (keepConnPkt env pktd p))

/-- `mudm_conn_reply` with the pool that its packet comes from. -/
def mudmConnReplyPkt (env : Link → InjEnv) (r : Resources) (m : MyContext) (timeBase c : Nat)
    (reply : IonetConnect) : Option (CallResult × Resources) :=
  let m := m.modify c fun k => { k with memfifoSent := 0 }
  if mudmMaxPrivateData < reply.body.privateData.length then some (⟨m, -EINVAL, none, none⟩, r)
  else if (m.conn c).magic = false ∨ m.magic = false then some (⟨m, -EFAULT, none, none⟩, r)
  else
    let env := env (m.conn c).injfifoCtls
    match allocPktMessage (r (m.conn c).packets) with
    | none => some (⟨m, -EBUSY, none, none⟩, r)
    | some (pktd, p) =>
      let p :=
        if (m.conn c).state = .aborted then releasePktToFree pktd p else keepConnPkt env pktd p
      (sendReply m (env.callEnv true timeBase) c reply).map fun res =>
        (res, r.put (m.conn c).packets p)

end BgqVrnic
