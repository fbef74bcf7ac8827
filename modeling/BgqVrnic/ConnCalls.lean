import BgqVrnic.ConnLists

namespace BgqVrnic

/-- `struct ionet_connect` as the user of the driver fills it in. -/
structure IonetConnect where
  ionetHdr : IonetHeader
  body : ConnectBody
  deriving DecidableEq, Repr, Inhabited

/-- What a call leaves behind: the connection tables, its return value, the context it hands to its
caller and the packet it injected. -/
structure CallResult where
  m : MyContext
  rc : Int
  connContext : Option Nat
  sent : Option ConnPacket

def setDirectionRequest (srcTorus destTorus : Nat) : Direction :=
  if srcTorus = mudmNodeLoopback then .nodeLoopback
  else if srcTorus = destTorus then .nodeLoopback
  else if destTorus = mudmCn2IoNode then .cn2ionode
  else if srcTorus.testBit 31 then
    if destTorus.testBit 31 then .ion2ion else .ionode2cn
  else if destTorus.testBit 31 then .cn2ionode
  else .cn2cn

def Direction.reverse : Direction → Direction
  | .ionode2cn => .cn2ionode
  | .cn2ionode => .ionode2cn
  | d => d

/-- `get_init_sys_rec_fifo_id` -/
def initSysRecFifoId (k : Link) : Nat := 264 + 4 * k

/-- `sizeof(struct ionet_connect) - sizeof(struct ionet_header)` -/
def connectLength : Nat := 54

namespace Connection

/-- Point a context at the resources and lists of a link. -/
def useLink (m : MyContext) (k : Link) (c : Connection) : Connection :=
  { c with
    injfifoCtls := k
    packetcontrols := k
    smallpaObjCtls := k
    rdmaObjCtls := k
    localRecFIFOId := m.sysRecFifoId k
    connActivelist := some k
    connAbortlist := some k }

/-- The first part of `mudm_connect`: direction, link and reception FIFOs. -/
def orientRequest (m : MyContext) (destNode : Nat) (c : Connection) : Connection :=
  let direction := setDirectionRequest m.myTorusAddress destNode
  let torusPort : Bool := m.myUsingIOPort ≠ returnUsingIoPort
  { c.useLink m (if direction = .ionode2cn ∧ torusPort then 1 else 0) with
    direction := direction
    reverseDirection := direction.reverse
    remoteRecFIFOId :=
      if direction = .cn2ionode ∧ torusPort then initSysRecFifoId 1 else m.sysRecFifoId 0 }

def reverseDest (m : MyContext) (c : Connection) : Nat :=
  if c.reverseDirection = .cn2ionode then c.remoteBridgingCNnode else m.myTorusAddress

/-- The second part, once the packet is there: header, descriptors and their way. -/
def fillRequest (m : MyContext) (destNode : Nat) (req : IonetConnect) (c : Connection) :
    Connection :=
  let useDestination :=
    match c.direction with
    | .cn2ionode => m.mybridgingCNnode
    | .nodeLoopback => m.myTorusAddress
    | _ => destNode
  let hdr : IonetHeader :=
    { sequenceNumber := c.myIndex
      torusSourceNode := m.myTorusAddress
      torusDestNode := if c.direction = .nodeLoopback then m.myTorusAddress else destNode
      payloadLength := connectLength + req.body.privateData.length
      type := .connRequest
      sourceQpn := req.ionetHdr.sourceQpn
      destQpn := req.ionetHdr.destQpn }
  let reverseIoPort := if m.myUsingIOPort = 0xff then returnUsingIoPort else m.myUsingIOPort
  { c with
    lowbitTimestamp := low16 c.myTimestamp
    ioPort := m.myUsingIOPort
    destination := destNode
    memFifo := ⟨⟨useDestination, c.direction, m.myUsingIOPort⟩, c.remoteRecFIFOId, hdr⟩
    directPut := ⟨useDestination, c.direction, m.myUsingIOPort⟩
    reverseDestination := c.reverseDest m
    reverseIoPort := reverseIoPort
    directPut4rget := ⟨c.reverseDest m, c.reverseDirection, reverseIoPort⟩ }

/-- The descriptor that `mudm_conn_reply` sends the reply with. -/
def replyDescriptor (m : MyContext) (reply : IonetConnect) (c : Connection) : MemFifoDescriptor :=
  let useDestination := if c.direction = .cn2ionode then m.mybridgingCNnode else c.destination
  ⟨⟨useDestination, c.direction, c.ioPort⟩, c.remoteRecFIFOId,
    { sequenceNumber := c.myIndex
      torusSourceNode := m.myTorusAddress
      torusDestNode := c.destination
      payloadLength := connectLength + reply.body.privateData.length
      type := .connReply
      sourceQpn := reply.ionetHdr.sourceQpn
      destQpn := reply.ionetHdr.destQpn }⟩

/-- The direct put templates that `mudm_conn_reply` sets up. -/
def fillReply (m : MyContext) (c : Connection) : Connection :=
  { c with
    directPut := ⟨c.destination, c.direction, c.ioPort⟩
    reverseDestination := c.reverseDest m
    reverseIoPort := c.ioPort
    directPut4rget := ⟨c.reverseDest m, c.reverseDirection, c.ioPort⟩ }

/-- `struct mudm_connect_payload` of a request or reply sent on `c`. -/
def connectPayload (m : MyContext) (destConnIndex usingIOPort : Nat) (c : Connection) :
    ConnectPayload :=
  { sourceConnIndex := c.myIndex
    destConnIndex := destConnIndex
    version := mudmVersion
    usingIOPort := usingIOPort
    recFIFOId := c.localRecFIFOId
    sourceBlockID := m.myBlockID
    myBridgeTorusAddress := m.mybridgingCNnode
    sourceUCI := m.myUCI
    timestamp := c.myTimestamp }

/-- The disconnect header overlays the header that the descriptor already holds. -/
def disconnectDescriptor (c : Connection) : MemFifoDescriptor :=
  { c.memFifo with
    hdr := { c.memFifo.hdr with
      sequenceNumber := c.destConnIndex
      payloadLength := low16 c.remoteTimestamp
      type := .disconnected } }

end Connection

/-- `mudm_connect` from the allocation of the packet on, for the context `c` that it has got. -/
def sendRequest (m : MyContext) (env : CallEnv) (destNode : Nat) (req : IonetConnect) (c : Nat) :
    Option CallResult :=
  if env.pktFree then
    let m := m.modify c (Connection.fillRequest m destNode req)
    let payload := (m.conn c).connectPayload m 0xffff m.myUsingIOPort
    let m := putOnPendingList m c 0
    if env.linkActive then
      some ⟨m, 0, some c, some ⟨(m.conn c).memFifo, req.body, payload⟩⟩
    else do
      let m ← connectionFree m c
      some ⟨m, -ECANCELED, some c, none⟩
  else do
    let m ← connectionFree m c
    some ⟨m, -EBUSY, some c, none⟩

/-- `mudm_connect`; the call comes with its private data in the request. -/
def mudmConnect (m : MyContext) (env : CallEnv) (destNode : Nat) (req : IonetConnect) :
    Option CallResult :=
  if m.magic = false then some ⟨m, -EINVAL, none, none⟩
  else if mudmMaxPrivateData < req.body.privateData.length then some ⟨m, -EINVAL, none, none⟩
  else
    match connListGetfree m env.timeBase with
    | none => some ⟨m, -EXFULL, none, none⟩
    | some (c, m) => sendRequest (m.modify c (Connection.orientRequest m destNode)) env destNode req c

/-- `CONN_RESP_ERR` in `mudm_conn_reply`, and its return value. -/
def connRespErr (m : MyContext) (c status : Nat) : Option (MyContext × Int) := do
  if status = 0 then
    let m ← connectionFree (m.setState c .orphaned) c
    some (m, -ENOTCONN)
  else
    let m ← connectionFree m c
    some (m, 0)

/-- The state change of `mudm_conn_reply`: a refused connection will be freed, any other is activated,
whatever its state. -/
def replyState (m : MyContext) (c status : Nat) : Option MyContext :=
  if status ≠ 0 then some (m.setState c .disconnecting) else connectionActivate m c

/-- `mudm_conn_reply` once it has its packet. -/
def sendReply (m : MyContext) (env : CallEnv) (c : Nat) (reply : IonetConnect) :
    Option CallResult := do
  let desc := (m.conn c).replyDescriptor m reply
  let m := m.modify c fun k => { k with memFifo := desc }
  if (m.conn c).state = .aborted then
    let (m, rc) ← connRespErr m c reply.body.status
    some ⟨m, rc, none, none⟩
  else
    let payload := (m.conn c).connectPayload m (m.conn c).destConnIndex (m.conn c).ioPort
    let m := m.modify c (Connection.fillReply m)
    let m ← replyState m c reply.body.status
    let sent : ConnPacket := ⟨desc, reply.body, payload⟩
    if env.linkActive = false then
      let (m, rc) ← connRespErr m c reply.body.status
      some ⟨m, rc, none, none⟩
    else if reply.body.status ≠ 0 then
      let (m, rc) ← connRespErr m c reply.body.status
      some ⟨m, rc, none, some sent⟩
    else some ⟨m, 0, none, some sent⟩

/-- `mudm_conn_reply` -/
def mudmConnReply (m : MyContext) (env : CallEnv) (c : Nat) (reply : IonetConnect) :
    Option CallResult :=
  let m := m.modify c fun k => { k with memfifoSent := 0 }
  if mudmMaxPrivateData < reply.body.privateData.length then some ⟨m, -EINVAL, none, none⟩
  else if (m.conn c).magic = false ∨ m.magic = false then some ⟨m, -EFAULT, none, none⟩
  else if env.pktFree then sendReply m env c reply
  else some ⟨m, -EBUSY, none, none⟩

/-- `mudm_disconnect`, with the header it injected. Its success is `-ENOSYS` in the Linux build. -/
def mudmDisconnect (m : MyContext) (env : CallEnv) (c : Nat) :
    Option (MyContext × Int × Option MemFifoDescriptor) :=
  if (m.conn c).magic = false then some (m, -EFAULT, none)
  else if (m.conn c).state = .free then some (m, -ENOTCONN, none)
  else if (m.conn c).state = .disconnecting then some (m, -ECONNRESET, none)
  else
    let desc := (m.conn c).disconnectDescriptor
    let m := m.modify c fun k => { k with memFifo := desc, state := .disconnecting }
    if env.linkActive then do
      let m ← connectionFree m c
      some (m, -ENOSYS, some desc)
    else some (m, -ECANCELED, none)

end BgqVrnic
