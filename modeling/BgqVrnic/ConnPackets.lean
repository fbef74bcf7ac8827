import BgqVrnic.ConnCalls

namespace BgqVrnic

/-- The link a connection request comes in on. -/
def requestLink (direction : Direction) (usingIOPort : Nat) : Link :=
  if direction = .ionode2cn ∧ usingIOPort ≠ returnUsingIoPort then 1 else 0

/-- The code for the link reset library, as far as the port tells. -/
def link4resetCode (usingIOPort : Nat) : Nat :=
  if usingIOPort = returnUsingIoPort then 10
  else if usingIOPort = returnUsingTorusPort6 then 6
  else if usingIOPort = returnUsingTorusPort7 then 7
  else 0

/-- What `connect_request` enters into the context of a new request. -/
def Connection.answerRequest (m : MyContext) (pkt : ConnPacket) (c : Connection) : Connection :=
  let direction := setDirectionRequest m.myTorusAddress pkt.desc.hdr.torusSourceNode
  { c.useLink m (requestLink direction pkt.payload.usingIOPort) with
    memFifo := pkt.desc
    direction := direction
    reverseDirection := direction.reverse
    remoteRecFIFOId := pkt.payload.recFIFOId
    destination := pkt.desc.hdr.torusSourceNode
    destConnIndex := pkt.payload.sourceConnIndex
    remoteBridgingCNnode := pkt.payload.myBridgeTorusAddress
    reverseIoPort := pkt.payload.usingIOPort
    ioPort := pkt.payload.usingIOPort
    remoteBlockID := pkt.payload.sourceBlockID
    remoteTimestamp := pkt.payload.timestamp }

/-- `connect_request` up to its callback, which gets the new context; without one it returns
`-EXFULL`. -/
def connectRequest (m : MyContext) (timeBase : Nat) (pkt : ConnPacket) : MyContext × Option Nat :=
  match connListGetfree m timeBase with
  | none => (m, none)
  | some (c, m) =>
    let m := m.modify c (Connection.answerRequest m pkt)
    let link := requestLink (m.conn c).direction pkt.payload.usingIOPort
    let m :=
      { m with
        remoteBlockID := Function.update m.remoteBlockID link pkt.payload.sourceBlockID
        link4reset :=
          if m.link4reset link = 0 then
            Function.update m.link4reset link (link4resetCode pkt.payload.usingIOPort)
          else m.link4reset }
    let m := putOnPendingList m c link
    (m.modify c fun k => { k with memfifoSent := 0 }, some c)

/-- What `connect_reply` takes over from the packet, before the context is activated. -/
def Connection.acceptReply (pkt : ConnPacket) (c : Connection) : Connection :=
  let portChanged := c.ioPort ≠ pkt.payload.usingIOPort ∧ c.reverseDirection = .ionode2cn
  let port := if portChanged then pkt.payload.usingIOPort else c.ioPort
  let reversePort := if portChanged then pkt.payload.usingIOPort else c.reverseIoPort
  { c with
    memFifo := { c.memFifo with
      recFIFOId := if c.remoteRecFIFOId ≠ pkt.payload.recFIFOId then pkt.payload.recFIFOId
        else c.memFifo.recFIFOId
      hdr := { c.memFifo.hdr with
        destQpn := pkt.desc.hdr.sourceQpn
        torusDestNode := pkt.desc.hdr.torusSourceNode } }
    ioPort := port
    reverseIoPort := reversePort
    directPut4rget :=
      if portChanged then ⟨c.reverseDestination, c.reverseDirection, reversePort⟩
      else c.directPut4rget
    destConnIndex := pkt.payload.sourceConnIndex
    remoteBridgingCNnode := pkt.payload.myBridgeTorusAddress
    remoteTimestamp := pkt.payload.timestamp
    remoteBlockID := pkt.payload.sourceBlockID
    remoteRecFIFOId := pkt.payload.recFIFOId }

/-- The context a reply names, if it passes the two checks of `connect_reply`. -/
def replyContext (m : MyContext) (pkt : ConnPacket) : Option Nat :=
  if pkt.payload.destConnIndex < m.maxConnections ∧
      (m.conn pkt.payload.destConnIndex).magic = true then some pkt.payload.destConnIndex
  else none

/-- `connect_reply` up to its callback. -/
def replyArrived (m : MyContext) (pkt : ConnPacket) (c : Nat) : Option MyContext := do
  let m ← connectionActivate (m.modify c (Connection.acceptReply pkt)) c
  some (if pkt.body.status ≠ 0 then m.setState c .disconnecting else m)

/-- What `connect_reply` does after its callback. -/
def replyHandled (m : MyContext) (pkt : ConnPacket) (c : Nat) : Option MyContext :=
  if pkt.body.status ≠ 0 then connectionFree m c else some m

/-- `connect_reply`, with the context that its callback gets. -/
def connectReply (m : MyContext) (pkt : ConnPacket) : Option (MyContext × Option Nat) :=
  match replyContext m pkt with
  | none => some (m, none)
  | some c => do
    let m ← replyArrived m pkt c
    let m ← replyHandled m pkt c
    some (m, some c)

/-- `disconnect_request` up to its callback, which gets the context. The index comes unchecked from
the packet, as in `disconnectRequestUnchecked`; behind a table that `conn_list_init` has set up nothing ever
carries the magic number, so the comparison here stands for the one with that
(`disconnectRequest_of_run`). -/
def disconnectRequest (m : MyContext) (hdr : IonetHeader) : Option (MyContext × Int × Option Nat) :=
  let c := hdr.sequenceNumber
  if m.maxConnections ≤ c ∨ (m.conn c).magic = false then some (m, -EFAULT, none)
  else if hdr.payloadLength ≠ (m.conn c).lowbitTimestamp then some (m, -EINVAL, none)
  else if (m.conn c).state = .free then some (m, -ENOTCONN, none)
  else if (m.conn c).state = .disconnecting then some (m, -ECONNRESET, none)
  else do
    let m ← connectionFree (m.setState c .disconnecting) c
    some (m, 0, some c)

end BgqVrnic
