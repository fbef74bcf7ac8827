import Mathlib.Algebra.Order.Ring.Int
import Mathlib.Data.Fin.Basic
import Mathlib.Logic.Function.Basic

namespace BgqVrnic

def EBUSY : Int := 16
def EFAULT : Int := 14
def EINVAL : Int := 22
def ENOMEM : Int := 12
def EBADRQC : Int := 56
def E2BIG : Int := 7
def ENOSYS : Int := 38
def EXFULL : Int := 54
def EPROTO : Int := 71
def EOPNOTSUPP : Int := 95
def ECONNRESET : Int := 104
def ENOTCONN : Int := 107
def EINPROGRESS : Int := 115
def ECANCELED : Int := 125

def mudmVersion : Nat := 4
def mudmMaxPrivateData : Nat := 256

/-- `MUDM_UNKNOWN_QPN` as the 16-bit header field carries it. -/
def mudmUnknownQpn : Nat := 0xffff

def mudmCn2IoNode : Nat := 0xffffffff
def mudmNodeLoopback : Nat := 0xC0000000
def returnUsingTorusPort6 : Nat := 0x08
def returnUsingTorusPort7 : Nat := 0x10
def returnUsingIoPort : Nat := 0x18

/-- The I/O links of a node: `NUM_IO_LINKS` is 2 in the Linux build. -/
abbrev Link := Fin 2

instance linkNeZero : NeZero 2 := ⟨by decide⟩

/-- `NUM_IO_LINKS` -/
def ioLinks : List Link := [0, 1]

theorem mem_ioLinks (k : Link) : k ∈ ioLinks := by
  revert k
  decide

inductive ConnState
  | free | pending | active | disconnecting | aborted | orphaned
  deriving DecidableEq, Repr, Inhabited

inductive Direction
  | ionode2cn | cn2ionode | cn2cn | ion2ion | nodeLoopback
  deriving DecidableEq, Repr, Inhabited

inductive MsgType
  | connRequest | connReply | disconnected | pktDataImm | pktDataRemote | rdmaRead | rdmaWrite
  | dput | ipImmed
  deriving DecidableEq, Repr, Inhabited

/-- `struct ionet_header`; a disconnect header overlays it, with `dest_context_index` in the
place of the sequence number and `lowbytes_timestamp` in the place of the payload length. -/
structure IonetHeader where
  sequenceNumber : Nat
  torusSourceNode : Nat
  torusDestNode : Nat
  payloadLength : Nat
  type : MsgType
  sourceQpn : Nat
  destQpn : Nat
  deriving DecidableEq, Repr, Inhabited

/-- The part of `struct ionet_connect` that follows the header. -/
structure ConnectBody where
  sourcePort : Nat
  destPort : Nat
  sourceIPAddr : Nat
  destIPAddr : Nat
  sourceRequestId : Nat
  status : Nat
  privateData : List UInt8
  deriving DecidableEq, Repr, Inhabited

structure ConnectPayload where
  sourceConnIndex : Nat
  destConnIndex : Nat
  version : Nat
  usingIOPort : Nat
  recFIFOId : Nat
  sourceBlockID : Nat
  myBridgeTorusAddress : Nat
  sourceUCI : Nat
  timestamp : Nat
  deriving DecidableEq, Repr, Inhabited

/-- What a descriptor template says about the way of its packets through the torus. -/
structure Route where
  destination : Nat
  direction : Direction
  ioPort : Nat
  deriving DecidableEq, Repr, Inhabited

structure MemFifoDescriptor where
  route : Route
  recFIFOId : Nat
  hdr : IonetHeader
  deriving DecidableEq, Repr, Inhabited

/-- A connection packet as the receiving node finds it. -/
structure ConnPacket where
  desc : MemFifoDescriptor
  body : ConnectBody
  payload : ConnectPayload
  deriving DecidableEq, Repr, Inhabited

/-- `struct mudm_connection`. List pointers are indices into the context array; the pointers to
list heads name the link whose head they lead to, `none` being the null pointer. -/
structure Connection where
  memFifo : MemFifoDescriptor
  directPut : Route
  directPut4rget : Route
  magic : Bool
  state : ConnState
  myIndex : Nat
  remoteRecFIFOId : Nat
  localRecFIFOId : Nat
  remoteBlockID : Nat
  destination : Nat
  reverseDestination : Nat
  remoteBridgingCNnode : Nat
  destConnIndex : Nat
  ioPort : Nat
  reverseIoPort : Nat
  direction : Direction
  reverseDirection : Direction
  lowbitTimestamp : Nat
  injfifoCtls : Link
  packetcontrols : Link
  smallpaObjCtls : Link
  rdmaObjCtls : Link
  nextconn : Option Nat
  prevconn : Option Nat
  connActivelist : Option Link
  connPendlist : Option Link
  connAbortlist : Option Link
  remoteTimestamp : Nat
  myTimestamp : Nat
  memfifoSent : Nat
  rgetMemfifoSent : Nat
  deriving DecidableEq, Repr, Inhabited

/-- The fields of `struct my_context` that connection handling reads or writes. -/
structure MyContext where
  magic : Bool
  maxConnections : Nat
  conn : Nat → Connection
  connFreelist : Option Nat
  connPendlist : Link → Option Nat
  connActivelist : Link → Option Nat
  connAbortlist : Link → Option Nat
  myTorusAddress : Nat
  mybridgingCNnode : Nat
  myUsingIOPort : Nat
  myBlockID : Nat
  myUCI : Nat
  sysRecFifoId : Link → Nat
  remoteBlockID : Link → Nat
  link4reset : Link → Nat

/-- What a call finds outside the connection tables: whether a packet descriptor is free,
whether the injection FIFO of its link is active, and the time base. -/
structure CallEnv where
  pktFree : Bool
  linkActive : Bool
  timeBase : Nat
  deriving DecidableEq, Repr, Inhabited

def low16 (t : Nat) : Nat := t % 2 ^ 16

end BgqVrnic
