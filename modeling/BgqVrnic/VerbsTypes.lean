import BgqVrnic.XlateSgl

namespace BgqVrnic

def ibWcSuccess : Int := 0
def ibWcLocLenErr : Int := 1
def ibWcRemAbortErr : Int := 16
def ibWcGeneralErr : Int := 21

/-- `MUDM_MAX_PAYLOAD_SIZE` -/
def mudmMaxPayloadSize : Nat := 512

def mudmImmediateData : Nat := 1
def mudmSolicited : Nat := 2

inductive QpState
  | reset | init | rtr | rts | sqd | sqe | err
  deriving DecidableEq, Repr, Inhabited

/-- Work request opcodes; `other` stands for those that no function of the driver names. -/
inductive WrOpcode
  | rdmaWrite | rdmaWriteWithImm | send | sendWithImm | sendWithInv | rdmaRead | rdmaReadWithInv
  | other
  deriving DecidableEq, Repr, Inhabited

inductive WcOpcode
  | send | rdmaWrite | rdmaRead | recv
  deriving DecidableEq, Repr, Inhabited

inductive WqeState
  | init | wait | run | done | invalid
  deriving DecidableEq, Repr, Inhabited

structure SendWr where
  wrId : Nat
  sgList : List IbSge
  opcode : WrOpcode
  signaled : Bool
  solicited : Bool
  immData : Nat
  remoteAddr : Nat
  rkey : Nat
  deriving DecidableEq, Repr, Inhabited

structure RecvWr where
  wrId : Nat
  sgList : List IbSge
  deriving DecidableEq, Repr, Inhabited

/-- `struct bgvrnic_wqe`, with its address as `id` and the work request it was made from. The type
of a WQE is the type of its work request. -/
structure Wqe (ω : Type) where
  id : Nat
  state : WqeState
  length : Nat
  status : Int
  wr : ω
  immDataValid : Bool
  immData : Nat
  deriving DecidableEq, Repr, Inhabited

abbrev SendWqe := Wqe SendWr
abbrev RecvWqe := Wqe RecvWr

/-- The fields of `struct ib_wc` that the driver fills in; `immData` is `none` unless
`IB_WC_WITH_IMM` is set. -/
structure IbWc where
  wrId : Nat
  status : Int
  vendorErr : Int
  opcode : WcOpcode
  byteLen : Nat
  qpNum : Nat
  immData : Option Nat
  deriving DecidableEq, Repr, Inhabited

/-- `struct bgvrnic_cq`; `events` counts the calls of the completion handler. -/
structure VrnicCq where
  entries : List IbWc
  nextComp : Bool
  events : Nat
  deriving DecidableEq, Repr, Inhabited

/-- The parts of `struct bgvrnic_qp` that the work queues use. `nextWqe` is the address of the next
WQE allocated for the queue pair; addresses are taken in order and never again. -/
structure VrnicQp where
  qpNum : Nat
  nextWqe : Nat
  qpState : QpState
  sigAllWr : Bool
  maxRecvSge : Nat
  sq : List SendWqe
  rq : List RecvWqe
  scq : VrnicCq
  rcq : VrnicCq

/-- `struct ionet_send_remote_payload`, the fields a sender or a receiver uses. -/
structure SendRemotePayload where
  requestID : Nat
  remoteVaddr : Nat
  rkey : Nat
  sglNum : Nat
  dataLength : Nat
  immediateData : Nat
  flags : Nat
  rdmaObject : Nat
  sge : Nat → MudmSgl

/-- The two ways a send WQE is handed to the transport. -/
inductive MuCall
  | sendPkt (requestID : Nat) (type : MsgType) (payloadPaddr : Nat) (payloadLength : Nat)
  | sendMessageRemote (type : MsgType) (payload : SendRemotePayload)

def Wqe.setState {ω : Type} (w : Wqe ω) (s : WqeState) : Wqe ω := { w with state := s }

/-- `bgvrnic_alloc_wqe` for a send work request. -/
def allocSendWqe (id : Nat) (wr : SendWr) : SendWqe :=
  { id := id, state := .init, length := 0, status := 0, wr := wr
    immDataValid := false, immData := 0 }

/-- `bgvrnic_alloc_wqe` for a receive work request; its length starts as `(u32) -1`. -/
def allocRecvWqe (id : Nat) (wr : RecvWr) : RecvWqe :=
  { id := id, state := .init, length := toU32 (-1), status := 0, wr := wr
    immDataValid := false, immData := 0 }

end BgqVrnic
