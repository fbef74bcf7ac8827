import Mathlib.Data.Fintype.Basic
import Mathlib.Logic.Function.Basic
import BgqVrnic.ConnTypes

namespace BgqVrnic

/-- `BCAST_INACTIVE` and the other values of `state` -/
inductive BcastState
  | inactive
  | setup
  | receiver
  | wait4clear
  deriving DecidableEq, Repr, Inhabited

/-- `struct mudm_rdma_bcast` -/
structure MudmRdmaBcast where
  requestID : Nat
  sourcePayloadPaddr : Nat
  destPayloadPaddr : Nat
  payloadLength : BitVec 64
  classRoute : Nat
  statusMem : Nat
  statusVal : Nat
  deriving DecidableEq, Repr, Inhabited

/-- `struct rdma_bcast_set_counter`, with no node where the memory is still zero. -/
structure RdmaBcastSetCounter (ν : Type) where
  mrb : MudmRdmaBcast
  originationNode : Option ν
  deriving DecidableEq, Repr

/-- `MUDM_REDUCE_BCAST_ORIGIN`, a reduce for one node, and `MUDM_REDUCE_BCAST_FINISH`, one for all. -/
inductive ReduceType
  | origin
  | finish
  deriving DecidableEq, Repr

structure BcastReduce (ν : Type) where
  type : ReduceType
  dest : Option ν
  classRoute : Nat
  deriving DecidableEq, Repr

/-- A message on the class route: a `MUDM_RDY_RDMA_BCAST`, or the result of a reduce. -/
inductive Collective (ν : Type)
  | rdy (rbsc : RdmaBcastSetCounter ν)
  | reduce (r : BcastReduce ν)
  deriving DecidableEq, Repr

/-- A node: the fields of `struct bcast_rdma_object` with the counter that it leads to, what waits for the
node in its reception FIFO, and the reduces to which it has contributed and others have not. Behind them
is its history: the bytes that the counter has come down by, the statuses that it has written, the
requests that it has reported, and how many broadcasts it has been made ready for, has found its counter
zero in, and has finished. -/
structure BcastNode (ν : Type) where
  state : BcastState
  muCounter : BitVec 64
  bcastCounterInfo : RdmaBcastSetCounter ν
  localStatusAddress : Nat
  localStatusValue : Nat
  originBcastNode : Option ν
  classRoute4bcast : Nat
  inbox : List (Collective ν)
  contributed : List (BcastReduce ν)
  got : BitVec 64
  statusWrites : List (Nat × Nat)
  reports : List Nat
  readied : Nat
  zeroed : Nat
  finished : Nat

namespace BcastNode

variable {ν : Type}

/-- `mudm_bcast_reduce` of a node, with the number of nodes that it counts left out. -/
def bcastReduce (x : BcastNode ν) (type : ReduceType) : BcastNode ν :=
  { x with contributed := x.contributed ++ [⟨type, x.originBcastNode, x.classRoute4bcast⟩] }

/-- `ready_rdma_bcast_receive_reduce` -/
def readyRdmaBcastReceiveReduce (x : BcastNode ν) (rbsc : RdmaBcastSetCounter ν) : BcastNode ν :=
  let x :=
    { x with
      muCounter := rbsc.mrb.payloadLength
      originBcastNode := rbsc.originationNode
      classRoute4bcast := rbsc.mrb.classRoute
      localStatusAddress := rbsc.mrb.statusMem
      localStatusValue := rbsc.mrb.statusVal
      got := 0
      readied := x.readied + 1 }
  let x := if rbsc.mrb.payloadLength ≠ 0 then x.bcastReduce .origin else x
  { x with state := .receiver }

/-- `clear_rdma_bcast_receive_reduce` -/
def clearRdmaBcastReceiveReduce (x : BcastNode ν) : BcastNode ν :=
  let refReqId := x.bcastCounterInfo.mrb.requestID
  { x with
    bcastCounterInfo :=
      { x.bcastCounterInfo with mrb := { x.bcastCounterInfo.mrb with requestID := 0 } }
    state := .inactive
    reports := if refReqId ≠ 0 then x.reports ++ [refReqId] else x.reports
    finished := x.finished + 1 }

/-- `rdma_bcast_poll_reduce` -/
def rdmaBcastPollReduce (x : BcastNode ν) : BcastNode ν :=
  if x.muCounter ≠ 0 then x
  else if x.state ≠ .receiver then x
  else
    let x :=
      { x with
        statusWrites :=
          if x.localStatusAddress ≠ 0 then
            x.statusWrites ++ [(x.localStatusAddress, x.localStatusValue)]
          else x.statusWrites
        zeroed := x.zeroed + 1 }
    { x.bcastReduce .finish with state := .wait4clear }

/-- The part of `mudm_bcast_RDMA_write` behind the check of the state: the counter and the information that
the broadcast of the ready message reads. -/
def setUp (x : BcastNode ν) (n : ν) (mrb : MudmRdmaBcast) : BcastNode ν :=
  { x with bcastCounterInfo := ⟨mrb, some n⟩, muCounter := mrb.payloadLength }

/-- The MU takes bytes of a direct put. -/
def put (x : BcastNode ν) (bytes : BitVec 64) : BcastNode ν :=
  { x with muCounter := x.muCounter - bytes, got := x.got + bytes }

end BcastNode

/-- A direct put to all nodes, with the bytes that each of them has not got yet. -/
structure BcastDirectPut (ν : Type) where
  bytes : BitVec 64
  sourcePaddr : Nat
  destPaddr : Nat
  classRoute : Nat
  left : ν → BitVec 64

/-- The nodes of a class route. A call has two parts, since other things go on between its check and its
writes; `launching` are the calls between them. A ready message is in flight until it has its place in the
order in which all nodes get the collectives. -/
structure BcastNet (ν : Type) where
  node : ν → BcastNode ν
  launching : List (ν × MudmRdmaBcast)
  inFlight : List (RdmaBcastSetCounter ν)
  data : List (BcastDirectPut ν)
  started : List (ν × MudmRdmaBcast)

/-- What happens next: the check of a call, and its writes; a ready message gets its place; a reduce, when
all nodes have contributed to it; a node handles a message; the MU of a node takes some bytes of a direct
put; a node polls. -/
inductive BcastInput (ν : Type)
  | call (n : ν) (mrb : MudmRdmaBcast)
  | launch (i : Nat)
  | arrive (i : Nat)
  | combine (r : BcastReduce ν)
  | deliver (n : ν)
  | data (i : Nat) (n : ν) (bytes : BitVec 64)
  | poll (n : ν)

namespace BcastNet

variable {ν : Type} [DecidableEq ν]

def setNode (s : BcastNet ν) (n : ν) (x : BcastNode ν) : BcastNet ν :=
  { s with node := Function.update s.node n x }

/-- The message goes behind what waits for these nodes. -/
def hand (s : BcastNet ν) (dests : ν → Bool) (c : Collective ν) : BcastNet ν :=
  { s with
    node := fun n =>
      if dests n then { s.node n with inbox := (s.node n).inbox ++ [c] } else s.node n }

/-- `mudm_recv_bcast` -/
def mudmRecvBcast (s : BcastNet ν) (n : ν) : Collective ν → BcastNet ν
  | .rdy rbsc => s.setNode n ((s.node n).readyRdmaBcastReceiveReduce rbsc)
  | .reduce r =>
    match r.type with
    | .origin =>
      let mrb := (s.node n).bcastCounterInfo.mrb
      if mrb.payloadLength ≠ 0 then
        { s with
          data := s.data ++ [⟨mrb.payloadLength, mrb.sourcePayloadPaddr, mrb.destPayloadPaddr,
            mrb.classRoute, fun _ => mrb.payloadLength⟩] }
      else s
    | .finish => s.setNode n (s.node n).clearRdmaBcastReceiveReduce

end BcastNet

section Step

variable {ν : Type} [DecidableEq ν] [Fintype ν]

def bcastStep (s : BcastNet ν) : BcastInput ν → Option (BcastNet ν)
  | .call n mrb =>
    -- returns `-EBUSY`
    if (s.node n).state ≠ .inactive then some s
    else
      some
        { s.setNode n { s.node n with state := .setup } with
          launching := s.launching ++ [(n, mrb)]
          started := s.started ++ [(n, mrb)] }
  | .launch i =>
    match s.launching[i]? with
    | none => none
    | some (n, mrb) =>
      let x := (s.node n).setUp n mrb
      some
        { s.setNode n x with
          launching := s.launching.eraseIdx i
          inFlight := s.inFlight ++ [x.bcastCounterInfo] }
  | .arrive i =>
    match s.inFlight[i]? with
    | none => none
    | some rbsc => some ({ s with inFlight := s.inFlight.eraseIdx i }.hand (fun _ => true) (.rdy rbsc))
  | .combine r =>
    if ∀ n, (s.node n).contributed.head? = some r then
      let s : BcastNet ν :=
        { s with
          node := fun n => { s.node n with contributed := (s.node n).contributed.tail } }
      match r.type with
      | .origin => some (s.hand (fun n => r.dest = some n) (.reduce r))
      | .finish => some (s.hand (fun _ => true) (.reduce r))
    else none
  | .deliver n =>
    match (s.node n).inbox with
    | [] => none
    | c :: inbox => some ((s.setNode n { s.node n with inbox := inbox }).mudmRecvBcast n c)
  | .data i n bytes =>
    match s.data[i]? with
    | none => none
    | some p =>
      if bytes ≠ 0 ∧ bytes ≤ p.left n then
        some
          { s.setNode n ((s.node n).put bytes) with
            data := s.data.set i { p with left := Function.update p.left n (p.left n - bytes) } }
      else none
  | .poll n => some (s.setNode n (s.node n).rdmaBcastPollReduce)

/-- The nodes before any broadcast, their memory still zero. -/
def newBcastNet : BcastNet ν where
  node _ :=
    { state := .inactive, muCounter := 0, bcastCounterInfo := ⟨⟨0, 0, 0, 0, 0, 0, 0⟩, none⟩
      localStatusAddress := 0, localStatusValue := 0, originBcastNode := none, classRoute4bcast := 0
      inbox := [], contributed := [], got := 0, statusWrites := [], reports := [], readied := 0
      zeroed := 0, finished := 0 }
  launching := []
  inFlight := []
  data := []
  started := []

end Step

/-- The requests of a node among these broadcasts. A request ID of 0 asks for no report. -/
def requestsOf {ν : Type} [DecidableEq ν] (n : ν) (started : List (ν × MudmRdmaBcast)) : List Nat :=
  ((started.filter fun b => b.1 = n).map fun b => b.2.requestID).filter fun r => r ≠ 0

/-- The node holds what it needs for this broadcast: its origin, its status, and a counter that has come
down by the bytes that have arrived since. -/
structure BcastNode.Shows {ν : Type} (x : BcastNode ν) (b : ν × MudmRdmaBcast) : Prop where
  origin : x.originBcastNode = some b.1
  classRoute : x.classRoute4bcast = b.2.classRoute
  statusAddress : x.localStatusAddress = b.2.statusMem
  statusValue : x.localStatusValue = b.2.statusVal
  counter : x.muCounter = b.2.payloadLength - x.got

/-- Input that is not a call -/
def BcastInput.IsOurs {ν : Type} : BcastInput ν → Prop
  | .call .. => False
  | _ => True

/-- Something happens other than a call. -/
def BcastNet.Moves {ν : Type} [DecidableEq ν] [Fintype ν] (s s' : BcastNet ν) : Prop :=
  ∃ i : BcastInput ν, i.IsOurs ∧ bcastStep s i = some s' ∧ s' ≠ s

/-- The broadcasts of a class route, in the order in which the calls were let in, come one after the other
at every node. A node reports its own ones as it finishes them, each once, and no node finishes one that
another has not found its counter zero in. A node is not made ready for a broadcast before it has finished
the one before, and has until then what it was made ready with. As long as a broadcast is not finished,
there is something to do other than to wait for calls, and nothing but calls can go on forever. -/
structure BcastSound {ν : Type} [DecidableEq ν] [Fintype ν] (s : BcastNet ν) : Prop where
  reports : ∀ n, (s.node n).reports = requestsOf n (s.started.take (s.node n).finished)
  drained : ∀ n k, (s.node n).finished ≤ (s.node k).zeroed
  alternate : ∀ n, (s.node n).finished ≤ (s.node n).zeroed ∧ (s.node n).zeroed ≤ (s.node n).readied ∧
    (s.node n).readied ≤ (s.node n).finished + 1 ∧ (s.node n).readied ≤ s.started.length
  held : ∀ n b, s.started[(s.node n).finished]? = some b →
    (s.node n).readied = (s.node n).finished + 1 → (s.node n).Shows b
  ownHeld : ∀ n mrb, s.started[(s.node n).finished]? = some (n, mrb) → (n, mrb) ∉ s.launching →
    (s.node n).bcastCounterInfo = ⟨mrb, some n⟩ ∧
      ((s.node n).readied = (s.node n).finished → (s.node n).muCounter = mrb.payloadLength)
  goesOn : ∀ n, (s.node n).finished < s.started.length → ∃ s', s.Moves s'
  settles : Acc (fun s' s => s.Moves s') s

end BgqVrnic
