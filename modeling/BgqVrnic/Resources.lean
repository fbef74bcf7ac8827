import BgqVrnic.InjFifo
import BgqVrnic.Pools

namespace BgqVrnic

open Pools

/-- What a request uses of `struct pkt_descriptor`. -/
structure PktDescriptor where
  descCnt : Nat
  reqId : Nat
  errorVal : Nat
  deriving DecidableEq, Repr, Inhabited

/-- `struct mudm_rdma_object` together with its `struct mu_element`, the counter and the error that the
MU writes. The connection is an index. -/
structure MudmRdmaObject where
  remoteRdmaObjPa : Nat
  muCounter : Nat
  error : Nat
  localRequestId : Nat
  localConnect : Nat
  deriving DecidableEq, Repr, Inhabited

/-- The pools of a node, by the fields of `struct my_context` that lead to them. -/
inductive PoolName
  | packetcontrols (k : Link)
  | smallpaObjCtls (k : Link)
  | rdmaObjCtls (k : Link)
  deriving DecidableEq, Repr

abbrev PoolName.Block : PoolName → Type
  | .packetcontrols _ => PktDescriptor
  | .smallpaObjCtls _ => PktDescriptor
  | .rdmaObjCtls _ => MudmRdmaObject

instance blockInhabited (n : PoolName) : Inhabited n.Block :=
  match n with
  | .packetcontrols _ => ⟨(default : PktDescriptor)⟩
  | .smallpaObjCtls _ => ⟨(default : PktDescriptor)⟩
  | .rdmaObjCtls _ => ⟨(default : MudmRdmaObject)⟩

/-- `struct pkt_controls` and `struct rdma_obj_controls`: the free lists, and `pkt_reqid_list` or
`counter_list` as the posted ones. -/
abbrev Resources : Type := (n : PoolName) → Pool n.Block

/-- `alloc_pkt_message` -/
def allocPktMessage (p : Pool PktDescriptor) : Option (Nat × Pool PktDescriptor) :=
  p.take fun pktd => { pktd with reqId := 0, errorVal := 0, descCnt := noDesc }

/-- `release_pkt_to_free` -/
def releasePktToFree (pktd : Nat) (p : Pool PktDescriptor) : Pool PktDescriptor :=
  (p.set pktd fun d => { d with descCnt := 0 }).release pktd

/-- `release_pkt_to_poll` -/
def releasePktToPoll (pktd descCount : Nat) (p : Pool PktDescriptor) : Pool PktDescriptor :=
  (p.set pktd fun d => { d with descCnt := descCount }).post pktd

/-- `set_pkt_req_id` -/
def setPktReqId (pktd value : Nat) (p : Pool PktDescriptor) : Pool PktDescriptor :=
  p.set pktd fun d => { d with reqId := value }

/-- `allocate_rdma_object` -/
def allocateRdmaObject (p : Pool MudmRdmaObject) : Option (Nat × Pool MudmRdmaObject) :=
  p.take fun mro => { mro with localRequestId := 0, remoteRdmaObjPa := 0 }

/-- `free_rdma_obj` -/
def freeRdmaObj (mro : Nat) (p : Pool MudmRdmaObject) : Pool MudmRdmaObject := p.release mro

/-- `release_rdma_obj_to_poll` -/
def releaseRdmaObjToPoll (mro : Nat) (p : Pool MudmRdmaObject) : Pool MudmRdmaObject := p.post mro

/-- `r` after something has happened to the pool `n`. -/
def Resources.put (r : Resources) (n : PoolName) (p : Pool n.Block) : Resources :=
  Function.update r n p

/-- Every pool has one block, and it is free. -/
def oneOfEach : Resources := fun _ => ⟨[0], [], fun _ => default⟩

@[simp] theorem Resources.put_self (r : Resources) (n : PoolName) (p : Pool n.Block) :
    r.put n p n = p := Function.update_self ..

theorem Resources.put_of_ne (r : Resources) {n n' : PoolName} (p : Pool n.Block) (h : n' ≠ n) :
    r.put n p n' = r n' := Function.update_of_ne h _ _

end BgqVrnic
