import BgqVrnic.ConnRuns
import BgqVrnic.Polls
import BgqVrnic.ReportRuns

namespace BgqVrnic

open Intrusive Pools Polls

/-- `struct rdma_obj_controls` with its objects: `rdma_free_list` is the list of the free ones, and
`counter_list` that of the posted ones. -/
abbrev RdmaObjControls : Type := Store MudmRdmaObject

/-- What may be done with objects outside of a poll. -/
inductive RdmaObjOp
  | allocateRdmaObject
  | freeRdmaObj (mro : Nat)
  | releaseRdmaObjToPoll (mro : Nat)
  | write (mro : Nat) (f : MudmRdmaObject → MudmRdmaObject)

def RdmaObjOp.op : RdmaObjOp → Op MudmRdmaObject
  | .allocateRdmaObject => .take fun mro => { mro with localRequestId := 0, remoteRdmaObjPa := 0 }
  | .freeRdmaObj mro => .release mro id
  | .releaseRdmaObjToPoll mro => .post mro id
  | .write mro f => .write mro f

/-- The words of `struct my_context` that completion puts are read from: 0 and `-EINVAL`. -/
inductive PutSource
  | rdmaGoodSource | rdmaEinvalSource
  deriving DecidableEq, Repr

/-- The arguments of a `direct_put`. -/
structure RdmaPut where
  ccontext : Nat
  source : PutSource
  targetPa : Nat
  putLength : Nat
  counter : Nat
  deriving DecidableEq, Repr

/-- The put that tells the other end, at the `error` field of its element. -/
def MudmRdmaObject.completion (mro : MudmRdmaObject) : RdmaPut where
  ccontext := mro.localConnect
  source := if mro.error ≠ 0 then .rdmaEinvalSource else .rdmaGoodSource
  targetPa := (mro.remoteRdmaObjPa + 8) % 2 ^ 64
  putLength := 8
  counter := mro.remoteRdmaObjPa

/-- A round of `rdma_poll_rdma_counter`. It returns at a connection without its magic number; an error has
32 bits in the list for the callback, and is cleared only where a request ID has been. -/
def rdmaRules (m : MyContext) : Rules MudmRdmaObject (Nat × Nat) RdmaPut where
  done mro := mro.muCounter = 0 || mro.error ≠ 0
  stops mro := mro.remoteRdmaObjPa ≠ 0 && !(m.conn mro.localConnect).magic
  sent mro := if mro.remoteRdmaObjPa ≠ 0 then [mro.completion] else []
  report mro :=
    if mro.localRequestId ≠ 0 then some (mro.localRequestId, mro.error % 2 ^ 32) else none
  settled mro := if mro.localRequestId ≠ 0 then { mro with localRequestId := 0, error := 0 } else mro
  kept := id
  counts _ := true
  full := numRefid

/-- `direct_put`, call after call: the `k`-th injects its descriptor if the FIFO of its link is active
then, and otherwise returns -1. A counter that is no multiple of 8 stops the kernel, at the `MUSPI_assert`
of `set_counter_directput`. -/
def directPut (active : Nat → Bool) (puts : List RdmaPut) : Option (List RdmaPut) :=
  if ∀ put ∈ onActive active puts, put.counter % 8 = 0 then some (onActive active puts) else none

/-- The completion puts of the objects on the list that `p` shows, in the order of the list. -/
def RdmaObjControls.completions (m : MyContext) (c : RdmaObjControls) (p : Pool MudmRdmaObject) :
    List RdmaPut :=
  (p.posted.filter ((rdmaRules m).isDone c)).flatMap fun i => (rdmaRules m).sent (c.block i)

variable {m : MyContext} {c : RdmaObjControls} {p : Pool MudmRdmaObject} {rounds : Nat}
  {active : Nat → Bool} {puts : List RdmaPut}

end BgqVrnic
