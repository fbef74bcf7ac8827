import BgqVrnic.SendQueue

namespace BgqVrnic

/-- A work request of a `post_send` list, and whether the memory for its WQE is there. -/
structure SendRequest where
  wr : SendWr
  wqeAlloc : Bool
  deriving DecidableEq, Repr, Inhabited

/-- How the loop over the work requests of a call ends: the pass over the queue follows a loop that
ran to its end or broke off, and is left out after a `goto out`. -/
inductive PostEnd
  | pass (rc : Int) (badWr : Option SendWr)
  | out (rc : Int) (badWr : Option SendWr)
  deriving DecidableEq, Repr

/-- The WQE for a work request as it goes on the send queue, if its opcode is supported. -/
def sendWqeFor (id : Nat) (wr : SendWr) : Except Int SendWqe :=
  let wqe := allocSendWqe id wr
  match wr.opcode with
  | .send | .rdmaWrite => .ok wqe
  | .sendWithImm | .rdmaWriteWithImm =>
    .ok { wqe with immDataValid := true, immData := wr.immData }
  | .rdmaRead => if 1 < wr.sgList.length then .error (-EINVAL) else .ok wqe
  | _ => .error (-EOPNOTSUPP)

/-- The loop of `bgvrnic_post_send`. -/
def queueSendWrs : VrnicQp → List SendRequest → VrnicQp × PostEnd
  | qp, [] => (qp, .pass 0 none)
  | qp, r :: rs =>
    if qp.maxRecvSge < r.wr.sgList.length then (qp, .pass (-EINVAL) (some r.wr))
    else if r.wqeAlloc then
      match sendWqeFor qp.nextWqe r.wr with
      | .ok wqe => queueSendWrs { qp with nextWqe := qp.nextWqe + 1, sq := qp.sq ++ [wqe] } rs
      | .error e => ({ qp with nextWqe := qp.nextWqe + 1 }, .out e (some r.wr))
    else (qp, .pass (-ENOMEM) (some r.wr))

/-- A pass over the send queue under the queue's lock, and what it left in the record. -/
def passSendQueue (qp : VrnicQp) (env : SendEnv) : Option (VrnicQp × List SendEvent) := do
  let r ← bgvrnicProcessSendWqes qp env
  some ({ qp with sq := r.sq, scq := r.scq }, r.events)

/-- `bgvrnic_post_send`: the queue pair, the record of the pass, the return value and `*bad_wr`. -/
def bgvrnicPostSend (qp : VrnicQp) (reqs : List SendRequest) (env : SendEnv) :
    Option (VrnicQp × List SendEvent × Int × Option SendWr) :=
  if qp.qpState ≠ .rts then some (qp, [], -EINVAL, none)
  else match queueSendWrs qp reqs with
  | (qp, .out rc bad) => some (qp, [], rc, bad)
  | (qp, .pass rc bad) => do
    let (qp, events) ← passSendQueue qp env
    some (qp, events, rc, bad)

/-- The send case of `mu_status_cb` for the WQE at `id`, up to the pass over the queue. -/
def sendDone (id : Nat) (status : Int) (wqe : SendWqe) : SendWqe :=
  if wqe.id = id then
    { wqe with status := if wqe.status < 0 then status else wqe.status, state := .done }
  else wqe

def muStatusSend (qp : VrnicQp) (id : Nat) (status : Int) (env : SendEnv) :
    Option (VrnicQp × List SendEvent) :=
  passSendQueue { qp with sq := qp.sq.map (sendDone id status) } env

end BgqVrnic
