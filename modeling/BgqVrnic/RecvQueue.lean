import BgqVrnic.Completions

namespace BgqVrnic

/-- The data messages that use up a receive WQE, without their headers: the length of an immediate
message, or the payload of a remote one. -/
inductive DataMsg
  | imm (payloadLength : Nat)
  | remote (payload : SendRemotePayload)

/-- What receiving meets outside the queue: the registered regions, the array of pieces as it lies
on the stack, the value `mudm_rdma_read` returns once it is not `-EBUSY`, and CQE allocation. -/
structure RecvEnv where
  mrs : RegionTable
  stack : Nat → MudmSgl
  rdmaRead : Int
  cqeAlloc : Nat → Bool

/-- The copy loop of `bgvrnic_recv_immed`: the destinations and sizes of its `memcpy` calls. `none` is
the `BUG_ON` for pieces that end before the data does. -/
def copyPieces : List MudmSgl → Nat → Option (List MudmSgl)
  | _, 0 => some []
  | [], _ + 1 => none
  | e :: es, length =>
    let chunk := min length e.memlength
    if e.memlength ≤ chunk then
      (copyPieces es (length - chunk)).map (⟨e.physicalAddr, chunk⟩ :: ·)
    else some [⟨e.physicalAddr, chunk⟩]

/-- `bgvrnic_recv_immed`: the WQE, the copies made and the return value. -/
def bgvrnicRecvImmed (env : RecvEnv) (wqe : RecvWqe) (length : Nat) :
    Option (RecvWqe × List MudmSgl × Int) := do
  let x ← bgvrnicXlateSgl env.mrs wqe.wr.sgList env.stack mudmMaxSge
  if x.rc < 0 then none
  else
    let truncated := x.rc.toNat < length
    let length := if truncated then x.rc.toNat else length
    let copies ← copyPieces x.pieces length
    some ({ wqe with
      status := if truncated then ibWcLocLenErr else ibWcSuccess
      length := length
      state := .done }, copies, if truncated then -E2BIG else 0)

def SendRemotePayload.hasImm (pl : SendRemotePayload) : Bool := pl.flags % 2 = 1

/-- The WQE of a remote message as `bgvrnic_recv_remote` initializes it: `total` is the result of the
translation, and becomes the length whatever the message says. -/
def initRemoteWqe (wqe : RecvWqe) (total : Int) (pl : SendRemotePayload) : RecvWqe :=
  { wqe with
    status := if total.toNat < pl.dataLength then ibWcLocLenErr else wqe.status
    length := toU32 total
    immDataValid := pl.hasImm || wqe.immDataValid
    immData := if pl.hasImm then pl.immediateData else wqe.immData }

/-- What follows the call of `mudm_rdma_read`, by its return value; `none` is the `BUG`. -/
def settleRecv (wqe : RecvWqe) (rdmaRead : Int) : Option (RecvWqe × Int) :=
  if rdmaRead = -ECANCELED then
    some ({ wqe with status := ibWcRemAbortErr, state := .done }, rdmaRead)
  else if rdmaRead = 0 then some ({ wqe with state := .done }, 0)
  else if rdmaRead = -EINPROGRESS then some ({ wqe with state := .run }, 0)
  else none

/-- `bgvrnic_recv_remote`: the WQE and the return value. The number of bytes asked of
`mudm_rdma_read` is the data length, cut off at what the translation covers. -/
def bgvrnicRecvRemote (env : RecvEnv) (wqe : RecvWqe) (pl : SendRemotePayload) :
    Option (RecvWqe × Int) := do
  let x ← bgvrnicXlateSgl env.mrs wqe.wr.sgList env.stack mudmMaxSge
  if x.rc < 0 then none else settleRecv (initRemoteWqe wqe x.rc pl) env.rdmaRead

/-- A WQE after the message that uses it up. -/
def receiveInto (env : RecvEnv) (wqe : RecvWqe) : DataMsg → Option RecvWqe
  | .imm length => (bgvrnicRecvImmed env wqe length).map Prod.fst
  | .remote pl => (bgvrnicRecvRemote env wqe pl).map Prod.fst

/-- The receive queue with the completion queue while `bgvrnic_process_recv_wqes` walks it; `reported`
are the WQEs completed with the CQEs appended for them. -/
structure RecvPass where
  rcq : VrnicCq
  reported : List (RecvWqe × List IbWc)

def processRecvFrom (qpNum : Nat) (env : RecvEnv) :
    List RecvWqe → RecvPass → Option (List RecvWqe × RecvPass)
  | [], p => some ([], p)
  | wqe :: rest, p =>
    match wqe.state with
    | .done =>
      let cq := (addRecvCqe p.rcq qpNum wqe (env.cqeAlloc wqe.id)).1
      let cqes := cq.entries.drop p.rcq.entries.length
      processRecvFrom qpNum env rest ⟨cq, p.reported ++ [(wqe, cqes)]⟩
    | .init | .run => some (wqe :: rest, p)
    | _ => none

/-- `bgvrnic_process_recv_wqes` and the WQEs it reports. -/
def bgvrnicProcessRecvWqes (qp : VrnicQp) (env : RecvEnv) :
    Option (VrnicQp × List (RecvWqe × List IbWc)) := do
  let (rq, p) ← processRecvFrom qp.qpNum env qp.rq ⟨qp.rcq, []⟩
  some ({ qp with rq := rq, rcq := p.rcq }, p.reported)

/-- The search of `mu_recv_cb` for an unused WQE, which the message is then received into. `none` is
a `BUG`; without a WQE the queue comes back as it is. -/
def takeBuffer (env : RecvEnv) (msg : DataMsg) : List RecvWqe → Option (List RecvWqe × Option Nat)
  | [] => some ([], none)
  | wqe :: rest =>
    if wqe.state = .init then do
      let w ← receiveInto env wqe msg
      some (w :: rest, some wqe.id)
    else do
      let (rest, id) ← takeBuffer env msg rest
      some (wqe :: rest, id)

/-- The data case of `mu_recv_cb`. With no WQE for the message the QP is disconnected, which leaves
its receive queue alone. -/
def muRecvData (qp : VrnicQp) (env : RecvEnv) (msg : DataMsg) :
    Option (VrnicQp × Option Nat × List (RecvWqe × List IbWc)) := do
  let (rq, id) ← takeBuffer env msg qp.rq
  match id with
  | some id => do
    let (qp, reported) ← bgvrnicProcessRecvWqes { qp with rq := rq } env
    some (qp, some id, reported)
  | none => some (qp, none, [])

/-- The receive case of `mu_status_cb` for the WQE at `id`, up to the pass over the queue. -/
def recvDone (id : Nat) (status : Int) (wqe : RecvWqe) : RecvWqe :=
  if wqe.id = id then
    { wqe with status := if wqe.status < 0 then status else wqe.status, state := .done }
  else wqe

def muStatusRecv (qp : VrnicQp) (id : Nat) (status : Int) (env : RecvEnv) :
    Option (VrnicQp × List (RecvWqe × List IbWc)) :=
  bgvrnicProcessRecvWqes { qp with rq := qp.rq.map (recvDone id status) } env

structure RecvRequest where
  wr : RecvWr
  wqeAlloc : Bool
  deriving DecidableEq, Repr, Inhabited

/-- The loop of `bgvrnic_post_recv`, with the return value and `*bad_wr`. -/
def queueRecvWrs : VrnicQp → List RecvRequest → VrnicQp × Int × Option RecvWr
  | qp, [] => (qp, 0, none)
  | qp, r :: rs =>
    if qp.maxRecvSge < r.wr.sgList.length then (qp, -EINVAL, some r.wr)
    else if r.wqeAlloc then
      queueRecvWrs { qp with
        nextWqe := qp.nextWqe + 1
        rq := qp.rq ++ [allocRecvWqe qp.nextWqe r.wr] } rs
    else (qp, -ENOMEM, some r.wr)

def bgvrnicPostRecv (qp : VrnicQp) (reqs : List RecvRequest) : VrnicQp × Int × Option RecvWr :=
  if qp.qpState = .reset ∨ qp.qpState = .err then (qp, -EINVAL, none) else queueRecvWrs qp reqs

end BgqVrnic
