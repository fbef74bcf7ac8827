import BgqVrnic.Passes
import BgqVrnic.Runs
import BgqVrnic.SendCalls

namespace BgqVrnic

open Passes Pools Runs

/-- What `poll_pkt_message` and `flush_pkt_reqid` do to a packet descriptor. -/
def pktKind : Kind PktDescriptor where
  request pktd := pktd.reqId
  error pktd := pktd.errorVal
  done refDescCount pktd := pktd.descCnt ≤ refDescCount
  collect pktd := { pktd with reqId := 0, errorVal := 0 }
  cancel pktd := { pktd with reqId := 0 }
  request_collect _ := rfl
  request_cancel _ := rfl

/-- What `rdma_poll_rdma_counter` and `flush_rdma_counter_reqid` do to an object. -/
def rdmaKind : Kind MudmRdmaObject where
  request mro := mro.localRequestId
  error mro := mro.error
  done _ mro := mro.muCounter = 0 || mro.error ≠ 0
  collect mro := { mro with localRequestId := 0, error := 0 }
  cancel mro := { mro with muCounter := 0, localRequestId := 0 }
  request_collect _ := rfl
  request_cancel _ := rfl

def PoolName.kind : (n : PoolName) → Kind n.Block
  | .packetcontrols _ => pktKind
  | .smallpaObjCtls _ => pktKind
  | .rdmaObjCtls _ => rdmaKind

def PoolName.link : PoolName → Link
  | .packetcontrols k => k
  | .smallpaObjCtls k => k
  | .rdmaObjCtls k => k

/-- `NUM_REFID` -/
def numRefid : Nat := 8

/-- `(uint32_t)(-ECANCELED)` -/
def canceledStatus : Nat := 2 ^ 32 - 125

/-- A call that may leave a request behind. -/
inductive SendCall
  | pkt (conn : Connection) (requestId payloadLength turns : Nat)
  | messageRemote (c : Nat) (conn : Connection) (type : RemoteType) (payload : RemotePayload)
  | rdmaRead (q : ReadRequest) (turns : Nat)

/-- The return value and the pools, where a call has returned. -/
def finished : CallPhase × Resources → Option (Int × Resources)
  | (.returned rc, r) => some (rc, r)
  | _ => none

/-- What the call returns and makes of the pools, if it returns. -/
def SendCall.run (env : Link → InjEnv) (r : Resources) : SendCall → Option (Int × Resources)
  | .pkt conn requestId payloadLength turns =>
    finished (mudmSendPkt env r conn requestId payloadLength turns)
  | .messageRemote c conn type payload => some (mudmSendMessageRemote env r c conn type payload)
  | .rdmaRead q turns => finished (mudmRdmaReadCall env r q turns)

/-- The list that the request waits on. -/
def SendCall.list : SendCall → PoolName
  | .pkt conn .. => conn.smallPackets
  | .messageRemote _ conn .. => conn.objects
  | .rdmaRead q _ => q.conn.objects

def SendCall.request : SendCall → Nat
  | .pkt _ requestId .. => requestId
  | .messageRemote _ _ _ payload => payload.requestId
  | .rdmaRead q _ => q.requestId

/-- The request is accepted, on one list, by a call that returns `-EINPROGRESS`. -/
def SendCall.acceptedOn (call : SendCall) (rc : Int) (n : PoolName) : List Nat :=
  if rc = -EINPROGRESS ∧ n = call.list then [call.request] else []

/-- The pools of a node with the passes over their lists, and the counts of the MU. -/
structure ReportNode where
  desk : (n : PoolName) → Desk n.Block
  hwDescCount : Link → Nat

/-- A call, from anywhere and also out of a status callback; the beginning of a poll or a flush and each
of its further steps; and what the MU does: it takes a descriptor, counts an object down, or writes the
error that the other side has put. -/
inductive ReportInput
  | send (env : Link → InjEnv) (call : SendCall)
  | poll (n : PoolName)
  | flush (n : PoolName)
  | pass (n : PoolName) (k : Nat)
  | taken (k : Link)
  | put (k : Link) (mro bytes : Nat)
  | remoteError (k : Link) (mro error : Nat)

def ReportNode.resources (s : ReportNode) : Resources := fun n => (s.desk n).pool

def ReportNode.onDesk (s : ReportNode) (n : PoolName) (d : Desk n.Block) : ReportNode :=
  { s with desk := Function.update s.desk n d }

/-- What the MU writes to an object. -/
def ReportNode.write (s : ReportNode) (k : Link) (mro : Nat) (f : MudmRdmaObject → MudmRdmaObject) :
    ReportNode :=
  let d : Desk MudmRdmaObject := s.desk (.rdmaObjCtls k)
  s.onDesk (.rdmaObjCtls k) { d with pool := d.pool.set mro f }

def reportStep (s : ReportNode) : ReportInput → Option ReportNode
  | .send env call =>
    match call.run env s.resources with
    | none => none
    | some (rc, r) =>
      some
        { s with
          desk := fun n =>
            let d := s.desk n
            { d with pool := r n, accepted := d.accepted ++ call.acceptedOn rc n } }
  | .poll n => some (s.onDesk n ((s.desk n).start n.kind false (s.hwDescCount n.link)))
  | .flush n => some (s.onDesk n ((s.desk n).start n.kind true (s.hwDescCount n.link)))
  | .pass n k =>
    ((s.desk n).pass n.kind numRefid canceledStatus k).map fun d => s.onDesk n d
  | .taken k =>
    some { s with hwDescCount := Function.update s.hwDescCount k (s.hwDescCount k + 1) }
  | .put k mro bytes =>
    some (s.write k mro fun o => { o with muCounter := o.muCounter - bytes })
  | .remoteError k mro error =>
    some (s.write k mro fun o => { o with error := if error = 0 then o.error else error })

/-- The pools after `alloc_pkt_list_object` and `rdma_init`: all blocks are free, whatever they hold. -/
def newReportNode (size : PoolName → Nat) (block : (n : PoolName) → Nat → n.Block) : ReportNode :=
  { desk := fun n => Desk.ofPool ⟨List.range (size n), [], block n⟩
    hwDescCount := fun _ => 0 }

variable {env : InjEnv} {r r' : Resources} {q : ReadRequest} {s : ReadCall} {p p' : Pool PktDescriptor}
  {o o' : Pool MudmRdmaObject} {pktd mro look desc requestId n i : Nat} {rc : Int}

theorem disposed_free : Disposed pktKind pktd p (releasePktToFree pktd p) [] where
  block _ hj := by rw [releasePktToFree, Pool.block_release, Pool.block_set_of_ne hj]
  lists := Or.inl ⟨rfl, rfl, rfl⟩

theorem disposed_poll (desc : Nat) :
    Disposed pktKind pktd p (releasePktToPoll pktd desc p) [(p.block pktd).reqId] where
  block _ hj := by rw [releasePktToPoll, Pool.block_post, Pool.block_set_of_ne hj]
  lists := by
    refine Or.inr (Or.inl ⟨rfl, rfl, ?_⟩)
    rw [releasePktToPoll, Pool.block_post, Pool.block_set_self]
    rfl

theorem allocPkt_reqId (h : allocPktMessage p = some (pktd, p')) : (p'.block pktd).reqId = 0 := by
  obtain ⟨-, -, hblock⟩ := Pool.take_eq h
  rw [hblock, Function.update_self]

/-- A packet without a request does not count as one. -/
theorem Sent.zero {β : Type} {K : Kind β} {p p' : Pool β} (h : Sent K p p' [0]) : Sent K p p' [] where
  lists := by
    obtain ⟨posted, held, hfree, hposted, hnew⟩ := h.lists
    refine ⟨posted, held, hfree, hposted, fun r hr => ?_⟩
    rw [hnew r hr]
    exact List.count_eq_zero.mpr fun hmem => hr (List.mem_singleton.mp hmem)
  block := h.block

theorem sent_keepPkt (h : allocPktMessage p = some (pktd, p')) :
    Sent pktKind p (keepPkt env look pktd desc p') [] := by
  unfold keepPkt
  split
  · exact disposed_free.sent h
  · have hposted := (disposed_poll desc).sent h
    rw [allocPkt_reqId h] at hposted
    exact Sent.zero hposted

theorem sent_sendPktLoop (env : InjEnv) (requestId desc n look : Nat) (p : Pool PktDescriptor) :
    Sent pktKind p (sendPktLoop env requestId desc n look p).2
      (if (sendPktLoop env requestId desc n look p).1 = .returned (-EINPROGRESS) then [requestId]
        else []) := by
  induction n generalizing look with
  | zero => exact sent_refl p
  | succ n ih =>
    rw [sendPktLoop]
    split
    · exact sent_refl p
    · split
      · exact sent_refl p
      · split
        next spo p' halloc =>
          have hsome : allocPktMessage p = some (spo, p') := by
            split at halloc
            · exact halloc
            · cases halloc
          rw [if_pos rfl]
          have hdisposed : Disposed pktKind spo p'
              (releasePktToPoll spo desc (setPktReqId spo requestId p')) [requestId] := by
            refine ⟨fun j hj => ?_, Or.inr (Or.inl ⟨rfl, rfl, ?_⟩)⟩
            · rw [releasePktToPoll, setPktReqId, Pool.block_post, Pool.block_set_of_ne hj,
                Pool.block_set_of_ne hj]
            · rw [releasePktToPoll, setPktReqId, Pool.block_post, Pool.block_set_self,
                Pool.block_set_self]
              rfl
          exact hdisposed.sent hsome
        next => exact ih (look + 1)

/-- What happens to one pool happens to no other. -/
theorem sent_put {m : PoolName} {p : Pool m.Block} (l : PoolName → List Nat)
    (hr : ∀ n, n ≠ m → Sent n.kind (r n) (r' n) (l n)) (hm : Sent m.kind (r m) p (l m))
    (n : PoolName) : Sent n.kind (r n) (r'.put m p n) (l n) := by
  by_cases hn : n = m
  · subst hn
    rw [Resources.put_self]
    exact hm
  · rw [Resources.put_of_ne _ _ hn]
    exact hr n hn

theorem disposed_freeObj (f : MudmRdmaObject → MudmRdmaObject) :
    Disposed rdmaKind mro o (freeRdmaObj mro (o.set mro f)) [] where
  block _ hj := by rw [freeRdmaObj, Pool.block_release, Pool.block_set_of_ne hj]
  lists := Or.inl ⟨rfl, rfl, rfl⟩

theorem disposed_postObj (f : MudmRdmaObject → MudmRdmaObject) :
    Disposed rdmaKind mro o (releaseRdmaObjToPoll mro (o.set mro f))
      [(f (o.block mro)).localRequestId] where
  block _ hj := by rw [releaseRdmaObjToPoll, Pool.block_post, Pool.block_set_of_ne hj]
  lists := by
    refine Or.inr (Or.inl ⟨rfl, rfl, ?_⟩)
    rw [releaseRdmaObjToPoll, Pool.block_post, Pool.block_set_self]
    rfl

theorem disposed_loseObj (f : MudmRdmaObject → MudmRdmaObject) :
    Disposed rdmaKind mro o (o.set mro f) [] where
  block _ hj := Pool.block_set_of_ne hj
  lists := Or.inr (Or.inr ⟨rfl, rfl, rfl⟩)

theorem finished_eq {x : CallPhase × Resources} (h : finished x = some (rc, r')) :
    x = (.returned rc, r') := by
  unfold finished at h
  split at h
  · cases h
    rfl
  · cases h

/-- The requests of a call on the lists other than its own. -/
theorem acceptedOn_of_ne {call : SendCall} {n : PoolName} (h : n ≠ call.list) :
    call.acceptedOn rc n = [] := if_neg fun hc => h hc.2

theorem acceptedOn_of_failed {call : SendCall} {n : PoolName} (h : rc ≠ -EINPROGRESS) :
    call.acceptedOn rc n = [] := if_neg fun hc => h hc.1

theorem acceptedOn_list (call : SendCall) : call.acceptedOn (-EINPROGRESS) call.list = [call.request] :=
  if_pos ⟨rfl, rfl⟩

theorem sent_failed {call : SendCall} (h : rc ≠ -EINPROGRESS) (n : PoolName) :
    Sent n.kind (r n) (r n) (call.acceptedOn rc n) := by
  rw [acceptedOn_of_failed h]
  exact sent_refl _

theorem sendPkt_sent {env : Link → InjEnv} {conn : Connection} {payloadLength turns : Nat}
    (h : (SendCall.pkt conn requestId payloadLength turns).run env r = some (rc, r')) (n : PoolName) :
    Sent n.kind (r n) (r' n)
      ((SendCall.pkt conn requestId payloadLength turns).acceptedOn rc n) := by
  have hcall := finished_eq h
  unfold mudmSendPkt at hcall
  by_cases hlength : torusMaxPayloadSize < payloadLength
  · rw [if_pos hlength] at hcall
    cases hcall
    exact sent_failed (by decide) n
  · rw [if_neg hlength] at hcall
    by_cases hmagic : conn.magic = false
    · rw [if_pos hmagic] at hcall
      cases hcall
      exact sent_failed (by decide) n
    · rw [if_neg hmagic] at hcall
      obtain ⟨hphase, rfl⟩ := Prod.mk.inj hcall
      refine sent_put (m := conn.smallPackets)
        ((SendCall.pkt conn requestId payloadLength turns).acceptedOn rc) (fun n hn => ?_) ?_ n
      · rw [acceptedOn_of_ne hn]
        exact sent_refl _
      have hloop := sent_sendPktLoop (env conn.injfifoCtls) requestId
        ((env conn.injfifoCtls).inject 0) turns 0 (r conn.smallPackets)
      rw [hphase] at hloop
      by_cases hrc : rc = -EINPROGRESS
      · subst hrc
        rw [if_pos rfl] at hloop
        have hlist := acceptedOn_list (.pkt conn requestId payloadLength turns)
        exact hlist ▸ hloop
      · rw [if_neg (fun he => hrc (CallPhase.returned.inj he))] at hloop
        rw [acceptedOn_of_failed hrc]
        exact hloop

/-- A call that fails has freed the packet that it took. -/
theorem sent_freed {call : SendCall} {conn : Connection} {p : Pool PktDescriptor}
    (hp : allocPktMessage (r conn.packets) = some (pktd, p)) (h : rc ≠ -EINPROGRESS) (n : PoolName) :
    Sent n.kind (r n) (r.put conn.packets (releasePktToFree pktd p) n) (call.acceptedOn rc n) := by
  refine sent_put (m := conn.packets) (call.acceptedOn rc) (fun n _ => sent_failed h n) ?_ n
  rw [acceptedOn_of_failed h]
  exact disposed_free.sent hp

/-- A call that has taken a packet and an object: its packet does not have a request. -/
theorem sent_both {call : SendCall} {conn : Connection} {p : Pool PktDescriptor}
    {o : Pool MudmRdmaObject} (hlist : call.list = conn.objects)
    (hp : Sent pktKind (r conn.packets) p [])
    (ho : Sent rdmaKind (r conn.objects) o (if rc = -EINPROGRESS then [call.request] else []))
    (n : PoolName) :
    Sent n.kind (r n) ((r.put conn.packets p).put conn.objects o n) (call.acceptedOn rc n) := by
  have hobjects : call.acceptedOn rc conn.objects =
      if rc = -EINPROGRESS then [call.request] else [] := by
    rw [SendCall.acceptedOn, hlist]
    simp only [and_true]
  refine sent_put (m := conn.objects) (call.acceptedOn rc) (fun n hn => ?_) (hobjects ▸ ho) n
  have hother : ∀ m, m ≠ conn.objects → call.acceptedOn rc m = [] := fun m hm =>
    acceptedOn_of_ne (hlist ▸ hm)
  rw [hother n hn]
  exact sent_put (m := conn.packets) (fun _ => []) (fun _ _ => sent_refl _) hp n

theorem messageRemote_sent {env : Link → InjEnv} {c : Nat} {conn : Connection} {type : RemoteType}
    {payload : RemotePayload}
    (h : (SendCall.messageRemote c conn type payload).run env r = some (rc, r')) (n : PoolName) :
    Sent n.kind (r n) (r' n) ((SendCall.messageRemote c conn type payload).acceptedOn rc n) := by
  have hcall : mudmSendMessageRemote env r c conn type payload = (rc, r') := Option.some.inj h
  cases mudmSendMessageRemote_outcome hcall with
  | stopped _ hrc => exact sent_failed hrc n
  | freed _ pktd p hrc hpkt => exact sent_freed hpkt hrc n
  | posted pktd p mro objs hpkt hobj =>
    have hlist : (SendCall.messageRemote c conn type payload).list = conn.objects := rfl
    exact sent_both hlist (sent_keepPkt hpkt) ((disposed_postObj _).sent hobj) n

/-- What `mudm_rdma_read` has done with its packet and its object: they are its own until it returns. -/
def ReadDisposes (q : ReadRequest) (pktd mro : Nat) (packets : Pool PktDescriptor)
    (objects : Pool MudmRdmaObject) (s : ReadCall) : Prop :=
  match s.phase with
  | .returned rc =>
    (∀ p, allocPktMessage p = some (pktd, packets) → Sent pktKind p s.packets []) ∧
      Disposed rdmaKind mro objects s.objects (if rc = -EINPROGRESS then [q.requestId] else [])
  | .counting _ => s.packets = packets ∧ ∃ f, s.objects = objects.set mro f
  | _ => s.packets = packets ∧ s.objects = objects.set mro fun _ => q.object

theorem finish_disposes {packets : Pool PktDescriptor} {objects : Pool MudmRdmaObject}
    (hp : s.packets = packets) (ho : s.objects = objects.set mro fun _ => q.object) :
    ReadDisposes q pktd mro packets objects (s.finish env q pktd mro) := by
  unfold ReadCall.finish
  split
  · refine ⟨fun p h => ?_, ?_⟩
    · dsimp only
      rw [ReadCall.sendRest_packets, hp]
      exact sent_keepPkt h
    · dsimp only
      rw [ReadCall.sendRest_objects, ho, if_pos rfl]
      exact disposed_postObj _
  · split
    · refine ⟨fun p h => hp ▸ disposed_free.sent h, ?_⟩
      dsimp only
      rw [ho]
      exact disposed_freeObj _
    · split
      · exact ⟨ReadCall.sendRest_packets.trans hp, fun _ => q.object,
          ReadCall.sendRest_objects.trans ho⟩
      · refine ⟨hp, fun _ => { q.object with localRequestId := 0 }, ?_⟩
        dsimp only
        rw [ho, Pool.set_set]

theorem counted_disposes {packets : Pool PktDescriptor} {objects : Pool MudmRdmaObject}
    {f : MudmRdmaObject → MudmRdmaObject} (hp : s.packets = packets)
    (ho : s.objects = objects.set mro f) :
    ReadDisposes q pktd mro packets objects (s.counted q pktd mro) := by
  unfold ReadCall.counted
  split
  · refine ⟨fun p h => hp ▸ disposed_free.sent h, ?_⟩
    dsimp only
    rw [ho]
    exact disposed_freeObj _
  · have hlost : Disposed pktKind pktd packets s.packets [] :=
      ⟨fun _ _ => by rw [hp], Or.inr (Or.inr ⟨by rw [hp], by rw [hp], rfl⟩)⟩
    refine ⟨fun p h => hlost.sent h, ?_⟩
    dsimp only
    rw [ho, if_neg (by decide)]
    exact disposed_loseObj _

theorem turn_disposes {packets : Pool PktDescriptor} {objects : Pool MudmRdmaObject}
    (h : ReadDisposes q pktd mro packets objects s) :
    ReadDisposes q pktd mro packets objects (s.turn env q pktd mro) := by
  cases hphase : s.phase with
  | looping =>
    rw [ReadDisposes, hphase] at h
    obtain ⟨hp, ho⟩ := h
    simp only [ReadCall.turn, hphase]
    split
    · split
      · exact ⟨hp, ho⟩
      · unfold ReadCall.build
        dsimp only
        split
        · exact finish_disposes hp ho
        · rw [ReadDisposes, hphase]
          exact ⟨hp, ho⟩
    · exact finish_disposes hp ho
  | waiting desc =>
    rw [ReadDisposes, hphase] at h
    simp only [ReadCall.turn, hphase]
    split
    · exact h
    · exact h
  | counting value =>
    rw [ReadDisposes, hphase] at h
    obtain ⟨hp, f, ho⟩ := h
    simp only [ReadCall.turn, hphase]
    split
    · exact counted_disposes hp ho
    · exact ⟨hp, f, ho⟩
  | returned rc =>
    simp only [ReadCall.turn, hphase]
    exact h

theorem rdmaRead_sent {env : Link → InjEnv} {turns : Nat}
    (h : (SendCall.rdmaRead q turns).run env r = some (rc, r')) (n : PoolName) :
    Sent n.kind (r n) (r' n) ((SendCall.rdmaRead q turns).acceptedOn rc n) := by
  have hcall := finished_eq h
  cases mudmRdmaReadCall_outcome hcall with
  | stopped rc₁ hstop hphase hr =>
    cases hphase
    subst hr
    rcases hstop with ⟨-, rfl⟩ | ⟨-, rfl⟩
    · exact sent_failed (by decide) n
    · exact sent_failed (by decide) n
  | freed pktd packets hpkt _ hphase hr =>
    cases hphase
    subst hr
    exact sent_freed hpkt (by decide) n
  | entered pktd packets mro objects s _ hpkt hobj hs hphase hr =>
    subst hr
    have hend : ∀ t, ReadDisposes q pktd mro packets objects
        ((ReadCall.turn (env q.conn.injfifoCtls) q pktd mro)^[t]
          (ReadCall.start q packets (objects.set mro fun _ => q.object))) := by
      intro t
      induction t with
      | zero => exact ⟨rfl, rfl⟩
      | succ t ih =>
        rw [Function.iterate_succ_apply']
        exact turn_disposes ih
    have hdone := hend turns
    rw [← hs, ReadDisposes, hphase] at hdone
    have hlist : (SendCall.rdmaRead q turns).list = q.conn.objects := rfl
    exact sent_both hlist (hdone.1 _ hpkt) (hdone.2.sent hobj) n

theorem call_sent {env : Link → InjEnv} {call : SendCall} (h : call.run env r = some (rc, r'))
    (n : PoolName) : Sent n.kind (r n) (r' n) (call.acceptedOn rc n) := by
  cases call with
  | pkt conn requestId payloadLength turns => exact sendPkt_sent h n
  | messageRemote c conn type payload => exact messageRemote_sent h n
  | rdmaRead q turns => exact rdmaRead_sent h n

/-- Every list is sound. -/
def NodeSound (s : ReportNode) : Prop := ∀ n, Sound n.kind (s.desk n)

variable {node node' : ReportNode} {input : ReportInput} {inputs : List ReportInput}

theorem NodeSound.onDesk {m : PoolName} {d : Desk m.Block} (h : NodeSound node)
    (hd : Sound m.kind d) : NodeSound (node.onDesk m d) := by
  intro n
  show Sound n.kind (Function.update node.desk m d n)
  by_cases hn : n = m
  · subst hn
    rw [Function.update_self]
    exact hd
  · rw [Function.update_of_ne hn]
    exact h n

/-- The MU writes to an object, whether it is in use or not. -/
theorem NodeSound.write {k : Link} {mro : Nat} {f : MudmRdmaObject → MudmRdmaObject}
    (h : NodeSound node) (hrequest : ∀ o, (f o).localRequestId = o.localRequestId)
    (hdone : ∀ o c, rdmaKind.done c o = true → rdmaKind.done c (f o) = true) :
    NodeSound (node.write k mro f) := by
  have hk : Sound rdmaKind (node.desk (.rdmaObjCtls k)) := h (.rdmaObjCtls k)
  apply h.onDesk
  apply hk.write
  · intro i
    by_cases hi : i = mro
    · subst hi
      rw [Function.update_self]
      exact hrequest _
    · rw [Function.update_of_ne hi]
  · intro i c hc
    by_cases hi : i = mro
    · subst hi
      rw [Function.update_self]
      exact hdone _ c hc
    · rw [Function.update_of_ne hi]
      exact hc

theorem put_done (bytes c : Nat) (o : MudmRdmaObject) (h : rdmaKind.done c o = true) :
    rdmaKind.done c { o with muCounter := o.muCounter - bytes } = true := by
  rcases Bool.or_eq_true_iff.mp h with hzero | herror
  · apply Bool.or_eq_true_iff.mpr
    left
    have hcounter := of_decide_eq_true hzero
    apply decide_eq_true
    show o.muCounter - bytes = 0
    omega
  · exact Bool.or_eq_true_iff.mpr (Or.inr herror)

theorem remoteError_done (error c : Nat) (o : MudmRdmaObject) (h : rdmaKind.done c o = true) :
    rdmaKind.done c { o with error := if error = 0 then o.error else error } = true := by
  by_cases hz : error = 0
  · rw [if_pos hz]
    exact h
  · rw [if_neg hz]
    exact Bool.or_eq_true_iff.mpr (Or.inr (decide_eq_true hz))

theorem reportStep_sound (h : NodeSound node) (hs : reportStep node input = some node') :
    NodeSound node' := by
  cases input with
  | send env call =>
    simp only [reportStep] at hs
    cases hcall : call.run env node.resources with
    | none => simp [hcall] at hs
    | some result =>
      obtain ⟨rc, r⟩ := result
      simp only [hcall, Option.some.injEq] at hs
      subst hs
      exact fun n => (h n).sent (call_sent hcall n)
  | poll n =>
    cases Option.some.inj hs
    exact h.onDesk ((h n).start _ _)
  | flush n =>
    cases Option.some.inj hs
    exact h.onDesk ((h n).start _ _)
  | pass n k =>
    obtain ⟨d, hd, rfl⟩ := Option.map_eq_some_iff.mp hs
    exact h.onDesk ((h n).pass hd)
  | taken k =>
    cases Option.some.inj hs
    exact h
  | put k mro bytes =>
    cases Option.some.inj hs
    exact h.write (fun _ => rfl) fun o c => put_done bytes c o
  | remoteError k mro error =>
    cases Option.some.inj hs
    exact h.write (fun _ => rfl) fun o c => remoteError_done error c o

section Begun

variable {n : PoolName} {k m : Nat} {due : List Nat}

end Begun

theorem newReportNode_sound (size : PoolName → Nat) (block : (n : PoolName) → Nat → n.Block) :
    NodeSound (newReportNode size block) :=
  fun _ => sound_ofPool List.nodup_range rfl

end BgqVrnic
