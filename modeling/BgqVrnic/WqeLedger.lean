import BgqVrnic.MuRecv
import BgqVrnic.RecvOrder
import BgqVrnic.SendDriven

namespace BgqVrnic

/-- What the switch of `bgvrnic_post_send` gives to `kfree` for an unsupported opcode: the WQE, and
whether that is all of it; a copied list of SGEs is not released with it. -/
def kfreedWqe (maxSge : Nat) : Nat → List SendRequest → List (Nat × Bool)
  | _, [] => []
  | next, r :: rs =>
    if maxSge < r.wr.sgList.length then []
    else if r.wqeAlloc then
      match sendWqeFor next r.wr with
      | .ok _ => kfreedWqe maxSge (next + 1) rs
      | .error _ => if r.wr.opcode = .rdmaRead then [] else [(next, r.wr.sgList.isEmpty)]
    else []

/-- `bgvrnic_free_wqe`, which releases the list of SGEs with the WQE. -/
def freeWqes (ids : List Nat) : List (Nat × Bool) := ids.map (·, true)

inductive WqeType
  | send | recv | rdma
  deriving DecidableEq, Repr

/-- A queue pair with its requests that the transport holds, by the type of their WQEs, its WQEs of type
RDMA in state RUN, and its WQEs that have been released. -/
structure WqeLedger where
  q : MuQp
  sendOut : List Nat
  recvOut : List Nat
  rdmaOut : List Nat
  rdmaRun : List Nat
  released : List (Nat × Bool)

inductive LedgerInput
  | postSend (reqs : List SendRequest) (env : SendEnv)
  | postRecv (reqs : List RecvRequest)
  | packet (pkt : MuPacket) (env : MuRecvEnv)
  | statusCb (type : WqeType) (id : Nat) (status : Int) (send : SendEnv) (recv : RecvEnv)
  | setState (qpState : QpState)
  | setContext (muContext : Option Nat)

namespace RecvOutcome

variable (r : RecvOutcome)

def runningRead : List Nat :=
  match r.rdma with
  | some (id, .running) => [id]
  | _ => []

def freedRead : List Nat :=
  match r.rdma with
  | some (id, .freed) => [id]
  | _ => []

end RecvOutcome

namespace WqeLedger

variable (s : WqeLedger)

def setQp (qp : VrnicQp) : WqeLedger := { s with q := { s.q with qp := qp } }

def postSend (reqs : List SendRequest) (env : SendEnv) : Option WqeLedger := do
  let (qp, es, _, _) ← bgvrnicPostSend s.q.qp reqs env
  let kfreed :=
    if s.q.qp.qpState = .rts then kfreedWqe s.q.qp.maxRecvSge s.q.qp.nextWqe reqs else []
  some { s.setQp qp with
    sendOut := startedIds es ++ s.sendOut
    released := s.released ++ (freeWqes (completedIds es) ++ kfreed) }

def packet (pkt : MuPacket) (env : MuRecvEnv) : Option WqeLedger := do
  let r ← muRecvQp s.q env pkt
  let started := if (⟨pkt.dataMsg, env.rdmaRead⟩ : Arrival).pending then r.used.toList else []
  some { s with
    q := r.q
    recvOut := started ++ s.recvOut
    rdmaOut := r.runningRead ++ s.rdmaOut
    rdmaRun := r.runningRead ++ s.rdmaRun
    released := s.released ++ freeWqes (r.reported.map (·.1.id) ++ r.freedRead) }

/-- `mu_status_cb` for a request of the transport. -/
def statusCb (id : Nat) (status : Int) (send : SendEnv) (recv : RecvEnv) :
    WqeType → Option WqeLedger
  | .send => do
    let (qp, es) ← muStatusSend s.q.qp id status send
    some { s.setQp qp with
      sendOut := startedIds es ++ s.sendOut.erase id
      released := s.released ++ freeWqes (completedIds es) }
  | .recv => do
    let (qp, reported) ← muStatusRecv s.q.qp id status recv
    some { s.setQp qp with
      recvOut := s.recvOut.erase id
      released := s.released ++ freeWqes (reported.map (·.1.id)) }
  | .rdma =>
    some { s with
      rdmaOut := s.rdmaOut.erase id
      rdmaRun := s.rdmaRun.erase id
      released := s.released ++ freeWqes [id] }

def out : WqeType → List Nat
  | .send => s.sendOut
  | .recv => s.recvOut
  | .rdma => s.rdmaOut

def step : LedgerInput → Option WqeLedger
  | .postSend reqs env => s.postSend reqs env
  | .postRecv reqs => some (s.setQp (bgvrnicPostRecv s.q.qp reqs).1)
  | .packet pkt env => if pkt.type = .ipImmed then some s else s.packet pkt env
  | .statusCb type id status send recv =>
    if id ∈ s.out type then s.statusCb id status send recv type else none
  | .setState qpState => some (s.setQp { s.q.qp with qpState := qpState })
  | .setContext muContext => some { s with q := { s.q with muContext := muContext } }

def start (q : MuQp) : WqeLedger :=
  ⟨{ q with qp := { q.qp with sq := [], rq := [], nextWqe := 0 } }, [], [], [], [], []⟩

/-- Where a WQE can be. -/
def places : List Nat :=
  s.q.qp.sq.map Wqe.id ++ (s.q.qp.rq.map Wqe.id ++ (s.rdmaOut ++ s.released.map Prod.fst))

/-- Every WQE that has been allocated is in one place, and those released have been released whole. -/
def Accounted : Prop :=
  s.places.Perm (List.range' 0 s.q.qp.nextWqe) ∧ ∀ r ∈ s.released, r.2 = true

/-- What runs, by the states of the WQEs, is what the transport holds. -/
structure Fits : Prop where
  sends : (⟨s.q.qp, s.sendOut, none⟩ : SendWatch).Fits
  recvSorted : (s.q.qp.rq.map Wqe.id).Pairwise (· < ·)
  recvFresh : ∀ w ∈ s.q.qp.rq, w.id < s.q.qp.nextWqe
  recvs : s.recvOut.Perm (runningIds s.q.qp.rq)
  rdma : s.rdmaOut = s.rdmaRun

end WqeLedger

variable {s s' : WqeLedger} {qp qp' : VrnicQp} {reqs : List SendRequest} {recvs : List RecvRequest}
variable {env : SendEnv} {renv : RecvEnv} {menv : MuRecvEnv} {es : List SendEvent} {id : Nat}
variable {status rc : Int} {bad : Option SendWr} {msg : DataMsg} {used : Option Nat} {next : Nat}
variable {reported : List (RecvWqe × List IbWc)} {pkt : MuPacket} {rq : List RecvWqe} {q : MuQp}
variable {r : RecvOutcome}

/-- The WQEs that a call of `bgvrnic_post_recv` allocates are on the queue. -/
theorem queueRecvWrs_ids (qp : VrnicQp) (reqs : List RecvRequest) :
    ∃ n, (queueRecvWrs qp reqs).1.rq.map Wqe.id = qp.rq.map Wqe.id ++ List.range' qp.nextWqe n ∧
      (queueRecvWrs qp reqs).1.nextWqe = qp.nextWqe + n ∧ (queueRecvWrs qp reqs).1.sq = qp.sq := by
  induction reqs generalizing qp with
  | nil => exact ⟨0, (List.append_nil _).symm, rfl, rfl⟩
  | cons r reqs ih =>
    unfold queueRecvWrs
    split
    next => exact ⟨0, (List.append_nil _).symm, rfl, rfl⟩
    next =>
      split
      next =>
        obtain ⟨n, hids, hnext, hsq⟩ := ih { qp with
          nextWqe := qp.nextWqe + 1
          rq := qp.rq ++ [allocRecvWqe qp.nextWqe r.wr] }
        dsimp only at hids hnext hsq
        refine ⟨n + 1, ?_, ?_, hsq⟩
        · rw [hids, List.map_append, List.append_assoc, List.range'_succ]
          rfl
        · rw [hnext]
          omega
      next => exact ⟨0, (List.append_nil _).symm, rfl, rfl⟩

theorem bgvrnicPostRecv_ids (qp : VrnicQp) (reqs : List RecvRequest) :
    ∃ n, (bgvrnicPostRecv qp reqs).1.rq.map Wqe.id = qp.rq.map Wqe.id ++ List.range' qp.nextWqe n ∧
      (bgvrnicPostRecv qp reqs).1.nextWqe = qp.nextWqe + n ∧ (bgvrnicPostRecv qp reqs).1.sq = qp.sq := by
  unfold bgvrnicPostRecv
  split
  next => exact ⟨0, (List.append_nil _).symm, rfl, rfl⟩
  next => exact queueRecvWrs_ids qp reqs

/-- A pass reports WQEs from the front of the queue, none of which runs. -/
theorem bgvrnicProcessRecvWqes_effect (h : bgvrnicProcessRecvWqes qp renv = some (qp', reported)) :
    qp.rq.map Wqe.id = reported.map (·.1.id) ++ qp'.rq.map Wqe.id ∧
      runningIds qp'.rq = runningIds qp.rq ∧ qp'.sq = qp.sq ∧ qp'.nextWqe = qp.nextWqe := by
  obtain ⟨⟨rq', p'⟩, hproc, h⟩ := Option.bind_eq_some_iff.mp h
  cases Option.some.inj h
  obtain ⟨front, hrq, hrep, hfront⟩ := processRecvFrom_spec hproc
  rw [List.nil_append] at hrep
  refine ⟨?_, ?_, rfl, rfl⟩
  · rw [hrq, hrep, List.map_append, List.map_map]
    rfl
  · have hnone : runningIds (front.map Prod.fst) = [] := by
      rw [List.eq_nil_iff_forall_not_mem]
      intro i hi
      obtain ⟨w, hw, -, hrun⟩ := mem_runningIds.mp hi
      obtain ⟨e, he, rfl⟩ := List.mem_map.mp hw
      rw [(hfront e he).1] at hrun
      cases hrun
    rw [hrq, runningIds_append, hnone, List.nil_append]

/-- A data message starts a transfer for the WQE it uses, or none. -/
theorem muRecvData_effect (h : muRecvData qp renv msg = some (qp', used, reported)) :
    qp.rq.map Wqe.id = reported.map (·.1.id) ++ qp'.rq.map Wqe.id ∧
      (runningIds qp'.rq).Perm
        ((if (⟨msg, renv.rdmaRead⟩ : Arrival).pending then used.toList else []) ++
          runningIds qp.rq) ∧
      qp'.sq = qp.sq ∧ qp'.nextWqe = qp.nextWqe ∧ (used = none → qp' = qp ∧ reported = []) := by
  obtain ⟨⟨rq, found⟩, ht, h⟩ := Option.bind_eq_some_iff.mp h
  rcases takeBuffer_spec ht with ⟨hf, hq, -⟩ | ⟨before, w, w', after, hq, hq', hf, hw, hrec, -⟩
  · subst hf
    cases Option.some.inj h
    refine ⟨rfl, ?_, rfl, rfl, fun _ => ⟨rfl, rfl⟩⟩
    rw [Option.toList_none, ite_self, List.nil_append]
  · subst hf
    obtain ⟨⟨qp₁, reported₁⟩, hp, h⟩ := Option.bind_eq_some_iff.mp h
    cases Option.some.inj h
    obtain ⟨hids, hrun, hsq, hnext⟩ := bgvrnicProcessRecvWqes_effect hp
    obtain ⟨hkey, hstate⟩ := receiveInto_used hrec
    have hid : w'.id = w.id := congrArg Prod.fst hkey
    refine ⟨?_, ?_, hsq, hnext, nofun⟩
    · rw [← hids, hq, hq']
      simp only [List.map_append, List.map_cons, hid]
    · have hnot : w.state ≠ .run := by simp [hw]
      rw [hrun, hq, hq', runningIds_append, runningIds_append, runningIds_cons, runningIds_cons,
        if_neg hnot, hstate, hid]
      cases (⟨msg, renv.rdmaRead⟩ : Arrival).pending with
      | true => exact List.perm_middle
      | false => exact List.Perm.refl _

theorem recvDone_of_ne {w : RecvWqe} (h : w.id ≠ id) : recvDone id status w = w := if_neg h

theorem runningIds_recvDone (q : List RecvWqe) :
    runningIds (q.map (recvDone id status)) = (runningIds q).filter (· != id) := by
  apply runningIds_mark
  · intro w hid
    rw [recvDone, if_pos hid]
  · exact fun w hid => recvDone_of_ne hid

theorem muStatusRecv_effect (h : muStatusRecv qp id status renv = some (qp', reported)) :
    qp.rq.map Wqe.id = reported.map (·.1.id) ++ qp'.rq.map Wqe.id ∧
      runningIds qp'.rq = (runningIds qp.rq).filter (· != id) ∧ qp'.sq = qp.sq ∧
      qp'.nextWqe = qp.nextWqe := by
  obtain ⟨hids, hrun, hsq, hnext⟩ := bgvrnicProcessRecvWqes_effect h
  have hsame : (qp.rq.map (recvDone id status)).map Wqe.id = qp.rq.map Wqe.id := by
    rw [List.map_map]
    exact List.map_congr_left fun v _ => congrArg Prod.fst (recvDone_key v)
  exact ⟨hsame.symm.trans hids, hrun.trans (runningIds_recvDone _), hsq, hnext⟩

/-- The WQE of the request that a call is left with by `goto out` goes to `kfree`, or nowhere. -/
def lostSend (qp : VrnicQp) (reqs : List SendRequest) : List Nat :=
  match (refused qp reqs).head? with
  | some r =>
    if r.thrownOut qp.maxRecvSge && r.wr.opcode = .rdmaRead then
      [qp.nextWqe + (taken qp reqs).length]
    else []
  | none => []

theorem kfreedWqe_eq (qp : VrnicQp) (reqs : List SendRequest) (next : Nat) :
    kfreedWqe qp.maxRecvSge next reqs =
      match (refused qp reqs).head? with
      | some r =>
        if r.thrownOut qp.maxRecvSge && !decide (r.wr.opcode = .rdmaRead) then
          [(next + (taken qp reqs).length, r.wr.sgList.isEmpty)]
        else []
      | none => [] := by
  induction reqs generalizing next with
  | nil => rfl
  | cons r reqs ih =>
    unfold kfreedWqe
    cases hacc : r.accepted qp.maxRecvSge with
    | true =>
      obtain ⟨htaken, hrefused, -⟩ := goes_past hacc
      simp only [SendRequest.accepted, Bool.and_eq_true, decide_eq_true_eq] at hacc
      obtain ⟨⟨hlen, halloc⟩, hsup⟩ := hacc
      obtain ⟨w, hw⟩ := sendWqeFor_supported hsup
      rw [if_neg (Nat.not_lt.mpr hlen), if_pos halloc, hw, htaken, hrefused, List.length_cons,
        ← Nat.add_assoc, Nat.add_right_comm]
      exact ih (next + 1)
    | false =>
      obtain ⟨htaken, hrefused, -⟩ := stops_at hacc
      rw [htaken, hrefused, List.head?_cons]
      dsimp only
      by_cases hlen : r.wr.sgList.length ≤ qp.maxRecvSge
      · rw [if_neg (Nat.not_lt.mpr hlen)]
        cases halloc : r.wqeAlloc with
        | false => simp [SendRequest.thrownOut, halloc]
        | true =>
          have hsup : r.wr.supported = false := by
            simpa [SendRequest.accepted, hlen, halloc] using hacc
          obtain ⟨rc, -, herr⟩ := sendWqeFor_unsupported hsup
          rw [herr]
          by_cases hop : r.wr.opcode = .rdmaRead
          · simp [SendRequest.thrownOut, hop]
          · simp [SendRequest.thrownOut, hlen, halloc, hsup, hop]
      · rw [if_pos (Nat.not_le.mp hlen)]
        simp [SendRequest.thrownOut, hlen]

theorem kfreedWqe_or_lost (qp : VrnicQp) (reqs : List SendRequest) :
    (kfreedWqe qp.maxRecvSge qp.nextWqe reqs).map Prod.fst ++ lostSend qp reqs =
      List.range' (qp.nextWqe + (taken qp reqs).length) (leavesEarly qp reqs).toNat := by
  rw [kfreedWqe_eq, lostSend, leavesEarly]
  cases (refused qp reqs).head? with
  | none => rfl
  | some r =>
    rw [Option.any_some]
    dsimp only
    cases r.thrownOut qp.maxRecvSge with
    | false => simp
    | true =>
      by_cases hop : r.wr.opcode = .rdmaRead
      · simp [hop]
      · simp [hop]

/-- What a call of `bgvrnic_post_send` allocates is on the queue or completed, up to the request that it
is left with by `goto out`. -/
theorem bgvrnicPostSend_ids (ho : ∀ w ∈ qp.sq, w.wr.opcode.sendable = true)
    (hst : qp.qpState = .rts) (h : bgvrnicPostSend qp reqs env = some (qp', es, rc, bad)) :
    (completedIds es ++ qp'.sq.map Wqe.id).Perm
        (qp.sq.map Wqe.id ++ List.range' qp.nextWqe (taken qp reqs).length) ∧
      qp'.nextWqe = qp.nextWqe + (taken qp reqs).length + (leavesEarly qp reqs).toNat ∧
      qp'.rq = qp.rq := by
  unfold bgvrnicPostSend at h
  rw [if_neg (by simp [hst])] at h
  cases hq : queueSendWrs qp reqs with
  | mk qp₁ e =>
    obtain ⟨new, hsq, hnew, -, hids⟩ := queueSendWrs_new hq
    obtain ⟨-, -, ⟨-, -, -, hnext⟩, -, -, hrq⟩ := queueSendWrs_outcome hq
    have hsq' : qp₁.sq.map Wqe.id =
        qp.sq.map Wqe.id ++ List.range' qp.nextWqe (taken qp reqs).length := by
      rw [hsq, List.map_append, hids]
    rw [hq] at h
    cases e with
    | out rc' bad' =>
      cases Option.some.inj h
      exact ⟨List.Perm.of_eq hsq', hnext, hrq⟩
    | pass rc' bad' =>
      obtain ⟨⟨qp₂, es₂⟩, hpass, h⟩ := Option.bind_eq_some_iff.mp h
      cases Option.some.inj h
      have hsend : ∀ w ∈ qp₁.sq, w.wr.opcode.sendable = true := by
        rw [hsq]
        intro w hw
        rcases List.mem_append.mp hw with hw | hw
        · exact ho w hw
        · exact (hnew w hw).2
      obtain ⟨heff, hnext', -, -, hrq'⟩ := passSendQueue_effect hsend hpass
      exact ⟨heff.conserved.trans (List.Perm.of_eq hsq'), hnext'.trans hnext, hrq'.trans hrq⟩

/-- The values of `mudm_rdma_read` that the `MUDM_RDMA_READ` case has a place for. -/
def ReadHandled (rc : Int) : Prop := rc = 0 ∨ rc = -ECANCELED ∨ rc = -EINPROGRESS

instance (rc : Int) : Decidable (ReadHandled rc) :=
  inferInstanceAs (Decidable (rc = 0 ∨ rc = -ECANCELED ∨ rc = -EINPROGRESS))

/-- The WQE of a remote read that fails. -/
def lostRead (qp : VrnicQp) (env : MuRecvEnv) (pkt : MuPacket) : List Nat :=
  if pkt.type = .rdmaRead ∧ ¬ ReadHandled env.rdmaRead then [qp.nextWqe] else []

theorem muRecvRdmaRead_effect {c : Option Nat} {pl : SendRemotePayload} {e : RdmaReadEnd}
    (h : muRecvRdmaRead c menv pl = some (e, rc)) :
    e = if menv.rdmaRead = -EINPROGRESS then .running
      else if ReadHandled menv.rdmaRead then .freed else .failed := by
  obtain ⟨x, -, h⟩ := Option.bind_eq_some_iff.mp h
  obtain ⟨-, h⟩ := Option.ite_none_left_eq_some.mp h
  obtain ⟨-, h⟩ := Option.ite_none_left_eq_some.mp h
  · split at h
    next hrc =>
      cases Option.some.inj h
      have hrun : menv.rdmaRead ≠ -EINPROGRESS := by
        rcases hrc with hrc | hrc <;> rw [hrc] <;> decide
      rw [if_neg hrun, if_pos (by unfold ReadHandled; tauto)]
    next hrc =>
      split at h
      next hrun =>
        cases Option.some.inj h
        rw [if_pos hrun]
      next hrun =>
        cases Option.some.inj h
        rw [if_neg hrun, if_neg (by unfold ReadHandled; tauto)]

/-- What a packet does to the WQEs of its queue pair. -/
structure PacketEffect (q : MuQp) (env : MuRecvEnv) (pkt : MuPacket) (r : RecvOutcome) (n : Nat) :
    Prop where
  next : r.q.qp.nextWqe = q.qp.nextWqe + n
  sq : r.q.qp.sq = q.qp.sq
  rq : q.qp.rq.map Wqe.id = r.reported.map (·.1.id) ++ r.q.qp.rq.map Wqe.id
  running : (runningIds r.q.qp.rq).Perm
    ((if (⟨pkt.dataMsg, env.rdmaRead⟩ : Arrival).pending then r.used.toList else []) ++
      runningIds q.qp.rq)
  reads : r.runningRead ++ (r.freedRead ++ lostRead q.qp env pkt) = List.range' q.qp.nextWqe n

theorem PacketEffect.idle {e : RecvOutcome} (hq : e.q.qp = q.qp) (hused : e.used = none)
    (hrep : e.reported = []) (hrdma : e.rdma = none) (htype : pkt.type ≠ .rdmaRead) :
    PacketEffect q menv pkt e 0 where
  next := by rw [hq, Nat.add_zero]
  sq := by rw [hq]
  rq := by rw [hq, hrep, List.map_nil, List.nil_append]
  running := by rw [hq, hused, Option.toList_none, ite_self, List.nil_append]
  reads := by simp [RecvOutcome.runningRead, RecvOutcome.freedRead, hrdma, lostRead, htype]

theorem muRecvSwitch_effect (h : muRecvSwitch q menv pkt = some r) :
    ∃ n, PacketEffect q menv pkt r n := by
  have hlost (htype : pkt.type ≠ .rdmaRead) :
      ([] : List Nat) ++ ([] ++ lostRead q.qp menv pkt) = List.range' q.qp.nextWqe 0 := by
    simp [lostRead, htype]
  cases muRecvSwitch_outcome h with
  | taken qp id reported ht hdata =>
    obtain ⟨hids, hrun, hsq, hnext, -⟩ := muRecvData_effect hdata
    exact ⟨0, hnext, hsq, hids, hrun, hlost (by rcases ht with ht | ht <;> simp [ht])⟩
  | refused qp reported ht hdata =>
    obtain ⟨hids, hrun, hsq, hnext, hnone⟩ := muRecvData_effect hdata
    obtain ⟨rfl, rfl⟩ := hnone rfl
    have hreads := hlost (by rcases ht with ht | ht <;> simp [ht])
    cases hcm : q.cmId with
    | true => exact ⟨0, hnext, hsq, hids, hrun, hreads⟩
    | false => exact ⟨0, hnext, hsq, hids, hrun, hreads⟩
  | read e rc ht hread =>
    refine ⟨1, rfl, rfl, rfl, ?_, ?_⟩
    · rw [Option.toList_none, ite_self, List.nil_append]
    · have he := muRecvRdmaRead_effect hread
      by_cases hrun : menv.rdmaRead = -EINPROGRESS
      · rw [if_pos hrun] at he
        have hhandled : ReadHandled menv.rdmaRead := Or.inr (Or.inr hrun)
        simp [RecvOutcome.runningRead, RecvOutcome.freedRead, lostRead, he, hhandled]
      · rw [if_neg hrun] at he
        by_cases hhandled : ReadHandled menv.rdmaRead
        · rw [if_pos hhandled] at he
          simp [RecvOutcome.runningRead, RecvOutcome.freedRead, lostRead, he, hhandled]
        · rw [if_neg hhandled] at he
          simp [RecvOutcome.runningRead, RecvOutcome.freedRead, lostRead, he, hhandled, ht]
  | write rc ht _ => exact ⟨0, .idle rfl rfl rfl rfl (by simp [ht])⟩
  | silent ht => exact ⟨0, .idle rfl rfl rfl rfl (by rcases ht with ht | ht <;> simp [ht])⟩

theorem muRecvQp_effect (h : muRecvQp q menv pkt = some r) : ∃ n, PacketEffect q menv pkt r n := by
  obtain ⟨r', hr, h⟩ := Option.bind_eq_some_iff.mp h
  cases Option.some.inj h
  obtain ⟨n, heff⟩ := muRecvSwitch_effect hr
  exact ⟨n, heff.next, heff.sq, heff.rq, heff.running, heff.reads⟩

namespace WqeLedger

variable {type : WqeType} {i : LedgerInput} {ret : Option PostReturn}

theorem Fits.recvs_sublist {rq' : List RecvWqe} (h : s.Fits)
    (hids : (rq'.map Wqe.id).Sublist (s.q.qp.rq.map Wqe.id)) :
    (rq'.map Wqe.id).Pairwise (· < ·) ∧ ∀ w ∈ rq', w.id < s.q.qp.nextWqe := by
  refine ⟨h.recvSorted.sublist hids, ?_⟩
  intro w hw
  obtain ⟨v, hv, hid⟩ := List.mem_map.mp (hids.subset (List.mem_map_of_mem hw))
  rw [← hid]
  exact h.recvFresh v hv

theorem Fits.recvs_grow (h : s.Fits) {rq' : List RecvWqe} {n : Nat}
    (hids : rq'.map Wqe.id = s.q.qp.rq.map Wqe.id ++ List.range' s.q.qp.nextWqe n) :
    (rq'.map Wqe.id).Pairwise (· < ·) ∧ ∀ w ∈ rq', w.id < s.q.qp.nextWqe + n := by
  have hold : ∀ i ∈ s.q.qp.rq.map Wqe.id, i < s.q.qp.nextWqe := by
    intro i hi
    obtain ⟨w, hw, rfl⟩ := List.mem_map.mp hi
    exact h.recvFresh w hw
  constructor
  · rw [hids]
    apply List.pairwise_append.mpr
    refine ⟨h.recvSorted, List.pairwise_lt_range', ?_⟩
    intro i hi j hj
    have hlt := hold i hi
    have hge := (List.mem_range'_1.mp hj).1
    omega
  · intro w hw
    have hmem : w.id ∈ s.q.qp.rq.map Wqe.id ++ List.range' s.q.qp.nextWqe n := by
      rw [← hids]
      exact List.mem_map_of_mem hw
    rcases List.mem_append.mp hmem with hi | hi
    · have hlt := hold w.id hi
      omega
    · exact (List.mem_range'_1.mp hi).2

/-- The send side does not look at the rest of the queue pair. -/
theorem sends_congr {out : List Nat} (h : (⟨qp, out, ret⟩ : SendWatch).Fits) (hsq : qp'.sq = qp.sq)
    (hnext : qp.nextWqe ≤ qp'.nextWqe) : (⟨qp', out, none⟩ : SendWatch).Fits := by
  refine ⟨?_, ?_, ?_, ?_⟩
  · dsimp only
    rw [hsq]
    exact h.sendable
  · dsimp only
    rw [hsq]
    exact h.sorted
  · dsimp only
    rw [hsq]
    intro w hw
    have hlt := h.fresh w hw
    dsimp only at hlt
    omega
  · dsimp only
    rw [hsq]
    exact h.outstanding

theorem Fits.step_postSend (h : s.Fits) (hs : s.postSend reqs env = some s') : s'.Fits := by
  obtain ⟨⟨qp, es, rc, bad⟩, hp, hs⟩ := Option.bind_eq_some_iff.mp hs
  cases Option.some.inj hs
  have hsends := h.sends.postSend none hp
  by_cases hst : s.q.qp.qpState = .rts
  · obtain ⟨-, hnext, hrq⟩ := bgvrnicPostSend_ids h.sends.sendable hst hp
    dsimp only at hnext
    refine ⟨hsends, ?_, ?_, ?_, h.rdma⟩
    · show (qp.rq.map Wqe.id).Pairwise (· < ·)
      rw [hrq]
      exact h.recvSorted
    · show ∀ w ∈ qp.rq, w.id < qp.nextWqe
      rw [hrq]
      intro w hw
      have hlt := h.recvFresh w hw
      omega
    · show s.recvOut.Perm (runningIds qp.rq)
      rw [hrq]
      exact h.recvs
  · unfold bgvrnicPostSend at hp
    rw [if_pos hst] at hp
    cases Option.some.inj hp
    exact ⟨hsends, h.recvSorted, h.recvFresh, h.recvs, h.rdma⟩

theorem Fits.step_packet (h : s.Fits) (hs : s.packet pkt menv = some s') : s'.Fits := by
  obtain ⟨r, hr, hs⟩ := Option.bind_eq_some_iff.mp hs
  cases Option.some.inj hs
  obtain ⟨n, heff⟩ := muRecvQp_effect hr
  have hids : (r.q.qp.rq.map Wqe.id).Sublist (s.q.qp.rq.map Wqe.id) := by
    rw [heff.rq]
    exact List.sublist_append_right _ _
  obtain ⟨hsorted, hfresh⟩ := h.recvs_sublist hids
  have hnext := heff.next
  have hle : s.q.qp.nextWqe ≤ r.q.qp.nextWqe := by omega
  refine ⟨sends_congr h.sends heff.sq hle, hsorted, ?_, ?_, ?_⟩
  · intro w hw
    have hlt := hfresh w hw
    dsimp only
    omega
  · exact (h.recvs.append_left _).trans heff.running.symm
  · dsimp only
    rw [h.rdma]

theorem Fits.step_statusCb {send : SendEnv} {recv : RecvEnv} (h : s.Fits)
    (hs : s.statusCb id status send recv type = some s') : s'.Fits := by
  cases type with
  | send =>
    obtain ⟨⟨qp, es⟩, hp, hs⟩ := Option.bind_eq_some_iff.mp hs
    cases Option.some.inj hs
    have hm := h.sends.marked id status none
    obtain ⟨-, hnext, -, -, hrq⟩ := passSendQueue_effect hm.sendable hp
    dsimp only at hnext hrq
    refine ⟨h.sends.statusSend none hp, ?_, ?_, ?_, h.rdma⟩
    · show (qp.rq.map Wqe.id).Pairwise (· < ·)
      rw [hrq]
      exact h.recvSorted
    · show ∀ w ∈ qp.rq, w.id < qp.nextWqe
      rw [hrq, hnext]
      exact h.recvFresh
    · show s.recvOut.Perm (runningIds qp.rq)
      rw [hrq]
      exact h.recvs
  | recv =>
    obtain ⟨⟨qp, reported⟩, hp, hs⟩ := Option.bind_eq_some_iff.mp hs
    cases Option.some.inj hs
    obtain ⟨hids, hrun, hsq, hnext⟩ := muStatusRecv_effect hp
    have hsub : (qp.rq.map Wqe.id).Sublist (s.q.qp.rq.map Wqe.id) := by
      rw [hids]
      exact List.sublist_append_right _ _
    obtain ⟨hsorted, hfresh⟩ := h.recvs_sublist hsub
    refine ⟨sends_congr h.sends hsq (Nat.le_of_eq hnext.symm), hsorted, ?_, ?_, h.rdma⟩
    · show ∀ w ∈ qp.rq, w.id < qp.nextWqe
      rw [hnext]
      exact hfresh
    · show (s.recvOut.erase id).Perm (runningIds qp.rq)
      have hnd : (runningIds s.q.qp.rq).Nodup :=
        (h.recvSorted.imp Nat.ne_of_lt).sublist (List.filter_sublist.map Wqe.id)
      rw [hrun, ← hnd.erase_eq_filter]
      exact h.recvs.erase id
  | rdma =>
    cases Option.some.inj hs
    refine ⟨h.sends, h.recvSorted, h.recvFresh, h.recvs, ?_⟩
    dsimp only
    rw [h.rdma]

theorem Fits.step (h : s.Fits) (hs : s.step i = some s') : s'.Fits := by
  cases i with
  | postSend reqs env => exact h.step_postSend hs
  | postRecv reqs =>
    cases Option.some.inj hs
    obtain ⟨n, hids, hnext, hsq⟩ := bgvrnicPostRecv_ids s.q.qp reqs
    obtain ⟨hsorted, hfresh⟩ := h.recvs_grow hids
    have hle : s.q.qp.nextWqe ≤ (bgvrnicPostRecv s.q.qp reqs).1.nextWqe := by omega
    refine ⟨sends_congr h.sends hsq hle, hsorted, ?_, ?_, h.rdma⟩
    · show ∀ w ∈ (bgvrnicPostRecv s.q.qp reqs).1.rq, w.id < (bgvrnicPostRecv s.q.qp reqs).1.nextWqe
      rw [hnext]
      exact hfresh
    · show s.recvOut.Perm (runningIds (bgvrnicPostRecv s.q.qp reqs).1.rq)
      unfold bgvrnicPostRecv
      split
      next => exact h.recvs
      next =>
        obtain ⟨new, hrq, hnew, -⟩ := queueRecvWrs_spec s.q.qp reqs
        rw [hrq, runningIds_append, runningIds_init fun w hw => (hnew w hw).1, List.append_nil]
        exact h.recvs
  | packet pkt env =>
    unfold step at hs
    dsimp only at hs
    split at hs
    next =>
      cases Option.some.inj hs
      exact h
    next => exact h.step_packet hs
  | statusCb type id status send recv =>
    unfold step at hs
    dsimp only at hs
    split at hs
    next => exact h.step_statusCb hs
    next => cases hs
  | setState qpState =>
    cases Option.some.inj hs
    exact ⟨sends_congr h.sends rfl (Nat.le_refl _), h.recvSorted, h.recvFresh, h.recvs, h.rdma⟩
  | setContext muContext =>
    cases Option.some.inj hs
    exact ⟨sends_congr h.sends rfl (Nat.le_refl _), h.recvSorted, h.recvFresh, h.recvs, h.rdma⟩

/-- What a step leaves in no place. -/
def lost (s : WqeLedger) : LedgerInput → List Nat
  | .postSend reqs _ => if s.q.qp.qpState = .rts then lostSend s.q.qp reqs else []
  | .packet pkt env => lostRead s.q.qp env pkt
  | _ => []

/-- A step moves the WQEs between their places, but for those that it loses. -/
def Moves (s : WqeLedger) (i : LedgerInput) (s' : WqeLedger) : Prop :=
  ∃ n, s'.q.qp.nextWqe = s.q.qp.nextWqe + n ∧
    (s'.places ++ s.lost i).Perm (s.places ++ List.range' s.q.qp.nextWqe n)

theorem freeWqes_fst (ids : List Nat) : (freeWqes ids).map Prod.fst = ids := by
  rw [freeWqes, List.map_map]
  exact List.map_id ids

theorem Fits.moves_postSend (h : s.Fits) (hs : s.postSend reqs env = some s') :
    s.Moves (.postSend reqs env) s' := by
  obtain ⟨⟨qp, es, rc, bad⟩, hp, hs⟩ := Option.bind_eq_some_iff.mp hs
  cases Option.some.inj hs
  by_cases hst : s.q.qp.qpState = .rts
  · obtain ⟨hperm, hnext, hrq⟩ := bgvrnicPostSend_ids h.sends.sendable hst hp
    have hkfreed := kfreedWqe_or_lost s.q.qp reqs
    refine ⟨(taken s.q.qp reqs).length + (leavesEarly s.q.qp reqs).toNat, ?_, ?_⟩
    · show qp.nextWqe = _
      rw [← Nat.add_assoc]
      exact hnext
    · rw [← List.range'_append_1, ← hkfreed]
      apply List.perm_iff_count.mpr
      intro a
      have hcount := hperm.count_eq a
      simp only [List.count_append] at hcount
      simp only [places, setQp, lost, hst, hrq, if_true, List.map_append, freeWqes_fst,
        List.count_append]
      omega
  · unfold bgvrnicPostSend at hp
    rw [if_pos hst] at hp
    cases Option.some.inj hp
    refine ⟨0, rfl, ?_⟩
    simp [places, setQp, lost, hst, freeWqes, completedIds]

theorem Fits.moves_packet (hs : s.packet pkt menv = some s') : s.Moves (.packet pkt menv) s' := by
  obtain ⟨r, hr, hs⟩ := Option.bind_eq_some_iff.mp hs
  cases Option.some.inj hs
  obtain ⟨n, heff⟩ := muRecvQp_effect hr
  refine ⟨n, heff.next, ?_⟩
  rw [← heff.reads]
  apply List.perm_iff_count.mpr
  intro a
  simp only [places, lost, heff.sq, heff.rq, List.map_append, freeWqes_fst, List.count_append]
  omega

theorem Fits.moves_statusCb {send : SendEnv} {recv : RecvEnv} (h : s.Fits) (hid : id ∈ s.out type)
    (hs : s.statusCb id status send recv type = some s') :
    s.Moves (.statusCb type id status send recv) s' := by
  cases type with
  | send =>
    obtain ⟨⟨qp, es⟩, hp, hs⟩ := Option.bind_eq_some_iff.mp hs
    cases Option.some.inj hs
    have hm := h.sends.marked id status none
    obtain ⟨heff, hnext, -, -, hrq⟩ := passSendQueue_effect hm.sendable hp
    have hids : (s.q.qp.sq.map (sendDone id status)).map Wqe.id = s.q.qp.sq.map Wqe.id := by
      rw [List.map_map]
      exact List.map_congr_left fun v _ => congrArg Prod.fst (sendDone_key v)
    refine ⟨0, hnext, ?_⟩
    apply List.perm_iff_count.mpr
    intro a
    have hcount := heff.conserved.count_eq a
    simp only [hids, List.count_append] at hcount
    simp only [places, setQp, lost, hrq, List.map_append, freeWqes_fst, List.count_append,
      List.range'_zero, List.append_nil]
    omega
  | recv =>
    obtain ⟨⟨qp, reported⟩, hp, hs⟩ := Option.bind_eq_some_iff.mp hs
    cases Option.some.inj hs
    obtain ⟨hids, -, hsq, hnext⟩ := muStatusRecv_effect hp
    refine ⟨0, hnext, ?_⟩
    apply List.perm_iff_count.mpr
    intro a
    simp only [places, setQp, lost, hids, hsq, List.map_append, freeWqes_fst, List.count_append,
      List.range'_zero, List.append_nil]
    omega
  | rdma =>
    cases Option.some.inj hs
    refine ⟨0, rfl, ?_⟩
    apply List.perm_iff_count.mpr
    intro a
    have hcount := (List.perm_cons_erase hid).count_eq a
    simp only [out, List.count_cons] at hcount
    simp only [places, lost, List.map_append, freeWqes_fst, List.count_append, List.count_cons,
      List.count_nil, List.range'_zero, List.append_nil]
    omega

theorem Fits.moves (h : s.Fits) (hs : s.step i = some s') : s.Moves i s' := by
  cases i with
  | postSend reqs env => exact h.moves_postSend hs
  | postRecv reqs =>
    cases Option.some.inj hs
    obtain ⟨n, hids, hnext, hsq⟩ := bgvrnicPostRecv_ids s.q.qp reqs
    refine ⟨n, hnext, ?_⟩
    apply List.perm_iff_count.mpr
    intro a
    simp only [places, setQp, lost, hids, hsq, List.count_append, List.append_nil]
    omega
  | packet pkt env =>
    unfold WqeLedger.step at hs
    dsimp only at hs
    split at hs
    next hip =>
      cases Option.some.inj hs
      refine ⟨0, rfl, ?_⟩
      simp [lost, lostRead, hip]
    next => exact Fits.moves_packet hs
  | statusCb type id status send recv =>
    unfold WqeLedger.step at hs
    dsimp only at hs
    split at hs
    next hid => exact h.moves_statusCb hid hs
    next => cases hs
  | setState qpState =>
    cases Option.some.inj hs
    exact ⟨0, rfl, by simp [places, setQp, lost]⟩
  | setContext muContext =>
    cases Option.some.inj hs
    exact ⟨0, rfl, by simp [places, lost]⟩

/-- A step that loses nothing keeps the WQEs accounted for, and only such a step does. -/
theorem Moves.accounted_iff (h : s.Moves i s') (hs : s.places.Perm (List.range' 0 s.q.qp.nextWqe)) :
    s'.places.Perm (List.range' 0 s'.q.qp.nextWqe) ↔ s.lost i = [] := by
  obtain ⟨n, hnext, hperm⟩ := h
  have hall : (s'.places ++ s.lost i).Perm (List.range' 0 s'.q.qp.nextWqe) := by
    have happ : List.range' 0 s.q.qp.nextWqe ++ List.range' s.q.qp.nextWqe n =
        List.range' 0 s'.q.qp.nextWqe := by
      have hrange := List.range'_append_1 (s := 0) (m := s.q.qp.nextWqe) (n := n)
      rw [Nat.zero_add] at hrange
      rw [hrange, hnext]
    rw [← happ]
    exact hperm.trans (hs.append_right _)
  constructor
  · intro hp
    have hlen := (hall.trans hp.symm).length_eq
    rw [List.length_append] at hlen
    apply List.length_eq_zero_iff.mp
    omega
  · intro hnone
    rw [hnone, List.append_nil] at hall
    exact hall

/-- Each request of a list with which the call can be left by `goto out` has no SGEs, and each remote
read is answered with a value that has its place in the switch. -/
def Settles (s : WqeLedger) : LedgerInput → Prop
  | .postSend reqs _ => s.q.qp.qpState = .rts →
      ∀ r ∈ (refused s.q.qp reqs).head?, r.thrownOut s.q.qp.maxRecvSge = true → r.wr.sgList = []
  | .packet pkt env => pkt.type = .rdmaRead → ReadHandled env.rdmaRead
  | _ => True

theorem lostSend_eq_nil_iff (qp : VrnicQp) (reqs : List SendRequest) :
    (lostSend qp reqs = [] ∧ ∀ r ∈ kfreedWqe qp.maxRecvSge qp.nextWqe reqs, r.2 = true) ↔
      ∀ r ∈ (refused qp reqs).head?, r.thrownOut qp.maxRecvSge = true → r.wr.sgList = [] := by
  rw [kfreedWqe_eq, lostSend]
  cases (refused qp reqs).head? with
  | none => simp
  | some r =>
    cases hout : r.thrownOut qp.maxRecvSge with
    | false => simp [hout]
    | true =>
      by_cases hop : r.wr.opcode = .rdmaRead
      · -- a remote read is refused for its SGEs
        have hsge : r.wr.sgList ≠ [] := by
          intro hnil
          simp [SendRequest.thrownOut, SendWr.supported, hop, hnil, WrOpcode.sendable] at hout
        simp [hout, hop, hsge]
      · simp [hout, hop]

theorem freeWqes_whole {ids : List Nat} : ∀ r ∈ freeWqes ids, r.2 = true := by
  intro r hr
  obtain ⟨i, -, rfl⟩ := List.mem_map.mp hr
  rfl

/-- What a step releases with `bgvrnic_free_wqe` is released whole. -/
theorem released_step (hs : s.step i = some s') :
    ∃ ids rest, s'.released = s.released ++ (freeWqes ids ++ rest) ∧
      rest = match i with
        | .postSend reqs _ =>
          if s.q.qp.qpState = .rts then kfreedWqe s.q.qp.maxRecvSge s.q.qp.nextWqe reqs else []
        | _ => [] := by
  cases i with
  | postSend reqs env =>
    obtain ⟨⟨qp, es, rc, bad⟩, -, hs⟩ := Option.bind_eq_some_iff.mp hs
    cases Option.some.inj hs
    exact ⟨completedIds es, _, rfl, rfl⟩
  | postRecv reqs =>
    cases Option.some.inj hs
    exact ⟨[], [], (List.append_nil _).symm, rfl⟩
  | packet pkt env =>
    unfold WqeLedger.step at hs
    dsimp only at hs
    split at hs
    next =>
      cases Option.some.inj hs
      exact ⟨[], [], (List.append_nil _).symm, rfl⟩
    next =>
      obtain ⟨r, -, hs⟩ := Option.bind_eq_some_iff.mp hs
      cases Option.some.inj hs
      exact ⟨_, [], by rw [List.append_nil], rfl⟩
  | statusCb type id status send recv =>
    unfold WqeLedger.step at hs
    dsimp only at hs
    split at hs
    next =>
      cases type with
      | send | recv =>
        obtain ⟨⟨qp, es⟩, -, hs⟩ := Option.bind_eq_some_iff.mp hs
        cases Option.some.inj hs
        exact ⟨_, [], by rw [List.append_nil], rfl⟩
      | rdma =>
        cases Option.some.inj hs
        exact ⟨[id], [], by rw [List.append_nil], rfl⟩
    next => cases hs
  | setState qpState =>
    cases Option.some.inj hs
    exact ⟨[], [], (List.append_nil _).symm, rfl⟩
  | setContext muContext =>
    cases Option.some.inj hs
    exact ⟨[], [], (List.append_nil _).symm, rfl⟩

theorem Fits.accounted_step (h : s.Fits) (ha : s.Accounted) (hs : s.step i = some s') :
    s'.Accounted ↔ s.Settles i := by
  have hplaces := (h.moves hs).accounted_iff ha.1
  obtain ⟨ids, rest, hrel, hrest⟩ := released_step hs
  have hwhole : (∀ r ∈ s'.released, r.2 = true) ↔ ∀ r ∈ rest, r.2 = true := by
    rw [hrel]
    constructor
    · intro hall r hr
      exact hall r (List.mem_append_right _ (List.mem_append_right _ hr))
    · intro hall r hr
      rcases List.mem_append.mp hr with hr | hr
      · exact ha.2 r hr
      · rcases List.mem_append.mp hr with hr | hr
        · exact freeWqes_whole r hr
        · exact hall r hr
  rw [Accounted, hplaces, hwhole, hrest]
  cases i with
  | postSend reqs env =>
    by_cases hst : s.q.qp.qpState = .rts
    · simp only [lost, Settles, hst, if_true, true_imp_iff]
      exact lostSend_eq_nil_iff s.q.qp reqs
    · simp [lost, Settles, hst]
  | packet pkt env =>
    by_cases ht : pkt.type = .rdmaRead
    · simp [lost, lostRead, Settles, ht]
    · simp [lost, lostRead, Settles, ht]
  | postRecv reqs => simp [lost, Settles]
  | statusCb type id status send recv => simp [lost, Settles]
  | setState qpState => simp [lost, Settles]
  | setContext muContext => simp [lost, Settles]

theorem fits_start (q : MuQp) : (start q).Fits :=
  ⟨⟨by simp [start], List.Pairwise.nil, by simp [start], List.Perm.nil⟩, List.Pairwise.nil,
    by simp [start], List.Perm.nil, rfl⟩

theorem accounted_start (q : MuQp) : (start q).Accounted := ⟨List.Perm.nil, by simp [start]⟩

end WqeLedger

/-- On all queue pairs together, every WQE is in one place or released whole, exactly in the runs in which
no call is left with a WQE for a request with SGEs and no remote read fails. -/
theorem wqes_accounted_iff (qs : Nat → MuQp) (is : List (Nat × LedgerInput)) :
    Runs.Always (Runs.familyStep WqeLedger.step) (fun f => ∀ k, (f k).Accounted)
        (fun k => WqeLedger.start (qs k)) is ↔
      Runs.Meets (Runs.familyStep WqeLedger.step) (fun f i => (f i.1).Settles i.2)
        (fun k => WqeLedger.start (qs k)) is := by
  apply @Runs.family_always_iff_meets _ _ _ _ _ _ _ _ _ (fun s => s.Fits ∧ s.Accounted)
  · exact fun s h => h.2
  · intro s i s' h hok hs
    exact ⟨h.1.step hs, (h.1.accounted_step h.2 hs).mpr hok⟩
  · intro s i s' h hs ha
    exact (h.1.accounted_step h.2 hs).mp ha
  · exact fun k => ⟨WqeLedger.fits_start (qs k), WqeLedger.accounted_start (qs k)⟩

/-- A remote read into two pieces of a page. -/
def splitRead : SendRequest :=
  ⟨⟨10, [⟨0, 64, 1⟩, ⟨64, 64, 1⟩], .rdmaRead, true, false, 0, 0, 0⟩, true⟩

/-- The WQE of a refused remote read is nowhere. -/
theorem refused_read_leaks :
    ¬ ∀ (qs : Nat → MuQp) (is : List (Nat × LedgerInput)),
      Runs.Always (Runs.familyStep WqeLedger.step) (fun f => ∀ k, (f k).Accounted)
        (fun k => WqeLedger.start (qs k)) is := by
  intro h
  have ha := (h (fun _ => ⟨pageQp, 0, false, none⟩) [(0, .postSend [splitRead] busySend)]).2 _ rfl
  have hlen := (ha.head 0).1.length_eq
  exact absurd hlen (by decide)

end BgqVrnic
