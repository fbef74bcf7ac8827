import BgqVrnic.ConnCalls
import BgqVrnic.ConnWire
import BgqVrnic.Deliveries

namespace BgqVrnic

open Runs Deliveries

def EILSEQ : Int := 84

def mudmCnk2cnkFifo : Nat := 0x1AA1

def mudmPktError : Nat := 0xE000

def mudmPktEnotconn : Nat := 0xE06B

def mudmPktEilseq : Nat := 0xE054

/-- The software bytes of a packet, which `SoftwareBytes_t` reads as an `ionet_hdr` whatever their type is. -/
structure SwHdr where
  sequenceNumber : Nat
  torusSourceNode : Nat
  torusDestNode : Nat
  payloadLength : Nat
  type : Nat
  sourceQpn : Nat
  destQpn : Nat
  deriving DecidableEq, Repr, Inhabited

inductive RasId
  | pktRcvErr | pktRcvErrStop | pktRejected
  deriving DecidableEq, Repr

/-- What `reject_packet_ras` reports: its code, negated, and the header. -/
structure Ras where
  id : RasId
  code : Int
  hdr : SwHdr
  deriving DecidableEq, Repr

def rejectPacketRas (returnCode : Int) (hdr : SwHdr) (id : RasId) : List Ras := [⟨id, -returnCode, hdr⟩]

/-- The descriptor of a rejection, which has no payload. -/
structure RejectDesc where
  route : Route
  recFIFOId : Nat
  hdr : SwHdr
  deriving DecidableEq, Repr

/-- The type of a rejection and the report on it, by the return code of the callback. -/
def rejectType (hdr : SwHdr) (returnCode : Int) : Nat × List Ras :=
  if returnCode = -ENOTCONN then (mudmPktEnotconn, rejectPacketRas returnCode hdr .pktRcvErr)
  else if returnCode = -EPROTO ∨ returnCode = -EILSEQ then
    (mudmPktEilseq, rejectPacketRas returnCode hdr .pktRcvErrStop)
  else (mudmPktError, [])

/-- The software bytes of a rejection; the rejected type goes into the length field. -/
def rejectHdr (hdr : SwHdr) (type : Nat) : SwHdr :=
  { torusSourceNode := hdr.torusDestNode
    torusDestNode := hdr.torusSourceNode
    sourceQpn := hdr.destQpn
    destQpn := hdr.sourceQpn
    payloadLength := hdr.type
    sequenceNumber := hdr.sequenceNumber
    type := type }

/-- What the handling of a packet leaves behind: a rejection that is to be injected, and reports. -/
structure RecvEffect where
  rc : Int
  rejection : Option RejectDesc
  ras : List Ras
  deriving DecidableEq, Repr

/-- `reject_packet`. An injection into a link that is not active is cancelled without notice. -/
def rejectPacket (m : MyContext) (hdr : SwHdr) (returnCode : Int) (linkActive : Bool) : RecvEffect :=
  let (type, ras) := rejectType hdr returnCode
  let sb := rejectHdr hdr type
  let direction := setDirectionRequest sb.torusSourceNode sb.torusDestNode
  if direction = .cn2ionode then
    ⟨0, if linkActive then some ⟨⟨m.mybridgingCNnode, direction, 0⟩, m.sysRecFifoId 0, sb⟩ else none, ras⟩
  else ⟨-ENOSYS, none, ras⟩

/-- The branches of `mudm_recv_packet`. -/
inductive RecvCase
  | directput (link : Link)
  | data
  | connectRequest | connectReply | disconnectRequest
  | nothing
  | rejected
  | other
  deriving DecidableEq, Repr

/-- The switch over the packet type; a direct put goes to the link whose reception fifo the packet names, or to the
second one. -/
def recvCase (m : MyContext) (recFIFOId type : Nat) : RecvCase :=
  if type = MsgType.dput.code then .directput (if recFIFOId = m.sysRecFifoId 0 then 0 else 1)
  else if type = MsgType.pktDataImm.code ∨ type = MsgType.pktDataRemote.code then .data
  else if type = MsgType.connRequest.code then .connectRequest
  else if type = MsgType.connReply.code then .connectReply
  else if type = MsgType.disconnected.code then .disconnectRequest
  else if type = mudmCnk2cnkFifo then .nothing
  else if type = mudmPktEilseq ∨ type = mudmPktError ∨ type = mudmPktEnotconn then .rejected
  else .other

/-- What the handler meets: the value of the `recv` callback, and the state of the link that rejections use. -/
structure RecvAnswer where
  recv : Int
  linkActive : Bool
  deriving DecidableEq, Repr

/-- `mudm_recv_packet` as far as packets that answer the received one and reports go. -/
def mudmRecvPacket (m : MyContext) (recFIFOId : Nat) (hdr : SwHdr) (answer : RecvAnswer) : RecvEffect :=
  match recvCase m recFIFOId hdr.type with
  | .data =>
    if answer.recv < 0 then { rejectPacket m hdr answer.recv answer.linkActive with rc := 0 } else ⟨0, none, []⟩
  | .rejected => ⟨0, none, rejectPacketRas hdr.type hdr .pktRejected⟩
  | _ => ⟨0, none, []⟩

/-- A packet between nodes. -/
structure NodePacket (ν : Type) where
  source : ν
  dest : ν
  recFIFOId : Nat
  hdr : SwHdr
  deriving DecidableEq, Repr

/-- The nodes, and for each one the I/O node at the other end of the I/O link of its bridge node. -/
structure TorusNodes (ν : Type) where
  ctx : ν → MyContext
  ioNode : ν → ν

namespace TorusNodes

variable {ν : Type}

def answers (T : TorusNodes ν) (p : NodePacket ν) (answer : RecvAnswer) : List (NodePacket ν) :=
  ((mudmRecvPacket (T.ctx p.dest) p.recFIFOId p.hdr answer).rejection.map fun desc =>
    ⟨p.dest, T.ioNode p.dest, desc.recFIFOId, desc.hdr⟩).toList

/-- What a rejection and the packet that it rejects have in common: the sequence number, the two nodes, the type and
the two queue pairs of the packet. -/
structure Subject where
  sequenceNumber : Nat
  torusSourceNode : Nat
  torusDestNode : Nat
  type : Nat
  sourceQpn : Nat
  destQpn : Nat
  deriving DecidableEq, Repr

def packetSubject (hdr : SwHdr) : Subject :=
  ⟨hdr.sequenceNumber, hdr.torusSourceNode, hdr.torusDestNode, hdr.type, hdr.sourceQpn, hdr.destQpn⟩

def rejectionSubject (hdr : SwHdr) : Subject :=
  ⟨hdr.sequenceNumber, hdr.torusDestNode, hdr.torusSourceNode, hdr.payloadLength, hdr.destQpn, hdr.sourceQpn⟩

def isData (p : NodePacket ν) : Bool :=
  p.hdr.type = MsgType.pktDataImm.code ∨ p.hdr.type = MsgType.pktDataRemote.code

def isRejection (p : NodePacket ν) : Bool :=
  p.hdr.type = mudmPktEilseq ∨ p.hdr.type = mudmPktError ∨ p.hdr.type = mudmPktEnotconn

/-- A data packet for a compute node from an I/O node: no other is ever rejected. -/
def rejectable (p : NodePacket ν) : Bool :=
  isData p ∧ setDirectionRequest p.hdr.torusDestNode p.hdr.torusSourceNode = .cn2ionode

/-- Nobody sends rejections unasked, and compute nodes get their data from their own I/O node. -/
def SendsFit (T : TorusNodes ν) (_ : Net (NodePacket ν)) : Event (NodePacket ν) RecvAnswer → Prop
  | .send p => isRejection p = false ∧ (rejectable p = true → p.source = T.ioNode p.dest)
  | .deliver _ _ => True

variable {T : TorusNodes ν} {p r : NodePacket ν} {answer : RecvAnswer} {n n' : Net (NodePacket ν)}
  {es fs : List (Event (NodePacket ν) RecvAnswer)}

theorem rejectPacket_rejection {m : MyContext} {hdr : SwHdr} {rc : Int} {linkActive : Bool} {desc : RejectDesc}
    (h : (rejectPacket m hdr rc linkActive).rejection = some desc) :
    desc.hdr = rejectHdr hdr (rejectType hdr rc).1 ∧
      setDirectionRequest hdr.torusDestNode hdr.torusSourceNode = .cn2ionode := by
  unfold rejectPacket at h
  dsimp only at h
  by_cases hdir : setDirectionRequest hdr.torusDestNode hdr.torusSourceNode = .cn2ionode
  · rw [if_pos (by exact hdir)] at h
    cases linkActive with
    | true =>
      cases Option.some.inj h
      exact ⟨rfl, hdir⟩
    | false => cases h
  · rw [if_neg (by exact hdir)] at h
    cases h

theorem isRejection_rejectType (hdr : SwHdr) (rc : Int) :
    (rejectType hdr rc).1 = mudmPktEilseq ∨ (rejectType hdr rc).1 = mudmPktError ∨
      (rejectType hdr rc).1 = mudmPktEnotconn := by
  unfold rejectType
  split
  next => exact .inr (.inr rfl)
  next =>
    split
    next => exact .inl rfl
    next => exact .inr (.inl rfl)

theorem not_data_of_isRejection (h : isRejection p = true) : isData p = false := by
  unfold isRejection at h
  unfold isData
  rcases of_decide_eq_true h with ht | ht | ht
  · simp [ht, MsgType.code, mudmPktEilseq]
  · simp [ht, MsgType.code, mudmPktError]
  · simp [ht, MsgType.code, mudmPktEnotconn]

theorem recvCase_data {m : MyContext} {recFIFOId type : Nat} (h : recvCase m recFIFOId type = .data) :
    type = MsgType.pktDataImm.code ∨ type = MsgType.pktDataRemote.code := by
  unfold recvCase at h
  split at h
  next => cases h
  next =>
    split at h
    next hdata => exact hdata
    next =>
      exfalso
      revert h
      repeat' split
      all_goals decide

/-- An answer is a rejection of what it answers, from where that was handled to the I/O node there. -/
structure Rejects (T : TorusNodes ν) (p r : NodePacket ν) : Prop where
  rejectable : rejectable p = true
  rejection : isRejection r = true
  subject : rejectionSubject r.hdr = packetSubject p.hdr
  dest : r.dest = T.ioNode p.dest

theorem rejects_of_mem (h : r ∈ T.answers p answer) : T.answers p answer = [r] ∧ Rejects T p r := by
  unfold answers at h ⊢
  cases hrej : (mudmRecvPacket (T.ctx p.dest) p.recFIFOId p.hdr answer).rejection with
  | none =>
    rw [hrej] at h
    cases h
  | some desc =>
    rw [hrej] at h
    have hr := List.mem_singleton.mp h
    subst hr
    refine ⟨rfl, ?_⟩
    unfold mudmRecvPacket at hrej
    cases hcase : recvCase (T.ctx p.dest) p.recFIFOId p.hdr.type with
    | data =>
      simp only [hcase] at hrej
      split at hrej
      next =>
        obtain ⟨hhdr, hdir⟩ := rejectPacket_rejection hrej
        refine ⟨?_, ?_, ?_, rfl⟩
        · simp only [TorusNodes.rejectable, isData, decide_eq_true_eq]
          exact ⟨recvCase_data hcase, hdir⟩
        · rw [isRejection, decide_eq_true_eq]
          simp only [hhdr]
          exact isRejection_rejectType p.hdr answer.recv
        · simp only [hhdr]
          rfl
      next => cases hrej
    | _ =>
      simp only [hcase] at hrej
      cases hrej

/-- What rejections of the handled packets have in common with them, each with one of its own. -/
theorem rejections_sublist (handled : List (NodePacket ν × List (NodePacket ν)))
    (h : ∀ x ∈ handled, ∃ answer, x.2 = T.answers x.1 answer) :
    ((handled.flatMap Prod.snd).map fun r => (rejectionSubject r.hdr, r.dest)).Sublist
      (((handled.map Prod.fst).filter fun p => rejectable p).map fun p => (packetSubject p.hdr, T.ioNode p.dest)) := by
  induction handled with
  | nil => exact .slnil
  | cons x handled ih =>
    obtain ⟨answer, hx⟩ := h x List.mem_cons_self
    have hrest := ih fun y hy => h y (List.mem_cons_of_mem _ hy)
    rw [List.flatMap_cons, List.map_append, List.map_cons, List.filter_cons]
    cases hanswers : T.answers x.1 answer with
    | nil =>
      rw [hx, hanswers, List.map_nil, List.nil_append]
      split
      next => exact hrest.cons _
      next => exact hrest
    | cons r rs =>
      have hmem : r ∈ T.answers x.1 answer := by
        rw [hanswers]
        exact List.mem_cons_self
      obtain ⟨hone, hrejects⟩ := rejects_of_mem hmem
      rw [hx, hone, if_pos hrejects.rejectable, List.map_cons, List.map_cons, List.map_nil, hrejects.subject,
        hrejects.dest]
      exact hrest.cons_cons _

theorem led_isRejection (h : n.Kept T.answers) (hr : r ∈ n.led) : isRejection r = true := by
  obtain ⟨x, hx, hr⟩ := List.mem_flatMap.mp hr
  obtain ⟨answer, he⟩ := h.caused x hx
  rw [he] at hr
  exact (rejects_of_mem hr).2.rejection

theorem rejectable_data (h : isData p = false) : rejectable p = false := by
  simp [rejectable, h]

/-- What has been sent, by those who may. -/
def SentFit (T : TorusNodes ν) (n : Net (NodePacket ν)) : Prop :=
  ∀ p ∈ n.sent, isRejection p = false ∧ (rejectable p = true → p.source = T.ioNode p.dest)

theorem sentFit_step {e : Event (NodePacket ν) RecvAnswer} (h : SentFit T n) (he : SendsFit T n e)
    (hs : n.step T.answers e = some n') : SentFit T n' := by
  cases e with
  | send p =>
    cases Option.some.inj hs
    intro q hq
    rcases List.mem_append.mp hq with hq | hq
    · exact h q hq
    · rw [List.mem_singleton.mp hq]
      exact he
  | deliver k answer =>
    obtain ⟨a, -, rfl⟩ := Net.step_deliver hs
    exact h

/-- Each rejection that is on its way or has arrived is for a data packet of its own, which the node that it goes to
has sent to a compute node behind it. -/
structure RejectsAnswer (n : Net (NodePacket ν)) : Prop where
  own : (n.led.map fun r => (rejectionSubject r.hdr, r.dest)).Subperm
    ((n.sent.filter fun p => rejectable p).map fun p => (packetSubject p.hdr, p.source))
  marked : ∀ r ∈ n.led, isRejection r = true
  conserved : (n.handled.map Prod.fst ++ n.flight).Perm (n.sent ++ n.led)

theorem rejects_answer (h : n.Kept T.answers) (hsent : SentFit T n) : RejectsAnswer n where
  marked := fun r hr => led_isRejection h hr
  conserved := h.conserved
  own := by
    have hsub := (rejections_sublist n.handled h.caused).subperm
    have hnone : (n.led.filter fun p => rejectable p) = [] := by
      apply List.filter_eq_nil_iff.mpr
      intro r hr
      rw [rejectable_data (not_data_of_isRejection (led_isRejection h hr))]
      decide
    have hperm := h.conserved.filter fun p => rejectable p
    rw [List.filter_append, List.filter_append, hnone, List.append_nil] at hperm
    have hhandled : ((n.handled.map Prod.fst).filter fun p => rejectable p).Subperm
        (n.sent.filter fun p => rejectable p) :=
      (List.sublist_append_left _ _).subperm.trans hperm.subperm
    have hback : ((n.sent.filter fun p => rejectable p).map fun p => (packetSubject p.hdr, T.ioNode p.dest)) =
        (n.sent.filter fun p => rejectable p).map fun p => (packetSubject p.hdr, p.source) := by
      apply List.map_congr_left
      intro p hp
      obtain ⟨hmem, hrej⟩ := List.mem_filter.mp hp
      rw [(hsent p hmem).2 hrej]
    rw [← hback]
    obtain ⟨l, hl, hsublist⟩ := hhandled
    exact hsub.trans ((hl.map _).symm.subperm.trans (hsublist.map _).subperm)

/-- A data packet may lead to a rejection, and a rejection to nothing. -/
def packetWeight (p : NodePacket ν) : Nat := if isData p then 2 else 1

theorem answers_weigh_less (p : NodePacket ν) (answer : RecvAnswer) :
    ((T.answers p answer).map packetWeight).sum < packetWeight p := by
  cases hanswers : T.answers p answer with
  | nil =>
    show 0 < packetWeight p
    unfold packetWeight
    split <;> omega
  | cons r rs =>
    have hmem : r ∈ T.answers p answer := by
      rw [hanswers]
      exact List.mem_cons_self
    obtain ⟨hone, hrejects⟩ := rejects_of_mem hmem
    rw [hanswers] at hone
    rw [hone]
    have hdata : isData p = true := by
      by_contra hno
      have hnot := rejectable_data (Bool.not_eq_true _ ▸ hno)
      rw [hrejects.rejectable] at hnot
      cases hnot
    have hlight := not_data_of_isRejection hrejects.rejection
    simp [packetWeight, hdata, hlight]

theorem weight_le (n : Net (NodePacket ν)) : n.weight packetWeight ≤ 2 * n.flight.length := by
  unfold Net.weight
  induction n.flight with
  | nil => exact le_rfl
  | cons p flight ih =>
    have hp : packetWeight p ≤ 2 := by
      unfold packetWeight
      split <;> omega
    rw [List.map_cons, List.sum_cons, List.length_cons]
    omega

/-- In every run, with packets lost by nobody but handled in any order and with any answers of the callbacks, rejections
answer data packets one for one and go back to their senders; and they never answer each other, so that what is
on its way has all been handled after at most twice as many deliveries. -/
theorem rejects_never_storm (hm : Meets (Net.step T.answers) (SendsFit T) Net.empty es)
    (hr : run (Net.step T.answers) Net.empty es = some n) :
    RejectsAnswer n ∧
      ∀ fs n', (∀ e ∈ fs, ∃ k answer, e = .deliver k answer) → run (Net.step T.answers) n fs = some n' →
        fs.length ≤ 2 * n.flight.length := by
  have hstep : ∀ n e n', SentFit T n → SendsFit T n e → Net.step T.answers n e = some n' → SentFit T n' :=
    fun _ _ _ h he hs => sentFit_step h he hs
  have hstart : SentFit T Net.empty := fun p hp => absurd hp List.not_mem_nil
  have hsent := (always_of_step hstep hstart hm).last hr
  refine ⟨rejects_answer (Net.kept_run hr) hsent, ?_⟩
  intro fs n' hfs hrun
  have hbound := Net.deliveries_bounded answers_weigh_less hfs hrun
  have hle := weight_le n
  omega

/-- A compute node behind an I/O node, by their contexts. -/
def oneCompute : TorusNodes Bool where
  ctx := fun v =>
    { magic := true
      maxConnections := 0
      conn := fun _ => default
      connFreelist := none
      connPendlist := fun _ => none
      connActivelist := fun _ => none
      connAbortlist := fun _ => none
      myTorusAddress := if v then 0x80000001 else 5
      mybridgingCNnode := 4
      myUsingIOPort := returnUsingIoPort
      myBlockID := 0
      myUCI := 0
      sysRecFifoId := fun k => k
      remoteBlockID := fun _ => 0
      link4reset := fun _ => 0 }
  ioNode := fun _ => true

/-- A data packet that is not for any connection, its rejection, and the report on that. -/
def rejectedOnce : List (Event (NodePacket Bool) RecvAnswer) :=
  [.send ⟨true, false, 0, ⟨3, 0x80000001, 5, 16, MsgType.pktDataImm.code, 7, 9⟩⟩, .deliver 0 ⟨-ENOTCONN, true⟩,
    .deliver 0 ⟨0, true⟩]

theorem rejects_never_storm_once :
    ∃ n, run (Net.step oneCompute.answers) Net.empty rejectedOnce = some n ∧ n.led.length = 1 ∧ RejectsAnswer n ∧
      ∀ fs n', (∀ e ∈ fs, ∃ k answer, e = .deliver k answer) → run (Net.step oneCompute.answers) n fs = some n' →
        fs.length ≤ 2 * n.flight.length := by
  have hm : Meets (Net.step oneCompute.answers) (SendsFit oneCompute) Net.empty rejectedOnce := by
    intro _ _
    refine ⟨⟨by decide, by decide⟩, fun _ _ => ⟨trivial, fun _ _ => ⟨trivial, trivial⟩⟩⟩
  exact ⟨_, rfl, rfl, rejects_never_storm hm rfl⟩

end TorusNodes

end BgqVrnic
