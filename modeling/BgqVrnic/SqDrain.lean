import BgqVrnic.ModifyQp
import BgqVrnic.SendOrder

namespace BgqVrnic.Verbs

/-- What a WQE is told when a pass comes to send it. -/
def SendEnv.answer (env : SendEnv) (w : SendWqe) : Int :=
  if w.wr.opcode.sendable then env.transport w.id else w.status

/-- A pass that comes to the WQE leaves it on the queue. -/
def stays (env : SendEnv) (w : SendWqe) : Bool :=
  w.state = .run ||
    (w.unsent && (SendEnv.answer env w = -EINPROGRESS || SendEnv.answer env w = -EBUSY))

/-- The WQEs that a pass comes to before it stops at one that runs. -/
def passed (sq : List SendWqe) : List SendWqe := sq.takeWhile fun w => w.state ≠ .run

/-- The WQEs that a pass wants to add a CQE for. -/
def reports (sigAllWr : Bool) (env : SendEnv) (sq : List SendWqe) : List SendWqe :=
  (passed sq).filter fun w => !stays env w && w.wr.reported sigAllWr

/-- There is no memory for the last CQE of a pass. -/
def lastCqeFails (sigAllWr : Bool) (env : SendEnv) (sq : List SendWqe) : Prop :=
  ∃ w ∈ (reports sigAllWr env sq).getLast?, env.cqeAlloc w.id = false

/-- The WQEs that a pass sees stay: those it passes, and the one it stops at. -/
def stayCount (env : SendEnv) (sq : List SendWqe) : Nat :=
  ((passed sq).filter (stays env)).length + if sq.any (·.state = .run) then 1 else 0

variable {qp : VrnicQp} {env : SendEnv} {w : SendWqe} {p p' : SendPass} {r : SendResult}
variable {rest l : List SendWqe} {sigAllWr : Bool} {rc : Int}

theorem sendCall_none (ho : w.wr.opcode.sendable = false) (pl : SendRemotePayload) :
    sendCall w pl = none := by
  unfold sendCall
  cases hop : w.wr.opcode with
  | send | sendWithImm | rdmaRead | rdmaWrite | rdmaWriteWithImm =>
    simp [hop, WrOpcode.sendable] at ho
  | sendWithInv | rdmaReadWithInv | other => rfl

/-- What happens to a WQE that leaves the queue in a pass. -/
def Left (qp : VrnicQp) (env : SendEnv) (w : SendWqe) (p p' : SendPass) : Prop :=
  p'.ahead = p.ahead ∧ p'.remainingWqes = p.remainingWqes ∧
    p'.rc = if w.wr.reported qp.sigAllWr then (if env.cqeAlloc w.id then 0 else -ENOMEM) else p.rc

theorem retireSend_left (h : retireSend qp env w p = some p') : Left qp env w p p' := by
  unfold retireSend at h
  unfold Left SendWr.reported
  split at h
  next hs =>
    obtain ⟨⟨cq, rc⟩, hadd, h⟩ := Option.bind_eq_some_iff.mp h
    cases Option.some.inj h
    refine ⟨rfl, rfl, ?_⟩
    rw [if_pos hs]
    cases ha : env.cqeAlloc w.id with
    | true =>
      rw [ha] at hadd
      exact (addSendCqe_of_alloc hadd).1
    | false =>
      rw [ha] at hadd
      cases Option.some.inj hadd
      rfl
  next hs =>
    cases Option.some.inj h
    refine ⟨rfl, rfl, ?_⟩
    rw [if_neg hs]

/-- What happens to a WQE that stays behind. -/
def Kept (p p' : SendPass) : Prop :=
  p'.ahead ≠ [] ∧ p'.remainingWqes = p.remainingWqes + 1 ∧ p'.rc = p.rc

theorem settleSend_outcome (h : settleSend qp env w p = some p') :
    ((w.status = 0 ∨ w.status = -ECANCELED) ∧ Left qp env w p p') ∨
      ((w.status = -EINPROGRESS ∨ w.status = -EBUSY) ∧ Kept p p') := by
  unfold settleSend at h
  split at h
  next hs =>
    have hleft := retireSend_left h
    exact Or.inl ⟨Or.inr hs, hleft⟩
  next =>
    split at h
    next hs =>
      have hleft := retireSend_left h
      exact Or.inl ⟨Or.inl hs, hleft⟩
    next =>
      split at h
      next hs =>
        cases Option.some.inj h
        exact Or.inr ⟨Or.inl hs, by simp [keepSend], rfl, rfl⟩
      next =>
        split at h
        next hs =>
          cases Option.some.inj h
          exact Or.inr ⟨Or.inr hs, by simp [keepSend], rfl, rfl⟩
        next => cases h

theorem handSend_outcome {x : Xlation} (h : handSend qp env w x p = some p') :
    ((SendEnv.answer env w = 0 ∨ SendEnv.answer env w = -ECANCELED) ∧ Left qp env w p p') ∨
      ((SendEnv.answer env w = -EINPROGRESS ∨ SendEnv.answer env w = -EBUSY) ∧ Kept p p') := by
  unfold handSend at h
  cases ho : w.wr.opcode.sendable with
  | true =>
    have ho' : ({ w with length := toU32 x.rc } : SendWqe).wr.opcode.sendable = true := ho
    obtain ⟨call, hcall⟩ := sendCall_exists ho'
      (sendPayload (env.stack w.id) { w with length := toU32 x.rc } x)
    simp only [hcall] at h
    have hanswer : SendEnv.answer env w = env.transport w.id := if_pos ho
    rw [hanswer]
    exact settleSend_outcome h
  | false =>
    have ho' : ({ w with length := toU32 x.rc } : SendWqe).wr.opcode.sendable = false := ho
    simp only [sendCall_none ho'] at h
    have hanswer : SendEnv.answer env w = w.status := if_neg (by simp [ho])
    have hout := settleSend_outcome h
    rw [hanswer]
    exact hout

/-- One WQE of a pass that does not run. -/
theorem processSendFrom_visit (hrun : w.state ≠ .run)
    (h : processSendFrom qp env (w :: rest) p = some r) :
    ∃ p', processSendFrom qp env rest p' = some r ∧
      (stays env w = false ∧ Left qp env w p p' ∨ stays env w = true ∧ Kept p p') := by
  cases hs : w.state with
  | init | wait =>
    obtain ⟨x, p', -, hp, hrest⟩ := processSendFrom_unsent (by simp [hs]) h
    refine ⟨p', hrest, ?_⟩
    rcases handSend_outcome hp with ⟨hans, hleft⟩ | ⟨hans, hkept⟩
    · refine Or.inl ⟨?_, hleft⟩
      rcases hans with hans | hans
      · simp [stays, hs, hans, EINPROGRESS, EBUSY]
      · simp [stays, hs, hans, EINPROGRESS, EBUSY, ECANCELED]
    · refine Or.inr ⟨?_, hkept⟩
      simpa [stays, hs, Wqe.unsent] using hans
  | run => exact absurd hs hrun
  | done =>
    obtain ⟨p', hp, hrest⟩ := processSendFrom_done hs h
    exact ⟨p', hrest, Or.inl ⟨by simp [stays, Wqe.unsent, hs], retireSend_left hp⟩⟩
  | invalid => exact absurd hs (processSendFrom_not_invalid h)

/-- The result of adding the last CQE of a pass. -/
def lastRc (sigAllWr : Bool) (env : SendEnv) (sq : List SendWqe) (rc : Int) : Int :=
  match (reports sigAllWr env sq).getLast? with
  | some w => if env.cqeAlloc w.id then 0 else -ENOMEM
  | none => rc

theorem passed_run (hs : w.state = .run) : passed (w :: rest) = [] := by
  simp [passed, hs]

theorem passed_cons (hs : w.state ≠ .run) : passed (w :: rest) = w :: passed rest := by
  simp [passed, hs]

theorem lastRc_left (hs : w.state ≠ .run) (hl : stays env w = false) :
    lastRc sigAllWr env (w :: rest) rc = lastRc sigAllWr env rest
      (if w.wr.reported sigAllWr then (if env.cqeAlloc w.id then 0 else -ENOMEM) else rc) := by
  unfold lastRc reports
  rw [passed_cons hs]
  cases hr : w.wr.reported sigAllWr with
  | false => simp [hl, hr]
  | true =>
    rw [List.filter_cons_of_pos (by simp [hl, hr]), List.getLast?_cons]
    cases ((passed rest).filter fun w => !stays env w && w.wr.reported sigAllWr).getLast? with
    | none => rfl
    | some v => rfl

theorem lastRc_kept (hs : w.state ≠ .run) (hl : stays env w = true) :
    lastRc sigAllWr env (w :: rest) rc = lastRc sigAllWr env rest rc := by
  unfold lastRc reports
  rw [passed_cons hs, List.filter_cons_of_neg (by simp [hl])]

theorem stayCount_left (hs : w.state ≠ .run) (hl : stays env w = false) :
    stayCount env (w :: rest) = stayCount env rest := by
  unfold stayCount
  rw [passed_cons hs, List.filter_cons_of_neg (by simp [hl])]
  simp [hs]

theorem stayCount_kept (hs : w.state ≠ .run) (hl : stays env w = true) :
    stayCount env (w :: rest) = stayCount env rest + 1 := by
  unfold stayCount
  rw [passed_cons hs, List.filter_cons_of_pos hl]
  simp [hs]
  omega

/-- What a pass leaves and what it returns, by the WQEs it comes to. -/
theorem processSendFrom_returns (h : processSendFrom qp env l p = some r) :
    (r.sq = [] ↔ p.ahead = [] ∧ ∀ w ∈ l, stays env w = false) ∧
      r.rc = if lastRc qp.sigAllWr env l p.rc < 0 then lastRc qp.sigAllWr env l p.rc
        else ((p.remainingWqes + stayCount env l : Nat) : Int) := by
  induction l generalizing p with
  | nil =>
    cases Option.some.inj h
    simp [SendPass.result, lastRc, reports, passed, stayCount]
  | cons w rest ih =>
    by_cases hs : w.state = .run
    · have hstays : stays env w = true := by simp [stays, hs]
      rw [processSendFrom_run hs h]
      constructor
      · simp [SendPass.result, hstays]
      · simp [SendPass.result, lastRc, reports, stayCount, passed_run hs, hs]
    · obtain ⟨p', hrest, ⟨hl, hahead, hcount, hrc⟩ | ⟨hl, hahead, hcount, hrc⟩⟩ :=
        processSendFrom_visit hs h
      · obtain ⟨hsq, hret⟩ := ih hrest
        rw [hsq, hahead]
        rw [hrc, hcount] at hret
        rw [lastRc_left hs hl, stayCount_left hs hl]
        refine ⟨?_, hret⟩
        simp [hl]
      · obtain ⟨hsq, hret⟩ := ih hrest
        rw [hsq]
        rw [hrc, hcount] at hret
        rw [lastRc_kept hs hl, stayCount_kept hs hl]
        refine ⟨?_, ?_⟩
        · simp [hahead, hl]
        · rw [hret, Nat.add_assoc, Nat.add_comm 1]

/-- The transition has left the connection. -/
def ModifyCall.Disconnects (c : ModifyCall) : Prop := ∃ ctx, .mudmDisconnect ctx ∈ c.effects

/-- The queue is reported as drained and the connection left only with an empty queue. -/
def Drained (c : ModifyCall) : Prop :=
  c.qp.attrs.sqDraining = (if c.qp.sq = [] then 0 else 1) ∧
    c.given.sqDraining = (if c.qp.sq = [] then 0 else 1) ∧ (c.Disconnects → c.qp.sq = [])

/-- Nothing stays on the queue, or the number of those that stay gets through to `bgvrnic_modify_qp` as a
positive `int`. -/
def DrainSeen (sigAllWr : Bool) (env : SendEnv) (sq : List SendWqe) : Prop :=
  (∀ w ∈ sq, stays env w = false) ∨
    ¬ lastCqeFails sigAllWr env sq ∧ 0 < toInt32 (stayCount env sq)

variable {menv : ModifyEnv} {q : BgvrnicQp} {cqs : Nat → VrnicCq} {given : IbQpAttr}
variable {mask : BitVec 32} {c c' : ModifyCall} {sq : List SendWqe}

theorem lastRc_neg_iff : lastRc sigAllWr env sq 0 < 0 ↔ lastCqeFails sigAllWr env sq := by
  unfold lastRc lastCqeFails
  cases hlast : (reports sigAllWr env sq).getLast? with
  | none => simp
  | some w => cases ha : env.cqeAlloc w.id <;> simp [ha, ENOMEM]

theorem lastRc_fails (h : lastCqeFails sigAllWr env sq) :
    lastRc sigAllWr env sq 0 = -ENOMEM := by
  obtain ⟨w, hw, ha⟩ := h
  unfold lastRc
  rw [Option.mem_def.mp hw]
  simp [ha]

/-- What the caller sees of a pass: no positive number exactly if nothing stays or it is lost. -/
theorem pass_positive_iff (h : bgvrnicProcessSendWqes qp env = some r) :
    0 < toInt32 r.rc ↔
      ¬ lastCqeFails qp.sigAllWr env qp.sq ∧ 0 < toInt32 (stayCount env qp.sq) := by
  have hret := (processSendFrom_returns h).2
  dsimp only at hret
  by_cases hf : lastCqeFails qp.sigAllWr env qp.sq
  · rw [if_pos (lastRc_neg_iff.mpr hf), lastRc_fails hf] at hret
    rw [hret]
    simp [hf]
    decide
  · rw [if_neg fun hneg => hf (lastRc_neg_iff.mp hneg), Nat.zero_add] at hret
    rw [hret]
    simp [hf]

theorem stayCount_of_none (h : ∀ w ∈ sq, stays env w = false) : stayCount env sq = 0 := by
  induction sq with
  | nil => rfl
  | cons w sq ih =>
    have hw := h w List.mem_cons_self
    have hs : w.state ≠ .run := by
      intro hs
      simp [stays, hs] at hw
    rw [stayCount_left hs hw]
    exact ih fun v hv => h v (List.mem_cons_of_mem _ hv)

/-- The call has made this of what the pass returned. -/
structure Follows (r : SendResult) (c : ModifyCall) : Prop where
  sq : c.qp.sq = r.sq
  stored : c.qp.attrs.sqDraining = if toInt32 r.rc ≤ 0 then 0 else 1
  given : c.given.sqDraining = if toInt32 r.rc ≤ 0 then 0 else 1
  left : c.Disconnects → toInt32 r.rc ≤ 0

theorem drain_follows (he : c.effects = []) (h : c.drain menv = some c') :
    ∃ r, bgvrnicProcessSendWqes (c.qp.workQueues c.cqs) menv.sends = some r ∧ Follows r c' := by
  obtain ⟨r, hr, h⟩ := Option.bind_eq_some_iff.mp h
  refine ⟨r, hr, ?_⟩
  dsimp only at h
  have hquiet : ∀ ctx, ModifyEffect.mudmDisconnect ctx ∉ c.effects := by simp [he]
  generalize hd : (if toInt32 r.rc ≤ 0 then 0 else 1) = d at h
  split at h
  next cm hcm =>
    split at h
    next hzero =>
      cases Option.some.inj h
      refine ⟨rfl, hd.symm, hd.symm, fun _ => ?_⟩
      by_contra hpos
      rw [if_neg hpos] at hd
      have hzero' : d = 0 := hzero
      omega
    next =>
      cases Option.some.inj h
      exact ⟨rfl, hd.symm, hd.symm, fun ⟨ctx, hctx⟩ => absurd hctx (hquiet ctx)⟩
  next =>
    cases Option.some.inj h
    exact ⟨rfl, hd.symm, hd.symm, fun ⟨ctx, hctx⟩ => absurd hctx (hquiet ctx)⟩

theorem Follows.storeState {r : SendResult} (h : Follows r c) :
    Follows r { c with qp := { c.qp with attrs := QpAttr.state.copy c.given c.qp.attrs } } :=
  ⟨h.sq, (QpAttr.sqDraining_copy .state c.given c.qp.attrs).trans h.stored, h.given, h.left⟩

theorem Follows.storeRest {r : SendResult} (h : Follows r c) : Follows r (c.storeRest mask) :=
  ⟨h.sq, storeRest_sqDraining.trans h.stored, h.given, h.left⟩

/-- A call to `IB_QPS_SQD` makes one pass over the queue and goes by what it returns. -/
theorem modifyQp_follows (hs : QpAttr.state.masked mask = true)
    (hsqd : given.qpState = QpState.sqd.code)
    (h : bgvrnicModifyQp menv q cqs given mask = some c) :
    ∃ r, bgvrnicProcessSendWqes (q.workQueues cqs) menv.sends = some r ∧ Follows r c := by
  unfold bgvrnicModifyQp at h
  have hok : stateRefused q given.qpState = false := by
    rw [hsqd]
    simp [stateRefused, QpState.code]
  simp only [hs, hok, Bool.and_false, Bool.false_eq_true, if_false, if_true] at h
  obtain ⟨c₁, hstore, h⟩ := Option.bind_eq_some_iff.mp h
  obtain ⟨c₂, hdrain, rfl⟩ := Option.map_eq_some_iff.mp hstore
  rw [if_pos hsqd] at hdrain
  obtain ⟨r, hr, hf⟩ := drain_follows rfl hdrain
  refine ⟨r, hr, ?_⟩
  have hf' := hf.storeState
  split at h
  next =>
    cases Option.some.inj h
    exact ⟨hf'.sq, hf'.stored, hf'.given, hf'.left⟩
  next =>
    cases Option.some.inj h
    exact hf'.storeRest

/-- The transition to `IB_QPS_SQD` tells a drained queue from another exactly if the number of WQEs that
stay gets through to it. -/
theorem modifyQp_drained_iff (env : ModifyEnv) (q : BgvrnicQp) (cqs : Nat → VrnicCq)
    (given : IbQpAttr) (mask : BitVec 32) (c : ModifyCall)
    (hs : QpAttr.state.masked mask = true) (hsqd : given.qpState = QpState.sqd.code)
    (h : bgvrnicModifyQp env q cqs given mask = some c) :
    Drained c ↔ DrainSeen (q.workQueues cqs).sigAllWr env.sends q.sq := by
  obtain ⟨r, hr, hf⟩ := modifyQp_follows hs hsqd h
  have hempty := (processSendFrom_returns hr).1
  have hpos := pass_positive_iff hr
  have hsq : (q.workQueues cqs).sq = q.sq := rfl
  rw [hsq] at hempty hpos
  unfold Drained DrainSeen
  rw [hf.stored, hf.given, hf.sq]
  by_cases hall : ∀ w ∈ q.sq, stays env.sends w = false
  · have hnil : r.sq = [] := hempty.mpr ⟨rfl, hall⟩
    have hle : toInt32 r.rc ≤ 0 := by
      by_contra hgt
      have hcount := (hpos.mp (by omega)).2
      rw [stayCount_of_none hall] at hcount
      exact absurd hcount (by decide)
    refine iff_of_true ?_ (Or.inl hall)
    simp [hnil, hle]
  · have hne : r.sq ≠ [] := fun hnil => hall (hempty.mp hnil).2
    rw [← hpos]
    by_cases hgt : 0 < toInt32 r.rc
    · have hle : ¬ toInt32 r.rc ≤ 0 := by omega
      refine iff_of_true ⟨by simp [hne, hle], by simp [hne, hle], fun hd => ?_⟩ (Or.inr hgt)
      exact absurd (hf.left hd) hle
    · have hle : toInt32 r.rc ≤ 0 := by omega
      refine iff_of_false (fun hd => ?_) (fun hd => hd.elim hall hgt)
      have hd1 := hd.1
      simp [hne, hle] at hd1

/-- No CQE can be had. -/
def noCqes : ModifyEnv := ⟨{ bareEnv with cqeAlloc := fun _ => false }, fun _ => 0⟩

def plainSend : SendWr := ⟨0, [], .send, true, false, 0, 0, 0⟩

/-- A connected queue pair with a WQE that is done, and one that runs. -/
def doneThenRunning : BgvrnicQp :=
  { (default : BgvrnicQp) with
    cmId := some ⟨1, 0, 0⟩
    muContext := some 2
    sq := [(allocSendWqe 0 plainSend).setState .done, (allocSendWqe 1 plainSend).setState .run] }

def toSqd : IbQpAttr := { (default : IbQpAttr) with qpState := QpState.sqd.code }

theorem running_send_reported_drained :
    ¬ ∀ (env : ModifyEnv) (q : BgvrnicQp) (cqs : Nat → VrnicCq) (given : IbQpAttr)
      (mask : BitVec 32) (c : ModifyCall), QpAttr.state.masked mask = true →
      given.qpState = QpState.sqd.code → bgvrnicModifyQp env q cqs given mask = some c →
      Drained c := by
  intro h
  have hsome : (bgvrnicModifyQp noCqes doneThenRunning (fun _ => default) toSqd 1#32).isSome = true := rfl
  obtain ⟨c, hc⟩ := Option.isSome_iff_exists.mp hsome
  have hd := (h noCqes doneThenRunning (fun _ => default) toSqd 1#32 c (by decide) rfl hc).1
  obtain ⟨r, hr, hf⟩ := modifyQp_follows (by decide) rfl hc
  have hfails : lastCqeFails true noCqes.sends doneThenRunning.sq := ⟨_, rfl, rfl⟩
  have hzero : toInt32 r.rc ≤ 0 := by
    by_contra hpos
    exact ((pass_positive_iff hr).mp (by omega)).1 hfails
  have hleft : r.sq ≠ [] := fun hnil => by
    have hstays := ((processSendFrom_returns hr).1.mp hnil).2
      ((allocSendWqe 1 plainSend).setState .run) (List.mem_cons_of_mem _ List.mem_cons_self)
    exact absurd hstays (by decide)
  rw [hf.stored, hf.sq, if_pos hzero, if_neg hleft] at hd
  cases hd

/-- With memory for the CQE the WQE that runs is seen. -/
theorem running_send_seen :
    ∃ c, bgvrnicModifyQp quietEnv doneThenRunning (fun _ => default) toSqd 1#32 = some c ∧
      (Drained c ↔ DrainSeen true quietEnv.sends doneThenRunning.sq) := by
  have hsome : (bgvrnicModifyQp quietEnv doneThenRunning (fun _ => default) toSqd 1#32).isSome = true := rfl
  obtain ⟨c, hc⟩ := Option.isSome_iff_exists.mp hsome
  exact ⟨c, hc, modifyQp_drained_iff quietEnv doneThenRunning (fun _ => default) toSqd 1#32 c (by decide)
    rfl hc⟩

end BgqVrnic.Verbs
