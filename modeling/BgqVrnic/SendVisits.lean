import BgqVrnic.PostSend

namespace BgqVrnic

/-- The opcodes that `bgvrnic_post_send` accepts, all of which have a transport call. -/
def WrOpcode.sendable : WrOpcode → Bool
  | .send | .sendWithImm | .rdmaRead | .rdmaWrite | .rdmaWriteWithImm => true
  | _ => false

/-- Whether a completion is due for a work request, by the signaling type of its queue pair. -/
def SendWr.reported (sigAllWr : Bool) (wr : SendWr) : Bool := sigAllWr || wr.signaled

variable {qp qp' : VrnicQp} {env : SendEnv} {wqe w : SendWqe} {p p' : SendPass} {x : Xlation}
variable {r : SendResult} {l : List SendWqe}

theorem sendCall_exists (h : wqe.wr.opcode.sendable = true) (pl : SendRemotePayload) :
    ∃ call, sendCall wqe pl = some call := by
  unfold sendCall
  cases ho : wqe.wr.opcode with
  | send =>
    dsimp only
    split
    · exact ⟨_, rfl⟩
    · exact ⟨_, rfl⟩
  | sendWithImm | rdmaRead | rdmaWrite | rdmaWriteWithImm => exact ⟨_, rfl⟩
  | sendWithInv | rdmaReadWithInv | other => simp [WrOpcode.sendable, ho] at h

theorem retireSend_spec (h : retireSend qp env wqe p = some p') :
    p'.ahead = p.ahead ∧ p'.remainingWqes = p.remainingWqes ∧ ∃ cqes,
      p'.events = p.events ++ [.completed wqe.id cqes p.aheadStates] ∧
      p'.scq.entries = p.scq.entries ++ cqes ∧
      (env.cqeAlloc wqe.id = true → p.rc = 0 → p'.rc = 0) ∧
      (env.cqeAlloc wqe.id = true →
        cqes.map IbWc.wrId = if wqe.wr.reported qp.sigAllWr then [wqe.wr.wrId] else []) := by
  unfold retireSend at h
  split at h
  next hs =>
    obtain ⟨⟨cq, rc⟩, hadd, h⟩ := Option.bind_eq_some_iff.mp h
    cases Option.some.inj h
    refine ⟨rfl, rfl, _, rfl, ?_, ?_, ?_⟩
    · cases ha : env.cqeAlloc wqe.id with
      | true =>
        rw [ha] at hadd
        obtain ⟨-, op, -, he⟩ := addSendCqe_of_alloc hadd
        simp [he]
      | false =>
        rw [ha] at hadd
        cases Option.some.inj hadd
        simp
    · intro ha _
      rw [ha] at hadd
      exact (addSendCqe_of_alloc hadd).1
    · intro ha
      rw [ha] at hadd
      obtain ⟨-, op, -, he⟩ := addSendCqe_of_alloc hadd
      simp [he, SendWr.reported, hs, cqeOf]
  next hs =>
    cases Option.some.inj h
    refine ⟨rfl, rfl, [], rfl, ?_, fun _ hr => hr, ?_⟩
    · simp
    · simp [SendWr.reported, hs]

theorem handSend_spec (ho : wqe.wr.opcode.sendable = true)
    (h : handSend qp env wqe x p = some p') :
    ∃ call, ((env.transport wqe.id = 0 ∨ env.transport wqe.id = -ECANCELED) ∧
        p'.ahead = p.ahead ∧ ∃ cqes,
        p'.events = p.events ++ [.handed wqe.id call (env.transport wqe.id) p.aheadStates,
          .completed wqe.id cqes p.aheadStates] ∧
        p'.scq.entries = p.scq.entries ++ cqes ∧
        (env.cqeAlloc wqe.id = true →
          cqes.map IbWc.wrId = if wqe.wr.reported qp.sigAllWr then [wqe.wr.wrId] else [])) ∨
      ((env.transport wqe.id = -EINPROGRESS ∨ env.transport wqe.id = -EBUSY) ∧
        ∃ kept : SendWqe, kept.id = wqe.id ∧ kept.wr = wqe.wr ∧
        kept.status = env.transport wqe.id ∧
        kept.state = (if env.transport wqe.id = -EBUSY then .wait else .run) ∧
        p'.ahead = p.ahead ++ [kept] ∧
        p'.events = p.events ++ [.handed wqe.id call (env.transport wqe.id) p.aheadStates] ∧
        p'.scq = p.scq) := by
  unfold handSend at h
  have ho' : ({ wqe with length := toU32 x.rc } : SendWqe).wr.opcode.sendable = true := ho
  obtain ⟨call, hcall⟩ := sendCall_exists ho'
    (sendPayload (env.stack wqe.id) { wqe with length := toU32 x.rc } x)
  simp only [hcall] at h
  refine ⟨call, ?_⟩
  unfold settleSend at h
  dsimp only at h
  split at h
  next hres =>
    obtain ⟨ha, -, cqes, he, hq, -, hw⟩ := retireSend_spec h
    refine Or.inl ⟨Or.inr hres, ha, cqes, ?_, hq, hw⟩
    rw [he]
    simp [SendPass.aheadStates]
  next =>
    split at h
    next hres =>
      obtain ⟨ha, -, cqes, he, hq, -, hw⟩ := retireSend_spec h
      refine Or.inl ⟨Or.inl hres, ha, cqes, ?_, hq, hw⟩
      rw [he]
      simp [SendPass.aheadStates]
    next =>
      split at h
      next hres =>
        cases Option.some.inj h
        refine Or.inr ⟨Or.inl hres, { wqe with
          state := .run, length := toU32 x.rc, status := env.transport wqe.id },
          rfl, rfl, rfl, ?_, rfl, rfl, rfl⟩
        rw [hres]
        rfl
      next =>
        split at h
        next hres =>
          cases Option.some.inj h
          refine Or.inr ⟨Or.inr hres, { wqe with
            state := .wait, length := toU32 x.rc, status := env.transport wqe.id },
            rfl, rfl, rfl, ?_, rfl, rfl, rfl⟩
          rw [if_pos hres]
        next => cases h

/-- The test for a failed translation never fires: the tested field is unsigned. -/
theorem unsigned_never_negative (rc : Int) : ¬ ((toU32 rc : Int) < 0) := by
  omega

theorem processSendFrom_unsent {rest : List SendWqe} (hs : wqe.state = .init ∨ wqe.state = .wait)
    (h : processSendFrom qp env (wqe :: rest) p = some r) :
    ∃ x p', bgvrnicXlateSgl env.mrs wqe.wr.sgList (env.stack wqe.id).sge mudmMaxSge = some x ∧
      handSend qp env wqe x p = some p' ∧ processSendFrom qp env rest p' = some r := by
  rcases hs with hs | hs
  all_goals
    unfold processSendFrom at h
    rw [hs] at h
    dsimp only at h
    obtain ⟨x, hx, h⟩ := Option.bind_eq_some_iff.mp h
    rw [if_neg (unsigned_never_negative _)] at h
    obtain ⟨p', hp, h⟩ := Option.bind_eq_some_iff.mp h
    exact ⟨x, p', hx, hp, h⟩

theorem processSendFrom_done {rest : List SendWqe} (hs : wqe.state = .done)
    (h : processSendFrom qp env (wqe :: rest) p = some r) :
    ∃ p', retireSend qp env wqe p = some p' ∧ processSendFrom qp env rest p' = some r := by
  unfold processSendFrom at h
  rw [hs] at h
  exact Option.bind_eq_some_iff.mp h

theorem processSendFrom_run {rest : List SendWqe} (hs : wqe.state = .run)
    (h : processSendFrom qp env (wqe :: rest) p = some r) :
    r = { p with remainingWqes := p.remainingWqes + 1 }.result (wqe :: rest) := by
  unfold processSendFrom at h
  rw [hs] at h
  exact (Option.some.inj h).symm

theorem processSendFrom_not_invalid {rest : List SendWqe}
    (h : processSendFrom qp env (wqe :: rest) p = some r) : wqe.state ≠ .invalid := by
  intro hs
  unfold processSendFrom at h
  rw [hs] at h
  cases h

theorem handSend_extends (ho : w.wr.opcode.sendable = true)
    (h : handSend qp env w x p = some p') :
    (∃ as, p'.ahead = p.ahead ++ as) ∧ ∃ call es,
      p'.events = p.events ++ .handed w.id call (env.transport w.id) p.aheadStates :: es := by
  obtain ⟨call, ⟨-, ha, cqes, he, -⟩ | ⟨-, kept, -, -, -, -, ha, he, -⟩⟩ := handSend_spec ho h
  · exact ⟨⟨[], by simp [ha]⟩, call, _, he⟩
  · exact ⟨⟨[kept], ha⟩, call, [], he⟩

/-- A pass only adds to its record, and keeps what it has left on the queue. -/
theorem processSendFrom_extends (ho : ∀ w ∈ l, w.wr.opcode.sendable = true)
    (h : processSendFrom qp env l p = some r) :
    (∃ as, r.sq = p.ahead ++ as) ∧ ∃ es, r.events = p.events ++ es := by
  induction l generalizing p with
  | nil =>
    cases Option.some.inj h
    exact ⟨⟨[], rfl⟩, ⟨[], by simp [SendPass.result]⟩⟩
  | cons w l ih =>
    have hrest := fun w hw => ho w (List.mem_cons_of_mem _ hw)
    cases hs : w.state with
    | init | wait =>
      obtain ⟨x, p', -, hp, hl⟩ := processSendFrom_unsent (by simp [hs]) h
      obtain ⟨⟨as, ha⟩, call, es, he⟩ := handSend_extends (ho w (by simp)) hp
      obtain ⟨⟨as', ha'⟩, es', he'⟩ := ih hrest hl
      exact ⟨⟨as ++ as', by simp [ha', ha]⟩, ⟨_ :: (es ++ es'), by simp [he', he]; rfl⟩⟩
    | run =>
      rw [processSendFrom_run hs h]
      exact ⟨⟨_, rfl⟩, ⟨[], by simp [SendPass.result]⟩⟩
    | done =>
      obtain ⟨p', hp, hl⟩ := processSendFrom_done hs h
      obtain ⟨ha, -, cqes, he, -⟩ := retireSend_spec hp
      obtain ⟨⟨as', ha'⟩, es', he'⟩ := ih hrest hl
      exact ⟨⟨as', by simp [ha', ha]⟩, ⟨_ :: es', by simp [he', he]; rfl⟩⟩
    | invalid => exact absurd hs (processSendFrom_not_invalid h)

end BgqVrnic
