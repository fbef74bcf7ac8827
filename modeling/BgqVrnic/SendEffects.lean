import BgqVrnic.SendRuns

namespace BgqVrnic

/-- What a pass does to a queue: the WQEs it leaves and the record it makes, WQE by WQE. -/
inductive PassEffect (outs : Nat → Int) :
    List SendWqe → List SendWqe → List SendEvent → Prop
  | stop : PassEffect outs [] [] []
  | running {w rest} (hs : w.state = .run) : PassEffect outs (w :: rest) (w :: rest) []
  | done {w rest left es} (cqes ahead) (hs : w.state = .done) (h : PassEffect outs rest left es) :
    PassEffect outs (w :: rest) left (.completed w.id cqes ahead :: es)
  | ended {w rest left es} (call cqes ahead) (hs : w.unsent = true)
    (hout : outs w.id = 0 ∨ outs w.id = -ECANCELED) (h : PassEffect outs rest left es) :
    PassEffect outs (w :: rest) left
      (.handed w.id call (outs w.id) ahead :: .completed w.id cqes ahead :: es)
  | kept {w kept rest left es} (call ahead) (hs : w.unsent = true)
    (hout : outs w.id = -EINPROGRESS ∨ outs w.id = -EBUSY) (hkey : kept.key = w.key)
    (hst : kept.state = if outs w.id = -EBUSY then .wait else .run)
    (h : PassEffect outs rest left es) :
    PassEffect outs (w :: rest) (kept :: left) (.handed w.id call (outs w.id) ahead :: es)

/-- The requests that the transport has taken to report on later. -/
def SendEvent.startedId : SendEvent → Option Nat
  | .handed id _ result _ => if result = -EINPROGRESS then some id else none
  | .completed .. => none

def SendEvent.completedId : SendEvent → Option Nat
  | .handed .. => none
  | .completed id _ _ => some id

def startedIds (es : List SendEvent) : List Nat := es.filterMap SendEvent.startedId

def completedIds (es : List SendEvent) : List Nat := es.filterMap SendEvent.completedId

def runningIds {ω : Type} (q : List (Wqe ω)) : List Nat := (q.filter (·.state = .run)).map Wqe.id

/-- What the switch over the opcode lets through. -/
def SendWr.supported (wr : SendWr) : Bool :=
  wr.opcode.sendable && !(wr.opcode = .rdmaRead && 1 < wr.sgList.length)

def SendRequest.accepted (maxSge : Nat) (r : SendRequest) : Bool :=
  r.wr.sgList.length ≤ maxSge && r.wqeAlloc && r.wr.supported

/-- A request that has its WQE already when the call is left by `goto out`. -/
def SendRequest.thrownOut (maxSge : Nat) (r : SendRequest) : Bool :=
  r.wr.sgList.length ≤ maxSge && r.wqeAlloc && !r.wr.supported

/-- How a call ends, by the requests from the first one that is not accepted. -/
def PostEnds (maxSge : Nat) : List SendRequest → PostEnd → Prop
  | [], e => e = .pass 0 none
  | r :: _, e => r.accepted maxSge = false ∧ ∃ rc : Int, rc ≠ 0 ∧
    e = if r.thrownOut maxSge then .out rc (some r.wr) else .pass rc (some r.wr)

/-- The requests of a call that come on the queue. -/
def taken (qp : VrnicQp) (reqs : List SendRequest) : List SendRequest :=
  reqs.takeWhile (·.accepted qp.maxRecvSge)

def refused (qp : VrnicQp) (reqs : List SendRequest) : List SendRequest :=
  reqs.dropWhile (·.accepted qp.maxRecvSge)

/-- The call is left by `goto out`. -/
def leavesEarly (qp : VrnicQp) (reqs : List SendRequest) : Bool :=
  (refused qp reqs).head?.any (·.thrownOut qp.maxRecvSge)

variable {qp qp' : VrnicQp} {env : SendEnv} {outs : Nat → Int} {l left : List SendWqe} {w : SendWqe}
variable {p : SendPass} {r : SendResult} {es : List SendEvent} {reqs : List SendRequest} {e : PostEnd}

@[simp] theorem startedIds_completed (id : Nat) (cqes ahead) :
    startedIds (.completed id cqes ahead :: es) = startedIds es := rfl

theorem startedIds_handed (id : Nat) (call result ahead) :
    startedIds (.handed id call result ahead :: es) =
      if result = -EINPROGRESS then id :: startedIds es else startedIds es := by
  by_cases h : result = -EINPROGRESS
  · simp [startedIds, SendEvent.startedId, h]
  · simp [startedIds, SendEvent.startedId, h]

theorem runningIds_cons {ω : Type} (w : Wqe ω) (q : List (Wqe ω)) :
    runningIds (w :: q) = if w.state = .run then w.id :: runningIds q else runningIds q := by
  by_cases h : w.state = .run
  · simp [runningIds, h]
  · simp [runningIds, h]

theorem mem_runningIds {ω : Type} {q : List (Wqe ω)} {id : Nat} :
    id ∈ runningIds q ↔ ∃ w ∈ q, w.id = id ∧ w.state = .run := by
  simp only [runningIds, List.mem_map, List.mem_filter, decide_eq_true_eq]
  constructor
  · rintro ⟨w, ⟨hw, hs⟩, hid⟩
    exact ⟨w, hw, hid, hs⟩
  · rintro ⟨w, hw, hid, hs⟩
    exact ⟨w, ⟨hw, hs⟩, hid⟩

theorem runningIds_append {ω : Type} (q q' : List (Wqe ω)) :
    runningIds (q ++ q') = runningIds q ++ runningIds q' := by
  simp [runningIds]

theorem runningIds_init {ω : Type} {q : List (Wqe ω)} (h : ∀ w ∈ q, w.state = .init) :
    runningIds q = [] := by
  have hnone : q.filter (·.state = .run) = [] := by
    apply List.filter_eq_nil_iff.mpr
    intro w hw
    simp [h w hw]
  rw [runningIds, hnone, List.map_nil]

/-- Marking a WQE as done takes it out of those that run. -/
theorem runningIds_mark {ω : Type} {f : Wqe ω → Wqe ω} {id : Nat}
    (hdone : ∀ w, w.id = id → (f w).state = .done) (hother : ∀ w, w.id ≠ id → f w = w)
    (q : List (Wqe ω)) : runningIds (q.map f) = (runningIds q).filter (· != id) := by
  induction q with
  | nil => rfl
  | cons w q ih =>
    rw [List.map_cons, runningIds_cons, runningIds_cons, ih]
    by_cases hid : w.id = id
    · have hnot : (f w).state ≠ .run := by simp [hdone w hid]
      rw [if_neg hnot]
      split
      · rw [List.filter_cons_of_neg (by simpa using hid)]
      · rfl
    · rw [hother w hid]
      split
      · rw [List.filter_cons_of_pos (by simpa using hid)]
      · rfl

theorem Wqe.not_running_of_unsent (h : w.unsent = true) : w.state ≠ .run := by
  rcases Wqe.unsent_iff.mp h with hs | hs
  · simp [hs]
  · simp [hs]

theorem processSendFrom_effect (ho : ∀ w ∈ l, w.wr.opcode.sendable = true)
    (h : processSendFrom qp env l p = some r) :
    ∃ left es, r.sq = p.ahead ++ left ∧ r.events = p.events ++ es ∧
      PassEffect env.transport l left es := by
  induction l generalizing p with
  | nil =>
    cases Option.some.inj h
    exact ⟨[], [], rfl, (List.append_nil _).symm, .stop⟩
  | cons w l ih =>
    have hrest := fun v hv => ho v (List.mem_cons_of_mem w hv)
    cases hs : w.state with
    | init | wait =>
      have hu : w.unsent = true := Wqe.unsent_iff.mpr (by simp [hs])
      obtain ⟨x, p', -, hp, hl⟩ := processSendFrom_unsent (by simp [hs]) h
      obtain ⟨left, es, hsq, hes, heff⟩ := ih hrest hl
      obtain ⟨call, ⟨hout, ha, cqes, he, -⟩ | ⟨hout, kept, hid, hwr, -, hst, ha, he, -⟩⟩ :=
        handSend_spec (ho w List.mem_cons_self) hp
      · refine ⟨left, _, by rw [hsq, ha], ?_, .ended call cqes p.aheadStates hu hout heff⟩
        rw [hes, he, List.append_assoc]
        rfl
      · have hkey : kept.key = w.key := by rw [Wqe.key, Wqe.key, hid, hwr]
        refine ⟨kept :: left, _, ?_, ?_, .kept call p.aheadStates hu hout hkey hst heff⟩
        · rw [hsq, ha, List.append_assoc]
          rfl
        · rw [hes, he, List.append_assoc]
          rfl
    | run =>
      rw [processSendFrom_run hs h]
      exact ⟨w :: l, [], rfl, (List.append_nil _).symm, .running hs⟩
    | done =>
      obtain ⟨p', hp, hl⟩ := processSendFrom_done hs h
      obtain ⟨left, es, hsq, hes, heff⟩ := ih hrest hl
      obtain ⟨ha, -, cqes, he, -⟩ := retireSend_spec hp
      refine ⟨left, _, by rw [hsq, ha], ?_, .done cqes p.aheadStates hs heff⟩
      rw [hes, he, List.append_assoc]
      rfl
    | invalid => exact absurd hs (processSendFrom_not_invalid h)

theorem passSendQueue_effect (ho : ∀ w ∈ qp.sq, w.wr.opcode.sendable = true)
    (h : passSendQueue qp env = some (qp', es)) :
    PassEffect env.transport qp.sq qp'.sq es ∧ qp'.nextWqe = qp.nextWqe ∧
      qp'.qpState = qp.qpState ∧ qp'.maxRecvSge = qp.maxRecvSge ∧ qp'.rq = qp.rq := by
  obtain ⟨r, hr, h⟩ := Option.bind_eq_some_iff.mp h
  cases Option.some.inj h
  obtain ⟨left, es, hsq, hes, heff⟩ := processSendFrom_effect ho hr
  rw [List.nil_append] at hsq hes
  rw [hsq, hes]
  exact ⟨heff, rfl, rfl, rfl, rfl⟩

namespace PassEffect

/-- Nothing comes on the queue, and what stays keeps its place. -/
theorem keys (h : PassEffect outs l left es) : (left.map Wqe.key).Sublist (l.map Wqe.key) := by
  induction h with
  | stop => exact List.Sublist.slnil
  | running => exact List.Sublist.refl _
  | done cqes ahead hs h ih => exact ih.cons _
  | ended call cqes ahead hs hout h ih => exact ih.cons _
  | kept call ahead hs hout hkey hst h ih =>
    rw [List.map_cons, List.map_cons, hkey]
    exact ih.cons_cons _

theorem ids (h : PassEffect outs l left es) : (left.map Wqe.id).Sublist (l.map Wqe.id) := by
  have hs := h.keys.map Prod.fst
  rw [List.map_map, List.map_map] at hs
  exact hs

theorem sendable (h : PassEffect outs l left es) (ho : ∀ w ∈ l, w.wr.opcode.sendable = true) :
    ∀ w ∈ left, w.wr.opcode.sendable = true := by
  intro w hw
  obtain ⟨v, hv, hkey⟩ := List.mem_map.mp (h.keys.subset (List.mem_map_of_mem hw))
  have hwr : v.wr = w.wr := congrArg Prod.snd hkey
  rw [← hwr]
  exact ho v hv

/-- The WQEs that run after a pass are those that ran and those that it started. -/
theorem runningIds_eq (h : PassEffect outs l left es) :
    runningIds left = startedIds es ++ runningIds l := by
  induction h with
  | stop => rfl
  | running => rfl
  | done cqes ahead hs h ih =>
    rw [startedIds_completed, runningIds_cons, if_neg (by simp [hs])]
    exact ih
  | @ended w rest left es call cqes ahead hs hout h ih =>
    have hstarted : ¬ outs w.id = -EINPROGRESS := by
      rcases hout with ho | ho <;> rw [ho] <;> decide
    rw [startedIds_handed, if_neg hstarted, startedIds_completed, runningIds_cons,
      if_neg (Wqe.not_running_of_unsent hs)]
    exact ih
  | @kept w kept rest left es call ahead hs hout hkey hst h ih =>
    have hid : kept.id = w.id := congrArg Prod.fst hkey
    rw [startedIds_handed, runningIds_cons, runningIds_cons, if_neg (Wqe.not_running_of_unsent hs)]
    rcases hout with ho | ho
    · have hrun : kept.state = .run := by
        rw [hst, ho]
        decide
      rw [if_pos hrun, if_pos ho, hid, ih, List.cons_append]
    · have hwait : kept.state = .wait := by
        rw [hst, if_pos ho]
      rw [if_neg (by simp [hwait]), if_neg (by rw [ho]; decide), ih]

theorem conserved (h : PassEffect outs l left es) :
    (completedIds es ++ left.map Wqe.id).Perm (l.map Wqe.id) := by
  induction h with
  | stop => exact List.Perm.nil
  | running => exact List.Perm.refl _
  | done cqes ahead hs h ih => exact ih.cons _
  | ended call cqes ahead hs hout h ih => exact ih.cons _
  | kept call ahead hs hout hkey hst h ih =>
    have hid := congrArg Prod.fst hkey
    dsimp only [Wqe.key] at hid
    rw [List.map_cons, List.map_cons, hid]
    exact List.perm_middle.trans (ih.cons _)

/-- A WQE is left to be sent exactly if the transport was too busy for it, unless the pass stopped. -/
theorem unsent_left_iff (h : PassEffect outs l left es) (hno : ∀ w ∈ l, w.state ≠ .run) :
    (∃ w ∈ left, w.unsent = true) ↔ ∃ w ∈ l, w.unsent = true ∧ outs w.id = -EBUSY := by
  induction h with
  | stop => simp
  | running hs => exact absurd hs (hno _ List.mem_cons_self)
  | done cqes ahead hs h ih =>
    rw [ih fun v hv => hno v (List.mem_cons_of_mem _ hv)]
    simp [Wqe.unsent, hs]
  | @ended w rest left es call cqes ahead hs hout h ih =>
    have hne : outs w.id ≠ -EBUSY := by
      rcases hout with ho | ho <;> rw [ho] <;> decide
    rw [ih fun v hv => hno v (List.mem_cons_of_mem _ hv)]
    simp [hne]
  | @kept w kept rest left es call ahead hs hout hkey hst h ih =>
    have hkept : kept.unsent = true ↔ outs w.id = -EBUSY := by
      rw [Wqe.unsent_iff, hst]
      split <;> simp_all
    have hi := ih fun v hv => hno v (List.mem_cons_of_mem _ hv)
    simp only [List.mem_cons, exists_eq_or_imp, hkept, hs, hi, true_and]

theorem running_left_iff (h : PassEffect outs l left es) (hno : ∀ w ∈ l, w.state ≠ .run) :
    (∃ w ∈ left, w.state = .run) ↔ ∃ w ∈ l, w.unsent = true ∧ outs w.id = -EINPROGRESS := by
  induction h with
  | stop => simp
  | running hs => exact absurd hs (hno _ List.mem_cons_self)
  | done cqes ahead hs h ih =>
    rw [ih fun v hv => hno v (List.mem_cons_of_mem _ hv)]
    simp [Wqe.unsent, hs]
  | @ended w rest left es call cqes ahead hs hout h ih =>
    have hne : outs w.id ≠ -EINPROGRESS := by
      rcases hout with ho | ho <;> rw [ho] <;> decide
    rw [ih fun v hv => hno v (List.mem_cons_of_mem _ hv)]
    simp [hne]
  | @kept w kept rest left es call ahead hs hout hkey hst h ih =>
    have hkept : kept.state = .run ↔ outs w.id = -EINPROGRESS := by
      rw [hst]
      rcases hout with ho | ho <;> rw [ho] <;> decide
    have hi := ih fun v hv => hno v (List.mem_cons_of_mem _ hv)
    simp only [List.mem_cons, exists_eq_or_imp, hkept, hs, hi, true_and]

theorem running_kept (h : PassEffect outs l left es) (hr : ∃ w ∈ l, w.state = .run) :
    ∃ w ∈ left, w.state = .run := by
  obtain ⟨w, hw, hrun⟩ := hr
  have hm : w.id ∈ runningIds left := by
    rw [h.runningIds_eq]
    exact List.mem_append_right _ (mem_runningIds.mpr ⟨w, hw, rfl, hrun⟩)
  obtain ⟨v, hv, -, hvr⟩ := mem_runningIds.mp hm
  exact ⟨v, hv, hvr⟩

end PassEffect

theorem sendWqeFor_supported {id : Nat} {wr : SendWr} (h : wr.supported = true) :
    ∃ w, sendWqeFor id wr = .ok w := by
  unfold SendWr.supported at h
  unfold sendWqeFor
  cases ho : wr.opcode with
  | send | rdmaWrite | sendWithImm | rdmaWriteWithImm => exact ⟨_, rfl⟩
  | rdmaRead =>
    have hlen : ¬ 1 < wr.sgList.length := by
      simpa [ho, WrOpcode.sendable] using h
    exact ⟨_, if_neg hlen⟩
  | sendWithInv | rdmaReadWithInv | other => simp [ho, WrOpcode.sendable] at h

theorem sendWqeFor_unsupported {id : Nat} {wr : SendWr} (h : wr.supported = false) :
    ∃ rc : Int, rc ≠ 0 ∧ sendWqeFor id wr = .error rc := by
  unfold SendWr.supported at h
  unfold sendWqeFor
  cases ho : wr.opcode with
  | send | rdmaWrite | sendWithImm | rdmaWriteWithImm => simp [ho, WrOpcode.sendable] at h
  | rdmaRead =>
    have hlen : 1 < wr.sgList.length := by
      simpa [ho, WrOpcode.sendable] using h
    exact ⟨-EINVAL, by decide, if_pos hlen⟩
  | sendWithInv | rdmaReadWithInv | other => exact ⟨-EOPNOTSUPP, by decide, rfl⟩

theorem stops_at {r : SendRequest} (h : r.accepted qp.maxRecvSge = false) :
    taken qp (r :: reqs) = [] ∧ refused qp (r :: reqs) = r :: reqs ∧
      leavesEarly qp (r :: reqs) = r.thrownOut qp.maxRecvSge := by
  have hne : ¬ r.accepted qp.maxRecvSge = true := by simp [h]
  have htaken : taken qp (r :: reqs) = [] := List.takeWhile_cons_of_neg hne
  have hrefused : refused qp (r :: reqs) = r :: reqs := List.dropWhile_cons_of_neg hne
  refine ⟨htaken, hrefused, ?_⟩
  rw [leavesEarly, hrefused]
  rfl

theorem goes_past {r : SendRequest} (h : r.accepted qp.maxRecvSge = true) :
    taken qp (r :: reqs) = r :: taken qp reqs ∧ refused qp (r :: reqs) = refused qp reqs ∧
      leavesEarly qp (r :: reqs) = leavesEarly qp reqs := by
  have htaken : taken qp (r :: reqs) = r :: taken qp reqs := List.takeWhile_cons_of_pos h
  have hrefused : refused qp (r :: reqs) = refused qp reqs := List.dropWhile_cons_of_pos h
  refine ⟨htaken, hrefused, ?_⟩
  rw [leavesEarly, hrefused, leavesEarly]

/-- The loop of a call queues a request that is accepted, and goes on. -/
theorem queueSendWrs_goes {r : SendRequest} (h : r.accepted qp.maxRecvSge = true) :
    ∃ w, w.id = qp.nextWqe ∧ w.wr = r.wr ∧ queueSendWrs qp (r :: reqs) =
      queueSendWrs { qp with nextWqe := qp.nextWqe + 1, sq := qp.sq ++ [w] } reqs := by
  simp only [SendRequest.accepted, Bool.and_eq_true, decide_eq_true_eq] at h
  obtain ⟨⟨hfits, halloc⟩, hsup⟩ := h
  obtain ⟨w, hw⟩ := sendWqeFor_supported hsup
  obtain ⟨hid, hwr, -, -⟩ := sendWqeFor_spec hw
  refine ⟨w, hid, hwr, ?_⟩
  rw [queueSendWrs, if_neg (Nat.not_lt.mpr hfits), if_pos halloc, hw]

/-- It stops at one that is not accepted. -/
theorem queueSendWrs_stops {r : SendRequest} (h : r.accepted qp.maxRecvSge = false) :
    ∃ rc : Int, rc ≠ 0 ∧ queueSendWrs qp (r :: reqs) =
      ({ qp with nextWqe := qp.nextWqe + (r.thrownOut qp.maxRecvSge).toNat },
        if r.thrownOut qp.maxRecvSge then .out rc (some r.wr) else .pass rc (some r.wr)) := by
  unfold queueSendWrs SendRequest.thrownOut
  by_cases hfits : r.wr.sgList.length ≤ qp.maxRecvSge
  · rw [if_neg (Nat.not_lt.mpr hfits)]
    by_cases halloc : r.wqeAlloc = true
    · have hsup : r.wr.supported = false := by
        simpa [SendRequest.accepted, hfits, halloc] using h
      obtain ⟨rc, hrc, herr⟩ := sendWqeFor_unsupported hsup
      refine ⟨rc, hrc, ?_⟩
      rw [if_pos halloc, herr]
      simp [hfits, halloc, hsup]
    · refine ⟨-ENOMEM, by decide, ?_⟩
      rw [if_neg halloc]
      simp [halloc]
  · refine ⟨-EINVAL, by decide, ?_⟩
    rw [if_pos (Nat.not_le.mp hfits)]
    simp [hfits]

/-- The loop of a call queues the requests up to the first that is not accepted. -/
theorem queueSendWrs_outcome (h : queueSendWrs qp reqs = (qp', e)) :
    ∃ new, qp'.sq = qp.sq ++ new ∧ (new.map Wqe.wr = (taken qp reqs).map SendRequest.wr ∧
      new.map Wqe.id = List.range' qp.nextWqe (taken qp reqs).length ∧
      PostEnds qp.maxRecvSge (refused qp reqs) e ∧
      qp'.nextWqe = qp.nextWqe + (taken qp reqs).length + (leavesEarly qp reqs).toNat) ∧
      qp'.qpState = qp.qpState ∧ qp'.maxRecvSge = qp.maxRecvSge ∧ qp'.rq = qp.rq := by
  induction reqs generalizing qp with
  | nil =>
    cases h
    exact ⟨[], (List.append_nil _).symm, ⟨rfl, rfl, rfl, rfl⟩, rfl, rfl, rfl⟩
  | cons r reqs ih =>
    cases hacc : r.accepted qp.maxRecvSge with
    | true =>
      obtain ⟨w, hid, hwr, hgoes⟩ := @queueSendWrs_goes qp reqs r hacc
      rw [hgoes] at h
      obtain ⟨new, hsq, ⟨hwrs, hids, hend, hnext⟩, hst, hmax, hrq⟩ := ih h
      obtain ⟨htaken, hrefused, hearly⟩ := goes_past hacc
      rw [htaken, hrefused, hearly]
      refine ⟨w :: new, ?_, ⟨?_, ?_, hend, ?_⟩, hst, hmax, hrq⟩
      · rw [hsq, List.append_assoc]
        rfl
      · rw [List.map_cons, List.map_cons, hwr, hwrs]
        rfl
      · rw [List.map_cons, List.length_cons, List.range'_succ, hid, hids]
        rfl
      · rw [hnext, List.length_cons]
        dsimp only [taken, leavesEarly, refused]
        omega
    | false =>
      obtain ⟨rc, hrc, hstops⟩ := @queueSendWrs_stops qp reqs r hacc
      obtain ⟨htaken, hrefused, hearly⟩ := stops_at hacc
      rw [hstops] at h
      cases h
      rw [htaken, hrefused, hearly]
      exact ⟨[], (List.append_nil _).symm, ⟨rfl, rfl, ⟨hacc, rc, hrc, rfl⟩, rfl⟩, rfl, rfl, rfl⟩

theorem queueSendWrs_new (h : queueSendWrs qp reqs = (qp', e)) :
    ∃ new, qp'.sq = qp.sq ++ new ∧ (∀ w ∈ new, w.state = .init ∧ w.wr.opcode.sendable = true) ∧
      new.map Wqe.wr = (taken qp reqs).map SendRequest.wr ∧
      new.map Wqe.id = List.range' qp.nextWqe (taken qp reqs).length := by
  obtain ⟨new, hsq, ⟨hwrs, hids, -⟩, -⟩ := queueSendWrs_outcome h
  obtain ⟨new', hsq', hnew, -⟩ := queueSendWrs_spec h
  have hsame : new' = new := List.append_cancel_left (hsq'.symm.trans hsq)
  rw [hsame] at hnew
  exact ⟨new, hsq, hnew, hwrs, hids⟩

/-- A call comes back with an error exactly if some request of it is not accepted, and names the first
of these. -/
theorem PostEnds.error {maxSge : Nat} {rest : List SendRequest} (h : PostEnds maxSge rest e) :
    (rest = [] ∧ e = .pass 0 none) ∨ ∃ bad post rc, rest = bad :: post ∧ rc ≠ (0 : Int) ∧
      e = if bad.thrownOut maxSge then .out rc (some bad.wr) else .pass rc (some bad.wr) := by
  cases rest with
  | nil => exact Or.inl ⟨rfl, h⟩
  | cons bad post =>
    obtain ⟨-, rc, hrc, he⟩ := h
    exact Or.inr ⟨bad, post, rc, rfl, hrc, he⟩

end BgqVrnic
