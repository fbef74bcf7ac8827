import BgqVrnic.SendEffects
import Mathlib.Data.List.Nodup

namespace BgqVrnic

/-- A call of `bgvrnic_post_send` that has returned: its list, the work requests it queued, the return
value and `*bad_wr`. -/
structure PostReturn where
  reqs : List SendRequest
  queued : List SendWr
  rc : Int
  badWr : Option SendWr

/-- A queue pair with the requests of its send queue that the transport has taken and not reported on
yet, and the call that has just returned. -/
structure SendWatch where
  qp : VrnicQp
  outstanding : List Nat
  returned : Option PostReturn

/-- `setState` stands for the calls that change the state of the queue pair and no queue. -/
inductive WatchInput
  | postSend (reqs : List SendRequest) (env : SendEnv)
  | statusCb (id : Nat) (status : Int) (env : SendEnv)
  | setState (qpState : QpState)

namespace SendWatch

variable (s : SendWatch)

def step : WatchInput → Option SendWatch
  | .postSend reqs env => do
    let (qp, es, rc, badWr) ← bgvrnicPostSend s.qp reqs env
    let queued := (postedBy s.qp reqs).map Wqe.wr
    some ⟨qp, startedIds es ++ s.outstanding, some ⟨reqs, queued, rc, badWr⟩⟩
  | .statusCb id status env =>
    if id ∈ s.outstanding then do
      let (qp, es) ← muStatusSend s.qp id status env
      some ⟨qp, startedIds es ++ s.outstanding.erase id, none⟩
    else none
  | .setState qpState => some ⟨{ s.qp with qpState := qpState }, s.outstanding, none⟩

def start (qp : VrnicQp) : SendWatch := ⟨{ qp with sq := [] }, [], none⟩

/-- As long as something is left to be sent, a WQE runs whose status callback will come back to it. -/
def Driven : Prop :=
  (∃ w ∈ s.qp.sq, w.unsent = true) → ∃ w ∈ s.qp.sq, w.state = .run ∧ w.id ∈ s.outstanding

end SendWatch

/-- On an error, exactly the requests before `*bad_wr` have been queued. -/
def PostReturn.QueuedBefore (r : PostReturn) : Prop :=
  r.rc ≠ 0 → ∃ before bad after, r.reqs = before ++ bad :: after ∧ r.badWr = some bad.wr ∧
    r.queued = before.map SendRequest.wr

def unsentIds (q : List SendWqe) : List Nat := (q.filter Wqe.unsent).map Wqe.id

/-- The transport is not too busy for some of these requests without having taken another. -/
def Retried (outs : Nat → Int) (ids : List Nat) : Prop :=
  (∃ id ∈ ids, outs id = -EBUSY) → ∃ id ∈ ids, outs id = -EINPROGRESS

/-- When no WQE runs, the pass over the queue starts one if the transport is too busy for another. A
call that is left without its pass has queued nothing, or a WQE runs. -/
def WatchInput.Driving (s : SendWatch) : WatchInput → Prop
  | .postSend reqs env =>
    s.qp.qpState = .rts ∧
      if leavesEarly s.qp reqs then taken s.qp reqs = [] ∨ ∃ w ∈ s.qp.sq, w.state = .run
      else (∀ w ∈ s.qp.sq, w.state ≠ .run) → Retried env.transport
        (unsentIds s.qp.sq ++ List.range' s.qp.nextWqe (taken s.qp reqs).length)
  | .statusCb id _ env =>
    (∀ w ∈ s.qp.sq, w.state = .run → w.id = id) → Retried env.transport (unsentIds s.qp.sq)
  | .setState _ => True

/-- The WQEs that run are those that the transport holds. -/
structure SendWatch.Fits (s : SendWatch) : Prop where
  sendable : ∀ w ∈ s.qp.sq, w.wr.opcode.sendable = true
  sorted : (s.qp.sq.map Wqe.id).Pairwise (· < ·)
  fresh : ∀ w ∈ s.qp.sq, w.id < s.qp.nextWqe
  outstanding : s.outstanding.Perm (runningIds s.qp.sq)

variable {s s' : SendWatch} {qp qp' : VrnicQp} {reqs : List SendRequest} {env : SendEnv} {id : Nat}
variable {outs : Nat → Int} {q left new : List SendWqe} {es : List SendEvent} {status : Int}
variable {i : WatchInput} {e : PostEnd}

theorem mem_unsentIds : id ∈ unsentIds q ↔ ∃ w ∈ q, w.unsent = true ∧ w.id = id := by
  simp [unsentIds, and_assoc]

theorem retried_iff : Retried outs (unsentIds q) ↔
    ((∃ w ∈ q, w.unsent = true ∧ outs w.id = -EBUSY) →
      ∃ w ∈ q, w.unsent = true ∧ outs w.id = -EINPROGRESS) := by
  have hids (n : Int) : (∃ id ∈ unsentIds q, outs id = n) ↔
      ∃ w ∈ q, w.unsent = true ∧ outs w.id = n := by
    constructor
    · rintro ⟨id, hid, hn⟩
      obtain ⟨w, hw, hu, rfl⟩ := mem_unsentIds.mp hid
      exact ⟨w, hw, hu, hn⟩
    · rintro ⟨w, hw, hu, hn⟩
      exact ⟨w.id, mem_unsentIds.mpr ⟨w, hw, hu, rfl⟩, hn⟩
  rw [Retried, hids, hids]

theorem PassEffect.driven_iff (h : PassEffect outs q left es) :
    ((∃ w ∈ left, w.unsent = true) → ∃ w ∈ left, w.state = .run) ↔
      ((∀ w ∈ q, w.state ≠ .run) → Retried outs (unsentIds q)) := by
  by_cases hno : ∀ w ∈ q, w.state ≠ .run
  · rw [h.unsent_left_iff hno, h.running_left_iff hno, retried_iff]
    exact ⟨fun hd _ => hd, fun hd => hd hno⟩
  · have hrun : ∃ w ∈ q, w.state = .run := by simpa using hno
    exact ⟨fun _ hn => absurd hn hno, fun _ _ => h.running_kept hrun⟩

theorem SendWatch.Fits.driven_iff (h : s.Fits) :
    s.Driven ↔ ((∃ w ∈ s.qp.sq, w.unsent = true) → ∃ w ∈ s.qp.sq, w.state = .run) := by
  constructor
  · intro hd hu
    obtain ⟨w, hw, hrun, -⟩ := hd hu
    exact ⟨w, hw, hrun⟩
  · intro hd hu
    obtain ⟨w, hw, hrun⟩ := hd hu
    exact ⟨w, hw, hrun, h.outstanding.mem_iff.mpr (mem_runningIds.mpr ⟨w, hw, rfl, hrun⟩)⟩

theorem SendWatch.Fits.pass {returned : Option PostReturn} (h : s.Fits)
    (heff : PassEffect outs s.qp.sq qp'.sq es) (hnext : qp'.nextWqe = s.qp.nextWqe) :
    (⟨qp', startedIds es ++ s.outstanding, returned⟩ : SendWatch).Fits where
  sendable := heff.sendable h.sendable
  sorted := h.sorted.sublist heff.ids
  fresh := by
    intro w hw
    obtain ⟨v, hv, hid⟩ := List.mem_map.mp (heff.ids.subset (List.mem_map_of_mem hw))
    have hlt := h.fresh v hv
    rw [hid] at hlt
    dsimp only
    omega
  outstanding := by
    dsimp only
    rw [heff.runningIds_eq]
    exact h.outstanding.append_left _

theorem SendWatch.Fits.queued (h : s.Fits) (returned : Option PostReturn)
    (hq : queueSendWrs s.qp reqs = (qp', e)) :
    (⟨qp', s.outstanding, returned⟩ : SendWatch).Fits := by
  obtain ⟨new, hsq, hnew, hsorted, hids, hle, -⟩ := queueSendWrs_spec hq
  refine ⟨?_, ?_, ?_, ?_⟩
  · dsimp only
    rw [hsq]
    intro w hw
    rcases List.mem_append.mp hw with hw | hw
    · exact h.sendable w hw
    · exact (hnew w hw).2
  · dsimp only
    rw [hsq, List.map_append]
    apply List.pairwise_append.mpr
    refine ⟨h.sorted, hsorted, ?_⟩
    intro a ha b hb
    obtain ⟨v, hv, rfl⟩ := List.mem_map.mp ha
    obtain ⟨w, hw, rfl⟩ := List.mem_map.mp hb
    have hlt := h.fresh v hv
    have hge := (hids w hw).1
    omega
  · dsimp only
    rw [hsq]
    intro w hw
    rcases List.mem_append.mp hw with hw | hw
    · have hlt := h.fresh w hw
      omega
    · exact (hids w hw).2
  · dsimp only
    rw [hsq, runningIds_append, runningIds_init fun w hw => (hnew w hw).1, List.append_nil]
    exact h.outstanding

theorem sendDone_of_ne {w : SendWqe} (h : w.id ≠ id) : sendDone id status w = w := if_neg h

theorem runningIds_done (q : List SendWqe) :
    runningIds (q.map (sendDone id status)) = (runningIds q).filter (· != id) := by
  apply runningIds_mark
  · intro w hid
    rw [sendDone, if_pos hid]
  · exact fun w hid => sendDone_of_ne hid

theorem unsentIds_done (h : (q.map Wqe.id).Pairwise (· < ·)) (hr : id ∈ runningIds q) :
    unsentIds (q.map (sendDone id status)) = unsentIds q := by
  obtain ⟨w, hw, hid, hrun⟩ := mem_runningIds.mp hr
  have hsame : ∀ v ∈ q, (sendDone id status v).unsent = v.unsent := by
    intro v hv
    by_cases hv' : v.id = id
    · have hnd : (q.map Wqe.id).Nodup := h.imp Nat.ne_of_lt
      have hvw : v = w := List.inj_on_of_nodup_map hnd hv hw (hv'.trans hid.symm)
      rw [hvw, sendDone, if_pos hid, Wqe.unsent, Wqe.unsent, hrun]
      rfl
    · rw [sendDone_of_ne hv']
  rw [unsentIds, List.filter_map, List.map_map, unsentIds]
  have hf : q.filter (Wqe.unsent ∘ sendDone id status) = q.filter Wqe.unsent :=
    List.filter_congr hsame
  rw [hf]
  apply List.map_congr_left
  intro v _
  exact congrArg Prod.fst (sendDone_key v)

theorem SendWatch.Fits.marked (h : s.Fits) (id : Nat) (status : Int) (returned : Option PostReturn) :
    (⟨{ s.qp with sq := s.qp.sq.map (sendDone id status) }, s.outstanding.erase id, returned⟩ :
      SendWatch).Fits := by
  have hids : (s.qp.sq.map (sendDone id status)).map Wqe.id = s.qp.sq.map Wqe.id := by
    rw [List.map_map]
    exact List.map_congr_left fun v _ => congrArg Prod.fst (sendDone_key v)
  have hnd : (s.qp.sq.map Wqe.id).Nodup := h.sorted.imp Nat.ne_of_lt
  have hrunning : (runningIds s.qp.sq).Nodup := hnd.sublist (List.filter_sublist.map Wqe.id)
  refine ⟨?_, ?_, ?_, ?_⟩
  · intro w hw
    obtain ⟨v, hv, rfl⟩ := List.mem_map.mp hw
    have hwr : (sendDone id status v).wr = v.wr := congrArg Prod.snd (sendDone_key v)
    rw [hwr]
    exact h.sendable v hv
  · dsimp only
    rw [hids]
    exact h.sorted
  · intro w hw
    obtain ⟨v, hv, rfl⟩ := List.mem_map.mp hw
    have hid : (sendDone id status v).id = v.id := congrArg Prod.fst (sendDone_key v)
    rw [hid]
    exact h.fresh v hv
  · dsimp only
    rw [runningIds_done, ← hrunning.erase_eq_filter]
    exact h.outstanding.erase id

theorem SendWatch.Fits.statusSend (h : s.Fits) (returned : Option PostReturn)
    (hp : muStatusSend s.qp id status env = some (qp', es)) :
    (⟨qp', startedIds es ++ s.outstanding.erase id, returned⟩ : SendWatch).Fits := by
  have hm := h.marked id status returned
  obtain ⟨heff, hnext, -⟩ := passSendQueue_effect hm.sendable hp
  exact hm.pass heff hnext

theorem SendWatch.Fits.postSend {rc : Int} {badWr : Option SendWr} (h : s.Fits)
    (returned : Option PostReturn) (hp : bgvrnicPostSend s.qp reqs env = some (qp', es, rc, badWr)) :
    (⟨qp', startedIds es ++ s.outstanding, returned⟩ : SendWatch).Fits := by
  unfold bgvrnicPostSend at hp
  split at hp
  next =>
    cases Option.some.inj hp
    exact ⟨h.sendable, h.sorted, h.fresh, h.outstanding⟩
  next =>
    split at hp
    next hq =>
      cases Option.some.inj hp
      exact h.queued returned hq
    next hq =>
      obtain ⟨⟨qp₂, es₂⟩, hpass, hp⟩ := Option.bind_eq_some_iff.mp hp
      cases Option.some.inj hp
      have hfits := h.queued returned hq
      obtain ⟨heff, hnext, -⟩ := passSendQueue_effect hfits.sendable hpass
      exact hfits.pass heff hnext

theorem SendWatch.Fits.step_statusCb (h : s.Fits) (hs : s.step (.statusCb id status env) = some s') :
    s'.Fits ∧ s'.returned = none ∧
      (s'.Driven ↔ WatchInput.Driving s (.statusCb id status env)) := by
  unfold SendWatch.step at hs
  dsimp only at hs
  split at hs
  next hout =>
    obtain ⟨⟨qp, es⟩, hp, hs⟩ := Option.bind_eq_some_iff.mp hs
    cases Option.some.inj hs
    have hr : id ∈ runningIds s.qp.sq := h.outstanding.mem_iff.mp hout
    have hm := h.marked id status none
    obtain ⟨heff, -⟩ := passSendQueue_effect hm.sendable hp
    have hfits := h.statusSend none hp
    refine ⟨hfits, rfl, ?_⟩
    rw [hfits.driven_iff, heff.driven_iff, unsentIds_done h.sorted hr]
    have hno : (∀ w ∈ s.qp.sq.map (sendDone id status), w.state ≠ .run) ↔
        ∀ w ∈ s.qp.sq, w.state = .run → w.id = id := by
      constructor
      · intro hno w hw hrun
        by_contra hne
        apply hno w _ hrun
        rw [← (sendDone_of_ne hne : sendDone id status w = w)]
        exact List.mem_map_of_mem hw
      · intro hall w hw
        obtain ⟨v, hv, rfl⟩ := List.mem_map.mp hw
        unfold sendDone
        split
        next => simp
        next hne => exact fun hrun => hne (hall v hv hrun)
    exact imp_congr hno Iff.rfl
  next => cases hs

/-- The requests before `*bad_wr` are the ones that the loop of the call has queued. -/
theorem queueSendWrs_queuedBefore {rc : Int} {badWr : Option SendWr} (hst : s.qp.qpState = .rts)
    (hq : queueSendWrs s.qp reqs = (qp', e)) (he : e = .out rc badWr ∨ e = .pass rc badWr) :
    (⟨reqs, (postedBy s.qp reqs).map Wqe.wr, rc, badWr⟩ : PostReturn).QueuedBefore := by
  obtain ⟨new, hsq, ⟨hwrs, -, hend, -⟩, -⟩ := queueSendWrs_outcome hq
  have hposted : postedBy s.qp reqs = new := by
    rw [postedBy, if_pos hst, hq]
    dsimp only
    rw [hsq, List.drop_left]
  have happ : taken s.qp reqs ++ refused s.qp reqs = reqs := List.takeWhile_append_dropWhile
  intro hrc
  dsimp only at hrc ⊢
  rw [hposted, hwrs]
  rcases hend.error with ⟨-, h0⟩ | ⟨bad, after, rc', hrest, -, hbad⟩
  · exfalso
    rcases he with he | he
    · rw [h0] at he
      cases he
    · rw [h0] at he
      cases he
      exact hrc rfl
  · have hwr : badWr = some bad.wr := by
      split at hbad
      · rcases he with he | he
        · rw [hbad] at he
          cases he
          rfl
        · rw [hbad] at he
          cases he
      · rcases he with he | he
        · rw [hbad] at he
          cases he
        · rw [hbad] at he
          cases he
          rfl
    exact ⟨taken s.qp reqs, bad, after, by rw [← hrest, happ], hwr, rfl⟩

theorem leavesEarly_iff (h : PostEnds qp.maxRecvSge (refused qp reqs) e) :
    leavesEarly qp reqs = true ↔ ∃ rc badWr, e = .out rc badWr := by
  rw [leavesEarly]
  cases hr : refused qp reqs with
  | nil =>
    rw [hr] at h
    have he : e = .pass 0 none := h
    simp [he]
  | cons bad after =>
    rw [hr] at h
    obtain ⟨-, rc, -, he⟩ := h
    cases hout : bad.thrownOut qp.maxRecvSge with
    | true => simp [he, hout]
    | false => simp [he, hout]

/-- Without a pass nothing comes back to the WQEs that a call has queued, unless one runs. -/
theorem SendWatch.Fits.queued_driven_iff {returned : Option PostReturn} (h : s.Fits) (hd : s.Driven)
    (hq : queueSendWrs s.qp reqs = (qp', e)) :
    (⟨qp', s.outstanding, returned⟩ : SendWatch).Driven ↔
      (taken s.qp reqs = [] ∨ ∃ w ∈ s.qp.sq, w.state = .run) := by
  obtain ⟨new, hsq, hnew, hwrs, -⟩ := queueSendWrs_new hq
  have hnone : taken s.qp reqs = [] ↔ new = [] := by
    rw [← List.map_eq_nil_iff (f := SendRequest.wr), ← hwrs, List.map_eq_nil_iff]
  rw [(h.queued returned hq).driven_iff, hnone]
  dsimp only
  rw [hsq]
  constructor
  · intro hdriven
    cases hcase : new with
    | nil => exact Or.inl rfl
    | cons w rest =>
      have hw : w ∈ new := by simp [hcase]
      obtain ⟨v, hv, hrun⟩ := hdriven
        ⟨w, List.mem_append_right _ hw, Wqe.unsent_iff.mpr (Or.inl (hnew w hw).1)⟩
      rcases List.mem_append.mp hv with hv | hv
      · exact Or.inr ⟨v, hv, hrun⟩
      · have hi := (hnew v hv).1
        rw [hrun] at hi
        cases hi
  · rintro (hnil | ⟨w, hw, hrun⟩)
    · rw [hnil, List.append_nil]
      exact h.driven_iff.mp hd
    · exact fun _ => ⟨w, List.mem_append_left _ hw, hrun⟩

/-- The pass of a call finds the WQEs that were not sent before, and those that the call has queued. -/
theorem posted_driven_iff (hq : queueSendWrs qp reqs = (qp', e))
    (heff : PassEffect outs qp'.sq left es) :
    ((∃ w ∈ left, w.unsent = true) → ∃ w ∈ left, w.state = .run) ↔
      ((∀ w ∈ qp.sq, w.state ≠ .run) →
        Retried outs (unsentIds qp.sq ++ List.range' qp.nextWqe (taken qp reqs).length)) := by
  obtain ⟨new, hsq, hnew, -, hids⟩ := queueSendWrs_new hq
  have hun : unsentIds qp'.sq =
      unsentIds qp.sq ++ List.range' qp.nextWqe (taken qp reqs).length := by
    have hall : new.filter Wqe.unsent = new :=
      List.filter_eq_self.mpr fun w hw => Wqe.unsent_iff.mpr (Or.inl (hnew w hw).1)
    rw [hsq, unsentIds, List.filter_append, List.map_append, hall, hids]
    rfl
  have hno : (∀ w ∈ qp'.sq, w.state ≠ .run) ↔ ∀ w ∈ qp.sq, w.state ≠ .run := by
    rw [hsq]
    constructor
    · exact fun hall w hw => hall w (List.mem_append_left _ hw)
    · intro hall w hw
      rcases List.mem_append.mp hw with hw | hw
      · exact hall w hw
      · rw [(hnew w hw).1]
        decide
  rw [heff.driven_iff, hun, hno]

theorem SendWatch.Fits.step_postSend (h : s.Fits) (hd : s.Driven)
    (hs : s.step (.postSend reqs env) = some s') :
    s'.Fits ∧ (s'.Driven ∧ (∀ r, s'.returned = some r → r.QueuedBefore) ↔
      WatchInput.Driving s (.postSend reqs env)) := by
  obtain ⟨⟨qp, es, rc, badWr⟩, hp, hs⟩ := Option.bind_eq_some_iff.mp hs
  cases Option.some.inj hs
  have hfits' := h.postSend (some ⟨reqs, (postedBy s.qp reqs).map Wqe.wr, rc, badWr⟩) hp
  refine ⟨hfits', ?_⟩
  unfold bgvrnicPostSend at hp
  unfold WatchInput.Driving
  dsimp only
  by_cases hst : s.qp.qpState = .rts
  · rw [if_neg (by simp [hst])] at hp
    cases hq : queueSendWrs s.qp reqs with
    | mk qp₁ e =>
      obtain ⟨-, -, ⟨-, -, hend, -⟩, -⟩ := queueSendWrs_outcome hq
      rw [hq] at hp
      cases e with
      | out rc' badWr' =>
        cases Option.some.inj hp
        have hearly := (leavesEarly_iff hend).mpr ⟨_, _, rfl⟩
        have hbefore := queueSendWrs_queuedBefore hst hq (Or.inl rfl)
        rw [if_pos hearly, show startedIds [] ++ s.outstanding = s.outstanding from rfl,
          h.queued_driven_iff hd hq]
        constructor
        · exact fun hdriven => ⟨hst, hdriven.1⟩
        · exact fun hok => ⟨hok.2, fun r hr => Option.some.inj hr ▸ hbefore⟩
      | pass rc' badWr' =>
        obtain ⟨⟨qp₂, es₂⟩, hpass, hp⟩ := Option.bind_eq_some_iff.mp hp
        cases Option.some.inj hp
        have hearly : ¬ leavesEarly s.qp reqs = true := by
          rw [leavesEarly_iff hend]
          simp
        have hbefore := queueSendWrs_queuedBefore hst hq (Or.inr rfl)
        have hfits := h.queued none hq
        obtain ⟨heff, -⟩ := passSendQueue_effect hfits.sendable hpass
        rw [if_neg hearly, hfits'.driven_iff, posted_driven_iff hq heff]
        constructor
        · exact fun hdriven => ⟨hst, hdriven.1⟩
        · exact fun hok => ⟨hok.2, fun r hr => Option.some.inj hr ▸ hbefore⟩
  · -- the call returns before it looks at its list, and leaves `*bad_wr` as it was
    rw [if_pos hst] at hp
    cases Option.some.inj hp
    constructor
    · rintro ⟨-, hret⟩
      have hrc : -EINVAL ≠ 0 := by decide
      obtain ⟨before, bad, after, -, hbad, -⟩ := hret _ rfl hrc
      cases hbad
    · rintro ⟨hrts, -⟩
      exact absurd hrts hst

def SendWatch.Kept (s : SendWatch) : Prop :=
  s.Driven ∧ ∀ r, s.returned = some r → r.QueuedBefore

theorem SendWatch.Fits.step (h : s.Fits) (hd : s.Driven) (hs : s.step i = some s') :
    s'.Fits ∧ (s'.Kept ↔ i.Driving s) := by
  cases i with
  | postSend reqs env => exact h.step_postSend hd hs
  | statusCb id status env =>
    obtain ⟨hfits, hnone, hdriven⟩ := h.step_statusCb hs
    refine ⟨hfits, ?_⟩
    rw [SendWatch.Kept, hdriven, hnone]
    simp
  | setState qpState =>
    cases Option.some.inj hs
    refine ⟨⟨h.sendable, h.sorted, h.fresh, h.outstanding⟩, ?_⟩
    exact ⟨fun _ => trivial, fun _ => ⟨hd, by simp⟩⟩

theorem sendWatch_start (qp : VrnicQp) : (SendWatch.start qp).Fits ∧ (SendWatch.start qp).Kept := by
  refine ⟨⟨by simp [SendWatch.start], List.Pairwise.nil, by simp [SendWatch.start],
    List.Perm.nil⟩, ?_, by simp [SendWatch.start]⟩
  rintro ⟨w, hw, -⟩
  cases hw

/-- What is left to be sent is driven by a WQE that runs, all along the runs whose calls and callbacks
meet the condition and no others. -/
theorem send_queue_driven_iff (qp : VrnicQp) (is : List WatchInput) :
    Runs.Always SendWatch.step SendWatch.Kept (SendWatch.start qp) is ↔
      Runs.Meets SendWatch.step (fun s i => i.Driving s) (SendWatch.start qp) is := by
  refine @Runs.always_iff_meets _ _ _ _ _ _ _ (fun s => s.Fits ∧ s.Kept) (fun s h => h.2) ?_ ?_
    (sendWatch_start qp)
  · intro s i s' h hok hs
    obtain ⟨hfits, hkept⟩ := h.1.step h.2.1 hs
    exact ⟨hfits, hkept.mpr hok⟩
  · intro s i s' h hs hkept
    exact (h.1.step h.2.1 hs).2.mp hkept

/-- A send of 1024 bytes, which goes as a remote message. -/
def longSend : SendRequest := ⟨⟨10, [⟨0, 1024, 1⟩], .send, true, false, 0, 0, 0⟩, true⟩

/-- The transport is out of descriptors. -/
def busySend : SendEnv := { busyFirst with transport := fun _ => -EBUSY }

/-- The only WQE of the queue waits, and no callback is due. -/
theorem busy_send_stranded :
    ¬ ∀ (qp : VrnicQp) (is : List WatchInput),
      Runs.Always SendWatch.step SendWatch.Kept (SendWatch.start qp) is := by
  intro h
  have ha := (h pageQp [.postSend [longSend] busySend]).2 _ rfl
  have hdriven := ha.head.1
  obtain ⟨w, hw, hrun, -⟩ := hdriven ⟨_, List.mem_singleton.mpr rfl, rfl⟩
  rw [List.mem_singleton.mp hw] at hrun
  cases hrun

end BgqVrnic
