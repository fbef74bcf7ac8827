import BgqVrnic.RecvBugs
import Mathlib.Data.List.TakeWhile

namespace BgqVrnic

/-- What a call, a message or a report of the transport can be: lengths have their 32 bits, and entries
of a list of pieces their 28, regions lie in memory, and the transport's values are ones that it can
return. A remote access is taken to go through, and the queue pair to have the context that a message
needs; those are matters of their own. -/
def LedgerInput.Real (s : WqeLedger) : LedgerInput → Prop
  | .postSend reqs env => Physical env.mrs ∧ (∀ r ∈ reqs, ∀ u ∈ r.wr.sgList, u.length < 2 ^ 32) ∧
      ∀ w ∈ (queueSendWrs s.q.qp reqs).1.sq, env.Answers w
  | .postRecv _ => True
  | .packet pkt env =>
    if pkt.type = .pktDataImm ∨ pkt.type = .pktDataRemote then
      s.q.ContextFits pkt ∧ Physical env.mrs ∧ (∀ i, (env.stack i).memlength < 2 ^ 28) ∧
        ∀ w, firstUnused s.q.qp.rq = some w → env.Answers w pkt.dataMsg
    else s.step (.packet pkt env) ≠ none
  | .statusCb type id status send _ => id ∈ s.out type ∧ (type = .send → Physical send.mrs ∧
      ∀ w ∈ s.q.qp.sq.map (sendDone id status), send.Answers w)
  | .setState _ | .setContext _ => True

/-- The work requests that a step comes to fit: those of the WQEs that a pass over the send queue sends,
the new ones included if the pass gets to them, and that of the WQE that a message uses. -/
def LedgerInput.WorkFits (s : WqeLedger) : LedgerInput → Prop
  | .postSend reqs env => s.q.qp.qpState = .rts → leavesEarly s.q.qp reqs = false →
      (∀ w ∈ reached s.q.qp.sq, w.unsent = true → w.wr.Fits env.mrs) ∧
      ((∀ w ∈ s.q.qp.sq, w.state ≠ .run) → ∀ r ∈ taken s.q.qp reqs, r.wr.Fits env.mrs)
  | .packet pkt env => pkt.type = .pktDataImm ∨ pkt.type = .pktDataRemote →
      ∀ w, firstUnused s.q.qp.rq = some w → w.wr.Fits env.mrs env.stack pkt.dataMsg
  | .statusCb .send id status send _ =>
      ∀ w ∈ reached (s.q.qp.sq.map (sendDone id status)), w.unsent = true → w.wr.Fits send.mrs
  | _ => True

/-- The queues as the calls and the passes leave them. -/
structure WqeLedger.Posted (s : WqeLedger) : Prop where
  sends : ∀ w ∈ s.q.qp.sq, SendWqe.Posted w
  recvs : ∀ w ∈ s.q.qp.rq, RecvWqe.Posted w

variable {qp qp' : VrnicQp} {reqs : List SendRequest} {recvs : List RecvRequest} {env : SendEnv}
variable {renv : RecvEnv} {menv : MuRecvEnv} {es : List SendEvent} {id : Nat} {status rc : Int}
variable {bad : Option SendWr} {msg : DataMsg} {used : Option Nat} {pkt : MuPacket}
variable {reported : List (RecvWqe × List IbWc)} {outs : Nat → Int} {l left new : List SendWqe}
variable {w : SendWqe} {s s' : WqeLedger} {i : LedgerInput} {q : MuQp} {r : RecvOutcome}
variable {mrs : RegionTable} {e : PostEnd}

theorem PassEffect.posted (h : PassEffect outs l left es) (hl : ∀ w ∈ l, SendWqe.Posted w) :
    ∀ w ∈ left, SendWqe.Posted w := by
  induction h with
  | stop => exact hl
  | running => exact hl
  | done cqes ahead hs h ih => exact ih fun v hv => hl v (List.mem_cons_of_mem _ hv)
  | ended call cqes ahead hs hout h ih => exact ih fun v hv => hl v (List.mem_cons_of_mem _ hv)
  | @kept w kept rest left es call ahead hs hout hkey hst h ih =>
    intro v hv
    rcases List.mem_cons.mp hv with hv | hv
    · have hw := hl w List.mem_cons_self
      have hwr : kept.wr = w.wr := congrArg Prod.snd hkey
      rw [hv]
      refine ⟨?_, ?_, ?_⟩
      · rw [hst]
        split <;> decide
      · rw [hwr]
        exact hw.opcode
      · rw [hwr]
        exact hw.typed
    · exact ih (fun u hu => hl u (List.mem_cons_of_mem _ hu)) v hv

theorem queueSendWrs_posted (hq : queueSendWrs qp reqs = (qp', e))
    (hl : ∀ w ∈ qp.sq, SendWqe.Posted w)
    (htyped : ∀ r ∈ reqs, ∀ u ∈ r.wr.sgList, u.length < 2 ^ 32) :
    ∀ w ∈ qp'.sq, SendWqe.Posted w := by
  obtain ⟨new, hsq, hnew, hwrs, -⟩ := queueSendWrs_new hq
  rw [hsq]
  intro w hw
  rcases List.mem_append.mp hw with hw | hw
  · exact hl w hw
  · obtain ⟨hstate, hop⟩ := hnew w hw
    have hwr : w.wr ∈ (taken qp reqs).map SendRequest.wr := by
      rw [← hwrs]
      exact List.mem_map_of_mem hw
    obtain ⟨r, hr, hrw⟩ := List.mem_map.mp hwr
    refine ⟨by simp [hstate], hop, ?_⟩
    rw [← hrw]
    exact htyped r (List.takeWhile_sublist _ |>.subset hr)

theorem sendDone_posted (hl : ∀ w ∈ l, SendWqe.Posted w) :
    ∀ w ∈ l.map (sendDone id status), SendWqe.Posted w := by
  intro w hw
  obtain ⟨v, hv, rfl⟩ := List.mem_map.mp hw
  have hp := hl v hv
  unfold sendDone
  split
  next => exact ⟨nofun, hp.opcode, hp.typed⟩
  next => exact hp

theorem reached_eq_self (hl : ∀ w ∈ l, w.state ≠ .run) : reached l = l := by
  apply List.takeWhile_eq_self_iff.mpr
  intro w hw
  simpa using hl w hw

/-- What a pass comes to in a queue with new WQEs behind it. -/
theorem reached_append (hnew : ∀ w ∈ new, w.state = .init) :
    reached (l ++ new) = if ∀ w ∈ l, w.state ≠ .run then l ++ new else reached l := by
  induction l with
  | nil =>
    rw [if_pos (by simp), List.nil_append]
    apply reached_eq_self
    intro w hw
    simp [hnew w hw]
  | cons w l ih =>
    by_cases hs : w.state = .run
    · rw [if_neg (by simp [hs])]
      simp [reached, hs]
    · have hcons (q : List SendWqe) : reached (w :: q) = w :: reached q := by simp [reached, hs]
      rw [List.cons_append, hcons, hcons, ih]
      by_cases hno : ∀ v ∈ l, v.state ≠ .run
      · rw [if_pos hno, if_pos (by simpa [hs] using hno)]
      · rw [if_neg hno, if_neg (by simpa [hs] using hno)]

/-- The pass of a call sends what was left on the queue and, if it gets there, what the call queued. -/
theorem postSend_fits_iff (hq : queueSendWrs qp reqs = (qp', e)) :
    (∀ w ∈ reached qp'.sq, w.unsent = true → w.wr.Fits mrs) ↔
      (∀ w ∈ reached qp.sq, w.unsent = true → w.wr.Fits mrs) ∧
      ((∀ w ∈ qp.sq, w.state ≠ .run) → ∀ r ∈ taken qp reqs, r.wr.Fits mrs) := by
  obtain ⟨new, hsq, hnew, hwrs, -⟩ := queueSendWrs_new hq
  have hfits : (∀ r ∈ taken qp reqs, r.wr.Fits mrs) ↔ ∀ w ∈ new, w.wr.Fits mrs := by
    have hl : (∀ r ∈ taken qp reqs, r.wr.Fits mrs) ↔
        ∀ wr ∈ (taken qp reqs).map SendRequest.wr, wr.Fits mrs := by simp
    have hr : (∀ w ∈ new, w.wr.Fits mrs) ↔ ∀ wr ∈ new.map Wqe.wr, wr.Fits mrs := by simp
    rw [hl, hr, hwrs]
  rw [hsq, reached_append fun w hw => (hnew w hw).1, hfits]
  by_cases hno : ∀ w ∈ qp.sq, w.state ≠ .run
  · rw [if_pos hno, reached_eq_self hno]
    constructor
    · intro hall
      refine ⟨fun w hw => hall w (List.mem_append_left _ hw), fun _ w hw => ?_⟩
      exact hall w (List.mem_append_right _ hw) (Wqe.unsent_iff.mpr (Or.inl (hnew w hw).1))
    · rintro ⟨hold, hall⟩ w hw hu
      rcases List.mem_append.mp hw with hw | hw
      · exact hold w hw hu
      · exact hall hno w hw
  · rw [if_neg hno]
    exact ⟨fun hall => ⟨hall, fun h => absurd h hno⟩, fun hall => hall.1⟩

/-- What comes after a call that has come back does not end in a `BUG`. -/
theorem bind_none_iff {α β : Type} {call : Option α} {next : α → Option β} (h : ∀ a, next a ≠ none) :
    call.bind next = none ↔ call = none := by
  cases call with
  | none => exact ⟨fun _ => rfl, fun _ => rfl⟩
  | some a => exact ⟨fun hnone => absurd hnone (h a), nofun⟩

theorem passSendQueue_none_iff : passSendQueue qp env = none ↔
    processSendFrom qp env qp.sq ⟨[], qp.scq, 0, 0, []⟩ = none := by
  unfold passSendQueue bgvrnicProcessSendWqes
  exact bind_none_iff fun _ => Option.some_ne_none _

theorem bgvrnicPostSend_none_iff (hl : ∀ w ∈ qp.sq, SendWqe.Posted w) (hp : Physical env.mrs)
    (htyped : ∀ r ∈ reqs, ∀ u ∈ r.wr.sgList, u.length < 2 ^ 32)
    (hans : ∀ w ∈ (queueSendWrs qp reqs).1.sq, env.Answers w) :
    bgvrnicPostSend qp reqs env = none ↔ ¬ (qp.qpState = .rts → leavesEarly qp reqs = false →
      (∀ w ∈ reached qp.sq, w.unsent = true → w.wr.Fits env.mrs) ∧
      ((∀ w ∈ qp.sq, w.state ≠ .run) → ∀ r ∈ taken qp reqs, r.wr.Fits env.mrs)) := by
  unfold bgvrnicPostSend
  by_cases hst : qp.qpState = .rts
  · rw [if_neg (by simp [hst])]
    cases hq : queueSendWrs qp reqs with
    | mk qp₁ e =>
      obtain ⟨-, -, ⟨-, -, hend, -⟩, -⟩ := queueSendWrs_outcome hq
      have hearly := leavesEarly_iff hend
      rw [hq] at hans
      cases e with
      | out rc bad =>
        have htrue : leavesEarly qp reqs = true := hearly.mpr ⟨_, _, rfl⟩
        simp [htrue]
      | pass rc bad =>
        have hfalse : leavesEarly qp reqs = false := by
          rw [← Bool.not_eq_true, hearly]
          simp
        have hposted := queueSendWrs_posted hq hl htyped
        have hpass := passSendQueue_none_iff.trans (processSendFrom_none_iff hp hposted hans)
        rw [postSend_fits_iff hq] at hpass
        have hcond (P : Prop) : (qp.qpState = .rts → leavesEarly qp reqs = false → P) ↔ P :=
          ⟨fun h => h hst hfalse, fun h _ _ => h⟩
        rw [hcond, ← hpass]
        exact bind_none_iff fun _ => Option.some_ne_none _
  · rw [if_pos hst]
    simp [hst]

theorem muStatusSend_none_iff (hl : ∀ w ∈ qp.sq, SendWqe.Posted w) (hp : Physical env.mrs)
    (hans : ∀ w ∈ qp.sq.map (sendDone id status), env.Answers w) :
    muStatusSend qp id status env = none ↔
      ¬ ∀ w ∈ reached (qp.sq.map (sendDone id status)), w.unsent = true → w.wr.Fits env.mrs :=
  passSendQueue_none_iff.trans (processSendFrom_none_iff hp (sendDone_posted hl) hans)

theorem takeBuffer_posted {rq rq' : List RecvWqe} (h : takeBuffer renv msg rq = some (rq', used))
    (hl : ∀ w ∈ rq, RecvWqe.Posted w) : ∀ w ∈ rq', RecvWqe.Posted w := by
  rcases takeBuffer_spec h with ⟨-, hq, -⟩ | ⟨before, w, w', after, hq, hq', -, -, hrec, -⟩
  · rw [hq]
    exact hl
  · rw [hq] at hl
    rw [hq']
    intro v hv
    rcases List.mem_append.mp hv with hv | hv
    · exact hl v (List.mem_append_left _ hv)
    · rcases List.mem_cons.mp hv with hv | hv
      · rw [hv]
        exact Or.inr (receiveInto_done_or_run hrec).symm
      · exact hl v (List.mem_append_right _ (List.mem_cons_of_mem _ hv))

theorem recvDone_posted {rq : List RecvWqe} (hl : ∀ w ∈ rq, RecvWqe.Posted w) :
    ∀ w ∈ rq.map (recvDone id status), RecvWqe.Posted w := by
  intro w hw
  obtain ⟨v, hv, rfl⟩ := List.mem_map.mp hw
  unfold recvDone
  split
  next => exact Or.inr (Or.inr rfl)
  next => exact hl v hv

/-- What a pass leaves on the receive queue was there before. -/
theorem bgvrnicProcessRecvWqes_posted (h : bgvrnicProcessRecvWqes qp renv = some (qp', reported))
    (hl : ∀ w ∈ qp.rq, RecvWqe.Posted w) : ∀ w ∈ qp'.rq, RecvWqe.Posted w := by
  obtain ⟨⟨rq', p'⟩, hproc, h⟩ := Option.bind_eq_some_iff.mp h
  cases Option.some.inj h
  obtain ⟨front, hrq, -, -⟩ := processRecvFrom_spec hproc
  rw [hrq] at hl
  exact fun w hw => hl w (List.mem_append_right _ hw)

theorem muRecvData_posted (h : muRecvData qp renv msg = some (qp', used, reported))
    (hl : ∀ w ∈ qp.rq, RecvWqe.Posted w) : ∀ w ∈ qp'.rq, RecvWqe.Posted w := by
  obtain ⟨⟨rq, found⟩, ht, h⟩ := Option.bind_eq_some_iff.mp h
  have hrq := takeBuffer_posted ht hl
  cases found with
  | none =>
    cases Option.some.inj h
    exact hl
  | some id =>
    obtain ⟨⟨qp₁, reported₁⟩, hp, h⟩ := Option.bind_eq_some_iff.mp h
    cases Option.some.inj h
    exact bgvrnicProcessRecvWqes_posted hp hrq

theorem muRecvData_none_iff (hl : ∀ w ∈ qp.rq, RecvWqe.Posted w) (hp : Physical renv.mrs)
    (hstack : ∀ i, (renv.stack i).memlength < 2 ^ 28)
    (hans : ∀ w, firstUnused qp.rq = some w → renv.Answers w msg) :
    muRecvData qp renv msg = none ↔
      ¬ ∀ w, firstUnused qp.rq = some w → w.wr.Fits renv.mrs renv.stack msg := by
  have htake : takeBuffer renv msg qp.rq = none ↔
      ¬ ∀ w, firstUnused qp.rq = some w → w.wr.Fits renv.mrs renv.stack msg := by
    rw [takeBuffer_none_iff]
    constructor
    · rintro ⟨w, hw, hnone⟩ hall
      exact (receiveInto_none_iff hp hstack (hans w hw)).mp hnone (hall w hw)
    · intro hunfit
      by_contra hnone
      apply hunfit
      intro w hw
      by_contra hbad
      exact hnone ⟨w, hw, (receiveInto_none_iff hp hstack (hans w hw)).mpr hbad⟩
  rw [← htake]
  unfold muRecvData
  cases ht : takeBuffer renv msg qp.rq with
  | none => exact ⟨fun _ => rfl, fun _ => rfl⟩
  | some r =>
    obtain ⟨rq, found⟩ := r
    have hrq := takeBuffer_posted ht hl
    cases found with
    | none => exact ⟨nofun, nofun⟩
    | some id =>
      obtain ⟨⟨qp₁, reported₁⟩, hproc⟩ := bgvrnicProcessRecvWqes_exists { qp with rq := rq } renv hrq
      rw [Option.bind_eq_bind, Option.bind_some]
      dsimp only
      rw [hproc]
      exact ⟨nofun, nofun⟩

/-- A data message ends in a `BUG` where its receive does, or in the use of a context that is not there. -/
theorem muRecvSwitch_none_iff {psn : Nat}
    (hdata : pkt.type = .pktDataImm ∨ pkt.type = .pktDataRemote) :
    muRecvSwitch { q with rqPsn := psn } menv pkt = none ↔
      (q.ContextFits pkt → muRecvData q.qp menv.toRecvEnv pkt.dataMsg = none) := by
  cases hrecv : muRecvData q.qp menv.toRecvEnv pkt.dataMsg with
  | none =>
    refine iff_of_true ?_ fun _ => rfl
    unfold muRecvSwitch
    rcases hdata with ht | ht
    all_goals
      rw [ht]
      dsimp only
      rw [hrecv]
      rfl
  | some x =>
    obtain ⟨qp, used, reported⟩ := x
    obtain ⟨⟨rq, found⟩, htake, hrest⟩ := Option.bind_eq_some_iff.mp hrecv
    have hfound := takeBuffer_used htake
    have hused : used = found := by
      cases found with
      | none =>
        cases Option.some.inj hrest
        rfl
      | some id =>
        obtain ⟨y, -, hrest⟩ := Option.bind_eq_some_iff.mp hrest
        cases Option.some.inj hrest
        rfl
    subst hused
    have hnone (P : Prop) : (P → (some (qp, used, reported) : Option _) = none) ↔ ¬ P :=
      ⟨fun h hp => Option.some_ne_none _ (h hp), fun h hp => absurd hp h⟩
    rw [hnone]
    unfold muRecvSwitch MuQp.ContextFits
    rcases hdata with ht | ht
    · rw [ht]
      dsimp only
      rw [hrecv, ← hfound]
      cases used with
      | none => cases hctx : q.muContext <;> simp
      | some id => simp
    · rw [ht]
      dsimp only
      rw [hrecv]
      cases used with
      | none => cases hctx : q.muContext <;> simp
      | some id => cases hctx : q.muContext <;> simp

theorem muRecvQp_none_iff (hdata : pkt.type = .pktDataImm ∨ pkt.type = .pktDataRemote) :
    muRecvQp q menv pkt = none ↔
      (q.ContextFits pkt → muRecvData q.qp menv.toRecvEnv pkt.dataMsg = none) := by
  rw [← muRecvSwitch_none_iff hdata]
  unfold muRecvQp
  exact bind_none_iff fun _ => Option.some_ne_none _

theorem muRecvQp_posted (h : muRecvQp q menv pkt = some r) (hl : ∀ w ∈ q.qp.rq, RecvWqe.Posted w) :
    ∀ w ∈ r.q.qp.rq, RecvWqe.Posted w := by
  obtain ⟨r', hr, h⟩ := Option.bind_eq_some_iff.mp h
  cases Option.some.inj h
  show ∀ w ∈ r'.q.qp.rq, RecvWqe.Posted w
  cases muRecvSwitch_outcome hr with
  | taken qp id reported _ hdata => exact muRecvData_posted hdata hl
  | refused qp reported _ hdata =>
    have hposted := muRecvData_posted hdata hl
    dsimp only
    split
    next => exact hposted
    next => exact hposted
  | read | write | silent => exact hl

namespace WqeLedger.Posted

variable {type : WqeType} {send : SendEnv} {recv : RecvEnv}

theorem step_postSend (h : s.Posted) (hreal : LedgerInput.Real s (.postSend reqs env))
    (hs : s.postSend reqs env = some s') : s'.Posted := by
  obtain ⟨⟨qp, es, rc, bad⟩, hp, hs⟩ := Option.bind_eq_some_iff.mp hs
  cases Option.some.inj hs
  obtain ⟨-, htyped, -⟩ := hreal
  unfold bgvrnicPostSend at hp
  split at hp
  next =>
    cases Option.some.inj hp
    exact ⟨h.sends, h.recvs⟩
  next =>
    cases hq : queueSendWrs s.q.qp reqs with
    | mk qp₁ e =>
      obtain ⟨-, -, -, -, -, hrq⟩ := queueSendWrs_outcome hq
      have hposted := queueSendWrs_posted hq h.sends htyped
      have hrecvs : ∀ w ∈ qp₁.rq, RecvWqe.Posted w := by
        rw [hrq]
        exact h.recvs
      rw [hq] at hp
      cases e with
      | out rc' bad' =>
        cases Option.some.inj hp
        exact ⟨hposted, hrecvs⟩
      | pass rc' bad' =>
        obtain ⟨⟨qp₂, es₂⟩, hpass, hp⟩ := Option.bind_eq_some_iff.mp hp
        cases Option.some.inj hp
        obtain ⟨heff, -, -, -, hrq'⟩ :=
          passSendQueue_effect (fun w hw => (hposted w hw).opcode) hpass
        refine ⟨heff.posted hposted, ?_⟩
        show ∀ w ∈ qp.rq, RecvWqe.Posted w
        rw [hrq']
        exact hrecvs

theorem step_statusCb (h : s.Posted) (hs : s.statusCb id status send recv type = some s') :
    s'.Posted := by
  cases type with
  | send =>
    obtain ⟨⟨qp, es⟩, hp, hs⟩ := Option.bind_eq_some_iff.mp hs
    cases Option.some.inj hs
    have hposted : ∀ w ∈ s.q.qp.sq.map (sendDone id status), SendWqe.Posted w :=
      sendDone_posted h.sends
    obtain ⟨heff, -, -, -, hrq⟩ := passSendQueue_effect (fun w hw => (hposted w hw).opcode) hp
    refine ⟨heff.posted hposted, ?_⟩
    show ∀ w ∈ qp.rq, RecvWqe.Posted w
    rw [hrq]
    exact h.recvs
  | recv =>
    obtain ⟨⟨qp, reported⟩, hp, hs⟩ := Option.bind_eq_some_iff.mp hs
    cases Option.some.inj hs
    obtain ⟨-, -, hsq, -⟩ := muStatusRecv_effect hp
    refine ⟨?_, bgvrnicProcessRecvWqes_posted hp (recvDone_posted h.recvs)⟩
    show ∀ w ∈ qp.sq, SendWqe.Posted w
    rw [hsq]
    exact h.sends
  | rdma =>
    cases Option.some.inj hs
    exact ⟨h.sends, h.recvs⟩

theorem step (h : s.Posted) (hreal : i.Real s) (hs : s.step i = some s') : s'.Posted := by
  cases i with
  | postSend reqs env => exact h.step_postSend hreal hs
  | postRecv reqs =>
    cases Option.some.inj hs
    obtain ⟨-, -, -, hsq⟩ := bgvrnicPostRecv_ids s.q.qp reqs
    refine ⟨?_, ?_⟩
    · show ∀ w ∈ (bgvrnicPostRecv s.q.qp reqs).1.sq, SendWqe.Posted w
      rw [hsq]
      exact h.sends
    · show ∀ w ∈ (bgvrnicPostRecv s.q.qp reqs).1.rq, RecvWqe.Posted w
      unfold bgvrnicPostRecv
      split
      next => exact h.recvs
      next =>
        obtain ⟨new, hrq, hnew, -⟩ := queueRecvWrs_spec s.q.qp reqs
        rw [hrq]
        intro w hw
        rcases List.mem_append.mp hw with hw | hw
        · exact h.recvs w hw
        · exact Or.inl (hnew w hw).1
  | packet pkt env =>
    unfold WqeLedger.step at hs
    dsimp only at hs
    split at hs
    next =>
      cases Option.some.inj hs
      exact h
    next =>
      obtain ⟨r, hr, hs⟩ := Option.bind_eq_some_iff.mp hs
      cases Option.some.inj hs
      obtain ⟨n, heff⟩ := muRecvQp_effect hr
      refine ⟨?_, muRecvQp_posted hr h.recvs⟩
      show ∀ w ∈ r.q.qp.sq, SendWqe.Posted w
      rw [heff.sq]
      exact h.sends
  | statusCb type id status send recv =>
    unfold WqeLedger.step at hs
    dsimp only at hs
    split at hs
    next => exact h.step_statusCb hs
    next => cases hs
  | setState qpState =>
    cases Option.some.inj hs
    exact ⟨h.sends, h.recvs⟩
  | setContext muContext =>
    cases Option.some.inj hs
    exact ⟨h.sends, h.recvs⟩

theorem packet_none_iff (h : s.Posted) (hreal : LedgerInput.Real s (.packet pkt menv)) :
    s.step (.packet pkt menv) = none ↔ ¬ LedgerInput.WorkFits s (.packet pkt menv) := by
  unfold LedgerInput.Real at hreal
  unfold LedgerInput.WorkFits
  dsimp only at hreal ⊢
  by_cases hdata : pkt.type = .pktDataImm ∨ pkt.type = .pktDataRemote
  · rw [if_pos hdata] at hreal
    obtain ⟨hctx, hp, hstack, hans⟩ := hreal
    have hip : pkt.type ≠ .ipImmed := by
      rcases hdata with ht | ht <;> rw [ht] <;> decide
    have hnone := muRecvData_none_iff h.recvs hp hstack hans
    have hcond (P : Prop) :
        (pkt.type = .pktDataImm ∨ pkt.type = .pktDataRemote → P) ↔ P :=
      ⟨fun hall => hall hdata, fun hall _ => hall⟩
    have hqp := (@muRecvQp_none_iff menv pkt s.q hdata).trans
      ⟨fun hall => hall hctx, fun hall _ => hall⟩
    rw [hcond, ← hnone, ← hqp]
    unfold WqeLedger.step WqeLedger.packet
    dsimp only
    rw [if_neg hip]
    exact bind_none_iff fun _ => Option.some_ne_none _
  · rw [if_neg hdata] at hreal
    exact ⟨fun hnone => absurd hnone hreal, fun hunfit => absurd (fun hd => absurd hd hdata) hunfit⟩

/-- A step ends in a `BUG` exactly if a work request that it comes to does not fit. -/
theorem step_none_iff (h : s.Posted) (hreal : i.Real s) : s.step i = none ↔ ¬ i.WorkFits s := by
  cases i with
  | postSend reqs env =>
    obtain ⟨hp, htyped, hans⟩ := hreal
    have hnone := bgvrnicPostSend_none_iff h.sends hp htyped hans
    unfold LedgerInput.WorkFits
    dsimp only
    rw [← hnone]
    unfold WqeLedger.step WqeLedger.postSend
    exact bind_none_iff fun _ => Option.some_ne_none _
  | postRecv reqs => exact ⟨nofun, fun hunfit => absurd trivial hunfit⟩
  | packet pkt env => exact h.packet_none_iff hreal
  | statusCb type id status send recv =>
    obtain ⟨hout, hsend⟩ := hreal
    unfold WqeLedger.step
    dsimp only
    rw [if_pos hout]
    cases type with
    | send =>
      obtain ⟨hp, hans⟩ := hsend rfl
      have hnone := muStatusSend_none_iff h.sends hp hans
      unfold LedgerInput.WorkFits
      dsimp only
      rw [← hnone]
      unfold WqeLedger.statusCb
      exact bind_none_iff fun _ => Option.some_ne_none _
    | recv =>
      obtain ⟨⟨qp, reported⟩, hp⟩ := bgvrnicProcessRecvWqes_exists
        { s.q.qp with rq := s.q.qp.rq.map (recvDone id status) } recv (recvDone_posted h.recvs)
      have hsome : muStatusRecv s.q.qp id status recv = some (qp, reported) := hp
      unfold WqeLedger.statusCb
      dsimp only
      rw [hsome]
      exact ⟨nofun, fun hunfit => absurd trivial hunfit⟩
    | rdma => exact ⟨nofun, fun hunfit => absurd trivial hunfit⟩
  | setState qpState => exact ⟨nofun, fun hunfit => absurd trivial hunfit⟩
  | setContext muContext => exact ⟨nofun, fun hunfit => absurd trivial hunfit⟩

end WqeLedger.Posted

/-- A run of calls, messages and reports goes through without a `BUG` exactly if every work request that
it comes to fits. -/
theorem work_requests_go_through_iff (q : MuQp) (is : List LedgerInput)
    (h : Runs.Attempts WqeLedger.step (fun s i => i.Real s) (WqeLedger.start q) is) :
    (Runs.run WqeLedger.step (WqeLedger.start q) is).isSome ↔
      Runs.Attempts WqeLedger.step (fun s i => i.WorkFits s) (WqeLedger.start q) is := by
  apply @Runs.run_isSome_iff _ _ _ _ _ _ WqeLedger.Posted _ _ _ _ h
  · exact fun s i s' hposted hreal hs => hposted.step hreal hs
  · exact fun s i hposted hreal => hposted.step_none_iff hreal
  · exact ⟨by simp [WqeLedger.start], by simp [WqeLedger.start]⟩

/-- The link is down. -/
def cancelledSend : SendEnv := { busyFirst with transport := fun _ => -ECANCELED }

/-- A send without SGEs, for which the transport returns `-EFAULT`. -/
def emptySend : SendRequest := ⟨⟨10, [], .send, true, false, 0, 0, 0⟩, true⟩

def faultySend : SendEnv := { busyFirst with transport := fun _ => -EFAULT }

theorem page_physical : Physical busyFirst.mrs := by
  intro k mr hk
  by_cases hone : k = 1
  · have hmr : mr = ⟨0, 4096, [⟨0x10000, 4096⟩]⟩ := by
      simpa [busyFirst, hone] using hk.symm
    rw [hmr]
    simp
  · simp [busyFirst, hone] at hk

/-- A link that is down when a call comes in. -/
def downEnv (_ : Link) : InjEnv := { goingDown 0 with atEntry := false }

/-- A send of 1024 bytes over a link that is down. -/
def cancelledPost : LedgerInput := .postSend [longSend] cancelledSend

theorem cancelledPost_real : cancelledPost.Real (WqeLedger.start ⟨pageQp, 0, false, none⟩) := by
  refine ⟨page_physical, by decide, ?_⟩
  intro w hw x call hx hcall
  have hw' : w = allocSendWqe 0 longSend.wr := List.mem_singleton.mp hw
  subst hw'
  cases Option.some.inj hx
  cases Option.some.inj hcall
  exact ⟨downEnv, oneOfEach, 0, default, rfl⟩

theorem cancelled_send_goes_through :
    Runs.Attempts WqeLedger.step (fun s i => i.WorkFits s) (WqeLedger.start ⟨pageQp, 0, false, none⟩)
      [cancelledPost] :=
  (work_requests_go_through_iff ⟨pageQp, 0, false, none⟩ [cancelledPost]
    ⟨cancelledPost_real, fun _ _ => trivial⟩).mp rfl

/-- A send without SGEs ends in the `BUG` for a value of the transport that has no case. -/
theorem empty_send_bug :
    ¬ ∀ (q : MuQp) (is : List LedgerInput),
      Runs.Attempts WqeLedger.step (fun s i => i.Real s) (WqeLedger.start q) is →
      (Runs.run WqeLedger.step (WqeLedger.start q) is).isSome := by
  intro h
  have hsome := h ⟨pageQp, 0, false, none⟩ [.postSend [emptySend] faultySend] ⟨?_, fun _ _ => trivial⟩
  · cases hsome
  · refine ⟨page_physical, by decide, ?_⟩
    intro w hw x call hx hcall
    have hw' : w = allocSendWqe 0 emptySend.wr := List.mem_singleton.mp hw
    subst hw'
    cases Option.some.inj hx
    cases Option.some.inj hcall
    exact ⟨downEnv, oneOfEach, 0, default, rfl⟩

end BgqVrnic
