import BgqVrnic.Runs
import BgqVrnic.SendPasses

namespace BgqVrnic

/-- A queue pair with all that was posted to its send queue and done to it, in order. -/
structure SendRun where
  qp : VrnicQp
  posted : List (Nat × SendWr)
  events : List SendEvent

/-- What can happen to a send queue; each input comes with what the pass it sets off will meet. -/
inductive SendInput
  | postSend (reqs : List SendRequest) (env : SendEnv)
  | statusCb (id : Nat) (status : Int) (env : SendEnv)

/-- Memory for every CQE. -/
def SendEnv.allocating (env : SendEnv) : SendEnv := { env with cqeAlloc := fun _ => true }

/-- The WQEs that a call puts on the send queue. -/
def postedBy (qp : VrnicQp) (reqs : List SendRequest) : List SendWqe :=
  if qp.qpState = .rts then (queueSendWrs qp reqs).1.sq.drop qp.sq.length else []

/-- The transport reports on requests it has taken and not yet reported on. -/
def Running (sq : List SendWqe) (id : Nat) : Prop := ∃ w ∈ sq, w.id = id ∧ w.state = .run

instance (sq : List SendWqe) (id : Nat) : Decidable (Running sq id) :=
  inferInstanceAs (Decidable (∃ w ∈ sq, w.id = id ∧ w.state = .run))

def SendRun.step (s : SendRun) : SendInput → Option SendRun
  | .postSend reqs env => do
    let (qp, es, _, _) ← bgvrnicPostSend s.qp reqs env.allocating
    some ⟨qp, s.posted ++ (postedBy s.qp reqs).map Wqe.key, s.events ++ es⟩
  | .statusCb id status env =>
    if Running s.qp.sq id then do
      let (qp, es) ← muStatusSend s.qp id status env.allocating
      some ⟨qp, s.posted, s.events ++ es⟩
    else none

/-- The send queue of an input's pass: after the new WQEs are queued, or after the reported one is
marked. A call that leaves the pass out has none. -/
def SendInput.passQueue (qp : VrnicQp) : SendInput → List SendWqe
  | .postSend reqs _ =>
    if qp.qpState = .rts then
      match queueSendWrs qp reqs with
      | (qp, .pass _ _) => qp.sq
      | (_, .out _ _) => []
    else []
  | .statusCb id status _ => qp.sq.map (sendDone id status)

def SendInput.outcomes : SendInput → Nat → Int
  | .postSend _ env | .statusCb _ _ env => env.transport

/-- Sends and completions in posting order, with one CQE for each signaled WQE that has left the
queue and none for any other. -/
structure SendsInOrder (base : List IbWc) (s : SendRun) : Prop where
  inOrder : ∀ e ∈ s.events, e.InOrder
  sentSorted : (sentIds s.events).Pairwise (· < ·)
  completed : completionIds s.events =
    (s.posted.filter fun k => k.1 ∉ s.qp.sq.map Wqe.id).map (dueCompletion s.qp.sigAllWr)
  entries : s.qp.scq.entries = base ++ (completions s.events).flatMap Prod.snd

structure SendInv (base : List IbWc) (s : SendRun) : Prop where
  queue : QueueInv s.qp.sigAllWr base s.posted s.qp.sq s.qp.scq.entries s.events
  settled : Settled s.qp.sq
  fresh : ∀ i ∈ s.posted.map Prod.fst, i < s.qp.nextWqe

variable {base : List IbWc} {s s' : SendRun} {qp qp' : VrnicQp} {reqs : List SendRequest}
variable {env : SendEnv} {e : PostEnd} {id : Nat} {status : Int}

theorem SendInv.sendsInOrder (h : SendInv base s) : SendsInOrder base s where
  inOrder := h.queue.inOrder
  sentSorted := h.queue.sentSorted
  entries := h.queue.entries
  completed := by
    obtain ⟨done, hp, hd⟩ := h.queue.retired
    have hs := h.queue.sorted
    rw [hp, List.map_append, List.pairwise_append] at hs
    rw [hd, hp, List.filter_append]
    have hids : (s.qp.sq.map Wqe.key).map Prod.fst = s.qp.sq.map Wqe.id := by simp [Wqe.key]
    rw [List.filter_eq_self.mpr, List.filter_eq_nil_iff.mpr, List.append_nil]
    · intro k hk
      have hm := List.mem_map_of_mem (f := Prod.fst) hk
      rw [hids] at hm
      simpa using hm
    · intro k hk
      have hlt := hs.2.2 k.1 (List.mem_map_of_mem hk)
      rw [hids] at hlt
      simp only [decide_eq_true_eq]
      exact fun hm => Nat.lt_irrefl _ (hlt _ hm)

theorem sendWqeFor_spec {wr : SendWr} {w : SendWqe} (h : sendWqeFor id wr = .ok w) :
    w.id = id ∧ w.wr = wr ∧ w.state = .init ∧ wr.opcode.sendable = true := by
  unfold sendWqeFor at h
  cases ho : wr.opcode with
  | send | rdmaWrite | sendWithImm | rdmaWriteWithImm =>
    simp only [ho] at h
    cases h
    exact ⟨rfl, rfl, rfl, rfl⟩
  | rdmaRead =>
    simp only [ho] at h
    split at h
    · cases h
    · cases h
      exact ⟨rfl, rfl, rfl, rfl⟩
  | sendWithInv | rdmaReadWithInv | other =>
    simp only [ho] at h
    cases h

theorem queueSendWrs_spec (h : queueSendWrs qp reqs = (qp', e)) :
    ∃ new, qp'.sq = qp.sq ++ new ∧ (∀ w ∈ new, w.state = .init ∧ w.wr.opcode.sendable = true) ∧
      (new.map Wqe.id).Pairwise (· < ·) ∧
      (∀ w ∈ new, qp.nextWqe ≤ w.id ∧ w.id < qp'.nextWqe) ∧ qp.nextWqe ≤ qp'.nextWqe ∧
      qp'.sigAllWr = qp.sigAllWr ∧ qp'.scq = qp.scq := by
  induction reqs generalizing qp with
  | nil =>
    cases h
    exact ⟨[], by simp⟩
  | cons r reqs ih =>
    unfold queueSendWrs at h
    split at h
    next =>
      cases h
      exact ⟨[], by simp⟩
    next =>
      split at h
      next =>
        split at h
        next w hw =>
          obtain ⟨hid, -, hst, hso⟩ := sendWqeFor_spec hw
          obtain ⟨new, hsq, hnew, hsorted, hids, hle, hsig, hcq⟩ := ih h
          dsimp only at hids hle
          refine ⟨w :: new, by simp [hsq], ?_, ?_, ?_, by omega, hsig, hcq⟩
          · intro v hv
            rcases List.mem_cons.mp hv with rfl | hv
            · refine ⟨hst, ?_⟩
              have hwr := (sendWqeFor_spec hw).2.1
              rw [hwr]
              exact hso
            · exact hnew v hv
          · refine List.pairwise_cons.mpr ⟨fun i hi => ?_, hsorted⟩
            obtain ⟨v, hv, rfl⟩ := List.mem_map.mp hi
            have := hids v hv
            omega
          · intro v hv
            rcases List.mem_cons.mp hv with rfl | hv
            · omega
            · have := hids v hv
              omega
        next =>
          cases h
          exact ⟨[], by simp⟩
      next =>
        cases h
        exact ⟨[], by simp⟩

theorem sendDone_key (w : SendWqe) : (sendDone id status w).key = w.key := by
  unfold sendDone
  split <;> rfl

theorem sendDone_unsent (w : SendWqe) (h : (sendDone id status w).unsent = true) :
    w.unsent = true := by
  unfold sendDone at h
  split at h
  · simp [Wqe.unsent] at h
  · exact h

theorem Settled.append_init {sq new : List SendWqe} (h : Settled sq)
    (hn : ∀ w ∈ new, w.state = .init) : Settled (sq ++ new) := by
  obtain ⟨sent, toSend, rfl, hs, hu⟩ := h
  refine ⟨sent, toSend ++ new, by simp, hs, fun w hw => ?_⟩
  rcases List.mem_append.mp hw with hw | hw
  · exact hu w hw
  · exact Wqe.unsent_iff.mpr (Or.inl (hn w hw))

/-- The reported WQE is one of those that have been sent. -/
theorem Settled.mark {sq : List SendWqe} (h : Settled sq) (hs : (sq.map Wqe.id).Pairwise (· < ·))
    (hr : Running sq id) : Settled (sq.map (sendDone id status)) := by
  obtain ⟨sent, toSend, rfl, hsent, hu⟩ := h
  obtain ⟨w, hw, hid, hrun⟩ := hr
  have hws : w ∈ sent := by
    rcases List.mem_append.mp hw with hw | hw
    · exact hw
    · have := Wqe.unsent_iff.mp (hu w hw)
      simp [hrun] at this
  rw [List.map_append, List.pairwise_append] at hs
  have htail : toSend.map (sendDone id status) = toSend := by
    refine (List.map_congr_left fun v hv => ?_).trans (List.map_id toSend)
    have hlt := hs.2.2 w.id (List.mem_map_of_mem hws) v.id (List.mem_map_of_mem hv)
    have hne : v.id ≠ id := by omega
    simp [sendDone, hne]
  refine ⟨sent.map (sendDone id status), toSend, ?_, fun v hv => ?_, hu⟩
  · rw [List.map_append, htail]
  · obtain ⟨u, hu', rfl⟩ := List.mem_map.mp hv
    unfold sendDone
    split
    · exact Or.inr rfl
    · exact hsent u hu'

/-- A pass under the queue's lock, whatever was done to the queue before it. -/
theorem passSendQueue_spec {posted : List (Nat × SendWr)} {es es' : List SendEvent}
    (hq : QueueInv qp.sigAllWr base posted qp.sq qp.scq.entries es) (hs : Settled qp.sq)
    (ha : ∀ id, env.cqeAlloc id = true) (h : passSendQueue qp env = some (qp', es')) :
    qp'.nextWqe = qp.nextWqe ∧ qp'.sigAllWr = qp.sigAllWr ∧
    ((∀ e ∈ es', e.InOrder) → PassInOrder env.transport qp.sq) ∧
    (PassInOrder env.transport qp.sq →
      QueueInv qp.sigAllWr base posted qp'.sq qp'.scq.entries (es ++ es') ∧ Settled qp'.sq) := by
  obtain ⟨r, hr, h⟩ := Option.bind_eq_some_iff.mp h
  cases Option.some.inj h
  obtain ⟨sent, toSend, he, hsent, hu⟩ := hs
  unfold bgvrnicProcessSendWqes at hr
  have hso := hq.sendable
  rw [he] at hr hso hq
  refine ⟨rfl, rfl, ?_, ?_⟩
  · rw [he]
    exact passInOrder_of_processSendFrom hso hsent hu hr
  · rw [he, passInOrder_iff hsent hu]
    intro ho
    refine processSendFrom_settled ha rfl ?_ hsent hu ho hr
    rw [List.append_nil]
    exact hq

def SendInput.InOrder (s : SendRun) (i : SendInput) : Prop :=
  PassInOrder i.outcomes (i.passQueue s.qp)

theorem SendInv.step_postSend (h : SendInv base s)
    (hs : s.step (.postSend reqs env) = some s') :
    ((∀ e ∈ s'.events, e.InOrder) → SendInput.InOrder s (.postSend reqs env)) ∧
    (SendInput.InOrder s (.postSend reqs env) → SendInv base s') := by
  obtain ⟨⟨qp, es, rc, bad⟩, hp, hs⟩ := Option.bind_eq_some_iff.mp hs
  cases Option.some.inj hs
  unfold bgvrnicPostSend at hp
  unfold SendInput.InOrder SendInput.passQueue postedBy
  by_cases hst : s.qp.qpState = .rts
  · rw [if_neg (by simp [hst])] at hp
    simp only [hst, if_true]
    cases hq : queueSendWrs s.qp reqs with
    | mk qp₁ e =>
      obtain ⟨new, hsq, hnew, hsorted, hids, hle, hsig, hcq⟩ := queueSendWrs_spec hq
      have hdrop : qp₁.sq.drop s.qp.sq.length = new := by rw [hsq, List.drop_left]
      have hin : QueueInv qp₁.sigAllWr base (s.posted ++ new.map Wqe.key) qp₁.sq
          qp₁.scq.entries s.events := by
        rw [hsig, hsq, hcq]
        refine h.queue.enqueue (fun w hw => (hnew w hw).2) hsorted fun i hi w hw => ?_
        have := h.fresh i hi
        have := (hids w hw).1
        omega
      have hset : Settled qp₁.sq := by
        rw [hsq]
        exact h.settled.append_init fun w hw => (hnew w hw).1
      have hfresh : ∀ i ∈ (s.posted ++ new.map Wqe.key).map Prod.fst, i < qp₁.nextWqe := by
        intro i hi
        rw [List.map_append] at hi
        rcases List.mem_append.mp hi with hi | hi
        · have := h.fresh i hi
          omega
        · obtain ⟨w, hw, rfl⟩ : ∃ w ∈ new, w.id = i := by simpa [Wqe.key] using hi
          exact (hids w hw).2
      rw [hq] at hp
      simp only [hdrop]
      cases e with
      | out rc bad =>
        cases Option.some.inj hp
        refine ⟨fun _ => by simp [PassInOrder, InOrderOutcomes], fun _ => ⟨?_, hset, hfresh⟩⟩
        simpa using hin
      | pass rc bad =>
        obtain ⟨⟨qp₂, es₂⟩, hpass, hp⟩ := Option.bind_eq_some_iff.mp hp
        cases Option.some.inj hp
        obtain ⟨hnext, hsig₂, hout, hkeep⟩ := passSendQueue_spec hin hset (fun _ => rfl) hpass
        refine ⟨fun hev => hout fun e he => hev e (List.mem_append_right _ he), fun ho => ?_⟩
        obtain ⟨hq₂, hset₂⟩ := hkeep ho
        refine ⟨?_, hset₂, ?_⟩
        · dsimp only
          rw [hsig₂]
          exact hq₂
        · dsimp only
          rw [hnext]
          exact hfresh
  · rw [if_pos hst] at hp
    cases Option.some.inj hp
    simp only [hst, if_false]
    refine ⟨fun _ => by simp [PassInOrder, InOrderOutcomes], fun _ => ?_⟩
    simpa using h

theorem SendInv.step_statusCb (h : SendInv base s)
    (hs : s.step (.statusCb id status env) = some s') :
    ((∀ e ∈ s'.events, e.InOrder) → SendInput.InOrder s (.statusCb id status env)) ∧
    (SendInput.InOrder s (.statusCb id status env) → SendInv base s') := by
  unfold SendRun.step at hs
  dsimp only at hs
  split at hs
  next hr =>
    obtain ⟨⟨qp, es⟩, hpass, hs⟩ := Option.bind_eq_some_iff.mp hs
    cases Option.some.inj hs
    have hmark := h.queue.mark (f := sendDone id status) sendDone_key sendDone_unsent
    obtain ⟨hnext, hsig, hout, hkeep⟩ := passSendQueue_spec hmark
      (h.settled.mark h.queue.ids_sorted hr) (fun _ => rfl) hpass
    refine ⟨fun hev => hout fun e he => hev e (List.mem_append_right _ he), fun ho => ?_⟩
    obtain ⟨hq, hset⟩ := hkeep ho
    refine ⟨?_, hset, ?_⟩
    · dsimp only at hsig ⊢
      rw [hsig]
      exact hq
    · dsimp only at hnext ⊢
      rw [hnext]
      exact h.fresh
  next => cases hs

/-- A freshly created queue pair, on a completion queue that may be in use already. -/
def SendRun.start (qp : VrnicQp) : SendRun := ⟨{ qp with sq := [] }, [], []⟩

theorem sendInv_start (qp : VrnicQp) : SendInv qp.scq.entries (SendRun.start qp) where
  queue :=
    { sendable := by simp [SendRun.start]
      sorted := List.Pairwise.nil
      retired := ⟨[], rfl, rfl⟩
      entries := by simp [SendRun.start, completions]
      inOrder := by simp [SendRun.start]
      sentSorted := List.Pairwise.nil
      sentBefore := by simp [SendRun.start, sentIds]
      sentPosted := by simp [SendRun.start, sentIds] }
  settled := ⟨[], [], rfl, by simp, by simp⟩
  fresh := by simp [SendRun.start]

/-- Work requests are sent and completed in order all along a run exactly if the transport's answers
keep every pass in order; the code itself does not stop at the first WQE that is not complete. -/
theorem sends_in_order_iff (qp : VrnicQp) (is : List SendInput) :
    Runs.Always SendRun.step (SendsInOrder qp.scq.entries) (SendRun.start qp) is ↔
      Runs.Meets SendRun.step SendInput.InOrder (SendRun.start qp) is := by
  refine Runs.always_iff_meets (fun s h => h.sendsInOrder) ?_ ?_ (sendInv_start qp)
  · intro s i s' h hi hs
    cases i with
    | postSend reqs env => exact (h.step_postSend hs).2 hi
    | statusCb id status env => exact (h.step_statusCb hs).2 hi
  · intro s i s' h hs hp
    cases i with
    | postSend reqs env => exact (h.step_postSend hs).1 hp.inOrder
    | statusCb id status env => exact (h.step_statusCb hs).1 hp.inOrder

/-- A connected queue pair with one registered page, and two signaled sends out of that page. -/
def pageQp : VrnicQp :=
  { qpNum := 1, nextWqe := 0, qpState := .rts, sigAllWr := true, maxRecvSge := 4, sq := []
    rq := [], scq := ⟨[], false, 0⟩, rcq := ⟨[], false, 0⟩ }

def twoSends : List SendRequest :=
  [⟨⟨10, [⟨0, 64, 1⟩], .send, true, false, 0, 0, 0⟩, true⟩,
    ⟨⟨11, [⟨64, 64, 1⟩], .send, true, false, 0, 0, 0⟩, true⟩]

/-- The transport is out of packet buffers for the first call of a pass only. -/
def busyFirst : SendEnv :=
  { mrs := fun k => if k = 1 then some ⟨0, 4096, [⟨0x10000, 4096⟩]⟩ else none
    stack := fun _ => ⟨0, 0, 0, 0, 0, 0, 0, 0, fun _ => ⟨0, 0⟩⟩
    transport := fun id => if id = 0 then -EBUSY else 0
    cqeAlloc := fun _ => true }

theorem busy_send_overtaken :
    ¬ ∀ (qp : VrnicQp) (is : List SendInput),
      Runs.Always SendRun.step (SendsInOrder qp.scq.entries) (SendRun.start qp) is := by
  intro h
  have ha := (h pageQp [.postSend twoSends busyFirst]).2 _ rfl
  have hin := ha.head.inOrder (.completed 1 _ [.wait]) (by
    exact List.mem_cons_of_mem _ (List.mem_cons_of_mem _ (List.mem_cons_self ..)))
  exact hin.1 (by simp)

end BgqVrnic
