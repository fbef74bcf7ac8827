import BgqVrnic.RecvRuns
import BgqVrnic.SendOrder

namespace BgqVrnic

/-- A queue pair with the history of its receive queue: the WQEs posted, those that messages have
consumed, and those reported on with the CQEs appended for them. -/
structure RecvHistory where
  qp : VrnicQp
  posted : List (Nat × RecvWr)
  consumed : List Nat
  reported : List (RecvWqe × List IbWc)

/-- The requests of a call that come on the queue: none in the states RESET and ERR, and else those before
the first that has too many SGEs or no memory for its WQE. -/
def takenRecvs (qp : VrnicQp) (reqs : List RecvRequest) : List RecvWr :=
  if qp.qpState = .reset ∨ qp.qpState = .err then []
  else (reqs.takeWhile fun r => r.wr.sgList.length ≤ qp.maxRecvSge && r.wqeAlloc).map RecvRequest.wr

/-- Work requests with the WQEs that are allocated for them one after the other. -/
def numbered (next : Nat) (wrs : List RecvWr) : List (Nat × RecvWr) :=
  (List.range' next wrs.length).zip wrs

/-- Memory for every CQE. -/
def RecvEnv.allocating (env : RecvEnv) : RecvEnv := { env with cqeAlloc := fun _ => true }

namespace RecvHistory

variable (s : RecvHistory)

def step : RecvInput → Option RecvHistory
  | .postRecv reqs =>
    some { s with
      qp := (bgvrnicPostRecv s.qp reqs).1
      posted := s.posted ++ numbered s.qp.nextWqe (takenRecvs s.qp reqs) }
  | .message msg env => do
    let (qp, id, reported) ← muRecvData s.qp env.allocating msg
    some { s with
      qp := qp
      consumed := s.consumed ++ id.toList
      reported := s.reported ++ reported }
  | .statusCb id status env =>
    if RecvRunning s.qp.rq id then do
      let (qp, reported) ← muStatusRecv s.qp id status env.allocating
      some { s with
        qp := qp
        reported := s.reported ++ reported }
    else none

def start (qp : VrnicQp) : RecvHistory := ⟨{ qp with rq := [] }, [], [], []⟩

/-- The first WQE posted that no message has consumed, with its work request. -/
def oldest : Option (Nat × RecvWr) := (s.posted.drop s.consumed.length).head?

end RecvHistory

/-- WQEs are consumed in the order they were posted, no one twice; of those, the ones reported on are the
first, with one CQE each on the queue, and all of them once none is running. -/
structure RecvInOrder (base : List IbWc) (s : RecvHistory) : Prop where
  consumed : s.consumed = (s.posted.map Prod.fst).take s.consumed.length
  once : s.consumed.Nodup
  reported : s.reported.map (fun r => r.1.key) = s.posted.take s.reported.length
  used : s.reported.length ≤ s.consumed.length
  oneEach : ∀ r ∈ s.reported, r.2 = [cqeOf s.qp.qpNum r.1 r.1.wr.wrId .recv]
  entries : s.qp.rcq.entries = base ++ s.reported.flatMap Prod.snd
  settled : (∀ w ∈ s.qp.rq, w.state ≠ .run) → s.reported.length = s.consumed.length

/-- A message consumes the oldest WQE that is left, if there is one, and it does so unless its receive ends
in a `BUG`; and every status is taken. -/
structure TakesOldest (s : RecvHistory) : Prop where
  consumes : ∀ msg env s', s.step (.message msg env) = some s' →
    s'.consumed = s.consumed ++ s.oldest.toList.map Prod.fst
  takes : ∀ msg env, (∀ id wr, s.oldest = some (id, wr) →
    receiveInto env.allocating (allocRecvWqe id wr) msg ≠ none) → s.step (.message msg env) ≠ none
  delivers : ∀ id status env, RecvRunning s.qp.rq id → s.step (.statusCb id status env) ≠ none

/-- On the queue, the WQEs that messages have used stand before those that none has. -/
def UsedFirst (rq used unused : List RecvWqe) : Prop :=
  rq = used ++ unused ∧ (∀ w ∈ used, w.state = .done ∨ w.state = .run) ∧
    ∀ w ∈ unused, w.state = .init

structure RecvFits (base : List IbWc) (s : RecvHistory) (used unused : List RecvWqe) : Prop where
  queue : UsedFirst s.qp.rq used unused
  posted : s.posted = s.reported.map (fun r => r.1.key) ++ s.qp.rq.map Wqe.key
  consumed : s.consumed = s.reported.map (fun r => r.1.id) ++ used.map Wqe.id
  sorted : (s.posted.map Prod.fst).Pairwise (· < ·)
  fresh : ∀ i ∈ s.posted.map Prod.fst, i < s.qp.nextWqe
  oneEach : ∀ r ∈ s.reported, r.2 = [cqeOf s.qp.qpNum r.1 r.1.wr.wrId .recv]
  entries : s.qp.rcq.entries = base ++ s.reported.flatMap Prod.snd

/-- Between the calls the first WQE of the queue is not finished. -/
def RecvOrderInv (base : List IbWc) (s : RecvHistory) : Prop :=
  ∃ used unused, RecvFits base s used unused ∧ ∀ w, s.qp.rq.head? = some w → w.state ≠ .done

variable {base : List IbWc} {s s' : RecvHistory} {used unused rq rq' : List RecvWqe} {env : RecvEnv}
variable {qpNum id : Nat} {p p' : RecvPass} {w w' : RecvWqe} {msg : DataMsg} {qp qp' : VrnicQp}
variable {reported : List (RecvWqe × List IbWc)} {status : Int} {i : RecvInput}
variable {reqs : List RecvRequest}

/-- The CQE of a WQE that is reported on. -/
def recvReport (qpNum : Nat) (w : RecvWqe) : RecvWqe × List IbWc :=
  (w, [cqeOf qpNum w w.wr.wrId .recv])

/-- With memory for every CQE, a pass reports each WQE up to the first that is not finished. -/
theorem processRecvFrom_reports (halloc : ∀ id, env.cqeAlloc id = true)
    (h : processRecvFrom qpNum env rq p = some (rq', p')) :
    ∃ front, rq = front ++ rq' ∧ (∀ w ∈ front, w.state = .done) ∧
      p'.reported = p.reported ++ front.map (recvReport qpNum) ∧
      p'.rcq.entries = p.rcq.entries ++ (front.map (recvReport qpNum)).flatMap Prod.snd ∧
      ∀ w, rq'.head? = some w → w.state ≠ .done := by
  induction rq generalizing p with
  | nil =>
    cases Option.some.inj h
    exact ⟨[], by simp⟩
  | cons w rq ih =>
    unfold processRecvFrom at h
    split at h
    next hs =>
      have hadd : (addRecvCqe p.rcq qpNum w (env.cqeAlloc w.id)).1.entries =
          p.rcq.entries ++ [cqeOf qpNum w w.wr.wrId .recv] := by
        rw [halloc]
        rfl
      obtain ⟨front, hrq, hdone, hrep, hentries, hhead⟩ := ih h
      refine ⟨w :: front, by simp [hrq], ?_, ?_, ?_, hhead⟩
      · intro v hv
        rcases List.mem_cons.mp hv with rfl | hv
        · exact hs
        · exact hdone v hv
      · rw [hrep, hadd]
        simp [recvReport]
      · rw [hentries, hadd]
        simp [recvReport]
    next hs =>
      cases Option.some.inj h
      refine ⟨[], rfl, by simp, by simp, by simp, ?_⟩
      intro v hv hdone
      cases Option.some.inj hv
      rw [hs] at hdone
      cases hdone
    next hs =>
      cases Option.some.inj h
      refine ⟨[], rfl, by simp, by simp, by simp, ?_⟩
      intro v hv hdone
      cases Option.some.inj hv
      rw [hs] at hdone
      cases hdone
    next => cases h

/-- What is reported comes from the used part of the queue. -/
theorem UsedFirst.split {front : List RecvWqe} (h : UsedFirst (front ++ rq') used unused)
    (hdone : ∀ w ∈ front, w.state = .done) :
    ∃ used', used = front ++ used' ∧ UsedFirst rq' used' unused := by
  obtain ⟨heq, hused, hinit⟩ := h
  rcases List.append_eq_append_iff.mp heq with ⟨used', rfl, hrq⟩ | ⟨extra, rfl, hun⟩
  · exact ⟨used', rfl, hrq, fun w hw => hused w (List.mem_append_right _ hw), hinit⟩
  · have hnil : extra = [] := by
      cases extra with
      | nil => rfl
      | cons w extra =>
        have hd : w.state = .done := hdone w (by simp)
        have hi : w.state = .init := hinit w (by simp [hun])
        rw [hd] at hi
        cases hi
    subst hnil
    exact ⟨[], by simp, by simpa using hun.symm, by simp, hinit⟩

theorem RecvFits.pass (h : RecvFits base s used unused)
    (hp : bgvrnicProcessRecvWqes s.qp env.allocating = some (qp', reported)) :
    RecvOrderInv base { s with qp := qp', reported := s.reported ++ reported } := by
  obtain ⟨⟨rq', p'⟩, hproc, hp⟩ := Option.bind_eq_some_iff.mp hp
  cases Option.some.inj hp
  obtain ⟨front, hrq, hdone, hrep, hentries, hhead⟩ := processRecvFrom_reports (fun _ => rfl) hproc
  have hqueue := h.queue
  rw [hrq] at hqueue
  obtain ⟨used', rfl, hqueue'⟩ := hqueue.split hdone
  rw [List.nil_append] at hrep
  have hkeys : (front.map (recvReport s.qp.qpNum)).map (fun r => r.1.key) = front.map Wqe.key := by
    rw [List.map_map]
    rfl
  have hids : (front.map (recvReport s.qp.qpNum)).map (fun r => r.1.id) = front.map Wqe.id := by
    rw [List.map_map]
    rfl
  refine ⟨used', unused, ⟨hqueue', ?_, ?_, h.sorted, h.fresh, ?_, ?_⟩, hhead⟩
  · rw [h.posted, hrq, hrep, List.map_append, List.map_append, hkeys, List.append_assoc]
  · rw [h.consumed, hrep, List.map_append, List.map_append, hids, List.append_assoc]
  · intro r hr
    rcases List.mem_append.mp hr with hr | hr
    · exact h.oneEach r hr
    · rw [hrep] at hr
      obtain ⟨w, -, rfl⟩ := List.mem_map.mp hr
      rfl
  · rw [hentries, h.entries, hrep, List.flatMap_append, List.append_assoc]

/-- The WQE that a message uses is finished afterwards, or it runs while the transport works. -/
theorem receiveInto_used (h : receiveInto env w msg = some w') :
    w'.key = w.key ∧
      w'.state = if (⟨msg, env.rdmaRead⟩ : Arrival).pending then .run else .done := by
  cases msg with
  | imm length =>
    obtain ⟨⟨v, copies, rc⟩, hr, rfl⟩ := Option.map_eq_some_iff.mp h
    obtain ⟨x, -, hr⟩ := Option.bind_eq_some_iff.mp hr
    dsimp only at hr
    split at hr
    next => cases hr
    next =>
      obtain ⟨cs, -, hr⟩ := Option.bind_eq_some_iff.mp hr
      cases Option.some.inj hr
      exact ⟨rfl, rfl⟩
  | remote pl =>
    have hpending : (⟨.remote pl, env.rdmaRead⟩ : Arrival).pending =
        decide (env.rdmaRead = -EINPROGRESS) := rfl
    rw [hpending]
    obtain ⟨⟨v, rc⟩, hr, rfl⟩ := Option.map_eq_some_iff.mp h
    obtain ⟨x, -, hr⟩ := Option.bind_eq_some_iff.mp hr
    split at hr
    next => cases hr
    next =>
      unfold settleRecv at hr
      split at hr
      next hrc =>
        cases Option.some.inj hr
        rw [hrc]
        exact ⟨rfl, rfl⟩
      next =>
        split at hr
        next hrc =>
          cases Option.some.inj hr
          rw [hrc]
          exact ⟨rfl, rfl⟩
        next =>
          split at hr
          next hrc =>
            cases Option.some.inj hr
            rw [hrc]
            exact ⟨rfl, rfl⟩
          next => cases hr

theorem receiveInto_done_or_run (h : receiveInto env w msg = some w') :
    w'.state = .done ∨ w'.state = .run := by
  rw [(receiveInto_used h).2]
  split
  · exact Or.inr rfl
  · exact Or.inl rfl

/-- The unused WQE that a message finds is the first behind the used ones. -/
theorem UsedFirst.take {before after : List RecvWqe} (h : UsedFirst (before ++ w :: after) used unused)
    (hw : w.state = .init) (hb : ∀ v ∈ before, v.state ≠ .init)
    (hw' : w'.state = .done ∨ w'.state = .run) :
    used = before ∧ unused = w :: after ∧
      UsedFirst (before ++ w' :: after) (before ++ [w']) after := by
  obtain ⟨heq, hused, hinit⟩ := h
  have hsplit : used = before ∧ unused = w :: after := by
    rcases List.append_eq_append_iff.mp heq with ⟨extra, rfl, hrq⟩ | ⟨extra, rfl, hun⟩
    · cases extra with
      | nil => exact ⟨by simp, by simpa using hrq.symm⟩
      | cons v extra =>
        obtain ⟨rfl, -⟩ := List.cons.inj hrq
        have hv := hused w (by simp)
        rw [hw] at hv
        rcases hv with hv | hv <;> cases hv
    · cases extra with
      | nil => exact ⟨by simp, by simpa using hun⟩
      | cons v extra =>
        have hv : v.state = .init := hinit v (by simp [hun])
        exact absurd hv (hb v (by simp))
  obtain ⟨rfl, rfl⟩ := hsplit
  refine ⟨rfl, rfl, by simp, ?_, fun v hv => hinit v (List.mem_cons_of_mem w hv)⟩
  intro v hv
  rcases List.mem_append.mp hv with hv | hv
  · exact hused v hv
  · rw [List.mem_singleton.mp hv]
    exact hw'

theorem RecvFits.oldest (h : RecvFits base s used unused) :
    s.oldest = (unused.map Wqe.key).head? := by
  have hkeys : s.posted = (s.reported.map (fun r => r.1.key) ++ used.map Wqe.key) ++
      unused.map Wqe.key := by
    rw [h.posted, h.queue.1, List.map_append, List.append_assoc]
  have hlength : s.consumed.length =
      (s.reported.map (fun r => r.1.key) ++ used.map Wqe.key).length := by
    rw [h.consumed]
    simp
  unfold RecvHistory.oldest
  rw [hlength, hkeys, List.drop_left]

/-- With no finished WQE at the front, one that ran is left as long as any used one is. -/
theorem RecvOrderInv.inOrder (h : RecvOrderInv base s) : RecvInOrder base s := by
  obtain ⟨used, unused, h, hhead⟩ := h
  have hids : s.posted.map Prod.fst = s.consumed ++ unused.map Wqe.id := by
    rw [h.posted, h.consumed, h.queue.1]
    simp [Wqe.key, Function.comp_def]
  have hlen : s.consumed.length = s.reported.length + used.length := by
    rw [h.consumed]
    simp
  refine ⟨?_, ?_, ?_, by omega, h.oneEach, h.entries, ?_⟩
  · rw [hids, List.take_left]
  · have hnd : (s.posted.map Prod.fst).Nodup := h.sorted.imp Nat.ne_of_lt
    rw [hids] at hnd
    exact (List.nodup_append.mp hnd).1
  · rw [h.posted, List.take_left' (by simp)]
  · intro hno
    cases used with
    | nil =>
      rw [List.length_nil] at hlen
      omega
    | cons w used =>
      have hw : w ∈ s.qp.rq := by simp [h.queue.1]
      rcases h.queue.2.1 w (by simp) with hs | hs
      · exact absurd hs (hhead w (by simp [h.queue.1]))
      · exact absurd hs (hno w hw)

theorem recvDone_key (v : RecvWqe) : (recvDone id status v).key = v.key := by
  unfold recvDone
  split <;> rfl

/-- The WQEs that a call posts are those of the requests that it takes. -/
theorem queueRecvWrs_numbered (qp : VrnicQp) (reqs : List RecvRequest) :
    ((queueRecvWrs qp reqs).1.rq.drop qp.rq.length).map Wqe.key =
      numbered qp.nextWqe ((reqs.takeWhile fun r =>
        r.wr.sgList.length ≤ qp.maxRecvSge && r.wqeAlloc).map RecvRequest.wr) := by
  induction reqs generalizing qp with
  | nil =>
    rw [queueRecvWrs, List.drop_length]
    rfl
  | cons r reqs ih =>
    unfold queueRecvWrs
    by_cases hlong : qp.maxRecvSge < r.wr.sgList.length
    · rw [if_pos hlong, List.takeWhile_cons_of_neg (by simp [hlong]), List.drop_length]
      rfl
    · rw [if_neg hlong]
      by_cases halloc : r.wqeAlloc = true
      · rw [if_pos halloc, List.takeWhile_cons_of_pos (by simp [halloc, Nat.not_lt.mp hlong])]
        obtain ⟨new, hrq, -⟩ := queueRecvWrs_spec { qp with
          nextWqe := qp.nextWqe + 1
          rq := qp.rq ++ [allocRecvWqe qp.nextWqe r.wr] } reqs
        have hnew := ih { qp with
          nextWqe := qp.nextWqe + 1
          rq := qp.rq ++ [allocRecvWqe qp.nextWqe r.wr] }
        rw [hrq, List.drop_left] at hnew
        rw [hrq, List.append_assoc, List.drop_left, List.map_append, hnew]
        rfl
      · rw [if_neg halloc, List.takeWhile_cons_of_neg (by simp [halloc]), List.drop_length]
        rfl

theorem RecvFits.postRecv (h : RecvFits base s used unused) (hs : s.step (.postRecv reqs) = some s') :
    ∃ new, s'.qp.rq = s.qp.rq ++ new ∧ RecvFits base s' used (unused ++ new) := by
  cases Option.some.inj hs
  unfold bgvrnicPostRecv takenRecvs
  split
  next => exact ⟨[], by simp, by simpa [numbered] using h⟩
  next =>
    obtain ⟨new, hrq, hnew, hsorted, hle, hqn, hcq⟩ := queueRecvWrs_spec s.qp reqs
    have hkeys := queueRecvWrs_numbered s.qp reqs
    rw [hrq, List.drop_left] at hkeys
    have hids : (new.map Wqe.key).map Prod.fst = new.map Wqe.id := by
      rw [List.map_map]
      rfl
    refine ⟨new, hrq, ⟨?_, h.queue.2.1, ?_⟩, ?_, h.consumed, ?_, ?_, ?_, ?_⟩
    · dsimp only
      rw [hrq, h.queue.1, List.append_assoc]
    · intro w hw
      rcases List.mem_append.mp hw with hw | hw
      · exact h.queue.2.2 w hw
      · exact (hnew w hw).1
    · dsimp only
      rw [← hkeys, hrq, List.map_append, ← List.append_assoc, h.posted]
    · dsimp only
      rw [← hkeys, List.map_append, hids]
      refine List.pairwise_append.mpr ⟨h.sorted, hsorted, ?_⟩
      intro i hi j hj
      have hlt := h.fresh i hi
      obtain ⟨w, hw, rfl⟩ := List.mem_map.mp hj
      have hge := (hnew w hw).2.2.2.1
      omega
    · intro i hi
      dsimp only at hi ⊢
      rw [← hkeys, List.map_append, hids] at hi
      rcases List.mem_append.mp hi with hi | hi
      · have hlt := h.fresh i hi
        omega
      · obtain ⟨w, hw, rfl⟩ := List.mem_map.mp hi
        exact (hnew w hw).2.2.2.2
    · dsimp only
      rw [hqn]
      exact h.oneEach
    · dsimp only
      rw [hcq]
      exact h.entries

theorem RecvFits.take {before after : List RecvWqe} (h : RecvFits base s used unused)
    (hrq : s.qp.rq = before ++ w :: after) (hw : w.state = .init)
    (hb : ∀ v ∈ before, v.state ≠ .init) (hrec : receiveInto env w msg = some w') :
    RecvFits base { s with
      qp := { s.qp with rq := before ++ w' :: after }
      consumed := s.consumed ++ [w.id] } (before ++ [w']) after := by
  have hkey := (receiveInto_used hrec).1
  have hqueue := h.queue
  rw [hrq] at hqueue
  obtain ⟨rfl, rfl, hqueue'⟩ := hqueue.take hw hb (receiveInto_done_or_run hrec)
  have hid : w'.id = w.id := congrArg Prod.fst hkey
  refine ⟨hqueue', ?_, ?_, h.sorted, h.fresh, h.oneEach, h.entries⟩
  · dsimp only
    rw [h.posted, hrq, List.map_append, List.map_append, List.map_cons, List.map_cons, hkey]
  · dsimp only
    rw [h.consumed, List.map_append, List.map_singleton, hid, List.append_assoc]

/-- A status reaches the WQE it is for and no other, for the ids on the queue differ. -/
theorem RecvFits.deliver (h : RecvFits base s used unused) (hr : RecvRunning s.qp.rq id) :
    RecvFits base { s with qp := { s.qp with rq := s.qp.rq.map (recvDone id status) } }
      (used.map (recvDone id status)) unused := by
  obtain ⟨w, hw, hid, hrun⟩ := hr
  have hsorted := h.sorted
  rw [h.posted, List.map_append] at hsorted
  have hnd : (s.qp.rq.map Wqe.id).Nodup := by
    have hp := (List.pairwise_append.mp hsorted).2.1.imp Nat.ne_of_lt
    rw [List.map_map] at hp
    exact hp
  have hother : ∀ v ∈ unused, recvDone id status v = v := by
    intro v hv
    unfold recvDone
    split
    next he =>
      have hvq : v ∈ s.qp.rq := by
        rw [h.queue.1]
        exact List.mem_append_right _ hv
      have hvw : v = w := List.inj_on_of_nodup_map hnd hvq hw (he.trans hid.symm)
      have hi := h.queue.2.2 v hv
      rw [hvw, hrun] at hi
      cases hi
    next => rfl
  have hkeys (l : List RecvWqe) : (l.map (recvDone id status)).map Wqe.key = l.map Wqe.key := by
    rw [List.map_map]
    exact List.map_congr_left fun v _ => recvDone_key v
  have hids : (used.map (recvDone id status)).map Wqe.id = used.map Wqe.id := by
    rw [List.map_map]
    exact List.map_congr_left fun v _ => congrArg Prod.fst (recvDone_key v)
  refine ⟨⟨?_, ?_, h.queue.2.2⟩, ?_, ?_, h.sorted, h.fresh, h.oneEach, h.entries⟩
  · dsimp only
    rw [h.queue.1, List.map_append, List.map_congr_left hother, List.map_id']
  · intro v hv
    obtain ⟨u, hu, rfl⟩ := List.mem_map.mp hv
    unfold recvDone
    split
    next => exact Or.inl rfl
    next => exact h.queue.2.1 u hu
  · dsimp only
    rw [hkeys]
    exact h.posted
  · dsimp only
    rw [hids]
    exact h.consumed

theorem RecvFits.message (h : RecvFits base s used unused)
    (hhead : ∀ w, s.qp.rq.head? = some w → w.state ≠ .done)
    (hs : s.step (.message msg env) = some s') :
    RecvOrderInv base s' ∧ s'.consumed = s.consumed ++ s.oldest.toList.map Prod.fst := by
  obtain ⟨⟨qp, id, reported⟩, hm, hs⟩ := Option.bind_eq_some_iff.mp hs
  cases Option.some.inj hs
  obtain ⟨⟨rq, found⟩, ht, hm⟩ := Option.bind_eq_some_iff.mp hm
  rcases takeBuffer_spec ht with ⟨hf, hq, hno⟩ | ⟨before, w, w', after, hq, hq', hf, hws, hrec, hb⟩
  · subst hf
    cases Option.some.inj hm
    have hnil : unused = [] := by
      cases hun : unused with
      | nil => rfl
      | cons v rest =>
        have hv : v ∈ unused := by simp [hun]
        exact absurd (h.queue.2.2 v hv) (hno v (by simp [h.queue.1, hv]))
    refine ⟨⟨used, unused, by simpa using h, hhead⟩, ?_⟩
    rw [h.oldest, hnil]
    rfl
  · subst hf
    obtain ⟨⟨qp₁, reported₁⟩, hp, hm⟩ := Option.bind_eq_some_iff.mp hm
    cases Option.some.inj hm
    rw [hq'] at hp
    refine ⟨(h.take hq hws hb hrec).pass hp, ?_⟩
    have hqueue := h.queue
    rw [hq] at hqueue
    obtain ⟨-, hun, -⟩ := hqueue.take hws hb (receiveInto_done_or_run hrec)
    rw [h.oldest, hun]
    rfl

/-- Whether a message can be received into a WQE is a matter of its work request. -/
theorem receiveInto_none_congr (h : w'.wr = w.wr) :
    receiveInto env w' msg = none ↔ receiveInto env w msg = none := by
  cases msg with
  | imm length =>
    simp only [receiveInto, bgvrnicRecvImmed, h]
    cases bgvrnicXlateSgl env.mrs w.wr.sgList env.stack mudmMaxSge with
    | none => exact Iff.rfl
    | some x =>
      simp only [Option.bind_eq_bind, Option.bind_some]
      split
      · exact Iff.rfl
      · simp [Option.bind_eq_none_iff]
  | remote pl =>
    simp only [receiveInto, bgvrnicRecvRemote, h]
    cases bgvrnicXlateSgl env.mrs w.wr.sgList env.stack mudmMaxSge with
    | none => exact Iff.rfl
    | some x =>
      simp only [Option.bind_eq_bind, Option.bind_some]
      split
      · exact Iff.rfl
      · unfold settleRecv
        split
        · exact iff_of_false (by simp) (by simp)
        · split
          · exact iff_of_false (by simp) (by simp)
          · split
            · exact iff_of_false (by simp) (by simp)
            · exact Iff.rfl

theorem UsedFirst.posted (h : UsedFirst rq used unused) : ∀ w ∈ rq, RecvWqe.Posted w := by
  obtain ⟨rfl, hused, hinit⟩ := h
  intro w hw
  rcases List.mem_append.mp hw with hw | hw
  · exact Or.inr (hused w hw).symm
  · exact Or.inl (hinit w hw)

/-- The search for a buffer ends in a `BUG` only where the receive into the first unused WQE does. -/
theorem UsedFirst.takes (h : UsedFirst rq used unused)
    (hfirst : ∀ w, unused.head? = some w → receiveInto env w msg ≠ none) :
    takeBuffer env msg rq ≠ none := by
  obtain ⟨rfl, hused, hinit⟩ := h
  induction used with
  | nil =>
    cases unused with
    | nil => exact Option.some_ne_none _
    | cons w unused =>
      obtain ⟨w', hw'⟩ := Option.ne_none_iff_exists'.mp (hfirst w rfl)
      rw [List.nil_append, takeBuffer, if_pos (hinit w List.mem_cons_self), hw']
      exact Option.some_ne_none _
  | cons w used ih =>
    have hs : w.state ≠ .init := by
      rcases hused w List.mem_cons_self with hs | hs
      · rw [hs]
        decide
      · rw [hs]
        decide
    obtain ⟨r, hr⟩ := Option.ne_none_iff_exists'.mp
      (ih fun v hv => hused v (List.mem_cons_of_mem w hv))
    rw [List.cons_append, takeBuffer, if_neg hs, hr]
    exact Option.some_ne_none _

theorem RecvFits.takesOldest (h : RecvFits base s used unused)
    (hhead : ∀ w, s.qp.rq.head? = some w → w.state ≠ .done) : TakesOldest s where
  consumes msg env s' hs := (h.message hhead hs).2
  takes msg env hfirst := by
    have hunused : ∀ w, unused.head? = some w → receiveInto env.allocating w msg ≠ none := by
      intro w hw hnone
      have hold : s.oldest = some (w.id, w.wr) := by
        rw [h.oldest, List.head?_map, hw]
        rfl
      apply hfirst w.id w.wr hold
      exact (receiveInto_none_congr (by rfl)).mpr hnone
    obtain ⟨⟨rq, found⟩, htake⟩ := Option.ne_none_iff_exists'.mp (h.queue.takes hunused)
    have hmsg : muRecvData s.qp env.allocating msg ≠ none := by
      unfold muRecvData
      rw [htake]
      cases found with
      | none => exact Option.some_ne_none _
      | some id =>
        rcases takeBuffer_spec htake with ⟨hnone, -⟩ | ⟨before, w, w', after, hq, hq', -, hws, hrec, hb⟩
        · cases hnone
        · have hqueue := h.queue
          rw [hq] at hqueue
          have hposted := (hqueue.take hws hb (receiveInto_done_or_run hrec)).2.2.posted
          rw [← hq'] at hposted
          obtain ⟨r, hr⟩ := bgvrnicProcessRecvWqes_exists { s.qp with rq := rq } env.allocating hposted
          rw [Option.bind_eq_bind, Option.bind_some]
          dsimp only
          rw [hr]
          exact Option.some_ne_none _
    obtain ⟨r, hr⟩ := Option.ne_none_iff_exists'.mp hmsg
    unfold RecvHistory.step
    dsimp only
    rw [hr]
    exact Option.some_ne_none _
  delivers id status env hrun := by
    obtain ⟨r, hr⟩ := bgvrnicProcessRecvWqes_exists
      { s.qp with rq := s.qp.rq.map (recvDone id status) } env.allocating (h.deliver hrun).queue.posted
    unfold RecvHistory.step muStatusRecv
    dsimp only
    rw [if_pos hrun, hr]
    exact Option.some_ne_none _

theorem RecvOrderInv.step (h : RecvOrderInv base s) (hs : s.step i = some s') :
    RecvOrderInv base s' := by
  obtain ⟨used, unused, h, hhead⟩ := h
  cases i with
  | postRecv reqs =>
    obtain ⟨new, hrq, h'⟩ := h.postRecv hs
    refine ⟨used, unused ++ new, h', ?_⟩
    rw [hrq]
    cases hq : s.qp.rq with
    | nil =>
      rw [hq] at hrq
      have hqueue := h'.queue
      have hused : used = [] := by
        have hnil := h.queue.1
        rw [hq] at hnil
        exact (List.append_eq_nil_iff.mp hnil.symm).1
      intro w hw hdone
      have hmem : w ∈ unused ++ new := List.mem_append_right _ (List.mem_of_mem_head? hw)
      have hi := hqueue.2.2 w hmem
      rw [hdone] at hi
      cases hi
    | cons v rest =>
      intro w hw
      rw [hq] at hhead
      exact hhead w hw
  | message msg env => exact (h.message hhead hs).1
  | statusCb id status env =>
    unfold RecvHistory.step at hs
    dsimp only at hs
    split at hs
    next hr =>
      obtain ⟨⟨qp, reported⟩, hp, hs⟩ := Option.bind_eq_some_iff.mp hs
      cases Option.some.inj hs
      exact (h.deliver hr).pass hp
    next => cases hs

theorem recvOrderInv_start (qp : VrnicQp) : RecvOrderInv qp.rcq.entries (RecvHistory.start qp) :=
  ⟨[], [], ⟨⟨rfl, by simp, by simp⟩, rfl, rfl, List.Pairwise.nil, by simp [RecvHistory.start],
    by simp [RecvHistory.start], by simp [RecvHistory.start]⟩, by simp [RecvHistory.start]⟩

/-- In every run a message consumes the oldest WQE that is left, and the WQEs consumed are reported on
in the order they were posted. -/
theorem recv_in_order (qp : VrnicQp) (is : List RecvInput) :
    Runs.Always RecvHistory.step (fun s => RecvInOrder qp.rcq.entries s ∧ TakesOldest s)
      (RecvHistory.start qp) is := by
  have hstep : ∀ s i s', RecvOrderInv qp.rcq.entries s → True → RecvHistory.step s i = some s' →
      RecvOrderInv qp.rcq.entries s' := fun s i s' h _ hs => h.step hs
  have hall : Runs.Always RecvHistory.step (RecvOrderInv qp.rcq.entries) (RecvHistory.start qp) is :=
    Runs.always_of_step hstep (recvOrderInv_start qp)
      (Runs.meets_of_forall (fun _ _ => trivial))
  refine hall.imp fun s h => ⟨h.inOrder, ?_⟩
  obtain ⟨used, unused, h, hhead⟩ := h
  exact h.takesOldest hhead

/-- Two buffers of a page are posted; a remote message runs in the first while an immediate one is received
into the second. -/
def twoReceipts : List RecvInput :=
  [.postRecv [⟨⟨10, [⟨0, 64, 1⟩]⟩, true⟩, ⟨⟨11, [⟨64, 64, 1⟩]⟩, true⟩],
    .message zeroImmMsg (pageRecvEnv (-EINPROGRESS)), .message (.imm 16) (pageRecvEnv 0),
    .statusCb 0 0 (pageRecvEnv 0)]

theorem recv_in_order_two :
    ∃ s, Runs.run RecvHistory.step (RecvHistory.start idleQp) twoReceipts = some s ∧
      s.posted.map Prod.fst = [0, 1] ∧ s.consumed = [0, 1] ∧
      s.qp.rcq.entries.map IbWc.wrId = [10, 11] ∧
      RecvInOrder idleQp.rcq.entries s ∧ TakesOldest s := by
  refine ⟨_, rfl, rfl, rfl, rfl, ?_⟩
  exact (recv_in_order idleQp twoReceipts).last rfl

end BgqVrnic
