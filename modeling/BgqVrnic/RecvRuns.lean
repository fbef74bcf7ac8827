import BgqVrnic.RecvReport
import Mathlib.Data.List.Nodup

namespace BgqVrnic

/-- A queue pair with the history of its receive queue: which message used up a WQE, the status
delivered for it, and the WQEs reported on with the CQEs appended for them. -/
structure RecvRun where
  qp : VrnicQp
  taken : Nat → Option Arrival
  delivered : Nat → Option Int
  reported : List (RecvWqe × List IbWc)

inductive RecvInput
  | postRecv (reqs : List RecvRequest)
  | message (msg : DataMsg) (env : RecvEnv)
  | statusCb (id : Nat) (status : Int) (env : RecvEnv)

def RecvRunning (rq : List RecvWqe) (id : Nat) : Prop := ∃ w ∈ rq, w.id = id ∧ w.state = .run

instance (rq : List RecvWqe) (id : Nat) : Decidable (RecvRunning rq id) :=
  inferInstanceAs (Decidable (∃ w ∈ rq, w.id = id ∧ w.state = .run))

def RecvRun.step (s : RecvRun) : RecvInput → Option RecvRun
  | .postRecv reqs => some { s with qp := (bgvrnicPostRecv s.qp reqs).1 }
  | .message msg env => do
    let (qp, id, reported) ← muRecvData s.qp env msg
    some { s with
      qp := qp
      taken := match id with
        | some id => Function.update s.taken id (some ⟨msg, env.rdmaRead⟩)
        | none => s.taken
      reported := s.reported ++ reported }
  | .statusCb id status env =>
    if RecvRunning s.qp.rq id then do
      let (qp, reported) ← muStatusRecv s.qp id status env
      some { s with
        qp := qp
        delivered := Function.update s.delivered id (some status)
        reported := s.reported ++ reported }
    else none

/-- A used-up WQE agrees with its message, and nothing was delivered for one that does not wait. -/
def UsedUp (taken : Nat → Option Arrival) (delivered : Nat → Option Int) (w : RecvWqe) : Prop :=
  ∃ a, taken w.id = some a ∧ Received a w ∧ (w.state = .run → a.pending = true) ∧
    (a.pending = false → delivered w.id = none)

/-- A WQE on the receive queue is unused, or used up by its message. -/
def RecvWqeInv (taken : Nat → Option Arrival) (delivered : Nat → Option Int) (w : RecvWqe) : Prop :=
  (w.state = .init ∧ w.status = 0 ∧ w.immData = 0 ∧ delivered w.id = none) ∨
    (w.state ≠ .init ∧ UsedUp taken delivered w)

structure RecvInv (s : RecvRun) : Prop where
  wqes : ∀ w ∈ s.qp.rq, RecvWqeInv s.taken s.delivered w
  reports : ∀ r ∈ s.reported, UsedUp s.taken s.delivered r.1 ∧
    ∀ wc ∈ r.2, wc = cqeOf s.qp.qpNum r.1 r.1.wr.wrId .recv
  ids : (s.reported.map (fun r => r.1.id) ++ s.qp.rq.map Wqe.id).Nodup
  fresh : ∀ w ∈ s.qp.rq, w.id < s.qp.nextWqe
  past : ∀ r ∈ s.reported, r.1.id < s.qp.nextWqe
  unseen : ∀ id, s.qp.nextWqe ≤ id → s.delivered id = none

variable {s s' : RecvRun} {taken taken' : Nat → Option Arrival} {delivered delivered' : Nat → Option Int}
variable {env : RecvEnv} {msg : DataMsg} {rq rq' : List RecvWqe} {w : RecvWqe} {id : Nat}
variable {qpNum : Nat} {p p' : RecvPass} {reqs : List RecvRequest} {qp qp' : VrnicQp} {status : Int}

theorem UsedUp.congr (h : UsedUp taken delivered w) (ht : taken' w.id = taken w.id)
    (hd : delivered' w.id = delivered w.id) : UsedUp taken' delivered' w := by
  obtain ⟨a, ha, hr, hp, hn⟩ := h
  exact ⟨a, ht.trans ha, hr, hp, fun hf => hd.trans (hn hf)⟩

theorem RecvWqeInv.congr (h : RecvWqeInv taken delivered w) (ht : taken' w.id = taken w.id)
    (hd : delivered' w.id = delivered w.id) : RecvWqeInv taken' delivered' w := by
  rcases h with ⟨hs, h0, hi, hn⟩ | ⟨hs, hu⟩
  · exact Or.inl ⟨hs, h0, hi, hd.trans hn⟩
  · exact Or.inr ⟨hs, hu.congr ht hd⟩

theorem addRecvCqe_appended {cq : VrnicCq} {alloc : Bool} {wc : IbWc}
    (h : wc ∈ (addRecvCqe cq qpNum w alloc).1.entries.drop cq.entries.length) :
    wc = cqeOf qpNum w w.wr.wrId .recv := by
  unfold addRecvCqe at h
  split at h
  · simpa [push_entries] using h
  · simp at h

/-- A pass reports a part of the queue from its front, and every WQE of that part with its CQE. -/
theorem processRecvFrom_spec (h : processRecvFrom qpNum env rq p = some (rq', p')) :
    ∃ front, rq = front.map Prod.fst ++ rq' ∧ p'.reported = p.reported ++ front ∧
      ∀ r ∈ front, r.1.state = .done ∧ ∀ wc ∈ r.2, wc = cqeOf qpNum r.1 r.1.wr.wrId .recv := by
  induction rq generalizing p with
  | nil =>
    cases Option.some.inj h
    exact ⟨[], by simp⟩
  | cons w rq ih =>
    unfold processRecvFrom at h
    split at h
    next hs =>
      obtain ⟨front, hrq, hrep, hf⟩ := ih h
      refine ⟨(w, (addRecvCqe p.rcq qpNum w (env.cqeAlloc w.id)).1.entries.drop
        p.rcq.entries.length) :: front, by simp [hrq], by simp [hrep], fun r hr => ?_⟩
      rcases List.mem_cons.mp hr with rfl | hr
      · exact ⟨hs, fun wc hwc => addRecvCqe_appended hwc⟩
      · exact hf r hr
    next =>
      cases Option.some.inj h
      exact ⟨[], by simp⟩
    next =>
      cases Option.some.inj h
      exact ⟨[], by simp⟩
    next => cases h

theorem takeBuffer_spec {found : Option Nat} (h : takeBuffer env msg rq = some (rq', found)) :
    (found = none ∧ rq' = rq ∧ ∀ v ∈ rq, v.state ≠ .init) ∨ ∃ before w w' after,
      rq = before ++ w :: after ∧ rq' = before ++ w' :: after ∧ found = some w.id ∧
      w.state = .init ∧ receiveInto env w msg = some w' ∧ ∀ v ∈ before, v.state ≠ .init := by
  induction rq generalizing rq' found with
  | nil =>
    cases Option.some.inj h
    exact Or.inl ⟨rfl, rfl, by simp⟩
  | cons w rq ih =>
    unfold takeBuffer at h
    split at h
    next hs =>
      obtain ⟨w', hw, h⟩ := Option.bind_eq_some_iff.mp h
      cases Option.some.inj h
      exact Or.inr ⟨[], w, w', rq, rfl, rfl, rfl, hs, hw, by simp⟩
    next hs =>
      obtain ⟨⟨rest, f⟩, hr, h⟩ := Option.bind_eq_some_iff.mp h
      cases Option.some.inj h
      rcases ih hr with ⟨hf, hq, hno⟩ | ⟨before, v, v', after, hq, hq', hf, hv, hrec, hno⟩
      · refine Or.inl ⟨hf, by rw [hq], ?_⟩
        intro u hu
        rcases List.mem_cons.mp hu with rfl | hu
        · exact hs
        · exact hno u hu
      · refine Or.inr ⟨w :: before, v, v', after, by simp [hq], by simp [hq'], hf, hv, hrec, ?_⟩
        intro u hu
        rcases List.mem_cons.mp hu with rfl | hu
        · exact hs
        · exact hno u hu

/-- A pass over the receive queue of a state whose WQEs are all accounted for. -/
theorem RecvInv.pass {reported : List (RecvWqe × List IbWc)} (h : RecvInv s)
    (hp : bgvrnicProcessRecvWqes s.qp env = some (qp', reported)) :
    RecvInv { s with qp := qp', reported := s.reported ++ reported } := by
  obtain ⟨⟨rq', p'⟩, hproc, hp⟩ := Option.bind_eq_some_iff.mp hp
  cases Option.some.inj hp
  obtain ⟨front, hrq, hrep, hf⟩ := processRecvFrom_spec hproc
  have hrep' : p'.reported = front := by simpa using hrep
  have hmem : ∀ w ∈ rq', w ∈ s.qp.rq := fun w hw => by
    rw [hrq]
    exact List.mem_append_right _ hw
  have hfront : ∀ r ∈ front, r.1 ∈ s.qp.rq := fun r hr => by
    rw [hrq]
    exact List.mem_append_left _ (List.mem_map_of_mem hr)
  refine ⟨fun w hw => h.wqes w (hmem w hw), fun r hr => ?_, ?_, fun w hw => h.fresh w (hmem w hw),
    fun r hr => ?_, h.unseen⟩
  · rcases List.mem_append.mp hr with hr | hr
    · exact h.reports r hr
    · rw [hrep'] at hr
      obtain ⟨hdone, hwc⟩ := hf r hr
      rcases h.wqes r.1 (hfront r hr) with ⟨hs, -⟩ | ⟨-, hu⟩
      · rw [hdone] at hs
        cases hs
      · exact ⟨hu, hwc⟩
  · have hids := h.ids
    rw [hrq] at hids
    simpa [hrep', List.append_assoc, Function.comp_def] using hids
  · rcases List.mem_append.mp hr with hr | hr
    · exact h.past r hr
    · rw [hrep'] at hr
      exact h.fresh r.1 (hfront r hr)

theorem queueRecvWrs_spec (qp : VrnicQp) (reqs : List RecvRequest) :
    ∃ new, (queueRecvWrs qp reqs).1.rq = qp.rq ++ new ∧
      (∀ w ∈ new, w.state = .init ∧ w.status = 0 ∧ w.immData = 0 ∧
        qp.nextWqe ≤ w.id ∧ w.id < (queueRecvWrs qp reqs).1.nextWqe) ∧
      (new.map Wqe.id).Pairwise (· < ·) ∧ qp.nextWqe ≤ (queueRecvWrs qp reqs).1.nextWqe ∧
      (queueRecvWrs qp reqs).1.qpNum = qp.qpNum ∧ (queueRecvWrs qp reqs).1.rcq = qp.rcq := by
  induction reqs generalizing qp with
  | nil => exact ⟨[], by simp [queueRecvWrs]⟩
  | cons r reqs ih =>
    unfold queueRecvWrs
    split
    next => exact ⟨[], by simp⟩
    next =>
      split
      next =>
        obtain ⟨new, hrq, hnew, hsorted, hle, hqn, hcq⟩ := ih { qp with
          nextWqe := qp.nextWqe + 1
          rq := qp.rq ++ [allocRecvWqe qp.nextWqe r.wr] }
        dsimp only at hrq hnew hle hqn hcq
        refine ⟨allocRecvWqe qp.nextWqe r.wr :: new, by simp [hrq], fun w hw => ?_, ?_, by omega, hqn, hcq⟩
        · rcases List.mem_cons.mp hw with rfl | hw
          · exact ⟨rfl, rfl, rfl, Nat.le_refl _, hle⟩
          · obtain ⟨hs, h0, hi, hge, hlt⟩ := hnew w hw
            exact ⟨hs, h0, hi, by omega, hlt⟩
        · refine List.pairwise_cons.mpr ⟨fun i hm => ?_, hsorted⟩
          obtain ⟨w, hw, rfl⟩ := List.mem_map.mp hm
          have hge := (hnew w hw).2.2.2.1
          exact hge
      next => exact ⟨[], by simp⟩

theorem RecvInv.postRecv (h : RecvInv s) :
    RecvInv { s with qp := (bgvrnicPostRecv s.qp reqs).1 } := by
  unfold bgvrnicPostRecv
  split
  next => exact h
  next =>
    obtain ⟨new, hrq, hnew, hsorted, hle, hqn, -⟩ := queueRecvWrs_spec s.qp reqs
    have hnd : (new.map Wqe.id).Nodup := hsorted.imp Nat.ne_of_lt
    refine ⟨fun w hw => ?_, fun r hr => ?_, ?_, fun w hw => ?_, fun r hr => ?_, fun id hid => ?_⟩
    · dsimp only at hw
      rw [hrq] at hw
      rcases List.mem_append.mp hw with hw | hw
      · exact h.wqes w hw
      · obtain ⟨hs, h0, hi, hge, -⟩ := hnew w hw
        exact Or.inl ⟨hs, h0, hi, h.unseen w.id hge⟩
    · dsimp only
      rw [hqn]
      exact h.reports r hr
    · dsimp only
      rw [hrq, List.map_append, ← List.append_assoc]
      refine List.nodup_append.mpr ⟨h.ids, hnd, fun i hi j hn => ?_⟩
      rintro rfl
      obtain ⟨w, hw, rfl⟩ := List.mem_map.mp hn
      have hge := (hnew w hw).2.2.2.1
      rcases List.mem_append.mp hi with hi | hi
      · obtain ⟨r, hr, he⟩ := List.mem_map.mp hi
        have := h.past r hr
        omega
      · obtain ⟨v, hv, he⟩ := List.mem_map.mp hi
        have := h.fresh v hv
        omega
    · dsimp only at hw ⊢
      rw [hrq] at hw
      rcases List.mem_append.mp hw with hw | hw
      · have := h.fresh w hw
        omega
      · exact (hnew w hw).2.2.2.2
    · have := h.past r hr
      dsimp only
      omega
    · dsimp only at hid
      exact h.unseen id (by omega)

/-- Ids of reported WQEs are not on the queue any more. -/
theorem RecvInv.reported_ne (h : RecvInv s) (hw : w ∈ s.qp.rq) {r : RecvWqe × List IbWc}
    (hr : r ∈ s.reported) : r.1.id ≠ w.id := by
  intro he
  have hd := (List.nodup_append.mp h.ids).2.2
  exact hd r.1.id (List.mem_map_of_mem hr) w.id (List.mem_map_of_mem hw) he

theorem RecvInv.wqe_unique (h : RecvInv s) {v : RecvWqe} (hv : v ∈ s.qp.rq) (hw : w ∈ s.qp.rq)
    (he : v.id = w.id) : v = w :=
  List.inj_on_of_nodup_map (List.nodup_append.mp h.ids).2.1 hv hw he

/-- The state between a message's use of its WQE and the pass over the queue. -/
theorem RecvInv.take {before after : List RecvWqe} {w' : RecvWqe} (h : RecvInv s)
    (hrq : s.qp.rq = before ++ w :: after) (hs : w.state = .init)
    (hrec : receiveInto env w msg = some w') :
    RecvInv { s with
      qp := { s.qp with rq := before ++ w' :: after }
      taken := Function.update s.taken w.id (some ⟨msg, env.rdmaRead⟩) } := by
  have hwm : w ∈ s.qp.rq := by rw [hrq]; simp
  obtain ⟨h0, hi, hn⟩ : w.status = 0 ∧ w.immData = 0 ∧ s.delivered w.id = none := by
    rcases h.wqes w hwm with ⟨-, h0, hi, hn⟩ | ⟨hne, -⟩
    · exact ⟨h0, hi, hn⟩
    · exact absurd hs hne
  obtain ⟨hid, hwr, hst, hr⟩ := receiveInto_spec h0 hi hrec
  have hids := h.ids
  rw [hrq, List.map_append, List.map_cons] at hids
  have hother : ∀ v ∈ before ++ after, v.id ≠ w.id := fun v hv he => by
    have hq := List.nodup_middle.mp (List.nodup_append.mp hids).2.1
    refine (List.nodup_cons.mp hq).1 ?_
    rw [← List.map_append, ← he]
    exact List.mem_map_of_mem hv
  have hused : UsedUp (Function.update s.taken w.id (some ⟨msg, env.rdmaRead⟩)) s.delivered w' := by
    refine ⟨⟨msg, env.rdmaRead⟩, by rw [hid, Function.update_self], hr, hst.2, fun _ => ?_⟩
    rw [hid]
    exact hn
  have hmem : ∀ v ∈ before ++ w' :: after, v = w' ∨ v ∈ before ++ after := fun v hv => by
    simpa [or_left_comm] using hv
  have hold : ∀ v ∈ before ++ after, v ∈ s.qp.rq := fun v hv => by
    rw [hrq]
    rcases List.mem_append.mp hv with hv | hv <;> simp [hv]
  refine ⟨fun v hv => ?_, fun r hr => ?_, ?_, fun v hv => ?_, h.past, h.unseen⟩
  · rcases hmem v hv with rfl | hv
    · exact Or.inr ⟨hst.1, hused⟩
    · exact (h.wqes v (hold v hv)).congr (Function.update_of_ne (hother v hv) _ _) rfl
  · obtain ⟨hu, hwc⟩ := h.reports r hr
    exact ⟨hu.congr (Function.update_of_ne (h.reported_ne hwm hr) _ _) rfl, hwc⟩
  · dsimp only
    rw [List.map_append, List.map_cons, hid]
    exact hids
  · rcases hmem v hv with rfl | hv
    · rw [hid]
      exact h.fresh w hwm
    · exact h.fresh v (hold v hv)

/-- The state between a reported status and the pass over the queue. -/
theorem RecvInv.deliver (h : RecvInv s) (hr : RecvRunning s.qp.rq id) :
    RecvInv { s with
      qp := { s.qp with rq := s.qp.rq.map (recvDone id status) }
      delivered := Function.update s.delivered id (some status) } := by
  obtain ⟨w, hw, hid, hrun⟩ := hr
  have hwid : ∀ v, (recvDone id status v).id = v.id := fun v => by
    unfold recvDone
    split <;> rfl
  refine ⟨fun v hv => ?_, fun r hr => ?_, ?_, fun v hv => ?_, h.past, fun i hi => ?_⟩
  · obtain ⟨u, hu, rfl⟩ := List.mem_map.mp hv
    by_cases he : u.id = id
    · have huw : u = w := h.wqe_unique hu hw (he.trans hid.symm)
      subst huw
      rcases h.wqes u hu with ⟨hs, -⟩ | ⟨-, a, ha, hrec, hp, hn⟩
      · rw [hrun] at hs
        cases hs
      · have hst : ¬ u.status < 0 := hrec.status_nonneg
        have hud : recvDone id status u = { u with state := .done } := by
          simp [recvDone, he, hst]
        rw [hud]
        refine Or.inr ⟨by simp, a, ha, ⟨hrec.length, hrec.status, hrec.immData⟩, by simp, ?_⟩
        intro hf
        rw [hp hrun] at hf
        cases hf
    · have hud : recvDone id status u = u := by simp [recvDone, he]
      rw [hud]
      exact (h.wqes u hu).congr rfl (Function.update_of_ne he _ _)
  · obtain ⟨hu, hwc⟩ := h.reports r hr
    refine ⟨hu.congr rfl (Function.update_of_ne ?_ _ _), hwc⟩
    rw [← hid]
    exact h.reported_ne hw hr
  · have hm : (s.qp.rq.map (recvDone id status)).map Wqe.id = s.qp.rq.map Wqe.id := by
      rw [List.map_map]
      exact List.map_congr_left fun v _ => hwid v
    dsimp only
    rw [hm]
    exact h.ids
  · obtain ⟨u, hu, rfl⟩ := List.mem_map.mp hv
    rw [hwid]
    exact h.fresh u hu
  · have hlt := h.fresh w hw
    dsimp only at hi ⊢
    rw [Function.update_of_ne (by omega)]
    exact h.unseen i hi

theorem RecvInv.step (h : RecvInv s) {i : RecvInput} (hs : s.step i = some s') : RecvInv s' := by
  cases i with
  | postRecv reqs =>
    cases Option.some.inj hs
    exact h.postRecv
  | message msg env =>
    obtain ⟨⟨qp, id, reported⟩, hm, hs⟩ := Option.bind_eq_some_iff.mp hs
    cases Option.some.inj hs
    obtain ⟨⟨rq, found⟩, ht, hm⟩ := Option.bind_eq_some_iff.mp hm
    rcases takeBuffer_spec ht with ⟨hf, hq, -⟩ | ⟨before, w, w', after, hq, hq', hf, hws, hrec, -⟩
    · subst hf
      cases Option.some.inj hm
      simpa using h
    · subst hf
      obtain ⟨⟨qp₁, reported₁⟩, hp, hm⟩ := Option.bind_eq_some_iff.mp hm
      cases Option.some.inj hm
      rw [hq'] at hp
      exact (h.take hq hws hrec).pass hp
  | statusCb id status env =>
    unfold RecvRun.step at hs
    dsimp only at hs
    split at hs
    next hr =>
      obtain ⟨⟨qp, reported⟩, hp, hs⟩ := Option.bind_eq_some_iff.mp hs
      cases Option.some.inj hs
      exact (h.deliver hr).pass hp
    next => cases hs

def RecvRun.start (qp : VrnicQp) : RecvRun :=
  ⟨{ qp with rq := [] }, fun _ => none, fun _ => none, []⟩

theorem recvInv_start (qp : VrnicQp) : RecvInv (RecvRun.start qp) where
  wqes := by simp [RecvRun.start]
  reports := by simp [RecvRun.start]
  ids := by simp [RecvRun.start]
  fresh := by simp [RecvRun.start]
  past := by simp [RecvRun.start]
  unseen _ _ := rfl

/-- In every run, a CQE on the receive queue tells the truth about the message that used up its WQE
exactly under the condition. -/
theorem recv_report_iff {is : List RecvInput} {r : RecvWqe × List IbWc} {wc : IbWc}
    (h : Runs.run RecvRun.step (RecvRun.start qp) is = some s) (hr : r ∈ s.reported)
    (hwc : wc ∈ r.2) :
    ∃ a, s.taken r.1.id = some a ∧
      (ReportsReceipt r.1.wr.capacity a (s.delivered r.1.id) wc ↔
        ReceiptKept r.1.wr.capacity a (s.delivered r.1.id)) := by
  have hinv : RecvInv s := Runs.run_preserves (fun _ _ _ hs hi => hs.step hi) (recvInv_start qp) h
  obtain ⟨⟨a, ha, hrec, -, hn⟩, hc⟩ := hinv.reports r hr
  rw [hc wc hwc]
  exact ⟨a, ha, hrec.reports_iff hn _⟩

/-- The states that a receive WQE goes through on the queue. -/
def RecvWqe.Posted (w : RecvWqe) : Prop := w.state = .init ∨ w.state = .run ∨ w.state = .done

theorem processRecvFrom_exists (h : ∀ v ∈ rq, RecvWqe.Posted v) :
    ∃ r, processRecvFrom qpNum env rq p = some r := by
  induction rq generalizing p with
  | nil => exact ⟨_, rfl⟩
  | cons wqe rq ih =>
    unfold processRecvFrom
    rcases h wqe List.mem_cons_self with hs | hs | hs
    · rw [hs]
      exact ⟨_, rfl⟩
    · rw [hs]
      exact ⟨_, rfl⟩
    · rw [hs]
      exact ih fun v hv => h v (List.mem_cons_of_mem _ hv)

/-- The pass over a queue of such WQEs does not come to its `BUG`. -/
theorem bgvrnicProcessRecvWqes_exists (qp : VrnicQp) (env : RecvEnv)
    (h : ∀ w ∈ qp.rq, RecvWqe.Posted w) : ∃ r, bgvrnicProcessRecvWqes qp env = some r := by
  obtain ⟨⟨rq, p⟩, hproc⟩ := processRecvFrom_exists (p := ⟨qp.rcq, []⟩) h
  unfold bgvrnicProcessRecvWqes
  rw [hproc]
  exact ⟨_, rfl⟩

/-- A queue pair on which nothing has been posted yet, and a registered page to receive into. -/
def idleQp : VrnicQp :=
  { qpNum := 1, nextWqe := 0, qpState := .rts, sigAllWr := true, maxRecvSge := 4, sq := []
    rq := [], scq := ⟨[], false, 0⟩, rcq := ⟨[], false, 0⟩ }

def pageRecvEnv (rdmaRead : Int) : RecvEnv :=
  { mrs := fun k => if k = 1 then some ⟨0, 4096, [⟨0x10000, 4096⟩]⟩ else none
    stack := fun _ => ⟨0, 0⟩
    rdmaRead := rdmaRead
    cqeAlloc := fun _ => true }

/-- A remote message of 100 bytes with immediate data 0. -/
def zeroImmMsg : DataMsg :=
  .remote ⟨0, 0, 0, 1, 100, 0, mudmImmediateData, 0, fun _ => ⟨0, 0⟩⟩

/-- The message goes into a buffer of a page, and its transfer fails. -/
def failedReceipt : List RecvInput :=
  [.postRecv [⟨⟨7, [⟨0, 4096, 1⟩]⟩, true⟩], .message zeroImmMsg (pageRecvEnv (-EINPROGRESS)),
    .statusCb 0 5 (pageRecvEnv 0)]

theorem recv_report_iff_failedReceipt :
    ∃ s r wc a, Runs.run RecvRun.step (RecvRun.start idleQp) failedReceipt = some s ∧
      r ∈ s.reported ∧ wc ∈ r.2 ∧ s.taken r.1.id = some a ∧
      (ReportsReceipt r.1.wr.capacity a (s.delivered r.1.id) wc ↔
        ReceiptKept r.1.wr.capacity a (s.delivered r.1.id)) := by
  have hrun : Runs.run RecvRun.step (RecvRun.start idleQp) failedReceipt = some _ := rfl
  obtain ⟨a, ha, h⟩ := recv_report_iff hrun (List.mem_singleton.mpr rfl)
    (List.mem_singleton.mpr rfl)
  exact ⟨_, _, _, a, rfl, List.mem_singleton.mpr rfl, List.mem_singleton.mpr rfl, ha, h⟩

/-- Its CQE reports 4096 bytes and success, and no immediate data. -/
theorem failed_receipt_reported_good :
    ¬ ∀ (qp : VrnicQp) (is : List RecvInput) (s : RecvRun) (r : RecvWqe × List IbWc) (wc : IbWc)
      (a : Arrival), Runs.run RecvRun.step (RecvRun.start qp) is = some s → r ∈ s.reported →
      wc ∈ r.2 → s.taken r.1.id = some a →
      ReportsReceipt r.1.wr.capacity a (s.delivered r.1.id) wc := by
  intro h
  have hr := h idleQp failedReceipt _ _ _ _ rfl (List.mem_singleton.mpr rfl)
    (List.mem_singleton.mpr rfl) rfl
  have hlen : (4096 : Nat) = min 100 4096 := hr.byteLen
  exact absurd hlen (by decide)

end BgqVrnic
