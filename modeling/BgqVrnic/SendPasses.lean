import BgqVrnic.SendOrder

namespace BgqVrnic

/-- Between passes the WQEs that have been sent stand before those that are still to be sent. -/
def Settled (sq : List SendWqe) : Prop :=
  ∃ sent toSend, sq = sent ++ toSend ∧ (∀ w ∈ sent, w.state = .run ∨ w.state = .done) ∧
    ∀ w ∈ toSend, w.unsent = true

/-- What the transport's answers must be for a pass over `sq` to keep it in order: nothing is sent
past a WQE that runs, and otherwise the answers to the WQEs not sent yet must be in order. -/
def PassInOrder (outs : Nat → Int) (sq : List SendWqe) : Prop :=
  (∀ w ∈ sq, w.state ≠ .run) →
    InOrderOutcomes ((sq.filter Wqe.unsent).map fun w => outs w.id)

variable {qp : VrnicQp} {env : SendEnv} {base : List IbWc} {posted : List (Nat × SendWr)}
variable {es : List SendEvent} {p p' : SendPass} {r : SendResult} {sent toSend sq : List SendWqe}
variable {w : SendWqe}

theorem Wqe.unsent_iff : w.unsent = true ↔ w.state = .init ∨ w.state = .wait := by
  simp [Wqe.unsent]

/-- The WQEs that a pass has sent so far and left on the queue. -/
def SendPass.Kept (outs : Nat → Int) (p : SendPass) (toSend : List SendWqe) : Prop :=
  ∃ running waiting, p.ahead = running ++ waiting ∧ (∀ w ∈ running, w.state = .run) ∧
    (∀ w ∈ waiting, w.state = .wait) ∧
    (running ≠ [] → ∀ w ∈ toSend, outs w.id ≠ 0 ∧ outs w.id ≠ -ECANCELED) ∧
    (waiting ≠ [] → ∀ w ∈ toSend, outs w.id = -EBUSY)

theorem processSendFrom_in_order (halloc : ∀ id, env.cqeAlloc id = true)
    (hinv : QueueInv qp.sigAllWr base posted (p.ahead ++ toSend) p.scq.entries (es ++ p.events))
    (hsend : ∀ w ∈ toSend, w.unsent = true) (hk : p.Kept env.transport toSend)
    (ho : InOrderOutcomes (toSend.map fun w => env.transport w.id))
    (h : processSendFrom qp env toSend p = some r) :
    QueueInv qp.sigAllWr base posted r.sq r.scq.entries (es ++ r.events) ∧ Settled r.sq := by
  induction toSend generalizing p with
  | nil =>
    cases Option.some.inj h
    obtain ⟨running, waiting, ha, hr, hw, -⟩ := hk
    refine ⟨hinv, running, waiting, by simp [SendPass.result, ha], fun w hm => Or.inl (hr w hm), ?_⟩
    exact fun w hm => Wqe.unsent_iff.mpr (Or.inr (hw w hm))
  | cons w toSend ih =>
    have hwu := hsend w (by simp)
    obtain ⟨x, p', -, hp, hl⟩ := processSendFrom_unsent (Wqe.unsent_iff.mp hwu) h
    obtain ⟨running, waiting, ha, hr, hw, hrun, hwait⟩ := hk
    obtain ⟨hfirst, hrest⟩ := List.pairwise_cons.mp ho
    have hlater : ∀ v ∈ toSend, (env.transport w.id = -EBUSY → env.transport v.id = -EBUSY) ∧
        (env.transport w.id = -EINPROGRESS →
          env.transport v.id ≠ 0 ∧ env.transport v.id ≠ -ECANCELED) :=
      fun v hv => hfirst _ (List.mem_map_of_mem hv)
    have htail := fun v hv => hsend v (List.mem_cons_of_mem _ hv)
    obtain ⟨call, ⟨hres, hah, cqes, he, hq, hc⟩ |
      ⟨hres, kept, hid, hwr, -, hst, hah, he, hq⟩⟩ := handSend_spec (hinv.sendable w (by simp)) hp
    · -- nothing is left ahead of a WQE that is over at once
      have hrn : running = [] := by
        by_contra hne
        obtain ⟨h0, hcan⟩ := hrun hne w (by simp)
        exact hres.elim h0 hcan
      have hwn : waiting = [] := by
        by_contra hne
        have hb := hwait hne w (by simp)
        rw [hb] at hres
        exact absurd hres (by decide)
      have hnil : p.ahead = [] := by rw [ha, hrn, hwn, List.append_nil]
      rw [hnil] at hinv
      have hover := QueueInv.handed_over call (env.transport w.id) hinv hwu hq (hc (halloc w.id))
      refine ih ?_ htail ⟨[], [], by rw [hah, hnil]; rfl, by simp⟩ hrest hl
      rw [hah, hnil, he]
      simpa [SendPass.aheadStates, hnil] using hover
    · have hnb : env.transport w.id ≠ -EBUSY → waiting = [] := fun hne => by
        by_contra hwn
        exact hne (hwait hwn w (by simp))
      have hkept : QueueInv qp.sigAllWr base posted (p.ahead ++ kept :: toSend) p.scq.entries
          (es ++ p.events ++ [.handed w.id call (env.transport w.id) p.aheadStates]) := by
        refine hinv.handed_kept hwu hid hwr (fun hne => ?_) (fun hne v hv => ?_) rfl
        · simp [Wqe.unsent, hst, hne]
        · rw [ha, hnb hne, List.append_nil] at hv
          simp [Wqe.unsent, hr v hv]
      refine ih ?_ htail ?_ hrest hl
      · rw [hah, he, hq]
        simpa using hkept
      · by_cases hb : env.transport w.id = -EBUSY
        · rw [if_pos hb] at hst
          refine ⟨running, waiting ++ [kept], by simp [hah, ha], hr, ?_, ?_, ?_⟩
          · intro v hv
            rcases List.mem_append.mp hv with hv | hv
            · exact hw v hv
            · rw [List.mem_singleton.mp hv]
              exact hst
          · exact fun hne v hv => hrun hne v (List.mem_cons_of_mem _ hv)
          · exact fun _ v hv => (hlater v hv).1 hb
        · rw [if_neg hb] at hst
          have hprog := hres.resolve_right hb
          refine ⟨running ++ [kept], [], by simp [hah, ha, hnb hb], ?_, by simp, ?_, by simp⟩
          · intro v hv
            rcases List.mem_append.mp hv with hv | hv
            · exact hr v hv
            · rw [List.mem_singleton.mp hv]
              exact hst
          · exact fun _ v hv => (hlater v hv).2 hprog

/-- A pass over a settled queue, whatever its completed WQEs and wherever it stops. -/
theorem processSendFrom_settled (halloc : ∀ id, env.cqeAlloc id = true) (ha : p.ahead = [])
    (hinv : QueueInv qp.sigAllWr base posted (sent ++ toSend) p.scq.entries (es ++ p.events))
    (hsent : ∀ w ∈ sent, w.state = .run ∨ w.state = .done)
    (hsend : ∀ w ∈ toSend, w.unsent = true)
    (ho : (∀ w ∈ sent, w.state ≠ .run) →
      InOrderOutcomes (toSend.map fun w => env.transport w.id))
    (h : processSendFrom qp env (sent ++ toSend) p = some r) :
    QueueInv qp.sigAllWr base posted r.sq r.scq.entries (es ++ r.events) ∧ Settled r.sq := by
  induction sent generalizing p with
  | nil =>
    refine processSendFrom_in_order halloc ?_ hsend ⟨[], [], ha, by simp⟩ (ho (by simp)) h
    rw [ha]
    exact hinv
  | cons w sent ih =>
    rcases hsent w (by simp) with hs | hs
    · have hr := processSendFrom_run hs h
      have hsq : r.sq = w :: sent ++ toSend := by simp [hr, SendPass.result, ha]
      have hcq : r.scq = p.scq := by rw [hr]; rfl
      have hes : r.events = p.events := by rw [hr]; rfl
      rw [hsq, hcq, hes]
      exact ⟨hinv, w :: sent, toSend, rfl, hsent, hsend⟩
    · obtain ⟨p', hp, hl⟩ := processSendFrom_done hs h
      obtain ⟨hah, -, cqes, he, hq, -, hc⟩ := retireSend_spec hp
      have hnext := hinv.complete hq (hc (halloc w.id))
      refine ih (hah.trans ha) ?_ (fun v hv => hsent v (List.mem_cons_of_mem _ hv)) ?_ hl
      · rw [he]
        simpa [SendPass.aheadStates, ha] using hnext
      · intro hn
        refine ho fun v hv => ?_
        rcases List.mem_cons.mp hv with rfl | hv
        · simp [hs]
        · exact hn v hv

/-- Answers out of order leave a trace: something was sent or completed past a WQE that waits, or
completed past one that runs. -/
theorem in_order_of_processSendFrom (hso : ∀ w ∈ toSend, w.wr.opcode.sendable = true)
    (hsend : ∀ w ∈ toSend, w.unsent = true) (h : processSendFrom qp env toSend p = some r)
    (hev : ∀ e ∈ r.events, e.InOrder) :
    (.wait ∈ p.aheadStates → ∀ w ∈ toSend, env.transport w.id = -EBUSY) ∧
    (.run ∈ p.aheadStates → ∀ w ∈ toSend,
      env.transport w.id ≠ 0 ∧ env.transport w.id ≠ -ECANCELED) ∧
    InOrderOutcomes (toSend.map fun w => env.transport w.id) := by
  induction toSend generalizing p with
  | nil => simp [InOrderOutcomes]
  | cons w toSend ih =>
    obtain ⟨x, p', -, hp, hl⟩ :=
      processSendFrom_unsent (Wqe.unsent_iff.mp (hsend w (by simp))) h
    have hso' := fun v hv => hso v (List.mem_cons_of_mem _ hv)
    obtain ⟨hw', hr', ho'⟩ := ih hso' (fun v hv => hsend v (List.mem_cons_of_mem _ hv)) hl
    obtain ⟨-, es', he'⟩ := processSendFrom_extends hso' hl
    obtain ⟨call, ⟨hres, hah, cqes, he, -⟩ | ⟨hres, kept, -, -, -, hst, hah, he, -⟩⟩ :=
      handSend_spec (hso w (by simp)) hp
    all_goals
      have hin : SendEvent.InOrder (.handed w.id call (env.transport w.id) p.aheadStates) :=
        hev _ (by rw [he', he]; simp)
    · have hcomp : SendEvent.InOrder (.completed w.id cqes p.aheadStates) :=
        hev _ (by rw [he', he]; simp)
      refine ⟨fun hm => absurd hm hcomp.1, fun hm => absurd hm hcomp.2, ?_⟩
      have hnb : env.transport w.id ≠ -EBUSY ∧ env.transport w.id ≠ -EINPROGRESS := by
        rcases hres with hres | hres <;> rw [hres] <;> decide
      exact List.pairwise_cons.mpr ⟨fun b _ => ⟨fun hb => absurd hb hnb.1,
        fun hb => absurd hb hnb.2⟩, ho'⟩
    · have hmem : ∀ s, s ∈ p.aheadStates ∨ s = kept.state → s ∈ p'.aheadStates := fun s hs => by
        simpa [SendPass.aheadStates, hah, eq_comm] using hs
      refine ⟨fun hm v hv => ?_, fun hm v hv => ?_, ?_⟩
      · rcases List.mem_cons.mp hv with rfl | hv
        · by_contra hne
          exact hin hne hm
        · exact hw' (hmem _ (Or.inl hm)) v hv
      · rcases List.mem_cons.mp hv with rfl | hv
        · rcases hres with hres | hres <;> rw [hres] <;> decide
        · exact hr' (hmem _ (Or.inl hm)) v hv
      · refine List.pairwise_cons.mpr ⟨fun b hb => ?_, ho'⟩
        obtain ⟨v, hv, rfl⟩ := List.mem_map.mp hb
        refine ⟨fun hbusy => ?_, fun hprog => ?_⟩
        · rw [if_pos hbusy] at hst
          exact hw' (hmem _ (Or.inr hst.symm)) v hv
        · have hprog' : env.transport w.id = -EINPROGRESS := hprog
          rw [hprog', if_neg (by decide)] at hst
          exact hr' (hmem _ (Or.inr hst.symm)) v hv

theorem passInOrder_iff {outs : Nat → Int} (hsent : ∀ w ∈ sent, w.state = .run ∨ w.state = .done)
    (hsend : ∀ w ∈ toSend, w.unsent = true) :
    PassInOrder outs (sent ++ toSend) ↔
      ((∀ w ∈ sent, w.state ≠ .run) → InOrderOutcomes (toSend.map fun w => outs w.id)) := by
  have hf : (sent ++ toSend).filter Wqe.unsent = toSend := by
    rw [List.filter_append, List.filter_eq_self.mpr hsend, List.filter_eq_nil_iff.mpr]
    · rfl
    · intro w hw
      rcases hsent w hw with hs | hs <;> simp [Wqe.unsent, hs]
  have hr : (∀ w ∈ sent ++ toSend, w.state ≠ .run) ↔ ∀ w ∈ sent, w.state ≠ .run := by
    refine ⟨fun h w hw => h w (List.mem_append_left _ hw), fun h w hw => ?_⟩
    rcases List.mem_append.mp hw with hw | hw
    · exact h w hw
    · rcases Wqe.unsent_iff.mp (hsend w hw) with hs | hs <;> simp [hs]
  rw [PassInOrder, hf, hr]

/-- A pass over a settled queue that leaves only entries in order had answers in order. -/
theorem passInOrder_of_processSendFrom
    (hso : ∀ w ∈ sent ++ toSend, w.wr.opcode.sendable = true)
    (hsent : ∀ w ∈ sent, w.state = .run ∨ w.state = .done)
    (hsend : ∀ w ∈ toSend, w.unsent = true)
    (h : processSendFrom qp env (sent ++ toSend) p = some r) (hev : ∀ e ∈ r.events, e.InOrder) :
    PassInOrder env.transport (sent ++ toSend) := by
  rw [passInOrder_iff hsent hsend]
  induction sent generalizing p with
  | nil => exact fun _ => (in_order_of_processSendFrom hso hsend h hev).2.2
  | cons w sent ih =>
    intro hn
    have hs := (hsent w (by simp)).resolve_left (hn w (by simp))
    obtain ⟨p', -, hl⟩ := processSendFrom_done hs h
    exact ih (fun v hv => hso v (List.mem_cons_of_mem _ hv))
      (fun v hv => hsent v (List.mem_cons_of_mem _ hv)) hl fun v hv =>
        hn v (List.mem_cons_of_mem _ hv)

end BgqVrnic
