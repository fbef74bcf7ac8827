import BgqVrnic.SendVisits

namespace BgqVrnic

/-- What a pass owes a WQE whose scatter list has no translation. -/
structure RefusedCleanly (qp : VrnicQp) (r : SendResult) (wqe : SendWqe) : Prop where
  notHanded : ∀ call result ahead, SendEvent.handed wqe.id call result ahead ∉ r.events
  removed : wqe.id ∉ r.sq.map Wqe.id
  reported : wqe.wr.reported qp.sigAllWr = true → ∃ cqe before ahead after,
    r.events = before ++ SendEvent.completed wqe.id [cqe] ahead :: after ∧
    cqe.status ≠ ibWcSuccess ∧
    ∀ cqes ahead', SendEvent.completed wqe.id cqes ahead' ∉ before ++ after

/-- The translation of the WQE's scatter list fails with a negative result. -/
def Untranslatable (env : SendEnv) (wqe : SendWqe) : Prop :=
  ∃ x, bgvrnicXlateSgl env.mrs wqe.wr.sgList (env.stack wqe.id).sge mudmMaxSge = some x ∧ x.rc < 0

variable {qp : VrnicQp} {env : SendEnv} {wqe w : SendWqe} {p p' : SendPass} {x : Xlation}
variable {r : SendResult} {l rest : List SendWqe}

/-- A pass hands every WQE not sent yet to the transport, unless it stops before it. -/
theorem handed_or_kept (ho : ∀ w ∈ l, w.wr.opcode.sendable = true) (hw : wqe ∈ l)
    (hs : wqe.state = .init ∨ wqe.state = .wait) (h : processSendFrom qp env l p = some r) :
    (∃ call result ahead, SendEvent.handed wqe.id call result ahead ∈ r.events) ∨ wqe ∈ r.sq := by
  induction l generalizing p with
  | nil => simp at hw
  | cons w l ih =>
    have hrest := fun w hw => ho w (List.mem_cons_of_mem _ hw)
    cases hws : w.state with
    | init | wait =>
      obtain ⟨x, p', -, hp, hl⟩ := processSendFrom_unsent (by simp [hws]) h
      rcases List.mem_cons.mp hw with rfl | hw
      · obtain ⟨-, call, es, he⟩ := handSend_extends (ho wqe (by simp)) hp
        obtain ⟨-, es', he'⟩ := processSendFrom_extends hrest hl
        refine Or.inl ⟨call, env.transport wqe.id, p.aheadStates, ?_⟩
        rw [he', he]
        simp
      · exact ih hrest hw hl
    | run =>
      rw [processSendFrom_run hws h]
      exact Or.inr (List.mem_append_right _ hw)
    | done =>
      obtain ⟨p', hp, hl⟩ := processSendFrom_done hws h
      rcases List.mem_cons.mp hw with rfl | hw
      · simp [hws] at hs
      · exact ih hrest hw hl
    | invalid => exact absurd hws (processSendFrom_not_invalid h)

/-- No pass cleans up after a failed translation: the WQE is handed to the transport like any other,
or stays where it is behind one that runs. -/
theorem untranslatable_never_refused (ho : ∀ w ∈ qp.sq, w.wr.opcode.sendable = true)
    (hw : wqe ∈ qp.sq) (hs : wqe.state = .init ∨ wqe.state = .wait) (hx : Untranslatable env wqe)
    (h : bgvrnicProcessSendWqes qp env = some r) :
    ¬ (Untranslatable env wqe → RefusedCleanly qp r wqe) := by
  intro hc
  have hr := hc hx
  rcases handed_or_kept ho hw hs h with ⟨call, result, ahead, he⟩ | hk
  · exact hr.notHanded call result ahead he
  · exact hr.removed (List.mem_map_of_mem hk)

/-- A queue pair with one signaled WQE on it, for memory that was never registered. -/
def unkeyedQp : VrnicQp :=
  { qpNum := 1, nextWqe := 1, qpState := .rts, sigAllWr := false, maxRecvSge := 4
    sq := [allocSendWqe 0 ⟨7, [⟨0x1000, 64, 5⟩], .send, true, false, 0, 0, 0⟩]
    rq := [], scq := ⟨[], false, 0⟩, rcq := ⟨[], false, 0⟩ }

/-- No region is registered, and the transport takes every message at once. -/
def bareEnv : SendEnv :=
  { mrs := fun _ => none
    stack := fun _ => ⟨0, 0, 0, 0, 0, 0, 0, 0, fun _ => ⟨0, 0⟩⟩
    transport := fun _ => 0
    cqeAlloc := fun _ => true }

theorem bareEnv_untranslatable (hw : w.wr.sgList ≠ []) : Untranslatable bareEnv w := by
  cases hl : w.wr.sgList with
  | nil => exact absurd hl hw
  | cons u us => exact ⟨⟨-ENOMEM, _, _⟩, by rw [hl]; rfl, show -ENOMEM < 0 by decide⟩

theorem untranslatable_never_refused_unkeyed :
    ∃ r, bgvrnicProcessSendWqes unkeyedQp bareEnv = some r ∧
      ∀ wqe ∈ unkeyedQp.sq,
        ¬ (Untranslatable bareEnv wqe → RefusedCleanly unkeyedQp r wqe) := by
  refine ⟨_, rfl, fun wqe hw => ?_⟩
  have hin : wqe = unkeyedQp.sq.head (by decide) := List.mem_singleton.mp hw
  subst hin
  exact untranslatable_never_refused (by decide) hw (Or.inl rfl)
    (bareEnv_untranslatable (by decide)) rfl

/-- The message goes out with data length 2^32 - 12, and its sender is told that it arrived. -/
theorem unkeyed_send_succeeds :
    ¬ ∀ (qp : VrnicQp) (env : SendEnv) (r : SendResult) (wqe : SendWqe),
      bgvrnicProcessSendWqes qp env = some r → wqe ∈ qp.sq → wqe.state = .init →
      Untranslatable env wqe → RefusedCleanly qp r wqe := by
  intro h
  have hx : Untranslatable bareEnv (unkeyedQp.sq.head (by decide)) :=
    bareEnv_untranslatable (by decide)
  have hr := h unkeyedQp bareEnv _ (unkeyedQp.sq.head (by decide)) rfl (by decide) rfl hx
  exact hr.notHanded _ 0 [] (List.mem_cons_self ..)

example : (bgvrnicProcessSendWqes unkeyedQp bareEnv).map (fun r => r.scq.entries.map IbWc.status) =
    some [ibWcSuccess] := by rfl

end BgqVrnic
