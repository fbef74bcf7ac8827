import BgqVrnic.SendVisits

namespace BgqVrnic

/-- The address and the work request of a WQE, which never change. -/
def Wqe.key {ω : Type} (w : Wqe ω) : Nat × ω := (w.id, w.wr)

def Wqe.unsent {ω : Type} (w : Wqe ω) : Bool := w.state = .init || w.state = .wait

/-- Nothing is taken by the transport past a WQE that waits, and nothing is completed past one that
waits or runs. A call that is answered with `-EBUSY` has sent nothing. -/
def SendEvent.InOrder : SendEvent → Prop
  | .handed _ _ result ahead => result ≠ -EBUSY → .wait ∉ ahead
  | .completed _ _ ahead => .wait ∉ ahead ∧ .run ∉ ahead

def SendEvent.sentId : SendEvent → Option Nat
  | .handed id _ result _ => if result = -EBUSY then none else some id
  | .completed .. => none

def SendEvent.completion : SendEvent → Option (Nat × List IbWc)
  | .handed .. => none
  | .completed id cqes _ => some (id, cqes)

def sentIds (es : List SendEvent) : List Nat := es.filterMap SendEvent.sentId

def completions (es : List SendEvent) : List (Nat × List IbWc) := es.filterMap SendEvent.completion

/-- The completions as the consumer of the queue sees them: which WQE, and the work request numbers
of its CQEs. -/
def completionIds (es : List SendEvent) : List (Nat × List Nat) :=
  (completions es).map fun c => (c.1, c.2.map IbWc.wrId)

/-- What the completion of a posted WQE should be: one CQE if it is signaled, none otherwise. -/
def dueCompletion (sigAllWr : Bool) (k : Nat × SendWr) : Nat × List Nat :=
  (k.1, if k.2.reported sigAllWr then [k.2.wrId] else [])

/-- The outcomes of a pass, in queue order, that keep the queue in order: once a call is answered
with `-EBUSY` no later one is taken, and once one is in progress no later one is over at once. -/
def InOrderOutcomes (outs : List Int) : Prop :=
  outs.Pairwise fun a b =>
    (a = -EBUSY → b = -EBUSY) ∧ (a = -EINPROGRESS → b ≠ 0 ∧ b ≠ -ECANCELED)

/-- The send queue, what has been posted to it and what has been done to it so far. -/
structure QueueInv (sigAllWr : Bool) (base : List IbWc) (posted : List (Nat × SendWr))
    (sq : List SendWqe) (entries : List IbWc) (es : List SendEvent) : Prop where
  sendable : ∀ w ∈ sq, w.wr.opcode.sendable = true
  sorted : (posted.map Prod.fst).Pairwise (· < ·)
  retired : ∃ done, posted = done ++ sq.map Wqe.key ∧
    completionIds es = done.map (dueCompletion sigAllWr)
  entries : entries = base ++ (completions es).flatMap Prod.snd
  inOrder : ∀ e ∈ es, e.InOrder
  sentSorted : (sentIds es).Pairwise (· < ·)
  sentBefore : ∀ i ∈ sentIds es, ∀ w ∈ sq, w.unsent = true → i < w.id
  sentPosted : ∀ i ∈ sentIds es, i ∈ posted.map Prod.fst

variable {sigAllWr : Bool} {base entries entries' cqes : List IbWc} {posted : List (Nat × SendWr)}
variable {sq as rest : List SendWqe} {es : List SendEvent} {w kept : SendWqe} {call : MuCall}
variable {result : Int} {ahead : List WqeState}

theorem sentIds_append (es es' : List SendEvent) :
    sentIds (es ++ es') = sentIds es ++ sentIds es' := by
  simp [sentIds]

@[simp] theorem sentIds_completed (id : Nat) : sentIds [.completed id cqes ahead] = [] := rfl

theorem sentIds_handed (id : Nat) :
    sentIds [.handed id call result ahead] = if result = -EBUSY then [] else [id] := by
  by_cases h : result = -EBUSY
  · simp [sentIds, SendEvent.sentId, h]
  · simp [sentIds, SendEvent.sentId, h]

@[simp] theorem completions_handed (id : Nat) :
    completions [.handed id call result ahead] = [] := rfl

@[simp] theorem completions_completed (id : Nat) :
    completions [.completed id cqes ahead] = [(id, cqes)] := rfl

@[simp] theorem completionIds_handed (id : Nat) :
    completionIds [.handed id call result ahead] = [] := rfl

@[simp] theorem completionIds_completed (id : Nat) :
    completionIds [.completed id cqes ahead] = [(id, cqes.map IbWc.wrId)] := rfl

theorem completions_append (es es' : List SendEvent) :
    completions (es ++ es') = completions es ++ completions es' := by
  simp [completions]

theorem completionIds_append (es es' : List SendEvent) :
    completionIds (es ++ es') = completionIds es ++ completionIds es' := by
  simp [completionIds, completions]

theorem QueueInv.ids_sorted (h : QueueInv sigAllWr base posted sq entries es) :
    (sq.map Wqe.id).Pairwise (· < ·) := by
  obtain ⟨done, hp, -⟩ := h.retired
  have hs := h.sorted
  rw [hp, List.map_append, List.pairwise_append] at hs
  have he : (sq.map Wqe.key).map Prod.fst = sq.map Wqe.id := by simp [Wqe.key]
  rw [← he]
  exact hs.2.1

theorem QueueInv.id_posted (h : QueueInv sigAllWr base posted sq entries es) (hw : w ∈ sq) :
    w.id ∈ posted.map Prod.fst := by
  obtain ⟨done, hp, -⟩ := h.retired
  rw [hp, List.map_append]
  exact List.mem_append_right _ (List.mem_map_of_mem (List.mem_map_of_mem hw))

theorem QueueInv.lt_of_behind (h : QueueInv sigAllWr base posted (as ++ w :: rest) entries es)
    {v : SendWqe} (hv : v ∈ rest) : w.id < v.id := by
  have hs := h.ids_sorted
  simp only [List.map_append, List.map_cons] at hs
  have hw := (List.pairwise_append.mp hs).2.1
  exact (List.pairwise_cons.mp hw).1 v.id (List.mem_map_of_mem hv)

/-- A call that the transport takes, for the first WQE not sent yet. -/
theorem QueueInv.handed (h : QueueInv sigAllWr base posted (as ++ w :: rest) entries es)
    (hw : w.unsent = true) (hin : (SendEvent.handed w.id call result ahead).InOrder) :
    (∀ e ∈ es ++ [.handed w.id call result ahead], e.InOrder) ∧
      (sentIds (es ++ [.handed w.id call result ahead])).Pairwise (· < ·) := by
  constructor
  · intro e he
    rcases List.mem_append.mp he with he | he
    · exact h.inOrder e he
    · rw [List.mem_singleton.mp he]
      exact hin
  · rw [sentIds_append, List.pairwise_append]
    refine ⟨h.sentSorted, ?_, fun i hi j hj => ?_⟩
    · rw [sentIds_handed]
      split <;> simp
    · rw [sentIds_handed] at hj
      split at hj
      next => simp at hj
      next =>
        rw [List.mem_singleton.mp hj]
        exact h.sentBefore i hi w (by simp) hw

theorem QueueInv.complete (h : QueueInv sigAllWr base posted (w :: rest) entries es)
    (hq : entries' = entries ++ cqes)
    (hc : cqes.map IbWc.wrId = if w.wr.reported sigAllWr then [w.wr.wrId] else []) :
    QueueInv sigAllWr base posted rest entries' (es ++ [.completed w.id cqes []]) where
  sendable v hv := h.sendable v (List.mem_cons_of_mem _ hv)
  sorted := h.sorted
  retired := by
    obtain ⟨done, hp, hd⟩ := h.retired
    refine ⟨done ++ [w.key], by simp [hp], ?_⟩
    rw [completionIds_append, hd, List.map_append]
    simp [dueCompletion, Wqe.key, hc]
  entries := by
    rw [hq, h.entries, completions_append]
    simp
  inOrder e he := by
    rcases List.mem_append.mp he with he | he
    · exact h.inOrder e he
    · rw [List.mem_singleton.mp he]
      simp [SendEvent.InOrder]
  sentSorted := by
    rw [sentIds_append]
    simpa using h.sentSorted
  sentBefore i hi v hv hu := by
    rw [sentIds_append] at hi
    have hi' : i ∈ sentIds es := by simpa using hi
    exact h.sentBefore i hi' v (List.mem_cons_of_mem _ hv) hu
  sentPosted i hi := by
    rw [sentIds_append] at hi
    exact h.sentPosted i (by simpa using hi)

/-- A WQE is handed over and stays on the queue, to be sent again only if it was turned down. -/
theorem QueueInv.handed_kept (h : QueueInv sigAllWr base posted (as ++ w :: rest) entries es)
    (hw : w.unsent = true) (hid : kept.id = w.id) (hwr : kept.wr = w.wr)
    (hst : result ≠ -EBUSY → kept.unsent = false)
    (has : result ≠ -EBUSY → ∀ v ∈ as, v.unsent = false) (hahead : ahead = as.map Wqe.state) :
    QueueInv sigAllWr base posted (as ++ kept :: rest) entries
      (es ++ [.handed w.id call result ahead]) := by
  have hin : (SendEvent.handed w.id call result ahead).InOrder := by
    intro hr hmem
    rw [hahead] at hmem
    obtain ⟨v, hv, hvs⟩ := List.mem_map.mp hmem
    have hu := has hr v hv
    simp [Wqe.unsent, hvs] at hu
  obtain ⟨hio, hss⟩ := h.handed hw hin
  refine ⟨?_, h.sorted, ?_, ?_, hio, hss, ?_, ?_⟩
  · intro v hv
    rcases List.mem_append.mp hv with hv | hv
    · exact h.sendable v (by simp [hv])
    · rcases List.mem_cons.mp hv with rfl | hv
      · rw [hwr]
        exact h.sendable w (by simp)
      · exact h.sendable v (by simp [hv])
  · obtain ⟨done, hp, hd⟩ := h.retired
    refine ⟨done, ?_, ?_⟩
    · rw [hp]
      simp [Wqe.key, hid, hwr]
    · rw [completionIds_append, hd]
      simp
  · rw [completions_append]
    simpa using h.entries
  · intro i hi v hv hu
    rw [sentIds_append] at hi
    have hold : i ∈ sentIds es → i < v.id := fun hi => by
      rcases List.mem_append.mp hv with hv | hv
      · exact h.sentBefore i hi v (by simp [hv]) hu
      · rcases List.mem_cons.mp hv with rfl | hv
        · rw [hid]
          exact h.sentBefore i hi w (by simp) hw
        · exact h.sentBefore i hi v (by simp [hv]) hu
    rcases List.mem_append.mp hi with hi | hi
    · exact hold hi
    · by_cases hr : result = -EBUSY
      · simp [sentIds_handed, hr] at hi
      · have hi' : i = w.id := by simpa [sentIds_handed, hr] using hi
        rcases List.mem_append.mp hv with hv | hv
        · rw [has hr v hv] at hu
          cases hu
        · rcases List.mem_cons.mp hv with rfl | hv
          · rw [hst hr] at hu
            cases hu
          · rw [hi']
            exact h.lt_of_behind hv
  · intro i hi
    rw [sentIds_append, sentIds_handed] at hi
    rcases List.mem_append.mp hi with hi | hi
    · exact h.sentPosted i hi
    · split at hi
      next => simp at hi
      next =>
        rw [List.mem_singleton.mp hi]
        exact h.id_posted (by simp)

/-- The transport takes the first WQE of the queue and is done with it. -/
theorem QueueInv.handed_over (call : MuCall) (result : Int)
    (h : QueueInv sigAllWr base posted (w :: rest) entries es) (hw : w.unsent = true) (hq : entries' = entries ++ cqes)
    (hc : cqes.map IbWc.wrId = if w.wr.reported sigAllWr then [w.wr.wrId] else []) :
    QueueInv sigAllWr base posted rest entries'
      (es ++ [.handed w.id call result [], .completed w.id cqes []]) := by
  have h' : QueueInv sigAllWr base posted ([] ++ w :: rest) entries es := h
  let kept : SendWqe := { w with state := .done }
  have hsent : QueueInv sigAllWr base posted ([] ++ kept :: rest) entries
      (es ++ [.handed w.id call result []]) :=
    h'.handed_kept hw rfl rfl (fun _ => rfl) (by simp) rfl
  have hdone := QueueInv.complete (w := kept) hsent hq hc
  rw [List.append_assoc] at hdone
  exact hdone

theorem QueueInv.enqueue {new : List SendWqe} (h : QueueInv sigAllWr base posted sq entries es)
    (hso : ∀ w ∈ new, w.wr.opcode.sendable = true) (hs : (new.map Wqe.id).Pairwise (· < ·))
    (hf : ∀ i ∈ posted.map Prod.fst, ∀ w ∈ new, i < w.id) :
    QueueInv sigAllWr base (posted ++ new.map Wqe.key) (sq ++ new) entries es where
  sendable w hw := (List.mem_append.mp hw).elim (h.sendable w) (hso w)
  sorted := by
    have hids : (new.map Wqe.key).map Prod.fst = new.map Wqe.id := by simp [Wqe.key]
    rw [List.map_append, hids, List.pairwise_append]
    refine ⟨h.sorted, hs, fun i hi j hj => ?_⟩
    obtain ⟨w, hw, rfl⟩ := List.mem_map.mp hj
    exact hf i hi w hw
  retired := by
    obtain ⟨done, hp, hd⟩ := h.retired
    exact ⟨done, by simp [hp], hd⟩
  entries := h.entries
  inOrder := h.inOrder
  sentSorted := h.sentSorted
  sentBefore i hi w hw hu := by
    rcases List.mem_append.mp hw with hw | hw
    · exact h.sentBefore i hi w hw hu
    · exact hf i (h.sentPosted i hi) w hw
  sentPosted i hi := by
    rw [List.map_append]
    exact List.mem_append_left _ (h.sentPosted i hi)

/-- Marking WQEs of the queue as done leaves fewer to be sent. -/
theorem QueueInv.mark {f : SendWqe → SendWqe} (h : QueueInv sigAllWr base posted sq entries es)
    (hkey : ∀ w, (f w).key = w.key) (hun : ∀ w, (f w).unsent = true → w.unsent = true) :
    QueueInv sigAllWr base posted (sq.map f) entries es where
  sendable w hw := by
    obtain ⟨v, hv, rfl⟩ := List.mem_map.mp hw
    have hwr : (f v).wr = v.wr := congrArg Prod.snd (hkey v)
    rw [hwr]
    exact h.sendable v hv
  sorted := h.sorted
  retired := by
    obtain ⟨done, hp, hd⟩ := h.retired
    refine ⟨done, ?_, hd⟩
    rw [hp, List.map_map, show Wqe.key ∘ f = Wqe.key from funext hkey]
  entries := h.entries
  inOrder := h.inOrder
  sentSorted := h.sentSorted
  sentBefore i hi w hw hu := by
    obtain ⟨v, hv, rfl⟩ := List.mem_map.mp hw
    have hid : (f v).id = v.id := congrArg Prod.fst (hkey v)
    rw [hid]
    exact h.sentBefore i hi v hv (hun v hu)
  sentPosted := h.sentPosted

end BgqVrnic
