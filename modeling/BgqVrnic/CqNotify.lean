import BgqVrnic.Completions
import BgqVrnic.Runs

namespace BgqVrnic

open Runs

def ibCqSolicited : Nat := 1
def ibCqNextComp : Nat := 2
def ibCqSolicitedMask : Nat := 3

/-- How far a call of `bgvrnic_add_cqe` has come: it has its CQE, it has read the flags, it has appended
the CQE and is going to call the completion handler. -/
inductive AddStage
  | made
  | read (due : Bool)
  | appended
  deriving DecidableEq, Repr

structure AddCall where
  wc : IbWc
  stage : AddStage
  deriving DecidableEq, Repr

inductive CqEvent
  | armed
  | drained
  | appended (wc : IbWc)
  | called
  deriving DecidableEq, Repr

/-- A CQ with the calls of `bgvrnic_add_cqe` that are under way, the CQEs that `bgvrnic_poll_cq` has
returned, and what has happened so far. -/
structure SharedCq where
  entries : List IbWc
  flags : Nat
  calls : Nat → Option AddCall
  returned : List IbWc
  trace : List CqEvent

inductive CqInput
  | addCqe (k qpNum : Nat) (wqe : SendWqe) (alloc : Bool)
  | readFlags (k : Nat)
  | append (k : Nat)
  | callHandler (k : Nat)
  | reqNotifyCq (flags : Nat)
  | pollCq (numCQEs : Nat)

/-- `flags & IB_CQ_NEXT_COMP` -/
def nextCompSet (flags : Nat) : Bool := flags.testBit 1

/-- `generate_event` for a send completion. -/
def generateEvent (flags : Nat) (wc : IbWc) : Bool :=
  wc.status ≠ ibWcSuccess || nextCompSet flags

/-- `bgvrnic_req_notify_cq`: the flags afterwards and the return value. -/
def bgvrnicReqNotifyCq (flags arg : Nat) : Nat × Int :=
  if arg = ibCqSolicited ∨ arg = ibCqNextComp ∨ arg = ibCqSolicitedMask then (flags ||| arg, 0)
  else (flags, -EINVAL)

/-- `bgvrnic_poll_cq`: the CQEs returned and those left. -/
def bgvrnicPollCq (entries : List IbWc) (numCQEs : Nat) : List IbWc × List IbWc :=
  (entries.take numCQEs, entries.drop numCQEs)

namespace SharedCq

variable (s : SharedCq)

def setCall (k : Nat) (c : Option AddCall) : SharedCq :=
  { s with calls := Function.update s.calls k c }

def log (e : CqEvent) : SharedCq := { s with trace := s.trace ++ [e] }

def step : CqInput → Option SharedCq
  | .addCqe k qpNum wqe alloc =>
    if s.calls k ≠ none then none
    else if alloc then do
      let op ← sendWcOpcode wqe.wr.opcode
      some (s.setCall k (some ⟨cqeOf qpNum wqe wqe.wr.wrId op, .made⟩))
    else some s
  | .readFlags k =>
    match s.calls k with
    | some ⟨wc, .made⟩ =>
      some (s.setCall k (some ⟨wc, .read (generateEvent s.flags wc)⟩))
    | _ => none
  | .append k =>
    match s.calls k with
    | some ⟨wc, .read due⟩ =>
      some (({ s with entries := s.entries ++ [wc], flags := 0 }.setCall k
        (if due then some ⟨wc, .appended⟩ else none)).log (.appended wc))
    | _ => none
  | .callHandler k =>
    match s.calls k with
    | some ⟨_, .appended⟩ => some ((s.setCall k none).log .called)
    | _ => none
  | .reqNotifyCq arg =>
    let s' := { s with flags := (bgvrnicReqNotifyCq s.flags arg).1 }
    if arg = ibCqNextComp ∨ arg = ibCqSolicitedMask then some (s'.log .armed) else some s'
  | .pollCq numCQEs =>
    let (taken, left) := bgvrnicPollCq s.entries numCQEs
    let s' := { s with entries := left, returned := s.returned ++ taken }
    -- a poll that finds nothing more stops before it has filled its array
    if taken.length < numCQEs then some (s'.log .drained) else some s'

end SharedCq

/-- `bgvrnic_create_cq` -/
def newCq : SharedCq := ⟨[], 0, fun _ => none, [], []⟩

/-- The call is going to call the completion handler. -/
def AddCall.notifies (c : AddCall) : Bool :=
  match c.stage with
  | .made => false
  | .read due => due
  | .appended => true

def SharedCq.Notifying (s : SharedCq) : Prop := ∃ k c, s.calls k = some c ∧ c.notifies = true

def CqEvent.isAppend : CqEvent → Bool
  | .appended _ => true
  | _ => false

def appendedCqes (trace : List CqEvent) : List IbWc :=
  trace.filterMap fun e => match e with
    | .appended wc => some wc
    | _ => none

/-- After an arming and an empty poll, the next CQE is followed by a call of the completion handler: it
has come, or a call of `bgvrnic_add_cqe` is still to make it. An arming is spent once a CQE has been
appended before the poll and the handler has been called. -/
def NoWakeupLost (s : SharedCq) : Prop :=
  ∀ pre mid mid' post wc,
    s.trace = pre ++ .armed :: (mid ++ .drained :: (mid' ++ .appended wc :: post)) →
    (∀ e ∈ mid', e.isAppend = false) →
    ((∀ e ∈ mid, e.isAppend = false) ∨ .called ∉ mid ++ mid') →
    .called ∈ post ∨ s.Notifying

/-- Every CQE appended is returned once, in the order of the appends. -/
def PollsInOrder (s : SharedCq) : Prop := appendedCqes s.trace = s.returned ++ s.entries

/-- No CQE is appended to an armed queue unless somebody is going to call the handler. -/
def CqFits (s : SharedCq) : CqInput → Prop
  | .append _ => nextCompSet s.flags = true → s.Notifying
  | _ => True

/-- The arming holds until the next append, and what the first append after it starts is not lost. -/
structure CqInv (s : SharedCq) : Prop where
  order : PollsInOrder s
  armed : ∀ pre post, s.trace = pre ++ .armed :: post → (∀ e ∈ post, e.isAppend = false) →
    nextCompSet s.flags = true
  owed : ∀ pre mid post wc, s.trace = pre ++ .armed :: (mid ++ .appended wc :: post) →
    (∀ e ∈ mid, e.isAppend = false) → .called ∈ post ∨ s.Notifying

variable {s s' : SharedCq} {e x : CqEvent} {l pre post : List CqEvent} {k : Nat} {c : AddCall}
  {is : List CqInput}

theorem split_append_singleton (h : l ++ [e] = pre ++ x :: post) :
    (post = [] ∧ l = pre ∧ e = x) ∨ ∃ post', post = post' ++ [e] ∧ l = pre ++ x :: post' := by
  rcases List.eq_nil_or_concat post with rfl | ⟨post', last, rfl⟩
  · obtain ⟨hl, he⟩ := List.append_inj' h rfl
    exact Or.inl ⟨rfl, hl, (List.cons.inj he).1⟩
  · rw [List.concat_eq_append] at h ⊢
    have h' : l ++ [e] = (pre ++ x :: post') ++ [last] := by simpa using h
    obtain ⟨hl, he⟩ := List.append_inj' h' rfl
    obtain rfl := (List.cons.inj he).1
    exact Or.inr ⟨post', rfl, hl⟩

theorem appendedCqes_append (l l' : List CqEvent) :
    appendedCqes (l ++ l') = appendedCqes l ++ appendedCqes l' := List.filterMap_append

theorem appendedCqes_of_not_append (h : e.isAppend = false) : appendedCqes [e] = [] := by
  cases e with
  | appended wc => cases h
  | armed | drained | called => rfl

theorem exists_first_append (h : ¬ ∀ e ∈ l, e.isAppend = false) : ∃ before wc after,
    l = before ++ .appended wc :: after ∧ ∀ e ∈ before, e.isAppend = false := by
  induction l with
  | nil => exact absurd (by simp) h
  | cons e l ih =>
    cases he : e.isAppend with
    | true =>
      cases e with
      | appended wc => exact ⟨[], wc, l, rfl, by simp⟩
      | armed | drained | called => cases he
    | false =>
      have hl : ¬ ∀ e ∈ l, e.isAppend = false := by
        intro hall
        apply h
        intro e' he'
        rcases List.mem_cons.mp he' with rfl | he'
        · exact he
        · exact hall e' he'
      obtain ⟨before, wc, after, rfl, hbefore⟩ := ih hl
      refine ⟨e :: before, wc, after, rfl, ?_⟩
      intro e' he'
      rcases List.mem_cons.mp he' with rfl | he'
      · exact he
      · exact hbefore e' he'

/-- One more event, by what it does to the flags and the calls. -/
theorem CqInv.next (h : CqInv s) (ht : s'.trace = s.trace ++ [e]) (ho : PollsInOrder s')
    (hflags : e.isAppend = false → nextCompSet s.flags = true ∨ e = .armed →
      nextCompSet s'.flags = true)
    (hkeep : s.Notifying → e = .called ∨ s'.Notifying)
    (hnew : e.isAppend = true → nextCompSet s.flags = true → s'.Notifying) : CqInv s' where
  order := ho
  armed pre post hs hpost := by
    rw [ht] at hs
    rcases split_append_singleton hs with ⟨rfl, -, he⟩ | ⟨post', rfl, hold⟩
    · subst he
      exact hflags rfl (Or.inr rfl)
    · have he := hpost e (by simp)
      have hset := h.armed pre post' hold fun e' he' => hpost e' (by simp [he'])
      exact hflags he (Or.inl hset)
  owed pre mid post wc hs hmid := by
    rw [ht] at hs
    have hs' : s.trace ++ [e] = (pre ++ .armed :: mid) ++ .appended wc :: post := by simpa using hs
    rcases split_append_singleton hs' with ⟨rfl, hold, he⟩ | ⟨post', rfl, hold⟩
    · subst he
      exact Or.inr (hnew rfl (h.armed pre mid hold hmid))
    · rcases h.owed pre mid post' wc (by simpa using hold) hmid with hc | hn
      · exact Or.inl (List.mem_append_left _ hc)
      · rcases hkeep hn with rfl | hn
        · exact Or.inl (by simp)
        · exact Or.inr hn

theorem CqInv.quiet (h : CqInv s) (ht : s'.trace = s.trace) (ho : PollsInOrder s')
    (hflags : nextCompSet s.flags = true → nextCompSet s'.flags = true)
    (hkeep : s.Notifying → s'.Notifying) : CqInv s' where
  order := ho
  armed pre post hs hpost := hflags (h.armed pre post (ht ▸ hs) hpost)
  owed pre mid post wc hs hmid := by
    rcases h.owed pre mid post wc (ht ▸ hs) hmid with hc | hn
    · exact Or.inl hc
    · exact Or.inr (hkeep hn)

/-- The calls other than the one that takes a step stay as they are. -/
theorem SharedCq.Notifying.update (h : s.Notifying) {c' : Option AddCall}
    (hc : s'.calls = Function.update s.calls k c')
    (hk : ∀ c, s.calls k = some c → c.notifies = true → ∃ d, c' = some d ∧ d.notifies = true) :
    s'.Notifying := by
  obtain ⟨j, c, hj, hn⟩ := h
  by_cases hjk : j = k
  · subst hjk
    obtain ⟨d, hd, hdn⟩ := hk c hj hn
    exact ⟨j, d, by rw [hc, Function.update_self, hd], hdn⟩
  · exact ⟨j, c, by rw [hc, Function.update_of_ne hjk, hj], hn⟩

theorem nextCompSet_or {flags arg : Nat} (h : nextCompSet flags = true ∨ nextCompSet arg = true) :
    nextCompSet (flags ||| arg) = true := by
  unfold nextCompSet at h ⊢
  rw [Nat.testBit_or]
  rcases h with h | h
  · rw [h, Bool.true_or]
  · rw [h, Bool.or_true]

theorem reqNotifyCq_keeps {flags arg : Nat} (h : nextCompSet flags = true) :
    nextCompSet (bgvrnicReqNotifyCq flags arg).1 = true := by
  unfold bgvrnicReqNotifyCq
  split
  · exact nextCompSet_or (Or.inl h)
  · exact h

theorem reqNotifyCq_arms {flags arg : Nat} (h : arg = ibCqNextComp ∨ arg = ibCqSolicitedMask) :
    nextCompSet (bgvrnicReqNotifyCq flags arg).1 = true := by
  unfold bgvrnicReqNotifyCq
  rw [if_pos (Or.inr h)]
  apply nextCompSet_or
  rcases h with rfl | rfl <;> exact Or.inr rfl

theorem PollsInOrder.log (h : PollsInOrder s) (he : e.isAppend = false)
    (ht : s'.trace = s.trace ++ [e]) (hc : s'.returned ++ s'.entries = s.returned ++ s.entries) :
    PollsInOrder s' := by
  unfold PollsInOrder at h ⊢
  rw [ht, appendedCqes_append, appendedCqes_of_not_append he, List.append_nil, h, hc]

/-- What a step does, by its input. -/
inductive SharedCq.Steps (s : SharedCq) : CqInput → SharedCq → Prop
  | begun {k qpNum : Nat} {wqe : SendWqe} {wc : IbWc} (hk : s.calls k = none) :
    Steps s (.addCqe k qpNum wqe true) (s.setCall k (some ⟨wc, .made⟩))
  | starved {k qpNum : Nat} {wqe : SendWqe} : Steps s (.addCqe k qpNum wqe false) s
  | looked {k : Nat} {wc : IbWc} (hk : s.calls k = some ⟨wc, .made⟩) :
    Steps s (.readFlags k) (s.setCall k (some ⟨wc, .read (generateEvent s.flags wc)⟩))
  | added {k : Nat} {wc : IbWc} {due : Bool} (hk : s.calls k = some ⟨wc, .read due⟩) :
    Steps s (.append k) (({ s with entries := s.entries ++ [wc], flags := 0 }.setCall k
      (if due then some ⟨wc, .appended⟩ else none)).log (.appended wc))
  | called {k : Nat} {wc : IbWc} (hk : s.calls k = some ⟨wc, .appended⟩) :
    Steps s (.callHandler k) ((s.setCall k none).log .called)
  | armed {arg : Nat} (harg : arg = ibCqNextComp ∨ arg = ibCqSolicitedMask) :
    Steps s (.reqNotifyCq arg) ({ s with flags := (bgvrnicReqNotifyCq s.flags arg).1 }.log .armed)
  | unarmed {arg : Nat} :
    Steps s (.reqNotifyCq arg) { s with flags := (bgvrnicReqNotifyCq s.flags arg).1 }
  | drained {numCQEs : Nat} : Steps s (.pollCq numCQEs)
    ({ s with
      entries := s.entries.drop numCQEs
      returned := s.returned ++ s.entries.take numCQEs }.log .drained)
  | polled {numCQEs : Nat} : Steps s (.pollCq numCQEs)
    { s with
      entries := s.entries.drop numCQEs
      returned := s.returned ++ s.entries.take numCQEs }

theorem SharedCq.step_cases {i : CqInput} (hs : s.step i = some s') : s.Steps i s' := by
  cases i with
  | addCqe k qpNum wqe alloc =>
    dsimp only [SharedCq.step] at hs
    split at hs
    next => cases hs
    next hk =>
      cases alloc with
      | false =>
        cases Option.some.inj hs
        exact .starved
      | true =>
        obtain ⟨op, -, hs⟩ := Option.bind_eq_some_iff.mp hs
        cases Option.some.inj hs
        exact .begun (not_not.mp hk)
  | readFlags k =>
    dsimp only [SharedCq.step] at hs
    split at hs
    next wc hk =>
      cases Option.some.inj hs
      exact .looked hk
    next => cases hs
  | append k =>
    dsimp only [SharedCq.step] at hs
    split at hs
    next wc due hk =>
      cases Option.some.inj hs
      exact .added hk
    next => cases hs
  | callHandler k =>
    dsimp only [SharedCq.step] at hs
    split at hs
    next wc hk =>
      cases Option.some.inj hs
      exact .called hk
    next => cases hs
  | reqNotifyCq arg =>
    dsimp only [SharedCq.step] at hs
    split at hs
    next harg =>
      cases Option.some.inj hs
      exact .armed harg
    next =>
      cases Option.some.inj hs
      exact .unarmed
  | pollCq numCQEs =>
    unfold SharedCq.step at hs
    dsimp only [bgvrnicPollCq] at hs
    split at hs
    next =>
      cases Option.some.inj hs
      exact .drained
    next =>
      cases Option.some.inj hs
      exact .polled

theorem PollsInOrder.step {i : CqInput} (h : PollsInOrder s) (hs : s.step i = some s') :
    PollsInOrder s' := by
  have hsplit (n : Nat) : s.returned ++ s.entries.take n ++ s.entries.drop n =
      s.returned ++ s.entries := by
    rw [List.append_assoc, List.take_append_drop]
  cases SharedCq.step_cases hs with
  | begun | starved | looked | unarmed => exact h
  | @added k wc due _ =>
    unfold PollsInOrder at h
    show appendedCqes (s.trace ++ [.appended wc]) = s.returned ++ (s.entries ++ [wc])
    rw [appendedCqes_append, h, List.append_assoc]
    rfl
  | called => exact h.log (e := .called) rfl rfl rfl
  | armed => exact h.log (e := .armed) rfl rfl rfl
  | drained => exact h.log (e := .drained) rfl rfl (hsplit _)
  | polled => exact h.trans (hsplit _).symm

theorem CqInv.step {i : CqInput} (h : CqInv s) (hi : CqFits s i) (hs : s.step i = some s') :
    CqInv s' := by
  have ho := h.order.step hs
  cases SharedCq.step_cases hs with
  | begun hk =>
    refine h.quiet rfl ho id fun hn => hn.update rfl fun c hc _ => ?_
    rw [hk] at hc
    cases hc
  | starved => exact h
  | looked hk =>
    refine h.quiet rfl ho id fun hn => hn.update rfl fun c hc hcn => ?_
    cases Option.some.inj (hk.symm.trans hc)
    cases hcn
  | @added k wc due hk =>
    have hkeep : s.Notifying → SharedCq.Notifying (({ s with
        entries := s.entries ++ [wc], flags := 0 }.setCall k
        (if due then some ⟨wc, .appended⟩ else none)).log (.appended wc)) := by
      intro hn
      refine hn.update rfl fun c hc hcn => ?_
      cases Option.some.inj (hk.symm.trans hc)
      have hg : due = true := hcn
      exact ⟨⟨wc, .appended⟩, by rw [hg]; rfl, rfl⟩
    exact h.next rfl ho nofun (fun hn => Or.inr (hkeep hn)) fun _ hset => hkeep (hi hset)
  | called =>
    refine h.next rfl ho (fun _ hset => ?_) (fun _ => Or.inl rfl) nofun
    rcases hset with hset | he
    · exact hset
    · cases he
  | armed harg => exact h.next rfl ho (fun _ _ => reqNotifyCq_arms harg) (fun hn => Or.inr hn) nofun
  | unarmed => exact h.quiet rfl ho reqNotifyCq_keeps id
  | drained =>
    refine h.next rfl ho (fun _ hset => ?_) (fun hn => Or.inr hn) nofun
    rcases hset with hset | he
    · exact hset
    · cases he
  | polled => exact h.quiet rfl ho id id

theorem CqInv.noWakeupLost (h : CqInv s) : NoWakeupLost s := by
  intro pre mid mid' post wc hs hmid' hspent
  by_cases hmid : ∀ e ∈ mid, e.isAppend = false
  · refine h.owed pre (mid ++ .drained :: mid') post wc (by simpa using hs) fun e he => ?_
    rcases List.mem_append.mp he with he | he
    · exact hmid e he
    · rcases List.mem_cons.mp he with rfl | he
      · rfl
      · exact hmid' e he
  · -- the first CQE behind the arming is owed a call, which has not come before the poll
    have hnot := hspent.resolve_left hmid
    obtain ⟨before, wc', after, rfl, hbefore⟩ := exists_first_append hmid
    rcases h.owed pre before (after ++ .drained :: (mid' ++ .appended wc :: post)) wc'
      (by simpa using hs) hbefore with hc | hn
    · left
      simp only [List.mem_append, List.mem_cons, reduceCtorEq, false_or, not_or] at hc hnot
      exact (hc.resolve_left hnot.1.2).resolve_left hnot.2
    · exact Or.inr hn

theorem cqInv_new : CqInv newCq where
  order := rfl
  armed pre post hs := by simp [newCq] at hs
  owed pre mid post wc hs := by simp [newCq] at hs

/-- CQEs are returned once and in order whatever the calls do. -/
theorem pollsInOrder_run (hs : run SharedCq.step newCq is = some s) : PollsInOrder s :=
  run_preserves (fun _ _ _ h hi => h.step hi) cqInv_new.order hs

/-- In every run that appends to an armed queue only while somebody is going to call the completion
handler, no wake-up is lost. -/
theorem wakeups_kept (h : Meets SharedCq.step CqFits newCq is) :
    Always SharedCq.step (fun s => NoWakeupLost s ∧ PollsInOrder s) newCq is :=
  (always_of_step (fun _ _ _ hinv hi hs => hinv.step hi hs) cqInv_new h).imp fun _ hinv =>
    ⟨hinv.noWakeupLost, hinv.order⟩

/-- The queue as `bgvrnic_add_cqe` in one step sees it. -/
def SharedCq.cq (s : SharedCq) : VrnicCq :=
  { entries := s.entries
    nextComp := nextCompSet s.flags
    events := s.trace.count .called }

/-- A call of `bgvrnic_add_cqe` that nobody gets in the way of is its steps in a row. -/
theorem addSendCqe_steps {qpNum : Nat} {wqe : SendWqe} {alloc : Bool} {cq' : VrnicCq} {rc : Int}
    (hk : s.calls k = none) (h : addSendCqe s.cq qpNum wqe alloc = some (cq', rc)) :
    ∃ is s', run SharedCq.step s is = some s' ∧ s'.cq = cq' ∧ s'.calls = s.calls := by
  cases alloc with
  | false =>
    cases Option.some.inj h
    exact ⟨[], s, rfl, rfl, rfl⟩
  | true =>
    obtain ⟨op, hop, h⟩ := Option.bind_eq_some_iff.mp h
    cases Option.some.inj h
    have hself : Function.update s.calls k none = s.calls := Function.update_eq_self_iff.mpr hk.symm
    let wc := cqeOf qpNum wqe wqe.wr.wrId op
    let s' : SharedCq :=
      { s with entries := s.entries ++ [wc], flags := 0, trace := s.trace ++ [.appended wc] }
    have hempty : nextCompSet 0 = false := rfl
    have hpush : ∀ due, generateEvent s.flags wc = due → s.cq.push wc
        (wc.status ≠ ibWcSuccess || s.cq.nextComp) = s.cq.push wc due := by
      intro due hdue
      rw [← hdue]
      rfl
    cases hg : generateEvent s.flags wc with
    | true =>
      refine ⟨[.addCqe k qpNum wqe true, .readFlags k, .append k, .callHandler k],
        s'.log .called, ?_, ?_, rfl⟩
      · simp [run, SharedCq.step, SharedCq.setCall, SharedCq.log, hk, hop, hself, hg, s', wc]
      · rw [hpush true hg]
        simp [SharedCq.cq, VrnicCq.push, SharedCq.log, s', hempty]
    | false =>
      refine ⟨[.addCqe k qpNum wqe true, .readFlags k, .append k], s', ?_, ?_, rfl⟩
      · simp [run, SharedCq.step, SharedCq.setCall, SharedCq.log, hk, hop, hself, hg, s', wc]
      · rw [hpush false hg]
        simp [SharedCq.cq, VrnicCq.push, s', hempty]

/-- A send that has succeeded. -/
def sentWqe : SendWqe :=
  { allocSendWqe 0 ⟨7, [⟨0x1000, 64, 1⟩], .send, true, false, 0, 0, 0⟩ with state := .done }

/-- The consumer arms the queue and finds it empty before the call reads the flags. -/
def armedInTime : List CqInput :=
  [.reqNotifyCq ibCqNextComp, .pollCq 1, .addCqe 0 1 sentWqe true, .readFlags 0, .append 0,
    .callHandler 0]

theorem wakeups_kept_armedInTime :
    Always SharedCq.step (fun s => NoWakeupLost s ∧ PollsInOrder s) newCq armedInTime := by
  apply wakeups_kept
  intro s₁ h₁
  refine ⟨trivial, fun s₂ h₂ => ⟨trivial, fun s₃ h₃ => ⟨trivial, fun s₄ h₄ => ⟨trivial, ?_⟩⟩⟩⟩
  cases Option.some.inj h₁
  cases Option.some.inj h₂
  cases Option.some.inj h₃
  cases Option.some.inj h₄
  refine fun s₅ h₅ => ⟨fun _ => ⟨0, _, rfl, rfl⟩, fun s₆ h₆ => ⟨trivial, trivial⟩⟩

/-- The flags are read before the consumer arms the queue, and the CQE is appended after its poll. -/
def armedTooLate : List CqInput :=
  [.addCqe 0 1 sentWqe true, .readFlags 0, .reqNotifyCq ibCqNextComp, .pollCq 1, .append 0]

theorem early_read_loses_wakeup :
    ¬ ∀ is, Always SharedCq.step (fun s => NoWakeupLost s ∧ PollsInOrder s) newCq is := by
  intro h
  obtain ⟨hkept, -⟩ := (h armedTooLate).last rfl
  rcases hkept [] [] [] [] _ rfl (by simp) (Or.inl (by simp)) with hc | ⟨k, c, hk, -⟩
  · cases hc
  · have hk' : none = some c := by
      cases k with
      | zero => exact hk
      | succ k => exact hk
    cases hk'

end BgqVrnic
