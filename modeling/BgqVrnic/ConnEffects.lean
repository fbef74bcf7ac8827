import BgqVrnic.ConnRuns

namespace BgqVrnic

/-- `m'` has the states and the size of `m`. -/
structure KeepsStates (m m' : MyContext) : Prop where
  stateOf : m'.stateOf = m.stateOf
  maxConnections : m'.maxConnections = m.maxConnections

/-- `m'` has the states of `m`, but for that of `c`. -/
structure SetsState (m m' : MyContext) (c : Nat) (s : ConnState) : Prop where
  stateOf : m'.stateOf = Function.update m.stateOf c s
  maxConnections : m'.maxConnections = m.maxConnections

variable {m m' m₁ m₂ : MyContext} {c t destNode : Nat} {s s' : ConnState} {f : Connection → Connection}
  {env : CallEnv} {req reply : IonetConnect} {r : CallResult} {pkt : ConnPacket} {hdr : IonetHeader}

namespace KeepsStates

theorem refl (m : MyContext) : KeepsStates m m := ⟨rfl, rfl⟩

theorem trans (h : KeepsStates m m₁) (h' : KeepsStates m₁ m₂) : KeepsStates m m₂ :=
  ⟨h'.stateOf.trans h.stateOf, h'.maxConnections.trans h.maxConnections⟩

theorem sets (h : KeepsStates m m₁) (h' : SetsState m₁ m₂ c s) : SetsState m m₂ c s :=
  ⟨by rw [h'.stateOf, h.stateOf], h'.maxConnections.trans h.maxConnections⟩

theorem modify (h : (f (m.conn c)).state = (m.conn c).state) : KeepsStates m (m.modify c f) :=
  ⟨MyContext.field_modify_same Connection.state h, rfl⟩

theorem take (h : connListGetfree m t = some (c, m')) : KeepsStates m m' := by
  have htaken := connListGetfree_spec h
  refine ⟨funext fun x => ?_, ?_⟩
  · show (m'.conn x).state = (m.conn x).state
    rw [htaken.conn]
    by_cases hx : x = c
    · rw [hx, Function.update_self]
    · rw [Function.update_of_ne hx]
  · rw [htaken.free]

end KeepsStates

namespace SetsState

theorem trans (h : SetsState m m₁ c s) (h' : SetsState m₁ m₂ c s') : SetsState m m₂ c s' :=
  ⟨by rw [h'.stateOf, h.stateOf, Function.update_idem],
    h'.maxConnections.trans h.maxConnections⟩

theorem keeps (h : SetsState m m₁ c s) (h' : KeepsStates m₁ m₂) : SetsState m m₂ c s :=
  ⟨h'.stateOf.trans h.stateOf, h'.maxConnections.trans h.maxConnections⟩

theorem modify : SetsState m (m.modify c f) c (f (m.conn c)).state :=
  ⟨MyContext.field_modify Connection.state, rfl⟩

theorem pend (m : MyContext) (c : Nat) (k : Link) :
    SetsState m (putOnPendingList m c k) c .pending :=
  ⟨putOnPendingList_stateOf m c k, maxConnections_of_rest (putOnPendingList_rest m c k)⟩

theorem activate (h : connectionActivate m c = some m') : SetsState m m' c .active := by
  obtain ⟨a, p, hact⟩ := connectionActivate_spec h
  exact ⟨hact.state, maxConnections_of_rest hact.rest⟩

theorem free (h : connectionFree m c = some m') : SetsState m m' c .free := by
  obtain ⟨heads, hfree⟩ := connectionFree_spec h
  exact ⟨hfree.state, maxConnections_of_rest hfree.rest⟩

theorem state_self (h : SetsState m m' c s) : (m'.conn c).state = s := by
  have hself := congrFun h.stateOf c
  rw [Function.update_self] at hself
  exact hself

theorem state_of_ne (h : SetsState m m' c s) {x : Nat} (hx : x ≠ c) :
    (m'.conn x).state = (m.conn x).state := by
  have hother := congrFun h.stateOf x
  rw [Function.update_of_ne hx] at hother
  exact hother

end SetsState

theorem sendRequest_effect (hr : sendRequest m env destNode req c = some r) :
    r.connContext = some c ∧ SetsState m r.m c (if r.rc = 0 then .pending else .free) := by
  have hpend : SetsState m (m.requestPending destNode req c) c .pending :=
    (KeepsStates.modify rfl).sets (.pend _ c 0)
  cases sendRequest_outcome hr with
  | sent => exact ⟨rfl, hpend⟩
  | lost m₁ _ _ hfree => exact ⟨rfl, hpend.trans (.free hfree)⟩
  | noPacket m₁ _ hfree => exact ⟨rfl, .free hfree⟩

/-- A call of `mudm_connect` takes the first free context, or none; the context is pending only if the
call succeeds. -/
theorem mudmConnect_effect (hr : mudmConnect m env destNode req = some r) :
    (∃ c, m.connFreelist = some c ∧ r.connContext = some c ∧
        SetsState m r.m c (if r.rc = 0 then .pending else .free)) ∨
      r.connContext = none ∧ r.rc ≠ 0 ∧ r.m = m := by
  cases mudmConnect_outcome hr with
  | stopped rc hrc _ => exact Or.inr ⟨rfl, hrc, rfl⟩
  | called c m₁ _ _ _ hget hsend =>
    have horient : KeepsStates m (m₁.modify c (Connection.orientRequest m₁ destNode)) :=
      (KeepsStates.take hget).trans (.modify rfl)
    obtain ⟨hctx, hsets⟩ := sendRequest_effect hsend
    exact Or.inl ⟨c, (connListGetfree_spec hget).head, hctx, horient.sets hsets⟩

/-- What `mudm_conn_reply` does with its context: nothing, if it fails before it has its packet; else
it gives it up, or it succeeds and activates it. -/
inductive ReplyEffect (m : MyContext) (c status : Nat) (r : CallResult) : Prop
  | stopped (h : KeepsStates m r.m) (hrc : r.rc ≠ 0)
  | freed (h : SetsState m r.m c .free) (hrc : r.rc = -ENOTCONN ∨ status ≠ 0)
  | activated (h : SetsState m r.m c .active) (hrc : r.rc = 0) (hst : status = 0)

theorem KeepsStates.replyFilled : KeepsStates m (m.replyFilled reply c) :=
  (KeepsStates.modify (m := m) rfl).trans (.modify rfl)

theorem sendReply_effect (hr : sendReply m env c reply = some r) :
    ReplyEffect m c reply.body.status r := by
  have hdesc : KeepsStates m (m.replyDescribed reply c) := .modify rfl
  cases sendReply_outcome hr with
  | aborted m₁ _ hfree =>
    refine .freed (hdesc.sets (.free hfree)) ?_
    by_cases hst : reply.body.status = 0
    · exact Or.inl (if_pos hst)
    · exact Or.inr hst
  | refused m₁ _ hst hfree => exact .freed (KeepsStates.replyFilled.sets (.free hfree)) (Or.inr hst)
  | lost m₁ m₂ _ _ _ hact hfree =>
    have hactive := KeepsStates.replyFilled.sets (.activate hact)
    exact .freed (hactive.trans (.free hfree)) (Or.inl rfl)
  | sent m₁ _ hst _ hact => exact .activated (KeepsStates.replyFilled.sets (.activate hact)) rfl hst

theorem ReplyEffect.max {status : Nat} (h : ReplyEffect m c status r) :
    r.m.maxConnections = m.maxConnections := by
  cases h with
  | stopped h _ => exact h.maxConnections
  | freed h _ => exact h.maxConnections
  | activated h _ _ => exact h.maxConnections

theorem ReplyEffect.others {status b : Nat} (h : ReplyEffect m c status r) (hb : b ≠ c) :
    (r.m.conn b).state = (m.conn b).state := by
  cases h with
  | stopped h _ => exact congrFun h.stateOf b
  | freed h _ => exact h.state_of_ne hb
  | activated h _ _ => exact h.state_of_ne hb

theorem mudmConnReply_effect (hr : mudmConnReply m env c reply = some r) :
    ReplyEffect m c reply.body.status r := by
  have hcount : KeepsStates m (m.modify c fun k => { k with memfifoSent := 0 }) := .modify rfl
  by_cases hgo : ReplyGoes m env c reply
  · rw [mudmConnReply_goes hgo] at hr
    cases sendReply_effect hr with
    | stopped h hrc => exact .stopped (hcount.trans h) hrc
    | freed h hrc => exact .freed (hcount.sets h) hrc
    | activated h hrc hst => exact .activated (hcount.sets h) hrc hst
  · obtain ⟨rc, hrc, he⟩ := mudmConnReply_stopped hgo
    rw [he] at hr
    cases Option.some.inj hr
    exact .stopped hcount hrc

/-- A call of `mudm_conn_reply` that goes through with its reply. -/
theorem mudmConnReply_activates (hgo : ReplyGoes m env c reply) (hlink : env.linkActive = true)
    (hs : (m.conn c).state ≠ .aborted) (hst : reply.body.status = 0)
    (hr : mudmConnReply m env c reply = some r) : SetsState m r.m c .active := by
  have hcount : KeepsStates m (m.modify c fun k => { k with memfifoSent := 0 }) := .modify rfl
  rw [mudmConnReply_goes hgo] at hr
  generalize m.modify c (fun k => { k with memfifoSent := 0 }) = m₀ at hcount hr
  cases sendReply_outcome hr with
  | aborted m₁ haborted _ => exact absurd ((congrFun hcount.stateOf c).symm.trans haborted) hs
  | refused m₁ _ hne _ => exact absurd hst hne
  | lost m₁ m₂ _ _ hdown _ _ =>
    rw [hlink] at hdown
    cases hdown
  | sent m₁ _ _ _ hact => exact hcount.sets (KeepsStates.replyFilled.sets (.activate hact))

theorem mudmDisconnect_effect {x : MyContext × Int × Option MemFifoDescriptor}
    (h : mudmDisconnect m env c = some x) :
    x.1 = m ∨ SetsState m x.1 c .free ∨ SetsState m x.1 c .disconnecting := by
  have hmark : SetsState m (m.leaving c) c .disconnecting := .modify
  cases mudmDisconnect_outcome h with
  | stopped => exact Or.inl rfl
  | lost => exact Or.inr (Or.inr hmark)
  | sent m₁ _ _ hfree => exact Or.inr (Or.inl (hmark.trans (.free hfree)))

theorem connectRequest_effect (m : MyContext) (t : Nat) (pkt : ConnPacket) :
    (∃ c, m.connFreelist = some c ∧ (connectRequest m t pkt).2 = some c ∧
        SetsState m (connectRequest m t pkt).1 c .pending) ∨
      connectRequest m t pkt = (m, none) := by
  generalize hx : connectRequest m t pkt = x
  cases connectRequest_outcome hx with
  | full => exact Or.inr rfl
  | taken c m₁ blocks codes hget =>
    have hanswer : KeepsStates m (m₁.modify c (Connection.answerRequest m₁ pkt)) :=
      (KeepsStates.take hget).trans (.modify rfl)
    have hreset : KeepsStates m { m₁.modify c (Connection.answerRequest m₁ pkt) with
        remoteBlockID := blocks, link4reset := codes } :=
      ⟨hanswer.stateOf, hanswer.maxConnections⟩
    have hpend := hreset.sets (.pend _ c (arrivalLink m pkt))
    exact Or.inl ⟨c, (connListGetfree_spec hget).head, rfl,
      hpend.keeps (.modify (c := c) (f := fun k => { k with memfifoSent := 0 }) rfl)⟩

/-- A reply activates the context that it is for, or frees it if it refuses. -/
theorem connectReply_effect {x : MyContext × Option Nat} (hctx : replyContext m pkt = some c)
    (h : connectReply m pkt = some x) :
    SetsState m x.1 c (if pkt.body.status = 0 then .active else .free) := by
  have haccept : KeepsStates m (m.modify c (Connection.acceptReply pkt)) := .modify rfl
  cases connectReply_outcome hctx h with
  | accepted m₁ hst hact =>
    rw [if_pos hst]
    exact haccept.sets (.activate hact)
  | refused m₁ m₂ hst hact hfree =>
    rw [if_neg hst]
    exact (haccept.sets (.activate hact)).trans (.free hfree)

/-- A packet that disconnects frees the context that it names, which was not free. -/
theorem disconnectRequest_effect {x : MyContext × Int × Option Nat}
    (h : disconnectRequest m hdr = some x) :
    x.2.2 = none ∧ x.1 = m ∨
      ∃ c, x.2.2 = some c ∧ SetsState m x.1 c .free := by
  cases disconnectRequest_outcome h with
  | stopped => exact Or.inl ⟨rfl, rfl⟩
  | freed m₁ _ _ _ hfree => exact Or.inr ⟨_, rfl, .free hfree⟩

end BgqVrnic
