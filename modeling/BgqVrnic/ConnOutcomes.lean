import BgqVrnic.ConnListSpec
import BgqVrnic.ConnPackets

namespace BgqVrnic

namespace MyContext

/-- With the request of `mudm_connect` on the context `c`, which is pending. -/
def requestPending (m : MyContext) (destNode : Nat) (req : IonetConnect) (c : Nat) : MyContext :=
  putOnPendingList (m.modify c (Connection.fillRequest m destNode req)) c 0

/-- With the descriptor of a reply on the context `c`. -/
def replyDescribed (m : MyContext) (reply : IonetConnect) (c : Nat) : MyContext :=
  m.modify c fun k => { k with memFifo := (m.conn c).replyDescriptor m reply }

def replyFilled (m : MyContext) (reply : IonetConnect) (c : Nat) : MyContext :=
  (m.replyDescribed reply c).modify c (Connection.fillReply (m.replyDescribed reply c))

/-- With the context `c` marked, and the header of its disconnect in its descriptor. -/
def leaving (m : MyContext) (c : Nat) : MyContext :=
  m.modify c fun k => { k with memFifo := (m.conn c).disconnectDescriptor, state := .disconnecting }

end MyContext

/-- The link on which a request arrives. -/
def arrivalLink (m : MyContext) (pkt : ConnPacket) : Link :=
  requestLink (setDirectionRequest m.myTorusAddress pkt.desc.hdr.torusSourceNode)
    pkt.payload.usingIOPort

section Outcomes

variable (m : MyContext) (env : CallEnv) (destNode c t : Nat) (req reply : IonetConnect)
  (pkt : ConnPacket) (hdr : IonetHeader)

inductive SendRequestOutcome : CallResult → Prop
  | sent (hpkt : env.pktFree = true) (hlink : env.linkActive = true) :
      SendRequestOutcome ⟨m.requestPending destNode req c, 0, some c,
        some ⟨((m.requestPending destNode req c).conn c).memFifo, req.body,
          ((m.conn c).fillRequest m destNode req).connectPayload m 0xffff m.myUsingIOPort⟩⟩
  | lost (m₁ : MyContext) (hpkt : env.pktFree = true) (hlink : env.linkActive = false)
      (hfree : connectionFree (m.requestPending destNode req c) c = some m₁) :
      SendRequestOutcome ⟨m₁, -ECANCELED, some c, none⟩
  | noPacket (m₁ : MyContext) (hpkt : env.pktFree = false) (hfree : connectionFree m c = some m₁) :
      SendRequestOutcome ⟨m₁, -EBUSY, some c, none⟩

inductive MudmConnectOutcome : CallResult → Prop
  | stopped (rc : Int) (hrc : rc ≠ 0)
      (hstop : m.magic = false ∨ mudmMaxPrivateData < req.body.privateData.length ∨
        m.connFreelist = none) : MudmConnectOutcome ⟨m, rc, none, none⟩
  | called (c : Nat) (m₁ : MyContext) (r : CallResult) (hmagic : m.magic = true)
      (hlength : req.body.privateData.length ≤ mudmMaxPrivateData)
      (hget : connListGetfree m env.timeBase = some (c, m₁))
      (hsend : sendRequest (m₁.modify c (Connection.orientRequest m₁ destNode)) env destNode req c =
        some r) : MudmConnectOutcome r

inductive ConnectRequestOutcome : MyContext × Option Nat → Prop
  | full (hget : connListGetfree m t = none) : ConnectRequestOutcome (m, none)
  | taken (c : Nat) (m₁ : MyContext) (blocks codes : Link → Nat)
      (hget : connListGetfree m t = some (c, m₁)) :
      ConnectRequestOutcome
        ((putOnPendingList
          { m₁.modify c (Connection.answerRequest m₁ pkt) with
            remoteBlockID := blocks, link4reset := codes } c (arrivalLink m pkt)).modify c
          fun k => { k with memfifoSent := 0 }, some c)

/-- For a reply that names the context `c`. -/
inductive ConnectReplyOutcome : MyContext × Option Nat → Prop
  | accepted (m₁ : MyContext) (hst : pkt.body.status = 0)
      (hact : connectionActivate (m.modify c (Connection.acceptReply pkt)) c = some m₁) :
      ConnectReplyOutcome (m₁, some c)
  | refused (m₁ m₂ : MyContext) (hst : pkt.body.status ≠ 0)
      (hact : connectionActivate (m.modify c (Connection.acceptReply pkt)) c = some m₁)
      (hfree : connectionFree m₁ c = some m₂) : ConnectReplyOutcome (m₂, some c)

/-- A reply that has its packet: it frees an aborted connection, and one that it refuses; it activates any
other, which is lost if the packet does not go out. -/
inductive SendReplyOutcome : CallResult → Prop
  | aborted (m₁ : MyContext) (hs : (m.conn c).state = .aborted)
      (hfree : connectionFree (m.replyDescribed reply c) c = some m₁) :
      SendReplyOutcome ⟨m₁, if reply.body.status = 0 then -ENOTCONN else 0, none, none⟩
  | refused (m₁ : MyContext) (hs : (m.conn c).state ≠ .aborted) (hst : reply.body.status ≠ 0)
      (hfree : connectionFree (m.replyFilled reply c) c = some m₁) :
      SendReplyOutcome ⟨m₁, 0, none, if env.linkActive = true then
        some ⟨(m.conn c).replyDescriptor m reply, reply.body,
          (m.conn c).connectPayload m (m.conn c).destConnIndex (m.conn c).ioPort⟩ else none⟩
  | lost (m₁ m₂ : MyContext) (hs : (m.conn c).state ≠ .aborted) (hst : reply.body.status = 0)
      (hlink : env.linkActive = false)
      (hact : connectionActivate (m.replyFilled reply c) c = some m₁)
      (hfree : connectionFree m₁ c = some m₂) : SendReplyOutcome ⟨m₂, -ENOTCONN, none, none⟩
  | sent (m₁ : MyContext) (hs : (m.conn c).state ≠ .aborted) (hst : reply.body.status = 0)
      (hlink : env.linkActive = true)
      (hact : connectionActivate (m.replyFilled reply c) c = some m₁) :
      SendReplyOutcome ⟨m₁, 0, none,
        some ⟨(m.conn c).replyDescriptor m reply, reply.body,
          (m.conn c).connectPayload m (m.conn c).destConnIndex (m.conn c).ioPort⟩⟩

inductive MudmDisconnectOutcome : MyContext × Int × Option MemFifoDescriptor → Prop
  | stopped (rc : Int) (hrc : rc ≠ 0)
      (hs : (m.conn c).magic = false ∨ (m.conn c).state = .free ∨
        (m.conn c).state = .disconnecting) : MudmDisconnectOutcome (m, rc, none)
  | lost (hs : (m.conn c).state ≠ .free) (hlink : env.linkActive = false) :
      MudmDisconnectOutcome (m.leaving c, -ECANCELED, none)
  | sent (m₁ : MyContext) (hs : (m.conn c).state ≠ .free) (hlink : env.linkActive = true)
      (hfree : connectionFree (m.leaving c) c = some m₁) :
      MudmDisconnectOutcome (m₁, -ENOSYS, some (m.conn c).disconnectDescriptor)

inductive DisconnectRequestOutcome : MyContext × Int × Option Nat → Prop
  | stopped (rc : Int) (hrc : rc ≠ 0) : DisconnectRequestOutcome (m, rc, none)
  | freed (m₁ : MyContext) (hc : hdr.sequenceNumber < m.maxConnections)
      (hkey : hdr.payloadLength = (m.conn hdr.sequenceNumber).lowbitTimestamp)
      (hs : (m.conn hdr.sequenceNumber).state ≠ .free)
      (hfree : connectionFree m hdr.sequenceNumber = some m₁) :
      DisconnectRequestOutcome (m₁, 0, some hdr.sequenceNumber)

end Outcomes

variable {m m' : MyContext} {env : CallEnv} {destNode c t : Nat} {req reply : IonetConnect}
  {pkt : ConnPacket} {hdr : IonetHeader} {r : CallResult}

theorem connectionFree_setState {s : ConnState} :
    connectionFree (m.setState c s) c = connectionFree m c := by
  have he : (m.setState c s).setState c .free = m.setState c .free := by
    unfold MyContext.setState MyContext.modify
    simp
  unfold connectionFree
  rw [he]

/-- `CONN_RESP_ERR` only tells from the status what to return. -/
theorem connRespErr_eq {status : Nat} :
    connRespErr m c status =
      (connectionFree m c).map fun m' => (m', if status = 0 then -ENOTCONN else 0) := by
  unfold connRespErr
  by_cases hst : status = 0
  · rw [if_pos hst, connectionFree_setState]
    cases connectionFree m c <;> simp [hst]
  · rw [if_neg hst]
    cases connectionFree m c <;> simp [hst]

theorem connListGetfree_none (h : connListGetfree m t = none) : m.connFreelist = none := by
  unfold connListGetfree at h
  split at h
  next hlist => exact hlist
  next => cases h

theorem replyContext_names (hctx : replyContext m pkt = some c) :
    pkt.payload.destConnIndex = c ∧ c < m.maxConnections := by
  unfold replyContext at hctx
  split at hctx
  next hin =>
    cases Option.some.inj hctx
    exact ⟨rfl, hin.1⟩
  next => cases hctx

theorem sendRequest_outcome (hr : sendRequest m env destNode req c = some r) :
    SendRequestOutcome m env destNode c req r := by
  unfold sendRequest at hr
  split at hr
  next hpkt =>
    dsimp only at hr
    split at hr
    next hlink =>
      rw [MyContext.conn_modify_self] at hr
      cases Option.some.inj hr
      exact .sent hpkt hlink
    next hlink =>
      obtain ⟨m₁, hm₁, hr⟩ := Option.bind_eq_some_iff.mp hr
      cases Option.some.inj hr
      exact .lost m₁ hpkt (Bool.eq_false_iff.mpr hlink) hm₁
  next hpkt =>
    obtain ⟨m₁, hm₁, hr⟩ := Option.bind_eq_some_iff.mp hr
    cases Option.some.inj hr
    exact .noPacket m₁ (Bool.eq_false_iff.mpr hpkt) hm₁

theorem mudmConnect_outcome (hr : mudmConnect m env destNode req = some r) :
    MudmConnectOutcome m env destNode req r := by
  unfold mudmConnect at hr
  split at hr
  next hmagic =>
    cases Option.some.inj hr
    exact .stopped _ (by decide) (Or.inl hmagic)
  next hmagic =>
    split at hr
    next hlength =>
      cases Option.some.inj hr
      exact .stopped _ (by decide) (Or.inr (Or.inl hlength))
    next hlength =>
      split at hr
      next hget =>
        cases Option.some.inj hr
        exact .stopped _ (by decide) (Or.inr (Or.inr (connListGetfree_none hget)))
      next c m₁ hget =>
        exact .called c m₁ r (eq_true_of_ne_false hmagic) (Nat.le_of_not_lt hlength) hget hr

theorem connectRequest_outcome {x : MyContext × Option Nat} (hx : connectRequest m t pkt = x) :
    ConnectRequestOutcome m t pkt x := by
  subst hx
  unfold connectRequest
  split
  next hget => exact .full hget
  next c m₁ hget =>
    have hlink : requestLink ((m₁.modify c (Connection.answerRequest m₁ pkt)).conn c).direction
        pkt.payload.usingIOPort = arrivalLink m pkt := by
      rw [MyContext.conn_modify_self, (connListGetfree_spec hget).free]
      rfl
    dsimp only
    rw [hlink]
    exact .taken c m₁ _ _ hget

theorem connectReply_unknown (hctx : replyContext m pkt = none) :
    connectReply m pkt = some (m, none) := by
  unfold connectReply
  rw [hctx]

theorem connectReply_outcome {x : MyContext × Option Nat} (hctx : replyContext m pkt = some c)
    (hx : connectReply m pkt = some x) : ConnectReplyOutcome m c pkt x := by
  unfold connectReply at hx
  rw [hctx] at hx
  obtain ⟨m₁, hm₁, hx⟩ := Option.bind_eq_some_iff.mp hx
  obtain ⟨m₂, hm₂, hx⟩ := Option.bind_eq_some_iff.mp hx
  cases Option.some.inj hx
  obtain ⟨m₀, hm₀, hm₁⟩ := Option.bind_eq_some_iff.mp hm₁
  cases Option.some.inj hm₁
  unfold replyHandled at hm₂
  by_cases hst : pkt.body.status = 0
  · rw [if_neg (not_not.mpr hst), if_neg (not_not.mpr hst)] at hm₂
    cases Option.some.inj hm₂
    exact .accepted _ hst hm₀
  · rw [if_pos hst, if_pos hst, connectionFree_setState] at hm₂
    exact .refused m₀ m₂ hst hm₀ hm₂

theorem sendReply_outcome (hr : sendReply m env c reply = some r) :
    SendReplyOutcome m env c reply r := by
  unfold sendReply at hr
  dsimp only at hr
  rw [MyContext.conn_modify_self] at hr
  simp only [connRespErr_eq] at hr
  by_cases hs : (m.conn c).state = .aborted
  · rw [if_pos hs] at hr
    obtain ⟨x, hx, hr⟩ := Option.bind_eq_some_iff.mp hr
    obtain ⟨m₁, hm₁, rfl⟩ := Option.map_eq_some_iff.mp hx
    cases Option.some.inj hr
    exact .aborted m₁ hs hm₁
  rw [if_neg hs] at hr
  obtain ⟨m₁, hm₁, hr⟩ := Option.bind_eq_some_iff.mp hr
  unfold replyState at hm₁
  by_cases hst : reply.body.status = 0
  · rw [if_neg (not_not.mpr hst)] at hm₁ hr
    rw [if_pos hst] at hr
    split at hr
    next hlink =>
      obtain ⟨x, hx, hr⟩ := Option.bind_eq_some_iff.mp hr
      obtain ⟨m₂, hm₂, rfl⟩ := Option.map_eq_some_iff.mp hx
      cases Option.some.inj hr
      exact .lost m₁ m₂ hs hst hlink hm₁ hm₂
    next hlink =>
      cases Option.some.inj hr
      exact .sent m₁ hs hst (eq_true_of_ne_false hlink) hm₁
  · rw [if_pos hst] at hm₁ hr
    rw [if_neg hst] at hr
    cases Option.some.inj hm₁
    rw [connectionFree_setState] at hr
    have hrefused : ∀ m₂, connectionFree (m.replyFilled reply c) c = some m₂ →
        SendReplyOutcome m env c reply _ := fun m₂ hm₂ => .refused m₂ hs hst hm₂
    split at hr
    next hlink =>
      obtain ⟨x, hx, hr⟩ := Option.bind_eq_some_iff.mp hr
      obtain ⟨m₂, hm₂, rfl⟩ := Option.map_eq_some_iff.mp hx
      cases Option.some.inj hr
      have hfreed := hrefused m₂ hm₂
      rw [if_neg (by simp [hlink])] at hfreed
      exact hfreed
    next hlink =>
      obtain ⟨x, hx, hr⟩ := Option.bind_eq_some_iff.mp hr
      obtain ⟨m₂, hm₂, rfl⟩ := Option.map_eq_some_iff.mp hx
      cases Option.some.inj hr
      have hfreed := hrefused m₂ hm₂
      rw [if_pos (eq_true_of_ne_false hlink)] at hfreed
      exact hfreed

theorem mudmDisconnect_outcome {x : MyContext × Int × Option MemFifoDescriptor}
    (hx : mudmDisconnect m env c = some x) : MudmDisconnectOutcome m env c x := by
  unfold mudmDisconnect at hx
  split at hx
  next hmagic =>
    cases Option.some.inj hx
    exact .stopped _ (by decide) (Or.inl hmagic)
  next =>
    split at hx
    next hfree =>
      cases Option.some.inj hx
      exact .stopped _ (by decide) (Or.inr (Or.inl hfree))
    next hs =>
      split at hx
      next hdis =>
        cases Option.some.inj hx
        exact .stopped _ (by decide) (Or.inr (Or.inr hdis))
      next =>
        dsimp only at hx
        split at hx
        next hlink =>
          obtain ⟨m₁, hm₁, hx⟩ := Option.bind_eq_some_iff.mp hx
          cases Option.some.inj hx
          exact .sent m₁ hs hlink hm₁
        next hlink =>
          cases Option.some.inj hx
          exact .lost hs (Bool.eq_false_iff.mpr hlink)

theorem disconnectRequest_outcome {x : MyContext × Int × Option Nat}
    (hx : disconnectRequest m hdr = some x) : DisconnectRequestOutcome m hdr x := by
  unfold disconnectRequest at hx
  dsimp only at hx
  split at hx
  next =>
    cases Option.some.inj hx
    exact .stopped _ (by decide)
  next hin =>
    split at hx
    next =>
      cases Option.some.inj hx
      exact .stopped _ (by decide)
    next hkey =>
      split at hx
      next =>
        cases Option.some.inj hx
        exact .stopped _ (by decide)
      next hs =>
        split at hx
        next =>
          cases Option.some.inj hx
          exact .stopped _ (by decide)
        next =>
          obtain ⟨m₁, hm₁, hx⟩ := Option.bind_eq_some_iff.mp hx
          cases Option.some.inj hx
          rw [connectionFree_setState] at hm₁
          exact .freed m₁ (Nat.lt_of_not_le (not_or.mp hin).1) (not_not.mp hkey) hs hm₁

end BgqVrnic
