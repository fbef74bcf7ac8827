import BgqVrnic.ConnRuns

namespace BgqVrnic

/-- A context without its links. -/
def Connection.unlinked (k : Connection) : Connection := { k with nextconn := none, prevconn := none }

namespace MyContext

def unlinkedOf (m : MyContext) (i : Nat) : Connection := (m.conn i).unlinked

/-- What the tables say about the node itself. -/
def fixed (m : MyContext) : MyContext :=
  { m with
    conn := fun _ => default
    connFreelist := none
    connPendlist := fun _ => none
    connActivelist := fun _ => none
    connAbortlist := fun _ => none
    remoteBlockID := fun _ => 0
    link4reset := fun _ => 0 }

end MyContext

/-- `m'` is `m` with `k` for the context `c`, up to the links. -/
structure Writes (m m' : MyContext) (c : Nat) (k : Connection) : Prop where
  conn : m'.unlinkedOf = Function.update m.unlinkedOf c k.unlinked
  fixed : m'.fixed = m.fixed

variable {m m' m₁ m₂ : MyContext} {c i t destNode : Nat} {k k' : Connection} {l : Link} {s : ConnState}
  {f : Connection → Connection} {env : CallEnv} {req reply : IonetConnect} {r : CallResult}
  {pkt : ConnPacket} {hdr : IonetHeader}

theorem fixed_of_rest (h : m'.rest = m.rest) : m'.fixed = m.fixed := by
  have hfixed := congrArg MyContext.fixed h
  exact hfixed

/-- What does not look at the links is the same of two contexts that are the same without them. -/
theorem field_of_unlinked {α : Type} (g : Connection → α) (h : k.unlinked = k'.unlinked)
    (hg : ∀ k : Connection, g k.unlinked = g k) : g k = g k' := by
  rw [← hg k, h, hg]

/-- The fields that the list operations write, beside the data. -/
theorem unlinkedOf_eq (m : MyContext) (i : Nat) : m.unlinkedOf i =
    { m.rest.conn i with
      state := m.stateOf i, connPendlist := m.pendOf i, magic := m.magicOf i } := rfl

namespace Writes

theorem refl (m : MyContext) (c : Nat) : Writes m m c (m.conn c) :=
  ⟨(Function.update_eq_self c m.unlinkedOf).symm, rfl⟩

theorem trans (h : Writes m m₁ c k) (h' : Writes m₁ m₂ c k') : Writes m m₂ c k' :=
  ⟨by rw [h'.conn, h.conn, Function.update_idem], h'.fixed.trans h.fixed⟩

theorem self (h : Writes m m' c k) : (m'.conn c).unlinked = k.unlinked := by
  have hself := congrFun h.conn c
  rw [Function.update_self] at hself
  exact hself

theorem other (h : Writes m m' c k) (hi : i ≠ c) : (m'.conn i).unlinked = (m.conn i).unlinked := by
  have hother := congrFun h.conn i
  rw [Function.update_of_ne hi] at hother
  exact hother

theorem congr (h : Writes m m' c k) (hk : k.unlinked = k'.unlinked) : Writes m m' c k' :=
  ⟨hk ▸ h.conn, h.fixed⟩

theorem modify : Writes m (m.modify c f) c (f (m.conn c)) :=
  ⟨MyContext.field_modify Connection.unlinked, rfl⟩

/-- The list operations write the data of no context, and the fields that they manage of one. -/
theorem of_rest (hrest : m'.rest = m.rest) {a : ConnState} {p : Option Link} {g : Bool}
    (hs : m'.stateOf = Function.update m.stateOf c a)
    (hp : m'.pendOf = Function.update m.pendOf c p)
    (hg : m'.magicOf = Function.update m.magicOf c g) :
    Writes m m' c { m.conn c with state := a, connPendlist := p, magic := g } := by
  refine ⟨funext fun i => ?_, fixed_of_rest hrest⟩
  rw [unlinkedOf_eq, hrest, hs, hp, hg]
  by_cases hi : i = c
  · subst hi
    simp only [Function.update_self]
    rfl
  · simp only [Function.update_of_ne hi]
    rfl

theorem state : Writes m (m.setState c s) c { m.conn c with state := s } := .modify

theorem pend (m : MyContext) (c : Nat) (l : Link) :
    Writes m (putOnPendingList m c l) c { m.conn c with state := .pending, connPendlist := some l } := by
  refine of_rest (putOnPendingList_rest m c l) (putOnPendingList_stateOf m c l)
    (putOnPendingList_pendOf m c l) (g := (m.conn c).magic) ?_
  rw [putOnPendingList_magicOf]
  exact (Function.update_eq_self c m.magicOf).symm

theorem activate (h : connectionActivate m c = some m') :
    Writes m m' c { m.conn c with state := .active } := by
  obtain ⟨a, p, hact⟩ := connectionActivate_spec h
  refine of_rest hact.rest hact.state (p := (m.conn c).connPendlist) (g := (m.conn c).magic) ?_ ?_
  · rw [hact.pend]
    exact (Function.update_eq_self c m.pendOf).symm
  · rw [hact.magic]
    exact (Function.update_eq_self c m.magicOf).symm

theorem free (h : connectionFree m c = some m') :
    Writes m m' c { m.conn c with state := .free, magic := true } := by
  obtain ⟨heads, hfree⟩ := connectionFree_spec h
  refine of_rest hfree.rest hfree.state (p := (m.conn c).connPendlist) ?_ hfree.magic
  rw [hfree.pend]
  exact (Function.update_eq_self c m.pendOf).symm

end Writes

/-- A context that `conn_list_getfree` has just taken. -/
def Connection.taken (timeBase : Nat) (k : Connection) : Connection :=
  { k with
    myTimestamp := timeBase
    lowbitTimestamp := low16 timeBase
    nextconn := none
    prevconn := none
    magic := true
    memfifoSent := 0
    rgetMemfifoSent := 0
    injfifoCtls := 0 }

theorem connListGetfree_writes (h : connListGetfree m t = some (c, m')) :
    m.connFreelist = some c ∧ m' = { m with connFreelist := m.next c, conn := m'.conn } ∧
      m'.conn c = (m.conn c).taken t ∧ Writes m m' c ((m.conn c).taken t) := by
  have htaken := connListGetfree_spec h
  have hself : m'.conn c = (m.conn c).taken t := by
    rw [htaken.conn, Function.update_self]
    rfl
  refine ⟨htaken.head, htaken.free, hself, funext fun i => ?_, ?_⟩
  · show (m'.conn i).unlinked = _
    rw [htaken.conn]
    by_cases hi : i = c
    · subst hi
      rw [Function.update_self, Function.update_self]
      rfl
    · rw [Function.update_of_ne hi, Function.update_of_ne hi]
      rfl
  · rw [htaken.free]
    rfl

namespace MyContext

/-- The context `c` once `mudm_connect` has sent a request on it. -/
def requesting (m : MyContext) (timeBase destNode : Nat) (req : IonetConnect) (c : Nat) : Connection :=
  { (((m.conn c).taken timeBase).orientRequest m destNode).fillRequest m destNode req with
    state := .pending, connPendlist := some 0 }

/-- The context `c` once `connect_request` has taken it for a request. -/
def answering (m : MyContext) (timeBase : Nat) (pkt : ConnPacket) (c : Nat) : Connection :=
  { ((m.conn c).taken timeBase).answerRequest m pkt with
    state := .pending, connPendlist := some (arrivalLink m pkt), memfifoSent := 0 }

/-- The context `c` with the descriptor of its reply. -/
def replyDesc (m : MyContext) (reply : IonetConnect) (c : Nat) : Connection :=
  { m.conn c with
    memfifoSent := 0
    memFifo := { m.conn c with memfifoSent := 0 }.replyDescriptor m reply }

/-- The context `c` once `mudm_conn_reply` has sent its reply. -/
def replying (m : MyContext) (reply : IonetConnect) (c : Nat) : Connection :=
  { (m.replyDesc reply c).fillReply m with state := .active }

end MyContext

theorem sendRequest_sends (hr : sendRequest m env destNode req c = some r) (hrc : r.rc = 0)
    (hk : k = { (m.conn c).fillRequest m destNode req with
      state := .pending, connPendlist := some 0 }) :
    r.connContext = some c ∧ Writes m r.m c k ∧
      r.sent = some ⟨k.memFifo, req.body, k.connectPayload m 0xffff m.myUsingIOPort⟩ := by
  cases sendRequest_outcome hr with
  | sent =>
    have hpend := Writes.pend (m.modify c (Connection.fillRequest m destNode req)) c 0
    have hself := hpend.self
    rw [MyContext.conn_modify_self, ← hk] at hpend hself
    have hfifo : ((m.requestPending destNode req c).conn c).memFifo = k.memFifo :=
      field_of_unlinked Connection.memFifo hself fun _ => rfl
    refine ⟨rfl, Writes.modify.trans hpend, ?_⟩
    rw [hfifo, hk]
    rfl
  | lost m₁ => exact absurd hrc (show -ECANCELED ≠ 0 by decide)
  | noPacket m₁ => exact absurd hrc (show -EBUSY ≠ 0 by decide)

/-- A call of `mudm_connect` that succeeds has sent its request on the first free context. -/
theorem mudmConnect_sends (hr : mudmConnect m env destNode req = some r) (hrc : r.rc = 0) :
    ∃ c, m.connFreelist = some c ∧ r.connContext = some c ∧
      Writes m r.m c (m.requesting env.timeBase destNode req c) ∧
      r.sent = some ⟨(m.requesting env.timeBase destNode req c).memFifo, req.body,
        (m.requesting env.timeBase destNode req c).connectPayload m 0xffff m.myUsingIOPort⟩ := by
  cases mudmConnect_outcome hr with
  | stopped rc hne _ => exact absurd hrc hne
  | called c m₁ _ _ _ hget hsend =>
    obtain ⟨hhead, hm₁, hself, hwrites⟩ := connListGetfree_writes hget
    have horient : Connection.orientRequest m₁ destNode = Connection.orientRequest m destNode := by
      rw [hm₁]
      rfl
    have hk : m.requesting env.timeBase destNode req c =
        { ((m₁.modify c (Connection.orientRequest m₁ destNode)).conn c).fillRequest
            (m₁.modify c (Connection.orientRequest m₁ destNode)) destNode req with
          state := .pending, connPendlist := some 0 } := by
      rw [MyContext.conn_modify_self, hself, horient, hm₁]
      rfl
    obtain ⟨hctx, hsends, hsent⟩ := sendRequest_sends hsend hrc hk
    refine ⟨c, hhead, hctx, (hwrites.trans .modify).trans hsends, ?_⟩
    rw [hsent, hm₁]
    rfl

theorem connectRequest_writes (hc : (connectRequest m t pkt).2 = some c) :
    m.connFreelist = some c ∧ Writes m (connectRequest m t pkt).1 c (m.answering t pkt c) := by
  generalize hx : connectRequest m t pkt = x at hc ⊢
  cases connectRequest_outcome hx with
  | full => cases hc
  | taken c' m₁ blocks codes hget =>
    cases Option.some.inj hc
    obtain ⟨hhead, hm₁, hself, hwrites⟩ := connListGetfree_writes hget
    refine ⟨hhead, ?_⟩
    have hanswer : (m₁.conn c).answerRequest m₁ pkt = ((m.conn c).taken t).answerRequest m pkt := by
      have he : Connection.answerRequest m₁ pkt = Connection.answerRequest m pkt := by
        rw [hm₁]
        rfl
      rw [hself, he]
    have hmodify := hwrites.trans (.modify (f := Connection.answerRequest m₁ pkt))
    rw [hanswer] at hmodify
    have hreset : Writes m { m₁.modify c (Connection.answerRequest m₁ pkt) with
        remoteBlockID := blocks, link4reset := codes } c
        (((m.conn c).taken t).answerRequest m pkt) := ⟨hmodify.conn, hmodify.fixed⟩
    have hpend := hreset.trans (.pend _ c (arrivalLink m pkt))
    have hcount := hpend.trans (.modify (f := fun k => { k with memfifoSent := 0 }))
    refine hcount.congr ?_
    have hsent := congrArg (fun k : Connection => { k with memfifoSent := 0 }) hpend.self
    refine hsent.trans ?_
    dsimp only
    rw [MyContext.conn_modify_self, hanswer]
    rfl

/-- The packet of a reply on the context `c`. -/
def MyContext.replyPacket (m : MyContext) (reply : IonetConnect) (c : Nat) : ConnPacket :=
  ⟨(m.replyDesc reply c).memFifo, reply.body,
    (m.replyDesc reply c).connectPayload m (m.conn c).destConnIndex (m.conn c).ioPort⟩

/-- What `mudm_conn_reply` does: it fails before it has its packet, or it gives the context up, for a
refusal or because the packet does not go out, or it activates the context and sends its reply. -/
inductive ReplyWrites (m : MyContext) (c : Nat) (reply : IonetConnect) (r : CallResult) : Prop
  | stopped (h : Writes m r.m c { m.conn c with memfifoSent := 0 }) (hrc : r.rc ≠ 0)
      (hsent : r.sent = none)
  | freed (k : Connection) (h : Writes m r.m c k) (hstate : k.state = .free)
      (hindex : k.myIndex = (m.conn c).myIndex) (hrc : r.rc = -ENOTCONN ∨ reply.body.status ≠ 0)
      (hsent : r.sent = none ∨ reply.body.status ≠ 0 ∧ r.sent = some (m.replyPacket reply c))
  | sent (h : Writes m r.m c (m.replying reply c)) (hrc : r.rc = 0) (hst : reply.body.status = 0)
      (hsent : r.sent = some (m.replyPacket reply c))

theorem sendReply_writes (hk : (m.conn c).memfifoSent = 0)
    (hr : sendReply m env c reply = some r) : ReplyWrites m c reply r := by
  have hdesc : m.replyDesc reply c =
      { m.conn c with memFifo := (m.conn c).replyDescriptor m reply } := by
    unfold MyContext.replyDesc
    rw [← hk]
  have hself : (m.replyDescribed reply c).conn c = m.replyDesc reply c :=
    MyContext.conn_modify_self.trans hdesc.symm
  have hpacket : m.replyPacket reply c = ⟨(m.conn c).replyDescriptor m reply, reply.body,
      (m.conn c).connectPayload m (m.conn c).destConnIndex (m.conn c).ioPort⟩ := by
    unfold MyContext.replyPacket
    rw [hdesc]
    rfl
  have hwrites : Writes m (m.replyDescribed reply c) c (m.replyDesc reply c) := hdesc ▸ .modify
  have hfill : Writes m (m.replyFilled reply c) c ((m.replyDesc reply c).fillReply m) := by
    have hmodify := hwrites.trans
      (.modify (f := Connection.fillReply (m.replyDescribed reply c)))
    rw [hself] at hmodify
    exact hmodify
  have hself₁ : (m.replyFilled reply c).conn c = (m.replyDesc reply c).fillReply m := by
    unfold MyContext.replyFilled
    rw [MyContext.conn_modify_self, hself]
    rfl
  have hactive : ∀ m₁, connectionActivate (m.replyFilled reply c) c = some m₁ →
      Writes m m₁ c (m.replying reply c) := by
    intro m₁ hact
    have hstate := hfill.trans (.activate hact)
    rw [hself₁] at hstate
    exact hstate
  cases sendReply_outcome hr with
  | aborted m₁ _ hfree =>
    refine .freed _ (hwrites.trans (.free hfree)) rfl (by rw [hself]; rfl) ?_ (Or.inl rfl)
    by_cases hst : reply.body.status = 0
    · exact Or.inl (if_pos hst)
    · exact Or.inr hst
  | refused m₁ _ hst hfree =>
    refine .freed _ (hfill.trans (.free hfree)) rfl (by rw [hself₁]; rfl) (Or.inr hst) ?_
    rw [hpacket]
    dsimp only
    split
    · exact Or.inr ⟨hst, rfl⟩
    · exact Or.inl rfl
  | lost m₁ m₂ _ _ _ hact hfree =>
    have hindex : (m₁.conn c).myIndex = (m.conn c).myIndex :=
      (field_of_unlinked Connection.myIndex (hactive m₁ hact).self fun _ => rfl).trans rfl
    exact .freed _ ((hactive m₁ hact).trans (.free hfree)) rfl hindex (Or.inl rfl) (Or.inl rfl)
  | sent m₁ _ hst _ hact => exact .sent (hactive m₁ hact) rfl hst (congrArg some hpacket.symm)

theorem mudmConnReply_writes (hr : mudmConnReply m env c reply = some r) :
    ReplyWrites m c reply r := by
  have hcount : Writes m (m.modify c fun k => { k with memfifoSent := 0 }) c
      { m.conn c with memfifoSent := 0 } := .modify
  have hself : (m.modify c fun k => { k with memfifoSent := 0 }).conn c =
      { m.conn c with memfifoSent := 0 } := MyContext.conn_modify_self
  by_cases hgo : ReplyGoes m env c reply
  · rw [mudmConnReply_goes hgo] at hr
    have hreply := sendReply_writes (by rw [hself]) hr
    have hdesc : (m.modify c fun k => { k with memfifoSent := 0 }).replyDesc reply c =
        m.replyDesc reply c := by
      unfold MyContext.replyDesc
      rw [hself]
      rfl
    have hpacket : (m.modify c fun k => { k with memfifoSent := 0 }).replyPacket reply c =
        m.replyPacket reply c := by
      unfold MyContext.replyPacket
      rw [hdesc, hself]
      rfl
    cases hreply with
    | stopped h hrc hsent =>
      rw [hself] at h
      exact .stopped (hcount.trans h) hrc hsent
    | freed k h hstate hindex hrc hsent =>
      rw [hself] at hindex
      rw [hpacket] at hsent
      exact .freed k (hcount.trans h) hstate hindex hrc hsent
    | sent h hrc hst hsent =>
      rw [hpacket] at hsent
      unfold MyContext.replying at h
      rw [hdesc] at h
      exact .sent (hcount.trans h) hrc hst hsent
  · obtain ⟨rc, hrc, he⟩ := mudmConnReply_stopped hgo
    rw [he] at hr
    cases Option.some.inj hr
    exact .stopped hcount hrc rfl

theorem sendRequest_writes (hr : sendRequest m env destNode req c = some r) :
    ∃ k, Writes m r.m c k ∧ k.myIndex = (m.conn c).myIndex ∧ (r.rc ≠ 0 → r.sent = none ∧ k.state = .free) := by
  have hpend : Writes m (m.requestPending destNode req c) c _ := Writes.modify.trans (.pend _ c 0)
  rw [MyContext.conn_modify_self] at hpend
  cases sendRequest_outcome hr with
  | sent => exact ⟨_, hpend, rfl, fun hrc => absurd rfl hrc⟩
  | lost m₁ _ _ hfree =>
    refine ⟨_, hpend.trans (.free hfree), ?_, fun _ => ⟨rfl, rfl⟩⟩
    exact (field_of_unlinked Connection.myIndex hpend.self fun _ => rfl).trans rfl
  | noPacket m₁ _ hfree => exact ⟨_, .free hfree, rfl, fun _ => ⟨rfl, rfl⟩⟩

/-- A call of `mudm_connect` that fails leaves its context free, if it has got one. -/
theorem mudmConnect_writes (hr : mudmConnect m env destNode req = some r) :
    r.m = m ∧ r.rc ≠ 0 ∧ r.sent = none ∨
      ∃ c k, m.connFreelist = some c ∧ Writes m r.m c k ∧ k.myIndex = (m.conn c).myIndex ∧
        (r.rc ≠ 0 → r.sent = none ∧ k.state = .free) := by
  cases mudmConnect_outcome hr with
  | stopped rc hrc _ => exact Or.inl ⟨rfl, hrc, rfl⟩
  | called c m₁ _ _ _ hget hsend =>
    obtain ⟨hhead, hm₁, hself, hwrites⟩ := connListGetfree_writes hget
    obtain ⟨k, hsends, hindex, hfree⟩ := sendRequest_writes hsend
    have horient := hwrites.trans (.modify (f := Connection.orientRequest m₁ destNode))
    refine Or.inr ⟨c, k, hhead, horient.trans hsends, ?_, hfree⟩
    rw [hindex, MyContext.conn_modify_self, hself]
    rfl

/-- Only a call of `mudm_connect` that succeeds sends a request. -/
theorem mudmConnect_rc (hr : mudmConnect m env destNode req = some r) (hsent : r.sent = some pkt) :
    r.rc = 0 := by
  by_contra hrc
  rcases mudmConnect_writes hr with ⟨-, -, hnone⟩ | ⟨_, _, _, _, _, hfails⟩
  · rw [hnone] at hsent
    cases hsent
  · rw [(hfails hrc).1] at hsent
    cases hsent

/-- The context `c` once `connect_reply` has handled a reply for it. -/
def MyContext.accepting (m : MyContext) (pkt : ConnPacket) (c : Nat) : Connection :=
  { (m.conn c).acceptReply pkt with state := .active }

theorem connectReply_writes {x : MyContext × Option Nat} (hctx : replyContext m pkt = some c)
    (hx : connectReply m pkt = some x) :
    (pkt.body.status = 0 → Writes m x.1 c (m.accepting pkt c)) ∧
      (pkt.body.status ≠ 0 → ∃ k, Writes m x.1 c k ∧ k.state = .free ∧
        k.myIndex = (m.conn c).myIndex) := by
  have hactive : ∀ m₁, connectionActivate (m.modify c (Connection.acceptReply pkt)) c = some m₁ →
      Writes m m₁ c (m.accepting pkt c) := by
    intro m₁ hact
    have hmodify := Writes.modify.trans (.activate hact)
    rw [MyContext.conn_modify_self] at hmodify
    exact hmodify
  cases connectReply_outcome hctx hx with
  | accepted m₁ hst hact => exact ⟨fun _ => hactive m₁ hact, fun hne => absurd hst hne⟩
  | refused m₁ m₂ hst hact hfree =>
    have hwrites := hactive m₁ hact
    refine ⟨fun he => absurd he hst, fun _ => ⟨_, hwrites.trans (.free hfree), rfl, ?_⟩⟩
    exact (field_of_unlinked Connection.myIndex hwrites.self fun _ => rfl).trans rfl

/-- What `mudm_disconnect` does with a context: nothing, or it sends its header and gives the context
up, which stays disconnecting if the header does not go out. -/
inductive DisconnectWrites (m : MyContext) (env : CallEnv) (c : Nat)
    (x : MyContext × Int × Option MemFifoDescriptor) : Prop
  | stopped (h : x.1 = m) (hsent : x.2.2 = none)
      (hs : (m.conn c).magic = false ∨ (m.conn c).state = .free ∨ (m.conn c).state = .disconnecting)
  | lost (k : Connection) (h : Writes m x.1 c k) (hs : k.state = .disconnecting)
      (hindex : k.myIndex = (m.conn c).myIndex) (hsent : x.2.2 = none) (hlink : env.linkActive = false)
  | sent (k : Connection) (h : Writes m x.1 c k) (hs : k.state = .free)
      (hindex : k.myIndex = (m.conn c).myIndex)
      (hsent : x.2.2 = some (m.conn c).disconnectDescriptor) (hlink : env.linkActive = true)

theorem mudmDisconnect_writes {x : MyContext × Int × Option MemFifoDescriptor}
    (h : mudmDisconnect m env c = some x) : DisconnectWrites m env c x := by
  have hmark : Writes m (m.leaving c) c _ := .modify
  cases mudmDisconnect_outcome h with
  | stopped rc _ hs => exact .stopped rfl rfl hs
  | lost _ hlink => exact .lost _ hmark rfl rfl rfl hlink
  | sent m₁ _ hlink hfree =>
    refine .sent _ (hmark.trans (.free hfree)) rfl ?_ rfl hlink
    exact (field_of_unlinked Connection.myIndex hmark.self fun _ => rfl).trans rfl

/-- A packet that disconnects frees the context whose index and key it carries, if that is in use. -/
theorem disconnectRequest_writes {x : MyContext × Int × Option Nat}
    (h : disconnectRequest m hdr = some x) :
    x.2.2 = none ∧ x.1 = m ∨
      x.2.2 = some hdr.sequenceNumber ∧ x.2.1 = 0 ∧ hdr.sequenceNumber < m.maxConnections ∧
        hdr.payloadLength = (m.conn hdr.sequenceNumber).lowbitTimestamp ∧
        ∃ k, Writes m x.1 hdr.sequenceNumber k ∧ k.state = .free ∧
          k.myIndex = (m.conn hdr.sequenceNumber).myIndex := by
  cases disconnectRequest_outcome h with
  | stopped => exact Or.inl ⟨rfl, rfl⟩
  | freed m₁ hc hkey _ hfree => exact Or.inr ⟨rfl, rfl, hc, hkey, _, .free hfree, rfl, rfl⟩

end BgqVrnic
