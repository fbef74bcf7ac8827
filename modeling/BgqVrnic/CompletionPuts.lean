import BgqVrnic.ConnRuns
import BgqVrnic.ReportRuns

namespace BgqVrnic

open Passes Pools Runs

/-- A completion put: the object that it is for, the way it takes, and as history the way to the node
whose request named that object. -/
structure CompletionPut where
  remoteRdmaObjPa : Nat
  route : Route
  requester : Route
  deriving DecidableEq, Repr

/-- A node with its connections. The rest is history: the way to the node that each block of an object
pool was last taken for, and the completion puts. -/
structure PutNode where
  node : ReportNode
  m : MyContext
  requester : Link → Nat → Route
  puts : List CompletionPut

/-- What happens to the connections, and what the calls, polls and completions do, with the way to the
node whose request makes this one read. -/
inductive PutInput
  | conn (i : ConnInput)
  | work (origin : Route) (i : ReportInput)

/-- A call finds its connection in the table. -/
def CallsOn (m : MyContext) : ReportInput → Prop
  | .send _ (.pkt conn ..) => ∃ c < m.maxConnections, conn = m.conn c
  | .send _ (.messageRemote c conn ..) => c < m.maxConnections ∧ conn = m.conn c
  | .send _ (.rdmaRead q _) => q.connIndex < m.maxConnections ∧ q.conn = m.conn q.connIndex
  | _ => True

instance (m : MyContext) (i : ReportInput) : Decidable (CallsOn m i) :=
  match i with
  | .send _ (.pkt ..) => inferInstanceAs (Decidable (∃ c < _, _))
  | .send _ (.messageRemote ..) => inferInstanceAs (Decidable (_ ∧ _))
  | .send _ (.rdmaRead ..) => inferInstanceAs (Decidable (_ ∧ _))
  | .poll _ | .flush _ | .pass .. | .taken _ | .put .. | .remoteError .. =>
    inferInstanceAs (Decidable True)

/-- The put that `rdma_poll_rdma_counter` injects for an object that is done. -/
def completionPut (m : MyContext) (requester : Route) (mro : MudmRdmaObject) : List CompletionPut :=
  if mro.remoteRdmaObjPa ≠ 0 ∧ (m.conn mro.localConnect).magic = true then
    [⟨mro.remoteRdmaObjPa, (m.conn mro.localConnect).directPut, requester⟩]
  else []

namespace PutNode

variable (s : PutNode)

/-- The objects of a link. -/
abbrev objects (k : Link) : Desk MudmRdmaObject := s.node.desk (.rdmaObjCtls k)

/-- The puts of one step: a pass that is no flush sends one for a block that it finds done. -/
def putsAt : ReportInput → List CompletionPut
  | .pass (.rdmaObjCtls k) j =>
    match (s.objects k).passes[j]? with
    | none => []
    | some p =>
      match p.rest with
      | [] => []
      | i :: _ =>
        let mro := (s.objects k).pool.block i
        if p.cancels = false ∧ rdmaKind.done p.count mro = true then
          completionPut s.m (s.requester k i) mro
        else []
  | _ => []

/-- The object that a read takes is taken for the node that the request has come from, whatever
connection the read is made on. -/
def requesterAfter (origin : Route) : ReportInput → Link → Nat → Route
  | .send _ (.rdmaRead q _) =>
    let k := q.conn.rdmaObjCtls
    match (s.objects k).pool.free with
    | [] => s.requester
    | i :: _ =>
      Function.update s.requester k (Function.update (s.requester k) i origin)
  | _ => s.requester

end PutNode

def putStep (s : PutNode) : PutInput → Option PutNode
  | .conn i => (connStep s.m i).map fun m => { s with m := m }
  | .work origin i =>
    if CallsOn s.m i then
      (reportStep s.node i).map fun node =>
        { s with
          node := node
          requester := s.requesterAfter origin i
          puts := s.puts ++ s.putsAt i }
    else none

/-- Nothing has been sent yet. -/
def newPutNode (m : MyContext) (size : PoolName → Nat) (block : (n : PoolName) → Nat → n.Block) :
    PutNode :=
  ⟨newReportNode size block, m, fun _ _ => default, []⟩

/-- Every completion put has gone to the node whose request named its object. -/
def PutsArrive (s : PutNode) : Prop := ∀ put ∈ s.puts, put.route = put.requester

/-- The way of the puts of a connection that this node requests. -/
def requestRoute (m : MyContext) (destNode : Nat) : Route :=
  let direction := setDirectionRequest m.myTorusAddress destNode
  let useDestination :=
    match direction with
    | .cn2ionode => m.mybridgingCNnode
    | .nodeLoopback => m.myTorusAddress
    | _ => destNode
  ⟨useDestination, direction, m.myUsingIOPort⟩

/-- The context whose puts are given a way, and that way. -/
def binds (m : MyContext) : ConnInput → Option (Nat × Route)
  | .connect env destNode req =>
    if m.magic = true ∧ req.body.privateData.length ≤ mudmMaxPrivateData ∧ env.pktFree = true then
      m.connFreelist.map fun c => (c, requestRoute m destNode)
    else none
  | .connReply env c reply =>
    if ReplyGoes m env c reply ∧ (m.conn c).state ≠ .aborted then
      some (c, ⟨(m.conn c).destination, (m.conn c).direction, (m.conn c).ioPort⟩)
    else none
  | _ => none

/-- The context `c` still stands for the completion of a remote get. -/
def PutNode.Awaits (s : PutNode) (c : Nat) : Prop :=
  ∃ k, ∃ i ∈ (s.objects k).waiting,
    ((s.objects k).pool.block i).remoteRdmaObjPa ≠ 0 ∧ ((s.objects k).pool.block i).localConnect = c

/-- The puts of a context do not get another way as long as an object waits that will use it, and a read
for an object of another node is made on a connection to that node. -/
def PutsFit (s : PutNode) : PutInput → Prop
  | .conn i =>
    ∀ c route, binds s.m i = some (c, route) → s.Awaits c → route = (s.m.conn c).directPut
  | .work origin (.send _ (.rdmaRead q _)) => q.rdmaObject ≠ 0 → origin = q.conn.directPut
  | .work _ _ => True

/-- The ways of the completion puts, by connection. -/
def MyContext.ways (m : MyContext) : Nat → Route := fun i => (m.conn i).directPut

def rebind : Option (Nat × Route) → (Nat → Route) → Nat → Route
  | none, ways => ways
  | some (c, route), ways => Function.update ways c route

/-- `m'` has the ways of `m` but for one, and no context has lost its magic number. -/
structure Rebound (m m' : MyContext) (b : Option (Nat × Route)) : Prop where
  ways : m'.ways = rebind b m.ways
  magic : ∀ c, m.magicOf c = true → m'.magicOf c = true

variable {m m' m₁ m₂ : MyContext} {b : Option (Nat × Route)} {c t destNode : Nat} {i : ConnInput}
  {f : Connection → Connection} {env : CallEnv} {req reply : IonetConnect} {r : CallResult}

theorem ways_of_rest (h : m'.rest = m.rest) : m'.ways = m.ways := by
  have hways := congrArg MyContext.ways h
  exact hways

namespace Rebound

theorem refl (m : MyContext) : Rebound m m none := ⟨rfl, fun _ h => h⟩

theorem trans (h : Rebound m m₁ none) (h' : Rebound m₁ m₂ b) : Rebound m m₂ b where
  ways := by rw [h'.ways, h.ways]; rfl
  magic c hc := h'.magic c (h.magic c hc)

theorem trans_none (h : Rebound m m₁ b) (h' : Rebound m₁ m₂ none) : Rebound m m₂ b where
  ways := h'.ways.trans h.ways
  magic c hc := h'.magic c (h.magic c hc)

theorem of_rest (h : m'.rest = m.rest) (hmagic : m'.magicOf = m.magicOf) : Rebound m m' none where
  ways := ways_of_rest h
  magic _ hc := hmagic ▸ hc

theorem modify (hway : (f (m.conn c)).directPut = (m.conn c).directPut)
    (hmagic : (f (m.conn c)).magic = (m.conn c).magic) : Rebound m (m.modify c f) none where
  ways := MyContext.field_modify_same Connection.directPut hway
  magic x hx := by
    have hsame := congrFun (MyContext.field_modify_same (m := m) Connection.magic hmagic) x
    exact hsame.trans hx

/-- A write that gives the puts of a context their way. -/
theorem bind (hmagic : (f (m.conn c)).magic = (m.conn c).magic) :
    Rebound m (m.modify c f) (some (c, (f (m.conn c)).directPut)) where
  ways := MyContext.field_modify Connection.directPut
  magic x hx := by
    have hsame := congrFun (MyContext.field_modify_same (m := m) Connection.magic hmagic) x
    exact hsame.trans hx

theorem pend (m : MyContext) (c : Nat) (k : Link) : Rebound m (putOnPendingList m c k) none :=
  of_rest (putOnPendingList_rest m c k) (putOnPendingList_magicOf m c k)

theorem state (s : ConnState) : Rebound m (m.setState c s) none :=
  of_rest MyContext.rest_setState MyContext.magicOf_setState

theorem activate (h : connectionActivate m c = some m') : Rebound m m' none := by
  obtain ⟨a, p, hact⟩ := connectionActivate_spec h
  exact of_rest hact.rest hact.magic

theorem free (h : connectionFree m c = some m') : Rebound m m' none := by
  obtain ⟨heads, hfree⟩ := connectionFree_spec h
  refine ⟨ways_of_rest hfree.rest, fun x hx => ?_⟩
  rw [hfree.magic, Function.update_apply]
  split
  · rfl
  · exact hx

theorem take (h : connListGetfree m t = some (c, m')) : Rebound m m' none := by
  have htaken := connListGetfree_spec h
  refine ⟨funext fun x => ?_, fun x hx => ?_⟩
  · show (m'.conn x).directPut = (m.conn x).directPut
    rw [htaken.conn]
    by_cases hxc : x = c
    · rw [hxc, Function.update_self]
    · rw [Function.update_of_ne hxc]
  · show (m'.conn x).magic = true
    rw [htaken.conn]
    by_cases hxc : x = c
    · rw [hxc, Function.update_self]
    · rw [Function.update_of_ne hxc]
      exact hx

end Rebound

theorem sendRequest_rebound (hr : sendRequest m env destNode req c = some r) :
    Rebound m r.m
      (if env.pktFree = true then some (c, ((m.conn c).fillRequest m destNode req).directPut)
        else none) := by
  have hbind : Rebound m (m.modify c (Connection.fillRequest m destNode req))
      (some (c, ((m.conn c).fillRequest m destNode req).directPut)) := .bind rfl
  have hpend : Rebound m (m.requestPending destNode req c) _ := hbind.trans_none (.pend _ c 0)
  cases sendRequest_outcome hr with
  | sent hpkt _ =>
    rw [if_pos hpkt]
    exact hpend
  | lost m₁ hpkt _ hfree =>
    rw [if_pos hpkt]
    exact hpend.trans_none (.free hfree)
  | noPacket m₁ hpkt hfree =>
    rw [if_neg (by simp [hpkt])]
    exact .free hfree

theorem mudmConnect_rebound (hr : mudmConnect m env destNode req = some r) :
    Rebound m r.m (binds m (.connect env destNode req)) := by
  cases mudmConnect_outcome hr with
  | stopped rc _ hstop =>
    have hnone : binds m (.connect env destNode req) = none := by
      rcases hstop with hmagic | hlength | hlist
      · exact if_neg fun h => by simp [hmagic] at h
      · exact if_neg fun h => by omega
      · dsimp only [binds]
        rw [hlist, Option.map_none, ite_self]
    rw [hnone]
    exact .refl m
  | called c m₁ _ hmagic hlength hget hsend =>
    have htaken := connListGetfree_spec hget
    have hhead : m.connFreelist = some c := htaken.head
    have horient : Rebound m (m₁.modify c (Connection.orientRequest m₁ destNode)) none :=
      (Rebound.take hget).trans (.modify rfl rfl)
    have hrequest := horient.trans (sendRequest_rebound hsend)
    have hroute : requestRoute m₁ destNode = requestRoute m destNode := by
      rw [htaken.free]
      rfl
    rw [MyContext.conn_modify_self] at hrequest
    have hbinds : binds m (.connect env destNode req) =
        if env.pktFree = true then some (c, requestRoute m destNode) else none := by
      dsimp only [binds]
      rw [hhead]
      simp [hmagic, hlength]
    rw [hbinds, ← hroute]
    exact hrequest

theorem sendReply_rebound (hr : sendReply m env c reply = some r) :
    Rebound m r.m
      (if (m.conn c).state = .aborted then none
        else some (c, ⟨(m.conn c).destination, (m.conn c).direction, (m.conn c).ioPort⟩)) := by
  have hdesc : Rebound m (m.replyDescribed reply c) none := .modify rfl rfl
  have hfill : Rebound m (m.replyFilled reply c)
      (some (c, ⟨(m.conn c).destination, (m.conn c).direction, (m.conn c).ioPort⟩)) := by
    have hbind := hdesc.trans
      (.bind (c := c) (f := Connection.fillReply (m.replyDescribed reply c)) rfl)
    have hroute : (((m.replyDescribed reply c).conn c).fillReply (m.replyDescribed reply c)).directPut =
        ⟨(m.conn c).destination, (m.conn c).direction, (m.conn c).ioPort⟩ := by
      unfold MyContext.replyDescribed
      rw [MyContext.conn_modify_self]
      rfl
    rw [hroute] at hbind
    exact hbind
  cases sendReply_outcome hr with
  | aborted m₁ hs hfree =>
    rw [if_pos hs]
    exact hdesc.trans (.free hfree)
  | refused m₁ hs _ hfree =>
    rw [if_neg hs]
    exact hfill.trans_none (.free hfree)
  | lost m₁ m₂ hs _ _ hact hfree =>
    rw [if_neg hs]
    exact (hfill.trans_none (.activate hact)).trans_none (.free hfree)
  | sent m₁ hs _ _ hact =>
    rw [if_neg hs]
    exact hfill.trans_none (.activate hact)

theorem mudmConnReply_rebound (hr : mudmConnReply m env c reply = some r) :
    Rebound m r.m (binds m (.connReply env c reply)) := by
  by_cases hgo : ReplyGoes m env c reply
  · rw [mudmConnReply_goes hgo] at hr
    have hcount : Rebound m (m.modify c fun k => { k with memfifoSent := 0 }) none :=
      .modify rfl rfl
    have hsend := hcount.trans (sendReply_rebound hr)
    rw [MyContext.conn_modify_self] at hsend
    by_cases hs : (m.conn c).state = .aborted
    · rw [if_pos hs] at hsend
      have hnone : binds m (.connReply env c reply) = none := if_neg fun h => h.2 hs
      rw [hnone]
      exact hsend
    · rw [if_neg hs] at hsend
      have hsome : binds m (.connReply env c reply) =
          some (c, ⟨(m.conn c).destination, (m.conn c).direction, (m.conn c).ioPort⟩) :=
        if_pos ⟨hgo, hs⟩
      rw [hsome]
      exact hsend
  · obtain ⟨rc, -, he⟩ := mudmConnReply_stopped hgo
    rw [he] at hr
    cases Option.some.inj hr
    have hnone : binds m (.connReply env c reply) = none := if_neg fun h => hgo h.1
    rw [hnone]
    have hcount : Rebound m (m.modify c fun k => { k with memfifoSent := 0 }) none :=
      .modify rfl rfl
    exact hcount

theorem mudmDisconnect_rebound {x : MyContext × Int × Option MemFifoDescriptor}
    (h : mudmDisconnect m env c = some x) : Rebound m x.1 none := by
  have hmark : Rebound m (m.leaving c) none := .modify rfl rfl
  cases mudmDisconnect_outcome h with
  | stopped => exact .refl m
  | lost => exact hmark
  | sent m₁ _ _ hfree => exact hmark.trans (.free hfree)

theorem connectRequest_rebound (t : Nat) (pkt : ConnPacket) :
    Rebound m (connectRequest m t pkt).1 none := by
  generalize hx : connectRequest m t pkt = x
  cases connectRequest_outcome hx with
  | full => exact .refl m
  | taken c m₁ blocks codes hget =>
    have hanswer : Rebound m (m₁.modify c (Connection.answerRequest m₁ pkt)) none :=
      (Rebound.take hget).trans (.modify rfl rfl)
    have hreset : Rebound m { m₁.modify c (Connection.answerRequest m₁ pkt) with
        remoteBlockID := blocks, link4reset := codes } none := ⟨hanswer.ways, hanswer.magic⟩
    have hpend := hreset.trans (.pend _ c (arrivalLink m pkt))
    exact hpend.trans (.modify (c := c) (f := fun k => { k with memfifoSent := 0 }) rfl rfl)

theorem connectReply_rebound {pkt : ConnPacket} {x : MyContext × Option Nat}
    (h : connectReply m pkt = some x) : Rebound m x.1 none := by
  cases hctx : replyContext m pkt with
  | none =>
    rw [connectReply_unknown hctx] at h
    cases Option.some.inj h
    exact .refl m
  | some c =>
    have haccept : Rebound m (m.modify c (Connection.acceptReply pkt)) none := .modify rfl rfl
    cases connectReply_outcome hctx h with
    | accepted m₁ _ hact => exact haccept.trans (.activate hact)
    | refused m₁ m₂ _ hact hfree => exact (haccept.trans (.activate hact)).trans (.free hfree)

theorem disconnectRequest_rebound {hdr : IonetHeader} {x : MyContext × Int × Option Nat}
    (h : disconnectRequest m hdr = some x) : Rebound m x.1 none := by
  cases disconnectRequest_outcome h with
  | stopped => exact .refl m
  | freed m₁ _ _ _ hfree => exact .free hfree

/-- Only connecting, and replying to a request, give the puts of a context their way. -/
theorem connStep_rebound (hs : connStep m i = some m') : Rebound m m' (binds m i) := by
  cases i with
  | connect env destNode req =>
    obtain ⟨r, hr, rfl⟩ := Option.map_eq_some_iff.mp hs
    exact mudmConnect_rebound hr
  | connReply env c reply =>
    dsimp only [connStep] at hs
    split at hs
    · obtain ⟨r, hr, rfl⟩ := Option.map_eq_some_iff.mp hs
      exact mudmConnReply_rebound hr
    · cases hs
  | disconnect env c =>
    dsimp only [connStep] at hs
    split at hs
    · obtain ⟨r, hr, rfl⟩ := Option.map_eq_some_iff.mp hs
      exact mudmDisconnect_rebound hr
    · cases hs
  | request timeBase pkt =>
    cases Option.some.inj hs
    exact connectRequest_rebound timeBase pkt
  | reply pkt =>
    obtain ⟨r, hr, rfl⟩ := Option.map_eq_some_iff.mp hs
    exact connectReply_rebound hr
  | disconnected hdr =>
    obtain ⟨r, hr, rfl⟩ := Option.map_eq_some_iff.mp hs
    exact disconnectRequest_rebound hr

end BgqVrnic
