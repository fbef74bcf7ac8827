import BgqVrnic.CompletionPuts

namespace BgqVrnic

open Passes Pools Runs

variable {env : InjEnv} {r r' : Resources} {q : ReadRequest} {s : ReadCall} {o : Pool MudmRdmaObject}
  {pktd mro turns i : Nat} {rc : Int} {k : Link} {n : PoolName}

/-- What `mudm_rdma_read` does to the objects: it posts its own when it returns, or posts none. -/
def ReadPosts (mro : Nat) (o : Pool MudmRdmaObject) (s : ReadCall) : Prop :=
  match s.phase with
  | .returned _ => s.objects.posted = o.posted ∨ s.objects = releaseRdmaObjToPoll mro o
  | .counting _ => s.objects.posted = o.posted
  | _ => s.objects = o

theorem finish_posts (h : s.objects = o) : ReadPosts mro o (s.finish env q pktd mro) := by
  have hposted : s.objects.posted = o.posted := congrArg Pool.posted h
  unfold ReadCall.finish
  split
  · right
    dsimp only
    rw [ReadCall.sendRest_objects, h]
  · split
    · exact Or.inl hposted
    · split
      · show (s.sendRest env).objects.posted = o.posted
        rw [ReadCall.sendRest_objects, hposted]
      · exact hposted

theorem turn_posts (h : ReadPosts mro o s) : ReadPosts mro o (s.turn env q pktd mro) := by
  cases hphase : s.phase with
  | returned rc =>
    simp only [ReadCall.turn, hphase]
    exact h
  | looping =>
    rw [ReadPosts, hphase] at h
    simp only [ReadCall.turn, hphase]
    split
    · split
      · exact h
      · unfold ReadCall.build
        dsimp only
        split
        · exact finish_posts h
        · rw [ReadPosts, hphase]
          exact h
    · exact finish_posts h
  | waiting desc =>
    rw [ReadPosts, hphase] at h
    simp only [ReadCall.turn, hphase]
    split
    · exact h
    · exact h
  | counting value =>
    rw [ReadPosts, hphase] at h
    simp only [ReadCall.turn, hphase]
    split
    · unfold ReadCall.counted
      split
      · exact Or.inl h
      · exact Or.inl h
    · exact h

theorem turns_posts (h : ReadPosts mro o s) :
    ReadPosts mro o ((ReadCall.turn env q pktd mro)^[turns] s) := by
  induction turns with
  | zero => exact h
  | succ turns ih =>
    rw [Function.iterate_succ_apply']
    exact turn_posts ih

/-- What a call posts on the list of a link: a remote get its object, as it has filled it in, and a
remote message one that names no object of another node. -/
def SendCall.Posts (k : Link) (mro : MudmRdmaObject) : SendCall → Prop
  | .pkt .. => False
  | .messageRemote .. => mro.remoteRdmaObjPa = 0
  | .rdmaRead q _ => k = q.conn.rdmaObjCtls ∧ q.conn.magic = true ∧ mro = q.object

/-- An object that is posted after a call was posted before it, or was the first that was free. -/
def PostedBy (call : SendCall) (k : Link) (o o' : Pool MudmRdmaObject) : Prop :=
  ∀ i ∈ o'.posted, i ∈ o.posted ∨ o.free.head? = some i ∧ call.Posts k (o'.block i)

theorem postedBy_of_eq {call : SendCall} (h : o'.posted = o.posted) : PostedBy call k o o' :=
  fun _ hi => Or.inl (h ▸ hi)

theorem postedBy_post {call : SendCall} {o o₁ : Pool MudmRdmaObject} {mro : Nat}
    {f : MudmRdmaObject → MudmRdmaObject} (ht : allocateRdmaObject o = some (mro, o₁))
    (hcall : call.Posts k (f (o₁.block mro))) :
    PostedBy call k o (releaseRdmaObjToPoll mro (o₁.set mro f)) := by
  obtain ⟨hfree, hposted, -⟩ := Pool.take_eq ht
  intro i hi
  rcases List.mem_cons.mp hi with rfl | hi
  · right
    rw [hfree]
    refine ⟨rfl, ?_⟩
    rw [releaseRdmaObjToPoll, Pool.block_post, Pool.block_set_self]
    exact hcall
  · exact Or.inl (hposted ▸ hi)

theorem packets_ne_objects {conn : Connection} : PoolName.rdmaObjCtls k ≠ conn.packets := nofun

theorem smallPackets_ne_objects {conn : Connection} :
    PoolName.rdmaObjCtls k ≠ conn.smallPackets := nofun

theorem pkt_posts {env : Link → InjEnv} {conn : Connection} {requestId payloadLength : Nat}
    (h : (SendCall.pkt conn requestId payloadLength turns).run env r = some (rc, r')) (k : Link) :
    PostedBy (.pkt conn requestId payloadLength turns) k (r (.rdmaObjCtls k))
      (r' (.rdmaObjCtls k)) := by
  have hcall := finished_eq h
  unfold mudmSendPkt at hcall
  split at hcall
  · cases hcall
    exact postedBy_of_eq rfl
  · split at hcall
    · cases hcall
      exact postedBy_of_eq rfl
    · obtain ⟨-, rfl⟩ := Prod.mk.inj hcall
      apply postedBy_of_eq
      rw [Resources.put_of_ne _ _ smallPackets_ne_objects]

/-- What a call does to the packets of its link is not seen on the lists of objects. -/
theorem packets_posts {call : SendCall} {conn : Connection} (p : Pool conn.packets.Block) :
    PostedBy call k (r (.rdmaObjCtls k)) (r.put conn.packets p (.rdmaObjCtls k)) := by
  rw [Resources.put_of_ne _ _ packets_ne_objects]
  exact postedBy_of_eq rfl

theorem messageRemote_posts {env : Link → InjEnv} {c : Nat} {conn : Connection} {type : RemoteType}
    {payload : RemotePayload}
    (h : (SendCall.messageRemote c conn type payload).run env r = some (rc, r')) (k : Link) :
    PostedBy (.messageRemote c conn type payload) k (r (.rdmaObjCtls k)) (r' (.rdmaObjCtls k)) := by
  have hcall : mudmSendMessageRemote env r c conn type payload = (rc, r') := Option.some.inj h
  cases mudmSendMessageRemote_outcome hcall with
  | stopped => exact postedBy_of_eq rfl
  | freed => exact packets_posts _
  | posted pktd p mro objs hpkt hobj =>
    by_cases hk : PoolName.rdmaObjCtls k = conn.objects
    · cases PoolName.rdmaObjCtls.inj hk
      rw [Resources.put_self]
      exact postedBy_post hobj rfl
    · rw [Resources.put_of_ne _ _ hk]
      exact packets_posts _

theorem rdmaRead_posts {env : Link → InjEnv}
    (h : (SendCall.rdmaRead q turns).run env r = some (rc, r')) (k : Link) :
    PostedBy (.rdmaRead q turns) k (r (.rdmaObjCtls k)) (r' (.rdmaObjCtls k)) := by
  have hcall := finished_eq h
  cases mudmRdmaReadCall_outcome hcall with
  | stopped _ _ _ hr =>
    subst hr
    exact postedBy_of_eq rfl
  | freed _ _ _ _ _ hr =>
    subst hr
    exact packets_posts _
  | entered pktd packets mro objects s hmagic hpkt hobj hs hphase hr =>
    subst hr
    by_cases hk : PoolName.rdmaObjCtls k = q.conn.objects
    · cases PoolName.rdmaObjCtls.inj hk
      rw [Resources.put_self]
      obtain ⟨-, hposted, -⟩ := Pool.take_eq hobj
      have hdone : ReadPosts mro (objects.set mro fun _ => q.object) s := hs ▸ turns_posts rfl
      rw [ReadPosts, hphase] at hdone
      rcases hdone with he | he
      · exact postedBy_of_eq (he.trans hposted)
      · rw [he]
        exact postedBy_post hobj ⟨rfl, hmagic, rfl⟩
    · rw [Resources.put_of_ne _ _ hk]
      exact packets_posts _

theorem call_posts {env : Link → InjEnv} {call : SendCall} (h : call.run env r = some (rc, r'))
    (k : Link) : PostedBy call k (r (.rdmaObjCtls k)) (r' (.rdmaObjCtls k)) := by
  cases call with
  | pkt conn requestId payloadLength turns => exact pkt_posts h k
  | messageRemote c conn type payload => exact messageRemote_posts h k
  | rdmaRead q turns => exact rdmaRead_posts h k

variable {node node' : ReportNode} {p p' : PutNode} {c : Nat} {input : PutInput} {work : ReportInput}
  {origin : Route}

/-- What a call or a completion leaves waiting on the list of a link: an object that waited before, for
the same completion, or one that a call has just posted. -/
def Keeps (k : Link) (work : ReportInput) (d d' : Desk MudmRdmaObject) : Prop :=
  ∀ i ∈ d'.waiting,
    (i ∈ d.waiting ∧ (d'.pool.block i).remoteRdmaObjPa = (d.pool.block i).remoteRdmaObjPa ∧
      (d'.pool.block i).localConnect = (d.pool.block i).localConnect) ∨
    ∃ env call, work = .send env call ∧ d.pool.free.head? = some i ∧ call.Posts k (d'.pool.block i)

/-- The blocks that wait are among those that waited, and are what they were. -/
def Stays {β : Type} (d d' : Desk β) : Prop :=
  ∀ i ∈ d'.waiting, i ∈ d.waiting ∧ d'.pool.block i = d.pool.block i

theorem Stays.keeps {d d' : Desk MudmRdmaObject} (h : Stays d d') : Keeps k work d d' := by
  intro i hi
  obtain ⟨hw, hblock⟩ := h i hi
  exact Or.inl ⟨hw, by rw [hblock], by rw [hblock]⟩

theorem stays_onDesk {m : PoolName} {d : Desk m.Block} (h : Stays (node.desk m) d) (n : PoolName) :
    Stays (node.desk n) ((node.onDesk m d).desk n) := by
  show Stays (node.desk n) (Function.update node.desk m d n)
  by_cases hn : n = m
  · subst hn
    rw [Function.update_self]
    exact h
  · rw [Function.update_of_ne hn]
    exact fun _ hi => ⟨hi, rfl⟩

theorem stays_start (n : PoolName) (cancels : Bool) (count : Nat) :
    Stays (node.desk n) ((node.desk n).start n.kind cancels count) := fun _ hi =>
  ⟨Desk.waiting_start (node.desk n) cancels count ▸ hi, rfl⟩

/-- The MU writes neither whose an object is nor what it completes. -/
theorem keeps_write {l : Link} {mro : Nat} {f : MudmRdmaObject → MudmRdmaObject}
    (hpa : ∀ o, (f o).remoteRdmaObjPa = o.remoteRdmaObjPa)
    (hconn : ∀ o, (f o).localConnect = o.localConnect) :
    Keeps k work (node.desk (.rdmaObjCtls k)) ((node.write l mro f).desk (.rdmaObjCtls k)) := by
  unfold ReportNode.write ReportNode.onDesk
  dsimp only
  by_cases hk : PoolName.rdmaObjCtls k = .rdmaObjCtls l
  · cases PoolName.rdmaObjCtls.inj hk
    rw [Function.update_self]
    intro i hi
    refine Or.inl ⟨hi, ?_, ?_⟩
    · by_cases him : i = mro
      · rw [him, Pool.block_set_self, hpa]
      · rw [Pool.block_set_of_ne him]
    · by_cases him : i = mro
      · rw [him, Pool.block_set_self, hconn]
      · rw [Pool.block_set_of_ne him]
  · rw [Function.update_of_ne hk]
    exact fun _ hi => Or.inl ⟨hi, rfl, rfl⟩

theorem reportStep_keeps (h : NodeSound node) (hs : reportStep node work = some node') (k : Link) :
    Keeps k work (node.desk (.rdmaObjCtls k)) (node'.desk (.rdmaObjCtls k)) := by
  cases work with
  | send env call =>
    simp only [reportStep] at hs
    cases hcall : call.run env node.resources with
    | none => simp [hcall] at hs
    | some result =>
      obtain ⟨rc, r⟩ := result
      simp only [hcall, Option.some.injEq] at hs
      subst hs
      have hsent : Sent rdmaKind (node.resources (.rdmaObjCtls k)) (r (.rdmaObjCtls k)) _ :=
        call_sent hcall (.rdmaObjCtls k)
      have hold : ∀ i ∈ (node.desk (.rdmaObjCtls k)).waiting,
          (r (.rdmaObjCtls k)).block i = (node.desk (.rdmaObjCtls k)).pool.block i := fun i hi =>
        hsent.block i ((h (.rdmaObjCtls k)).waiting_not_free hi)
      intro i hi
      rcases List.mem_append.mp hi with hi | hi
      · rcases call_posts hcall k i hi with hi | ⟨hfree, hposts⟩
        · have hw : i ∈ (node.desk (.rdmaObjCtls k)).waiting := List.mem_append_left _ hi
          exact Or.inl ⟨hw, by rw [hold i hw], by rw [hold i hw]⟩
        · exact Or.inr ⟨env, call, rfl, hfree, hposts⟩
      · have hw : i ∈ (node.desk (.rdmaObjCtls k)).waiting := List.mem_append_right _ hi
        exact Or.inl ⟨hw, by rw [hold i hw], by rw [hold i hw]⟩
  | poll n =>
    cases Option.some.inj hs
    exact (stays_onDesk (stays_start n _ _) (.rdmaObjCtls k)).keeps
  | flush n =>
    cases Option.some.inj hs
    exact (stays_onDesk (stays_start n _ _) (.rdmaObjCtls k)).keeps
  | pass n j =>
    obtain ⟨d, hd, rfl⟩ := Option.map_eq_some_iff.mp hs
    have hstays : Stays (node.desk n) d := fun _ hi => (h n).waiting_pass hd hi
    exact (stays_onDesk hstays (.rdmaObjCtls k)).keeps
  | taken l =>
    cases Option.some.inj hs
    exact fun _ hi => Or.inl ⟨hi, rfl, rfl⟩
  | put l mro bytes =>
    cases Option.some.inj hs
    exact keeps_write (fun _ => rfl) fun _ => rfl
  | remoteError l mro error =>
    cases Option.some.inj hs
    exact keeps_write (fun _ => rfl) fun _ => rfl

theorem requesterAfter_of_not_free (hi : i ∉ (p.objects k).pool.free) :
    p.requesterAfter origin work k i = p.requester k i := by
  unfold PutNode.requesterAfter
  split
  next q turns =>
    dsimp only
    cases hfree : (p.objects q.conn.rdmaObjCtls).pool.free with
    | nil => rfl
    | cons j free =>
      dsimp only
      by_cases hk : k = q.conn.rdmaObjCtls
      · subst hk
        have hne : i ≠ j := by
          rintro rfl
          rw [hfree] at hi
          exact hi List.mem_cons_self
        rw [Function.update_self, Function.update_of_ne hne]
      · rw [Function.update_of_ne hk]
  · rfl

theorem requesterAfter_read {env : Link → InjEnv}
    (hi : (p.objects q.conn.rdmaObjCtls).pool.free.head? = some i) :
    p.requesterAfter origin (.send env (.rdmaRead q turns)) q.conn.rdmaObjCtls i = origin := by
  dsimp only [PutNode.requesterAfter]
  cases hfree : (p.objects q.conn.rdmaObjCtls).pool.free with
  | nil =>
    rw [hfree] at hi
    cases hi
  | cons j free =>
    rw [hfree] at hi
    cases Option.some.inj hi
    dsimp only
    rw [Function.update_self, Function.update_self]

/-- An object that waits after a step waited before it, for the same node, or has been posted by a read
on a connection of the table. -/
theorem work_waiting (h : NodeSound p.node) (hs : putStep p (.work origin work) = some p')
    (hi : i ∈ (p'.objects k).waiting) (hpa : ((p'.objects k).pool.block i).remoteRdmaObjPa ≠ 0) :
    (i ∈ (p.objects k).waiting ∧ ((p.objects k).pool.block i).remoteRdmaObjPa ≠ 0 ∧
      ((p'.objects k).pool.block i).localConnect = ((p.objects k).pool.block i).localConnect ∧
      p'.requester k i = p.requester k i) ∨
    ∃ c, (p.m.conn c).magic = true ∧ ((p'.objects k).pool.block i).localConnect = c ∧
      (PutsFit p (.work origin work) → p'.requester k i = p.m.ways c) := by
  simp only [putStep] at hs
  split at hs
  next hcalls =>
    obtain ⟨node', hnode, rfl⟩ := Option.map_eq_some_iff.mp hs
    rcases reportStep_keeps h hnode k i hi with ⟨hw, hsame, hconn⟩ | ⟨env, call, rfl, hfree, hposts⟩
    · have hnot := (h (.rdmaObjCtls k)).waiting_not_free hw
      exact Or.inl ⟨hw, fun hz => hpa (hsame.trans hz), hconn, requesterAfter_of_not_free hnot⟩
    · right
      cases call with
      | pkt conn requestId payloadLength turns => exact hposts.elim
      | messageRemote c conn type payload => exact absurd hposts hpa
      | rdmaRead q turns =>
        obtain ⟨rfl, hmagic, hobject⟩ := hposts
        obtain ⟨-, hconn⟩ := hcalls
        refine ⟨q.connIndex, hconn ▸ hmagic, congrArg MudmRdmaObject.localConnect hobject,
          fun hfit => ?_⟩
        have hread : p.requesterAfter origin (.send env (.rdmaRead q turns)) q.conn.rdmaObjCtls i =
            origin := requesterAfter_read hfree
        have hobj : q.rdmaObject ≠ 0 := fun hz =>
          hpa ((congrArg MudmRdmaObject.remoteRdmaObjPa hobject).trans hz)
        have hway : origin = q.conn.directPut := hfit hobj
        rw [hconn] at hway
        exact hread.trans hway
  next => cases hs

theorem putStep_nodeSound (h : NodeSound p.node) (hs : putStep p input = some p') :
    NodeSound p'.node := by
  cases input with
  | conn i =>
    obtain ⟨m', -, rfl⟩ := Option.map_eq_some_iff.mp hs
    exact h
  | work origin work =>
    simp only [putStep] at hs
    split at hs
    · obtain ⟨node', hnode, rfl⟩ := Option.map_eq_some_iff.mp hs
      exact reportStep_sound h hnode
    · cases hs

/-- Every object that waits for a completion put has a context with the magic number. -/
structure PutsGuarded (s : PutNode) : Prop where
  node : NodeSound s.node
  magic : ∀ k, ∀ i ∈ (s.objects k).waiting, ((s.objects k).pool.block i).remoteRdmaObjPa ≠ 0 →
    s.m.magicOf ((s.objects k).pool.block i).localConnect = true

theorem PutsGuarded.step (h : PutsGuarded p) (hs : putStep p input = some p') : PutsGuarded p' := by
  refine ⟨putStep_nodeSound h.node hs, fun k i hi hpa => ?_⟩
  cases input with
  | conn input =>
    obtain ⟨m', hm, rfl⟩ := Option.map_eq_some_iff.mp hs
    exact (connStep_rebound hm).magic _ (h.magic k i hi hpa)
  | work origin work =>
    have hm : p'.m = p.m := by
      simp only [putStep] at hs
      split at hs
      · obtain ⟨node', -, rfl⟩ := Option.map_eq_some_iff.mp hs
        rfl
      · cases hs
    rw [hm]
    rcases work_waiting h.node hs hi hpa with ⟨hw, hold, hconn, -⟩ | ⟨c, hc, hconn, -⟩
    · rw [hconn]
      exact h.magic k i hw hold
    · rw [hconn]
      exact hc

/-- Every object that waits for a completion put has a context whose puts still go to the node that
requested it, and those that have been sent went there. -/
structure PutsSound (s : PutNode) : Prop where
  node : NodeSound s.node
  way : ∀ k, ∀ i ∈ (s.objects k).waiting, ((s.objects k).pool.block i).remoteRdmaObjPa ≠ 0 →
    s.m.ways ((s.objects k).pool.block i).localConnect = s.requester k i
  arrive : PutsArrive s

/-- A put is for an object that waits. -/
theorem mem_putsAt {put : CompletionPut} (h : put ∈ p.putsAt work) :
    ∃ k, ∃ i ∈ (p.objects k).waiting, ((p.objects k).pool.block i).remoteRdmaObjPa ≠ 0 ∧
      put.route = p.m.ways ((p.objects k).pool.block i).localConnect ∧
      put.requester = p.requester k i := by
  unfold PutNode.putsAt at h
  split at h
  next k j =>
    split at h
    · cases h
    next pass hpass =>
      split at h
      · cases h
      next i rest hrest =>
        dsimp only at h
        split at h
        · unfold completionPut at h
          split at h
          next hgoes =>
            cases List.mem_singleton.mp h
            refine ⟨k, i, ?_, hgoes.1, rfl, rfl⟩
            apply List.mem_append_right
            apply List.mem_flatMap.mpr
            refine ⟨pass, List.mem_of_getElem? hpass, ?_⟩
            rw [Pass.waiting, hrest]
            exact List.mem_cons_self
          next => cases h
        · cases h
  · cases h

theorem PutsSound.step (h : PutsSound p) (hok : PutsFit p input) (hs : putStep p input = some p') :
    PutsSound p' := by
  refine ⟨putStep_nodeSound h.node hs, fun k i hi hpa => ?_, ?_⟩
  · cases input with
    | conn input =>
      obtain ⟨m', hm, rfl⟩ := Option.map_eq_some_iff.mp hs
      have hway := h.way k i hi hpa
      show m'.ways _ = p.requester k i
      rw [(connStep_rebound hm).ways, ← hway]
      cases hb : binds p.m input with
      | none => rfl
      | some b =>
        obtain ⟨c, route⟩ := b
        dsimp only [rebind]
        by_cases hc : ((p.objects k).pool.block i).localConnect = c
        · have hroute := hok c route hb ⟨k, i, hi, hpa, hc⟩
          rw [hc, Function.update_self, hroute]
          rfl
        · rw [Function.update_of_ne hc]
    | work origin work =>
      have hm : p'.m = p.m := by
        simp only [putStep] at hs
        split at hs
        · obtain ⟨node', -, rfl⟩ := Option.map_eq_some_iff.mp hs
          rfl
        · cases hs
      rw [hm]
      rcases work_waiting h.node hs hi hpa with ⟨hw, hold, hconn, hreq⟩ | ⟨c, -, hconn, hreq⟩
      · rw [hconn, hreq]
        exact h.way k i hw hold
      · rw [hconn, hreq hok]
  · cases input with
    | conn input =>
      obtain ⟨m', -, rfl⟩ := Option.map_eq_some_iff.mp hs
      exact h.arrive
    | work origin work =>
      simp only [putStep] at hs
      split at hs
      · obtain ⟨node', -, rfl⟩ := Option.map_eq_some_iff.mp hs
        intro put hput
        rcases List.mem_append.mp hput with hput | hput
        · exact h.arrive put hput
        · obtain ⟨k, i, hi, hpa, hroute, hreq⟩ := mem_putsAt hput
          rw [hroute, hreq]
          exact h.way k i hi hpa
      · cases hs

/-- The check of the magic number never stops a completion put. -/
theorem completions_guarded (m : MyContext) (size : PoolName → Nat)
    (block : (n : PoolName) → Nat → n.Block) (inputs : List PutInput)
    (hr : run putStep (newPutNode m size block) inputs = some p) (k : Link) :
    ∀ i ∈ (p.objects k).waiting, ((p.objects k).pool.block i).remoteRdmaObjPa ≠ 0 →
      (p.m.conn ((p.objects k).pool.block i).localConnect).magic = true := by
  have hnew : PutsGuarded (newPutNode m size block) :=
    ⟨newReportNode_sound size block, fun k i hi => absurd hi List.not_mem_nil⟩
  exact (run_preserves (fun _ _ _ h hs => PutsGuarded.step h hs) hnew hr).magic k

/-- As long as no context is connected anew while an object waits for it, and every read is made on a
connection to the node that asks for it, every completion put goes to the node whose request named its
object. -/
theorem completions_reach_requester (m : MyContext) (size : PoolName → Nat)
    (block : (n : PoolName) → Nat → n.Block) {inputs : List PutInput}
    (hok : Meets putStep PutsFit (newPutNode m size block) inputs) :
    Always putStep PutsArrive (newPutNode m size block) inputs := by
  have hnew : PutsSound (newPutNode m size block) :=
    ⟨newReportNode_sound size block, fun k i hi => absurd hi List.not_mem_nil, nofun⟩
  have hstep : ∀ s i s', PutsSound s → PutsFit s i → putStep s i = some s' → PutsSound s' :=
    fun _ _ _ h hi hs => h.step hi hs
  exact (always_of_step hstep hnew hok).imp fun _ h => h.arrive

/-- A node with the four contexts and one block in each of its pools. -/
def fourPutNode : PutNode := newPutNode fourContexts (fun _ => 1) fun _ _ => default

/-- What a run on the four contexts connects. -/
def connFive : List ConnInput := [.connect (upEnv 100) 5 default, .reply someReply]

/-- The connection to node 5 is given up, and its context connected to node 6. -/
def rebindToSix : List ConnInput :=
  [.disconnect (upEnv 150) 0, .connect (upEnv 200) 6 default]

/-- A get of eight bytes on context 0 as a run leaves it, for the object of node 5 that is at 64. -/
def eightBytes (is : List ConnInput) : ReadRequest :=
  { localSgl := fun i => if i = 0 then ⟨4096, 8⟩ else ⟨0, 0⟩
    remoteSgl := fun i => if i = 0 then ⟨8192, 8⟩ else ⟨0, 0⟩
    bytesXfer := 8
    template := default
    rdmaObjectPa := 128
    conn := (stateAfter is).conn 0
    connIndex := 0
    requestId := 7
    rdmaObject := 64 }

def wayToFive : Route := ⟨5, .cn2cn, 24⟩

/-- Node 5 asks for a read, which is made on context 0. -/
def readEight (is : List ConnInput) : PutInput :=
  .work wayToFive
    (.send
      (fun _ => ⟨true, fun _ => true, fun k => k + 1, fun _ => activatedFifo 2 fun _ => none, fun _ => 0⟩)
      (.rdmaRead (eightBytes is) 5))

/-- Connect to node 5, and read for it. -/
def readFromFive : List PutInput := connFive.map .conn ++ [readEight connFive]

/-- The MU has counted the object down, and the list is polled. -/
def completeRead : List PutInput :=
  [.put 0 0 8, .poll (.rdmaObjCtls 0), .pass (.rdmaObjCtls 0) 0].map (.work default)

theorem completions_reach_requester_five :
    ∃ s, run putStep fourPutNode (readFromFive ++ completeRead) = some s ∧
      s.puts = [⟨64, wayToFive, wayToFive⟩] ∧ PutsArrive s := by
  refine ⟨_, rfl, rfl, ?_⟩
  have hok : Meets putStep PutsFit fourPutNode (readFromFive ++ completeRead) := by
    refine fun s hs => ⟨fun _ _ _ ⟨k, i, hi, _⟩ => absurd hi List.not_mem_nil, ?_⟩
    refine fun s hs => ⟨fun c route hb => absurd hb (by simp [binds]), ?_⟩
    refine fun s hs => ⟨fun _ => rfl, ?_⟩
    exact fun s hs => ⟨trivial, fun s hs => ⟨trivial, fun s hs => ⟨trivial, trivial⟩⟩⟩
  have halways := completions_reach_requester fourContexts (fun _ => 1) (fun _ _ => default) hok
  exact halways.last rfl

/-- A put on the way to node 6 for the object of node 5. -/
def strayPut : CompletionPut := ⟨64, ⟨6, .cn2cn, 24⟩, wayToFive⟩

theorem not_arrive_stray {s : PutNode} (h : s.puts = [strayPut]) : ¬ PutsArrive s := by
  intro harrive
  have hmem : strayPut ∈ s.puts := h ▸ List.mem_singleton_self _
  have hroute := congrArg Route.destination (harrive strayPut hmem)
  exact absurd hroute (by decide)

/-- The context is connected to node 6 before the read completes, or before node 5's request comes in:
node 6 gets the put for node 5's object. -/
theorem completion_reaches_stranger :
    (¬ Always putStep PutsArrive fourPutNode
      (readFromFive ++ rebindToSix.map .conn ++ completeRead)) ∧
    ¬ Always putStep PutsArrive fourPutNode
      ((connFive ++ rebindToSix).map .conn ++ [readEight (connFive ++ rebindToSix)] ++
        completeRead) := by
  constructor
  · intro h
    have hrun : ∃ s, run putStep fourPutNode
        (readFromFive ++ rebindToSix.map .conn ++ completeRead) = some s ∧
          s.puts = [strayPut] := ⟨_, rfl, rfl⟩
    obtain ⟨s, hs, hputs⟩ := hrun
    exact not_arrive_stray hputs (h.last hs)
  · intro h
    have hrun : ∃ s, run putStep fourPutNode
        ((connFive ++ rebindToSix).map .conn ++ [readEight (connFive ++ rebindToSix)] ++
          completeRead) = some s ∧ s.puts = [strayPut] := ⟨_, rfl, rfl⟩
    obtain ⟨s, hs, hputs⟩ := hrun
    exact not_arrive_stray hputs (h.last hs)

end BgqVrnic
