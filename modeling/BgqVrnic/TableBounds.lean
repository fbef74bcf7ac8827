import Mathlib.Order.Interval.Set.Defs
import BgqVrnic.ConnRuns
import BgqVrnic.LinkReset

namespace BgqVrnic

open Intrusive Runs

/-- The table has `n` contexts, and its links and heads lead into it. -/
structure Tabled (n : Nat) (m : MyContext) : Prop where
  size : m.maxConnections = n
  inside : m.heap.Inside (Set.Iio n)

/-- A call, a packet that comes in or a reset of a link. -/
inductive TableInput
  | conn (i : ConnInput)
  | reset (k : Link)

def tableStep (m : MyContext) : TableInput → Option MyContext
  | .conn i => connStep m i
  | .reset k => (resetLink m k).map Prod.fst

variable {n c t status destNode : Nat} {m m' : MyContext} {k : Link} {f : Connection → Connection}
  {env : CallEnv} {req reply : IonetConnect} {r : CallResult} {pkt : ConnPacket} {hdr : IonetHeader}

namespace Tabled

theorem write (h : Tabled n m) (hheap : m'.heap = m.heap)
    (hmax : m'.maxConnections = m.maxConnections) : Tabled n m' :=
  ⟨hmax.trans h.size, hheap ▸ h.inside⟩

theorem modify (h : Tabled n m)
    (hn : (f (m.conn c)).nextconn = (m.conn c).nextconn)
    (hp : (f (m.conn c)).prevconn = (m.conn c).prevconn) :
    Tabled n (m.modify c f) :=
  h.write (MyContext.heap_modify hn hp) rfl

theorem take (h : Tabled n m) (hget : connListGetfree m t = some (c, m')) : c < n ∧ Tabled n m' := by
  have ht := connListGetfree_spec hget
  have hc : c < n := h.inside.head .free c ht.head
  refine ⟨hc, ?_, ht.heap ▸ h.inside.pop hc⟩
  rw [ht.free]
  exact h.size

theorem pend (h : Tabled n m) (hc : c < n) : Tabled n (putOnPendingList m c k) :=
  ⟨(maxConnections_of_rest (putOnPendingList_rest m c k)).trans h.size,
    (putOnPendingList_heap m c k).symm ▸ h.inside.push hc⟩

theorem activate (h : Tabled n m) (hc : c < n) (hact : connectionActivate m c = some m') :
    Tabled n m' := by
  obtain ⟨a, p, hs⟩ := connectionActivate_spec hact
  refine ⟨(maxConnections_of_rest hs.rest).trans h.size, ?_⟩
  rw [hs.heap]
  refine ⟨(h.inside.next.unlinkNext hc).update (h.inside.head (.active a)),
    ((h.inside.prev.unlinkPrev hc).pushPrev hc).update_none, heads_update ?_ ?_⟩
  · split
    · exact heads_update h.inside.head (h.inside.next c hc)
    · exact h.inside.head
  · exact fun y hy => Option.some.inj hy ▸ hc

theorem free (h : Tabled n m) (hc : c < n) (hfree : connectionFree m c = some m') :
    Tabled n m' := by
  obtain ⟨heads, hs⟩ := connectionFree_spec hfree
  have hheads : ∀ p x, heads p = some x → x ∈ Set.Iio n := by
    cases hs.after with
    | inside hp => exact h.inside.head
    | active k hp hk => exact heads_update h.inside.head (h.inside.next c hc)
    | pend k hp hk => exact heads_update h.inside.head (h.inside.next c hc)
    | abort k p hp hk => exact heads_update h.inside.head (h.inside.next c hc)
    | unlisted hp ha hpd => exact h.inside.head
  refine ⟨(maxConnections_of_rest hs.rest).trans h.size, ?_⟩
  rw [hs.heap]
  exact ⟨(h.inside.next.unlinkNext hc).update (hheads .free),
    (h.inside.prev.unlinkPrev hc).update_none,
    heads_update hheads fun y hy => Option.some.inj hy ▸ hc⟩

theorem sendRequest (h : Tabled n m) (hc : c < n)
    (hr : sendRequest m env destNode req c = some r) : Tabled n r.m := by
  have hpend : Tabled n (m.requestPending destNode req c) :=
    (h.modify (c := c) (f := Connection.fillRequest m destNode req) rfl rfl).pend (k := 0) hc
  cases sendRequest_outcome hr with
  | sent => exact hpend
  | lost m₁ _ _ hfree => exact hpend.free hc hfree
  | noPacket m₁ _ hfree => exact h.free hc hfree

theorem mudmConnect (h : Tabled n m) (hr : mudmConnect m env destNode req = some r) :
    Tabled n r.m := by
  cases mudmConnect_outcome hr with
  | stopped => exact h
  | called c m₁ _ _ _ hget hsend =>
    obtain ⟨hc, h₁⟩ := h.take hget
    exact (h₁.modify rfl rfl).sendRequest hc hsend

theorem connectRequest (h : Tabled n m) : Tabled n (connectRequest m t pkt).1 := by
  generalize hx : BgqVrnic.connectRequest m t pkt = x
  cases connectRequest_outcome hx with
  | full => exact h
  | taken c m₁ blocks codes hget =>
    obtain ⟨hc, h₁⟩ := h.take hget
    have h₂ := h₁.modify (c := c) (f := Connection.answerRequest m₁ pkt) rfl rfl
    refine modify (c := c) (f := fun k => { k with memfifoSent := 0 }) (pend (h₂.write ?_ ?_) hc) rfl rfl
    · rfl
    · rfl

theorem connectReply {x : MyContext × Option Nat} (h : Tabled n m)
    (hx : connectReply m pkt = some x) : Tabled n x.1 := by
  cases hctx : replyContext m pkt with
  | none =>
    rw [connectReply_unknown hctx] at hx
    cases Option.some.inj hx
    exact h
  | some c =>
    have hc : c < n := h.size ▸ (replyContext_names hctx).2
    have haccept := h.modify (c := c) (f := Connection.acceptReply pkt) rfl rfl
    cases connectReply_outcome hctx hx with
    | accepted m₁ _ hact => exact haccept.activate hc hact
    | refused m₁ m₂ _ hact hfree => exact (haccept.activate hc hact).free hc hfree

theorem sendReply (h : Tabled n m) (hc : c < n) (hr : sendReply m env c reply = some r) :
    Tabled n r.m := by
  have hdesc : Tabled n (m.replyDescribed reply c) := h.modify rfl rfl
  have hfill : Tabled n (m.replyFilled reply c) := hdesc.modify rfl rfl
  cases sendReply_outcome hr with
  | aborted m₁ _ hfree => exact hdesc.free hc hfree
  | refused m₁ _ _ hfree => exact hfill.free hc hfree
  | lost m₁ m₂ _ _ _ hact hfree => exact (hfill.activate hc hact).free hc hfree
  | sent m₁ _ _ _ hact => exact hfill.activate hc hact

theorem mudmConnReply (h : Tabled n m) (hc : c < n) (hr : mudmConnReply m env c reply = some r) :
    Tabled n r.m := by
  have h₀ : Tabled n (m.modify c fun k => { k with memfifoSent := 0 }) := h.modify rfl rfl
  by_cases hgo : ReplyGoes m env c reply
  · rw [mudmConnReply_goes hgo] at hr
    exact h₀.sendReply hc hr
  · obtain ⟨rc, -, he⟩ := mudmConnReply_stopped hgo
    rw [he] at hr
    cases Option.some.inj hr
    exact h₀

theorem mudmDisconnect {x : MyContext × Int × Option MemFifoDescriptor} (h : Tabled n m)
    (hc : c < n) (hx : mudmDisconnect m env c = some x) : Tabled n x.1 := by
  have hmark : Tabled n (m.leaving c) := h.modify rfl rfl
  cases mudmDisconnect_outcome hx with
  | stopped => exact h
  | lost => exact hmark
  | sent m₁ _ _ hfree => exact hmark.free hc hfree

theorem disconnectRequest {x : MyContext × Int × Option Nat} (h : Tabled n m)
    (hx : disconnectRequest m hdr = some x) : Tabled n x.1 := by
  cases disconnectRequest_outcome hx with
  | stopped => exact h
  | freed m₁ hc _ _ hfree => exact h.free (h.size ▸ hc) hfree

theorem connStep {i : ConnInput} (h : Tabled n m) (hs : connStep m i = some m') : Tabled n m' := by
  cases i with
  | connect env destNode req =>
    obtain ⟨r, hr, rfl⟩ := Option.map_eq_some_iff.mp hs
    exact h.mudmConnect hr
  | connReply env c reply =>
    dsimp only [BgqVrnic.connStep] at hs
    split at hs
    next hc =>
      obtain ⟨r, hr, rfl⟩ := Option.map_eq_some_iff.mp hs
      exact h.mudmConnReply (h.size ▸ hc) hr
    next => cases hs
  | disconnect env c =>
    dsimp only [BgqVrnic.connStep] at hs
    split at hs
    next hc =>
      obtain ⟨x, hx, rfl⟩ := Option.map_eq_some_iff.mp hs
      exact h.mudmDisconnect (h.size ▸ hc) hx
    next => cases hs
  | request t pkt =>
    cases Option.some.inj hs
    exact h.connectRequest
  | reply pkt =>
    obtain ⟨x, hx, rfl⟩ := Option.map_eq_some_iff.mp hs
    exact h.connectReply hx
  | disconnected hdr =>
    obtain ⟨x, hx, rfl⟩ := Option.map_eq_some_iff.mp hs
    exact h.disconnectRequest hx

variable {visit : Connection → Connection} {head : Option Nat} {l : List Nat} {fuel : Nat}

theorem walkConns (h : Tabled n m) (hw : walkConns visit fuel head m = some (m', l))
    (hv : ∀ x, (visit x).nextconn = x.nextconn) (hp : ∀ x, (visit x).prevconn = x.prevconn)
    (hhead : ∀ c, head = some c → c < n) : Tabled n m' := by
  induction fuel generalizing head m l with
  | zero =>
    cases head with
    | none =>
      cases Option.some.inj hw
      exact h
    | some c => cases hw
  | succ fuel ih =>
    cases head with
    | none =>
      cases Option.some.inj hw
      exact h
    | some c =>
      have hc : c < n := hhead c rfl
      obtain ⟨⟨m₁, l₁⟩, hw₁, hw⟩ := Option.bind_eq_some_iff.mp hw
      cases Option.some.inj hw
      have h₁ : Tabled n (m.modify c visit) := h.modify (hv _) (hp _)
      exact ih h₁ hw₁ (h₁.inside.next c hc)

/-- The end of a list is hung before another list, whose head then leads to the first. -/
theorem hang {x : Nat} {v : Option Nat} (h : Tabled n m) (hv : ∀ c, v = some c → c < n) :
    Tabled n (m.setNext x v) := by
  refine ⟨h.size, ?_⟩
  have hnext : (m.setNext x v).heap.next = Function.update m.next x v := MyContext.next_setNext
  have hprev : (m.setNext x v).heap.prev = m.prev := MyContext.prev_setNext
  exact ⟨hnext ▸ h.inside.next.update hv, hprev ▸ h.inside.prev, h.inside.head⟩

theorem setHead {p : Place} {v : Option Nat} (h : Tabled n m)
    (hh : m'.head = Function.update m.head p v) (hv : ∀ c, v = some c → c < n)
    (hn : m'.next = m.next) (hp : m'.prev = m.prev) (hmax : m'.maxConnections = m.maxConnections) : Tabled n m' := by
  refine ⟨hmax.trans h.size, ?_⟩
  unfold MyContext.heap
  rw [hn, hp, hh]
  exact ⟨h.inside.next, h.inside.prev, heads_update h.inside.head hv⟩

theorem disableActive (h : Tabled n m) (hr : disableActiveConnectionList m k = some m') :
    Tabled n m' := by
  obtain ⟨x, hw, hr⟩ := Option.bind_eq_some_iff.mp hr
  cases Option.some.inj hr
  exact h.walkConns hw (fun _ => rfl) (fun _ => rfl) (h.inside.head (.active k))

theorem disablePending {x : MyContext × Nat} (h : Tabled n m)
    (hr : disablePendingConnectionList m k = some x) : Tabled n x.1 := by
  obtain ⟨⟨m₁, l⟩, hw, hr⟩ := Option.bind_eq_some_iff.mp hr
  have h₁ := h.walkConns hw (fun _ => rfl) (fun _ => rfl) (h.inside.head (.pend k))
  dsimp only at hr
  split at hr
  · cases Option.some.inj hr
    exact h₁
  next last hlast =>
    cases Option.some.inj hr
    have h₂ := h₁.hang (x := last) (h₁.inside.head (.abort k))
    have h₃ := h₂.setHead (MyContext.head_setAbortHead (k := k)) (h₁.inside.head (.pend k)) rfl rfl rfl
    exact h₃.setHead MyContext.head_setPendHead (fun _ hc => by cases hc) rfl rfl rfl

theorem flush {x : MyContext × List (Nat × IonetHeader)} (h : Tabled n m)
    (hr : flushIolinkConnectionList m k = some x) : Tabled n x.1 := by
  obtain ⟨⟨m₁, l⟩, hw, hr⟩ := Option.bind_eq_some_iff.mp hr
  have h₁ := h.walkConns hw (fun _ => rfl) (fun _ => rfl) (h.inside.head (.active k))
  dsimp only at hr
  split at hr
  · cases Option.some.inj hr
    exact h₁
  next last hlast =>
    cases Option.some.inj hr
    have h₂ := h₁.hang (x := last) (h₁.inside.head .free)
    have h₃ := h₂.setHead MyContext.head_setFreeHead (h.inside.head (.active k)) rfl rfl rfl
    exact h₃.setHead MyContext.head_setActiveHead (fun _ hc => by cases hc) rfl rfl rfl

theorem resetLink {x : MyContext × List (Nat × IonetHeader)} (h : Tabled n m)
    (hr : resetLink m k = some x) : Tabled n x.1 := by
  obtain ⟨m₁, hm₁, hr⟩ := Option.bind_eq_some_iff.mp hr
  obtain ⟨y, hy, hr⟩ := Option.bind_eq_some_iff.mp hr
  exact ((h.disableActive hm₁).disablePending hy).flush hr

theorem step {i : TableInput} (h : Tabled n m) (hs : tableStep m i = some m') : Tabled n m' := by
  cases i with
  | conn i => exact h.connStep hs
  | reset k =>
    obtain ⟨x, hx, rfl⟩ := Option.map_eq_some_iff.mp hs
    exact h.resetLink hx

theorem init (hn : 0 < n) : Tabled n (connListInit m n) := by
  have hnext : ∀ x ∈ Set.Iio n, ∀ y, (connListInit m n).next x = some y → y < n := by
    intro x hx y hy
    have hx : x < n := hx
    unfold MyContext.next connListInit at hy
    dsimp only at hy
    rw [if_pos hx] at hy
    dsimp only at hy
    split at hy
    next hlt => exact Option.some.inj hy ▸ hlt
    next => cases hy
  have hprev : ∀ x ∈ Set.Iio n, ∀ y, (connListInit m n).prev x = some y → y < n := by
    intro x hx y hy
    have hx : x < n := hx
    unfold MyContext.prev connListInit at hy
    dsimp only at hy
    rw [if_pos hx] at hy
    cases hy
  refine ⟨rfl, hnext, hprev, fun p x hx => ?_⟩
  cases p with
  | free => exact Option.some.inj hx ▸ hn
  | pend k => cases hx
  | active k => cases hx
  | abort k => cases hx

/-- Calls, packets and resets never make a pointer lead out of the table. -/
theorem of_run (is : List TableInput) (hn : 0 < n)
    (hr : run tableStep (connListInit m n) is = some m') : Tabled n m' :=
  run_preserves (fun _ _ _ => step) (init hn) hr

end Tabled

end BgqVrnic
