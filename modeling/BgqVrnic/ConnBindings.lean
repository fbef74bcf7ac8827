import BgqVrnic.Exchanges

namespace BgqVrnic

open Runs

namespace Exchange

variable (s : Exchange)

/-- The contexts have the index of each other, and the packets of each go to the other's queue pair and
node, from its own. -/
structure Bound (p q : Side × Nat) : Prop where
  destIndex : (s.conn p).destConnIndex = (s.conn q).myIndex
  backIndex : (s.conn q).destConnIndex = (s.conn p).myIndex
  destQpn : (s.conn p).memFifo.hdr.destQpn = (s.conn q).memFifo.hdr.sourceQpn
  backQpn : (s.conn q).memFifo.hdr.destQpn = (s.conn p).memFifo.hdr.sourceQpn
  destNode : (s.conn p).memFifo.hdr.torusDestNode = (s.node q.1).myTorusAddress
  backNode : (s.conn q).memFifo.hdr.torusDestNode = (s.node p.1).myTorusAddress

/-- The context was waiting for the reply that makes it active: this is an answer to the request of its
current use, from a context that has been taken for this request and for nothing since, and the two are
bound to each other. -/
structure Answered (a : Activation) : Prop where
  own : a.letter.asker = some a.use
  waiting : a.state = .pending
  by_peer : ∃ q, a.letter.answerer = some (s.current q) ∧ s.asker q = some a.use ∧
    s.Bound a.use.spot q

end Exchange

open Exchange

/-- Whenever a context becomes active by a reply, it is bound to the one that has answered. -/
def BindsRight (s : Exchange) : Prop := ∀ a ∈ s.activated, s.Answered a

/-- `mudm_conn_reply` is called to answer a request, for the queue pair that has sent it; no context is
given up as long as an answer for it may come, and none is taken again while its acceptance of a request
is on its way. -/
def Orderly (s : Exchange) : ExchangeInput → Prop
  | .connect side _ _ _ => ∀ c ∈ (s.node side).connFreelist, ¬ s.Accepting (side, c)
  | .connReply side env c reply =>
    ReplyGoes (s.node side) env c reply →
      (s.conn (side, c)).state = .pending ∧ s.asker (side, c) ≠ none ∧
        reply.ionetHdr.destQpn = (s.conn (side, c)).memFifo.hdr.sourceQpn
  | .disconnect side _ c => ¬ s.Awaits (side, c)
  | .letter n _ =>
    ∀ l ∈ s.letters[n]?, l.pkt.desc.hdr.type = .connRequest →
      ∀ c ∈ (s.node l.dest).connFreelist, ¬ s.Accepting (l.dest, c)
  | .parting n =>
    ∀ x ∈ s.partings[n]?,
      x.2.payloadLength = (s.conn (x.1, x.2.sequenceNumber)).lowbitTimestamp →
        ¬ s.Awaits (x.1, x.2.sequenceNumber)

variable {n : Side → Nat} {s s' : Exchange} {u v : Use} {l : Letter} {side : Side}
  {m : MyContext} {c destNode : Nat} {k : Connection} {x : ConnInput} {env : CallEnv}
  {req reply : IonetConnect} {r : CallResult} {hdr : IonetHeader} {t : Nat}

namespace ExchangeInv

theorem connect (h : ExchangeInv n s) (hok : Orderly s (.connect side env destNode req))
    (hr : mudmConnect (s.node side) env destNode req = some r) :
    ExchangeInv n (s.connected side r) := by
  have hm : connStep (s.node side) (.connect env destNode req) = some r.m := by
    simp only [connStep, hr, Option.map_some]
  unfold connected
  rcases mudmConnect_effect hr with ⟨c, hhead, hctx, -⟩ | ⟨hctx, -, hsame⟩
  · rw [hctx]
    have hwrites : ∃ k, Writes (s.node side) r.m c k := by
      rcases mudmConnect_writes hr with ⟨hsame, -⟩ | ⟨d, k, hd, hw, -⟩
      · rw [hsame]
        exact ⟨_, .refl _ c⟩
      · cases Option.some.inj (hhead.symm.trans hd)
        exact ⟨k, hw⟩
    obtain ⟨k, hw⟩ := hwrites
    have hstate : (s.conn (side, c)).state ≠ .pending := by
      rw [show (s.conn (side, c)).state = .free from ((h.lists side).head_free hhead).2]
      decide
    have h₁ : ExchangeInv n ((s.set side r.m).take (side, c) none) :=
      h.take hhead (hok c hhead) hw hm trivial (List.Sublist.refl _) rfl rfl rfl nofun
    dsimp only
    cases hsent : r.sent with
    | none =>
      rw [Option.map_none, post_none]
      exact h₁
    | some pkt =>
      obtain ⟨d, hd, -, hw, hpkt⟩ := mudmConnect_sends hr (mudmConnect_rc hr hsent)
      cases Option.some.inj (hhead.symm.trans hd)
      cases Option.some.inj (hsent.symm.trans hpkt)
      have hself : ((s.set side r.m).take (side, c) none).conn (side, c) = r.m.conn c := conn_set
      have hnone : ((s.set side r.m).take (side, c) none).asker (side, c) = none :=
        Function.update_self ..
      have hbinding : (((s.set side r.m).take (side, c) none).conn (side, c)).binding =
          ((s.node side).requesting env.timeBase destNode req c).binding := by
        rw [hself]
        exact field_of_unlinked Connection.binding hw.self fun _ => rfl
      have hc : Changes s ((s.set side r.m).take (side, c) none) (side, c) :=
        .of_writes hw rfl (List.Sublist.refl _) (fun _ hq => Function.update_of_ne hq ..)
          fun _ hq => Function.update_of_ne hq ..
      rw [Option.map_some]
      refine h₁.post (u := ((s.set side r.m).take (side, c) none).current (side, c))
        ⟨rfl, ⟨(h.indexed side).freelist hhead, rfl, hnone, ?_⟩, Or.inl ⟨rfl, rfl, rfl,
          (congrArg Binding.myIndex hbinding).symm, (congrArg Binding.sourceQpn hbinding).symm,
          (hc.address side).symm⟩⟩ ?_ ?_
      · exact (congrArg Connection.state hself).trans
          (field_of_unlinked Connection.state hw.self fun _ => rfl)
      · intro hmem
        obtain ⟨l, hl, hask⟩ := List.mem_map.mp hmem
        obtain ⟨u, hfits⟩ := h.letters l hl
        cases Option.some.inj (hfits.asker.symm.trans hask)
        exact hfits.waits.apart hstate rfl
      · intro q hs hask
        have hq : q ≠ (side, c) := by
          rintro rfl
          rw [hnone] at hask
          cases hask
        have hask₀ := (hc.keeps q hq).asker.symm.trans hask
        exact (h.taken q _ ((hc.state q hq).symm.trans hs) hask₀).1.waits.apart hstate rfl
  · rw [hctx]
    refine h.untouched ?_ rfl rfl (List.Sublist.refl _)
    rw [hsame]
    exact Function.update_eq_self side s.node

/-- A letter that arrives was the only one for the use that waits for it, and nobody else has its
request. -/
theorem arrived {i : Nat} (h : ExchangeInv n s) (hget : s.letters[i]? = some l) :
    ∃ u, s.Fits n l u ∧ some u ∉ (s.letters.eraseIdx i).map Letter.asker ∧
      ∀ q, (s.conn q).state = .pending → s.asker q ≠ some u := by
  have hmem := List.mem_of_getElem? hget
  obtain ⟨u, hfits⟩ := h.letters l hmem
  obtain ⟨hi, hget⟩ := List.getElem?_eq_some_iff.mp hget
  refine ⟨u, hfits, ?_, fun q hs hask => ?_⟩
  · have hperm := (List.getElem_cons_eraseIdx_perm hi).map Letter.asker
    have honce := hperm.nodup_iff.mpr h.once
    rw [List.map_cons, hget, hfits.asker] at honce
    exact (List.nodup_cons.mp honce).1
  · exact (h.taken q u hs hask).2 (List.mem_map.mpr ⟨l, hmem, hfits.asker⟩)

theorem request {i : Nat} (h : ExchangeInv n s) (hget : s.letters[i]? = some l)
    (htype : l.pkt.desc.hdr.type = .connRequest)
    (hok : ∀ c ∈ (s.node l.dest).connFreelist, ¬ s.Accepting (l.dest, c)) :
    ExchangeInv n ({ s with letters := s.letters.eraseIdx i }.requested l t) := by
  obtain ⟨u, hfits, honce, hnone⟩ := h.arrived hget
  have hm : connStep (s.node l.dest) (.request t l.pkt) =
      some (connectRequest (s.node l.dest) t l.pkt).1 := rfl
  have hl := List.eraseIdx_sublist s.letters i
  unfold requested
  rcases connectRequest_cases (s.node l.dest) t l.pkt with ⟨c, hhead, hc, hw⟩ | he
  · dsimp only
    rw [hc]
    refine h.take hhead (hok c hhead) hw hm trivial hl rfl rfl rfl fun u' hch hask hapart _ => ?_
    cases Option.some.inj (hfits.asker.symm.trans hask)
    have hspot := hapart hfits.waits
    have hkeeps := hch.keeps _ hspot
    have hbinding := field_of_unlinked Connection.binding hw.self fun _ => rfl
    rcases hfits.kind with hasking | hreplying
    · refine ⟨⟨(h.indexed l.dest).freelist hhead, hasking.dest,
        hfits.waits.keep hkeeps (hch.state _ hspot), ?_, ?_, ?_⟩, honce, fun q _ hs => hnone q hs⟩
      · rw [hkeeps.myIndex, ← hasking.index]
        exact (congrArg Connection.destConnIndex conn_set).trans
          (congrArg Binding.destConnIndex hbinding)
      · rw [hkeeps.sourceQpn, ← hasking.qpn]
        exact (congrArg (fun k => k.memFifo.hdr.sourceQpn) conn_set).trans
          (congrArg Binding.sourceQpn hbinding)
      · rw [hch.address, ← hasking.node]
        exact (congrArg Connection.destination conn_set).trans
          (congrArg Binding.destination hbinding)
    · rw [hreplying.type] at htype
      cases htype
  · dsimp only
    rw [he]
    exact h.untouched (Function.update_eq_self l.dest s.node) rfl rfl hl

/-- A context that has taken a request gives it up, or stops to be pending with its reply. -/
theorem resolve (h : ExchangeInv n s) (hs : (s.conn (side, c)).state = .pending)
    (hask : s.asker (side, c) = some u) (hw : Writes (s.node side) m c k) (hk : k.state ≠ .pending)
    (hm : connStep (s.node side) x = some m) (hok : RepliesFit (s.node side) x) :
    ExchangeInv n (s.set side m) ∧ Changes s (s.set side m) (side, c) ∧
      (s.set side m).Waits n u ∧ u.spot ≠ (side, c) ∧
      ∀ q, ((s.set side m).conn q).state = .pending → (s.set side m).asker q ≠ some u := by
  have hc : Changes s (s.set side m) (side, c) :=
    .of_writes hw rfl (List.Sublist.refl _) (fun _ _ => rfl) fun _ _ => rfl
  have hnode : (s.set side m).node = Function.update s.node side m := rfl
  obtain ⟨hindexed, hlists⟩ := h.after hm hok hnode
  have hstate : ((s.set side m).conn (side, c)).state ≠ .pending := by
    rw [conn_set, field_of_unlinked Connection.state hw.self fun _ => rfl]
    exact hk
  have hwaits := (h.taken (side, c) u hs hask).1.waits
  have hspot : u.spot ≠ (side, c) := by
    intro hspot
    have hnone := hwaits.asker
    rw [hspot, hask] at hnone
    cases hnone
  refine ⟨?_, hc, hwaits.keep (hc.keeps _ hspot) (hc.state _ hspot), hspot, fun q hq huq => ?_⟩
  · refine h.change hc hindexed hlists (fun u' hu' haw => ?_) (fun l _ u' v hv hv' => ?_)
      fun _ hp => absurd hp hstate
    · have hnone := (h.waits (List.Sublist.refl _) haw).asker
      rw [hu', hask] at hnone
      cases hnone
    · exact absurd hs (hv' ▸ hv.state)
  · by_cases hqc : q = (side, c)
    · subst hqc
      exact hstate hq
    · exact hqc (h.unique q (side, c) u ((hc.state q hqc).symm.trans hq) hs huq hask)

theorem connReply (h : ExchangeInv n s) (hok : Orderly s (.connReply side env c reply))
    (hin : c < (s.node side).maxConnections)
    (hr : mudmConnReply (s.node side) env c reply = some r) :
    ExchangeInv n ((s.set side r.m).post (r.sent.map fun pkt =>
      ⟨side.other, pkt, s.asker (side, c), some (s.current (side, c))⟩)) := by
  have hm : connStep (s.node side) (.connReply env c reply) = some r.m := by
    simp only [connStep, hr, Option.map_some, if_pos hin]
  by_cases hgo : ReplyGoes (s.node side) env c reply
  · obtain ⟨hs, hask, hqpn⟩ := hok hgo
    obtain ⟨u, hu⟩ := Option.ne_none_iff_exists'.mp hask
    obtain ⟨htaken, hnot⟩ := h.taken (side, c) u hs hu
    have hfit : RepliesFit (s.node side) (.connReply env c reply) := by
      refine fun _ => ⟨fun hfree => ?_, fun _ j => (h.lists side).not_active_head hs j⟩
      have hs : ((s.node side).conn c).state = .pending := hs
      rw [hfree] at hs
      cases hs
    have hside : side.other = u.spot.1 := by
      rw [show side = u.spot.1.other from htaken.side, Side.other_other]
    cases mudmConnReply_writes hr with
    | stopped hw _ hsent =>
      rw [hsent, Option.map_none, post_none]
      exact h.retain hw rfl rfl hm hfit
    | freed k hw hstate hindex hrc hsent =>
      obtain ⟨h₁, hc, hwaits, hspot, hlast⟩ := h.resolve hs hu hw (by rw [hstate]; decide) hm hfit
      rcases hsent with hsent | ⟨hst, hsent⟩
      · rw [hsent, Option.map_none, post_none]
        exact h₁
      · rw [hsent, Option.map_some]
        refine h₁.post ⟨hu, hwaits, Or.inr ⟨rfl, hside, ?_, fun h₀ => absurd h₀ hst⟩⟩ hnot hlast
        rw [(hc.keeps _ hspot).myIndex]
        exact htaken.index
    | sent hw hrc hst hsent =>
      obtain ⟨h₁, hc, hwaits, hspot, hlast⟩ := h.resolve hs hu hw (by exact nofun) hm hfit
      have hbinding : ((s.set side r.m).conn (side, c)).binding =
          ((s.node side).replying reply c).binding := by
        rw [conn_set]
        exact field_of_unlinked Connection.binding hw.self fun _ => rfl
      have hkeeps := hc.keeps _ hspot
      have hdest : ((s.set side r.m).conn (side, c)).destConnIndex =
          (s.conn (side, c)).destConnIndex := congrArg Binding.destConnIndex hbinding
      rw [hsent, Option.map_some]
      refine h₁.post ⟨hu, hwaits, Or.inr ⟨rfl, hside, ?_, fun _ =>
        ⟨s.current (side, c), ⟨hst, rfl, rfl, hu, ?_, ?_, ?_, ?_, ?_, ?_, ?_⟩⟩⟩⟩ hnot hlast
      · rw [hkeeps.myIndex]
        exact htaken.index
      · show ((s.set side r.m).conn (side, c)).state ≠ .pending
        rw [conn_set, field_of_unlinked Connection.state hw.self fun _ => rfl]
        exact nofun
      · exact (congrArg Binding.myIndex hbinding).symm
      · rw [hkeeps.myIndex]
        exact hdest.trans htaken.index
      · exact (congrArg Binding.sourceQpn hbinding).symm
      · rw [hkeeps.sourceQpn]
        exact (congrArg Binding.destQpn hbinding).trans (hqpn.trans htaken.qpn)
      · exact (hc.address side).symm
      · rw [hc.address]
        exact (congrArg Binding.torusDestNode hbinding).trans htaken.node
  · obtain ⟨rc, -, he⟩ := mudmConnReply_stopped hgo
    rw [he] at hr
    cases Option.some.inj hr
    have hw : Writes (s.node side)
        ((s.node side).modify c fun k => { k with memfifoSent := 0 }) c _ := .modify
    rw [Option.map_none, post_none]
    exact h.retain hw rfl rfl hm fun hgo' => absurd hgo' hgo

/-- Giving up a context disturbs nobody if no answer may come for it. -/
theorem giveUp (h : ExchangeInv n s) (hok : ¬ s.Awaits (side, c)) (hw : Writes (s.node side) m c k)
    (hk : k.state ≠ .pending) (hb : (m.conn c).binding = ((s.node side).conn c).binding)
    (hm : connStep (s.node side) x = some m) (hfit : RepliesFit (s.node side) x) :
    ExchangeInv n (s.set side m) := by
  have hc : Changes s (s.set side m) (side, c) :=
    .of_writes hw rfl (List.Sublist.refl _) (fun _ _ => rfl) fun _ _ => rfl
  have hnode : (s.set side m).node = Function.update s.node side m := rfl
  obtain ⟨hindexed, hlists⟩ := h.after hm hfit hnode
  have hstate : ((s.set side m).conn (side, c)).state ≠ .pending := by
    rw [conn_set, field_of_unlinked Connection.state hw.self fun _ => rfl]
    exact hk
  have hkeeps : KeepsUse s (s.set side m) (side, c) := by
    refine ⟨rfl, rfl, ?_⟩
    rw [conn_set]
    exact hb
  refine h.change hc hindexed hlists (fun u hu haw => ?_) (fun _ _ _ _ _ _ => ⟨hkeeps, hstate⟩)
    fun _ hp => absurd hp hstate
  have hwaits := h.waits (List.Sublist.refl _) haw
  have hcurrent : s.current (side, c) = u := hu ▸ hwaits.current
  refine absurd ⟨hu ▸ hwaits.state, ?_⟩ hok
  rw [hcurrent]
  rcases haw with hletter | ⟨q, -, hq, hask⟩
  · exact Or.inl hletter
  · have htaken := (h.taken q u hq hask).1
    have hside : q.1 = side.other := by rw [htaken.side, hu]
    obtain ⟨j, d⟩ := q
    subst hside
    refine Or.inr ⟨d, ?_, hq, hask⟩
    rw [(h.indexed side.other).size]
    exact htaken.inside

/-- What is on its way to part does not count. -/
theorem partings {ps : List (Side × IonetHeader)} (h : ExchangeInv n s) :
    ExchangeInv n { s with partings := ps } :=
  h.untouched rfl rfl rfl (List.Sublist.refl _)

theorem disconnect {y : MyContext × Int × Option MemFifoDescriptor} (h : ExchangeInv n s)
    (hok : Orderly s (.disconnect side env c)) (hin : c < (s.node side).maxConnections)
    (hy : mudmDisconnect (s.node side) env c = some y) : ExchangeInv n (s.set side y.1) := by
  have hm : connStep (s.node side) (.disconnect env c) = some y.1 := by
    simp only [connStep, hy, Option.map_some, if_pos hin]
  have hbinding := mudmDisconnect_binding hy
  cases mudmDisconnect_writes hy with
  | stopped hsame =>
    refine h.untouched ?_ rfl rfl (List.Sublist.refl _)
    rw [hsame]
    exact Function.update_eq_self side s.node
  | lost k hw hs => exact h.giveUp hok hw (by rw [hs]; decide) hbinding hm trivial
  | sent k hw hs => exact h.giveUp hok hw (by rw [hs]; decide) hbinding hm trivial

theorem parting {i : Nat} {y : MyContext × Int × Option Nat} (h : ExchangeInv n s)
    (hok : Orderly s (.parting i)) (hget : s.partings[i]? = some (side, hdr))
    (hy : disconnectRequest (s.node side) hdr = some y) : ExchangeInv n (s.set side y.1) := by
  have hm : connStep (s.node side) (.disconnected hdr) = some y.1 := by
    simp only [connStep, hy, Option.map_some]
  rcases disconnectRequest_writes hy with ⟨-, hsame⟩ | ⟨-, -, -, hkey, k, hw, hs, -⟩
  · refine h.untouched ?_ rfl rfl (List.Sublist.refl _)
    rw [hsame]
    exact Function.update_eq_self side s.node
  · exact h.giveUp (hok _ hget hkey) hw (by rw [hs]; decide) (disconnectRequest_binding hy) hm trivial

/-- Only the context that waits for it is touched by a reply. -/
theorem answer {i : Nat} {y : MyContext × Option Nat} (h : ExchangeInv n s)
    (hget : s.letters[i]? = some l) (hfits : s.Fits n l u) (hreply : s.Replying l u)
    (hctx : replyContext (s.node l.dest) l.pkt = some c)
    (hy : connectReply (s.node l.dest) l.pkt = some y) (hl : s'.letters = s.letters.eraseIdx i)
    (hnode : s'.node = Function.update s.node l.dest y.1) (hturn : s'.turn = s.turn)
    (hasker : s'.asker = s.asker) :
    ExchangeInv n s' ∧ Changes s s' (l.dest, c) ∧ u.spot = (l.dest, c) := by
  obtain ⟨u', hfits', honce, hnone⟩ := h.arrived hget
  cases Option.some.inj (hfits.asker.symm.trans hfits'.asker)
  have hspot : u.spot = (l.dest, c) := by
    refine Prod.ext hreply.dest.symm ?_
    rw [← (replyContext_names hctx).1, hreply.index]
    exact ((h.indexed u.spot.1).index u.spot.2 hfits.waits.inside).symm
  have hs : (s.conn (l.dest, c)).state = .pending := hspot ▸ hfits.waits.state
  have hm : connStep (s.node l.dest) (.reply l.pkt) = some y.1 := by
    simp only [connStep, hy, Option.map_some]
  have hfit : RepliesFit (s.node l.dest) (.reply l.pkt) := by
    intro d hd
    cases Option.some.inj (hctx.symm.trans hd)
    refine ⟨fun hfree => ?_, fun j => (h.lists l.dest).not_active_head hs j⟩
    have hs : ((s.node l.dest).conn c).state = .pending := hs
    rw [hfree] at hs
    cases hs
  have hwrites : ∃ k, Writes (s.node l.dest) y.1 c k ∧ k.state ≠ .pending := by
    obtain ⟨haccept, hrefuse⟩ := connectReply_writes hctx hy
    by_cases hst : l.pkt.body.status = 0
    · exact ⟨_, haccept hst, nofun⟩
    · obtain ⟨k, hw, hk, -⟩ := hrefuse hst
      exact ⟨k, hw, by rw [hk]; decide⟩
  obtain ⟨k, hw, hk⟩ := hwrites
  have hsub : s'.letters.Sublist s.letters := hl ▸ List.eraseIdx_sublist ..
  have hc : Changes s s' (l.dest, c) :=
    .of_writes hw hnode hsub (fun q _ => congrFun hturn q) fun q _ => congrFun hasker q
  obtain ⟨hindexed, hlists⟩ := h.after hm hfit hnode
  have hstate : (s'.conn (l.dest, c)).state ≠ .pending := by
    rw [conn_of_node hnode, field_of_unlinked Connection.state hw.self fun _ => rfl]
    exact hk
  refine ⟨h.change hc hindexed hlists (fun u' hu' haw => ?_) (fun _ _ _ v hv hv' => ?_)
    fun _ hp => absurd hp hstate, hc, hspot⟩
  · -- a use that waits at the same context is the one whose reply has come
    have hu : u' = u := by
      rw [← (h.waits hsub haw).current, hu', ← hspot, hfits.waits.current]
    subst hu
    rcases haw with ⟨l', hl', hask⟩ | ⟨q, -, hq, hask⟩
    · rw [hl] at hl'
      exact absurd (List.mem_map.mpr ⟨l', hl', hask⟩) honce
    · exact absurd hask (hnone q hq)
  · exact absurd hs (hv' ▸ hv.state)

end ExchangeInv

theorem connectReply_context {pkt : ConnPacket} {y : MyContext × Option Nat}
    (hctx : replyContext m pkt = some c) (hy : connectReply m pkt = some y) : y.2 = some c := by
  cases connectReply_outcome hctx hy with
  | accepted | refused => rfl

/-- The context that waits gets from an acceptance what it has to know of the context that accepts,
which knows it already. -/
theorem Exchange.Consenting.bound (h : s.Consenting l u v)
    (hc : Changes s s' (l.dest, c)) (hspot : u.spot = (l.dest, c)) (hu : s.Waits n u)
    (hw : Writes (s.node l.dest) m c ((s.node l.dest).accepting l.pkt c))
    (hnode : s'.node = Function.update s.node l.dest m) : s'.Bound u.spot v.spot := by
  have hne : v.spot ≠ (l.dest, c) := hspot ▸ (hu.apart h.state).symm
  have hkeeps := hc.keeps _ hne
  have hbinding : (s'.conn u.spot).binding = ((s.node l.dest).accepting l.pkt c).binding := by
    rw [hspot, conn_of_node hnode]
    exact field_of_unlinked Connection.binding hw.self fun _ => rfl
  have hold : s.conn u.spot = (s.node l.dest).conn c := by rw [hspot]; rfl
  have hindex : (s'.conn u.spot).myIndex = (s.conn u.spot).myIndex := by
    rw [hold]
    exact congrArg Binding.myIndex hbinding
  have hqpn : (s'.conn u.spot).memFifo.hdr.sourceQpn = (s.conn u.spot).memFifo.hdr.sourceQpn := by
    rw [hold]
    exact congrArg Binding.sourceQpn hbinding
  refine ⟨?_, ?_, ?_, ?_, ?_, ?_⟩
  · rw [hkeeps.myIndex, ← h.index]
    exact congrArg Binding.destConnIndex hbinding
  · rw [hkeeps.destConnIndex, hindex]
    exact h.backIndex
  · rw [hkeeps.sourceQpn, ← h.qpn]
    exact congrArg Binding.destQpn hbinding
  · rw [hkeeps.destQpn, hqpn]
    exact h.backQpn
  · rw [hc.address, ← h.node]
    exact congrArg Binding.torusDestNode hbinding
  · rw [hkeeps.torusDestNode, hc.address]
    exact h.backNode

theorem bindsRight_of_none (h : s.activated = none) : BindsRight s := by
  intro a ha
  rw [h] at ha
  cases ha

namespace ExchangeInv

/-- A reply that has come makes its context active only as the one that is bound to its answerer. -/
theorem replied {i : Nat} (h : ExchangeInv n s) (hget : s.letters[i]? = some l)
    (htype : l.pkt.desc.hdr.type ≠ .connRequest)
    (hr : ({ s with letters := s.letters.eraseIdx i } : Exchange).replied l = some s') :
    ExchangeInv n s' ∧ BindsRight s' := by
  obtain ⟨y, hy, hr⟩ := Option.bind_eq_some_iff.mp hr
  have hr := (Option.some.inj hr).symm
  have hy : connectReply (s.node l.dest) l.pkt = some y := hy
  have hnode : s'.node = Function.update s.node l.dest y.1 := by rw [hr]; rfl
  have hturn : s'.turn = s.turn := by rw [hr]; rfl
  have hasker : s'.asker = s.asker := by rw [hr]; rfl
  have hl : s'.letters = s.letters.eraseIdx i := by rw [hr]; rfl
  have hactivated : s'.activated = if l.pkt.body.status = 0 then
      y.2.map fun c => ⟨s.current (l.dest, c), (s.conn (l.dest, c)).state, l⟩ else none := by
    rw [hr]
    rfl
  clear hr
  obtain ⟨u, hfits⟩ := h.letters l (List.mem_of_getElem? hget)
  have hreply : s.Replying l u := hfits.kind.resolve_left fun hask => htype hask.type
  cases hctx : replyContext (s.node l.dest) l.pkt with
  | none =>
    rw [connectReply_unknown hctx] at hy
    cases Option.some.inj hy
    refine ⟨h.untouched (hnode.trans (Function.update_eq_self l.dest s.node)) hturn hasker
      (hl ▸ List.eraseIdx_sublist ..), fun a ha => ?_⟩
    rw [hactivated] at ha
    split at ha <;> cases ha
  | some c =>
    obtain ⟨hinv, hc, hspot⟩ := h.answer hget hfits hreply hctx hy hl hnode hturn hasker
    refine ⟨hinv, fun a ha => ?_⟩
    rw [hactivated, connectReply_context hctx hy] at ha
    split at ha
    next hst =>
      obtain rfl : a = ⟨s.current (l.dest, c), (s.conn (l.dest, c)).state, l⟩ :=
        (Option.some.inj ha).symm
      obtain ⟨v, hv⟩ := hreply.answers hst
      have hw := (connectReply_writes hctx hy).1 hst
      have huse : s.current (l.dest, c) = u := hspot ▸ hfits.waits.current
      have hstate : (s.conn (l.dest, c)).state = .pending := hspot ▸ hfits.waits.state
      refine ⟨hfits.asker.trans (congrArg some huse.symm), hstate, v.spot, ?_, ?_, ?_⟩
      · have hcurrent : s'.current v.spot = v := by
          unfold Exchange.current
          rw [hturn]
          exact hv.current
        rw [hcurrent]
        exact hv.answerer
      · rw [hasker, huse]
        exact hv.asker
      · rw [huse]
        exact hv.bound hc hspot hfits.waits hw hnode
    next => cases ha

theorem step {i : ExchangeInput} (h : ExchangeInv n s) (hok : Orderly s i)
    (hs : exchangeStep s i = some s') : ExchangeInv n s' ∧ BindsRight s' := by
  cases i with
  | connect side env destNode req =>
    obtain ⟨r, hr, rfl⟩ := Option.map_eq_some_iff.mp hs
    refine ⟨h.connect hok hr, bindsRight_of_none ?_⟩
    unfold connected
    split <;> rfl
  | connReply side env c reply =>
    simp only [exchangeStep] at hs
    split at hs
    next hin =>
      obtain ⟨r, hr, hs⟩ := Option.bind_eq_some_iff.mp hs
      cases Option.some.inj hs
      exact ⟨h.connReply hok hin hr, bindsRight_of_none rfl⟩
    next => cases hs
  | disconnect side env c =>
    simp only [exchangeStep] at hs
    split at hs
    next hin =>
      obtain ⟨y, hy, hs⟩ := Option.bind_eq_some_iff.mp hs
      cases Option.some.inj hs
      exact ⟨(h.disconnect hok hin hy).partings, bindsRight_of_none rfl⟩
    next => cases hs
  | letter i t =>
    obtain ⟨l, hl, hs⟩ := Option.bind_eq_some_iff.mp hs
    dsimp only at hs
    split at hs
    next htype =>
      cases Option.some.inj hs
      refine ⟨h.request hl htype (hok l hl htype), bindsRight_of_none ?_⟩
      unfold requested
      dsimp only
      split <;> rfl
    next htype => exact h.replied hl htype hs
  | parting i =>
    obtain ⟨⟨dest, hdr⟩, hx, hs⟩ := Option.bind_eq_some_iff.mp hs
    obtain ⟨y, hy, hs⟩ := Option.bind_eq_some_iff.mp hs
    cases Option.some.inj hs
    exact ⟨(h.parting hok hx hy).partings, bindsRight_of_none rfl⟩

theorem init {m : Side → MyContext} (hn : ∀ side, 0 < n side ∧ n side ≤ 2 ^ 16) :
    ExchangeInv n (newExchange m n) := by
  have hfree : ∀ p, ((newExchange m n).conn p).state ≠ .pending := by
    intro p
    show ((connListInit (m p.1) (n p.1)).conn p.2).state ≠ .pending
    unfold connListInit
    dsimp only
    split <;> exact nofun
  exact ⟨fun side => .init (hn side).1 (hn side).2, fun side => connInv_init (m side) (hn side).1,
    fun l hl => absurd hl List.not_mem_nil, List.nodup_nil, fun p _ hp => absurd hp (hfree p),
    fun p _ _ hp => absurd hp (hfree p)⟩

end ExchangeInv

/-- In an orderly run, every context that becomes active by a reply is bound to the context that has
answered the request of its current use. -/
theorem reply_binds_right {m : Side → MyContext} {n : Side → Nat} {is : List ExchangeInput}
    (hn : ∀ side, 0 < n side ∧ n side ≤ 2 ^ 16)
    (hok : Meets exchangeStep Orderly (newExchange m n) is) :
    Always exchangeStep BindsRight (newExchange m n) is := by
  have hinv : Always exchangeStep (fun s => ExchangeInv n s ∧ BindsRight s) (newExchange m n) is :=
    always_of_step (fun _ _ _ h hi hs => h.1.step hi hs) ⟨.init hn, bindsRight_of_none rfl⟩ hok
  exact hinv.imp fun _ h => h.2

instance decidableAwaits (s : Exchange) (p : Side × Nat) : Decidable (s.Awaits p) :=
  inferInstanceAs (Decidable (_ ∧ _))

instance decidableAccepting (s : Exchange) (p : Side × Nat) : Decidable (s.Accepting p) :=
  inferInstanceAs (Decidable (∃ l ∈ s.letters, _))

instance decidableOrderly (s : Exchange) : ∀ i, Decidable (Orderly s i)
  | .connect side _ _ _ =>
    inferInstanceAs (Decidable (∀ c ∈ (s.node side).connFreelist, ¬ s.Accepting (side, c)))
  | .connReply side env c reply =>
    inferInstanceAs (Decidable (ReplyGoes (s.node side) env c reply → _))
  | .disconnect side _ c => inferInstanceAs (Decidable (¬ s.Awaits (side, c)))
  | .letter n _ => inferInstanceAs (Decidable (∀ l ∈ s.letters[n]?, _ → _))
  | .parting n => inferInstanceAs (Decidable (∀ x ∈ s.partings[n]?, _ → _))

/-- What the queue pair `source` sends to `dest`. -/
def betweenQps (source dest : Nat) : IonetConnect :=
  ⟨{ (default : IonetHeader) with sourceQpn := source, destQpn := dest }, default⟩

/-- Two requests, from both sides, are answered, the second one first; then the connections end, and the
contexts are used again. -/
def crossedRequests : List ExchangeInput :=
  [.connect .near (upEnv 100) 5 (betweenQps 10 0xffff), .connect .far (upEnv 110) 1 (betweenQps 30 0xffff),
    .letter 1 200, .connReply .near (upEnv 210) 1 (betweenQps 40 30), .letter 1 220,
    .letter 0 230, .connReply .far (upEnv 240) 1 (betweenQps 20 10), .letter 0 250,
    .disconnect .near (upEnv 300) 0, .parting 0,
    .connect .near (upEnv 310) 5 (betweenQps 12 0xffff), .letter 0 320,
    .connReply .far (upEnv 330) 1 (betweenQps 22 12), .letter 0 340]

theorem reply_binds_right_crossed :
    Always exchangeStep BindsRight (newExchange twoEnds fun _ => 4) crossedRequests :=
  reply_binds_right (fun _ => by decide) (by decide +kernel)

/-- A context is given up while it waits for its answer, and used again. -/
def staleReply : List ExchangeInput :=
  [.connect .near (upEnv 100) 5 (betweenQps 10 0xffff), .letter 0 200,
    .connReply .far (upEnv 210) 0 (betweenQps 20 10), .disconnect .near (upEnv 220) 0,
    .connect .near (upEnv 230) 5 (betweenQps 12 0xffff), .letter 0 240]

/-- The reply to the first request makes the context active for the second one, and the other end sends
to the queue pair that has asked first. -/
theorem stale_reply_activates :
    ¬ Always exchangeStep BindsRight (newExchange twoEnds fun _ => 4) staleReply ∧
      (run exchangeStep (newExchange twoEnds fun _ => 4) staleReply).map (fun s =>
        ((s.conn (.near, 0)).state, (s.conn (.near, 0)).memFifo.hdr.sourceQpn,
          (s.conn (.far, 0)).memFifo.hdr.destQpn)) = some (.active, 12, 10) := by
  refine ⟨fun h => ?_, by decide +kernel⟩
  have hmap : (run exchangeStep (newExchange twoEnds fun _ => 4) staleReply).map (fun s =>
      s.activated.map fun a => (a.use, a.letter.asker)) =
        some (some (⟨(.near, 0), 2⟩, some ⟨(.near, 0), 1⟩)) := by
    decide +kernel
  obtain ⟨s, hs, hlast⟩ := Option.map_eq_some_iff.mp hmap
  obtain ⟨a, ha, hact⟩ := Option.map_eq_some_iff.mp hlast
  obtain ⟨huse, hask⟩ := Prod.mk.inj hact
  have hown := (h.last hs a ha).own
  rw [huse, hask] at hown
  exact absurd hown (by decide)

end BgqVrnic
