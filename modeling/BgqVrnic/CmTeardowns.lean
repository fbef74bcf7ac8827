import BgqVrnic.CmOutcomes

namespace BgqVrnic

open Intrusive Leases Runs

variable {s s' : CmRun} {d d' : VrnicDev} {m m' : MyContext} {i : CmInput} {x : Holder}
  {p e c n cmId destNode : Nat} {q q' : CmQp} {k : Cep} {env : CallEnv} {rc : Int} {mem : Option Nat}
  {addr : CmAddr} {param : ConnParam} {res : CallResult} {r : Int × VrnicDev} {pkt : ConnPacket}

/-- What `bgvrnic_connect` does for the queue pair at `p`. -/
structure ConnectEffect (d d' : VrnicDev) (p : Nat) (res : CallResult) : Prop where
  m : d'.m = res.m
  qp : ∃ q q', d.qp p = some q ∧ d'.qp = Function.update d.qp p (some q') ∧
    q'.muContext = res.connContext.or q.muContext ∧ q'.qpState = q.qpState
  cep : ∀ e k, d'.cep e = some k → k.vrnicQp = none → d.cep e = some k

theorem bgvrnicConnect_cases (h : bgvrnicConnect d env mem cmId addr destNode param = some r) :
    r.2 = d ∧ d.connecting (.connect env mem cmId addr destNode param) = none ∨
    ∃ p res, mudmConnect d.m env destNode (connectMsg addr param p) = some res ∧
      d.connecting (.connect env mem cmId addr destNode param) = some (p, res) ∧
      ConnectEffect d r.2 p res := by
  rcases bgvrnicConnect_leaves h with ⟨hnone, hd⟩ | ⟨e, p, res, q, rfl, hsome, hres, hq, hcases⟩
  · exact Or.inl ⟨hd, hnone⟩
  · refine Or.inr ⟨p, res, hres, hsome, ?_⟩
    rcases hcases with ⟨-, hd⟩ | ⟨-, hd⟩
    · rw [hd]
      exact ⟨rfl, ⟨q, _, hq, rfl, rfl, rfl⟩, fun _ _ hk _ => hk⟩
    · rw [hd]
      refine ⟨rfl, ⟨q, _, hq, rfl, rfl, rfl⟩, fun a k hk hv => ?_⟩
      simp only [VrnicDev.setProvider, VrnicDev.addCep, Function.update_apply] at hk
      split at hk
      · cases Option.some.inj hk
        cases hv
      · exact hk

/-- What `bgvrnic_accept` does for the queue pair at `p` with the endpoint at `e` and its context. -/
structure AcceptEffect (d d' : VrnicDev) (p e c : Nat) (res : CallResult) : Prop where
  m : d'.m = res.m
  qp : ∃ q', d'.qp = Function.update d.qp p (some q') ∧ q'.muContext = some c ∧ q'.qpState = .rts
  context : ∃ k, d.cep e = some k ∧ k.muContext = some c
  cep : ∀ a k, d'.cep a = some k → k.vrnicQp = none → a ≠ e ∧ d.cep a = some k

theorem endRequest_eq (h : endRequest d cmId rc = some r) : r.2.m = d.m ∧ r.2.qp = d.qp := by
  rcases endRequest_cases h with ⟨-, hd⟩ | ⟨e, -, -, hd⟩
  · rw [hd]
    exact ⟨rfl, rfl⟩
  · rw [hd]
    exact ⟨rfl, rfl⟩

theorem bgvrnicAccept_cases (h : bgvrnicAccept d env cmId addr param rc = some r) :
    endRequest d cmId (-EINVAL) = some r ∧ d.accepting (.accept env cmId addr param rc) = none ∨
    ∃ p e c k res, mudmConnReply d.m env c (acceptMsg addr param k) = some res ∧
      d.accepting (.accept env cmId addr param rc) = some (p, e, c, res) ∧
      AcceptEffect d r.2 p e c res := by
  rcases bgvrnicAccept_leaves h with ⟨hnone, hd⟩ |
    ⟨p, e, c, res, q, k, hsome, -, -, -, hk, hc, hres, hcases⟩
  · exact Or.inl ⟨hd, hnone⟩
  · refine Or.inr ⟨p, e, c, k, res, hres, hsome, ?_⟩
    -- the endpoint has its queue pair now, or it is gone
    rcases hcases with ⟨-, hd⟩ | ⟨-, hd⟩
    · rw [hd]
      refine ⟨rfl, ⟨_, rfl, rfl, rfl⟩, ⟨k, hk, hc⟩, fun a k' ha _ => ?_⟩
      simp only [VrnicDev.setProvider, VrnicDev.dropCep, VrnicDev.setQp, Function.update_apply] at ha
      split at ha
      · cases ha
      next hne => exact ⟨hne, ha⟩
    · rw [hd]
      refine ⟨rfl, ⟨_, rfl, rfl, rfl⟩, ⟨k, hk, hc⟩, fun a k' ha hv => ?_⟩
      simp only [VrnicDev.setQp, Function.update_apply] at ha
      split at ha
      · cases Option.some.inj ha
        cases hv
      next hne => exact ⟨hne, ha⟩

theorem bgvrnicReject_cases {privateData : List UInt8}
    (h : bgvrnicReject d env cmId addr privateData = some r) :
    endRequest d cmId (-EINVAL) = some r ∧ d.rejecting (.reject env cmId addr privateData) = none ∨
    ∃ e c k res, mudmConnReply d.m env c (rejectMsg addr privateData k) = some res ∧
      d.rejecting (.reject env cmId addr privateData) = some e ∧ d.cep e = some k ∧
      k.muContext = some c ∧ r.2 = ({ d with m := res.m }.dropCep e).setProvider cmId none := by
  rcases bgvrnicReject_leaves h with ⟨hnone, hd⟩ | ⟨e, c, k, res, hsome, -, hk, hc, hres, hd⟩
  · exact Or.inl ⟨hd, hnone⟩
  · exact Or.inr ⟨e, c, k, res, hres, hsome, hk, hc, hd⟩

/-- A request that gets no context changes nothing. -/
theorem requestArrives_full (hc : (connectRequest d.m env.timeBase pkt).2 = none)
    (h : requestArrives d env mem cmId rc pkt = some r) : r.2 = d := by
  have hm : (connectRequest d.m env.timeBase pkt).1 = d.m := by
    rcases connectRequest_effect d.m env.timeBase pkt with ⟨c, -, hc', -⟩ | hnone
    · rw [hc] at hc'
      cases hc'
    · rw [hnone]
  cases requestArrives_leaves h with
  | full _ hd => rw [hd, hm]
  | starved c hc' | opened c _ hc' | refused c _ hc' =>
    rw [hc] at hc'
    cases hc'

theorem replyArrives_cases (h : replyArrives d rc pkt = some r) :
    replyContext d.m pkt = none ∧ r.2 = d ∨
    ∃ c, replyContext d.m pkt = some c ∧ connectReply d.m pkt = some (r.2.m, some c) ∧
      SetsState d.m r.2.m c (if pkt.body.status = 0 then .active else .free) ∧ Quiet d r.2 := by
  cases replyArrives_leaves h with
  | unknown hctx hd => exact Or.inl ⟨hctx, hd⟩
  | unheard c hctx hreply _ hd =>
    refine Or.inr ⟨c, hctx, hreply, connectReply_effect hctx hreply, ?_⟩
    rw [hd]
    exact Quiet.setContext _
  | heard c e p cmId k q hctx hreply _ _ _ hq _ hd =>
    refine Or.inr ⟨c, hctx, hreply, connectReply_effect hctx hreply, ?_⟩
    rw [hd]
    refine .trans ?_ ((Quiet.dropCep e).trans (Quiet.setProvider cmId none))
    exact (Quiet.setContext _).trans (Quiet.setQp hq fun _ hc => hc)

theorem disconnectArrives_cases {closeRc : Int} {hdr : IonetHeader}
    (h : disconnectArrives d rc closeRc hdr = some r) :
    ∃ y, disconnectRequest d.m hdr = some y ∧ r.2.m = y.1 ∧ Quiet d r.2 := by
  obtain ⟨y, hy, hleaves⟩ := disconnectArrives_leaves h
  refine ⟨y, hy, ?_⟩
  cases hleaves with
  | unknown _ hd | unheard _ hd =>
    rw [hd]
    exact ⟨rfl, Quiet.setContext y.1⟩
  | failed p cmId q _ hq _ hd =>
    rw [hd]
    exact ⟨rfl, (Quiet.setContext y.1).trans (Quiet.setQp hq fun _ hc => hc)⟩
  | closed p cmId q _ _ hq _ _ hd =>
    rw [hd]
    refine ⟨rfl, .trans ?_ (Quiet.setProvider cmId none)⟩
    exact (Quiet.setContext y.1).trans (Quiet.setQp hq fun _ hc => hc)

/-- The inputs that are neither requests nor answers. -/
def CmInput.Local : CmInput → Prop
  | .data .. | .modifyQp .. | .createQp .. | .destroyQp .. => True
  | _ => False

/-- What an input does that tears a queue pair down. -/
structure TeardownEffect (d d' : VrnicDev) (p c : Nat) : Prop where
  disconnect : ∃ env y, mudmDisconnect d.m env c = some y ∧ d'.m = y.1
  quiet : Quiet d d'
  context : ∃ q, d.qp p = some q ∧ q.muContext = some c

theorem Quiet.destroyed {m : MyContext} {idr : Nat → Option Nat} :
    Quiet d { d with m := m, idr := idr, qp := Function.update d.qp p none } := by
  refine ⟨fun a q' c ha hc => ?_, fun _ _ hk _ => hk⟩
  simp only [Function.update_apply] at ha
  split at ha
  · cases ha
  · exact ⟨q', ha, hc⟩

theorem Quiet.created {qpn : Nat} : Quiet d (bgvrnicCreateQp d p qpn) := by
  refine ⟨fun a q' c ha hc => ?_, fun _ _ hk _ => hk⟩
  simp only [bgvrnicCreateQp, VrnicDev.setQp, Function.update_apply] at ha
  split at ha
  · cases Option.some.inj ha
    cases hc
  · exact ⟨q', ha, hc⟩

/-- A call of `bgvrnic_modify_qp` that does not drain the queue pair tears nothing down. -/
theorem tearing_of_kept {newState : Option QpState} {remainingWqes eventRc : Int} (hq : d.qp p = some q)
    (hkept : ¬ (newState = some .sqd ∧ remainingWqes ≤ 0 ∧ q.cmId.isSome = true)) :
    d.tearing (.modifyQp env p newState remainingWqes eventRc) = none := by
  simp only [VrnicDev.tearing, hq, bind, Option.bind]
  split
  · rfl
  · exact if_neg hkept

theorem local_cases (hi : i.Local) (h : cmCall d i = some d') :
    d.tearing i = none ∧ d'.m = d.m ∧ Quiet d d' ∨
      ∃ p c, d.tearing i = some (p, c) ∧ TeardownEffect d d' p c := by
  cases i with
  | data env qpn posted =>
    cases muRecvCb_leaves h with
    | received p q hp hq hposted hd =>
      rw [hd]
      refine Or.inl ⟨?_, rfl, Quiet.refl d⟩
      simp [VrnicDev.tearing, hp, hposted]
    | torn p c q y hp hq hposted hc hy hd =>
      rw [hd]
      refine Or.inr ⟨p, c, ?_, ⟨env, y, hy, rfl⟩, ?_, q, hq, hc⟩
      · simp [VrnicDev.tearing, hp, hq, hc, hposted]
      · exact (Quiet.setContext y.1).trans (Quiet.setQp hq fun _ ha => ha)
  | modifyQp env p newState remainingWqes eventRc =>
    obtain ⟨r, hr, rfl⟩ := Option.map_eq_some_iff.mp h
    cases bgvrnicModifyQp_leaves hr with
    | refused q hq hkept _ hd =>
      rw [hd]
      exact Or.inl ⟨tearing_of_kept hq hkept, rfl, Quiet.refl d⟩
    | torn c q y hq hstate hwqes hcm hc hy hd =>
      rw [hd]
      refine Or.inr ⟨p, c, ?_, ⟨env, y, hy, rfl⟩,
        (Quiet.setContext y.1).trans (Quiet.setQp hq fun _ ha => ha), q, hq, hc⟩
      simp [VrnicDev.tearing, hq, hc, hstate, hwqes, hcm]
    | set st draining q hq _ _ hkept hd =>
      rw [hd]
      exact Or.inl ⟨tearing_of_kept hq hkept, rfl, Quiet.setQp hq fun _ ha => ha⟩
  | createQp p qpn =>
    dsimp only [cmCall] at h
    split at h
    next hfresh =>
      cases Option.some.inj h
      exact Or.inl ⟨rfl, rfl, Quiet.created⟩
    next => cases h
  | destroyQp env p eventRc =>
    obtain ⟨r, hr, rfl⟩ := Option.map_eq_some_iff.mp h
    cases bgvrnicDestroyQp_leaves hr with
    | unconnected q hq hcm hd =>
      rw [hd]
      refine Or.inl ⟨?_, rfl, Quiet.destroyed⟩
      simp [VrnicDev.tearing, hq, hcm]
    | torn c q y hq hcm hc hy hd =>
      rw [hd]
      refine Or.inr ⟨p, c, ?_, ⟨env, y, hy, rfl⟩, Quiet.destroyed, q, hq, hc⟩
      simp [VrnicDev.tearing, hq, hc, hcm]
  | _ => cases hi

theorem ConnInv.connReply {reply : IonetConnect} (h : ConnInv m) (hbound : c < m.maxConnections)
    (hs : (m.conn c).state = .pending) (hres : mudmConnReply m env c reply = some res) :
    ConnInv res.m := by
  have hstep : connStep m (.connReply env c reply) = some res.m := by
    simp [connStep, hbound, hres]
  have hok : RepliesFit m (.connReply env c reply) := by
    refine fun _ => ⟨?_, fun _ => h.not_active_head hs⟩
    rw [hs]
    exact ConnState.noConfusion
  exact h.step hok hstep

theorem bgvrnicConnect_lists (hd : ConnInv d.m)
    (h : bgvrnicConnect d env mem cmId addr destNode param = some r) : ConnInv r.2.m := by
  rcases bgvrnicConnect_cases h with ⟨hr, -⟩ | ⟨p, res, hres, -, heffect⟩
  · rw [hr]
    exact hd
  · have hstep : connStep d.m (.connect env destNode (connectMsg addr param p)) = some res.m := by
      simp [connStep, hres]
    have hok : RepliesFit d.m (.connect env destNode (connectMsg addr param p)) := trivial
    rw [heffect.m]
    exact hd.step hok hstep

theorem bgvrnicAccept_lists (hd : ConnInv d.m)
    (hpending : ∀ p e c res, d.accepting (.accept env cmId addr param rc) = some (p, e, c, res) →
      c < d.m.maxConnections ∧ (d.m.conn c).state = .pending)
    (h : bgvrnicAccept d env cmId addr param rc = some r) : ConnInv r.2.m := by
  rcases bgvrnicAccept_cases h with ⟨hr, -⟩ | ⟨p, e, c, k, res, hres, hsome, heffect⟩
  · rw [(endRequest_eq hr).1]
    exact hd
  · obtain ⟨hbound, hs⟩ := hpending p e c res hsome
    rw [heffect.m]
    exact hd.connReply hbound hs hres

theorem bgvrnicReject_lists {privateData : List UInt8} (hd : ConnInv d.m)
    (hpending : ∀ e k c, d.rejecting (.reject env cmId addr privateData) = some e →
      d.cep e = some k → k.muContext = some c →
        c < d.m.maxConnections ∧ (d.m.conn c).state = .pending)
    (h : bgvrnicReject d env cmId addr privateData = some r) : ConnInv r.2.m := by
  rcases bgvrnicReject_cases h with ⟨hr, -⟩ | ⟨e, c, k, res, hres, hsome, hk, hc, hr⟩
  · rw [(endRequest_eq hr).1]
    exact hd
  · obtain ⟨hbound, hs⟩ := hpending e k c hsome hk hc
    rw [hr]
    exact hd.connReply hbound hs hres

theorem replyArrives_lists (hd : ConnInv d.m) (hok : RepliesFit d.m (.reply pkt))
    (h : replyArrives d rc pkt = some r) : ConnInv r.2.m := by
  rcases replyArrives_cases h with ⟨-, hr⟩ | ⟨c, -, hreply, -, -⟩
  · rw [hr]
    exact hd
  · have hstep : connStep d.m (.reply pkt) = some r.2.m := by simp [connStep, hreply]
    exact hd.step hok hstep

theorem disconnectArrives_lists {closeRc : Int} {hdr : IonetHeader} (hd : ConnInv d.m)
    (h : disconnectArrives d rc closeRc hdr = some r) : ConnInv r.2.m := by
  obtain ⟨y, hy, hm, -⟩ := disconnectArrives_cases h
  have hstep : connStep d.m (.disconnected hdr) = some r.2.m := by simp [connStep, hy, hm]
  have hok : RepliesFit d.m (.disconnected hdr) := trivial
  exact hd.step hok hstep

theorem local_lists (hd : ConnInv d.m) (hi : i.Local)
    (hbound : ∀ p c, d.tearing i = some (p, c) → c < d.m.maxConnections)
    (h : cmCall d i = some d') : ConnInv d'.m := by
  rcases local_cases hi h with ⟨-, hm, -⟩ | ⟨p, c, hsome, ⟨env, y, hy, hm⟩, -, -⟩
  · rw [hm]
    exact hd
  · have hstep : connStep d.m (.disconnect env c) = some d'.m := by
      simp [connStep, hbound p c hsome, hy, hm]
    have hok : RepliesFit d.m (.disconnect env c) := trivial
    exact hd.step hok hstep

/-- An input that ends no use leaves all flags. -/
theorem hasContext_none (d : VrnicDev) (p : Nat) : d.hasContext none p = false := rfl

theorem cepHasContext_none (d : VrnicDev) (e : Nat) : d.cepHasContext none e = false := rfl

theorem hasContext_ne {b : Nat} (h : d.hasContext (some b) p = false) (hq : d.qp p = some q)
    (hc : q.muContext = some c) : c ≠ b := by
  rintro rfl
  simp [VrnicDev.hasContext, hq, hc] at h

theorem cepHasContext_ne {b : Nat} (h : d.cepHasContext (some b) e = false) (hk : d.cep e = some k)
    (hc : k.muContext = some c) : c ≠ b := by
  rintro rfl
  simp [VrnicDev.cepHasContext, hk, hc] at h

theorem CmSound.connect (h : CmSound s)
    (hs : bgvrnicConnect s.dev env mem cmId addr destNode param = some r) :
    CmSound (s.note r.2 (.connect env mem cmId addr destNode param)) := by
  rcases bgvrnicConnect_cases hs with ⟨hd, hnone⟩ | ⟨p, res, hres, hsome, heffect⟩
  · simp only [CmRun.note, hnone, hd]
    exact h.quiet h.lists (Quiet.refl _) (fun _ hp => (Bool.or_eq_false_iff.mp hp).1)
      (fun _ he => (Bool.or_eq_false_iff.mp he).1) fun _ _ _ _ _ hlive => hlive
  · obtain ⟨hm, ⟨q, q', hq, hqp, hctx, -⟩, hcep⟩ := heffect
    have hlists := bgvrnicConnect_lists h.lists hs
    simp only [CmRun.note, hsome]
    rcases mudmConnect_effect hres with ⟨c, hfree, hc, hsets⟩ | ⟨hc, -, hsame⟩
    · rw [hc]
      rw [hc, Option.some_or] at hctx
      obtain ⟨hbound, hstate⟩ := h.lists.head_free hfree
      refine ⟨hlists, ?_, h.good⟩
      refine h.leases.take (a := .qp p) (not_inUse_of_free hstate) rfl rfl fun x b n hx => ?_
      have hkept : InUse s.dev.m b → InUse r.2.m b := fun hb => by
        rw [hm]
        refine hb.of_ne hsets ?_
        rintro rfl
        exact not_inUse_of_free hstate hb
      cases x with
      | qp a =>
        obtain ⟨hend, qa, hqa, hca, hn⟩ := holds_qp.mp hx
        dsimp only at hend hqa hn
        rw [hqp] at hqa
        by_cases hap : a = p
        · subst hap
          rw [Function.update_self] at hqa hend hn
          cases Option.some.inj hqa
          cases Option.some.inj (hctx.symm.trans hca)
          have hrc : res.rc = 0 := not_not.mp (of_decide_eq_false hend)
          rw [if_pos hrc] at hsets
          refine Or.inr ⟨rfl, rfl, hn.symm, ?_⟩
          rw [← hm] at hsets
          exact ⟨hsets.maxConnections ▸ hbound, Or.inl hsets.state_self⟩
        · rw [Function.update_of_ne hap] at hqa hend hn
          exact Or.inl ⟨holds_qp.mpr ⟨hend, qa, hqa, hca, hn⟩, hkept⟩
      | cep e =>
        obtain ⟨hend, k, hk, hv, hck, hn⟩ := holds_cep.mp hx
        have hend := (Bool.or_eq_false_iff.mp hend).1
        exact Or.inl ⟨holds_cep.mpr ⟨hend, k, hcep e k hk hv, hv, hck, hn⟩, hkept⟩
    · rw [hc]
      rw [hc, Option.none_or] at hctx
      have hquiet : Quiet s.dev r.2 := by
        refine ⟨fun a qa b hqa hb => ?_, hcep⟩
        rw [hqp, Function.update_apply] at hqa
        split at hqa
        next he =>
          subst he
          cases Option.some.inj hqa
          exact ⟨q, hq, hctx ▸ hb⟩
        next => exact ⟨qa, hqa, hb⟩
      refine h.quiet hlists hquiet (fun _ hp => (Bool.or_eq_false_iff.mp hp).1)
        (fun _ he => (Bool.or_eq_false_iff.mp he).1) fun _ _ _ _ _ hlive => ?_
      rw [hm, hsame]
      exact hlive

theorem CmRun.Open.holds (h : s.Open e) (hk : s.dev.cep e = some k) (hc : k.muContext = some c) :
    s.holds (.cep e) = some (c, s.cepUse e) ∧ (s.dev.m.conn c).state = .pending := by
  obtain ⟨hend, k', c', hk', hv, hc', hstate⟩ := h
  cases Option.some.inj (hk.symm.trans hk')
  cases Option.some.inj (hc.symm.trans hc')
  exact ⟨holds_cep.mpr ⟨hend, k, hk, hv, hc, rfl⟩, hstate⟩

theorem CmSound.accept (h : CmSound s) (hok : TeardownsFit s (.accept env cmId addr param rc))
    (hs : bgvrnicAccept s.dev env cmId addr param rc = some r) :
    CmSound (s.note r.2 (.accept env cmId addr param rc)) := by
  rcases bgvrnicAccept_cases hs with ⟨hd, hnone⟩ | ⟨p, e, c, k, res, hres, hsome, heffect⟩
  · obtain ⟨hm, -⟩ := endRequest_eq hd
    simp only [CmRun.note, hnone]
    refine h.quiet (hm ▸ h.lists) (Quiet.endRequest hd) (fun _ hp => (Bool.or_eq_false_iff.mp hp).1)
      (fun _ he => (Bool.or_eq_false_iff.mp he).1) fun _ _ _ _ _ hlive => ?_
    rw [hm]
    exact hlive
  · obtain ⟨hm, ⟨q', hqp, hctx, -⟩, ⟨k', hk, hkc⟩, hcep⟩ := heffect
    obtain ⟨hholds, hpending⟩ := (hok.2.1 p e c res hsome).holds hk hkc
    have hinUse := (h.inUse hholds).1
    have hlists : ConnInv r.2.m := hm ▸ h.lists.connReply hinUse.1 hpending hres
    simp only [CmRun.note, hsome]
    refine ⟨hlists, ?_, h.good⟩
    refine h.leases.pass (a := .cep e) (b := .qp p) rfl rfl hholds fun x b n hx => ?_
    have heffect := mudmConnReply_effect hres
    -- whoever has another context keeps it
    have hkept : ∀ y, s.holds y = some (b, n) → y ≠ .cep e → InUse r.2.m b := by
      intro y hy hne
      have hb := (h.inUse hy).1
      have hbc : b ≠ c := by
        rintro rfl
        exact hne (h.alone hy hholds)
      rw [hm]
      cases heffect with
      | stopped hkeeps _ => exact hb.keeps hkeeps
      | freed hsets _ => exact hb.of_ne hsets hbc
      | activated hsets _ _ => exact hb.of_ne hsets hbc
    cases x with
    | qp a =>
      obtain ⟨hend, qa, hqa, hca, hn⟩ := holds_qp.mp hx
      dsimp only at hend hqa hn
      rw [hqp] at hqa
      by_cases hap : a = p
      · subst hap
        rw [Function.update_self] at hqa hend hn
        cases Option.some.inj hqa
        cases Option.some.inj (hctx.symm.trans hca)
        refine ⟨Or.inr ⟨rfl, by rw [hn]⟩, ?_⟩
        have hrc : res.rc ≠ -ENOTCONN := of_decide_eq_false hend
        show InUse r.2.m c
        rw [hm]
        cases heffect with
        | stopped hkeeps _ => exact hinUse.keeps hkeeps
        | freed _ hfreed =>
          rcases hfreed with hfreed | hst
          · exact absurd hfreed hrc
          · exact absurd rfl hst
        | activated hsets _ _ => exact hinUse.set hsets (Or.inr rfl)
      · rw [Function.update_of_ne hap] at hqa hend hn
        have hold : s.holds (.qp a) = some (b, n) := holds_qp.mpr ⟨hend, qa, hqa, hca, hn⟩
        exact ⟨Or.inl ⟨nofun, hold⟩, hkept _ hold nofun⟩
    | cep a =>
      obtain ⟨hend, ka, hka, hv, hca, hn⟩ := holds_cep.mp hx
      obtain ⟨hae, hka⟩ := hcep a ka hka hv
      have hold : s.holds (.cep a) = some (b, n) :=
        holds_cep.mpr ⟨(Bool.or_eq_false_iff.mp hend).1, ka, hka, hv, hca, hn⟩
      have hne : Holder.cep a ≠ .cep e := fun he => hae (Holder.cep.inj he)
      exact ⟨Or.inl ⟨hne, hold⟩, hkept _ hold hne⟩

theorem CmSound.reject {privateData : List UInt8} (h : CmSound s)
    (hok : TeardownsFit s (.reject env cmId addr privateData))
    (hs : bgvrnicReject s.dev env cmId addr privateData = some r) :
    CmSound (s.note r.2 (.reject env cmId addr privateData)) := by
  have hnote : s.note r.2 (.reject env cmId addr privateData) =
      { s with
        dev := r.2
        qpEnded := fun p => s.qpEnded p || s.dev.hasContext none p
        cepEnded := fun e => s.cepEnded e || s.dev.cepHasContext none e } := rfl
  rw [hnote]
  rcases bgvrnicReject_cases hs with ⟨hd, -⟩ | ⟨e, c, k, res, hres, hsome, hk, hc, hd⟩
  · obtain ⟨hm, -⟩ := endRequest_eq hd
    refine h.quiet (hm ▸ h.lists) (Quiet.endRequest hd) (fun _ hp => (Bool.or_eq_false_iff.mp hp).1)
      (fun _ he => (Bool.or_eq_false_iff.mp he).1) fun _ _ _ _ _ hlive => ?_
    rw [hm]
    exact hlive
  · obtain ⟨hholds, hpending⟩ := (hok.2.2.1 e hsome).holds hk hc
    have hinUse := (h.inUse hholds).1
    rw [hd]
    refine h.quiet (h.lists.connReply hinUse.1 hpending hres)
      (((Quiet.setContext _).trans (Quiet.dropCep _)).trans (Quiet.setProvider _ _))
      (fun _ hp => (Bool.or_eq_false_iff.mp hp).1) (fun _ he => (Bool.or_eq_false_iff.mp he).1) ?_
    intro x b n hx hold hb
    have hbc : b ≠ c := by
      rintro rfl
      -- the endpoint that had the context is gone
      cases h.alone hold hholds
      obtain ⟨-, k', hk', -⟩ := holds_cep.mp hx
      have hgone : Function.update s.dev.cep e none e = some k' := hk'
      rw [Function.update_self] at hgone
      cases hgone
    show InUse res.m b
    cases mudmConnReply_effect hres with
    | stopped hkeeps _ => exact hb.keeps hkeeps
    | freed hsets _ => exact hb.of_ne hsets hbc
    | activated hsets _ _ => exact hb.of_ne hsets hbc

/-- What a request does that gets the context `c`. -/
structure RequestEffect (d d' : VrnicDev) (mem : Option Nat) (c : Nat) (pkt : ConnPacket) : Prop where
  lists : ConnInv d'.m
  max : d'.m.maxConnections = d.m.maxConnections
  others : ∀ b, b ≠ c → (d'.m.conn b).state = (d.m.conn b).state
  qp : d'.qp = d.qp
  cep : d'.cep = d.cep ∨ ∃ e, mem = some e ∧
    d'.cep = Function.update d.cep e (some (requestCep c pkt)) ∧ InUse d'.m c

theorem RequestEffect.kept {b : Nat} (h : RequestEffect d d' mem c pkt)
    (hfree : (d.m.conn c).state = .free) (hb : InUse d.m b) : InUse d'.m b := by
  refine ⟨h.max ▸ hb.1, ?_⟩
  have hbc : b ≠ c := by
    rintro rfl
    exact not_inUse_of_free hfree hb
  rw [h.others b hbc]
  exact hb.2

theorem requestArrives_effect (hd : ConnInv d.m) (hc : (connectRequest d.m env.timeBase pkt).2 = some c)
    (h : requestArrives d env mem cmId rc pkt = some r) :
    (d.m.conn c).state = .free ∧ RequestEffect d r.2 mem c pkt := by
  have hlists : ConnInv (connectRequest d.m env.timeBase pkt).1 := by
    have hok : RepliesFit d.m (.request env.timeBase pkt) := trivial
    exact hd.step hok rfl
  rcases connectRequest_effect d.m env.timeBase pkt with ⟨c', hfree, hc', hsets⟩ | hnone
  · cases Option.some.inj (hc.symm.trans hc')
    obtain ⟨hbound, hstate⟩ := hd.head_free hfree
    have hbound' := hsets.maxConnections ▸ hbound
    have hothers := fun b (hb : b ≠ c) => hsets.state_of_ne hb
    refine ⟨hstate, ?_⟩
    cases requestArrives_leaves h with
    | full hnone _ =>
      rw [hc] at hnone
      cases hnone
    | starved c' _ _ _ hd =>
      rw [hd]
      exact ⟨hlists, hsets.maxConnections, hothers, rfl, Or.inl rfl⟩
    | opened c' e hc' hmem _ hd =>
      cases Option.some.inj (hc.symm.trans hc')
      rw [hd]
      exact ⟨hlists, hsets.maxConnections, hothers, rfl,
        Or.inr ⟨e, hmem, rfl, hbound', Or.inl hsets.state_self⟩⟩
    | refused c' res hc' _ hres hd =>
      cases Option.some.inj (hc.symm.trans hc')
      rw [hd]
      have hreply := mudmConnReply_effect hres
      refine ⟨hlists.connReply hbound' hsets.state_self hres, hreply.max.trans hsets.maxConnections,
        fun b hb => (hreply.others hb).trans (hothers b hb), rfl, Or.inl rfl⟩
  · rw [hnone] at hc
    cases hc

theorem CmSound.request (h : CmSound s) (hfresh : freshCep s.dev mem = true)
    (hs : requestArrives s.dev env mem cmId rc pkt = some r) :
    CmSound (s.note r.2 (.request env mem cmId rc pkt)) := by
  cases hctx : (connectRequest s.dev.m env.timeBase pkt).2 with
  | none =>
    have hsame := requestArrives_full hctx hs
    simp only [CmRun.note, hctx, hsame]
    exact h.quiet h.lists (Quiet.refl _) (fun _ hp => (Bool.or_eq_false_iff.mp hp).1)
      (fun _ he => (Bool.or_eq_false_iff.mp he).1) fun _ _ _ _ _ hlive => hlive
  | some c =>
    obtain ⟨hstate, heffect⟩ := requestArrives_effect h.lists hctx hs
    simp only [CmRun.note, hctx]
    refine ⟨heffect.lists, ?_, h.good⟩
    refine h.leases.take (a := .cep (mem.getD 0)) (not_inUse_of_free hstate) rfl rfl
      fun x b n hx => ?_
    cases x with
    | qp a =>
      obtain ⟨hend, q, hq, hcq, hn⟩ := holds_qp.mp hx
      dsimp only at hq
      rw [heffect.qp] at hq
      exact Or.inl ⟨holds_qp.mpr ⟨(Bool.or_eq_false_iff.mp hend).1, q, hq, hcq, hn⟩, heffect.kept hstate⟩
    | cep a =>
      obtain ⟨hend, k, hk, hv, hck, hn⟩ := holds_cep.mp hx
      dsimp only at hend hk hn
      -- an endpoint that has been there is not the one in the new memory
      have hold : s.dev.cep a = some k →
          s.holds (.cep a) = some (b, n) ∧ (InUse s.dev.m b → InUse r.2.m b) := by
        intro hk
        have hne : mem ≠ some a := by
          rintro rfl
          simp [freshCep, hk] at hfresh
        rw [if_neg hne] at hend hn
        exact ⟨holds_cep.mpr ⟨hend, k, hk, hv, hck, hn⟩, heffect.kept hstate⟩
      rcases heffect.cep with hcep | ⟨e, rfl, hcep, hinUse⟩
      · rw [hcep] at hk
        exact Or.inl (hold hk)
      · rw [hcep, Function.update_apply] at hk
        split at hk
        next he =>
          subst he
          cases Option.some.inj hk
          cases Option.some.inj hck
          rw [if_pos rfl] at hn
          exact Or.inr ⟨rfl, rfl, hn.symm, hinUse⟩
        next => exact Or.inl (hold hk)

/-- A packet ends the use of the context that it is for, and leaves the others. -/
theorem CmSound.ended {t : ConnState} (h : CmSound s) (hlists : ConnInv d.m) (hquiet : Quiet s.dev d)
    (hsets : SetsState s.dev.m d.m c t) :
    CmSound { s with
      dev := d
      qpEnded := fun p => s.qpEnded p || s.dev.hasContext (some c) p
      cepEnded := fun e => s.cepEnded e || s.dev.cepHasContext (some c) e } := by
  refine h.quiet hlists hquiet (fun _ hp => (Bool.or_eq_false_iff.mp hp).1)
    (fun _ he => (Bool.or_eq_false_iff.mp he).1) fun x b n hx hold hb => hb.of_ne hsets ?_
  cases x with
  | qp p =>
    obtain ⟨-, q, hq, hc, -⟩ := holds_qp.mp hold
    obtain ⟨hend, -⟩ := holds_qp.mp hx
    exact hasContext_ne (Bool.or_eq_false_iff.mp hend).2 hq hc
  | cep e =>
    obtain ⟨-, k, hk, -, hc, -⟩ := holds_cep.mp hold
    obtain ⟨hend, -⟩ := holds_cep.mp hx
    exact cepHasContext_ne (Bool.or_eq_false_iff.mp hend).2 hk hc

theorem CmSound.reply (h : CmSound s) (hok : RepliesFit s.dev.m (.reply pkt))
    (hs : replyArrives s.dev rc pkt = some r) : CmSound (s.note r.2 (.reply rc pkt)) := by
  have hnote : s.note r.2 (.reply rc pkt) =
      { s with
        dev := r.2
        qpEnded := fun p => s.qpEnded p || s.dev.hasContext (s.dev.ending (.reply rc pkt)) p
        cepEnded := fun e => s.cepEnded e || s.dev.cepHasContext (s.dev.ending (.reply rc pkt)) e } :=
    rfl
  rw [hnote]
  rcases replyArrives_cases hs with ⟨hctx, hd⟩ | ⟨c, hctx, -, hsets, hquiet⟩
  · have hending : s.dev.ending (.reply rc pkt) = none := by
      simp [VrnicDev.ending, hctx]
    rw [hending, hd]
    exact h.quiet h.lists (Quiet.refl _) (fun _ hp => (Bool.or_eq_false_iff.mp hp).1)
      (fun _ he => (Bool.or_eq_false_iff.mp he).1) fun _ _ _ _ _ hlive => hlive
  · have hlists := replyArrives_lists h.lists hok hs
    by_cases hst : pkt.body.status = 0
    · have hending : s.dev.ending (.reply rc pkt) = none := if_pos hst
      rw [if_pos hst] at hsets
      rw [hending]
      exact h.quiet hlists hquiet (fun _ hp => (Bool.or_eq_false_iff.mp hp).1)
        (fun _ he => (Bool.or_eq_false_iff.mp he).1)
        fun _ _ _ _ _ hlive => hlive.set hsets (Or.inr rfl)
    · have hending : s.dev.ending (.reply rc pkt) = some c := (if_neg hst).trans hctx
      rw [hending]
      exact h.ended hlists hquiet hsets

theorem CmSound.disconnected {closeRc : Int} {hdr : IonetHeader} (h : CmSound s)
    (hs : disconnectArrives s.dev rc closeRc hdr = some r) :
    CmSound (s.note r.2 (.disconnected rc closeRc hdr)) := by
  obtain ⟨y, hy, hm, hquiet⟩ := disconnectArrives_cases hs
  have hlists := disconnectArrives_lists h.lists hs
  have hending : s.dev.ending (.disconnected rc closeRc hdr) = y.2.2 := by
    simp [VrnicDev.ending, hy]
  have hnote : s.note r.2 (.disconnected rc closeRc hdr) =
      { s with
        dev := r.2
        qpEnded := fun p => s.qpEnded p ||
          s.dev.hasContext (s.dev.ending (.disconnected rc closeRc hdr)) p
        cepEnded := fun e => s.cepEnded e ||
          s.dev.cepHasContext (s.dev.ending (.disconnected rc closeRc hdr)) e } := rfl
  rw [hnote, hending]
  rcases disconnectRequest_effect hy with ⟨hnone, hsame⟩ | ⟨c, hc, hsets⟩
  · rw [hnone]
    refine h.quiet hlists hquiet (fun _ hp => (Bool.or_eq_false_iff.mp hp).1)
      (fun _ he => (Bool.or_eq_false_iff.mp he).1) fun _ _ _ _ _ hlive => ?_
    rw [hm, hsame]
    exact hlive
  · rw [hc]
    rw [← hm] at hsets
    exact h.ended hlists hquiet hsets

/-- What the history says after an input that neither asks nor answers. -/
theorem note_local (hi : i.Local) : s.note d i =
    match s.dev.tearing i with
    | some (p, c) =>
      { s with
        dev := d
        qpEnded := Function.update s.qpEnded p true
        disconnects := s.disconnects ++ [⟨p, c, s.qpUse p, s.uses c, (s.dev.m.conn c).state⟩] }
    | none => { s with dev := d } := by
  have hending : s.dev.ending i = none := by
    cases i with
    | data | modifyQp | createQp | destroyQp => rfl
    | _ => cases hi
  have hnote : s.note d i =
      match s.dev.tearing i with
      | some (p, c) =>
        { s with
          dev := d
          qpEnded := Function.update
            (fun p => s.qpEnded p || s.dev.hasContext (s.dev.ending i) p) p true
          cepEnded := fun e => s.cepEnded e || s.dev.cepHasContext (s.dev.ending i) e
          disconnects := s.disconnects ++ [⟨p, c, s.qpUse p, s.uses c, (s.dev.m.conn c).state⟩] }
      | none =>
        { s with
          dev := d
          qpEnded := fun p => s.qpEnded p || s.dev.hasContext (s.dev.ending i) p
          cepEnded := fun e => s.cepEnded e || s.dev.cepHasContext (s.dev.ending i) e } := by
    cases i with
    | data | modifyQp | createQp | destroyQp => rfl
    | _ => cases hi
  rw [hnote, hending]
  simp only [hasContext_none, cepHasContext_none, Bool.or_false]

/-- A queue pair that is torn down gives up the use of its context that it still has. -/
theorem CmSound.local (h : CmSound s) (hi : i.Local)
    (hok : ∀ p c, s.dev.tearing i = some (p, c) → s.qpEnded p = false)
    (hs : cmCall s.dev i = some d) : CmSound (s.note d i) := by
  rw [note_local hi]
  rcases local_cases hi hs with ⟨hnone, hm, hquiet⟩ | ⟨p, c, hsome, hdis, hquiet, q, hq, hc⟩
  · rw [hnone]
    refine h.quiet (hm ▸ h.lists) hquiet (fun _ hp => hp) (fun _ he => he) fun _ _ _ _ _ hlive => ?_
    rw [hm]
    exact hlive
  · rw [hsome]
    dsimp only
    have hholds : s.holds (.qp p) = some (c, s.qpUse p) :=
      holds_qp.mpr ⟨hok p c hsome, q, hq, hc, rfl⟩
    obtain ⟨hinUse, huse, -⟩ := h.inUse hholds
    obtain ⟨env, y, hy, hm⟩ := hdis
    have hlists : ConnInv d.m := by
      refine local_lists h.lists hi (fun p' c' hp' => ?_) hs
      cases Option.some.inj (hsome.symm.trans hp')
      exact hinUse.1
    refine ⟨hlists, ?_, fun t ht => ?_⟩
    · refine h.leases.spend (a := .qp p) hholds rfl ?_ fun x b n hx => ?_
      · show List.map _ (s.disconnects ++ [_]) = _
        rw [List.map_append]
        rfl
      · have hold : x ≠ .qp p ∧ s.holds x = some (b, n) := by
          cases x with
          | qp a =>
            obtain ⟨hend, q', hq', hc', hn⟩ := holds_qp.mp hx
            dsimp only at hend hq' hn
            have hap : a ≠ p := by
              rintro rfl
              rw [Function.update_self] at hend
              cases hend
            rw [Function.update_of_ne hap] at hend
            obtain ⟨q₁, hq₁, hc₁⟩ := hquiet.qp a q' b hq' hc'
            exact ⟨fun he => hap (Holder.qp.inj he), holds_qp.mpr ⟨hend, q₁, hq₁, hc₁, hn⟩⟩
          | cep e =>
            obtain ⟨hend, k, hk, hv, hck, hn⟩ := holds_cep.mp hx
            exact ⟨nofun, holds_cep.mpr ⟨hend, k, hquiet.cep e k hk hv, hv, hck, hn⟩⟩
        refine ⟨hold.1, hold.2, ?_⟩
        have hb := (h.inUse hold.2).1
        have hbc : b ≠ c := by
          rintro rfl
          exact hold.1 (h.alone hold.2 hholds)
        show InUse d.m b
        rw [hm]
        rcases mudmDisconnect_effect hy with hsame | hfreed | hmarked
        · rw [hsame]
          exact hb
        · exact hb.of_ne hfreed hbc
        · exact hb.of_ne hmarked hbc
    · rcases List.mem_append.mp ht with ht | ht
      · exact h.good t ht
      · rw [List.mem_singleton.mp ht]
        exact ⟨huse, hinUse.ne_free⟩

theorem CmSound.step (h : CmSound s) (hok : TeardownsFit s i) (hs : cmStep s i = some s') :
    CmSound s' := by
  obtain ⟨d, hd, rfl⟩ := Option.map_eq_some_iff.mp hs
  cases i with
  | connect env mem cmId addr destNode param =>
    dsimp only [cmCall] at hd
    split at hd
    · obtain ⟨r, hr, rfl⟩ := Option.map_eq_some_iff.mp hd
      exact h.connect hr
    · cases hd
  | accept env cmId addr param eventRc =>
    obtain ⟨r, hr, rfl⟩ := Option.map_eq_some_iff.mp hd
    exact h.accept hok hr
  | reject env cmId addr privateData =>
    obtain ⟨r, hr, rfl⟩ := Option.map_eq_some_iff.mp hd
    exact h.reject hok hr
  | request env mem cmId eventRc pkt =>
    dsimp only [cmCall] at hd
    split at hd
    next hfresh =>
      obtain ⟨r, hr, rfl⟩ := Option.map_eq_some_iff.mp hd
      exact h.request hfresh hr
    · cases hd
  | reply eventRc pkt =>
    obtain ⟨r, hr, rfl⟩ := Option.map_eq_some_iff.mp hd
    exact h.reply (hok.2.2.2 eventRc pkt rfl) hr
  | disconnected eventRc closeRc hdr =>
    obtain ⟨r, hr, rfl⟩ := Option.map_eq_some_iff.mp hd
    exact h.disconnected hr
  | data | modifyQp | createQp | destroyQp => exact h.local trivial hok.1 hd

theorem cmSound_new (m : MyContext) {max : Nat} (hmax : 0 < max) (listeners : List Listener) :
    CmSound (newCmRun (connListInit m max) listeners) where
  lists := connInv_init m hmax
  good := nofun
  leases :=
    { current := fun x r n hx => by cases x <;> cases hx
      alone := fun x _ _ _ _ hx => by cases x <;> cases hx
      past := nofun
      once := List.nodup_nil }

/-- As long as what is torn down has not ended, and answers and replies come to contexts that wait for
them, every disconnect hits its own connection. -/
theorem teardowns_hit_own_connection {m : MyContext} {max : Nat} {listeners : List Listener}
    {is : List CmInput} (hmax : 0 < max)
    (hok : Meets cmStep TeardownsFit (newCmRun (connListInit m max) listeners) is) :
    Always cmStep DisconnectsFit (newCmRun (connListInit m max) listeners) is := by
  have hsound : Always cmStep CmSound (newCmRun (connListInit m max) listeners) is :=
    always_of_step (fun _ _ _ h hi hs => h.step hi hs) (cmSound_new m hmax listeners) hok
  exact hsound.imp fun _ h => ⟨h.good, h.leases.once⟩

theorem TeardownsFit.local (hi : i.Local)
    (h : ∀ p c, s.dev.tearing i = some (p, c) → s.qpEnded p = false) : TeardownsFit s i := by
  refine ⟨h, fun p e c res ha => ?_, fun e hr => ?_, fun rc pkt he => ?_⟩
  · cases i with
    | data | modifyQp | createQp | destroyQp => cases ha
    | _ => cases hi
  · cases i with
    | data | modifyQp | createQp | destroyQp => cases hr
    | _ => cases hi
  · subst he
    cases hi

theorem TeardownsFit.connect :
    TeardownsFit s (.connect env mem cmId addr destNode param) := by
  refine ⟨fun p c ht => ?_, fun p e c res ha => ?_, fun e hr => ?_, nofun⟩
  · cases ht
  · cases ha
  · cases hr

theorem TeardownsFit.reply (h : RepliesFit s.dev.m (.reply pkt)) : TeardownsFit s (.reply rc pkt) := by
  refine ⟨fun p c ht => ?_, fun p e c res ha => ?_, fun e hr => ?_, fun rc' pkt' hi => ?_⟩
  · cases ht
  · cases ha
  · cases hr
  · cases hi
    exact h

/-- A `cm_id` between port 20 here and port 10 on node 5. -/
def portTwenty : CmAddr := ⟨1, 20, 5, 10⟩

/-- A queue pair connects to node 5. -/
def connectToFive : List CmInput :=
  [.createQp 10 17, .connect (upEnv 100) (some 50) 1 portTwenty 5 ⟨17, []⟩]

/-- The reply of node 5 to the queue pair. -/
def replyOfFive : ConnPacket := { someReply with body := { someReply.body with sourceRequestId := 10 } }

/-- The queue pair gets its reply, and has no buffer for a packet. -/
def connectThenDrop : List CmInput :=
  connectToFive ++ ([.reply 0 replyOfFive] ++ [.data (upEnv 150) 17 false])

/-- The state at the end of a run on the four contexts. -/
def cmAfter (is : List CmInput) : CmRun :=
  (run cmStep (newCmRun fourContexts []) is).getD (newCmRun fourContexts [])

theorem eq_cmAfter {is : List CmInput} (h : run cmStep (newCmRun fourContexts []) is = some s) :
    s = cmAfter is := by
  unfold cmAfter
  rw [h]
  rfl

theorem teardowns_hit_own_connection_dropped :
    ∃ s, run cmStep (newCmRun fourContexts []) connectThenDrop = some s ∧
      s.disconnects = [⟨10, 0, 1, 1, .active⟩] ∧ DisconnectsFit s := by
  have hmap : (run cmStep (newCmRun fourContexts []) connectThenDrop).map CmRun.disconnects =
      some [⟨10, 0, 1, 1, .active⟩] := by decide +kernel
  obtain ⟨s, hs, hdis⟩ := Option.map_eq_some_iff.mp hmap
  refine ⟨s, hs, hdis, ?_⟩
  have hok : Meets cmStep TeardownsFit (newCmRun fourContexts []) connectThenDrop := by
    have hfirst : Meets cmStep TeardownsFit (newCmRun fourContexts []) connectToFive :=
      fun _ _ => ⟨.local trivial fun _ _ hp => (Option.some_ne_none _ hp.symm).elim,
        fun _ _ => ⟨.connect, trivial⟩⟩
    refine meets_append.mpr ⟨hfirst, fun s hs => ?_⟩
    refine meets_append.mpr ⟨fun _ _ => ⟨.reply fun c hc => ?_, trivial⟩,
      fun t ht _ _ => ⟨.local trivial fun p c hp => ?_, trivial⟩⟩
    · rw [eq_cmAfter hs] at hc ⊢
      have hc0 : replyContext (cmAfter connectToFive).dev.m replyOfFive = some 0 := by decide +kernel
      cases Option.some.inj (hc.symm.trans hc0)
      decide +kernel
    · have hrun : run cmStep (newCmRun fourContexts []) (connectToFive ++ [.reply 0 replyOfFive]) =
          some t := by rw [run_append, hs, Option.bind_some, ht]
      have ht := eq_cmAfter hrun
      rw [ht] at hp ⊢
      have hp0 : (cmAfter (connectToFive ++ [.reply 0 replyOfFive])).dev.tearing
          (.data (upEnv 150) 17 false) = some (10, 0) := by decide +kernel
      cases Option.some.inj (hp.symm.trans hp0)
      decide +kernel
  have halways := teardowns_hit_own_connection (by decide) hok
  exact halways.last hs

/-- Then another queue pair gets the context, and a packet still comes in for the first one: the
connection that is being made is disconnected. -/
theorem teardown_hits_stranger :
    ¬ Always cmStep DisconnectsFit (newCmRun fourContexts [])
      (connectThenDrop ++
        [.createQp 11 18, .connect (upEnv 200) (some 51) 2 portTwenty 5 ⟨18, []⟩,
          .data (upEnv 250) 17 false]) := by
  intro h
  have hmap : (run cmStep (newCmRun fourContexts [])
      (connectThenDrop ++
        [.createQp 11 18, .connect (upEnv 200) (some 51) 2 portTwenty 5 ⟨18, []⟩,
          .data (upEnv 250) 17 false])).map CmRun.disconnects =
      some [⟨10, 0, 1, 1, .active⟩, ⟨10, 0, 1, 2, .pending⟩] := by decide +kernel
  obtain ⟨s, hs, hdis⟩ := Option.map_eq_some_iff.mp hmap
  have hfit := (h.last hs).1 ⟨10, 0, 1, 2, .pending⟩
  rw [hdis] at hfit
  exact absurd (hfit (by simp)).1 (by decide)

end BgqVrnic
