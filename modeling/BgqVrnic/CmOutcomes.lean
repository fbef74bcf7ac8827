import BgqVrnic.CmRuns

namespace BgqVrnic

variable {d : VrnicDev} {p e c cmId destNode : Nat} {q : CmQp} {k : Cep} {env : CallEnv} {rc : Int}
  {mem : Option Nat} {addr : CmAddr} {param : ConnParam} {r : Int × VrnicDev}

theorem connecting_some {res : CallResult}
    (h : d.connecting (.connect env mem cmId addr destNode param) = some (p, res)) :
    d.getQp param.qpn = some p ∧ mudmConnect d.m env destNode (connectMsg addr param p) = some res := by
  cases mem with
  | none => cases h
  | some e =>
    dsimp only [VrnicDev.connecting] at h
    split at h
    · cases h
    · obtain ⟨p', hp, h⟩ := Option.bind_eq_some_iff.mp h
      obtain ⟨res', hres, h⟩ := Option.bind_eq_some_iff.mp h
      cases Option.some.inj h
      exact ⟨hp, hres⟩

theorem accepting_some {res : CallResult}
    (h : d.accepting (.accept env cmId addr param rc) = some (p, e, c, res)) :
    d.getQp param.qpn = some p ∧ d.providerData cmId = some e ∧ ∃ k, d.cep e = some k ∧
      k.muContext = some c ∧ mudmConnReply d.m env c (acceptMsg addr param k) = some res := by
  dsimp only [VrnicDev.accepting] at h
  split at h
  · cases h
  · obtain ⟨p', hp, h⟩ := Option.bind_eq_some_iff.mp h
    obtain ⟨e', he, h⟩ := Option.bind_eq_some_iff.mp h
    obtain ⟨k, hk, h⟩ := Option.bind_eq_some_iff.mp h
    obtain ⟨c', hc, h⟩ := Option.bind_eq_some_iff.mp h
    obtain ⟨res', hres, h⟩ := Option.bind_eq_some_iff.mp h
    cases Option.some.inj h
    exact ⟨hp, he, k, hk, hc, hres⟩

theorem rejecting_some {privateData : List UInt8}
    (h : d.rejecting (.reject env cmId addr privateData) = some e) : d.providerData cmId = some e := by
  dsimp only [VrnicDev.rejecting] at h
  split at h
  · cases h
  · exact h

theorem bgvrnicConnect_leaves (h : bgvrnicConnect d env mem cmId addr destNode param = some r) :
    d.connecting (.connect env mem cmId addr destNode param) = none ∧ r.2 = d ∨
    ∃ e p res q, mem = some e ∧
      d.connecting (.connect env mem cmId addr destNode param) = some (p, res) ∧
      mudmConnect d.m env destNode (connectMsg addr param p) = some res ∧ d.qp p = some q ∧
      (res.rc ≠ 0 ∧ r.2 = (({ d with m := res.m }).setQp p
          { q with muContext := res.connContext.or q.muContext, cmId := none }).setProvider cmId none ∨
        res.rc = 0 ∧ r.2 = ((({ d with m := res.m }).setQp p
          { q with muContext := res.connContext.or q.muContext, cmId := some cmId }).addCep e
            (connectCep destNode param p)).setProvider cmId (some e)) := by
  cases mem with
  | none =>
    cases Option.some.inj h
    exact Or.inl ⟨rfl, rfl⟩
  | some e =>
    unfold bgvrnicConnect at h
    dsimp only [VrnicDev.connecting] at h ⊢
    by_cases hlength : mudmMaxPrivateData < param.privateData.length
    · rw [if_pos hlength] at h ⊢
      cases Option.some.inj h
      exact Or.inl ⟨rfl, rfl⟩
    · rw [if_neg hlength] at h ⊢
      cases hp : d.getQp param.qpn with
      | none =>
        rw [hp] at h
        cases Option.some.inj h
        exact Or.inl ⟨rfl, rfl⟩
      | some p =>
        rw [hp] at h
        obtain ⟨q, hq, h⟩ := Option.bind_eq_some_iff.mp h
        obtain ⟨res, hres, h⟩ := Option.bind_eq_some_iff.mp h
        refine Or.inr ⟨e, p, res, q, rfl, ?_, hres, hq, ?_⟩
        · simp only [hres, bind, Option.bind]
        · split at h
          next hrc =>
            cases Option.some.inj h
            exact Or.inl ⟨hrc, rfl⟩
          next hrc =>
            cases Option.some.inj h
            exact Or.inr ⟨not_not.mp hrc, rfl⟩

/-- An endpoint that goes may have been written before. -/
theorem endRequest_written {d' : VrnicDev} {x : Option Cep} (he : d.providerData cmId = some e)
    (hd : d' = { d with cep := Function.update d.cep e x }) (h : endRequest d' cmId rc = some r) :
    r.2 = (d.dropCep e).setProvider cmId none := by
  subst hd
  rcases endRequest_cases h with ⟨hnone, -⟩ | ⟨e', he', -, hr⟩
  · rw [he] at hnone
    cases hnone
  · cases Option.some.inj (he.symm.trans he')
    rw [hr]
    simp only [VrnicDev.dropCep, VrnicDev.setProvider, Function.update_idem]

theorem bgvrnicAccept_leaves (h : bgvrnicAccept d env cmId addr param rc = some r) :
    d.accepting (.accept env cmId addr param rc) = none ∧ endRequest d cmId (-EINVAL) = some r ∨
    ∃ p e c res q k, d.accepting (.accept env cmId addr param rc) = some (p, e, c, res) ∧
      d.getQp param.qpn = some p ∧ d.providerData cmId = some e ∧ d.qp p = some q ∧
      d.cep e = some k ∧ k.muContext = some c ∧
      mudmConnReply d.m env c (acceptMsg addr param k) = some res ∧
      (¬ (res.rc = 0 ∧ rc = 0) ∧ r.2 = ((({ d with m := res.m }).setQp p
          { q with
            cmId := none
            qpState := .rts
            destQpNum := k.remoteQpn
            muContext := some c }).dropCep e).setProvider cmId none ∨
        (res.rc = 0 ∧ rc = 0) ∧ r.2 = ({ d with
          m := res.m
          cep := Function.update d.cep e (some { k with vrnicQp := some p, state := .connected }) }).setQp p
            { q with
              cmId := some cmId
              qpState := .rts
              destQpNum := k.remoteQpn
              muContext := some c }) := by
  unfold bgvrnicAccept at h
  dsimp only [VrnicDev.accepting]
  by_cases hlength : mudmMaxPrivateData < param.privateData.length
  · rw [if_pos hlength] at h ⊢
    exact Or.inl ⟨rfl, h⟩
  · rw [if_neg hlength] at h ⊢
    cases hp : d.getQp param.qpn with
    | none =>
      rw [hp] at h
      exact Or.inl ⟨rfl, h⟩
    | some p =>
      rw [hp] at h
      obtain ⟨e, he, h⟩ := Option.bind_eq_some_iff.mp h
      obtain ⟨k, hk, h⟩ := Option.bind_eq_some_iff.mp h
      obtain ⟨q, hq, h⟩ := Option.bind_eq_some_iff.mp h
      obtain ⟨c, hc, h⟩ := Option.bind_eq_some_iff.mp h
      obtain ⟨res, hres, h⟩ := Option.bind_eq_some_iff.mp h
      refine Or.inr ⟨p, e, c, res, q, k, ?_, rfl, he, hq, hk, hc, hres, ?_⟩
      · simp only [he, hk, hc, hres, bind, Option.bind]
      · dsimp only at h
        split at h
        next hrc =>
          refine Or.inl ⟨fun hboth => hrc hboth.1, ?_⟩
          exact endRequest_written (d := ({ d with m := res.m }).setQp p _) he rfl h
        next hrc =>
          split at h
          next hevent =>
            refine Or.inl ⟨fun hboth => hevent hboth.2, ?_⟩
            exact endRequest_written (d := ({ d with m := res.m }).setQp p _) he rfl h
          next hevent =>
            cases Option.some.inj h
            exact Or.inr ⟨⟨not_not.mp hrc, not_not.mp hevent⟩, rfl⟩

theorem bgvrnicReject_leaves {privateData : List UInt8}
    (h : bgvrnicReject d env cmId addr privateData = some r) :
    d.rejecting (.reject env cmId addr privateData) = none ∧ endRequest d cmId (-EINVAL) = some r ∨
    ∃ e c k res, d.rejecting (.reject env cmId addr privateData) = some e ∧
      d.providerData cmId = some e ∧ d.cep e = some k ∧ k.muContext = some c ∧
      mudmConnReply d.m env c (rejectMsg addr privateData k) = some res ∧
      r.2 = ({ d with m := res.m }.dropCep e).setProvider cmId none := by
  unfold bgvrnicReject at h
  dsimp only [VrnicDev.rejecting]
  by_cases hlength : mudmMaxPrivateData < privateData.length
  · rw [if_pos hlength] at h ⊢
    exact Or.inl ⟨rfl, h⟩
  · rw [if_neg hlength] at h ⊢
    obtain ⟨e, he, h⟩ := Option.bind_eq_some_iff.mp h
    obtain ⟨k, hk, h⟩ := Option.bind_eq_some_iff.mp h
    obtain ⟨c, hc, h⟩ := Option.bind_eq_some_iff.mp h
    obtain ⟨res, hres, h⟩ := Option.bind_eq_some_iff.mp h
    refine Or.inr ⟨e, c, k, res, he, he, hk, hc, hres, ?_⟩
    have hsame : d.cep = Function.update d.cep e (d.cep e) := (Function.update_eq_self e d.cep).symm
    exact endRequest_written (d := { d with m := res.m }) he (by rw [← hsame]) h

/-- What a request leaves behind: it gets no context, or there is no memory for its endpoint, or it gets
an endpoint, or nobody listens for it and it is refused. -/
inductive RequestOutcome (d : VrnicDev) (env : CallEnv) (mem : Option Nat) (cmId : Nat)
    (pkt : ConnPacket) (d' : VrnicDev) : Prop
  | full (hc : (connectRequest d.m env.timeBase pkt).2 = none)
    (hd : d' = { d with m := (connectRequest d.m env.timeBase pkt).1 })
  | starved (c : Nat) (hc : (connectRequest d.m env.timeBase pkt).2 = some c) (hmem : mem = none)
    (hlisten : d.listens pkt.body = true)
    (hd : d' = { d with m := (connectRequest d.m env.timeBase pkt).1 })
  | opened (c e : Nat) (hc : (connectRequest d.m env.timeBase pkt).2 = some c) (hmem : mem = some e)
    (hlisten : d.listens pkt.body = true)
    (hd : d' = (({ d with m := (connectRequest d.m env.timeBase pkt).1 }).addCep e
      (requestCep c pkt)).setProvider cmId (some e))
  | refused (c : Nat) (res : CallResult) (hc : (connectRequest d.m env.timeBase pkt).2 = some c)
    (hlisten : d.listens pkt.body = false)
    (hres : mudmConnReply (connectRequest d.m env.timeBase pkt).1 env c (refuseMsg pkt) = some res)
    (hd : d' = { d with m := res.m })

theorem requestArrives_leaves {pkt : ConnPacket} (h : requestArrives d env mem cmId rc pkt = some r) :
    RequestOutcome d env mem cmId pkt r.2 := by
  unfold requestArrives at h
  generalize hx : connectRequest d.m env.timeBase pkt = x at h
  obtain ⟨m, c⟩ := x
  have hm : (connectRequest d.m env.timeBase pkt).1 = m := by rw [hx]
  have hc : (connectRequest d.m env.timeBase pkt).2 = c := by rw [hx]
  subst hm
  cases c with
  | none =>
    cases Option.some.inj h
    exact .full hc rfl
  | some c =>
    dsimp only at h
    unfold connRequestCb at h
    split at h
    next hlisten =>
      have hlisten : d.listens pkt.body = true := hlisten
      cases mem with
      | none =>
        cases Option.some.inj h
        exact .starved c hc rfl hlisten rfl
      | some e =>
        cases Option.some.inj h
        exact .opened c e hc rfl hlisten rfl
    next hlisten =>
      have hlisten : ¬ d.listens pkt.body = true := hlisten
      obtain ⟨res, hres, rfl⟩ := Option.map_eq_some_iff.mp h
      exact .refused c res hc (Bool.eq_false_iff.mpr hlisten) hres rfl

/-- What a reply leaves behind: it names no context, or there is no endpoint for it, or the queue pair of
its endpoint hears of it. -/
inductive ReplyOutcome (d : VrnicDev) (rc : Int) (pkt : ConnPacket) (d' : VrnicDev) : Prop
  | unknown (hctx : replyContext d.m pkt = none) (hd : d' = d)
  | unheard (c : Nat) (hctx : replyContext d.m pkt = some c)
    (hreply : connectReply d.m pkt = some (d'.m, some c))
    (hfind : d.findCep pkt.body.sourceRequestId = none) (hd : d' = { d with m := d'.m })
  | heard (c e p cmId : Nat) (k : Cep) (q : CmQp) (hctx : replyContext d.m pkt = some c)
    (hreply : connectReply d.m pkt = some (d'.m, some c))
    (hfind : d.findCep pkt.body.sourceRequestId = some e) (hk : d.cep e = some k)
    (hp : k.vrnicQp = some p) (hq : d.qp p = some q) (hcm : q.cmId = some cmId)
    (hd : d' = ((({ d with m := d'.m }).setQp p
      { q with
        destQpNum := pkt.desc.hdr.destQpn
        qpState := if rc ≠ 0 then q.qpState else .rts }).dropCep e).setProvider cmId none)

theorem replyArrives_leaves {pkt : ConnPacket} (h : replyArrives d rc pkt = some r) :
    ReplyOutcome d rc pkt r.2 := by
  unfold replyArrives at h
  cases hctx : replyContext d.m pkt with
  | none =>
    rw [hctx] at h
    cases Option.some.inj h
    exact .unknown hctx rfl
  | some c =>
    rw [hctx] at h
    obtain ⟨m₁, hm₁, h⟩ := Option.bind_eq_some_iff.mp h
    obtain ⟨⟨a, d₁⟩, hd₁, h⟩ := Option.bind_eq_some_iff.mp h
    obtain ⟨m₂, hm₂, h⟩ := Option.bind_eq_some_iff.mp h
    cases Option.some.inj h
    have hreply (hm : d₁.m = m₁) : connectReply d.m pkt = some (m₂, some c) := by
      rw [hm] at hm₂
      unfold connectReply
      rw [hctx]
      simp only [hm₁, hm₂, bind, Option.bind]
    unfold connReplyCb at hd₁
    split at hd₁
    next hfind =>
      have hfind : d.findCep pkt.body.sourceRequestId = none := hfind
      cases Option.some.inj hd₁
      exact .unheard c hctx (hreply rfl) hfind rfl
    next e hfind =>
      have hfind : d.findCep pkt.body.sourceRequestId = some e := hfind
      obtain ⟨k, hk, hd₁⟩ := Option.bind_eq_some_iff.mp hd₁
      obtain ⟨p, hp, hd₁⟩ := Option.bind_eq_some_iff.mp hd₁
      obtain ⟨q, hq, hd₁⟩ := Option.bind_eq_some_iff.mp hd₁
      obtain ⟨cmId, hcm, hd₁⟩ := Option.bind_eq_some_iff.mp hd₁
      cases Option.some.inj hd₁
      refine .heard c e p cmId k q hctx (hreply rfl) hfind hk hp hq hcm ?_
      by_cases hrc : rc ≠ 0
      · simp only [if_pos hrc]
        rfl
      · simp only [if_neg hrc]
        rfl

/-- What a disconnect leaves behind: it ends no use, or it names no queue pair with a `cm_id`, or the
event handler of its queue pair hears of it, which keeps its `cm_id` if the handler fails. -/
inductive DisconnectOutcome (d : VrnicDev) (rc : Int) (hdr : IonetHeader)
    (y : MyContext × Int × Option Nat) (d' : VrnicDev) : Prop
  | unknown (hnone : y.2.2 = none) (hd : d' = { d with m := y.1 })
  | unheard (hnone : ∀ p q, d.getQp hdr.destQpn = some p → d.qp p = some q → q.cmId = none)
    (hd : d' = { d with m := y.1 })
  | failed (p cmId : Nat) (q : CmQp) (hp : d.getQp hdr.destQpn = some p) (hq : d.qp p = some q)
    (hcm : q.cmId = some cmId) (hd : d' = ({ d with m := y.1 }).setQp p { q with qpState := .sqe })
  | closed (p cmId : Nat) (q : CmQp) (hc : y.2.2 ≠ none) (hp : d.getQp hdr.destQpn = some p)
    (hq : d.qp p = some q) (hcm : q.cmId = some cmId) (hrc : rc = 0)
    (hd : d' = (({ d with m := y.1 }).setQp p { q with qpState := .sqe, cmId := none }).setProvider
      cmId none)

theorem disconnectArrives_leaves {closeRc : Int} {hdr : IonetHeader}
    (h : disconnectArrives d rc closeRc hdr = some r) :
    ∃ y, disconnectRequest d.m hdr = some y ∧ DisconnectOutcome d rc hdr y r.2 := by
  obtain ⟨⟨m, a, c⟩, hy, h⟩ := Option.bind_eq_some_iff.mp h
  refine ⟨_, hy, ?_⟩
  cases c with
  | none =>
    cases Option.some.inj h
    exact .unknown rfl rfl
  | some c =>
    dsimp only at h
    unfold disconnectedCb at h
    split at h
    next hp =>
      have hp : d.getQp hdr.destQpn = none := hp
      cases Option.some.inj h
      refine .unheard (fun p q hp' => ?_) rfl
      rw [hp] at hp'
      cases hp'
    next p hp =>
      have hp : d.getQp hdr.destQpn = some p := hp
      obtain ⟨q, hq, h⟩ := Option.bind_eq_some_iff.mp h
      have hq : d.qp p = some q := hq
      split at h
      next hcm =>
        cases Option.some.inj h
        refine .unheard (fun p' q' hp' hq' => ?_) rfl
        cases Option.some.inj (hp.symm.trans hp')
        cases Option.some.inj (hq.symm.trans hq')
        exact hcm
      next cmId hcm =>
        dsimp only at h
        split at h
        · cases Option.some.inj h
          exact .failed p cmId q hp hq hcm rfl
        next hrc =>
          cases Option.some.inj h
          exact .closed p cmId q (Option.some_ne_none c) hp hq hcm (not_not.mp hrc) rfl

/-- What a data packet leaves behind. -/
inductive DataOutcome (d : VrnicDev) (env : CallEnv) (qpn : Nat) (posted : Bool) (d' : VrnicDev) : Prop
  | received (p : Nat) (q : CmQp) (hp : d.getQp qpn = some p) (hq : d.qp p = some q)
    (hposted : posted = true) (hd : d' = d)
  | torn (p c : Nat) (q : CmQp) (y : MyContext × Int × Option MemFifoDescriptor)
    (hp : d.getQp qpn = some p) (hq : d.qp p = some q) (hposted : posted = false)
    (hc : q.muContext = some c) (hy : mudmDisconnect d.m env c = some y)
    (hd : d' = ({ d with m := y.1 }).setQp p
      { q with qpState := if q.cmId.isSome then .sqe else q.qpState })

theorem muRecvCb_leaves {qpn : Nat} {posted : Bool} {d' : VrnicDev}
    (h : muRecvCb d env qpn posted = some d') : DataOutcome d env qpn posted d' := by
  obtain ⟨p, hp, h⟩ := Option.bind_eq_some_iff.mp h
  obtain ⟨q, hq, h⟩ := Option.bind_eq_some_iff.mp h
  cases posted with
  | true =>
    cases Option.some.inj h
    exact .received p q hp hq rfl rfl
  | false =>
    obtain ⟨c, hc, h⟩ := Option.bind_eq_some_iff.mp h
    obtain ⟨y, hy, h⟩ := Option.bind_eq_some_iff.mp h
    cases Option.some.inj h
    by_cases hcm : q.cmId.isSome = true
    · rw [if_pos hcm] at hc
      refine .torn p c q y hp hq rfl hc hy ?_
      simp only [if_pos hcm]
    · rw [if_neg hcm] at hc
      refine .torn p c q y hp hq rfl hc hy ?_
      simp only [if_neg hcm]

/-- What `bgvrnic_modify_qp` leaves behind. -/
inductive ModifyOutcome (d : VrnicDev) (env : CallEnv) (p : Nat) (newState : Option QpState)
    (remainingWqes : Int) (d' : VrnicDev) : Prop
  | refused (q : CmQp) (hq : d.qp p = some q)
    (hkept : ¬ (newState = some .sqd ∧ remainingWqes ≤ 0 ∧ q.cmId.isSome = true))
    (hstate : newState = none ∨ newState = some .rts ∧ q.muContext = none) (hd : d' = d)
  | torn (c : Nat) (q : CmQp) (y : MyContext × Int × Option MemFifoDescriptor) (hq : d.qp p = some q)
    (hstate : newState = some .sqd) (hwqes : remainingWqes ≤ 0) (hcm : q.cmId.isSome = true)
    (hc : q.muContext = some c) (hy : mudmDisconnect d.m env c = some y)
    (hd : d' = ({ d with m := y.1 }).setQp p
      { q with cmId := none, qpState := .sqd, sqDraining := false })
  | set (st : QpState) (draining : Bool) (q : CmQp) (hq : d.qp p = some q) (hstate : newState = some st)
    (hrts : st = .rts → q.muContext ≠ none)
    (hkept : ¬ (newState = some .sqd ∧ remainingWqes ≤ 0 ∧ q.cmId.isSome = true))
    (hd : d' = d.setQp p { q with qpState := st, sqDraining := draining })

theorem bgvrnicModifyQp_leaves {newState : Option QpState} {remainingWqes eventRc : Int}
    (h : bgvrnicModifyQp d env p newState remainingWqes eventRc = some r) :
    ModifyOutcome d env p newState remainingWqes r.2 := by
  obtain ⟨q, hq, h⟩ := Option.bind_eq_some_iff.mp h
  cases newState with
  | none =>
    cases Option.some.inj h
    exact .refused q hq (fun h => nomatch h.1) (Or.inl rfl) rfl
  | some st =>
    dsimp only at h
    split at h
    next hnull =>
      cases Option.some.inj h
      obtain ⟨rfl, hctx⟩ := hnull
      exact .refused q hq (fun h => nomatch h.1) (Or.inr ⟨rfl, hctx⟩) rfl
    next hnull =>
      have hrts : st = .rts → q.muContext ≠ none := fun hst hc => hnull ⟨hst, hc⟩
      split at h
      next hsqd =>
        split at h
        next hdrained =>
          obtain ⟨c, hc, h⟩ := Option.bind_eq_some_iff.mp h
          obtain ⟨y, hy, h⟩ := Option.bind_eq_some_iff.mp h
          cases Option.some.inj h
          have hlt := of_decide_eq_false hdrained.1
          refine .torn c q y hq (congrArg some hsqd) (by omega) hdrained.2 hc hy ?_
          rw [hdrained.1, hsqd]
        next hdrained =>
          cases Option.some.inj h
          refine .set st _ q hq rfl hrts ?_ rfl
          rintro ⟨-, hwqes, hcm⟩
          exact hdrained ⟨decide_eq_false (by omega), hcm⟩
      next hsqd =>
        cases Option.some.inj h
        exact .set st q.sqDraining q hq rfl hrts (fun h => hsqd (Option.some.inj h.1)) rfl

/-- What `bgvrnic_destroy_qp` leaves behind. -/
inductive DestroyOutcome (d : VrnicDev) (env : CallEnv) (p : Nat) (d' : VrnicDev) : Prop
  | unconnected (q : CmQp) (hq : d.qp p = some q) (hcm : q.cmId = none)
    (hd : d' = { d with
      idr := Function.update d.idr q.qpNum none
      qp := Function.update d.qp p none })
  | torn (c : Nat) (q : CmQp) (y : MyContext × Int × Option MemFifoDescriptor) (hq : d.qp p = some q)
    (hcm : q.cmId.isSome = true) (hc : q.muContext = some c) (hy : mudmDisconnect d.m env c = some y)
    (hd : d' = { d with
      m := y.1
      idr := Function.update d.idr q.qpNum none
      qp := Function.update d.qp p none })

theorem bgvrnicDestroyQp_leaves {eventRc : Int} (h : bgvrnicDestroyQp d env p eventRc = some r) :
    DestroyOutcome d env p r.2 := by
  obtain ⟨q, hq, h⟩ := Option.bind_eq_some_iff.mp h
  dsimp only at h
  cases hcm : q.cmId with
  | none =>
    rw [hcm] at h
    cases Option.some.inj h
    exact .unconnected q hq hcm rfl
  | some cmId =>
    rw [hcm] at h
    obtain ⟨c, hc, h⟩ := Option.bind_eq_some_iff.mp h
    obtain ⟨y, hy, h⟩ := Option.bind_eq_some_iff.mp h
    cases Option.some.inj h
    exact .torn c q y hq (by rw [hcm]; rfl) hc hy rfl

end BgqVrnic
