import BgqVrnic.CmTeardowns

namespace BgqVrnic

open Intrusive Leases Runs

namespace VrnicDev

variable (s : VrnicDev)

/-- The queue pair that an input makes ready to send, but for `bgvrnic_accept`. -/
def readied : CmInput → Option Nat
  | .reply eventRc pkt =>
    if eventRc ≠ 0 ∨ replyContext s.m pkt = none then none
    else (s.findCep pkt.body.sourceRequestId).bind fun e => (s.cep e).bind Cep.vrnicQp
  | .modifyQp _ p newState _ _ =>
    if newState = some .rts ∧ (s.qp p).any fun q => q.muContext.isSome then some p else none
  | _ => none

/-- The context that a reply activates. -/
def activating : CmInput → Option Nat
  | .reply _ pkt => if pkt.body.status = 0 then replyContext s.m pkt else none
  | _ => none

/-- A queue pair that is not ready to send any more once the input has ended the use of a context. -/
def leaves (p : Nat) : CmInput → Bool
  | .disconnected _ _ hdr => s.getQp hdr.destQpn = some p && (s.qp p).any fun q => q.cmId.isSome
  | .data _ qpn _ => s.getQp qpn = some p && (s.qp p).any fun q => q.cmId.isSome
  | .modifyQp _ r _ _ _ => r = p
  | .destroyQp _ r _ => r = p
  | _ => false

/-- What `mudm_conn_reply` needs to send the reply of `bgvrnic_accept` on the context `c`. -/
def Answerable (c : Nat) : CmInput → Prop
  | .accept env _ _ _ _ =>
    (s.m.conn c).magic = true ∧ s.m.magic = true ∧ env.pktFree = true ∧ env.linkActive = true
  | _ => True

end VrnicDev

namespace CmRun

variable (s : CmRun)

/-- The queue pair has an active context, in the use that it got it for. -/
def Connected (p : Nat) (q : CmQp) : Prop :=
  ∃ c, q.muContext = some c ∧ (s.dev.m.conn c).state = .active ∧ s.uses c = s.qpUse p

/-- The request of the endpoint has not been answered, and its context is pending for it. -/
def Unanswered (e : Nat) : Prop :=
  ∃ k c, s.dev.cep e = some k ∧ k.vrnicQp = none ∧ k.muContext = some c ∧
    (s.dev.m.conn c).state = .pending ∧ s.uses c = s.cepUse e

/-- The queue pair has a context in the use that it got it for, and after the input it is active. -/
def Readiable (p : Nat) (i : CmInput) : Prop :=
  ∃ q c, s.dev.qp p = some q ∧ q.muContext = some c ∧ s.uses c = s.qpUse p ∧
    ((s.dev.m.conn c).state = .active ∧ s.dev.ending i ≠ some c ∨ s.dev.activating i = some c)

end CmRun

/-- Every queue pair that is ready to send has an active context that was established for it, and what
`bgvrnic_post_send` sends goes to an active context. -/
def RtsActive (s : CmRun) : Prop :=
  ∀ p q, s.dev.qp p = some q →
    (q.qpState = .rts → s.Connected p q) ∧
      ∀ c, postSendContext q = some c → (s.dev.m.conn c).state = .active

/-- A queue pair becomes ready to send with its own context, which is active then; requests are answered
once, and the answer goes out; a context whose use ends is that of a queue pair that is not ready to
send any more. -/
structure RtsFit (s : CmRun) (i : CmInput) : Prop where
  connect : ∀ p res q, s.dev.connecting i = some (p, res) → s.dev.qp p = some q → q.qpState ≠ .rts
  accept : ∀ p e c res, s.dev.accepting i = some (p, e, c, res) →
    s.Unanswered e ∧ s.dev.Answerable c i
  reject : ∀ e, s.dev.rejecting i = some e → s.Unanswered e
  reply : ∀ rc pkt, i = .reply rc pkt → RepliesFit s.dev.m (.reply pkt)
  ready : ∀ p, s.dev.readied i = some p → s.Readiable p i
  leave : ∀ p q c, s.dev.qp p = some q → q.qpState = .rts → q.muContext = some c →
    (s.dev.ending i = some c ∨ ∃ r, s.dev.tearing i = some (r, c)) → s.dev.leaves p i = true

/-- The queue pairs that are ready to send have been so, with their contexts, or the input makes them
so; and it is none of those that stop when the use of a context ends. -/
def StaysReady (d d' : VrnicDev) (i : CmInput) : Prop :=
  ∀ p q', d'.qp p = some q' → q'.qpState = .rts →
    (d.leaves p i = true → d.ending i = none ∧ d.tearing i = none) ∧
      ∃ q, d.qp p = some q ∧ q'.muContext = q.muContext ∧
        (q.qpState = .rts ∨ d.readied i = some p)

variable {s s' : CmRun} {d d' d₁ : VrnicDev} {m m' : MyContext} {i : CmInput}
  {p e c n cmId destNode : Nat} {q q' : CmQp} {k : Cep} {env : CallEnv} {rc : Int} {mem : Option Nat}
  {addr : CmAddr} {param : ConnParam} {res : CallResult} {r : Int × VrnicDev} {pkt : ConnPacket}

theorem StaysReady.of_qp (hqp : d'.qp = d.qp)
    (hleaves : ∀ p, d.leaves p i = true → d.ending i = none ∧ d.tearing i = none) :
    StaysReady d d' i := by
  intro p q' hq' hrts
  rw [hqp] at hq'
  exact ⟨hleaves p, q', hq', rfl, Or.inl hrts⟩

theorem StaysReady.setQp (hq : d.qp p = some q) (hqp : d'.qp = Function.update d.qp p (some q'))
    (hctx : q'.muContext = q.muContext)
    (hrts : q'.qpState = .rts → q.qpState = .rts ∨ d.readied i = some p)
    (hleaves : ∀ r, d.leaves r i = true → q'.qpState ≠ .rts ∧ r = p ∨
      d.ending i = none ∧ d.tearing i = none) : StaysReady d d' i := by
  intro a qa ha harts
  rw [hqp, Function.update_apply] at ha
  split at ha
  next he =>
    subst he
    cases Option.some.inj ha
    refine ⟨fun hl => ?_, q, hq, hctx, hrts harts⟩
    rcases hleaves a hl with ⟨hnot, -⟩ | hnone
    · exact absurd harts hnot
    · exact hnone
  next hne =>
    refine ⟨fun hl => ?_, qa, ha, rfl, Or.inl harts⟩
    rcases hleaves a hl with ⟨-, he⟩ | hnone
    · exact absurd he hne
    · exact hnone

theorem replyArrives_ready (h : replyArrives d rc pkt = some r) :
    StaysReady d r.2 (.reply rc pkt) := by
  cases replyArrives_leaves h with
  | unknown _ hd | unheard _ _ _ _ hd =>
    rw [hd]
    exact .of_qp rfl nofun
  | heard c e p cmId k q hctx _ hfind hk hp hq _ hd =>
    rw [hd]
    refine .setQp hq rfl rfl (fun hrts => ?_) nofun
    by_cases hrc : rc = 0
    · refine Or.inr ?_
      show (if _ then none else _) = _
      rw [if_neg (by simp [hrc, hctx]), hfind, Option.bind_some, hk]
      exact hp
    · rw [if_pos hrc] at hrts
      exact Or.inl hrts

theorem disconnectArrives_ready {closeRc : Int} {hdr : IonetHeader}
    (h : disconnectArrives d rc closeRc hdr = some r) :
    StaysReady d r.2 (.disconnected rc closeRc hdr) := by
  have hleft {p q : Nat} (hp : d.getQp hdr.destQpn = some p)
      (hl : d.leaves q (.disconnected rc closeRc hdr) = true) : q = p := by
    simp only [VrnicDev.leaves, hp, Bool.and_eq_true, decide_eq_true_eq] at hl
    exact (Option.some.inj hl.1).symm
  obtain ⟨y, hy, hleaves⟩ := disconnectArrives_leaves h
  cases hleaves with
  | unknown hnone hd =>
    rw [hd]
    refine .of_qp rfl fun _ _ => ⟨?_, rfl⟩
    simp [VrnicDev.ending, hy, hnone]
  | unheard hnone hd =>
    rw [hd]
    refine .of_qp rfl fun a hl => ?_
    simp only [VrnicDev.leaves, Bool.and_eq_true, decide_eq_true_eq] at hl
    obtain ⟨q, hq, hcm⟩ := (Option.any_eq_true _ _).mp hl.2
    rw [hnone a q hl.1 hq] at hcm
    cases hcm
  | failed p cmId q hp hq _ hd =>
    rw [hd]
    refine .setQp hq rfl rfl (fun hrts => ?_)
      fun a hl => Or.inl ⟨fun hrts => ?_, hleft hp hl⟩
    · cases hrts
    · cases hrts
  | closed p cmId q _ hp hq _ _ hd =>
    rw [hd]
    refine .setQp hq rfl rfl (fun hrts => ?_)
      fun a hl => Or.inl ⟨fun hrts => ?_, hleft hp hl⟩
    · cases hrts
    · cases hrts

theorem muRecvCb_ready {qpn : Nat} {posted : Bool} (h : muRecvCb d env qpn posted = some d') :
    StaysReady d d' (.data env qpn posted) := by
  cases muRecvCb_leaves h with
  | received p q hp _ hposted hd =>
    rw [hd]
    refine .of_qp rfl fun _ _ => ⟨rfl, ?_⟩
    simp [VrnicDev.tearing, hp, hposted]
  | torn p c q y hp hq _ _ _ hd =>
    rw [hd]
    refine .setQp hq rfl rfl (fun hrts => Or.inl ?_) fun a hl => Or.inl ?_
    · dsimp only at hrts
      split at hrts
      · cases hrts
      · exact hrts
    · simp only [VrnicDev.leaves, hp, Bool.and_eq_true, decide_eq_true_eq, Option.some.injEq] at hl
      obtain ⟨rfl, hl⟩ := hl
      simp only [hq, Option.any_some] at hl
      refine ⟨?_, rfl⟩
      dsimp only
      rw [if_pos hl]
      intro hrts
      cases hrts

theorem bgvrnicModifyQp_ready {newState : Option QpState} {remainingWqes eventRc : Int}
    (h : bgvrnicModifyQp d env p newState remainingWqes eventRc = some r) :
    StaysReady d r.2 (.modifyQp env p newState remainingWqes eventRc) := by
  cases bgvrnicModifyQp_leaves h with
  | refused q hq hkept _ hd =>
    rw [hd]
    exact .of_qp rfl fun _ _ => ⟨rfl, tearing_of_kept hq hkept⟩
  | torn c q y hq _ _ _ _ _ hd =>
    rw [hd]
    refine .setQp hq rfl rfl (fun hrts => ?_)
      fun a hl => Or.inl ⟨nofun, (of_decide_eq_true hl).symm⟩
    cases hrts
  | set st draining q hq hstate hctx hkept hd =>
    rw [hd]
    refine .setQp hq rfl rfl (fun hrts => Or.inr ?_) fun _ _ =>
      Or.inr ⟨rfl, tearing_of_kept hq hkept⟩
    have hrts : st = .rts := hrts
    have hsome := Option.isSome_iff_ne_none.mpr (hctx hrts)
    simp [VrnicDev.readied, hstate, hrts, hq, hsome]

theorem bgvrnicCreateQp_ready {qpn : Nat} :
    StaysReady d (bgvrnicCreateQp d p qpn) (.createQp p qpn) := by
  intro a q ha hrts
  simp only [bgvrnicCreateQp, VrnicDev.setQp, Function.update_apply] at ha
  split at ha
  · cases Option.some.inj ha
    cases hrts
  · exact ⟨fun hl => absurd hl Bool.false_ne_true, q, ha, rfl, Or.inl hrts⟩

theorem bgvrnicDestroyQp_ready {eventRc : Int} (h : bgvrnicDestroyQp d env p eventRc = some r) :
    StaysReady d r.2 (.destroyQp env p eventRc) := by
  have hqp : r.2.qp = Function.update d.qp p none := by
    cases bgvrnicDestroyQp_leaves h with
    | unconnected q _ _ hd | torn c q y _ _ _ _ hd => rw [hd]
  intro a qa ha hrts
  rw [hqp, Function.update_apply] at ha
  split at ha
  · cases ha
  next hne =>
    refine ⟨fun hl => ?_, qa, ha, rfl, Or.inl hrts⟩
    exact absurd (of_decide_eq_true hl).symm hne

theorem local_ready (hi : i.Local) (h : cmCall d i = some d') : StaysReady d d' i := by
  cases i with
  | data env qpn posted => exact muRecvCb_ready h
  | modifyQp env p newState remainingWqes eventRc =>
    obtain ⟨r, hr, rfl⟩ := Option.map_eq_some_iff.mp h
    exact bgvrnicModifyQp_ready hr
  | createQp p qpn =>
    dsimp only [cmCall] at h
    split at h
    · cases Option.some.inj h
      exact bgvrnicCreateQp_ready
    · cases h
  | destroyQp env p eventRc =>
    obtain ⟨r, hr, rfl⟩ := Option.map_eq_some_iff.mp h
    exact bgvrnicDestroyQp_ready hr
  | _ => cases hi

/-- The lists agree, contexts are those of the table, and what is ready to send is connected. -/
structure Ready (s : CmRun) : Prop where
  lists : ConnInv s.dev.m
  qpBound : ∀ p q c, s.dev.qp p = some q → q.muContext = some c → c < s.dev.m.maxConnections
  cepBound : ∀ e k c, s.dev.cep e = some k → k.vrnicQp = none → k.muContext = some c →
    c < s.dev.m.maxConnections
  rts : ∀ p q, s.dev.qp p = some q → q.qpState = .rts → s.Connected p q

theorem tearing_of_readied (h : d.readied i = some p) : d.tearing i = none := by
  cases i with
  | reply => rfl
  | modifyQp env a newState remainingWqes eventRc =>
    simp only [VrnicDev.readied] at h
    split at h
    next hst =>
      obtain ⟨rfl, -⟩ := hst
      cases hq : d.qp a with
      | none => simp [VrnicDev.tearing, hq]
      | some q =>
        simp only [VrnicDev.tearing, hq, bind, Option.bind]
        split
        · rfl
        · refine if_neg ?_
          rintro ⟨hst, -⟩
          cases hst
    next => cases h
  | _ => cases h

/-- An input that gives nobody a context, and after which the contexts that it does not end are as
active as before. -/
theorem Ready.keep {u : CmRun} (h : Ready s) (hok : RtsFit s i) (hlists : ConnInv u.dev.m)
    (hquiet : Quiet s.dev u.dev) (hmax : u.dev.m.maxConnections = s.dev.m.maxConnections)
    (hstays : StaysReady s.dev u.dev i)
    (hactive : ∀ c, (s.dev.m.conn c).state = .active → s.dev.ending i ≠ some c →
      (∀ r, s.dev.tearing i ≠ some (r, c)) → (u.dev.m.conn c).state = .active)
    (hactivating : ∀ c, s.dev.activating i = some c → (u.dev.m.conn c).state = .active)
    (huses : u.uses = s.uses) (hqpUse : u.qpUse = s.qpUse) : Ready u where
  lists := hlists
  qpBound p q' c hq' hc := by
    obtain ⟨q, hq, hc⟩ := hquiet.qp p q' c hq' hc
    rw [hmax]
    exact h.qpBound p q c hq hc
  cepBound e k c hk hv hc := by
    rw [hmax]
    exact h.cepBound e k c (hquiet.cep e k hk hv) hv hc
  rts p q' hq' hrts := by
    obtain ⟨hleave, q, hq, hctx, hstate⟩ := hstays p q' hq' hrts
    unfold CmRun.Connected
    rw [huses, hqpUse, hctx]
    by_cases hready : q.qpState = .rts
    · obtain ⟨c, hc, hact, huse⟩ := h.rts p q hq hready
      -- an input that ends the use of its context would have made it leave
      have hends : ¬ (s.dev.ending i = some c ∨ ∃ r, s.dev.tearing i = some (r, c)) := by
        intro hend
        obtain ⟨he, ht⟩ := hleave (hok.leave p q c hq hready hc hend)
        rw [he, ht] at hend
        rcases hend with hend | ⟨r, hend⟩
        · cases hend
        · cases hend
      obtain ⟨he, ht⟩ := not_or.mp hends
      exact ⟨c, hc, hactive c hact he (not_exists.mp ht), huse⟩
    · have hreadied := hstate.resolve_left hready
      obtain ⟨q₁, c, hq₁, hc, huse, hcases⟩ := hok.ready p hreadied
      cases Option.some.inj (hq.symm.trans hq₁)
      refine ⟨c, hc, ?_, huse⟩
      rcases hcases with ⟨hact, hend⟩ | hact
      · refine hactive c hact hend fun r ht => ?_
        rw [tearing_of_readied hreadied] at ht
        cases ht
      · exact hactivating c hact

/-- An input that changes one queue pair, and leaves the others connected. -/
theorem Ready.setQp {u : CmRun} (h : Ready s) (hlists : ConnInv u.dev.m)
    (hmax : u.dev.m.maxConnections = s.dev.m.maxConnections)
    (hqp : u.dev.qp = Function.update s.dev.qp p (some q'))
    (hbound : ∀ c, q'.muContext = some c → c < s.dev.m.maxConnections)
    (hcep : ∀ e k, u.dev.cep e = some k → k.vrnicQp = none → s.dev.cep e = some k)
    (hrts : q'.qpState = .rts → u.Connected p q')
    (hother : ∀ a q, a ≠ p → s.Connected a q → u.Connected a q) : Ready u where
  lists := hlists
  qpBound a q c ha hc := by
    rw [hmax]
    rw [hqp, Function.update_apply] at ha
    split at ha
    · cases Option.some.inj ha
      exact hbound c hc
    · exact h.qpBound a q c ha hc
  cepBound e k c hk hv hc := by
    rw [hmax]
    exact h.cepBound e k c (hcep e k hk hv) hv hc
  rts a q ha harts := by
    rw [hqp, Function.update_apply] at ha
    split at ha
    next he =>
      subst he
      cases Option.some.inj ha
      exact hrts harts
    next hne => exact hother a q hne (h.rts a q ha harts)

theorem Ready.connect (h : Ready s) (hok : RtsFit s (.connect env mem cmId addr destNode param))
    (hs : bgvrnicConnect s.dev env mem cmId addr destNode param = some r) :
    Ready (s.note r.2 (.connect env mem cmId addr destNode param)) := by
  have hlists := bgvrnicConnect_lists h.lists hs
  rcases bgvrnicConnect_cases hs with ⟨hd, hnone⟩ | ⟨p, res, hres, hsome, heffect⟩
  · simp only [CmRun.note, hnone, hd]
    exact ⟨h.lists, h.qpBound, h.cepBound, h.rts⟩
  · obtain ⟨hm, ⟨q, q', hq, hqp, hctx, hstate⟩, hcep⟩ := heffect
    have hrts : q'.qpState ≠ .rts := by
      rw [hstate]
      exact hok.connect p res q hsome hq
    simp only [CmRun.note, hsome]
    rcases mudmConnect_effect hres with ⟨c, hfree, hc, hsets⟩ | ⟨hc, -, hsame⟩
    · rw [hc]
      rw [hc, Option.some_or] at hctx
      obtain ⟨hbound, hcfree⟩ := h.lists.head_free hfree
      refine h.setQp hlists ?_ hqp (fun b hb => ?_) hcep (fun harts => absurd harts hrts) ?_
      · rw [hm]
        exact hsets.maxConnections
      · cases Option.some.inj (hctx.symm.trans hb)
        exact hbound
      · rintro a qa hne ⟨b, hb, hact, huse⟩
        have hbc : b ≠ c := by
          rintro rfl
          rw [hcfree] at hact
          cases hact
        refine ⟨b, hb, ?_, ?_⟩
        · dsimp only
          rw [hm, hsets.state_of_ne hbc]
          exact hact
        · dsimp only
          rw [Function.update_of_ne hbc, Function.update_of_ne hne]
          exact huse
    · rw [hc]
      rw [hc, Option.none_or] at hctx
      have hsame : r.2.m = s.dev.m := hm.trans hsame
      refine h.setQp hlists ?_ hqp (fun b hb => h.qpBound p q b hq (hctx ▸ hb)) hcep
        (fun harts => absurd harts hrts) ?_
      · rw [hsame]
      · rintro a qa - ⟨b, hb, hact, huse⟩
        refine ⟨b, hb, ?_, huse⟩
        dsimp only
        rw [hsame]
        exact hact

theorem CmRun.Unanswered.pending (h : s.Unanswered e) (hk : s.dev.cep e = some k)
    (hc : k.muContext = some c) :
    k.vrnicQp = none ∧ (s.dev.m.conn c).state = .pending ∧ s.uses c = s.cepUse e := by
  obtain ⟨k', c', hk', hv, hc', hstate, huse⟩ := h
  cases Option.some.inj (hk.symm.trans hk')
  cases Option.some.inj (hc.symm.trans hc')
  exact ⟨hv, hstate, huse⟩

/-- The private data of an answer that gets as far as the layer below fits. -/
theorem acceptMsg_fits {x : Nat × Nat × Nat × CallResult}
    (h : d.accepting (.accept env cmId addr param rc) = some x) :
    (acceptMsg addr param k).body.privateData.length ≤ mudmMaxPrivateData := by
  dsimp only [VrnicDev.accepting] at h
  split at h
  · cases h
  next hlen => exact Nat.le_of_not_lt hlen

theorem Ready.accept (h : Ready s) (hok : RtsFit s (.accept env cmId addr param rc))
    (hs : bgvrnicAccept s.dev env cmId addr param rc = some r) :
    Ready (s.note r.2 (.accept env cmId addr param rc)) := by
  have hcases := bgvrnicAccept_cases hs
  have hlists : ConnInv r.2.m := by
    refine bgvrnicAccept_lists h.lists (fun p e c res hsome => ?_) hs
    rcases hcases with ⟨-, hnone⟩ | ⟨p₁, e₁, c₁, k, res₁, -, hsome₁, ⟨-, -, ⟨k', hk, hc⟩, -⟩⟩
    · rw [hsome] at hnone
      cases hnone
    · cases Option.some.inj (hsome.symm.trans hsome₁)
      obtain ⟨hv, hpending, -⟩ := (hok.accept p e c res hsome).1.pending hk hc
      exact ⟨h.cepBound e k' c hk hv hc, hpending⟩
  rcases hcases with ⟨hd, hnone⟩ | ⟨p, e, c, k, res, hres, hsome, heffect⟩
  · obtain ⟨hm, hqp⟩ := endRequest_eq hd
    simp only [CmRun.note, hnone]
    refine h.keep hok (hm ▸ h.lists) (Quiet.endRequest hd) (by rw [hm]) (.of_qp hqp fun _ hl => ?_)
      (fun c hact _ _ => ?_) (fun c hc => ?_) rfl rfl
    · cases hl
    · dsimp only
      rw [hm]
      exact hact
    · cases hc
  · obtain ⟨hm, ⟨q', hqp, hctx, -⟩, ⟨k', hk, hkc⟩, hcep⟩ := heffect
    obtain ⟨hopen, hmagic, hm₀, hpkt, hlink⟩ := hok.accept p e c res hsome
    obtain ⟨hv, hpending, huse⟩ := hopen.pending hk hkc
    have hsets : SetsState s.dev.m r.2.m c .active := by
      have hgo : ReplyGoes s.dev.m env c (acceptMsg addr param k) :=
        ⟨acceptMsg_fits hsome, hmagic, hm₀, hpkt⟩
      rw [hm]
      refine mudmConnReply_activates hgo hlink ?_ rfl hres
      rw [hpending]
      exact ConnState.noConfusion
    simp only [CmRun.note, hsome]
    refine h.setQp hlists hsets.maxConnections hqp (fun b hb => ?_)
      (fun a k hk hv => (hcep a k hk hv).2) (fun _ => ⟨c, hctx, hsets.state_self, ?_⟩) ?_
    · cases Option.some.inj (hctx.symm.trans hb)
      exact h.cepBound e k' c hk hv hkc
    · dsimp only
      rw [Function.update_self]
      exact huse
    · rintro a qa hne ⟨b, hb, hact, huse⟩
      refine ⟨b, hb, ?_, ?_⟩
      · by_cases hbc : b = c
        · subst hbc
          exact hsets.state_self
        · dsimp only
          rw [hsets.state_of_ne hbc]
          exact hact
      · dsimp only
        rw [Function.update_of_ne hne]
        exact huse

theorem Ready.reject {privateData : List UInt8} (h : Ready s)
    (hok : RtsFit s (.reject env cmId addr privateData))
    (hs : bgvrnicReject s.dev env cmId addr privateData = some r) :
    Ready (s.note r.2 (.reject env cmId addr privateData)) := by
  have hlists : ConnInv r.2.m := by
    refine bgvrnicReject_lists h.lists (fun e k c hsome hk hc => ?_) hs
    obtain ⟨hv, hpending, -⟩ := (hok.reject e hsome).pending hk hc
    exact ⟨h.cepBound e k c hk hv hc, hpending⟩
  rcases bgvrnicReject_cases hs with ⟨hd, -⟩ | ⟨e, c, k, res, hres, hsome, hk, hc, hd⟩
  · obtain ⟨hm, hqp⟩ := endRequest_eq hd
    refine h.keep hok hlists ?_ ?_ (.of_qp hqp nofun) (fun c hact _ _ => ?_) nofun rfl rfl
    · exact Quiet.endRequest hd
    · show r.2.m.maxConnections = _
      rw [hm]
    · show (r.2.m.conn c).state = .active
      rw [hm]
      exact hact
  · obtain ⟨-, hpending, -⟩ := (hok.reject e hsome).pending hk hc
    have hm : r.2.m = res.m := by
      rw [hd]
      rfl
    have heffect := mudmConnReply_effect hres
    refine h.keep hok hlists ?_ ?_ (.of_qp ?_ nofun) (fun b hact _ _ => ?_) nofun rfl rfl
    · show Quiet s.dev r.2
      rw [hd]
      exact ((Quiet.setContext _).trans (Quiet.dropCep _)).trans (Quiet.setProvider _ _)
    · show r.2.m.maxConnections = _
      rw [hm]
      exact heffect.max
    · rw [hd]
      rfl
    · have hbc : b ≠ c := by
        rintro rfl
        rw [hpending] at hact
        cases hact
      show (r.2.m.conn b).state = .active
      rw [hm]
      exact (heffect.others hbc).trans hact

theorem Ready.request (h : Ready s) (hs : requestArrives s.dev env mem cmId rc pkt = some r) :
    Ready (s.note r.2 (.request env mem cmId rc pkt)) := by
  cases hctx : (connectRequest s.dev.m env.timeBase pkt).2 with
  | none =>
    have hsame := requestArrives_full hctx hs
    simp only [CmRun.note, hctx, hsame]
    exact ⟨h.lists, h.qpBound, h.cepBound, h.rts⟩
  | some c =>
    obtain ⟨hfree, heffect⟩ := requestArrives_effect h.lists hctx hs
    simp only [CmRun.note, hctx]
    refine ⟨heffect.lists, fun p q b hq hb => ?_, fun e k b hk hv hb => ?_, fun p q hq hrts => ?_⟩
    · dsimp only at hq
      rw [heffect.qp] at hq
      rw [heffect.max]
      exact h.qpBound p q b hq hb
    · dsimp only at hk
      rcases heffect.cep with hcep | ⟨a, -, hcep, hinUse⟩
      · rw [hcep] at hk
        rw [heffect.max]
        exact h.cepBound e k b hk hv hb
      · rw [hcep, Function.update_apply] at hk
        split at hk
        · cases Option.some.inj hk
          cases Option.some.inj hb
          exact hinUse.1
        · rw [heffect.max]
          exact h.cepBound e k b hk hv hb
    · dsimp only at hq
      rw [heffect.qp] at hq
      obtain ⟨b, hb, hact, huse⟩ := h.rts p q hq hrts
      have hbc : b ≠ c := by
        rintro rfl
        rw [hfree] at hact
        cases hact
      refine ⟨b, hb, ?_, ?_⟩
      · exact (heffect.others b hbc).trans hact
      · dsimp only
        rw [Function.update_of_ne hbc]
        exact huse

theorem Ready.reply (h : Ready s) (hok : RtsFit s (.reply rc pkt))
    (hs : replyArrives s.dev rc pkt = some r) : Ready (s.note r.2 (.reply rc pkt)) := by
  have hlists := replyArrives_lists h.lists (hok.reply rc pkt rfl) hs
  have hready := replyArrives_ready hs
  rcases replyArrives_cases hs with ⟨hctx, hd⟩ | ⟨c, hctx, -, hsets, hquiet⟩
  · refine h.keep hok hlists ?_ ?_ hready (fun b hact _ _ => ?_) (fun b hb => ?_) rfl rfl
    · show Quiet s.dev r.2
      rw [hd]
      exact Quiet.refl _
    · show r.2.m.maxConnections = _
      rw [hd]
    · show (r.2.m.conn b).state = .active
      rw [hd]
      exact hact
    · simp [VrnicDev.activating, hctx] at hb
  · refine h.keep hok hlists hquiet hsets.maxConnections hready (fun b hact hend _ => ?_)
      (fun b hb => ?_) rfl rfl
    · show (r.2.m.conn b).state = .active
      by_cases hbc : b = c
      · subst hbc
        rw [hsets.state_self]
        by_cases hst : pkt.body.status = 0
        · rw [if_pos hst]
        · exact absurd ((if_neg hst).trans hctx) hend
      · exact (hsets.state_of_ne hbc).trans hact
    · show (r.2.m.conn b).state = .active
      simp only [VrnicDev.activating] at hb
      split at hb
      next hst =>
        cases Option.some.inj (hctx.symm.trans hb)
        rw [if_pos hst] at hsets
        exact hsets.state_self
      next => cases hb

theorem Ready.disconnected {closeRc : Int} {hdr : IonetHeader} (h : Ready s)
    (hok : RtsFit s (.disconnected rc closeRc hdr))
    (hs : disconnectArrives s.dev rc closeRc hdr = some r) :
    Ready (s.note r.2 (.disconnected rc closeRc hdr)) := by
  obtain ⟨y, hy, hm, hquiet⟩ := disconnectArrives_cases hs
  have heffect := disconnectRequest_effect hy
  rw [← hm] at heffect
  have hending : s.dev.ending (.disconnected rc closeRc hdr) = y.2.2 := by
    simp [VrnicDev.ending, hy]
  refine h.keep hok (disconnectArrives_lists h.lists hs) hquiet ?_ (disconnectArrives_ready hs)
    (fun b hact hend _ => ?_) (fun c hc => ?_) rfl rfl
  · show r.2.m.maxConnections = _
    rcases heffect with ⟨-, hsame⟩ | ⟨c, -, hsets⟩
    · rw [hsame]
    · exact hsets.maxConnections
  · show (r.2.m.conn b).state = .active
    rcases heffect with ⟨-, hsame⟩ | ⟨c, hc, hsets⟩
    · rw [hsame]
      exact hact
    · rw [hending, hc] at hend
      have hbc : b ≠ c := fun he => hend (congrArg some he.symm)
      exact (hsets.state_of_ne hbc).trans hact
  · cases hc

theorem Ready.local (h : Ready s) (hi : i.Local) (hok : RtsFit s i) (hs : cmCall s.dev i = some d) :
    Ready (s.note d i) := by
  have hbound : ∀ p c, s.dev.tearing i = some (p, c) → c < s.dev.m.maxConnections := by
    intro p c hpc
    rcases local_cases hi hs with ⟨hnone, -⟩ | ⟨p', c', hsome, -, -, q, hq, hc⟩
    · rw [hnone] at hpc
      cases hpc
    · cases Option.some.inj (hpc.symm.trans hsome)
      exact h.qpBound p q c hq hc
  have hlists := local_lists h.lists hi hbound hs
  have hactivating : s.dev.activating i = none := by
    cases i with
    | data | modifyQp | createQp | destroyQp => rfl
    | _ => cases hi
  have hready := local_ready hi hs
  rw [note_local hi]
  rcases local_cases hi hs with ⟨hnone, hm, hquiet⟩ | ⟨p, c, hsome, ⟨env, y, hy, hm⟩, hquiet, -⟩
  · rw [hnone]
    refine h.keep hok hlists hquiet ?_ hready (fun b hact _ _ => ?_) (fun b hb => ?_) rfl rfl
    · show d.m.maxConnections = _
      rw [hm]
    · show (d.m.conn b).state = .active
      rw [hm]
      exact hact
    · rw [hactivating] at hb
      cases hb
  · rw [hsome]
    have heffect := mudmDisconnect_effect hy
    rw [← hm] at heffect
    refine h.keep hok hlists hquiet ?_ hready (fun b hact _ htear => ?_) (fun b hb => ?_) rfl rfl
    · show d.m.maxConnections = _
      rcases heffect with hsame | hsets | hsets
      · rw [hsame]
      · exact hsets.maxConnections
      · exact hsets.maxConnections
    · have hbc : b ≠ c := by
        rintro rfl
        exact htear p hsome
      show (d.m.conn b).state = .active
      rcases heffect with hsame | hsets | hsets
      · rw [hsame]
        exact hact
      · exact (hsets.state_of_ne hbc).trans hact
      · exact (hsets.state_of_ne hbc).trans hact
    · rw [hactivating] at hb
      cases hb

theorem Ready.step (h : Ready s) (hok : RtsFit s i) (hs : cmStep s i = some s') : Ready s' := by
  obtain ⟨d, hd, rfl⟩ := Option.map_eq_some_iff.mp hs
  cases i with
  | connect env mem cmId addr destNode param =>
    dsimp only [cmCall] at hd
    split at hd
    · obtain ⟨r, hr, rfl⟩ := Option.map_eq_some_iff.mp hd
      exact h.connect hok hr
    · cases hd
  | accept env cmId addr param eventRc =>
    obtain ⟨r, hr, rfl⟩ := Option.map_eq_some_iff.mp hd
    exact h.accept hok hr
  | reject env cmId addr privateData =>
    obtain ⟨r, hr, rfl⟩ := Option.map_eq_some_iff.mp hd
    exact h.reject hok hr
  | request env mem cmId eventRc pkt =>
    dsimp only [cmCall] at hd
    split at hd
    · obtain ⟨r, hr, rfl⟩ := Option.map_eq_some_iff.mp hd
      exact h.request hr
    · cases hd
  | reply eventRc pkt =>
    obtain ⟨r, hr, rfl⟩ := Option.map_eq_some_iff.mp hd
    exact h.reply hok hr
  | disconnected eventRc closeRc hdr =>
    obtain ⟨r, hr, rfl⟩ := Option.map_eq_some_iff.mp hd
    exact h.disconnected hok hr
  | data | modifyQp | createQp | destroyQp => exact h.local trivial hok hd

theorem ready_new (m : MyContext) {max : Nat} (hmax : 0 < max) (listeners : List Listener) :
    Ready (newCmRun (connListInit m max) listeners) where
  lists := connInv_init m hmax
  qpBound := nofun
  cepBound := nofun
  rts := nofun

theorem Ready.rtsActive (h : Ready s) : RtsActive s := by
  refine fun p q hq => ⟨h.rts p q hq, fun c hc => ?_⟩
  unfold postSendContext at hc
  split at hc
  · cases hc
  next hrts =>
    obtain ⟨b, hb, hact, -⟩ := h.rts p q hq (not_not.mp hrts)
    cases Option.some.inj (hc.symm.trans hb)
    exact hact

/-- As long as queue pairs become ready with their own active contexts, and leave that state when the
use of these ends, what is sent goes to active contexts. -/
theorem ready_qps_have_active_contexts {m : MyContext} {max : Nat} {listeners : List Listener}
    {is : List CmInput} (hmax : 0 < max)
    (hok : Meets cmStep RtsFit (newCmRun (connListInit m max) listeners) is) :
    Always cmStep RtsActive (newCmRun (connListInit m max) listeners) is := by
  have hready : Always cmStep Ready (newCmRun (connListInit m max) listeners) is :=
    always_of_step (fun _ _ _ h hi hs => h.step hi hs) (ready_new m hmax listeners) hok
  exact hready.imp fun _ h => h.rtsActive

theorem RtsFit.connect_of (h : ∀ p q, s.dev.getQp param.qpn = some p → s.dev.qp p = some q →
    q.qpState ≠ .rts) : RtsFit s (.connect env mem cmId addr destNode param) where
  connect p res q hp hq := by
    cases mem with
    | none => cases hp
    | some e =>
      dsimp only [VrnicDev.connecting] at hp
      split at hp
      · cases hp
      · obtain ⟨a, ha, hp⟩ := Option.bind_eq_some_iff.mp hp
        obtain ⟨res', -, hp⟩ := Option.bind_eq_some_iff.mp hp
        cases Option.some.inj hp
        exact h p q ha hq
  accept _ _ _ _ ha := by cases ha
  reject _ hr := by cases hr
  reply _ _ he := by cases he
  ready _ hr := by cases hr
  leave _ _ _ _ _ _ hend := by
    rcases hend with hend | ⟨_, hend⟩
    · cases hend
    · cases hend

theorem RtsFit.createQp_of {qpn : Nat} : RtsFit s (.createQp p qpn) where
  connect _ _ _ hp := by cases hp
  accept _ _ _ _ ha := by cases ha
  reject _ hr := by cases hr
  reply _ _ he := by cases he
  ready _ hr := by cases hr
  leave _ _ _ _ _ _ hend := by
    rcases hend with hend | ⟨_, hend⟩
    · cases hend
    · cases hend

theorem RtsFit.reply_of (hst : pkt.body.status = 0) (hfit : RepliesFit s.dev.m (.reply pkt))
    (hready : ∀ p, s.dev.readied (.reply rc pkt) = some p → s.Readiable p (.reply rc pkt)) :
    RtsFit s (.reply rc pkt) where
  connect _ _ _ hp := by cases hp
  accept _ _ _ _ ha := by cases ha
  reject _ hr := by cases hr
  reply rc' pkt' he := by
    cases he
    exact hfit
  ready := hready
  leave _ _ _ _ _ _ hend := by
    rcases hend with hend | ⟨_, hend⟩
    · rw [show s.dev.ending (.reply rc pkt) = none from if_pos hst] at hend
      cases hend
    · cases hend

theorem ready_qps_have_active_contexts_five :
    ∃ s, run cmStep (newCmRun fourContexts []) (connectToFive ++ [.reply 0 replyOfFive]) = some s ∧
      (s.dev.qp 10).map CmQp.qpState = some .rts ∧ RtsActive s := by
  have hmap : (run cmStep (newCmRun fourContexts [])
      (connectToFive ++ [.reply 0 replyOfFive])).map (fun s => (s.dev.qp 10).map CmQp.qpState) =
      some (some .rts) := by decide +kernel
  obtain ⟨s, hs, hrts⟩ := Option.map_eq_some_iff.mp hmap
  refine ⟨s, hs, hrts, ?_⟩
  have hfirst : Meets cmStep RtsFit (newCmRun fourContexts []) connectToFive := by
    refine fun s₁ h₁ => ⟨.createQp_of, fun s₂ _ => ⟨.connect_of fun p q hp hq => ?_, trivial⟩⟩
    have hrun : run cmStep (newCmRun fourContexts []) [.createQp 10 17] = some s₁ := by
      rw [run, h₁]
      rfl
    rw [eq_cmAfter hrun] at hp hq
    have hp0 : (cmAfter [.createQp 10 17]).dev.getQp 17 = some 10 := by decide +kernel
    cases Option.some.inj (hp.symm.trans hp0)
    have hstate : ((cmAfter [.createQp 10 17]).dev.qp 10).map CmQp.qpState = some .reset := by
      decide +kernel
    rw [hq] at hstate
    rw [Option.some.inj hstate]
    exact QpState.noConfusion
  have hok : Meets cmStep RtsFit (newCmRun fourContexts [])
      (connectToFive ++ [.reply 0 replyOfFive]) := by
    refine meets_append.mpr ⟨hfirst, fun t ht _ _ => ⟨?_, trivial⟩⟩
    rw [eq_cmAfter ht]
    refine .reply_of rfl (fun c hc => ?_) fun p hp => ?_
    · have hc0 : replyContext (cmAfter connectToFive).dev.m replyOfFive = some 0 := by decide +kernel
      cases Option.some.inj (hc.symm.trans hc0)
      decide +kernel
    · have hp0 : (cmAfter connectToFive).dev.readied (.reply 0 replyOfFive) = some 10 := by
        decide +kernel
      cases Option.some.inj (hp.symm.trans hp0)
      have hctx : ((cmAfter connectToFive).dev.qp 10).map CmQp.muContext = some (some 0) := by
        decide +kernel
      obtain ⟨q, hq, hc⟩ := Option.map_eq_some_iff.mp hctx
      exact ⟨q, 0, hq, hc, by decide +kernel, Or.inr (by decide +kernel)⟩
  have halways := ready_qps_have_active_contexts (by decide) hok
  exact halways.last hs

/-- Node 5 refuses the connection, and the event handler takes note of it. -/
theorem refused_qp_is_ready :
    ¬ Always cmStep RtsActive (newCmRun fourContexts [])
      (connectToFive ++
        [.reply 0 { replyOfFive with
          body := { replyOfFive.body with status := connRefusedStatus } }]) := by
  intro h
  have hmap : (run cmStep (newCmRun fourContexts [])
      (connectToFive ++
        [.reply 0 { replyOfFive with
          body := { replyOfFive.body with status := connRefusedStatus } }])).map
      (fun s => ((s.dev.qp 10).bind postSendContext, (s.dev.m.conn 0).state)) =
        some (some 0, .free) := by decide +kernel
  obtain ⟨s, hs, hsend⟩ := Option.map_eq_some_iff.mp hmap
  obtain ⟨hctx, hfree⟩ := Prod.mk.inj hsend
  obtain ⟨q, hq, hc⟩ := Option.bind_eq_some_iff.mp hctx
  have hactive := (h.last hs 10 q hq).2 0 hc
  rw [hfree] at hactive
  cases hactive

end BgqVrnic
