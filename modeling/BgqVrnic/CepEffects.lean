import BgqVrnic.CmTeardowns

namespace BgqVrnic

open Runs

variable {d d' : VrnicDev} {i : CmInput} {p e c cmId destNode : Nat} {q : CmQp} {k : Cep} {env : CallEnv}
  {rc : Int} {mem : Option Nat} {addr : CmAddr} {param : ConnParam} {r : Int × VrnicDev}
  {pkt : ConnPacket}

namespace VrnicDev

variable (s : VrnicDev)

/-- The endpoint that a call of `bgvrnic_connect` or a request leaves on the list. -/
def opening : CmInput → Option (Nat × Cep)
  | .connect env mem cmId addr destNode param => do
    let e ← mem
    let (p, res) ← s.connecting (.connect env mem cmId addr destNode param)
    if res.rc = 0 then some (e, connectCep destNode param p) else none
  | .request env mem _ _ pkt => do
    let c ← (connectRequest s.m env.timeBase pkt).2
    let e ← mem
    if s.listens pkt.body then some (e, requestCep c pkt) else none
  | _ => none

/-- The endpoint that a call or a reply is for. -/
def closing : CmInput → Option Nat
  | .accept _ cmId _ _ _ => s.providerData cmId
  | .reject _ cmId _ _ => s.providerData cmId
  | .reply _ pkt => do
    let _ ← replyContext s.m pkt
    s.findCep pkt.body.sourceRequestId
  | _ => none

/-- The queue pair whose event handler is called for the endpoint at `e`. -/
def handler (e : Nat) : Option Nat := do
  let k ← s.cep e
  let p ← k.vrnicQp
  let q ← s.qp p
  if q.cmId.isSome then some p else none

/-- The `cm_id` that loses its endpoint, if one does. -/
def clearing : CmInput → Option Nat
  | .accept _ cmId _ _ _ => some cmId
  | .reject _ cmId _ _ => some cmId
  | .reply _ pkt => do
    let e ← s.findCep pkt.body.sourceRequestId
    let k ← s.cep e
    let p ← k.vrnicQp
    let q ← s.qp p
    q.cmId
  | _ => none

/-- A call of `bgvrnic_accept` goes through: the reply is sent and the event handler returns 0. -/
def establishing : CmInput → Bool
  | .accept env cmId addr param eventRc =>
    (s.accepting (.accept env cmId addr param eventRc)).any fun x => x.2.2.2.rc = 0 ∧ eventRc = 0
  | _ => false

/-- The queue pair that is left without a `cm_id`. -/
def cancelling : CmInput → Option Nat
  | .connect env mem cmId addr destNode param => do
    let (p, res) ← s.connecting (.connect env mem cmId addr destNode param)
    if res.rc = 0 then none else some p
  | .accept env cmId addr param eventRc => do
    let (p, _, _, res) ← s.accepting (.accept env cmId addr param eventRc)
    if res.rc = 0 ∧ eventRc = 0 then none else some p
  | .disconnected eventRc _ hdr => do
    let (_, _, c) ← disconnectRequest s.m hdr
    let _ ← c
    if eventRc = 0 then s.getQp hdr.destQpn else none
  | .modifyQp env p newState remainingWqes eventRc =>
    (s.tearing (.modifyQp env p newState remainingWqes eventRc)).map Prod.fst
  | .destroyQp _ p _ => some p
  | _ => none

end VrnicDev

/-- What becomes of the endpoints and of the `cm_id`s that have them. -/
inductive CepChange (d d' : VrnicDev) (i : CmInput) : Prop
  | kept (hopen : d.opening i = none) (hclose : d.closing i = none) (hest : d.establishing i = false)
      (hcep : d'.cep = d.cep) (hceps : d'.ceps = d.ceps)
      (hcm : ∀ cmId e, d'.providerData cmId = some e → d.providerData cmId = some e)
  | made {e cmId : Nat} {k : Cep} (hopen : d.opening i = some (e, k)) (hclose : d.closing i = none)
      (hest : d.establishing i = false) (hfresh : d.cep e = none)
      (hcep : d'.cep = Function.update d.cep e (some k)) (hceps : d'.ceps = d.ceps ++ [e])
      (hcm : d'.providerData = Function.update d.providerData cmId (some e))
      (hqp : ∀ p, k.vrnicQp = some p → ∃ q, d'.qp p = some q ∧ q.cmId.isSome)
  | dropped {e cmId : Nat} (hopen : d.opening i = none) (hclose : d.closing i = some e)
      (hest : d.establishing i = false) (hcep : d'.cep = Function.update d.cep e none)
      (hceps : d'.ceps = d.ceps.erase e) (hclear : d.clearing i = some cmId)
      (hcm : d'.providerData = Function.update d.providerData cmId none)
  | marked {e p : Nat} {k : Cep} (hopen : d.opening i = none) (hclose : d.closing i = some e)
      (hest : d.establishing i = true) (hk : d.cep e = some k)
      (hcep : d'.cep = Function.update d.cep e
        (some { k with vrnicQp := some p, state := .connected }))
      (hceps : d'.ceps = d.ceps) (hcm : d'.providerData = d.providerData)

/-- What becomes of the queue pairs and their numbers; `lost` is the one that is left without a
`cm_id`. -/
inductive QpChange (d d' : VrnicDev) (lost : Option Nat) : Prop
  | kept (hqp : d'.qp = d.qp) (hidr : d'.idr = d.idr)
  | written {p : Nat} {q q' : CmQp} (hq : d.qp p = some q)
      (hqp : d'.qp = Function.update d.qp p (some q')) (hidr : d'.idr = d.idr)
      (hnum : q'.qpNum = q.qpNum) (hcm : lost ≠ some p → q.cmId.isSome → q'.cmId.isSome)
  | created {p qpn : Nat} {q' : CmQp} (hp : d.qp p = none)
      (hqp : d'.qp = Function.update d.qp p (some q'))
      (hidr : d'.idr = Function.update d.idr qpn (some p)) (hnum : q'.qpNum = qpn)
  | destroyed {p : Nat} {q : CmQp} (hq : d.qp p = some q) (hqp : d'.qp = Function.update d.qp p none)
      (hidr : d'.idr = Function.update d.idr q.qpNum none) (hlost : lost = some p)

theorem cancelling_of_closed {closeRc : Int} {hdr : IonetHeader} {y : MyContext × Int × Option Nat}
    (hy : disconnectRequest d.m hdr = some y) (hc : y.2.2 ≠ none) (hrc : rc = 0)
    (hp : d.getQp hdr.destQpn = some p) : d.cancelling (.disconnected rc closeRc hdr) = some p := by
  obtain ⟨c, hc⟩ := Option.ne_none_iff_exists'.mp hc
  simp only [VrnicDev.cancelling, hy, bind, Option.bind, hc]
  rw [if_pos hrc]
  exact hp

/-- What the inputs that are neither requests nor answers do: nothing to the endpoints. -/
theorem local_changes (hi : i.Local) (h : cmCall d i = some d') :
    d'.cep = d.cep ∧ d'.ceps = d.ceps ∧ d'.providerData = d.providerData ∧
      QpChange d d' (d.cancelling i) := by
  cases i with
  | data env qpn posted =>
    cases muRecvCb_leaves h with
    | received p q _ _ _ hd =>
      rw [hd]
      exact ⟨rfl, rfl, rfl, .kept rfl rfl⟩
    | torn p c q y _ hq _ _ _ hd =>
      rw [hd]
      exact ⟨rfl, rfl, rfl, .written hq rfl rfl rfl fun _ hcm => hcm⟩
  | modifyQp env p newState remainingWqes eventRc =>
    obtain ⟨r, hr, rfl⟩ := Option.map_eq_some_iff.mp h
    cases bgvrnicModifyQp_leaves hr with
    | refused q _ _ _ hd =>
      rw [hd]
      exact ⟨rfl, rfl, rfl, .kept rfl rfl⟩
    | torn c q y hq hstate hwqes hcm hc _ hd =>
      rw [hd]
      refine ⟨rfl, rfl, rfl, .written hq rfl rfl rfl fun hlost => absurd ?_ hlost⟩
      simp [VrnicDev.cancelling, VrnicDev.tearing, hq, hc, hstate, hwqes, hcm]
    | set st draining q hq _ _ _ hd =>
      rw [hd]
      exact ⟨rfl, rfl, rfl, .written hq rfl rfl rfl fun _ hcm => hcm⟩
  | createQp p qpn =>
    dsimp only [cmCall] at h
    split at h
    next hfresh =>
      cases Option.some.inj h
      exact ⟨rfl, rfl, rfl, .created (Option.isNone_iff_eq_none.mp hfresh.1) rfl rfl rfl⟩
    next => cases h
  | destroyQp env p eventRc =>
    obtain ⟨r, hr, rfl⟩ := Option.map_eq_some_iff.mp h
    cases bgvrnicDestroyQp_leaves hr with
    | unconnected q hq _ hd | torn c q y hq _ _ _ hd =>
      rw [hd]
      exact ⟨rfl, rfl, rfl, .destroyed hq rfl rfl rfl⟩
  | _ => cases hi

/-- Whatever `cm_id` an answer is for, its endpoint is dropped. -/
theorem endRequest_changes (h : endRequest d cmId rc = some r) (hopen : d.opening i = none)
    (hclose : d.closing i = d.providerData cmId) (hest : d.establishing i = false)
    (hclear : d.clearing i = some cmId) (lost : Option Nat) :
    CepChange d r.2 i ∧ QpChange d r.2 lost := by
  rcases endRequest_cases h with ⟨hnone, hd⟩ | ⟨e, he, -, hd⟩
  · rw [hd]
    exact ⟨.kept hopen (hclose.trans hnone) hest rfl rfl fun _ _ h => h, .kept rfl rfl⟩
  · rw [hd]
    exact ⟨.dropped hopen (hclose.trans he) hest rfl rfl hclear rfl, .kept rfl rfl⟩

theorem freshCep_some (h : freshCep d (some e) = true) : d.cep e = none := Option.isNone_iff_eq_none.mp h

/-- A `cm_id` that gives its endpoint up had it before. -/
theorem provider_of_cleared {cmId' e : Nat}
    (h : (d.setProvider cmId none).providerData cmId' = some e) : d.providerData cmId' = some e := by
  simp only [VrnicDev.setProvider, Function.update_apply] at h
  split at h
  · cases h
  · exact h

theorem bgvrnicConnect_changes (hfresh : freshCep d mem = true)
    (h : bgvrnicConnect d env mem cmId addr destNode param = some r) :
    CepChange d r.2 (.connect env mem cmId addr destNode param) ∧
      QpChange d r.2 (d.cancelling (.connect env mem cmId addr destNode param)) := by
  rcases bgvrnicConnect_leaves h with ⟨hnone, hd⟩ | ⟨e, p, res, q, rfl, hsome, -, hq, hcases⟩
  · rw [hd]
    refine ⟨.kept ?_ rfl rfl rfl rfl fun _ _ h => h, .kept rfl rfl⟩
    cases mem with
    | none => rfl
    | some e => simp [VrnicDev.opening, hnone]
  · rcases hcases with ⟨hrc, hd⟩ | ⟨hrc, hd⟩
    · rw [hd]
      refine ⟨.kept ?_ rfl rfl rfl rfl fun _ _ => provider_of_cleared,
        .written hq rfl rfl rfl fun hlost => absurd ?_ hlost⟩
      · simp [VrnicDev.opening, hsome, hrc]
      · simp [VrnicDev.cancelling, hsome, hrc]
    · rw [hd]
      refine ⟨.made ?_ rfl rfl (freshCep_some hfresh) rfl rfl rfl fun p' hp' => ?_,
        .written hq rfl rfl rfl fun _ _ => rfl⟩
      · simp [VrnicDev.opening, hsome, hrc]
      · cases hp'
        exact ⟨_, Function.update_self _ _ _, rfl⟩

theorem bgvrnicAccept_changes (h : bgvrnicAccept d env cmId addr param rc = some r) :
    CepChange d r.2 (.accept env cmId addr param rc) ∧
      QpChange d r.2 (d.cancelling (.accept env cmId addr param rc)) := by
  rcases bgvrnicAccept_leaves h with ⟨hnone, hd⟩ |
    ⟨p, e, c, res, q, k, hsome, -, he, hq, hk, -, -, hcases⟩
  · refine endRequest_changes hd rfl rfl ?_ rfl _
    simp only [VrnicDev.establishing, hnone]
    rfl
  · rcases hcases with ⟨hfails, hd⟩ | ⟨hgoes, hd⟩
    · rw [hd]
      refine ⟨.dropped rfl he ?_ rfl rfl rfl rfl,
        .written hq rfl rfl rfl fun hlost => absurd ?_ hlost⟩
      · simp only [VrnicDev.establishing, hsome, Option.any_some]
        exact decide_eq_false hfails
      · simp only [VrnicDev.cancelling, hsome, bind, Option.bind, if_neg hfails]
    · rw [hd]
      refine ⟨.marked rfl he ?_ hk rfl rfl rfl, .written hq rfl rfl rfl fun _ _ => rfl⟩
      simp only [VrnicDev.establishing, hsome, Option.any_some]
      exact decide_eq_true hgoes

theorem bgvrnicReject_changes {privateData : List UInt8}
    (h : bgvrnicReject d env cmId addr privateData = some r) (lost : Option Nat) :
    CepChange d r.2 (.reject env cmId addr privateData) ∧ QpChange d r.2 lost := by
  rcases bgvrnicReject_leaves h with ⟨-, hd⟩ | ⟨e, c, k, res, -, he, -, -, -, hd⟩
  · exact endRequest_changes hd rfl rfl rfl rfl lost
  · rw [hd]
    exact ⟨.dropped rfl he rfl rfl rfl rfl rfl, .kept rfl rfl⟩

theorem requestArrives_changes (hfresh : freshCep d mem = true)
    (h : requestArrives d env mem cmId rc pkt = some r) (lost : Option Nat) :
    CepChange d r.2 (.request env mem cmId rc pkt) ∧ QpChange d r.2 lost := by
  have hquiet {m : MyContext} (hopen : d.opening (.request env mem cmId rc pkt) = none)
      (hd : r.2 = { d with m := m }) :
      CepChange d r.2 (.request env mem cmId rc pkt) ∧ QpChange d r.2 lost := by
    rw [hd]
    exact ⟨.kept hopen rfl rfl rfl rfl fun _ _ h => h, .kept rfl rfl⟩
  cases requestArrives_leaves h with
  | full hc hd => exact hquiet (by simp [VrnicDev.opening, hc]) hd
  | starved c _ hmem _ hd => exact hquiet (by simp [VrnicDev.opening, hmem]) hd
  | refused c res _ hlisten _ hd => exact hquiet (by simp [VrnicDev.opening, hlisten]) hd
  | opened c e hc hmem hlisten hd =>
    subst hmem
    rw [hd]
    refine ⟨.made ?_ rfl rfl (freshCep_some hfresh) rfl rfl rfl nofun, .kept rfl rfl⟩
    simp [VrnicDev.opening, hc, hlisten]

theorem replyArrives_changes (h : replyArrives d rc pkt = some r) (lost : Option Nat) :
    CepChange d r.2 (.reply rc pkt) ∧ QpChange d r.2 lost := by
  cases replyArrives_leaves h with
  | unknown hctx hd =>
    rw [hd]
    refine ⟨.kept rfl ?_ rfl rfl rfl fun _ _ h => h, .kept rfl rfl⟩
    simp [VrnicDev.closing, hctx]
  | unheard c hctx _ hfind hd =>
    rw [hd]
    refine ⟨.kept rfl ?_ rfl rfl rfl fun _ _ h => h, .kept rfl rfl⟩
    simp [VrnicDev.closing, hctx, hfind]
  | heard c e p cmId k q hctx _ hfind hk hp hq hcm hd =>
    rw [hd]
    refine ⟨.dropped rfl ?_ rfl rfl rfl ?_ rfl, .written hq rfl rfl rfl fun _ hcm => hcm⟩
    · simp [VrnicDev.closing, hctx, hfind]
    · simp only [VrnicDev.clearing, hfind, bind, Option.bind, hk, hp, hq, hcm]

theorem disconnectArrives_changes {closeRc : Int} {hdr : IonetHeader}
    (h : disconnectArrives d rc closeRc hdr = some r) :
    CepChange d r.2 (.disconnected rc closeRc hdr) ∧
      QpChange d r.2 (d.cancelling (.disconnected rc closeRc hdr)) := by
  obtain ⟨y, hy, hleaves⟩ := disconnectArrives_leaves h
  cases hleaves with
  | unknown _ hd | unheard _ hd =>
    rw [hd]
    exact ⟨.kept rfl rfl rfl rfl rfl fun _ _ h => h, .kept rfl rfl⟩
  | failed p cmId q _ hq hcm hd =>
    rw [hd]
    exact ⟨.kept rfl rfl rfl rfl rfl fun _ _ h => h, .written hq rfl rfl rfl fun _ hcm => hcm⟩
  | closed p cmId q hc hp hq hcm hrc hd =>
    rw [hd]
    exact ⟨.kept rfl rfl rfl rfl rfl fun _ _ => provider_of_cleared,
      .written hq rfl rfl rfl fun hne => absurd (cancelling_of_closed hy hc hrc hp) hne⟩

theorem cmCall_changes (h : cmCall d i = some d') :
    CepChange d d' i ∧ QpChange d d' (d.cancelling i) := by
  cases i with
  | connect env mem cmId addr destNode param =>
    dsimp only [cmCall] at h
    split at h
    next hfresh =>
      obtain ⟨r, hr, rfl⟩ := Option.map_eq_some_iff.mp h
      exact bgvrnicConnect_changes hfresh hr
    next => cases h
  | accept env cmId addr param eventRc =>
    obtain ⟨r, hr, rfl⟩ := Option.map_eq_some_iff.mp h
    exact bgvrnicAccept_changes hr
  | reject env cmId addr privateData =>
    obtain ⟨r, hr, rfl⟩ := Option.map_eq_some_iff.mp h
    exact bgvrnicReject_changes hr _
  | request env mem cmId eventRc pkt =>
    dsimp only [cmCall] at h
    split at h
    next hfresh =>
      obtain ⟨r, hr, rfl⟩ := Option.map_eq_some_iff.mp h
      exact requestArrives_changes hfresh hr _
    next => cases h
  | reply eventRc pkt =>
    obtain ⟨r, hr, rfl⟩ := Option.map_eq_some_iff.mp h
    exact replyArrives_changes hr _
  | disconnected eventRc closeRc hdr =>
    obtain ⟨r, hr, rfl⟩ := Option.map_eq_some_iff.mp h
    exact disconnectArrives_changes hr
  | data | modifyQp | createQp | destroyQp =>
    obtain ⟨hcep, hceps, hcm, hqp⟩ := local_changes (by trivial) h
    refine ⟨.kept rfl rfl rfl hcep hceps fun cmId e he => ?_, hqp⟩
    rw [← hcm]
    exact he

end BgqVrnic
