import BgqVrnic.ConnEffects
import BgqVrnic.Leases
import BgqVrnic.VrnicCm

namespace BgqVrnic

open Intrusive Leases Runs

/-- A call of the connection manager or of a user of the verbs, or a packet that comes in; with each goes
what it finds outside the driver. -/
inductive CmInput
  | connect (env : CallEnv) (mem : Option Nat) (cmId : Nat) (addr : CmAddr) (destNode : Nat)
      (param : ConnParam)
  | accept (env : CallEnv) (cmId : Nat) (addr : CmAddr) (param : ConnParam) (eventRc : Int)
  | reject (env : CallEnv) (cmId : Nat) (addr : CmAddr) (privateData : List UInt8)
  | request (env : CallEnv) (mem : Option Nat) (cmId : Nat) (eventRc : Int) (pkt : ConnPacket)
  | reply (eventRc : Int) (pkt : ConnPacket)
  | disconnected (eventRc closeRc : Int) (hdr : IonetHeader)
  | data (env : CallEnv) (qpn : Nat) (posted : Bool)
  | modifyQp (env : CallEnv) (p : Nat) (newState : Option QpState) (remainingWqes eventRc : Int)
  | createQp (p qpn : Nat)
  | destroyQp (env : CallEnv) (p : Nat) (eventRc : Int)

/-- Memory that is handed out is not in use. -/
def freshCep (s : VrnicDev) (mem : Option Nat) : Bool := mem.all fun e => (s.cep e).isNone

def cmCall (s : VrnicDev) : CmInput → Option VrnicDev
  | .connect env mem cmId addr destNode param =>
    if freshCep s mem then (bgvrnicConnect s env mem cmId addr destNode param).map Prod.snd else none
  | .accept env cmId addr param eventRc => (bgvrnicAccept s env cmId addr param eventRc).map Prod.snd
  | .reject env cmId addr privateData => (bgvrnicReject s env cmId addr privateData).map Prod.snd
  | .request env mem cmId eventRc pkt =>
    if freshCep s mem then (requestArrives s env mem cmId eventRc pkt).map Prod.snd else none
  | .reply eventRc pkt => (replyArrives s eventRc pkt).map Prod.snd
  | .disconnected eventRc closeRc hdr => (disconnectArrives s eventRc closeRc hdr).map Prod.snd
  | .data env qpn posted => muRecvCb s env qpn posted
  | .modifyQp env p newState remainingWqes eventRc =>
    (bgvrnicModifyQp s env p newState remainingWqes eventRc).map Prod.snd
  | .createQp p qpn =>
    if (s.qp p).isNone ∧ (s.idr qpn).isNone then some (bgvrnicCreateQp s p qpn) else none
  | .destroyQp env p eventRc => (bgvrnicDestroyQp s env p eventRc).map Prod.snd

/-- A call of `mudm_disconnect` on behalf of a queue pair: the use of the context that the queue pair got
it for, and the context's own use and state. -/
structure Teardown where
  qp : Nat
  context : Nat
  held : Nat
  use : Nat
  state : ConnState
  deriving DecidableEq, Repr

/-- A device with its history: how often each context has been taken, the uses that the queue pairs and
the endpoints got their contexts for and whether these have ended, and the disconnects. -/
structure CmRun where
  dev : VrnicDev
  uses : Nat → Nat
  qpUse : Nat → Nat
  qpEnded : Nat → Bool
  cepUse : Nat → Nat
  cepEnded : Nat → Bool
  disconnects : List Teardown

namespace VrnicDev

variable (s : VrnicDev)

/-- The queue pair that a call of `bgvrnic_connect` is for, with what `mudm_connect` does, if the call
gets that far. -/
def connecting : CmInput → Option (Nat × CallResult)
  | .connect env (some _) _ addr destNode param =>
    if mudmMaxPrivateData < param.privateData.length then none
    else do
      let p ← s.getQp param.qpn
      let res ← mudmConnect s.m env destNode (connectMsg addr param p)
      some (p, res)
  | _ => none

/-- The queue pair and the endpoint of a call of `bgvrnic_accept`, with the endpoint's context and what
`mudm_conn_reply` does. -/
def accepting : CmInput → Option (Nat × Nat × Nat × CallResult)
  | .accept env cmId addr param _ =>
    if mudmMaxPrivateData < param.privateData.length then none
    else do
      let p ← s.getQp param.qpn
      let e ← s.providerData cmId
      let cep ← s.cep e
      let c ← cep.muContext
      let res ← mudmConnReply s.m env c (acceptMsg addr param cep)
      some (p, e, c, res)
  | _ => none

/-- The endpoint that `bgvrnic_reject` answers for. -/
def rejecting : CmInput → Option Nat
  | .reject _ cmId _ privateData =>
    if mudmMaxPrivateData < privateData.length then none else s.providerData cmId
  | _ => none

/-- The queue pair and the context of a call of `mudm_disconnect`: a packet finds no buffer, or a queue
pair with a `cm_id` is drained or destroyed. -/
def tearing : CmInput → Option (Nat × Nat)
  | .data _ qpn posted => do
    let p ← s.getQp qpn
    let q ← s.qp p
    let c ← q.muContext
    if posted then none else some (p, c)
  | .modifyQp _ p newState remainingWqes _ => do
    let q ← s.qp p
    let c ← q.muContext
    if newState = some .sqd ∧ remainingWqes ≤ 0 ∧ q.cmId.isSome then some (p, c) else none
  | .destroyQp _ p _ => do
    let q ← s.qp p
    let c ← q.muContext
    if q.cmId.isSome then some (p, c) else none
  | _ => none

/-- The context that a packet ends the use of: a refusal, or a disconnect. -/
def ending : CmInput → Option Nat
  | .reply _ pkt => if pkt.body.status = 0 then none else replyContext s.m pkt
  | .disconnected _ _ hdr => (disconnectRequest s.m hdr).bind fun x => x.2.2
  | _ => none

def hasContext (c : Option Nat) (p : Nat) : Bool :=
  c.isSome && (s.qp p).any fun q => q.muContext = c

def cepHasContext (c : Option Nat) (e : Nat) : Bool :=
  c.isSome && (s.cep e).any fun k => k.muContext = c

end VrnicDev

namespace CmRun

variable (s : CmRun)

/-- What the history says after an input. -/
def note (dev : VrnicDev) (i : CmInput) : CmRun :=
  let s' : CmRun :=
    { s with
      dev := dev
      qpEnded := fun p => s.qpEnded p || s.dev.hasContext (s.dev.ending i) p
      cepEnded := fun e => s.cepEnded e || s.dev.cepHasContext (s.dev.ending i) e }
  match i with
  | .connect .. =>
    match s.dev.connecting i with
    | some (p, res) =>
      match res.connContext with
      | some c =>
        { s' with
          uses := Function.update s.uses c (s.uses c + 1)
          qpUse := Function.update s.qpUse p (s.uses c + 1)
          qpEnded := Function.update s.qpEnded p (res.rc ≠ 0) }
      | none => s'
    | none => s'
  | .accept .. =>
    match s.dev.accepting i with
    | some (p, e, _, res) =>
      { s' with
        qpUse := Function.update s.qpUse p (s.cepUse e)
        qpEnded := Function.update s.qpEnded p (res.rc = -ENOTCONN) }
    | none => s'
  | .request env mem _ _ pkt =>
    match (connectRequest s.dev.m env.timeBase pkt).2 with
    | some c =>
      { s' with
        uses := Function.update s.uses c (s.uses c + 1)
        cepUse := fun e => if mem = some e then s.uses c + 1 else s.cepUse e
        cepEnded := fun e => if mem = some e then false else s.cepEnded e }
    | none => s'
  | _ =>
    match s.dev.tearing i with
    | some (p, c) =>
      { s' with
        qpEnded := Function.update s'.qpEnded p true
        disconnects := s.disconnects ++
          [⟨p, c, s.qpUse p, s.uses c, (s.dev.m.conn c).state⟩] }
    | none => s'

end CmRun

def cmStep (s : CmRun) (i : CmInput) : Option CmRun := (cmCall s.dev i).map fun dev => s.note dev i

/-- A device that nobody has used, over the context table `m`. -/
def newCmRun (m : MyContext) (listeners : List Listener) : CmRun :=
  { dev :=
      { m := m
        qp := fun _ => none
        idr := fun _ => none
        cep := fun _ => none
        ceps := []
        providerData := fun _ => none
        listeners := listeners }
    uses := fun _ => 0
    qpUse := fun _ => 0
    qpEnded := fun _ => false
    cepUse := fun _ => 0
    cepEnded := fun _ => false
    disconnects := [] }

/-- Every disconnect was for the use of the context that its queue pair had got it for, while that use
lasted, and no use was disconnected twice. -/
def DisconnectsFit (s : CmRun) : Prop :=
  (∀ t ∈ s.disconnects, t.use = t.held ∧ t.state ≠ .free) ∧
    (s.disconnects.map fun t => (t.context, t.held)).Nodup

/-- Whoever has a context. -/
inductive Holder
  | qp (p : Nat)
  | cep (e : Nat)
  deriving DecidableEq, Repr

/-- A request is still to be answered: its context is pending for it. -/
def CmRun.Open (s : CmRun) (e : Nat) : Prop :=
  s.cepEnded e = false ∧ ∃ k c, s.dev.cep e = some k ∧ k.vrnicQp = none ∧ k.muContext = some c ∧
    (s.dev.m.conn c).state = .pending

/-- No queue pair is torn down after its connection has ended, a request is answered once and while its
context waits for the answer, and a reply comes to a context that waits for it. -/
def TeardownsFit (s : CmRun) (i : CmInput) : Prop :=
  (∀ p c, s.dev.tearing i = some (p, c) → s.qpEnded p = false) ∧
    (∀ p e c res, s.dev.accepting i = some (p, e, c, res) → s.Open e) ∧
    (∀ e, s.dev.rejecting i = some e → s.Open e) ∧
    ∀ rc pkt, i = .reply rc pkt → RepliesFit s.dev.m (.reply pkt)

/-- A context that is part of a connection, or of one that is being made. -/
def InUse (m : MyContext) (c : Nat) : Prop :=
  c < m.maxConnections ∧ ((m.conn c).state = .pending ∨ (m.conn c).state = .active)

/-- What a holder has: queue pairs until their connection has ended, endpoints until they are
answered. -/
def CmRun.holds (s : CmRun) : Holder → Option (Nat × Nat)
  | .qp p =>
    if s.qpEnded p then none
    else (s.dev.qp p).bind fun q => q.muContext.map fun c => (c, s.qpUse p)
  | .cep e =>
    if s.cepEnded e then none
    else (s.dev.cep e).bind fun k =>
      if k.vrnicQp.isSome then none else k.muContext.map fun c => (c, s.cepUse e)

def CmRun.ledger (s : CmRun) : Ledger Nat Holder :=
  { uses := s.uses
    live := InUse s.dev.m
    holds := s.holds
    spent := s.disconnects.map fun t => (t.context, t.held) }

structure CmSound (s : CmRun) : Prop where
  lists : ConnInv s.dev.m
  leases : Sound s.ledger
  good : ∀ t ∈ s.disconnects, t.use = t.held ∧ t.state ≠ .free

variable {s s' : CmRun} {d d' d₁ d₂ : VrnicDev} {m m' : MyContext} {i : CmInput} {x : Holder}
  {p e c n cmId : Nat} {q q' : CmQp} {k : Cep} {env : CallEnv} {rc : Int}

theorem not_inUse_of_free (hs : (m.conn c).state = .free) : ¬ InUse m c := by
  rintro ⟨-, hp | ha⟩
  · rw [hs] at hp
    cases hp
  · rw [hs] at ha
    cases ha

theorem InUse.ne_free (h : InUse m c) : (m.conn c).state ≠ .free := fun hs => not_inUse_of_free hs h

theorem InUse.keeps (h : InUse m c) (hk : KeepsStates m m') : InUse m' c := by
  refine ⟨hk.maxConnections ▸ h.1, ?_⟩
  have hstate : (m'.conn c).state = (m.conn c).state := congrFun hk.stateOf c
  rw [hstate]
  exact h.2

theorem InUse.of_ne {t : ConnState} {b : Nat} (h : InUse m c) (hs : SetsState m m' b t) (hc : c ≠ b) :
    InUse m' c := by
  refine ⟨hs.maxConnections ▸ h.1, ?_⟩
  rw [hs.state_of_ne hc]
  exact h.2

theorem InUse.set {t : ConnState} {b : Nat} (h : InUse m c) (hs : SetsState m m' b t)
    (ht : t = .pending ∨ t = .active) : InUse m' c := by
  by_cases hc : c = b
  · subst hc
    refine ⟨hs.maxConnections ▸ h.1, ?_⟩
    rw [hs.state_self]
    exact ht
  · exact h.of_ne hs hc

theorem holds_qp :
    s.holds (.qp p) = some (c, n) ↔
      s.qpEnded p = false ∧ ∃ q, s.dev.qp p = some q ∧ q.muContext = some c ∧ s.qpUse p = n := by
  simp only [CmRun.holds]
  cases hp : s.qpEnded p with
  | true => simp
  | false =>
    simp only [Bool.false_eq_true, if_false, Option.bind_eq_some_iff, Option.map_eq_some_iff,
      Prod.mk.injEq, true_and]
    exact ⟨fun ⟨q, hq, a, ha, he, hn⟩ => ⟨q, hq, he ▸ ha, hn⟩,
      fun ⟨q, hq, hc, hn⟩ => ⟨q, hq, c, hc, rfl, hn⟩⟩

theorem holds_cep :
    s.holds (.cep e) = some (c, n) ↔
      s.cepEnded e = false ∧ ∃ k, s.dev.cep e = some k ∧ k.vrnicQp = none ∧ k.muContext = some c ∧
        s.cepUse e = n := by
  simp only [CmRun.holds]
  cases he : s.cepEnded e with
  | true => simp
  | false =>
    simp only [Bool.false_eq_true, if_false, Option.bind_eq_some_iff, true_and]
    constructor
    · rintro ⟨k, hk, hc⟩
      cases hv : k.vrnicQp with
      | none =>
        rw [hv] at hc
        obtain ⟨a, ha, he⟩ := Option.map_eq_some_iff.mp hc
        cases he
        exact ⟨k, hk, hv, ha, rfl⟩
      | some v =>
        rw [hv] at hc
        cases hc
    · rintro ⟨k, hk, hv, hc, rfl⟩
      refine ⟨k, hk, ?_⟩
      rw [hv, hc]
      rfl

theorem CmSound.inUse (h : CmSound s) (hx : s.holds x = some (c, n)) :
    InUse s.dev.m c ∧ s.uses c = n ∧ (c, n) ∉ s.disconnects.map fun t => (t.context, t.held) :=
  h.leases.current x c n hx

theorem CmSound.alone {y : Holder} {n' : Nat} (h : CmSound s) (hx : s.holds x = some (c, n))
    (hy : s.holds y = some (c, n')) : x = y :=
  h.leases.alone x y c n n' hx hy

theorem endRequest_cases {r : Int × VrnicDev} (h : endRequest d cmId rc = some r) :
    d.providerData cmId = none ∧ r.2 = d ∨
      ∃ e, d.providerData cmId = some e ∧ d.cep e ≠ none ∧
        r.2 = (d.dropCep e).setProvider cmId none := by
  unfold endRequest at h
  split at h
  next hnone =>
    cases Option.some.inj h
    exact Or.inl ⟨hnone, rfl⟩
  next e he =>
    obtain ⟨k, hk, h⟩ := Option.bind_eq_some_iff.mp h
    cases Option.some.inj h
    refine Or.inr ⟨e, he, ?_, rfl⟩
    rw [hk]
    exact Option.some_ne_none k

/-- Nobody has a context in `d'` who has not had it in `d`. -/
structure Quiet (d d' : VrnicDev) : Prop where
  qp : ∀ p q' c, d'.qp p = some q' → q'.muContext = some c →
    ∃ q, d.qp p = some q ∧ q.muContext = some c
  cep : ∀ e k, d'.cep e = some k → k.vrnicQp = none → d.cep e = some k

namespace Quiet

theorem refl (d : VrnicDev) : Quiet d d := ⟨fun _ q _ hq hc => ⟨q, hq, hc⟩, fun _ _ h _ => h⟩

theorem trans (h : Quiet d d₁) (h' : Quiet d₁ d₂) : Quiet d d₂ where
  qp p q' c hq hc := by
    obtain ⟨q, hq, hc⟩ := h'.qp p q' c hq hc
    exact h.qp p q c hq hc
  cep e k hk hv := h.cep e k (h'.cep e k hk hv) hv

theorem setQp (hq : d.qp p = some q) (hc : ∀ c, q'.muContext = some c → q.muContext = some c) :
    Quiet d (d.setQp p q') where
  qp r q₁ c hr hq₁ := by
    simp only [VrnicDev.setQp, Function.update_apply] at hr
    split at hr
    next he =>
      cases Option.some.inj hr
      exact ⟨q, he ▸ hq, hc c hq₁⟩
    next => exact ⟨q₁, hr, hq₁⟩
  cep _ _ h _ := h

theorem setProvider (cmId : Nat) (e : Option Nat) : Quiet d (d.setProvider cmId e) :=
  ⟨fun _ q _ hq hc => ⟨q, hq, hc⟩, fun _ _ h _ => h⟩

theorem dropCep (e : Nat) : Quiet d (d.dropCep e) where
  qp _ q _ hq hc := ⟨q, hq, hc⟩
  cep a k hk _ := by
    simp only [VrnicDev.dropCep, Function.update_apply] at hk
    split at hk
    · cases hk
    · exact hk

theorem setContext (m : MyContext) : Quiet d { d with m := m } :=
  ⟨fun _ q _ hq hc => ⟨q, hq, hc⟩, fun _ _ h _ => h⟩

theorem endRequest {r : Int × VrnicDev} (h : endRequest d cmId rc = some r) : Quiet d r.2 := by
  rcases endRequest_cases h with ⟨-, hd⟩ | ⟨e, -, -, hd⟩
  · rw [hd]
    exact refl d
  · rw [hd]
    exact (dropCep _).trans (setProvider _ _)

end Quiet

/-- A step after which nobody new has a context, and those who still have one have it in use. -/
theorem CmSound.quiet {qpEnded cepEnded : Nat → Bool} (h : CmSound s) (hlists : ConnInv d.m)
    (hquiet : Quiet s.dev d) (hqp : ∀ p, qpEnded p = false → s.qpEnded p = false)
    (hcep : ∀ e, cepEnded e = false → s.cepEnded e = false)
    (hlive : ∀ x c n, { s with dev := d, qpEnded := qpEnded, cepEnded := cepEnded }.holds x =
      some (c, n) → s.holds x = some (c, n) → InUse s.dev.m c → InUse d.m c) :
    CmSound { s with dev := d, qpEnded := qpEnded, cepEnded := cepEnded } where
  lists := hlists
  good := h.good
  leases := by
    refine h.leases.keep rfl rfl fun x c n hx => ?_
    have hold : s.holds x = some (c, n) := by
      cases x with
      | qp p =>
        obtain ⟨hp, q', hq', hc, hn⟩ := holds_qp.mp hx
        obtain ⟨q, hq, hc⟩ := hquiet.qp p q' c hq' hc
        exact holds_qp.mpr ⟨hqp p hp, q, hq, hc, hn⟩
      | cep e =>
        obtain ⟨he, k, hk, hv, hc, hn⟩ := holds_cep.mp hx
        exact holds_cep.mpr ⟨hcep e he, k, hquiet.cep e k hk hv, hv, hc, hn⟩
    exact ⟨hold, hlive x c n hx hold (h.inUse hold).1⟩

end BgqVrnic
