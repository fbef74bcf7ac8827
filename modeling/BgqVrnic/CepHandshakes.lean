import BgqVrnic.CepEffects
import BgqVrnic.Sessions

namespace BgqVrnic

open Runs

/-- Who asks for the connection of an endpoint: the queue pair at an address here, or another node. -/
inductive Origin
  | connect (p : Nat)
  | request
  deriving DecidableEq, Repr

/-- A reply that has reached `mu_connect_cb`: the request that it names, the endpoint of the handshake
that has issued this request, and the endpoint that is found, with the queue pair whose event handler is
called. -/
structure Delivery where
  request : Nat
  wanted : Option Nat
  found : Option (Nat × Option Nat)
  deriving DecidableEq, Repr

/-- A device with the handshakes that are on, by their endpoints, and the replies that have come. A
`BUG_ON` in `mu_connect_cb` stops it. -/
structure CepRun where
  dev : VrnicDev
  handshakes : Sessions.Table Nat Origin
  deliveries : List Delivery
  stopped : Bool

namespace VrnicDev

variable (s : VrnicDev)

/-- The handshake that an input begins. If the event handler does not take a request, none begins. -/
def beginning : CmInput → Option (Nat × Origin)
  | .connect env mem cmId addr destNode param => do
    let (e, k) ← s.opening (.connect env mem cmId addr destNode param)
    let p ← k.vrnicQp
    some (e, .connect p)
  | .request env mem cmId eventRc pkt => do
    let (e, _) ← s.opening (.request env mem cmId eventRc pkt)
    if eventRc = 0 then some (e, .request) else none
  | _ => none

/-- The request that a reply names, if the reply gets to `mu_connect_cb`. -/
def reaching : CmInput → Option Nat
  | .reply _ pkt => do
    let c ← replyContext s.m pkt
    let _ ← replyArrived s.m pkt c
    some pkt.body.sourceRequestId
  | _ => none

def carries (requestId e : Nat) : Bool := (s.cep e).any fun k => k.remoteRequestId = requestId

/-- A reply finds an endpoint without a queue pair, or a queue pair without a `cm_id`. -/
def meetsBug (i : CmInput) : Bool :=
  (s.reaching i).any fun r => (s.findCep r).any fun e => (s.handler e).isNone

end VrnicDev

namespace CepRun

variable (s : CepRun)

def delivery (requestId : Nat) : Delivery :=
  { request := requestId
    wanted := Sessions.first (.connect requestId) s.handshakes
    found := (s.dev.findCep requestId).map fun e => (e, s.dev.handler e) }

/-- The deliveries once an input has come. -/
def heard (i : CmInput) : List Delivery := s.deliveries ++ ((s.dev.reaching i).map s.delivery).toList

/-- The handshakes without the one that an input is for. -/
def others (i : CmInput) : Sessions.Table Nat Origin :=
  match s.dev.closing i with
  | some e => Sessions.close e s.handshakes
  | none => s.handshakes

/-- The handshakes that an input leaves: it ends the one that it is for, and those of a queue pair that
loses its `cm_id`, and it may begin another. -/
def remaining (i : CmInput) : Sessions.Table Nat Origin :=
  let t :=
    match s.dev.cancelling i with
    | some p => Sessions.leave (.connect p) (s.others i)
    | none => s.others i
  t ++ (s.dev.beginning i).toList

end CepRun

def cepStep (s : CepRun) (i : CmInput) : Option CepRun :=
  if s.stopped then none
  else
    match cmCall s.dev i with
    | some dev =>
      some { s with
        dev := dev
        handshakes := s.remaining i
        deliveries := s.heard i }
    | none =>
      if s.dev.meetsBug i then some { s with deliveries := s.heard i, stopped := true } else none

/-- A device that nobody has used, over the context table `m`. -/
def newCepRun (m : MyContext) (listeners : List Listener) : CepRun :=
  { dev := (newCmRun m listeners).dev
    handshakes := []
    deliveries := []
    stopped := false }

/-- A reply is for the queue pair whose own call of `bgvrnic_connect` has issued the request, if that
handshake is still on, and for nobody else. -/
def Delivery.Right (t : Delivery) : Prop := t.found = t.wanted.map fun e => (e, some t.request)

instance (t : Delivery) : Decidable t.Right := inferInstanceAs (Decidable (_ = _))

/-- The endpoints on the list are those of the handshakes that are on, each once; replies are delivered
right; and no `cm_id` has an endpoint that has been removed. -/
structure HandshakesFit (s : CepRun) : Prop where
  listed : s.dev.ceps = Sessions.ids s.handshakes
  once : s.dev.ceps.Nodup
  delivered : ∀ t ∈ s.deliveries, t.Right
  held : ∀ cmId e, s.dev.providerData cmId = some e → e ∈ s.dev.ceps

/-- No call of `bgvrnic_accept` goes through and no event handler refuses a request; no queue pair loses
its `cm_id` while its own handshake is on; no endpoint of a request that carries the number of a reply
stands ahead of the one that the reply is for; and an endpoint goes through the `cm_id` that has it. -/
structure Undisturbed (s : CepRun) (i : CmInput) : Prop where
  established : s.dev.establishing i = false
  taken : ∀ env mem cmId eventRc pkt, i = .request env mem cmId eventRc pkt →
    s.dev.opening i ≠ none → eventRc = 0
  cancelled : ∀ p, s.dev.cancelling i = some p → ∀ x ∈ s.handshakes, x.2 ≠ .connect p
  unmasked : ∀ r, s.dev.reaching i = some r →
    Sessions.Unmasked (s.dev.carries r) (.connect r) s.handshakes
  cleared : ∀ e cmId, s.dev.closing i = some e → s.dev.providerData cmId = some e →
    s.dev.clearing i = some cmId

/-- The endpoint of a handshake of `bgvrnic_connect`. -/
def Connecting (d : VrnicDev) (e p : Nat) : Prop :=
  ∃ k, d.cep e = some k ∧ k.vrnicQp = some p ∧ k.muContext = none ∧ k.remoteRequestId = p ∧
    ∃ q, d.qp p = some q ∧ q.cmId.isSome

structure CepSound (s : CepRun) : Prop where
  fit : HandshakesFit s
  live : ∀ e, e ∈ s.dev.ceps ↔ s.dev.cep e ≠ none
  connecting : ∀ e p, (e, Origin.connect p) ∈ s.handshakes → Connecting s.dev e p
  alone : ∀ cmId cmId' e, s.dev.providerData cmId = some e → s.dev.providerData cmId' = some e →
    cmId = cmId'

variable {s s' : CepRun} {d d' : VrnicDev} {i : CmInput} {e p r : Nat} {k : Cep}

/-- A handshake begins with its endpoint, unless the event handler refuses a request. -/
theorem beginning_cases (h : d.opening i = some (e, k)) :
    (∃ env mem cmId eventRc pkt, i = .request env mem cmId eventRc pkt ∧ eventRc ≠ 0) ∧
        d.beginning i = none ∨
      ∃ o, d.beginning i = some (e, o) ∧ ∀ p, o = .connect p →
        k.vrnicQp = some p ∧ k.muContext = none ∧ k.remoteRequestId = p := by
  cases i with
  | connect env mem cmId addr destNode param =>
    have hbegin : d.beginning (.connect env mem cmId addr destNode param) =
        k.vrnicQp.bind fun p => some (e, .connect p) := by
      simp only [VrnicDev.beginning, h, bind, Option.bind]
    obtain ⟨e', -, h⟩ := Option.bind_eq_some_iff.mp h
    obtain ⟨⟨p, res⟩, -, h⟩ := Option.bind_eq_some_iff.mp h
    dsimp only at h
    split at h
    · cases Option.some.inj h
      refine Or.inr ⟨_, hbegin, fun p' hp' => ?_⟩
      cases hp'
      exact ⟨rfl, rfl, rfl⟩
    · cases h
  | request env mem cmId eventRc pkt =>
    simp only [VrnicDev.beginning, h, bind, Option.bind]
    split
    · exact Or.inr ⟨_, rfl, nofun⟩
    next hrc => exact Or.inl ⟨⟨env, mem, cmId, eventRc, pkt, rfl, hrc⟩, rfl⟩
  | _ => cases h

theorem beginning_none (h : d.opening i = none) : d.beginning i = none := by
  cases i with
  | connect => simp only [VrnicDev.beginning, h, bind, Option.bind]
  | request => simp only [VrnicDev.beginning, h, bind, Option.bind]
  | _ => rfl

/-- A call that is for an endpoint and takes the `cm_id` from a queue pair answers a request. -/
theorem answers_of_cancelling (hclose : d.closing i = some e) (hcancel : d.cancelling i = some p) :
    ∃ k c, d.cep e = some k ∧ k.muContext = some c := by
  cases i with
  | accept env cmId addr param eventRc =>
    obtain ⟨⟨p', e', c, res⟩, hx, -⟩ := Option.bind_eq_some_iff.mp hcancel
    obtain ⟨-, he, k, hk, hc, -⟩ := accepting_some hx
    cases Option.some.inj (he.symm.trans hclose)
    exact ⟨k, c, hk, hc⟩
  | reject => cases hcancel
  | reply => cases hcancel
  | _ => cases hclose

theorem others_of_none (h : s.dev.closing i = none) : s.others i = s.handshakes := by
  unfold CepRun.others
  rw [h]

theorem others_of_some (h : s.dev.closing i = some e) :
    s.others i = Sessions.close e s.handshakes := by
  unfold CepRun.others
  rw [h]

/-- Where no queue pair loses its `cm_id` while its handshake is on, nobody else ends a handshake. -/
theorem remaining_eq (hcancel : ∀ p, s.dev.cancelling i = some p → ∀ x ∈ s.others i, x.2 ≠ .connect p) :
    s.remaining i = s.others i ++ (s.dev.beginning i).toList := by
  unfold CepRun.remaining
  cases hp : s.dev.cancelling i with
  | none => rfl
  | some p =>
    dsimp only
    rw [Sessions.leave_eq_self (hcancel p hp)]

theorem length_remaining_le (s : CepRun) (i : CmInput) :
    (s.remaining i).length ≤ (s.others i).length + (s.dev.beginning i).toList.length := by
  unfold CepRun.remaining
  rw [List.length_append]
  cases s.dev.cancelling i with
  | none => exact Nat.le_refl _
  | some p =>
    have hle := Sessions.leave_length_le (.connect p) (s.others i)
    dsimp only
    omega

/-- No handshake is missing, so the queue pair that loses its `cm_id` had none. -/
theorem cancelled_of_length
    (h : (s.others i).length + (s.dev.beginning i).toList.length ≤ (s.remaining i).length) :
    ∀ p, s.dev.cancelling i = some p → ∀ x ∈ s.others i, x.2 ≠ .connect p := by
  intro p hp
  rw [← Sessions.leave_length_eq_iff]
  unfold CepRun.remaining at h
  rw [hp, List.length_append] at h
  have hle := Sessions.leave_length_le (.connect p) (s.others i)
  dsimp only at h
  omega

theorem others_subset {x : Nat × Origin} (h : x ∈ s.others i) : x ∈ s.handshakes := by
  unfold CepRun.others at h
  split at h
  · exact (Sessions.mem_close.mp h).1
  · exact h

theorem findCep_eq (d : VrnicDev) (r : Nat) : d.findCep r = d.ceps.find? (d.carries r) := rfl

theorem Connecting.carries (h : Connecting d e p) : d.carries p e = true := by
  obtain ⟨k, hk, -, -, hr, -⟩ := h
  unfold VrnicDev.carries
  rw [hk, Option.any_some, hr]
  exact decide_eq_true rfl

theorem Connecting.handler (h : Connecting d e p) : d.handler e = some p := by
  obtain ⟨k, hk, hp, -, -, q, hq, hcm⟩ := h
  simp only [VrnicDev.handler, hk, hp, hq, hcm, bind, Option.bind, if_true]

/-- A reply goes to the right queue pair exactly if no endpoint of a request stands in its way. -/
theorem CepSound.right_iff (h : CepSound s) (r : Nat) :
    (s.delivery r).Right ↔ Sessions.Unmasked (s.dev.carries r) (.connect r) s.handshakes := by
  have hn : (Sessions.ids s.handshakes).Nodup := h.fit.listed ▸ h.fit.once
  have hq : ∀ x ∈ s.handshakes, x.2 = .connect r → s.dev.carries r x.1 = true := by
    rintro ⟨e, o⟩ hx rfl
    exact (h.connecting e r hx).carries
  rw [← Sessions.find_ids_eq_first_iff hn hq, ← h.fit.listed, ← findCep_eq]
  constructor
  · intro hright
    have hfst := congrArg (Option.map Prod.fst) hright
    unfold CepRun.delivery at hfst
    simpa only [Option.map_map, Function.comp_def, Option.map_id'] using hfst
  · intro hfind
    unfold Delivery.Right CepRun.delivery
    rw [hfind]
    cases hfirst : Sessions.first (.connect r) s.handshakes with
    | none => rfl
    | some e =>
      have hc := h.connecting e r (Sessions.first_mem hfirst)
      simp only [Option.map_some, hc.handler]

theorem mem_heard {t : Delivery} :
    t ∈ s.heard i ↔ t ∈ s.deliveries ∨ ∃ r, s.dev.reaching i = some r ∧ t = s.delivery r := by
  unfold CepRun.heard
  rw [List.mem_append]
  cases s.dev.reaching i with
  | none => simp
  | some r => simp

/-- The deliveries stay right exactly if the reply that comes finds nothing in its way. -/
theorem CepSound.heard_iff (h : CepSound s) :
    (∀ t ∈ s.heard i, t.Right) ↔ ∀ r, s.dev.reaching i = some r →
      Sessions.Unmasked (s.dev.carries r) (.connect r) s.handshakes := by
  constructor
  · exact fun hall r hr => (h.right_iff r).mp (hall _ (mem_heard.mpr (Or.inr ⟨r, hr, rfl⟩)))
  · intro hok t ht
    rcases mem_heard.mp ht with ht | ⟨r, hr, rfl⟩
    · exact h.fit.delivered t ht
    · exact (h.right_iff r).mpr (hok r hr)

/-- A queue pair keeps its `cm_id` while its handshake is on. -/
theorem QpChange.connecting {lost : Option Nat} (hqp : QpChange d d' lost)
    (hcep : d'.cep e = d.cep e) (hlost : lost ≠ some p) (h : Connecting d e p) : Connecting d' e p := by
  obtain ⟨k, hk, hv, hctx, hr, q, hq, hcm⟩ := h
  refine ⟨k, hcep.trans hk, hv, hctx, hr, ?_⟩
  cases hqp with
  | kept hqp _ =>
    rw [hqp]
    exact ⟨q, hq, hcm⟩
  | @written p' q₀ q' hq₀ hqp _ _ hkeep =>
    rw [hqp]
    by_cases hp : p = p'
    · subst hp
      cases Option.some.inj (hq.symm.trans hq₀)
      exact ⟨q', Function.update_self _ _ _, hkeep hlost hcm⟩
    · exact ⟨q, by rw [Function.update_of_ne hp, hq], hcm⟩
  | @created p' _ q' hp' hqp _ _ =>
    have hp : p ≠ p' := by
      rintro rfl
      rw [hp'] at hq
      cases hq
    rw [hqp]
    exact ⟨q, by rw [Function.update_of_ne hp, hq], hcm⟩
  | @destroyed p' _ _ hqp _ hlost' =>
    have hp : p ≠ p' := by
      rintro rfl
      exact hlost hlost'
    rw [hqp]
    exact ⟨q, by rw [Function.update_of_ne hp, hq], hcm⟩

/-- A reply that meets a `BUG_ON` is not delivered right. -/
theorem not_right_of_bug (h : s.dev.meetsBug i = true) : ∃ t ∈ s.heard i, ¬ t.Right := by
  obtain ⟨r, hr, h⟩ := (Option.any_eq_true _ _).mp h
  obtain ⟨e, he, hnone⟩ := (Option.any_eq_true _ _).mp h
  refine ⟨s.delivery r, mem_heard.mpr (Or.inr ⟨r, hr, rfl⟩), fun hright => ?_⟩
  unfold Delivery.Right CepRun.delivery at hright
  dsimp only at hright
  rw [he, Option.map_some, Option.isNone_iff_eq_none.mp hnone] at hright
  cases hfirst : Sessions.first (.connect r) s.handshakes with
  | none =>
    rw [hfirst] at hright
    cases hright
  | some e' =>
    rw [hfirst] at hright
    cases hright

theorem CepSound.kept {l : List Delivery} (h : CepSound s) (hl : ∀ t ∈ l, t.Right)
    (hcep : d.cep = s.dev.cep) (hceps : d.ceps = s.dev.ceps)
    (hcm : ∀ cmId e, d.providerData cmId = some e → s.dev.providerData cmId = some e)
    (hconn : ∀ e p, (e, Origin.connect p) ∈ s.handshakes → Connecting d e p) :
    CepSound { s with dev := d, deliveries := l } := by
  refine ⟨⟨hceps.trans h.fit.listed, ?_, hl, fun cmId e he => ?_⟩, fun e => ?_, hconn,
    fun cmId cmId' e he he' => ?_⟩
  · rw [hceps]
    exact h.fit.once
  · rw [hceps]
    exact h.fit.held cmId e (hcm cmId e he)
  · rw [hceps, hcep]
    exact h.live e
  · exact h.alone cmId cmId' e (hcm cmId e he) (hcm cmId' e he')

/-- An endpoint in fresh memory gets its place at the end of the list, and its `cm_id`. -/
theorem CepSound.made {l : List Delivery} {cmId : Nat} {o : Origin} (h : CepSound s)
    (hl : ∀ t ∈ l, t.Right) (hfresh : s.dev.cep e = none)
    (hcep : d.cep = Function.update s.dev.cep e (some k)) (hceps : d.ceps = s.dev.ceps ++ [e])
    (hcm : d.providerData = Function.update s.dev.providerData cmId (some e))
    (hold : ∀ a p, a ≠ e → (a, Origin.connect p) ∈ s.handshakes → Connecting d a p)
    (hnew : ∀ p, o = .connect p → Connecting d e p) :
    CepSound { s with dev := d, handshakes := s.handshakes ++ [(e, o)], deliveries := l } := by
  have hnot : e ∉ s.dev.ceps := fun hmem => (h.live e).mp hmem hfresh
  have hne : ∀ a ∈ s.dev.ceps, a ≠ e := fun a ha he => hnot (he ▸ ha)
  have hheld : ∀ cm a, d.providerData cm = some a →
      cm = cmId ∧ a = e ∨ s.dev.providerData cm = some a := by
    intro cm a ha
    rw [hcm, Function.update_apply] at ha
    split at ha
    next heq =>
      cases Option.some.inj ha
      exact Or.inl ⟨heq, rfl⟩
    next => exact Or.inr ha
  refine ⟨⟨?_, ?_, hl, fun cm a ha => ?_⟩, fun a => ?_, fun a p hx => ?_, fun cm cm' a ha ha' => ?_⟩
  · rw [hceps, h.fit.listed, Sessions.ids_append]
    rfl
  · rw [hceps]
    apply List.nodup_append.mpr
    refine ⟨h.fit.once, List.nodup_singleton e, fun a ha b hb => ?_⟩
    rw [List.mem_singleton.mp hb]
    exact hne a ha
  · rw [hceps]
    rcases hheld cm a ha with ⟨-, rfl⟩ | hold
    · exact List.mem_append_right _ List.mem_cons_self
    · exact List.mem_append_left _ (h.fit.held cm a hold)
  · rw [hceps, hcep, List.mem_append, List.mem_singleton]
    by_cases hae : a = e
    · subst hae
      rw [Function.update_self]
      exact ⟨fun _ => Option.some_ne_none k, fun _ => Or.inr rfl⟩
    · rw [Function.update_of_ne hae, ← h.live a]
      exact ⟨fun hmem => hmem.resolve_right hae, Or.inl⟩
  · rcases List.mem_append.mp hx with hx | hx
    · apply hold a p _ hx
      apply hne
      rw [h.fit.listed]
      exact Sessions.mem_ids hx
    · cases List.mem_singleton.mp hx
      exact hnew p rfl
  · rcases hheld cm a ha with ⟨rfl, rfl⟩ | hcma
    · rcases hheld cm' a ha' with ⟨rfl, -⟩ | hcma'
      · rfl
      · exact absurd (h.fit.held cm' a hcma') hnot
    · rcases hheld cm' a ha' with ⟨-, rfl⟩ | hcma'
      · exact absurd (h.fit.held cm a hcma) hnot
      · exact h.alone cm cm' a hcma hcma'

/-- An endpoint goes, through the `cm_id` that has it if one does. -/
theorem CepSound.dropped {l : List Delivery} {cmId : Nat} (h : CepSound s) (hl : ∀ t ∈ l, t.Right)
    (hcep : d.cep = Function.update s.dev.cep e none) (hceps : d.ceps = s.dev.ceps.erase e)
    (hcm : d.providerData = Function.update s.dev.providerData cmId none)
    (hown : ∀ cm, s.dev.providerData cm = some e → cm = cmId)
    (hconn : ∀ a p, a ≠ e → (a, Origin.connect p) ∈ s.handshakes → Connecting d a p) :
    CepSound { s with dev := d, handshakes := Sessions.close e s.handshakes, deliveries := l } := by
  have hn : (Sessions.ids s.handshakes).Nodup := h.fit.listed ▸ h.fit.once
  have hheld : ∀ cm a, d.providerData cm = some a → cm ≠ cmId ∧ s.dev.providerData cm = some a := by
    intro cm a ha
    rw [hcm, Function.update_apply] at ha
    split at ha
    · cases ha
    next hne => exact ⟨hne, ha⟩
  refine ⟨⟨?_, ?_, hl, fun cm a ha => ?_⟩, fun a => ?_, fun a p hx => ?_, fun cm cm' a ha ha' => ?_⟩
  · rw [hceps, h.fit.listed, Sessions.ids_close hn]
  · rw [hceps]
    exact h.fit.once.erase e
  · obtain ⟨hne, hold⟩ := hheld cm a ha
    rw [hceps, h.fit.once.mem_erase_iff]
    refine ⟨?_, h.fit.held cm a hold⟩
    rintro rfl
    exact hne (hown cm hold)
  · rw [hceps, hcep, h.fit.once.mem_erase_iff]
    by_cases hae : a = e
    · subst hae
      rw [Function.update_self]
      exact ⟨fun hmem => absurd rfl hmem.1, fun hnone => absurd rfl hnone⟩
    · rw [Function.update_of_ne hae, ← h.live a]
      exact ⟨And.right, fun hmem => ⟨hae, hmem⟩⟩
  · obtain ⟨hx, hae⟩ := Sessions.mem_close.mp hx
    exact hconn a p hae hx
  · exact h.alone cm cm' a (hheld cm a ha).2 (hheld cm' a ha').2

theorem CepSound.called (h : CepSound s) (hok : Undisturbed s i) (hd : cmCall s.dev i = some d) :
    CepSound { s with dev := d, handshakes := s.remaining i, deliveries := s.heard i } := by
  obtain ⟨hcep, hqp⟩ := cmCall_changes hd
  have hheard := h.heard_iff.mpr hok.unmasked
  have hkeep : ∀ e p, d.cep e = s.dev.cep e → (e, Origin.connect p) ∈ s.handshakes →
      Connecting d e p := by
    intro e p he hx
    exact hqp.connecting he (fun hp => hok.cancelled p hp _ hx rfl) (h.connecting e p hx)
  rw [remaining_eq fun p hp x hx => hok.cancelled p hp x (others_subset hx)]
  cases hcep with
  | kept hopen hclose _ hcep hceps hcm =>
    rw [others_of_none hclose, beginning_none hopen]
    dsimp only [Option.toList]
    rw [List.append_nil]
    exact h.kept hheard hcep hceps hcm fun e p => hkeep e p (congrFun hcep e)
  | @made e cmId k hopen hclose _ hfresh hcep hceps hcm hown =>
    have hupdate : ∀ a, a ≠ e → d.cep a = s.dev.cep a := by
      intro a ha
      rw [hcep, Function.update_of_ne ha]
    rcases beginning_cases hopen with ⟨⟨env, mem, cm, rc, pkt, rfl, hrc⟩, -⟩ | ⟨o, ho, hkind⟩
    · have hopen' : s.dev.opening (.request env mem cm rc pkt) ≠ none := by
        rw [hopen]
        exact Option.some_ne_none _
      exact absurd (hok.taken env mem cm rc pkt rfl hopen') hrc
    · rw [others_of_none hclose, ho]
      refine h.made hheard hfresh hcep hceps hcm (fun a p ha => hkeep a p (hupdate a ha)) fun p hp => ?_
      obtain ⟨hv, hctx, hr⟩ := hkind p hp
      refine ⟨k, ?_, hv, hctx, hr, hown p hv⟩
      rw [hcep, Function.update_self]
  | @dropped e cmId hopen hclose _ hcep hceps hclear hcm =>
    have hupdate : ∀ a, a ≠ e → d.cep a = s.dev.cep a := by
      intro a ha
      rw [hcep, Function.update_of_ne ha]
    rw [others_of_some hclose, beginning_none hopen]
    dsimp only [Option.toList]
    rw [List.append_nil]
    refine h.dropped hheard hcep hceps hcm (fun cm hcma => ?_) fun a p ha => hkeep a p (hupdate a ha)
    exact Option.some.inj ((hok.cleared e cm hclose hcma).symm.trans hclear)
  | marked _ _ hest =>
    rw [hok.established] at hest
    cases hest

theorem beginning_length_le (d : VrnicDev) (i : CmInput) :
    (d.beginning i).toList.length ≤ (d.opening i).toList.length := by
  cases hopen : d.opening i with
  | none =>
    rw [beginning_none hopen]
    exact Nat.le_refl _
  | some x =>
    rcases beginning_cases hopen with ⟨-, hnone⟩ | ⟨o, ho, -⟩
    · rw [hnone]
      exact Nat.zero_le _
    · rw [ho]
      exact Nat.le_refl _

/-- The endpoints that an input leaves: those of the other handshakes, the one that it makes, and the one
of a call of `bgvrnic_accept` that goes through. -/
theorem CepSound.length_ceps (h : CepSound s) (hchange : CepChange s.dev d i) :
    d.ceps.length = (s.others i).length + (s.dev.opening i).toList.length +
      (s.dev.establishing i).toNat := by
  have hn : (Sessions.ids s.handshakes).Nodup := h.fit.listed ▸ h.fit.once
  have hbefore : s.dev.ceps.length = s.handshakes.length := by
    rw [h.fit.listed]
    exact List.length_map _
  have hclosed : ∀ e, s.dev.closing i = some e →
      (s.others i).length = (s.dev.ceps.erase e).length := by
    intro e he
    rw [others_of_some he, h.fit.listed, ← Sessions.ids_close hn]
    exact (List.length_map _).symm
  cases hchange with
  | kept hopen hclose hest _ hceps _ =>
    rw [others_of_none hclose, hopen, hest, hceps, hbefore]
    rfl
  | made hopen hclose hest _ _ hceps _ _ =>
    rw [others_of_none hclose, hopen, hest, hceps, List.length_append, hbefore]
    rfl
  | dropped hopen hclose hest _ hceps _ _ =>
    rw [hclosed _ hclose, hopen, hest, hceps]
    rfl
  | @marked e p k hopen hclose hest hk _ hceps _ =>
    -- the endpoint is still there, but its handshake is over
    have hmem : e ∈ s.dev.ceps := by
      apply (h.live e).mpr
      rw [hk]
      exact Option.some_ne_none k
    have hpos := List.length_pos_of_mem hmem
    rw [hclosed e hclose, List.length_erase_of_mem hmem, hopen, hest, hceps, Option.toList_none,
      List.length_nil, Bool.toNat_true]
    omega

/-- A step that leaves a fit state has disturbed nothing: the endpoints that it leaves are too many for
the handshakes otherwise. -/
theorem CepSound.undisturbed (h : CepSound s) (hd : cmCall s.dev i = some d)
    (hfit : HandshakesFit
      { s with dev := d, handshakes := s.remaining i, deliveries := s.heard i }) :
    Undisturbed s i := by
  have hchange := (cmCall_changes hd).1
  have hlength := h.length_ceps hchange
  have hafter : d.ceps.length = (s.remaining i).length := by
    rw [hfit.listed]
    exact List.length_map _
  have hle := length_remaining_le s i
  have hbegin := beginning_length_le s.dev i
  have hest : s.dev.establishing i = false := by
    cases hest : s.dev.establishing i with
    | false => rfl
    | true =>
      rw [hest, Bool.toNat_true] at hlength
      omega
  rw [hest, Bool.toNat_false] at hlength
  have hcancel := @cancelled_of_length s i (by omega)
  refine ⟨hest, fun env mem cm rc pkt hi hopen => ?_, fun p hp x hx hconn => ?_,
    h.heard_iff.mp hfit.delivered, fun e cm he hcm => ?_⟩
  · obtain ⟨x, hx⟩ := Option.ne_none_iff_exists'.mp hopen
    rw [hx, Option.toList_some, List.length_singleton] at hlength
    rcases beginning_cases hx with ⟨-, hnone⟩ | ⟨o, ho, -⟩
    · rw [hnone, Option.toList_none, List.length_nil] at hle
      omega
    · subst hi
      obtain ⟨y, -, ho⟩ := Option.bind_eq_some_iff.mp ho
      dsimp only at ho
      split at ho
      next hrc => exact hrc
      next => cases ho
  · by_cases hother : x ∈ s.others i
    · exact hcancel p hp x hother hconn
    · cases hclose : s.dev.closing i with
      | none =>
        rw [others_of_none hclose] at hother
        exact hother hx
      | some e =>
        -- what is answered here is a request
        rw [others_of_some hclose, Sessions.mem_close, not_and, not_not] at hother
        have hmem : (e, Origin.connect p) ∈ s.handshakes := by
          rwa [← hother hx, ← hconn]
        obtain ⟨k, c, hk, hc⟩ := answers_of_cancelling hclose hp
        obtain ⟨k', hk', -, hnone, -⟩ := h.connecting e p hmem
        cases Option.some.inj (hk.symm.trans hk')
        rw [hc] at hnone
        cases hnone
  · cases hchange with
    | kept _ hclose | made _ hclose =>
      rw [hclose] at he
      cases he
    | marked _ _ hyes =>
      rw [hest] at hyes
      cases hyes
    | @dropped e' cmId _ hclose _ _ hceps hclear hprovider =>
      cases Option.some.inj (hclose.symm.trans he)
      by_contra hne
      have hcmne : cm ≠ cmId := by
        rintro rfl
        exact hne hclear
      have hstill : d.providerData cm = some e := by
        rw [hprovider, Function.update_of_ne hcmne]
        exact hcm
      have hmem := hfit.held cm e hstill
      dsimp only at hmem
      rw [hceps, h.fit.once.mem_erase_iff] at hmem
      exact hmem.1 rfl

theorem CepSound.step (h : CepSound s) (hok : Undisturbed s i) (hs : cepStep s i = some s') :
    CepSound s' := by
  unfold cepStep at hs
  split at hs
  · cases hs
  · split at hs
    next d hd =>
      cases Option.some.inj hs
      exact h.called hok hd
    next =>
      split at hs
      next hbug =>
        obtain ⟨t, ht, hwrong⟩ := not_right_of_bug hbug
        exact absurd (h.heard_iff.mpr hok.unmasked t ht) hwrong
      next => cases hs

theorem CepSound.meets (h : CepSound s) (hs : cepStep s i = some s') (hfit : HandshakesFit s') :
    Undisturbed s i := by
  unfold cepStep at hs
  split at hs
  · cases hs
  · split at hs
    next d hd =>
      cases Option.some.inj hs
      exact h.undisturbed hd hfit
    next =>
      split at hs
      next hbug =>
        cases Option.some.inj hs
        obtain ⟨t, ht, hwrong⟩ := not_right_of_bug hbug
        exact absurd (hfit.delivered t ht) hwrong
      next => cases hs

theorem cepSound_new (m : MyContext) (listeners : List Listener) : CepSound (newCepRun m listeners) where
  fit := ⟨rfl, List.nodup_nil, nofun, nofun⟩
  live := fun _ => ⟨nofun, fun h => absurd rfl h⟩
  connecting := nofun
  alone := nofun

/-- The endpoints on the list are those of the handshakes that are on, and every reply goes to the queue
pair that has issued its request, exactly as long as nothing disturbs the handshakes. -/
theorem handshakes_fit_iff (m : MyContext) (listeners : List Listener) (is : List CmInput) :
    Always cepStep HandshakesFit (newCepRun m listeners) is ↔
      Meets cepStep Undisturbed (newCepRun m listeners) is :=
  always_iff_meets (fun _ h => h.fit) (fun _ _ _ h hok hs => h.step hok hs)
    (fun _ _ _ h hs hfit => h.meets hs hfit) (cepSound_new m listeners)

/-- A request of node 5 whose number is the address of a queue pair here. -/
def requestOfFive : ConnPacket :=
  { someReply with body := { (default : ConnectBody) with destPort := 10, sourceRequestId := 10 } }

/-- The queue pair 11 accepts the request, then the queue pair 10 connects and gets its reply. -/
def acceptThenConnect : List CmInput :=
  [.createQp 10 17, .createQp 11 18, .request (upEnv 100) (some 50) 1 0 requestOfFive,
    .accept (upEnv 110) 1 portTwenty ⟨18, []⟩ 0,
    .connect (upEnv 120) (some 51) 2 portTwenty 5 ⟨17, []⟩,
    .reply 0 { replyOfFive with payload := { replyOfFive.payload with destConnIndex := 1 } }]

/-- The endpoint of the accepted request has stayed on the list, and the reply is taken for it. -/
theorem accepted_endpoint_takes_reply :
    ¬ Always cepStep HandshakesFit (newCepRun fourContexts [⟨0, 10⟩]) acceptThenConnect := by
  intro h
  have hmap : (run cepStep (newCepRun fourContexts [⟨0, 10⟩]) acceptThenConnect).map
      CepRun.deliveries = some [⟨10, some 51, some (50, some 11)⟩] := by decide +kernel
  obtain ⟨s, hs, hdeliveries⟩ := Option.map_eq_some_iff.mp hmap
  have hright := (h.last hs).delivered ⟨10, some 51, some (50, some 11)⟩
  rw [hdeliveries] at hright
  exact absurd (hright List.mem_cons_self) (by decide)

end BgqVrnic
