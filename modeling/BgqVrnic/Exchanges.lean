import Mathlib.Data.List.Perm.Basic
import BgqVrnic.ConnSteps

namespace BgqVrnic

open Runs Intrusive

/-- The context of a node that is meant, and for the how manieth time it has been taken from the free
list. -/
structure Use where
  spot : Side × Nat
  turn : Nat
  deriving DecidableEq, Repr

/-- A request or a reply on its way to a node, with the use of a context that asks for the connection
and the one that answers. -/
structure Letter where
  dest : Side
  pkt : ConnPacket
  asker : Option Use
  answerer : Option Use
  deriving DecidableEq, Repr

/-- A context has become active by a reply, in its current use, from the state that it was in. -/
structure Activation where
  use : Use
  state : ConnState
  letter : Letter
  deriving DecidableEq, Repr

/-- Two nodes and what is on its way between them; `turn` counts how often a context has been taken from
the free list, and `asker` says for whose request it has been taken last, if for any. -/
structure Exchange where
  node : Side → MyContext
  turn : Side × Nat → Nat
  asker : Side × Nat → Option Use
  letters : List Letter
  partings : List (Side × IonetHeader)
  activated : Option Activation

/-- A call on a node, or the arrival of a letter or of a packet that disconnects, in any order. -/
inductive ExchangeInput
  | connect (side : Side) (env : CallEnv) (destNode : Nat) (req : IonetConnect)
  | connReply (side : Side) (env : CallEnv) (c : Nat) (reply : IonetConnect)
  | disconnect (side : Side) (env : CallEnv) (c : Nat)
  | letter (n : Nat) (timeBase : Nat)
  | parting (n : Nat)

namespace Exchange

variable (s : Exchange)

def conn (p : Side × Nat) : Connection := (s.node p.1).conn p.2

/-- The use that a context is in, or has last been in. -/
def current (p : Side × Nat) : Use := ⟨p, s.turn p⟩

/-- A node after a step. -/
def set (side : Side) (m : MyContext) : Exchange :=
  { s with node := Function.update s.node side m, activated := none }

/-- A context has been taken from the free list, for a request or for none. -/
def take (p : Side × Nat) (u : Option Use) : Exchange :=
  { s with
    turn := Function.update s.turn p (s.turn p + 1)
    asker := Function.update s.asker p u }

/-- A letter is posted, if there is one. -/
def post (l : Option Letter) : Exchange := { s with letters := s.letters ++ l.toList }

/-- `mudm_connect` has taken a context, and may have sent a request on it. -/
def connected (side : Side) (r : CallResult) : Exchange :=
  match r.connContext with
  | none => s.set side r.m
  | some c =>
    let s := (s.set side r.m).take (side, c) none
    s.post (r.sent.map fun pkt => ⟨side.other, pkt, some (s.current (side, c)), none⟩)

/-- A request has arrived. -/
def requested (l : Letter) (timeBase : Nat) : Exchange :=
  let (m, c) := connectRequest (s.node l.dest) timeBase l.pkt
  match c with
  | none => s.set l.dest m
  | some c => (s.set l.dest m).take (l.dest, c) l.asker

/-- A reply has arrived; one that does not refuse makes its context active. -/
def replied (l : Letter) : Option Exchange := do
  let (m, c) ← connectReply (s.node l.dest) l.pkt
  some { s.set l.dest m with
    activated :=
      if l.pkt.body.status = 0 then
        c.map fun c => ⟨s.current (l.dest, c), (s.conn (l.dest, c)).state, l⟩
      else none }

end Exchange

def exchangeStep (s : Exchange) : ExchangeInput → Option Exchange
  | .connect side env destNode req =>
    (mudmConnect (s.node side) env destNode req).map (s.connected side)
  | .connReply side env c reply =>
    if c < (s.node side).maxConnections then do
      let r ← mudmConnReply (s.node side) env c reply
      some ((s.set side r.m).post (r.sent.map fun pkt =>
        ⟨side.other, pkt, s.asker (side, c), some (s.current (side, c))⟩))
    else none
  | .disconnect side env c =>
    if c < (s.node side).maxConnections then do
      let (m, _, sent) ← mudmDisconnect (s.node side) env c
      let s := s.set side m
      some { s with partings := s.partings ++ (sent.map fun desc => (side.other, desc.hdr)).toList }
    else none
  | .letter n timeBase => do
    let l ← s.letters[n]?
    let s := { s with letters := s.letters.eraseIdx n }
    if l.pkt.desc.hdr.type = .connRequest then some (s.requested l timeBase) else s.replied l
  | .parting n => do
    let (dest, hdr) ← s.partings[n]?
    let (m, _, _) ← disconnectRequest (s.node dest) hdr
    some { s.set dest m with partings := s.partings.eraseIdx n }

/-- Two nodes that nobody has used, with tables of `n near` and `n far` contexts. -/
def newExchange (m : Side → MyContext) (n : Side → Nat) : Exchange :=
  { node := fun side => connListInit (m side) (n side)
    turn := fun _ => 0
    asker := fun _ => none
    letters := []
    partings := []
    activated := none }

namespace Exchange

variable (s : Exchange)

/-- A pending context whose answer may still come: its request or a reply is on its way, or its request
has been taken by a context that has not replied. -/
def Awaits (p : Side × Nat) : Prop :=
  (s.conn p).state = .pending ∧
    ((∃ l ∈ s.letters, l.asker = some (s.current p)) ∨
      ∃ c < (s.node p.1.other).maxConnections,
        (s.conn (p.1.other, c)).state = .pending ∧ s.asker (p.1.other, c) = some (s.current p))

/-- The reply by which a context has accepted a request is still on its way. -/
def Accepting (p : Side × Nat) : Prop :=
  ∃ l ∈ s.letters, l.answerer = some (s.current p) ∧ l.pkt.body.status = 0

end Exchange

/-- What the two ends of a connection have to know of each other. -/
structure Binding where
  myIndex : Nat
  destConnIndex : Nat
  destination : Nat
  sourceQpn : Nat
  destQpn : Nat
  torusDestNode : Nat

def Connection.binding (k : Connection) : Binding :=
  ⟨k.myIndex, k.destConnIndex, k.destination, k.memFifo.hdr.sourceQpn, k.memFifo.hdr.destQpn,
    k.memFifo.hdr.torusDestNode⟩

namespace Exchange

/-- A use of a context that waits for the answer to its request. -/
structure Waits (n : Side → Nat) (s : Exchange) (u : Use) : Prop where
  inside : u.spot.2 < n u.spot.1
  current : s.current u.spot = u
  asker : s.asker u.spot = none
  state : (s.conn u.spot).state = .pending

/-- The context `p` has been taken for the request of `u`. -/
structure Taken (n : Side → Nat) (s : Exchange) (p : Side × Nat) (u : Use) : Prop where
  inside : p.2 < n p.1
  side : p.1 = u.spot.1.other
  waits : s.Waits n u
  index : (s.conn p).destConnIndex = (s.conn u.spot).myIndex
  qpn : (s.conn p).memFifo.hdr.sourceQpn = (s.conn u.spot).memFifo.hdr.sourceQpn
  node : (s.conn p).destination = (s.node u.spot.1).myTorusAddress

/-- The letter is the request of `u`. -/
structure Asking (s : Exchange) (l : Letter) (u : Use) : Prop where
  type : l.pkt.desc.hdr.type = .connRequest
  dest : l.dest = u.spot.1.other
  answerer : l.answerer = none
  index : l.pkt.payload.sourceConnIndex = (s.conn u.spot).myIndex
  qpn : l.pkt.desc.hdr.sourceQpn = (s.conn u.spot).memFifo.hdr.sourceQpn
  node : l.pkt.desc.hdr.torusSourceNode = (s.node u.spot.1).myTorusAddress

/-- By the letter, `v` accepts the request of `u`. -/
structure Consenting (s : Exchange) (l : Letter) (u v : Use) : Prop where
  status : l.pkt.body.status = 0
  answerer : l.answerer = some v
  current : s.current v.spot = v
  asker : s.asker v.spot = some u
  state : (s.conn v.spot).state ≠ .pending
  index : l.pkt.payload.sourceConnIndex = (s.conn v.spot).myIndex
  backIndex : (s.conn v.spot).destConnIndex = (s.conn u.spot).myIndex
  qpn : l.pkt.desc.hdr.sourceQpn = (s.conn v.spot).memFifo.hdr.sourceQpn
  backQpn : (s.conn v.spot).memFifo.hdr.destQpn = (s.conn u.spot).memFifo.hdr.sourceQpn
  node : l.pkt.desc.hdr.torusSourceNode = (s.node v.spot.1).myTorusAddress
  backNode : (s.conn v.spot).memFifo.hdr.torusDestNode = (s.node u.spot.1).myTorusAddress

/-- The letter is a reply to the request of `u`. -/
structure Replying (s : Exchange) (l : Letter) (u : Use) : Prop where
  type : l.pkt.desc.hdr.type = .connReply
  dest : l.dest = u.spot.1
  index : l.pkt.payload.destConnIndex = (s.conn u.spot).myIndex
  answers : l.pkt.body.status = 0 → ∃ v, s.Consenting l u v

/-- A letter is on its way for a context that waits. -/
structure Fits (n : Side → Nat) (s : Exchange) (l : Letter) (u : Use) : Prop where
  asker : l.asker = some u
  waits : s.Waits n u
  kind : s.Asking l u ∨ s.Replying l u

end Exchange

open Exchange

/-- Every request is in one place, its own context waits meanwhile, and what is known of it agrees. -/
structure ExchangeInv (n : Side → Nat) (s : Exchange) : Prop where
  indexed : ∀ side, Indexed (n side) (s.node side)
  lists : ∀ side, ConnInv (s.node side)
  letters : ∀ l ∈ s.letters, ∃ u, s.Fits n l u
  once : (s.letters.map Letter.asker).Nodup
  taken : ∀ p u, (s.conn p).state = .pending → s.asker p = some u →
    s.Taken n p u ∧ some u ∉ s.letters.map Letter.asker
  unique : ∀ p q u, (s.conn p).state = .pending → (s.conn q).state = .pending →
    s.asker p = some u → s.asker q = some u → p = q

/-- The context `p` is in `s'` what it was in `s`, its state perhaps excepted. -/
structure KeepsUse (s s' : Exchange) (p : Side × Nat) : Prop where
  turn : s'.turn p = s.turn p
  asker : s'.asker p = s.asker p
  binding : (s'.conn p).binding = (s.conn p).binding

/-- Between `s` and `s'`, something has become of the context `p`, and of no other; a letter may have
arrived. -/
structure Changes (s s' : Exchange) (p : Side × Nat) : Prop where
  letters : s'.letters.Sublist s.letters
  address : ∀ side, (s'.node side).myTorusAddress = (s.node side).myTorusAddress
  keeps : ∀ q, q ≠ p → KeepsUse s s' q
  state : ∀ q, q ≠ p → (s'.conn q).state = (s.conn q).state

/-- The use `u` waits for a letter that is on its way, or for one of another context than `p`. -/
def Awaited (s s' : Exchange) (p : Side × Nat) (u : Use) : Prop :=
  (∃ l ∈ s'.letters, l.asker = some u) ∨
    ∃ q, q ≠ p ∧ (s.conn q).state = .pending ∧ s.asker q = some u

variable {n : Side → Nat} {s s' : Exchange} {p q : Side × Nat} {u v : Use} {l : Letter} {side : Side}
  {m : MyContext} {c : Nat} {k : Connection} {x : ConnInput} {env : CallEnv} {hdr : IonetHeader}

/-- Leaving a connection does not touch what its ends know of each other. -/
theorem mudmDisconnect_binding {x : MyContext × Int × Option MemFifoDescriptor}
    (h : mudmDisconnect m env c = some x) : (x.1.conn c).binding = (m.conn c).binding := by
  have hmark : ((m.leaving c).conn c).binding = (m.conn c).binding := by
    unfold MyContext.leaving
    rw [MyContext.conn_modify_self]
    rfl
  cases mudmDisconnect_outcome h with
  | stopped => rfl
  | lost => exact hmark
  | sent m₁ _ _ hfree =>
    have hself := (Writes.free hfree).self
    exact ((field_of_unlinked Connection.binding hself fun _ => rfl).trans rfl).trans hmark

theorem disconnectRequest_binding {x : MyContext × Int × Option Nat}
    (h : disconnectRequest m hdr = some x) :
    (x.1.conn hdr.sequenceNumber).binding = (m.conn hdr.sequenceNumber).binding := by
  cases disconnectRequest_outcome h with
  | stopped => rfl
  | freed m₁ _ _ _ hfree =>
    exact (field_of_unlinked Connection.binding (Writes.free hfree).self fun _ => rfl).trans rfl

namespace KeepsUse

theorem current (h : KeepsUse s s' p) : s'.current p = s.current p := by
  unfold Exchange.current
  rw [h.turn]

theorem myIndex (h : KeepsUse s s' p) : (s'.conn p).myIndex = (s.conn p).myIndex :=
  congrArg Binding.myIndex h.binding

theorem destConnIndex (h : KeepsUse s s' p) :
    (s'.conn p).destConnIndex = (s.conn p).destConnIndex := congrArg Binding.destConnIndex h.binding

theorem destination (h : KeepsUse s s' p) : (s'.conn p).destination = (s.conn p).destination :=
  congrArg Binding.destination h.binding

theorem sourceQpn (h : KeepsUse s s' p) :
    (s'.conn p).memFifo.hdr.sourceQpn = (s.conn p).memFifo.hdr.sourceQpn :=
  congrArg Binding.sourceQpn h.binding

theorem destQpn (h : KeepsUse s s' p) :
    (s'.conn p).memFifo.hdr.destQpn = (s.conn p).memFifo.hdr.destQpn :=
  congrArg Binding.destQpn h.binding

theorem torusDestNode (h : KeepsUse s s' p) :
    (s'.conn p).memFifo.hdr.torusDestNode = (s.conn p).memFifo.hdr.torusDestNode :=
  congrArg Binding.torusDestNode h.binding

end KeepsUse

namespace Exchange

theorem Waits.keep (h : s.Waits n u) (hk : KeepsUse s s' u.spot)
    (hs : (s'.conn u.spot).state = (s.conn u.spot).state) : s'.Waits n u :=
  ⟨h.inside, hk.current.trans h.current, hk.asker.trans h.asker, hs.trans h.state⟩

/-- A use that waits is not that of a context in another state. -/
theorem Waits.apart (h : s.Waits n u) (hs : (s.conn p).state ≠ .pending) : u.spot ≠ p := by
  rintro rfl
  exact hs h.state

theorem Asking.keep (h : s.Asking l u) (hk : KeepsUse s s' u.spot)
    (ha : ∀ side, (s'.node side).myTorusAddress = (s.node side).myTorusAddress) : s'.Asking l u :=
  ⟨h.type, h.dest, h.answerer, h.index.trans hk.myIndex.symm, h.qpn.trans hk.sourceQpn.symm,
    h.node.trans (ha _).symm⟩

theorem Consenting.keep (h : s.Consenting l u v) (hu : KeepsUse s s' u.spot) (hv : KeepsUse s s' v.spot)
    (hs : (s'.conn v.spot).state ≠ .pending)
    (ha : ∀ side, (s'.node side).myTorusAddress = (s.node side).myTorusAddress) :
    s'.Consenting l u v where
  status := h.status
  answerer := h.answerer
  current := hv.current.trans h.current
  asker := hv.asker.trans h.asker
  state := hs
  index := h.index.trans hv.myIndex.symm
  backIndex := hv.destConnIndex.trans (h.backIndex.trans hu.myIndex.symm)
  qpn := h.qpn.trans hv.sourceQpn.symm
  backQpn := hv.destQpn.trans (h.backQpn.trans hu.sourceQpn.symm)
  node := h.node.trans (ha _).symm
  backNode := hv.torusDestNode.trans (h.backNode.trans (ha _).symm)

theorem Taken.keep (h : s.Taken n p u) (hp : KeepsUse s s' p) (hu : KeepsUse s s' u.spot)
    (hs : (s'.conn u.spot).state = (s.conn u.spot).state)
    (ha : ∀ side, (s'.node side).myTorusAddress = (s.node side).myTorusAddress) : s'.Taken n p u where
  inside := h.inside
  side := h.side
  waits := h.waits.keep hu hs
  index := hp.destConnIndex.trans (h.index.trans hu.myIndex.symm)
  qpn := hp.sourceQpn.trans (h.qpn.trans hu.sourceQpn.symm)
  node := hp.destination.trans (h.node.trans (ha _).symm)

theorem Replying.keep (h : s.Replying l u) (hu : KeepsUse s s' u.spot)
    (ha : ∀ side, (s'.node side).myTorusAddress = (s.node side).myTorusAddress)
    (hv : ∀ v, s.Consenting l u v → KeepsUse s s' v.spot ∧ (s'.conn v.spot).state ≠ .pending) :
    s'.Replying l u := by
  refine ⟨h.type, h.dest, h.index.trans hu.myIndex.symm, fun hst => ?_⟩
  obtain ⟨v, hc⟩ := h.answers hst
  obtain ⟨hk, hs⟩ := hv v hc
  exact ⟨v, hc.keep hu hk hs ha⟩

theorem Fits.keep (h : s.Fits n l u) (hu : KeepsUse s s' u.spot)
    (hs : (s'.conn u.spot).state = (s.conn u.spot).state)
    (ha : ∀ side, (s'.node side).myTorusAddress = (s.node side).myTorusAddress)
    (hv : ∀ v, s.Consenting l u v → KeepsUse s s' v.spot ∧ (s'.conn v.spot).state ≠ .pending) :
    s'.Fits n l u := by
  refine ⟨h.asker, h.waits.keep hu hs, ?_⟩
  rcases h.kind with hask | hreply
  · exact Or.inl (hask.keep hu ha)
  · exact Or.inr (hreply.keep hu ha hv)

end Exchange

/-- What a call that writes the context `c` changes. -/
theorem Changes.of_writes (hw : Writes (s.node side) m c k)
    (hnode : s'.node = Function.update s.node side m) (hl : s'.letters.Sublist s.letters)
    (hturn : ∀ q, q ≠ (side, c) → s'.turn q = s.turn q)
    (hasker : ∀ q, q ≠ (side, c) → s'.asker q = s.asker q) : Changes s s' (side, c) := by
  have hconn : ∀ q, q ≠ (side, c) → (s'.conn q).unlinked = (s.conn q).unlinked := by
    intro q hq
    unfold Exchange.conn
    rw [hnode]
    by_cases hside : q.1 = side
    · rw [hside, Function.update_self]
      exact hw.other fun hc => hq (Prod.ext hside hc)
    · rw [Function.update_of_ne hside]
  refine ⟨hl, fun side' => ?_, fun q hq => ⟨hturn q hq, hasker q hq, ?_⟩, fun q hq => ?_⟩
  · rw [hnode]
    by_cases hside : side' = side
    · subst hside
      rw [Function.update_self]
      have haddress := congrArg MyContext.myTorusAddress hw.fixed
      exact haddress
    · rw [Function.update_of_ne hside]
  · exact field_of_unlinked Connection.binding (hconn q hq) fun _ => rfl
  · exact field_of_unlinked Connection.state (hconn q hq) fun _ => rfl

theorem post_none (s : Exchange) : s.post none = s := by
  unfold Exchange.post
  rw [Option.toList_none, List.append_nil]

theorem conn_of_node (hnode : s'.node = Function.update s.node side m) :
    s'.conn (side, c) = m.conn c := by
  unfold Exchange.conn
  rw [hnode, Function.update_self]

theorem conn_set : (s.set side m).conn (side, c) = m.conn c := conn_of_node rfl

namespace ExchangeInv

/-- A step at `p` that disturbs none of those who wait, and no acceptance that is on its way. -/
theorem change (h : ExchangeInv n s) (hc : Changes s s' p)
    (hindexed : ∀ side, Indexed (n side) (s'.node side)) (hlists : ∀ side, ConnInv (s'.node side))
    (hasker : ∀ u, u.spot = p → Awaited s s' p u →
      KeepsUse s s' p ∧ (s'.conn p).state = (s.conn p).state)
    (hanswerer : ∀ l ∈ s'.letters, ∀ u v, s.Consenting l u v → v.spot = p →
      KeepsUse s s' p ∧ (s'.conn p).state ≠ .pending)
    (htaken : ∀ u, (s'.conn p).state = .pending → s'.asker p = some u →
      s'.Taken n p u ∧ some u ∉ s'.letters.map Letter.asker ∧
        ∀ q, q ≠ p → (s.conn q).state = .pending → s.asker q ≠ some u) :
    ExchangeInv n s' := by
  have hat : ∀ u, Awaited s s' p u →
      KeepsUse s s' u.spot ∧ (s'.conn u.spot).state = (s.conn u.spot).state := by
    intro u hu
    by_cases hp : u.spot = p
    · rw [hp]
      exact hasker u hp hu
    · exact ⟨hc.keeps _ hp, hc.state _ hp⟩
  have hold : ∀ q u, q ≠ p → (s'.conn q).state = .pending → s'.asker q = some u →
      (s.conn q).state = .pending ∧ s.asker q = some u := fun q u hq hs hu =>
    ⟨(hc.state q hq).symm.trans hs, (hc.keeps q hq).asker.symm.trans hu⟩
  refine ⟨hindexed, hlists, fun l hl => ?_, ?_, fun q u hs hu => ?_, fun q q' u hs hs' hu hu' => ?_⟩
  · obtain ⟨u, hu⟩ := h.letters l (hc.letters.subset hl)
    obtain ⟨hk, hs⟩ := hat u (Or.inl ⟨l, hl, hu.asker⟩)
    refine ⟨u, hu.keep hk hs hc.address fun v hv => ?_⟩
    by_cases hp : v.spot = p
    · rw [hp]
      exact hanswerer l hl u v hv hp
    · refine ⟨hc.keeps _ hp, ?_⟩
      rw [hc.state _ hp]
      exact hv.state
  · exact h.once.sublist (hc.letters.map Letter.asker)
  · by_cases hq : q = p
    · subst hq
      exact ⟨(htaken u hs hu).1, (htaken u hs hu).2.1⟩
    · obtain ⟨hs₀, hu₀⟩ := hold q u hq hs hu
      obtain ⟨htaken₀, hnot⟩ := h.taken q u hs₀ hu₀
      obtain ⟨hk, hsu⟩ := hat u (Or.inr ⟨q, hq, hs₀, hu₀⟩)
      exact ⟨htaken₀.keep (hc.keeps q hq) hk hsu hc.address,
        fun hmem => hnot ((hc.letters.map Letter.asker).subset hmem)⟩
  · by_cases hq : q = p
    · by_cases hq' : q' = p
      · rw [hq, hq']
      · subst hq
        obtain ⟨hs₀, hu₀⟩ := hold q' u hq' hs' hu'
        exact absurd hu₀ ((htaken u hs hu).2.2 q' hq' hs₀)
    · obtain ⟨hs₀, hu₀⟩ := hold q u hq hs hu
      by_cases hq' : q' = p
      · subst hq'
        exact absurd hu₀ ((htaken u hs' hu').2.2 q hq hs₀)
      · obtain ⟨hs₁, hu₁⟩ := hold q' u hq' hs' hu'
        exact h.unique q q' u hs₀ hs₁ hu₀ hu₁

/-- A step that leaves every context what it is. -/
theorem keep (h : ExchangeInv n s) (hl : s'.letters.Sublist s.letters)
    (ha : ∀ side, (s'.node side).myTorusAddress = (s.node side).myTorusAddress)
    (hk : ∀ q, KeepsUse s s' q) (hs : ∀ q, (s'.conn q).state = (s.conn q).state)
    (hindexed : ∀ side, Indexed (n side) (s'.node side)) (hlists : ∀ side, ConnInv (s'.node side)) :
    ExchangeInv n s' := by
  refine h.change (p := (.near, 0)) ⟨hl, ha, fun q _ => hk q, fun q _ => hs q⟩ hindexed hlists
    (fun _ _ _ => ⟨hk _, hs _⟩) (fun l _ u v hv hp => ⟨hk _, ?_⟩) fun u hst hu => ?_
  · rw [hs, ← hp]
    exact hv.state
  · have hst₀ := (hs _).symm.trans hst
    have hu₀ := (hk _).asker.symm.trans hu
    obtain ⟨htaken, hnot⟩ := h.taken _ u hst₀ hu₀
    refine ⟨htaken.keep (hk _) (hk _) (hs _) ha, fun hmem => hnot ((hl.map _).subset hmem),
      fun q hq hsq huq => hq (h.unique q _ u hsq hst₀ huq hu₀)⟩

/-- A letter is posted for one who waits, and for whom no other letter is on its way or to be
written. -/
theorem post (h : ExchangeInv n s) (hl : s.Fits n l u)
    (hnew : some u ∉ s.letters.map Letter.asker)
    (hlast : ∀ p, (s.conn p).state = .pending → s.asker p ≠ some u) :
    ExchangeInv n (s.post (some l)) := by
  have hk : ∀ q, KeepsUse s (s.post (some l)) q := fun q => ⟨rfl, rfl, rfl⟩
  refine ⟨h.indexed, h.lists, fun l' hl' => ?_, ?_, fun p u' hs hu => ?_, h.unique⟩
  · rcases List.mem_append.mp hl' with hl' | hl'
    · obtain ⟨u', hu'⟩ := h.letters l' hl'
      exact ⟨u', hu'.keep (hk _) rfl (fun _ => rfl) fun v hv => ⟨hk _, hv.state⟩⟩
    · rw [List.mem_singleton.mp hl']
      exact ⟨u, hl.keep (hk _) rfl (fun _ => rfl) fun v hv => ⟨hk _, hv.state⟩⟩
  · show ((s.letters ++ [l]).map Letter.asker).Nodup
    rw [List.map_append, List.map_singleton, hl.asker]
    refine List.nodup_append.mpr ⟨h.once, List.nodup_singleton _, fun a ha b hb => ?_⟩
    rintro rfl
    rw [List.mem_singleton.mp hb] at ha
    exact hnew ha
  · obtain ⟨htaken, hnot⟩ := h.taken p u' hs hu
    refine ⟨htaken.keep (hk _) (hk _) rfl fun _ => rfl, fun hmem => ?_⟩
    have hmem : some u' ∈ (s.letters ++ [l]).map Letter.asker := hmem
    rw [List.map_append, List.map_singleton, hl.asker] at hmem
    rcases List.mem_append.mp hmem with hmem | hmem
    · exact hnot hmem
    · cases List.mem_singleton.mp hmem
      exact hlast p hs hu

theorem waits (h : ExchangeInv n s) (hl : s'.letters.Sublist s.letters)
    (hu : Awaited s s' p u) : s.Waits n u := by
  rcases hu with ⟨l, hmem, hask⟩ | ⟨q, -, hs, hask⟩
  · obtain ⟨u', hfits⟩ := h.letters l (hl.subset hmem)
    cases Option.some.inj (hfits.asker.symm.trans hask)
    exact hfits.waits
  · exact (h.taken q u hs hask).1.waits

theorem untouched (h : ExchangeInv n s) (hnode : s'.node = s.node) (hturn : s'.turn = s.turn)
    (hasker : s'.asker = s.asker) (hl : s'.letters.Sublist s.letters) : ExchangeInv n s' := by
  have hconn : ∀ q, s'.conn q = s.conn q := fun q => congrArg (fun f => (f q.1).conn q.2) hnode
  refine h.keep hl (fun side => by rw [hnode]) (fun q => ⟨congrFun hturn q, congrFun hasker q, ?_⟩)
    (fun q => by rw [hconn]) (hnode ▸ h.indexed) (hnode ▸ h.lists)
  rw [hconn]

theorem after (h : ExchangeInv n s) (hm : connStep (s.node side) x = some m)
    (hok : RepliesFit (s.node side) x) (hnode : s'.node = Function.update s.node side m) :
    (∀ side', Indexed (n side') (s'.node side')) ∧ ∀ side', ConnInv (s'.node side') := by
  rw [hnode]
  constructor
  · intro side'
    by_cases hside : side' = side
    · subst hside
      rw [Function.update_self]
      exact (h.indexed side').step hm
    · rw [Function.update_of_ne hside]
      exact h.indexed side'
  · intro side'
    by_cases hside : side' = side
    · subst hside
      rw [Function.update_self]
      exact (h.lists side').step hok hm
    · rw [Function.update_of_ne hside]
      exact h.lists side'

/-- A call that writes neither the state of its context nor what it knows of the other end. -/
theorem retain (h : ExchangeInv n s) (hw : Writes (s.node side) m c k)
    (hb : k.binding = ((s.node side).conn c).binding) (hs : k.state = ((s.node side).conn c).state)
    (hm : connStep (s.node side) x = some m) (hok : RepliesFit (s.node side) x) :
    ExchangeInv n (s.set side m) := by
  have hc : Changes s (s.set side m) (side, c) :=
    .of_writes hw rfl (List.Sublist.refl _) (fun _ _ => rfl) fun _ _ => rfl
  have hnode : (s.set side m).node = Function.update s.node side m := rfl
  obtain ⟨hindexed, hlists⟩ := h.after hm hok hnode
  have hself : (s.set side m).conn (side, c) = m.conn c := conn_set
  refine h.keep (List.Sublist.refl _) hc.address (fun q => ?_) (fun q => ?_) hindexed hlists
  · by_cases hq : q = (side, c)
    · subst hq
      refine ⟨rfl, rfl, ?_⟩
      rw [hself]
      exact (field_of_unlinked Connection.binding hw.self fun _ => rfl).trans hb
    · exact hc.keeps q hq
  · by_cases hq : q = (side, c)
    · subst hq
      rw [hself]
      exact (field_of_unlinked Connection.state hw.self fun _ => rfl).trans hs
    · exact hc.state q hq

/-- The free list of a node gives a context for which nobody waits, and which does not wait. -/
theorem take (h : ExchangeInv n s) (hhead : (s.node side).connFreelist = some c)
    (hfree : ¬ s.Accepting (side, c)) (hw : Writes (s.node side) m c k)
    (hm : connStep (s.node side) x = some m) (hok : RepliesFit (s.node side) x)
    (hl : s'.letters.Sublist s.letters) (hnode : s'.node = Function.update s.node side m)
    (hturn : s'.turn = Function.update s.turn (side, c) (s.turn (side, c) + 1)) {w : Option Use}
    (hasker : s'.asker = Function.update s.asker (side, c) w)
    (htaken : ∀ u, Changes s s' (side, c) → w = some u → (s.Waits n u → u.spot ≠ (side, c)) →
      k.state = .pending → s'.Taken n (side, c) u ∧ some u ∉ s'.letters.map Letter.asker ∧
        ∀ q, q ≠ (side, c) → (s.conn q).state = .pending → s.asker q ≠ some u) :
    ExchangeInv n s' := by
  have hstate : (s.conn (side, c)).state = .free := ((h.lists side).head_free hhead).2
  have hc : Changes s s' (side, c) := by
    refine .of_writes hw hnode hl (fun q hq => ?_) fun q hq => ?_
    · rw [hturn, Function.update_of_ne hq]
    · rw [hasker, Function.update_of_ne hq]
  obtain ⟨hindexed, hlists⟩ := h.after hm hok hnode
  have hapart : ∀ u, s.Waits n u → u.spot ≠ (side, c) := fun u hwaits =>
    hwaits.apart (by rw [hstate]; decide)
  refine h.change hc hindexed hlists (fun u hu haw => absurd hu (hapart u (h.waits hl haw)))
    (fun l hmem u v hv hspot => ?_) fun u hs hu => ?_
  · refine absurd ⟨l, hl.subset hmem, ?_, hv.status⟩ hfree
    rw [← hspot, hv.current]
    exact hv.answerer
  · rw [hasker, Function.update_self] at hu
    refine htaken u hc hu (hapart u) ?_
    rw [conn_of_node hnode] at hs
    exact (field_of_unlinked Connection.state hw.self fun _ => rfl).symm.trans hs

end ExchangeInv

end BgqVrnic
