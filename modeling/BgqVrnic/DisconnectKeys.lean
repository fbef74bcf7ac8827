import BgqVrnic.ConnSteps

namespace BgqVrnic

open Runs

/-- What a poll of an I/O link finds beside the connection tables: counters that are pending, packets
that are outstanding, and the time base. -/
structure PollEnv where
  countersPending : Nat
  outstandingPktReqid : Nat
  nowTimestamp : Nat
  deriving DecidableEq, Repr

/-- A minute of cycles. -/
def cnTook2Long : UInt64 := 96000000000

/-- The context whose time stamp a poll clears: the first one that is pending, if there is nothing else
to do and it has been there for more than a minute. -/
def MyContext.overdue (m : MyContext) (ioLink : Link) (env : PollEnv) : Option Nat :=
  if env.countersPending = 0 ∧ env.outstandingPktReqid = 0 then
    (m.connPendlist ioLink).filter fun c =>
      (m.conn c).myTimestamp ≠ 0 ∧
        cnTook2Long < .ofNat env.nowTimestamp - .ofNat (m.conn c).myTimestamp
  else none

/-- `poll_iolink` once it has handled the packets that have come in, with its return value. -/
def pollIolink (m : MyContext) (ioLink : Link) (env : PollEnv) : MyContext × Int :=
  if env.countersPending ≠ 0 then (m, 0)
  else if env.outstandingPktReqid ≠ 0 then (m, 1)
  else
    match m.connPendlist ioLink with
    | none => (m, 0)
    | some c =>
      if (m.conn c).myTimestamp ≠ 0 then
        if cnTook2Long < .ofNat env.nowTimestamp - .ofNat (m.conn c).myTimestamp then
          (m.modify c fun k => { k with myTimestamp := 0 }, 2)
        else (m, 2)
      else (m, 2)

/-- How far the two ends have come: a request or a reply is on its way, a request waits for the answer
of its receiver, or one end has left and the other has to be told. -/
inductive Stage
  | idle
  | requested (pkt : ConnPacket)
  | answered
  | replied (pkt : ConnPacket)
  | established
  | leaving (side : Side) (hdr : IonetHeader)
  deriving DecidableEq, Repr

/-- Two nodes and the contexts that they use for the connection between them. The near one asks. -/
structure ConnPair where
  node : Side → MyContext
  context : Side → Option Nat
  stage : Stage

/-- A poll, a call or a packet of the connection, or one of any other connection. -/
inductive PairInput
  | poll (side : Side) (ioLink : Link) (env : PollEnv)
  | connect (env : CallEnv) (destNode : Nat) (req : IonetConnect)
  | request (timeBase : Nat)
  | connReply (env : CallEnv) (reply : IonetConnect)
  | reply
  | disconnect (side : Side) (env : CallEnv)
  | disconnected
  | other (side : Side) (i : ConnInput)

namespace ConnPair

variable (s : ConnPair)

/-- The node on one side and its context for the connection, after a step. -/
def set (side : Side) (m : MyContext) (c : Option Nat) (stage : Stage) : ConnPair :=
  { node := Function.update s.node side m
    context := Function.update s.context side c
    stage := stage }

/-- An input of another connection, which works on another context. -/
def Apart (side : Side) (i : ConnInput) : Prop :=
  ∀ c ∈ s.context side, (s.node side).worksOn i ≠ some c

instance (side : Side) (i : ConnInput) : Decidable (s.Apart side i) :=
  match h : s.context side with
  | none => isTrue fun c hc => by
      rw [h] at hc
      cases hc
  | some c => decidable_of_iff ((s.node side).worksOn i ≠ some c) (by simp [Apart, h])

end ConnPair

def pairStep (s : ConnPair) : PairInput → Option ConnPair
  | .poll side ioLink env =>
    some (s.set side (pollIolink (s.node side) ioLink env).1 (s.context side) s.stage)
  | .connect env destNode req =>
    match s.stage with
    | .idle => do
      let r ← mudmConnect (s.node .near) env destNode req
      let pkt ← r.sent
      some (s.set .near r.m r.connContext (.requested pkt))
    | _ => none
  | .request timeBase =>
    match s.stage with
    | .requested pkt => do
      let (m, c) := connectRequest (s.node .far) timeBase pkt
      let c ← c
      some (s.set .far m (some c) .answered)
    | _ => none
  | .connReply env reply =>
    match s.stage with
    | .answered => do
      let c ← s.context .far
      let r ← mudmConnReply (s.node .far) env c reply
      let pkt ← r.sent
      if reply.body.status = 0 then some (s.set .far r.m (some c) (.replied pkt)) else none
    | _ => none
  | .reply =>
    match s.stage with
    | .replied pkt => do
      let (m, c) ← connectReply (s.node .near) pkt
      let _ ← c
      some (s.set .near m (s.context .near) .established)
    | _ => none
  | .disconnect side env =>
    match s.stage with
    | .established => do
      let c ← s.context side
      let (m, _, sent) ← mudmDisconnect (s.node side) env c
      let desc ← sent
      some (s.set side m none (.leaving side desc.hdr))
    | _ => none
  | .disconnected =>
    match s.stage with
    | .leaving side hdr => do
      let (m, _, _) ← disconnectRequest (s.node side.other) hdr
      some (s.set side.other m none .idle)
    | _ => none
  | .other side i =>
    if s.Apart side i then
      (connStep (s.node side) i).map fun m => s.set side m (s.context side) s.stage
    else none

/-- Two nodes that nobody has used, with tables of `n near` and `n far` contexts. -/
def newPair (m : Side → MyContext) (n : Side → Nat) : ConnPair :=
  { node := fun side => connListInit (m side) (n side)
    context := fun _ => none
    stage := .idle }

/-- Of the data of `m`, `m'` has lost the context `c`, which it has on the free list, and no other. -/
structure FreesOnly (m m' : MyContext) (c : Nat) : Prop where
  used : (m.conn c).state ≠ .free
  freed : (m'.conn c).state = .free
  others : ∀ i, i ≠ c → (m'.conn i).unlinked = (m.conn i).unlinked

/-- Whichever end leaves an established connection, its packet has the index and the key of the other
end's context; and there the packet is taken, for that context and no other. -/
structure KeysServe (s : ConnPair) : Prop where
  leaves : s.stage = .established → ∀ side env, env.linkActive = true →
    ∃ c d m desc, s.context side = some c ∧ s.context side.other = some d ∧
      mudmDisconnect (s.node side) env c = some (m, -ENOSYS, some desc) ∧
      desc.hdr.sequenceNumber = d ∧
      desc.hdr.payloadLength = ((s.node side.other).conn d).lowbitTimestamp
  taken : ∀ side hdr, s.stage = .leaving side hdr →
    ∃ d m, s.context side.other = some d ∧
      hdr.payloadLength = ((s.node side.other).conn d).lowbitTimestamp ∧
      disconnectRequest (s.node side.other) hdr = some (m, 0, some d) ∧
      FreesOnly (s.node side.other) m d

/-- While its answer is due, no poll clears the stamp of the context that a request waits on, unless the
key of that context is zero. -/
def InTime (s : ConnPair) : PairInput → Prop
  | .poll side ioLink env =>
    s.stage = .answered → side = .far → ∀ c ∈ s.context .far,
      (s.node .far).overdue ioLink env = some c → ((s.node .far).conn c).lowbitTimestamp = 0
  | _ => True

namespace Connection

/-- A context without its links and its time stamp. -/
def timeless (k : Connection) : Connection := { k.unlinked with myTimestamp := 0 }

/-- A context of the connection, with its index in the table and its state. -/
structure UsedAs (k : Connection) (c : Nat) (s : ConnState) : Prop where
  index : k.myIndex = c
  owned : k.Owned
  state : k.state = s

/-- One end has the index and the key of the other. -/
structure Knows (k l : Connection) : Prop where
  index : k.destConnIndex = l.myIndex
  key : low16 k.remoteTimestamp = l.lowbitTimestamp

end Connection

/-- A packet that brings the index and the key of the context that it comes from. -/
structure ConnPacket.Tells (pkt : ConnPacket) (k : Connection) : Prop where
  index : pkt.payload.sourceConnIndex = k.myIndex
  key : low16 pkt.payload.timestamp = k.lowbitTimestamp

variable {m m' : MyContext} {c t destNode : Nat} {k k' l l' : Connection} {st : ConnState} {pkt : ConnPacket}
  {env : CallEnv} {req reply : IonetConnect} {r : CallResult} {hdr : IonetHeader} {ioLink : Link}
  {pollEnv : PollEnv}

namespace Connection

theorem timeless_of_unlinked (h : k'.unlinked = k.unlinked) : k'.timeless = k.timeless := by
  unfold timeless
  rw [h]

theorem UsedAs.congr (h : k.UsedAs c st) (he : k'.timeless = k.timeless) : k'.UsedAs c st := by
  have ht : k.timeless.UsedAs c st :=
    ⟨h.index, ⟨h.owned.magic, h.owned.active, h.owned.pend, h.owned.abort⟩, h.state⟩
  rw [← he] at ht
  exact ⟨ht.index, ⟨ht.owned.magic, ht.owned.active, ht.owned.pend, ht.owned.abort⟩, ht.state⟩

theorem Knows.congr (h : k.Knows l) (hk : k'.timeless = k.timeless)
    (hl : l'.timeless = l.timeless) : k'.Knows l' := by
  have ht : k.timeless.Knows l.timeless := ⟨h.index, h.key⟩
  rw [← hk, ← hl] at ht
  exact ⟨ht.index, ht.key⟩

end Connection

theorem ConnPacket.Tells.congr (h : pkt.Tells k) (he : k'.timeless = k.timeless) :
    pkt.Tells k' := by
  have ht : pkt.Tells k.timeless := ⟨h.index, h.key⟩
  rw [← he] at ht
  exact ⟨ht.index, ht.key⟩

theorem Writes.timeless (h : Writes m m' c k) : (m'.conn c).timeless = k.timeless :=
  Connection.timeless_of_unlinked h.self

/-- A poll clears the stamp of the overdue context and does nothing else. -/
theorem pollIolink_cases (m : MyContext) (ioLink : Link) (env : PollEnv) :
    (pollIolink m ioLink env).1 = m ∨ ∃ c, m.overdue ioLink env = some c ∧
      (pollIolink m ioLink env).1 = m.modify c fun k => { k with myTimestamp := 0 } := by
  unfold pollIolink
  split
  · exact Or.inl rfl
  next hcounters =>
    split
    · exact Or.inl rfl
    next hpkts =>
      split
      · exact Or.inl rfl
      next c hhead =>
        split
        next hstamp =>
          split
          next hlate =>
            refine Or.inr ⟨c, ?_, rfl⟩
            unfold MyContext.overdue
            rw [if_pos ⟨not_not.mp hcounters, not_not.mp hpkts⟩, hhead]
            simp only [Option.filter_some, hstamp, hlate, ne_eq, not_false_eq_true, and_self,
              decide_true, if_true]
          next => exact Or.inl rfl
        next => exact Or.inl rfl

theorem pollIolink_timeless (i : Nat) :
    ((pollIolink m ioLink pollEnv).1.conn i).timeless = (m.conn i).timeless := by
  rcases pollIolink_cases m ioLink pollEnv with h | ⟨c, -, h⟩
  · rw [h]
  · rw [h]
    exact congrFun (MyContext.field_modify_same Connection.timeless rfl) i

theorem Indexed.poll {n : Nat} (h : Indexed n m) : Indexed n (pollIolink m ioLink pollEnv).1 := by
  rcases pollIolink_cases m ioLink pollEnv with he | ⟨c, -, he⟩
  · rw [he]
    exact h
  · rw [he]
    exact h.modify rfl rfl rfl

theorem MyContext.requesting_used (hindex : (m.conn c).myIndex = c) :
    (m.requesting t destNode req c).UsedAs c .pending :=
  ⟨hindex, ⟨rfl, Option.some_ne_none _, Option.some_ne_none _, Option.some_ne_none _⟩, rfl⟩

theorem MyContext.answering_used (hindex : (m.conn c).myIndex = c) :
    (m.answering t pkt c).UsedAs c .pending :=
  ⟨hindex, ⟨rfl, Option.some_ne_none _, Option.some_ne_none _, Option.some_ne_none _⟩, rfl⟩

/-- The owner of an active connection can leave it, and sends its header if the link is up. -/
theorem mudmDisconnect_leaves (h : (m.conn c).UsedAs c .active) (hlink : env.linkActive = true) :
    ∃ m', mudmDisconnect m env c = some (m', -ENOSYS, some (m.conn c).disconnectDescriptor) := by
  let mark : Connection → Connection := fun k =>
    { k with memFifo := (m.conn c).disconnectDescriptor, state := .disconnecting }
  have hself : (m.modify c mark).conn c = mark (m.conn c) := MyContext.conn_modify_self
  have howned : ((m.modify c mark).conn c).Owned := by
    rw [hself]
    exact ⟨h.owned.magic, h.owned.active, h.owned.pend, h.owned.abort⟩
  obtain ⟨m', hm'⟩ := connectionFree_owned howned
  refine ⟨m', ?_⟩
  unfold mudmDisconnect
  rw [if_neg (by simp [h.owned.magic]), if_neg (by simp [h.state]), if_neg (by simp [h.state])]
  dsimp only
  rw [if_pos hlink, hm']
  rfl

/-- A header with the index and the key of an active context is taken, for this context alone. -/
theorem disconnectRequest_takes (hc : c < m.maxConnections) (h : (m.conn c).UsedAs c .active)
    (hseq : hdr.sequenceNumber = c) (hkey : hdr.payloadLength = (m.conn c).lowbitTimestamp) :
    ∃ m', disconnectRequest m hdr = some (m', 0, some c) ∧ FreesOnly m m' c := by
  subst hseq
  have hself : (m.setState hdr.sequenceNumber .disconnecting).conn hdr.sequenceNumber =
      { m.conn hdr.sequenceNumber with state := .disconnecting } := MyContext.conn_modify_self
  have howned : ((m.setState hdr.sequenceNumber .disconnecting).conn hdr.sequenceNumber).Owned := by
    rw [hself]
    exact ⟨h.owned.magic, h.owned.active, h.owned.pend, h.owned.abort⟩
  obtain ⟨m', hm'⟩ := connectionFree_owned howned
  have htakes : disconnectRequest m hdr = some (m', 0, some hdr.sequenceNumber) := by
    unfold disconnectRequest
    dsimp only
    rw [if_neg (by simp [h.owned.magic, Nat.not_le.mpr hc]), if_neg (not_not.mpr hkey),
      if_neg (by simp [h.state]), if_neg (by simp [h.state]), hm']
    rfl
  refine ⟨m', htakes, ?_⟩
  rcases disconnectRequest_writes htakes with ⟨hnone, -⟩ | ⟨-, -, -, -, k, hwrites, hfree, -⟩
  · cases hnone
  · exact ⟨by simp [h.state],
      (field_of_unlinked Connection.state hwrites.self fun _ => rfl).trans hfree,
      fun i hi => hwrites.other hi⟩

namespace ConnPair

/-- The context `c` on a side. -/
def conn (s : ConnPair) (side : Side) (c : Nat) : Connection := (s.node side).conn c

/-- The contexts of the connection in each stage. -/
inductive Fits (s : ConnPair) : Stage → Prop
  | idle (h : ∀ side, s.context side = none) : Fits s .idle
  | requested {pkt : ConnPacket} {a : Nat} (hnear : s.context .near = some a)
      (hfar : s.context .far = none) (near : (s.conn .near a).UsedAs a .pending)
      (tells : pkt.Tells (s.conn .near a)) : Fits s (.requested pkt)
  | answered {a b : Nat} (hnear : s.context .near = some a) (hfar : s.context .far = some b)
      (near : (s.conn .near a).UsedAs a .pending) (far : (s.conn .far b).UsedAs b .pending)
      (knows : (s.conn .far b).Knows (s.conn .near a)) : Fits s .answered
  | replied {pkt : ConnPacket} {a b : Nat} (hnear : s.context .near = some a)
      (hfar : s.context .far = some b) (near : (s.conn .near a).UsedAs a .pending)
      (far : (s.conn .far b).UsedAs b .active) (knows : (s.conn .far b).Knows (s.conn .near a))
      (hstatus : pkt.body.status = 0) (hdest : pkt.payload.destConnIndex = a)
      (tells : pkt.Tells (s.conn .far b)) : Fits s (.replied pkt)
  | established (h : ∀ side, ∃ c d, s.context side = some c ∧ s.context side.other = some d ∧
      (s.conn side c).UsedAs c .active ∧ (s.conn side.other d).UsedAs d .active ∧
      (s.conn side c).Knows (s.conn side.other d)) : Fits s .established
  | leaving {side : Side} {hdr : IonetHeader} {d : Nat} (hleft : s.context side = none)
      (hstays : s.context side.other = some d) (stays : (s.conn side.other d).UsedAs d .active)
      (hseq : hdr.sequenceNumber = d)
      (hkey : hdr.payloadLength = (s.conn side.other d).lowbitTimestamp) :
      Fits s (.leaving side hdr)

end ConnPair

/-- While the request waits, the stamp that the answer will bring is the one whose key its context
has. -/
def ConnPair.Stamped (s : ConnPair) : Prop :=
  s.stage = .answered → ∀ c, s.context .far = some c →
    low16 (s.conn .far c).myTimestamp = (s.conn .far c).lowbitTimestamp

structure PairInv (n : Side → Nat) (s : ConnPair) : Prop where
  indexed : ∀ side, Indexed (n side) (s.node side)
  inside : ∀ side c, s.context side = some c → c < n side
  fits : s.Fits s.stage
  stamped : s.Stamped

variable {n : Side → Nat} {s s' : ConnPair} {side : Side} {i : PairInput} {stage : Stage}

namespace ConnPair

@[simp] theorem node_set {m : MyContext} {c : Option Nat} :
    (s.set side m c stage).node side = m := Function.update_self ..

@[simp] theorem context_set {m : MyContext} {c : Option Nat} :
    (s.set side m c stage).context side = c := Function.update_self ..

theorem node_set_of_ne {side' : Side} {m : MyContext} {c : Option Nat} (h : side' ≠ side) :
    (s.set side m c stage).node side' = s.node side' := Function.update_of_ne h ..

theorem context_set_of_ne {side' : Side} {m : MyContext} {c : Option Nat} (h : side' ≠ side) :
    (s.set side m c stage).context side' = s.context side' := Function.update_of_ne h ..

theorem conn_set {m : MyContext} {c : Option Nat} {i : Nat} :
    (s.set side m c stage).conn side i = m.conn i := by
  unfold conn
  rw [node_set]

theorem conn_set_of_ne {side' : Side} {m : MyContext} {c : Option Nat} {i : Nat}
    (h : side' ≠ side) : (s.set side m c stage).conn side' i = s.conn side' i := by
  unfold conn
  rw [node_set_of_ne h]

/-- Nothing in a stage looks at links or stamps, or at other contexts. -/
theorem Fits.congr (h : s.Fits stage) (hcontext : s'.context = s.context)
    (he : ∀ side c, s.context side = some c →
      (s'.conn side c).timeless = (s.conn side c).timeless) : s'.Fits stage := by
  cases h with
  | idle h => exact .idle (hcontext ▸ h)
  | requested hnear hfar near tells =>
    have hn := he _ _ hnear
    exact .requested (hcontext ▸ hnear) (hcontext ▸ hfar) (near.congr hn) (tells.congr hn)
  | answered hnear hfar near far knows =>
    have hn := he _ _ hnear
    have hf := he _ _ hfar
    exact .answered (hcontext ▸ hnear) (hcontext ▸ hfar) (near.congr hn) (far.congr hf)
      (knows.congr hf hn)
  | replied hnear hfar near far knows hstatus hdest tells =>
    have hn := he _ _ hnear
    have hf := he _ _ hfar
    exact .replied (hcontext ▸ hnear) (hcontext ▸ hfar) (near.congr hn) (far.congr hf)
      (knows.congr hf hn) hstatus hdest (tells.congr hf)
  | established h =>
    refine .established fun side => ?_
    obtain ⟨c, d, hc, hd, here, there, knows⟩ := h side
    have hh := he _ _ hc
    have ht := he _ _ hd
    exact ⟨c, d, hcontext ▸ hc, hcontext ▸ hd, here.congr hh, there.congr ht, knows.congr hh ht⟩
  | leaving hleft hstays stays hseq hkey =>
    have hs := he _ _ hstays
    refine .leaving (hcontext ▸ hleft) (hcontext ▸ hstays) (stays.congr hs) hseq (hkey.trans ?_)
    exact (congrArg Connection.lowbitTimestamp hs).symm

end ConnPair

namespace PairInv

theorem set {m : MyContext} {c : Option Nat} (h : PairInv n s) (hm : Indexed (n side) m)
    (hin : ∀ d, c = some d → d < n side) (hfits : (s.set side m c stage).Fits stage)
    (hstamped : (s.set side m c stage).Stamped) : PairInv n (s.set side m c stage) := by
  refine ⟨fun side' => ?_, fun side' d hd => ?_, hfits, hstamped⟩
  · by_cases hside : side' = side
    · subst hside
      rw [ConnPair.node_set]
      exact hm
    · rw [ConnPair.node_set_of_ne hside]
      exact h.indexed side'
  · by_cases hside : side' = side
    · subst hside
      rw [ConnPair.context_set] at hd
      exact hin d hd
    · rw [ConnPair.context_set_of_ne hside] at hd
      exact h.inside side' d hd

/-- A step that keeps the contexts of the connection but for links and stamps. -/
theorem keep {m : MyContext} (h : PairInv n s) (hm : Indexed (n side) m)
    (he : ∀ c, s.context side = some c → (m.conn c).timeless = (s.conn side c).timeless)
    (hstamped : (s.set side m (s.context side) s.stage).Stamped) :
    PairInv n (s.set side m (s.context side) s.stage) := by
  refine h.set hm (h.inside side) (h.fits.congr ?_ fun side' c hc => ?_) hstamped
  · exact Function.update_eq_self side s.context
  · by_cases hside : side' = side
    · subst hside
      rw [ConnPair.conn_set]
      exact he c hc
    · rw [ConnPair.conn_set_of_ne hside]

theorem poll {env : PollEnv} (h : PairInv n s) (hok : InTime s (.poll side ioLink env)) :
    PairInv n (s.set side (pollIolink (s.node side) ioLink env).1 (s.context side) s.stage) := by
  refine h.keep (h.indexed side).poll (fun c _ => pollIolink_timeless c) fun hst c hc => ?_
  by_cases hside : side = .far
  · subst hside
    rw [ConnPair.context_set] at hc
    rw [ConnPair.conn_set]
    rcases pollIolink_cases (s.node .far) ioLink env with he | ⟨d, hd, he⟩
    · rw [he]
      exact h.stamped hst c hc
    · rw [he]
      by_cases hcd : c = d
      · subst hcd
        rw [MyContext.conn_modify_self]
        exact (hok hst rfl c hc hd).symm
      · rw [MyContext.conn_modify_of_ne hcd]
        exact h.stamped hst c hc
  · rw [ConnPair.context_set_of_ne (Ne.symm hside)] at hc
    rw [ConnPair.conn_set_of_ne (Ne.symm hside)]
    exact h.stamped hst c hc

theorem other {x : ConnInput} {m : MyContext} (h : PairInv n s) (hapart : s.Apart side x)
    (hm : connStep (s.node side) x = some m) :
    PairInv n (s.set side m (s.context side) s.stage) := by
  have hkeeps : ∀ c, s.context side = some c → (m.conn c).unlinked = (s.conn side c).unlinked :=
    fun c hc => connStep_other hm (hapart c hc)
  refine h.keep ((h.indexed side).step hm)
    (fun c hc => Connection.timeless_of_unlinked (hkeeps c hc)) fun hst c hc => ?_
  by_cases hside : side = .far
  · subst hside
    rw [ConnPair.context_set] at hc
    rw [ConnPair.conn_set]
    have hkeep := hkeeps c hc
    rw [field_of_unlinked Connection.myTimestamp hkeep fun _ => rfl,
      field_of_unlinked Connection.lowbitTimestamp hkeep fun _ => rfl]
    exact h.stamped hst c hc
  · rw [ConnPair.context_set_of_ne (Ne.symm hside)] at hc
    rw [ConnPair.conn_set_of_ne (Ne.symm hside)]
    exact h.stamped hst c hc

theorem connect (h : PairInv n s) (hst : s.stage = .idle)
    (hr : mudmConnect (s.node .near) env destNode req = some r) (hsent : r.sent = some pkt) :
    PairInv n (s.set .near r.m r.connContext (.requested pkt)) := by
  have hfits := h.fits
  rw [hst] at hfits
  cases hfits with
  | idle hnone =>
    obtain ⟨c, hhead, hctx, hwrites, hpkt⟩ := mudmConnect_sends hr (mudmConnect_rc hr hsent)
    have hc := (h.indexed .near).freelist hhead
    have hm : connStep (s.node .near) (.connect env destNode req) = some r.m := by
      simp only [connStep, hr, Option.map_some]
    have hused : ((s.node .near).requesting env.timeBase destNode req c).UsedAs c .pending :=
      MyContext.requesting_used ((h.indexed .near).index c hc)
    cases Option.some.inj (hsent.symm.trans hpkt)
    refine h.set ((h.indexed .near).step hm) (fun d hd => ?_) ?_ nofun
    · cases Option.some.inj (hctx.symm.trans hd)
      exact hc
    · refine .requested (a := c) (by rw [ConnPair.context_set, hctx]) ?_ ?_ ?_
      · rw [ConnPair.context_set_of_ne (by decide)]
        exact hnone .far
      · rw [ConnPair.conn_set]
        exact hused.congr hwrites.timeless
      · rw [ConnPair.conn_set]
        exact ConnPacket.Tells.congr ⟨rfl, rfl⟩ hwrites.timeless

theorem request (h : PairInv n s) (hst : s.stage = .requested pkt)
    (hc : (connectRequest (s.node .far) t pkt).2 = some c) :
    PairInv n (s.set .far (connectRequest (s.node .far) t pkt).1 (some c) .answered) := by
  have hfits := h.fits
  rw [hst] at hfits
  cases hfits with
  | @requested _ a hnear hfar near tells =>
    obtain ⟨hhead, hwrites⟩ := connectRequest_writes hc
    have hin := (h.indexed .far).freelist hhead
    have hm : connStep (s.node .far) (.request t pkt) =
        some (connectRequest (s.node .far) t pkt).1 := rfl
    have hused : ((s.node .far).answering t pkt c).UsedAs c .pending :=
      MyContext.answering_used ((h.indexed .far).index c hin)
    refine h.set ((h.indexed .far).step hm) (fun d hd => Option.some.inj hd ▸ hin) ?_ ?_
    · refine .answered (a := a) (b := c) ?_ ConnPair.context_set ?_ ?_ ?_
      · rw [ConnPair.context_set_of_ne (by decide)]
        exact hnear
      · rw [ConnPair.conn_set_of_ne (by decide)]
        exact near
      · rw [ConnPair.conn_set]
        exact hused.congr hwrites.timeless
      · rw [ConnPair.conn_set, ConnPair.conn_set_of_ne (by decide)]
        exact Connection.Knows.congr ⟨tells.index, tells.key⟩ hwrites.timeless rfl
    · intro _ d hd
      rw [ConnPair.context_set] at hd
      cases hd
      rw [ConnPair.conn_set, field_of_unlinked Connection.myTimestamp hwrites.self fun _ => rfl,
        field_of_unlinked Connection.lowbitTimestamp hwrites.self fun _ => rfl]
      rfl

theorem connReply (h : PairInv n s) (hst : s.stage = .answered) (hc : s.context .far = some c)
    (hr : mudmConnReply (s.node .far) env c reply = some r) (hsent : r.sent = some pkt)
    (hstatus : reply.body.status = 0) : PairInv n (s.set .far r.m (some c) (.replied pkt)) := by
  have hfits := h.fits
  rw [hst] at hfits
  cases hfits with
  | @answered a b hnear hfar near far knows =>
    cases Option.some.inj (hc.symm.trans hfar)
    have hin := h.inside .far c hc
    have hm : connStep (s.node .far) (.connReply env c reply) = some r.m := by
      simp only [connStep, hr, Option.map_some, (h.indexed .far).size, if_pos hin]
    cases mudmConnReply_writes hr with
    | stopped _ _ hnone =>
      rw [hnone] at hsent
      cases hsent
    | freed _ _ _ _ _ hnone =>
      rcases hnone with hnone | ⟨hne, -⟩
      · rw [hnone] at hsent
        cases hsent
      · exact absurd hstatus hne
    | sent hwrites _ _ hpkt =>
      cases Option.some.inj (hsent.symm.trans hpkt)
      have hused : ((s.node .far).replying reply c).UsedAs c .active :=
        ⟨far.index, ⟨far.owned.magic, far.owned.active, far.owned.pend, far.owned.abort⟩, rfl⟩
      have htells : ((s.node .far).replyPacket reply c).Tells ((s.node .far).replying reply c) :=
        ⟨rfl, h.stamped hst c hc⟩
      have hknows : ((s.node .far).replying reply c).Knows (s.conn .near a) :=
        ⟨knows.index, knows.key⟩
      refine h.set ((h.indexed .far).step hm) (fun d hd => Option.some.inj hd ▸ hin) ?_ nofun
      refine .replied (a := a) (b := c) ?_ ConnPair.context_set ?_ ?_ ?_ hstatus ?_ ?_
      · rw [ConnPair.context_set_of_ne (by decide)]
        exact hnear
      · rw [ConnPair.conn_set_of_ne (by decide)]
        exact near
      · rw [ConnPair.conn_set]
        exact hused.congr hwrites.timeless
      · rw [ConnPair.conn_set, ConnPair.conn_set_of_ne (by decide)]
        exact hknows.congr hwrites.timeless rfl
      · exact knows.index.trans near.index
      · rw [ConnPair.conn_set]
        exact htells.congr hwrites.timeless

theorem accept {x : MyContext × Option Nat} (h : PairInv n s) (hst : s.stage = .replied pkt)
    (hx : connectReply (s.node .near) pkt = some x) :
    PairInv n (s.set .near x.1 (s.context .near) .established) := by
  have hfits := h.fits
  rw [hst] at hfits
  cases hfits with
  | @replied _ a b hnear hfar near far knows hstatus hdest tells =>
    have hin := h.inside .near a hnear
    have hctx : replyContext (s.node .near) pkt = some a := by
      unfold replyContext
      rw [hdest, if_pos ⟨(h.indexed .near).size.symm ▸ hin, near.owned.magic⟩]
    have hm : connStep (s.node .near) (.reply pkt) = some x.1 := by
      simp only [connStep, hx, Option.map_some]
    have hwrites := (connectReply_writes hctx hx).1 hstatus
    have hused : ((s.node .near).accepting pkt a).UsedAs a .active :=
      ⟨near.index, ⟨near.owned.magic, near.owned.active, near.owned.pend, near.owned.abort⟩, rfl⟩
    have hnear' := hused.congr hwrites.timeless
    have hknows := Connection.Knows.congr (k := (s.node .near).accepting pkt a)
      (l := s.conn .far b) ⟨tells.index, tells.key⟩ hwrites.timeless rfl
    have hknown := Connection.Knows.congr (k := s.conn .far b)
      (l := (s.node .near).accepting pkt a) ⟨knows.index, knows.key⟩ rfl hwrites.timeless
    refine h.set ((h.indexed .near).step hm) (h.inside .near) (.established fun side => ?_) nofun
    have hfar' : (s.set .near x.1 (s.context .near) .established).conn .far b = s.conn .far b :=
      ConnPair.conn_set_of_ne (by decide)
    have hctx' : (s.set .near x.1 (s.context .near) .established).context .far = some b := by
      rw [ConnPair.context_set_of_ne (by decide)]
      exact hfar
    cases side with
    | near =>
      refine ⟨a, b, ConnPair.context_set.trans hnear, hctx', ?_, ?_, ?_⟩
      · rw [ConnPair.conn_set]
        exact hnear'
      · rw [Side.other, hfar']
        exact far
      · rw [Side.other, ConnPair.conn_set, hfar']
        exact hknows
    | far =>
      refine ⟨b, a, hctx', ConnPair.context_set.trans hnear, ?_, ?_, ?_⟩
      · rw [hfar']
        exact far
      · rw [Side.other, ConnPair.conn_set]
        exact hnear'
      · rw [Side.other, ConnPair.conn_set, hfar']
        exact hknown

theorem disconnect {x : MyContext × Int × Option MemFifoDescriptor} {desc : MemFifoDescriptor}
    (h : PairInv n s) (hst : s.stage = .established) (hc : s.context side = some c)
    (hx : mudmDisconnect (s.node side) env c = some x) (hsent : x.2.2 = some desc) :
    PairInv n (s.set side x.1 none (.leaving side desc.hdr)) := by
  have hfits := h.fits
  rw [hst] at hfits
  cases hfits with
  | established hends =>
    obtain ⟨c', d, hc', hd, here, there, knows⟩ := hends side
    cases Option.some.inj (hc.symm.trans hc')
    have hm : connStep (s.node side) (.disconnect env c) = some x.1 := by
      simp only [connStep, hx, Option.map_some, (h.indexed side).size, if_pos (h.inside side c hc)]
    have hdesc : desc = ((s.node side).conn c).disconnectDescriptor := by
      cases mudmDisconnect_writes hx with
      | stopped _ hnone =>
        rw [hnone] at hsent
        cases hsent
      | lost _ _ _ _ hnone =>
        rw [hnone] at hsent
        cases hsent
      | sent _ _ _ _ hdesc => exact Option.some.inj (hsent.symm.trans hdesc)
    subst hdesc
    refine h.set ((h.indexed side).step hm) nofun ?_ nofun
    refine .leaving (d := d) ConnPair.context_set ?_ ?_ (knows.index.trans there.index) ?_
    · rw [ConnPair.context_set_of_ne Side.other_ne]
      exact hd
    · rw [ConnPair.conn_set_of_ne Side.other_ne]
      exact there
    · rw [ConnPair.conn_set_of_ne Side.other_ne]
      exact knows.key

theorem disconnected {x : MyContext × Int × Option Nat} (h : PairInv n s)
    (hst : s.stage = .leaving side hdr) (hx : disconnectRequest (s.node side.other) hdr = some x) :
    PairInv n (s.set side.other x.1 none .idle) := by
  have hfits := h.fits
  rw [hst] at hfits
  cases hfits with
  | leaving hleft =>
    have hm : connStep (s.node side.other) (.disconnected hdr) = some x.1 := by
      simp only [connStep, hx, Option.map_some]
    refine h.set ((h.indexed side.other).step hm) nofun (.idle fun side' => ?_) nofun
    by_cases hside : side' = side.other
    · subst hside
      exact ConnPair.context_set
    · rw [ConnPair.context_set_of_ne hside, Side.eq_other hside, Side.other_other]
      exact hleft

/-- What the two ends know of each other survives every step that comes in time. -/
theorem step (h : PairInv n s) (hok : InTime s i) (hs : pairStep s i = some s') :
    PairInv n s' := by
  cases i with
  | poll side ioLink env =>
    cases Option.some.inj hs
    exact h.poll hok
  | connect env destNode req =>
    cases hst : s.stage with
    | idle =>
      simp only [pairStep, hst] at hs
      obtain ⟨r, hr, hs⟩ := Option.bind_eq_some_iff.mp hs
      obtain ⟨pkt, hpkt, hs⟩ := Option.bind_eq_some_iff.mp hs
      cases Option.some.inj hs
      exact h.connect hst hr hpkt
    | _ =>
      simp only [pairStep, hst] at hs
      cases hs
  | request t =>
    cases hst : s.stage with
    | requested pkt =>
      simp only [pairStep, hst] at hs
      obtain ⟨c, hc, hs⟩ := Option.bind_eq_some_iff.mp hs
      cases Option.some.inj hs
      exact h.request hst hc
    | _ =>
      simp only [pairStep, hst] at hs
      cases hs
  | connReply env reply =>
    cases hst : s.stage with
    | answered =>
      simp only [pairStep, hst] at hs
      obtain ⟨c, hc, hs⟩ := Option.bind_eq_some_iff.mp hs
      obtain ⟨r, hr, hs⟩ := Option.bind_eq_some_iff.mp hs
      obtain ⟨pkt, hpkt, hs⟩ := Option.bind_eq_some_iff.mp hs
      split at hs
      next hstatus =>
        cases Option.some.inj hs
        exact h.connReply hst hc hr hpkt hstatus
      next => cases hs
    | _ =>
      simp only [pairStep, hst] at hs
      cases hs
  | reply =>
    cases hst : s.stage with
    | replied pkt =>
      simp only [pairStep, hst] at hs
      obtain ⟨x, hx, hs⟩ := Option.bind_eq_some_iff.mp hs
      obtain ⟨c, hc, hs⟩ := Option.bind_eq_some_iff.mp hs
      cases Option.some.inj hs
      exact h.accept hst hx
    | _ =>
      simp only [pairStep, hst] at hs
      cases hs
  | disconnect side env =>
    cases hst : s.stage with
    | established =>
      simp only [pairStep, hst] at hs
      obtain ⟨c, hc, hs⟩ := Option.bind_eq_some_iff.mp hs
      obtain ⟨x, hx, hs⟩ := Option.bind_eq_some_iff.mp hs
      obtain ⟨desc, hdesc, hs⟩ := Option.bind_eq_some_iff.mp hs
      cases Option.some.inj hs
      exact h.disconnect hst hc hx hdesc
    | _ =>
      simp only [pairStep, hst] at hs
      cases hs
  | disconnected =>
    cases hst : s.stage with
    | leaving side hdr =>
      simp only [pairStep, hst] at hs
      obtain ⟨x, hx, hs⟩ := Option.bind_eq_some_iff.mp hs
      cases Option.some.inj hs
      exact h.disconnected hst hx
    | _ =>
      simp only [pairStep, hst] at hs
      cases hs
  | other side x =>
    simp only [pairStep] at hs
    split at hs
    next hapart =>
      obtain ⟨m, hm, hs⟩ := Option.map_eq_some_iff.mp hs
      cases hs
      exact h.other hapart hm
    next => cases hs

theorem init {m : Side → MyContext} (hn : ∀ side, 0 < n side ∧ n side ≤ 2 ^ 16) :
    PairInv n (newPair m n) :=
  ⟨fun side => .init (hn side).1 (hn side).2, nofun, .idle fun _ => rfl, nofun⟩

theorem keysServe (h : PairInv n s) : KeysServe s := by
  have hfits := h.fits
  refine ⟨fun hst side env hlink => ?_, fun side hdr hst => ?_⟩
  · rw [hst] at hfits
    cases hfits with
    | established hends =>
      obtain ⟨c, d, hc, hd, here, there, knows⟩ := hends side
      have hindex : (s.conn side c).UsedAs c .active := here
      obtain ⟨m, hm⟩ := mudmDisconnect_leaves hindex hlink
      exact ⟨c, d, m, _, hc, hd, hm, knows.index.trans there.index, knows.key⟩
  · rw [hst] at hfits
    cases hfits with
    | @leaving _ _ d hleft hstays stays hseq hkey =>
      have hin : d < (s.node side.other).maxConnections :=
        (h.indexed side.other).size.symm ▸ h.inside side.other d hstays
      have hused : ((s.node side.other).conn d).UsedAs d .active := stays
      obtain ⟨m, hm, hfrees⟩ := disconnectRequest_takes hin hused hseq hkey
      exact ⟨d, m, hstays, hkey, hm, hfrees⟩

end PairInv

/-- As long as no poll clears the stamp of a context whose answer is due, the keys of every connection
serve whichever end leaves it. -/
theorem disconnect_keys_serve {m : Side → MyContext} {n : Side → Nat} {is : List PairInput}
    (hn : ∀ side, 0 < n side ∧ n side ≤ 2 ^ 16) (hok : Meets pairStep InTime (newPair m n) is) :
    Always pairStep KeysServe (newPair m n) is := by
  have hinv : Always pairStep (PairInv n) (newPair m n) is :=
    always_of_step (fun _ _ _ h hi hs => h.step hi hs) (PairInv.init hn) hok
  exact hinv.imp fun _ h => h.keysServe

instance decidableInTime (s : ConnPair) : ∀ i, Decidable (InTime s i)
  | .poll side ioLink env =>
    inferInstanceAs (Decidable (s.stage = .answered → side = .far → ∀ c ∈ s.context .far,
      (s.node .far).overdue ioLink env = some c → ((s.node .far).conn c).lowbitTimestamp = 0))
  | .connect .. | .request .. | .connReply .. | .reply | .disconnect .. | .disconnected
  | .other .. => isTrue trivial

/-- The request is polled for on both sides, the asking one more than a minute later, and another one
comes; then it is answered, and the answering end leaves. -/
def answeredInTime : List PairInput :=
  [.connect (upEnv 100) 5 default, .poll .near 0 ⟨0, 0, 96000000101⟩, .request 200,
    .poll .far 0 ⟨0, 0, 96000000200⟩, .other .far (.request 250 someReply),
    .connReply (upEnv 300) default, .reply, .disconnect .far (upEnv 400), .disconnected]

theorem disconnect_keys_serve_in_time :
    Always pairStep KeysServe (newPair twoEnds fun _ => 4) answeredInTime :=
  disconnect_keys_serve (fun _ => by decide) (by decide +kernel)

/-- The answering node polls once, more than a minute after the request has come. -/
def answeredLate : List PairInput :=
  [.connect (upEnv 100) 5 default, .request 200, .poll .far 0 ⟨0, 0, 96000000201⟩,
    .connReply (upEnv 300) default, .reply, .disconnect .near (upEnv 400)]

/-- What the end that asked then sends when it leaves. -/
def keylessHeader : IonetHeader := ⟨0, 1, 5, 0, .disconnected, 0, 0⟩

/-- The header has the key 0, and the other end, whose key is 200, refuses it. -/
theorem late_answer_zero_key :
    ¬ Always pairStep KeysServe (newPair twoEnds fun _ => 4) answeredLate := by
  intro h
  have hmap : (run pairStep (newPair twoEnds fun _ => 4) answeredLate).map
      (fun s => (s.stage, s.context .far, ((s.node .far).conn 0).lowbitTimestamp)) =
        some (.leaving .near keylessHeader, some 0, 200) := by
    decide +kernel
  obtain ⟨s, hs, hlast⟩ := Option.map_eq_some_iff.mp hmap
  simp only [Prod.mk.injEq] at hlast
  obtain ⟨hstage, hcontext, hlowbit⟩ := hlast
  obtain ⟨d, m, hd, hkey, -, -⟩ := (h.last hs).taken .near keylessHeader hstage
  cases Option.some.inj (hcontext.symm.trans hd)
  have hkeys : (0 : Nat) = 200 := hkey.trans hlowbit
  exact absurd hkeys (by decide)

end BgqVrnic
