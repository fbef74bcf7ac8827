import BgqVrnic.Resources
import BgqVrnic.Stores

namespace BgqVrnic

open Intrusive Pools

/-- `struct pkt_descriptor` with its time stamp and its connection, which may be null, for a poll. -/
structure PolledPkt extends PktDescriptor where
  timestamp : Nat
  ccontext : Option Nat
  deriving DecidableEq, Repr, Inhabited

namespace PolledPkt

/-- What `alloc_pkt_message` sets. -/
def allocated (pktd : PolledPkt) : PolledPkt :=
  { pktd with reqId := 0, errorVal := 0, timestamp := 0, descCnt := noDesc, ccontext := none }

/-- What `release_pkt_to_poll` sets at the time `now`. -/
def toPoll (descCount now : Nat) (pktd : PolledPkt) : PolledPkt :=
  { pktd with descCnt := descCount, timestamp := now }

end PolledPkt

/-- `struct pkt_controls` with its descriptors, by their pointers. `held` are the descriptors in the hands
of those that have allocated them, and `postings` those that have been posted by anyone but a poll, the
latest first. -/
structure PktControls where
  next : Nat → Option Nat
  desc : Nat → PolledPkt
  pktFreeList : Option Nat
  pktReqidList : Option Nat
  held : List Nat
  postings : List Nat

/-- What may be done with packets outside of a poll; descriptors that are not in hand are left alone. -/
inductive PktOp
  | alloc
  | toFree (pktd : Nat)
  | toPoll (pktd descCount now : Nat)
  | toPollCcontext (pktd descCount ccontext now : Nat)
  | fill (pktd reqId errorVal : Nat)
  deriving DecidableEq, Repr

/-- What the call is to the pool. -/
def PktOp.op : PktOp → Op PolledPkt
  | .alloc => .take PolledPkt.allocated
  | .toFree pktd => .release pktd fun d => { d with descCnt := 0 }
  | .toPoll pktd descCount now => .post pktd (PolledPkt.toPoll descCount now)
  | .toPollCcontext pktd descCount ccontext now =>
    .post pktd fun d => { d with ccontext := some ccontext }.toPoll descCount now
  | .fill pktd reqId errorVal => .write pktd fun d => { d with reqId := reqId, errorVal := errorVal }

namespace PktControls

/-- `alloc_pkt_message` -/
def alloc (c : PktControls) : PktControls :=
  match c.pktFreeList with
  | none => c
  | some pktd =>
    { c with
      pktFreeList := c.next pktd
      desc := Function.update c.desc pktd (c.desc pktd).allocated
      held := pktd :: c.held }

/-- `release_pkt_to_free` -/
def toFree (pktd : Nat) (c : PktControls) : PktControls :=
  { c with
    desc := Function.update c.desc pktd { c.desc pktd with descCnt := 0 }
    next := Function.update c.next pktd c.pktFreeList
    pktFreeList := some pktd
    held := c.held.erase pktd }

/-- `release_pkt_to_poll` -/
def toPoll (pktd descCount now : Nat) (c : PktControls) : PktControls :=
  { c with
    desc := Function.update c.desc pktd ((c.desc pktd).toPoll descCount now)
    next := Function.update c.next pktd c.pktReqidList
    pktReqidList := some pktd
    held := c.held.erase pktd
    postings := pktd :: c.postings }

/-- `release_pkt_to_poll_ccontext` -/
def toPollCcontext (pktd descCount ccontext now : Nat) (c : PktControls) : PktControls :=
  toPoll pktd descCount now
    { c with desc := Function.update c.desc pktd { c.desc pktd with ccontext := some ccontext } }

/-- `set_pkt_req_id` and `set_pkt_error_val` -/
def fill (pktd reqId errorVal : Nat) (c : PktControls) : PktControls :=
  { c with
    desc := Function.update c.desc pktd { c.desc pktd with reqId := reqId, errorVal := errorVal } }

def call (c : PktControls) : PktOp → PktControls
  | .alloc => c.alloc
  | .toFree pktd => if pktd ∈ c.held then c.toFree pktd else c
  | .toPoll pktd descCount now => if pktd ∈ c.held then c.toPoll pktd descCount now else c
  | .toPollCcontext pktd descCount ccontext now =>
    if pktd ∈ c.held then c.toPollCcontext pktd descCount ccontext now else c
  | .fill pktd reqId errorVal => if pktd ∈ c.held then c.fill pktd reqId errorVal else c

def calls (c : PktControls) (ops : List PktOp) : PktControls := ops.foldl call c

/-- The links lead through the lists of the pool. -/
structure Shows (c : PktControls) (p : Pool PolledPkt) : Prop where
  free : Chain c.next c.pktFreeList p.free
  posted : Chain c.next c.pktReqidList p.posted
  block : c.desc = p.block

/-- The two lists as those of any other pool. -/
def store (c : PktControls) : Store PolledPkt :=
  ⟨c.next, c.desc, c.pktFreeList, c.pktReqidList, c.held, c.postings⟩

end PktControls

variable {c c' : PktControls} {p p' : Pool PolledPkt} 
  {i descCount ccontext now reqId errorVal : Nat}

namespace PktControls

theorem Shows.alloc (h : c.Shows p) :
    (p.free = [] ∧ c.alloc = c) ∨
      ∃ i p', p.take PolledPkt.allocated = some (i, p') ∧ c.alloc.Shows p' ∧ c.alloc.held = i :: c.held ∧
        c.alloc.next = c.next ∧ c.alloc.postings = c.postings := by
  have hfree := h.free
  unfold PktControls.alloc Pool.take
  cases hlist : p.free with
  | nil =>
    rw [hlist] at hfree
    rw [show c.pktFreeList = none from hfree]
    exact Or.inl ⟨rfl, rfl⟩
  | cons i free =>
    rw [hlist] at hfree
    rw [hfree.1]
    refine Or.inr ⟨i, _, rfl, ⟨hfree.2, h.posted, ?_⟩, rfl, rfl, rfl⟩
    rw [h.block]
    rfl

/-- What calls from outside may have done: descriptors have moved between hands and the lists, those
posted came in front of the list, and all others are as before. -/
structure Outside (c : PktControls) (p : Pool PolledPkt) (c' : PktControls)
    (p' : Pool PolledPkt) : Prop where
  shows : c'.Shows p'
  blocks : (c'.held ++ p'.blocks).Perm (c.held ++ p.blocks)
  posts : ∃ l, c'.postings = l ++ c.postings ∧ p'.posted = l ++ p.posted
  frame : ∀ j, j ∉ c.held ++ p.free →
    j ∉ c'.held ++ p'.free ∧ c'.next j = c.next j ∧ c'.desc j = c.desc j

theorem shows_iff : c.Shows p ↔ c.store.Shows p :=
  ⟨fun h => ⟨h.free, h.posted, h.block⟩, fun h => ⟨h.free, h.posted, h.block⟩⟩

theorem outside_iff : Outside c p c' p' ↔ Store.Outside c.store p c'.store p' :=
  ⟨fun h => ⟨shows_iff.mp h.shows, h.blocks, h.posts, h.frame⟩,
    fun h => ⟨shows_iff.mpr h.shows, h.blocks, h.posts, h.frame⟩⟩

theorem store_toPollCcontext (c : PktControls) :
    (c.toPollCcontext i descCount ccontext now).store = c.store.post i
      fun d => { d with ccontext := some ccontext }.toPoll descCount now := by
  unfold toPollCcontext toPoll store Store.post Store.set
  dsimp only
  rw [Function.update_idem, Function.update_self]

theorem store_call (c : PktControls) (op : PktOp) : (c.call op).store = c.store.call op.op := by
  cases op with
  | alloc =>
    obtain ⟨next, desc, free, posted, held, postings⟩ := c
    cases free <;> rfl
  | toFree i =>
    unfold call
    unfold store PktOp.op Store.call
    dsimp only
    split <;> rfl
  | toPoll i descCount now =>
    unfold call
    unfold store PktOp.op Store.call
    dsimp only
    split <;> rfl
  | toPollCcontext i descCount ccontext now =>
    unfold call PktOp.op Store.call
    dsimp only
    rw [← store_toPollCcontext]
    exact apply_ite store _ _ _
  | fill i reqId errorVal =>
    unfold call
    unfold store PktOp.op Store.call
    dsimp only
    split <;> rfl

theorem store_calls (c : PktControls) (ops : List PktOp) :
    (c.calls ops).store = c.store.calls (ops.map PktOp.op) := by
  induction ops generalizing c with
  | nil => rfl
  | cons op ops ih =>
    have hrest := ih (c.call op)
    rw [store_call] at hrest
    exact hrest

theorem outside_toFree (h : c.Shows p) (hn : (c.held ++ p.blocks).Nodup) (hi : i ∈ c.held) :
    Outside c p (c.toFree i) ((p.set i fun d => { d with descCnt := 0 }).release i) :=
  outside_iff.mpr (Store.outside_release (shows_iff.mp h) hn hi fun d => { d with descCnt := 0 })

theorem outside_toPoll (descCount now : Nat) (h : c.Shows p) (hn : (c.held ++ p.blocks).Nodup)
    (hi : i ∈ c.held) :
    Outside c p (c.toPoll i descCount now) ((p.set i (PolledPkt.toPoll descCount now)).post i) :=
  outside_iff.mpr (Store.outside_post (shows_iff.mp h) hn hi (PolledPkt.toPoll descCount now))

theorem outside_toPollCcontext (descCount ccontext now : Nat) (h : c.Shows p)
    (hn : (c.held ++ p.blocks).Nodup) (hi : i ∈ c.held) :
    Outside c p (c.toPollCcontext i descCount ccontext now)
      ((p.set i fun d => { d with ccontext := some ccontext }.toPoll descCount now).post i) := by
  rw [outside_iff, store_toPollCcontext]
  exact Store.outside_post (shows_iff.mp h) hn hi
    fun d => { d with ccontext := some ccontext }.toPoll descCount now

theorem outside_fill (reqId errorVal : Nat) (h : c.Shows p) (hi : i ∈ c.held) :
    Outside c p (c.fill i reqId errorVal)
      (p.set i fun d => { d with reqId := reqId, errorVal := errorVal }) :=
  outside_iff.mpr (Store.outside_write (shows_iff.mp h) hi
    fun d => { d with reqId := reqId, errorVal := errorVal })

end PktControls

end BgqVrnic
