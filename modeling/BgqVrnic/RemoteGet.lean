import BgqVrnic.DirectPuts
import BgqVrnic.InjFifo
import BgqVrnic.RingWindow
import BgqVrnic.Runs

namespace BgqVrnic

open Runs

/-- What a remote get is asked for: the two lists, the byte count, and what its descriptors are made
from. -/
structure GetRequest where
  localSgl : Nat → MudmSgl
  remoteSgl : Nat → MudmSgl
  bytesXfer : Nat
  template : MuDescriptor
  rdmaObjectPa : Nat

/-- A descriptor for the peer: it puts the remote memory to the local one. -/
def GetRequest.descriptor (q : GetRequest) (p : Put) : MuDescriptor :=
  (Injection.directPut q.template p.length p.remotePa p.localPa q.rdmaObjectPa).build fun _ => 0

/-- The transfer plan: what the loop of `mudm_rdma_read` goes through in the given number of rounds,
whatever it does with its packet buffer. -/
def GetRequest.plan (q : GetRequest) : Nat → Walk → List Put
  | 0, _ => []
  | rounds + 1, w =>
    if w.live then
      w.put (w.clipped q.bytesXfer) ::
        if q.bytesXfer ≤ w.sum then [] else q.plan rounds (w.advance q.localSgl q.remoteSgl)
    else []

theorem GetRequest.plan_succ (q : GetRequest) (rounds : Nat) (w : Walk) : q.plan (rounds + 1) w =
    if w.live then
      w.put (w.clipped q.bytesXfer) ::
        if q.bytesXfer ≤ w.sum then [] else q.plan rounds (w.advance q.localSgl q.remoteSgl)
    else [] := rfl

def GetRequest.start (q : GetRequest) : Walk := Walk.start q.localSgl q.remoteSgl

/-- A `MUDM_DPUT` packet as the peer finds it. -/
structure DputPacket where
  size : Nat
  payload : Nat → MuDescriptor

/-- The MU sends `length` bytes of the buffer; `Byte8.Size` counts chunks of 32 bytes in 5 bits. -/
def dputPacket (buffer : Nat → MuDescriptor) (length : Nat) : DputPacket := ⟨length / 32 % 32, buffer⟩

/-- `multi_directput`: the descriptors that it is to inject. -/
def multiDirectput (packet : DputPacket) : List MuDescriptor :=
  Rings.read packet.payload 0 (packet.size >>> 1)

/-- Where `mudm_rdma_read` is: in its loop, waiting for a message before it uses its buffer again, behind
the loop, or back at its caller. -/
inductive GetPhase
  | building
  | waiting
  | leaving
  | returned (rc : Int)
  deriving DecidableEq, Repr

/-- The variables of `mudm_rdma_read`, the packet buffer in slots of one descriptor, and the messages that
the MU has not taken yet, by their lengths. A descriptor number of -1, which is never complete, is
`none`. The rest is history: the descriptors built, the slots written, the lengths of the messages, and
what the peer was to inject. -/
structure RemoteGet where
  walk : Walk
  buffer : Nat → MuDescriptor
  putdescCount : Nat
  descCount : Option Nat
  phase : GetPhase
  injected : Nat
  consumed : Nat
  pending : List Nat
  cancelled : Bool
  planned : List MuDescriptor
  slots : List Nat
  lengths : List Nat
  executed : List MuDescriptor

/-- The call takes its next step, with the link as an injection in it finds it, or the MU takes a
message. -/
inductive GetInput
  | go (active : Bool)
  | mu
  deriving DecidableEq, Repr

/-- `sizeof(MUHWI_Descriptor_t)` -/
def descriptorBytes : Nat := 64

namespace RemoteGet

/-- `dput_memfifo` with the descriptors in the buffer -/
def dput (s : RemoteGet) (active : Bool) : RemoteGet :=
  let length := descriptorBytes * s.putdescCount
  if active then
    { s with
      descCount := some (s.injected + 1)
      injected := s.injected + 1
      pending := s.pending ++ [length]
      lengths := s.lengths ++ [length] }
  else { s with descCount := none, cancelled := true }

/-- `MUSPI_CheckDescComplete` -/
def complete (s : RemoteGet) : Bool :=
  match s.descCount with
  | none => false
  | some desc => desc ≤ s.consumed

/-- One more descriptor in the buffer; the loop is left with the last byte. -/
def build (q : GetRequest) (s : RemoteGet) : RemoteGet :=
  let w := s.walk
  let desc := q.descriptor (w.put (w.clipped q.bytesXfer))
  let last := q.bytesXfer ≤ w.sum
  { s with
    buffer := Function.update s.buffer s.putdescCount desc
    putdescCount := s.putdescCount + 1
    slots := s.slots ++ [s.putdescCount]
    planned := s.planned ++ [desc]
    walk := if last then { w with totalbytes := w.sum } else w.advance q.localSgl q.remoteSgl
    phase := if last then .leaving else .building }

/-- What follows the loop. With a wrong byte count, the descriptors in the buffer go out only if there
are too many bytes and other messages have been sent. Where the call then waits for its counter, it has
nothing more to send. -/
def leave (q : GetRequest) (s : RemoteGet) (active : Bool) : RemoteGet :=
  let rest := if 0 < s.putdescCount then s.dput active else s
  if s.walk.totalbytes = q.bytesXfer then { rest with phase := .returned (-EINPROGRESS) }
  else if s.descCount = none then { s with phase := .returned (-EINVAL) }
  else if q.bytesXfer < s.walk.totalbytes then { rest with phase := .returned (-EINVAL) }
  else { s with phase := .returned (-EINVAL) }

def go (q : GetRequest) (s : RemoteGet) (active : Bool) : Option RemoteGet :=
  match s.phase with
  | .building =>
    if s.walk.live then
      if s.putdescCount = 8 then some { s.dput active with phase := .waiting }
      else some (s.build q)
    else some { s with phase := .leaving }
  | .waiting => some (if s.complete then { s with putdescCount := 0, phase := .building } else s)
  | .leaving => some (s.leave q active)
  | .returned _ => none

/-- The MU reads the payload of a message from the buffer when it takes the message, and the peer is to
inject what is in it. -/
def takeMessage (s : RemoteGet) : Option RemoteGet :=
  match s.pending with
  | [] => none
  | length :: pending =>
    some
      { s with
        pending := pending
        consumed := s.consumed + 1
        executed := s.executed ++ multiDirectput (dputPacket s.buffer length) }

end RemoteGet

def getStep (q : GetRequest) (s : RemoteGet) : GetInput → Option RemoteGet
  | .go active => s.go q active
  | .mu => s.takeMessage

/-- `mudm_rdma_read` in front of its loop, with whatever is in its packet buffer. -/
def newGet (q : GetRequest) (buffer : Nat → MuDescriptor) : RemoteGet :=
  { walk := q.start
    buffer := buffer
    putdescCount := 0
    descCount := none
    phase := .building
    injected := 0
    consumed := 0
    pending := []
    cancelled := false
    planned := []
    slots := []
    lengths := []
    executed := [] }

/-- The buffer has 8 slots, messages have 1 to 8 descriptors, the peer is never to inject anything but the
plan in its order, and a get that has gone through, no message cancelled, is the whole plan once the MU
has taken its messages. -/
structure GetSound (q : GetRequest) (s : RemoteGet) : Prop where
  slots : ∀ i ∈ s.slots, i < 8
  messages : ∀ length ∈ s.lengths, ∃ k, 1 ≤ k ∧ k ≤ 8 ∧ length = descriptorBytes * k
  planned : s.planned = (q.plan s.planned.length q.start).map q.descriptor
  inOrder : s.executed <+: s.planned
  whole : s.phase = .returned (-EINPROGRESS) → s.cancelled = false → s.pending = [] →
    ∀ rounds, s.executed.length ≤ rounds →
      s.executed = (q.plan rounds q.start).map q.descriptor

end BgqVrnic
