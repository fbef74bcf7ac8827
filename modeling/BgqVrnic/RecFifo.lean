import BgqVrnic.RingWindow
import BgqVrnic.Runs

namespace BgqVrnic

open Runs

def maxPacketBytes : Nat := 544

/-- `BGQ_MU_MIN_RECFIFO_SIZE_IN_BYTES`: one packet and one chunk of 32 bytes that stays unused -/
def minRecFifoSize : Nat := maxPacketBytes + 32

/-- `MUSPI_RecFifo_t` with its shadow and, in the fields named `hw`, the registers of the MU. All
pointers are offsets from the start of the fifo. -/
structure RecFifo where
  mem : Nat → UInt8
  vaHead : Nat
  vaTail : Nat
  hwHead : Nat
  hwTail : Nat

/-- `(hdr->NetworkHeader.pt2pt.Byte8.Size + 1) << 5` -/
def headerBytes (byte8 : UInt8) : Nat := (byte8.toNat % 32 + 1) * 32

namespace RecFifo

/-- `MUSPI_getAvailableBytes` with its result of 32 bits, and whether the packet at the head may
wrap. -/
def getAvailableBytes (size : Nat) (f : RecFifo) : RecFifo × Nat × Bool :=
  let f := { f with vaTail := f.hwTail }
  if f.vaTail = f.vaHead then (f, 0, false)
  else if f.vaHead < f.vaTail then (f, (f.vaTail - f.vaHead) % 2 ^ 32, false)
  else if f.vaHead < size - maxPacketBytes then
    (f, (size - f.vaHead - maxPacketBytes) % 2 ^ 32, false)
  else (f, (size - f.vaHead) % 2 ^ 32, true)

/-- `MUSPI_getNextPacketOptimized`, with the bytes that the packet pointer leads to. -/
def getNextPacketOptimized (f : RecFifo) : RecFifo × List UInt8 :=
  let bytes := headerBytes (f.mem (f.vaHead + 8))
  ({ f with vaHead := f.vaHead + bytes }, Rings.read f.mem f.vaHead bytes)

/-- `getNextPacketWrap`; a packet that reaches the end of the fifo is put together in `_wrapBuf`. -/
def getNextPacketWrap (size : Nat) (f : RecFifo) : RecFifo × List UInt8 :=
  let bytes := headerBytes (f.mem (f.vaHead + 8))
  if f.vaHead + bytes < size then
    ({ f with vaHead := f.vaHead + bytes }, Rings.read f.mem f.vaHead bytes)
  else
    let endBytes := size - f.vaHead
    let startBytes := bytes - endBytes
    ({ f with vaHead := startBytes },
      Rings.read f.mem f.vaHead endBytes ++ Rings.read f.mem 0 startBytes)

def syncHwHead (f : RecFifo) : RecFifo := { f with hwHead := f.vaHead }

/-- The MU writes a packet around the ring and moves its tail. -/
def muWrite (size : Nat) (f : RecFifo) (packet : List UInt8) : RecFifo :=
  { f with
    mem := Rings.write size f.mem f.hwTail packet
    hwTail := (f.hwTail + packet.length) % size }

/-- What the MU has not been told that it may write over. -/
def used (size : Nat) (f : RecFifo) : Nat := (f.hwTail + size - f.hwHead) % size

end RecFifo

/-- What the MU writes: its header tells its length. -/
def IsPacket (packet : List UInt8) : Prop :=
  packet.length = headerBytes (packet.getD 8 0) ∧ packet.length ≤ maxPacketBytes

instance decidableIsPacket (packet : List UInt8) : Decidable (IsPacket packet) :=
  inferInstanceAs (Decidable (_ ∧ _))

/-- `mudm_recv_packet` and `mudm_recv_bcast` -/
inductive RecvHandler
  | packet | bcast
  deriving DecidableEq, Repr

/-- The handler by `Data_Packet_Type`. -/
def handlerOf (packet : List UInt8) : RecvHandler :=
  if packet.getD 0 0 = 0x55 then .packet else .bcast

/-- Where `mudm_fifo_poll` is: it is going to read the tail, goes through packets that do not wrap, takes
the one packet that may wrap, or is going to store the head. -/
inductive PollPhase
  | idle
  | top
  | draining (totalBytes cumulativeBytes : Nat)
  | wrapping
  | syncing
  deriving DecidableEq, Repr

/-- The fifo, the poll, and the history: what the MU wrote, how much of it the poll has seen at its last
look at the tail, and what the handlers were called with. -/
structure PollState where
  fifo : RecFifo
  phase : PollPhase
  packetsDone : Nat
  written : List (List UInt8)
  seen : Nat
  delivered : List (RecvHandler × List UInt8)

/-- The MU writes a packet, `mudm_fifo_poll` is called, or it takes its next step. -/
inductive PollInput
  | write (packet : List UInt8)
  | poll
  | go
  deriving DecidableEq, Repr

def deliver (s : PollState) (fifo : RecFifo) (phase : PollPhase) (packet : List UInt8) : PollState :=
  { s with
    fifo := fifo
    phase := phase
    packetsDone := (s.packetsDone + 1) % 2 ^ 64
    delivered := s.delivered ++ [(handlerOf packet, packet)] }

def readTail (size : Nat) (s : PollState) : PollState :=
  let (fifo, totalBytes, wrap) := s.fifo.getAvailableBytes size
  { s with
    fifo := fifo
    seen := s.written.length
    phase := if totalBytes = 0 then .idle else if wrap then .wrapping else .draining totalBytes 0 }

def pollGo (size : Nat) (s : PollState) : Option PollState :=
  match s.phase with
  | .idle => none
  | .top => some (readTail size s)
  | .draining total cumulative =>
    if cumulative < total then
      let (fifo, packet) := s.fifo.getNextPacketOptimized
      some (deliver s fifo (.draining total ((cumulative + packet.length) % 2 ^ 32)) packet)
    else some { s with phase := .syncing }
  | .wrapping =>
    let (fifo, packet) := s.fifo.getNextPacketWrap size
    some (deliver s fifo .syncing packet)
  | .syncing => some { s with fifo := s.fifo.syncHwHead, phase := .top }

def pollStep (size : Nat) (s : PollState) : PollInput → Option PollState
  | .write packet =>
    if IsPacket packet ∧ s.fifo.used size + packet.length + 32 ≤ size then
      some { s with fifo := s.fifo.muWrite size packet, written := s.written ++ [packet] }
    else none
  | .poll => if s.phase = .idle then some { s with phase := .top, packetsDone := 0 } else none
  | .go => pollGo size s

/-- `Kernel_RecFifoInit`, whatever the memory holds. -/
def emptyFifo (mem : Nat → UInt8) : PollState := ⟨⟨mem, 0, 0, 0, 0⟩, .idle, 0, [], 0, []⟩

/-- Every packet is handled once, in order and as it was written; the head stays inside the fifo; and
when the poll has returned, its head is the tail that it read last, everything before it handled. -/
structure PollSound (size : Nat) (s : PollState) : Prop where
  inOrder : s.delivered =
    (s.written.take s.delivered.length).map fun packet => (handlerOf packet, packet)
  inside : s.fifo.vaHead < size
  caughtUp : s.phase = .idle → s.fifo.vaHead = s.fifo.vaTail ∧ s.delivered.length = s.seen

end BgqVrnic
