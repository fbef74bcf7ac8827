import BgqVrnic.RegionSlices

namespace BgqVrnic

/-- A direct put between a local and a remote range, with the index of the local entry it came from. -/
structure Put where
  entry : Nat
  localPa : Nat
  remotePa : Nat
  length : Nat
  deriving DecidableEq, Repr, Inhabited

/-- The two list cursors of an RDMA loop, what is left of the entries under them, and `totalbytes`. -/
structure Walk where
  li : Nat
  ri : Nat
  curLocalPa : Nat
  curLocalMemlength : Nat
  curRemotePa : Nat
  curRemoteMemlength : Nat
  totalbytes : Nat
  deriving DecidableEq, Repr, Inhabited

namespace Walk

def start (localSgl remoteSgl : Nat → MudmSgl) : Walk :=
  { li := 0, ri := 0
    curLocalPa := (localSgl 0).physicalAddr
    curLocalMemlength := (localSgl 0).memlength
    curRemotePa := (remoteSgl 0).physicalAddr
    curRemoteMemlength := (remoteSgl 0).memlength
    totalbytes := 0 }

/-- The loop condition; nothing else tells it that a list has ended. -/
def live (w : Walk) : Bool := w.curLocalPa ≠ 0 && w.curRemotePa ≠ 0

def chunk (w : Walk) : Nat := min w.curLocalMemlength w.curRemoteMemlength

/-- `totalbytes` after the next put, a `uint32_t`. -/
def sum (w : Walk) : Nat := (w.totalbytes + w.chunk) % 2 ^ 32

def put (w : Walk) (length : Nat) : Put := ⟨w.li, w.curLocalPa, w.curRemotePa, length⟩

/-- The end of the loop body: step over the entries that are used up. -/
def advance (localSgl remoteSgl : Nat → MudmSgl) (w : Walk) : Walk :=
  let l := localSgl (w.li + 1)
  let r := remoteSgl (w.ri + 1)
  if w.curLocalMemlength = w.curRemoteMemlength then
    { li := w.li + 1, ri := w.ri + 1
      curLocalPa := l.physicalAddr, curLocalMemlength := l.memlength
      curRemotePa := r.physicalAddr, curRemoteMemlength := r.memlength
      totalbytes := w.sum }
  else if w.curLocalMemlength < w.curRemoteMemlength then
    { w with
      li := w.li + 1
      curLocalPa := l.physicalAddr, curLocalMemlength := l.memlength
      curRemotePa := w.curRemotePa + w.curLocalMemlength
      curRemoteMemlength := w.curRemoteMemlength - w.curLocalMemlength
      totalbytes := w.sum }
  else
    { w with
      ri := w.ri + 1
      curLocalPa := w.curLocalPa + w.curRemoteMemlength
      curLocalMemlength := w.curLocalMemlength - w.curRemoteMemlength
      curRemotePa := r.physicalAddr, curRemoteMemlength := r.memlength
      totalbytes := w.sum }

/-- The length of the last put of a read, cut down to what was asked for, in 64-bit arithmetic. -/
def clipped (w : Walk) (bytesXfer : Nat) : Nat :=
  if bytesXfer < w.sum then (bytesXfer + w.chunk + (2 ^ 64 - w.sum)) % 2 ^ 64 else w.chunk

end Walk

/-- What an RDMA call has done: the puts of data it injected, whether it wrote an error to the remote
RDMA object in place of a completion, and its return value once it has left its loop. -/
structure Dma where
  puts : List Put
  notice : Bool
  rc : Option Int
  deriving DecidableEq, Repr

/-- The loop of `mudm_rdma_write`, with the puts injected so far: each goes out at once. -/
def writeLoop (bytesXfer : Nat) (localSgl remoteSgl : Nat → MudmSgl) :
    Nat → Walk → List Put → Dma
  | 0, _, puts => ⟨puts, false, none⟩
  | rounds + 1, w, puts =>
    if w.live then
      if bytesXfer < w.sum then ⟨puts, true, some (-EINVAL)⟩
      else if bytesXfer ≤ w.sum then ⟨puts ++ [w.put w.chunk], false, some 0⟩
      else
        writeLoop bytesXfer localSgl remoteSgl rounds (w.advance localSgl remoteSgl)
          (puts ++ [w.put w.chunk])
    else if w.totalbytes = bytesXfer then ⟨puts, false, some 0⟩
    else ⟨puts, true, some (-EINVAL)⟩

/-- `mudm_rdma_write` within the given number of rounds of its loop, which has no bound of its own. -/
def mudmRdmaWrite (bytesXfer : Nat) (localSgl remoteSgl : Nat → MudmSgl) (rounds : Nat) : Dma :=
  if bytesXfer = 0 then ⟨[], false, some (-EINVAL)⟩
  else writeLoop bytesXfer localSgl remoteSgl rounds (Walk.start localSgl remoteSgl) []

/-- `mudm_rdma_read` collects the puts for the remote end in bundles: `bundle` is the one it is
filling, `sent` are the puts of those that have gone out. -/
structure ReadWalk where
  walk : Walk
  bundle : List Put
  sent : List Put

def ReadWalk.flush (t : ReadWalk) : ReadWalk :=
  { t with bundle := [], sent := t.sent ++ t.bundle }

/-- A full bundle goes out before the next put is built. -/
def ReadWalk.makeRoom (t : ReadWalk) : ReadWalk := if t.bundle.length = 8 then t.flush else t

/-- The loop of `mudm_rdma_read`, and whether it has been left. -/
def readLoop (bytesXfer : Nat) (localSgl remoteSgl : Nat → MudmSgl) :
    Nat → ReadWalk → ReadWalk × Bool
  | 0, t => (t, false)
  | rounds + 1, t =>
    let w := t.walk
    if w.live then
      let t := t.makeRoom
      let t := { t with bundle := t.bundle ++ [w.put (w.clipped bytesXfer)] }
      if bytesXfer ≤ w.sum then ({ t with walk := { w with totalbytes := w.sum } }, true)
      else
        readLoop bytesXfer localSgl remoteSgl rounds
          { t with walk := w.advance localSgl remoteSgl }
    else (t, true)

/-- What follows the loop of `mudm_rdma_read`: if the byte count is wrong, puts that are not yet sent
go out only if the count is too high and others have been sent before. -/
def finishRead (bytesXfer rdmaObject : Nat) (t : ReadWalk) : Dma :=
  let notice := decide (rdmaObject ≠ 0)
  if t.walk.totalbytes = bytesXfer then ⟨t.flush.sent, false, some (-EINPROGRESS)⟩
  else if t.sent = [] then ⟨[], notice, some (-EINVAL)⟩
  else if bytesXfer < t.walk.totalbytes then ⟨t.flush.sent, notice, some (-EINVAL)⟩
  else ⟨t.sent, notice, some (-EINVAL)⟩

/-- `mudm_rdma_read` once it has a packet and an RDMA object, within the given number of rounds. -/
def mudmRdmaRead (bytesXfer rdmaObject : Nat) (localSgl remoteSgl : Nat → MudmSgl) (rounds : Nat) :
    Dma :=
  let (t, left) :=
    readLoop bytesXfer localSgl remoteSgl rounds ⟨Walk.start localSgl remoteSgl, [], []⟩
  if left then finishRead bytesXfer rdmaObject t else ⟨t.sent, false, none⟩

end BgqVrnic
