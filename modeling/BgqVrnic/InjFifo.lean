import BgqVrnic.ConnTypes

namespace BgqVrnic

/-- What the driver fills in of a 64-byte injection descriptor. -/
structure MuDescriptor where
  paPayload : Nat
  messageLength : Nat
  route : Route
  recFIFOId : Nat
  hdr : IonetHeader
  putOffset : Nat
  counterOffset : Nat
  deriving DecidableEq, Repr, Inhabited

/-- `MUDM_InjFifo_t` with its shadow and, in the fields named `hw`, the registers of the MU. The memory
of the fifo is counted in slots of one descriptor; a slot with `none` has been cleared. -/
structure InjFifo where
  slots : Nat → Option MuDescriptor
  tail : Nat
  freeSpace : Nat
  numInjected : Nat
  descCount : Nat
  hwHead : Nat
  hwTail : Nat
  hwDescCount : Nat
  hwFreeSpace : Nat
  active : Bool

/-- `(uint64_t)(-1)`: no descriptor -/
def noDesc : Nat := 2 ^ 64 - 1

/-- `muhwiAtomicAddressIndicator | muhwiAtomicOpcodeStoreAddCoherenceOnZero` -/
def atomicStoreAdd : Nat := 0x1000000000 + 3

/-- `BGQ_MU_MIN_INJFIFO_SLOTS` -/
def minInjFifoSlots : Nat := 2

/-- `Kernel_AllocateInjFifos` and `Kernel_InjFifoInit` for a fifo of `n` slots, whatever its memory
holds. One of the slots always stays unused. -/
def activatedFifo (n : Nat) (slots : Nat → Option MuDescriptor) : InjFifo :=
  { slots := slots
    tail := 0
    freeSpace := n - 1
    numInjected := 0
    descCount := 0
    hwHead := 0
    hwTail := 0
    hwDescCount := 0
    hwFreeSpace := n - 1
    active := true }

namespace InjFifo

/-- `MUSPI_InjFifoNextDesc`; the slot that it points to is the one at the tail. -/
def nextDesc (f : InjFifo) : InjFifo × Nat :=
  let f := if f.freeSpace = 0 then { f with freeSpace := f.hwFreeSpace } else f
  (f, if f.freeSpace = 0 then noDesc else (f.numInjected + 1) % 2 ^ 64)

def nextSlot (n slot : Nat) : Nat := if n ≤ slot + 1 then 0 else slot + 1

/-- `MUSPI_InjFifoAdvanceDesc`. With its new tail the MU has one slot less that is free. -/
def advanceDesc (n : Nat) (f : InjFifo) : InjFifo :=
  { f with
    -- `muspi_dcbz` warms up the cache block of the next slot by setting it to zero
    slots := Function.update f.slots (nextSlot n f.tail) none
    freeSpace := f.freeSpace - 1
    numInjected := (f.numInjected + 1) % 2 ^ 64
    tail := nextSlot n f.tail
    hwTail := nextSlot n f.tail
    hwFreeSpace := f.hwFreeSpace - 1 }

/-- `MUSPI_CheckDescComplete` -/
def checkDescComplete (f : InjFifo) (desc : Nat) : InjFifo × Bool :=
  if desc ≤ f.descCount then (f, true)
  else
    let f := { f with descCount := f.hwDescCount }
    (f, desc ≤ f.descCount)

/-- The MU takes the descriptor at its head, if there is one. -/
def consume (n : Nat) (f : InjFifo) : Option (InjFifo × Option MuDescriptor) :=
  if f.hwHead ≠ f.hwTail then
    some ({ f with
      hwHead := nextSlot n f.hwHead
      hwDescCount := (f.hwDescCount + 1) % 2 ^ 64
      hwFreeSpace := f.hwFreeSpace + 1 }, f.slots f.hwHead)
  else none

end InjFifo

/-- The three functions that inject, with what they write over the descriptor they are given. The
sequence number comes from a counter of the caller's. -/
inductive Injection
  | plain (desc : MuDescriptor)
  | memFifo (desc : MuDescriptor) (type : MsgType) (payload length counter : Nat)
  | directPut (desc : MuDescriptor) (bytes source dest recCounterOffset : Nat)
  deriving DecidableEq, Repr

namespace Injection

/-- The descriptor in the slot before the tail moves. -/
def build (sendCount : Nat → Nat) : Injection → MuDescriptor
  | .plain desc => desc
  | .memFifo desc type payload length counter =>
    { desc with
      paPayload := payload
      messageLength := length
      hdr := { desc.hdr with
        payloadLength := low16 length
        type := type
        sequenceNumber := low16 (sendCount counter) } }
  | .directPut desc bytes source dest recCounterOffset =>
    { desc with
      paPayload := source
      messageLength := bytes
      putOffset := dest % 2 ^ 37
      counterOffset := recCounterOffset ||| atomicStoreAdd }

/-- `++(*send_count)` -/
def count (sendCount : Nat → Nat) : Injection → Nat → Nat
  | .memFifo _ _ _ _ counter =>
    Function.update sendCount counter ((sendCount counter + 1) % 2 ^ 64)
  | _ => sendCount

end Injection

/-- Of what is to be injected call after call, that which finds its FIFO active. -/
def onActive {α : Type*} (active : Nat → Bool) (l : List α) : List α :=
  (l.zipIdx.filter fun x => active x.2).map Prod.fst

section OnActive

variable {α : Type*} {active : Nat → Bool} {l : List α}

theorem onActive_sublist (active : Nat → Bool) (l : List α) : (onActive active l).Sublist l := by
  have h := (List.filter_sublist (p := fun x : α × Nat => active x.2) (l := l.zipIdx)).map Prod.fst
  rwa [List.zipIdx_map_fst] at h

/-- All of it does if each call does. -/
theorem onActive_eq_self : onActive active l = l ↔ ∀ j < l.length, active j = true := by
  have hall : onActive active l = l ↔ ∀ x ∈ l.zipIdx, active x.2 = true := by
    rw [← List.filter_eq_self (p := fun x : α × Nat => active x.2)]
    constructor
    · intro h
      have hlen := congrArg List.length h
      rw [onActive, List.length_map, ← List.length_zipIdx (l := l) (i := 0)] at hlen
      exact List.filter_sublist.eq_of_length hlen
    · intro h
      rw [onActive, h, List.zipIdx_map_fst]
  rw [hall]
  constructor
  · intro h j hj
    have hmem : (l[j], j) ∈ l.zipIdx := by
      rw [List.mem_zipIdx_iff_getElem?]
      exact List.getElem?_eq_getElem hj
    exact h _ hmem
  · intro h x hx
    have hget := List.mem_zipIdx_iff_getElem?.mp hx
    exact h x.2 (List.getElem?_eq_some_iff.mp hget).1

end OnActive

/-- How far the holder of the fifo's lock has got: it looks for a slot, has found one, or has written
its descriptor and is going to move the tail. -/
inductive InjPhase
  | idle
  | looking (call : Injection)
  | found (call : Injection) (num slot : Nat)
  | written (desc : MuDescriptor) (num : Nat)
  deriving DecidableEq, Repr

/-- The fifo, its users' sequence counters, and the history: the descriptors that were injected, what
the MU took from its slots, and what the injecting calls returned. -/
structure InjState where
  fifo : InjFifo
  sendCount : Nat → Nat
  phase : InjPhase
  injected : List MuDescriptor
  consumed : List (Option MuDescriptor)
  results : List Nat

/-- A step of an injecting call, a step of the MU, a look at the descriptor count by anyone, or the end
of the link. Only a reset makes it active again, together with a new fifo. -/
inductive InjInput
  | call (call : Injection)
  | look
  | fill
  | advance
  | consume
  | check (desc : Nat)
  | deactivate
  deriving DecidableEq, Repr

/-- `MUDM_GET_NEXT_DESC` goes round once. -/
def lookStep (s : InjState) (call : Injection) : InjState :=
  let (fifo, num) := s.fifo.nextDesc
  if num = noDesc ∧ fifo.active then { s with fifo := fifo }
  else if fifo.active then { s with fifo := fifo, phase := .found call num fifo.tail }
  else { s with fifo := fifo, phase := .idle, results := s.results ++ [noDesc] }

def injStep (n : Nat) (s : InjState) : InjInput → Option InjState
  | .call call =>
    match s.phase with
    | .idle => some { s with phase := .looking call }
    | _ => none
  | .look =>
    match s.phase with
    | .looking call => some (lookStep s call)
    | _ => none
  | .fill =>
    match s.phase with
    | .found call num slot =>
      let desc := call.build s.sendCount
      some
        { s with
          fifo := { s.fifo with slots := Function.update s.fifo.slots slot (some desc) }
          sendCount := call.count s.sendCount
          phase := .written desc num }
    | _ => none
  | .advance =>
    match s.phase with
    | .written desc num =>
      some
        { s with
          fifo := s.fifo.advanceDesc n
          phase := .idle
          injected := s.injected ++ [desc]
          results := s.results ++ [num] }
    | _ => none
  | .consume =>
    (s.fifo.consume n).map fun (fifo, desc) =>
      { s with fifo := fifo, consumed := s.consumed ++ [desc] }
  | .check desc => some { s with fifo := (s.fifo.checkDescComplete desc).1 }
  | .deactivate => some { s with fifo := { s.fifo with active := false } }

def activated (n : Nat) (slots : Nat → Option MuDescriptor) (sendCount : Nat → Nat) : InjState :=
  ⟨activatedFifo n slots, sendCount, .idle, [], [], []⟩

end BgqVrnic
