import BgqVrnic.Channels
import BgqVrnic.ConnWire
import BgqVrnic.InjCpus
import BgqVrnic.PollEnds
import BgqVrnic.Progress
import Mathlib.Data.List.Infix
import Mathlib.Data.Prod.Lex

namespace BgqVrnic

open Runs Channels Progress InjCpus PackedBytes

/-- Nodes whose processors inject for one link, the network with what the MUs have sent, and the reception fifo at the
other end of the link with its poll. -/
structure LinkStream (ν κ : Type) where
  senders : ν → InjCpus κ
  net : Channel ν (List UInt8)
  receiver : PollState

/-- Something happens at the injection fifo of a node, the next packet of a node comes to the reception fifo,
`mudm_fifo_poll` is called, or it takes its next step. -/
inductive StreamInput (ν κ : Type)
  | sender (v : ν) (i : CpuInput κ)
  | arrive (v : ν)
  | poll
  | go
  deriving DecidableEq, Repr

/-- What a node has: the slots of its injection fifo, its processors, and how its MU makes packets of what it takes
from a slot. -/
structure SenderSetup (κ : Type) where
  n : Nat
  pir : κ → UInt64
  packets : Option MuDescriptor → List (List UInt8)

namespace LinkStream

variable {ν κ : Type}

/-- The packets of what the MU has taken from the fifo since it had taken `k` slots. -/
def takenSince (setup : SenderSetup κ) (k : Nat) (cpus : InjCpus κ) : List (List UInt8) :=
  (cpus.consumed.drop k).flatMap setup.packets

def streamStep [DecidableEq ν] [DecidableEq κ] (setup : ν → SenderSetup κ) (size : Nat) (s : LinkStream ν κ) :
    StreamInput ν κ → Option (LinkStream ν κ)
  | .sender v i =>
    (cpuStep (setup v).n (setup v).pir (s.senders v) i).map fun cpus =>
      { s with
        senders := Function.update s.senders v cpus
        net := s.net.send v (takenSince (setup v) (s.senders v).consumed.length cpus) }
  | .arrive v =>
    (s.net.arrive v).bind fun (packet, net) =>
      (pollStep size s.receiver (.write packet)).map fun receiver =>
        { s with net := net, receiver := receiver }
  | .poll => (pollStep size s.receiver .poll).map fun receiver => { s with receiver := receiver }
  | .go => (pollStep size s.receiver .go).map fun receiver => { s with receiver := receiver }

/-- All fifos after their activation, whatever their memory holds. -/
def quiet (setup : ν → SenderSetup κ) (slots : ν → Nat → Option MuDescriptor) (sendCount : ν → Nat → Nat)
    (mem : Nat → UInt8) : LinkStream ν κ :=
  ⟨fun v => ready (setup v).n (slots v) (sendCount v), .empty, emptyFifo mem⟩

/-- No processor of any node gets its lock after 2 ^ 64 - 2 injections there. -/
def StreamNumbersLeft (s : LinkStream ν κ) : StreamInput ν κ → Prop
  | .sender v i => CpuNumbersLeft (s.senders v) i
  | _ => True

instance decidableStreamNumbersLeft (s : LinkStream ν κ) : (i : StreamInput ν κ) → Decidable (StreamNumbersLeft s i)
  | .sender v i => inferInstanceAs (Decidable (CpuNumbersLeft (s.senders v) i))
  | .arrive _ | .poll | .go => inferInstanceAs (Decidable True)

/-- What MUs, the network and the poll do by themselves. -/
def Delivers : StreamInput ν κ → Prop
  | .sender _ i => i = .mu .consume
  | _ => True

/-- The descriptors that the MUs have not taken. -/
def descriptorsLeft [Fintype ν] (s : LinkStream ν κ) : Nat :=
  ∑ v, ((s.senders v).injected.length - (s.senders v).consumed.length)

/-- The steps left at most for the packets on their way and in the reception fifo. -/
def packetsLeft [Fintype ν] (s : LinkStream ν κ) : Nat := 10 * ∑ v, (s.net.flight v).length + pollRank s.receiver

def streamRank [Fintype ν] (s : LinkStream ν κ) : ℕ ×ₗ ℕ := toLex (descriptorsLeft s, packetsLeft s)

/-- The rings that the driver can have, and an MU that sends packets. -/
structure StreamSetup (setup : ν → SenderSetup κ) (size : Nat) : Prop where
  slots : ∀ v, minInjFifoSlots ≤ (setup v).n
  packets : ∀ v desc, ∀ p ∈ (setup v).packets (some desc), IsPacket p
  fifo : FifoSize size

variable {s s' : LinkStream ν κ} {i : StreamInput ν κ}

/-- What MUs, the network and the poll do by themselves leaves the numbers alone. -/
theorem numbersLeft_of_delivers (hi : Delivers i) : StreamNumbersLeft s i := by
  cases i with
  | sender v j =>
    change j = .mu .consume at hi
    rw [hi]
    trivial
  | _ => trivial

/-- A packet that comes to the reception fifo when all has been handled is the only one left there. -/
theorem pollRank_arrived {r : PollState} {fifo : RecFifo} {packet : List UInt8} (hidle : r.phase = .idle)
    (hall : r.delivered.length = r.written.length) :
    pollRank { r with fifo := fifo, written := r.written ++ [packet] } = 8 := by
  simp [pollRank, pollDistance, hidle, hall]

theorem streamRank_lt [Fintype ν] (hsenders : s'.senders = s.senders) (hlt : packetsLeft s' < packetsLeft s) :
    streamRank s' < streamRank s := by
  apply Prod.Lex.toLex_lt_toLex.mpr
  right
  refine ⟨?_, hlt⟩
  show descriptorsLeft s' = descriptorsLeft s
  unfold descriptorsLeft
  rw [hsenders]

variable [DecidableEq ν]

/-- The packets of the descriptors that a node has injected, in the order of the ring. -/
def injectedPackets (setup : SenderSetup κ) (cpus : InjCpus κ) : List (List UInt8) :=
  cpus.injected.flatMap fun desc => setup.packets (some desc)

/-- The packets that the handlers have been called for, with their senders. -/
def handled (s : LinkStream ν κ) : List (ν × List UInt8) := s.net.arrived.take s.receiver.delivered.length

/-- The handlers get whole packets, each one once and by its type, and of every node the first ones that it has
injected in their order. -/
structure StreamSound (setup : ν → SenderSetup κ) (s : LinkStream ν κ) : Prop where
  handled : s.receiver.delivered = s.handled.map fun x => (handlerOf x.2, x.2)
  inOrder : ∀ v, ofSender v s.handled <+: injectedPackets (setup v) (s.senders v)

/-- Everything that has been injected anywhere has been handled. -/
structure Drained (setup : ν → SenderSetup κ) (s : LinkStream ν κ) : Prop where
  sound : StreamSound setup s
  all : ∀ v, ofSender v s.handled = injectedPackets (setup v) (s.senders v)
  idle : s.receiver.phase = .idle

/-- What all that take part keep. -/
structure StreamInv (setup : ν → SenderSetup κ) (size : Nat) (s : LinkStream ν κ) : Prop where
  senders : ∀ v, ∃ t, CpusInv (setup v).n (setup v).pir (s.senders v) t
  net : s.net.Kept
  sent : ∀ v, s.net.sent v = takenSince (setup v) 0 (s.senders v)
  written : s.receiver.written = s.net.arrived.map Prod.snd
  receiver : ∃ H, RecInv size H s.receiver

variable {setup : ν → SenderSetup κ} {size : Nat} {v : ν}
  {is : List (StreamInput ν κ)} {one : SenderSetup κ} {cpus cpus' : InjCpus κ}

theorem takenSince_append {l : List (Option MuDescriptor)}
    (hl : cpus'.consumed = cpus.consumed ++ l) :
    takenSince one 0 cpus' = takenSince one 0 cpus ++ takenSince one cpus.consumed.length cpus' := by
  simp only [takenSince, hl, List.drop_zero, List.flatMap_append, List.drop_left]

/-- What a node has sent are the packets of the first descriptors that it has injected. -/
theorem taken_injected {t : InjState}
    (h : CpusInv one.n one.pir cpus t) :
    takenSince one 0 cpus =
      (cpus.injected.take cpus.consumed.length).flatMap fun desc => one.packets (some desc) := by
  have htaken := h.ring.taken
  rw [h.shows.view] at htaken
  change cpus.consumed = (cpus.injected.take cpus.consumed.length).map some at htaken
  rw [takenSince, List.drop_zero]
  conv_lhs => rw [htaken]
  rw [List.flatMap_map]

theorem taken_isPrefix {t : InjState} (h : CpusInv one.n one.pir cpus t) :
    takenSince one 0 cpus <+: injectedPackets one cpus := by
  rw [taken_injected h]
  exact List.IsPrefix.flatMap (List.take_prefix _ _) _

theorem streamInv_quiet (hsetup : StreamSetup setup size) (slots : ν → Nat → Option MuDescriptor)
    (sendCount : ν → Nat → Nat) (mem : Nat → UInt8) :
    StreamInv setup size (quiet setup slots sendCount mem : LinkStream ν κ) where
  senders := fun v => ⟨_, cpusInv_ready (hsetup.slots v) (slots v) (sendCount v)⟩
  net := Channel.kept_empty
  sent := fun _ => rfl
  written := rfl
  receiver := ⟨0, recInv_empty hsetup.fifo mem⟩

theorem pollStep_written {p p' : PollState} {i : PollInput} (hs : pollStep size p i = some p') :
    p'.written = match i with
      | .write packet => p.written ++ [packet]
      | _ => p.written := by
  cases i with
  | write packet =>
    obtain ⟨-, hs⟩ := Option.ite_none_right_eq_some.mp hs
    cases Option.some.inj hs
    rfl
  | poll =>
    obtain ⟨-, hs⟩ := Option.ite_none_right_eq_some.mp hs
    cases Option.some.inj hs
    rfl
  | go => exact pollGo_written hs

/-- The poll leaves the network alone and writes nothing. -/
theorem StreamInv.polled {receiver : PollState} {p : PollInput} (hsetup : StreamSetup setup size)
    (h : StreamInv setup size s) (hs : pollStep size s.receiver p = some receiver)
    (hw : receiver.written = s.receiver.written) :
    StreamInv setup size { s with receiver := receiver } where
  senders := h.senders
  net := h.net
  sent := h.sent
  written := hw.trans h.written
  receiver := by
    obtain ⟨H, hH⟩ := h.receiver
    exact pollStep_inv hsetup.fifo hH hs

theorem StreamInv.sound (h : StreamInv setup size s) : StreamSound setup s where
  handled := by
    obtain ⟨H, hH⟩ := h.receiver
    have horder := hH.inOrder
    rw [h.written] at horder
    exact horder.trans (by simp [LinkStream.handled, List.map_take, Function.comp_def])
  inOrder := by
    intro v
    obtain ⟨t, ht⟩ := h.senders v
    have hsent := h.net.prefix_sent v s.receiver.delivered.length
    rw [h.sent v] at hsent
    exact hsent.trans (taken_isPrefix ht)

/-- There is nothing left for the MUs, the network and the poll to do. -/
structure AtEnd (s : LinkStream ν κ) : Prop where
  taken : ∀ v, (s.senders v).injected.length ≤ (s.senders v).consumed.length
  flight : ∀ v, s.net.flight v = []
  idle : s.receiver.phase = .idle
  delivered : s.receiver.delivered.length = s.receiver.written.length

theorem StreamInv.drained (h : StreamInv setup size s) (hend : AtEnd s) : Drained setup s where
  sound := h.sound
  idle := hend.idle
  all := by
    intro v
    obtain ⟨t, ht⟩ := h.senders v
    have hlen : s.receiver.delivered.length = s.net.arrived.length := by
      rw [hend.delivered, h.written, List.length_map]
    have hsent := h.net v
    rw [hend.flight v, List.append_nil, h.sent v, taken_injected ht, List.take_of_length_le (hend.taken v)] at hsent
    rw [handled, hlen, List.take_length]
    exact hsent.symm

variable [DecidableEq κ]

/-- The holder of the lock takes nothing from the slots. -/
theorem injMove_consumed {n : Nat} {t t' : InjState} {move : InjMove} (hs : injStep n t move.input = some t') :
    t'.consumed = t.consumed := by
  cases move with
  | look =>
    cases hphase : t.phase with
    | looking call =>
      simp only [InjMove.input, injStep, hphase, Option.some.injEq] at hs
      rw [← hs]
      unfold lookStep
      split
      split
      next => rfl
      next =>
        split
        next => rfl
        next => rfl
    | _ => simp [InjMove.input, injStep, hphase] at hs
  | fill =>
    cases hphase : t.phase with
    | found call num slot =>
      simp only [InjMove.input, injStep, hphase, Option.some.injEq] at hs
      rw [← hs]
    | _ => simp [InjMove.input, injStep, hphase] at hs
  | advance =>
    cases hphase : t.phase with
    | written desc num =>
      simp only [InjMove.input, injStep, hphase, Option.some.injEq] at hs
      rw [← hs]
    | _ => simp [InjMove.input, injStep, hphase] at hs

/-- Only the MU takes from the slots, and what it has taken stays taken. -/
theorem cpuStep_history {n : Nat} {pir : κ → UInt64} {i : CpuInput κ}
    (hs : cpuStep n pir cpus i = some cpus') : ∃ l, cpus'.consumed = cpus.consumed ++ l := by
  cases i with
  | call k call =>
    obtain ⟨lock, -, rfl⟩ := Option.map_eq_some_iff.mp hs
    exact ⟨[], (List.append_nil _).symm⟩
  | lockGo k =>
    obtain ⟨call, -, hs⟩ := Option.bind_eq_some_iff.mp hs
    obtain ⟨lock, -, rfl⟩ := Option.map_eq_some_iff.mp hs
    refine ⟨[], ?_⟩
    rw [List.append_nil, InjCpus.enter]
    split <;> rfl
  | move k move =>
    obtain ⟨-, hs⟩ := Option.ite_none_right_eq_some.mp hs
    obtain ⟨t, ht, rfl⟩ := Option.map_eq_some_iff.mp hs
    exact ⟨[], (injMove_consumed ht).trans (List.append_nil _).symm⟩
  | unlock k =>
    obtain ⟨-, hs⟩ := Option.ite_none_right_eq_some.mp hs
    obtain ⟨lock, -, rfl⟩ := Option.map_eq_some_iff.mp hs
    exact ⟨[], (List.append_nil _).symm⟩
  | lose k =>
    cases Option.some.inj hs
    exact ⟨[], (List.append_nil _).symm⟩
  | mu move =>
    obtain ⟨t, ht, rfl⟩ := Option.map_eq_some_iff.mp hs
    cases move with
    | consume =>
      obtain ⟨⟨fifo, desc⟩, -, rfl⟩ := Option.map_eq_some_iff.mp ht
      exact ⟨[desc], rfl⟩
    | check desc =>
      cases Option.some.inj ht
      exact ⟨[], (List.append_nil _).symm⟩
    | deactivate =>
      cases Option.some.inj ht
      exact ⟨[], (List.append_nil _).symm⟩

theorem cpus_step_inv {n : Nat} {pir : κ → UInt64} {i : CpuInput κ}
    (h : ∃ t, CpusInv n pir cpus t) (hi : CpuNumbersLeft cpus i) (hs : cpuStep n pir cpus i = some cpus') :
    ∃ t, CpusInv n pir cpus' t := by
  obtain ⟨t, ht⟩ := h
  rcases cpus_simulate n pir cpus t i cpus' ht hi hs with hsame | ⟨_, t', _, _, hinv⟩
  · exact ⟨t, hsame⟩
  · exact ⟨t', hinv⟩

/-- What the MU takes goes out on the network. -/
theorem StreamInv.send {j : CpuInput κ} (h : StreamInv setup size s)
    (hi : CpuNumbersLeft (s.senders v) j)
    (hs : cpuStep (setup v).n (setup v).pir (s.senders v) j = some cpus) :
    StreamInv setup size
      { s with
        senders := Function.update s.senders v cpus
        net := s.net.send v (takenSince (setup v) (s.senders v).consumed.length cpus) } where
  senders := by
    intro w
    by_cases hw : w = v
    · subst hw
      dsimp only
      rw [Function.update_self]
      exact cpus_step_inv (h.senders w) hi hs
    · dsimp only
      rw [Function.update_of_ne hw]
      exact h.senders w
  net := h.net.send
  sent := by
    intro w
    obtain ⟨l, hl⟩ := cpuStep_history hs
    by_cases hw : w = v
    · subst hw
      simp only [Channel.send, Function.update_self]
      rw [takenSince_append hl, h.sent w]
    · simp only [Channel.send, Function.update_of_ne hw]
      exact h.sent w
  written := h.written
  receiver := h.receiver

theorem streamStep_inv (hsetup : StreamSetup setup size) (h : StreamInv setup size s)
    (hi : StreamNumbersLeft s i) (hs : streamStep setup size s i = some s') : StreamInv setup size s' := by
  cases i with
  | sender v j =>
    obtain ⟨cpus, hcpus, rfl⟩ := Option.map_eq_some_iff.mp hs
    exact h.send hi hcpus
  | arrive v =>
    obtain ⟨⟨packet, net⟩, hnet, hs⟩ := Option.bind_eq_some_iff.mp hs
    obtain ⟨receiver, hrec, rfl⟩ := Option.map_eq_some_iff.mp hs
    have hwritten : receiver.written = s.receiver.written ++ [packet] := pollStep_written hrec
    have hkept := h.net.arrive hnet
    obtain ⟨rest, -, rfl⟩ := Channel.arrive_eq_some.mp hnet
    refine ⟨h.senders, hkept, h.sent, ?_, ?_⟩
    · rw [hwritten, h.written]
      simp
    · obtain ⟨H, hH⟩ := h.receiver
      exact pollStep_inv hsetup.fifo hH hrec
  | poll =>
    obtain ⟨receiver, hrec, rfl⟩ := Option.map_eq_some_iff.mp hs
    exact h.polled hsetup hrec (pollStep_written hrec)
  | go =>
    obtain ⟨receiver, hrec, rfl⟩ := Option.map_eq_some_iff.mp hs
    exact h.polled hsetup hrec (pollStep_written hrec)

/-- Nodes whose processors inject under their locks, the MUs, the network and the poll, in any order of their steps,
bring the packets of every node to the handlers once each and in the order in which they were injected. -/
theorem stream_in_order (hsetup : StreamSetup setup size) (slots : ν → Nat → Option MuDescriptor)
    (sendCount : ν → Nat → Nat) (mem : Nat → UInt8)
    (hm : Meets (streamStep setup size) StreamNumbersLeft (quiet setup slots sendCount mem) is) :
    Always (streamStep setup size) (StreamSound setup) (quiet setup slots sendCount mem) is := by
  have hstep : ∀ s i s', StreamInv setup size s → StreamNumbersLeft s i →
      streamStep setup size s i = some s' → StreamInv setup size s' :=
    fun _ _ _ h hi hs => streamStep_inv hsetup h hi hs
  exact (always_of_step hstep (streamInv_quiet hsetup slots sendCount mem) hm).imp fun _ h => h.sound

/-- The packet of a message without payload: a network header of 12 bytes that tells the least size, two bytes of the
MU, and the software bytes. -/
def emptyMessage (desc : MuDescriptor) : List UInt8 :=
  0x55 :: List.replicate 13 0 ++ putFields (headerFields desc.hdr)

theorem isPacket_emptyMessage (desc : MuDescriptor) : IsPacket (emptyMessage desc) := by
  have hlen : (emptyMessage desc).length = 32 := by
    simp [emptyMessage, putFields, headerFields]
  have hsize : (emptyMessage desc).getD 8 0 = 0 := rfl
  rw [IsPacket, hlen, hsize]
  decide

/-- Two nodes, each with one processor, that inject messages without payload into rings of two slots. -/
def twoNodes : Bool → SenderSetup Unit := fun _ =>
  ⟨2, fun _ => 4, fun desc => desc.toList.map emptyMessage⟩

def nodeInjects (v : Bool) (seq : Nat) : List (StreamInput Bool Unit) :=
  [.sender v (.call () (.plain { (default : MuDescriptor) with hdr := ⟨seq, 0, 0, 0, .ipImmed, 0, 0⟩ })),
    .sender v (.lockGo ()), .sender v (.lockGo ()), .sender v (.move () .look), .sender v (.move () .fill),
    .sender v (.move () .advance), .sender v (.unlock ())]

/-- Both nodes inject, and what the second one sends is handled first. -/
def twoSend : List (StreamInput Bool Unit) :=
  nodeInjects false 7 ++ nodeInjects true 8 ++
    [.sender false (.mu .consume), .sender true (.mu .consume), .arrive true, .poll, .arrive false, .go, .go]

theorem streamSetup_twoNodes : StreamSetup twoNodes 576 where
  slots := fun _ => le_rfl
  packets := by
    intro v desc p hp
    have heq : p = emptyMessage desc := by simpa [twoNodes] using hp
    rw [heq]
    exact isPacket_emptyMessage desc
  fifo := ⟨by decide, by decide, by decide⟩

def twoQuiet : LinkStream Bool Unit := quiet twoNodes (fun _ _ => none) (fun _ _ => 0) fun _ => 1

theorem stream_in_order_two_nodes :
    (run (streamStep twoNodes 576) twoQuiet twoSend).map (fun s => s.receiver.delivered.length) = some 1 ∧
      Always (streamStep twoNodes 576) (StreamSound twoNodes) twoQuiet twoSend :=
  ⟨by decide +kernel, stream_in_order streamSetup_twoNodes _ _ _ (by decide +kernel)⟩

section Drain

variable [Fintype ν]

/-- An MU whose fifo holds a descriptor takes it. -/
theorem StreamInv.takes (h : StreamInv setup size s)
    (hlt : (s.senders v).consumed.length < (s.senders v).injected.length) :
    ∃ s', streamStep setup size s (.sender v (.mu .consume)) = some s' ∧
      (∀ w, (s'.senders w).injected = (s.senders w).injected) ∧ descriptorsLeft s' < descriptorsLeft s := by
  obtain ⟨t, ht⟩ := h.senders v
  have hfits := ht.ring.fifo
  rw [ht.shows.view] at hfits
  obtain ⟨fifo, x, hc, -⟩ := hfits.consumes hlt
  change (s.senders v).fifo.consume (setup v).n = some (fifo, x) at hc
  have hcpu : cpuStep (setup v).n (setup v).pir (s.senders v) (.mu .consume) =
      some { s.senders v with fifo := fifo, consumed := (s.senders v).consumed ++ [x] } := by
    simp only [cpuStep, MuMove.input, injStep, view, hc, Option.map_some]
  have hstep := congrArg (Option.map fun cpus =>
    { s with
      senders := Function.update s.senders v cpus
      net := s.net.send v (takenSince (setup v) (s.senders v).consumed.length cpus) }) hcpu
  refine ⟨_, hstep, ?_, ?_⟩
  · intro w
    by_cases hw : w = v
    · subst hw
      simp
    · simp [Function.update_of_ne hw]
  · unfold descriptorsLeft
    apply sum_lt v
    · simp only [Function.update_self, List.length_append, List.length_singleton]
      omega
    · intro w hw
      simp only [Function.update_of_ne hw]

theorem StreamInv.arrives {packet : List UInt8} {rest : List (List UInt8)} (hsetup : StreamSetup setup size)
    (h : StreamInv setup size s) (hidle : s.receiver.phase = .idle)
    (hall : s.receiver.delivered.length = s.receiver.written.length) (hrest : s.net.flight v = packet :: rest) :
    ∃ s', streamStep setup size s (.arrive v) = some s' ∧ s'.senders = s.senders ∧
      packetsLeft s' < packetsLeft s := by
  obtain ⟨H, hH⟩ := h.receiver
  obtain ⟨t, ht⟩ := h.senders v
  have hpacket : IsPacket packet := by
    have hmem : packet ∈ s.net.sent v := by
      rw [h.net v, hrest]
      simp
    rw [h.sent v, taken_injected ht] at hmem
    obtain ⟨desc, -, hp⟩ := List.mem_flatMap.mp hmem
    exact hsetup.packets v desc packet hp
  have hwrite := hH.takes hsetup.fifo hidle hall hpacket
  have harrive := Channel.arrive_eq_some.mpr ⟨rest, hrest, rfl⟩
  refine ⟨_, Option.bind_eq_some_iff.mpr ⟨_, harrive, congrArg (Option.map _) hwrite⟩, rfl, ?_⟩
  have hsum : ∑ w, (Function.update s.net.flight v rest w).length < ∑ w, (s.net.flight w).length := by
    apply sum_lt v
    · rw [Function.update_self, hrest]
      exact Nat.lt_succ_self _
    · intro w hw
      rw [Function.update_of_ne hw]
  unfold packetsLeft
  dsimp only
  rw [pollRank_arrived hidle hall]
  omega

/-- As long as there is something left to do, one of them does it. -/
theorem StreamInv.goes_on (hsetup : StreamSetup setup size) (h : StreamInv setup size s) (hend : ¬ AtEnd s) :
    ∃ i s', Delivers i ∧ streamStep setup size s i = some s' ∧
      (∀ w, (s'.senders w).injected = (s.senders w).injected) ∧ streamRank s' < streamRank s := by
  obtain ⟨H, hH⟩ := h.receiver
  by_cases htaken : ∀ v, (s.senders v).injected.length ≤ (s.senders v).consumed.length
  · by_cases hidle : s.receiver.phase = .idle
    · by_cases hall : s.receiver.delivered.length = s.receiver.written.length
      · by_cases hflight : ∀ v, s.net.flight v = []
        · exact absurd ⟨htaken, hflight, hidle, hall⟩ hend
        · push Not at hflight
          obtain ⟨v, hv⟩ := hflight
          obtain ⟨packet, rest, hrest⟩ := List.exists_cons_of_ne_nil hv
          obtain ⟨s', hs, hsenders, hlt⟩ := h.arrives hsetup hidle hall hrest
          refine ⟨.arrive v, s', trivial, hs, ?_, streamRank_lt hsenders hlt⟩
          intro w
          rw [hsenders]
      · obtain ⟨receiver, hr, -, hlt⟩ := @polls_again size _ hidle hall
        refine ⟨.poll, { s with receiver := receiver }, trivial, ?_, fun _ => rfl, ?_⟩
        · simp only [streamStep, hr, Option.map_some]
        · exact streamRank_lt rfl (Nat.add_lt_add_left hlt _)
    · obtain ⟨receiver, hr, hlt⟩ := poll_goes hsetup.fifo hH hidle
      refine ⟨.go, { s with receiver := receiver }, trivial, ?_, fun _ => rfl, ?_⟩
      · simp only [streamStep, hr, Option.map_some]
      · exact streamRank_lt rfl (Nat.add_lt_add_left hlt _)
  · push Not at htaken
    obtain ⟨v, hv⟩ := htaken
    obtain ⟨s', hs, hinj, hlt⟩ := h.takes hv
    have hdelivers : Delivers (.sender v (.mu .consume) : StreamInput ν κ) := rfl
    exact ⟨_, s', hdelivers, hs, hinj, Prod.Lex.toLex_lt_toLex.mpr (.inl hlt)⟩

/-- The link never wedges: whatever has happened, the MUs, the network and the poll can bring all that has been
injected to the handlers, with no help of the nodes that inject. -/
theorem stream_drains (hsetup : StreamSetup setup size) (slots : ν → Nat → Option MuDescriptor)
    (sendCount : ν → Nat → Nat) (mem : Nat → UInt8)
    (hm : Meets (streamStep setup size) StreamNumbersLeft (quiet setup slots sendCount mem) is)
    (hr : run (streamStep setup size) (quiet setup slots sendCount mem) is = some s) :
    Reaches (streamStep setup size) Delivers
      (fun s' => Drained setup s' ∧ ∀ v, (s'.senders v).injected = (s.senders v).injected) s := by
  have hstep : ∀ s i s', StreamInv setup size s → StreamNumbersLeft s i →
      streamStep setup size s i = some s' → StreamInv setup size s' :=
    fun _ _ _ h hi hs => streamStep_inv hsetup h hi hs
  have hinv := (always_of_step hstep (streamInv_quiet hsetup slots sendCount mem) hm).last hr
  have hrank : ∀ u, (StreamInv setup size u ∧ ∀ v, (u.senders v).injected = (s.senders v).injected) → ¬ AtEnd u →
      ∃ i u', Delivers i ∧ streamStep setup size u i = some u' ∧
        (StreamInv setup size u' ∧ ∀ v, (u'.senders v).injected = (s.senders v).injected) ∧
        streamRank u' < streamRank u := by
    rintro u ⟨hu, hinj⟩ hend
    obtain ⟨i, u', hi, hs, hsame, hlt⟩ := hu.goes_on hsetup hend
    have hu' := streamStep_inv hsetup hu (numbersLeft_of_delivers hi) hs
    exact ⟨i, u', hi, hs, ⟨hu', fun v => (hsame v).trans (hinj v)⟩, hlt⟩
  obtain ⟨js, u, hjs, hrun, ⟨hu, hinj⟩, hend⟩ := reaches_of_rank _ streamRank hrank ⟨hinv, fun _ => rfl⟩
  exact ⟨js, u, hjs, hrun, hu.drained hend, hinj⟩

theorem stream_drains_two_nodes :
    ∃ s, run (streamStep twoNodes 576) twoQuiet twoSend = some s ∧
      Reaches (streamStep twoNodes 576) Delivers
        (fun s' => Drained twoNodes s' ∧ ∀ v, (s'.senders v).injected = (s.senders v).injected) s := by
  have hsome : (run (streamStep twoNodes 576) twoQuiet twoSend).isSome = true := by decide +kernel
  have hm : Meets (streamStep twoNodes 576) StreamNumbersLeft twoQuiet twoSend := by decide +kernel
  obtain ⟨s, hs⟩ := Option.isSome_iff_exists.mp hsome
  exact ⟨s, hs, stream_drains streamSetup_twoNodes _ _ _ hm hs⟩

end Drain

end LinkStream

end BgqVrnic
