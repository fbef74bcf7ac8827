import BgqVrnic.ConnRuns
import BgqVrnic.InjFifo

namespace BgqVrnic

open Runs

def memfifoSentCounter : Nat := 0
def rgetMemfifoSentCounter : Nat := 1

namespace Connection

/-- The counters whose addresses `conn_memfifo` and `dput_memfifo` pass on. -/
def sendCount (k : Connection) (counter : Nat) : Nat :=
  if counter = memfifoSentCounter then k.memfifoSent else k.rgetMemfifoSent

def muDescriptor (k : Connection) : MuDescriptor :=
  { (default : MuDescriptor) with
    route := k.memFifo.route, recFIFOId := k.memFifo.recFIFOId, hdr := k.memFifo.hdr }

/-- `InjFifoInjectMemFifo` from the descriptor template of the connection. On an inactive link it is
cancelled. -/
def injectMemFifo (k : Connection) (active : Bool) (type : MsgType)
    (payload length counter : Nat) : Connection × Option MuDescriptor :=
  let call := Injection.memFifo k.muDescriptor type payload length counter
  let counts := call.count k.sendCount
  if active then
    ({ k with
      memfifoSent := counts memfifoSentCounter
      rgetMemfifoSent := counts rgetMemfifoSentCounter }, some (call.build k.sendCount))
  else (k, none)

def connMemfifo (k : Connection) (active : Bool) (type : MsgType) (payload length : Nat) :
    Connection × Option MuDescriptor :=
  k.injectMemFifo active type payload length memfifoSentCounter

def dputMemfifo (k : Connection) (active : Bool) (type : MsgType) (payload length counter : Nat) :
    Connection × Option MuDescriptor :=
  k.injectMemFifo active type payload length counter

end Connection

/-- The types that `mudm_send_pkt` and `mudm_send_message_remote` are called with; packets of these
types reach `mu_recv_cb` and are checked there. -/
def MsgType.isData : MsgType → Bool
  | .pktDataImm | .pktDataRemote | .rdmaRead | .rdmaWrite => true
  | _ => false

/-- The head of `mu_recv_cb`: the next `rq_psn`, and whether there was a mismatch. -/
def validatePsn (rqPsn sequenceNumber : Nat) : Nat × Bool :=
  let mismatch := sequenceNumber ≠ rqPsn
  let rqPsn := if mismatch then sequenceNumber else rqPsn
  ((rqPsn + 1) &&& 0xffff, mismatch)

/-- A data packet that has arrived: how many were dropped right before it, and whether it was
flagged. -/
structure PsnArrival where
  gap : Nat
  mismatch : Bool
  deriving DecidableEq, Repr

/-- A connection, the packets on their way to the peer, and the QP there. -/
structure PsnState where
  conn : Connection
  active : Bool
  wire : List MuDescriptor
  rqPsn : Nat
  gap : Nat
  arrivals : List PsnArrival

inductive PsnInput
  | connMemfifo (type : MsgType) (payload length : Nat)
  | dputMemfifo (payload length : Nat)
  | setActive (active : Bool)
  | deliver
  | drop
  deriving DecidableEq, Repr

/-- Messages of an emulated remote get go to `multi_directput` instead. -/
def deliverPacket (s : PsnState) (d : MuDescriptor) : PsnState :=
  if d.hdr.type.isData then
    let (rqPsn, mismatch) := validatePsn s.rqPsn d.hdr.sequenceNumber
    { s with rqPsn := rqPsn, gap := 0, arrivals := s.arrivals ++ [⟨s.gap, mismatch⟩] }
  else s

def dropPacket (s : PsnState) (d : MuDescriptor) : PsnState :=
  if d.hdr.type.isData then { s with gap := s.gap + 1 } else s

def psnStep (s : PsnState) : PsnInput → Option PsnState
  | .connMemfifo type payload length =>
    let sent := s.conn.connMemfifo s.active type payload length
    if type.isData then some { s with conn := sent.1, wire := s.wire ++ sent.2.toList } else none
  | .dputMemfifo payload length =>
    let sent := s.conn.dputMemfifo s.active .dput payload length rgetMemfifoSentCounter
    some { s with conn := sent.1, wire := s.wire ++ sent.2.toList }
  | .setActive active => some { s with active := active }
  | .deliver =>
    match s.wire with
    | [] => none
    | d :: wire => some (deliverPacket { s with wire := wire } d)
  | .drop =>
    match s.wire with
    | [] => none
    | d :: wire => some (dropPacket { s with wire := wire } d)

/-- A fresh QP at the peer of the connection; `bgvrnic_create_qp` sets its `rq_psn` to zero. -/
def freshQp (conn : Connection) (active : Bool) : PsnState := ⟨conn, active, [], 0, 0, []⟩

/-- The sequence numbers of the data packets on their way. -/
def dataNumbers (wire : List MuDescriptor) : List Nat :=
  (wire.filter (·.hdr.type.isData)).map (·.hdr.sequenceNumber)

/-- The next data packet to arrive or to be dropped has number `next`, counted without bound from the
first one. The QP expects the number of the packet after the last one that arrived. -/
structure PsnInv (next : Nat) (s : PsnState) : Prop where
  gap : s.gap ≤ next
  numbers : dataNumbers s.wire = (List.range' next (dataNumbers s.wire).length).map low16
  sent : low16 s.conn.memfifoSent = low16 (next + (dataNumbers s.wire).length)
  expected : s.rqPsn = low16 (next - s.gap)
  flagged : ∀ a ∈ s.arrivals, a.mismatch = true ↔ ¬ 65536 ∣ a.gap

variable {s s' : PsnState} {i : PsnInput} {is : List PsnInput} {k k' : Connection}
  {type : MsgType} {payload length next : Nat} {d : MuDescriptor} {active : Bool}
  {desc : Option MuDescriptor}

theorem low16_count {m n : Nat} (h : low16 m = low16 n) :
    low16 ((m + 1) % 2 ^ 64) = low16 (n + 1) := by
  unfold low16 at h ⊢
  omega

/-- Two packets of a stream carry the same number when whole rounds of 65536 lie between them. -/
theorem low16_eq_sub_iff {gap : Nat} (hgap : gap ≤ next) :
    low16 next = low16 (next - gap) ↔ 65536 ∣ gap := by
  unfold low16
  omega

theorem validatePsn_fst (rqPsn n : Nat) : (validatePsn rqPsn n).1 = low16 (n + 1) := by
  have hmask : ∀ m, m &&& 0xffff = m % 2 ^ 16 := fun m => Nat.and_two_pow_sub_one_eq_mod m 16
  unfold validatePsn low16
  simp only [hmask]
  split
  next => rfl
  next h => rw [not_not.mp h]

theorem validatePsn_snd (rqPsn n : Nat) : (validatePsn rqPsn n).2 = true ↔ n ≠ rqPsn := by
  simp [validatePsn]

namespace Connection

theorem connMemfifo_cancelled : k.connMemfifo false type payload length = (k, none) := rfl

theorem connMemfifo_sent (k : Connection) (type : MsgType) (payload length : Nat) :
    ∃ k' d, k.connMemfifo true type payload length = (k', some d) ∧
      d.hdr.type = type ∧ d.hdr.sequenceNumber = low16 k.memfifoSent ∧
      k'.memfifoSent = (k.memfifoSent + 1) % 2 ^ 64 := by
  refine ⟨_, _, rfl, rfl, rfl, ?_⟩
  show Function.update k.sendCount memfifoSentCounter ((k.memfifoSent + 1) % 2 ^ 64)
    memfifoSentCounter = _
  rw [Function.update_self]

/-- A message of an emulated remote get does not count as a packet of the connection. -/
theorem dputMemfifo_memfifoSent :
    (k.dputMemfifo active type payload length rgetMemfifoSentCounter).1.memfifoSent =
      k.memfifoSent := by
  cases active with
  | false => rfl
  | true =>
    show Function.update k.sendCount rgetMemfifoSentCounter ((k.rgetMemfifoSent + 1) % 2 ^ 64)
      memfifoSentCounter = _
    rw [Function.update_of_ne (by decide)]
    rfl

theorem dputMemfifo_type :
    ∀ d ∈ (k.dputMemfifo active type payload length rgetMemfifoSentCounter).2,
      d.hdr.type = type := by
  intro d hd
  cases active with
  | false => cases hd
  | true =>
    cases Option.some.inj hd
    rfl

end Connection

theorem psnInv_freshQp (hk : k.memfifoSent = 0) : PsnInv 0 (freshQp k active) where
  gap := le_rfl
  numbers := rfl
  sent := by
    show low16 k.memfifoSent = _
    rw [hk]
    rfl
  expected := rfl
  flagged := fun _ ha => absurd ha List.not_mem_nil

theorem dataNumbers_append_data (wire : List MuDescriptor) (hd : d.hdr.type.isData = true) :
    dataNumbers (wire ++ [d]) = dataNumbers wire ++ [d.hdr.sequenceNumber] := by
  simp [dataNumbers, List.filter_append, hd]

theorem dataNumbers_append_other (wire : List MuDescriptor)
    (hd : ∀ d ∈ desc, d.hdr.type.isData = false) :
    dataNumbers (wire ++ desc.toList) = dataNumbers wire := by
  cases desc with
  | none => simp [dataNumbers]
  | some d => simp [dataNumbers, List.filter_append, hd d rfl]

theorem dataNumbers_cons_data {wire : List MuDescriptor} (hd : d.hdr.type.isData = true) :
    dataNumbers (d :: wire) = d.hdr.sequenceNumber :: dataNumbers wire := by
  simp [dataNumbers, hd]

theorem dataNumbers_cons_other {wire : List MuDescriptor} (hd : d.hdr.type.isData = false) :
    dataNumbers (d :: wire) = dataNumbers wire := by
  simp [dataNumbers, hd]

theorem PsnInv.send (h : PsnInv next s) (hd : d.hdr.type.isData = true)
    (hn : d.hdr.sequenceNumber = low16 s.conn.memfifoSent)
    (hk : k'.memfifoSent = (s.conn.memfifoSent + 1) % 2 ^ 64) :
    PsnInv next { s with conn := k', wire := s.wire ++ [d] } := by
  have hnums := dataNumbers_append_data s.wire hd
  have hlen : (dataNumbers (s.wire ++ [d])).length = (dataNumbers s.wire).length + 1 := by
    simp [hnums]
  refine ⟨h.gap, ?_, ?_, h.expected, h.flagged⟩
  · show dataNumbers (s.wire ++ [d]) = (List.range' next (dataNumbers (s.wire ++ [d])).length).map low16
    rw [hlen, List.range'_concat, List.map_append, ← h.numbers, hnums, hn, h.sent]
    simp
  · show low16 k'.memfifoSent = low16 (next + (dataNumbers (s.wire ++ [d])).length)
    rw [hk, hlen, low16_count h.sent]
    rfl

/-- What is not a data packet of the connection is of no matter to the numbers. -/
theorem PsnInv.sendOther (h : PsnInv next s) (hd : ∀ d ∈ desc, d.hdr.type.isData = false)
    (hk : k'.memfifoSent = s.conn.memfifoSent) :
    PsnInv next { s with conn := k', wire := s.wire ++ desc.toList } := by
  have hnums := dataNumbers_append_other s.wire hd
  refine ⟨h.gap, ?_, ?_, h.expected, h.flagged⟩
  · show dataNumbers (s.wire ++ desc.toList) = _
    rw [hnums]
    exact h.numbers
  · show low16 k'.memfifoSent = low16 (next + (dataNumbers (s.wire ++ desc.toList)).length)
    rw [hk, hnums]
    exact h.sent

theorem PsnInv.connMemfifo (h : PsnInv next s) (htype : type.isData = true) :
    PsnInv next
      { s with
        conn := (s.conn.connMemfifo active type payload length).1
        wire := s.wire ++ (s.conn.connMemfifo active type payload length).2.toList } := by
  cases active with
  | false =>
    rw [Connection.connMemfifo_cancelled]
    exact h.sendOther (fun d hd => absurd hd (Option.not_mem_none d)) rfl
  | true =>
    obtain ⟨k', d, he, hdt, hn, hk⟩ := s.conn.connMemfifo_sent type payload length
    rw [he]
    exact h.send (hdt ▸ htype) hn hk

/-- The first data packet on the wire carries the number `next`. -/
theorem PsnInv.cons {wire : List MuDescriptor} (h : PsnInv next s) (hw : s.wire = d :: wire)
    (hd : d.hdr.type.isData = true) :
    d.hdr.sequenceNumber = low16 next ∧
      dataNumbers wire = (List.range' (next + 1) (dataNumbers wire).length).map low16 ∧
      low16 s.conn.memfifoSent = low16 (next + 1 + (dataNumbers wire).length) := by
  have hn := h.numbers
  rw [hw, dataNumbers_cons_data hd, List.length_cons, List.range'_succ, List.map_cons] at hn
  obtain ⟨hhead, htail⟩ := List.cons.inj hn
  refine ⟨hhead, htail, ?_⟩
  rw [h.sent, hw, dataNumbers_cons_data hd, List.length_cons, Nat.add_right_comm]
  rfl

theorem PsnInv.skip {wire : List MuDescriptor} (h : PsnInv next s) (hw : s.wire = d :: wire)
    (hd : d.hdr.type.isData = false) : PsnInv next { s with wire := wire } := by
  have hnums : dataNumbers s.wire = dataNumbers wire := by rw [hw, dataNumbers_cons_other hd]
  refine ⟨h.gap, ?_, ?_, h.expected, h.flagged⟩
  · show dataNumbers wire = (List.range' next (dataNumbers wire).length).map low16
    rw [← hnums]
    exact h.numbers
  · show low16 s.conn.memfifoSent = low16 (next + (dataNumbers wire).length)
    rw [← hnums]
    exact h.sent

/-- A data packet is flagged when the packets lost before it are not whole rounds of numbers, and the
QP is in step again after it. -/
theorem PsnInv.deliver {wire : List MuDescriptor} (h : PsnInv next s) (hw : s.wire = d :: wire) :
    ∃ next', PsnInv next' (deliverPacket { s with wire := wire } d) := by
  cases hd : d.hdr.type.isData with
  | false =>
    refine ⟨next, ?_⟩
    simp only [deliverPacket, hd, Bool.false_eq_true, if_false]
    exact h.skip hw hd
  | true =>
    obtain ⟨hn, htail, hsent⟩ := h.cons hw hd
    refine ⟨next + 1, ?_⟩
    simp only [deliverPacket, hd, if_true]
    refine ⟨Nat.zero_le _, htail, hsent, ?_, ?_⟩
    · show (validatePsn s.rqPsn d.hdr.sequenceNumber).1 = low16 (next + 1 - 0)
      rw [validatePsn_fst, hn, Nat.sub_zero]
      unfold low16
      omega
    · intro a ha
      rcases List.mem_append.mp ha with hold | hnew
      · exact h.flagged a hold
      · cases List.mem_singleton.mp hnew
        show (validatePsn s.rqPsn d.hdr.sequenceNumber).2 = true ↔ ¬ 65536 ∣ s.gap
        rw [validatePsn_snd, hn, h.expected]
        exact not_congr (low16_eq_sub_iff h.gap)

theorem PsnInv.drop {wire : List MuDescriptor} (h : PsnInv next s) (hw : s.wire = d :: wire) :
    ∃ next', PsnInv next' (dropPacket { s with wire := wire } d) := by
  cases hd : d.hdr.type.isData with
  | false =>
    refine ⟨next, ?_⟩
    simp only [dropPacket, hd, Bool.false_eq_true, if_false]
    exact h.skip hw hd
  | true =>
    obtain ⟨-, htail, hsent⟩ := h.cons hw hd
    refine ⟨next + 1, ?_⟩
    simp only [dropPacket, hd, if_true]
    refine ⟨Nat.succ_le_succ h.gap, htail, hsent, ?_, h.flagged⟩
    show s.rqPsn = low16 (next + 1 - (s.gap + 1))
    rw [Nat.add_sub_add_right]
    exact h.expected

theorem psnStep_inv (h : PsnInv next s) (hstep : psnStep s i = some s') :
    ∃ next', PsnInv next' s' := by
  cases i with
  | connMemfifo type payload length =>
    simp only [psnStep, Option.ite_none_right_eq_some, Option.some.injEq] at hstep
    obtain ⟨htype, rfl⟩ := hstep
    exact ⟨next, h.connMemfifo htype⟩
  | dputMemfifo payload length =>
    cases Option.some.inj hstep
    refine ⟨next, h.sendOther (fun d hd => ?_) Connection.dputMemfifo_memfifoSent⟩
    rw [Connection.dputMemfifo_type d hd]
    rfl
  | setActive active =>
    cases Option.some.inj hstep
    exact ⟨next, h.gap, h.numbers, h.sent, h.expected, h.flagged⟩
  | deliver =>
    cases hw : s.wire with
    | nil => simp [psnStep, hw] at hstep
    | cons d wire =>
      simp only [psnStep, hw, Option.some.injEq] at hstep
      subst hstep
      exact h.deliver hw
  | drop =>
    cases hw : s.wire with
    | nil => simp [psnStep, hw] at hstep
    | cons d wire =>
      simp only [psnStep, hw, Option.some.injEq] at hstep
      subst hstep
      exact h.drop hw

theorem psn_inv_run (h : PsnInv next s) (hr : run psnStep s is = some s') :
    ∃ next', PsnInv next' s' := by
  have hstep : ∀ s i s', (∃ next, PsnInv next s) → psnStep s i = some s' →
      ∃ next, PsnInv next s' := by
    rintro s i s' ⟨next, h⟩ hs
    exact psnStep_inv h hs
  exact run_preserves (P := fun s => ∃ next, PsnInv next s) hstep ⟨next, h⟩ hr

/-- Nothing has been lost. -/
def NoGap (s : PsnState) : Prop := s.gap = 0 ∧ ∀ a ∈ s.arrivals, a.gap = 0

theorem psnStep_noGap (h : NoGap s) (hi : i ≠ .drop) (hstep : psnStep s i = some s') :
    NoGap s' := by
  cases i with
  | connMemfifo type payload length =>
    simp only [psnStep, Option.ite_none_right_eq_some, Option.some.injEq] at hstep
    obtain ⟨-, rfl⟩ := hstep
    exact h
  | dputMemfifo payload length =>
    cases Option.some.inj hstep
    exact h
  | setActive active =>
    cases Option.some.inj hstep
    exact h
  | deliver =>
    cases hw : s.wire with
    | nil => simp [psnStep, hw] at hstep
    | cons d wire =>
      simp only [psnStep, hw, Option.some.injEq] at hstep
      subst hstep
      unfold deliverPacket
      split
      next =>
        refine ⟨rfl, fun a ha => ?_⟩
        rcases List.mem_append.mp ha with hold | hnew
        · exact h.2 a hold
        · cases List.mem_singleton.mp hnew
          exact h.1
      next => exact h
  | drop => exact absurd rfl hi

/-- Whatever is sent, cancelled and lost, the packets that are flagged are those before which a number
of packets that is no multiple of 65536 was lost. -/
theorem psn_mismatch_iff_gap {m m' : MyContext} {c timeBase : Nat}
    (hget : connListGetfree m timeBase = some (c, m'))
    (hrun : run psnStep (freshQp (m'.conn c) active) is = some s) :
    (∀ a ∈ s.arrivals, a.mismatch = true ↔ ¬ 65536 ∣ a.gap) ∧
      (.drop ∉ is → ∀ a ∈ s.arrivals, a.mismatch = false) := by
  have hk : (m'.conn c).memfifoSent = 0 := by
    rw [(connListGetfree_spec hget).conn, Function.update_self]
  obtain ⟨next, hinv⟩ := psn_inv_run (psnInv_freshQp hk) hrun
  refine ⟨hinv.flagged, fun hdrop a ha => ?_⟩
  have hstep : ∀ s i s', NoGap s → i ≠ .drop → psnStep s i = some s' → NoGap s' :=
    fun _ _ _ h hi hs => psnStep_noGap h hi hs
  have hfresh : NoGap (freshQp (m'.conn c) active) := ⟨rfl, fun _ ha => absurd ha List.not_mem_nil⟩
  have hmeets : Meets psnStep (fun _ i => i ≠ .drop) (freshQp (m'.conn c) active) is :=
    meets_of_forall fun i hi he => hdrop (he ▸ hi)
  have hgap := ((always_of_step hstep hfresh hmeets).last hrun).2 a ha
  have hdvd : 65536 ∣ a.gap := hgap ▸ Nat.dvd_zero 65536
  rw [← Bool.not_eq_true, hinv.flagged a ha]
  exact not_not.mpr hdvd

/-- Three data packets with a message of a remote get between them; the second one is lost. -/
def oneLost : List PsnInput :=
  [.connMemfifo .pktDataImm 4096 32, .connMemfifo .rdmaRead 8192 64, .dputMemfifo 0 64,
    .connMemfifo .pktDataImm 4096 32, .deliver, .drop, .deliver, .deliver]

def newConnection : Connection :=
  ((connListGetfree fourContexts 7).map fun (c, m) => m.conn c).getD default

theorem psn_mismatch_iff_gap_one_lost :
    ∃ s, run psnStep (freshQp newConnection true) oneLost = some s ∧
      s.arrivals = [⟨0, false⟩, ⟨1, true⟩] ∧
      ∀ a ∈ s.arrivals, a.mismatch = true ↔ ¬ 65536 ∣ a.gap :=
  ⟨_, rfl, rfl, (psn_mismatch_iff_gap
    (show connListGetfree fourContexts 7 = some (0, _) from rfl)
    (show run psnStep (freshQp newConnection true) oneLost = some _ from rfl)).1⟩

end BgqVrnic
