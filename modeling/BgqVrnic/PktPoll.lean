import BgqVrnic.PktLists
import BgqVrnic.Polls
import BgqVrnic.ReportRuns

namespace BgqVrnic

open Intrusive Pools

/-- `TOO_MANY_CYCLES`, some two minutes. -/
def tooManyCycles : Nat := 182000000000

/-- At `timestamp` the packet has been posted for too long, and that has not been noted yet. -/
def PolledPkt.Stuck (timestamp : Nat) (pktd : PolledPkt) : Prop :=
  pktd.timestamp ≠ 0 ∧ tooManyCycles < (timestamp + 2 ^ 64 - pktd.timestamp) % 2 ^ 64

instance (timestamp : Nat) (pktd : PolledPkt) : Decidable (pktd.Stuck timestamp) :=
  inferInstanceAs (Decidable (_ ∧ _))

/-- The variables of `poll_pkt_message`, with its two lists as their first and last elements, the
`StuckState` of the context, and the history of what it has passed to the status callback. -/
structure PollRun where
  ctls : PktControls
  pktd : Option Nat
  pktd2free : Tail Nat
  pktd2repost : Tail Nat
  refids : List (Nat × Nat)
  unfreedReqId : Nat
  stuckState : Nat
  reports : List (List (Nat × Nat))

namespace PollRun

/-- The `k`-th status callback does `ops k` with the packets. -/
def status (ops : Nat → List PktOp) (s : PollRun) : PollRun :=
  { s with
    ctls := s.ctls.calls (ops s.reports.length)
    refids := []
    reports := s.reports ++ [s.refids] }

/-- `pktd2free_list` goes in front of the free list. -/
def giveBack (s : PollRun) : PollRun :=
  { s with
    ctls :=
      { s.ctls with
        next := s.pktd2free.hang s.ctls.pktFreeList s.ctls.next
        pktFreeList := s.pktd2free.head }
    pktd2free := { s.pktd2free with head := none } }

/-- `pktd2repost_list` goes in front of what has been posted meanwhile. -/
def repost (s : PollRun) : PollRun :=
  { s with
    ctls :=
      { s.ctls with
        next := s.pktd2repost.hang s.ctls.pktReqidList s.ctls.next
        pktReqidList := s.pktd2repost.head } }

/-- The request ID of a descriptor, if it has one, is noted with the error, which has 32 bits there. -/
def collect (pktd : Nat) (s : PollRun) : PollRun :=
  let desc := s.ctls.desc pktd
  if desc.reqId ≠ 0 then
    { s with
      refids := s.refids ++ [(desc.reqId, desc.errorVal % 2 ^ 32)]
      ctls :=
        { s.ctls with
          desc := Function.update s.ctls.desc pktd { desc with reqId := 0, errorVal := 0 } } }
  else s

/-- `pktd` is put at the end of `pktd2free_list`, and its own link is read before it is cleared. -/
def putToFree (pktd : Nat) (s : PollRun) : PollRun :=
  let next := s.pktd2free.link pktd s.ctls.next
  { s with
    pktd := next pktd
    pktd2free := s.pktd2free.add pktd
    ctls := { s.ctls with next := Function.update next pktd none } }

def putToRepost (pktd : Nat) (s : PollRun) : PollRun :=
  let next := s.pktd2repost.link pktd s.ctls.next
  { s with
    pktd := next pktd
    pktd2repost := s.pktd2repost.add pktd
    ctls := { s.ctls with next := Function.update next pktd none } }

/-- A descriptor whose packet has been sent: with it the list of request IDs may be full. -/
def visitDone (ops : Nat → List PktOp) (pktd : Nat) (s : PollRun) : PollRun :=
  let s := (s.collect pktd).putToFree pktd
  if s.refids.length = numRefid then s.giveBack.status ops else s

/-- A stuck packet is noted once, and the first one is logged with the injection FIFO of its connection:
`none` where there is no connection to follow. -/
def checkStuck (timestamp pktd : Nat) (s : PollRun) : Option PollRun :=
  let desc := s.ctls.desc pktd
  if desc.Stuck timestamp then
    if s.stuckState = 0 ∧ desc.ccontext = none then none
    else
      some
        { s with
          stuckState := if s.stuckState = 0 then 1 else s.stuckState
          ctls :=
            { s.ctls with desc := Function.update s.ctls.desc pktd { desc with timestamp := 0 } } }
  else some s

def visitPending (timestamp pktd : Nat) (s : PollRun) : Option PollRun :=
  let s := if (s.ctls.desc pktd).reqId ≠ 0 then { s with unfreedReqId := s.unfreedReqId + 1 } else s
  (s.checkStuck timestamp pktd).map (putToRepost pktd)

/-- The loop of `poll_pkt_message` within the given number of rounds, at this count of the hardware and
this time; `none` is the access through a null pointer. -/
def loop (refDescCount timestamp : Nat) (ops : Nat → List PktOp) : Nat → PollRun → Option PollRun
  | 0, s => some s
  | rounds + 1, s =>
    match s.pktd with
    | none => some s
    | some pktd =>
      if (s.ctls.desc pktd).descCnt ≤ refDescCount then
        loop refDescCount timestamp ops rounds (s.visitDone ops pktd)
      else (s.visitPending timestamp pktd).bind (loop refDescCount timestamp ops rounds)

/-- What follows the loop. -/
def finish (ops : Nat → List PktOp) (s : PollRun) : PollRun :=
  let s := if s.pktd2free.head.isSome then s.giveBack else s
  let s := if s.pktd2repost.head.isSome then s.repost else s
  if s.refids ≠ [] then s.status ops else s

end PollRun

/-- What `poll_pkt_message` starts with. -/
def PollRun.start (stuckState : Nat) (c : PktControls) : PollRun :=
  { ctls := { c with pktReqidList := none }
    pktd := c.pktReqidList
    pktd2free := Tail.empty
    pktd2repost := Tail.empty
    refids := []
    unfreedReqId := 0
    stuckState := stuckState
    reports := [] }

/-- `poll_pkt_message` at this count of the hardware and this time, where no null pointer stops it, and its
return value once it has one. -/
def pollPktMessage (refDescCount timestamp stuckState : Nat) (ops : Nat → List PktOp) (rounds : Nat)
    (c : PktControls) : Option (PollRun × Option Nat) :=
  if c.pktReqidList = none then some (PollRun.start stuckState c, some 0)
  else
    match (PollRun.start stuckState c).loop refDescCount timestamp ops rounds with
    | none => none
    | some s =>
      if s.pktd.isSome then some (s, none) else some (s.finish ops, some (s.finish ops).unfreedReqId)

/-- The packet of the descriptor has been sent. -/
def PktControls.sent (refDescCount : Nat) (c : PktControls) (i : Nat) : Bool :=
  (c.desc i).descCnt ≤ refDescCount

def PktControls.pending (refDescCount : Nat) (c : PktControls) (i : Nat) : Bool :=
  !c.sent refDescCount i

/-- The request of a descriptor, with its error. -/
def PktControls.request (c : PktControls) (i : Nat) : List (Nat × Nat) :=
  if (c.desc i).reqId = 0 then [] else [((c.desc i).reqId, (c.desc i).errorVal)]

/-- What a poll leaves of a descriptor that it posts again. -/
def PolledPkt.kept (timestamp : Nat) (pktd : PolledPkt) : PolledPkt :=
  if pktd.Stuck timestamp then { pktd with timestamp := 0 } else pktd

/-- The first packet of the list that is found stuck has no connection. -/
def PktControls.Unconnected (refDescCount timestamp : Nat) (c : PktControls) (l : List Nat) : Prop :=
  ∃ i, (l.filter (c.pending refDescCount)).find? (fun i => (c.desc i).Stuck timestamp) = some i ∧
    (c.desc i).ccontext = none

/-- The lists behind a poll of the lists that `p` shows: the free descriptors and those in hand have been
joined by those sent, less what has been posted outside; those that are pending are back in their order,
between what was posted before and since. The errors of the requests are reported as 32 bits. -/
structure PktPollSound (refDescCount timestamp : Nat) (c : PktControls) (p : Pool PolledPkt)
    (s : PollRun) : Prop where
  lists : ∃ p' late early, s.ctls.Shows p' ∧
    p'.posted = late ++ p.posted.filter (c.pending refDescCount) ++ early ∧
    s.ctls.postings = late ++ early ++ c.postings ∧
    (s.ctls.held ++ p'.free ++ (late ++ early)).Perm
      (c.held ++ p.free ++ p.posted.filter (c.sent refDescCount)) ∧
    (s.ctls.held ++ p'.blocks).Perm (c.held ++ p.blocks)
  kept : ∀ i ∈ p.posted.filter (c.pending refDescCount), s.ctls.desc i = (c.desc i).kept timestamp
  reports : s.reports.flatten =
    ((p.posted.filter (c.sent refDescCount)).flatMap c.request).map fun req => (req.1, req.2 % 2 ^ 32)
  batches : ∀ b ∈ s.reports, 1 ≤ b.length ∧ b.length ≤ 8

variable {refDescCount timestamp stuckState i : Nat} {c : PktControls} {s s' : PollRun}
  {p p' : Pool PolledPkt} {free done rest freed group l : List Nat} {ops : Nat → List PktOp}
  {rounds : Nat}

/-- What `poll_pkt_message` does at a descriptor, as a poll of a pool. -/
def pktRules (refDescCount timestamp : Nat) : Polls.Rules PolledPkt (Nat × Nat) Empty where
  done pktd := pktd.descCnt ≤ refDescCount
  stops _ := false
  sent _ := []
  report pktd := if pktd.reqId = 0 then none else some (pktd.reqId, pktd.errorVal % 2 ^ 32)
  settled pktd := if pktd.reqId = 0 then pktd else { pktd with reqId := 0, errorVal := 0 }
  kept := PolledPkt.kept timestamp
  counts pktd := pktd.reqId ≠ 0
  full := numRefid

theorem request_eq (c : PktControls) (i : Nat) :
    (c.request i).map (fun req => (req.1, req.2 % 2 ^ 32)) =
      ((pktRules refDescCount timestamp).report (c.desc i)).toList := by
  unfold PktControls.request pktRules
  dsimp only
  split <;> rfl

theorem unconnected_sent (h : c.sent refDescCount i = true) :
    c.Unconnected refDescCount timestamp (i :: rest) ↔ c.Unconnected refDescCount timestamp rest := by
  unfold PktControls.Unconnected
  rw [List.filter_cons_of_neg (by simp [PktControls.pending, h])]

theorem unconnected_pending (h : c.sent refDescCount i = false) :
    c.Unconnected refDescCount timestamp (i :: rest) ↔
      if (c.desc i).Stuck timestamp then (c.desc i).ccontext = none
      else c.Unconnected refDescCount timestamp rest := by
  unfold PktControls.Unconnected
  rw [List.filter_cons_of_pos (by simp [PktControls.pending, h])]
  by_cases hstuck : (c.desc i).Stuck timestamp
  · rw [List.find?_cons_of_pos (by simpa using hstuck), if_pos hstuck]
    simp
  · rw [List.find?_cons_of_neg (by simpa using hstuck), if_neg hstuck]

namespace PollRun

/-- The variables as those of a poll of a pool. -/
def run (s : PollRun) : Polls.Run PolledPkt (Nat × Nat) Empty :=
  { store := s.ctls.store, cur := s.pktd, toFree := s.pktd2free, toRepost := s.pktd2repost
    batch := s.refids, reports := s.reports, sends := [], count := s.unfreedReqId, stopped := false }

theorem run_status (ops : Nat → List PktOp) (s : PollRun) :
    (s.status ops).run = s.run.flush fun k => (ops k).map PktOp.op := by
  unfold status run Polls.Run.flush
  dsimp only
  rw [PktControls.store_calls]

theorem run_collect (s : PollRun) (i : Nat) :
    (s.collect i).run = s.run.collect (pktRules refDescCount timestamp) i := by
  unfold collect run Polls.Run.collect pktRules Store.set
  dsimp only [PktControls.store]
  by_cases hid : (s.ctls.desc i).reqId = 0
  · simp [hid]
  · simp [hid]

theorem run_visitDone (refDescCount timestamp : Nat) (ops : Nat → List PktOp) (s : PollRun) (i : Nat) :
    (s.visitDone ops i).run =
      s.run.visitDone (pktRules refDescCount timestamp) (fun k => (ops k).map PktOp.op) i := by
  have hput : ((s.collect i).putToFree i).run =
      (s.run.collect (pktRules refDescCount timestamp) i).putToFree i := by
    rw [← run_collect]
    rfl
  unfold visitDone Polls.Run.visitDone
  dsimp only
  rw [← hput]
  by_cases hfull : ((s.collect i).putToFree i).refids.length = numRefid
  · have hfull' : ((s.collect i).putToFree i).run.batch.length =
        (pktRules refDescCount timestamp).full := hfull
    rw [if_pos hfull, if_pos hfull', run_status]
    rfl
  · have hfull' : ¬ ((s.collect i).putToFree i).run.batch.length =
        (pktRules refDescCount timestamp).full := hfull
    rw [if_neg hfull, if_neg hfull']

theorem visitDone_stuckState (ops : Nat → List PktOp) (s : PollRun) (i : Nat) :
    (s.visitDone ops i).stuckState = s.stuckState := by
  unfold visitDone putToFree collect
  dsimp only
  split_ifs <;> rfl

/-- A pending descriptor is the end of the poll if it is the first that is stuck and has no connection;
otherwise it is put into the list, and is not stuck any more. -/
theorem visitPending_cases (refDescCount timestamp : Nat) (s : PollRun) (i : Nat) :
    (s.visitPending timestamp i = none ∧ s.stuckState = 0 ∧ (s.ctls.desc i).Stuck timestamp ∧
      (s.ctls.desc i).ccontext = none) ∨
    ∃ s', s.visitPending timestamp i = some s' ∧
      s'.run = s.run.visitPending (pktRules refDescCount timestamp) i ∧
      ((s.ctls.desc i).Stuck timestamp →
        s'.stuckState ≠ 0 ∧ (s.stuckState = 0 → (s.ctls.desc i).ccontext ≠ none)) ∧
      (¬ (s.ctls.desc i).Stuck timestamp → s'.stuckState = s.stuckState) := by
  obtain ⟨t, ht, hctls, hstate, hcount⟩ : ∃ t : PollRun,
      (if (s.ctls.desc i).reqId ≠ 0 then { s with unfreedReqId := s.unfreedReqId + 1 } else s) = t ∧
      t.ctls = s.ctls ∧ t.stuckState = s.stuckState ∧
      t.run = if (pktRules refDescCount timestamp).counts (s.run.store.block i) then
        { s.run with count := s.run.count + 1 } else s.run := by
    refine ⟨_, rfl, ?_⟩
    by_cases hid : (s.ctls.desc i).reqId = 0
    · rw [if_neg (not_not.mpr hid), if_neg (by simp [pktRules, run, PktControls.store, hid])]
      exact ⟨rfl, rfl, rfl⟩
    · rw [if_pos hid, if_pos (by simp [pktRules, run, PktControls.store, hid])]
      exact ⟨rfl, rfl, rfl⟩
  have hvisit : s.run.visitPending (pktRules refDescCount timestamp) i =
      { t.run with store := t.ctls.store.set i (PolledPkt.kept timestamp) }.putToRepost i := by
    unfold Polls.Run.visitPending
    rw [← hcount]
    rfl
  unfold visitPending
  dsimp only
  rw [ht, hvisit, ← hctls, ← hstate]
  unfold checkStuck
  dsimp only
  by_cases hstuck : (t.ctls.desc i).Stuck timestamp
  · rw [if_pos hstuck]
    by_cases hnull : t.stuckState = 0 ∧ (t.ctls.desc i).ccontext = none
    · rw [if_pos hnull]
      exact Or.inl ⟨rfl, hnull.1, hstuck, hnull.2⟩
    · rw [if_neg hnull]
      refine Or.inr ⟨_, rfl, ?_, fun _ => ⟨?_, fun hfirst hnone => hnull ⟨hfirst, hnone⟩⟩,
        fun hnot => absurd hstuck hnot⟩
      · have hkept : (t.ctls.desc i).kept timestamp = { t.ctls.desc i with timestamp := 0 } :=
          if_pos hstuck
        unfold Store.set
        dsimp only [PktControls.store]
        rw [hkept]
        rfl
      · show (if t.stuckState = 0 then 1 else t.stuckState) ≠ 0
        split
        · exact Nat.one_ne_zero
        · assumption
  · rw [if_neg hstuck]
    refine Or.inr ⟨_, rfl, ?_, fun hyes => absurd hyes hstuck, fun _ => rfl⟩
    have hkept : (t.ctls.desc i).kept timestamp = t.ctls.desc i := if_neg hstuck
    unfold Store.set
    dsimp only [PktControls.store]
    rw [hkept, Function.update_eq_self]
    rfl

theorem run_finish (ops : Nat → List PktOp) (s : PollRun) :
    (s.finish ops).run = s.run.finish fun k => (ops k).map PktOp.op := by
  have hlast : ∀ t : PollRun, (if t.refids ≠ [] then t.status ops else t).run =
      if t.run.batch ≠ [] then t.run.flush fun k => (ops k).map PktOp.op else t.run := by
    intro t
    by_cases hids : t.refids ≠ []
    · rw [if_pos hids, run_status, if_pos (show t.run.batch ≠ [] from hids)]
    · rw [if_neg hids, if_neg (show ¬ t.run.batch ≠ [] from hids)]
  have hfree : (if s.pktd2free.head.isSome then s.giveBack else s).run =
      if s.run.toFree.head.isSome then s.run.giveBack else s.run := by
    by_cases hsome : s.pktd2free.head.isSome
    · rw [if_pos hsome, if_pos (show s.run.toFree.head.isSome = true from hsome)]
      rfl
    · rw [if_neg hsome, if_neg (show ¬ s.run.toFree.head.isSome = true from hsome)]
  have hpost : ∀ t : PollRun, (if t.pktd2repost.head.isSome then t.repost else t).run =
      if t.run.toRepost.head.isSome then t.run.repost else t.run := by
    intro t
    by_cases hsome : t.pktd2repost.head.isSome
    · rw [if_pos hsome, if_pos (show t.run.toRepost.head.isSome = true from hsome)]
      rfl
    · rw [if_neg hsome, if_neg (show ¬ t.run.toRepost.head.isSome = true from hsome)]
  unfold finish Polls.Run.finish
  dsimp only
  rw [hlast, hpost, hfree]

/-- The loop comes to the end of the list, or to the first stuck descriptor, if that has no connection and
no poll has noted a stuck one before. -/
theorem loop_spec
    (h : Polls.Polling (pktRules refDescCount timestamp) c.store free s.run p done rest freed group)
    (ops : Nat → List PktOp) (hroom : s.refids.length < numRefid) (hr : rest.length ≤ rounds) :
    (s.loop refDescCount timestamp ops rounds = none ↔
      s.stuckState = 0 ∧ c.Unconnected refDescCount timestamp rest) ∧
    ∀ s' ∈ s.loop refDescCount timestamp ops rounds, ∃ p' freed' group',
      Polls.Polling (pktRules refDescCount timestamp) c.store free s'.run p' (done ++ rest) [] freed'
        group' ∧
      s'.refids.length < numRefid := by
  induction rest generalizing s p done freed group rounds with
  | nil =>
    have hend : s.loop refDescCount timestamp ops rounds = some s := by
      cases rounds with
      | zero => rfl
      | succ rounds =>
        unfold loop
        rw [show s.pktd = none from h.ahead]
    rw [hend, List.append_nil]
    refine ⟨iff_of_false (by nofun) ?_, ?_⟩
    · rintro ⟨-, i, hi, -⟩
      cases hi
    · rintro s' ⟨⟩
      exact ⟨p, freed, group, h, hroom⟩
  | cons i rest ih =>
    obtain ⟨rounds, rfl⟩ : ∃ n, rounds = n + 1 := Nat.exists_eq_succ_of_ne_zero (by
      rw [List.length_cons] at hr
      omega)
    have hrest : rest.length ≤ rounds := Nat.le_of_succ_le_succ hr
    have hsplit : done ++ i :: rest = done ++ [i] ++ rest := by simp
    have hdesc : s.ctls.desc i = c.desc i := h.same i List.mem_cons_self
    have hcur : s.pktd = some i := h.ahead.1
    unfold loop
    rw [hcur, hsplit]
    dsimp only
    rw [hdesc]
    by_cases hsent : (c.desc i).descCnt ≤ refDescCount
    · have hdone : c.sent refDescCount i = true := decide_eq_true hsent
      obtain ⟨p', freed', group', hnext, hnextRoom⟩ :=
        h.visitDone (fun k => (ops k).map PktOp.op) hdone hroom
      rw [← run_visitDone] at hnext hnextRoom
      obtain ⟨hnone, hsome⟩ := ih hnext hnextRoom hrest
      rw [visitDone_stuckState] at hnone
      rw [if_pos hsent, unconnected_sent hdone]
      exact ⟨hnone, hsome⟩
    · have hpend : c.sent refDescCount i = false := decide_eq_false hsent
      rw [if_neg hsent, unconnected_pending hpend]
      obtain ⟨hnull, hfirst, hstuck, hcontext⟩ | ⟨s', hvisit, hrun, hstuck, hfine⟩ :=
        visitPending_cases refDescCount timestamp s i
      · rw [hdesc] at hstuck hcontext
        rw [hnull, if_pos hstuck]
        exact ⟨iff_of_true rfl ⟨hfirst, hcontext⟩, by nofun⟩
      · have hnext := h.visitPending hpend
        rw [← hrun] at hnext
        have hbatch : s'.refids = s.refids := by
          have := congrArg Polls.Run.batch hrun
          exact this.trans (by unfold Polls.Run.visitPending; dsimp only; split <;> rfl)
        obtain ⟨hnone, hsome⟩ := ih hnext (hbatch ▸ hroom) hrest
        rw [hdesc] at hstuck hfine
        rw [hvisit, Option.bind_some, hnone]
        refine ⟨?_, hsome⟩
        by_cases hlate : (c.desc i).Stuck timestamp
        · obtain ⟨hnoted, hcontext⟩ := hstuck hlate
          rw [if_pos hlate]
          exact iff_of_false (fun hand => hnoted hand.1) fun hand => hcontext hand.1 hand.2
        · rw [if_neg hlate, hfine hlate]

end PollRun

/-- A poll fails at a stuck packet without a connection, and otherwise comes to its end. -/
theorem pollPktMessage_spec (hc : c.Shows p) (hn : (c.held ++ p.blocks).Nodup)
    (refDescCount timestamp stuckState : Nat) (ops : Nat → List PktOp) (hr : p.posted.length ≤ rounds) :
    (pollPktMessage refDescCount timestamp stuckState ops rounds c = none ↔
      stuckState = 0 ∧ c.Unconnected refDescCount timestamp p.posted) ∧
    ∀ r ∈ pollPktMessage refDescCount timestamp stuckState ops rounds c,
      Polls.Sound (pktRules refDescCount timestamp) c.store p r.1.run ∧
        r.2 = some r.1.unfreedReqId := by
  have hposted := hc.posted
  have hstart : Polls.Polling (pktRules refDescCount timestamp) c.store p.free
      (PollRun.start stuckState c).run { p with posted := [] } [] p.posted [] [] :=
    Polls.Polling.start (PktControls.shows_iff.mp hc) hn _
  unfold pollPktMessage
  by_cases hnone : c.pktReqidList = none
  · rw [hnone] at hposted
    have hempty : p.posted = [] := by
      cases hlist : p.posted with
      | nil => rfl
      | cons i l =>
        rw [hlist] at hposted
        cases hposted.1
    have hend : Polls.Polling (pktRules refDescCount timestamp) c.store p.free
        (PollRun.start stuckState c).run { p with posted := [] } p.posted [] [] [] := by
      rw [hempty] at hstart ⊢
      exact hstart
    rw [if_pos hnone, hempty]
    refine ⟨iff_of_false (by nofun) ?_, ?_⟩
    · rintro ⟨-, i, hi, -⟩
      cases hi
    · rintro r ⟨⟩
      exact ⟨hend.finish (Nat.zero_lt_succ 7) fun k => (ops k).map PktOp.op, rfl⟩
  · rw [if_neg hnone]
    obtain ⟨hfails, hends⟩ := PollRun.loop_spec hstart ops (Nat.zero_lt_succ 7) hr
    cases hloop : (PollRun.start stuckState c).loop refDescCount timestamp ops rounds with
    | none => exact ⟨iff_of_true rfl (hfails.mp hloop), by nofun⟩
    | some s =>
      obtain ⟨p', freed, group, hend, hroom⟩ := hends s hloop
      have hgo : ¬ s.pktd.isSome = true := by
        rw [show s.pktd = none from hend.ahead]
        nofun
      dsimp only
      rw [if_neg hgo]
      refine ⟨iff_of_false (by nofun) fun hlost => ?_, ?_⟩
      · rw [hfails.mpr hlost] at hloop
        cases hloop
      · rintro r ⟨⟩
        have hsound := hend.finish hroom fun k => (ops k).map PktOp.op
        rw [← PollRun.run_finish] at hsound
        exact ⟨hsound, rfl⟩

/-- A poll of any lists whose first stuck packet, if it is the first to be noted, has a connection, whatever
the status callbacks do with the packets: those sent are free again, the others are posted as before and
counted, and each request of the first is reported. -/
theorem poll_pkt_message_sound (hc : c.Shows p) (hn : (c.held ++ p.blocks).Nodup)
    (refDescCount timestamp stuckState : Nat)
    (hconn : stuckState = 0 → ¬ c.Unconnected refDescCount timestamp p.posted)
    (ops : Nat → List PktOp) (hr : p.posted.length ≤ rounds) :
    ∃ s, pollPktMessage refDescCount timestamp stuckState ops rounds c =
        some (s, some ((p.posted.filter (c.pending refDescCount)).filter
          fun i => (c.desc i).reqId ≠ 0).length) ∧
      PktPollSound refDescCount timestamp c p s := by
  obtain ⟨hfails, hends⟩ := pollPktMessage_spec hc hn refDescCount timestamp stuckState ops hr
  cases hpoll : pollPktMessage refDescCount timestamp stuckState ops rounds c with
  | none => exact absurd (hfails.mp hpoll).2 (hconn (hfails.mp hpoll).1)
  | some r =>
    obtain ⟨s, rc⟩ := r
    obtain ⟨hsound, hrc⟩ := hends (s, rc) hpoll
    obtain ⟨p', late, early, hshows, hlists⟩ := hsound.lists
    have hcount : rc = _ := hrc.trans (congrArg some hsound.count)
    refine ⟨s, congrArg (fun rc => some (s, rc)) hcount,
      ⟨p', late, early, PktControls.shows_iff.mpr hshows, hlists⟩, hsound.kept, ?_, hsound.batches⟩
    rw [List.map_flatMap]
    exact hsound.reports.trans (List.flatMap_congr fun i _ => (request_eq c i).symm)

/-- Two posted descriptors, of which the first has been sent at a count of 5, and a free one. The second
has been posted too long ago at a time of 200000000000. -/
def threePackets : PktControls :=
  { next := fun i => if i = 0 then some 1 else none
    desc := fun i =>
      if i = 0 then ⟨⟨5, 100, 22⟩, 11, some 3⟩
      else if i = 1 then ⟨⟨9, 101, 0⟩, 12, some 4⟩ else default
    pktFreeList := some 2
    pktReqidList := some 0
    held := []
    postings := [] }

theorem poll_pkt_message_sound_meanwhile :
    ∃ s, pollPktMessage 5 200000000000 0 (fun _ => [.alloc, .toPoll 0 12 5]) 2 threePackets =
        some (s, some 1) ∧
      PktPollSound 5 200000000000 threePackets ⟨[2], [0, 1], threePackets.desc⟩ s := by
  have hshows : threePackets.Shows ⟨[2], [0, 1], threePackets.desc⟩ :=
    ⟨⟨rfl, rfl⟩, ⟨rfl, rfl, rfl⟩, rfl⟩
  have hconn : ¬ threePackets.Unconnected 5 200000000000 [0, 1] := by
    rintro ⟨i, hi, hnone⟩
    cases (show some 1 = some i from hi)
    cases hnone
  exact poll_pkt_message_sound hshows (by decide) 5 200000000000 0 (fun _ => hconn)
    (fun _ => [.alloc, .toPoll 0 12 5]) (Nat.le_refl 2)

/-- The descriptor that has just been given back is taken again and posted by the callback. -/
example : ((pollPktMessage 5 200000000000 0 (fun _ => [.alloc, .toPoll 0 12 5]) 2 threePackets).map
    fun r => r.1.ctls.pktReqidList) = some (some 0) := rfl

/-- One posted descriptor with the error 2^32 and no connection. -/
def widePacket : PktControls :=
  { next := fun _ => none
    desc := fun _ => ⟨⟨9, 100, 2 ^ 32⟩, 12, none⟩
    pktFreeList := none
    pktReqidList := some 0
    held := []
    postings := [] }

/-- Once it has been sent, its error is reported as 0; when it is stuck before, the poll follows its null
pointer. -/
theorem wide_packet_reported_good :
    (∃ s, pollPktMessage 9 200000000000 0 (fun _ => []) 1 widePacket = some (s, some 0) ∧
      s.reports = [[(100, 0)]] ∧ widePacket.request 0 = [(100, 2 ^ 32)]) ∧
    pollPktMessage 5 200000000000 0 (fun _ => []) 1 widePacket = none :=
  ⟨⟨_, rfl, rfl, rfl⟩, rfl⟩

end BgqVrnic
