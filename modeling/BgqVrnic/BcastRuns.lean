import BgqVrnic.BcastNodes
import BgqVrnic.Runs

namespace BgqVrnic

open Runs

variable {ν : Type}

/-- The ready message of a broadcast, and the reduces of its nodes -/
def rdyOf (b : ν × MudmRdmaBcast) : Collective ν := .rdy ⟨b.2, some b.1⟩

def originOf (b : ν × MudmRdmaBcast) : BcastReduce ν := ⟨.origin, some b.1, b.2.classRoute⟩

def finishOf (b : ν × MudmRdmaBcast) : BcastReduce ν := ⟨.finish, some b.1, b.2.classRoute⟩

namespace BcastNode

/-- The nodes have told the same, and hold the same for their own broadcasts. -/
structure SameTold (x y : BcastNode ν) : Prop where
  reports : x.reports = y.reports
  finished : x.finished = y.finished
  info : x.bcastCounterInfo = y.bcastCounterInfo

/-- The node has finished `c` broadcasts and has not been made ready for another one. -/
structure AtRest (x : BcastNode ν) (c : Nat) (state : BcastState) (inbox : List (Collective ν)) :
    Prop where
  finished : x.finished = c
  readied : x.readied = c
  zeroed : x.zeroed = c
  state : x.state = state
  contributed : x.contributed = []
  inbox : x.inbox = inbox

/-- All nodes have come to the end of the broadcasts `pre`, and this one has yet to hear of the last. -/
structure Late (x : BcastNode ν) (pre : List (ν × MudmRdmaBcast)) (inbox : List (Collective ν)) :
    Prop where
  finished : x.finished + 1 = pre.length
  readied : x.readied = pre.length
  zeroed : x.zeroed = pre.length
  state : x.state = .wait4clear
  contributed : x.contributed = []
  inbox : ∃ r : BcastReduce ν, r.type = .finish ∧ x.inbox = .reduce r :: inbox
  shows : ∀ b, pre[x.finished]? = some b → x.Shows b

/-- The node has been made ready for broadcast `b`, the one after `c` others. -/
structure Receiving (x : BcastNode ν) (c : Nat) (b : ν × MudmRdmaBcast)
    (contributed : List (BcastReduce ν)) (inbox : List (Collective ν)) : Prop where
  finished : x.finished = c
  readied : x.readied = c + 1
  zeroed : x.zeroed = c
  state : x.state = .receiver
  contributed : x.contributed = contributed
  inbox : x.inbox = inbox
  shows : x.Shows b

/-- The node has found its counter zero in broadcast `b`. -/
structure Waiting (x : BcastNode ν) (c : Nat) (b : ν × MudmRdmaBcast) : Prop where
  finished : x.finished = c
  readied : x.readied = c + 1
  zeroed : x.zeroed = c + 1
  state : x.state = .wait4clear
  contributed : x.contributed = [finishOf b]
  inbox : x.inbox = []
  shows : x.Shows b
  counter : x.muCounter = 0

end BcastNode

/-- What the nodes have told, and the broadcasts that they still have to tell of, among those that have
been set up. -/
structure BcastHistory [DecidableEq ν] (launched : List (ν × MudmRdmaBcast)) (s : BcastNet ν) : Prop where
  reports : ∀ n, (s.node n).reports = requestsOf n (s.started.take (s.node n).finished)
  own : ∀ n mrb, launched[(s.node n).finished]? = some (n, mrb) →
    (s.node n).bcastCounterInfo = ⟨mrb, some n⟩
  none : ∀ n, (∀ mrb, launched[(s.node n).finished]? ≠ some (n, mrb)) →
    (s.node n).bcastCounterInfo.mrb.requestID = 0

/-- All bytes have arrived. -/
def Arrived (data : List (BcastDirectPut ν)) : Prop := ∀ p ∈ data, ∀ n, p.left n = 0

section Inv

variable [DecidableEq ν]

/-- Node `n` before the ready message of the broadcast `b`, the one after `pre`, has come to it. -/
def BcastNode.Unready (x : BcastNode ν) (n : ν) (pre : List (ν × MudmRdmaBcast)) (b : ν × MudmRdmaBcast)
    (inbox : List (Collective ν)) : Prop :=
  x.AtRest pre.length (if n = b.1 then .setup else .inactive) inbox ∨ n ≠ b.1 ∧ x.Late pre inbox

/-- A node that is ready for the broadcast `b`, when the reduce to its origin is still to come. -/
def BcastNode.Ready (x : BcastNode ν) (c : Nat) (b : ν × MudmRdmaBcast) : Prop :=
  (x.Receiving c b (if b.2.payloadLength ≠ 0 then [originOf b] else []) [] ∧ x.got = 0) ∨
    b.2.payloadLength = 0 ∧ x.Waiting c b

/-- The broadcasts come one after the other. Each has these stages: its call has been let in; its ready
message is in flight; the message is on its way to the nodes; the nodes have contributed to the reduce to
the origin; the data have been sent. One without data has no more than the first three. -/
inductive BcastInv (s : BcastNet ν) : Prop
  | idle (hist : BcastHistory s.started s) (hlaunching : s.launching = []) (hflight : s.inFlight = [])
      (hdata : Arrived s.data)
      (hnodes : ∀ n, (s.node n).AtRest s.started.length .inactive [] ∨
        (s.node n).Late s.started [])
  | launching (pre : List (ν × MudmRdmaBcast)) (b : ν × MudmRdmaBcast) (hs : s.started = pre ++ [b])
      (hist : BcastHistory pre s) (hlaunching : s.launching = [b]) (hflight : s.inFlight = [])
      (hdata : Arrived s.data) (hnodes : ∀ n, (s.node n).Unready n pre b [])
  | inFlight (pre : List (ν × MudmRdmaBcast)) (b : ν × MudmRdmaBcast) (hs : s.started = pre ++ [b])
      (hist : BcastHistory s.started s) (hlaunching : s.launching = [])
      (hflight : s.inFlight = [⟨b.2, some b.1⟩]) (hdata : Arrived s.data)
      (hcounter : (s.node b.1).muCounter = b.2.payloadLength)
      (hnodes : ∀ n, (s.node n).Unready n pre b [])
  | rdy (pre : List (ν × MudmRdmaBcast)) (b : ν × MudmRdmaBcast) (hs : s.started = pre ++ [b])
      (hist : BcastHistory s.started s) (hlaunching : s.launching = []) (hflight : s.inFlight = [])
      (hdata : Arrived s.data)
      (hcounter : (s.node b.1).readied = pre.length → (s.node b.1).muCounter = b.2.payloadLength)
      (hnodes : ∀ n, (s.node n).Unready n pre b [rdyOf b] ∨ (s.node n).Ready pre.length b)
  | asked (pre : List (ν × MudmRdmaBcast)) (b : ν × MudmRdmaBcast) (hs : s.started = pre ++ [b])
      (hist : BcastHistory s.started s) (hlaunching : s.launching = []) (hflight : s.inFlight = [])
      (hdata : Arrived s.data) (hlength : b.2.payloadLength ≠ 0)
      (hnodes : ∀ n, (s.node n).Receiving pre.length b []
        (if n = b.1 then [.reduce (originOf b)] else []) ∧ (s.node n).got = 0)
  | sent (pre : List (ν × MudmRdmaBcast)) (b : ν × MudmRdmaBcast) (hs : s.started = pre ++ [b])
      (hist : BcastHistory s.started s) (hlaunching : s.launching = []) (hflight : s.inFlight = [])
      (old : List (BcastDirectPut ν)) (p : BcastDirectPut ν) (hdata : s.data = old ++ [p])
      (hold : Arrived old) (hlength : b.2.payloadLength ≠ 0)
      (hnodes : ∀ n, ((s.node n).Receiving pre.length b [] [] ∨ (s.node n).Waiting pre.length b) ∧
        (s.node n).muCounter = p.left n)

/-- A call is let in at a node only when the node has finished all broadcasts that have been started. -/
def AloneOnRoute (s : BcastNet ν) : BcastInput ν → Prop
  | .call n _ => (s.node n).state = .inactive → (s.node n).finished = s.started.length
  | _ => True

instance (s : BcastNet ν) : ∀ i : BcastInput ν, Decidable (AloneOnRoute s i)
  | .call n _ =>
    inferInstanceAs (Decidable ((s.node n).state = .inactive → (s.node n).finished = s.started.length))
  | .launch _ | .arrive _ | .combine _ | .deliver _ | .data .. | .poll _ => isTrue trivial

end Inv

namespace BcastNode

variable {x : BcastNode ν} {c : Nat} {st : BcastState} {pre : List (ν × MudmRdmaBcast)}
  {b : ν × MudmRdmaBcast} {inbox : List (Collective ν)}

theorem AtRest.take (h : x.AtRest c st inbox) (m : Collective ν) :
    ({ x with inbox := x.inbox ++ [m] } : BcastNode ν).AtRest c st (inbox ++ [m]) :=
  ⟨h.finished, h.readied, h.zeroed, h.state, h.contributed, congrArg (· ++ [m]) h.inbox⟩

theorem Late.take (h : x.Late pre inbox) (m : Collective ν) :
    ({ x with inbox := x.inbox ++ [m] } : BcastNode ν).Late pre (inbox ++ [m]) := by
  obtain ⟨r, hr, hi⟩ := h.inbox
  refine ⟨h.finished, h.readied, h.zeroed, h.state, h.contributed, ⟨r, hr, ?_⟩, fun b hb => ?_⟩
  · simp only [hi, List.cons_append]
  · obtain ⟨h1, h2, h3, h4, h5⟩ := h.shows b hb
    exact ⟨h1, h2, h3, h4, h5⟩

/-- The ready message gives a node at rest the counter and the status of the broadcast. -/
theorem AtRest.ready (h : x.AtRest c st (rdyOf b :: inbox)) :
    ({ x with inbox := inbox }.readyRdmaBcastReceiveReduce ⟨b.2, some b.1⟩).Receiving c b
      (if b.2.payloadLength ≠ 0 then [originOf b] else []) inbox := by
  have hc := h.contributed
  by_cases hl : b.2.payloadLength = 0
  · simp only [readyRdmaBcastReceiveReduce, hl, ne_eq, not_true_eq_false, if_false]
    refine ⟨h.finished, congrArg (· + 1) h.readied, h.zeroed, rfl, hc, rfl, rfl, rfl, rfl, rfl, ?_⟩
    simp [hl]
  · simp only [readyRdmaBcastReceiveReduce, hl, ne_eq, not_false_eq_true, if_true]
    refine ⟨h.finished, congrArg (· + 1) h.readied, h.zeroed, rfl, ?_, rfl, rfl, rfl, rfl, rfl, ?_⟩
    · simp [bcastReduce, hc, originOf]
    · simp [bcastReduce]

theorem ready_got (x : BcastNode ν) (rbsc : RdmaBcastSetCounter ν) :
    (x.readyRdmaBcastReceiveReduce rbsc).got = 0 := by
  unfold readyRdmaBcastReceiveReduce
  dsimp only
  split <;> rfl

theorem setInbox_ready_told (x : BcastNode ν) (inbox : List (Collective ν))
    (rbsc : RdmaBcastSetCounter ν) :
    ({ x with inbox := inbox }.readyRdmaBcastReceiveReduce rbsc).SameTold x := by
  unfold readyRdmaBcastReceiveReduce
  dsimp only
  split <;> exact ⟨rfl, rfl, rfl⟩

theorem Late.clear (h : x.Late pre inbox) (rest : List (Collective ν)) :
    ({ x with inbox := rest }.clearRdmaBcastReceiveReduce).AtRest pre.length .inactive rest :=
  ⟨h.finished, h.readied, h.zeroed, rfl, h.contributed, rfl⟩

theorem poll_told (x : BcastNode ν) : x.rdmaBcastPollReduce.SameTold x := by
  unfold rdmaBcastPollReduce
  split
  · exact ⟨rfl, rfl, rfl⟩
  · split <;> exact ⟨rfl, rfl, rfl⟩

theorem poll_counter (x : BcastNode ν) : x.rdmaBcastPollReduce.muCounter = x.muCounter := by
  unfold rdmaBcastPollReduce
  split
  · rfl
  · split <;> rfl

/-- The poll does something only for a node that is receiving and has its counter at zero. -/
theorem poll_of_state (h : x.state ≠ .receiver) : x.rdmaBcastPollReduce = x := by
  unfold rdmaBcastPollReduce
  split <;> rfl

theorem poll_of_counter (h : x.muCounter ≠ 0) : x.rdmaBcastPollReduce = x := by
  unfold rdmaBcastPollReduce
  rw [if_pos h]

theorem Receiving.poll (h : x.Receiving c b [] []) (hc : x.muCounter = 0) :
    x.rdmaBcastPollReduce.Waiting c b := by
  have hs := h.shows
  have hpoll : x.rdmaBcastPollReduce =
      { x with
        statusWrites :=
          if x.localStatusAddress ≠ 0 then
            x.statusWrites ++ [(x.localStatusAddress, x.localStatusValue)]
          else x.statusWrites
        zeroed := x.zeroed + 1
        contributed := x.contributed ++ [⟨.finish, x.originBcastNode, x.classRoute4bcast⟩]
        state := .wait4clear } := by
    unfold rdmaBcastPollReduce
    rw [if_neg (not_not_intro hc), if_neg (not_not_intro h.state)]
    rfl
  rw [hpoll]
  refine ⟨h.finished, h.readied, congrArg (· + 1) h.zeroed, rfl, ?_, h.inbox, ?_, hc⟩
  · simp [h.contributed, hs.origin, hs.classRoute, finishOf]
  · exact ⟨hs.origin, hs.classRoute, hs.statusAddress, hs.statusValue, hs.counter⟩

theorem Receiving.put {contributed : List (BcastReduce ν)} (h : x.Receiving c b contributed inbox)
    (bytes : BitVec 64) : (x.put bytes).Receiving c b contributed inbox := by
  have hs := h.shows
  refine ⟨h.finished, h.readied, h.zeroed, h.state, h.contributed, h.inbox, hs.origin, hs.classRoute,
    hs.statusAddress, hs.statusValue, ?_⟩
  change x.muCounter - bytes = b.2.payloadLength - (x.got + bytes)
  rw [hs.counter, BitVec.sub_sub]

theorem Receiving.mail {contributed contributed' : List (BcastReduce ν)} {inbox' : List (Collective ν)}
    (h : x.Receiving c b contributed inbox) {rs : List (BcastReduce ν)} {cs : List (Collective ν)}
    (hr : rs = contributed') (hc : cs = inbox') :
    ({ x with contributed := rs, inbox := cs } : BcastNode ν).Receiving c b contributed' inbox' := by
  have hs := h.shows
  exact ⟨h.finished, h.readied, h.zeroed, h.state, hr, hc, hs.origin, hs.classRoute, hs.statusAddress,
    hs.statusValue, hs.counter⟩

theorem Waiting.finish (h : x.Waiting pre.length b) :
    ({ x with
        contributed := x.contributed.tail
        inbox := x.inbox ++ [.reduce (finishOf b)] } : BcastNode ν).Late (pre ++ [b]) [] := by
  have hs := h.shows
  refine ⟨?_, ?_, ?_, h.state, ?_, ⟨finishOf b, rfl, ?_⟩, fun b' hb' => ?_⟩
  · simp [h.finished]
  · simp [h.readied]
  · simp [h.zeroed]
  · simp [h.contributed]
  · simp [h.inbox]
  · have hb : (pre ++ [b])[pre.length]? = some b' := by
      rw [← h.finished]
      exact hb'
    rw [List.getElem?_concat_length] at hb
    cases hb
    exact ⟨hs.origin, hs.classRoute, hs.statusAddress, hs.statusValue, hs.counter⟩

end BcastNode

section Step

variable [DecidableEq ν] {s s' : BcastNet ν} {n : ν} {mrb : MudmRdmaBcast} {b : ν × MudmRdmaBcast}
  {pre launched : List (ν × MudmRdmaBcast)} {inbox : List (Collective ν)}

theorem node_setNode_self (s : BcastNet ν) (n : ν) (x : BcastNode ν) : (s.setNode n x).node n = x :=
  Function.update_self ..

theorem node_setNode_of_ne {m : ν} (s : BcastNet ν) (x : BcastNode ν) (h : m ≠ n) :
    (s.setNode n x).node m = s.node m := Function.update_of_ne h ..

/-- A node has changed, and the others have not. -/
theorem forall_setNode (P : ν → BcastNode ν → Prop) {x : BcastNode ν} (hx : P n x)
    (h : ∀ m, m ≠ n → P m (s.node m)) (m : ν) : P m ((s.setNode n x).node m) := by
  by_cases hm : m = n
  · rw [hm, node_setNode_self]
    exact hx
  · rw [node_setNode_of_ne s x hm]
    exact h m hm

theorem setNode_self (s : BcastNet ν) (n : ν) : s.setNode n (s.node n) = s := by
  unfold BcastNet.setNode
  rw [Function.update_eq_self]

/-- What a node holds for its own broadcast, and has told, is untouched by most of what happens. -/
theorem BcastHistory.of_told (h : BcastHistory launched s)
    (hs : ∀ n, s'.started.take (s.node n).finished = s.started.take (s.node n).finished)
    (hn : ∀ n, (s'.node n).SameTold (s.node n)) : BcastHistory launched s' := by
  refine ⟨fun n => ?_, fun n mrb => ?_, fun n => ?_⟩
  · rw [(hn n).reports, (hn n).finished, hs n]
    exact h.reports n
  · rw [(hn n).finished, (hn n).info]
    exact h.own n mrb
  · rw [(hn n).finished, (hn n).info]
    exact h.none n

theorem setNode_told {x : BcastNode ν} (hx : x.SameTold (s.node n)) (m : ν) :
    ((s.setNode n x).node m).SameTold (s.node m) :=
  forall_setNode (fun m y => y.SameTold (s.node m)) hx (fun _ _ => ⟨rfl, rfl, rfl⟩) m

theorem requestsOf_take_succ {started : List (ν × MudmRdmaBcast)} {k : Nat} {b : ν × MudmRdmaBcast}
    (h : started[k]? = some b) :
    requestsOf n (started.take (k + 1)) =
      requestsOf n (started.take k) ++ requestsOf n [b] := by
  rw [List.take_add_one, h]
  simp [requestsOf]

/-- The finish of a broadcast makes its originator tell of it, and nobody else. -/
theorem BcastHistory.clear (h : BcastHistory launched s) {rest : List (Collective ν)}
    (hf : (s.node n).finished < s.started.length)
    (hl : launched[(s.node n).finished]? = s.started[(s.node n).finished]?)
    (hnext : ∀ mrb, launched[(s.node n).finished + 1]? ≠ some (n, mrb)) :
    BcastHistory launched
      (s.setNode n ({ s.node n with inbox := rest }).clearRdmaBcastReceiveReduce) := by
  obtain ⟨⟨o, own⟩, hb⟩ : ∃ b, s.started[(s.node n).finished]? = some b :=
    ⟨_, List.getElem?_eq_getElem hf⟩
  have htake := requestsOf_take_succ (n := n) hb
  refine ⟨fun m => ?_, fun m mrb hm => ?_, fun m hm => ?_⟩
  · by_cases hmn : m = n
    · subst hmn
      rw [node_setNode_self]
      change (if (s.node m).bcastCounterInfo.mrb.requestID ≠ 0 then
        (s.node m).reports ++ [(s.node m).bcastCounterInfo.mrb.requestID] else (s.node m).reports) =
          requestsOf m (s.started.take ((s.node m).finished + 1))
      rw [htake, h.reports m]
      rw [hb] at hl
      by_cases hown : o = m
      · subst hown
        rw [h.own o own hl]
        by_cases hzero : own.requestID = 0 <;> simp [requestsOf, hzero]
      · have hzero := h.none m fun mrb hmrb => by
          rw [hl] at hmrb
          cases hmrb
          exact hown rfl
        simp [hzero, requestsOf, hown]
    · rw [node_setNode_of_ne s _ hmn]
      exact h.reports m
  · by_cases hmn : m = n
    · subst hmn
      rw [node_setNode_self] at hm
      exact absurd hm (hnext mrb)
    · rw [node_setNode_of_ne s _ hmn] at hm ⊢
      exact h.own m mrb hm
  · by_cases hmn : m = n
    · subst hmn
      rw [node_setNode_self]
      rfl
    · rw [node_setNode_of_ne s _ hmn] at hm ⊢
      exact h.none m hm

/-- The writes of the call at a node that has finished everything before it -/
theorem BcastHistory.launch (h : BcastHistory pre s) (hf : (s.node b.1).finished = pre.length)
    (hle : ∀ n, (s.node n).finished ≤ pre.length) :
    BcastHistory (pre ++ [b]) (s.setNode b.1 ((s.node b.1).setUp b.1 b.2)) := by
  have hown : ∀ n, n ≠ b.1 → ∀ mrb,
      (pre ++ [b])[(s.node n).finished]? = some (n, mrb) ↔ pre[(s.node n).finished]? = some (n, mrb) := by
    intro n hn mrb
    rcases Nat.lt_or_ge (s.node n).finished pre.length with hlt | hge
    · rw [List.getElem?_append_left hlt]
    · have heq := Nat.le_antisymm (hle n) hge
      rw [heq, List.getElem?_concat_length, List.getElem?_eq_none (Nat.le_refl _)]
      constructor
      · intro hb
        cases hb
        exact absurd rfl hn
      · nofun
  refine ⟨fun m => ?_, fun m mrb hm => ?_, fun m hm => ?_⟩
  · by_cases hmn : m = b.1
    · rw [hmn, node_setNode_self]
      exact h.reports b.1
    · rw [node_setNode_of_ne s _ hmn]
      exact h.reports m
  · by_cases hmn : m = b.1
    · subst hmn
      rw [node_setNode_self] at hm ⊢
      change (pre ++ [b])[(s.node b.1).finished]? = _ at hm
      rw [hf, List.getElem?_concat_length] at hm
      rw [Option.some.inj hm]
      rfl
    · rw [node_setNode_of_ne s _ hmn] at hm ⊢
      exact h.own m mrb ((hown m hmn mrb).mp hm)
  · by_cases hmn : m = b.1
    · subst hmn
      rw [node_setNode_self] at hm
      change ∀ mrb, (pre ++ [b])[(s.node b.1).finished]? ≠ _ at hm
      rw [hf, List.getElem?_concat_length] at hm
      exact absurd rfl (hm b.2)
    · rw [node_setNode_of_ne s _ hmn] at hm ⊢
      exact h.none m fun mrb hpre => hm mrb ((hown m hmn mrb).mpr hpre)

end Step

section Stages

variable {n : ν} {mrb : MudmRdmaBcast} {b : ν × MudmRdmaBcast} {pre launched : List (ν × MudmRdmaBcast)}
  {inbox : List (Collective ν)}

theorem getElem?_ne_of_started {started : List (ν × MudmRdmaBcast)} (hs : started = pre ++ [b])
    (hn : n ≠ b.1) (mrb : MudmRdmaBcast) : started[pre.length]? ≠ some (n, mrb) := by
  rw [hs, List.getElem?_concat_length]
  intro hb
  cases hb
  exact hn rfl

theorem BcastNode.Ready.readied {x : BcastNode ν} {c : Nat} (h : x.Ready c b) : x.readied = c + 1 := by
  obtain ⟨h, -⟩ | ⟨-, h⟩ := h
  · exact h.readied
  · exact h.readied

/-- A node that is ready for data waits for them, and one that is ready for none does not. -/
theorem BcastNode.Ready.poll {x : BcastNode ν} {c : Nat} (h : x.Ready c b) :
    x.rdmaBcastPollReduce.Ready c b := by
  obtain ⟨h, hgot⟩ | ⟨hlength, h⟩ := h
  · have hcounter : x.muCounter = b.2.payloadLength := by simp [h.shows.counter, hgot]
    by_cases hlength : b.2.payloadLength = 0
    · rw [if_neg (not_not_intro hlength)] at h
      exact Or.inr ⟨hlength, h.poll (hcounter.trans hlength)⟩
    · rw [BcastNode.poll_of_counter (fun hzero => hlength (hcounter.symm.trans hzero))]
      exact Or.inl ⟨h, hgot⟩
  · rw [BcastNode.poll_of_state (by rw [h.state]; decide)]
    exact Or.inr ⟨hlength, h⟩

theorem BcastNode.Ready.finished {x : BcastNode ν} {c : Nat} (h : x.Ready c b) : x.finished = c := by
  obtain ⟨h, -⟩ | ⟨-, h⟩ := h
  · exact h.finished
  · exact h.finished

variable [DecidableEq ν]

theorem BcastNode.Unready.finished_le {x : BcastNode ν} (h : x.Unready n pre b inbox) :
    x.finished ≤ pre.length := by
  obtain h | ⟨-, h⟩ := h
  · exact Nat.le_of_eq h.finished
  · have hf := h.finished
    omega

theorem BcastNode.Unready.contributed {x : BcastNode ν} (h : x.Unready n pre b inbox) :
    x.contributed = [] := by
  obtain h | ⟨-, h⟩ := h
  · exact h.contributed
  · exact h.contributed

variable {s s' : BcastNet ν}

theorem BcastNode.Unready.poll {x : BcastNode ν} (h : x.Unready n pre b inbox) :
    x.rdmaBcastPollReduce = x := by
  refine BcastNode.poll_of_state ?_
  obtain h | ⟨-, h⟩ := h
  · rw [h.state]
    split <;> decide
  · rw [h.state]
    decide

/-- While a broadcast is under way no node has finished all broadcasts. -/
theorem BcastInv.idle_of_finished (h : BcastInv s) (hf : (s.node n).finished = s.started.length) :
    BcastHistory s.started s ∧ s.launching = [] ∧ s.inFlight = [] ∧ Arrived s.data ∧
      ∀ n, (s.node n).AtRest s.started.length .inactive [] ∨ (s.node n).Late s.started [] := by
  have hlt : ∀ pre b, s.started = pre ++ [b] → ¬ (s.node n).finished ≤ pre.length := by
    intro pre b hs hle
    rw [hf, hs, List.length_append] at hle
    exact absurd hle (by simp)
  cases h with
  | idle hist hlaunching hflight hdata hnodes => exact ⟨hist, hlaunching, hflight, hdata, hnodes⟩
  | launching pre b hs hist hlaunching hflight hdata hnodes =>
    exact absurd (hnodes n).finished_le (hlt pre b hs)
  | inFlight pre b hs hist hlaunching hflight hdata hcounter hnodes =>
    exact absurd (hnodes n).finished_le (hlt pre b hs)
  | rdy pre b hs hist hlaunching hflight hdata hcounter hnodes =>
    rcases hnodes n with hn | hn
    · exact absurd hn.finished_le (hlt pre b hs)
    · exact absurd (Nat.le_of_eq hn.finished) (hlt pre b hs)
  | asked pre b hs hist hlaunching hflight hdata hlength hnodes =>
    exact absurd (Nat.le_of_eq (hnodes n).1.finished) (hlt pre b hs)
  | sent pre b hs hist hlaunching hflight old p hdata hold hlength hnodes =>
    rcases (hnodes n).1 with hn | hn
    · exact absurd (Nat.le_of_eq hn.finished) (hlt pre b hs)
    · exact absurd (Nat.le_of_eq hn.finished) (hlt pre b hs)

theorem bcastInv_new : BcastInv (newBcastNet : BcastNet ν) := by
  refine .idle ⟨fun n => rfl, fun n mrb h => ?_, fun n h => rfl⟩ rfl rfl (fun p hp => ?_) fun n =>
    Or.inl ⟨rfl, rfl, rfl, rfl, rfl, rfl⟩
  · simp [newBcastNet] at h
  · simp [newBcastNet] at hp

end Stages

end BgqVrnic
