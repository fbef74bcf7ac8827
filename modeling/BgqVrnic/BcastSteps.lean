import BgqVrnic.BcastRuns

namespace BgqVrnic

section Steps

variable {ν : Type} [DecidableEq ν] [Fintype ν] {s s' : BcastNet ν} {n : ν} {mrb : MudmRdmaBcast}
  {b : ν × MudmRdmaBcast} {pre launched : List (ν × MudmRdmaBcast)} {inbox : List (Collective ν)}

theorem BcastInv.call (h : BcastInv s) (hok : AloneOnRoute s (.call n mrb))
    (hs : bcastStep s (.call n mrb) = some s') : BcastInv s' := by
  by_cases hstate : (s.node n).state = .inactive
  · obtain ⟨hist, hlaunching, hflight, hdata, hnodes⟩ := h.idle_of_finished (hok hstate)
    simp only [bcastStep, hstate, ne_eq, not_true_eq_false, if_false] at hs
    cases hs
    have hle : ∀ m, (s.node m).finished ≤ s.started.length := by
      intro m
      rcases hnodes m with hm | hm
      · exact Nat.le_of_eq hm.finished
      · have hf := hm.finished
        omega
    refine .launching s.started (n, mrb) rfl ?_ (by simp [hlaunching]) hflight hdata
      (forall_setNode (fun m y => y.Unready m s.started (n, mrb) []) ?_ fun m hm => ?_)
    · exact hist.of_told (fun m => List.take_append_of_le_length (hle m)) (setNode_told ⟨rfl, rfl, rfl⟩)
    · rcases hnodes n with hn | hn
      · exact Or.inl ⟨hn.finished, hn.readied, hn.zeroed, (if_pos rfl).symm, hn.contributed, hn.inbox⟩
      · exact absurd (hn.state.symm.trans hstate) (by decide)
    · rcases hnodes m with hr | hl
      · refine Or.inl ?_
        rw [if_neg hm]
        exact hr
      · exact Or.inr ⟨hm, hl⟩
  · simp only [bcastStep, hstate, ne_eq, not_false_eq_true, if_true] at hs
    cases hs
    exact h

theorem eq_of_getElem?_singleton {α : Type} {a x : α} {i : Nat} (h : [a][i]? = some x) : i = 0 ∧ x = a := by
  cases i with
  | zero => exact ⟨rfl, (Option.some.inj h).symm⟩
  | succ i => simp at h

theorem BcastInv.launch {i : Nat} (h : BcastInv s) (hs : bcastStep s (.launch i) = some s') :
    BcastInv s' := by
  simp only [bcastStep] at hs
  cases hi : s.launching[i]? with
  | none =>
    rw [hi] at hs
    cases hs
  | some b' =>
    rw [hi] at hs
    cases hs
    have hne : s.launching ≠ [] := by
      intro hnil
      rw [hnil] at hi
      cases hi
    cases h with
    | launching pre b hs hist hlaunching hflight hdata hnodes =>
      rw [hlaunching] at hi
      obtain ⟨rfl, rfl⟩ := eq_of_getElem?_singleton hi
      have hself : (s.node b'.1).AtRest pre.length .setup [] := by
        rcases hnodes b'.1 with hn | ⟨hn, -⟩
        · rw [if_pos rfl] at hn
          exact hn
        · exact absurd rfl hn
      refine .inFlight pre b' hs ?_ (by simp [hlaunching]) ?_ hdata ?_
        (forall_setNode (fun m y => y.Unready m pre b' []) (Or.inl ?_) fun m _ => hnodes m)
      · have hlaunch := hist.launch hself.finished fun m => (hnodes m).finished_le
        rw [← hs] at hlaunch
        exact hlaunch.of_told (fun _ => rfl) fun _ => ⟨rfl, rfl, rfl⟩
      · rw [hflight]
        rfl
      · exact congrArg BcastNode.muCounter (node_setNode_self s b'.1 _)
      · rw [if_pos rfl]
        exact ⟨hself.finished, hself.readied, hself.zeroed, hself.state, hself.contributed, hself.inbox⟩
    | idle hist hlaunching hflight hdata hnodes => exact absurd hlaunching hne
    | inFlight pre b hs hist hlaunching hflight hdata hcounter hnodes => exact absurd hlaunching hne
    | rdy pre b hs hist hlaunching hflight hdata hcounter hnodes => exact absurd hlaunching hne
    | asked pre b hs hist hlaunching hflight hdata hlength hnodes => exact absurd hlaunching hne
    | sent pre b hs hist hlaunching hflight old p hdata hold hlength hnodes =>
      exact absurd hlaunching hne

theorem BcastInv.arrive {i : Nat} (h : BcastInv s) (hs : bcastStep s (.arrive i) = some s') :
    BcastInv s' := by
  simp only [bcastStep] at hs
  cases hi : s.inFlight[i]? with
  | none =>
    rw [hi] at hs
    cases hs
  | some rbsc =>
    rw [hi] at hs
    cases hs
    have hne : s.inFlight ≠ [] := by
      intro hnil
      rw [hnil] at hi
      cases hi
    cases h with
    | inFlight pre b hs hist hlaunching hflight hdata hcounter hnodes =>
      rw [hflight] at hi
      obtain ⟨rfl, rfl⟩ := eq_of_getElem?_singleton hi
      refine .rdy pre b hs ?_ hlaunching (by simp [hflight, BcastNet.hand]) hdata (fun _ => hcounter)
        fun m => Or.inl ?_
      · exact hist.of_told (fun _ => rfl) fun _ => ⟨rfl, rfl, rfl⟩
      · rcases hnodes m with hr | ⟨hm, hl⟩
        · exact Or.inl (hr.take (rdyOf b))
        · exact Or.inr ⟨hm, hl.take (rdyOf b)⟩
    | idle hist hlaunching hflight hdata hnodes => exact absurd hflight hne
    | launching pre b hs hist hlaunching hflight hdata hnodes => exact absurd hflight hne
    | rdy pre b hs hist hlaunching hflight hdata hcounter hnodes => exact absurd hflight hne
    | asked pre b hs hist hlaunching hflight hdata hlength hnodes => exact absurd hflight hne
    | sent pre b hs hist hlaunching hflight old p hdata hold hlength hnodes =>
      exact absurd hflight hne

theorem BcastInv.poll (h : BcastInv s) (hs : bcastStep s (.poll n) = some s') : BcastInv s' := by
  cases hs
  have hsame : (s.node n).rdmaBcastPollReduce = s.node n →
      BcastInv (s.setNode n (s.node n).rdmaBcastPollReduce) := by
    intro heq
    rw [heq, setNode_self]
    exact h
  have htold := setNode_told (s.node n).poll_told
  cases h with
  | idle hist hlaunching hflight hdata hnodes =>
    refine hsame (BcastNode.poll_of_state ?_)
    rcases hnodes n with hn | hn <;> simp [hn.state]
  | launching pre b hs hist hlaunching hflight hdata hnodes => exact hsame (hnodes n).poll
  | inFlight pre b hs hist hlaunching hflight hdata hcounter hnodes => exact hsame (hnodes n).poll
  | rdy pre b hs hist hlaunching hflight hdata hcounter hnodes =>
    rcases hnodes n with hn | hn
    · exact hsame hn.poll
    refine .rdy pre b hs (hist.of_told (fun _ => rfl) htold) hlaunching hflight hdata ?_
      (forall_setNode (fun m y => y.Unready m pre b [rdyOf b] ∨ y.Ready pre.length b) (Or.inr hn.poll)
        fun m _ => hnodes m)
    by_cases hbn : b.1 = n
    · rw [hbn, node_setNode_self]
      intro hreadied
      exact absurd (hn.poll.readied.symm.trans hreadied) (by simp)
    · rw [node_setNode_of_ne s _ hbn]
      exact hcounter
  | asked pre b hs hist hlaunching hflight hdata hlength hnodes =>
    obtain ⟨hn, hgot⟩ := hnodes n
    refine hsame (BcastNode.poll_of_counter ?_)
    simpa [hn.shows.counter, hgot] using hlength
  | sent pre b hs hist hlaunching hflight old p hdata hold hlength hnodes =>
    by_cases hcounter : (s.node n).muCounter = 0
    · refine .sent pre b hs (hist.of_told (fun _ => rfl) htold) hlaunching hflight old p hdata hold hlength
        (forall_setNode (fun m y =>
          (y.Receiving pre.length b [] [] ∨ y.Waiting pre.length b) ∧ y.muCounter = p.left m) ?_
          fun m _ => hnodes m)
      rw [BcastNode.poll_counter]
      refine ⟨Or.inr ?_, (hnodes n).2⟩
      rcases (hnodes n).1 with hn | hn
      · exact hn.poll hcounter
      · rw [BcastNode.poll_of_state (by rw [hn.state]; decide)]
        exact hn
    · exact hsame (BcastNode.poll_of_counter hcounter)

theorem BcastInv.data {i : Nat} {bytes : BitVec 64} (h : BcastInv s)
    (hs : bcastStep s (.data i n bytes) = some s') : BcastInv s' := by
  simp only [bcastStep] at hs
  cases hi : s.data[i]? with
  | none =>
    rw [hi] at hs
    cases hs
  | some p =>
    rw [hi] at hs
    dsimp only at hs
    by_cases hbytes : bytes ≠ 0 ∧ bytes ≤ p.left n
    · rw [if_pos hbytes] at hs
      cases hs
      have hleft : p.left n ≠ 0 := by
        intro hzero
        rw [hzero] at hbytes
        exact hbytes.1 (BitVec.le_zero_iff.mp hbytes.2)
      have hnot : ¬ Arrived s.data := fun hdata => hleft (hdata p (List.mem_of_getElem? hi) n)
      cases h with
      | sent pre b hs hist hlaunching hflight old q hdata hold hlength hnodes =>
        obtain ⟨rfl, rfl⟩ : i = old.length ∧ p = q := by
          rw [hdata] at hi
          rcases Nat.lt_or_ge i old.length with hlt | hge
          · rw [List.getElem?_append_left hlt] at hi
            exact absurd (hold p (List.mem_of_getElem? hi) n) hleft
          · rw [List.getElem?_append_right hge] at hi
            obtain ⟨hzero, hp⟩ := eq_of_getElem?_singleton hi
            exact ⟨by omega, hp⟩
        refine .sent pre b hs (hist.of_told (fun _ => rfl) (setNode_told ⟨rfl, rfl, rfl⟩)) hlaunching hflight
          old { p with left := Function.update p.left n (p.left n - bytes) } ?_ hold hlength
          (forall_setNode (fun m y => (y.Receiving pre.length b [] [] ∨ y.Waiting pre.length b) ∧
            y.muCounter = Function.update p.left n (p.left n - bytes) m) ?_ fun m hm => ?_)
        · simp [hdata]
        · rw [Function.update_self]
          obtain ⟨hn | hn, hcounter⟩ := hnodes n
          · exact ⟨Or.inl (hn.put bytes), congrArg (· - bytes) hcounter⟩
          · exact absurd (hcounter.symm.trans hn.counter) hleft
        · rw [Function.update_of_ne hm]
          exact hnodes m
      | idle hist hlaunching hflight hdata hnodes => exact absurd hdata hnot
      | launching pre b hs hist hlaunching hflight hdata hnodes => exact absurd hdata hnot
      | inFlight pre b hs hist hlaunching hflight hdata hcounter hnodes => exact absurd hdata hnot
      | rdy pre b hs hist hlaunching hflight hdata hcounter hnodes => exact absurd hdata hnot
      | asked pre b hs hist hlaunching hflight hdata hlength hnodes => exact absurd hdata hnot
    · rw [if_neg hbytes] at hs
      cases hs

section Deliver

variable {rest : List (Collective ν)} {r : BcastReduce ν}

theorem deliver_nil (h : (s.node n).inbox = []) : bcastStep s (.deliver n) = none := by
  simp only [bcastStep, h]

theorem deliver_rdy {rbsc : RdmaBcastSetCounter ν} (h : (s.node n).inbox = .rdy rbsc :: rest) :
    bcastStep s (.deliver n) =
      some (s.setNode n ({ s.node n with inbox := rest }.readyRdmaBcastReceiveReduce rbsc)) := by
  simp only [bcastStep, h, BcastNet.mudmRecvBcast, node_setNode_self]
  simp [BcastNet.setNode]

theorem deliver_finish (hr : r.type = .finish) (h : (s.node n).inbox = .reduce r :: rest) :
    bcastStep s (.deliver n) =
      some (s.setNode n { s.node n with inbox := rest }.clearRdmaBcastReceiveReduce) := by
  simp only [bcastStep, h, BcastNet.mudmRecvBcast, hr, node_setNode_self]
  simp [BcastNet.setNode]

/-- The reduce to the origin starts the direct put, if there is something to put. -/
theorem deliver_origin (hr : r.type = .origin) (h : (s.node n).inbox = .reduce r :: rest) :
    bcastStep s (.deliver n) =
      some
        { s.setNode n { s.node n with inbox := rest } with
          data :=
            if (s.node n).bcastCounterInfo.mrb.payloadLength ≠ 0 then
              s.data ++ [⟨(s.node n).bcastCounterInfo.mrb.payloadLength,
                (s.node n).bcastCounterInfo.mrb.sourcePayloadPaddr,
                (s.node n).bcastCounterInfo.mrb.destPayloadPaddr,
                (s.node n).bcastCounterInfo.mrb.classRoute,
                fun _ => (s.node n).bcastCounterInfo.mrb.payloadLength⟩]
            else s.data } := by
  simp only [bcastStep, h, BcastNet.mudmRecvBcast, hr, node_setNode_self]
  split <;> rfl

end Deliver

theorem BcastInv.deliver_late (h : BcastHistory launched s) (hn : (s.node n).Late pre inbox)
    (hpre : ∃ rest, s.started = pre ++ rest) (hl : launched = s.started ∨ launched = pre)
    (hb : ∀ mrb, s.started[pre.length]? ≠ some (n, mrb))
    (hs : bcastStep s (.deliver n) = some s') :
    s' = s.setNode n ({ s.node n with inbox := inbox }).clearRdmaBcastReceiveReduce ∧
      BcastHistory launched s' := by
  obtain ⟨r, hr, hinbox⟩ := hn.inbox
  have hs' : s' = s.setNode n ({ s.node n with inbox := inbox }).clearRdmaBcastReceiveReduce := by
    rw [deliver_finish hr hinbox] at hs
    exact (Option.some.inj hs).symm
  refine ⟨hs', ?_⟩
  have hf := hn.finished
  obtain ⟨rest, hrest⟩ := hpre
  have hsame : pre[(s.node n).finished]? = s.started[(s.node n).finished]? := by
    rw [hrest, List.getElem?_append_left (by omega)]
  rw [hs']
  refine h.clear ?_ ?_ fun mrb => ?_
  · rw [hrest, List.length_append]
    omega
  · rcases hl with rfl | rfl
    · rfl
    · exact hsame
  · rw [hf]
    rcases hl with rfl | rfl
    · exact hb mrb
    · simp

/-- A node before the ready message has come to it: the end of the broadcast before is what it may hear. -/
theorem BcastInv.deliver_unready (h : BcastHistory launched s) (hstarted : s.started = pre ++ [b])
    (hn : (s.node n).Unready n pre b []) (hl : launched = s.started ∨ launched = pre)
    (hs : bcastStep s (.deliver n) = some s') :
    n ≠ b.1 ∧ (∃ x, s' = s.setNode n x ∧ x.Unready n pre b []) ∧ BcastHistory launched s' := by
  rcases hn with hn | ⟨hne, hn⟩
  · rw [deliver_nil hn.inbox] at hs
    cases hs
  · obtain ⟨hs', hhist⟩ := BcastInv.deliver_late h hn ⟨[b], hstarted⟩ hl
      (getElem?_ne_of_started hstarted hne) hs
    refine ⟨hne, ⟨_, hs', Or.inl ?_⟩, hhist⟩
    rw [if_neg hne]
    exact hn.clear []

/-- The ready message on its way: a node takes it, or hears of the end of the broadcast before. -/
theorem BcastInv.deliver_rdy_stage (hstarted : s.started = pre ++ [b]) (hist : BcastHistory s.started s)
    (hlaunching : s.launching = []) (hflight : s.inFlight = []) (hdata : Arrived s.data)
    (hcounter : (s.node b.1).readied = pre.length → (s.node b.1).muCounter = b.2.payloadLength)
    (hnodes : ∀ n, (s.node n).Unready n pre b [rdyOf b] ∨ (s.node n).Ready pre.length b)
    (hs : bcastStep s (.deliver n) = some s') : BcastInv s' := by
  rcases hnodes n with (hn | ⟨hne, hn⟩) | (⟨hn, -⟩ | ⟨-, hn⟩)
  · rw [deliver_rdy hn.inbox] at hs
    cases hs
    have htold := (s.node n).setInbox_ready_told [] ⟨b.2, some b.1⟩
    have hready := hn.ready
    refine .rdy pre b hstarted (hist.of_told (fun _ => rfl) (setNode_told htold)) hlaunching hflight hdata ?_
      (forall_setNode (fun m y => y.Unready m pre b [rdyOf b] ∨ y.Ready pre.length b)
        (Or.inr (Or.inl ⟨hready, BcastNode.ready_got ..⟩)) fun m _ => hnodes m)
    by_cases hbn : b.1 = n
    · subst hbn
      rw [node_setNode_self]
      intro hreadied
      exact absurd (hready.readied.symm.trans hreadied) (by simp)
    · rw [node_setNode_of_ne s _ hbn]
      exact hcounter
  · obtain ⟨rfl, hhist⟩ := deliver_late hist hn ⟨[b], hstarted⟩ (Or.inl rfl)
      (getElem?_ne_of_started hstarted hne) hs
    refine .rdy pre b hstarted hhist hlaunching hflight hdata ?_
      (forall_setNode (fun m y => y.Unready m pre b [rdyOf b] ∨ y.Ready pre.length b) (Or.inl (Or.inl ?_))
        fun m _ => hnodes m)
    · rw [node_setNode_of_ne s _ hne.symm]
      exact hcounter
    · rw [if_neg hne]
      exact hn.clear _
  · rw [deliver_nil hn.inbox] at hs
    cases hs
  · rw [deliver_nil hn.inbox] at hs
    cases hs

/-- The reduce of all nodes comes to the originator, which sends the data. -/
theorem BcastInv.deliver_asked (hstarted : s.started = pre ++ [b]) (hist : BcastHistory s.started s)
    (hlaunching : s.launching = []) (hflight : s.inFlight = []) (hdata : Arrived s.data)
    (hlength : b.2.payloadLength ≠ 0)
    (hnodes : ∀ n, (s.node n).Receiving pre.length b []
      (if n = b.1 then [.reduce (originOf b)] else []) ∧ (s.node n).got = 0)
    (hs : bcastStep s (.deliver n) = some s') : BcastInv s' := by
  obtain ⟨hn, -⟩ := hnodes n
  have hcounter : ∀ m, (s.node m).muCounter = b.2.payloadLength := by
    intro m
    simp [(hnodes m).1.shows.counter, (hnodes m).2]
  by_cases hnb : n = b.1
  · subst hnb
    rw [if_pos rfl] at hn
    have hinfo : (s.node b.1).bcastCounterInfo = ⟨b.2, some b.1⟩ := by
      refine hist.own b.1 b.2 ?_
      rw [hn.finished, hstarted, List.getElem?_concat_length]
    rw [deliver_origin rfl hn.inbox, hinfo, if_pos hlength] at hs
    cases hs
    refine .sent pre b hstarted (hist.of_told (fun _ => rfl) (setNode_told ⟨rfl, rfl, rfl⟩)) hlaunching
      hflight s.data _ rfl hdata hlength
      (forall_setNode (fun m y => (y.Receiving pre.length b [] [] ∨ y.Waiting pre.length b) ∧
        y.muCounter = b.2.payloadLength) ⟨Or.inl ?_, hcounter b.1⟩ fun m hm => ⟨Or.inl ?_, hcounter m⟩)
    · exact hn.mail hn.contributed rfl
    · have hother := (hnodes m).1
      rw [if_neg hm] at hother
      exact hother
  · rw [if_neg hnb] at hn
    rw [deliver_nil hn.inbox] at hs
    cases hs

theorem BcastInv.deliver (h : BcastInv s) (hs : bcastStep s (.deliver n) = some s') : BcastInv s' := by
  cases h with
  | idle hist hlaunching hflight hdata hnodes =>
    rcases hnodes n with hn | hn
    · rw [deliver_nil hn.inbox] at hs
      cases hs
    · obtain ⟨rfl, hhist⟩ := deliver_late hist hn ⟨[], (List.append_nil _).symm⟩ (Or.inl rfl) (by simp) hs
      exact .idle hhist hlaunching hflight hdata
        (forall_setNode (fun _ y => y.AtRest s.started.length .inactive [] ∨ y.Late s.started [])
          (Or.inl (hn.clear [])) fun m _ => hnodes m)
  | launching pre b hstarted hist hlaunching hflight hdata hnodes =>
    obtain ⟨-, ⟨x, rfl, hx⟩, hhist⟩ := deliver_unready hist hstarted (hnodes n) (Or.inr rfl) hs
    exact .launching pre b hstarted hhist hlaunching hflight hdata
      (forall_setNode (fun m y => y.Unready m pre b []) hx fun m _ => hnodes m)
  | inFlight pre b hstarted hist hlaunching hflight hdata hcounter hnodes =>
    obtain ⟨hne, ⟨x, rfl, hx⟩, hhist⟩ := deliver_unready hist hstarted (hnodes n) (Or.inl rfl) hs
    refine .inFlight pre b hstarted hhist hlaunching hflight hdata ?_
      (forall_setNode (fun m y => y.Unready m pre b []) hx fun m _ => hnodes m)
    rw [node_setNode_of_ne s _ hne.symm]
    exact hcounter
  | rdy pre b hstarted hist hlaunching hflight hdata hcounter hnodes =>
    exact deliver_rdy_stage hstarted hist hlaunching hflight hdata hcounter hnodes hs
  | asked pre b hstarted hist hlaunching hflight hdata hlength hnodes =>
    exact deliver_asked hstarted hist hlaunching hflight hdata hlength hnodes hs
  | sent pre b hstarted hist hlaunching hflight old p hdata hold hlength hnodes =>
    have hinbox : (s.node n).inbox = [] := by
      rcases (hnodes n).1 with hn | hn <;> exact hn.inbox
    rw [deliver_nil hinbox] at hs
    cases hs

/-- A reduce comes out when every node has it first among its contributions. -/
theorem combine_cases {r : BcastReduce ν} (hs : bcastStep s (.combine r) = some s') :
    (∀ n, (s.node n).contributed.head? = some r) ∧
      s' = BcastNet.hand
        { s with node := fun n => { s.node n with contributed := (s.node n).contributed.tail } }
        (fun n => r.type = .finish ∨ r.dest = some n) (.reduce r) := by
  simp only [bcastStep] at hs
  split at hs
  · next hall =>
    refine ⟨hall, ?_⟩
    cases hr : r.type <;> rw [hr] at hs <;> cases hs <;> simp
  · cases hs

/-- All nodes have found their counters zero, so this broadcast ends. -/
theorem BcastInv.combine_waiting {r : BcastReduce ν} (hs : s.started = pre ++ [b])
    (hist : BcastHistory s.started s) (hlaunching : s.launching = []) (hflight : s.inFlight = [])
    (hdata : Arrived s.data) (hnodes : ∀ n, (s.node n).Waiting pre.length b)
    (hstep : bcastStep s (.combine r) = some s') : BcastInv s' := by
  obtain ⟨hall, rfl⟩ := combine_cases hstep
  have hr : r = finishOf b := by
    have hn := hall b.1
    rw [(hnodes b.1).contributed] at hn
    exact (Option.some.inj hn).symm
  subst hr
  refine .idle (hist.of_told (fun _ => rfl) fun n => ?_) hlaunching hflight hdata fun n => Or.inr ?_
  · simp only [BcastNet.hand]
    exact ⟨rfl, rfl, rfl⟩
  · change BcastNode.Late _ s.started []
    rw [hs]
    exact (hnodes n).finish

theorem BcastInv.combine_ready {r : BcastReduce ν} (hs : s.started = pre ++ [b])
    (hist : BcastHistory s.started s) (hlaunching : s.launching = []) (hflight : s.inFlight = [])
    (hdata : Arrived s.data) (hlength : b.2.payloadLength ≠ 0)
    (hnodes : ∀ n, (s.node n).Receiving pre.length b [originOf b] [] ∧ (s.node n).got = 0)
    (hstep : bcastStep s (.combine r) = some s') : BcastInv s' := by
  obtain ⟨hall, rfl⟩ := combine_cases hstep
  have hr : r = originOf b := by
    have hn := hall b.1
    rw [(hnodes b.1).1.contributed] at hn
    exact (Option.some.inj hn).symm
  subst hr
  refine .asked pre b hs (hist.of_told (fun _ => rfl) fun n => ?_) hlaunching hflight hdata hlength
    fun n => ?_
  · simp only [BcastNet.hand]
    split <;> exact ⟨rfl, rfl, rfl⟩
  · obtain ⟨hn, hgot⟩ := hnodes n
    have htail := congrArg List.tail hn.contributed
    simp only [BcastNet.hand, originOf, reduceCtorEq, false_or, Option.some.injEq, decide_eq_true_eq]
    by_cases hnb : n = b.1
    · rw [if_pos hnb.symm, if_pos hnb]
      exact ⟨hn.mail htail (congrArg (· ++ [_]) hn.inbox), hgot⟩
    · rw [if_neg (Ne.symm hnb), if_neg hnb]
      exact ⟨hn.mail htail hn.inbox, hgot⟩

theorem BcastInv.combine {r : BcastReduce ν} (h : BcastInv s)
    (hs : bcastStep s (.combine r) = some s') : BcastInv s' := by
  obtain ⟨hall, hs'⟩ := combine_cases hs
  have hne : ∀ n, (s.node n).contributed ≠ [] := by
    intro n hnil
    have hn := hall n
    rw [hnil] at hn
    cases hn
  cases h with
  | idle hist hlaunching hflight hdata hnodes =>
    have hempty : ∀ n : ν, False := by
      intro n
      rcases hnodes n with hn | hn <;> exact hne n hn.contributed
    subst hs'
    exact .idle (hist.of_told (fun _ => rfl) fun n => (hempty n).elim) hlaunching hflight hdata fun n =>
      (hempty n).elim
  | launching pre b hstarted hist hlaunching hflight hdata hnodes =>
    exact absurd (hnodes b.1).contributed (hne b.1)
  | inFlight pre b hstarted hist hlaunching hflight hdata hcounter hnodes =>
    exact absurd (hnodes b.1).contributed (hne b.1)
  | rdy pre b hstarted hist hlaunching hflight hdata hcounter hnodes =>
    have hready : ∀ n, (s.node n).Ready pre.length b := fun n =>
      (hnodes n).resolve_left fun hn => hne n hn.contributed
    by_cases hlength : b.2.payloadLength = 0
    · refine combine_waiting hstarted hist hlaunching hflight hdata (fun n => ?_) hs
      rcases hready n with ⟨hn, -⟩ | ⟨-, hn⟩
      · rw [if_neg (not_not_intro hlength)] at hn
        exact absurd hn.contributed (hne n)
      · exact hn
    · refine combine_ready hstarted hist hlaunching hflight hdata hlength (fun n => ?_) hs
      rcases hready n with ⟨hn, hgot⟩ | ⟨hzero, -⟩
      · rw [if_pos hlength] at hn
        exact ⟨hn, hgot⟩
      · exact absurd hzero hlength
  | asked pre b hstarted hist hlaunching hflight hdata hlength hnodes =>
    exact absurd (hnodes b.1).1.contributed (hne b.1)
  | sent pre b hstarted hist hlaunching hflight old p hdata hold hlength hnodes =>
    have hwaiting : ∀ n, (s.node n).Waiting pre.length b := fun n =>
      (hnodes n).1.resolve_left fun hn => hne n hn.contributed
    refine combine_waiting hstarted hist hlaunching hflight ?_ hwaiting hs
    intro q hq n
    rw [hdata] at hq
    rcases List.mem_append.mp hq with hq | hq
    · exact hold q hq n
    · rw [List.mem_singleton.mp hq, ← (hnodes n).2]
      exact (hwaiting n).counter

theorem BcastInv.step {i : BcastInput ν} (h : BcastInv s) (hok : AloneOnRoute s i)
    (hs : bcastStep s i = some s') : BcastInv s' := by
  cases i with
  | call n mrb => exact h.call hok hs
  | launch i => exact h.launch hs
  | arrive i => exact h.arrive hs
  | combine r => exact h.combine hs
  | deliver n => exact h.deliver hs
  | data i n bytes => exact h.data hs
  | poll n => exact h.poll hs

end Steps

end BgqVrnic
