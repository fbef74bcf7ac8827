import BgqVrnic.InjRuns
import BgqVrnic.RemoteGetRuns
import BgqVrnic.SendCalls

namespace BgqVrnic

open Pools

/-- The MU takes every descriptor that has been injected, and its count never comes to the number that
says that there is none. -/
structure MuServes (env : InjEnv) : Prop where
  taken : ∀ k, env.active k → ∃ t, ∀ look ≥ t, env.number k ≤ (env.looks look).hwDescCount
  counted : ∀ look, (env.looks look).descCount < noDesc ∧ (env.looks look).hwDescCount < noDesc

/-- The call never waits forever. -/
def WaitsEnd (phase : Nat → CallPhase) : Prop :=
  ∀ n d, phase n = .waiting d → ∃ n' > n, ∀ d', phase n' ≠ .waiting d'

/-- The calls that inject and then look for the end of it. -/
inductive WaitingCall
  | sendPkt (conn : Connection) (requestId payloadLength : Nat)
  | sendMessageRemote (c : Nat) (conn : Connection) (type : RemoteType) (payload : RemotePayload)
  | sendMsg (options : IoLinkOption) (payloadLength : Nat)
  | rdmaRead (q : ReadRequest)

def WaitingCall.phase (env : Link → InjEnv) (r : Resources) : WaitingCall → Nat → CallPhase
  | .sendPkt conn requestId payloadLength, n =>
    (mudmSendPkt env r conn requestId payloadLength n).1
  | .sendMessageRemote c conn type payload, _ =>
    .returned (mudmSendMessageRemote env r c conn type payload).1
  | .sendMsg options payloadLength, n => mudmSendMsg env options payloadLength n
  | .rdmaRead q, n => (mudmRdmaReadCall env r q n).1

/-- The link is active at the injections that the call waits for: that of `mudm_send_msg`, and those of
`mudm_rdma_read` that are followed by another descriptor. -/
def WaitingCall.Served (env : Link → InjEnv) (r : Resources) : WaitingCall → Prop
  | .sendPkt .. => True
  | .sendMessageRemote .. => True
  | .sendMsg options payloadLength =>
    payloadLength ≤ torusMaxPayloadSize → (env options.link).active 0 = true
  | .rdmaRead q =>
    q.conn.magic = true → (r q.conn.packets).free ≠ [] → (r q.conn.objects).free ≠ [] →
      ∀ k rounds, 8 * (k + 1) < (q.plan rounds q.start).length →
        (env q.conn.injfifoCtls).active k = true

variable {env : InjEnv} {q : ReadRequest} {puts : List Put} {w : Walk} {s : ReadCall}
  {p : Pool PktDescriptor} {injections desc requestId look m n k rounds pktd mro : Nat}

theorem MuServes.never (h : MuServes env) (look : Nat) : env.complete look noDesc = false := by
  obtain ⟨hshadow, hcount⟩ := h.counted look
  unfold InjEnv.complete InjFifo.checkDescComplete
  rw [if_neg (by omega)]
  exact decide_eq_false (Nat.not_le.mpr hcount)

theorem MuServes.complete (h : MuServes env) (hactive : env.active k = true) :
    ∃ t, ∀ look ≥ t, env.complete look (env.inject k) = true := by
  obtain ⟨t, ht⟩ := h.taken k hactive
  refine ⟨t, fun look hlook => ?_⟩
  have hle := ht look hlook
  rw [InjEnv.inject, if_pos hactive]
  unfold InjEnv.complete InjFifo.checkDescComplete
  split
  · rfl
  · exact decide_eq_true hle

/-- A ring that is sound and from which the MU takes in the end what has been injected is one that
serves. -/
theorem muServes_of_fits {slots : Nat} {l : Nat → List MuDescriptor} {c : Nat → Nat}
    (hfits : ∀ look, (env.looks look).Fits slots (l look) (c look))
    (hnumbers : ∀ look, (l look).length < noDesc)
    (htaken : ∀ k, env.active k → ∃ t, ∀ look ≥ t, env.number k ≤ c look) : MuServes env where
  taken k hactive := by
    obtain ⟨t, ht⟩ := htaken k hactive
    exact ⟨t, fun look hlook => (hfits look).hwDescCount.symm ▸ ht look hlook⟩
  counted look := by
    have hle := (hfits look).le
    have hcount := (hfits look).hwDescCount
    have hshadow := (hfits look).descCount
    have hnum := hnumbers look
    exact ⟨by omega, by omega⟩

/-- An injection that was not cancelled ends, and one that was is known by its number. -/
theorem MuServes.inject_cases (h : MuServes env) (k : Nat) :
    env.inject k = noDesc ∨ ∃ t, ∀ look ≥ t, env.complete look (env.inject k) = true := by
  cases hactive : env.active k with
  | false =>
    left
    rw [InjEnv.inject, hactive]
    rfl
  | true => exact Or.inr (h.complete hactive)

theorem sendPktLoop_cancelled (hmu : MuServes env) :
    sendPktLoop env requestId noDesc (n + 1) look p = (.returned (-ECANCELED), p) := by
  rw [sendPktLoop, hmu.never look, if_neg Bool.false_ne_true, if_pos rfl]

/-- The loop ends at the latest when the descriptor is complete. -/
theorem sendPktLoop_ends (hdone : env.complete (look + m) desc = true) (hn : m < n) (d : Nat) :
    (sendPktLoop env requestId desc n look p).1 ≠ .waiting d := by
  induction m generalizing look n p with
  | zero =>
    obtain ⟨n, rfl⟩ := Nat.exists_eq_succ_of_ne_zero (Nat.ne_of_gt hn)
    rw [Nat.add_zero] at hdone
    rw [sendPktLoop, if_pos hdone]
    nofun
  | succ m ih =>
    obtain ⟨n, rfl⟩ := Nat.exists_eq_succ_of_ne_zero (Nat.ne_of_gt (Nat.zero_lt_of_lt hn))
    have hnext : env.complete (look + 1 + m) desc = true := by
      rw [Nat.add_right_comm]
      exact hdone
    rw [sendPktLoop]
    split
    · nofun
    · split
      · nofun
      · split
        · nofun
        · exact ih hnext (by omega)

theorem waitComplete_ends (hdone : env.complete (look + m) desc = true) (hn : m < n) :
    waitComplete env desc n look = .returned 0 := by
  induction m generalizing look n with
  | zero =>
    obtain ⟨n, rfl⟩ := Nat.exists_eq_succ_of_ne_zero (Nat.ne_of_gt hn)
    rw [Nat.add_zero] at hdone
    rw [waitComplete, if_pos hdone]
  | succ m ih =>
    obtain ⟨n, rfl⟩ := Nat.exists_eq_succ_of_ne_zero (Nat.ne_of_gt (Nat.zero_lt_of_lt hn))
    have hnext : env.complete (look + 1 + m) desc = true := by
      rw [Nat.add_right_comm]
      exact hdone
    rw [waitComplete, ih hnext (by omega), ite_self]

theorem waitComplete_cancelled (hmu : MuServes env) :
    waitComplete env noDesc n look = .waiting noDesc := by
  induction n generalizing look with
  | zero => rfl
  | succ n ih =>
    rw [waitComplete, hmu.never look, if_neg Bool.false_ne_true]
    exact ih

section Turns

variable (env q pktd mro)

/-- A look that does not come to the end of the wait. -/
theorem turn_looks (hphase : s.phase = .waiting desc) (hnot : env.complete s.looks desc = false) :
    s.turn env q pktd mro = { s with looks := s.looks + 1 } := by
  simp only [ReadCall.turn, hphase, hnot, Bool.false_eq_true, if_false]

theorem turns_cancelled (hmu : MuServes env) (hphase : s.phase = .waiting noDesc) (n : Nat) :
    ((ReadCall.turn env q pktd mro)^[n] s).phase = .waiting noDesc := by
  induction n generalizing s with
  | zero => exact hphase
  | succ n ih =>
    rw [Function.iterate_succ_apply, turn_looks env q pktd mro hphase (hmu.never _)]
    exact ih hphase

/-- Once the descriptor is complete, the loop goes on with an empty packet. -/
theorem turns_leave_wait (hphase : s.phase = .waiting desc)
    (hdone : ∀ look ≥ s.looks + m, env.complete look desc = true) :
    ∃ n looks, (ReadCall.turn env q pktd mro)^[n + 1] s =
      { s with looks := looks, putdescCount := 0, phase := .looping } := by
  induction m generalizing s with
  | zero =>
    refine ⟨0, s.looks + 1, ?_⟩
    rw [Function.iterate_one]
    simp only [ReadCall.turn, hphase, hdone s.looks le_rfl, if_true]
  | succ m ih =>
    cases hnow : env.complete s.looks desc with
    | true =>
      refine ⟨0, s.looks + 1, ?_⟩
      rw [Function.iterate_one]
      simp only [ReadCall.turn, hphase, hnow, if_true]
    | false =>
      obtain ⟨n, looks, hn⟩ := ih (s := { s with looks := s.looks + 1 }) hphase fun look hlook =>
        hdone look (by rw [← Nat.add_assoc, Nat.add_right_comm]; exact hlook)
      exact ⟨n + 1, looks, by rw [Function.iterate_succ_apply, turn_looks env q pktd mro hphase hnow, hn]⟩

/-- Where `mudm_rdma_read` is in its plan while it has not left its loop. -/
structure ReadFits (q : ReadRequest) (s : ReadCall) (puts : List Put) : Prop where
  plan : PlanFits q.toGetRequest puts false s.walk
  count : puts.length = 8 * s.injections + s.putdescCount
  room : s.putdescCount ≤ 8

/-- What holds after every turn. The call waits for a full packet only when there is another descriptor
to come. -/
def ReadInv (env : InjEnv) (q : ReadRequest) (s : ReadCall) : Prop :=
  match s.phase with
  | .looping => ∃ puts, ReadFits q s puts
  | .waiting desc =>
    ∃ puts k, PlanFits q.toGetRequest puts false s.walk ∧ s.walk.live = true ∧
      s.injections = k + 1 ∧ puts.length = 8 * (k + 1) ∧ desc = env.inject k
  | .counting _ | .returned _ => True

/-- The loop is behind the call of `mudm_rdma_read`: it has returned, or it waits for its counter. -/
theorem finish_phase :
    (∃ rc, (s.finish env q pktd mro).phase = .returned rc) ∨
      ∃ value, (s.finish env q pktd mro).phase = .counting value := by
  unfold ReadCall.finish
  split
  · exact .inl ⟨_, rfl⟩
  · split
    · exact .inl ⟨_, rfl⟩
    · split
      · exact .inr ⟨_, rfl⟩
      · exact .inr ⟨_, rfl⟩

theorem ReadInv.of_finish : ReadInv env q (s.finish env q pktd mro) := by
  rw [ReadInv]
  rcases finish_phase env q pktd mro (s := s) with ⟨rc, hphase⟩ | ⟨value, hphase⟩
  · rw [hphase]
    trivial
  · rw [hphase]
    trivial

theorem counted_phase : (s.counted q pktd mro).phase = .returned (-EINVAL) := by
  unfold ReadCall.counted
  split
  · rfl
  · rfl

/-- A descriptor that is not the last one is built. -/
theorem ReadFits.build (h : ReadFits q s puts) (hlive : s.walk.live = true)
    (hroom : s.putdescCount ≠ 8) (hlast : s.walk.sum < q.bytesXfer) :
    s.build env q pktd mro =
        { s with
          putdescCount := s.putdescCount + 1
          lengths := s.lengths ++ [s.walk.clipped q.bytesXfer]
          walk := s.walk.advance q.localSgl q.remoteSgl } ∧
      ReadFits q (s.build env q pktd mro) (puts ++ [s.walk.put (s.walk.clipped q.bytesXfer)]) := by
  have heq : s.build env q pktd mro =
      { s with
        putdescCount := s.putdescCount + 1
        lengths := s.lengths ++ [s.walk.clipped q.bytesXfer]
        walk := s.walk.advance q.localSgl q.remoteSgl } := by
    unfold ReadCall.build
    exact if_neg (not_le.mpr hlast)
  refine ⟨heq, ?_⟩
  rw [heq]
  have hcount := h.count
  have hle := h.room
  refine ⟨h.plan.build hlive hlast, ?_, ?_⟩
  · rw [List.length_append, List.length_singleton, hcount]
    rfl
  · exact Nat.lt_of_le_of_ne hle hroom

/-- The packet is full and another descriptor is to come. -/
theorem turn_full (hphase : s.phase = .looping)
    (hlive : s.walk.live = true) (hfull : s.putdescCount = 8) :
    s.turn env q pktd mro = { s.dput env with phase := .waiting (env.inject s.injections) } := by
  simp only [ReadCall.turn, hphase, hlive, hfull, if_true]

theorem turn_inv (h : ReadInv env q s) : ReadInv env q (s.turn env q pktd mro) := by
  cases hphase : s.phase with
  | looping =>
    rw [ReadInv, hphase] at h
    obtain ⟨puts, hfits⟩ := h
    by_cases hlive : s.walk.live = true
    · by_cases hfull : s.putdescCount = 8
      · rw [turn_full env q pktd mro hphase hlive hfull]
        have hcount := hfits.count
        exact ⟨puts, s.injections, hfits.plan, hlive, rfl, by omega, rfl⟩
      · have hturn : s.turn env q pktd mro = s.build env q pktd mro := by
          simp only [ReadCall.turn, hphase, hlive, hfull, if_true, if_false]
        rw [hturn]
        by_cases hlast : q.bytesXfer ≤ s.walk.sum
        · unfold ReadCall.build
          simp only [if_pos hlast]
          exact ReadInv.of_finish env q pktd mro
        · obtain ⟨heq, hbuilt⟩ :=
            hfits.build env q pktd mro hlive hfull (not_le.mp hlast)
          have hlooping : (s.build env q pktd mro).phase = .looping := by
            rw [heq]
            exact hphase
          rw [ReadInv, hlooping]
          exact ⟨_, hbuilt⟩
    · have hturn : s.turn env q pktd mro = s.finish env q pktd mro := by
        simp only [ReadCall.turn, hphase, if_neg hlive]
      rw [hturn]
      exact ReadInv.of_finish env q pktd mro
  | waiting desc =>
    cases hnow : env.complete s.looks desc with
    | false =>
      rw [turn_looks env q pktd mro hphase hnow]
      rw [ReadInv, hphase] at h
      rw [ReadInv, hphase]
      exact h
    | true =>
      rw [ReadInv, hphase] at h
      obtain ⟨puts, k, hplan, -, hinj, hlength, -⟩ := h
      simp only [ReadCall.turn, hphase, hnow, if_true]
      refine ⟨puts, hplan, ?_, Nat.zero_le 8⟩
      show puts.length = 8 * s.injections + 0
      rw [hinj, hlength]
      rfl
  | counting value =>
    simp only [ReadCall.turn, hphase]
    split
    · rw [ReadInv, counted_phase]
      trivial
    · trivial
  | returned rc =>
    simp only [ReadCall.turn, hphase]
    exact h

theorem readFits_start (packets : Pool PktDescriptor) (objects : Pool MudmRdmaObject) :
    ReadFits q (ReadCall.start q packets objects) [] := by
  refine ⟨⟨fun _ k => ?_, nofun⟩, rfl, Nat.zero_le 8⟩
  rw [List.length_nil, Nat.zero_add]
  rfl

theorem turns_inv (packets : Pool PktDescriptor) (objects : Pool MudmRdmaObject) (n : Nat) :
    ReadInv env q ((ReadCall.turn env q pktd mro)^[n] (ReadCall.start q packets objects)) := by
  induction n with
  | zero => exact ⟨[], readFits_start q packets objects⟩
  | succ n ih =>
    rw [Function.iterate_succ_apply']
    exact turn_inv env q pktd mro ih

/-- As long as the link is active where the call waits, it comes to every descriptor of its plan. -/
theorem turns_reach (hmu : MuServes env) (packets : Pool PktDescriptor) (objects : Pool MudmRdmaObject)
    (hactive : ∀ j, 8 * (j + 1) < m → env.active j = true)
    (hlong : m < (q.plan rounds q.start).length) :
    ∃ n s puts, (ReadCall.turn env q pktd mro)^[n] (ReadCall.start q packets objects) = s ∧
      s.phase = .looping ∧ ReadFits q s puts ∧ puts.length = m ∧ (0 < m → 0 < s.putdescCount) := by
  induction m with
  | zero =>
    exact ⟨0, _, [], rfl, rfl, readFits_start q packets objects, rfl, fun h => absurd h (lt_irrefl 0)⟩
  | succ m ih =>
    obtain ⟨n, s, puts, hn, hphase, hfits, hlength, -⟩ :=
      ih (fun j hj => hactive j (by omega)) (by omega)
    subst hlength
    have hlive := hfits.plan.live (Nat.lt_of_succ_lt hlong)
    have hlast := hfits.plan.not_last hlong
    have hcount := hfits.count
    by_cases hfull : s.putdescCount = 8
    · have hserved := hactive s.injections (by omega)
      obtain ⟨t, ht⟩ := hmu.complete hserved
      have hwait := turn_full env q pktd mro hphase hlive hfull
      obtain ⟨i, looks, hleft⟩ := turns_leave_wait env q pktd mro (m := t)
        (s := s.turn env q pktd mro) (by rw [hwait]) fun look hlook => ht look (by omega)
      -- the packet is empty again, and the next descriptor is its first
      let s' : ReadCall := { s.dput env with looks := looks, putdescCount := 0, phase := .looping }
      have hs' : (ReadCall.turn env q pktd mro)^[n + (i + 2)] (ReadCall.start q packets objects) =
          s' := by
        rw [Nat.add_comm n, Function.iterate_add_apply, hn, Function.iterate_succ_apply, hleft, hwait]
      have hfits' : ReadFits q s' puts := by
        refine ⟨hfits.plan, ?_, Nat.zero_le 8⟩
        show puts.length = 8 * (s.injections + 1) + 0
        omega
      have hbuilt := hfits'.build env q pktd mro hlive (show 0 ≠ 8 by decide) hlast
      refine ⟨n + (i + 2) + 1, s'.build env q pktd mro, _, ?_, ?_, hbuilt.2, ?_, fun _ => ?_⟩
      · rw [Function.iterate_succ_apply', hs']
        show ReadCall.turn env q pktd mro s' = _
        simp only [ReadCall.turn, s', ReadCall.dput, hlive, if_true]
        rfl
      · rw [hbuilt.1]
      · rw [List.length_append, List.length_singleton]
      · rw [hbuilt.1]
        exact Nat.zero_lt_one
    · have hbuilt := hfits.build env q pktd mro hlive hfull hlast
      refine ⟨n + 1, s.build env q pktd mro, _, ?_, ?_, hbuilt.2, ?_, fun _ => ?_⟩
      · rw [Function.iterate_succ_apply', hn]
        simp only [ReadCall.turn, hphase, hlive, hfull, if_true, if_false]
      · rw [hbuilt.1]
        exact hphase
      · rw [List.length_append, List.length_singleton]
      · rw [hbuilt.1]
        exact Nat.succ_pos _

theorem readTurns_end_iff (hmu : MuServes env) (packets : Pool PktDescriptor)
    (objects : Pool MudmRdmaObject) :
    WaitsEnd (fun n =>
        ((ReadCall.turn env q pktd mro)^[n] (ReadCall.start q packets objects)).phase) ↔
      ∀ k rounds, 8 * (k + 1) < (q.plan rounds q.start).length → env.active k = true := by
  constructor
  · intro hends k
    induction k using Nat.strong_induction_on with
    | _ k ih =>
      intro rounds hlong
      obtain ⟨n, s, puts, hn, hphase, hfits, hlength, hsome⟩ :=
        turns_reach env q pktd mro hmu packets objects
          (fun j hj => ih j (by omega) rounds (by omega)) hlong
      have hcount := hfits.count
      have hroom := hfits.room
      have hpos := hsome (by omega)
      have hlive := hfits.plan.live (hlength ▸ hlong)
      have hinj : s.injections = k := by omega
      have hwait := turn_full env q pktd mro hphase hlive (by omega)
      have hthere : ((ReadCall.turn env q pktd mro)^[n + 1]
          (ReadCall.start q packets objects)).phase = .waiting (env.inject k) := by
        rw [Function.iterate_succ_apply', hn, hwait, hinj]
      by_contra hactive
      have hcancelled : env.inject k = noDesc := by
        rw [InjEnv.inject, if_neg hactive]
      rw [hcancelled] at hthere
      obtain ⟨n', hlater, hnot⟩ := hends _ _ hthere
      obtain ⟨i, rfl⟩ := Nat.exists_eq_add_of_lt hlater
      refine hnot noDesc ?_
      change ((ReadCall.turn env q pktd mro)^[n + 1 + i + 1] _).phase = _
      rw [Nat.add_assoc, Nat.add_comm, Function.iterate_add_apply]
      exact turns_cancelled env q pktd mro hmu hthere _
  · intro hactive n desc hwait
    change ((ReadCall.turn env q pktd mro)^[n] _).phase = _ at hwait
    have hinv := turns_inv env q pktd mro packets objects n
    rw [ReadInv, hwait] at hinv
    obtain ⟨puts, k, hplan, hlive, -, hlength, rfl⟩ := hinv
    obtain ⟨t, ht⟩ := hmu.complete (hactive k _ (hlength ▸ hplan.longer hlive))
    obtain ⟨i, looks, hleft⟩ := turns_leave_wait env q pktd mro (m := t) hwait
      fun look hlook => ht look (by omega)
    refine ⟨n + (i + 1), by omega, fun d' => ?_⟩
    show ((ReadCall.turn env q pktd mro)^[n + (i + 1)] _).phase ≠ _
    rw [Nat.add_comm n, Function.iterate_add_apply, hleft]
    nofun

end Turns

theorem mudmSendPkt_phase (env : Link → InjEnv) (r : Resources) (conn : Connection)
    (requestId payloadLength n : Nat) :
    (mudmSendPkt env r conn requestId payloadLength n).1 =
      if torusMaxPayloadSize < payloadLength then .returned (-EINVAL)
      else if conn.magic = false then .returned (-EFAULT)
      else
        (sendPktLoop (env conn.injfifoCtls) requestId ((env conn.injfifoCtls).inject 0) n 0
          (r conn.smallPackets)).1 := by
  unfold mudmSendPkt
  split
  · rfl
  · split
    · rfl
    · rfl

/-- A request that was not injected is known by its number, and all others end. -/
theorem sendPkt_ends {env : Link → InjEnv} (hmu : ∀ k, MuServes (env k)) (r : Resources)
    (conn : Connection) (requestId payloadLength : Nat) :
    WaitsEnd fun n => (mudmSendPkt env r conn requestId payloadLength n).1 := by
  intro n desc hwait
  simp only [mudmSendPkt_phase] at hwait ⊢
  by_cases hlength : torusMaxPayloadSize < payloadLength
  · rw [if_pos hlength] at hwait
    cases hwait
  · by_cases hmagic : conn.magic = false
    · rw [if_neg hlength, if_pos hmagic] at hwait
      cases hwait
    · simp only [if_neg hlength, if_neg hmagic]
      rcases (hmu conn.injfifoCtls).inject_cases 0 with hcancelled | ⟨t, ht⟩
      · refine ⟨n + 1, Nat.lt_succ_self n, fun d' => ?_⟩
        rw [hcancelled, sendPktLoop_cancelled (hmu _)]
        nofun
      · refine ⟨n + t + 1, by omega, fun d' => ?_⟩
        exact sendPktLoop_ends (m := t) (ht _ (Nat.le_add_left t 0)) (by omega) d'

theorem sendMsg_ends_iff {env : Link → InjEnv} (hmu : ∀ k, MuServes (env k))
    (options : IoLinkOption) (payloadLength : Nat) :
    WaitsEnd (mudmSendMsg env options payloadLength) ↔
      (payloadLength ≤ torusMaxPayloadSize → (env options.link).active 0 = true) := by
  by_cases hlength : torusMaxPayloadSize < payloadLength
  · refine iff_of_true ?_ fun hle => absurd hlength (not_lt.mpr hle)
    intro n desc hwait
    rw [mudmSendMsg, if_pos hlength] at hwait
    cases hwait
  · have hloop : mudmSendMsg env options payloadLength =
        fun n => waitComplete (env options.link) ((env options.link).inject 0) n 0 := by
      funext n
      rw [mudmSendMsg, if_neg hlength]
    rw [hloop]
    cases hactive : (env options.link).active 0 with
    | true =>
      refine iff_of_true ?_ fun _ => rfl
      intro n desc _
      obtain ⟨t, ht⟩ := (hmu options.link).complete hactive
      refine ⟨n + t + 1, by omega, fun d' => ?_⟩
      show waitComplete _ _ (n + t + 1) 0 ≠ _
      rw [waitComplete_ends (m := t) (ht _ (Nat.le_add_left t 0)) (by omega)]
      nofun
    | false =>
      have hcancelled : (env options.link).inject 0 = noDesc := by
        rw [InjEnv.inject, hactive]
        rfl
      rw [hcancelled]
      refine iff_of_false ?_ fun h => absurd (h (not_lt.mp hlength)) Bool.false_ne_true
      intro hends
      obtain ⟨n, -, hnot⟩ := hends 0 noDesc (waitComplete_cancelled (hmu _))
      exact hnot noDesc (waitComplete_cancelled (hmu _))

theorem rdmaRead_ends_iff {env : Link → InjEnv} (hmu : ∀ k, MuServes (env k)) (r : Resources)
    (q : ReadRequest) :
    WaitsEnd (fun n => (mudmRdmaReadCall env r q n).1) ↔
      WaitingCall.Served env r (.rdmaRead q) := by
  unfold WaitingCall.Served mudmRdmaReadCall
  by_cases hmagic : q.conn.magic = false
  · simp only [hmagic, if_true]
    exact iff_of_true (fun _ _ hwait => by cases hwait) nofun
  · simp only [if_neg hmagic]
    cases hpkt : allocPktMessage (r q.conn.packets) with
    | none =>
      refine iff_of_true (fun _ _ hwait => by cases hwait) fun _ hfree => ?_
      exact absurd (Pool.take_none.mp hpkt) hfree
    | some taken =>
      cases hobj : allocateRdmaObject (r q.conn.objects) with
      | none =>
        refine iff_of_true (fun _ _ hwait => by cases hwait) fun _ _ hfree => ?_
        exact absurd (Pool.take_none.mp hobj) hfree
      | some object =>
        have hpktFree : (r q.conn.packets).free ≠ [] := by
          intro hempty
          rw [allocPktMessage, Pool.take_none.mpr hempty] at hpkt
          cases hpkt
        have hobjFree : (r q.conn.objects).free ≠ [] := by
          intro hempty
          rw [allocateRdmaObject, Pool.take_none.mpr hempty] at hobj
          cases hobj
        refine (readTurns_end_iff _ q _ _ (hmu _) _ _).trans ⟨fun h _ _ _ => h, fun h => ?_⟩
        exact h (Bool.eq_true_of_not_eq_false hmagic) hpktFree hobjFree

/-- Waits end exactly where the link is active at the injections that are waited for. -/
theorem waits_end_iff {env : Link → InjEnv} (hmu : ∀ k, MuServes (env k)) (r : Resources)
    (call : WaitingCall) : WaitsEnd (call.phase env r) ↔ call.Served env r := by
  cases call with
  | sendPkt conn requestId payloadLength =>
    exact iff_of_true (sendPkt_ends hmu r conn requestId payloadLength) trivial
  | sendMessageRemote c conn type payload =>
    refine iff_of_true ?_ trivial
    intro n desc hwait
    cases hwait
  | sendMsg options payloadLength => exact sendMsg_ends_iff hmu options payloadLength
  | rdmaRead q => exact rdmaRead_ends_iff hmu r q

/-- The MU and the peer take everything at once, and the link is active at the first injections only. -/
def goingDown (injections : Nat) : InjEnv :=
  { atEntry := true
    active := fun k => k < injections
    number := fun k => k + 1
    looks := fun _ => { activatedFifo 2 (fun _ => none) with hwDescCount := injections }
    behind := fun _ => 0 }

theorem goingDown_serves (h : injections < noDesc) : MuServes (goingDown injections) where
  taken _ hk := ⟨0, fun _ _ => of_decide_eq_true hk⟩
  counted _ := ⟨Nat.zero_lt_of_lt h, h⟩

theorem waits_end_iff_message :
    WaitsEnd (mudmSendMsg (fun _ => goingDown 1) .port10 100) ↔
      (100 ≤ torusMaxPayloadSize → (goingDown 1).active 0 = true) :=
  waits_end_iff (fun _ => goingDown_serves (by decide)) oneOfEach (.sendMsg .port10 100)

/-- Nine pieces of 10 bytes at either end. -/
def ninePieces : ReadRequest :=
  { localSgl := fun i => if i < 9 then ⟨4096 * (i + 1), 10⟩ else ⟨0, 0⟩
    remoteSgl := fun i => if i < 9 then ⟨4096 * (i + 1), 10⟩ else ⟨0, 0⟩
    bytesXfer := 90
    template := default
    rdmaObjectPa := 64
    conn := { (default : Connection) with magic := true }
    connIndex := 0
    requestId := 1
    rdmaObject := 0 }

/-- A message that is sent while the link goes down is waited for forever, and so is the first packet
of nine puts. -/
theorem cancelled_injections_wait_forever :
    MuServes (goingDown 0) ∧ ¬ WaitsEnd (mudmSendMsg (fun _ => goingDown 0) .port10 100) ∧
      ¬ WaitsEnd (fun n => (mudmRdmaReadCall (fun _ => goingDown 0) oneOfEach ninePieces n).1) := by
  have hmu : ∀ k : Link, MuServes ((fun _ => goingDown 0) k) := fun _ => goingDown_serves (by decide)
  refine ⟨hmu 0, fun hends => ?_, fun hends => ?_⟩
  · have hactive := (sendMsg_ends_iff hmu .port10 100).mp hends (by decide)
    cases hactive
  · have hactive := (rdmaRead_ends_iff hmu oneOfEach ninePieces).mp hends rfl nofun nofun 0 9
      (by decide)
    cases hactive

end BgqVrnic
