import BgqVrnic.CounterWaits

namespace BgqVrnic

open Runs RemoteGet

/-- What the peer injects, with its own link as `multi_directput` finds it call after call. -/
def RemoteGet.injectedBy (peer : Nat → Bool) (s : RemoteGet) : List MuDescriptor :=
  onActive peer s.executed

/-- The peer has injected the whole plan. -/
def RemoteGet.Whole (q : GetRequest) (peer : Nat → Bool) (s : RemoteGet) : Prop :=
  ∃ n, ∀ rounds ≥ n, s.injectedBy peer = (q.plan rounds q.start).map q.descriptor

/-- Nothing more will be sent: the MU has the messages, and the call has come back, or it waits for a
message that was not injected. -/
def RemoteGet.Settled (s : RemoteGet) : Prop :=
  s.pending = [] ∧ ((∃ rc, s.phase = .returned rc) ∨ s.phase = .waiting ∧ s.descCount = none)

/-- The next step of the call injects a message. -/
def RemoteGet.Sends (q : GetRequest) (s : RemoteGet) : Prop :=
  match s.phase with
  | .building => s.walk.live = true ∧ s.putdescCount = 8
  | .leaving => 0 < s.putdescCount ∧ (s.walk.totalbytes = q.bytesXfer ∨
      s.descCount ≠ none ∧ q.bytesXfer < s.walk.totalbytes)
  | .waiting | .returned _ => False

/-- The link is active for each message. -/
def FindsLink (q : GetRequest) (s : RemoteGet) : GetInput → Prop
  | .go active => s.Sends q → active = true
  | .mu => True

namespace GetRequest

/-- The lists have no piece at all, or their pieces make up the bytes asked for, or they have too many
bytes in more than 8 pieces. -/
def BytesFit (q : GetRequest) : Prop :=
  let l := q.localSgl
  let r := q.remoteSgl
  ∀ k, Goes l r q.bytesXfer k →
    ((Walk.after l r k).live = true → q.bytesXfer < passed l r (k + 1) % 2 ^ 32 → 8 ≤ k) ∧
    ((Walk.after l r k).live = false → k = 0)

/-- The link of the peer is active for each put of the plan. -/
def PeerFits (q : GetRequest) (peer : Nat → Bool) : Prop :=
  ∀ rounds, ∀ j < (q.plan rounds q.start).length, peer j = true

end GetRequest

/-- Behind the loop: the peer will have got all of what was built just under this condition. -/
def RemoteGet.Left (q : GetRequest) (s : RemoteGet) : Prop :=
  ∃ k puts total, Goes q.localSgl q.remoteSgl q.bytesXfer k ∧ ReadEnd q k total puts ∧
    s.planned = puts.map q.descriptor ∧
    (s.settled = s.planned ↔ s.cancelled = false ∧
      (puts = [] ∨ total = q.bytesXfer ∨ q.bytesXfer < total ∧ 8 < puts.length))

/-- What the call knows of messages that were not injected. -/
def RemoteGet.Tells (q : GetRequest) (s : RemoteGet) : GetPhase → Prop
  | .building | .leaving => s.cancelled = false
  | .waiting => s.cancelled = false ↔ s.descCount ≠ none
  | .returned _ => s.Left q

variable {q : GetRequest} {s s' : RemoteGet} {buffer : Nat → MuDescriptor} {is : List GetInput}
  {i : GetInput} {active : Bool} {rc : Int} {k rounds total : Nat} {puts : List Put}
  {peer : Nat → Bool}

namespace RemoteGet

/-- A message that is not injected is remembered. -/
theorem dput_cancelled_iff : (s.dput active).cancelled = false ↔ s.cancelled = false ∧ active = true := by
  cases active with
  | true => exact (and_iff_left rfl).symm
  | false => exact iff_of_false (by nofun) (by nofun)

theorem rest_cancelled_iff :
    (if 0 < s.putdescCount then s.dput active else s).cancelled = false ↔
      s.cancelled = false ∧ (0 < s.putdescCount → active = true) := by
  by_cases hsome : 0 < s.putdescCount
  · rw [if_pos hsome, dput_cancelled_iff]
    exact and_congr_right fun _ => ⟨fun h _ => h, fun h => h hsome⟩
  · rw [if_neg hsome]
    exact ⟨fun h => ⟨h, fun hyes => absurd hyes hsome⟩, fun h => h.1⟩

theorem leave_cancelled_iff (hphase : s.phase = .leaving) :
    (s.leave q active).cancelled = false ↔ s.cancelled = false ∧ (s.Sends q → active = true) := by
  have hsends : s.Sends q ↔ 0 < s.putdescCount ∧ (s.walk.totalbytes = q.bytesXfer ∨
      s.descCount ≠ none ∧ q.bytesXfer < s.walk.totalbytes) := by
    unfold Sends
    rw [hphase]
  rw [hsends]
  unfold leave
  dsimp only
  by_cases htotal : s.walk.totalbytes = q.bytesXfer
  · rw [if_pos htotal]
    dsimp only
    rw [rest_cancelled_iff]
    simp [htotal]
  · rw [if_neg htotal]
    by_cases hsent : s.descCount = none
    · rw [if_pos hsent]
      simp [htotal, hsent]
    · rw [if_neg hsent]
      by_cases hover : q.bytesXfer < s.walk.totalbytes
      · rw [if_pos hover]
        dsimp only
        rw [rest_cancelled_iff]
        simp [hsent, hover]
      · rw [if_neg hover]
        simp [htotal, hover]

/-- A step leaves no message out exactly if it finds the link active where it sends one. -/
theorem cancelled_step (hs : getStep q s i = some s') :
    s'.cancelled = false ↔ s.cancelled = false ∧ FindsLink q s i := by
  cases i with
  | mu =>
    change s.takeMessage = some s' at hs
    unfold takeMessage at hs
    cases hpending : s.pending with
    | nil => simp [hpending] at hs
    | cons length pending =>
      simp only [hpending, Option.some.injEq] at hs
      subst hs
      exact (and_iff_left trivial).symm
  | go active =>
    change s.go q active = some s' at hs
    show _ ↔ s.cancelled = false ∧ (s.Sends q → active = true)
    cases hphase : s.phase with
    | building =>
      have hsends : s.Sends q ↔ s.walk.live = true ∧ s.putdescCount = 8 := by
        unfold Sends
        rw [hphase]
      simp only [go, hphase] at hs
      rw [hsends]
      by_cases hlive : s.walk.live = true
      · rw [if_pos hlive] at hs
        by_cases hfull : s.putdescCount = 8
        · rw [if_pos hfull] at hs
          cases Option.some.inj hs
          dsimp only
          rw [dput_cancelled_iff]
          simp [hlive, hfull]
        · rw [if_neg hfull] at hs
          cases Option.some.inj hs
          show s.cancelled = false ↔ _
          simp [hfull]
      · rw [if_neg hlive] at hs
        cases Option.some.inj hs
        show s.cancelled = false ↔ _
        simp [hlive]
    | waiting =>
      have hsends : ¬ s.Sends q := by
        unfold Sends
        rw [hphase]
        exact id
      simp only [go, hphase, Option.some.injEq] at hs
      subst hs
      have hsame : (if s.complete then { s with putdescCount := 0, phase := .building } else s
          : RemoteGet).cancelled = s.cancelled := by
        split <;> rfl
      rw [hsame]
      simp [hsends]
    | leaving =>
      simp only [go, hphase, Option.some.injEq] at hs
      subst hs
      exact leave_cancelled_iff hphase
    | returned rc => simp [go, hphase] at hs

theorem cancelled_run (hr : run (getStep q) (newGet q buffer) is = some s) :
    s.cancelled = false ↔ Meets (getStep q) (FindsLink q) (newGet q buffer) is :=
  (holds_iff_meets (fun _ _ _ => cancelled_step) hr).trans (and_iff_right rfl)

/-- What is left in the buffer behind the loop goes out under this condition. -/
theorem left_leave (h : s.Rounds q .leaving) (hinv : GetInv q s) (hphase : s.phase = .leaving)
    (hcancelled : s.cancelled = false) : (s.leave q active).Left q := by
  obtain ⟨hbundled, hzero, k, puts, hk, hend, hputs⟩ := h
  have hbatches := hinv.batches
  rw [hphase] at hbatches
  obtain ⟨hpending, hplanned⟩ := hbatches
  have hlen : s.executed.length = inFullBundles puts.length := by
    rw [hbundled.built hinv.count hplanned hzero, hputs, List.length_map]
  have hsent : s.descCount = none ↔ puts.length ≤ 8 := by
    rw [hbundled.sent, ← List.length_eq_zero_iff, hlen, inFullBundles_eq_zero]
  have hnil : puts = [] ↔ s.putdescCount = 0 := by
    constructor
    · rintro rfl
      rw [hplanned] at hputs
      have hempty := congrArg List.length hputs
      rw [List.length_append, length_batch] at hempty
      exact Nat.eq_zero_of_add_eq_zero_left hempty
    · intro hcount
      exact List.map_eq_nil_iff.mp (hputs.symm.trans (hzero hcount))
  have hbuilt : s.executed = s.planned ↔ s.putdescCount = 0 := by
    rw [hplanned, List.self_eq_append_right, ← List.length_eq_zero_iff, length_batch]
  have hsame : (s.leave q active).planned = s.planned := by
    unfold leave dput
    dsimp only
    split_ifs <;> rfl
  refine ⟨k, puts, s.walk.totalbytes, hk, hend, hsame.trans hputs, ?_⟩
  rw [leave_cancelled_iff hphase, hsame, and_iff_right hcancelled]
  have hsends : s.Sends q ↔ 0 < s.putdescCount ∧ (s.walk.totalbytes = q.bytesXfer ∨
      s.descCount ≠ none ∧ q.bytesXfer < s.walk.totalbytes) := by
    unfold Sends
    rw [hphase]
  have hlast : ∀ rc, ({ (if 0 < s.putdescCount then s.dput active else s) with
      phase := .returned rc } : RemoteGet).settled = s.planned ↔ (0 < s.putdescCount → active = true) := by
    intro rc
    rw [settled_rest rc hinv.count hpending hplanned]
    cases active with
    | true => simp
    | false => simp [hbuilt]
  have hkept : ∀ rc, ({ s with phase := .returned rc } : RemoteGet).settled = s.planned ↔
      s.putdescCount = 0 := by
    intro rc
    rw [← hbuilt]
    exact Eq.congr_left (counter_settled hpending)
  have hmany : s.descCount ≠ none ↔ 8 < puts.length := hsent.not.trans Nat.not_le
  rw [hsends, hnil, ← hmany]
  unfold leave
  dsimp only
  by_cases htotal : s.walk.totalbytes = q.bytesXfer
  · rw [if_pos htotal, hlast]
    simp [htotal]
  · rw [if_neg htotal]
    by_cases hnone : s.descCount = none
    · rw [if_pos hnone, hkept]
      simp [htotal, hnone]
    · rw [if_neg hnone]
      by_cases hover : q.bytesXfer < s.walk.totalbytes
      · rw [if_pos hover, hlast]
        simp [hnone, hover]
      · rw [if_neg hover, hkept]
        simp [htotal, hover]

theorem tells_step (h : s.Tells q s.phase) (hrounds : s.Rounds q s.phase) (hinv : GetInv q s)
    (hs : getStep q s i = some s') : s'.Tells q s'.phase := by
  cases i with
  | mu =>
    obtain ⟨hsettled, hphase⟩ := settled_takeMessage hs
    rw [hphase]
    change s.takeMessage = some s' at hs
    unfold takeMessage at hs
    cases hpending : s.pending with
    | nil => simp [hpending] at hs
    | cons length pending =>
      simp only [hpending, Option.some.injEq] at hs
      subst hs
      cases hphase : s.phase with
      | building | leaving | waiting =>
        rw [hphase] at h
        exact h
      | returned rc =>
        rw [hphase] at h
        obtain ⟨k, puts, total, hk, hend, hputs, hiff⟩ := h
        exact ⟨k, puts, total, hk, hend, hputs, hsettled ▸ hiff⟩
  | go active =>
    change s.go q active = some s' at hs
    cases hphase : s.phase with
    | building =>
      simp only [go, hphase] at hs
      rw [hphase] at h
      by_cases hlive : s.walk.live = true
      · rw [if_pos hlive] at hs
        by_cases hfull : s.putdescCount = 8
        · rw [if_pos hfull] at hs
          cases Option.some.inj hs
          cases active with
          | true => exact iff_of_true h (Option.some_ne_none _)
          | false => exact iff_of_false Bool.false_ne_true.symm fun hsome => hsome rfl
        · rw [if_neg hfull] at hs
          cases Option.some.inj hs
          show (s.build q).Tells q (if q.bytesXfer ≤ s.walk.sum then .leaving else .building)
          split <;> exact h
      · rw [if_neg hlive] at hs
        cases Option.some.inj hs
        exact h
    | waiting =>
      simp only [go, hphase, Option.some.injEq] at hs
      subst hs
      cases hdone : s.complete with
      | false => exact h
      | true =>
        rw [hphase] at h
        refine h.mpr fun hnone => ?_
        rw [complete, hnone] at hdone
        cases hdone
    | leaving =>
      simp only [go, hphase, Option.some.injEq] at hs
      subst hs
      rw [hphase] at h hrounds
      obtain ⟨rc, hrc⟩ := leave_phase q s active
      rw [hrc]
      exact left_leave hrounds hinv hphase h
    | returned rc => simp [go, hphase] at hs

theorem tells_run (hr : run (getStep q) (newGet q buffer) is = some s) :
    GetInv q s ∧ s.Tells q s.phase := by
  have hstep : ∀ s i s', (GetInv q s ∧ s.Rounds q s.phase) ∧ s.Tells q s.phase →
      getStep q s i = some s' →
      (GetInv q s' ∧ s'.Rounds q s'.phase) ∧ s'.Tells q s'.phase :=
    fun _ _ _ h hs => ⟨⟨getStep_inv h.1.1 hs, rounds_step h.1.2 h.1.1 hs⟩, tells_step h.2 h.1.2 h.1.1 hs⟩
  have hall := run_preserves (P := fun s => (GetInv q s ∧ s.Rounds q s.phase) ∧ s.Tells q s.phase) hstep
    ⟨⟨getInv_new q buffer, rounds_new q buffer⟩, rfl⟩ hr
  exact ⟨hall.1.1, hall.2⟩

end RemoteGet

/-- Only the round in which the loop ends matters. -/
theorem bytesFit_iff (hk : Goes q.localSgl q.remoteSgl q.bytesXfer k)
    (hstop : Stops q.localSgl q.remoteSgl q.bytesXfer k) :
    q.BytesFit ↔
      ((Walk.after q.localSgl q.remoteSgl k).live = true →
        q.bytesXfer < passed q.localSgl q.remoteSgl (k + 1) % 2 ^ 32 → 8 ≤ k) ∧
      ((Walk.after q.localSgl q.remoteSgl k).live = false → k = 0) := by
  refine ⟨fun h => h k hk, fun h n hn => ⟨fun hlive hover => ?_, fun hdead => ?_⟩⟩
  · cases hn.stops_unique hk (fun _ => Nat.le_of_lt hover) hstop
    exact h.1 hlive hover
  · cases hn.stops_unique hk (fun hlive => by rw [hdead] at hlive; cases hlive) hstop
    exact h.2 hdead

/-- The condition on the lists is that on what the loop leaves behind. -/
theorem ReadEnd.fits_iff (h : ReadEnd q k total puts) (hk : Goes q.localSgl q.remoteSgl q.bytesXfer k) :
    (puts = [] ∨ total = q.bytesXfer ∨ q.bytesXfer < total ∧ 8 < puts.length) ↔ q.BytesFit := by
  cases h with
  | last hlive hsum =>
    rw [bytesFit_iff hk fun _ => hsum]
    have hlen : (pieces q.localSgl q.remoteSgl k ++ [(Walk.after q.localSgl q.remoteSgl k).put
        ((Walk.after q.localSgl q.remoteSgl k).clipped q.bytesXfer)]).length = k + 1 := by
      rw [List.length_append, length_pieces, List.length_singleton]
    rw [hlen]
    simp only [List.append_eq_nil_iff, List.cons_ne_nil, and_false, false_or, hlive, true_implies,
      Bool.true_eq_false, false_implies, and_true]
    omega
  | ended hdead =>
    have hstop : Stops q.localSgl q.remoteSgl q.bytesXfer k := fun hlive => by
      rw [hdead] at hlive
      cases hlive
    rw [bytesFit_iff hk hstop, ← List.length_eq_zero_iff, length_pieces]
    simp only [hdead, Bool.false_eq_true, false_implies, true_and, true_implies]
    constructor
    · intro hfit
      by_contra hsome
      have hshort := hk.total_lt (Nat.zero_lt_of_lt (hk.short 0 (Nat.pos_of_ne_zero hsome)))
      omega
    · exact Or.inl

/-- All of what the call has built, and the rest of the plan. -/
theorem GetInv.whole_iff (h : GetInv q s) (hleft : s.phase.isLeft = true) :
    s.Whole q peer ↔ s.executed = s.planned ∧ q.PeerFits peer := by
  obtain ⟨built, hbuilt, hplan⟩ := h.plan
  rw [hleft] at hplan
  have hall : ∀ n ≥ built.length, q.plan n q.start = built := by
    intro n hn
    rw [← Nat.add_sub_cancel' hn, hplan.finished rfl]
  have hpeer : q.PeerFits peer ↔ ∀ j < s.planned.length, peer j = true := by
    rw [hbuilt, List.length_map]
    constructor
    · intro hfits j hj
      exact hfits built.length j (by rwa [hall built.length le_rfl])
    · intro hfits n j hj
      refine hfits j (Nat.lt_of_lt_of_le hj ?_)
      rcases Nat.le_total built.length n with hn | hn
      · rw [hall n hn]
      · exact plan_length_le.trans hn
  have hwhole : s.Whole q peer ↔ s.injectedBy peer = s.planned := by
    rw [hbuilt]
    constructor
    · rintro ⟨n, hn⟩
      have hmax := hn (max n built.length) (Nat.le_max_left _ _)
      rwa [hall _ (Nat.le_max_right _ _)] at hmax
    · intro heq
      exact ⟨built.length, fun n hn => by rw [hall n hn, heq]⟩
  rw [hwhole, hpeer]
  constructor
  · intro heq
    have hsub : (s.injectedBy peer).Sublist s.executed := onActive_sublist peer s.executed
    have hexec : s.executed = s.planned :=
      (h.sound.inOrder.sublist).antisymm (heq ▸ hsub)
    refine ⟨hexec, ?_⟩
    rw [← hexec] at heq ⊢
    exact onActive_eq_self.mp heq
  · rintro ⟨hexec, hactive⟩
    rw [← hexec] at hactive ⊢
    exact onActive_eq_self.mpr hactive

/-- A call that waits for a message that was not injected has not sent what it has built. -/
theorem GetInv.not_whole_waiting (h : GetInv q s) (hphase : s.phase = .waiting)
    (hnone : s.descCount = none) : ¬ s.Whole q peer := by
  rintro ⟨n, hn⟩
  obtain ⟨built, hbuilt, hplan⟩ := h.plan
  have hb := h.batches
  rw [hphase] at hb hplan
  have hlong : s.executed.length < s.planned.length := by
    obtain ⟨-, ⟨-, -, hdesc⟩ | ⟨-, -, hdesc⟩ | ⟨-, hplanned, -⟩⟩ := hb
    · rw [hnone] at hdesc
      cases hdesc
    · rw [hnone] at hdesc
      cases hdesc
    · rw [hplanned, List.length_append, length_batch]
      omega
  have heq := congrArg List.length (hn (built.length + n) (Nat.le_add_left _ _))
  rw [hplan.ahead rfl n, List.map_append, ← hbuilt, List.length_append] at heq
  have hle := (onActive_sublist peer s.executed).length_le
  have hsame : (s.injectedBy peer).length = (onActive peer s.executed).length := rfl
  omega

/-- Whatever the plan, the links and the pace of the MU, a remote get keeps to its buffer and to its plan;
where it has come to rest, the peer has injected the whole plan just under this condition. -/
theorem remote_get_whole_iff (q : GetRequest) (buffer : Nat → MuDescriptor) (peer : Nat → Bool)
    (hr : run (getStep q) (newGet q buffer) is = some s) :
    GetSound q s ∧ (s.injectedBy peer).Sublist s.planned ∧
      (s.Settled → (s.Whole q peer ↔
        Meets (getStep q) (FindsLink q) (newGet q buffer) is ∧ q.BytesFit ∧ q.PeerFits peer)) := by
  obtain ⟨hinv, htells⟩ := tells_run hr
  have hsound := remote_get_sound q buffer hr
  refine ⟨hsound, (onActive_sublist peer s.executed).trans hsound.inOrder.sublist, ?_⟩
  rintro ⟨hpending, ⟨rc, hphase⟩ | ⟨hphase, hnone⟩⟩
  · rw [hphase] at htells
    obtain ⟨k, puts, total, hk, hend, hputs, hiff⟩ := htells
    rw [counter_settled hpending] at hiff
    rw [hinv.whole_iff (by rw [hphase]; rfl), hiff, hend.fits_iff hk, cancelled_run hr, and_assoc]
  · rw [hphase] at htells
    refine iff_of_false (hinv.not_whole_waiting hphase hnone) fun hfits => ?_
    exact htells.mp ((cancelled_run hr).mpr hfits.1) hnone

/-- One piece of 100 bytes at either end. -/
def onePiece (bytesXfer : Nat) : GetRequest :=
  { localSgl := fun i => if i = 0 then ⟨4096, 100⟩ else ⟨0, 0⟩
    remoteSgl := fun i => if i = 0 then ⟨8192, 100⟩ else ⟨0, 0⟩
    bytesXfer := bytesXfer
    template := default
    rdmaObjectPa := 64 }

theorem onePiece_fits : (onePiece 100).BytesFit := by
  refine (bytesFit_iff Goes.zero fun _ => by decide).mpr ⟨fun _ hover => ?_, fun _ => rfl⟩
  exact absurd hover (by decide)

theorem remote_get_whole_one_piece :
    ∃ s, run (getStep (onePiece 100)) (newGet (onePiece 100) fun _ => default)
        [.go true, .go true, .mu] = some s ∧ s.executed.length = 1 ∧
      s.Whole (onePiece 100) fun _ => true := by
  refine ⟨_, rfl, rfl, ?_⟩
  have hr : run (getStep (onePiece 100)) (newGet (onePiece 100) fun _ => default)
      [.go true, .go true, .mu] = some _ := rfl
  have hwhole := remote_get_whole_iff (onePiece 100) (fun _ => default) (fun _ => true) hr
  exact (hwhole.2.2 ⟨rfl, Or.inl ⟨_, rfl⟩⟩).mpr
    ⟨(cancelled_run hr).mp rfl, onePiece_fits, fun _ _ _ => rfl⟩

/-- If less is asked for than the piece has, the call fails and its put stays where it is. If the link goes
down before the message, or that of the peer before the put, the call does not fail, and the put is lost;
and nine pieces whose first message finds the link down are waited for without end. -/
theorem remote_get_loses_puts :
    (∃ s, run (getStep (onePiece 50)) (newGet (onePiece 50) fun _ => default)
        [.go true, .go true] = some s ∧
      s.Settled ∧ s.phase = .returned (-EINVAL) ∧ s.injectedBy (fun _ => true) ≠ s.planned) ∧
    (∃ s, run (getStep (onePiece 100)) (newGet (onePiece 100) fun _ => default)
        [.go true, .go false] = some s ∧
      s.Settled ∧ s.phase = .returned (-EINPROGRESS) ∧ s.injectedBy (fun _ => true) ≠ s.planned) ∧
    (∃ s, run (getStep (onePiece 100)) (newGet (onePiece 100) fun _ => default)
        [.go true, .go true, .mu] = some s ∧
      s.Settled ∧ s.phase = .returned (-EINPROGRESS) ∧ s.injectedBy (fun _ => false) ≠ s.planned) ∧
    ∃ s, run (getStep (nineEach 18)) (newGet (nineEach 18) fun _ => default)
        (List.replicate 8 (.go true) ++ [.go false]) = some s ∧
      s.Settled ∧ s.phase = .waiting ∧ s.injectedBy (fun _ => true) ≠ s.planned :=
  ⟨⟨_, rfl, ⟨rfl, Or.inl ⟨_, rfl⟩⟩, rfl, by decide⟩, ⟨_, rfl, ⟨rfl, Or.inl ⟨_, rfl⟩⟩, rfl, by decide⟩,
    ⟨_, rfl, ⟨rfl, Or.inl ⟨_, rfl⟩⟩, rfl, by decide⟩,
    ⟨_, rfl, ⟨rfl, Or.inr ⟨rfl, rfl⟩⟩, rfl, by decide⟩⟩

end BgqVrnic
