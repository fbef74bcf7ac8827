import BgqVrnic.RemoteGetRuns
import BgqVrnic.TransferWrites

namespace BgqVrnic

open Runs

namespace RemoteGet

/-- `mu_counter` of the RDMA object: it starts with the byte count, and each put that the peer executes
takes its length off. -/
def counter (q : GetRequest) (s : RemoteGet) : Int :=
  (q.bytesXfer - (s.executed.map MuDescriptor.messageLength).sum) % 2 ^ 64

/-- The value of its counter that `mudm_rdma_read` waits for behind its loop, if it waits. -/
def awaits (q : GetRequest) (s : RemoteGet) : Option Nat :=
  if s.walk.totalbytes = q.bytesXfer then none
  else if s.descCount = none then none
  else if q.bytesXfer < s.walk.totalbytes then some 0
  else some (q.bytesXfer - s.walk.totalbytes)

end RemoteGet

/-- If the call waits, then its counter is at the awaited value whenever the peer has executed every
message sent. -/
def WaitEnds (q : GetRequest) (s : RemoteGet) (active : Bool) : Prop :=
  ∀ v, s.awaits q = some v → ∀ is s', run (getStep q) (s.leave q active) is = some s' →
    s'.pending = [] → s'.counter q = v

/-- Of `k` puts, how many are in bundles that others follow. -/
def inFullBundles (k : Nat) : Nat := 8 * ((k - 1) / 8)

/-- With too many bytes in more than 8 pieces, the last message goes out and the byte count has not
wrapped, or it does not go out and the others have all the bytes asked for. With too few, the pieces
behind the full bundles have no bytes, and the byte count has not wrapped. -/
def ReadWaitsFit (q : GetRequest) (active : Bool) : Prop :=
  let l := q.localSgl
  let r := q.remoteSgl
  let b := q.bytesXfer
  ∀ k, Goes l r b k →
    ((Walk.after l r k).live = true → b < passed l r (k + 1) % 2 ^ 32 → 8 ≤ k →
      if active then passed l r (k + 1) % 2 ^ 64 < 2 ^ 32
      else passed l r (inFullBundles (k + 1)) % 2 ^ 64 = b) ∧
    ((Walk.after l r k).live = false → 8 < k →
      passed l r (inFullBundles k) % 2 ^ 64 = passed l r k % 2 ^ 32)

/-- What the loop leaves behind: `totalbytes`, and the puts in `k` full rounds and perhaps one more. -/
inductive ReadEnd (q : GetRequest) (k : Nat) : Nat → List Put → Prop
  | last (live : (Walk.after q.localSgl q.remoteSgl k).live = true)
      (sum : q.bytesXfer ≤ passed q.localSgl q.remoteSgl (k + 1) % 2 ^ 32) :
    ReadEnd q k (passed q.localSgl q.remoteSgl (k + 1) % 2 ^ 32)
      (pieces q.localSgl q.remoteSgl k ++ [(Walk.after q.localSgl q.remoteSgl k).put
        ((Walk.after q.localSgl q.remoteSgl k).clipped q.bytesXfer)])
  | ended (dead : (Walk.after q.localSgl q.remoteSgl k).live = false) :
    ReadEnd q k (passed q.localSgl q.remoteSgl k % 2 ^ 32) (pieces q.localSgl q.remoteSgl k)

namespace RemoteGet

/-- In its loop, the call has built the pieces of the rounds that it has gone through. -/
structure InRound (q : GetRequest) (s : RemoteGet) : Prop where
  walk : s.walk = Walk.after q.localSgl q.remoteSgl s.planned.length
  goes : Goes q.localSgl q.remoteSgl q.bytesXfer s.planned.length
  puts : s.planned = (pieces q.localSgl q.remoteSgl s.planned.length).map q.descriptor

/-- The messages behind which the buffer has been used again were full ones, and `desc_count` knows if
there were any. -/
structure Bundled (s : RemoteGet) : Prop where
  full : s.executed.length % 8 = 0
  sent : s.descCount = none ↔ s.executed = []

/-- Where the call is with its rounds and its messages. A message goes out for a put to come. -/
def Rounds (q : GetRequest) (s : RemoteGet) : GetPhase → Prop
  | .building =>
    s.InRound q ∧ s.Bundled ∧ (s.putdescCount = 0 → s.planned = [] ∨ s.walk.live = true)
  | .waiting =>
    s.InRound q ∧ s.walk.live = true ∧ s.planned.length % 8 = 0 ∧ s.planned ≠ []
  | .leaving =>
    s.Bundled ∧ (s.putdescCount = 0 → s.planned = []) ∧
      ∃ k puts, Goes q.localSgl q.remoteSgl q.bytesXfer k ∧ ReadEnd q k s.walk.totalbytes puts ∧
        s.planned = puts.map q.descriptor
  | .returned _ => True

/-- What the peer will have injected when it has got the messages on their way. -/
def settled (s : RemoteGet) : List MuDescriptor :=
  s.executed ++ s.pending.flatMap fun length => multiDirectput (dputPacket s.buffer length)

end RemoteGet

variable {q : GetRequest} {s s' : RemoteGet} {buffer : Nat → MuDescriptor} {is : List GetInput}
  {i : GetInput} {active : Bool} {rc : Int} {l r : Nat → MudmSgl} {b k n : Nat} {puts : List Put}

namespace RemoteGet

theorem length_batch (s : RemoteGet) (k : Nat) : (s.batch k).length = k := by
  simp [batch, Rings.read]

/-- The buffer is empty again, or has the descriptors behind the last full bundle. -/
theorem Bundled.built (h : s.Bundled) (hcount : s.putdescCount ≤ 8)
    (hplanned : s.planned = s.executed ++ s.batch s.putdescCount)
    (hzero : s.putdescCount = 0 → s.planned = []) :
    s.executed.length = inFullBundles s.planned.length := by
  have hlen := congrArg List.length hplanned
  rw [List.length_append, length_batch] at hlen
  have hfull := h.full
  unfold inFullBundles
  by_cases hz : s.putdescCount = 0
  · rw [hzero hz, List.length_nil] at hlen
    rw [hzero hz, List.length_nil]
    omega
  · omega

theorem rounds_new (q : GetRequest) (buffer : Nat → MuDescriptor) :
    (newGet q buffer).Rounds q .building :=
  ⟨⟨rfl, Goes.zero, rfl⟩, ⟨rfl, ⟨fun _ => rfl, fun _ => rfl⟩⟩, fun _ => Or.inl rfl⟩

theorem InRound.congr (h : s.InRound q) (hwalk : s'.walk = s.walk) (hplanned : s'.planned = s.planned) :
    s'.InRound q := by
  refine ⟨?_, ?_, ?_⟩
  · rw [hwalk, hplanned]
    exact h.walk
  · rw [hplanned]
    exact h.goes
  · rw [hplanned]
    exact h.puts

theorem rounds_build (h : s.Rounds q .building) (hlive : s.walk.live = true) :
    (s.build q).Rounds q (s.build q).phase := by
  obtain ⟨hround, hbundled, -⟩ := h
  have hlive' := hlive
  rw [hround.walk] at hlive'
  have hsum : s.walk.sum = passed q.localSgl q.remoteSgl (s.planned.length + 1) % 2 ^ 32 := by
    rw [hround.walk, after_sum]
  have hputs : (s.build q).planned = (pieces q.localSgl q.remoteSgl s.planned.length ++
      [s.walk.put (s.walk.clipped q.bytesXfer)]).map q.descriptor := by
    rw [List.map_append, ← hround.puts]
    rfl
  have hlen : (s.build q).planned.length = s.planned.length + 1 := List.length_append
  show (s.build q).Rounds q (if q.bytesXfer ≤ s.walk.sum then .leaving else .building)
  by_cases hlast : q.bytesXfer ≤ s.walk.sum
  · rw [if_pos hlast]
    refine ⟨⟨hbundled.full, hbundled.sent⟩, fun hzero => absurd hzero (Nat.succ_ne_zero _), ?_⟩
    refine ⟨s.planned.length, _, hround.goes, ?_, hputs⟩
    have htotal : (s.build q).walk.totalbytes =
        passed q.localSgl q.remoteSgl (s.planned.length + 1) % 2 ^ 32 := by
      rw [← hsum]
      show (if q.bytesXfer ≤ s.walk.sum then _ else _ : Walk).totalbytes = _
      rw [if_pos hlast]
    rw [htotal, hround.walk]
    exact .last hlive' (hsum ▸ hlast)
  · rw [if_neg hlast]
    have hwalk : (s.build q).walk = s.walk.advance q.localSgl q.remoteSgl := if_neg hlast
    have hclip : s.walk.clipped q.bytesXfer = s.walk.chunk := if_neg (by omega)
    refine ⟨⟨?_, ?_, ?_⟩, ⟨hbundled.full, hbundled.sent⟩, fun hzero => absurd hzero (Nat.succ_ne_zero _)⟩
    · rw [hwalk, hlen, Walk.after, ← hround.walk]
    · rw [hlen]
      refine hround.goes.succ hlive' ?_
      rw [← hround.walk]
      exact Nat.not_le.mp hlast
    · rw [hlen, pieces_succ, hputs, hclip, ← hround.walk]

/-- A full buffer goes out while a put is to come. -/
theorem rounds_flush (h : s.Rounds q .building) (hinv : GetInv q s) (hphase : s.phase = .building)
    (hlive : s.walk.live = true) (hfull : s.putdescCount = 8) :
    { s.dput active with phase := .waiting }.Rounds q .waiting := by
  obtain ⟨hround, hbundled, -⟩ := h
  have hb := hinv.batches
  rw [hphase] at hb
  have hlen := congrArg List.length hb.2
  rw [List.length_append, length_batch, hfull] at hlen
  have hmod := hbundled.full
  have hfacts : s.planned.length % 8 = 0 ∧ s.planned ≠ [] := by
    refine ⟨by omega, fun hnil => ?_⟩
    rw [hnil, List.length_nil] at hlen
    omega
  cases active with
  | false => exact ⟨hround.congr rfl rfl, hlive, hfacts⟩
  | true => exact ⟨hround.congr rfl rfl, hlive, hfacts⟩

/-- The buffer is free again once the MU has the message. -/
theorem rounds_wait (h : s.Rounds q .waiting) (hinv : GetInv q s) (hphase : s.phase = .waiting)
    (hdone : s.complete = true) :
    { s with putdescCount := 0, phase := .building }.Rounds q .building := by
  obtain ⟨hround, hlive, hmod, hne⟩ := h
  have hb := hinv.batches
  rw [hphase] at hb
  obtain ⟨-, ⟨-, -, hdesc⟩ | ⟨-, hplanned, hdesc⟩ | ⟨-, -, hdesc⟩⟩ := hb
  · rw [complete, hdesc] at hdone
    have hle := of_decide_eq_true hdone
    omega
  · refine ⟨hround.congr rfl rfl, ⟨?_, ?_⟩, fun _ => Or.inr hlive⟩
    · show s.executed.length % 8 = 0
      rw [← hplanned]
      exact hmod
    · show s.descCount = none ↔ s.executed = []
      rw [hdesc, ← hplanned]
      exact iff_of_false (Option.some_ne_none _) hne
  · rw [complete, hdesc] at hdone
    cases hdone

theorem rounds_ended (h : s.Rounds q .building) (hdead : s.walk.live = false) :
    { s with phase := .leaving }.Rounds q .leaving := by
  obtain ⟨hround, hbundled, hzero⟩ := h
  refine ⟨⟨hbundled.full, hbundled.sent⟩, fun hz => ?_, s.planned.length, _, hround.goes, ?_,
    hround.puts⟩
  · rcases hzero hz with hnil | hlive
    · exact hnil
    · rw [hdead] at hlive
      cases hlive
  · show ReadEnd q s.planned.length s.walk.totalbytes _
    rw [hround.walk] at hdead ⊢
    rw [after_totalbytes]
    exact .ended hdead

theorem rounds_takeMessage (h : s.Rounds q s.phase) (hinv : GetInv q s)
    (hs : s.takeMessage = some s') : s'.Rounds q s'.phase := by
  unfold takeMessage at hs
  have hb := hinv.batches
  cases hpending : s.pending with
  | nil => simp [hpending] at hs
  | cons length pending =>
    simp only [hpending, Option.some.injEq] at hs
    subst hs
    show Rounds q _ s.phase
    cases hphase : s.phase with
    | building =>
      rw [hphase, Batches, hpending] at hb
      cases hb.1
    | waiting =>
      rw [hphase] at h
      exact ⟨h.1.congr rfl rfl, h.2⟩
    | leaving =>
      rw [hphase, Batches, hpending] at hb
      cases hb.1
    | returned rc => trivial

theorem leave_phase (q : GetRequest) (s : RemoteGet) (active : Bool) :
    ∃ rc, (s.leave q active).phase = .returned rc := by
  unfold leave
  dsimp only
  split
  · exact ⟨_, rfl⟩
  · split
    · exact ⟨_, rfl⟩
    · split <;> exact ⟨_, rfl⟩

theorem rounds_step (h : s.Rounds q s.phase) (hinv : GetInv q s)
    (hs : getStep q s i = some s') : s'.Rounds q s'.phase := by
  cases i with
  | mu => exact rounds_takeMessage h hinv hs
  | go active =>
    change s.go q active = some s' at hs
    cases hphase : s.phase with
    | building =>
      simp only [go, hphase] at hs
      rw [hphase] at h
      by_cases hlive : s.walk.live = true
      · rw [if_pos hlive] at hs
        by_cases hfull : s.putdescCount = 8
        · rw [if_pos hfull] at hs
          cases Option.some.inj hs
          exact rounds_flush h hinv hphase hlive hfull
        · rw [if_neg hfull] at hs
          cases Option.some.inj hs
          exact rounds_build h hlive
      · rw [if_neg hlive] at hs
        cases Option.some.inj hs
        exact rounds_ended h (Bool.eq_false_iff.mpr hlive)
    | waiting =>
      simp only [go, hphase, Option.some.injEq] at hs
      subst hs
      cases hdone : s.complete with
      | false => exact h
      | true =>
        rw [hphase] at h
        exact rounds_wait h hinv hphase hdone
    | leaving =>
      simp only [go, hphase, Option.some.injEq] at hs
      subst hs
      obtain ⟨rc, hrc⟩ := leave_phase q s active
      rw [hrc]
      trivial
    | returned rc => simp [go, hphase] at hs

theorem rounds_run (hr : run (getStep q) (newGet q buffer) is = some s) :
    GetInv q s ∧ s.Rounds q s.phase := by
  have hstep : ∀ s i s', GetInv q s ∧ s.Rounds q s.phase → getStep q s i = some s' →
      GetInv q s' ∧ s'.Rounds q s'.phase :=
    fun _ _ _ h hs => ⟨getStep_inv h.1 hs, rounds_step h.2 h.1 hs⟩
  exact run_preserves (P := fun s => GetInv q s ∧ s.Rounds q s.phase) hstep
    ⟨getInv_new q buffer, rounds_new q buffer⟩ hr

/-- What the peer has got and will get changes only with what the call sends. -/
theorem settled_takeMessage (hs : s.takeMessage = some s') :
    s'.settled = s.settled ∧ s'.phase = s.phase := by
  unfold takeMessage at hs
  cases hpending : s.pending with
  | nil => simp [hpending] at hs
  | cons length pending =>
    simp only [hpending, Option.some.injEq] at hs
    subst hs
    refine ⟨?_, rfl⟩
    simp [settled, hpending]

theorem settled_run (hphase : s.phase = .returned rc) (hr : run (getStep q) s is = some s') :
    s'.settled = s.settled := by
  have hstep : ∀ t i t', t.settled = s.settled ∧ t.phase = .returned rc → getStep q t i = some t' →
      t'.settled = s.settled ∧ t'.phase = .returned rc := by
    rintro t i t' ⟨hsettled, hret⟩ ht
    cases i with
    | mu =>
      obtain ⟨hsame, hstay⟩ := settled_takeMessage ht
      exact ⟨hsame.trans hsettled, hstay.trans hret⟩
    | go active => simp [getStep, go, hret] at ht
  exact (run_preserves hstep ⟨rfl, hphase⟩ hr).1

theorem exists_drained (q : GetRequest) (s : RemoteGet) :
    ∃ is s', run (getStep q) s is = some s' ∧ s'.pending = [] := by
  obtain ⟨n, hn⟩ : ∃ n, s.pending.length = n := ⟨_, rfl⟩
  induction n generalizing s with
  | zero => exact ⟨[], s, rfl, List.length_eq_zero_iff.mp hn⟩
  | succ n ih =>
    cases hpending : s.pending with
    | nil => simp [hpending] at hn
    | cons length pending =>
      have htake : ∃ t, s.takeMessage = some t ∧ t.pending = pending := by
        unfold takeMessage
        rw [hpending]
        exact ⟨_, rfl, rfl⟩
      obtain ⟨t, ht, hrest⟩ := htake
      have hlen : t.pending.length = n := by
        rw [hpending, List.length_cons] at hn
        rw [hrest]
        omega
      obtain ⟨is, s', hr, hnil⟩ := ih t hlen
      refine ⟨.mu :: is, s', ?_, hnil⟩
      show (s.takeMessage).bind _ = _
      rw [ht]
      exact hr

theorem counter_settled (h : s.pending = []) : s.settled = s.executed := by
  rw [settled, h]
  exact List.append_nil _

end RemoteGet

open RemoteGet

/-- A wait ends if what the peer gets in all takes the counter to the awaited value. -/
theorem waitEnds_iff :
    WaitEnds q s active ↔ ∀ v, s.awaits q = some v →
      ((q.bytesXfer : Int) - ((s.leave q active).settled.map MuDescriptor.messageLength).sum) % 2 ^ 64 =
        v := by
  obtain ⟨rc, hrc⟩ := leave_phase q s active
  constructor
  · intro h v hv
    obtain ⟨is, s', hr, hnil⟩ := exists_drained q (s.leave q active)
    rw [← settled_run hrc hr, counter_settled hnil]
    exact h v hv is s' hr hnil
  · intro h v hv is s' hr hnil
    unfold RemoteGet.counter
    rw [← counter_settled hnil, settled_run hrc hr]
    exact h v hv

/-- The rest of the buffer goes out, if there is any and the link takes it. -/
theorem settled_rest (rc : Int) (hcount : s.putdescCount ≤ 8) (hpending : s.pending = [])
    (hplanned : s.planned = s.executed ++ s.batch s.putdescCount) :
    ({ (if 0 < s.putdescCount then s.dput active else s) with phase := .returned rc } :
        RemoteGet).settled = if active then s.planned else s.executed := by
  by_cases hsome : 0 < s.putdescCount
  · rw [if_pos hsome]
    cases active with
    | true =>
      rw [dput_active, if_pos rfl, hplanned]
      unfold settled
      dsimp only
      rw [hpending, List.nil_append, List.flatMap_singleton,
        multiDirectput_dputPacket s.buffer hcount]
      rfl
    | false =>
      rw [dput_cancelled, if_neg Bool.false_ne_true]
      exact counter_settled hpending
  · have hall : s.planned = s.executed := by
      rw [hplanned, Nat.eq_zero_of_not_pos hsome]
      exact List.append_nil _
    rw [if_neg hsome, hall, ite_self]
    exact counter_settled hpending

theorem settled_leave_over (hcount : s.putdescCount ≤ 8) (hpending : s.pending = [])
    (hplanned : s.planned = s.executed ++ s.batch s.putdescCount)
    (hover : q.bytesXfer < s.walk.totalbytes) (hsent : s.descCount ≠ none) :
    (s.leave q active).settled = if active then s.planned else s.executed := by
  have hleave : s.leave q active =
      { (if 0 < s.putdescCount then s.dput active else s) with phase := .returned (-EINVAL) } := by
    unfold RemoteGet.leave
    dsimp only
    rw [if_neg (Nat.ne_of_gt hover), if_neg hsent, if_pos hover]
  rw [hleave]
  exact settled_rest _ hcount hpending hplanned

theorem settled_leave_under (hpending : s.pending = []) (hunder : s.walk.totalbytes < q.bytesXfer)
    (hsent : s.descCount ≠ none) : (s.leave q active).settled = s.executed := by
  have hleave : s.leave q active = { s with phase := .returned (-EINVAL) } := by
    unfold RemoteGet.leave
    dsimp only
    rw [if_neg (Nat.ne_of_lt hunder), if_neg hsent, if_neg (Nat.lt_asymm hunder)]
  rw [hleave]
  exact counter_settled hpending

theorem lengths_descriptors (q : GetRequest) (puts : List Put) :
    (puts.map q.descriptor).map MuDescriptor.messageLength = puts.map Put.length := by
  rw [List.map_map]
  rfl

theorem take_pieces (h : n ≤ k) : (pieces l r k).take n = pieces l r n := by
  unfold pieces
  rw [← List.map_take, List.take_range, Nat.min_eq_left h]

/-- The loop stops behind one number of rounds. -/
theorem Goes.stops_unique (h : Goes l r b k) (h' : Goes l r b n) (hs : Stops l r b k)
    (hs' : Stops l r b n) : k = n := by
  have hle : ∀ {i j}, Goes l r b i → Goes l r b j → Stops l r b i → j ≤ i := by
    intro i j hi hj hstop
    by_contra hlt
    have hge := hstop (hj.lives i (Nat.not_le.mp hlt))
    have hshort := hj.short i (Nat.not_le.mp hlt)
    omega
  exact Nat.le_antisymm (hle h' h hs') (hle h h' hs)

theorem inFullBundles_lt (k : Nat) : inFullBundles (k + 1) ≤ k := by
  unfold inFullBundles
  omega

theorem inFullBundles_eq_zero : inFullBundles k = 0 ↔ k ≤ 8 := by
  unfold inFullBundles
  omega
/-- The clipped put brings the counter to 0, but for what `totalbytes` has lost. -/
theorem counter_clipped (w : Walk) {before after : Nat} (hsum : w.sum = after % 2 ^ 32)
    (hafter : after = before + w.chunk) (hover : b < after % 2 ^ 32) :
    ((b : Int) - (before + w.clipped b : Nat)) % 2 ^ 64 = (0 : Nat) ↔ after % 2 ^ 64 < 2 ^ 32 := by
  have hclip : w.clipped b = (b + w.chunk + (2 ^ 64 - w.sum)) % 2 ^ 64 := if_pos (hsum ▸ hover)
  rw [hclip, hsum]
  omega

/-- Only the round in which the loop ends matters. -/
theorem readWaitsFit_iff (hk : Goes q.localSgl q.remoteSgl q.bytesXfer k)
    (hstop : Stops q.localSgl q.remoteSgl q.bytesXfer k) :
    ReadWaitsFit q active ↔
      ((Walk.after q.localSgl q.remoteSgl k).live = true →
        q.bytesXfer < passed q.localSgl q.remoteSgl (k + 1) % 2 ^ 32 → 8 ≤ k →
        if active then passed q.localSgl q.remoteSgl (k + 1) % 2 ^ 64 < 2 ^ 32
        else passed q.localSgl q.remoteSgl (inFullBundles (k + 1)) % 2 ^ 64 = q.bytesXfer) ∧
      ((Walk.after q.localSgl q.remoteSgl k).live = false → 8 < k →
        passed q.localSgl q.remoteSgl (inFullBundles k) % 2 ^ 64 =
          passed q.localSgl q.remoteSgl k % 2 ^ 32) := by
  refine ⟨fun h => h k hk, fun h n hn => ⟨fun hlive hover => ?_, fun hdead => ?_⟩⟩
  · cases hn.stops_unique hk (fun _ => Nat.le_of_lt hover) hstop
    exact h.1 hlive hover
  · cases hn.stops_unique hk (fun hlive => by rw [hdead] at hlive; cases hlive) hstop
    exact h.2 hdead

/-- Wherever the call leaves its loop, the wait that follows ends just under this condition on the lists,
the byte count and the link. -/
theorem counter_waits_iff (hb : q.bytesXfer < 2 ^ 64)
    (hr : run (getStep q) (newGet q buffer) is = some s) (hphase : s.phase = .leaving) :
    WaitEnds q s active ↔ ReadWaitsFit q active := by
  obtain ⟨hinv, hrounds⟩ := rounds_run hr
  have hbatches := hinv.batches
  rw [hphase] at hrounds hbatches
  obtain ⟨hbundled, hzero, k, puts, hk, hend, hputs⟩ := hrounds
  obtain ⟨hpending, hplanned⟩ := hbatches
  have hlen : s.executed.length = inFullBundles puts.length := by
    rw [hbundled.built hinv.count hplanned hzero, hputs, List.length_map]
  have hexec : s.executed = (puts.take (inFullBundles puts.length)).map q.descriptor := by
    rw [List.map_take, ← hputs, ← hlen, hplanned, List.take_left]
  have hsent : s.descCount = none ↔ puts.length ≤ 8 := by
    rw [hbundled.sent, ← List.length_eq_zero_iff, hlen, inFullBundles_eq_zero]
  rw [waitEnds_iff]
  unfold RemoteGet.awaits
  generalize htotal : s.walk.totalbytes = total at hend
  cases hend with
  | last hlive hsum =>
    rw [readWaitsFit_iff hk fun _ => hsum]
    have hnum : (pieces q.localSgl q.remoteSgl k ++ [(Walk.after q.localSgl q.remoteSgl k).put
        ((Walk.after q.localSgl q.remoteSgl k).clipped q.bytesXfer)]).length = k + 1 := by
      rw [List.length_append, length_pieces, List.length_singleton]
    rw [hnum] at hsent hexec
    have hnever : ¬ ((Walk.after q.localSgl q.remoteSgl k).live = false) := by
      rw [hlive]
      nofun
    by_cases hwait : q.bytesXfer < passed q.localSgl q.remoteSgl (k + 1) % 2 ^ 32 ∧ 8 ≤ k
    · obtain ⟨hover, hmany⟩ := hwait
      have hsome : s.descCount ≠ none := fun hnone => by
        have hfew := hsent.mp hnone
        omega
      rw [if_neg (Nat.ne_of_gt hover), if_neg hsome, if_pos hover,
        settled_leave_over hinv.count hpending hplanned (htotal ▸ hover) hsome]
      simp only [Option.some.injEq, forall_eq', hlive, hover, hmany, true_implies, reduceCtorEq,
        false_implies, and_true]
      cases active with
      | true =>
        rw [if_pos rfl, if_pos rfl, hputs, lengths_descriptors, List.map_append, List.sum_append,
          sum_pieces, List.map_singleton, List.sum_singleton]
        exact counter_clipped (Walk.after q.localSgl q.remoteSgl k) (after_sum _ _ k) rfl hover
      | false =>
        rw [if_neg Bool.false_ne_true, if_neg Bool.false_ne_true, hexec,
          List.take_append_of_le_length (by rw [length_pieces]; exact inFullBundles_lt k),
          take_pieces (inFullBundles_lt k), lengths_descriptors, sum_pieces]
        omega
    · refine iff_of_true (fun v hv => ?_)
        ⟨fun _ hover hmany => absurd ⟨hover, hmany⟩ hwait, fun hdead => absurd hdead hnever⟩
      split at hv
      · cases hv
      · split at hv
        next => cases hv
        next hne hsome =>
          have hmany : ¬ k + 1 ≤ 8 := fun hfew => hsome (hsent.mpr hfew)
          exact absurd ⟨lt_of_le_of_ne hsum (Ne.symm hne), by omega⟩ hwait
  | ended hdead =>
    rw [readWaitsFit_iff hk fun hlive => by rw [hdead] at hlive; cases hlive]
    have hnever : ¬ ((Walk.after q.localSgl q.remoteSgl k).live = true) := by
      rw [hdead]
      nofun
    rw [length_pieces] at hsent hexec
    by_cases hmany : 8 < k
    · have hshort := hk.total_lt (Nat.zero_lt_of_lt (hk.short 0 (by omega)))
      have hsome : s.descCount ≠ none := fun hnone => by
        have hfew := hsent.mp hnone
        omega
      have hin : inFullBundles k ≤ k := by
        unfold inFullBundles
        omega
      rw [if_neg (Nat.ne_of_lt hshort), if_neg hsome, if_neg (Nat.lt_asymm hshort),
        settled_leave_under hpending (htotal ▸ hshort) hsome, hexec, take_pieces hin,
        lengths_descriptors, sum_pieces]
      simp only [Option.some.injEq, forall_eq', hdead, hmany, true_implies, reduceCtorEq,
        false_implies, true_and]
      omega
    · refine iff_of_true (fun v hv => ?_)
        ⟨fun hlive => absurd hlive hnever, fun _ hlong => absurd hlong hmany⟩
      have hnone : s.descCount = none := hsent.mpr (Nat.not_lt.mp hmany)
      rw [if_pos hnone, ite_self] at hv
      cases hv

/-- Nine entries of two bytes on either side. -/
def nineEach (bytesXfer : Nat) : GetRequest :=
  { localSgl := sglOf (List.replicate 9 ⟨0x1000, 2⟩)
    remoteSgl := sglOf (List.replicate 9 ⟨0x2000, 2⟩)
    bytesXfer := bytesXfer
    template := default
    rdmaObjectPa := 64 }

/-- Eight puts and their message, and one put more. -/
def nineTurns : List GetInput :=
  List.replicate 8 (.go true) ++ [.go true, .mu, .go true, .go true]

theorem nineEach_goes : Goes (nineEach 17).localSgl (nineEach 17).remoteSgl 17 8 :=
  ⟨by unfold Lives; decide, by decide⟩

theorem counter_waits_over :
    ∃ s, run (getStep (nineEach 17)) (newGet (nineEach 17) fun _ => default) nineTurns = some s ∧
      s.awaits (nineEach 17) = some 0 ∧ WaitEnds (nineEach 17) s true := by
  refine ⟨_, rfl, rfl, ?_⟩
  refine (counter_waits_iff (by decide)
    (show run (getStep (nineEach 17)) (newGet (nineEach 17) fun _ => default) nineTurns = some _
      from rfl) rfl).mpr ?_
  refine (readWaitsFit_iff nineEach_goes fun _ => by decide).mpr ⟨fun _ _ _ => ?_, nofun⟩
  rw [if_pos rfl]
  decide

/-- With the link down for the last message, and with a byte too many asked for, the ninth put stays in
the buffer and the counter is never as low as the call waits for. -/
theorem counter_waits_forever :
    (∃ s, run (getStep (nineEach 17)) (newGet (nineEach 17) fun _ => default) nineTurns = some s ∧
      s.awaits (nineEach 17) = some 0 ∧ (s.leave (nineEach 17) false).pending = [] ∧
      (s.leave (nineEach 17) false).counter (nineEach 17) = 1 ∧ ¬ WaitEnds (nineEach 17) s false) ∧
    ∃ s, run (getStep (nineEach 19)) (newGet (nineEach 19) fun _ => default)
        (nineTurns ++ [.go true]) = some s ∧
      s.awaits (nineEach 19) = some 1 ∧ (s.leave (nineEach 19) true).pending = [] ∧
      (s.leave (nineEach 19) true).counter (nineEach 19) = 3 ∧ ¬ WaitEnds (nineEach 19) s true := by
  refine ⟨⟨_, rfl, rfl, rfl, by decide, fun h => ?_⟩, ⟨_, rfl, rfl, rfl, by decide, fun h => ?_⟩⟩
  · have hzero := h 0 rfl [] _ rfl rfl
    have hone : ¬ (1 : Int) = (0 : Nat) := by decide
    exact hone hzero
  · have hone := h 1 rfl [] _ rfl rfl
    have hthree : ¬ (3 : Int) = (1 : Nat) := by decide
    exact hthree hone

end BgqVrnic
