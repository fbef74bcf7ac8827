import BgqVrnic.RemoteGet

namespace BgqVrnic

open Runs

variable {q : GetRequest} {s s' : RemoteGet} {puts : List Put} {w : Walk} {k rounds : Nat}
  {active : Bool} {i : GetInput} {is : List GetInput}

/-- Where the plan stands: `puts` have been built, and what is left follows from the walk, if anything is
left. -/
structure PlanFits (q : GetRequest) (puts : List Put) (left : Bool) (w : Walk) : Prop where
  ahead : left = false → ∀ k, q.plan (puts.length + k) q.start = puts ++ q.plan k w
  finished : left = true → ∀ k, q.plan (puts.length + k) q.start = puts

theorem PlanFits.build (h : PlanFits q puts false w) (hlive : w.live = true)
    (hlast : w.sum < q.bytesXfer) :
    PlanFits q (puts ++ [w.put (w.clipped q.bytesXfer)]) false (w.advance q.localSgl q.remoteSgl) := by
  refine ⟨fun _ k => ?_, nofun⟩
  have hnext := h.ahead rfl (k + 1)
  rw [GetRequest.plan_succ, if_pos hlive, if_neg (not_le.mpr hlast)] at hnext
  rw [List.length_append, List.length_singleton, Nat.add_assoc, Nat.add_comm 1, hnext,
    List.append_assoc]
  rfl

theorem PlanFits.last (h : PlanFits q puts false w) (hlive : w.live = true)
    (hlast : q.bytesXfer ≤ w.sum) (w' : Walk) :
    PlanFits q (puts ++ [w.put (w.clipped q.bytesXfer)]) true w' := by
  refine ⟨nofun, fun _ k => ?_⟩
  have hnext := h.ahead rfl (k + 1)
  rw [GetRequest.plan_succ, if_pos hlive, if_pos hlast] at hnext
  rw [List.length_append, List.length_singleton, Nat.add_assoc, Nat.add_comm 1, hnext]

theorem PlanFits.ended (h : PlanFits q puts false w) (hlive : w.live = false) :
    PlanFits q puts true w := by
  refine ⟨nofun, fun _ k => ?_⟩
  rw [h.ahead rfl k]
  cases k with
  | zero => exact List.append_nil _
  | succ k =>
    rw [GetRequest.plan_succ, if_neg (by simp [hlive])]
    exact List.append_nil _

theorem PlanFits.now {left : Bool} (h : PlanFits q puts left w) :
    q.plan puts.length q.start = puts := by
  cases left with
  | false =>
    have hzero := h.ahead rfl 0
    rw [Nat.add_zero] at hzero
    rw [hzero]
    exact List.append_nil _
  | true => exact h.finished rfl 0

theorem plan_length_le : (q.plan rounds w).length ≤ rounds := by
  induction rounds generalizing w with
  | zero => exact Nat.zero_le 0
  | succ rounds ih =>
    rw [GetRequest.plan_succ]
    split
    · rw [List.length_cons]
      apply Nat.succ_le_succ
      split
      · exact Nat.zero_le rounds
      · exact ih
    · exact Nat.zero_le _

/-- The loop goes on as long as the plan is longer. -/
theorem PlanFits.live (h : PlanFits q puts false w)
    (hlong : puts.length < (q.plan rounds q.start).length) : w.live = true := by
  by_contra hlive
  have hrounds := plan_length_le.trans_lt' hlong
  obtain ⟨k, rfl⟩ := Nat.exists_eq_add_of_le hrounds.le
  rw [(h.ended (Bool.not_eq_true _ ▸ hlive)).finished rfl] at hlong
  exact Nat.lt_irrefl _ hlong

theorem PlanFits.not_last (h : PlanFits q puts false w)
    (hlong : puts.length + 1 < (q.plan rounds q.start).length) : w.sum < q.bytesXfer := by
  by_contra hlast
  have hlive := h.live (Nat.lt_of_succ_lt hlong)
  have hrounds := plan_length_le.trans_lt' hlong
  have hend := (h.last hlive (not_lt.mp hlast) w).finished rfl
  obtain ⟨k, rfl⟩ := Nat.exists_eq_add_of_le hrounds.le
  rw [List.length_append, List.length_singleton] at hend
  rw [hend, List.length_append, List.length_singleton] at hlong
  exact Nat.lt_irrefl _ hlong

theorem PlanFits.longer (h : PlanFits q puts false w) (hlive : w.live = true) :
    puts.length < (q.plan (puts.length + 1) q.start).length := by
  rw [h.ahead rfl 1, List.length_append, GetRequest.plan_succ, if_pos hlive, List.length_cons]
  omega

/-- The descriptors in the buffer. -/
def RemoteGet.batch (s : RemoteGet) (k : Nat) : List MuDescriptor := Rings.read s.buffer 0 k

/-- The messages that the MU has not taken, and what they and the buffer hold of the plan. -/
def RemoteGet.Batches (s : RemoteGet) : GetPhase → Prop
  | .building => s.pending = [] ∧ s.planned = s.executed ++ s.batch s.putdescCount
  | .waiting =>
    s.putdescCount = 8 ∧
      (s.pending = [descriptorBytes * 8] ∧ s.planned = s.executed ++ s.batch 8 ∧
          s.descCount = some (s.consumed + 1) ∨
        s.pending = [] ∧ s.planned = s.executed ∧ s.descCount = some s.consumed ∨
        s.pending = [] ∧ s.planned = s.executed ++ s.batch 8 ∧ s.descCount = none)
  | .leaving => s.pending = [] ∧ s.planned = s.executed ++ s.batch s.putdescCount
  | .returned rc =>
    s.pending = [] ∧ s.executed <+: s.planned ∧
        (rc = -EINPROGRESS → s.cancelled = false → s.planned = s.executed) ∨
      ∃ k, 1 ≤ k ∧ k ≤ 8 ∧ s.pending = [descriptorBytes * k] ∧
        s.planned = s.executed ++ s.batch k

def GetPhase.isLeft : GetPhase → Bool
  | .building | .waiting => false
  | .leaving | .returned _ => true

structure GetInv (q : GetRequest) (s : RemoteGet) : Prop where
  count : s.putdescCount ≤ 8
  slots : ∀ i ∈ s.slots, i < 8
  messages : ∀ length ∈ s.lengths, ∃ k, 1 ≤ k ∧ k ≤ 8 ∧ length = descriptorBytes * k
  taken : s.injected = s.consumed + s.pending.length
  plan : ∃ puts, s.planned = puts.map q.descriptor ∧ PlanFits q puts s.phase.isLeft s.walk
  batches : s.Batches s.phase

theorem getInv_new (q : GetRequest) (buffer : Nat → MuDescriptor) : GetInv q (newGet q buffer) where
  count := Nat.zero_le 8
  slots := fun _ hi => absurd hi List.not_mem_nil
  messages := fun _ hl => absurd hl List.not_mem_nil
  taken := rfl
  plan := ⟨[], rfl, fun _ k => by rw [List.length_nil, Nat.zero_add]; rfl, nofun⟩
  batches := ⟨rfl, rfl⟩

/-- The peer counts as many descriptors as the message was sent with. -/
theorem multiDirectput_dputPacket (buffer : Nat → MuDescriptor) (hk : k ≤ 8) :
    multiDirectput (dputPacket buffer (descriptorBytes * k)) = Rings.read buffer 0 k := by
  have hsize : descriptorBytes * k / 32 % 32 = 2 * k := by
    unfold descriptorBytes
    omega
  have hcount : (2 * k) >>> 1 = k := by
    rw [Nat.shiftRight_eq_div_pow]
    omega
  rw [multiDirectput, dputPacket, hsize, hcount]

theorem batch_build {desc : MuDescriptor} :
    Rings.read (Function.update s.buffer s.putdescCount desc) 0 (s.putdescCount + 1) =
      s.batch s.putdescCount ++ [desc] := by
  unfold RemoteGet.batch Rings.read
  rw [List.range_succ, List.map_append, List.map_singleton, Nat.zero_add, Function.update_self]
  congr 1
  apply List.map_congr_left
  intro i hi
  rw [Nat.zero_add]
  exact Function.update_of_ne (List.mem_range.mp hi).ne _ _

theorem GetInv.sound (h : GetInv q s) : GetSound q s where
  slots := h.slots
  messages := h.messages
  planned := by
    obtain ⟨puts, hputs, hplan⟩ := h.plan
    rw [hputs, List.length_map, hplan.now]
  inOrder := by
    have hb := h.batches
    cases hphase : s.phase with
    | building =>
      rw [hphase] at hb
      exact hb.2 ▸ List.prefix_append _ _
    | waiting =>
      rw [hphase] at hb
      rcases hb.2 with ⟨-, hp, -⟩ | ⟨-, hp, -⟩ | ⟨-, hp, -⟩
      · exact hp ▸ List.prefix_append _ _
      · exact hp ▸ List.prefix_rfl
      · exact hp ▸ List.prefix_append _ _
    | leaving =>
      rw [hphase] at hb
      exact hb.2 ▸ List.prefix_append _ _
    | returned rc =>
      rw [hphase] at hb
      rcases hb with ⟨-, hp, -⟩ | ⟨k, -, -, -, hp⟩
      · exact hp
      · exact hp ▸ List.prefix_append _ _
  whole := by
    intro hphase hcancelled hpending rounds hrounds
    obtain ⟨puts, hputs, hplan⟩ := h.plan
    have hb := h.batches
    rw [hphase] at hb hplan
    rcases hb with ⟨-, -, hall⟩ | ⟨k, -, -, hp, -⟩
    · have he := hall rfl hcancelled
      rw [← he, hputs] at hrounds ⊢
      rw [List.length_map] at hrounds
      rw [← Nat.add_sub_cancel' hrounds, hplan.finished rfl]
    · rw [hpending] at hp
      cases hp

theorem RemoteGet.dput_active :
    s.dput true =
      { s with
        descCount := some (s.injected + 1)
        injected := s.injected + 1
        pending := s.pending ++ [descriptorBytes * s.putdescCount]
        lengths := s.lengths ++ [descriptorBytes * s.putdescCount] } := rfl

theorem RemoteGet.dput_cancelled :
    s.dput false = { s with descCount := none, cancelled := true } := rfl

/-- A message of the descriptors in the buffer is a good one. -/
theorem GetInv.dput_messages (h : GetInv q s) (hcount : 0 < s.putdescCount) :
    ∀ length ∈ s.lengths ++ [descriptorBytes * s.putdescCount],
      ∃ k, 1 ≤ k ∧ k ≤ 8 ∧ length = descriptorBytes * k := by
  intro length hlength
  rcases List.mem_append.mp hlength with hold | hnew
  · exact h.messages length hold
  · exact ⟨s.putdescCount, hcount, h.count, List.mem_singleton.mp hnew⟩

/-- A full buffer goes out, and the call waits. -/
theorem GetInv.flush (h : GetInv q s) (hphase : s.phase = .building) (hfull : s.putdescCount = 8) :
    GetInv q { s.dput active with phase := .waiting } := by
  have hb := h.batches
  have hplan := h.plan
  rw [hphase] at hb hplan
  obtain ⟨hpending, hplanned⟩ := hb
  rw [hfull] at hplanned
  have htaken := h.taken
  rw [hpending] at htaken
  cases active with
  | false =>
    rw [RemoteGet.dput_cancelled]
    exact
      { h with plan := hplan, batches := ⟨hfull, Or.inr (Or.inr ⟨hpending, hplanned, rfl⟩)⟩ }
  | true =>
    rw [RemoteGet.dput_active]
    refine
      { count := h.count, slots := h.slots, messages := h.dput_messages (by omega), taken := ?_
        plan := hplan, batches := ⟨hfull, Or.inl ⟨?_, hplanned, ?_⟩⟩ }
    · show s.injected + 1 = s.consumed + (s.pending ++ [_]).length
      rw [hpending, htaken]
      rfl
    · show s.pending ++ [descriptorBytes * s.putdescCount] = _
      rw [hpending, hfull]
      rfl
    · show some (s.injected + 1) = _
      rw [htaken]
      rfl

theorem GetInv.build (h : GetInv q s) (hphase : s.phase = .building) (hlive : s.walk.live = true)
    (hroom : s.putdescCount ≠ 8) : GetInv q (s.build q) := by
  have hb := h.batches
  have hplan := h.plan
  rw [hphase] at hb hplan
  obtain ⟨hpending, hplanned⟩ := hb
  obtain ⟨puts, hputs, hfits⟩ := hplan
  have hcount := h.count
  have hslots : ∀ i ∈ s.slots ++ [s.putdescCount], i < 8 := by
    intro i hi
    rcases List.mem_append.mp hi with hold | hnew
    · exact h.slots i hold
    · cases List.mem_singleton.mp hnew
      omega
  have hnew : s.planned ++ [q.descriptor (s.walk.put (s.walk.clipped q.bytesXfer))] =
      (puts ++ [s.walk.put (s.walk.clipped q.bytesXfer)]).map q.descriptor := by
    rw [hputs, List.map_append, List.map_singleton]
  have hbatch : s.planned ++ [q.descriptor (s.walk.put (s.walk.clipped q.bytesXfer))] =
      s.executed ++ (s.build q).batch (s.putdescCount + 1) := by
    rw [RemoteGet.batch, RemoteGet.build, batch_build, hplanned, List.append_assoc]
  by_cases hlast : q.bytesXfer ≤ s.walk.sum
  · refine
      { count := Nat.lt_of_le_of_ne hcount hroom, slots := hslots, messages := h.messages
        taken := h.taken, plan := ⟨_, hnew, ?_⟩, batches := ?_ }
    · show PlanFits q _ (GetPhase.isLeft (if q.bytesXfer ≤ s.walk.sum then .leaving else .building)) _
      rw [if_pos hlast]
      exact hfits.last hlive hlast _
    · show (s.build q).Batches (if q.bytesXfer ≤ s.walk.sum then .leaving else .building)
      rw [if_pos hlast]
      exact ⟨hpending, hbatch⟩
  · refine
      { count := Nat.lt_of_le_of_ne hcount hroom, slots := hslots, messages := h.messages
        taken := h.taken, plan := ⟨_, hnew, ?_⟩, batches := ?_ }
    · show PlanFits q _ (GetPhase.isLeft (if q.bytesXfer ≤ s.walk.sum then .leaving else .building))
        (if q.bytesXfer ≤ s.walk.sum then _ else _)
      rw [if_neg hlast, if_neg hlast]
      exact hfits.build hlive (not_le.mp hlast)
    · show (s.build q).Batches (if q.bytesXfer ≤ s.walk.sum then .leaving else .building)
      rw [if_neg hlast]
      exact ⟨hpending, hbatch⟩

/-- The call only goes on when the MU has taken the message, so that the buffer is free. -/
theorem GetInv.wait (h : GetInv q s) (hphase : s.phase = .waiting) (hdone : s.complete = true) :
    GetInv q { s with putdescCount := 0, phase := .building } := by
  have hb := h.batches
  have hplan := h.plan
  rw [hphase] at hb hplan
  obtain ⟨-, ⟨-, -, hdesc⟩ | ⟨hpending, hplanned, -⟩ | ⟨-, -, hdesc⟩⟩ := hb
  · rw [RemoteGet.complete, hdesc] at hdone
    have hle := of_decide_eq_true hdone
    omega
  · refine { h with count := Nat.zero_le 8, plan := hplan, batches := ⟨hpending, ?_⟩ }
    rw [hplanned]
    exact (List.append_nil _).symm
  · rw [RemoteGet.complete, hdesc] at hdone
    cases hdone

theorem GetInv.fail (h : GetInv q s) (hphase : s.phase = .leaving) :
    GetInv q { s with phase := .returned (-EINVAL) } := by
  have hb := h.batches
  have hplan := h.plan
  rw [hphase] at hb hplan
  have hprefix : s.executed <+: s.planned := hb.2 ▸ List.prefix_append _ _
  exact { h with plan := hplan, batches := Or.inl ⟨hb.1, hprefix, fun he => by cases he⟩ }

/-- What is left in the buffer goes out as the last message. -/
theorem GetInv.finish (h : GetInv q s) (hphase : s.phase = .leaving) (rc : Int) :
    GetInv q
      { (if 0 < s.putdescCount then s.dput active else s) with phase := .returned rc } := by
  have hb := h.batches
  have hplan := h.plan
  rw [hphase] at hb hplan
  obtain ⟨hpending, hplanned⟩ := hb
  have hprefix : s.executed <+: s.planned := hplanned ▸ List.prefix_append _ _
  have htaken := h.taken
  rw [hpending] at htaken
  by_cases hcount : 0 < s.putdescCount
  · rw [if_pos hcount]
    cases active with
    | false =>
      rw [RemoteGet.dput_cancelled]
      exact { h with plan := hplan, batches := Or.inl ⟨hpending, hprefix, fun _ hc => by cases hc⟩ }
    | true =>
      rw [RemoteGet.dput_active]
      refine
        { count := h.count, slots := h.slots, messages := h.dput_messages hcount, taken := ?_
          plan := hplan, batches := Or.inr ⟨s.putdescCount, hcount, h.count, ?_, hplanned⟩ }
      · show s.injected + 1 = s.consumed + (s.pending ++ [_]).length
        rw [hpending, htaken]
        rfl
      · show s.pending ++ [descriptorBytes * s.putdescCount] = _
        rw [hpending]
        rfl
  · rw [if_neg hcount]
    have hall : s.planned = s.executed := by
      rw [hplanned, Nat.eq_zero_of_not_pos hcount]
      exact List.append_nil _
    exact { h with plan := hplan, batches := Or.inl ⟨hpending, hprefix, fun _ _ => hall⟩ }

theorem GetInv.leave (h : GetInv q s) (hphase : s.phase = .leaving) :
    GetInv q (s.leave q active) := by
  show GetInv q (if s.walk.totalbytes = q.bytesXfer then _ else _)
  by_cases htotal : s.walk.totalbytes = q.bytesXfer
  · rw [if_pos htotal]
    exact h.finish hphase _
  · rw [if_neg htotal]
    by_cases hsent : s.descCount = none
    · rw [if_pos hsent]
      exact h.fail hphase
    · rw [if_neg hsent]
      by_cases hover : q.bytesXfer < s.walk.totalbytes
      · rw [if_pos hover]
        exact h.finish hphase _
      · rw [if_neg hover]
        exact h.fail hphase

theorem GetInv.takeMessage (h : GetInv q s) (hs : s.takeMessage = some s') : GetInv q s' := by
  unfold RemoteGet.takeMessage at hs
  cases hpending : s.pending with
  | nil => simp [hpending] at hs
  | cons length pending =>
    simp only [hpending, Option.some.injEq] at hs
    subst hs
    have hb := h.batches
    have htaken : s.injected = s.consumed + 1 + pending.length := by
      rw [h.taken, hpending, List.length_cons]
      omega
    refine
      { count := h.count, slots := h.slots, messages := h.messages, taken := htaken, plan := h.plan
        batches := ?_ }
    -- a message on its way holds all that is planned and not yet executed
    have hmessage : ∀ k, k ≤ 8 → length = descriptorBytes * k →
        s.executed ++ multiDirectput (dputPacket s.buffer length) = s.executed ++ s.batch k := by
      rintro k hk rfl
      rw [multiDirectput_dputPacket s.buffer hk]
      rfl
    cases hphase : s.phase with
    | building =>
      rw [hphase, RemoteGet.Batches, hpending] at hb
      cases hb.1
    | waiting =>
      rw [hphase] at hb
      obtain ⟨hcount, ⟨hone, hplanned, hdesc⟩ | ⟨hnone, -⟩ | ⟨hnone, -⟩⟩ := hb
      · rw [hpending] at hone
        obtain ⟨hlength, hrest⟩ := List.cons.inj hone
        refine ⟨hcount, Or.inr (Or.inl ⟨hrest, ?_, hdesc⟩)⟩
        show s.planned = s.executed ++ multiDirectput (dputPacket s.buffer length)
        rw [hmessage 8 le_rfl hlength]
        exact hplanned
      · rw [hpending] at hnone
        cases hnone
      · rw [hpending] at hnone
        cases hnone
    | leaving =>
      rw [hphase, RemoteGet.Batches, hpending] at hb
      cases hb.1
    | returned rc =>
      rw [hphase] at hb
      rcases hb with ⟨hnone, -⟩ | ⟨k, -, hk, hone, hplanned⟩
      · rw [hpending] at hnone
        cases hnone
      · rw [hpending] at hone
        obtain ⟨hlength, hrest⟩ := List.cons.inj hone
        have hall : s.planned = s.executed ++ multiDirectput (dputPacket s.buffer length) := by
          rw [hmessage k hk hlength]
          exact hplanned
        exact Or.inl ⟨hrest, hall ▸ List.prefix_rfl, fun _ _ => hall⟩

theorem getStep_inv (h : GetInv q s) (hs : getStep q s i = some s') : GetInv q s' := by
  cases i with
  | mu => exact h.takeMessage hs
  | go active =>
    change s.go q active = some s' at hs
    cases hphase : s.phase with
    | building =>
      simp only [RemoteGet.go, hphase] at hs
      by_cases hlive : s.walk.live = true
      · rw [if_pos hlive] at hs
        by_cases hfull : s.putdescCount = 8
        · rw [if_pos hfull] at hs
          cases Option.some.inj hs
          exact h.flush hphase hfull
        · rw [if_neg hfull] at hs
          cases Option.some.inj hs
          exact h.build hphase hlive hfull
      · rw [if_neg hlive] at hs
        cases Option.some.inj hs
        obtain ⟨puts, hputs, hfits⟩ := h.plan
        have hb := h.batches
        rw [hphase] at hb hfits
        have hended := hfits.ended (Bool.not_eq_true _ ▸ hlive)
        exact { h with plan := ⟨puts, hputs, hended⟩, batches := hb }
    | waiting =>
      simp only [RemoteGet.go, hphase, Option.some.injEq] at hs
      subst hs
      cases hdone : s.complete with
      | false => exact h
      | true => exact h.wait hphase hdone
    | leaving =>
      simp only [RemoteGet.go, hphase, Option.some.injEq] at hs
      subst hs
      exact h.leave hphase
    | returned rc => simp [RemoteGet.go, hphase] at hs

/-- Whatever the plan, the link and the pace of the MU, a remote get keeps to its buffer and to its
plan. -/
theorem remote_get_sound (q : GetRequest) (buffer : Nat → MuDescriptor)
    (hr : run (getStep q) (newGet q buffer) is = some s) : GetSound q s := by
  have hstep : ∀ s i s', GetInv q s → getStep q s i = some s' → GetInv q s' :=
    fun _ _ _ h hs => getStep_inv h hs
  exact (run_preserves hstep (getInv_new q buffer) hr).sound

end BgqVrnic
