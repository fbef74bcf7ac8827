import BgqVrnic.TransferReads

namespace BgqVrnic

/-- What a write is asked for: the two lists, the byte count, and what its descriptors are made from. -/
structure WriteRequest where
  localSgl : Nat → MudmSgl
  remoteSgl : Nat → MudmSgl
  bytesXfer : Nat
  template : MuDescriptor
  rdmaObject : Nat

/-- A descriptor that puts the local memory to the remote one. -/
def WriteRequest.descriptor (q : WriteRequest) (p : Put) : MuDescriptor :=
  (Injection.directPut q.template p.length p.localPa p.remotePa q.rdmaObject).build fun _ => 0

/-- A write on its link: the direct puts of data that it has tried, those that went in, whether one of
them was turned away, whether the word with the error went in, and the return value once there is one. -/
structure WriteRun where
  walk : Walk
  tried : Nat
  injected : List Put
  cancelled : Bool
  notice : Bool
  rc : Option Int
  deriving DecidableEq, Repr

namespace WriteRun

/-- `InjFifoInjectDirectPut`, which returns -1 if it finds the link inactive. -/
def inject (active : Nat → Bool) (s : WriteRun) (p : Put) : WriteRun :=
  if active s.tried then { s with tried := s.tried + 1, injected := s.injected ++ [p] }
  else { s with tried := s.tried + 1, cancelled := true }

/-- `BADRDMA` -/
def mismatch (active : Nat → Bool) (s : WriteRun) : WriteRun :=
  { s with notice := active s.tried, rc := some (-EINVAL) }

end WriteRun

/-- The loop of `mudm_rdma_write` and what follows it. The result of an injection goes to `desc_count`,
which nothing reads. -/
def injectLoop (active : Nat → Bool) (bytesXfer : Nat) (localSgl remoteSgl : Nat → MudmSgl) :
    Nat → WriteRun → WriteRun
  | 0, s => s
  | rounds + 1, s =>
    let w := s.walk
    if w.live then
      if bytesXfer < w.sum then s.mismatch active
      else
        let s := s.inject active (w.put w.chunk)
        if bytesXfer ≤ w.sum then { s with rc := some 0 }
        else
          injectLoop active bytesXfer localSgl remoteSgl rounds
            { s with walk := w.advance localSgl remoteSgl }
    else if w.totalbytes = bytesXfer then { s with rc := some 0 }
    else s.mismatch active

/-- `mudm_rdma_write` on a link that its `i`-th injection finds active exactly if `active i`. -/
def writeOnLink (active : Nat → Bool) (q : WriteRequest) (rounds : Nat) : WriteRun :=
  let s := ⟨Walk.start q.localSgl q.remoteSgl, 0, [], false, false, none⟩
  if q.bytesXfer = 0 then { s with rc := some (-EINVAL) }
  else injectLoop active q.bytesXfer q.localSgl q.remoteSgl rounds s

/-- `mudm_rdma_write` comes back, and with 0 exactly if all its puts went in and move the first
`bytesXfer` bytes of the local list, of `n` entries, to those of the remote list, of `m` entries. -/
def WriteReports (q : WriteRequest) (active : Nat → Bool) (n m : Nat) : Prop :=
  ∃ rounds, ∀ k ≥ rounds, ∃ rc, (writeOnLink active q k).rc = some rc ∧
    (rc = 0 ↔ (writeOnLink active q k).cancelled = false ∧
      Transfers ((writeOnLink active q k).injected.map q.descriptor)
        ((sglBytes q.localSgl n).take q.bytesXfer) ((sglBytes q.remoteSgl m).take q.bytesXfer))

/-- `totalbytes` first gets to `b` or beyond it where entries end at byte `t`, and there it is `b`. -/
structure FirstMatch (l r : Nat → MudmSgl) (b t : Nat) : Prop where
  comes : ComesTo t l r
  total : t % 2 ^ 32 = b
  first : ∀ t' < t, ComesTo t' l r → t' % 2 ^ 32 < b

/-- Up to 32 bits `totalbytes` must not match at any other byte than the last one asked for, and then
the link must take each put that is in front of that byte. A longer count never matches, and must not be
all that the lists have, unless the link turns a put away. -/
def WriteFits (q : WriteRequest) (active : Nat → Bool) : Prop :=
  let l := q.localSgl
  let r := q.remoteSgl
  let b := q.bytesXfer
  if b < 2 ^ 32 then
    ∀ t, FirstMatch l r b t → t = b ∧ ∀ i, passed l r i < b → active i = true
  else
    ¬ (ComesTo b l r ∧ (∀ t, ComesTo t l r → t ≤ b) ∧ ∀ i, Lives l r (i + 1) → active i = true)

/-- The puts that a write has tried. -/
structure WriteRun.Tracks (active : Nat → Bool) (puts : List Put) (s : WriteRun) : Prop where
  tried : s.tried = puts.length
  injected : s.cancelled = false → s.injected = puts
  cancelled : s.cancelled = false ↔ ∀ i < puts.length, active i = true

variable {l r : Nat → MudmSgl} {b i k n m t rounds : Nat} {q : WriteRequest} {active : Nat → Bool}
  {s : WriteRun} {p : Put} {puts : List Put} {w : Walk}

namespace WriteRun

theorem Tracks.inject (h : s.Tracks active puts) :
    (s.inject active p).Tracks active (puts ++ [p]) := by
  have hlen : (puts ++ [p]).length = puts.length + 1 := by simp
  have hsplit : (∀ i < (puts ++ [p]).length, active i = true) ↔
      (∀ i < puts.length, active i = true) ∧ active puts.length = true := by
    rw [hlen]
    exact Nat.forall_lt_succ_right
  unfold WriteRun.inject
  rw [h.tried]
  split
  next hup =>
    refine ⟨?_, fun hc => ?_, ?_⟩
    · exact hlen.symm
    · dsimp only at hc ⊢
      rw [h.injected hc]
    · rw [hsplit]
      exact ⟨fun hc => ⟨h.cancelled.mp hc, hup⟩, fun hall => h.cancelled.mpr hall.1⟩
  next hdown =>
    refine ⟨?_, nofun, ?_⟩
    · exact hlen.symm
    · rw [hsplit]
      exact ⟨nofun, fun hall => absurd hall.2 hdown⟩

end WriteRun

/-- The loop does not know what comes of its injections. -/
theorem injectLoop_writeLoop (h : s.Tracks active puts) (hrc : s.rc = none) :
    (injectLoop active b l r rounds s).rc = (writeLoop b l r rounds s.walk puts).rc ∧
      (injectLoop active b l r rounds s).Tracks active (writeLoop b l r rounds s.walk puts).puts := by
  induction rounds generalizing s puts with
  | zero => exact ⟨hrc, h⟩
  | succ rounds ih =>
    unfold injectLoop writeLoop
    dsimp only
    split
    · split
      · exact ⟨rfl, h.tried, h.injected, h.cancelled⟩
      · have hput := h.inject (p := s.walk.put s.walk.chunk)
        split
        · exact ⟨rfl, hput.tried, hput.injected, hput.cancelled⟩
        · refine ih ⟨hput.tried, hput.injected, hput.cancelled⟩ ?_
          unfold WriteRun.inject
          split <;> exact hrc
    · split
      · exact ⟨rfl, h.tried, h.injected, h.cancelled⟩
      · exact ⟨rfl, h.tried, h.injected, h.cancelled⟩

theorem writeOnLink_mudmRdmaWrite (active : Nat → Bool) (q : WriteRequest) (rounds : Nat) :
    (writeOnLink active q rounds).rc =
        (mudmRdmaWrite q.bytesXfer q.localSgl q.remoteSgl rounds).rc ∧
      (writeOnLink active q rounds).Tracks active
        (mudmRdmaWrite q.bytesXfer q.localSgl q.remoteSgl rounds).puts := by
  have hstart : WriteRun.Tracks active []
      ⟨Walk.start q.localSgl q.remoteSgl, 0, [], false, false, none⟩ :=
    ⟨rfl, fun _ => rfl, ⟨nofun, fun _ => rfl⟩⟩
  unfold writeOnLink mudmRdmaWrite
  dsimp only
  split
  · exact ⟨rfl, hstart.tried, hstart.injected, hstart.cancelled⟩
  · exact injectLoop_writeLoop hstart rfl

/-- In the rounds that the loop goes through, the puts are the pieces. -/
theorem writeLoop_goes (h : Goes l r b k) (n : Nat) :
    writeLoop b l r (k + n) (Walk.start l r) [] =
      writeLoop b l r n (Walk.after l r k) (pieces l r k) := by
  induction k generalizing n with
  | zero =>
    rw [Nat.zero_add]
    rfl
  | succ k ih =>
    have hsum : (Walk.after l r k).sum < b := by
      rw [after_sum]
      exact h.short k (Nat.lt_succ_self k)
    rw [Nat.add_assoc, Nat.add_comm 1, ih (h.mono (Nat.le_succ k)) (n + 1)]
    conv_lhs => unfold writeLoop
    rw [if_pos (h.lives k (Nat.lt_succ_self k)), if_neg (Nat.lt_asymm hsum),
      if_neg (Nat.not_le.mpr hsum), pieces_succ]
    rfl

/-- A null address ends the rounds. -/
theorem Lives.le (h : Lives l r k) (hl : Terminated l n) (hr : Terminated r m) : k ≤ n + m := by
  have hin : ∀ {l : Nat → MudmSgl} {n : Nat}, Terminated l n → ∀ {i pa len total},
      AtEntry l i pa len total → i ≤ n := by
    intro l n hl i pa len total hat
    by_contra hlt
    exact hat.alive n (Nat.not_le.mp hlt) hl.null
  obtain ⟨hat, hle⟩ := h.at
  exact hle.trans (Nat.add_le_add (hin hl hat.localAt) (hin hr hat.remoteAt))

theorem Goes.total_lt (h : Goes l r b k) (hb : 0 < b) : passed l r k % 2 ^ 32 < b := by
  cases k with
  | zero => exact hb
  | succ k => exact h.short k (Nat.lt_succ_self k)

/-- How the loop ends behind `k` rounds: what it returns, and after how many puts. -/
inductive WriteEnd (l r : Nat → MudmSgl) (b k : Nat) : Int → Nat → Prop
  | done (live : (Walk.after l r k).live = true) (sum : passed l r (k + 1) % 2 ^ 32 = b) :
    WriteEnd l r b k 0 (k + 1)
  | beyond (live : (Walk.after l r k).live = true) (sum : b < passed l r (k + 1) % 2 ^ 32) :
    WriteEnd l r b k (-EINVAL) k
  | ended (dead : (Walk.after l r k).live = false) : WriteEnd l r b k (-EINVAL) k

theorem exists_last_round (hl : Terminated l n) (hr : Terminated r m) :
    ∃ k, Goes l r b k ∧ Stops l r b k := by
  by_contra hnone
  have hall : ∀ k, Goes l r b k := by
    intro k
    induction k with
    | zero => exact Goes.zero
    | succ k ih =>
      by_cases hnext : (Walk.after l r k).live = true ∧ passed l r (k + 1) % 2 ^ 32 < b
      · exact ih.succ hnext.1 (by rw [after_sum]; exact hnext.2)
      · refine absurd ⟨k, ih, fun hlive => ?_⟩ hnone
        exact Nat.not_lt.mp fun hlt => hnext ⟨hlive, hlt⟩
  have hle := (hall (n + m + 1)).lives.le hl hr
  omega

theorem mudmRdmaWrite_ends (hl : Terminated l n) (hr : Terminated r m) (hb : 0 < b) :
    ∃ k rc tried, Goes l r b k ∧ WriteEnd l r b k rc tried ∧ ∀ rounds ≥ k + 1,
      (mudmRdmaWrite b l r rounds).rc = some rc ∧
        (mudmRdmaWrite b l r rounds).puts = pieces l r tried := by
  obtain ⟨k, hk, hlast⟩ := exists_last_round (b := b) hl hr
  have hstep : ∀ rounds ≥ k + 1, ∃ d, mudmRdmaWrite b l r rounds =
      writeLoop b l r (d + 1) (Walk.after l r k) (pieces l r k) := by
    intro rounds hrounds
    obtain ⟨d, rfl⟩ := Nat.exists_eq_add_of_le hrounds
    refine ⟨d, ?_⟩
    unfold mudmRdmaWrite
    rw [if_neg (Nat.ne_of_gt hb), Nat.add_assoc, writeLoop_goes hk, Nat.add_comm 1]
  by_cases hlive : (Walk.after l r k).live = true
  · by_cases hover : b < passed l r (k + 1) % 2 ^ 32
    · refine ⟨k, _, _, hk, .beyond hlive hover, fun rounds hrounds => ?_⟩
      obtain ⟨d, hd⟩ := hstep rounds hrounds
      rw [hd, writeLoop, if_pos hlive, after_sum, if_pos hover]
      exact ⟨rfl, rfl⟩
    · have hsum := Nat.le_antisymm (Nat.not_lt.mp hover) (hlast hlive)
      refine ⟨k, _, _, hk, .done hlive hsum, fun rounds hrounds => ?_⟩
      obtain ⟨d, hd⟩ := hstep rounds hrounds
      rw [hd, writeLoop, if_pos hlive, after_sum, if_neg hover, if_pos (hlast hlive), pieces_succ]
      exact ⟨rfl, rfl⟩
  · refine ⟨k, _, _, hk, .ended (Bool.eq_false_iff.mpr hlive), fun rounds hrounds => ?_⟩
    obtain ⟨d, hd⟩ := hstep rounds hrounds
    have hshort := hk.total_lt hb
    rw [← after_totalbytes] at hshort
    rw [hd, writeLoop, if_neg hlive, if_neg (Nat.ne_of_lt hshort)]
    exact ⟨rfl, rfl⟩

theorem length_locals (puts : List Put) :
    (puts.flatMap Put.locals).length = (puts.map Put.length).sum := by
  rw [List.length_flatMap]
  simp [Put.locals]

theorem sources_writes (q : WriteRequest) (puts : List Put) :
    (puts.map q.descriptor).flatMap MuDescriptor.sources = puts.flatMap Put.locals := by
  rw [List.flatMap_map]
  rfl

/-- The descriptors of the first `k` pieces move just the bytes asked for if these are the bytes that
the pieces have. -/
theorem Lives.write_transfers_iff (h : Lives q.localSgl q.remoteSgl k) (hl : Terminated q.localSgl n)
    (hr : Terminated q.remoteSgl m) (hln : q.bytesXfer ≤ bytesBefore q.localSgl n)
    (hrm : q.bytesXfer ≤ bytesBefore q.remoteSgl m) :
    Transfers ((pieces q.localSgl q.remoteSgl k).map q.descriptor)
        ((sglBytes q.localSgl n).take q.bytesXfer) ((sglBytes q.remoteSgl m).take q.bytesXfer) ↔
      passed q.localSgl q.remoteSgl k = q.bytesXfer := by
  constructor
  · intro ht
    have hlen := congrArg List.length ht.reads
    rw [sources_writes, length_locals, sum_pieces, List.length_take, length_sglBytes] at hlen
    omega
  · intro heq
    obtain ⟨hlocal, hremote⟩ := h.pieces_bytes hl.alive hr.alive (heq ▸ hln) (heq ▸ hrm)
    rw [heq] at hlocal hremote
    refine ⟨?_, ?_⟩
    · rw [sources_writes, hlocal]
    · rw [← hremote, List.flatMap_map]
      refine List.flatMap_congr fun p hp => ?_
      obtain ⟨i, hi, rfl⟩ := List.mem_map.mp hp
      have hlow := hr.address (h.mono (Nat.le_of_lt (List.mem_range.mp hi))).at.1.remoteAt
      have hoffset : (q.descriptor ((Walk.after q.localSgl q.remoteSgl i).put
          (Walk.after q.localSgl q.remoteSgl i).chunk)).putOffset =
            (Walk.after q.localSgl q.remoteSgl i).curRemotePa := Nat.mod_eq_of_lt hlow
      rw [MuDescriptor.targets, hoffset]
      rfl

/-- The byte counts of the rounds in front of one are too small. -/
theorem Goes.not_firstMatch (h : Goes l r b k) (hb : 0 < b) (hik : i ≤ k) :
    ¬ FirstMatch l r b (passed l r i) := by
  intro hmatch
  have hlt := (h.mono hik).total_lt hb
  have heq := hmatch.total
  omega

theorem FirstMatch.lives (h : FirstMatch l r b t) (hb : 0 < b) :
    ∃ i, Lives l r i ∧ passed l r i = t := by
  refine (exists_passed_iff ?_).mpr h.comes
  by_contra hzero
  have heq := h.total
  obtain rfl : t = 0 := by omega
  omega

/-- Where the loop matches the byte count, it does so for the first time. -/
theorem Goes.firstMatch_iff (h : Goes l r b k) (hb : 0 < b) (hlive : (Walk.after l r k).live = true)
    (hge : b ≤ passed l r (k + 1) % 2 ^ 32) :
    FirstMatch l r b t ↔ t = passed l r (k + 1) ∧ t % 2 ^ 32 = b := by
  have hnext := h.lives.succ hlive
  constructor
  · intro hmatch
    refine ⟨?_, hmatch.total⟩
    obtain ⟨i, hi, rfl⟩ := hmatch.lives hb
    by_contra hne
    have hlt : ¬ passed l r (k + 1) < passed l r i := by
      intro hlt
      have hfirst := hmatch.first _ hlt hnext.comesTo
      omega
    refine h.not_firstMatch hb ?_ hmatch
    by_contra hik
    have hmono : passed l r (k + 1) ≤ passed l r i := passed_mono (by omega)
    omega
  · rintro ⟨rfl, hsum⟩
    refine ⟨hnext.comesTo, hsum, fun t' hlt hcome => ?_⟩
    by_cases hzero : t' = 0
    · rw [hzero]
      exact hb
    · obtain ⟨i, hi, rfl⟩ := (exists_passed_iff (Nat.pos_of_ne_zero hzero)).mpr hcome
      refine (h.mono ?_).total_lt hb
      by_contra hik
      have hmono : passed l r (k + 1) ≤ passed l r i := passed_mono (by omega)
      omega

theorem Lives.le_of_dead (h : Lives l r i) (hdead : (Walk.after l r k).live = false) : i ≤ k := by
  by_contra hlt
  rw [h k (Nat.not_le.mp hlt)] at hdead
  cases hdead

/-- A write whose loop ends has reported rightly if it returns 0 just where each of its puts goes in
and they pass the bytes asked for. -/
theorem WriteEnd.reports_iff {rc : Int} {tried : Nat} (hl : Terminated q.localSgl n)
    (hr : Terminated q.remoteSgl m) (hln : q.bytesXfer ≤ bytesBefore q.localSgl n)
    (hrm : q.bytesXfer ≤ bytesBefore q.remoteSgl m) (htried : Lives q.localSgl q.remoteSgl tried)
    (hend : ∀ rounds ≥ k + 1, (mudmRdmaWrite q.bytesXfer q.localSgl q.remoteSgl rounds).rc = some rc ∧
      (mudmRdmaWrite q.bytesXfer q.localSgl q.remoteSgl rounds).puts =
        pieces q.localSgl q.remoteSgl tried) :
    WriteReports q active n m ↔
      (rc = 0 ↔ (∀ i < tried, active i = true) ∧
        passed q.localSgl q.remoteSgl tried = q.bytesXfer) := by
  have hround : ∀ rounds ≥ k + 1, (writeOnLink active q rounds).rc = some rc ∧
      ((writeOnLink active q rounds).cancelled = false ∧
          Transfers ((writeOnLink active q rounds).injected.map q.descriptor)
            ((sglBytes q.localSgl n).take q.bytesXfer)
            ((sglBytes q.remoteSgl m).take q.bytesXfer) ↔
        (∀ i < tried, active i = true) ∧
          passed q.localSgl q.remoteSgl tried = q.bytesXfer) := by
    intro rounds hrounds
    obtain ⟨hrc, htracks⟩ := writeOnLink_mudmRdmaWrite active q rounds
    obtain ⟨hret, hputs⟩ := hend rounds hrounds
    rw [hputs] at htracks
    have hup := htracks.cancelled
    rw [length_pieces] at hup
    refine ⟨hrc.trans hret, ?_⟩
    rw [← hup]
    refine and_congr_right fun hc => ?_
    rw [htracks.injected hc]
    exact htried.write_transfers_iff hl hr hln hrm
  constructor
  · rintro ⟨rounds, hall⟩
    obtain ⟨rc', hrc', hiff⟩ := hall (max rounds (k + 1)) (Nat.le_max_left _ _)
    obtain ⟨hrc, hputs⟩ := hround _ (Nat.le_max_right rounds _)
    cases Option.some.inj (hrc.symm.trans hrc')
    exact hiff.trans hputs
  · intro hiff
    refine ⟨k + 1, fun rounds hrounds => ⟨rc, (hround rounds hrounds).1, ?_⟩⟩
    exact hiff.trans (hround rounds hrounds).2.symm

/-- A write of `bytesXfer` bytes between lists that have them reports rightly exactly if `totalbytes`
matches at the last of the bytes or nowhere, and the link takes every put. -/
theorem write_reports_iff (hl : Terminated q.localSgl n) (hr : Terminated q.remoteSgl m)
    (hpos : 0 < q.bytesXfer) (hln : q.bytesXfer ≤ bytesBefore q.localSgl n)
    (hrm : q.bytesXfer ≤ bytesBefore q.remoteSgl m) :
    WriteReports q active n m ↔ WriteFits q active := by
  obtain ⟨k, rc, tried, hk, hkind, hend⟩ := mudmRdmaWrite_ends hl hr hpos
  have hne : ¬ -EINVAL = 0 := by decide
  unfold WriteFits
  dsimp only
  cases hkind with
  | done hlive hsum =>
    have hb : q.bytesXfer < 2 ^ 32 := hsum ▸ Nat.mod_lt _ (Nat.two_pow_pos 32)
    rw [WriteEnd.reports_iff hl hr hln hrm (hk.lives.succ hlive) hend, if_pos hb, iff_true_left rfl]
    constructor
    · rintro ⟨hup, heq⟩ t hmatch
      obtain ⟨rfl, -⟩ := (hk.firstMatch_iff hpos hlive (Nat.le_of_eq hsum.symm)).mp hmatch
      refine ⟨heq, fun i hi => hup i ?_⟩
      by_contra hik
      have hmono := passed_mono (l := q.localSgl) (r := q.remoteSgl) (Nat.not_lt.mp hik)
      omega
    · intro hfits
      obtain ⟨heq, hup⟩ :=
        hfits _ ((hk.firstMatch_iff hpos hlive (Nat.le_of_eq hsum.symm)).mpr ⟨rfl, hsum⟩)
      refine ⟨fun i hi => hup i ?_, heq⟩
      have hmono := passed_mono (l := q.localSgl) (r := q.remoteSgl) (Nat.le_of_lt_succ hi)
      have hnext : passed q.localSgl q.remoteSgl k ≤ passed q.localSgl q.remoteSgl (k + 1) :=
        passed_mono (Nat.le_succ k)
      have hshort := hk.total_lt hpos
      omega
  | beyond hlive hsum =>
    have hb : q.bytesXfer < 2 ^ 32 := hsum.trans (Nat.mod_lt _ (Nat.two_pow_pos 32))
    rw [WriteEnd.reports_iff hl hr hln hrm hk.lives hend, if_pos hb]
    refine iff_of_true (iff_of_false hne fun h => ?_) fun t hmatch => ?_
    · have hshort := hk.total_lt hpos
      have heq := h.2
      omega
    · obtain ⟨rfl, heq⟩ := (hk.firstMatch_iff hpos hlive (Nat.le_of_lt hsum)).mp hmatch
      omega
  | ended hdead =>
    rw [WriteEnd.reports_iff hl hr hln hrm hk.lives hend]
    by_cases hb : q.bytesXfer < 2 ^ 32
    · rw [if_pos hb]
      refine iff_of_true (iff_of_false hne fun h => ?_) fun t hmatch => ?_
      · have hshort := hk.total_lt hpos
        have heq := h.2
        omega
      · obtain ⟨i, hi, rfl⟩ := hmatch.lives hpos
        exact absurd hmatch (hk.not_firstMatch hpos (hi.le_of_dead hdead))
    · rw [if_neg hb, iff_false_left hne]
      refine not_congr ⟨?_, ?_⟩
      · rintro ⟨hup, heq⟩
        refine ⟨(exists_passed_iff hpos).mp ⟨k, hk.lives, heq⟩, fun t hcome => ?_, fun i hi => ?_⟩
        · by_contra hlt
          obtain ⟨i, hi, rfl⟩ := (exists_passed_iff (by omega)).mpr hcome
          have hmono := passed_mono (l := q.localSgl) (r := q.remoteSgl) (hi.le_of_dead hdead)
          omega
        · exact hup i (hi.le_of_dead hdead)
      · rintro ⟨hcome, hmax, hup⟩
        obtain ⟨i, hi, heq⟩ := (exists_passed_iff hpos).mpr hcome
        have hmono := passed_mono (l := q.localSgl) (r := q.remoteSgl) (hi.le_of_dead hdead)
        refine ⟨fun j hj => hup j (hk.lives.mono hj), ?_⟩
        have hle := hmax _ ((exists_passed_iff (by omega)).mp ⟨k, hk.lives, rfl⟩)
        omega

/-- One entry of 64 bytes on either side. -/
def oneEach : WriteRequest :=
  { localSgl := sglOf [⟨0x1000, 64⟩]
    remoteSgl := sglOf [⟨0x2000, 64⟩]
    bytesXfer := 64
    template := default
    rdmaObject := 128 }

theorem oneEach_terminated : Terminated oneEach.localSgl 1 ∧ Terminated oneEach.remoteSgl 1 :=
  ⟨terminated_sglOf (by decide), terminated_sglOf (by decide)⟩

theorem write_reports_whole : WriteReports oneEach (fun _ => true) 1 1 := by
  obtain ⟨hl, hr⟩ := oneEach_terminated
  refine (write_reports_iff hl hr (by decide) (by decide) (by decide)).mpr ?_
  unfold WriteFits
  rw [if_pos (by decide)]
  refine fun t hmatch => ⟨?_, fun _ _ => rfl⟩
  -- The lists have no more than 64 bytes.
  obtain ⟨n, hn, hle⟩ := hmatch.comes.1
  have hone : n ≤ 1 := by
    by_contra hlt
    exact hn 1 (by omega) rfl
  have hmono : bytesBefore oneEach.localSgl n ≤ bytesBefore oneEach.localSgl 1 :=
    bytesBefore_mono hone
  have htotal : bytesBefore oneEach.localSgl 1 = 64 := rfl
  have heq : t % 2 ^ 32 = 64 := hmatch.total
  show t = 64
  omega

/-- The only put meets a link that has gone down, and the call returns 0. -/
theorem write_ignores_cancel :
    Terminated oneEach.localSgl 1 ∧ Terminated oneEach.remoteSgl 1 ∧
      (writeOnLink (fun _ => false) oneEach 2).rc = some 0 ∧
      (writeOnLink (fun _ => false) oneEach 2).cancelled = true ∧
      ¬ WriteReports oneEach (fun _ => false) 1 1 := by
  obtain ⟨hl, hr⟩ := oneEach_terminated
  refine ⟨hl, hr, rfl, rfl, ?_⟩
  rintro ⟨rounds, hall⟩
  obtain ⟨rc, hrc, hiff⟩ := hall (rounds + 1) (Nat.le_succ rounds)
  have hdone : (writeOnLink (fun _ => false) oneEach (rounds + 1)).rc = some 0 := rfl
  have hcancelled : (writeOnLink (fun _ => false) oneEach (rounds + 1)).cancelled = true := rfl
  cases Option.some.inj (hdone.symm.trans hrc)
  rw [(hiff.mp rfl).1] at hcancelled
  cases hcancelled

end BgqVrnic
