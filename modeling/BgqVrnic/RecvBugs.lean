import BgqVrnic.SendBugs
import BgqVrnic.SendWaits
import BgqVrnic.WalkTotals
import BgqVrnic.WqeLedger

namespace BgqVrnic

/-- `mudm_rdma_read` can return this value, which is not `-EBUSY`, on a connection that is in use. -/
def ReadAnswer (bytesXfer rdmaObject : Nat) (localSgl remoteSgl : Nat → MudmSgl) (rc : Int) : Prop :=
  rc ≠ -EBUSY ∧ ∃ env r q turns, q.conn.magic = true ∧ q.localSgl = localSgl ∧
    q.remoteSgl = remoteSgl ∧ q.bytesXfer = bytesXfer ∧ q.rdmaObject = rdmaObject ∧
    (mudmRdmaReadCall env r q turns).1 = .returned rc

/-- What the transport returns for a message is what it can return for the transfer started for it. -/
def RecvEnv.Answers (env : RecvEnv) (w : RecvWqe) : DataMsg → Prop
  | .imm _ => True
  | .remote pl => ∀ x, bgvrnicXlateSgl env.mrs w.wr.sgList env.stack mudmMaxSge = some x → 0 ≤ x.rc →
    ReadAnswer (min x.rc.toNat pl.dataLength) pl.rdmaObject x.psge pl.sge env.rdmaRead

/-- The output array of a translation that has written `pieces`. -/
def placed (stack : Nat → MudmSgl) (pieces : List MudmSgl) (i : Nat) : MudmSgl :=
  (pieces[i]?).getD (stack i)

/-- A receive buffer that takes a message without a `BUG`: its keys and addresses are good, it has less
than 58 pieces and 2 GiB, in the 32 bits of their sum, and the data that goes into it meets pieces all the
way; for a remote message, its pieces and those of the sender come to that length together. -/
def RecvWr.Fits (mrs : RegionTable) (stack : Nat → MudmSgl) (wr : RecvWr) (msg : DataMsg) : Prop :=
  ∃ pieces, scatterSlices mrs wr.sgList = some pieces ∧ pieces.length < mudmMaxSge ∧
    wr.capacity % 2 ^ 32 < 2 ^ 31 ∧
    match msg with
    | .imm length => min length (wr.capacity % 2 ^ 32) ≤ totalBytes pieces
    | .remote pl => ComesTo (min (wr.capacity % 2 ^ 32) pl.dataLength) (placed stack pieces) pl.sge

variable {mrs : RegionTable} {us : List IbSge} {x : Xlation} {env : RecvEnv} {w : RecvWqe}
variable {msg : DataMsg} {stack localSgl remoteSgl : Nat → MudmSgl} {bytesXfer rdmaObject t t' : Nat}
variable {rounds n pktd mro : Nat} {rc : Int} {q : ReadRequest} {s : ReadCall} {ienv : InjEnv}
variable {es : List MudmSgl} {walk : Walk} {rq : List RecvWqe} {wqe : RecvWqe}

/-- The loop is on its way from the start of the two lists, or has been left with its byte count; the
call waits for its counter only if that is not the count asked for. -/
def ReadCall.OnWay (q : ReadRequest) (s : ReadCall) : Prop :=
  match s.phase with
  | .looping | .waiting _ => ∀ rounds t,
    walkTotal q.bytesXfer q.localSgl q.remoteSgl rounds s.walk = some t →
    ∃ n, walkTotal q.bytesXfer q.localSgl q.remoteSgl n q.start = some t
  | .counting _ => ∃ n t, walkTotal q.bytesXfer q.localSgl q.remoteSgl n q.start = some t ∧
    t ≠ q.bytesXfer
  | .returned rc => ∃ n t, walkTotal q.bytesXfer q.localSgl q.remoteSgl n q.start = some t ∧
    rc = if t = q.bytesXfer then -EINPROGRESS else -EINVAL

theorem ReadCall.OnWay.finish (hway : ∃ n,
      walkTotal q.bytesXfer q.localSgl q.remoteSgl n q.start = some s.walk.totalbytes) :
    (s.finish ienv q pktd mro).OnWay q := by
  obtain ⟨n, hn⟩ := hway
  unfold ReadCall.finish
  split
  next hdone => exact ⟨n, s.walk.totalbytes, hn, (if_pos hdone).symm⟩
  next hdone =>
    split
    · exact ⟨n, s.walk.totalbytes, hn, (if_neg hdone).symm⟩
    · split
      · exact ⟨n, s.walk.totalbytes, hn, hdone⟩
      · exact ⟨n, s.walk.totalbytes, hn, hdone⟩

theorem ReadCall.OnWay.turn (h : s.OnWay q) : (s.turn ienv q pktd mro).OnWay q := by
  cases hphase : s.phase with
  | looping =>
    rw [ReadCall.OnWay, hphase] at h
    have hway := h
    unfold ReadCall.turn
    rw [hphase]
    dsimp only
    split
    next hlive =>
      split
      next => exact hway
      next =>
        unfold ReadCall.build
        dsimp only
        split
        next hlast =>
          apply ReadCall.OnWay.finish
          apply hway 1
          rw [walkTotal_step, if_pos hlive, if_pos hlast]
        next hlast =>
          unfold ReadCall.OnWay
          dsimp only
          rw [hphase]
          intro rounds t ht
          apply hway (rounds + 1)
          rw [walkTotal_step, if_pos hlive, if_neg hlast]
          exact ht
    next hlive =>
      apply ReadCall.OnWay.finish
      apply hway 1
      rw [walkTotal_step, if_neg hlive]
  | waiting desc =>
    rw [ReadCall.OnWay, hphase] at h
    unfold ReadCall.turn
    rw [hphase]
    dsimp only
    split
    · exact h
    · exact h
  | counting value =>
    rw [ReadCall.OnWay, hphase] at h
    unfold ReadCall.turn
    rw [hphase]
    dsimp only
    split
    · obtain ⟨n, t, ht, hne⟩ := h
      rw [ReadCall.OnWay, counted_phase]
      exact ⟨n, t, ht, (if_neg hne).symm⟩
    · exact h
  | returned rc =>
    have hturn : s.turn ienv q pktd mro = s := by
      unfold ReadCall.turn
      rw [hphase]
    rw [hturn]
    exact h

/-- The value of `mudm_rdma_read` says whether the lists come to the byte count together. -/
theorem readAnswer_rc (h : ReadAnswer bytesXfer rdmaObject localSgl remoteSgl rc) :
    (rc = -EINPROGRESS ↔
        ∃ n, walkTotal bytesXfer localSgl remoteSgl n (Walk.start localSgl remoteSgl) =
          some bytesXfer) ∧
      (rc ≠ -EINPROGRESS → rc = -EINVAL) := by
  obtain ⟨hbusy, env, r, q, turns, hmagic, rfl, rfl, rfl, -, hrc⟩ := h
  have hcall : mudmRdmaReadCall env r q turns = (.returned rc, (mudmRdmaReadCall env r q turns).2) :=
    Prod.ext hrc rfl
  cases mudmRdmaReadCall_outcome hcall with
  | stopped _ hstop hphase _ =>
    cases hphase
    rcases hstop with ⟨hdead, -⟩ | ⟨-, rfl⟩
    · rw [hmagic] at hdead
      cases hdead
    · exact absurd rfl hbusy
  | freed _ _ _ _ hphase _ =>
    cases hphase
    exact absurd rfl hbusy
  | entered pktd packets mro objects s _ _ _ hs hphase _ =>
    have hway : ∀ k, ((ReadCall.turn (env q.conn.injfifoCtls) q pktd mro)^[k]
        (ReadCall.start q packets (objects.set mro fun _ => q.object))).OnWay q := by
      intro k
      induction k with
      | zero => exact fun rounds t ht => ⟨rounds, ht⟩
      | succ k ih =>
        rw [Function.iterate_succ_apply']
        exact ih.turn
    have hend := hway turns
    rw [← hs] at hend
    unfold ReadCall.OnWay at hend
    rw [hphase] at hend
    obtain ⟨k, t, ht, hval⟩ := hend
    rw [hval]
    constructor
    · constructor
      · intro heq
        split at heq
        next hsame => exact ⟨k, hsame ▸ ht⟩
        next => cases heq
      · rintro ⟨k', ht'⟩
        rw [if_pos (walkTotal_unique ht ht')]
    · intro hne
      split at hne
      next => exact absurd rfl hne
      next hsame => rw [if_neg hsame]

theorem copyPieces_none_iff : copyPieces es n = none ↔ totalBytes es < n := by
  induction es generalizing n with
  | nil =>
    cases n with
    | zero => simp [copyPieces, totalBytes]
    | succ n => simp [copyPieces, totalBytes]
  | cons e es ih =>
    have hcons : totalBytes (e :: es) = e.memlength + totalBytes es := by simp [totalBytes]
    rw [hcons]
    cases n with
    | zero => simp [copyPieces]
    | succ n =>
      unfold copyPieces
      dsimp only
      split
      next hle =>
        have hchunk : min (n + 1) e.memlength = e.memlength := by omega
        rw [Option.map_eq_none_iff, hchunk, ih]
        omega
      next hle =>
        constructor
        · intro hnone
          cases hnone
        · omega

theorem Xlation.Holds.placed (h : x.Holds stack es) : x.psge = placed stack es := by
  funext i
  unfold BgqVrnic.placed
  cases he : es[i]? with
  | none => exact PieceArea.Holds.behind h i (List.getElem?_eq_none_iff.mp he)
  | some e => exact PieceArea.Holds.pieces h i e he

theorem placed_short {pieces : List MudmSgl} (hp : Physical mrs)
    (hstack : ∀ i, (stack i).memlength < 2 ^ 28) (h : scatterSlices mrs us = some pieces) (i : Nat) :
    (placed stack pieces i).memlength < 2 ^ 28 := by
  unfold placed
  cases he : pieces[i]? with
  | none => exact hstack i
  | some e => exact (scatterSlices_short hp h (List.mem_of_getElem? he)).2

/-- The copy of an immediate message ends in a `BUG` exactly if the pieces end before it does. -/
theorem bgvrnicRecvImmed_none_iff {pieces : List MudmSgl} {length : Nat}
    (hx : bgvrnicXlateSgl env.mrs w.wr.sgList env.stack mudmMaxSge = some x) (hrc : 0 ≤ x.rc)
    (hpieces : x.pieces = pieces) :
    bgvrnicRecvImmed env w length = none ↔ totalBytes pieces < min length x.rc.toNat := by
  have hbytes : (if x.rc.toNat < length then x.rc.toNat else length) = min length x.rc.toNat := by
    split
    · omega
    · omega
  unfold bgvrnicRecvImmed
  rw [hx, Option.bind_eq_bind, Option.bind_some, if_neg (Int.not_lt.mpr hrc), hpieces,
    ← copyPieces_none_iff]
  simp only [hbytes, Option.bind_eq_bind]
  cases copyPieces pieces (min length x.rc.toNat) with
  | none => exact ⟨fun _ => rfl, fun _ => rfl⟩
  | some copies => exact ⟨nofun, nofun⟩

/-- A transfer for a remote message that is refused ends in a `BUG`. -/
theorem bgvrnicRecvRemote_none_iff {pl : SendRemotePayload}
    (hx : bgvrnicXlateSgl env.mrs w.wr.sgList env.stack mudmMaxSge = some x) (hrc : 0 ≤ x.rc)
    (hother : env.rdmaRead ≠ -EINPROGRESS → env.rdmaRead = -EINVAL) :
    bgvrnicRecvRemote env w pl = none ↔ env.rdmaRead ≠ -EINPROGRESS := by
  unfold bgvrnicRecvRemote
  rw [hx, Option.bind_eq_bind, Option.bind_some, if_neg (Int.not_lt.mpr hrc)]
  by_cases hrun : env.rdmaRead = -EINPROGRESS
  · rw [hrun]
    exact ⟨nofun, fun hne => absurd rfl hne⟩
  · rw [hother hrun]
    exact ⟨fun _ => by decide, fun _ => rfl⟩

/-- So does a message for a buffer that is not translated. -/
theorem receiveInto_of_refused
    (h : ∀ x, bgvrnicXlateSgl env.mrs w.wr.sgList env.stack mudmMaxSge = some x → x.rc < 0) :
    receiveInto env w msg = none := by
  cases hx : bgvrnicXlateSgl env.mrs w.wr.sgList env.stack mudmMaxSge with
  | none =>
    cases msg with
    | imm length => simp [receiveInto, bgvrnicRecvImmed, hx]
    | remote pl => simp [receiveInto, bgvrnicRecvRemote, hx]
  | some x =>
    have hrc := h x hx
    cases msg with
    | imm length => simp [receiveInto, bgvrnicRecvImmed, hx, hrc]
    | remote pl => simp [receiveInto, bgvrnicRecvRemote, hx, hrc]

/-- Receiving into a WQE ends in a `BUG` exactly if the message does not fit it. -/
theorem receiveInto_none_iff (hp : Physical env.mrs) (hstack : ∀ i, (env.stack i).memlength < 2 ^ 28)
    (hans : env.Answers w msg) :
    receiveInto env w msg = none ↔ ¬ w.wr.Fits env.mrs env.stack msg := by
  unfold RecvWr.Fits
  rcases recvBuffer_outcome hp w.wr env.stack with
    ⟨x, pieces, hx, hrc, hholds, htotal, hpieces, hlen, hlt⟩ | ⟨hneg, hbad⟩
  · have hfit : ∀ P : List MudmSgl → Prop, (∃ l, scatterSlices env.mrs w.wr.sgList = some l ∧
        l.length < mudmMaxSge ∧ w.wr.capacity % 2 ^ 32 < 2 ^ 31 ∧ P l) ↔ P pieces := by
      intro P
      constructor
      · rintro ⟨l, hl, -, -, hpl⟩
        rw [hpieces] at hl
        cases hl
        exact hpl
      · exact fun hpl => ⟨pieces, hpieces, hlen, hlt, hpl⟩
    cases msg with
    | imm length =>
      unfold receiveInto
      rw [hfit, Option.map_eq_none_iff, bgvrnicRecvImmed_none_iff hx hrc hholds.pieces_eq, htotal]
      exact Nat.not_le.symm
    | remote pl =>
      obtain ⟨hcomes, hother⟩ := readAnswer_rc (hans x hx hrc)
      have hb : min (w.wr.capacity % 2 ^ 32) pl.dataLength < 2 ^ 31 := by omega
      rw [htotal, hholds.placed, walkTotal_iff (placed_short hp hstack hpieces) hb] at hcomes
      unfold receiveInto
      rw [hfit, Option.map_eq_none_iff, bgvrnicRecvRemote_none_iff hx hrc hother]
      exact not_congr hcomes
  · refine ⟨fun _ => ?_, fun _ => receiveInto_of_refused hneg⟩
    rintro ⟨pieces, hpieces, hlen, hlt, -⟩
    exact hbad pieces hpieces hlen hlt

/-- The WQE that the next message is received into. -/
def firstUnused (rq : List RecvWqe) : Option RecvWqe := rq.find? (·.state = .init)

theorem takeBuffer_none_iff :
    takeBuffer env msg rq = none ↔ ∃ v, firstUnused rq = some v ∧ receiveInto env v msg = none := by
  unfold firstUnused
  induction rq with
  | nil =>
    constructor
    · intro hnone
      cases hnone
    · rintro ⟨v, hv, -⟩
      cases hv
  | cons wqe rq ih =>
    unfold takeBuffer
    by_cases hs : wqe.state = .init
    · rw [if_pos hs, List.find?_cons_of_pos (by simp [hs])]
      cases hrec : receiveInto env wqe msg with
      | none => exact ⟨fun _ => ⟨wqe, rfl, hrec⟩, fun _ => rfl⟩
      | some w =>
        constructor
        · intro hnone
          cases hnone
        · rintro ⟨v, hv, hnone⟩
          cases hv
          rw [hrec] at hnone
          cases hnone
    · rw [if_neg hs, List.find?_cons_of_neg (by simp [hs]), ← ih]
      cases takeBuffer env msg rq with
      | none => exact Iff.rfl
      | some r => exact iff_of_false (Option.some_ne_none _) (Option.some_ne_none _)

theorem takeBuffer_used {rq' : List RecvWqe} {used : Option Nat}
    (h : takeBuffer env msg rq = some (rq', used)) : used = none ↔ firstUnused rq = none := by
  unfold firstUnused
  induction rq generalizing rq' with
  | nil =>
    cases h
    exact iff_of_true rfl rfl
  | cons wqe rq ih =>
    unfold takeBuffer at h
    by_cases hs : wqe.state = .init
    · rw [if_pos hs] at h
      obtain ⟨w, -, h⟩ := Option.bind_eq_some_iff.mp h
      cases Option.some.inj h
      rw [List.find?_cons_of_pos (by simp [hs])]
      exact iff_of_false (Option.some_ne_none _) (Option.some_ne_none _)
    · rw [if_neg hs] at h
      obtain ⟨⟨rest, id⟩, hrest, h⟩ := Option.bind_eq_some_iff.mp h
      cases Option.some.inj h
      rw [List.find?_cons_of_neg (by simp [hs])]
      exact ih hrest

/-- The handler does not come to use the context of the queue pair, or there is one: an immediate message
with an unused WQE needs none. -/
def MuQp.ContextFits (q : MuQp) (pkt : MuPacket) : Prop :=
  match pkt.type with
  | .pktDataImm => firstUnused q.qp.rq = none → q.muContext ≠ none
  | .pktDataRemote | .rdmaRead | .rdmaWrite => q.muContext ≠ none
  | .ipImmed | .other => True

end BgqVrnic
