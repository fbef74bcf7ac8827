import BgqVrnic.RemoteConfined
import BgqVrnic.SendCalls
import BgqVrnic.SendEffects
import BgqVrnic.XlateOutcomes

namespace BgqVrnic

/-- The types that the driver hands to `mudm_send_message_remote`. -/
def MsgType.remote : MsgType → RemoteType
  | .rdmaWrite => .rdmaWrite
  | .rdmaRead => .rdmaRead
  | .pktDataRemote => .pktDataRemote
  | _ => .other

/-- The transport can return this value for the call, on a connection that is in use. -/
def MuCall.Answer : MuCall → Int → Prop
  | .sendPkt _ _ _ payloadLength, rc =>
    ∃ env r conn requestId turns, conn.magic = true ∧
      (mudmSendPkt env r conn requestId payloadLength turns).1 = .returned rc
  | .sendMessageRemote type pl, rc =>
    ∃ env r c conn, (mudmSendMessageRemote env r c conn type.remote
      ⟨pl.requestID, pl.sglNum, pl.dataLength⟩).1 = rc

/-- The value that the transport returns for a WQE is one it can return for the call made for it. -/
def SendEnv.Answers (env : SendEnv) (w : SendWqe) : Prop :=
  ∀ x call, bgvrnicXlateSgl env.mrs w.wr.sgList (env.stack w.id).sge mudmMaxSge = some x →
    sendCall { w with length := toU32 x.rc }
      (sendPayload (env.stack w.id) { w with length := toU32 x.rc } x) = some call →
    call.Answer (env.transport w.id)

/-- A work request that can be sent without a `BUG`: it has an SGE, and those that its translation comes
to start inside their regions. -/
def SendWr.Fits (mrs : RegionTable) (wr : SendWr) : Prop :=
  wr.sgList ≠ [] ∧ StartsInside mrs mudmMaxSge 0 wr.sgList

/-- A WQE as `bgvrnic_post_send` queues it; the length of an SGE has 32 bits. -/
structure SendWqe.Posted (w : SendWqe) : Prop where
  state : w.state ≠ .invalid
  opcode : w.wr.opcode.sendable = true
  typed : ∀ u ∈ w.wr.sgList, u.length < 2 ^ 32

variable {mrs : RegionTable} {us : List IbSge} {limit n : Nat} {a : PieceArea} {base : Nat → MudmSgl}
variable {l : List MudmSgl} {total rc : Int} {x : Xlation} {env : SendEnv} {w : SendWqe}
variable {qp : VrnicQp} {p : SendPass} {q : List SendWqe} {call : MuCall}

theorem xlateFrom_rc (ht : -2 ^ 31 ≤ total) (hx : xlateFrom mrs limit us total a = some x) :
    -2 ^ 31 ≤ x.rc := by
  induction us generalizing total a with
  | nil =>
    cases Option.some.inj hx
    exact ht
  | cons u us ih =>
    unfold xlateFrom at hx
    split at hx
    next =>
      cases Option.some.inj hx
      show -2 ^ 31 ≤ -ENOMEM
      decide
    next =>
      obtain ⟨a', -, hx⟩ := Option.bind_eq_some_iff.mp hx
      split at hx
      next =>
        cases Option.some.inj hx
        show -2 ^ 31 ≤ -E2BIG
        decide
      next => exact ih (toInt32_ge _) hx

/-- The only piece of a short message is as short as the message. -/
theorem xlate_short (hp : Physical mrs) (htyped : ∀ u ∈ us, u.length < 2 ^ 32)
    (hx : bgvrnicXlateSgl mrs us base mudmMaxSge = some x) (hone : x.numPsge = 1)
    (hshort : toU32 x.rc ≤ mudmMaxPayloadSize) : (x.psge 0).memlength ≤ mudmMaxPayloadSize := by
  have hstart : PieceArea.Holds ⟨base, 0⟩ base [] := ⟨rfl, by simp, fun i _ => rfl⟩
  have hlow := xlateFrom_rc (by decide) hx
  have hrc : 0 ≤ x.rc := by
    unfold toU32 mudmMaxPayloadSize at hshort
    omega
  obtain ⟨pieces, hpieces, hlen, hholds⟩ := xlateFrom_holds hp.placed hstart (by decide) hx hrc
  rw [List.nil_append] at hlen hholds
  have hcount : x.numPsge = pieces.length := hholds.count
  obtain ⟨y, hy, -, hyrc⟩ := xlateFrom_fits hp.placed hstart hpieces
    (by rw [List.length_nil, Nat.zero_add]; exact hlen) (show toInt32 0 = 0 from rfl)
  have hxy : y = x := Option.some.inj (hy.symm.trans hx)
  rw [hxy, Int.zero_add] at hyrc
  obtain ⟨e, rfl⟩ := List.length_eq_one_iff.mp (hcount.symm.trans hone)
  cases us with
  | nil =>
    cases Option.some.inj hpieces
  | cons u us =>
    obtain ⟨mr, hmr, hs⟩ := Option.bind_eq_some_iff.mp hpieces
    dsimp only at hs
    split at hs
    next => cases hs
    next hne =>
      obtain ⟨rest, hrest, hs⟩ := Option.bind_eq_some_iff.mp hs
      have happ := Option.some.inj hs
      have hrnil : rest = [] := by
        have hl := congrArg List.length happ
        have hslice := List.length_pos_iff.mpr hne
        rw [List.length_append, List.length_singleton] at hl
        apply List.length_eq_zero_iff.mp
        omega
      rw [hrnil, List.append_nil] at happ
      have husnil : us = [] := scatterSlices_eq_nil (hrnil ▸ hrest)
      have htotal := @totalBytes_regionSlice_le mr.sge (regionOffset mr u.addr) u.length
      rw [happ] at htotal
      have he : x.psge 0 = e := hholds.pieces 0 e rfl
      have hu : toU32 x.rc = u.length := by
        rw [hyrc, husnil]
        simp only [List.map_cons, List.map_nil, List.sum_cons, List.sum_nil, Nat.add_zero]
        exact toU32_toInt32 (htyped u List.mem_cons_self)
      rw [he]
      simp only [totalBytes, List.map_cons, List.map_nil, List.sum_cons, List.sum_nil] at htotal
      omega

theorem sendPktLoop_answer {ienv : InjEnv} {requestId desc turns look : Nat}
    {pool : Pools.Pool PktDescriptor}
    (h : (sendPktLoop ienv requestId desc turns look pool).1 = .returned rc) :
    rc = 0 ∨ rc = -ECANCELED ∨ rc = -EINPROGRESS := by
  induction turns generalizing look with
  | zero => cases h
  | succ turns ih =>
    unfold sendPktLoop at h
    split at h
    next =>
      cases h
      exact Or.inl rfl
    next =>
      split at h
      next =>
        cases h
        exact Or.inr (Or.inl rfl)
      next =>
        split at h
        next =>
          cases h
          exact Or.inr (Or.inr rfl)
        next => exact ih h

/-- What the transport can answer to a call that it does not refuse. -/
def Handled (rc : Int) : Prop :=
  rc = -ECANCELED ∨ rc = 0 ∨ rc = -EINPROGRESS ∨ rc = -EBUSY

theorem MuCall.Answer.sendPkt_handled {id length pa : Nat} {type : MsgType}
    (h : (MuCall.sendPkt id type pa length).Answer rc) (hlen : length ≤ torusMaxPayloadSize) :
    Handled rc := by
  obtain ⟨ienv, r, conn, requestId, turns, hmagic, hrc⟩ := h
  unfold mudmSendPkt at hrc
  rw [if_neg (Nat.not_lt.mpr hlen), if_neg (by simp [hmagic])] at hrc
  unfold Handled
  have hcases := sendPktLoop_answer hrc
  tauto

theorem MuCall.Answer.sendMessageRemote_empty {type : MsgType} {pl : SendRemotePayload}
    (h : (MuCall.sendMessageRemote type pl).Answer rc) (hnum : pl.sglNum = 0) : rc = -EFAULT := by
  obtain ⟨ienv, r, c, conn, hrc⟩ := h
  unfold mudmSendMessageRemote at hrc
  rw [if_pos hnum] at hrc
  exact hrc.symm

theorem MuCall.Answer.sendMessageRemote_handled {type : MsgType} {pl : SendRemotePayload}
    (h : (MuCall.sendMessageRemote type pl).Answer rc) (hpos : 0 < pl.sglNum)
    (hle : pl.sglNum ≤ mudmMaxRemoteSge) (htype : type.remote ≠ .other) : Handled rc := by
  obtain ⟨ienv, r, c, conn, hrc⟩ := h
  unfold mudmSendMessageRemote at hrc
  rw [if_neg (Nat.ne_of_gt hpos), if_neg (Nat.not_lt.mpr hle)] at hrc
  dsimp only at hrc
  unfold Handled
  split at hrc
  next => exact Or.inl hrc.symm
  next =>
    split at hrc
    next => exact Or.inr (Or.inr (Or.inr hrc.symm))
    next =>
      split at hrc
      next => exact Or.inr (Or.inr (Or.inr hrc.symm))
      next => exact Or.inr (Or.inr (Or.inl hrc.symm))

/-- The remote call made for a WQE, whose list it takes over. -/
theorem sendCall_remote {pl : SendRemotePayload} {type : MsgType} {pl' : SendRemotePayload}
    (h : sendCall w pl = some (.sendMessageRemote type pl')) :
    pl'.sglNum = pl.sglNum ∧ type.remote ≠ .other := by
  unfold sendCall at h
  split at h
  next =>
    split at h
    next => cases h
    next =>
      cases h
      exact ⟨rfl, nofun⟩
  next =>
    cases h
    exact ⟨rfl, nofun⟩
  next =>
    cases h
    exact ⟨rfl, nofun⟩
  next =>
    cases h
    exact ⟨rfl, nofun⟩
  next =>
    cases h
    exact ⟨rfl, nofun⟩
  next => cases h

theorem sendCall_pkt {pl : SendRemotePayload} {id pa length : Nat} {type : MsgType}
    (h : sendCall w pl = some (.sendPkt id type pa length)) :
    pl.sglNum = 1 ∧ pl.dataLength ≤ mudmMaxPayloadSize ∧ length = (pl.sge 0).memlength % 2 ^ 16 := by
  unfold sendCall at h
  split at h
  next =>
    split at h
    next hshort =>
      cases h
      exact ⟨hshort.1, hshort.2, rfl⟩
    next => cases h
  all_goals cases h

/-- A completion is appended for every opcode that `bgvrnic_post_send` lets through. -/
theorem retireSend_some (ho : w.wr.opcode.sendable = true) :
    ∃ p', retireSend qp env w p = some p' := by
  unfold retireSend
  split
  next =>
    have hop : ∃ op, sendWcOpcode w.wr.opcode = some op := by
      cases hc : w.wr.opcode with
      | send | sendWithImm | rdmaRead | rdmaWrite | rdmaWriteWithImm => exact ⟨_, rfl⟩
      | sendWithInv | rdmaReadWithInv => exact ⟨_, rfl⟩
      | other => simp [hc, WrOpcode.sendable] at ho
    obtain ⟨op, hop⟩ := hop
    unfold addSendCqe
    cases env.cqeAlloc w.id with
    | true =>
      rw [hop]
      exact ⟨_, rfl⟩
    | false => exact ⟨_, rfl⟩
  next => exact ⟨_, rfl⟩

theorem settleSend_none_iff (ho : w.wr.opcode.sendable = true) :
    settleSend qp env w p = none ↔ ¬ Handled w.status := by
  unfold settleSend Handled
  split
  next h =>
    have ho' : ({ w with status := ibWcRemAbortErr, state := .done } : SendWqe).wr.opcode.sendable =
        true := ho
    obtain ⟨p', hp⟩ := retireSend_some (p := p) ho'
    rw [hp]
    exact ⟨nofun, fun hn => absurd (Or.inl h) hn⟩
  next h =>
    split
    next h0 =>
      have ho' : ({ w with state := .done } : SendWqe).wr.opcode.sendable = true := ho
      obtain ⟨p', hp⟩ := retireSend_some (p := p) ho'
      rw [hp]
      exact ⟨nofun, fun hn => absurd (Or.inr (Or.inl h0)) hn⟩
    next h0 =>
      split
      next h1 => exact ⟨nofun, fun hn => absurd (Or.inr (Or.inr (Or.inl h1))) hn⟩
      next h1 =>
        split
        next h2 => exact ⟨nofun, fun hn => absurd (Or.inr (Or.inr (Or.inr h2))) hn⟩
        next h2 =>
          refine ⟨fun _ hn => ?_, fun _ => rfl⟩
          tauto

/-- The transport refuses the call made for a WQE exactly if the WQE has no pieces. -/
theorem MuCall.Answer.handled_iff {pl : SendRemotePayload} (hp : Physical mrs) (hw : w.Posted)
    (hx : bgvrnicXlateSgl mrs w.wr.sgList base mudmMaxSge = some x)
    (hcall : sendCall { w with length := toU32 x.rc } pl = some call) (hsge : pl.sge = x.psge)
    (hnum : pl.sglNum = x.numPsge) (hlength : pl.dataLength = toU32 x.rc) (hans : call.Answer rc) :
    Handled rc ↔ w.wr.sgList ≠ [] := by
  obtain ⟨hle, hpos, hzero⟩ := xlate_count hp.placed hx
  constructor
  · intro hhandled hnil
    have hnone := hzero hnil
    cases call with
    | sendPkt id type pa length =>
      have hone := (sendCall_pkt hcall).1
      omega
    | sendMessageRemote type pl' =>
      have hsgl := (sendCall_remote hcall).1
      rw [hans.sendMessageRemote_empty (by omega)] at hhandled
      exact absurd hhandled (by unfold Handled; decide)
  · intro hne
    cases call with
    | sendPkt id type pa length =>
      obtain ⟨hone, hshort, hlen⟩ := sendCall_pkt hcall
      rw [hlength] at hshort
      have hpiece := xlate_short hp hw.typed hx (hnum.symm.trans hone) hshort
      apply hans.sendPkt_handled
      rw [hlen, hsge]
      exact (Nat.mod_le _ _).trans hpiece
    | sendMessageRemote type pl' =>
      obtain ⟨hsgl, htype⟩ := sendCall_remote hcall
      have hsome := hpos hne
      exact hans.sendMessageRemote_handled (by omega) (by rw [hsgl, hnum]; exact hle) htype

/-- Sending a WQE ends in a `BUG` exactly if its work request does not fit. -/
theorem sendTurn_none_iff (hp : Physical env.mrs) (hw : w.Posted) (hans : env.Answers w) :
    ((bgvrnicXlateSgl env.mrs w.wr.sgList (env.stack w.id).sge mudmMaxSge).bind
        fun x => handSend qp env w x p) = none ↔ ¬ w.wr.Fits env.mrs := by
  unfold SendWr.Fits
  cases hx : bgvrnicXlateSgl env.mrs w.wr.sgList (env.stack w.id).sge mudmMaxSge with
  | none =>
    have hout := (xlate_none_iff hp.placed).mp hx
    exact ⟨fun _ hfit => hout hfit.2, fun _ => rfl⟩
  | some x =>
    have hin : StartsInside env.mrs mudmMaxSge 0 w.wr.sgList := by
      by_contra hout
      rw [(xlate_none_iff hp.placed).mpr hout] at hx
      cases hx
    have ho' : ({ w with length := toU32 x.rc } : SendWqe).wr.opcode.sendable = true := hw.opcode
    obtain ⟨call, hcall⟩ := sendCall_exists ho'
      (sendPayload (env.stack w.id) { w with length := toU32 x.rc } x)
    have hturn : handSend qp env w x p = none ↔ ¬ Handled (env.transport w.id) := by
      unfold handSend
      simp only [hcall]
      exact settleSend_none_iff hw.opcode
    have hhandled := (hans x call hx hcall).handled_iff hp hw hx hcall rfl rfl rfl
    rw [Option.bind_some, hturn, hhandled]
    exact ⟨fun h hfit => h hfit.1, fun h hne => h ⟨hne, hin⟩⟩

/-- The WQEs that a pass comes to. -/
def reached (q : List SendWqe) : List SendWqe := q.takeWhile fun w => w.state ≠ .run

/-- A pass over the send queue ends in a `BUG` exactly if it comes to a WQE that is to be sent and whose
work request does not fit. -/
theorem processSendFrom_none_iff (hp : Physical env.mrs) (hq : ∀ w ∈ q, w.Posted)
    (hans : ∀ w ∈ q, env.Answers w) :
    processSendFrom qp env q p = none ↔
      ¬ ∀ w ∈ reached q, w.unsent = true → w.wr.Fits env.mrs := by
  induction q generalizing p with
  | nil => simp [processSendFrom, reached]
  | cons w q ih =>
    have hrest (p' : SendPass) : processSendFrom qp env q p' = none ↔
        ¬ ∀ w ∈ reached q, w.unsent = true → w.wr.Fits env.mrs :=
      ih (fun v hv => hq v (List.mem_cons_of_mem _ hv)) fun v hv => hans v (List.mem_cons_of_mem _ hv)
    have hw := hq w List.mem_cons_self
    cases hs : w.state with
    | init | wait =>
      have hreached : reached (w :: q) = w :: reached q := by simp [reached, hs]
      have hu : w.unsent = true := Wqe.unsent_iff.mpr (by simp [hs])
      have hturn := @sendTurn_none_iff env w qp p hp hw (hans w List.mem_cons_self)
      unfold processSendFrom
      rw [hs, hreached]
      dsimp only
      cases hx : bgvrnicXlateSgl env.mrs w.wr.sgList (env.stack w.id).sge mudmMaxSge with
      | none =>
        rw [hx] at hturn
        have hunfit := hturn.mp rfl
        exact ⟨fun _ hall => hunfit (hall w List.mem_cons_self hu), fun _ => rfl⟩
      | some x =>
        rw [hx, Option.bind_some] at hturn
        rw [Option.bind_eq_bind, Option.bind_some, if_neg (unsigned_never_negative _)]
        cases hh : handSend qp env w x p with
        | none =>
          have hunfit := hturn.mp hh
          exact ⟨fun _ hall => hunfit (hall w List.mem_cons_self hu), fun _ => rfl⟩
        | some p' =>
          rw [hh] at hturn
          have hfit : w.wr.Fits env.mrs := by
            by_contra hunfit
            cases hturn.mpr hunfit
          rw [Option.bind_eq_bind, Option.bind_some, hrest p']
          simp [hfit]
    | run =>
      have hreached : reached (w :: q) = [] := by simp [reached, hs]
      unfold processSendFrom
      rw [hs, hreached]
      simp
    | done =>
      have hreached : reached (w :: q) = w :: reached q := by simp [reached, hs]
      have hnot : ¬ w.unsent = true := by simp [Wqe.unsent, hs]
      obtain ⟨p', hp'⟩ := retireSend_some (p := p) hw.opcode
      unfold processSendFrom
      rw [hs, hreached]
      dsimp only
      rw [hp', Option.bind_eq_bind, Option.bind_some, hrest p']
      simp [hnot]
    | invalid => exact absurd hs hw.state

end BgqVrnic
