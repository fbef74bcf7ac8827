import BgqVrnic.WorkRequests

namespace BgqVrnic

def RecvType.namesRange : RecvType → Bool
  | .rdmaRead | .rdmaWrite => true
  | _ => false

def RecvType.carriesData : RecvType → Bool
  | .pktDataImm | .pktDataRemote => true
  | _ => false

/-- The range that a remote access names, as a scatter list entry. -/
def MuPacket.range (pkt : MuPacket) : IbSge :=
  ⟨pkt.payload.remoteVaddr, pkt.payload.dataLength, pkt.payload.rkey⟩

/-- The range lies in the region of its key, and has few enough pieces there. -/
def Translatable (mrs : RegionTable) (u : IbSge) : Prop :=
  ∃ mr, mrs u.lkey = some mr ∧
    let slice := regionSlice mr.sge (regionOffset mr u.addr) u.length
    slice ≠ [] ∧ slice.length < mudmMaxSge ∧ totalBytes slice = u.length

/-- The translation of the range has its length as the result: of a range that starts inside its region,
wherever it ends, or of one whose length happens to be the error code. -/
def PassesCheck (mrs : RegionTable) (u : IbSge) : Prop :=
  match mrs u.lkey with
  | none => u.length = toU32 (-ENOMEM)
  | some mr =>
    let slice := regionSlice mr.sge (regionOffset mr u.addr) u.length
    slice ≠ [] ∧ (mudmMaxSge ≤ slice.length → u.length = toU32 (-E2BIG))

/-- The fields of a queue pair; the numbers of WQEs are those of the allocator. -/
def MuQp.fields (q : MuQp) : MuQp := { q with qp := { q.qp with nextWqe := 0 } }

/-- A queue pair as calls, packets and reports of the transport have left it. -/
def MuQp.Reached (q : MuQp) : Prop :=
  ∃ q₀ is s, Runs.Attempts WqeLedger.step (fun s i => i.Real s) (WqeLedger.start q₀) is ∧
    Runs.run WqeLedger.step (WqeLedger.start q₀) is = some s ∧ s.q = q

/-- A packet that is not for the network names a queue pair. -/
def NamesNone (qps : Nat → Option MuQp) (pkt : MuPacket) : Prop :=
  pkt.type ≠ .ipImmed ∧ qps pkt.destQpn = none

/-- The handler comes back, and if the packet names no queue pair of the table or a range that cannot be
translated, with an error and all queue pairs as they were. -/
def RecvSafe (qps : Nat → Option MuQp) (netRx : Int) (env : MuRecvEnv) (pkt : MuPacket) : Prop :=
  ∃ qps' rc, MuQp.muRecvCb qps netRx env pkt = some (qps', rc) ∧
    (NamesNone qps pkt ∨ (pkt.type.namesRange = true ∧ ¬ Translatable env.mrs pkt.range) →
      rc < 0 ∧ ∀ n, (qps' n).map MuQp.fields = (qps n).map MuQp.fields)

/-- What is needed besides a queue pair with a context, by the type of the packet. -/
def CaseFits (q : MuQp) (env : MuRecvEnv) (pkt : MuPacket) : Prop :=
  match pkt.type with
  | .pktDataImm | .pktDataRemote =>
    ∀ w, firstUnused q.qp.rq = some w → w.wr.Fits env.mrs env.stack pkt.dataMsg
  | .rdmaRead => env.wqeAlloc = true ∧ (env.rdmaRead = -EINVAL → ¬ env.PutAsserts pkt.payload)
  | .rdmaWrite => ¬ env.PutAsserts pkt.payload ∧ (env.rdmaWrite = 0 ∨ env.rdmaWrite = -ECANCELED)
  | _ => True

/-- A range that is not translatable but passes the check does no harm if the packet has the sequence
number before the expected one. -/
def RangeFits (q : MuQp) (env : MuRecvEnv) (pkt : MuPacket) : Prop :=
  Translatable env.mrs pkt.range ∨
    (PassesCheck env.mrs pkt.range ∧ (pkt.sequenceNumber + 1) % 2 ^ 16 = q.rqPsn)

/-- What a packet and the environment of its handler can be. -/
structure MuRecvEnv.Real (env : MuRecvEnv) (qps : Nat → Option MuQp) (pkt : MuPacket) : Prop where
  physical : Physical env.mrs
  stack : ∀ i, (env.stack i).memlength < 2 ^ 28
  typed : pkt.payload.dataLength < 2 ^ 32
  reads : env.rdmaRead ≤ 0
  answers : pkt.type.carriesData = true → ∀ q, qps pkt.destQpn = some q →
    ∀ w, firstUnused q.qp.rq = some w → env.Answers w pkt.dataMsg

variable {qps : Nat → Option MuQp} {netRx rc : Int} {env : MuRecvEnv} {pkt : MuPacket} {q : MuQp}
variable {mrs : RegionTable} {u : IbSge} {r : RecvOutcome} {psn : Nat}

theorem MuQp.Reached.posted (h : q.Reached) : ∀ w ∈ q.qp.rq, RecvWqe.Posted w := by
  obtain ⟨q₀, is, s, hreal, hrun, rfl⟩ := h
  have hposted : s.Posted := by
    refine Runs.run_keeps (P := WqeLedger.Posted) ?_ ?_ hreal hrun
    · exact fun s i s' hposted hi hs => hposted.step hi hs
    · exact ⟨by simp [WqeLedger.start], by simp [WqeLedger.start]⟩
  exact hposted.recvs

/-- A range gets past the `BUG_ON` for its length exactly if it passes the check. -/
theorem muRecvRange_some_iff (hp : Physical env.mrs) (htyped : pkt.payload.dataLength < 2 ^ 32) :
    (∃ x, muRecvRange env pkt.payload = some x) ↔ PassesCheck env.mrs pkt.range := by
  have hchecked {x : Xlation} (hx : bgvrnicXlateSgl env.mrs [pkt.range] env.stack mudmMaxSge = some x) :
      (∃ x, muRecvRange env pkt.payload = some x) ↔ toU32 x.rc = pkt.payload.dataLength := by
    have hrange : muRecvRange env pkt.payload =
        if toU32 x.rc = pkt.payload.dataLength then some x else none := by
      unfold muRecvRange
      show (bgvrnicXlateSgl env.mrs [pkt.range] env.stack mudmMaxSge).bind _ = _
      rw [hx, Option.bind_some]
    rw [hrange]
    by_cases hsame : toU32 x.rc = pkt.payload.dataLength
    · rw [if_pos hsame]
      exact ⟨fun _ => hsame, fun _ => ⟨x, rfl⟩⟩
    · rw [if_neg hsame]
      exact ⟨fun ⟨_, hy⟩ => (nomatch hy), fun h => absurd h hsame⟩
  unfold PassesCheck
  cases hmr : env.mrs pkt.range.lkey with
  | none =>
    have hx : bgvrnicXlateSgl env.mrs [pkt.range] env.stack mudmMaxSge =
        some ⟨-ENOMEM, env.stack, mudmMaxSge⟩ := by
      unfold bgvrnicXlateSgl xlateFrom
      rw [hmr]
    rw [hchecked hx]
    exact eq_comm
  | some mr =>
    dsimp only
    by_cases hnil : regionSlice mr.sge (regionOffset mr pkt.range.addr) pkt.range.length = []
    · have hnone : muRecvRange env pkt.payload = none := by
        unfold muRecvRange
        show (bgvrnicXlateSgl env.mrs [pkt.range] env.stack mudmMaxSge).bind _ = _
        rw [xlate_outside hmr hnil]
        rfl
      rw [hnone]
      exact ⟨fun ⟨_, hy⟩ => (nomatch hy), fun h => absurd hnil h.1⟩
    · obtain ⟨x, hx, -, hrc⟩ := xlate_one hp.placed hmr hnil (by decide : 0 < mudmMaxSge)
      rw [hchecked hx, hrc]
      by_cases hfull : mudmMaxSge ≤
          (regionSlice mr.sge (regionOffset mr pkt.range.addr) pkt.range.length).length
      · rw [if_pos hfull]
        constructor
        · exact fun hsame => ⟨hnil, fun _ => hsame.symm⟩
        · exact fun h => (h.2 hfull).symm
      · rw [if_neg hfull]
        constructor
        · exact fun _ => ⟨hnil, fun hle => absurd hle hfull⟩
        · exact fun _ => toU32_toInt32 htyped

theorem muRecvRdmaRead_some_iff {c : Option Nat} : (∃ r, muRecvRdmaRead c env pkt.payload = some r) ↔
    c ≠ none ∧ (env.wqeAlloc = true ∧ (env.rdmaRead = -EINVAL → ¬ env.PutAsserts pkt.payload)) ∧
      ∃ x, muRecvRange env pkt.payload = some x := by
  unfold muRecvRdmaRead
  cases muRecvRange env pkt.payload with
  | none => exact ⟨fun ⟨_, h⟩ => (nomatch h), fun ⟨_, _, _, h⟩ => (nomatch h)⟩
  | some x =>
    rw [Option.bind_eq_bind, Option.bind_some]
    cases env.wqeAlloc with
    | false => exact ⟨fun ⟨_, h⟩ => (nomatch h), fun h => (nomatch h.2.1.1)⟩
    | true =>
      rw [if_neg nofun]
      by_cases hdies : c = none ∨ (env.rdmaRead = -EINVAL ∧ env.PutAsserts pkt.payload)
      · rw [if_pos hdies]
        refine ⟨fun ⟨_, h⟩ => (nomatch h), fun ⟨hctx, ⟨_, hput⟩, _⟩ => ?_⟩
        rcases hdies with hnone | ⟨hinval, hasserts⟩
        · exact absurd hnone hctx
        · exact absurd hasserts (hput hinval)
      · rw [if_neg hdies]
        obtain ⟨hctx, hput⟩ := not_or.mp hdies
        refine ⟨fun _ => ⟨hctx, ⟨rfl, not_and.mp hput⟩, x, rfl⟩, fun _ => ?_⟩
        split
        next => exact ⟨_, rfl⟩
        next =>
          split
          next => exact ⟨_, rfl⟩
          next => exact ⟨_, rfl⟩

theorem muRecvRdmaWrite_some_iff {c : Option Nat} :
    (∃ rc, muRecvRdmaWrite c env pkt.payload = some rc) ↔
      c ≠ none ∧ (¬ env.PutAsserts pkt.payload ∧ (env.rdmaWrite = 0 ∨ env.rdmaWrite = -ECANCELED)) ∧
        ∃ x, muRecvRange env pkt.payload = some x := by
  unfold muRecvRdmaWrite
  cases muRecvRange env pkt.payload with
  | none => exact ⟨fun ⟨_, h⟩ => (nomatch h), fun ⟨_, _, _, h⟩ => (nomatch h)⟩
  | some x =>
    rw [Option.bind_eq_bind, Option.bind_some]
    by_cases hdies : c = none ∨ env.PutAsserts pkt.payload
    · rw [if_pos hdies]
      refine ⟨fun ⟨_, h⟩ => (nomatch h), fun ⟨hctx, ⟨hput, _⟩, _⟩ => ?_⟩
      exact absurd hdies (not_or.mpr ⟨hctx, hput⟩)
    · rw [if_neg hdies]
      obtain ⟨hctx, hput⟩ := not_or.mp hdies
      by_cases hdone : env.rdmaWrite = 0 ∨ env.rdmaWrite = -ECANCELED
      · rw [if_pos hdone]
        exact ⟨fun _ => ⟨hctx, ⟨hput, hdone⟩, x, rfl⟩, fun _ => ⟨_, rfl⟩⟩
      · rw [if_neg hdone]
        exact ⟨fun ⟨_, h⟩ => (nomatch h), fun h => absurd h.2.1.2 hdone⟩

/-- The handler comes back from a packet for a queue pair exactly if the context and the case of its type
fit, and the range passes the check. -/
theorem muRecvSwitch_some_iff (hreal : env.Real qps pkt) (hq : qps pkt.destQpn = some q)
    (hposted : ∀ w ∈ q.qp.rq, RecvWqe.Posted w) :
    (∃ r, muRecvSwitch { q with rqPsn := psn } env pkt = some r) ↔
      q.ContextFits pkt ∧ CaseFits q env pkt ∧
        (pkt.type.namesRange = true → PassesCheck env.mrs pkt.range) := by
  have hrange := muRecvRange_some_iff hreal.physical hreal.typed
  unfold CaseFits
  cases ht : pkt.type with
  | pktDataImm | pktDataRemote =>
    have hdata : pkt.type = .pktDataImm ∨ pkt.type = .pktDataRemote := by simp [ht]
    have hans := hreal.answers (by rw [ht]; rfl) q hq
    have hnone := muRecvData_none_iff hposted hreal.physical hreal.stack hans
    have hswitch := @muRecvSwitch_none_iff env pkt q psn hdata
    dsimp only
    rw [← Option.ne_none_iff_exists', Ne, hswitch, Classical.not_imp, hnone, not_not]
    exact ⟨fun h => ⟨h.1, h.2, nofun⟩, fun h => ⟨h.1, h.2.1⟩⟩
  | rdmaRead =>
    have hread := @muRecvRdmaRead_some_iff env pkt q.muContext
    rw [hrange] at hread
    unfold muRecvSwitch MuQp.ContextFits
    rw [ht]
    dsimp only
    rw [show (RecvType.rdmaRead.namesRange = true → PassesCheck env.mrs pkt.range) ↔
      PassesCheck env.mrs pkt.range from ⟨fun h => h rfl, fun h _ => h⟩, ← hread]
    cases muRecvRdmaRead q.muContext env pkt.payload with
    | none => exact ⟨fun ⟨_, h⟩ => (nomatch h), fun ⟨_, h⟩ => (nomatch h)⟩
    | some r => exact ⟨fun _ => ⟨r, rfl⟩, fun _ => ⟨_, rfl⟩⟩
  | rdmaWrite =>
    have hwrite := @muRecvRdmaWrite_some_iff env pkt q.muContext
    rw [hrange] at hwrite
    unfold muRecvSwitch MuQp.ContextFits
    rw [ht]
    dsimp only
    rw [show (RecvType.rdmaWrite.namesRange = true → PassesCheck env.mrs pkt.range) ↔
      PassesCheck env.mrs pkt.range from ⟨fun h => h rfl, fun h _ => h⟩, ← hwrite]
    cases muRecvRdmaWrite q.muContext env pkt.payload with
    | none => exact ⟨fun ⟨_, h⟩ => (nomatch h), fun ⟨_, h⟩ => (nomatch h)⟩
    | some r => exact ⟨fun _ => ⟨r, rfl⟩, fun _ => ⟨_, rfl⟩⟩
  | ipImmed | other =>
    unfold muRecvSwitch MuQp.ContextFits
    rw [ht]
    exact ⟨fun _ => ⟨trivial, trivial, nofun⟩, fun _ => ⟨_, rfl⟩⟩

/-- A remote access changes nothing of the queue pair, and fails or is silent. -/
theorem muRecvSwitch_range (hrange : pkt.type.namesRange = true) (hreads : env.rdmaRead ≤ 0)
    (h : muRecvSwitch q env pkt = some r) : r.q.fields = q.fields ∧ r.rc ≤ 0 := by
  cases muRecvSwitch_outcome h with
  | taken _ _ _ ht _ | refused _ _ ht _ =>
    rcases ht with ht | ht
    all_goals
      rw [ht] at hrange
      cases hrange
  | silent ht =>
    rcases ht with ht | ht
    all_goals
      rw [ht] at hrange
      cases hrange
  | read e rc _ hread =>
    refine ⟨rfl, ?_⟩
    obtain ⟨x, -, hread⟩ := Option.bind_eq_some_iff.mp hread
    obtain ⟨-, hread⟩ := Option.ite_none_left_eq_some.mp hread
    obtain ⟨-, hread⟩ := Option.ite_none_left_eq_some.mp hread
    split at hread
    next =>
      cases Option.some.inj hread
      exact hreads
    next =>
      split at hread
      next =>
        cases Option.some.inj hread
        exact Int.le_refl 0
      next =>
        cases Option.some.inj hread
        exact hreads
  | write rc _ hwrite =>
    refine ⟨rfl, ?_⟩
    obtain ⟨x, -, hwrite⟩ := Option.bind_eq_some_iff.mp hwrite
    obtain ⟨-, hwrite⟩ := Option.ite_none_left_eq_some.mp hwrite
    split at hwrite
    next hdone =>
      cases Option.some.inj hwrite
      show env.rdmaWrite ≤ 0
      rcases hdone with hdone | hdone
      · rw [hdone]
      · rw [hdone]
        decide
    next => cases hwrite

theorem muRecvCb_live (hip : pkt.type ≠ .ipImmed) (hq : qps pkt.destQpn = some q) :
    MuQp.muRecvCb qps netRx env pkt = (muRecvQp q env pkt).map fun r =>
      (Function.update qps pkt.destQpn (some r.q), r.rc) := by
  unfold MuQp.muRecvCb
  rw [if_neg hip, hq, Option.bind_eq_bind, Option.bind_some]
  cases muRecvQp q env pkt with
  | none => rfl
  | some r => rfl

/-- What a packet that is handled safely for its queue pair fits. -/
theorem RecvSafe.fits (h : RecvSafe qps netRx env pkt) (hreal : env.Real qps pkt)
    (hip : pkt.type ≠ .ipImmed) (hq : qps pkt.destQpn = some q)
    (hposted : ∀ w ∈ q.qp.rq, RecvWqe.Posted w) :
    q.ContextFits pkt ∧ CaseFits q env pkt ∧
      (pkt.type.namesRange = true → RangeFits q env pkt) := by
  obtain ⟨qps', rc, h, hbad⟩ := h
  rw [muRecvCb_live hip hq] at h
  obtain ⟨r, hr, h⟩ := Option.map_eq_some_iff.mp h
  obtain ⟨r', hr', hr⟩ := Option.bind_eq_some_iff.mp hr
  cases Option.some.inj hr
  cases h
  obtain ⟨hctx, hcase, hcheck⟩ := (muRecvSwitch_some_iff hreal hq hposted).mp ⟨r', hr'⟩
  refine ⟨hctx, hcase, fun hrange => ?_⟩
  by_cases htrans : Translatable env.mrs pkt.range
  · exact Or.inl htrans
  · obtain ⟨-, hsame⟩ := hbad (Or.inr ⟨hrange, htrans⟩)
    have hfields := hsame pkt.destQpn
    rw [Function.update_self, hq] at hfields
    have hkept := (muRecvSwitch_range hrange hreal.reads hr').1
    have hback : (validatePsn q.rqPsn pkt.sequenceNumber).1 = q.rqPsn :=
      congrArg MuQp.rqPsn (hkept.symm.trans (Option.some.inj hfields))
    exact Or.inr ⟨hcheck hrange, (validatePsn_fst _ _).symm.trans hback⟩

end BgqVrnic
