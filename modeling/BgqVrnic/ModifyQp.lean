import BgqVrnic.QpAttrs
import BgqVrnic.SendErrors

namespace BgqVrnic.Verbs

open Fields

inductive IwCmEventType
  | disconnect | close
  deriving DecidableEq, Repr

/-- `struct iw_cm_event` as `bgvrnic_modify_qp` fills it in, without private data. -/
structure IwCmEvent where
  event : IwCmEventType
  status : Int
  localAddr : Nat
  remoteAddr : Nat
  deriving DecidableEq, Repr

/-- What `bgvrnic_modify_qp` does to connection management: it calls the event handler, gives its reference
up and leaves the connection. -/
inductive ModifyEffect
  | event (cmId : Nat) (e : IwCmEvent)
  | remRef (cmId : Nat)
  | mudmDisconnect (muContext : Option Nat)
  deriving DecidableEq, Repr

/-- What a call meets: the pass over the send queue, and the event handler's answers. -/
structure ModifyEnv where
  sends : SendEnv
  eventHandler : IwCmEventType → Int

/-- A call of `bgvrnic_modify_qp` in the middle or at its end: the caller's attributes, the queue pair, the
completion queues, and the bits that the console is told about. -/
structure ModifyCall where
  rc : Int
  given : IbQpAttr
  qp : BgvrnicQp
  cqs : Nat → VrnicCq
  effects : List ModifyEffect
  unhandled : BitVec 32

def cmEvent (cm : IwCmId) (t : IwCmEventType) : IwCmEvent := ⟨t, 0, cm.localAddr, cm.remoteAddr⟩

/-- `sq_draining` in the caller's attributes and in those of the queue pair. -/
def ModifyCall.setDraining (c : ModifyCall) (d : Nat) : ModifyCall :=
  { c with
    given := { c.given with sqDraining := d }
    qp := { c.qp with attrs := { c.qp.attrs with sqDraining := d } } }

/-- The disconnect and the close event, and the end of the connection. -/
def ModifyCall.leave (env : ModifyEnv) (cm : IwCmId) (c : ModifyCall) : ModifyCall :=
  let rc := env.eventHandler .disconnect
  { c with
    rc := if rc = 0 then env.eventHandler .close else rc
    qp := { c.qp with attrs := { c.qp.attrs with qpState := QpState.sqe.code }, cmId := none }
    effects := c.effects ++ [.event cm.id (cmEvent cm .disconnect)] ++
      (if rc = 0 then [.event cm.id (cmEvent cm .close)] else []) ++
      [.remRef cm.id, .mudmDisconnect c.qp.muContext] }

/-- What `bgvrnic_modify_qp` does on the way to `IB_QPS_SQD`; `none` is a `BUG` in the pass. -/
def ModifyCall.drain (env : ModifyEnv) (c : ModifyCall) : Option ModifyCall := do
  let r ← bgvrnicProcessSendWqes (c.qp.workQueues c.cqs) env.sends
  let remainingWqes := toInt32 r.rc
  let c := { c with
    qp := { c.qp with sq := r.sq }
    cqs := Function.update c.cqs c.qp.scq r.scq }
  let c := c.setDraining (if remainingWqes ≤ 0 then 0 else 1)
  match c.qp.cmId with
  | some cm => if c.given.sqDraining = 0 then some (c.leave env cm) else some c
  | none => some c

/-- A state that is none, or that needs a connection which is not there. -/
def stateRefused (qp : BgvrnicQp) (state : Int) : Bool :=
  state < 0 || QpState.err.code < state || (state = QpState.rts.code && qp.muContext.isNone)

def curStateRefused (state : Int) : Bool :=
  state ≠ QpState.rtr.code && state ≠ QpState.rts.code && state ≠ QpState.sqd.code &&
    state ≠ QpState.sqe.code

/-- The attributes that are stored one by one after the state, in the source's order. -/
def storedAttrs : List QpAttr :=
  [.curState, .enSqdAsyncNotify, .qkey, .av, .pathMtu, .timeout, .retryCnt, .rnrRetry, .rqPsn,
    .maxQpRdAtomic, .minRnrTimer, .sqPsn, .maxDestRdAtomic, .destQpn, .pathMigState, .cap,
    .accessFlags, .pkeyIndex, .port]

def ModifyCall.storeState (env : ModifyEnv) (c : ModifyCall) : Option ModifyCall :=
  (if c.given.qpState = QpState.sqd.code then c.drain env else some c).map fun c =>
    { c with qp := { c.qp with attrs := QpAttr.state.copy c.given c.qp.attrs } }

def ModifyCall.storeRest (mask : BitVec 32) (c : ModifyCall) : ModifyCall :=
  let (mask, attrs) := qpAttrView.copyClearing qpAttrMask c.given storedAttrs (mask, c.qp.attrs)
  { c with qp := { c.qp with attrs := attrs }, unhandled := mask }

def bgvrnicModifyQp (env : ModifyEnv) (qp : BgvrnicQp) (cqs : Nat → VrnicCq) (given : IbQpAttr)
    (mask : BitVec 32) : Option ModifyCall := do
  let c : ModifyCall := ⟨0, given, qp, cqs, [], 0⟩
  if QpAttr.state.masked mask && stateRefused qp given.qpState then some { c with rc := -EINVAL }
  else
    let c ← if QpAttr.state.masked mask then c.storeState env else some c
    -- a bit that is not there stays out of the mask
    let mask := QpAttr.state.cleared mask
    if QpAttr.curState.masked mask && curStateRefused given.curQpState then
      some { c with rc := -EINVAL }
    else some (c.storeRest mask)

/-- The attributes that `bgvrnic_query_qp` reports, in its order. -/
def queriedAttrs : List QpAttr :=
  [.state, .curState, .enSqdAsyncNotify, .accessFlags, .pkeyIndex, .port, .qkey, .pathMtu, .timeout,
    .retryCnt, .rnrRetry, .rqPsn, .maxQpRdAtomic, .minRnrTimer, .sqPsn, .maxDestRdAtomic,
    .pathMigState, .cap, .destQpn]

/-- `bgvrnic_query_qp`, with what it writes into the caller's two records. -/
def bgvrnicQueryQp (qp : BgvrnicQp) (out : IbQpAttr) (mask : BitVec 32) :
    Int × IbQpAttr × IbQpInitAttr :=
  (0, qpAttrView.copyMasked (QpAttr.masked mask) qp.attrs queriedAttrs out, qp.initAttrs)

/-- A call without a transition to `IB_QPS_SQD`. -/
def NoDrain (given : IbQpAttr) (mask : BitVec 32) : Prop :=
  QpAttr.state.masked mask = true → given.qpState ≠ QpState.sqd.code

/-- Either the attributes are stored as given and can be read back, or nothing has changed. -/
def AllOrNothing (qp : BgvrnicQp) (given : IbQpAttr) (mask : BitVec 32) (c : ModifyCall) : Prop :=
  (c.rc = 0 ∧
    (∀ out, ∀ a ∈ queriedAttrs, a.masked mask = true →
      a.value (bgvrnicQueryQp c.qp out mask).2.1 = a.value given) ∧
    (∀ a : QpAttr, a.masked mask = false → a.value c.qp.attrs = a.value qp.attrs) ∧
    c.qp.attrs.sqDraining = qp.attrs.sqDraining) ∨
  (c.rc ≠ 0 ∧ c.qp.attrs = qp.attrs)

/-- A new state that is accepted comes with a current state that is not. -/
def HalfRefused (qp : BgvrnicQp) (given : IbQpAttr) (mask : BitVec 32) : Prop :=
  QpAttr.state.masked mask = true ∧ stateRefused qp given.qpState = false ∧
    given.qpState ≠ qp.attrs.qpState ∧ QpAttr.curState.masked mask = true ∧
    curStateRefused given.curQpState = true

variable {env : ModifyEnv} {qp : BgvrnicQp} {cqs : Nat → VrnicCq} {given out : IbQpAttr}
variable {mask : BitVec 32} {c : ModifyCall} {a : QpAttr}

theorem query_reports (ha : a ∈ queriedAttrs) (hm : a.masked mask = true) :
    a.value (bgvrnicQueryQp qp out mask).2.1 = a.value qp.attrs :=
  qpAttrView.value_copyMasked_of_mem ha hm

theorem storeRest_attrs : (c.storeRest mask).qp.attrs =
    qpAttrView.copyMasked (QpAttr.masked mask) c.given storedAttrs c.qp.attrs :=
  qpAttrView.copyClearing_snd (l := storedAttrs) qpAttrMask (by decide)

theorem storeRest_stored (ha : a ∈ storedAttrs) (hm : a.masked mask = true) :
    a.value (c.storeRest mask).qp.attrs = a.value c.given := by
  rw [storeRest_attrs]
  exact qpAttrView.value_copyMasked_of_mem ha hm

theorem storeRest_kept (h : ¬ (a ∈ storedAttrs ∧ a.masked mask = true)) :
    a.value (c.storeRest mask).qp.attrs = a.value c.qp.attrs := by
  rw [storeRest_attrs]
  exact qpAttrView.value_copyMasked_of_not_mem h

theorem storeRest_sqDraining :
    (c.storeRest mask).qp.attrs.sqDraining = c.qp.attrs.sqDraining := by
  rw [storeRest_attrs]
  exact qpAttrView.copyMasked_keeps (f := IbQpAttr.sqDraining) QpAttr.sqDraining_copy

/-- The queue pair once the state has been stored, without a transition to `IB_QPS_SQD`. -/
def withState (qp : BgvrnicQp) (given : IbQpAttr) (mask : BitVec 32) : BgvrnicQp :=
  if QpAttr.state.masked mask then { qp with attrs := QpAttr.state.copy given qp.attrs } else qp

/-- How a call ends that does not drain the send queue. -/
theorem modifyQp_ends (env : ModifyEnv) (qp : BgvrnicQp) (cqs : Nat → VrnicCq) (hn : NoDrain given mask) :
    bgvrnicModifyQp env qp cqs given mask = some (
      if QpAttr.state.masked mask && stateRefused qp given.qpState then
        ⟨-EINVAL, given, qp, cqs, [], 0⟩
      else if QpAttr.curState.masked mask && curStateRefused given.curQpState then
        ⟨-EINVAL, given, withState qp given mask, cqs, [], 0⟩
      else (ModifyCall.mk 0 given (withState qp given mask) cqs [] 0).storeRest
        (QpAttr.state.cleared mask)) := by
  have hcur : QpAttr.curState.masked (QpAttr.state.cleared mask) = QpAttr.curState.masked mask :=
    QpAttr.masked_cleared_of_ne (by decide)
  unfold bgvrnicModifyQp withState
  by_cases hs : QpAttr.state.masked mask = true
  · have hsqd := hn hs
    simp only [hs, Bool.true_and, if_true, hcur, ModifyCall.storeState, if_neg hsqd]
    cases stateRefused qp given.qpState with
    | true => rfl
    | false =>
      cases hc : QpAttr.curState.masked mask && curStateRefused given.curQpState with
      | true => simp
      | false => simp
  · have hs' : QpAttr.state.masked mask = false := by simpa using hs
    simp only [hs', Bool.false_and, Bool.false_eq_true, if_false, hcur]
    cases hc : QpAttr.curState.masked mask && curStateRefused given.curQpState with
    | true => simp
    | false => simp

theorem withState_masked (hs : QpAttr.state.masked mask = true) :
    (withState qp given mask).attrs = QpAttr.state.copy given qp.attrs := by
  simp [withState, hs]

theorem withState_value (ha : ¬ (a = .state ∧ a.masked mask = true)) :
    a.value (withState qp given mask).attrs = a.value qp.attrs := by
  by_cases hs : QpAttr.state.masked mask = true
  · rw [withState_masked hs]
    apply QpAttr.value_copy_of_ne
    rintro rfl
    exact ha ⟨rfl, hs⟩
  · simp [withState, hs]

theorem withState_sqDraining :
    (withState qp given mask).attrs.sqDraining = qp.attrs.sqDraining := by
  unfold withState
  split
  next => exact QpAttr.sqDraining_copy .state given qp.attrs
  next => rfl

/-- Every attribute but the state that can be read back is stored. -/
theorem queriedAttrs_stored (ha : a ∈ queriedAttrs) : a = .state ∨ a ∈ storedAttrs := by
  cases a <;> simp_all [queriedAttrs, storedAttrs]

/-- A call whose values are all accepted. -/
theorem allOrNothing_of_stored (hn : NoDrain given mask)
    (hs : (QpAttr.state.masked mask && stateRefused qp given.qpState) = false)
    (hc : (QpAttr.curState.masked mask && curStateRefused given.curQpState) = false) :
    ∃ c, bgvrnicModifyQp env qp cqs given mask = some c ∧ AllOrNothing qp given mask c := by
  refine ⟨_, modifyQp_ends env qp cqs hn, ?_⟩
  rw [if_neg (by simp [hs]), if_neg (by simp [hc])]
  refine Or.inl ⟨rfl, ?_, ?_, ?_⟩
  · intro out a ha hm
    rw [query_reports ha hm]
    by_cases has : a = .state
    · subst has
      have hkept : ¬ (QpAttr.state ∈ storedAttrs ∧
          QpAttr.state.masked (QpAttr.state.cleared mask) = true) := by
        intro h
        exact absurd h.1 (by decide)
      rw [storeRest_kept hkept, withState_masked hm]
      exact QpAttr.value_copy .state given qp.attrs
    · have hmem := (queriedAttrs_stored ha).resolve_left has
      apply storeRest_stored hmem
      rw [QpAttr.masked_cleared_of_ne has]
      exact hm
  · intro a hm
    have hkept : ¬ (a ∈ storedAttrs ∧ a.masked (QpAttr.state.cleared mask) = true) := by
      intro h
      have hne : a ≠ .state := by
        rintro rfl
        exact absurd h.1 (by decide)
      rw [QpAttr.masked_cleared_of_ne hne, hm] at h
      exact absurd h.2 (by decide)
    rw [storeRest_kept hkept]
    apply withState_value
    intro h
    rw [hm] at h
    exact absurd h.2 (by decide)
  · rw [storeRest_sqDraining]
    exact withState_sqDraining

theorem einval_ne_zero : (-EINVAL : Int) ≠ 0 := by decide

/-- A modification is all or nothing, unless the state is accepted and then the current state is not. -/
theorem modifyQp_allOrNothing_iff (env : ModifyEnv) (qp : BgvrnicQp) (cqs : Nat → VrnicCq)
    (given : IbQpAttr) (mask : BitVec 32) (hn : NoDrain given mask) :
    (∃ c, bgvrnicModifyQp env qp cqs given mask = some c ∧ AllOrNothing qp given mask c) ↔
      ¬ HalfRefused qp given mask := by
  by_cases hs : (QpAttr.state.masked mask && stateRefused qp given.qpState) = true
  · have hnot : ¬ HalfRefused qp given mask := by
      intro h
      rw [h.1, h.2.1] at hs
      exact absurd hs (by decide)
    refine iff_of_true ⟨_, modifyQp_ends env qp cqs hn, ?_⟩ hnot
    rw [if_pos hs]
    exact Or.inr ⟨einval_ne_zero, rfl⟩
  · have hs' := Bool.eq_false_iff.mpr hs
    by_cases hc : (QpAttr.curState.masked mask && curStateRefused given.curQpState) = true
    · have hend := modifyQp_ends env qp cqs hn
      rw [if_neg hs, if_pos hc] at hend
      obtain ⟨hcm, hcr⟩ := Bool.and_eq_true_iff.mp hc
      constructor
      · rintro ⟨c, hcall, hlaw⟩ ⟨hm, -, hne, -⟩
        have he : c = _ := Option.some.inj (hcall.symm.trans hend)
        rcases hlaw with ⟨hrc, -⟩ | ⟨-, hkept⟩
        · rw [he] at hrc
          exact einval_ne_zero hrc
        · rw [he] at hkept
          have hstate := congrArg IbQpAttr.qpState hkept
          dsimp only at hstate
          rw [withState_masked hm] at hstate
          exact hne hstate
      · intro hnot
        refine ⟨_, hend, Or.inr ⟨einval_ne_zero, ?_⟩⟩
        dsimp only
        by_cases hm : QpAttr.state.masked mask = true
        · have hsame : given.qpState = qp.attrs.qpState := by
            by_contra hne
            rw [hm, Bool.true_and] at hs'
            exact hnot ⟨hm, hs', hne, hcm, hcr⟩
          rw [withState_masked hm, QpAttr.copy, hsame]
        · simp [withState, hm]
    · have hc' := Bool.eq_false_iff.mpr hc
      refine iff_of_true (allOrNothing_of_stored hn hs' hc') ?_
      rintro ⟨-, -, -, hcm, hcr⟩
      rw [hcm, hcr] at hc'
      exact absurd hc' (by decide)

/-- A queue pair that has just been created. -/
def freshQp : BgvrnicQp := default

/-- To `IB_QPS_INIT`, from a current state that is given as `IB_QPS_RESET`. -/
def initFromReset : IbQpAttr := { (default : IbQpAttr) with qpState := QpState.init.code }

def initFromSqe : IbQpAttr := { initFromReset with curQpState := QpState.sqe.code }

def quietEnv : ModifyEnv := ⟨bareEnv, fun _ => 0⟩

theorem init_from_reset_half_applied :
    ¬ ∀ (env : ModifyEnv) (qp : BgvrnicQp) (cqs : Nat → VrnicCq) (given : IbQpAttr)
      (mask : BitVec 32), NoDrain given mask →
      ∃ c, bgvrnicModifyQp env qp cqs given mask = some c ∧ AllOrNothing qp given mask c := by
  intro h
  obtain ⟨c, hc, hlaw⟩ := h quietEnv freshQp (fun _ => default) initFromReset 3#32 fun _ => by decide
  cases Option.some.inj hc
  rcases hlaw with ⟨hrc, -⟩ | ⟨-, hkept⟩
  · exact einval_ne_zero hrc
  · exact absurd (congrArg IbQpAttr.qpState hkept) (by decide)

/-- The same call with `IB_QPS_SQE` as the current state goes through. -/
theorem init_from_sqe_applied :
    (∃ c, bgvrnicModifyQp quietEnv freshQp (fun _ => default) initFromSqe 3#32 = some c ∧
      AllOrNothing freshQp initFromSqe 3#32 c) ↔ ¬ HalfRefused freshQp initFromSqe 3#32 :=
  modifyQp_allOrNothing_iff quietEnv freshQp (fun _ => default) initFromSqe 3#32 fun _ => by decide

end BgqVrnic.Verbs
