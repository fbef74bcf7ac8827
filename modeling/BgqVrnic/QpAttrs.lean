import BgqVrnic.Completions
import BgqVrnic.Fields

namespace BgqVrnic

open Fields

/-- The values of `enum ib_qp_state` -/
def QpState.code : QpState → Int
  | .reset => 0
  | .init => 1
  | .rtr => 2
  | .rts => 3
  | .sqd => 4
  | .sqe => 5
  | .err => 6

def QpState.ofCode (code : Int) : QpState :=
  if code = 0 then .reset
  else if code = 1 then .init
  else if code = 2 then .rtr
  else if code = 3 then .rts
  else if code = 4 then .sqd
  else if code = 5 then .sqe
  else .err

structure IbQpCap where
  maxSendWr : Nat
  maxRecvWr : Nat
  maxSendSge : Nat
  maxRecvSge : Nat
  maxInlineData : Nat
  deriving DecidableEq, Repr, Inhabited

inductive IbSigType
  | allWr | reqWr
  deriving DecidableEq, Repr, Inhabited

inductive IbQpType
  | smi | gsi | rc | uc | ud | other (code : Nat)
  deriving DecidableEq, Repr, Inhabited

/-- The fields of `struct ib_qp_init_attr` that the driver looks at. -/
structure IbQpInitAttr where
  sendCq : Nat
  recvCq : Nat
  cap : IbQpCap
  sqSigType : IbSigType
  qpType : IbQpType
  createFlags : Nat
  deriving DecidableEq, Repr, Inhabited

/-- The fields of `struct ib_qp_attr` that the driver stores; it never touches the address vectors. -/
structure IbQpAttr where
  qpState : Int
  curQpState : Int
  pathMtu : Nat
  pathMigState : Nat
  qkey : Nat
  rqPsn : Nat
  sqPsn : Nat
  destQpNum : Nat
  qpAccessFlags : Int
  cap : IbQpCap
  pkeyIndex : Nat
  enSqdAsyncNotify : Nat
  sqDraining : Nat
  maxRdAtomic : Nat
  maxDestRdAtomic : Nat
  minRnrTimer : Nat
  portNum : Nat
  timeout : Nat
  retryCnt : Nat
  rnrRetry : Nat
  deriving DecidableEq, Repr, Inhabited

structure IwCmId where
  id : Nat
  localAddr : Nat
  remoteAddr : Nat
  deriving DecidableEq, Repr, Inhabited

/-- `struct bgvrnic_qp`; completion queues are addresses. `nextWqe` is as in `VrnicQp`. -/
structure BgvrnicQp where
  qpNum : Nat
  attrs : IbQpAttr
  initAttrs : IbQpInitAttr
  cmId : Option IwCmId
  muContext : Option Nat
  references : Int
  pd : Nat
  scq : Nat
  rcq : Nat
  sq : List SendWqe
  rq : List RecvWqe
  nextWqe : Nat
  deriving Inhabited

/-- The part of a queue pair that the work queues use. -/
def BgvrnicQp.workQueues (q : BgvrnicQp) (cqs : Nat → VrnicCq) : VrnicQp :=
  { qpNum := q.qpNum
    nextWqe := q.nextWqe
    qpState := QpState.ofCode q.attrs.qpState
    sigAllWr := q.initAttrs.sqSigType = .allWr
    maxRecvSge := q.initAttrs.cap.maxRecvSge
    sq := q.sq
    rq := q.rq
    scq := cqs q.scq
    rcq := cqs q.rcq }

/-- The attributes that a bit of `enum ib_qp_attr_mask` stands for. -/
inductive QpAttr
  | state | curState | enSqdAsyncNotify | accessFlags | pkeyIndex | port | qkey | av | pathMtu
  | timeout | retryCnt | rnrRetry | rqPsn | maxQpRdAtomic | altPath | minRnrTimer | sqPsn
  | maxDestRdAtomic | pathMigState | cap | destQpn
  deriving DecidableEq, Repr

/-- `IB_QP_STATE` is bit 0, and so on. -/
def QpAttr.bit : QpAttr → Nat
  | .state => 0
  | .curState => 1
  | .enSqdAsyncNotify => 2
  | .accessFlags => 3
  | .pkeyIndex => 4
  | .port => 5
  | .qkey => 6
  | .av => 7
  | .pathMtu => 8
  | .timeout => 9
  | .retryCnt => 10
  | .rnrRetry => 11
  | .rqPsn => 12
  | .maxQpRdAtomic => 13
  | .altPath => 14
  | .minRnrTimer => 15
  | .sqPsn => 16
  | .maxDestRdAtomic => 17
  | .pathMigState => 18
  | .cap => 19
  | .destQpn => 20

abbrev QpAttr.Val : QpAttr → Type
  | .state | .curState | .accessFlags => Int
  | .cap => IbQpCap
  | .av | .altPath => Unit
  | _ => Nat

/-- What a record says for an attribute; the address vectors are not looked at. -/
def QpAttr.value : (a : QpAttr) → IbQpAttr → a.Val
  | .state, x => x.qpState
  | .curState, x => x.curQpState
  | .enSqdAsyncNotify, x => x.enSqdAsyncNotify
  | .accessFlags, x => x.qpAccessFlags
  | .pkeyIndex, x => x.pkeyIndex
  | .port, x => x.portNum
  | .qkey, x => x.qkey
  | .av, _ => ()
  | .pathMtu, x => x.pathMtu
  | .timeout, x => x.timeout
  | .retryCnt, x => x.retryCnt
  | .rnrRetry, x => x.rnrRetry
  | .rqPsn, x => x.rqPsn
  | .maxQpRdAtomic, x => x.maxRdAtomic
  | .altPath, _ => ()
  | .minRnrTimer, x => x.minRnrTimer
  | .sqPsn, x => x.sqPsn
  | .maxDestRdAtomic, x => x.maxDestRdAtomic
  | .pathMigState, x => x.pathMigState
  | .cap, x => x.cap
  | .destQpn, x => x.destQpNum

/-- The assignment that the driver makes for an attribute, from `src` to `dst`. -/
def QpAttr.copy : QpAttr → IbQpAttr → IbQpAttr → IbQpAttr
  | .state, src, dst => { dst with qpState := src.qpState }
  | .curState, src, dst => { dst with curQpState := src.curQpState }
  | .enSqdAsyncNotify, src, dst => { dst with enSqdAsyncNotify := src.enSqdAsyncNotify }
  | .accessFlags, src, dst => { dst with qpAccessFlags := src.qpAccessFlags }
  | .pkeyIndex, src, dst => { dst with pkeyIndex := src.pkeyIndex }
  | .port, src, dst => { dst with portNum := src.portNum }
  | .qkey, src, dst => { dst with qkey := src.qkey }
  | .av, _, dst => dst
  | .pathMtu, src, dst => { dst with pathMtu := src.pathMtu }
  | .timeout, src, dst => { dst with timeout := src.timeout }
  | .retryCnt, src, dst => { dst with retryCnt := src.retryCnt }
  | .rnrRetry, src, dst => { dst with rnrRetry := src.rnrRetry }
  | .rqPsn, src, dst => { dst with rqPsn := src.rqPsn }
  | .maxQpRdAtomic, src, dst => { dst with maxRdAtomic := src.maxRdAtomic }
  | .altPath, _, dst => dst
  | .minRnrTimer, src, dst => { dst with minRnrTimer := src.minRnrTimer }
  | .sqPsn, src, dst => { dst with sqPsn := src.sqPsn }
  | .maxDestRdAtomic, src, dst => { dst with maxDestRdAtomic := src.maxDestRdAtomic }
  | .pathMigState, src, dst => { dst with pathMigState := src.pathMigState }
  | .cap, src, dst => { dst with cap := src.cap }
  | .destQpn, src, dst => { dst with destQpNum := src.destQpNum }

/-- `mask & IB_QP_…` -/
def QpAttr.masked (mask : BitVec 32) (a : QpAttr) : Bool := mask.getLsbD a.bit

/-- `mask & ~IB_QP_…` -/
def QpAttr.cleared (a : QpAttr) (mask : BitVec 32) : BitVec 32 := mask &&& ~~~ (1#32 <<< a.bit)

variable {a b : QpAttr} {mask : BitVec 32} {src dst : IbQpAttr} {s : QpState}

@[simp] theorem QpState.ofCode_code : QpState.ofCode s.code = s := by
  cases s <;> rfl

theorem QpAttr.bit_lt (a : QpAttr) : a.bit < 32 := by
  cases a <;> decide

theorem QpAttr.bit_injective : Function.Injective QpAttr.bit := by
  intro a b h
  cases a <;> cases b <;> first | rfl | cases h

theorem QpAttr.masked_cleared (a : QpAttr) (mask : BitVec 32) :
    a.masked (a.cleared mask) = false := by
  have hlt := a.bit_lt
  simp [masked, cleared, hlt]

theorem QpAttr.masked_cleared_of_ne (h : b ≠ a) : b.masked (a.cleared mask) = b.masked mask := by
  have hbit : ¬ b.bit = a.bit := fun he => h (QpAttr.bit_injective he)
  have hlt := b.bit_lt
  simp [masked, cleared, hlt]
  omega

theorem QpAttr.value_copy (a : QpAttr) (src dst : IbQpAttr) :
    a.value (a.copy src dst) = a.value src := by
  cases a <;> rfl

theorem QpAttr.value_copy_of_ne (h : b ≠ a) (src dst : IbQpAttr) :
    b.value (a.copy src dst) = b.value dst := by
  cases a <;> cases b <;> first | rfl | exact absurd rfl h

theorem QpAttr.sqDraining_copy (a : QpAttr) (src dst : IbQpAttr) :
    (a.copy src dst).sqDraining = dst.sqDraining := by
  cases a <;> rfl

def qpAttrView : View QpAttr IbQpAttr QpAttr.Val where
  value := QpAttr.value
  copy := QpAttr.copy
  value_copy := QpAttr.value_copy
  value_copy_of_ne := fun h => QpAttr.value_copy_of_ne h

def qpAttrMask : Mask QpAttr (BitVec 32) where
  has := QpAttr.masked
  clear := QpAttr.cleared
  has_clear := QpAttr.masked_cleared
  has_clear_of_ne := fun h _ => QpAttr.masked_cleared_of_ne h

end BgqVrnic
