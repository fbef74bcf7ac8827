import BgqVrnic.VerbsTypes

namespace BgqVrnic

/-- The completion status that `bgvrnic_add_cqe` reports for a WQE status. -/
def wcStatus (status : Int) : Int :=
  if status = 0 then ibWcSuccess else if status < 0 then ibWcGeneralErr else status

def wcVendorErr (status : Int) : Int := if status < 0 then status else 0

/-- `none` is the `BUG` for an opcode that is not in the switch. -/
def sendWcOpcode : WrOpcode → Option WcOpcode
  | .rdmaWrite | .rdmaWriteWithImm => some .rdmaWrite
  | .send | .sendWithImm | .sendWithInv => some .send
  | .rdmaRead | .rdmaReadWithInv => some .rdmaRead
  | .other => none

/-- The CQE that `bgvrnic_add_cqe` makes of a WQE. It looks at the immediate value itself and never
at `imm_data_valid`. -/
def cqeOf {ω : Type} (qpNum : Nat) (wqe : Wqe ω) (wrId : Nat) (opcode : WcOpcode) : IbWc :=
  { wrId := wrId
    status := wcStatus wqe.status
    vendorErr := wcVendorErr wqe.status
    opcode := opcode
    byteLen := wqe.length
    qpNum := qpNum
    immData := if wqe.immData ≠ 0 then some wqe.immData else none }

/-- Append a CQE; adding one disarms the queue. -/
def VrnicCq.push (cq : VrnicCq) (wc : IbWc) (generateEvent : Bool) : VrnicCq :=
  { entries := cq.entries ++ [wc]
    nextComp := false
    events := if generateEvent then cq.events + 1 else cq.events }

/-- `bgvrnic_add_cqe` for a send WQE: the queue afterwards and the return value. -/
def addSendCqe (cq : VrnicCq) (qpNum : Nat) (wqe : SendWqe) (alloc : Bool) :
    Option (VrnicCq × Int) :=
  if alloc then do
    let wc := cqeOf qpNum wqe wqe.wr.wrId (← sendWcOpcode wqe.wr.opcode)
    some (cq.push wc (wc.status ≠ ibWcSuccess || cq.nextComp), 0)
  else some (cq, -ENOMEM)

/-- `bgvrnic_add_cqe` for a receive WQE, which always generates an event. -/
def addRecvCqe (cq : VrnicCq) (qpNum : Nat) (wqe : RecvWqe) (alloc : Bool) : VrnicCq × Int :=
  if alloc then (cq.push (cqeOf qpNum wqe wqe.wr.wrId .recv) true, 0) else (cq, -ENOMEM)

theorem push_entries (cq : VrnicCq) (wc : IbWc) (g : Bool) :
    (cq.push wc g).entries = cq.entries ++ [wc] := rfl

theorem addSendCqe_of_alloc {cq cq' : VrnicCq} {qpNum : Nat} {wqe : SendWqe} {rc : Int}
    (h : addSendCqe cq qpNum wqe true = some (cq', rc)) :
    rc = 0 ∧ ∃ op, sendWcOpcode wqe.wr.opcode = some op ∧
      cq'.entries = cq.entries ++ [cqeOf qpNum wqe wqe.wr.wrId op] := by
  unfold addSendCqe at h
  simp only [if_true] at h
  obtain ⟨op, hop, h⟩ := Option.bind_eq_some_iff.mp h
  cases Option.some.inj h
  exact ⟨rfl, op, hop, rfl⟩

end BgqVrnic
