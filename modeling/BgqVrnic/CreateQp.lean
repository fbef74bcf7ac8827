import BgqVrnic.ConnCalls
import BgqVrnic.QpAttrs
import BgqVrnic.QpNumbers

namespace BgqVrnic.Verbs

/-- A pointer as `ERR_PTR` makes it, or that of a queue pair. -/
inductive QpPtr
  | err (rc : Int)
  | qp (addr : Nat)
  deriving DecidableEq, Repr

/-- What `IS_ERR` accepts. -/
def QpPtr.IsErr (p : QpPtr) : Prop := ∃ rc : Int, p = .err rc ∧ -4095 ≤ rc ∧ rc < 0

/-- A creation request with what it meets: the memory that `kzalloc` has for it, the outcome of the number's
allocation, and whether the response can be copied, if there is somebody to copy it to. -/
structure CreateQpRequest where
  initAttr : IbQpInitAttr
  pd : Nat
  memory : Option Nat
  agains : Nat
  last : IdrOutcome
  udata : Option Bool
  deriving DecidableEq, Repr

/-- `struct bgvrnic_uresp_create_qp` -/
structure UrespCreateQp where
  sqSize : Nat
  rqSize : Nat
  qpId : Nat
  deriving DecidableEq, Repr

/-- The number table with the queue pairs in memory. -/
structure QpTable where
  pool : QpPool
  qps : Nat → Option BgvrnicQp

def QpTable.put (s : QpTable) (addr : Nat) (q : BgvrnicQp) : QpTable :=
  { s with qps := Function.update s.qps addr (some q) }

def QpTable.kfree (s : QpTable) (addr : Nat) : QpTable :=
  { s with qps := Function.update s.qps addr none }

/-- The number table counts a queue pair among those that are there. -/
def QpTable.enlist (s : QpTable) (addr num : Nat) : QpTable :=
  { s with pool := { s.pool with live := (addr, num) :: s.pool.live } }

/-- A queue pair as `bgvrnic_create_qp` fills it in. -/
def initQp (r : CreateQpRequest) (num : Nat) : BgvrnicQp :=
  { (default : BgvrnicQp) with
    qpNum := num
    attrs := { (default : IbQpAttr) with qpState := QpState.reset.code, rqPsn := 0, sqPsn := 0 }
    initAttrs := r.initAttr
    references := 1
    pd := r.pd
    scq := r.initAttr.sendCq
    rcq := r.initAttr.recvCq
    sq := []
    rq := [] }

def urespOf (r : CreateQpRequest) (num : Nat) : UrespCreateQp :=
  ⟨r.initAttr.cap.maxSendWr, r.initAttr.cap.maxRecvWr, num⟩

/-- `bgvrnic_create_qp` with a number for the queue pair, up to `out2`. -/
def createNumbered (r : CreateQpRequest) (addr num : Nat) (s : QpTable) :
    QpPtr × Option UrespCreateQp × QpTable :=
  let s := s.put addr (initQp r num)
  match r.udata with
  | none => (.qp addr, none, s.enlist addr num)
  | some true => (.qp addr, some (urespOf r num), s.enlist addr num)
  | some false => (.err (-EFAULT), none, { s with pool := bgvrnicFreeQpn s.pool num }.kfree addr)

/-- `bgvrnic_create_qp` with memory for the queue pair; `out1` returns the pointer as it has been set. -/
def createAllocated (A : Idr) (r : CreateQpRequest) (addr : Nat) (s : QpTable) :
    QpPtr × Option UrespCreateQp × QpTable :=
  let s := s.put addr default
  let (rc, num, pool) := bgvrnicAllocQpn A addr r.last r.agains s.pool
  let s := { s with pool := pool }
  if rc ≠ 0 then (.qp addr, none, s.kfree addr) else createNumbered r addr num s

/-- `bgvrnic_create_qp`: what it returns, and what it copies to the caller. -/
def bgvrnicCreateQp (A : Idr) (r : CreateQpRequest) (s : QpTable) :
    QpPtr × Option UrespCreateQp × QpTable :=
  if r.initAttr.createFlags ≠ 0 then (.err (-EINVAL), none, s)
  else if r.initAttr.qpType ≠ .rc then (.err (-EINVAL), none, s)
  else
    match r.memory with
    | none => (.err (-ENOMEM), none, s)
    | some addr => createAllocated A r addr s

/-- Something on the way fails. -/
def CreateQpRequest.Fails (r : CreateQpRequest) : Prop :=
  r.initAttr.createFlags ≠ 0 ∨ r.initAttr.qpType ≠ .rc ∨ r.memory = none ∨ r.last ≠ .number ∨
    r.udata = some false

/-- Everything up to the number is there, and then there is no number. -/
def CreateQpRequest.LacksNumber (r : CreateQpRequest) : Prop :=
  r.initAttr.createFlags = 0 ∧ r.initAttr.qpType = .rc ∧ r.memory ≠ none ∧ r.last ≠ .number

/-- A request that fails gives an error and leaves the numbers alone; a pointer that is returned leads to a
queue pair that is there and that its number finds. -/
def Unwound (r : CreateQpRequest) (s : QpTable) (out : QpPtr × Option UrespCreateQp × QpTable) : Prop :=
  (r.Fails → out.1.IsErr ∧ out.2.2.pool.idr = s.pool.idr) ∧
    ∀ addr, out.1 = .qp addr → ∃ q, out.2.2.qps addr = some q ∧
      bgvrnicGetQp out.2.2.pool q.qpNum = some addr

variable {A : Idr} {r : CreateQpRequest} {s : QpTable} {addr num : Nat}

/-- The number table with the number that a queue pair is about to get. -/
def QpTable.numbered (s : QpTable) (A : Idr) (r : CreateQpRequest) (addr : Nat) : QpTable :=
  { (s.put addr default) with
    pool := (bgvrnicAllocQpn A addr .number r.agains s.pool).2.2 }

theorem createAllocated_number (hlast : r.last = .number) :
    createAllocated A r addr s = createNumbered r addr
      (A.newAbove (s.pool.idr.map Prod.fst) (nextId^[r.agains] s.pool.prevId))
      (s.numbered A r addr) := by
  unfold createAllocated QpTable.numbered
  rw [hlast]
  have hpool : (s.put addr default).pool = s.pool := rfl
  simp only [hpool, bgvrnicAllocQpn_number]
  rw [if_neg (by simp)]

theorem createAllocated_fails (A : Idr) (s : QpTable) (addr : Nat) (hlast : r.last ≠ .number) :
    (createAllocated A r addr s).1 = .qp addr ∧
      (createAllocated A r addr s).2.2.qps addr = none := by
  obtain ⟨rc, hrc, he⟩ : ∃ rc ≠ 0, bgvrnicAllocQpn A addr r.last r.agains (s.put addr default).pool =
      (rc, 0, { (s.put addr default).pool with prevId := nextId^[r.agains + 1] s.pool.prevId }) :=
    bgvrnicAllocQpn_fails hlast
  unfold createAllocated
  simp only [he]
  rw [if_pos hrc]
  exact ⟨rfl, Function.update_self ..⟩

theorem isErr_of_small {rc : Int} (hlow : -4095 ≤ rc) (hneg : rc < 0) : (QpPtr.err rc).IsErr :=
  ⟨rc, rfl, hlow, hneg⟩

theorem createNumbered_keeps (addr num : Nat) (s : QpTable) (hu : r.udata ≠ some false) :
    (createNumbered r addr num s).1 = .qp addr ∧
      (createNumbered r addr num s).2.2.qps addr = some (initQp r num) ∧
      (createNumbered r addr num s).2.2.pool =
        { s.pool with live := (addr, num) :: s.pool.live } := by
  unfold createNumbered
  cases h : r.udata with
  | none => exact ⟨rfl, Function.update_self .., rfl⟩
  | some copied =>
    cases copied with
    | true => exact ⟨rfl, Function.update_self .., rfl⟩
    | false => exact absurd h hu

theorem createNumbered_gives_back (hu : r.udata = some false) :
    createNumbered r addr num s = (.err (-EFAULT), none,
      { s.put addr (initQp r num) with pool := bgvrnicFreeQpn s.pool num }.kfree addr) := by
  unfold createNumbered
  rw [hu]
  rfl

theorem numbered_pool (A : Idr) (r : CreateQpRequest) (s : QpTable) (addr : Nat) : (s.numbered A r addr).pool =
    { s.pool with
      prevId := nextId^[r.agains + 1] s.pool.prevId
      idr := (A.newAbove (s.pool.idr.map Prod.fst) (nextId^[r.agains] s.pool.prevId), addr) ::
        s.pool.idr } := by
  simp [QpTable.numbered, bgvrnicAllocQpn_number]

/-- With a number to be had, it is given back or finds the queue pair. -/
theorem createAllocated_unwound (hf : r.initAttr.createFlags = 0) (ht : r.initAttr.qpType = .rc)
    (hm : r.memory = some addr) (hlast : r.last = .number) :
    Unwound r s (createAllocated A r addr s) := by
  rw [createAllocated_number hlast]
  have hfree := A.free (s.pool.idr.map Prod.fst) (nextId^[r.agains] s.pool.prevId)
  have hpool := numbered_pool A r s addr
  generalize A.newAbove (s.pool.idr.map Prod.fst) (nextId^[r.agains] s.pool.prevId) = num at *
  by_cases hu : r.udata = some false
  · rw [createNumbered_gives_back hu]
    refine ⟨fun _ => ⟨isErr_of_small (by decide) (by decide), ?_⟩, fun a ha => by cases ha⟩
    have hback := freeQpn_cons { s.pool with prevId := nextId^[r.agains + 1] s.pool.prevId } addr hfree
    show (bgvrnicFreeQpn (s.numbered A r addr).pool num).idr = s.pool.idr
    rw [hpool, hback]
  · obtain ⟨hptr, hqp, hnums⟩ := createNumbered_keeps addr num (s.numbered A r addr) hu
    constructor
    · rintro (h | h | h | h | h)
      · exact absurd hf h
      · exact absurd ht h
      · rw [hm] at h
        cases h
      · exact absurd hlast h
      · exact absurd h hu
    · intro a ha
      rw [hptr] at ha
      cases ha
      refine ⟨_, hqp, ?_⟩
      rw [hnums, hpool]
      exact List.lookup_cons_self

/-- A creation is unwound as it should be exactly if it does not fail for want of a number. -/
theorem createQp_unwound_iff (A : Idr) (r : CreateQpRequest) (s : QpTable) :
    Unwound r s (bgvrnicCreateQp A r s) ↔ ¬ r.LacksNumber := by
  have hrefused : ∀ rc : Int, -4095 ≤ rc → rc < 0 → Unwound r s (.err rc, none, s) :=
    fun rc hlow hneg => ⟨fun _ => ⟨isErr_of_small hlow hneg, rfl⟩, fun a ha => by cases ha⟩
  unfold bgvrnicCreateQp
  by_cases hf : r.initAttr.createFlags ≠ 0
  · rw [if_pos hf]
    exact iff_of_true (hrefused _ (by decide) (by decide)) fun h => hf h.1
  · have hf0 : r.initAttr.createFlags = 0 := by omega
    rw [if_neg hf]
    by_cases ht : r.initAttr.qpType ≠ .rc
    · rw [if_pos ht]
      exact iff_of_true (hrefused _ (by decide) (by decide)) fun h => ht h.2.1
    · have htrc : r.initAttr.qpType = .rc := by simpa using ht
      rw [if_neg ht]
      cases hm : r.memory with
      | none =>
        exact iff_of_true (hrefused _ (by decide) (by decide)) fun h => h.2.2.1 hm
      | some addr =>
        dsimp only
        by_cases hlast : r.last = .number
        · refine iff_of_true (createAllocated_unwound hf0 htrc hm hlast) fun h => ?_
          exact h.2.2.2 hlast
        · obtain ⟨hptr, hgone⟩ := createAllocated_fails A s addr hlast
          have hmem : r.memory ≠ none := by simp [hm]
          refine iff_of_false (fun h => ?_) (not_not_intro ⟨hf0, htrc, hmem, hlast⟩)
          obtain ⟨q, hq, -⟩ := h.2 addr hptr
          rw [hgone] at hq
          cases hq

/-- For the numbers a creation is a step of their pool. -/
theorem createQp_pool (hf : r.initAttr.createFlags = 0) (ht : r.initAttr.qpType = .rc)
    (hm : r.memory = some addr) (hnew : addr ∉ s.pool.live.map Prod.fst) :
    qpStep A s.pool (.create addr r.agains r.last (r.udata ≠ some false)) =
      some (bgvrnicCreateQp A r s).2.2.pool := by
  have hcall : bgvrnicCreateQp A r s = createAllocated A r addr s := by
    unfold bgvrnicCreateQp
    rw [if_neg (by simpa using hf), if_neg (by simpa using ht), hm]
  rw [hcall]
  unfold qpStep
  dsimp only
  rw [if_neg hnew]
  by_cases hlast : r.last = .number
  · rw [createAllocated_number hlast, hlast, bgvrnicAllocQpn_number]
    rw [if_neg (by simp)]
    by_cases hu : r.udata = some false
    · rw [createNumbered_gives_back hu, if_neg (by simp [hu])]
      simp [QpTable.kfree, numbered_pool]
    · obtain ⟨-, -, hnums⟩ := createNumbered_keeps addr
        (A.newAbove (s.pool.idr.map Prod.fst) (nextId^[r.agains] s.pool.prevId)) (s.numbered A r addr) hu
      rw [hnums, numbered_pool, if_pos (by simp [hu])]
  · obtain ⟨rc, hrc, he⟩ : ∃ rc ≠ 0, bgvrnicAllocQpn A addr r.last r.agains s.pool =
        (rc, 0, { s.pool with prevId := nextId^[r.agains + 1] s.pool.prevId }) :=
      bgvrnicAllocQpn_fails hlast
    unfold createAllocated
    have hpool : (s.put addr default).pool = s.pool := rfl
    simp only [hpool, he]
    rw [if_pos hrc, if_pos hrc]
    rfl

/-- A plain request, and no number left for it. -/
def unnumbered : CreateQpRequest :=
  { initAttr := { (default : IbQpInitAttr) with qpType := .rc }
    pd := 0
    memory := some 0x1000
    agains := 0
    last := .noSpace
    udata := none }

theorem freed_qp_returned :
    ¬ ∀ (A : Idr) (r : CreateQpRequest) (s : QpTable), Unwound r s (bgvrnicCreateQp A r s) := by
  intro h
  have hlaw := h searchingIdr unnumbered ⟨emptyPool, fun _ => none⟩
  obtain ⟨q, hq, -⟩ := hlaw.2 0x1000 rfl
  have hnone : (bgvrnicCreateQp searchingIdr unnumbered ⟨emptyPool, fun _ => none⟩).2.2.qps 0x1000 =
      none := rfl
  rw [hnone] at hq
  cases hq

end BgqVrnic.Verbs
