import BgqVrnic.WqeLedger

namespace BgqVrnic

/-- A queue pair has its number, has lost it in `bgvrnic_destroy_qp`, or its memory is released. -/
inductive QpLife
  | numbered | leaving | freed
  deriving DecidableEq, Repr

structure QpSlot where
  wqes : WqeLedger
  life : QpLife

/-- `freeQpn` is `bgvrnic_destroy_qp` up to its wait, and `kfree` what comes behind the wait. -/
inductive SlotInput
  | wqe (i : LedgerInput)
  | freeQpn
  | kfree

/-- A packet finds its queue pair by the number. -/
def LedgerInput.byNumber : LedgerInput → Bool
  | .packet pkt _ => pkt.type ≠ .ipImmed
  | _ => false

namespace QpSlot

variable (s : QpSlot)

def step : SlotInput → Option QpSlot
  | .wqe i =>
    if s.life = .freed ∨ (i.byNumber = true ∧ s.life ≠ .numbered) then none
    else (s.wqes.step i).map fun wqes => { s with wqes := wqes }
  | .freeQpn => if s.life = .numbered then some { s with life := .leaving } else none
  | .kfree => if s.life = .leaving then some { s with life := .freed } else none

def start (q : MuQp) : QpSlot := ⟨.start q, .numbered⟩

/-- The transport holds no request of a queue pair whose memory is released. -/
def Reported : Prop := s.life = .freed → ∀ type, s.wqes.out type = []

/-- No WQE of the queue pair runs when its memory is released. -/
def Idle : SlotInput → Prop
  | .kfree => (∀ w ∈ s.wqes.q.qp.sq, w.state ≠ .run) ∧ (∀ w ∈ s.wqes.q.qp.rq, w.state ≠ .run) ∧
    s.wqes.rdmaRun = []
  | _ => True

variable {s : QpSlot} {s' : QpSlot} {i : SlotInput}

theorem runningIds_eq_nil_iff {ω : Type} {q : List (Wqe ω)} :
    runningIds q = [] ↔ ∀ w ∈ q, w.state ≠ .run := by
  simp [runningIds, List.filter_eq_nil_iff]

theorem perm_nil_iff {l l' : List Nat} (h : l.Perm l') : l = [] ↔ l' = [] := by
  rw [← List.length_eq_zero_iff, h.length_eq, List.length_eq_zero_iff]

theorem idle_iff_reported (h : s.wqes.Fits) : s.Idle .kfree ↔ ∀ type, s.wqes.out type = [] := by
  have hsend : s.wqes.sendOut = [] ↔ ∀ w ∈ s.wqes.q.qp.sq, w.state ≠ .run := by
    rw [← runningIds_eq_nil_iff]
    exact perm_nil_iff h.sends.outstanding
  have hrecv : s.wqes.recvOut = [] ↔ ∀ w ∈ s.wqes.q.qp.rq, w.state ≠ .run := by
    rw [← runningIds_eq_nil_iff]
    exact perm_nil_iff h.recvs
  unfold Idle
  rw [← hsend, ← hrecv, ← h.rdma]
  constructor
  · rintro ⟨hs, hr, hd⟩ type
    cases type with
    | send => exact hs
    | recv => exact hr
    | rdma => exact hd
  · intro hall
    exact ⟨hall .send, hall .recv, hall .rdma⟩

theorem step_fits (h : s.wqes.Fits) (hs : s.step i = some s') : s'.wqes.Fits := by
  cases i with
  | wqe i =>
    unfold step at hs
    dsimp only at hs
    split at hs
    next => cases hs
    next =>
      obtain ⟨wqes, hw, rfl⟩ := Option.map_eq_some_iff.mp hs
      exact h.step hw
  | freeQpn | kfree =>
    unfold step at hs
    dsimp only at hs
    split at hs
    next =>
      cases Option.some.inj hs
      exact h
    next => cases hs

theorem step_reported (h : s.wqes.Fits) (hs : s.step i = some s') : s'.Reported ↔ s.Idle i := by
  cases i with
  | wqe i =>
    unfold step at hs
    dsimp only at hs
    split at hs
    next => cases hs
    next hlife =>
      obtain ⟨wqes, hw, rfl⟩ := Option.map_eq_some_iff.mp hs
      exact ⟨fun _ => trivial, fun _ hfreed => absurd (Or.inl hfreed) hlife⟩
  | freeQpn =>
    unfold step at hs
    dsimp only at hs
    split at hs
    next =>
      cases Option.some.inj hs
      exact ⟨fun _ => trivial, fun _ => nofun⟩
    next => cases hs
  | kfree =>
    unfold step at hs
    dsimp only at hs
    split at hs
    next =>
      cases Option.some.inj hs
      rw [idle_iff_reported h]
      exact ⟨fun hrep => hrep rfl, fun hall _ => hall⟩
    next => cases hs

end QpSlot

/-- The transport never holds a request of a queue pair that is gone, exactly in the runs in which no
WQE of a queue pair runs when it is destroyed. -/
theorem requests_reported_iff (qs : Nat → MuQp) (is : List (Nat × SlotInput)) :
    Runs.Always (Runs.familyStep QpSlot.step) (fun f => ∀ k, (f k).Reported)
        (fun k => QpSlot.start (qs k)) is ↔
      Runs.Meets (Runs.familyStep QpSlot.step) (fun f i => (f i.1).Idle i.2)
        (fun k => QpSlot.start (qs k)) is := by
  apply @Runs.family_always_iff_meets _ _ _ _ _ _ _ _ _ (fun s => s.wqes.Fits ∧ s.Reported)
  · exact fun s h => h.2
  · intro s i s' h hok hs
    exact ⟨QpSlot.step_fits h.1 hs, (QpSlot.step_reported h.1 hs).mpr hok⟩
  · intro s i s' h hs hrep
    exact (QpSlot.step_reported h.1 hs).mp hrep
  · exact fun k => ⟨WqeLedger.fits_start (qs k), nofun⟩

/-- The transport takes every send. -/
def takingSend : SendEnv := { busyFirst with transport := fun _ => -EINPROGRESS }

/-- A queue pair is destroyed with a send under way. -/
def sendThenDestroy : List (Nat × SlotInput) :=
  [(0, .wqe (.postSend [longSend] takingSend)), (0, .freeQpn), (0, .kfree)]

theorem destroyed_qp_has_request :
    ¬ ∀ (qs : Nat → MuQp) (is : List (Nat × SlotInput)),
      Runs.Always (Runs.familyStep QpSlot.step) (fun f => ∀ k, (f k).Reported)
        (fun k => QpSlot.start (qs k)) is := by
  intro h
  have hrun : Runs.run (Runs.familyStep QpSlot.step) (fun _ => QpSlot.start ⟨pageQp, 0, false, none⟩)
      sendThenDestroy = some _ := rfl
  have hrep := (h (fun _ => ⟨pageQp, 0, false, none⟩) sendThenDestroy).last hrun 0 rfl .send
  cases hrep

end BgqVrnic
