import BgqVrnic.InjRuns
import BgqVrnic.Refinements
import BgqVrnic.SpinLock

namespace BgqVrnic

open Runs Refinements SpinLock

/-- A fifo with its lock and all the processors that inject into it. Each of them has its own call, and its
own place in what it does while it holds the lock. -/
structure InjCpus (κ : Type) where
  lock : SpinLock κ
  call : κ → Option Injection
  phase : κ → InjPhase
  fifo : InjFifo
  sendCount : Nat → Nat
  injected : List MuDescriptor
  consumed : List (Option MuDescriptor)
  results : List Nat

/-- What a processor does between `lock` and `unlock`. -/
inductive InjMove
  | look | fill | advance
  deriving DecidableEq, Repr

def InjMove.input : InjMove → InjInput
  | .look => .look
  | .fill => .fill
  | .advance => .advance

/-- What happens to the fifo without the lock. -/
inductive MuMove
  | consume
  | check (desc : Nat)
  | deactivate
  deriving DecidableEq, Repr

def MuMove.input : MuMove → InjInput
  | .consume => .consume
  | .check desc => .check desc
  | .deactivate => .deactivate

inductive CpuInput (κ : Type)
  | call (k : κ) (call : Injection)
  | lockGo (k : κ)
  | move (k : κ) (move : InjMove)
  | unlock (k : κ)
  | lose (k : κ)
  | mu (move : MuMove)
  deriving DecidableEq, Repr

namespace InjCpus

variable {κ : Type}

/-- The fifo as it is for a processor in the given place. -/
def view (s : InjCpus κ) (phase : InjPhase) : InjState :=
  ⟨s.fifo, s.sendCount, phase, s.injected, s.consumed, s.results⟩

def put [DecidableEq κ] (s : InjCpus κ) (k : κ) (t : InjState) : InjCpus κ :=
  { s with
    phase := Function.update s.phase k t.phase
    fifo := t.fifo
    sendCount := t.sendCount
    injected := t.injected
    consumed := t.consumed
    results := t.results }

/-- A processor that has got the lock is going to look for a slot. -/
def enter [DecidableEq κ] (s : InjCpus κ) (k : κ) (call : Injection) (lock : SpinLock κ) : InjCpus κ :=
  if lock.pc k = .inside then
    { s with
      lock := lock
      call := Function.update s.call k none
      phase := Function.update s.phase k (.looking call) }
  else { s with lock := lock }

def cpuStep [DecidableEq κ] (n : Nat) (pir : κ → UInt64) (s : InjCpus κ) :
    CpuInput κ → Option (InjCpus κ)
  | .call k call =>
    (s.lock.lockStep pir (.lock k)).map fun lock =>
      { s with lock := lock, call := Function.update s.call k (some call) }
  | .lockGo k =>
    (s.call k).bind fun call => (s.lock.lockStep pir (.go k)).map (s.enter k call)
  | .move k move =>
    if s.lock.pc k = .inside then (injStep n (s.view (s.phase k)) move.input).map (s.put k) else none
  | .unlock k =>
    if s.phase k = .idle then
      (s.lock.lockStep pir (.unlock k)).map fun lock => { s with lock := lock }
    else none
  | .lose k => (s.lock.lockStep pir (.lose k)).map fun lock => { s with lock := lock }
  | .mu move =>
    (injStep n (s.view .idle) move.input).map fun t => { s with fifo := t.fifo, consumed := t.consumed }

/-- `activated` for any number of processors. -/
def ready (n : Nat) (slots : Nat → Option MuDescriptor) (sendCount : Nat → Nat) : InjCpus κ :=
  ⟨unlocked, fun _ => none, fun _ => .idle, activatedFifo n slots, sendCount, [], [], []⟩

/-- No processor gets the lock after 2 ^ 64 - 2 injections. -/
def CpuNumbersLeft (s : InjCpus κ) : CpuInput κ → Prop
  | .lockGo _ => s.injected.length + 2 < 2 ^ 64
  | _ => True

instance decidableCpuNumbersLeft (s : InjCpus κ) : (i : CpuInput κ) → Decidable (CpuNumbersLeft s i)
  | .lockGo _ => inferInstanceAs (Decidable (_ < _))
  | .call _ _ | .move _ _ | .unlock _ | .lose _ | .mu _ => inferInstanceAs (Decidable True)

/-- The state of the fifo with one holder of its lock, who is the processor that is inside, if there is one. -/
structure Shows (s : InjCpus κ) (t : InjState) : Prop where
  view : t = s.view t.phase
  holder : ∀ k, s.lock.pc k = .inside → s.phase k = t.phase
  nobody : (∀ k, s.lock.pc k ≠ .inside) → t.phase = .idle

variable {n : Nat} {pir : κ → UInt64} {s s' : InjCpus κ} {t t' : InjState} {is : List (CpuInput κ)} {k : κ}
  {lock : SpinLock κ}

/-- What the MU, a reader of the count and the end of the link do is the same whoever holds the lock. -/
theorem injStep_mu (move : MuMove) (phase : InjPhase) :
    injStep n (s.view phase) move.input =
      (injStep n (s.view .idle) move.input).map fun t => { t with phase := phase } := by
  cases move with
  | consume =>
    simp only [MuMove.input, injStep, view, Option.map_map]
    rfl
  | check desc => rfl
  | deactivate => rfl

theorem injStep_mu_frame (move : MuMove) (h : injStep n t move.input = some t') :
    t' = { t with fifo := t'.fifo, consumed := t'.consumed } := by
  cases move with
  | consume =>
    obtain ⟨⟨fifo, desc⟩, -, rfl⟩ := Option.map_eq_some_iff.mp h
    rfl
  | check desc =>
    cases Option.some.inj h
    rfl
  | deactivate =>
    cases Option.some.inj h
    rfl

theorem Shows.congr_lock {call : κ → Option Injection} (h : Shows s t)
    (hinside : ∀ j, lock.pc j = .inside ↔ s.lock.pc j = .inside) :
    Shows { s with lock := lock, call := call } t where
  view := h.view
  holder := fun j hj => h.holder j ((hinside j).mp hj)
  nobody := fun hnone => h.nobody fun j hj => hnone j ((hinside j).mpr hj)

/-- The processors, the fifo that they show, and what each of the two keeps. -/
structure CpusInv (n : Nat) (pir : κ → UInt64) (s : InjCpus κ) (t : InjState) : Prop where
  lock : LockInv pir s.lock
  shows : Shows s t
  ring : RingInv n t

theorem cpusInv_ready (hn : minInjFifoSlots ≤ n) (slots : Nat → Option MuDescriptor)
    (sendCount : Nat → Nat) :
    CpusInv n pir (ready n slots sendCount : InjCpus κ) (activated n slots sendCount) where
  lock := lockInv_unlocked
  shows := ⟨rfl, fun _ _ => rfl, fun _ => rfl⟩
  ring := ringInv_activated hn slots sendCount

variable [DecidableEq κ]

theorem shows_put (halone : ∀ j, s.lock.pc j = .inside → j = k)
    (hk : s.lock.pc k = .inside) : Shows (s.put k t') t' where
  view := rfl
  holder := by
    intro j hj
    rw [halone j hj]
    exact Function.update_self ..
  nobody := fun hnone => absurd hk (hnone k)

theorem CpusInv.enter (call : Injection) (h : CpusInv n pir s t) (hl : s.injected.length + 2 < 2 ^ 64)
    (hgo : s.lock.lockGo pir k = some lock) :
    CpusInv n pir (s.enter k call lock) t ∨
      ∃ t', injStep n t (.call call) = some t' ∧ CpusInv n pir (s.enter k call lock) t' := by
  obtain ⟨hout, hother, hzero⟩ := lockGo_outcome h.lock hgo
  have hlock := lockGo_inv h.lock hgo
  by_cases hin : lock.pc k = .inside
  · -- the lock was free, so the ring is at rest and takes the call
    have hnobody : ∀ j, s.lock.pc j ≠ .inside := fun j => h.lock.sound.nobody (hzero hin)
    have hidle := h.shows.nobody hnobody
    have hview := h.shows.view
    rw [hidle] at hview
    have hstep : injStep n t (.call call) = some (s.view (.looking call)) := by
      rw [hview]
      rfl
    right
    refine ⟨_, hstep, ?_⟩
    rw [InjCpus.enter, if_pos hin]
    refine ⟨hlock, ⟨rfl, ?_, fun hnone => absurd hin (hnone k)⟩, ?_⟩
    · intro j hj
      by_cases hjk : j = k
      · rw [hjk]
        exact Function.update_self ..
      · change lock.pc j = .inside at hj
        rw [hother j hjk] at hj
        exact absurd hj (hnobody j)
    · refine injStep_inv (i := .call call) h.ring ?_ hstep
      rw [hview]
      exact hl
  · left
    rw [InjCpus.enter, if_neg hin]
    refine ⟨hlock, h.shows.congr_lock fun j => ?_, h.ring⟩
    by_cases hjk : j = k
    · rw [hjk]
      exact ⟨fun hj => absurd hj hin, fun hj => absurd hj hout⟩
    · rw [hother j hjk]

/-- What any number of processors do with the lock, one holder after the other does. -/
theorem cpus_simulate (n : Nat) (pir : κ → UInt64) :
    Simulates (cpuStep n pir) CpuNumbersLeft (injStep n) NumbersLeft (CpusInv n pir) := by
  intro s t i s' h hi hs
  cases i with
  | call k call =>
    obtain ⟨lock, hlock, rfl⟩ := Option.map_eq_some_iff.mp hs
    have hinv := lockStep_inv (i := .lock k) h.lock trivial hlock
    obtain ⟨hpc, hlock⟩ := Option.ite_none_right_eq_some.mp hlock
    cases Option.some.inj hlock
    left
    refine ⟨hinv, h.shows.congr_lock fun j => inside_setPc ?_ ?_, h.ring⟩
    · rw [hpc]
      intro he
      cases he
    · intro he
      cases he
  | lockGo k =>
    obtain ⟨call, -, hs⟩ := Option.bind_eq_some_iff.mp hs
    obtain ⟨lock, hgo, rfl⟩ := Option.map_eq_some_iff.mp hs
    rcases h.enter call hi hgo with hsame | ⟨t', ht', hinv⟩
    · exact .inl hsame
    · refine .inr ⟨.call call, t', ?_, ht', hinv⟩
      rw [h.shows.view]
      exact hi
  | move k move =>
    obtain ⟨hk, hs⟩ := Option.ite_none_right_eq_some.mp hs
    obtain ⟨t', ht', rfl⟩ := Option.map_eq_some_iff.mp hs
    rw [h.shows.holder k hk, ← h.shows.view] at ht'
    have hok : NumbersLeft t move.input := by cases move <;> trivial
    have halone : ∀ j, s.lock.pc j = .inside → j = k := fun j hj => h.lock.sound.alone j k hj hk
    exact .inr ⟨_, t', hok, ht', h.lock, shows_put halone hk, injStep_inv h.ring hok ht'⟩
  | unlock k =>
    obtain ⟨hphase, hs⟩ := Option.ite_none_right_eq_some.mp hs
    obtain ⟨lock, hlock, rfl⟩ := Option.map_eq_some_iff.mp hs
    have hinv := lockStep_inv (i := .unlock k) h.lock trivial hlock
    obtain ⟨hk, hlock⟩ := Option.ite_none_right_eq_some.mp hlock
    cases Option.some.inj hlock
    left
    refine ⟨hinv, ⟨h.shows.view, ?_, ?_⟩, h.ring⟩
    · intro j hj
      by_cases hjk : j = k
      · rw [hjk] at hj ⊢
        exact h.shows.holder k hk
      · have hj' : s.lock.pc j = .inside := by rwa [← setPc_of_ne hjk]
        exact absurd (h.lock.sound.alone j k hj' hk) hjk
    · intro _
      rw [← h.shows.holder k hk]
      exact hphase
  | lose k =>
    have hlose : lockStep pir s.lock (.lose k) = some { s.lock with cell := s.lock.cell.lose k } := rfl
    simp only [cpuStep, hlose, Option.map_some, Option.some.injEq] at hs
    subst hs
    exact .inl ⟨lockStep_inv (i := .lose k) h.lock trivial hlose, h.shows.congr_lock fun _ => Iff.rfl, h.ring⟩
  | mu move =>
    obtain ⟨u, hu, rfl⟩ := Option.map_eq_some_iff.mp hs
    have ht' : injStep n t move.input = some { u with phase := t.phase } := by
      rw [h.shows.view, injStep_mu, hu]
      rfl
    have hok : NumbersLeft t move.input := by cases move <;> trivial
    have hring := injStep_inv h.ring hok ht'
    refine .inr ⟨_, _, hok, ht', h.lock, ⟨?_, h.shows.holder, h.shows.nobody⟩, hring⟩
    rw [injStep_mu_frame move hu]
    rfl

/-- Any number of processors that inject under the lock, in any order of their steps and of those of the MU,
do what one after the other could have done, so the ring is sound. -/
theorem cpus_refine_ring (hn : minInjFifoSlots ≤ n) (slots : Nat → Option MuDescriptor)
    (sendCount : Nat → Nat) (hm : Meets (cpuStep n pir) CpuNumbersLeft (ready n slots sendCount) is)
    (hr : run (cpuStep n pir) (ready n slots sendCount) is = some s) :
    LockSound pir s.lock ∧
      ∃ js t, run (injStep n) (activated n slots sendCount) js = some t ∧
        Meets (injStep n) NumbersLeft (activated n slots sendCount) js ∧ s.Shows t ∧ RingSound n t := by
  obtain ⟨js, t, hrun, hmeets, hinv⟩ :=
    (cpus_simulate n pir).run (cpusInv_ready hn slots sendCount) hm hr
  exact ⟨hinv.lock.sound, js, t, hrun, hmeets, hinv.shows, hinv.ring.sound⟩

/-- Two processors call, one gets the lock and injects, the other one gets it after that. -/
def twoInject : List (CpuInput Bool) :=
  [.call false (.plain default), .call true (.plain default), .lockGo false, .lockGo true, .lockGo false,
    .lockGo true, .move false .look, .move false .fill, .lockGo true, .move false .advance, .mu .consume,
    .unlock false, .lockGo true, .lockGo true, .lockGo true, .move true .look]

theorem cpus_refine_ring_two :
    ∃ s, run (cpuStep 2 fun k => if k then 5 else 4) (ready 2 (fun _ => none) fun _ => 0) twoInject = some s ∧
      s.lock.pc true = .inside ∧ LockSound (fun k => if k then 5 else 4) s.lock ∧
      ∃ js t, run (injStep 2) (activated 2 (fun _ => none) fun _ => 0) js = some t ∧
        Meets (injStep 2) NumbersLeft (activated 2 (fun _ => none) fun _ => 0) js ∧ s.Shows t ∧
        RingSound 2 t := by
  have hm : Meets (cpuStep 2 fun k => if k then 5 else 4) CpuNumbersLeft
      (ready 2 (fun _ => none) fun _ => 0) twoInject := by
    iterate 16
      rintro _ ⟨⟩
      refine ⟨by trivial, ?_⟩
    trivial
  exact ⟨_, rfl, rfl, cpus_refine_ring (by decide) _ _ hm rfl⟩

end InjCpus

end BgqVrnic
