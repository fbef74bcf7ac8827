import BgqVrnic.RemoteConfined
import BgqVrnic.Runs

namespace BgqVrnic

open Runs

/-- Who takes references to a queue pair: the connection manager, and `bgvrnic_connect` for the endpoint
that it makes, which `mu_connect_cb` or a failing `bgvrnic_connect` gives back. -/
inductive RefHolder
  | iwcm (i : Nat)
  | endpoint (i : Nat)
  deriving DecidableEq, Repr

/-- How far `bgvrnic_destroy_qp` has come, with the steps of its `wait_event`: a waiter that has queued
itself looks at the condition once more before it goes to sleep, and not at all if it has been woken. -/
inductive DestroyStage
  | idle
  | numberFreed
  | looking
  | unqueued
  | queued (woken : Bool)
  | asleep
  | passed
  | freed
  deriving DecidableEq, Repr

inductive RefEvent
  | released (waiting : Bool) (before after : Int) (woke : Bool)
  | freed (outstanding : List RefHolder)
  deriving DecidableEq, Repr

/-- A queue pair with the references to it that are outstanding, those who have looked it up and not taken
a reference yet, and what has happened to it. -/
structure QpRefs where
  references : Int
  inTable : Bool
  found : List RefHolder
  holders : List RefHolder
  stage : DestroyStage
  log : List RefEvent
  deriving DecidableEq, Repr

inductive RefInput
  | getQp (h : RefHolder)
  | addRef (h : RefHolder)
  | remRef (h : RefHolder)
  | destroy
  deriving DecidableEq, Repr

def RefInput.takes : RefInput → Bool
  | .addRef _ => true
  | _ => false

def RefInput.gives : RefInput → Bool
  | .remRef _ => true
  | _ => false

/-- The condition of `bgvrnic_destroy_qp`'s `wait_event` -/
def referencesGone (references : Int) : Bool := references ≤ 1

def DestroyStage.looks : DestroyStage → Bool
  | .looking | .queued _ => true
  | _ => false

/-- `wake_up` -/
def DestroyStage.wake : DestroyStage → DestroyStage
  | .queued _ => .queued true
  | .asleep => .unqueued
  | stage => stage

namespace QpRefs

variable (s : QpRefs)

/-- `bgvrnic_add_ref` -/
def addRef (h : RefHolder) : QpRefs :=
  { s with references := toInt32 (s.references + 1), holders := h :: s.holders }

/-- `bgvrnic_rem_ref` -/
def remRef (h : RefHolder) : QpRefs :=
  let references := toInt32 (s.references - 1)
  let wakes : Bool := references = 0
  { s with
    references := references
    holders := s.holders.erase h
    stage := if wakes then s.stage.wake else s.stage
    log := s.log ++ [.released (s.stage = .asleep) s.references references wakes] }

/-- The next step of `bgvrnic_destroy_qp`; one that sleeps has none. -/
def destroyStep : Option QpRefs :=
  match s.stage with
  | .idle => some { s with stage := .numberFreed, inTable := false }
  | .numberFreed => some { s with stage := .looking, references := toInt32 (s.references - 1) }
  | .looking =>
    some { s with stage := if referencesGone s.references then .passed else .unqueued }
  | .unqueued => some { s with stage := .queued false }
  | .queued woken =>
    some { s with
      stage := if referencesGone s.references then .passed
        else if woken then .unqueued else .asleep }
  | .asleep => none
  | .passed => some { s with stage := .freed, log := s.log ++ [.freed s.holders] }
  | .freed => none

/-- Nobody touches a queue pair once it is freed. -/
def step (i : RefInput) : Option QpRefs :=
  if s.stage = .freed then none
  else
    match i with
    | .getQp h => if s.inTable then some { s with found := h :: s.found } else some s
    | .addRef h =>
      if h ∈ s.found then some ({ s with found := s.found.erase h }.addRef h) else none
    | .remRef h => if h ∈ s.holders then some (s.remRef h) else none
    | .destroy => s.destroyStep

end QpRefs

/-- `bgvrnic_create_qp` -/
def newQpRefs : QpRefs := ⟨1, true, [], [], .idle, []⟩

/-- The queue pair is freed with no reference outstanding, and the release that makes the condition true
for a sleeping destroyer wakes it. -/
def ReferencesKept (s : QpRefs) : Prop :=
  ∀ e ∈ s.log, match e with
    | .freed outstanding => outstanding = []
    | .released waiting before after woke =>
      waiting = true → referencesGone before = false → referencesGone after = true → woke = true

/-- Nobody takes a reference once the destroyer has found the condition true, and the destroyer neither
looks while one reference is outstanding nor sleeps while the last but one is given back. -/
def RefsFit (s : QpRefs) (i : RefInput) : Prop :=
  s.holders.length < 2 ^ 31 ∧ (i = .destroy → s.stage.looks = true → s.holders.length ≠ 1) ∧
    (i.takes = true → s.stage ≠ .passed) ∧
    (i.gives = true → s.stage = .asleep → s.holders.length ≠ 2)

instance (s : QpRefs) (i : RefInput) : Decidable (RefsFit s i) :=
  inferInstanceAs (Decidable (_ ∧ _))

/-- The reference of the queue pair's own that the destroyer gives up. -/
def DestroyStage.own : DestroyStage → Int
  | .idle | .numberFreed => 1
  | _ => 0

structure RefsInv (s : QpRefs) : Prop where
  count : s.references = toInt32 (s.holders.length + s.stage.own)
  passed : s.stage = .passed → s.holders = []
  kept : ReferencesKept s

variable {s s' : QpRefs} {h : RefHolder} {i : RefInput} {is : List RefInput} {n : Nat}

theorem toInt32_small {x : Int} (hlo : -2 ^ 31 ≤ x) (hhi : x < 2 ^ 31) : toInt32 x = x :=
  Int.bmod_eq_of_le (by omega) (by omega)

theorem own_wake (stage : DestroyStage) : stage.wake.own = stage.own := by
  cases stage <;> rfl

theorem wake_ne_passed {stage : DestroyStage} (h : stage ≠ .passed) : stage.wake ≠ .passed := by
  cases stage with
  | passed => exact absurd rfl h
  | idle | numberFreed | looking | unqueued | queued | asleep | freed => nofun

theorem ReferencesKept.append {e : RefEvent} (hk : ReferencesKept s)
    (ht : s'.log = s.log ++ [e]) (he : ReferencesKept { s with log := [e] }) : ReferencesKept s' := by
  intro e' he'
  rw [ht] at he'
  rcases List.mem_append.mp he' with he' | he'
  · exact hk e' he'
  · exact he e' he'

theorem RefsInv.addRef (hinv : RefsInv s) (hstage : s.stage ≠ .passed) : RefsInv (s.addRef h) where
  count := by
    have hc := hinv.count
    show toInt32 (s.references + 1) = toInt32 (((h :: s.holders).length : Nat) + s.stage.own)
    rw [hc, toInt32_add, List.length_cons]
    congr 1
    omega
  passed hp := absurd hp hstage
  kept := hinv.kept

theorem RefsInv.remRef (hinv : RefsInv s) (hm : h ∈ s.holders) (hfit : RefsFit s (.remRef h)) :
    RefsInv (s.remRef h) := by
  obtain ⟨hlt, -, -, htwo⟩ := hfit
  have hlen : (s.holders.erase h).length + 1 = s.holders.length := by
    have := List.length_erase_of_mem hm
    have := List.length_pos_of_mem hm
    omega
  have hcount : toInt32 (s.references - 1) =
      toInt32 ((s.holders.erase h).length + s.stage.own) := by
    rw [hinv.count, Int.sub_eq_add_neg, toInt32_add]
    congr 1
    omega
  refine ⟨?_, ?_, ?_⟩
  · unfold QpRefs.remRef
    dsimp only
    rw [hcount]
    split
    · rw [own_wake]
    · rfl
  · intro hp
    have hne : s.stage ≠ .passed := by
      intro hpassed
      rw [hinv.passed hpassed] at hm
      cases hm
    unfold QpRefs.remRef at hp
    dsimp only at hp
    split at hp
    · exact absurd hp (wake_ne_passed hne)
    · exact absurd hp hne
  · refine hinv.kept.append rfl fun e he => ?_
    obtain rfl := List.mem_singleton.mp he
    intro hwait hbefore hafter
    have hasleep : s.stage = .asleep := of_decide_eq_true hwait
    have hne : s.holders.length ≠ 2 := htwo rfl hasleep
    have hrefs : s.references = s.holders.length := by
      rw [hinv.count, hasleep]
      show toInt32 (s.holders.length + 0) = _
      rw [Int.add_zero]
      exact toInt32_small (by omega) (by omega)
    have hafter' : toInt32 (s.references - 1) ≤ 1 := of_decide_eq_true hafter
    have hbefore' : ¬ s.references ≤ 1 := of_decide_eq_false hbefore
    rw [toInt32_small (by omega) (by omega)] at hafter'
    omega

/-- The destroyer goes past its wait only when the count it looks at is that of no references. -/
theorem RefsInv.gone (hinv : RefsInv s) (hown : s.stage.own = 0) (hlt : s.holders.length < 2 ^ 31)
    (hne : s.holders.length ≠ 1) (hgone : referencesGone s.references = true) : s.holders = [] := by
  have hle : s.references ≤ 1 := of_decide_eq_true hgone
  rw [hinv.count, hown, Int.add_zero, toInt32_small (by omega) (by omega)] at hle
  apply List.eq_nil_of_length_eq_zero
  omega

theorem RefsInv.destroyStep (hinv : RefsInv s) (hfit : RefsFit s .destroy)
    (hs : s.destroyStep = some s') : RefsInv s' := by
  obtain ⟨hlt, hlook, -⟩ := hfit
  have hcount := hinv.count
  unfold QpRefs.destroyStep at hs
  cases hst : s.stage with
  | idle =>
    rw [hst] at hs hcount
    cases Option.some.inj hs
    exact ⟨hcount, nofun, hinv.kept⟩
  | numberFreed =>
    rw [hst] at hs hcount
    cases Option.some.inj hs
    refine ⟨?_, nofun, hinv.kept⟩
    show toInt32 (s.references - 1) = toInt32 (s.holders.length + 0)
    rw [hcount, Int.sub_eq_add_neg, toInt32_add]
    congr 1
    show (s.holders.length : Int) + 1 + -1 = s.holders.length + 0
    omega
  | looking =>
    rw [hst] at hs hcount
    cases Option.some.inj hs
    refine ⟨?_, fun hp => ?_, hinv.kept⟩
    · dsimp only
      split
      · exact hcount
      · exact hcount
    · dsimp only at hp
      split at hp
      next hgone => exact hinv.gone (by rw [hst]; rfl) hlt (hlook rfl (by rw [hst]; rfl)) hgone
      next => cases hp
  | unqueued =>
    rw [hst] at hs hcount
    cases Option.some.inj hs
    exact ⟨hcount, nofun, hinv.kept⟩
  | queued woken =>
    rw [hst] at hs hcount
    cases Option.some.inj hs
    refine ⟨?_, fun hp => ?_, hinv.kept⟩
    · dsimp only
      split
      · exact hcount
      · split
        · exact hcount
        · exact hcount
    · dsimp only at hp
      split at hp
      next hgone => exact hinv.gone (by rw [hst]; rfl) hlt (hlook rfl (by rw [hst]; rfl)) hgone
      next => split at hp <;> cases hp
  | asleep | freed =>
    rw [hst] at hs
    cases hs
  | passed =>
    rw [hst] at hs hcount
    cases Option.some.inj hs
    refine ⟨hcount, nofun, hinv.kept.append rfl fun e he => ?_⟩
    obtain rfl := List.mem_singleton.mp he
    exact hinv.passed hst

theorem RefsInv.step (hinv : RefsInv s) (hfit : RefsFit s i) (hs : s.step i = some s') :
    RefsInv s' := by
  unfold QpRefs.step at hs
  split at hs
  next => cases hs
  next =>
    cases i with
    | getQp h =>
      dsimp only at hs
      split at hs
      · cases Option.some.inj hs
        exact ⟨hinv.count, hinv.passed, hinv.kept⟩
      · cases Option.some.inj hs
        exact hinv
    | addRef h =>
      dsimp only at hs
      split at hs
      next =>
        cases Option.some.inj hs
        have hfound : RefsInv { s with found := s.found.erase h } :=
          ⟨hinv.count, hinv.passed, hinv.kept⟩
        exact hfound.addRef (hfit.2.2.1 rfl)
      next => cases hs
    | remRef h =>
      dsimp only at hs
      split at hs
      next hm =>
        cases Option.some.inj hs
        exact hinv.remRef hm hfit
      next => cases hs
    | destroy => exact hinv.destroyStep hfit hs

theorem refsInv_new : RefsInv newQpRefs where
  count := rfl
  passed := nofun
  kept := by simp [ReferencesKept, newQpRefs]

/-- The wait lets the destroyer go at one reference, and a release wakes it at none; so the references are
kept in the runs that avoid the difference. -/
theorem references_kept (h : Meets QpRefs.step RefsFit newQpRefs is) :
    Always QpRefs.step ReferencesKept newQpRefs is :=
  (always_of_step (fun _ _ _ hinv hi hs => hinv.step hi hs) refsInv_new h).imp fun _ hinv => hinv.kept

/-- Two holders give their references back before the queue pair is destroyed. -/
def releasedFirst : List RefInput :=
  [.getQp (.iwcm 0), .addRef (.iwcm 0), .getQp (.endpoint 0), .addRef (.endpoint 0),
    .remRef (.iwcm 0), .remRef (.endpoint 0), .destroy, .destroy, .destroy, .destroy]

theorem references_kept_releasedFirst : Always QpRefs.step ReferencesKept newQpRefs releasedFirst := by
  apply references_kept
  decide

/-- A queue pair is destroyed while its endpoint waits for a reply. -/
def destroyedConnecting : List RefInput :=
  [.getQp (.endpoint 0), .addRef (.endpoint 0), .destroy, .destroy, .destroy, .destroy]

theorem connecting_qp_freed : ¬ ∀ is, Always QpRefs.step ReferencesKept newQpRefs is := by
  intro h
  have hkept := (h destroyedConnecting).last rfl
  have hnone : [RefHolder.endpoint 0] = [] := hkept (.freed [.endpoint 0]) (List.mem_singleton.mpr rfl)
  cases hnone

end BgqVrnic
