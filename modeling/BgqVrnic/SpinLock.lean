import BgqVrnic.Reservations
import BgqVrnic.Runs

namespace BgqVrnic

open Runs Reservations

/-- `ProcessorID`, from the register with the thread index -/
def processorId (pir : UInt64) : UInt64 := pir &&& 0x3FF

/-- `my_unique_index`, as `comp_and_swap` takes it -/
def myUniqueIndex (pir : UInt64) : UInt32 := (processorId pir + 1).toUInt32

/-- Where a processor is: `comp_and_swap` is going to load the word, or to store its own index there after it has
loaded the free value, `lock` reads the word until it is zero, or the lock is held. -/
inductive LockPc
  | outside
  | reserving (freeValue : UInt32)
  | storing (freeValue : UInt32)
  | spinning (freeValue : UInt32)
  | inside
  deriving DecidableEq, Repr

/-- `Lock_Atomic_t` and the processors that use it. -/
structure SpinLock (κ : Type) where
  cell : Cell κ UInt32
  pc : κ → LockPc

/-- A processor calls `lock`, takes its next step there, calls `unlock`, loses its reservation, or clears the lock
word as `mudm_resetIOlink` does. -/
inductive LockInput (κ : Type)
  | lock (k : κ)
  | go (k : κ)
  | unlock (k : κ)
  | lose (k : κ)
  | reset (k : κ)
  deriving DecidableEq, Repr

/-- What `comp_and_swap` does with the value that it has loaded. -/
def afterLoad (freeValue tmpVal : UInt32) : LockPc :=
  if freeValue ≠ tmpVal then .spinning tmpVal else .storing freeValue

namespace SpinLock

variable {κ : Type} [DecidableEq κ]

def setPc (s : SpinLock κ) (k : κ) (pc : LockPc) : SpinLock κ :=
  { s with pc := Function.update s.pc k pc }

/-- One step of `lock`, with at most one access to the word. -/
def lockGo (pir : κ → UInt64) (s : SpinLock κ) (k : κ) : Option (SpinLock κ) :=
  match s.pc k with
  | .reserving freeValue =>
    let (cell, tmpVal) := s.cell.loadReserved k
    some ({ s with cell := cell }.setPc k (afterLoad freeValue tmpVal))
  | .storing freeValue =>
    let (cell, stored) := s.cell.storeConditional k (myUniqueIndex (pir k))
    some ({ s with cell := cell }.setPc k (if stored then .inside else .reserving freeValue))
  | .spinning _ => if s.cell.value ≠ 0 then some s else some (s.setPc k (.reserving 0))
  | _ => none

def lockStep (pir : κ → UInt64) (s : SpinLock κ) : LockInput κ → Option (SpinLock κ)
  | .lock k => if s.pc k = .outside then some (s.setPc k (.reserving 0)) else none
  | .go k => s.lockGo pir k
  | .unlock k =>
    if s.pc k = .inside then some ({ s with cell := s.cell.store k 0 }.setPc k .outside) else none
  | .lose k => some { s with cell := s.cell.lose k }
  | .reset k => if s.pc k = .outside then some { s with cell := s.cell.store k 0 } else none

/-- A lock word that has been set to zero before its first use. -/
def unlocked : SpinLock κ := ⟨⟨0, fun _ => false⟩, fun _ => .outside⟩

/-- At most one processor holds the lock, and the word tells which one, or zero if there is none. -/
structure LockSound (pir : κ → UInt64) (s : SpinLock κ) : Prop where
  alone : ∀ j k, s.pc j = .inside → s.pc k = .inside → j = k
  word : ∀ k, s.pc k = .inside → s.cell.value = myUniqueIndex (pir k)
  taken : s.cell.value ≠ 0 → ∃ k, s.pc k = .inside

/-- The word is not cleared while the lock is held. -/
def ResetsFree (s : SpinLock κ) : LockInput κ → Prop
  | .reset _ => ∀ k, s.pc k ≠ .inside
  | _ => True

end SpinLock

/-- What the processor has loaded and is going to rely on. -/
def LockPc.loaded : LockPc → Option UInt32
  | .storing freeValue => some freeValue
  | _ => none

/-- The processor expects to find the word zero. -/
def LockPc.ExpectsFree : LockPc → Prop
  | .reserving freeValue | .storing freeValue => freeValue = 0
  | _ => True

theorem myUniqueIndex_ne_zero (pir : UInt64) : myUniqueIndex pir ≠ 0 := by
  have hle : (processorId pir).toNat ≤ 1023 := by
    unfold processorId
    rw [UInt64.toNat_and]
    exact Nat.and_le_right
  intro h
  have hzero := congrArg UInt32.toNat h
  simp only [myUniqueIndex, UInt64.toNat_toUInt32, UInt64.toNat_add] at hzero
  change ((processorId pir).toNat + 1) % 2 ^ 64 % 2 ^ 32 = 0 at hzero
  omega

namespace SpinLock

variable {κ : Type} {pir : κ → UInt64} {s s' : SpinLock κ} {i : LockInput κ} {is : List (LockInput κ)}
  {j k : κ} {pc : LockPc}

/-- What the processors have loaded, of whom each one keeps what it relies on. -/
structure LockInv (pir : κ → UInt64) (s : SpinLock κ) : Prop where
  sound : LockSound pir s
  agrees : s.cell.Agrees fun k => (s.pc k).loaded
  free : ∀ k, (s.pc k).ExpectsFree

theorem lockInv_unlocked : LockInv pir (unlocked : SpinLock κ) where
  sound := by
    refine ⟨?_, ?_, fun h => absurd rfl h⟩
    · intro j k h
      cases h
    · intro k h
      cases h
  agrees := Cell.agrees_of_none fun _ => rfl
  free := fun _ => trivial

/-- Nobody is inside while the word is zero. -/
theorem LockSound.nobody (h : LockSound pir s) (hz : s.cell.value = 0) : s.pc k ≠ .inside := by
  intro hk
  have hword := h.word k hk
  rw [hz] at hword
  exact myUniqueIndex_ne_zero _ hword.symm

/-- The word and who is inside are all that there is to the lock. -/
theorem LockSound.congr (h : LockSound pir s) (hvalue : s'.cell.value = s.cell.value)
    (hinside : ∀ k, s'.pc k = .inside ↔ s.pc k = .inside) : LockSound pir s' where
  alone := fun j k hj hk => h.alone j k ((hinside j).mp hj) ((hinside k).mp hk)
  word := fun k hk => hvalue.trans (h.word k ((hinside k).mp hk))
  taken := by
    intro hv
    rw [hvalue] at hv
    obtain ⟨k, hk⟩ := h.taken hv
    exact ⟨k, (hinside k).mpr hk⟩

variable [DecidableEq κ]

@[simp] theorem setPc_cell : (s.setPc k pc).cell = s.cell := rfl

@[simp] theorem setPc_self : (s.setPc k pc).pc k = pc := Function.update_self ..

theorem setPc_of_ne (h : j ≠ k) : (s.setPc k pc).pc j = s.pc j := Function.update_of_ne h ..

theorem loaded_setPc :
    (fun j => ((s.setPc k pc).pc j).loaded) = Function.update (fun j => (s.pc j).loaded) k pc.loaded :=
  Function.comp_update LockPc.loaded s.pc k pc

theorem LockInv.free_setPc (h : LockInv pir s) (k : κ) (pc : LockPc) (hpc : pc.ExpectsFree) :
    ∀ j, ((s.setPc k pc).pc j).ExpectsFree := by
  intro j
  by_cases hjk : j = k
  · rw [hjk, setPc_self]
    exact hpc
  · rw [setPc_of_ne hjk]
    exact h.free j

/-- A processor that neither enters nor leaves does not change who is inside. -/
theorem inside_setPc (hold : s.pc k ≠ .inside) (hnew : pc ≠ .inside) :
    (s.setPc k pc).pc j = .inside ↔ s.pc j = .inside := by
  by_cases hjk : j = k
  · subst hjk
    rw [setPc_self]
    exact ⟨fun h => absurd h hnew, fun h => absurd h hold⟩
  · rw [setPc_of_ne hjk]

/-- Who comes in finds nobody there. -/
theorem LockSound.enter {cell : Cell κ UInt32} (h : LockSound pir s) (hz : s.cell.value = 0)
    (hvalue : cell.value = myUniqueIndex (pir k)) :
    LockSound pir ({ s with cell := cell }.setPc k .inside) := by
  have hinside : ∀ j, ({ s with cell := cell }.setPc k .inside).pc j = .inside → j = k := by
    intro j hj
    by_contra hjk
    rw [setPc_of_ne hjk] at hj
    exact h.nobody hz hj
  refine ⟨?_, ?_, fun _ => ⟨k, setPc_self⟩⟩
  · intro i j hi hj
    exact (hinside i hi).trans (hinside j hj).symm
  · intro j hj
    rw [hinside j hj]
    exact hvalue

theorem LockSound.leave (h : LockSound pir s) (hk : s.pc k = .inside) :
    LockSound pir ({ s with cell := s.cell.store k 0 }.setPc k .outside) := by
  have hnone : ∀ j, ({ s with cell := s.cell.store k 0 }.setPc k .outside).pc j ≠ .inside := by
    intro j hj
    by_cases hjk : j = k
    · rw [hjk, setPc_self] at hj
      cases hj
    · rw [setPc_of_ne hjk] at hj
      exact hjk (h.alone j k hj hk)
  refine ⟨?_, ?_, fun hv => absurd rfl hv⟩
  · intro i j hi
    exact absurd hi (hnone i)
  · intro j hj
    exact absurd hj (hnone j)

theorem LockInv.reserve {freeValue : UInt32} (h : LockInv pir s) (hpc : s.pc k = .reserving freeValue) :
    LockInv pir
      ({ s with cell := (s.cell.loadReserved k).1 }.setPc k (afterLoad freeValue s.cell.value)) := by
  have hfree : freeValue = 0 := by
    have hf := h.free k
    rw [hpc] at hf
    exact hf
  have hload := h.agrees.loadReserved (k := k)
  have hnotin : s.pc k ≠ .inside := by
    rw [hpc]
    intro he
    cases he
  by_cases hv : freeValue ≠ s.cell.value
  · rw [afterLoad, if_pos hv]
    refine ⟨h.sound.congr rfl fun j => inside_setPc hnotin ?_, ?_, ?_⟩
    · intro he
      cases he
    · rw [loaded_setPc]
      have hforget := hload.forget (k := k)
      rw [Function.update_idem] at hforget
      exact hforget
    · exact h.free_setPc k (.spinning s.cell.value) trivial
  · have hv := not_not.mp hv
    rw [afterLoad, if_neg (not_not.mpr hv)]
    refine ⟨h.sound.congr rfl fun j => inside_setPc hnotin ?_, ?_, ?_⟩
    · intro he
      cases he
    · rw [loaded_setPc]
      show Cell.Agrees (Function.update _ k (some freeValue)) _
      rw [hv]
      exact hload
    · exact h.free_setPc k (.storing freeValue) hfree

theorem LockInv.swap {freeValue : UInt32} (h : LockInv pir s) (hpc : s.pc k = .storing freeValue)
    (hs : s.lockGo pir k = some s') : LockInv pir s' := by
  have hfree : freeValue = 0 := by
    have hf := h.free k
    rw [hpc] at hf
    exact hf
  simp only [lockGo, hpc] at hs
  cases hr : s.cell.reserved k with
  | true =>
    rw [Cell.storeConditional_of_reserved hr] at hs
    cases Option.some.inj hs
    have hz : s.cell.value = 0 := by
      rw [← hfree]
      exact h.agrees.value_of_reserved (by rw [hpc]; rfl) hr
    exact ⟨h.sound.enter hz rfl, Cell.agrees_of_none fun _ => rfl,
      h.free_setPc k .inside trivial⟩
  | false =>
    rw [Cell.storeConditional_of_lost hr] at hs
    cases Option.some.inj hs
    have hnotin : s.pc k ≠ .inside := by
      rw [hpc]
      intro he
      cases he
    refine ⟨h.sound.congr rfl fun j => inside_setPc hnotin ?_, ?_, ?_⟩
    · intro he
      cases he
    · rw [loaded_setPc]
      exact h.agrees.forget
    · exact h.free_setPc k (.reserving freeValue) hfree

theorem LockInv.spin {freeValue : UInt32} (h : LockInv pir s) (hpc : s.pc k = .spinning freeValue) :
    LockInv pir (s.setPc k (.reserving 0)) := by
  have hnotin : s.pc k ≠ .inside := by
    rw [hpc]
    intro he
    cases he
  refine ⟨h.sound.congr rfl fun j => inside_setPc hnotin ?_, ?_, ?_⟩
  · intro he
    cases he
  · rw [loaded_setPc]
    exact h.agrees.forget
  · exact h.free_setPc k _ rfl

theorem lockGo_inv (h : LockInv pir s) (hs : s.lockGo pir k = some s') : LockInv pir s' := by
  cases hpc : s.pc k with
  | outside | inside => simp [lockGo, hpc] at hs
  | reserving freeValue =>
    simp only [lockGo, hpc, Option.some.injEq] at hs
    rw [← hs]
    exact h.reserve hpc
  | storing freeValue => exact h.swap hpc hs
  | spinning freeValue =>
    simp only [lockGo, hpc] at hs
    by_cases hv : s.cell.value ≠ 0
    · rw [if_pos hv] at hs
      cases Option.some.inj hs
      exact h
    · rw [if_neg hv] at hs
      cases Option.some.inj hs
      exact h.spin hpc

/-- A step in `lock` moves one processor, which only gets in while the word is zero. -/
theorem lockGo_outcome (h : LockInv pir s) (hs : s.lockGo pir k = some s') :
    s.pc k ≠ .inside ∧ (∀ j, j ≠ k → s'.pc j = s.pc j) ∧ (s'.pc k = .inside → s.cell.value = 0) := by
  have hf := h.free k
  cases hpc : s.pc k with
  | outside | inside => simp [lockGo, hpc] at hs
  | reserving freeValue =>
    simp only [lockGo, hpc, Option.some.injEq] at hs
    subst hs
    refine ⟨(by intro he; cases he), fun j hj => setPc_of_ne hj, fun hin => ?_⟩
    rw [setPc_self, afterLoad] at hin
    split at hin <;> cases hin
  | storing freeValue =>
    rw [hpc] at hf
    cases hf
    simp only [lockGo, hpc, Option.some.injEq] at hs
    subst hs
    refine ⟨(by intro he; cases he), fun j hj => setPc_of_ne hj, fun hin => ?_⟩
    rw [setPc_self] at hin
    cases hr : s.cell.reserved k with
    | true => exact h.agrees.value_of_reserved (by rw [hpc]; rfl) hr
    | false =>
      rw [Cell.storeConditional_of_lost hr] at hin
      cases hin
  | spinning freeValue =>
    simp only [lockGo, hpc] at hs
    refine ⟨(by intro he; cases he), ?_, ?_⟩
    · intro j hj
      split at hs <;> cases Option.some.inj hs
      · rfl
      · exact setPc_of_ne hj
    · intro hin
      split at hs <;> cases Option.some.inj hs
      · rw [hpc] at hin
        cases hin
      · rw [setPc_self] at hin
        cases hin

theorem lockStep_inv (h : LockInv pir s) (hok : ResetsFree s i) (hs : s.lockStep pir i = some s') :
    LockInv pir s' := by
  cases i with
  | lock k =>
    obtain ⟨hpc, hs⟩ := Option.ite_none_right_eq_some.mp hs
    cases Option.some.inj hs
    have hnotin : s.pc k ≠ .inside := by
      rw [hpc]
      intro he
      cases he
    refine ⟨h.sound.congr rfl fun j => inside_setPc hnotin ?_, ?_, ?_⟩
    · intro he
      cases he
    · rw [loaded_setPc]
      exact h.agrees.forget
    · exact h.free_setPc k _ rfl
  | go k => exact lockGo_inv h hs
  | unlock k =>
    obtain ⟨hpc, hs⟩ := Option.ite_none_right_eq_some.mp hs
    cases Option.some.inj hs
    refine ⟨h.sound.leave hpc, ?_, h.free_setPc k .outside trivial⟩
    rw [loaded_setPc]
    exact Cell.agrees_store
  | lose k =>
    cases Option.some.inj hs
    exact ⟨h.sound.congr rfl fun _ => Iff.rfl, h.agrees.lose, h.free⟩
  | reset k =>
    obtain ⟨hpc, hs⟩ := Option.ite_none_right_eq_some.mp hs
    cases Option.some.inj hs
    refine ⟨⟨h.sound.alone, fun j hj => absurd hj (hok j), fun hv => absurd rfl hv⟩, ?_, h.free⟩
    have hstore : (s.cell.store k 0).Agrees (Function.update (fun j => (s.pc j).loaded) k none) :=
      Cell.agrees_store
    have hsame : Function.update (fun j => (s.pc j).loaded) k none = fun j => (s.pc j).loaded := by
      rw [Function.update_eq_self_iff, hpc]
      rfl
    rw [hsame] at hstore
    exact hstore

/-- The lock excludes all others from where one processor is, in exactly the runs in which the word is never
cleared while the lock is held. -/
theorem lock_excludes_iff (pir : κ → UInt64) (is : List (LockInput κ)) :
    Always (lockStep pir) (LockSound pir) unlocked is ↔ Meets (lockStep pir) ResetsFree unlocked is := by
  have hok : ∀ s i s', LockInv pir s → lockStep pir s i = some s' → LockSound pir s' → ResetsFree s i := by
    intro s i s' _ hs hsound
    cases i with
    | reset k =>
      obtain ⟨-, hs⟩ := Option.ite_none_right_eq_some.mp hs
      cases Option.some.inj hs
      intro j hj
      exact hsound.nobody rfl hj
    | _ => trivial
  exact always_iff_meets (fun _ h => h.sound) (fun _ _ _ h hi hs => lockStep_inv h hi hs) hok
    lockInv_unlocked

/-- The processor is in `lock`. -/
def Waiting : LockPc → Prop
  | .outside | .inside => False
  | _ => True

theorem lockGo_of_reserved (pir : κ → UInt64) {freeValue : UInt32} (hpc : s.pc k = .storing freeValue)
    (hr : s.cell.reserved k = true) :
    s.lockGo pir k =
      some ({ s with cell := ⟨myUniqueIndex (pir k), fun _ => false⟩ }.setPc k .inside) := by
  simp only [lockGo, hpc, Cell.storeConditional_of_reserved hr]
  rfl

theorem reserving_enters (pir : κ → UInt64) (hz : s.cell.value = 0) (hpc : s.pc k = .reserving 0) :
    ∃ s', run (lockStep pir) s [.go k, .go k] = some s' ∧ s'.pc k = .inside := by
  let loaded : SpinLock κ := { s with cell := (s.cell.loadReserved k).1 }.setPc k (.storing 0)
  have hload : s.lockGo pir k = some loaded := by
    have hafter : afterLoad 0 s.cell.value = .storing 0 := by
      rw [hz]
      rfl
    simp only [lockGo, hpc, loaded]
    rw [← hafter]
    rfl
  have hreserved : loaded.cell.reserved k = true := Function.update_self ..
  have hstore := lockGo_of_reserved pir (s := loaded) setPc_self hreserved
  refine ⟨{ loaded with cell := ⟨myUniqueIndex (pir k), fun _ => false⟩ }.setPc k .inside, ?_, setPc_self⟩
  simp only [run, lockStep, hload, Option.bind_some, hstore]

/-- As long as the word is zero, three steps of its own at most bring a processor in. -/
theorem LockInv.enters (h : LockInv pir s) (hz : s.cell.value = 0) (hw : Waiting (s.pc k)) :
    ∃ m s', m ≤ 3 ∧ run (lockStep pir) s (List.replicate m (.go k)) = some s' ∧ s'.pc k = .inside := by
  have hf := h.free k
  cases hpc : s.pc k with
  | outside | inside =>
    rw [hpc] at hw
    exact absurd hw id
  | reserving freeValue =>
    rw [hpc] at hf
    cases hf
    obtain ⟨s', hs', hin⟩ := reserving_enters pir hz hpc
    exact ⟨2, s', by omega, hs', hin⟩
  | storing freeValue =>
    rw [hpc] at hf
    cases hf
    cases hr : s.cell.reserved k with
    | true =>
      have hstore := lockGo_of_reserved pir hpc hr
      refine ⟨1, { s with cell := ⟨myUniqueIndex (pir k), fun _ => false⟩ }.setPc k .inside, by omega, ?_,
        setPc_self⟩
      simp only [List.replicate, run, lockStep, hstore, Option.bind_some]
    | false =>
      have hback : s.lockGo pir k = some (s.setPc k (.reserving 0)) := by
        simp only [lockGo, hpc, Cell.storeConditional_of_lost hr]
        rfl
      obtain ⟨s', hs', hin⟩ := reserving_enters pir (s := s.setPc k (.reserving 0)) hz setPc_self
      refine ⟨3, s', by omega, ?_, hin⟩
      rw [List.replicate_succ, run]
      show (s.lockGo pir k).bind _ = _
      rw [hback]
      exact hs'
  | spinning freeValue =>
    have hback : s.lockGo pir k = some (s.setPc k (.reserving 0)) := by
      simp only [lockGo, hpc]
      exact if_neg (not_not.mpr hz)
    obtain ⟨s', hs', hin⟩ := reserving_enters pir (s := s.setPc k (.reserving 0)) hz setPc_self
    refine ⟨3, s', by omega, ?_, hin⟩
    rw [List.replicate_succ, run]
    show (s.lockGo pir k).bind _ = _
    rw [hback]
    exact hs'

/-- Whoever waits for the lock gets it by four steps at most, of which one is the holder's `unlock` and the
others are its own. -/
theorem lock_enterable (hm : Meets (lockStep pir) ResetsFree unlocked is)
    (hr : run (lockStep pir) unlocked is = some s) (hw : Waiting (s.pc k)) :
    ∃ js s', js.length ≤ 4 ∧ (∀ i ∈ js, i = .go k ∨ ∃ j, s.pc j = .inside ∧ i = .unlock j) ∧
      run (lockStep pir) s js = some s' ∧ s'.pc k = .inside := by
  have hstep : ∀ s i s', LockInv pir s → ResetsFree s i → lockStep pir s i = some s' → LockInv pir s' :=
    fun _ _ _ h hi hs => lockStep_inv h hi hs
  have h : LockInv pir s := (always_of_step hstep lockInv_unlocked hm).last hr
  by_cases hz : s.cell.value = 0
  · obtain ⟨m, s', hle, hrun, hin⟩ := h.enters hz hw
    refine ⟨List.replicate m (.go k), s', ?_, ?_, hrun, hin⟩
    · rw [List.length_replicate]
      omega
    · intro i hi
      exact .inl (List.eq_of_mem_replicate hi)
  · obtain ⟨j, hj⟩ := h.sound.taken hz
    have hkj : k ≠ j := by
      intro he
      rw [he, hj] at hw
      exact hw
    have hunlock : lockStep pir s (.unlock j) = some ({ s with cell := s.cell.store j 0 }.setPc j .outside) :=
      if_pos hj
    have hw' : Waiting (({ s with cell := s.cell.store j 0 }.setPc j .outside).pc k) := by
      rw [setPc_of_ne hkj]
      exact hw
    have hleft := lockStep_inv (i := .unlock j) h trivial hunlock
    obtain ⟨m, s', hle, hrun, hin⟩ := hleft.enters rfl hw'
    refine ⟨.unlock j :: List.replicate m (.go k), s', ?_, ?_, ?_, hin⟩
    · rw [List.length_cons, List.length_replicate]
      omega
    · intro i hi
      rcases List.mem_cons.mp hi with rfl | hi
      · exact .inr ⟨j, hj, rfl⟩
      · exact .inl (List.eq_of_mem_replicate hi)
    · rw [run, hunlock]
      exact hrun

/-- One processor has taken the lock and another one waits for it. -/
def oneWaits : List (LockInput Bool) := [.lock false, .go false, .go false, .lock true]

theorem lock_enterable_second :
    ∃ s, run (lockStep fun k => if k then 5 else 4) unlocked oneWaits = some s ∧ s.cell.value = 5 ∧
      ∃ js s', js.length ≤ 4 ∧ (∀ i ∈ js, i = .go true ∨ ∃ j, s.pc j = .inside ∧ i = .unlock j) ∧
        run (lockStep fun k => if k then 5 else 4) s js = some s' ∧ s'.pc true = .inside := by
  have hm : Meets (lockStep fun k => if k then 5 else 4) ResetsFree unlocked oneWaits := by
    iterate 4
      rintro _ ⟨⟩
      refine ⟨trivial, ?_⟩
    trivial
  exact ⟨_, rfl, rfl, lock_enterable hm rfl trivial⟩

end SpinLock

end BgqVrnic
