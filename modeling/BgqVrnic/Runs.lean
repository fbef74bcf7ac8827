import Mathlib.Data.List.Basic
import Mathlib.Logic.Function.Basic

namespace Runs

variable {σ ι : Type*}

/-- The state after taking the inputs in turn, if no step on the way faults. -/
def run (step : σ → ι → Option σ) : σ → List ι → Option σ
  | s, [] => some s
  | s, i :: is => (step s i).bind fun s' => run step s' is

/-- Every step that the run from `s` takes meets `ok` in the state before it. -/
def Meets (step : σ → ι → Option σ) (ok : σ → ι → Prop) : σ → List ι → Prop
  | _, [] => True
  | s, i :: is => ∀ s', step s i = some s' → ok s i ∧ Meets step ok s' is

/-- Every state that the run from `s` passes through, `s` included, satisfies `P`. -/
def Always (step : σ → ι → Option σ) (P : σ → Prop) : σ → List ι → Prop
  | s, [] => P s
  | s, i :: is => P s ∧ ∀ s', step s i = some s' → Always step P s' is

/-- Every step that the run from `s` comes to meets `ok`, the one it faults at included. -/
def Attempts (step : σ → ι → Option σ) (ok : σ → ι → Prop) : σ → List ι → Prop
  | _, [] => True
  | s, i :: is => ok s i ∧ ∀ s', step s i = some s' → Attempts step ok s' is

instance decidableMeets (step : σ → ι → Option σ) (ok : σ → ι → Prop) [∀ s i, Decidable (ok s i)] :
    ∀ (s : σ) (is : List ι), Decidable (Meets step ok s is)
  | _, [] => isTrue trivial
  | s, i :: is =>
    match h : step s i with
    | none => isTrue fun s' hs => by
        rw [h] at hs
        cases hs
    | some t =>
      have : Decidable (Meets step ok t is) := decidableMeets step ok t is
      decidable_of_iff (ok s i ∧ Meets step ok t is)
        ⟨fun hm s' hs => by
          rw [h] at hs
          cases Option.some.inj hs
          exact hm, fun hm => hm t h⟩

variable {step : σ → ι → Option σ} {ok : σ → ι → Prop} {P : σ → Prop} {s s' : σ} {is js : List ι}

theorem run_append : run step s (is ++ js) = (run step s is).bind fun t => run step t js := by
  induction is generalizing s with
  | nil => rfl
  | cons i is ih =>
    simp only [List.cons_append, run]
    cases step s i with
    | none => rfl
    | some t => exact ih

/-- What every step preserves holds where a run ends. -/
theorem run_preserves (hstep : ∀ s i s', P s → step s i = some s' → P s') (h : P s)
    (hr : run step s is = some s') : P s' := by
  induction is generalizing s with
  | nil =>
    cases Option.some.inj hr
    exact h
  | cons i is ih =>
    obtain ⟨t, ht, hr⟩ := Option.bind_eq_some_iff.mp hr
    exact ih (hstep s i t h ht) hr

theorem Always.head (h : Always step P s is) : P s := by
  cases is with
  | nil => exact h
  | cons i is => exact h.1

theorem Always.imp {Q : σ → Prop} (h : Always step P s is) (hPQ : ∀ s, P s → Q s) :
    Always step Q s is := by
  induction is generalizing s with
  | nil => exact hPQ s h
  | cons i is ih => exact ⟨hPQ s h.1, fun t ht => ih (h.2 t ht)⟩

/-- What every step preserves under `ok` holds all along a run that meets `ok`. -/
theorem always_of_step (hstep : ∀ s i s', P s → ok s i → step s i = some s' → P s')
    (h : P s) (hm : Meets step ok s is) : Always step P s is := by
  induction is generalizing s with
  | nil => exact h
  | cons i is ih =>
    refine ⟨h, fun t ht => ?_⟩
    obtain ⟨hi, hrest⟩ := hm t ht
    exact ih (hstep s i t h hi ht) hrest

/-- Where a step out of the invariant keeps `P` only if it meets `ok`, and keeps the invariant if it
does, the runs that keep `P` are exactly those that meet `ok`. -/
theorem always_iff_meets {Inv : σ → Prop} (hP : ∀ s, Inv s → P s)
    (hinv : ∀ s i s', Inv s → ok s i → step s i = some s' → Inv s')
    (hok : ∀ s i s', Inv s → step s i = some s' → P s' → ok s i) (h : Inv s) :
    Always step P s is ↔ Meets step ok s is := by
  constructor
  · intro ha
    induction is generalizing s with
    | nil => trivial
    | cons i is ih =>
      intro t ht
      have hrest := ha.2 t ht
      have hi := hok s i t h ht hrest.head
      exact ⟨hi, ih (hinv s i t h hi ht) hrest⟩
  · intro hm
    exact (always_of_step hinv h hm).imp hP

theorem meets_append :
    Meets step ok s (is ++ js) ↔
      Meets step ok s is ∧ ∀ t, run step s is = some t → Meets step ok t js := by
  induction is generalizing s with
  | nil => simp [Meets, run]
  | cons i is ih =>
    constructor
    · intro h
      refine ⟨fun t ht => ⟨(h t ht).1, (ih.mp (h t ht).2).1⟩, fun u hu => ?_⟩
      obtain ⟨t, ht, hu⟩ := Option.bind_eq_some_iff.mp hu
      exact (ih.mp (h t ht).2).2 u hu
    · rintro ⟨hm, hr⟩ t ht
      refine ⟨(hm t ht).1, ih.mpr ⟨(hm t ht).2, fun u hu => hr u ?_⟩⟩
      exact Option.bind_eq_some_iff.mpr ⟨t, ht, hu⟩

/-- A condition on the inputs alone. -/
theorem meets_of_forall {ok : ι → Prop} (h : ∀ i ∈ is, ok i) :
    Meets step (fun _ i => ok i) s is := by
  induction is generalizing s with
  | nil => trivial
  | cons i is ih =>
    intro t _
    exact ⟨h i List.mem_cons_self, ih fun j hj => h j (List.mem_cons_of_mem i hj)⟩

theorem Always.last (h : Always step P s is) (hr : run step s is = some s') : P s' := by
  induction is generalizing s with
  | nil =>
    cases Option.some.inj hr
    exact h
  | cons i is ih =>
    obtain ⟨t, ht, hr⟩ := Option.bind_eq_some_iff.mp hr
    exact ih (h.2 t ht) hr

/-- What every step preserves that meets `ok` holds where a run of such steps ends. -/
theorem run_keeps (hstep : ∀ s i s', P s → ok s i → step s i = some s' → P s') (h : P s)
    (hok : Attempts step ok s is) (hr : run step s is = some s') : P s' := by
  induction is generalizing s with
  | nil =>
    cases Option.some.inj hr
    exact h
  | cons i is ih =>
    obtain ⟨t, ht, hr⟩ := Option.bind_eq_some_iff.mp hr
    exact ih (hstep s i t h hok.1 ht) (hok.2 t ht) hr

/-- Where a step out of the invariant faults exactly if it does not meet `fits`, a run goes through
exactly if its steps do. -/
theorem run_isSome_iff {Inv : σ → Prop} {fits : σ → ι → Prop}
    (hinv : ∀ s i s', Inv s → ok s i → step s i = some s' → Inv s')
    (hfault : ∀ s i, Inv s → ok s i → (step s i = none ↔ ¬ fits s i)) (h : Inv s)
    (hok : Attempts step ok s is) : (run step s is).isSome ↔ Attempts step fits s is := by
  induction is generalizing s with
  | nil => exact ⟨fun _ => trivial, fun _ => rfl⟩
  | cons i is ih =>
    obtain ⟨hi, hrest⟩ := hok
    have hstep := hfault s i h hi
    unfold run Attempts
    cases ht : step s i with
    | none =>
      have hunfit := hstep.mp ht
      exact ⟨nofun, fun hfits => absurd hfits.1 hunfit⟩
    | some t =>
      have hfit : fits s i := by
        by_contra hunfit
        rw [hstep.mpr hunfit] at ht
        cases ht
      have hiff := ih (hinv s i t h hi ht) (hrest t ht)
      rw [Option.bind_some, hiff]
      constructor
      · intro hall
        refine ⟨hfit, fun s' hs' => ?_⟩
        cases hs'
        exact hall
      · exact fun hall => hall.2 t rfl

/-- What every step keeps exactly if it meets `ok` holds where a run of such steps ends. -/
theorem holds_iff_meets (hstep : ∀ s i s', step s i = some s' → (P s' ↔ P s ∧ ok s i))
    (hr : run step s is = some s') : P s' ↔ P s ∧ Meets step ok s is := by
  induction is generalizing s with
  | nil =>
    cases Option.some.inj hr
    exact (and_iff_left trivial).symm
  | cons i is ih =>
    obtain ⟨t, ht, hr⟩ := Option.bind_eq_some_iff.mp hr
    rw [ih hr, hstep s i t ht, and_assoc]
    refine and_congr_right fun _ => ⟨fun h t' ht' => ?_, fun h => h t ht⟩
    cases ht.symm.trans ht'
    exact h

section Family

variable {κ : Type*} [DecidableEq κ] {f : κ → σ} {js : List (κ × ι)}

/-- A family of machines of one kind; an input names the machine that takes it. -/
def familyStep (step : σ → ι → Option σ) (f : κ → σ) (i : κ × ι) : Option (κ → σ) :=
  (step (f i.1) i.2).map (Function.update f i.1)

theorem familyStep_cases {f' : κ → σ} {i : κ × ι} (h : familyStep step f i = some f') :
    step (f i.1) i.2 = some (f' i.1) ∧ ∀ k, k ≠ i.1 → f' k = f k := by
  obtain ⟨s', hs, rfl⟩ := Option.map_eq_some_iff.mp h
  rw [Function.update_self]
  exact ⟨hs, fun k hk => Function.update_of_ne hk _ _⟩

/-- The machines of a family do not meet, so what characterizes the runs of one does so for all. -/
theorem family_always_iff_meets {Inv : σ → Prop} (hP : ∀ s, Inv s → P s)
    (hinv : ∀ s i s', Inv s → ok s i → step s i = some s' → Inv s')
    (hok : ∀ s i s', Inv s → step s i = some s' → P s' → ok s i) (h : ∀ k, Inv (f k)) :
    Always (familyStep step) (fun f => ∀ k, P (f k)) f js ↔
      Meets (familyStep step) (fun f i => ok (f i.1) i.2) f js := by
  refine @always_iff_meets _ _ _ _ _ _ _ (fun f => ∀ k, Inv (f k)) ?_ ?_ ?_ h
  · exact fun f hf k => hP _ (hf k)
  · intro f i f' hf hi hs k
    obtain ⟨hone, hother⟩ := familyStep_cases hs
    by_cases hk : k = i.1
    · rw [hk]
      exact hinv _ _ _ (hf i.1) hi hone
    · rw [hother k hk]
      exact hf k
  · intro f i f' hf hs hp
    exact hok _ _ _ (hf i.1) (familyStep_cases hs).1 (hp i.1)

end Family

end Runs
