import Mathlib.Data.List.Nodup
import Mathlib.Logic.Function.Basic

namespace Intrusive

variable {ι : Type*}

/-- Walking `next` from `head` visits exactly `l` and then reaches the null pointer. -/
def Chain (next : ι → Option ι) : Option ι → List ι → Prop
  | head, [] => head = none
  | head, x :: l => head = some x ∧ Chain next (next x) l

/-- A chain whose back links lead one step back, the first one to `p`. -/
def Linked (next prev : ι → Option ι) : Option ι → Option ι → List ι → Prop
  | _, head, [] => head = none
  | p, head, x :: l => head = some x ∧ prev x = p ∧ Linked next prev (some x) (next x) l

/-- A chain some of whose back links may be null instead of leading one step back. -/
def Loose (next prev : ι → Option ι) : Option ι → Option ι → List ι → Prop
  | _, head, [] => head = none
  | p, head, x :: l =>
    head = some x ∧ (prev x = none ∨ prev x = p) ∧ Loose next prev (some x) (next x) l

variable {next prev next' prev' : ι → Option ι} {head p : Option ι} {l l₁ l₂ : List ι} {x y c : ι}

theorem Linked.chain (h : Linked next prev p head l) : Chain next head l := by
  induction l generalizing p head with
  | nil => exact h
  | cons x l ih => exact ⟨h.1, ih h.2.2⟩

theorem Linked.loose (h : Linked next prev p head l) : Loose next prev p head l := by
  induction l generalizing p head with
  | nil => exact h
  | cons x l ih => exact ⟨h.1, Or.inr h.2.1, ih h.2.2⟩

theorem Loose.chain (h : Loose next prev p head l) : Chain next head l := by
  induction l generalizing p head with
  | nil => exact h
  | cons x l ih => exact ⟨h.1, ih h.2.2⟩

theorem Chain.congr (h : Chain next head l) (hn : ∀ x ∈ l, next' x = next x) :
    Chain next' head l := by
  induction l generalizing head with
  | nil => exact h
  | cons x l ih =>
    refine ⟨h.1, ?_⟩
    rw [hn x (by simp)]
    exact ih h.2 (fun y hy => hn y (by simp [hy]))

theorem Linked.congr (h : Linked next prev p head l) (hn : ∀ x ∈ l, next' x = next x)
    (hp : ∀ x ∈ l, prev' x = prev x) : Linked next' prev' p head l := by
  induction l generalizing p head with
  | nil => exact h
  | cons x l ih =>
    refine ⟨h.1, (hp x (by simp)).trans h.2.1, ?_⟩
    rw [hn x (by simp)]
    exact ih h.2.2 (fun y hy => hn y (by simp [hy])) (fun y hy => hp y (by simp [hy]))

theorem Loose.congr (h : Loose next prev p head l) (hn : ∀ x ∈ l, next' x = next x)
    (hp : ∀ x ∈ l, prev' x = prev x) : Loose next' prev' p head l := by
  induction l generalizing p head with
  | nil => exact h
  | cons x l ih =>
    refine ⟨h.1, ?_, ?_⟩
    · rw [hp x (by simp)]
      exact h.2.1
    · rw [hn x (by simp)]
      exact ih h.2.2 (fun y hy => hn y (by simp [hy])) (fun y hy => hp y (by simp [hy]))

/-- What a head pointer leads to is determined by the forward links. -/
theorem Chain.unique (h : Chain next head l₁) (h' : Chain next head l₂) : l₁ = l₂ := by
  induction l₁ generalizing head l₂ with
  | nil =>
    cases l₂ with
    | nil => rfl
    | cons y l₂ => exact absurd (h.symm.trans h'.1) (by simp)
  | cons x l₁ ih =>
    cases l₂ with
    | nil => exact absurd (h'.symm.trans h.1) (by simp)
    | cons y l₂ =>
      have he : x = y := Option.some.inj (h.1.symm.trans h'.1)
      subst he
      rw [ih h.2 h'.2]

theorem Chain.suffix (h : Chain next head (l₁ ++ x :: l₂)) : Chain next (next x) l₂ := by
  induction l₁ generalizing head with
  | nil => exact h.2
  | cons y l₁ ih => exact ih h.2

/-- A walk that ends never meets the same element twice. -/
theorem Chain.nodup (h : Chain next head l) : l.Nodup := by
  induction l generalizing head with
  | nil => exact List.nodup_nil
  | cons x l ih =>
    refine List.nodup_cons.mpr ⟨?_, ih h.2⟩
    intro hx
    obtain ⟨l₁, l₂, he⟩ := List.append_of_mem hx
    have hl' : Chain next (next x) (l₁ ++ x :: l₂) := he ▸ h.2
    have hs := hl'.suffix
    have hl := congrArg List.length (h.2.unique hs)
    rw [he] at hl
    simp only [List.length_append, List.length_cons] at hl
    omega

/-- Numbers each of which leads to the one after it. -/
theorem Chain.of_successors {next : Nat → Option Nat} {a k : Nat}
    (hnext : ∀ i, a ≤ i → i < a + k → next i = some (i + 1)) (hend : next (a + k) = none) :
    Chain next (some a) (List.range' a (k + 1)) := by
  induction k generalizing a with
  | zero => exact ⟨rfl, hend⟩
  | succ k ih =>
    rw [List.range'_succ]
    refine ⟨rfl, ?_⟩
    rw [hnext a (Nat.le_refl a) (by omega)]
    apply ih
    · intro i hi hlt
      exact hnext i (by omega) (by omega)
    · rw [Nat.add_right_comm]
      exact hend

theorem Chain.head_eq (h : Chain next head l) : head = l.head? := by
  cases l with
  | nil => exact h
  | cons x l => exact h.1

theorem Chain.head_mem (h : Chain next head l) (hx : head = some x) : x ∈ l := by
  cases l with
  | nil => exact absurd (hx.symm.trans h) (by simp)
  | cons y l =>
    have he : y = x := Option.some.inj (h.1.symm.trans hx)
    simp [he]

theorem Chain.next_mem (h : Chain next head l) (hc : c ∈ l) (hx : next c = some x) : x ∈ l := by
  obtain ⟨l₁, l₂, rfl⟩ := List.append_of_mem hc
  have hm := h.suffix.head_mem hx
  simp [hm]

theorem Chain.next_ne_self (h : Chain next head l) (hc : c ∈ l) : next c ≠ some c := by
  intro hx
  have hn := h.nodup
  obtain ⟨l₁, l₂, rfl⟩ := List.append_of_mem hc
  have hm := h.suffix.head_mem hx
  have := (List.nodup_append.mp hn).2.1
  exact (List.nodup_cons.mp this).1 hm

/-- No element of a walk leads back to its first one. -/
theorem Chain.head_not_next (h : Chain next (some c) l) (hx : x ∈ l) : next x ≠ some c := by
  intro hn
  have hnd := h.nodup
  obtain ⟨l₁, l₂, rfl⟩ := List.append_of_mem hx
  have hm : c ∈ l₂ := h.suffix.head_mem hn
  cases l₁ with
  | nil =>
    have he : c = x := Option.some.inj h.1
    subst he
    exact (List.nodup_cons.mp hnd).1 hm
  | cons y l₁ =>
    have he : c = y := Option.some.inj h.1
    subst he
    exact (List.nodup_cons.mp hnd).1 (by simp [hm])

/-- A back link that is not null leads to the element whose forward link leads back. -/
theorem Loose.prev_next (h : Loose next prev p head l) (hc : c ∈ l) :
    prev c = none ∨ (head = some c ∧ prev c = p) ∨
      ∃ x ∈ l, prev c = some x ∧ next x = some c := by
  induction l generalizing p head with
  | nil => simp at hc
  | cons y l ih =>
    rcases List.mem_cons.mp hc with rfl | hc
    · exact h.2.1.imp_right fun hp => Or.inl ⟨h.1, hp⟩
    · rcases ih h.2.2 hc with hp | ⟨hh, hp⟩ | ⟨x, hx, hp, hxn⟩
      · exact Or.inl hp
      · exact Or.inr (Or.inr ⟨y, by simp, hp, hh⟩)
      · exact Or.inr (Or.inr ⟨x, by simp [hx], hp, hxn⟩)

theorem Linked.prev_next (h : Linked next prev p head l) (hc : c ∈ l) :
    (head = some c ∧ prev c = p) ∨ ∃ x ∈ l, prev c = some x ∧ next x = some c := by
  induction l generalizing p head with
  | nil => simp at hc
  | cons y l ih =>
    rcases List.mem_cons.mp hc with rfl | hc
    · exact Or.inl ⟨h.1, h.2.1⟩
    · rcases ih h.2.2 hc with ⟨hh, hp⟩ | ⟨x, hx, hp, hxn⟩
      · exact Or.inr ⟨y, by simp, hp, hh⟩
      · exact Or.inr ⟨x, by simp [hx], hp, hxn⟩

/-- A walk meets `c` again as long as no forward link other than that of `c` changes. -/
theorem Chain.mem_of_congr (h : Chain next head l₁) (hc : c ∈ l₁)
    (hn : ∀ x, x ≠ c → next' x = next x) (h' : Chain next' head l₂) : c ∈ l₂ := by
  induction l₁ generalizing head l₂ with
  | nil => simp at hc
  | cons x l₁ ih =>
    by_cases hxc : x = c
    · subst hxc
      exact h'.head_mem h.1
    · cases l₂ with
      | nil => exact absurd (h'.symm.trans h.1) (by simp)
      | cons y l₂ =>
        have he : x = y := Option.some.inj (h.1.symm.trans h'.1)
        subst he
        have h₂ := h'.2
        rw [hn x hxc] at h₂
        exact List.mem_cons_of_mem x (ih h.2 ((List.mem_cons.mp hc).resolve_left (Ne.symm hxc)) h₂)

section Splice

variable [DecidableEq ι]

/-- Forward links after `c` is taken out by pointing its predecessor past it. -/
def unlinkNext (next prev : ι → Option ι) (c : ι) : ι → Option ι :=
  match prev c with
  | some x => Function.update next x (next c)
  | none => next

/-- Back links after `c` is taken out by pointing its successor before it. -/
def unlinkPrev (next prev : ι → Option ι) (c : ι) : ι → Option ι :=
  match next c with
  | some x => Function.update prev x (prev c)
  | none => prev

/-- Back links after the element at `head`, if any, is told that `c` now precedes it. -/
def pushPrev (prev : ι → Option ι) (head : Option ι) (c : ι) : ι → Option ι :=
  match head with
  | some x => Function.update prev x (some c)
  | none => prev

theorem unlinkNext_of_ne (h : prev c ≠ some x) : unlinkNext next prev c x = next x := by
  cases hp : prev c with
  | none => simp [unlinkNext, hp]
  | some y =>
    have hy : x ≠ y := fun e => h (by rw [hp, e])
    simp [unlinkNext, hp, hy]

theorem unlinkNext_of_eq (h : prev c = some x) : unlinkNext next prev c x = next c := by
  simp [unlinkNext, h]

theorem unlinkPrev_of_ne (h : next c ≠ some x) : unlinkPrev next prev c x = prev x := by
  cases hn : next c with
  | none => simp [unlinkPrev, hn]
  | some y =>
    have hy : x ≠ y := fun e => h (by rw [hn, e])
    simp [unlinkPrev, hn, hy]

theorem unlinkPrev_of_eq (h : next c = some x) : unlinkPrev next prev c x = prev c := by
  simp [unlinkPrev, h]

theorem pushPrev_of_ne (h : head ≠ some x) : pushPrev prev head c x = prev x := by
  cases head with
  | none => rfl
  | some y =>
    have hy : x ≠ y := fun e => h (by rw [e])
    simp [pushPrev, hy]

theorem Chain.push (h : Chain next head l) (hc : c ∉ l) :
    Chain (Function.update next c head) (some c) (c :: l) := by
  refine ⟨rfl, ?_⟩
  rw [Function.update_self]
  exact h.congr fun x hx => Function.update_of_ne (ne_of_mem_of_not_mem hx hc) _ _

theorem Linked.push (h : Linked next prev none head l) (hc : c ∉ l) :
    Linked (Function.update next c head) (Function.update (pushPrev prev head c) c none)
      none (some c) (c :: l) := by
  have hn : ∀ x ∈ l, Function.update next c head x = next x := fun x hx =>
    Function.update_of_ne (ne_of_mem_of_not_mem hx hc) _ _
  refine ⟨rfl, Function.update_self .., ?_⟩
  rw [Function.update_self]
  cases l with
  | nil => exact h
  | cons y l =>
    have hyc : y ≠ c := ne_of_mem_of_not_mem (by simp) hc
    have hnd := List.nodup_cons.mp h.chain.nodup
    refine ⟨h.1, ?_, ?_⟩
    · rw [Function.update_of_ne hyc, h.1]
      simp [pushPrev]
    · rw [hn y (by simp)]
      refine h.2.2.congr (fun x hx => hn x (by simp [hx])) fun x hx => ?_
      rw [Function.update_of_ne (ne_of_mem_of_not_mem (by simp [hx]) hc)]
      exact pushPrev_of_ne fun e => hnd.1 (Option.some.inj (h.1.symm.trans e) ▸ hx)

/-- Taking `c` out of a linked list leaves the rest linked in order, wherever `c` stands. -/
theorem Linked.unlink (h : Linked next prev p head (l₁ ++ c :: l₂))
    (hp : ∀ x, p = some x → x ∉ l₁ ++ c :: l₂) :
    Linked (unlinkNext next prev c) (unlinkPrev next prev c) p
      (if head = some c then next c else head) (l₁ ++ l₂) := by
  have hnd := h.chain.nodup
  induction l₁ generalizing p head with
  | nil =>
    have hcl := List.nodup_cons.mp hnd
    have hpc : prev c = p := h.2.1
    have hfar : ∀ x ∈ l₂, unlinkNext next prev c x = next x := fun x hx =>
      unlinkNext_of_ne fun e => hp x (hpc ▸ e) (by simp [hx])
    simp only [List.nil_append] at h ⊢
    rw [if_pos h.1]
    cases l₂ with
    | nil => exact h.2.2
    | cons y l₂ =>
      have hyl := List.nodup_cons.mp hcl.2
      have hcy : next c = some y := h.2.2.1
      refine ⟨hcy, (unlinkPrev_of_eq hcy).trans hpc, ?_⟩
      rw [hfar y (by simp)]
      refine h.2.2.2.2.congr (fun x hx => hfar x (by simp [hx])) fun x hx => ?_
      exact unlinkPrev_of_ne fun e => hyl.1 (Option.some.inj (hcy.symm.trans e) ▸ hx)
  | cons y l₁ ih =>
    have hyl := List.nodup_cons.mp hnd
    have hyc : y ≠ c := fun e => hyl.1 (by simp [e])
    have hrest := ih h.2.2 (fun x e => Option.some.inj e ▸ hyl.1) hyl.2
    have hhead : head ≠ some c := fun e => hyc (Option.some.inj (h.1.symm.trans e))
    rw [if_neg hhead]
    have hch : Chain next head ((y :: l₁) ++ c :: l₂) := h.chain
    have hsuf := hch.suffix
    refine ⟨h.1, ?_, ?_⟩
    · rw [unlinkPrev_of_ne fun e => hyl.1 (by simp [hsuf.head_mem e])]
      exact h.2.1
    · suffices he : unlinkNext next prev c y = if next y = some c then next c else next y by
        rw [he]
        exact hrest
      have hmem : c ∈ l₁ ++ c :: l₂ := by simp
      split
      next hyn =>
        rcases h.2.2.prev_next hmem with ⟨_, hpc⟩ | ⟨x, hx, _, hxn⟩
        · exact unlinkNext_of_eq hpc
        · have hch := h.2.2.chain
          rw [hyn] at hch
          exact absurd hxn (hch.head_not_next hx)
      next hyn =>
        refine unlinkNext_of_ne fun e => ?_
        rcases h.2.2.prev_next hmem with ⟨hh, _⟩ | ⟨x, hx, hpx, _⟩
        · exact hyn hh
        · exact hyl.1 (Option.some.inj (hpx.symm.trans e) ▸ hx)

/-- The same for a loose list, as long as the back link of `c` itself is there. -/
theorem Loose.unlink (h : Loose next prev p head (l₁ ++ c :: l₂)) (hc : prev c ≠ none)
    (hp : ∀ x, p = some x → x ∉ l₁ ++ c :: l₂) :
    Loose (unlinkNext next prev c) (unlinkPrev next prev c) p
      (if head = some c then next c else head) (l₁ ++ l₂) := by
  have hnd := h.chain.nodup
  induction l₁ generalizing p head with
  | nil =>
    have hcl := List.nodup_cons.mp hnd
    have hpc : prev c = p := h.2.1.resolve_left hc
    have hfar : ∀ x ∈ l₂, unlinkNext next prev c x = next x := fun x hx =>
      unlinkNext_of_ne fun e => hp x (hpc ▸ e) (by simp [hx])
    simp only [List.nil_append] at h ⊢
    rw [if_pos h.1]
    cases l₂ with
    | nil => exact h.2.2
    | cons y l₂ =>
      have hyl := List.nodup_cons.mp hcl.2
      have hcy : next c = some y := h.2.2.1
      refine ⟨hcy, Or.inr ((unlinkPrev_of_eq hcy).trans hpc), ?_⟩
      rw [hfar y (by simp)]
      refine h.2.2.2.2.congr (fun x hx => hfar x (by simp [hx])) fun x hx => ?_
      exact unlinkPrev_of_ne fun e => hyl.1 (Option.some.inj (hcy.symm.trans e) ▸ hx)
  | cons y l₁ ih =>
    have hyl := List.nodup_cons.mp hnd
    have hyc : y ≠ c := fun e => hyl.1 (by simp [e])
    have hrest := ih h.2.2 (fun x e => Option.some.inj e ▸ hyl.1) hyl.2
    have hhead : head ≠ some c := fun e => hyc (Option.some.inj (h.1.symm.trans e))
    rw [if_neg hhead]
    have hch : Chain next head ((y :: l₁) ++ c :: l₂) := h.chain
    have hsuf := hch.suffix
    refine ⟨h.1, ?_, ?_⟩
    · rw [unlinkPrev_of_ne fun e => hyl.1 (by simp [hsuf.head_mem e])]
      exact h.2.1
    · suffices he : unlinkNext next prev c y = if next y = some c then next c else next y by
        rw [he]
        exact hrest
      have hmem : c ∈ l₁ ++ c :: l₂ := by simp
      split
      next hyn =>
        rcases h.2.2.prev_next hmem with hpc | ⟨_, hpc⟩ | ⟨x, hx, _, hxn⟩
        · exact absurd hpc hc
        · exact unlinkNext_of_eq hpc
        · have hch := h.2.2.chain
          rw [hyn] at hch
          exact absurd hxn (hch.head_not_next hx)
      next hyn =>
        refine unlinkNext_of_ne fun e => ?_
        rcases h.2.2.prev_next hmem with hpc | ⟨hh, _⟩ | ⟨x, hx, hpx, _⟩
        · exact hc hpc
        · exact hyn hh
        · exact hyl.1 (Option.some.inj (hpx.symm.trans e) ▸ hx)

/-- Hanging a second chain on the last element of a first one. -/
theorem Chain.concat (h : Chain next head (l₁ ++ [x])) {head' : Option ι}
    (h' : Chain next head' l₂) (hx : x ∉ l₂) :
    Chain (Function.update next x head') head (l₁ ++ x :: l₂) := by
  induction l₁ generalizing head with
  | nil =>
    refine ⟨h.1, ?_⟩
    rw [Function.update_self]
    exact h'.congr fun y hy => Function.update_of_ne (ne_of_mem_of_not_mem hy hx) _ _
  | cons y l₁ ih =>
    have hyl := List.nodup_cons.mp h.nodup
    refine ⟨h.1, ?_⟩
    rw [Function.update_of_ne fun e => hyl.1 (by simp [e])]
    exact ih h.2

theorem Loose.concat (h : Loose next prev p head (l₁ ++ [x])) {head' : Option ι}
    (h' : Loose next prev none head' l₂) (hx : x ∉ l₂) :
    Loose (Function.update next x head') prev p head (l₁ ++ x :: l₂) := by
  induction l₁ generalizing p head with
  | nil =>
    refine ⟨h.1, h.2.1, ?_⟩
    rw [Function.update_self]
    have hfar : ∀ y ∈ l₂, Function.update next x head' y = next y := fun y hy =>
      Function.update_of_ne (ne_of_mem_of_not_mem hy hx) _ _
    cases l₂ with
    | nil => exact h'
    | cons y l₂ =>
      refine ⟨h'.1, Or.inl (h'.2.1.elim id id), ?_⟩
      rw [hfar y (by simp)]
      exact h'.2.2.congr (fun z hz => hfar z (by simp [hz])) fun _ _ => rfl
  | cons y l₁ ih =>
    have hyl := List.nodup_cons.mp h.chain.nodup
    refine ⟨h.1, h.2.1, ?_⟩
    rw [Function.update_of_ne fun e => hyl.1 (by simp [e])]
    exact ih h.2.2

end Splice

end Intrusive
