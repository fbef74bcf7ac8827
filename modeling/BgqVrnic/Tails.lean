import BgqVrnic.Chain

namespace Intrusive

variable {ι : Type*}

/-- A list that grows at its end: its first element, and its last one. The last one means nothing while
there is no first one. -/
structure Tail (ι : Type*) where
  head : Option ι
  last : Option ι

namespace Tail

def empty : Tail ι := ⟨none, none⟩

section Links

variable [DecidableEq ι]

/-- The forward links when the last element leads to `after`. -/
def hang (t : Tail ι) (after : Option ι) (next : ι → Option ι) : ι → Option ι :=
  match t.last with
  | some x => Function.update next x after
  | none => next

/-- The forward links when the last element, if there is one, leads to `x`. -/
def link (t : Tail ι) (x : ι) (next : ι → Option ι) : ι → Option ι :=
  if t.head.isSome then t.hang (some x) next else next

end Links

/-- `x` is the last element now. -/
def add (t : Tail ι) (x : ι) : Tail ι := ⟨if t.head.isSome then t.head else some x, some x⟩

/-- From the first element the links lead through the list, and the last one is its last one. -/
structure Holds (next : ι → Option ι) (t : Tail ι) (l : List ι) : Prop where
  chain : Chain next t.head l
  last : l ≠ [] → t.last = l.getLast?

variable {next next' : ι → Option ι} {t : Tail ι} {l l' : List ι} {x : ι} {after head : Option ι}

theorem holds_empty : Holds next empty [] := ⟨rfl, fun h => absurd rfl h⟩

theorem holds_nil (h : t.head = none) : Holds next t [] := ⟨h, fun h => absurd rfl h⟩

theorem Holds.congr (h : Holds next t l) (hn : ∀ x ∈ l, next' x = next x) : Holds next' t l :=
  ⟨h.chain.congr hn, h.last⟩

theorem Holds.isSome (h : Holds next t l) : t.head.isSome = true ↔ l ≠ [] := by
  have hchain := h.chain
  cases l with
  | nil =>
    have hnone : t.head = none := hchain
    simp [hnone]
  | cons y l => simp [hchain.1]

variable [DecidableEq ι]

/-- Only the link of the last element changes. -/
theorem Holds.hang_of_not_mem (h : Holds next t l) (hne : l ≠ []) (hx : x ∉ l) :
    t.hang after next x = next x := by
  have hlast := h.last hne
  obtain ⟨l₁, y, rfl⟩ := List.eq_nil_or_concat' l |>.resolve_left hne
  rw [List.getLast?_concat] at hlast
  unfold hang
  rw [hlast]
  refine Function.update_of_ne (fun he => hx ?_) _ _
  rw [he]
  simp

/-- What comes behind the last element comes behind the list. -/
theorem Holds.hang (h : Holds next t l) (hne : l ≠ []) (hafter : Chain next after l')
    (hdisjoint : ∀ x ∈ l, x ∉ l') : Chain (t.hang after next) t.head (l ++ l') := by
  have hlast := h.last hne
  obtain ⟨l₁, y, rfl⟩ := List.eq_nil_or_concat' l |>.resolve_left hne
  rw [List.getLast?_concat] at hlast
  unfold Tail.hang
  rw [hlast, List.append_assoc]
  exact h.chain.concat hafter (hdisjoint y (by simp))

theorem Holds.link_of_not_mem {y : ι} (h : Holds next t l) (hy : y ∉ l) :
    t.link x next y = next y := by
  unfold link
  split
  next hsome => exact h.hang_of_not_mem (h.isSome.mp hsome) hy
  next => rfl

/-- An element that is put at the end, and leads nowhere, is the last one. -/
theorem Holds.add (h : Holds next t l) (hx : x ∉ l) :
    Holds (Function.update (t.link x next) x none) (t.add x) (l ++ [x]) := by
  refine ⟨?_, fun _ => by rw [List.getLast?_concat]; rfl⟩
  unfold Tail.add
  by_cases hne : l = []
  · subst hne
    rw [if_neg fun hsome => h.isSome.mp hsome rfl]
    exact ⟨rfl, Function.update_self ..⟩
  · have hsome := h.isSome.mpr hne
    have hself : Chain (Function.update next x none) (some x) [x] :=
      ⟨rfl, Function.update_self ..⟩
    have hout : Holds (Function.update next x none) t l :=
      h.congr fun y hy => Function.update_of_ne (ne_of_mem_of_not_mem hy hx) _ _
    have hlong := hout.hang hne hself fun y hy hyx =>
      hx (List.mem_singleton.mp hyx ▸ hy)
    have hlast := h.last hne
    obtain ⟨l₁, z, rfl⟩ := List.eq_nil_or_concat' l |>.resolve_left hne
    rw [List.getLast?_concat] at hlast
    have hxz : x ≠ z := fun he => hx (by simp [he])
    have hsame : Function.update (t.link x next) x none =
        t.hang (some x) (Function.update next x none) := by
      unfold Tail.link Tail.hang
      rw [if_pos hsome, hlast]
      exact Function.update_comm (Ne.symm hxz) _ _ _
    rw [if_pos hsome, hsame]
    exact hlong

end Tail

end Intrusive
