import BgqVrnic.Chain

namespace Intrusive

variable {ι π : Type*}

/-- Elements with a forward and a back link, and a head pointer for each of several lists. -/
@[ext]
structure Heap (ι π : Type*) where
  next : ι → Option ι
  prev : ι → Option ι
  head : π → Option ι

/-- What the back links of a list are good for: nothing, one step back, or that unless they are null. -/
inductive Discipline
  | single | double | loose
  deriving DecidableEq, Repr

def Kept (next prev : ι → Option ι) : Discipline → Option ι → List ι → Prop
  | .single => Chain next
  | .double => Linked next prev none
  | .loose => Loose next prev none

/-- The heads lead to the lists `L`, which have no element in common. -/
structure Family (kind : π → Discipline) (h : Heap ι π) (L : π → List ι) : Prop where
  kept : ∀ p, Kept h.next h.prev (kind p) (h.head p) (L p)
  only : ∀ x p q, x ∈ L p → x ∈ L q → p = q

variable {next prev next' prev' : ι → Option ι} {d : Discipline} {head head' : Option ι}
variable {l l' : List ι} {c x : ι} {kind : π → Discipline} {h : Heap ι π} {L : π → List ι} {p q : π}

theorem Kept.chain (hk : Kept next prev d head l) : Chain next head l := by
  cases d with
  | single => exact hk
  | double => exact Linked.chain hk
  | loose => exact Loose.chain hk

theorem Kept.congr (hk : Kept next prev d head l) (hn : ∀ x ∈ l, next' x = next x)
    (hp : d ≠ .single → ∀ x ∈ l, prev' x = prev x) : Kept next' prev' d head l := by
  cases d with
  | single => exact Chain.congr hk hn
  | double => exact Linked.congr hk hn (hp (by simp))
  | loose => exact Loose.congr hk hn (hp (by simp))

theorem Kept.prev_mem (hk : Kept next prev d head l) (hd : d ≠ .single) (hc : c ∈ l)
    (hx : prev c = some x) : x ∈ l := by
  cases d with
  | single => exact absurd rfl hd
  | double =>
    rcases Linked.prev_next hk hc with ⟨-, hp⟩ | ⟨y, hy, hp, -⟩
    · rw [hx] at hp
      cases hp
    · rw [hx] at hp
      cases hp
      exact hy
  | loose =>
    rcases Loose.prev_next hk hc with hp | ⟨-, hp⟩ | ⟨y, hy, hp, -⟩
    · rw [hx] at hp
      cases hp
    · rw [hx] at hp
      cases hp
    · rw [hx] at hp
      cases hp
      exact hy

/-- In a doubly linked list only the first element has no predecessor. -/
theorem Kept.head_iff (hk : Kept next prev .double head l) (hc : c ∈ l) :
    prev c = none ↔ head = some c := by
  rcases Linked.prev_next hk hc with ⟨hh, hp⟩ | ⟨y, hy, hp, hn⟩
  · exact iff_of_true hp hh
  · refine iff_of_false (by simp [hp]) fun hh => ?_
    have hch : Chain next head l := Linked.chain hk
    rw [hh] at hch
    exact hch.head_not_next hy hn

theorem Kept.head_prev (hk : Kept next prev d head l) (hd : d ≠ .single) (hh : head = some c) :
    prev c = none := by
  have hmem : c ∈ l := hk.chain.head_mem hh
  cases d with
  | single => exact absurd rfl hd
  | double => exact (hk.head_iff hmem).mpr hh
  | loose =>
    cases l with
    | nil => simp at hmem
    | cons x l =>
      have hx : x = c := Option.some.inj (hk.1.symm.trans hh)
      subst hx
      exact hk.2.1.elim id id

theorem Family.head_place (hf : Family kind h L) (hc : c ∈ L p) (hh : h.head q = some c) : q = p :=
  hf.only c q p ((hf.kept q).chain.head_mem hh) hc

variable [DecidableEq ι] [DecidableEq π]

theorem Kept.unlink (hk : Kept next prev d head l) (hd : d ≠ .single)
    (hloose : d = .loose → prev c ≠ none) (hc : c ∈ l) :
    Kept (unlinkNext next prev c) (unlinkPrev next prev c) d
      (if head = some c then next c else head) (l.erase c) := by
  obtain ⟨l₁, l₂, rfl⟩ := List.append_of_mem hc
  have hnd := hk.chain.nodup
  have hc₁ : c ∉ l₁ := by
    intro hmem
    have := List.nodup_append.mp hnd
    exact this.2.2 c hmem c (by simp) rfl
  rw [List.erase_append_right _ hc₁, List.erase_cons_head]
  cases d with
  | single => exact absurd rfl hd
  | double => exact Linked.unlink hk (by simp)
  | loose => exact Loose.unlink hk (hloose rfl) (by simp)

namespace Heap

/-- Take `c` out of the list at `p`. -/
def unlink (h : Heap ι π) (p : π) (c : ι) : Heap ι π where
  next := unlinkNext h.next h.prev c
  prev := unlinkPrev h.next h.prev c
  head := Function.update h.head p (if h.head p = some c then h.next c else h.head p)

/-- Put `c` at the front of the doubly linked list at `p`. -/
def push (h : Heap ι π) (p : π) (c : ι) : Heap ι π where
  next := Function.update h.next c (h.head p)
  prev := Function.update (pushPrev h.prev (h.head p) c) c none
  head := Function.update h.head p (some c)

/-- Put `c` at the front of the singly linked list at `p`. -/
def pushSingle (h : Heap ι π) (p : π) (c : ι) : Heap ι π where
  next := Function.update h.next c (h.head p)
  prev := Function.update h.prev c none
  head := Function.update h.head p (some c)

/-- Take the first element of the singly linked list at `p` off it. -/
def pop (h : Heap ι π) (p : π) (c : ι) : Heap ι π where
  next := Function.update h.next c none
  prev := Function.update h.prev c none
  head := Function.update h.head p (h.next c)

/-- Hang the list at `q` on `x`, the last element of the one at `p`, and let the head at `q` lead to
the whole. -/
def splice (h : Heap ι π) (p q : π) (x : ι) : Heap ι π where
  next := Function.update h.next x (h.head q)
  prev := h.prev
  head := Function.update (Function.update h.head q (h.head p)) p none

end Heap

/-- The lists after all of the one at `p` has gone before the one at `q`. -/
def spliced (L : π → List ι) (p q : π) : π → List ι :=
  Function.update (Function.update L q (L p ++ L q)) p []

theorem Family.unlink (hf : Family kind h L) (hd : kind p ≠ .single)
    (hloose : kind p = .loose → h.prev c ≠ none) (hc : c ∈ L p) :
    Family kind (h.unlink p c) (Function.update L p ((L p).erase c)) := by
  refine ⟨fun q => ?_, fun x q r hq hr => ?_⟩
  · by_cases hq : q = p
    · subst hq
      simp only [Heap.unlink, Function.update_self]
      exact (hf.kept q).unlink hd hloose hc
    · simp only [Heap.unlink, Function.update_of_ne hq]
      refine (hf.kept q).congr (fun x hx => ?_) (fun _ x hx => ?_)
      · refine unlinkNext_of_ne fun he => hq ?_
        exact hf.only x q p hx ((hf.kept p).prev_mem hd hc he)
      · refine unlinkPrev_of_ne fun he => hq ?_
        exact hf.only x q p hx ((hf.kept p).chain.next_mem hc he)
  · have hsub : ∀ r, x ∈ Function.update L p ((L p).erase c) r → x ∈ L r := by
      intro r hr
      by_cases hrp : r = p
      · subst hrp
        rw [Function.update_self] at hr
        exact List.mem_of_mem_erase hr
      · rwa [Function.update_of_ne hrp] at hr
    exact hf.only x q r (hsub q hq) (hsub r hr)

theorem Family.unlink_not_mem (hf : Family kind h L) (hc : c ∈ L p) (q : π) :
    c ∉ Function.update L p ((L p).erase c) q := by
  by_cases hq : q = p
  · subst hq
    rw [Function.update_self]
    exact (hf.kept q).chain.nodup.not_mem_erase
  · rw [Function.update_of_ne hq]
    exact fun hmem => hq (hf.only c q p hmem hc)

omit [DecidableEq ι] in
theorem Family.cons_only (hf : Family kind h L) (hc : ∀ q, c ∉ L q) (x : ι) (q r : π)
    (hq : x ∈ Function.update L p (c :: L p) q) (hr : x ∈ Function.update L p (c :: L p) r) :
    q = r := by
  have hcase : ∀ r, x ∈ Function.update L p (c :: L p) r → x = c ∧ r = p ∨ x ∈ L r := by
    intro r hr
    by_cases hrp : r = p
    · subst hrp
      rw [Function.update_self] at hr
      exact (List.mem_cons.mp hr).imp_left fun he => ⟨he, rfl⟩
    · rw [Function.update_of_ne hrp] at hr
      exact Or.inr hr
  rcases hcase q hq with ⟨rfl, rfl⟩ | hq'
  · rcases hcase r hr with ⟨-, rfl⟩ | hr'
    · rfl
    · exact absurd hr' (hc r)
  · rcases hcase r hr with ⟨rfl, -⟩ | hr'
    · exact absurd hq' (hc q)
    · exact hf.only x q r hq' hr'

theorem Family.push (hf : Family kind h L) (hp : kind p = .double) (hc : ∀ q, c ∉ L q) :
    Family kind (h.push p c) (Function.update L p (c :: L p)) := by
  refine ⟨fun q => ?_, hf.cons_only hc⟩
  by_cases hq : q = p
  · subst hq
    have hk := hf.kept q
    simp only [Heap.push, Function.update_self]
    rw [hp] at hk ⊢
    exact Linked.push hk (hc q)
  · have hxc : ∀ x ∈ L q, x ≠ c := fun x hx => ne_of_mem_of_not_mem hx (hc q)
    simp only [Heap.push, Function.update_of_ne hq]
    refine (hf.kept q).congr (fun x hx => Function.update_of_ne (hxc x hx) ..) fun _ x hx => ?_
    rw [Function.update_of_ne (hxc x hx)]
    refine pushPrev_of_ne fun he => hq ?_
    exact hf.only x q p hx ((hf.kept p).chain.head_mem he)

theorem Family.pushSingle (hf : Family kind h L) (hp : kind p = .single) (hc : ∀ q, c ∉ L q) :
    Family kind (h.pushSingle p c) (Function.update L p (c :: L p)) := by
  refine ⟨fun q => ?_, hf.cons_only hc⟩
  by_cases hq : q = p
  · subst hq
    have hk := hf.kept q
    simp only [Heap.pushSingle, Function.update_self]
    rw [hp] at hk ⊢
    exact Chain.push hk (hc q)
  · have hxc : ∀ x ∈ L q, x ≠ c := fun x hx => ne_of_mem_of_not_mem hx (hc q)
    simp only [Heap.pushSingle, Function.update_of_ne hq]
    exact (hf.kept q).congr (fun x hx => Function.update_of_ne (hxc x hx) ..)
      fun _ x hx => Function.update_of_ne (hxc x hx) ..

theorem Family.pop (hf : Family kind h L) (hp : kind p = .single) (hl : L p = c :: l) :
    Family kind (h.pop p c) (Function.update L p l) := by
  have hkp := hf.kept p
  rw [hl] at hkp
  have hnd := List.nodup_cons.mp hkp.chain.nodup
  refine ⟨fun q => ?_, fun x q r hq hr => ?_⟩
  · by_cases hq : q = p
    · subst hq
      simp only [Heap.pop, Function.update_self]
      have hxc : ∀ x ∈ l, x ≠ c := fun x hx => ne_of_mem_of_not_mem hx hnd.1
      rw [hp] at hkp ⊢
      exact Chain.congr hkp.2 fun x hx => Function.update_of_ne (hxc x hx) ..
    · have hcq : c ∉ L q := fun hmem => hq (hf.only c q p hmem (by simp [hl]))
      have hxc : ∀ x ∈ L q, x ≠ c := fun x hx => ne_of_mem_of_not_mem hx hcq
      simp only [Heap.pop, Function.update_of_ne hq]
      exact (hf.kept q).congr (fun x hx => Function.update_of_ne (hxc x hx) ..)
        fun _ x hx => Function.update_of_ne (hxc x hx) ..
  · have hsub : ∀ r, x ∈ Function.update L p l r → x ∈ L r := by
      intro r hr
      by_cases hrp : r = p
      · subst hrp
        rw [Function.update_self] at hr
        simp [hl, hr]
      · rwa [Function.update_of_ne hrp] at hr
    exact hf.only x q r (hsub q hq) (hsub r hr)

omit [DecidableEq ι] in
theorem mem_spliced {r : π} (hpq : p ≠ q) :
    x ∈ spliced L p q r ↔ r ≠ p ∧ (x ∈ L r ∨ r = q ∧ x ∈ L p) := by
  unfold spliced
  by_cases hrp : r = p
  · subst hrp
    simp
  · rw [Function.update_of_ne hrp]
    by_cases hrq : r = q
    · subst hrq
      simp [hrp, or_comm]
    · simp [hrp, hrq]

omit [DecidableEq ι] in
theorem exists_mem_spliced (hpq : p ≠ q) : (∃ r, x ∈ spliced L p q r) ↔ ∃ r, x ∈ L r := by
  constructor
  · rintro ⟨r, hr⟩
    rcases (mem_spliced hpq).mp hr with ⟨-, hx | ⟨-, hx⟩⟩
    · exact ⟨r, hx⟩
    · exact ⟨p, hx⟩
  · rintro ⟨r, hr⟩
    by_cases hrp : r = p
    · subst hrp
      exact ⟨q, (mem_spliced hpq).mpr ⟨hpq.symm, Or.inr ⟨rfl, hr⟩⟩⟩
    · exact ⟨r, (mem_spliced hpq).mpr ⟨hrp, Or.inl hr⟩⟩

omit [DecidableEq ι] in
/-- An empty list can be spliced by doing nothing. -/
theorem spliced_nil (hl : L p = []) : spliced L p q = L := by
  unfold spliced
  rw [hl, List.nil_append, Function.update_eq_self, ← hl, Function.update_eq_self]

theorem Family.splice (hf : Family kind h L) (hpq : p ≠ q) (hp : kind p = .double)
    (hq : kind q ≠ .double) (hl : L p = l ++ [x]) :
    Family kind (h.splice p q x) (spliced L p q) := by
  have hxp : x ∈ L p := by simp [hl]
  have hxq : ∀ r, r ≠ p → x ∉ L r := fun r hr hx => hr (hf.only x r p hx hxp)
  refine ⟨fun r => ?_, fun y r s hr hs => ?_⟩
  · by_cases hrp : r = p
    · subst hrp
      simp only [Heap.splice, spliced, Function.update_self, hp]
      rfl
    · by_cases hrq : r = q
      · subst hrq
        have hkp := hf.kept p
        have hkr := hf.kept r
        have hall : L p ++ L r = l ++ x :: L r := by simp [hl]
        simp only [Heap.splice, spliced, Function.update_of_ne hrp, Function.update_self, hall]
        rw [hp, hl] at hkp
        cases hd : kind r with
        | double => exact absurd hd hq
        | single =>
          rw [hd] at hkr
          exact Chain.concat (Linked.chain hkp) hkr (hxq r hrp)
        | loose =>
          rw [hd] at hkr
          exact Loose.concat (Linked.loose hkp) hkr (hxq r hrp)
      · simp only [Heap.splice, spliced, Function.update_of_ne hrp, Function.update_of_ne hrq]
        refine (hf.kept r).congr (fun y hy => Function.update_of_ne ?_ ..) fun _ _ _ => rfl
        exact ne_of_mem_of_not_mem hy (hxq r hrp)
  · -- Membership names the list an element was on before, and only that of `p` has been emptied.
    obtain ⟨hrp, hr'⟩ := (mem_spliced hpq).mp hr
    obtain ⟨hsp, hs'⟩ := (mem_spliced hpq).mp hs
    rcases hr' with hyr | ⟨hrq, hyp⟩
    · rcases hs' with hys | ⟨-, hyp⟩
      · exact hf.only y r s hyr hys
      · exact absurd (hf.only y r p hyr hyp) hrp
    · rcases hs' with hys | ⟨hsq, -⟩
      · exact absurd (hf.only y s p hys hyp) hsp
      · exact hrq.trans hsq.symm

/-- The links of the elements in `S` lead to elements in `S`. -/
def Closed (S : Set ι) (link : ι → Option ι) : Prop := ∀ x ∈ S, ∀ y, link x = some y → y ∈ S

/-- The links of the elements in `S`, and the heads, lead to elements in `S`. -/
structure Heap.Inside (h : Heap ι π) (S : Set ι) : Prop where
  next : Closed S h.next
  prev : Closed S h.prev
  head : ∀ p x, h.head p = some x → x ∈ S

section Inside

variable {S : Set ι} {link : ι → Option ι} {v : Option ι} {heads : π → Option ι}

theorem Closed.update (h : Closed S link) (hv : ∀ y, v = some y → y ∈ S) :
    Closed S (Function.update link c v) := by
  intro x hx y hy
  by_cases hxc : x = c
  · rw [hxc, Function.update_self] at hy
    exact hv y hy
  · rw [Function.update_of_ne hxc] at hy
    exact h x hx y hy

theorem Closed.unlinkNext (hn : Closed S next) (hc : c ∈ S) : Closed S (unlinkNext next prev c) := by
  unfold Intrusive.unlinkNext
  split
  · exact hn.update (hn c hc)
  · exact hn

theorem Closed.unlinkPrev (hp : Closed S prev) (hc : c ∈ S) : Closed S (unlinkPrev next prev c) := by
  unfold Intrusive.unlinkPrev
  split
  · exact hp.update (hp c hc)
  · exact hp

theorem Closed.pushPrev (hp : Closed S prev) (hc : c ∈ S) : Closed S (pushPrev prev head c) := by
  unfold Intrusive.pushPrev
  split
  · exact hp.update fun y hy => Option.some.inj hy ▸ hc
  · exact hp

theorem Closed.update_none (h : Closed S link) : Closed S (Function.update link c none) :=
  h.update fun _ hy => by cases hy

omit [DecidableEq ι] in
theorem heads_update (h : ∀ p x, heads p = some x → x ∈ S) (hv : ∀ y, v = some y → y ∈ S) :
    ∀ q x, Function.update heads p v q = some x → x ∈ S := by
  intro q x hx
  by_cases hq : q = p
  · rw [hq, Function.update_self] at hx
    exact hv x hx
  · rw [Function.update_of_ne hq] at hx
    exact h q x hx

namespace Heap.Inside

theorem push (hi : h.Inside S) (hc : c ∈ S) : (h.push p c).Inside S where
  next := hi.next.update (hi.head p)
  prev := (hi.prev.pushPrev hc).update_none
  head := heads_update hi.head fun _ hy => Option.some.inj hy ▸ hc

theorem pop (hi : h.Inside S) (hc : c ∈ S) : (h.pop p c).Inside S where
  next := hi.next.update_none
  prev := hi.prev.update_none
  head := heads_update hi.head (hi.next c hc)

theorem splice (hi : h.Inside S) : (h.splice p q x).Inside S where
  next := hi.next.update (hi.head q)
  prev := hi.prev
  head := heads_update (heads_update hi.head (hi.head p)) fun _ hy => by cases hy

end Heap.Inside

end Inside

end Intrusive
