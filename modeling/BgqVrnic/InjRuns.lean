import BgqVrnic.InjFifo
import BgqVrnic.RingWindow
import BgqVrnic.Runs

namespace BgqVrnic

open Runs

/-- The fifo of `n` slots after the descriptors of `l`, of which the MU has taken the first `c`. -/
structure InjFifo.Fits (n : Nat) (l : List MuDescriptor) (c : Nat) (f : InjFifo) : Prop where
  le : c ≤ l.length
  holds : Rings.Holds n f.slots (l.map some) c
  tail : f.tail = l.length % n
  hwTail : f.hwTail = l.length % n
  hwHead : f.hwHead = c % n
  hwFreeSpace : f.hwFreeSpace + l.length + 1 = c + n
  freeSpace : f.freeSpace ≤ f.hwFreeSpace
  numInjected : f.numInjected = l.length
  hwDescCount : f.hwDescCount = c
  descCount : f.descCount ≤ c

namespace InjFifo

variable {n c desc : Nat} {l : List MuDescriptor} {d : MuDescriptor} {f : InjFifo}

theorem nextSlot_mod (hn : 0 < n) (i : Nat) : nextSlot n (i % n) = (i + 1) % n :=
  Rings.next_mod hn

/-- Looking for a slot changes the shadow of the free space and nothing else. -/
theorem nextDesc_fst :
    f.nextDesc.1 = { f with freeSpace := if f.freeSpace = 0 then f.hwFreeSpace else f.freeSpace } := by
  unfold nextDesc
  split
  next => rfl
  next => rfl

theorem nextDesc_snd (hnum : f.numInjected + 1 < 2 ^ 64) :
    f.nextDesc.2 = if f.nextDesc.1.freeSpace = 0 then noDesc else f.numInjected + 1 := by
  unfold nextDesc
  split
  next => simp only [Nat.mod_eq_of_lt hnum]
  next hz => simp only [Nat.mod_eq_of_lt hnum, if_neg hz]

theorem checkDescComplete_fst :
    (f.checkDescComplete desc).1 =
      { f with descCount := if desc ≤ f.descCount then f.descCount else f.hwDescCount } := by
  unfold checkDescComplete
  split
  next => rfl
  next => rfl

theorem fits_activated (hn : minInjFifoSlots ≤ n) (slots : Nat → Option MuDescriptor) :
    (activatedFifo n slots).Fits n [] 0 where
  le := le_rfl
  holds := fun j _ hlt => absurd hlt (Nat.not_lt_zero j)
  tail := (Nat.zero_mod n).symm
  hwTail := (Nat.zero_mod n).symm
  hwHead := (Nat.zero_mod n).symm
  hwFreeSpace := by
    change 2 ≤ n at hn
    show n - 1 + 0 + 1 = 0 + n
    omega
  freeSpace := le_rfl
  numInjected := rfl
  hwDescCount := rfl
  descCount := le_rfl

theorem Fits.nextDesc (h : f.Fits n l c) : f.nextDesc.1.Fits n l c := by
  rw [nextDesc_fst]
  exact { h with
    freeSpace := by
      show (if f.freeSpace = 0 then f.hwFreeSpace else f.freeSpace) ≤ f.hwFreeSpace
      split
      next => exact le_rfl
      next => exact h.freeSpace }

/-- A descriptor number is only given out together with a free slot. -/
theorem Fits.found (h : f.Fits n l c) (hl : l.length + 2 < 2 ^ 64) (hnum : f.nextDesc.2 ≠ noDesc) :
    f.nextDesc.2 = l.length + 1 ∧ 0 < f.nextDesc.1.freeSpace := by
  have hlt : f.numInjected + 1 < 2 ^ 64 := by
    have hn := h.numInjected
    omega
  rw [nextDesc_snd hlt] at hnum ⊢
  by_cases hz : f.nextDesc.1.freeSpace = 0
  · exact absurd (if_pos hz) hnum
  · rw [if_neg hz, h.numInjected]
    exact ⟨rfl, Nat.pos_of_ne_zero hz⟩

theorem Fits.finds (h : f.Fits n l c) (hl : l.length + 2 < 2 ^ 64)
    (hroom : l.length + 1 < c + n) :
    f.nextDesc.2 = l.length + 1 := by
  have hlt : f.numInjected + 1 < 2 ^ 64 := by
    have hn := h.numInjected
    omega
  have hfree : f.nextDesc.1.freeSpace ≠ 0 := by
    rw [nextDesc_fst]
    show (if f.freeSpace = 0 then f.hwFreeSpace else f.freeSpace) ≠ 0
    have hhw := h.hwFreeSpace
    split
    next => omega
    next hz => exact hz
  rw [nextDesc_snd hlt, if_neg hfree, h.numInjected]

theorem Fits.write (h : f.Fits n l c) :
    Fits n l c { f with slots := Function.update f.slots f.tail (some d) } := by
  have hroom : (l.map some).length < c + n := by
    have hhw := h.hwFreeSpace
    rw [List.length_map]
    omega
  have hw := h.holds.write (x := some d) hroom
  rw [List.length_map] at hw
  exact { h with
    holds := by
      rw [h.tail]
      exact hw }

/-- The tail moves over a descriptor that is in its slot, onto the slot that was unused. -/
theorem Fits.advanceDesc (h : f.Fits n l c) (hl : l.length + 1 < 2 ^ 64) (hfree : 0 < f.freeSpace)
    (hd : f.slots f.tail = some d) : (f.advanceDesc n).Fits n (l ++ [d]) c := by
  have hshadow := h.freeSpace
  have hhw := h.hwFreeSpace
  have hpos := hfree.trans_le hshadow
  have hspare : l.length + 1 < c + n := by omega
  have hn : 0 < n := by
    have hle := h.le
    omega
  have hlen : (l ++ [d]).length = l.length + 1 := by simp
  have hnext : nextSlot n f.tail = (l ++ [d]).length % n := by
    rw [h.tail, hlen]
    exact nextSlot_mod hn _
  have hpush : Rings.Holds n f.slots ((l ++ [d]).map some) c := by
    rw [List.map_append]
    apply h.holds.push
    rw [List.length_map, ← h.tail]
    exact hd
  have hclear := hpush.write (x := none) (by
    rw [List.length_map]
    omega)
  rw [List.length_map, ← hnext] at hclear
  refine ⟨?_, hclear, hnext, hnext, h.hwHead, ?_, ?_, ?_, h.hwDescCount, h.descCount⟩
  · have hle := h.le
    omega
  · show f.hwFreeSpace - 1 + (l ++ [d]).length + 1 = c + n
    omega
  · show f.freeSpace - 1 ≤ f.hwFreeSpace - 1
    omega
  · show (f.numInjected + 1) % 2 ^ 64 = (l ++ [d]).length
    rw [h.numInjected, hlen]
    exact Nat.mod_eq_of_lt hl

theorem Fits.consume {f' : InjFifo} {x : Option MuDescriptor} (h : f.Fits n l c)
    (hl : l.length + 1 < 2 ^ 64) (hc : f.consume n = some (f', x)) :
    f'.Fits n l (c + 1) ∧ l[c]?.map some = some x := by
  unfold InjFifo.consume at hc
  by_cases hsome : f.hwHead ≠ f.hwTail
  · rw [if_pos hsome] at hc
    cases Option.some.inj hc
    have hhw := h.hwFreeSpace
    have hle := h.le
    have hne : c ≠ l.length := by
      rintro rfl
      exact hsome (h.hwHead.trans h.hwTail.symm)
    have hlt : c < l.length := by omega
    have hget := h.holds.get (by rwa [List.length_map])
    rw [List.getElem?_map, ← h.hwHead] at hget
    refine ⟨⟨hlt, h.holds.mono (Nat.le_succ c), h.tail, h.hwTail, ?_, ?_, ?_, h.numInjected, ?_, ?_⟩,
      hget⟩
    · show nextSlot n f.hwHead = (c + 1) % n
      rw [h.hwHead]
      exact nextSlot_mod (by omega) c
    · show f.hwFreeSpace + 1 + l.length + 1 = c + 1 + n
      omega
    · exact h.freeSpace.trans (Nat.le_succ _)
    · show (f.hwDescCount + 1) % 2 ^ 64 = c + 1
      rw [h.hwDescCount]
      exact Nat.mod_eq_of_lt (by omega)
    · exact h.descCount.trans (Nat.le_succ c)
  · rw [if_neg hsome] at hc
    cases hc

/-- As long as there is a descriptor left, the MU can take it. -/
theorem Fits.consumes (h : f.Fits n l c) (hlt : c < l.length) :
    ∃ f' x, f.consume n = some (f', x) ∧ f'.active = f.active := by
  have hroom := h.hwFreeSpace
  have hne : f.hwHead ≠ f.hwTail := by
    rw [h.hwHead, h.hwTail]
    exact Rings.mod_ne_of_window le_rfl hlt (by omega)
  exact ⟨_, _, if_pos hne, rfl⟩

theorem Fits.checkDescComplete (h : f.Fits n l c) (desc : Nat) :
    (f.checkDescComplete desc).1.Fits n l c := by
  rw [checkDescComplete_fst]
  exact { h with
    descCount := by
      show (if desc ≤ f.descCount then f.descCount else f.hwDescCount) ≤ c
      split
      next => exact h.descCount
      next => exact h.hwDescCount.le }

/-- A descriptor that is reported complete has been taken by the MU. -/
theorem Fits.complete (h : f.Fits n l c) (hdone : (f.checkDescComplete desc).2 = true) :
    desc ≤ c := by
  unfold InjFifo.checkDescComplete at hdone
  by_cases hs : desc ≤ f.descCount
  · exact hs.trans h.descCount
  · rw [if_neg hs] at hdone
    rw [← h.hwDescCount]
    exact of_decide_eq_true hdone

theorem Fits.deactivate (h : f.Fits n l c) (active : Bool) :
    Fits n l c { f with active := active } := { h with }

end InjFifo

/-- What the holder of the lock knows about the slot and the number it was given. -/
def PhaseFits (injected : List MuDescriptor) (f : InjFifo) : InjPhase → Prop
  | .idle => injected.length + 1 < 2 ^ 64
  | .looking _ => injected.length + 2 < 2 ^ 64
  | .found _ num slot =>
    injected.length + 2 < 2 ^ 64 ∧ num = injected.length + 1 ∧ slot = f.tail ∧ 0 < f.freeSpace
  | .written desc num =>
    injected.length + 2 < 2 ^ 64 ∧ num = injected.length + 1 ∧ f.slots f.tail = some desc ∧
      0 < f.freeSpace

structure RingInv (n : Nat) (s : InjState) : Prop where
  fifo : s.fifo.Fits n s.injected s.consumed.length
  taken : s.consumed = (s.injected.take s.consumed.length).map some
  numbers : s.results.filter (· ≠ noDesc) = List.range' 1 s.injected.length
  phase : PhaseFits s.injected s.fifo s.phase

/-- What users of the fifo rely on: what is not consumed is in its slot, the MU consumes what was
injected in order, the k-th injection is given the number k as soon as there is a slot for it, only
what was consumed is reported complete, and a call that is cancelled leaves no other trace than its
result. -/
structure RingSound (n : Nat) (s : InjState) : Prop where
  intact : Rings.Holds n s.fifo.slots (s.injected.map some) s.consumed.length
  inOrder : s.consumed = (s.injected.take s.consumed.length).map some
  numbers : s.results.filter (· ≠ noDesc) = List.range' 1 s.injected.length
  answered : ∀ call, s.phase = .looking call → s.fifo.active = true →
    s.injected.length + 1 < s.consumed.length + n →
    (lookStep s call).phase = .found call (s.injected.length + 1) s.fifo.tail
  complete : ∀ desc, (s.fifo.checkDescComplete desc).2 = true → desc ≤ s.consumed.length
  cancelled : ∀ call, s.phase = .looking call → s.fifo.active = false →
    ∃ freeSpace, lookStep s call =
      { s with
        fifo := { s.fifo with freeSpace := freeSpace }
        phase := .idle
        results := s.results ++ [noDesc] }

/-- No call is made after 2 ^ 64 - 2 injections. -/
def NumbersLeft (s : InjState) : InjInput → Prop
  | .call _ => s.injected.length + 2 < 2 ^ 64
  | _ => True

instance decidableNumbersLeft (s : InjState) : (i : InjInput) → Decidable (NumbersLeft s i)
  | .call _ => inferInstanceAs (Decidable (_ < _))
  | .look | .fill | .advance | .consume | .check _ | .deactivate =>
    inferInstanceAs (Decidable True)

variable {n : Nat} {s s' : InjState} {i : InjInput} {is : List InjInput} {call : Injection}

theorem lookStep_cancelled (hactive : s.fifo.active = false) :
    lookStep s call =
      { s with fifo := s.fifo.nextDesc.1, phase := .idle, results := s.results ++ [noDesc] } := by
  have ha : s.fifo.nextDesc.1.active = false := by
    rw [InjFifo.nextDesc_fst]
    exact hactive
  simp [lookStep, ha]

theorem lookStep_full (hactive : s.fifo.active = true) (hnum : s.fifo.nextDesc.2 = noDesc) :
    lookStep s call = { s with fifo := s.fifo.nextDesc.1 } := by
  have ha : s.fifo.nextDesc.1.active = true := by
    rw [InjFifo.nextDesc_fst]
    exact hactive
  simp [lookStep, ha, hnum]

theorem lookStep_found (hactive : s.fifo.active = true) (hnum : s.fifo.nextDesc.2 ≠ noDesc) :
    lookStep s call =
      { s with
        fifo := s.fifo.nextDesc.1
        phase := .found call s.fifo.nextDesc.2 s.fifo.tail } := by
  have ha : s.fifo.nextDesc.1.active = true := by
    rw [InjFifo.nextDesc_fst]
    exact hactive
  have ht : s.fifo.nextDesc.1.tail = s.fifo.tail := by rw [InjFifo.nextDesc_fst]
  simp [lookStep, ha, hnum, ht]

theorem filter_results_append {results : List Nat} {num : Nat} (hnum : num ≠ noDesc) :
    (results ++ [num]).filter (· ≠ noDesc) = results.filter (· ≠ noDesc) ++ [num] := by
  simp [List.filter_append, hnum]

theorem RingInv.sound (h : RingInv n s) : RingSound n s where
  intact := h.fifo.holds
  inOrder := h.taken
  numbers := h.numbers
  answered := by
    intro call hphase hactive hroom
    have hl := h.phase
    rw [hphase] at hl
    have hnum := h.fifo.finds hl hroom
    have hne : s.fifo.nextDesc.2 ≠ noDesc := by
      rw [hnum]
      show s.injected.length + 1 ≠ 2 ^ 64 - 1
      change s.injected.length + 2 < 2 ^ 64 at hl
      omega
    rw [lookStep_found hactive hne, hnum]
  complete := fun desc hdone => h.fifo.complete hdone
  cancelled := by
    intro call _ hactive
    refine ⟨if s.fifo.freeSpace = 0 then s.fifo.hwFreeSpace else s.fifo.freeSpace, ?_⟩
    rw [lookStep_cancelled hactive, InjFifo.nextDesc_fst]

theorem ringInv_activated (hn : minInjFifoSlots ≤ n) (slots : Nat → Option MuDescriptor)
    (sendCount : Nat → Nat) : RingInv n (activated n slots sendCount) where
  fifo := InjFifo.fits_activated hn slots
  taken := rfl
  numbers := rfl
  phase := show 0 + 1 < 2 ^ 64 by omega

/-- What the MU, a reader of the count and the end of the link do to the fifo is of no matter to the
holder of the lock. -/
theorem PhaseFits.congr {injected : List MuDescriptor} {f f' : InjFifo} {phase : InjPhase}
    (h : PhaseFits injected f phase) (hs : f'.slots = f.slots) (ht : f'.tail = f.tail)
    (hfree : f'.freeSpace = f.freeSpace) : PhaseFits injected f' phase := by
  cases phase with
  | idle => exact h
  | looking call => exact h
  | found call num slot => simpa only [PhaseFits, ht, hfree] using h
  | written desc num => simpa only [PhaseFits, hs, ht, hfree] using h

theorem PhaseFits.length_lt {injected : List MuDescriptor} {f : InjFifo} {phase : InjPhase}
    (h : PhaseFits injected f phase) : injected.length + 1 < 2 ^ 64 := by
  cases phase with
  | idle => exact h
  | looking call => exact Nat.lt_of_succ_lt h
  | found call num slot => exact Nat.lt_of_succ_lt h.1
  | written desc num => exact Nat.lt_of_succ_lt h.1

theorem RingInv.look (h : RingInv n s) (hphase : s.phase = .looking call) :
    RingInv n (lookStep s call) := by
  have hl := h.phase
  rw [hphase] at hl
  have hfits := h.fifo.nextDesc
  cases hactive : s.fifo.active with
  | false =>
    rw [lookStep_cancelled hactive]
    refine ⟨hfits, h.taken, ?_, Nat.lt_of_succ_lt hl⟩
    show (s.results ++ [noDesc]).filter (· ≠ noDesc) = _
    rw [List.filter_append, h.numbers]
    simp
  | true =>
    by_cases hnum : s.fifo.nextDesc.2 = noDesc
    · rw [lookStep_full hactive hnum]
      refine ⟨hfits, h.taken, h.numbers, ?_⟩
      rw [hphase]
      exact hl
    · rw [lookStep_found hactive hnum]
      obtain ⟨hk, hfree⟩ := h.fifo.found hl hnum
      refine ⟨hfits, h.taken, h.numbers, hl, hk, ?_, hfree⟩
      rw [InjFifo.nextDesc_fst]

theorem RingInv.fill {num slot : Nat} (h : RingInv n s) (hphase : s.phase = .found call num slot)
    {desc : MuDescriptor} {sendCount : Nat → Nat} :
    RingInv n
      { s with
        fifo := { s.fifo with slots := Function.update s.fifo.slots slot (some desc) }
        sendCount := sendCount
        phase := .written desc num } := by
  have hp := h.phase
  rw [hphase] at hp
  obtain ⟨hl, hk, rfl, hfree⟩ := hp
  refine ⟨h.fifo.write, h.taken, h.numbers, hl, hk, ?_, hfree⟩
  exact Function.update_self ..

theorem RingInv.advance {desc : MuDescriptor} {num : Nat} (h : RingInv n s)
    (hphase : s.phase = .written desc num) :
    RingInv n
      { s with
        fifo := s.fifo.advanceDesc n
        phase := .idle
        injected := s.injected ++ [desc]
        results := s.results ++ [num] } := by
  have hp := h.phase
  rw [hphase] at hp
  obtain ⟨hl, hk, hslot, hfree⟩ := hp
  have hlen : (s.injected ++ [desc]).length = s.injected.length + 1 := by simp
  refine ⟨h.fifo.advanceDesc (Nat.lt_of_succ_lt hl) hfree hslot, ?_, ?_, ?_⟩
  · show s.consumed = ((s.injected ++ [desc]).take s.consumed.length).map some
    rw [List.take_append_of_le_length h.fifo.le]
    exact h.taken
  · have hne : num ≠ noDesc := by
      show num ≠ 2 ^ 64 - 1
      omega
    show (s.results ++ [num]).filter (· ≠ noDesc) = List.range' 1 (s.injected ++ [desc]).length
    rw [filter_results_append hne, h.numbers, hlen, List.range'_concat, hk]
    simp [Nat.add_comm]
  · show (s.injected ++ [desc]).length + 1 < 2 ^ 64
    omega

theorem RingInv.consume {f : InjFifo} {x : Option MuDescriptor} (h : RingInv n s)
    (hc : s.fifo.consume n = some (f, x)) :
    RingInv n { s with fifo := f, consumed := s.consumed ++ [x] } := by
  obtain ⟨hfits, hx⟩ := h.fifo.consume h.phase.length_lt hc
  have hlen : (s.consumed ++ [x]).length = s.consumed.length + 1 := by simp
  refine ⟨?_, ?_, h.numbers, ?_⟩
  · show f.Fits n s.injected (s.consumed ++ [x]).length
    rw [hlen]
    exact hfits
  · obtain ⟨d, hd, rfl⟩ := Option.map_eq_some_iff.mp hx
    show s.consumed ++ [some d] = (s.injected.take (s.consumed ++ [some d]).length).map some
    rw [List.length_append, List.length_singleton, List.take_add_one, hd, List.map_append,
      ← h.taken]
    rfl
  · unfold InjFifo.consume at hc
    obtain ⟨_, hc⟩ := Option.ite_none_right_eq_some.mp hc
    cases Option.some.inj hc
    exact h.phase.congr rfl rfl rfl

theorem injStep_inv (h : RingInv n s) (hok : NumbersLeft s i) (hstep : injStep n s i = some s') :
    RingInv n s' := by
  cases i with
  | call call =>
    cases hphase : s.phase with
    | idle =>
      simp only [injStep, hphase, Option.some.injEq] at hstep
      subst hstep
      exact ⟨h.fifo, h.taken, h.numbers, hok⟩
    | _ => simp [injStep, hphase] at hstep
  | look =>
    cases hphase : s.phase with
    | looking call =>
      simp only [injStep, hphase, Option.some.injEq] at hstep
      subst hstep
      exact h.look hphase
    | _ => simp [injStep, hphase] at hstep
  | fill =>
    cases hphase : s.phase with
    | found call num slot =>
      simp only [injStep, hphase, Option.some.injEq] at hstep
      subst hstep
      exact h.fill hphase
    | _ => simp [injStep, hphase] at hstep
  | advance =>
    cases hphase : s.phase with
    | written desc num =>
      simp only [injStep, hphase, Option.some.injEq] at hstep
      subst hstep
      exact h.advance hphase
    | _ => simp [injStep, hphase] at hstep
  | consume =>
    obtain ⟨⟨f, x⟩, hc, rfl⟩ := Option.map_eq_some_iff.mp hstep
    exact h.consume hc
  | check desc =>
    cases Option.some.inj hstep
    refine ⟨h.fifo.checkDescComplete desc, h.taken, h.numbers, ?_⟩
    rw [InjFifo.checkDescComplete_fst]
    exact h.phase.congr rfl rfl rfl
  | deactivate =>
    cases Option.some.inj hstep
    exact ⟨h.fifo.deactivate false, h.taken, h.numbers, h.phase.congr rfl rfl rfl⟩

/-- The ring is sound all along a run that does not use up the descriptor numbers. -/
theorem ring_sound_while_numbers_left (hn : minInjFifoSlots ≤ n)
    (slots : Nat → Option MuDescriptor) (sendCount : Nat → Nat) (is : List InjInput)
    (hm : Meets (injStep n) NumbersLeft (activated n slots sendCount) is) :
    Always (injStep n) (RingSound n) (activated n slots sendCount) is := by
  have hstep : ∀ s i s', RingInv n s → NumbersLeft s i → injStep n s i = some s' →
      RingInv n s' := fun _ _ _ h hok hs => injStep_inv h hok hs
  exact (always_of_step hstep (ringInv_activated hn slots sendCount) hm).imp fun _ h => h.sound

/-- One injection on an active link that finds a slot. -/
def injecting (call : Injection) : List InjInput := [.call call, .look, .fill, .advance]

/-- The smallest ring that the MU allows, with nothing in its memory. -/
def twoSlots : InjState := activated 2 (fun _ => none) fun _ => 0

theorem ring_sound_while_numbers_left_two_slots :
    Always (injStep 2) (RingSound 2) twoSlots
      (injecting (.plain default) ++ [.consume] ++ injecting (.plain default)) := by
  apply ring_sound_while_numbers_left (by decide)
  iterate 9
    rintro _ ⟨⟩
    refine ⟨by decide, ?_⟩
  trivial

/-- Everything that was injected is consumed, and nobody holds the lock of the active fifo. -/
structure AtRest (n k : Nat) (s : InjState) : Prop where
  inv : RingInv n s
  idle : s.phase = .idle
  active : s.fifo.active = true
  injected : s.injected.length = k
  consumed : s.consumed.length = k

/-- Descriptors are injected and consumed in turn. -/
def laps (call : Injection) : Nat → List InjInput
  | 0 => []
  | k + 1 => laps call k ++ (injecting call ++ [.consume])

theorem AtRest.lap {k : Nat} (hn : minInjFifoSlots ≤ n) (h : AtRest n k s) (hk : k + 2 < 2 ^ 64) :
    ∃ s', run (injStep n) s (injecting call ++ [.consume]) = some s' ∧ AtRest n (k + 1) s' := by
  have hlen : s.injected.length + 2 < 2 ^ 64 := by
    rw [h.injected]
    exact hk
  have hroom : s.injected.length + 1 < s.consumed.length + n := by
    rw [h.injected, h.consumed]
    exact Nat.add_lt_add_left hn k
  have hnum : s.fifo.nextDesc.2 = s.injected.length + 1 := h.inv.fifo.finds hlen hroom
  have hne : s.fifo.nextDesc.2 ≠ noDesc := by
    rw [hnum]
    show s.injected.length + 1 ≠ 2 ^ 64 - 1
    omega
  let s₁ : InjState := { s with phase := .looking call }
  let s₂ : InjState :=
    { s with fifo := s.fifo.nextDesc.1, phase := .found call s.fifo.nextDesc.2 s.fifo.tail }
  let desc := call.build s.sendCount
  let s₃ : InjState :=
    { s₂ with
      fifo := { s₂.fifo with slots := Function.update s₂.fifo.slots s.fifo.tail (some desc) }
      sendCount := call.count s.sendCount
      phase := .written desc s.fifo.nextDesc.2 }
  let s₄ : InjState :=
    { s₃ with
      fifo := s₃.fifo.advanceDesc n
      phase := .idle
      injected := s.injected ++ [desc]
      results := s.results ++ [s.fifo.nextDesc.2] }
  have hcall : injStep n s (.call call) = some s₁ := by simp only [injStep, h.idle, s₁]
  have hlook : injStep n s₁ .look = some s₂ := congrArg some (lookStep_found h.active hne)
  have hfill : injStep n s₂ .fill = some s₃ := rfl
  have hadvance : injStep n s₃ .advance = some s₄ := rfl
  have hinv₄ : RingInv n s₄ := by
    have hinv₁ := injStep_inv (i := .call call) h.inv hlen hcall
    have hinv₂ := injStep_inv (i := .look) hinv₁ trivial hlook
    have hinv₃ := injStep_inv (i := .fill) hinv₂ trivial hfill
    exact injStep_inv (i := .advance) hinv₃ trivial hadvance
  have hinjected : s₄.injected.length = k + 1 := by
    show (s.injected ++ [desc]).length = k + 1
    rw [List.length_append, h.injected, List.length_singleton]
  have hactive : s₄.fifo.active = true := by
    show s.fifo.nextDesc.1.active = true
    rw [InjFifo.nextDesc_fst]
    exact h.active
  obtain ⟨f, x, hf, hfactive⟩ := hinv₄.fifo.consumes (by
    show s.consumed.length < s₄.injected.length
    rw [hinjected, h.consumed]
    exact Nat.lt_succ_self k)
  have hconsume : injStep n s₄ .consume =
      some { s₄ with fifo := f, consumed := s.consumed ++ [x] } := by
    show (s₄.fifo.consume n).map _ = _
    rw [hf]
    rfl
  refine ⟨_, ?_, injStep_inv (i := .consume) hinv₄ trivial hconsume, rfl,
    hfactive.trans hactive, hinjected, ?_⟩
  · simp only [injecting, List.cons_append, List.nil_append, run, hcall, hlook, hfill, hadvance,
      hconsume, Option.bind_some]
  · show (s.consumed ++ [x]).length = k + 1
    rw [List.length_append, h.consumed, List.length_singleton]

theorem AtRest.laps (hn : minInjFifoSlots ≤ n) (h : AtRest n 0 s) (k : Nat) (hk : k + 1 < 2 ^ 64) :
    ∃ s', run (injStep n) s (laps call k) = some s' ∧ AtRest n k s' := by
  induction k with
  | zero => exact ⟨s, rfl, h⟩
  | succ k ih =>
    obtain ⟨t, ht, hrest⟩ := ih (Nat.lt_of_succ_lt hk)
    obtain ⟨s', hs', hrest'⟩ := hrest.lap hn hk
    exact ⟨s', by rw [BgqVrnic.laps, run_append, ht]; exact hs', hrest'⟩

/-- The descriptor with the number 2 ^ 64 - 1 is never injected: its number is the one that stands for
a full ring. -/
theorem AtRest.not_sound {k : Nat} (hn : minInjFifoSlots ≤ n) (h : AtRest n k s)
    (hk : k + 2 = 2 ^ 64) : ¬ RingSound n { s with phase := .looking call } := by
  intro hsound
  have hroom : s.injected.length + 1 < s.consumed.length + n := by
    rw [h.injected, h.consumed]
    exact Nat.add_lt_add_left hn k
  have hlen := h.injected
  have hfits := h.inv.fifo.numInjected
  have hnum : s.fifo.nextDesc.2 = noDesc := by
    rw [InjFifo.nextDesc_snd (by omega)]
    split
    next => rfl
    next =>
      show s.fifo.numInjected + 1 = 2 ^ 64 - 1
      omega
  have hanswer := hsound.answered call rfl h.active hroom
  have hfull : lookStep { s with phase := .looking call } call =
      { s with fifo := s.fifo.nextDesc.1, phase := .looking call } := lookStep_full h.active hnum
  rw [hfull] at hanswer
  cases hanswer

theorem laps_not_sound {k : Nat} (hk : k + 2 = 2 ^ 64) :
    ¬ Always (injStep 2) (RingSound 2) twoSlots (laps call k ++ [.call call]) := by
  intro h
  have hstart : AtRest 2 0 twoSlots := ⟨ringInv_activated (by decide) _ _, rfl, rfl, rfl, rfl⟩
  obtain ⟨s, hs, hrest⟩ := hstart.laps (by decide) k (by omega)
  have hrun : run (injStep 2) twoSlots (laps call k ++ [.call call]) =
      some { s with phase := .looking call } := by
    rw [run_append, hs]
    simp only [Option.bind_some, run, injStep, hrest.idle]
  exact hrest.not_sound (by decide) hk (h.last hrun)

theorem last_number_never_given :
    ¬ Always (injStep 2) (RingSound 2) twoSlots
      (laps (.plain default) (2 ^ 64 - 2) ++ [.call (.plain default)]) :=
  laps_not_sound (by omega)

end BgqVrnic
