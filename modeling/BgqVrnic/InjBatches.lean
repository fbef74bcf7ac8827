import BgqVrnic.InjRuns
import BgqVrnic.Refinements

namespace BgqVrnic

open Runs Refinements

namespace InjFifo

/-- The shadow of the free space, read again from the MU if it is too small for `k` descriptors. -/
def lookFor (k : Nat) (f : InjFifo) : InjFifo :=
  if f.freeSpace < k then { f with freeSpace := f.hwFreeSpace } else f

/-- The pointers to `k` slots from the given one on. -/
def descSlots (n : Nat) : Nat → Nat → List Nat
  | _, 0 => []
  | slot, k + 1 => slot :: descSlots n (nextSlot n slot) k

/-- `MUSPI_InjFifoNextDescMultipleNoCheck` -/
def nextDescMultipleNoCheck (n k : Nat) (f : InjFifo) : Nat × List Nat :=
  ((f.numInjected + k) % 2 ^ 64, descSlots n f.tail k)

/-- `MUSPI_InjFifoNextDescMultiple` -/
def nextDescMultiple (n k : Nat) (f : InjFifo) : InjFifo × Nat × List Nat :=
  let f := f.lookFor k
  (f, if f.freeSpace < k then (noDesc, []) else f.nextDescMultipleNoCheck n k)

/-- What is written down in advance for `k` descriptors. -/
def reserve (k : Nat) (f : InjFifo) : InjFifo :=
  { f with freeSpace := f.freeSpace - k, numInjected := (f.numInjected + k) % 2 ^ 64 }

/-- The tail moves over `k` descriptors; the slot it comes to is cleared. -/
def publish (k tail : Nat) (f : InjFifo) : InjFifo :=
  { f with
    slots := Function.update f.slots tail none
    tail := tail
    hwTail := tail
    hwFreeSpace := f.hwFreeSpace - k }

/-- `MUSPI_InjFifoAdvanceDescMultiple` -/
def advanceDescMultiple (n k : Nat) (f : InjFifo) : InjFifo :=
  (f.reserve k).publish k (if n ≤ f.tail + k then f.tail + k - n else f.tail + k)

end InjFifo

/-- Where a caller is: it copies descriptors into the fifo with `MUSPI_InjFifoInjectMultiple`, of which
`MUSPI_InjFifoInject` is the case of one, or it fills the slots that it has got, before it advances the tail. -/
inductive BatchPhase
  | idle
  | copying (descs rest : List MuDescriptor) (tail : Nat)
  | filling (descs rest : List MuDescriptor) (slots : List Nat)
  deriving DecidableEq, Repr

/-- The fifo with its history: what was injected, what the MU took, and the calls with what they returned. -/
structure InjBatches where
  fifo : InjFifo
  phase : BatchPhase
  injected : List MuDescriptor
  consumed : List (Option MuDescriptor)
  calls : List (List MuDescriptor × Nat)

inductive BatchInput
  | inject (descs : List MuDescriptor)
  | next (descs : List MuDescriptor)
  | go
  | consume
  | check (desc : Nat)
  deriving DecidableEq, Repr

namespace InjBatches

/-- The call has returned without any descriptor injected. -/
def refuse (s : InjBatches) (fifo : InjFifo) (descs : List MuDescriptor) : InjBatches :=
  { s with fifo := fifo, calls := s.calls ++ [(descs, noDesc)] }

/-- The call has returned with all its descriptors injected. -/
def finish (s : InjBatches) (fifo : InjFifo) (descs : List MuDescriptor) : InjBatches :=
  { s with
    fifo := fifo
    phase := .idle
    injected := s.injected ++ descs
    calls := s.calls ++ [(descs, fifo.numInjected)] }

def copy (s : InjBatches) (slot : Nat) (desc : MuDescriptor) (phase : BatchPhase) : InjBatches :=
  { s with fifo := { s.fifo with slots := Function.update s.fifo.slots slot (some desc) }, phase := phase }

/-- `MUSPI_InjFifoInjectMultiple` up to its copying -/
def injectMultiple (s : InjBatches) (descs : List MuDescriptor) : InjBatches :=
  let fifo := s.fifo.lookFor descs.length
  if fifo.freeSpace < descs.length then s.refuse fifo descs
  else { s with fifo := fifo.reserve descs.length, phase := .copying descs descs fifo.tail }

def getSlots (n : Nat) (s : InjBatches) (descs : List MuDescriptor) : InjBatches :=
  let (fifo, num, slots) := s.fifo.nextDescMultiple n descs.length
  if num = noDesc then s.refuse fifo descs
  else { s with fifo := fifo, phase := .filling descs descs slots }

def batchGo (n : Nat) (s : InjBatches) : Option InjBatches :=
  match s.phase with
  | .idle => none
  | .copying descs (desc :: rest) tail => some (s.copy tail desc (.copying descs rest (InjFifo.nextSlot n tail)))
  | .copying descs [] tail => some (s.finish (s.fifo.publish descs.length tail) descs)
  | .filling descs (desc :: rest) (slot :: slots) => some (s.copy slot desc (.filling descs rest slots))
  | .filling _ (_ :: _) [] => none
  | .filling descs [] _ => some (s.finish (s.fifo.advanceDescMultiple n descs.length) descs)

def batchStep (n : Nat) (s : InjBatches) : BatchInput → Option InjBatches
  | .inject descs => if s.phase = .idle then some (s.injectMultiple descs) else none
  | .next descs => if s.phase = .idle then some (s.getSlots n descs) else none
  | .go => s.batchGo n
  | .consume =>
    (s.fifo.consume n).map fun (fifo, desc) => { s with fifo := fifo, consumed := s.consumed ++ [desc] }
  | .check desc => some { s with fifo := (s.fifo.checkDescComplete desc).1 }

def batchReady (n : Nat) (slots : Nat → Option MuDescriptor) : InjBatches :=
  ⟨activatedFifo n slots, .idle, [], [], []⟩

/-- No call gets beyond 2 ^ 64 - 2 injections. -/
def BatchNumbersLeft (s : InjBatches) : BatchInput → Prop
  | .inject descs | .next descs => s.injected.length + descs.length + 1 < 2 ^ 64
  | _ => True

instance decidableBatchNumbersLeft (s : InjBatches) : (i : BatchInput) → Decidable (BatchNumbersLeft s i)
  | .inject _ | .next _ => inferInstanceAs (Decidable (_ < _))
  | .go | .consume | .check _ => inferInstanceAs (Decidable True)

/-- What calls with these results have injected: all that was asked for, with the number of the last one, or nothing. -/
inductive Answers : List (List MuDescriptor × Nat) → List MuDescriptor → Prop
  | nothing : Answers [] []
  | refused {calls : List (List MuDescriptor × Nat)} {l : List MuDescriptor} (descs : List MuDescriptor) :
    Answers calls l → Answers (calls ++ [(descs, noDesc)]) l
  | granted {calls : List (List MuDescriptor × Nat)} {l : List MuDescriptor} (descs : List MuDescriptor) :
    Answers calls l → Answers (calls ++ [(descs, (l ++ descs).length)]) (l ++ descs)

/-- What is not consumed is in its slot, the MU consumes what was injected in the same order, a call injects all its
descriptors or none, none of them only if there is no room for all, and who finds the number of a call complete
knows that the MU has all of it. -/
structure BatchSound (n : Nat) (s : InjBatches) : Prop where
  intact : Rings.Holds n s.fifo.slots (s.injected.map some) s.consumed.length
  inOrder : s.consumed = (s.injected.take s.consumed.length).map some
  answers : Answers s.calls s.injected
  room : s.phase = .idle → ∀ k, k ≤ (s.fifo.lookFor k).freeSpace ↔
    s.injected.length + k + 1 ≤ s.consumed.length + n
  complete : ∀ desc, (s.fifo.checkDescComplete desc).2 = true → desc ≤ s.consumed.length

/-- The registers of the MU and the software's tail are the same. -/
structure SameRing (f g : InjFifo) : Prop where
  tail : f.tail = g.tail
  hwTail : f.hwTail = g.hwTail
  hwHead : f.hwHead = g.hwHead
  hwDescCount : f.hwDescCount = g.hwDescCount
  hwFreeSpace : f.hwFreeSpace = g.hwFreeSpace

variable {n c k : Nat} {injected descs rest : List MuDescriptor} {desc : MuDescriptor} {f : InjFifo}

theorem slot_add_mod {i : Nat} (hi : i < n) (hk : k < n) :
    (if n ≤ i + k then i + k - n else i + k) = (i + k) % n := by
  split
  next hle =>
    rw [Nat.mod_eq_sub_mod hle]
    exact (Nat.mod_eq_of_lt (by omega)).symm
  next hlt => exact (Nat.mod_eq_of_lt (by omega)).symm

theorem lookFor_eq : f.lookFor k = { f with freeSpace := if f.freeSpace < k then f.hwFreeSpace else f.freeSpace } := by
  unfold InjFifo.lookFor
  split
  next => rfl
  next => rfl

theorem fits_lookFor (h : f.Fits n injected c) : (f.lookFor k).Fits n injected c := by
  rw [lookFor_eq]
  exact { h with
    freeSpace := by
      show (if f.freeSpace < k then f.hwFreeSpace else f.freeSpace) ≤ f.hwFreeSpace
      split
      next => exact le_rfl
      next => exact h.freeSpace }

/-- The shadow is read again whenever it says that there is no room, so it does not say so if there is. -/
theorem room_iff (h : f.Fits n injected c) : k ≤ (f.lookFor k).freeSpace ↔ injected.length + k + 1 ≤ c + n := by
  have hhw := h.hwFreeSpace
  have hshadow := h.freeSpace
  rw [lookFor_eq]
  dsimp only
  split
  next => omega
  next hge => omega

/-- Descriptors that are injected together, of which `rest` are still to be copied into their slots. -/
structure Copied (n : Nat) (injected : List MuDescriptor) (c : Nat) (descs rest : List MuDescriptor)
    (f : InjFifo) : Prop where
  fits : f.Fits n injected c
  room : descs.length ≤ f.freeSpace
  numbers : injected.length + descs.length + 1 < 2 ^ 64
  copied : ∃ done, descs = done ++ rest ∧ Rings.Holds n f.slots ((injected ++ done).map some) c

/-- The number of the descriptor that is copied next. -/
def nextNumber (injected descs rest : List MuDescriptor) : Nat := injected.length + (descs.length - rest.length)

theorem Copied.start (h : f.Fits n injected c) (hroom : descs.length ≤ f.freeSpace)
    (hl : injected.length + descs.length + 1 < 2 ^ 64) : Copied n injected c descs descs f where
  fits := h
  room := hroom
  numbers := hl
  copied := by
    refine ⟨[], rfl, ?_⟩
    rw [List.append_nil]
    exact h.holds

theorem Copied.spare (h : Copied n injected c descs rest f) : injected.length + descs.length + 1 ≤ c + n := by
  have hhw := h.fits.hwFreeSpace
  have hshadow := h.fits.freeSpace
  have hroom := h.room
  omega

theorem nextNumber_nil : nextNumber injected descs [] = injected.length + descs.length := rfl

theorem Copied.nextNumber_cons (h : Copied n injected c descs (desc :: rest) f) :
    nextNumber injected descs rest = nextNumber injected descs (desc :: rest) + 1 := by
  obtain ⟨done, rfl, -⟩ := h.copied
  unfold nextNumber
  simp only [List.length_append, List.length_cons]
  omega

/-- A descriptor goes to its slot, which none that is on its way is in. -/
theorem Copied.copy (h : Copied n injected c descs (desc :: rest) f) :
    Copied n injected c descs rest
      { f with slots := Function.update f.slots (nextNumber injected descs (desc :: rest) % n) (some desc) } := by
  have hspare := h.spare
  obtain ⟨done, rfl, hholds⟩ := h.copied
  have hlen : ((injected ++ done).map some).length = nextNumber injected (done ++ desc :: rest) (desc :: rest) := by
    simp [nextNumber]
  have hroom : ((injected ++ done).map some).length < c + n := by
    simp only [List.length_append, List.length_cons, List.length_map] at hspare ⊢
    omega
  have hw := hholds.write (x := some desc) hroom
  rw [hlen] at hw
  have hpush : Rings.Holds n (Function.update f.slots (nextNumber injected (done ++ desc :: rest) (desc :: rest) % n)
      (some desc)) ((injected ++ (done ++ [desc])).map some) c := by
    rw [← List.append_assoc, List.map_append]
    apply hw.push
    rw [hlen, Function.update_self]
  refine ⟨{ h.fits with holds := ?_ }, h.room, h.numbers, done ++ [desc], by simp, hpush⟩
  rw [List.map_append] at hpush
  exact hpush.of_append

/-- The tail moves over all that have been copied. -/
theorem Copied.publish (h : Copied n injected c descs [] f) :
    ((f.reserve descs.length).publish descs.length ((injected.length + descs.length) % n)).Fits n
      (injected ++ descs) c := by
  have hspare := h.spare
  have hfits := h.fits
  have hhw := hfits.hwFreeSpace
  have hshadow := hfits.freeSpace
  have hroom := h.room
  have hl := h.numbers
  obtain ⟨done, hdone, hholds⟩ := h.copied
  rw [List.append_nil] at hdone
  subst hdone
  have hlen : (injected ++ descs).length = injected.length + descs.length := List.length_append
  have hclear := hholds.write (x := none) (by
    rw [List.length_map, hlen]
    omega)
  rw [List.length_map, hlen] at hclear
  refine ⟨?_, hclear, ?_, ?_, hfits.hwHead, ?_, ?_, ?_, hfits.hwDescCount, hfits.descCount⟩
  · have hle := hfits.le
    omega
  · rw [hlen]
    rfl
  · rw [hlen]
    rfl
  · show f.hwFreeSpace - descs.length + (injected ++ descs).length + 1 = c + n
    omega
  · show f.freeSpace - descs.length ≤ f.hwFreeSpace - descs.length
    omega
  · show (f.numInjected + descs.length) % 2 ^ 64 = (injected ++ descs).length
    rw [hfits.numInjected, hlen]
    exact Nat.mod_eq_of_lt (by omega)

/-- What a caller that has got so far knows about the fifo. -/
def BatchFits (n : Nat) (injected : List MuDescriptor) (c : Nat) (f : InjFifo) : BatchPhase → Prop
  | .idle => f.Fits n injected c ∧ injected.length + 1 < 2 ^ 64
  | .copying descs rest tail =>
    ∃ f₀, f = f₀.reserve descs.length ∧ Copied n injected c descs rest f₀ ∧
      tail = nextNumber injected descs rest % n
  | .filling descs rest slots =>
    Copied n injected c descs rest f ∧
      slots = InjFifo.descSlots n (nextNumber injected descs rest % n) rest.length

variable {x : Option MuDescriptor} {f' : InjFifo} {phase : BatchPhase} {num : Nat}

theorem consume_reserve :
    (f.reserve k).consume n = (f.consume n).map fun p => (p.1.reserve k, p.2) := by
  unfold InjFifo.consume
  by_cases hne : f.hwHead ≠ f.hwTail
  · rw [if_pos hne, if_pos (show (f.reserve k).hwHead ≠ (f.reserve k).hwTail from hne)]
    rfl
  · rw [if_neg hne, if_neg (show ¬ (f.reserve k).hwHead ≠ (f.reserve k).hwTail from hne)]
    rfl

theorem check_reserve : ((f.reserve k).checkDescComplete num).1 = (f.checkDescComplete num).1.reserve k := by
  rw [InjFifo.checkDescComplete_fst, InjFifo.checkDescComplete_fst]
  rfl

theorem Copied.consume (h : Copied n injected c descs rest f) (hc : f.consume n = some (f', x)) :
    Copied n injected (c + 1) descs rest f' ∧ injected[c]?.map some = some x := by
  obtain ⟨hfits, hx⟩ := h.fits.consume (by
    have hl := h.numbers
    omega) hc
  obtain ⟨hne, hf⟩ := Option.ite_none_right_eq_some.mp hc
  cases Option.some.inj hf
  obtain ⟨done, hdone, hholds⟩ := h.copied
  exact ⟨⟨hfits, h.room, h.numbers, done, hdone, hholds.mono (Nat.le_succ c)⟩, hx⟩

theorem BatchFits.consume (h : BatchFits n injected c f phase) (hc : f.consume n = some (f', x)) :
    BatchFits n injected (c + 1) f' phase ∧ injected[c]?.map some = some x := by
  cases phase with
  | idle =>
    obtain ⟨hfits, hl⟩ := h
    obtain ⟨hfits', hx⟩ := hfits.consume hl hc
    exact ⟨⟨hfits', hl⟩, hx⟩
  | copying descs rest tail =>
    obtain ⟨f₀, rfl, hcopied, htail⟩ := h
    rw [consume_reserve] at hc
    obtain ⟨⟨f₁, y⟩, hf₁, he⟩ := Option.map_eq_some_iff.mp hc
    cases he
    obtain ⟨hcopied', hx⟩ := hcopied.consume hf₁
    exact ⟨⟨f₁, rfl, hcopied', htail⟩, hx⟩
  | filling descs rest slots =>
    obtain ⟨hcopied, hslots⟩ := h
    obtain ⟨hcopied', hx⟩ := hcopied.consume hc
    exact ⟨⟨hcopied', hslots⟩, hx⟩

theorem Copied.check (h : Copied n injected c descs rest f) (num : Nat) :
    Copied n injected c descs rest (f.checkDescComplete num).1 := by
  have hfits := h.fits.checkDescComplete num
  rw [InjFifo.checkDescComplete_fst] at hfits ⊢
  exact ⟨hfits, h.room, h.numbers, h.copied⟩

theorem BatchFits.check (h : BatchFits n injected c f phase) (num : Nat) :
    BatchFits n injected c (f.checkDescComplete num).1 phase := by
  cases phase with
  | idle => exact ⟨h.1.checkDescComplete num, h.2⟩
  | copying descs rest tail =>
    obtain ⟨f₀, rfl, hcopied, htail⟩ := h
    exact ⟨_, check_reserve, hcopied.check num, htail⟩
  | filling descs rest slots => exact ⟨h.1.check num, h.2⟩

theorem BatchFits.holds (h : BatchFits n injected c f phase) : Rings.Holds n f.slots (injected.map some) c := by
  cases phase with
  | idle => exact h.1.holds
  | copying descs rest tail =>
    obtain ⟨f₀, rfl, hcopied, -⟩ := h
    exact hcopied.fits.holds
  | filling descs rest slots => exact h.1.fits.holds

theorem BatchFits.complete (h : BatchFits n injected c f phase) (hdone : (f.checkDescComplete num).2 = true) :
    num ≤ c := by
  cases phase with
  | idle => exact h.1.complete hdone
  | copying descs rest tail =>
    obtain ⟨f₀, rfl, hcopied, -⟩ := h
    apply hcopied.fits.complete
    by_cases hle : num ≤ f₀.descCount
    · rw [InjFifo.checkDescComplete, if_pos hle]
    · rw [InjFifo.checkDescComplete, if_neg (show ¬ num ≤ (f₀.reserve descs.length).descCount from hle)] at hdone
      rw [InjFifo.checkDescComplete, if_neg hle]
      exact hdone
  | filling descs rest slots => exact h.1.fits.complete hdone

/-- The fifo with its history, whoever works on it. -/
structure BatchInv (n : Nat) (s : InjBatches) : Prop where
  fits : BatchFits n s.injected s.consumed.length s.fifo s.phase
  taken : s.consumed = (s.injected.take s.consumed.length).map some
  answers : Answers s.calls s.injected

theorem BatchInv.sound {s : InjBatches} (h : BatchInv n s) : BatchSound n s where
  intact := h.fits.holds
  inOrder := h.taken
  answers := h.answers
  room := by
    intro hidle k
    have hfits := h.fits
    rw [hidle] at hfits
    exact room_iff hfits.1
  complete := fun num hdone => h.fits.complete hdone

variable {s s' : InjBatches}

theorem batchInv_ready (hn : minInjFifoSlots ≤ n) (slots : Nat → Option MuDescriptor) :
    BatchInv n (batchReady n slots) where
  fits := ⟨InjFifo.fits_activated hn slots, show 0 + 1 < 2 ^ 64 by omega⟩
  taken := rfl
  answers := .nothing

/-- A call that is refused leaves all as it was but for the shadow. -/
theorem BatchInv.refuse (h : BatchInv n s) (hidle : s.phase = .idle) (descs : List MuDescriptor) :
    BatchInv n (s.refuse (s.fifo.lookFor k) descs) where
  fits := by
    have hfits := h.fits
    rw [hidle] at hfits
    show BatchFits n s.injected s.consumed.length (s.fifo.lookFor k) s.phase
    rw [hidle]
    exact ⟨fits_lookFor hfits.1, hfits.2⟩
  taken := h.taken
  answers := .refused descs h.answers

theorem BatchInv.finish (h : BatchInv n s) (hfits : f.Fits n (s.injected ++ descs) s.consumed.length)
    (hl : s.injected.length + descs.length + 1 < 2 ^ 64) : BatchInv n (s.finish f descs) where
  fits := by
    refine ⟨hfits, ?_⟩
    show (s.injected ++ descs).length + 1 < 2 ^ 64
    rw [List.length_append]
    exact hl
  taken := by
    have htaken := h.taken
    have hle : s.consumed.length ≤ s.injected.length := by
      have hlen := congrArg List.length htaken
      rw [List.length_map, List.length_take] at hlen
      omega
    show s.consumed = ((s.injected ++ descs).take s.consumed.length).map some
    rw [List.take_append_of_le_length hle]
    exact htaken
  answers := by
    show Answers (s.calls ++ [(descs, f.numInjected)]) (s.injected ++ descs)
    rw [hfits.numInjected]
    exact .granted descs h.answers

theorem BatchInv.inject (h : BatchInv n s) (hidle : s.phase = .idle)
    (hl : s.injected.length + descs.length + 1 < 2 ^ 64) : BatchInv n (s.injectMultiple descs) := by
  have hfits := h.fits
  rw [hidle] at hfits
  unfold injectMultiple
  by_cases hroom : (s.fifo.lookFor descs.length).freeSpace < descs.length
  · rw [if_pos hroom]
    exact h.refuse hidle descs
  · rw [if_neg hroom]
    have hlook := fits_lookFor (k := descs.length) hfits.1
    refine ⟨⟨_, rfl, .start hlook (Nat.le_of_not_lt hroom) hl, ?_⟩, h.taken, h.answers⟩
    show (s.fifo.lookFor descs.length).tail = nextNumber s.injected descs descs % n
    rw [hlook.tail, nextNumber, Nat.sub_self, Nat.add_zero]

theorem BatchInv.slots (h : BatchInv n s) (hidle : s.phase = .idle)
    (hl : s.injected.length + descs.length + 1 < 2 ^ 64) : BatchInv n (s.getSlots n descs) := by
  have hfits := h.fits
  rw [hidle] at hfits
  unfold getSlots InjFifo.nextDescMultiple
  by_cases hroom : (s.fifo.lookFor descs.length).freeSpace < descs.length
  · simp only [if_pos hroom]
    exact h.refuse hidle descs
  · have hlook := fits_lookFor (k := descs.length) hfits.1
    have hnum : ((s.fifo.lookFor descs.length).numInjected + descs.length) % 2 ^ 64 ≠ noDesc := by
      rw [hlook.numInjected, Nat.mod_eq_of_lt (by omega)]
      show s.injected.length + descs.length ≠ 2 ^ 64 - 1
      omega
    simp only [if_neg hroom, InjFifo.nextDescMultipleNoCheck, if_neg hnum]
    refine ⟨⟨.start hlook (Nat.le_of_not_lt hroom) hl, ?_⟩, h.taken, h.answers⟩
    rw [hlook.tail, nextNumber, Nat.sub_self, Nat.add_zero]

theorem BatchInv.pos (h : BatchInv n s) : 0 < n := by
  have hsome : ∃ f : InjFifo, f.Fits n s.injected s.consumed.length := by
    have hfits := h.fits
    cases hphase : s.phase with
    | idle =>
      rw [hphase] at hfits
      exact ⟨_, hfits.1⟩
    | copying descs rest tail =>
      rw [hphase] at hfits
      obtain ⟨f₀, -, hcopied, -⟩ := hfits
      exact ⟨f₀, hcopied.fits⟩
    | filling descs rest slots =>
      rw [hphase] at hfits
      exact ⟨_, hfits.1.fits⟩
  obtain ⟨f, hf⟩ := hsome
  have hroom := hf.hwFreeSpace
  have hle := hf.le
  omega

/-- Both ways to finish come to the same. -/
theorem Copied.advance (h : Copied n injected c descs [] f) (hn : 0 < n) :
    (f.advanceDescMultiple n descs.length).Fits n (injected ++ descs) c := by
  have hspare := h.spare
  have hle := h.fits.le
  have hk : descs.length < n := by
    have hhw := h.fits.hwFreeSpace
    have hshadow := h.fits.freeSpace
    have hroom := h.room
    omega
  have hpublish := h.publish
  rw [InjFifo.advanceDescMultiple, h.fits.tail, slot_add_mod (Nat.mod_lt _ hn) hk, Nat.mod_add_mod]
  exact hpublish

/-- What a step of a call injects: nothing, or all that was asked for, for which there is room. -/
def Injects (n : Nat) (s s' : InjBatches) (descs : List MuDescriptor) : Prop :=
  s'.injected = s.injected ++ descs ∧ s'.consumed = s.consumed ∧
    (descs = [] ∨ s.injected.length + descs.length + 1 ≤ s.consumed.length + n ∧
      s.injected.length + descs.length + 1 < 2 ^ 64)

theorem Injects.none (hinj : s'.injected = s.injected) (hcon : s'.consumed = s.consumed) : Injects n s s' [] :=
  ⟨hinj.trans (List.append_nil _).symm, hcon, .inl rfl⟩

theorem BatchInv.go (h : BatchInv n s) (hs : s.batchGo n = some s') :
    BatchInv n s' ∧ ∃ descs, Injects n s s' descs := by
  have hfits := h.fits
  unfold batchGo at hs
  cases hphase : s.phase with
  | idle => simp [hphase] at hs
  | copying descs rest tail =>
    rw [hphase] at hfits
    obtain ⟨f₀, hf₀, hcopied, htail⟩ := hfits
    cases rest with
    | nil =>
      simp only [hphase, Option.some.injEq] at hs
      subst hs
      have hpublish := hcopied.publish
      rw [← hf₀, ← nextNumber_nil, ← htail] at hpublish
      exact ⟨h.finish hpublish hcopied.numbers, descs, rfl, rfl, .inr ⟨hcopied.spare, hcopied.numbers⟩⟩
    | cons desc rest =>
      simp only [hphase, Option.some.injEq] at hs
      subst hs
      refine ⟨⟨⟨_, ?_, hcopied.copy, ?_⟩, h.taken, h.answers⟩, [], .none rfl rfl⟩
      · simp only [InjBatches.copy, htail, hf₀]
        rfl
      · have hnext := InjFifo.nextSlot_mod h.pos (nextNumber s.injected descs (desc :: rest))
        rw [← htail, ← hcopied.nextNumber_cons] at hnext
        exact hnext
  | filling descs rest slots =>
    rw [hphase] at hfits
    obtain ⟨hcopied, hslots⟩ := hfits
    cases rest with
    | nil =>
      simp only [hphase, Option.some.injEq] at hs
      subst hs
      have hadvance := hcopied.advance h.pos
      exact ⟨h.finish hadvance hcopied.numbers, descs, rfl, rfl, .inr ⟨hcopied.spare, hcopied.numbers⟩⟩
    | cons desc rest =>
      rw [List.length_cons, InjFifo.descSlots] at hslots
      rw [hslots] at hphase
      simp only [hphase, Option.some.injEq] at hs
      subst hs
      refine ⟨⟨⟨hcopied.copy, ?_⟩, h.taken, h.answers⟩, [], .none rfl rfl⟩
      rw [InjFifo.nextSlot_mod h.pos, ← hcopied.nextNumber_cons]
      rfl

theorem getSlots_frame : (s.getSlots n descs).injected = s.injected ∧ (s.getSlots n descs).consumed = s.consumed := by
  unfold getSlots
  generalize s.fifo.nextDescMultiple n descs.length = answer
  obtain ⟨fifo, num, slots⟩ := answer
  by_cases hnum : num = noDesc
  · simp [hnum, InjBatches.refuse]
  · simp [hnum]

theorem injectMultiple_frame :
    (s.injectMultiple descs).injected = s.injected ∧ (s.injectMultiple descs).consumed = s.consumed := by
  unfold injectMultiple
  by_cases hroom : (s.fifo.lookFor descs.length).freeSpace < descs.length
  · simp [hroom, InjBatches.refuse]
  · simp [hroom]

theorem batchStep_inv {i : BatchInput} (h : BatchInv n s) (hi : BatchNumbersLeft s i)
    (hs : batchStep n s i = some s') :
    BatchInv n s' ∧ ((∃ descs, Injects n s s' descs) ∨
      ∃ f x, i = .consume ∧ s.fifo.consume n = some (f, x) ∧ s'.injected = s.injected ∧
        s'.consumed = s.consumed ++ [x]) := by
  cases i with
  | inject descs =>
    obtain ⟨hidle, hs⟩ := Option.ite_none_right_eq_some.mp hs
    cases Option.some.inj hs
    exact ⟨h.inject hidle hi, .inl ⟨[], .none injectMultiple_frame.1 injectMultiple_frame.2⟩⟩
  | next descs =>
    obtain ⟨hidle, hs⟩ := Option.ite_none_right_eq_some.mp hs
    cases Option.some.inj hs
    exact ⟨h.slots hidle hi, .inl ⟨[], .none getSlots_frame.1 getSlots_frame.2⟩⟩
  | go =>
    obtain ⟨hinv, hinjects⟩ := h.go hs
    exact ⟨hinv, .inl hinjects⟩
  | consume =>
    obtain ⟨⟨f, x⟩, hc, rfl⟩ := Option.map_eq_some_iff.mp hs
    obtain ⟨hfits, hx⟩ := h.fits.consume hc
    refine ⟨⟨?_, ?_, h.answers⟩, .inr ⟨f, x, rfl, hc, rfl, rfl⟩⟩
    · show BatchFits n s.injected (s.consumed ++ [x]).length f s.phase
      rw [List.length_append]
      exact hfits
    · show s.consumed ++ [x] = (s.injected.take (s.consumed ++ [x]).length).map some
      rw [List.length_append, List.length_singleton, List.take_add_one, List.map_append, ← h.taken]
      congr 1
      cases hget : s.injected[s.consumed.length]? with
      | none =>
        rw [hget] at hx
        cases hx
      | some d =>
        rw [hget] at hx
        cases hx
        rfl
  | check num =>
    cases Option.some.inj hs
    exact ⟨⟨h.fits.check num, h.taken, h.answers⟩, .inl ⟨[], .none rfl rfl⟩⟩

/-- A ring with nobody at it. -/
structure Vacant (n : Nat) (t : InjState) : Prop where
  ring : RingInv n t
  idle : t.phase = .idle
  active : t.fifo.active = true

variable {t : InjState}

/-- The ring after one plain injection. -/
def afterPlain (n : Nat) (t : InjState) (desc : MuDescriptor) : InjState :=
  let fifo := t.fifo.nextDesc.1
  { t with
    fifo := InjFifo.advanceDesc n { fifo with slots := Function.update fifo.slots t.fifo.tail (some desc) }
    phase := .idle
    injected := t.injected ++ [desc]
    results := t.results ++ [t.fifo.nextDesc.2] }

/-- One descriptor goes into a ring that has room. -/
theorem Vacant.injects (h : Vacant n t) (hl : t.injected.length + 2 < 2 ^ 64)
    (hroom : t.injected.length + 1 < t.consumed.length + n) :
    run (injStep n) t (injecting (.plain desc)) = some (afterPlain n t desc) ∧
      Meets (injStep n) NumbersLeft t (injecting (.plain desc)) ∧ Vacant n (afterPlain n t desc) := by
  have hnum : t.fifo.nextDesc.2 = t.injected.length + 1 := h.ring.fifo.finds hl hroom
  have hne : t.fifo.nextDesc.2 ≠ noDesc := by
    rw [hnum]
    show t.injected.length + 1 ≠ 2 ^ 64 - 1
    omega
  have hcall : injStep n t (.call (.plain desc)) = some { t with phase := .looking (.plain desc) } := by
    simp only [injStep, h.idle]
  have hlook : injStep n { t with phase := .looking (.plain desc) } .look =
      some { t with fifo := t.fifo.nextDesc.1, phase := .found (.plain desc) t.fifo.nextDesc.2 t.fifo.tail } :=
    congrArg some (lookStep_found h.active hne)
  have hrun : run (injStep n) t (injecting (.plain desc)) = some (afterPlain n t desc) := by
    simp only [injecting, run, hcall, hlook, Option.bind_some]
    rfl
  have hmeets : Meets (injStep n) NumbersLeft t (injecting (.plain desc)) := by
    intro u _
    refine ⟨hl, fun v _ => ⟨trivial, fun w _ => ⟨trivial, fun x _ => ⟨trivial, trivial⟩⟩⟩⟩
  have hstep : ∀ s i s', RingInv n s → NumbersLeft s i → injStep n s i = some s' → RingInv n s' :=
    fun _ _ _ hinv hok hs => injStep_inv hinv hok hs
  refine ⟨hrun, hmeets, (always_of_step hstep h.ring hmeets).last hrun, rfl, ?_⟩
  show t.fifo.nextDesc.1.active = true
  rw [InjFifo.nextDesc_fst]
  exact h.active

/-- So do as many as there is room for, one after the other. -/
theorem Vacant.injects_all (descs : List MuDescriptor) (h : Vacant n t)
    (hl : t.injected.length + descs.length + 1 < 2 ^ 64)
    (hroom : t.injected.length + descs.length + 1 ≤ t.consumed.length + n) :
    ∃ js t', run (injStep n) t js = some t' ∧ Meets (injStep n) NumbersLeft t js ∧ Vacant n t' ∧
      t'.injected = t.injected ++ descs ∧ t'.consumed = t.consumed := by
  induction descs generalizing t with
  | nil => exact ⟨[], t, rfl, trivial, h, (List.append_nil _).symm, rfl⟩
  | cons desc descs ih =>
    rw [List.length_cons] at hl hroom
    obtain ⟨hrun, hmeets, hvacant⟩ := @Vacant.injects n desc t h (by omega) (by omega)
    have hlen : (afterPlain n t desc).injected.length = t.injected.length + 1 := by
      simp [afterPlain]
    have hcon : (afterPlain n t desc).consumed = t.consumed := rfl
    obtain ⟨js, t', hrun', hmeets', hvacant', hinj', hcon'⟩ := ih hvacant (by omega) (by
      rw [hcon]
      omega)
    refine ⟨injecting (.plain desc) ++ js, t', ?_, ?_, hvacant', ?_, hcon'.trans hcon⟩
    · rw [run_append, hrun]
      exact hrun'
    · apply meets_append.mpr
      refine ⟨hmeets, fun u hu => ?_⟩
      rw [hrun] at hu
      cases Option.some.inj hu
      exact hmeets'
    · rw [hinj']
      simp [afterPlain]

/-- The ring on which the same has been injected one by one. -/
structure Shows (n : Nat) (s : InjBatches) (t : InjState) : Prop where
  inv : BatchInv n s
  vacant : Vacant n t
  injected : t.injected = s.injected
  consumed : t.consumed = s.consumed

/-- The MU takes from both rings the same. -/
theorem Vacant.consumes {f : InjFifo} {x : Option MuDescriptor} (h : Vacant n t) (hs : BatchInv n s)
    (hinj : t.injected = s.injected) (hcon : t.consumed = s.consumed) (hc : s.fifo.consume n = some (f, x)) :
    ∃ t', injStep n t .consume = some t' ∧ Vacant n t' ∧ t'.injected = s.injected ∧
      t'.consumed = s.consumed ++ [x] := by
  have hx := (hs.fits.consume hc).2
  have hlt : t.consumed.length < t.injected.length := by
    rw [hinj, hcon]
    by_contra hge
    rw [List.getElem?_eq_none (Nat.le_of_not_lt hge)] at hx
    cases hx
  obtain ⟨g, y, hg, hactive⟩ := h.ring.fifo.consumes hlt
  have hstep : injStep n t .consume = some { t with fifo := g, consumed := t.consumed ++ [y] } :=
    congrArg (Option.map _) hg
  have hy := (h.ring.fifo.consume h.ring.phase.length_lt hg).2
  rw [hinj, hcon, hx] at hy
  cases Option.some.inj hy
  refine ⟨_, hstep, ⟨injStep_inv (i := .consume) h.ring trivial hstep, h.idle, hactive.trans h.active⟩, hinj, ?_⟩
  rw [← hcon]

/-- All that calls for several descriptors do, calls for one after the other do. -/
theorem batches_implement (n : Nat) :
    Implements (batchStep n) BatchNumbersLeft (injStep n) NumbersLeft (Shows n) := by
  intro s t i s' h hi hs
  obtain ⟨hinv, ⟨descs, hinj, hcon, hempty | ⟨hroom, hl⟩⟩ | ⟨f, x, -, hc, hinj, hcon⟩⟩ :=
    batchStep_inv h.inv hi hs
  · refine ⟨[], t, rfl, trivial, hinv, h.vacant, ?_, h.consumed.trans hcon.symm⟩
    rw [hinj, hempty, List.append_nil]
    exact h.injected
  · rw [← h.injected] at hroom hl
    rw [← h.consumed] at hroom
    obtain ⟨js, t', hrun, hmeets, hvacant, hinj', hcon'⟩ := h.vacant.injects_all descs hl hroom
    refine ⟨js, t', hrun, hmeets, hinv, hvacant, ?_, ?_⟩
    · rw [hinj', hinj, h.injected]
    · rw [hcon', hcon, h.consumed]
  · obtain ⟨t', ht', hvacant, hinj', hcon'⟩ := h.vacant.consumes h.inv h.injected h.consumed hc
    refine ⟨[.consume], t', ?_, ?_, hinv, hvacant, hinj'.trans hinj.symm, hcon'.trans hcon.symm⟩
    · rw [run, ht']
      rfl
    · exact fun _ _ => ⟨trivial, trivial⟩

theorem sameRing_of_fits {g : InjFifo} (hf : f.Fits n injected c) (hg : g.Fits n injected c) : SameRing f g where
  tail := hf.tail.trans hg.tail.symm
  hwTail := hf.hwTail.trans hg.hwTail.symm
  hwHead := hf.hwHead.trans hg.hwHead.symm
  hwDescCount := hf.hwDescCount.trans hg.hwDescCount.symm
  hwFreeSpace := by
    have hroom := hf.hwFreeSpace
    have hroom' := hg.hwFreeSpace
    omega

theorem BatchFits.same {g : InjFifo} (h : BatchFits n injected c f phase) (hg : g.Fits n injected c) :
    SameRing f g := by
  cases phase with
  | idle => exact sameRing_of_fits h.1 hg
  | copying descs rest tail =>
    obtain ⟨f₀, rfl, hcopied, -⟩ := h
    exact { sameRing_of_fits hcopied.fits hg with }
  | filling descs rest slots => exact sameRing_of_fits h.1.fits hg

/-- Calls that inject any number of descriptors at once, or get slots for them and fill these, are sound, and they do to
the MU what the same descriptors one by one do. -/
theorem batches_refine_ring (hn : minInjFifoSlots ≤ n) (slots : Nat → Option MuDescriptor) (sendCount : Nat → Nat)
    {is : List BatchInput} (hm : Meets (batchStep n) BatchNumbersLeft (batchReady n slots) is)
    (hr : run (batchStep n) (batchReady n slots) is = some s) :
    BatchSound n s ∧
      ∃ js t, run (injStep n) (activated n slots sendCount) js = some t ∧
        Meets (injStep n) NumbersLeft (activated n slots sendCount) js ∧ RingSound n t ∧ SameRing s.fifo t.fifo ∧
        t.injected = s.injected ∧ t.consumed = s.consumed := by
  have hstart : Shows n (batchReady n slots) (activated n slots sendCount) :=
    ⟨batchInv_ready hn slots, ⟨ringInv_activated hn slots sendCount, rfl, rfl⟩, rfl, rfl⟩
  obtain ⟨js, t, hrun, hmeets, hshows⟩ := (batches_implement n).run hstart hm hr
  have hfifo := hshows.vacant.ring.fifo
  rw [hshows.injected, hshows.consumed] at hfifo
  exact ⟨hshows.inv.sound, js, t, hrun, hmeets, hshows.vacant.ring.sound, hshows.inv.fits.same hfifo,
    hshows.injected, hshows.consumed⟩

/-- Three slots: two descriptors at once, a third one that is refused, and two slots around the end of the ring. -/
def threeSlotCalls : List BatchInput :=
  [.inject [default, default], .go, .go, .go, .inject [default], .consume, .consume, .next [default, default], .go,
    .go, .go, .check 4]

theorem batches_refine_ring_three_slots :
    ∃ s, run (batchStep 3) (batchReady 3 fun _ => none) threeSlotCalls = some s ∧
      s.calls.map Prod.snd = [2, noDesc, 4] ∧ BatchSound 3 s ∧
      ∃ js t, run (injStep 3) (activated 3 (fun _ => none) fun _ => 0) js = some t ∧
        Meets (injStep 3) NumbersLeft (activated 3 (fun _ => none) fun _ => 0) js ∧ RingSound 3 t ∧
        SameRing s.fifo t.fifo ∧ t.injected = s.injected ∧ t.consumed = s.consumed := by
  have hm : Meets (batchStep 3) BatchNumbersLeft (batchReady 3 fun _ => none) threeSlotCalls := by decide +kernel
  exact ⟨_, rfl, rfl, batches_refine_ring (by decide) _ _ hm rfl⟩

end InjBatches

end BgqVrnic
