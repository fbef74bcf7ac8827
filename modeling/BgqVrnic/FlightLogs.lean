import BgqVrnic.Prints
import Mathlib.Data.Int.ModEq
import Mathlib.Data.List.Induction
import Mathlib.Logic.Function.Basic

namespace BgqVrnic

/-- `BG_FlightRecorderLog_t` -/
structure FlightEntry where
  timestamp : Nat
  hwthread : Nat
  id : Nat
  data0 : Nat
  data1 : Nat
  data2 : Nat
  data3 : Nat
  deriving DecidableEq, Repr, Inhabited

/-- `BG_FlightRecorderFormatterType_t`, and any other value. -/
inductive FormatterType
  | printf
  | func
  | other
  deriving DecidableEq, Repr, Inhabited

/-- `BG_FlightRecorderFormatter_t`; a format function stands for the pieces that it prints of an entry. -/
structure FlightFormatter where
  idStr : String
  type : FormatterType
  formatString : String
  formatFunction : FlightEntry → List Prints.Piece

/-- `BG_FlightRecorderRegistry_t`, with its log and its lock in place; an `id` of 0 marks a slot that has not
been written. -/
structure FlightRegistry where
  flightlog : Nat → FlightEntry
  flightsize : Nat
  flightlock : Nat
  flightformatter : Nat → FlightFormatter
  numIds : Nat
  lastStateSet : Nat
  lastState : Nat
  lastStateTotal : Nat
  lastOffset : Nat
  registryName : String

/-- `Kernel_WriteFlightLog`, at this time base and on this hardware thread. -/
def kernelWriteFlightLog (timebase pir id data0 data1 data2 data3 : Nat) (r : FlightRegistry) :
    Nat × FlightRegistry :=
  let myentry := r.flightlock % r.flightsize
  (myentry,
    { r with
      flightlock := (r.flightlock + 1) % 2 ^ 64
      flightlog :=
        Function.update r.flightlog myentry ⟨timebase, pir &&& 0x3ff, id, data0, data1, data2, data3⟩ })

/-- What the log keeps of an entry that is written with the whole processor id. -/
def FlightEntry.kept (w : FlightEntry) : FlightEntry := { w with hwthread := w.hwthread &&& 0x3ff }

/-- Entries written one after the other, each at its time. -/
def kernelWriteFlightLogs (ws : List FlightEntry) (r : FlightRegistry) : FlightRegistry :=
  ws.foldl (fun r w =>
    (kernelWriteFlightLog w.timestamp w.hwthread w.id w.data0 w.data1 w.data2 w.data3 r).2) r

/-- A registry with `count[l]` and `counttotal[l]` of `Kernel_DecodeFlightLogs`. -/
structure FlightCursor where
  registry : FlightRegistry
  count : Nat
  counttotal : Nat

namespace FlightRegistry

variable (r : FlightRegistry)

/-- The loop over the slots that have not been written, within the given number of rounds. -/
def skip : Nat → Nat → Nat → Nat × Nat
  | 0, count, counttotal => (count, counttotal)
  | x + 1, count, counttotal =>
    if (r.flightlog count).id ≠ 0 then (count, counttotal)
    else skip x ((count + 1) % r.flightsize) (counttotal + 1)

/-- Where to begin in a log, or to go on in one of which a part has been decoded. -/
def acquire : FlightCursor :=
  if r.lastStateSet = 0 then
    let start := r.skip r.flightsize (r.flightlock % r.flightsize) 0
    ⟨{ r with lastOffset := r.flightlock }, start.1, start.2⟩
  else ⟨r, r.lastState, r.lastStateTotal⟩

end FlightRegistry

namespace FlightCursor

variable (c : FlightCursor)

def log : FlightEntry := c.registry.flightlog c.count

/-- One more entry has been taken; the state is kept in 32 bits. -/
def advance : FlightCursor :=
  let count := (c.count + 1) % c.registry.flightsize
  let counttotal := c.counttotal + 1
  { registry :=
      { c.registry with
        lastStateSet := 1
        lastState := count % 2 ^ 32
        lastStateTotal := counttotal % 2 ^ 32 }
    count := count
    counttotal := counttotal }

/-- What `*moreData` gets for log `lsel`. -/
def moreData (lsel : Nat) : Nat :=
  (c.registry.lastOffset + c.counttotal + lsel * 2 ^ 48 + 1) % 2 ^ 64

end FlightCursor

/-- One round of the loop that looks for the log with the earliest entry. -/
def selectLog (best : Nat × Option (Nat × FlightCursor)) (c : FlightCursor × Nat) :
    Nat × Option (Nat × FlightCursor) :=
  if c.1.log.timestamp < best.1 ∧ c.1.counttotal < c.1.registry.flightsize then
    (c.1.log.timestamp, some (c.2, c.1))
  else best

def select (cs : List FlightCursor) : Option (Nat × FlightCursor) :=
  (cs.zipIdx.foldl selectLog (2 ^ 64 - 1, none)).2

/-- What a call has done: the entries it has printed, each with the number of its log, the cursor it was at and
the buffer before; the buffer in the end; and whether the call has returned. -/
structure FlightDecode (σ : Type) where
  cursors : List FlightCursor
  steps : List (Nat × FlightCursor × σ)
  output : σ
  moreData : Nat
  returned : Bool

def FlightDecode.lines {σ : Type} (d : FlightDecode σ) : List (Nat × FlightEntry) :=
  d.steps.map fun s => (s.1, s.2.1.log)

section Decode

variable {σ : Type} (space : σ → Nat) (print : FlightCursor → σ → σ)

/-- The loop of `Kernel_DecodeFlightLogs`, for any kind of buffer, of which `space` is left and to which `print`
adds the entry at a cursor. -/
def decodeLoop : Nat → List FlightCursor → σ → FlightDecode σ
  | 0, cs, buffer => ⟨cs, [], buffer, 0, false⟩
  | rounds + 1, cs, buffer =>
    match select cs with
    | none => ⟨cs, [], buffer, 0, true⟩
    | some (lsel, c) =>
      if space buffer < 256 then ⟨cs, [], buffer, c.moreData lsel, true⟩
      else
        let cs := cs.set lsel c.advance
        if c.registry.numIds ≤ c.log.id then
          ⟨cs, [(lsel, c, buffer)], print c buffer, c.moreData lsel, true⟩
        else if c.moreData lsel = 0 then ⟨cs, [(lsel, c, buffer)], print c buffer, 0, true⟩
        else
          let d := decodeLoop rounds cs (print c buffer)
          { d with steps := (lsel, c, buffer) :: d.steps }

/-- What one round of the loop can do. -/
theorem decodeLoop_succ_cases (rounds : Nat) (cs : List FlightCursor) (buffer : σ) :
    select cs = none ∧ decodeLoop space print (rounds + 1) cs buffer = ⟨cs, [], buffer, 0, true⟩ ∨
      ∃ lsel c, select cs = some (lsel, c) ∧
        (space buffer < 256 ∧
            decodeLoop space print (rounds + 1) cs buffer = ⟨cs, [], buffer, c.moreData lsel, true⟩ ∨
          256 ≤ space buffer ∧ (c.registry.numIds ≤ c.log.id ∨ c.moreData lsel = 0) ∧
            decodeLoop space print (rounds + 1) cs buffer =
              ⟨cs.set lsel c.advance, [(lsel, c, buffer)], print c buffer, c.moreData lsel, true⟩ ∨
          256 ≤ space buffer ∧ c.moreData lsel ≠ 0 ∧
            decodeLoop space print (rounds + 1) cs buffer =
              { decodeLoop space print rounds (cs.set lsel c.advance) (print c buffer) with
                steps := (lsel, c, buffer) ::
                  (decodeLoop space print rounds (cs.set lsel c.advance) (print c buffer)).steps }) := by
  cases hs : select cs with
  | none =>
    refine Or.inl ⟨rfl, ?_⟩
    conv_lhs => unfold decodeLoop
    rw [hs]
  | some s =>
    obtain ⟨lsel, c⟩ := s
    refine Or.inr ⟨lsel, c, rfl, ?_⟩
    have hround : decodeLoop space print (rounds + 1) cs buffer =
        if space buffer < 256 then ⟨cs, [], buffer, c.moreData lsel, true⟩
        else if c.registry.numIds ≤ c.log.id then
          ⟨cs.set lsel c.advance, [(lsel, c, buffer)], print c buffer, c.moreData lsel, true⟩
        else if c.moreData lsel = 0 then
          ⟨cs.set lsel c.advance, [(lsel, c, buffer)], print c buffer, 0, true⟩
        else
          { decodeLoop space print rounds (cs.set lsel c.advance) (print c buffer) with
            steps := (lsel, c, buffer) ::
              (decodeLoop space print rounds (cs.set lsel c.advance) (print c buffer)).steps } := by
      conv_lhs => unfold decodeLoop
      rw [hs]
    rw [hround]
    by_cases hfull : space buffer < 256
    · exact Or.inl ⟨hfull, if_pos hfull⟩
    · have hspace : 256 ≤ space buffer := Nat.not_lt.mp hfull
      rw [if_neg hfull]
      by_cases hid : c.registry.numIds ≤ c.log.id
      · exact Or.inr (Or.inl ⟨hspace, Or.inl hid, if_pos hid⟩)
      · rw [if_neg hid]
        by_cases hmore : c.moreData lsel = 0
        · exact Or.inr (Or.inl ⟨hspace, Or.inr hmore, by rw [if_pos hmore, hmore]⟩)
        · exact Or.inr (Or.inr ⟨hspace, hmore, if_neg hmore⟩)

/-- `Kernel_DecodeFlightLogs`, of at most 8 logs. -/
def kernelDecodeFlightLogs (rounds : Nat) (logregistry : List FlightRegistry) (buffer : σ) : FlightDecode σ :=
  decodeLoop space print rounds (logregistry.map FlightRegistry.acquire) buffer

/-- Calls one after the other, with these buffers. -/
def decodeCalls (rounds : Nat) : List FlightRegistry → List σ → List (FlightDecode σ)
  | _, [] => []
  | logregistry, buffer :: rest =>
    let d := kernelDecodeFlightLogs space print rounds logregistry buffer
    d :: decodeCalls rounds (d.cursors.map FlightCursor.registry) rest

end Decode

namespace FlightRegistry

theorem skip_lastOffset (r : FlightRegistry) (lastOffset m count counttotal : Nat) :
    ({ r with lastOffset := lastOffset } : FlightRegistry).skip m count counttotal =
      r.skip m count counttotal := by
  induction m generalizing count counttotal with
  | zero => rfl
  | succ m ih =>
    unfold FlightRegistry.skip
    rw [ih]

/-- A second call goes on where a first one that takes nothing from the log would have begun. -/
theorem acquire_acquire (r : FlightRegistry) : r.acquire.registry.acquire = r.acquire := by
  by_cases hfresh : r.lastStateSet = 0
  · have hstart : r.acquire = ⟨{ r with lastOffset := r.flightlock },
        (r.skip r.flightsize (r.flightlock % r.flightsize) 0).1,
        (r.skip r.flightsize (r.flightlock % r.flightsize) 0).2⟩ := by
      unfold acquire
      rw [if_pos hfresh]
    rw [hstart]
    unfold acquire
    rw [if_pos hfresh, skip_lastOffset]
  · have hkept : r.acquire = ⟨r, r.lastState, r.lastStateTotal⟩ := by
      unfold acquire
      rw [if_neg hfresh]
    rw [hkept]
    exact hkept

end FlightRegistry

/-- The log holds these entries, the oldest first, behind the slots that have not been written. -/
structure FlightRegistry.Ring (r : FlightRegistry) (entries : List FlightEntry) : Prop where
  size : 0 < r.flightsize
  room : entries.length ≤ r.flightsize
  unwritten : ∀ i < r.flightsize - entries.length,
    (r.flightlog ((r.flightlock + i) % r.flightsize)).id = 0
  recorded : ∀ j e, entries[j]? = some e →
    r.flightlog ((r.flightlock + (r.flightsize - entries.length) + j) % r.flightsize) = e
  ids : ∀ e ∈ entries, e.id ≠ 0

namespace FlightRegistry

variable {r : FlightRegistry} {entries : List FlightEntry} {e : FlightEntry} {i j n m : Nat}

/-- Two places of a ring less than its size apart are different. -/
theorem ring_ne (hlt : i < j) (hnear : j < i + n) : i % n ≠ j % n := by
  intro he
  obtain ⟨k, hk⟩ : ∃ k, j - i = n * k := by
    have hdvd : n ∣ j - i := (Nat.modEq_iff_dvd' (Nat.le_of_lt hlt)).mp he
    exact hdvd
  cases k with
  | zero => omega
  | succ k =>
    rw [Nat.mul_succ] at hk
    omega

theorem ring_succ (i n : Nat) : (i % n + 1) % n = (i + 1) % n := by
  rw [Nat.mod_add_mod]

/-- A new entry takes the place behind the last one, and the oldest one's if the log is full. -/
theorem Ring.write (h : r.Ring entries) (timebase pir data0 data1 data2 data3 : Nat) {id : Nat}
    (hid : id ≠ 0) (hlock : r.flightlock + 1 < 2 ^ 64) :
    (kernelWriteFlightLog timebase pir id data0 data1 data2 data3 r).2.Ring
      (entries.drop (entries.length + 1 - r.flightsize) ++
        [⟨timebase, pir &&& 0x3ff, id, data0, data1, data2, data3⟩]) := by
  have hsize := h.size
  have hroom := h.room
  set new : FlightEntry := ⟨timebase, pir &&& 0x3ff, id, data0, data1, data2, data3⟩ with hnew
  set gone := entries.length + 1 - r.flightsize with hgone
  have hlen : (entries.drop gone ++ [new]).length = entries.length - gone + 1 := by simp
  -- The other slots stay as they are.
  have hother : ∀ p, r.flightlock < p → p < r.flightlock + r.flightsize →
      (kernelWriteFlightLog timebase pir id data0 data1 data2 data3 r).2.flightlog (p % r.flightsize) =
        r.flightlog (p % r.flightsize) := fun p hlt hnear =>
    Function.update_of_ne (Ne.symm (ring_ne hlt hnear)) _ _
  have hlock' : (kernelWriteFlightLog timebase pir id data0 data1 data2 data3 r).2.flightlock =
      r.flightlock + 1 := Nat.mod_eq_of_lt hlock
  refine ⟨hsize, ?_, fun i hi => ?_, fun j e he => ?_, fun e he => ?_⟩
  · rw [hlen]
    show entries.length - gone + 1 ≤ r.flightsize
    omega
  · rw [hlen] at hi
    have hi' : i < r.flightsize - (entries.length - gone + 1) := hi
    rw [hlock']
    show ((kernelWriteFlightLog timebase pir id data0 data1 data2 data3 r).2.flightlog
      ((r.flightlock + 1 + i) % r.flightsize)).id = 0
    rw [hother _ (by omega) (by omega), Nat.add_assoc, Nat.add_comm 1 i]
    exact h.unwritten (i + 1) (by omega)
  · rw [hlen, hlock']
    show (kernelWriteFlightLog timebase pir id data0 data1 data2 data3 r).2.flightlog
      ((r.flightlock + 1 + (r.flightsize - (entries.length - gone + 1)) + j) % r.flightsize) = e
    rcases Nat.lt_or_ge j (entries.length - gone) with hj | hj
    · rw [List.getElem?_append_left (by simpa using hj), List.getElem?_drop] at he
      rw [hother _ (by omega) (by omega)]
      have hat := h.recorded (gone + j) e he
      rwa [show r.flightlock + (r.flightsize - entries.length) + (gone + j) =
        r.flightlock + 1 + (r.flightsize - (entries.length - gone + 1)) + j by omega] at hat
    · rw [List.getElem?_append_right (by simpa using hj)] at he
      obtain ⟨hj', rfl⟩ : j = entries.length - gone ∧ new = e := by
        cases hk : j - (entries.drop gone).length with
        | zero =>
          rw [hk] at he
          rw [List.length_drop] at hk
          exact ⟨by omega, by simpa using he⟩
        | succ k =>
          rw [hk] at he
          simp at he
      rw [show r.flightlock + 1 + (r.flightsize - (entries.length - gone + 1)) + j =
        r.flightlock + r.flightsize by omega, Nat.add_mod_right]
      exact Function.update_self _ _ _
  · rcases List.mem_append.mp he with he | he
    · exact h.ids e (List.mem_of_mem_drop he)
    · rw [List.mem_singleton.mp he]
      exact hid

/-- Entries written one after the other into a log that has none: the last ones of them are kept. -/
theorem Ring.writes (hsize : 0 < r.flightsize) (hnone : ∀ p, (r.flightlog p).id = 0) (ws : List FlightEntry)
    (hids : ∀ w ∈ ws, w.id ≠ 0) (hlock : r.flightlock + ws.length < 2 ^ 64) :
    (kernelWriteFlightLogs ws r).Ring ((ws.map FlightEntry.kept).drop (ws.length - r.flightsize)) ∧
      (kernelWriteFlightLogs ws r).flightsize = r.flightsize ∧
      (kernelWriteFlightLogs ws r).flightlock = r.flightlock + ws.length := by
  induction ws using List.reverseRecOn with
  | nil =>
    refine ⟨⟨hsize, by simp, fun i _ => hnone _, fun j e he => ?_, fun e he => ?_⟩, rfl, rfl⟩
    · simp at he
    · simp at he
  | append_singleton ws w ih =>
    rw [List.length_append, List.length_singleton] at hlock
    obtain ⟨hring, hsize', hlock'⟩ :=
      ih (fun v hv => hids v (List.mem_append_left _ hv)) (by omega)
    have hstep : kernelWriteFlightLogs (ws ++ [w]) r =
        (kernelWriteFlightLog w.timestamp w.hwthread w.id w.data0 w.data1 w.data2 w.data3
          (kernelWriteFlightLogs ws r)).2 := by
      unfold kernelWriteFlightLogs
      rw [List.foldl_append, List.foldl_cons, List.foldl_nil]
    have hnext := hring.write w.timestamp w.hwthread w.data0 w.data1 w.data2 w.data3 (hids w (by simp))
      (by omega)
    rw [← hstep, hsize', List.drop_drop] at hnext
    refine ⟨?_, ?_, ?_⟩
    · have hdrop : ws.length - r.flightsize +
          (((ws.map FlightEntry.kept).drop (ws.length - r.flightsize)).length + 1 - r.flightsize) =
            (ws ++ [w]).length - r.flightsize := by
        rw [List.length_drop, List.length_map, List.length_append, List.length_singleton]
        omega
      rw [hdrop] at hnext
      rw [List.map_append, List.drop_append_of_le_length]
      · exact hnext
      · rw [List.length_append, List.length_singleton, List.length_map]
        omega
    · rw [hstep]
      exact hsize'
    · rw [hstep, List.length_append, List.length_singleton, ← Nat.add_assoc, ← hlock']
      exact Nat.mod_eq_of_lt (by omega)

/-- From the slot of the next write on, the slots without an entry are skipped. -/
theorem Ring.skip (h : r.Ring entries) (hi : i + n = r.flightsize - entries.length)
    (hm : n ≤ m) (hfull : entries = [] → m = n) :
    r.skip m ((r.flightlock + i) % r.flightsize) i =
      ((r.flightlock + (r.flightsize - entries.length)) % r.flightsize,
        r.flightsize - entries.length) := by
  induction n generalizing i m with
  | zero =>
    have hi' : i = r.flightsize - entries.length := hi
    subst hi'
    cases m with
    | zero => rfl
    | succ m =>
      cases hentries : entries with
      | nil => exact absurd (hfull hentries) (by omega)
      | cons e l =>
        have hfirst := h.recorded 0 e (by simp [hentries])
        have hid := h.ids e (by simp [hentries])
        rw [Nat.add_zero, hentries] at hfirst
        unfold FlightRegistry.skip
        rw [hfirst, if_pos hid]
  | succ n ih =>
    obtain ⟨m, rfl⟩ := Nat.exists_eq_succ_of_ne_zero (by omega : m ≠ 0)
    have hempty := h.unwritten i (by omega)
    unfold FlightRegistry.skip
    rw [if_neg (not_not.mpr hempty), ring_succ, Nat.add_assoc]
    exact ih (i := i + 1) (by omega) (by omega) fun hnil => by
      have hm' := hfull hnil
      omega

/-- Decoding begins behind the slots that have not been written. -/
theorem Ring.acquire (h : r.Ring entries) (hfresh : r.lastStateSet = 0) :
    r.acquire = ⟨{ r with lastOffset := r.flightlock },
      (r.flightlock + (r.flightsize - entries.length)) % r.flightsize,
      r.flightsize - entries.length⟩ := by
  have hskip := h.skip (i := 0) (n := r.flightsize - entries.length) (m := r.flightsize)
    (by omega) (by omega) fun hnil => by simp [hnil]
  rw [Nat.add_zero] at hskip
  unfold FlightRegistry.acquire
  rw [if_pos hfresh, hskip]

end FlightRegistry

end BgqVrnic
