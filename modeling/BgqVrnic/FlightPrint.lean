import BgqVrnic.FlightLogs

namespace BgqVrnic

open Prints

inductive PrintArg
  | num (n : Nat)
  | str (s : String)
  deriving DecidableEq, Repr, Inhabited

/-- The length of the whole text that `snprintf` reports for a format and its arguments, and what the hardware shows
at the addresses of its FIFOs. -/
structure PrintEnv where
  snprintf : String → List PrintArg → Nat
  hwfifo : Nat → Nat × Nat × Nat × Nat
  hwInjfifo : Nat → Nat × Nat

namespace PrintEnv

variable (env : PrintEnv)

def counted (format : String) (args : List PrintArg) : Piece := .counted (env.snprintf format args)

def uncounted (format : String) (args : List PrintArg) : Piece := .uncounted (env.snprintf format args)

end PrintEnv

def FlightEntry.args (log : FlightEntry) : List PrintArg :=
  [.num log.data0, .num log.data1, .num log.data2, .num log.data3]

section Print

variable (env : PrintEnv)

/-- The `switch` over the types of formatters. -/
def formatEntry (fmt : FlightFormatter) (log : FlightEntry) (o : Output) : Output :=
  match fmt.type with
  | .printf => o.append (env.snprintf fmt.formatString log.args)
  | .func => o.call (fmt.formatFunction log)
  | .other => o

/-- What `Kernel_DecodeFlightLogs` prints before the `switch`. -/
def FlightCursor.head (c : FlightCursor) : List Piece :=
  (if c.registry.lastStateSet = 0 then
    [env.counted "TB=%016llx FL_BEGIN_LOG:-- Starting log \"%s\"\n"
      [.num c.log.timestamp, .str c.registry.registryName]]
  else []) ++
  [env.counted "TB=%016llx %s:%-2d "
    [.num c.log.timestamp, .str (c.registry.flightformatter c.log.id).idStr, .num c.log.hwthread]]

def FlightCursor.invalidLog (c : FlightCursor) : Nat :=
  env.snprintf ("TB=%016llx FL_INVALDLOG:%-2d An invalid entry with registry=\"%s\"  id=%d was detected " ++
      "(valid ID range 0-%d)\n")
    [.num c.log.timestamp, .num c.log.hwthread, .str c.registry.registryName, .num c.log.id,
      .num c.registry.numIds]

/-- One round of the loop, from the check of the `id` on. -/
def printEntry (c : FlightCursor) (o : Output) : Output :=
  if c.registry.numIds ≤ c.log.id then o.append (c.invalidLog env)
  else formatEntry env (c.registry.flightformatter c.log.id) c.log (o.pieces (c.head env))

def dumpHead (logregistry : FlightRegistry) (entryNum : Nat) : List Piece :=
  let logentry := logregistry.flightlog entryNum
  [env.counted "TB=%016lx %s:%-2d "
      [.num logentry.timestamp, .str (logregistry.flightformatter logentry.id).idStr, .num logentry.hwthread],
    env.counted "%6ld(%s)" [.num entryNum, .str logregistry.registryName]]

/-- `dump_flight_entry`, with the stack as `scratch` finds it, and with `-EINVAL` for a formatter of another type. -/
def dumpFlightEntry (logregistry : FlightRegistry) (entryNum : Nat) (stack : Nat → Bool) : Int × Output :=
  let logentry := logregistry.flightlog entryNum
  let fmt := logregistry.flightformatter logentry.id
  (if fmt.type = .other then -22 else 0,
    formatEntry env fmt logentry ((Output.start stack 1024).pieces (dumpHead env logregistry entryNum)))

/-- What the `switch` adds to the counted lengths. -/
def FlightFormatter.length (fmt : FlightFormatter) (log : FlightEntry) : Nat :=
  match fmt.type with
  | .printf => env.snprintf fmt.formatString log.args
  | .func => Prints.counted (fmt.formatFunction log)
  | .other => 0

/-- What the `switch` takes of the room. -/
def FlightFormatter.taken (fmt : FlightFormatter) (log : FlightEntry) (room : Nat) : Nat :=
  match fmt.type with
  | .printf => env.snprintf fmt.formatString log.args
  | .func => textLength room (fmt.formatFunction log)
  | .other => 0

/-- What an entry leaves of the room. -/
def FlightCursor.left (c : FlightCursor) (room : Nat) : Nat :=
  if c.registry.numIds ≤ c.log.id then room - c.invalidLog env
  else
    let room := room - Prints.counted (c.head env)
    room - (c.registry.flightformatter c.log.id).taken env c.log room

/-- An entry has room for all that is counted of it. If what stands before the text of a function takes all of the
room, the byte behind the buffer has to be zero besides. -/
structure HasRoom (head : List Piece) (fmt : FlightFormatter) (log : FlightEntry) (room : Nat) (behind : Bool) :
    Prop where
  fits : Prints.counted head + fmt.length env log ≤ room
  ends : fmt.type = .func → Prints.counted head = room → behind = true

def FlightCursor.HasRoom (c : FlightCursor) (room : Nat) (behind : Bool) : Prop :=
  if c.registry.numIds ≤ c.log.id then c.invalidLog env ≤ room
  else BgqVrnic.HasRoom env (c.head env) (c.registry.flightformatter c.log.id) c.log room behind

end Print

section Room

variable {env : PrintEnv} {o : Output} {stop : Nat} {head : List Piece} {fmt : FlightFormatter}
  {log : FlightEntry}

theorem formatEntry_places {q : Nat × Nat} (h : q ∈ o.places) : q ∈ (formatEntry env fmt log o).places := by
  unfold formatEntry
  split
  next => exact Output.append_places h
  next => exact Output.call_places h
  next => exact h

theorem formatEntry_inside_iff (h : o.Inside stop) (ht : o.Terminated) :
    (formatEntry env fmt log o).Inside stop ↔ fmt.length env log ≤ o.bufferSize ∧
      (fmt.type = .func → o.bufferSize = 0 → o.mem stop = true) := by
  unfold formatEntry FlightFormatter.length
  cases htype : fmt.type with
  | printf => simpa using h.append_iff
  | func => simpa using h.call_iff ht
  | other => simpa using h

theorem formatEntry_outside {p : Nat} (h : (formatEntry env fmt log o).Inside stop) (hp : stop ≤ p) :
    (formatEntry env fmt log o).mem p = o.mem p := by
  have hold : o.Inside stop := fun q hq => h q (formatEntry_places hq)
  unfold formatEntry at h ⊢
  split at h
  next => exact hold.append_outside hp
  next => exact Output.Inside.call_outside h hp
  next => rfl

theorem formatEntry_bufferSize (h : o.Inside stop) (ht : o.Terminated)
    (hentry : (formatEntry env fmt log o).Inside stop) :
    (formatEntry env fmt log o).bufferSize = o.bufferSize - fmt.taken env log o.bufferSize := by
  unfold formatEntry FlightFormatter.taken at *
  cases htype : fmt.type with
  | printf =>
    rw [htype] at hentry
    exact Output.append_bufferSize (h.append_iff.mp hentry)
  | func =>
    rw [htype] at hentry
    exact Output.Inside.call_bufferSize hentry ht
  | other => rfl

/-- What stands before the text of an entry, where it is inside, has come to its end. -/
theorem pieces_terminated_of_last (hhead : ∃ ps n, head = ps ++ [.counted n]) (hin : (o.pieces head).Inside stop) :
    (o.pieces head).Terminated := by
  obtain ⟨ps, n, rfl⟩ := hhead
  exact hin.pieces_terminated

/-- An entry stays inside exactly if it has room. -/
theorem formatEntry_pieces_inside_iff (h : o.Inside stop) (hhead : ∃ ps n, head = ps ++ [.counted n]) :
    (formatEntry env fmt log (o.pieces head)).Inside stop ↔
      HasRoom env head fmt log o.bufferSize (o.mem stop) := by
  constructor
  · intro hentry
    have hin : (o.pieces head).Inside stop := fun q hq => hentry q (formatEntry_places hq)
    have ht := pieces_terminated_of_last hhead hin
    obtain ⟨hle, hbehind⟩ := (formatEntry_inside_iff hin ht).mp hentry
    have hsum := h.pieces_iff.mp hin
    rw [hin.pieces_bufferSize] at hle hbehind
    rw [hin.outside (Nat.le_refl _)] at hbehind
    exact ⟨by omega, fun htype hfull => hbehind htype (by omega)⟩
  · rintro ⟨hroom, hbehind⟩
    have hin : (o.pieces head).Inside stop := h.pieces_iff.mpr (by omega)
    have ht := pieces_terminated_of_last hhead hin
    rw [formatEntry_inside_iff hin ht, hin.pieces_bufferSize, hin.outside (Nat.le_refl _)]
    exact ⟨by omega, fun htype hfull => hbehind htype (by omega)⟩

theorem FlightCursor.head_last (c : FlightCursor) : ∃ ps n, c.head env = ps ++ [.counted n] := ⟨_, _, rfl⟩

theorem printEntry_inside_iff {c : FlightCursor} (h : o.Inside stop) :
    (printEntry env c o).Inside stop ↔ c.HasRoom env o.bufferSize (o.mem stop) := by
  unfold printEntry FlightCursor.HasRoom
  split
  next => exact h.append_iff
  next => exact formatEntry_pieces_inside_iff h c.head_last

/-- An entry that stays inside leaves what its lengths say. -/
theorem printEntry_bufferSize {c : FlightCursor} (h : o.Inside stop) (hentry : (printEntry env c o).Inside stop) :
    (printEntry env c o).bufferSize = c.left env o.bufferSize := by
  unfold printEntry FlightCursor.left at *
  by_cases hid : c.registry.numIds ≤ c.log.id
  · rw [if_pos hid] at hentry
    rw [if_pos hid, if_pos hid]
    exact Output.append_bufferSize (h.append_iff.mp hentry)
  · rw [if_neg hid] at hentry
    rw [if_neg hid, if_neg hid]
    have hin : (o.pieces (c.head env)).Inside stop := fun q hq => hentry q (formatEntry_places hq)
    have ht := pieces_terminated_of_last c.head_last hin
    rw [formatEntry_bufferSize hin ht hentry, hin.pieces_bufferSize]

theorem printEntry_places {c : FlightCursor} {q : Nat × Nat} (h : q ∈ o.places) :
    q ∈ (printEntry env c o).places := by
  unfold printEntry
  split
  next => exact Output.append_places h
  next => exact formatEntry_places (Output.pieces_places _ h)

theorem printEntry_outside {c : FlightCursor} {p : Nat} (h : (printEntry env c o).Inside stop)
    (hp : stop ≤ p) : (printEntry env c o).mem p = o.mem p := by
  have hold : o.Inside stop := fun q hq => h q (printEntry_places hq)
  unfold printEntry at h ⊢
  by_cases hid : c.registry.numIds ≤ c.log.id
  · rw [if_pos hid]
    exact hold.append_outside hp
  · rw [if_neg hid] at h ⊢
    have hin : (o.pieces (c.head env)).Inside stop := fun q hq => h q (formatEntry_places hq)
    rw [formatEntry_outside h hp, hin.outside hp]

end Room

/-- Everything has been put between the start of the buffer and `stop`, and behind it the memory is as it was. -/
structure Contained (stop : Nat) (mem : Nat → Bool) (o : Output) : Prop where
  inside : o.Inside stop
  outside : ∀ p, stop ≤ p → o.mem p = mem p

theorem Contained.refl {o : Output} {stop : Nat} (h : o.Inside stop) : Contained stop o.mem o :=
  ⟨h, fun _ _ => rfl⟩

theorem dumpFlightEntry_contained_iff (env : PrintEnv) (logregistry : FlightRegistry) (entryNum : Nat)
    (stack : Nat → Bool) :
    Contained 1024 stack (dumpFlightEntry env logregistry entryNum stack).2 ↔
      HasRoom env (dumpHead env logregistry entryNum)
        (logregistry.flightformatter (logregistry.flightlog entryNum).id) (logregistry.flightlog entryNum)
        1024 (stack 1024) := by
  have hstart : (Output.start stack 1024).Inside 1024 := Output.start_inside stack 1024
  have hlast : ∃ ps n, dumpHead env logregistry entryNum = ps ++ [.counted n] := ⟨[_], _, rfl⟩
  refine Iff.trans ?_ (formatEntry_pieces_inside_iff hstart hlast)
  refine ⟨fun hc => hc.inside, fun hin => ⟨hin, fun p hp => ?_⟩⟩
  have hhead : ((Output.start stack 1024).pieces (dumpHead env logregistry entryNum)).Inside
      1024 := fun q hq => hin q (formatEntry_places hq)
  have hentry := formatEntry_outside hin hp
  rw [hhead.outside hp] at hentry
  exact hentry

section Decode

variable {env : PrintEnv} {stop rounds : Nat} {cs : List FlightCursor} {o : Output}

theorem printEntry_contained_iff {c : FlightCursor} (h : o.Inside stop) :
    Contained stop o.mem (printEntry env c o) ↔ c.HasRoom env o.bufferSize (o.mem stop) := by
  rw [← printEntry_inside_iff h]
  exact ⟨fun hc => hc.inside, fun hin => ⟨hin, fun p hp => printEntry_outside hin hp⟩⟩

theorem decodeLoop_places (rounds : Nat) (cs : List FlightCursor) {o : Output} {q : Nat × Nat}
    (h : q ∈ o.places) :
    q ∈ (decodeLoop Output.bufferSize (printEntry env) rounds cs o).output.places := by
  induction rounds generalizing cs o with
  | zero => exact h
  | succ rounds ih =>
    rcases decodeLoop_succ_cases Output.bufferSize (printEntry env) rounds cs o with
      ⟨-, hloop⟩ | ⟨lsel, c, -, ⟨-, hloop⟩ | ⟨-, -, hloop⟩ | ⟨-, -, hloop⟩⟩
    · rwa [hloop]
    · rwa [hloop]
    · rw [hloop]
      exact printEntry_places h
    · rw [hloop]
      exact ih _ (printEntry_places h)

/-- The loop stays inside exactly if every entry has room, in a run of the loop that only keeps count of the room. -/
theorem decodeLoop_contained_iff (h : o.Inside stop) :
    Contained stop o.mem (decodeLoop Output.bufferSize (printEntry env) rounds cs o).output ↔
      ∀ s ∈ (decodeLoop id (FlightCursor.left env) rounds cs o.bufferSize).steps,
        s.2.1.HasRoom env s.2.2 (o.mem stop) := by
  induction rounds generalizing cs o with
  | zero => exact iff_of_true (.refl h) fun s hs => by cases hs
  | succ rounds ih =>
    unfold decodeLoop
    cases select cs with
    | none => exact iff_of_true (.refl h) fun s hs => by cases hs
    | some s =>
      obtain ⟨lsel, c⟩ := s
      dsimp only [id]
      by_cases hfull : o.bufferSize < 256
      · rw [if_pos hfull, if_pos hfull]
        exact iff_of_true (.refl h) fun s hs => by cases hs
      rw [if_neg hfull, if_neg hfull]
      by_cases hid : c.registry.numIds ≤ c.log.id
      · rw [if_pos hid, if_pos hid, List.forall_mem_singleton]
        exact printEntry_contained_iff h
      rw [if_neg hid, if_neg hid]
      by_cases hmore : c.moreData lsel = 0
      · rw [if_pos hmore, if_pos hmore, List.forall_mem_singleton]
        exact printEntry_contained_iff h
      rw [if_neg hmore, if_neg hmore, List.forall_mem_cons]
      by_cases hroom : c.HasRoom env o.bufferSize (o.mem stop)
      · have hstep := (printEntry_contained_iff h).mpr hroom
        have hrest := @ih (cs.set lsel c.advance) _ hstep.inside
        rw [printEntry_bufferSize h hstep.inside, hstep.outside stop (Nat.le_refl _)] at hrest
        rw [and_iff_right hroom, ← hrest]
        constructor
        · rintro ⟨hin, hout⟩
          exact ⟨hin, fun p hp => (hout p hp).trans (hstep.outside p hp).symm⟩
        · rintro ⟨hin, hout⟩
          exact ⟨hin, fun p hp => (hout p hp).trans (hstep.outside p hp)⟩
      · refine iff_of_false (fun hc => hroom ?_) fun hall => hroom hall.1
        exact (printEntry_inside_iff h).mp fun q hq => hc.inside q (decodeLoop_places _ _ hq)

end Decode

end BgqVrnic
