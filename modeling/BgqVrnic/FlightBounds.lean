import BgqVrnic.MudmFormats

namespace BgqVrnic

open Prints

theorem pieces_contained_iff (mem : Nat → Bool) (bufferSize : UInt64) (ps : List Piece) :
    Contained bufferSize.toNat mem ((Output.start mem bufferSize).pieces ps) ↔
      Prints.counted ps ≤ bufferSize.toNat := by
  have hstart := Output.start_inside mem bufferSize
  rw [show bufferSize.toNat = (Output.start mem bufferSize).bufferSize from rfl, ← hstart.pieces_iff]
  exact ⟨fun hc => hc.inside, fun hin => ⟨hin, fun p hp => hin.outside hp⟩⟩

/-- A format function, a dump of an entry and a call that decodes logs keep within the buffer exactly if there is
room for all lengths that are counted of every entry; for the decoder this is the room that the entries before it
leave of the buffer, which is counted from the logs and the lengths alone. -/
theorem prints_contained_iff (env : PrintEnv) :
    (∀ (format : MudmFormat) (log : FlightEntry) (mem : Nat → Bool) (bufferSize : UInt64),
      Contained bufferSize.toNat mem ((Output.start mem bufferSize).pieces (format.pieces env log)) ↔
        Prints.counted (format.pieces env log) ≤ bufferSize.toNat) ∧
      (∀ (logregistry : FlightRegistry) (entryNum : Nat) (stack : Nat → Bool),
        Contained 1024 stack (dumpFlightEntry env logregistry entryNum stack).2 ↔
          HasRoom env (dumpHead env logregistry entryNum)
            (logregistry.flightformatter (logregistry.flightlog entryNum).id)
            (logregistry.flightlog entryNum) 1024 (stack 1024)) ∧
      ∀ (rounds : Nat) (logregistry : List FlightRegistry) (mem : Nat → Bool) (bufferSize : UInt64),
        Contained bufferSize.toNat mem
            (kernelDecodeFlightLogs Output.bufferSize (printEntry env) rounds logregistry
              (Output.start mem bufferSize)).output ↔
          ∀ s ∈ (kernelDecodeFlightLogs id (FlightCursor.left env) rounds logregistry bufferSize.toNat).steps,
            s.2.1.HasRoom env s.2.2 (mem bufferSize.toNat) :=
  ⟨fun format log mem bufferSize => pieces_contained_iff mem bufferSize (format.pieces env log),
    dumpFlightEntry_contained_iff env,
    fun _ _ mem bufferSize => decodeLoop_contained_iff (Output.start_inside mem bufferSize)⟩

/-- The characters of an argument at the conversion `c`, with so many `l` before it. -/
def argLength (c : Char) (longs : Nat) : PrintArg → Nat
  | .str s => s.toList.length
  | .num n =>
    let bits := if longs = 0 then 32 else 64
    let n := n % 2 ^ bits
    if c = 'x' then (Nat.toDigits 16 n).length
    else if c = 'd' ∧ 2 ^ (bits - 1) ≤ n then (Nat.toDigits 10 (2 ^ bits - n)).length + 1
    else (Nat.toDigits 10 n).length

/-- The length of a text by its format, within a conversion the width and the number of `l` that have been read. -/
def formatLength : List Char → Option (Nat × Nat) → List PrintArg → Nat
  | [], _, _ => 0
  | c :: format, none, args =>
    if c = '%' then formatLength format (some (0, 0)) args else formatLength format none args + 1
  | c :: format, some (width, longs), args =>
    if c.isDigit then formatLength format (some (width * 10 + (c.toNat - 48), longs)) args
    else if c = '-' then formatLength format (some (width, longs)) args
    else if c = 'l' then formatLength format (some (width, longs + 1)) args
    else match args with
      | [] => formatLength format none []
      | arg :: args => max width (argLength c longs arg) + formatLength format none args

def snprintfLength (format : String) (args : List PrintArg) : Nat := formatLength format.toList none args

def linuxEnv : PrintEnv := ⟨snprintfLength, fun _ => (0, 0, 0, 0), fun _ => (0, 0)⟩

/-- The header of a packet that comes back from an I/O node. -/
def returnedPacket : FlightEntry :=
  ⟨0x1234567890, 5, 2, 0x550018603FFFFFFF, 0x010000004000FFFF, 0xBFFFFFFF3FFFFFFF, 0x02001BC1FFFFFFFF⟩

/-- The log for the traffic, with the header of one packet. -/
def hiwrapLog : FlightRegistry :=
  kernelWriteFlightLogs [returnedPacket]
    ⟨fun _ => default, 4096, 0, mudmFlightlogFmt linuxEnv, 52, 0, 0, 0, 0, "hiwrap"⟩

theorem hiwrapLog_ring : hiwrapLog.Ring [returnedPacket.kept] :=
  (FlightRegistry.Ring.writes (by decide) (fun _ => rfl) [returnedPacket] (by decide) (by decide)).1

/-- Its text is 383 characters long, and a buffer of 256 bytes is accepted for it. -/
theorem hiwrapLog_leaves_buffer :
    (260, 2 ^ 64 - 4) ∈ (kernelDecodeFlightLogs Output.bufferSize (printEntry linuxEnv) 3 [hiwrapLog]
        (Output.start (fun _ => true) 256)).output.places ∧
      ¬Contained 256 (fun _ => true) (kernelDecodeFlightLogs Output.bufferSize (printEntry linuxEnv) 3
        [hiwrapLog] (Output.start (fun _ => true) 256)).output := by
  have hdecode : kernelDecodeFlightLogs Output.bufferSize (printEntry linuxEnv) 3 [hiwrapLog]
      (Output.start (fun _ => true) 256) =
      decodeLoop Output.bufferSize (printEntry linuxEnv) 3 [⟨{ hiwrapLog with lastOffset := 1 }, 0, 4095⟩]
        (Output.start (fun _ => true) 256) := by
    unfold kernelDecodeFlightLogs
    rw [List.map_cons, hiwrapLog_ring.acquire rfl]
    rfl
  have hwritten : (decodeLoop Output.bufferSize (printEntry linuxEnv) 3
      [⟨{ hiwrapLog with lastOffset := 1 }, 0, 4095⟩] (Output.start (fun _ => true) 256)).output.mem 300 =
        false := by
    decide +kernel
  rw [hdecode]
  refine ⟨by decide +kernel, fun hc => ?_⟩
  rw [hc.outside 300 (by decide)] at hwritten
  cases hwritten

end BgqVrnic
