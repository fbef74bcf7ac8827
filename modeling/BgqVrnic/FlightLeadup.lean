import BgqVrnic.FlightPrint
import BgqVrnic.RingWindow
import BgqVrnic.Sweeps

namespace BgqVrnic

open Prints Rings Sweeps

/-- The dumps of `dump_flightlog_leadup`, each with the place of its entry in the log, and `num_dumped`. -/
structure LeadupDump where
  dumped : List (Nat × Int × Output)
  numDumped : UInt64

namespace LeadupDump

variable (env : PrintEnv) (stack : Nat → Nat → Bool) (logregistry : FlightRegistry)

/-- `dump_flight_entry(logregistry, i); num_dumped++;`, with the stack as this dump finds it. -/
def entry (i : UInt64) (d : LeadupDump) : LeadupDump :=
  ⟨d.dumped ++ [(i.toNat, dumpFlightEntry env logregistry i.toNat (stack d.numDumped.toNat))],
    d.numDumped + 1⟩

def places (d : LeadupDump) : List Nat := d.dumped.map Prod.fst

theorem places_foldl (l : List UInt64) (d : LeadupDump) :
    (l.foldl (fun d i => entry env stack logregistry i d) d).places = d.places ++ l.map UInt64.toNat := by
  induction l generalizing d with
  | nil => rw [List.foldl_nil, List.map_nil, List.append_nil]
  | cons i l ih =>
    have hentry : (entry env stack logregistry i d).places = d.places ++ [i.toNat] := by
      unfold places entry
      rw [List.map_append]
      rfl
    rw [List.foldl_cons, ih, hentry, List.append_assoc]
    rfl

end LeadupDump

section Leadup

variable (env : PrintEnv) (stack : Nat → Nat → Bool)

/-- `dump_flightlog_leadup`, or nothing if one of its loops is still going on after so many rounds. -/
def dumpFlightlogLeadup (rounds : Nat) (logregistry : FlightRegistry) (entryNum num2dump : UInt64) :
    Option LeadupDump :=
  let logsize := UInt64.ofNat logregistry.flightsize
  let entry := LeadupDump.entry env stack logregistry
  if num2dump - 1 ≤ entryNum then
    sweep (fun i => decide (i ≤ entryNum)) (· + 1) entry rounds (entryNum - num2dump) ⟨[], 0⟩
  else
    (sweep (fun i => decide (i < logsize)) (· + 1) entry rounds
      (logsize - (num2dump - (entryNum + 1))) ⟨[], 0⟩).bind fun d =>
    sweep (fun i => decide (i ≤ entryNum)) (· + 1) entry rounds 0 d

variable (logregistry : FlightRegistry) (entryNum num2dump : UInt64) (rounds : Nat)

/-- A loop up to `entry_num`, after others. -/
theorem sweep_places (hrounds : entryNum.toNat + 1 < rounds) (hlt : entryNum.toNat + 1 < 2 ^ 64)
    (first : UInt64) (d : LeadupDump) :
    ∃ d', sweep (fun i => decide (i ≤ entryNum)) (· + 1) (LeadupDump.entry env stack logregistry) rounds
        first d = some d' ∧
      d'.places = d.places ++ List.range' first.toNat (entryNum.toNat + 1 - first.toNat) := by
  refine ⟨_, sweep_upTo hlt (by omega), ?_⟩
  have hfirst := first.toNat_lt
  rw [LeadupDump.places_foldl, counters_toNat (by omega)]

/-- Entries that do not go around the end of the log come one too many, and the first of them is wrong. If they begin
with the first entry of the log, none comes. -/
theorem dumpFlightlogLeadup_straight (hentry : entryNum.toNat < logregistry.flightsize)
    (hsize : logregistry.flightsize < 2 ^ 64) (hdump : 0 < num2dump.toNat)
    (hstraight : num2dump.toNat ≤ entryNum.toNat + 1) (hrounds : logregistry.flightsize < rounds) :
    ∃ d, dumpFlightlogLeadup env stack rounds logregistry entryNum num2dump = some d ∧
      d.places = if num2dump.toNat ≤ entryNum.toNat then
        List.range' (entryNum.toNat - num2dump.toNat) (num2dump.toNat + 1) else [] := by
  have hone : (1 : UInt64).toNat = 1 := rfl
  have hle : num2dump - 1 ≤ entryNum := by
    rw [UInt64.le_iff_toNat_le, UInt64.toNat_sub_of_le _ _ (by rw [UInt64.le_iff_toNat_le]; omega), hone]
    omega
  obtain ⟨d, hd, hplaces⟩ := sweep_places env stack logregistry entryNum rounds (by omega) (by omega)
    (entryNum - num2dump) ⟨[], 0⟩
  refine ⟨d, ?_, ?_⟩
  · rw [← hd]
    exact if_pos hle
  rw [hplaces]
  have hlt := num2dump.toNat_lt
  by_cases hlong : num2dump.toNat ≤ entryNum.toNat
  · rw [if_pos hlong, UInt64.toNat_sub_of_le _ _ (by rw [UInt64.le_iff_toNat_le]; exact hlong),
      show entryNum.toNat + 1 - (entryNum.toNat - num2dump.toNat) = num2dump.toNat + 1 by omega]
    rfl
  · rw [if_neg hlong]
    have hwrap : (entryNum - num2dump).toNat = 2 ^ 64 - 1 := by
      rw [UInt64.toNat_sub]
      omega
    rw [hwrap, show entryNum.toNat + 1 - (2 ^ 64 - 1) = 0 by omega]
    rfl

/-- Entries that go around the end of the log. -/
theorem dumpFlightlogLeadup_around (hentry : entryNum.toNat < logregistry.flightsize)
    (hsize : logregistry.flightsize < 2 ^ 64) (hdump : num2dump.toNat ≤ logregistry.flightsize)
    (haround : entryNum.toNat + 1 < num2dump.toNat) (hrounds : logregistry.flightsize < rounds) :
    ∃ d, dumpFlightlogLeadup env stack rounds logregistry entryNum num2dump = some d ∧
      d.places = around logregistry.flightsize
        (logregistry.flightsize - (num2dump.toNat - (entryNum.toNat + 1))) num2dump.toNat := by
  have hone : (1 : UInt64).toNat = 1 := rfl
  have hlogsize : (UInt64.ofNat logregistry.flightsize).toNat = logregistry.flightsize :=
    UInt64.toNat_ofNat_of_lt' hsize
  have hnot : ¬num2dump - 1 ≤ entryNum := by
    rw [UInt64.le_iff_toNat_le, UInt64.toNat_sub_of_le _ _ (by rw [UInt64.le_iff_toNat_le]; omega), hone]
    omega
  have hnext : (entryNum + 1).toNat = entryNum.toNat + 1 := by
    rw [UInt64.toNat_add, hone]
    omega
  have hbehind : (num2dump - (entryNum + 1)).toNat = num2dump.toNat - (entryNum.toNat + 1) := by
    rw [UInt64.toNat_sub_of_le _ _ (by rw [UInt64.le_iff_toNat_le]; omega), hnext]
  have hle : num2dump - (entryNum + 1) ≤ UInt64.ofNat logregistry.flightsize := by
    rw [UInt64.le_iff_toNat_le]
    omega
  have hfirst : (UInt64.ofNat logregistry.flightsize - (num2dump - (entryNum + 1))).toNat =
      logregistry.flightsize - (num2dump.toNat - (entryNum.toNat + 1)) := by
    rw [UInt64.toNat_sub_of_le _ _ hle, hbehind, hlogsize]
  have hstart : UInt64.ofNat logregistry.flightsize - (num2dump - (entryNum + 1)) ≤
      UInt64.ofNat logregistry.flightsize := by
    rw [UInt64.le_iff_toNat_le]
    omega
  have hend : sweep (fun i => decide (i < UInt64.ofNat logregistry.flightsize)) (· + 1)
      (LeadupDump.entry env stack logregistry) rounds _ ⟨[], 0⟩ = _ := sweep_below hstart (by omega)
  obtain ⟨d, hd, hplaces⟩ := sweep_places env stack logregistry entryNum rounds (by omega) (by omega) 0 _
  refine ⟨d, ?_, hplaces.trans ?_⟩
  · refine (if_neg hnot).trans ?_
    rw [hend]
    exact hd
  rw [LeadupDump.places_foldl, counters_toNat (by omega), hfirst, hlogsize]
  have hwrapped := around_wrapped (n := logregistry.flightsize) (a := num2dump.toNat - (entryNum.toNat + 1))
    (b := entryNum.toNat + 1) (by omega) (by omega)
  rw [Nat.sub_add_cancel (Nat.le_of_lt haround)] at hwrapped
  rw [hwrapped, Nat.sub_sub_self (by omega)]
  rfl

/-- The entries that lead up to an entry are dumped exactly if they go around the end of the log. -/
theorem dumpFlightlogLeadup_leadsUp_iff (env : PrintEnv) (stack : Nat → Nat → Bool)
    (logregistry : FlightRegistry) (entryNum num2dump : UInt64) (rounds : Nat)
    (hsize : logregistry.flightsize < 2 ^ 64) (hentry : entryNum.toNat < logregistry.flightsize)
    (hpos : 1 ≤ num2dump.toNat) (hdump : num2dump.toNat ≤ logregistry.flightsize)
    (hrounds : logregistry.flightsize < rounds) :
    ∃ d, dumpFlightlogLeadup env stack rounds logregistry entryNum num2dump = some d ∧
      (LeadsUp logregistry.flightsize entryNum.toNat num2dump.toNat d.places ↔
        entryNum.toNat + 1 < num2dump.toNat) := by
  by_cases haround : entryNum.toNat + 1 < num2dump.toNat
  · obtain ⟨d, hd, hplaces⟩ := dumpFlightlogLeadup_around env stack logregistry entryNum num2dump rounds hentry
      hsize hdump haround hrounds
    refine ⟨d, hd, fun _ => haround, fun _ => ?_⟩
    have hleads := around_leadsUp (n := logregistry.flightsize)
      (i := logregistry.flightsize - (num2dump.toNat - (entryNum.toNat + 1))) (k := num2dump.toNat)
      (by omega) hpos
    rw [show logregistry.flightsize - (num2dump.toNat - (entryNum.toNat + 1)) + (num2dump.toNat - 1) =
      entryNum.toNat + logregistry.flightsize by omega, Nat.add_mod_right, Nat.mod_eq_of_lt hentry] at hleads
    rw [hplaces]
    exact hleads
  · obtain ⟨d, hd, hplaces⟩ := dumpFlightlogLeadup_straight env stack logregistry entryNum num2dump rounds hentry
      hsize hpos (by omega) hrounds
    refine ⟨d, hd, fun hleads => ?_, fun h => absurd h haround⟩
    have hlength := hleads.length
    rw [hplaces] at hlength
    split at hlength
    · rw [List.length_range'] at hlength
      omega
    · rw [List.length_nil] at hlength
      omega

end Leadup

def emptyLog (flightsize : Nat) : FlightRegistry :=
  ⟨fun _ => default, flightsize, 0, fun _ => ⟨"", .other, "", fun _ => []⟩, 0, 0, 0, 0, 0, "debug"⟩

def quietEnv : PrintEnv := ⟨fun _ _ => 0, fun _ => (0, 0, 0, 0), fun _ => (0, 0)⟩

/-- Three entries that end at the second one of a log of four. -/
theorem dumpFlightlogLeadup_leadsUp_three :
    ∃ d, dumpFlightlogLeadup quietEnv (fun _ _ => true) 5 (emptyLog 4) 1 3 = some d ∧
      LeadsUp 4 1 3 d.places := by
  obtain ⟨d, hd, hiff⟩ := dumpFlightlogLeadup_leadsUp_iff quietEnv (fun _ _ => true) (emptyLog 4) 1 3 5
    (by decide) (by decide) (by decide) (by decide) (by decide)
  exact ⟨d, hd, hiff.mpr (by decide)⟩

/-- A link reset asks for one entry. It gets the one before it too, and nothing if that entry is the first of the
log. -/
theorem oneEntry_not_leadup :
    (∃ d, dumpFlightlogLeadup quietEnv (fun _ _ => true) 5 (emptyLog 4) 2 1 = some d ∧
        d.places = [1, 2] ∧ ¬LeadsUp 4 2 1 d.places) ∧
      ∃ d, dumpFlightlogLeadup quietEnv (fun _ _ => true) 5 (emptyLog 4) 0 1 = some d ∧
        d.places = [] ∧ ¬LeadsUp 4 0 1 d.places := by
  constructor
  · obtain ⟨d, hd, hplaces⟩ := dumpFlightlogLeadup_straight quietEnv (fun _ _ => true) (emptyLog 4) 2 1 5
      (by decide) (by decide) (by decide) (by decide) (by decide)
    refine ⟨d, hd, hplaces, fun hleads => ?_⟩
    have hlength := hleads.length
    rw [hplaces] at hlength
    exact absurd hlength (by decide)
  · obtain ⟨d, hd, hplaces⟩ := dumpFlightlogLeadup_straight quietEnv (fun _ _ => true) (emptyLog 4) 0 1 5
      (by decide) (by decide) (by decide) (by decide) (by decide)
    refine ⟨d, hd, hplaces, fun hleads => ?_⟩
    have hlength := hleads.length
    rw [hplaces] at hlength
    exact absurd hlength (by decide)

end BgqVrnic
