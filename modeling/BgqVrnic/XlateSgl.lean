import BgqVrnic.ConnTypes

namespace BgqVrnic

/-- `MUDM_MAX_SGE`, the number of pieces a scatter list may be translated into. -/
def mudmMaxSge : Nat := 58

structure IbSge where
  addr : Nat
  length : Nat
  lkey : Nat
  deriving DecidableEq, Repr, Inhabited

structure MudmSgl where
  physicalAddr : Nat
  memlength : Nat
  deriving DecidableEq, Repr, Inhabited

/-- `struct bgvrnic_mr`: the registered range and the physical pieces it consists of. -/
structure MemoryRegion where
  start : Nat
  length : Nat
  sge : List MudmSgl
  deriving DecidableEq, Repr, Inhabited

/-- `bgvrnic_get_mr`: the regions that a device knows, by key. -/
abbrev RegionTable := Nat → Option MemoryRegion

/-- The output array of a translation, as the caller left it beyond the first `pi` entries. -/
structure PieceArea where
  psge : Nat → MudmSgl
  pi : Nat

def PieceArea.put (a : PieceArea) (e : MudmSgl) : PieceArea :=
  { psge := Function.update a.psge a.pi e, pi := a.pi + 1 }

/-- What `bgvrnic_xlate_sgl` leaves behind: its return value, the array and `*num_psge`. -/
structure Xlation where
  rc : Int
  psge : Nat → MudmSgl
  numPsge : Nat

/-- The output pieces of a translation. -/
def Xlation.pieces (x : Xlation) : List MudmSgl := (List.range x.numPsge).map x.psge

/-- A C `int` after an assignment from a wider value. -/
def toInt32 (x : Int) : Int := Int.bmod x (2 ^ 32)

/-- A C `u32` after an assignment from a signed value. -/
def toU32 (x : Int) : Nat := (x % 2 ^ 32).toNat

/-- Drop the region entries before offset `off`; what is left is the offset into the next. -/
def locate : List MudmSgl → Nat → List MudmSgl × Nat
  | [], off => ([], off)
  | e :: es, off =>
    if off ≠ 0 ∧ e.memlength ≤ off then locate es (off - e.memlength) else (e :: es, off)

/-- The inner loop: whole region entries while bytes, output room and entries are left. -/
def fillPieces (limit : Nat) : List MudmSgl → Nat → PieceArea → PieceArea
  | [], _, a => a
  | e :: es, bytes, a =>
    if bytes ≠ 0 ∧ a.pi < limit then
      if bytes < e.memlength then a.put { e with memlength := bytes }
      else fillPieces limit es (bytes - e.memlength) (a.put e)
    else a

/-- One user SGE; `none` is the `BUG_ON` for an offset past the region's entries. -/
def xlateSge (limit : Nat) (sge : List MudmSgl) (off bytes : Nat) (a : PieceArea) :
    Option PieceArea :=
  match locate sge off with
  | ([], _) => none
  | (e :: es, off) =>
    let len := e.memlength - off
    let pa := (e.physicalAddr + off) % 2 ^ 36
    if bytes < len then some (a.put ⟨pa, bytes⟩)
    else some (fillPieces limit es (bytes - len) (a.put ⟨pa, len⟩))

/-- The user address relative to the region, in 64-bit arithmetic. -/
def regionOffset (mr : MemoryRegion) (addr : Nat) : Nat := (addr + (2 ^ 64 - mr.start)) % 2 ^ 64

def xlateFrom (mrs : RegionTable) (limit : Nat) :
    List IbSge → Int → PieceArea → Option Xlation
  | [], total, a => some ⟨total, a.psge, a.pi⟩
  | u :: us, total, a =>
    match mrs u.lkey with
    | none => some ⟨-ENOMEM, a.psge, limit⟩
    | some mr => do
      let a ← xlateSge limit mr.sge (regionOffset mr u.addr) u.length a
      if limit ≤ a.pi then some ⟨-E2BIG, a.psge, limit⟩
      else xlateFrom mrs limit us (toInt32 (total + u.length)) a

/-- `bgvrnic_xlate_sgl` on an output array `psge` of `numPsge` entries. -/
def bgvrnicXlateSgl (mrs : RegionTable) (usge : List IbSge) (psge : Nat → MudmSgl)
    (numPsge : Nat) : Option Xlation :=
  xlateFrom mrs numPsge usge 0 ⟨psge, 0⟩

end BgqVrnic
