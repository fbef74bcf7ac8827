import BgqVrnic.Ownership
import BgqVrnic.QpNumbers
import BgqVrnic.RegUserMr

namespace BgqVrnic

open Runs Ownership

/-- `struct bgvrnic_mr`, with the pointers to its SGEs and to the pinned memory by their addresses. -/
structure BgvrnicMr where
  lkey : Nat
  rkey : Nat
  sge : Nat
  sgeNum : Nat
  umem : Nat
  start : Nat
  length : Nat
  deriving DecidableEq, Repr, Inhabited

/-- Where a region is: it is being registered, at one of the places where `bgvrnic_reg_user_mr` waits or can fail, is
registered, goes back through the labels behind a failure, or is being deregistered. -/
inductive RegStage
  | idle
  | pinned | fresh | numbered | mapped | fitted
  | live
  | out4 | out3 | out2 | out1
  | released | unlisted
  deriving DecidableEq, Repr

namespace RegStage

def holdsUmem : RegStage → Bool
  | .pinned | .fresh | .numbered | .mapped | .fitted | .live | .out4 | .out3 | .out2 | .out1 => true
  | _ => false

def holdsMr : RegStage → Bool
  | .fresh | .numbered | .mapped | .fitted | .live | .out4 | .out3 | .out2 | .released | .unlisted => true
  | _ => false

def holdsKey : RegStage → Bool
  | .numbered | .mapped | .fitted | .live | .out4 | .out3 | .released => true
  | _ => false

def holdsSge : RegStage → Bool
  | .mapped | .fitted | .live | .out4 | .released | .unlisted => true
  | _ => false

/-- The fields of the region have been filled in. -/
def filled : RegStage → Bool
  | .live | .released | .unlisted => true
  | _ => false

end RegStage

/-- What a call of `bgvrnic_reg_user_mr` knows: its arguments, the pinned memory, and what it has got. The last value is
what it is going to return. -/
structure RegCall where
  start : Nat
  length : Nat
  umem : Nat
  pages : IbUmem
  mr : Nat
  lkey : Nat
  sge : Nat
  rc : Int

/-- The SGEs of the whole region. -/
def RegCall.sges (c : RegCall) : List MudmSgl := (c.pages.mapped c.length).sge.reverse

/-- The memory that the driver has for regions, by addresses, its `mr_pool`, the regions of the callers, the SGEs that
deregistered regions have left behind, and what the calls returned. -/
structure MrTable (κ : Type) where
  prevId : Int
  idr : List (Nat × Nat)
  mrs : Nat → Option BgvrnicMr
  sges : Nat → Option (List MudmSgl)
  umems : Nat → Option IbUmem
  stage : κ → RegStage
  call : κ → RegCall
  leaked : List (κ × Nat)
  results : List (κ × Int)

/-- The steps of `bgvrnic_reg_user_mr` with the answers that they get, in which fresh memory is named by its address
and comes with what was in it, and those of `bgvrnic_dereg_mr`. -/
inductive RegInput (κ : Type)
  | reg (k : κ) (start length : Nat) (answer : Except Int (Nat × IbUmem))
  | mrAlloc (k : κ) (answer : Option (Nat × BgvrnicMr))
  | number (k : κ) (agains : Nat) (last : IdrOutcome)
  | sgeAlloc (k : κ) (answer : Option Nat)
  | newSge (k : κ) (answer : Option Nat)
  | finish (k : κ)
  | unwind (k : κ)
  | dereg (k : κ)
  | deregGo (k : κ)

namespace MrTable

variable {κ : Type}

/-- `bgvrnic_get_mr` -/
def bgvrnicGetMr (s : MrTable κ) (lkey : Nat) : Option Nat := s.idr.lookup lkey

/-- `bgvrnic_alloc_lkey` up to its return value, with the number that it stores in the region. The idr first asks for
memory `agains` times, and gets it. -/
def bgvrnicAllocLkey (A : Idr) (mr : Nat) (last : IdrOutcome) : Nat → MrTable κ → Int × Nat × MrTable κ
  | agains + 1, s => bgvrnicAllocLkey A mr last agains { s with prevId := nextId s.prevId }
  | 0, s =>
    let start := s.prevId
    let s := { s with prevId := nextId s.prevId }
    match last with
    | .number =>
      let num := A.newAbove (s.idr.map Prod.fst) start
      (0, num, { s with idr := (num, mr) :: s.idr })
    | .noMemory => (-EAGAIN, 0, s)
    | .noSpace => (-ENOSPC, 0, s)

/-- `bgvrnic_free_lkey` -/
def bgvrnicFreeLkey (s : MrTable κ) (lkey : Nat) : MrTable κ :=
  { s with idr := s.idr.filter fun e => e.1 ≠ lkey }

def setMr (s : MrTable κ) (mr : Nat) (b : Option BgvrnicMr) : MrTable κ :=
  { s with mrs := Function.update s.mrs mr b }

def setSge (s : MrTable κ) (sge : Nat) (l : Option (List MudmSgl)) : MrTable κ :=
  { s with sges := Function.update s.sges sge l }

def setUmem (s : MrTable κ) (umem : Nat) (u : Option IbUmem) : MrTable κ :=
  { s with umems := Function.update s.umems umem u }

/-- A write to a region, if it is there. -/
def modifyMr (s : MrTable κ) (mr : Nat) (f : BgvrnicMr → BgvrnicMr) : MrTable κ :=
  s.setMr mr ((s.mrs mr).map f)

variable [DecidableEq κ]

def go (s : MrTable κ) (k : κ) (stage : RegStage) (c : RegCall) : MrTable κ :=
  { s with stage := Function.update s.stage k stage, call := Function.update s.call k c }

def answer (s : MrTable κ) (k : κ) (rc : Int) : MrTable κ := { s with results := s.results ++ [(k, rc)] }

/-- The call goes to the label behind a failure. -/
def fail (s : MrTable κ) (k : κ) (label : RegStage) (rc : Int) : MrTable κ :=
  s.go k label { s.call k with rc := rc }

/-- One of the labels at the end of `bgvrnic_reg_user_mr`. -/
def unwindStep (s : MrTable κ) (k : κ) : Option (MrTable κ) :=
  let c := s.call k
  match s.stage k with
  | .out4 => (s.mrs c.mr).map fun b => (s.setSge b.sge none).go k .out3 c
  | .out3 => (s.mrs c.mr).map fun b => (s.bgvrnicFreeLkey b.lkey).go k .out2 c
  | .out2 => some ((s.setMr c.mr none).go k .out1 c)
  | .out1 => some (((s.setUmem c.umem none).go k .idle c).answer k c.rc)
  | _ => none

/-- One of the steps of `bgvrnic_dereg_mr`, which frees the region and not its SGEs. -/
def deregStep (s : MrTable κ) (k : κ) : Option (MrTable κ) :=
  let c := s.call k
  match s.stage k with
  | .released => (s.mrs c.mr).map fun b => (s.bgvrnicFreeLkey b.lkey).go k .unlisted c
  | .unlisted => some (({ s.setMr c.mr none with leaked := s.leaked ++ [(k, c.sge)] }.go k .idle c).answer k 0)
  | _ => none

/-- No memory is handed out twice, and a region is deregistered by those who have it. -/
def regStep (A : Idr) (s : MrTable κ) : RegInput κ → Option (MrTable κ)
  | .reg k start length result =>
    if s.stage k = .idle then
      if length = 0 then some (s.answer k (-EINVAL))
      else
        match result with
        | .error rc => some (s.answer k rc)
        | .ok (umem, pages) =>
          if umem ≠ 0 ∧ s.umems umem = none then
            some ((s.setUmem umem (some pages)).go k .pinned ⟨start, length, umem, pages, 0, 0, 0, 0⟩)
          else none
    else none
  | .mrAlloc k result =>
    if s.stage k = .pinned then
      match result with
      | none => some (s.fail k .out1 (-ENOMEM))
      | some (mr, garbage) =>
        if s.mrs mr = none then some ((s.setMr mr (some garbage)).go k .fresh { s.call k with mr := mr }) else none
    else none
  | .number k agains last =>
    if s.stage k = .fresh then
      let c := s.call k
      let (rc, num, t) := bgvrnicAllocLkey A c.mr last agains s
      if rc ≠ 0 then some (t.fail k .out2 (-EINVAL))
      else some ((t.modifyMr c.mr fun b => { b with lkey := num, rkey := num }).go k .numbered { c with lkey := num })
    else none
  | .sgeAlloc k result =>
    if s.stage k = .numbered then
      let c := s.call k
      match result with
      | none => some (s.fail k .out3 (-ENOMEM))
      | some sge =>
        if s.sges sge = none then
          some (((s.setSge sge (some c.sges)).modifyMr c.mr fun b =>
            { b with sge := sge, sgeNum := c.sges.length }).go k .mapped { c with sge := sge })
        else none
    else none
  | .newSge k result =>
    if s.stage k = .mapped then
      let c := s.call k
      if c.sges.length < c.pages.pageCount then
        match result with
        | none => some (s.fail k .out4 (-ENOMEM))
        | some sge =>
          if s.sges sge = none then
            some ((((s.setSge c.sge none).setSge sge (s.sges c.sge)).modifyMr c.mr fun b =>
              { b with sge := sge }).go k .fitted { c with sge := sge })
          else none
      else some (s.go k .fitted c)
    else none
  | .finish k =>
    if s.stage k = .fitted then
      let c := s.call k
      some (((s.modifyMr c.mr fun b => { b with umem := c.umem, length := c.length, start := c.start }).go k .live
        c).answer k 0)
    else none
  | .unwind k => s.unwindStep k
  | .dereg k =>
    if s.stage k = .live then
      let c := s.call k
      (s.mrs c.mr).map fun b => (if b.umem ≠ 0 then s.setUmem b.umem none else s).go k .released c
    else none
  | .deregGo k => s.deregStep k

/-- A device without regions. -/
def noRegions : MrTable κ :=
  ⟨0, [], fun _ => none, fun _ => none, fun _ => none, fun _ => .idle,
    fun _ => ⟨0, 0, 0, ⟨0, 0, []⟩, 0, 0, 0, 0⟩, [], []⟩

end MrTable

end BgqVrnic
