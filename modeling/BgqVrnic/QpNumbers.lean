import Mathlib.Data.Nat.Find
import BgqVrnic.ConnTypes
import BgqVrnic.XlateSgl
import BgqVrnic.Runs

namespace BgqVrnic

open Runs

def EAGAIN : Int := 11
def ENOSPC : Int := 28

/-- The kernel's number allocator: it hands out the smallest free number from a start on. -/
structure Idr where
  newAbove : List Nat → Int → Nat
  free : ∀ used start, newAbove used start ∉ used
  above : ∀ used start, start ≤ newAbove used start
  least : ∀ (used : List Nat) (start : Int) (n : Nat), n ∉ used → start ≤ n → newAbove used start ≤ n

/-- How `idr_get_new_above` ends: with a number, without memory to be had, or without a number left. -/
inductive IdrOutcome
  | number | noMemory | noSpace
  deriving DecidableEq, Repr

/-- `qp_pool`, with the queue pairs that are there and their `qp_num`. -/
structure QpPool where
  prevId : Int
  idr : List (Nat × Nat)
  live : List (Nat × Nat)
  deriving Repr

/-- `prev_id++` on an `int` -/
def nextId (prevId : Int) : Int := toInt32 (prevId + 1)

/-- `bgvrnic_alloc_qpn`, with the number it stores in the queue pair. The idr first asks for memory
`agains` times, and gets it. -/
def bgvrnicAllocQpn (A : Idr) (qp : Nat) (last : IdrOutcome) : Nat → QpPool → Int × Nat × QpPool
  | agains + 1, s => bgvrnicAllocQpn A qp last agains { s with prevId := nextId s.prevId }
  | 0, s =>
    let start := s.prevId
    let s := { s with prevId := nextId s.prevId }
    match last with
    | .number =>
      let num := A.newAbove (s.idr.map Prod.fst) start
      (0, num, { s with idr := (num, qp) :: s.idr })
    | .noMemory => (-EAGAIN, 0, s)
    | .noSpace => (-ENOSPC, 0, s)

def bgvrnicFreeQpn (s : QpPool) (num : Nat) : QpPool :=
  { s with idr := s.idr.filter fun e => e.1 ≠ num }

def bgvrnicGetQp (s : QpPool) (num : Nat) : Option Nat := s.idr.lookup num

/-- Memory for a queue pair and then a number, or the end of a queue pair. -/
inductive QpInput
  | create (qp agains : Nat) (last : IdrOutcome) (udataCopied : Bool)
  | destroy (qp : Nat)
  deriving DecidableEq, Repr

/-- `bgvrnic_create_qp` and `bgvrnic_destroy_qp` as far as numbers go. No memory is handed out twice, and
nobody destroys a queue pair that is not there. -/
def qpStep (A : Idr) (s : QpPool) : QpInput → Option QpPool
  | .create qp agains last udataCopied =>
    if qp ∈ s.live.map Prod.fst then none
    else
      let (rc, num, s) := bgvrnicAllocQpn A qp last agains s
      if rc ≠ 0 then some s
      else if udataCopied then some { s with live := (qp, num) :: s.live }
      else some (bgvrnicFreeQpn s num)
  | .destroy qp =>
    (s.live.lookup qp).map fun num =>
      { bgvrnicFreeQpn s num with live := s.live.filter fun e => e.1 ≠ qp }

def emptyPool : QpPool := ⟨0, [], []⟩

/-- The 16 bits of a queue pair's number find it, are its alone, and are not the reserved ones. -/
def Identified (s : QpPool) : Prop :=
  (∀ qp num, (qp, num) ∈ s.live → bgvrnicGetQp s (low16 num) = some qp) ∧
    (∀ qp num qp' num', (qp, num) ∈ s.live → (qp', num') ∈ s.live → low16 num = low16 num' →
      qp = qp') ∧
    ∀ qp num, (qp, num) ∈ s.live → low16 num ≠ mudmUnknownQpn

/-- When a queue pair comes to life, a number below the reserved one is free from the start hint on. -/
def FreeNumber (s : QpPool) : QpInput → Prop
  | .create _ agains .number true =>
    ∃ num < mudmUnknownQpn, nextId^[agains] s.prevId ≤ num ∧ num ∉ s.idr.map Prod.fst
  | _ => True

structure PoolInv (s : QpPool) : Prop where
  numbers : (s.idr.map Prod.fst).Nodup
  qps : (s.live.map Prod.fst).Nodup
  same : ∀ qp num, (qp, num) ∈ s.live ↔ (num, qp) ∈ s.idr
  small : ∀ e ∈ s.idr, e.1 < mudmUnknownQpn

variable {A : Idr} {s s' : QpPool} {i : QpInput} {is : List QpInput} {qp num agains : Nat}
variable {last : IdrOutcome} {l : List (Nat × Nat)} {a b : Nat}

theorem mem_of_lookup (h : l.lookup a = some b) : (a, b) ∈ l := by
  induction l with
  | nil => simp at h
  | cons e l ih =>
    obtain ⟨x, y⟩ := e
    rw [List.lookup_cons] at h
    by_cases hax : a = x
    · subst hax
      have hy : y = b := by simpa using h
      simp [hy]
    · have hne : (a == x) = false := by simpa using hax
      rw [hne] at h
      exact List.mem_cons_of_mem _ (ih h)

theorem lookup_of_mem (hnd : (l.map Prod.fst).Nodup) (h : (a, b) ∈ l) : l.lookup a = some b := by
  induction l with
  | nil => simp at h
  | cons e l ih =>
    obtain ⟨x, y⟩ := e
    rw [List.map_cons, List.nodup_cons] at hnd
    rw [List.lookup_cons]
    rcases List.mem_cons.mp h with he | h
    · cases he
      simp
    · have hax : a ≠ x := fun he => hnd.1 (List.mem_map.mpr ⟨(a, b), h, he⟩)
      have hne : (a == x) = false := by simpa using hax
      rw [hne]
      exact ih hnd.2 h

theorem low16_of_lt (h : num < mudmUnknownQpn) : low16 num = num := by
  have hn : mudmUnknownQpn = 65535 := rfl
  unfold low16
  omega

theorem PoolInv.identified (h : PoolInv s) : Identified s := by
  have hlow : ∀ qp num, (qp, num) ∈ s.live → low16 num = num := fun qp num hmem =>
    low16_of_lt (h.small _ ((h.same qp num).mp hmem))
  have hfind : ∀ qp num, (qp, num) ∈ s.live → bgvrnicGetQp s (low16 num) = some qp := by
    intro qp num hmem
    rw [hlow qp num hmem]
    exact lookup_of_mem h.numbers ((h.same qp num).mp hmem)
  refine ⟨hfind, ?_, ?_⟩
  · intro qp num qp' num' hmem hmem' heq
    have hqp := hfind qp num hmem
    rw [heq, hfind qp' num' hmem'] at hqp
    exact (Option.some.inj hqp).symm
  · intro qp num hmem
    have hsmall := h.small _ ((h.same qp num).mp hmem)
    rw [hlow qp num hmem]
    exact Nat.ne_of_lt hsmall

theorem snd_unique (hnd : (l.map Prod.fst).Nodup) {b' : Nat} (h : (a, b) ∈ l) (h' : (a, b') ∈ l) :
    b = b' := by
  have hb := lookup_of_mem hnd h
  rw [lookup_of_mem hnd h'] at hb
  exact (Option.some.inj hb).symm

/-- The number that the allocator finds does not depend on how often it asked for memory, except through
the start hint. -/
theorem bgvrnicAllocQpn_number :
    bgvrnicAllocQpn A qp .number agains s =
      (0, A.newAbove (s.idr.map Prod.fst) (nextId^[agains] s.prevId),
        { s with
          prevId := nextId^[agains + 1] s.prevId
          idr := (A.newAbove (s.idr.map Prod.fst) (nextId^[agains] s.prevId), qp) :: s.idr }) := by
  induction agains generalizing s with
  | zero => rfl
  | succ n ih => exact ih

theorem bgvrnicAllocQpn_fails (h : last ≠ .number) :
    ∃ rc ≠ 0, bgvrnicAllocQpn A qp last agains s =
      (rc, 0, { s with prevId := nextId^[agains + 1] s.prevId }) := by
  induction agains generalizing s with
  | zero =>
    cases last with
    | number => exact absurd rfl h
    | noMemory => exact ⟨-EAGAIN, by decide, rfl⟩
    | noSpace => exact ⟨-ENOSPC, by decide, rfl⟩
  | succ n ih => exact ih

theorem PoolInv.hint (h : PoolInv s) (start : Int) : PoolInv { s with prevId := start } :=
  ⟨h.numbers, h.qps, h.same, h.small⟩

/-- A number that has just been handed out is given back without a trace. -/
theorem freeQpn_cons (s : QpPool) (qp : Nat) (hnum : num ∉ s.idr.map Prod.fst) :
    bgvrnicFreeQpn { s with idr := (num, qp) :: s.idr } num = s := by
  have hall : ∀ e ∈ s.idr, decide (e.1 ≠ num) = true := by
    intro e he
    rw [decide_eq_true_eq]
    rintro rfl
    exact hnum (List.mem_map_of_mem he)
  unfold bgvrnicFreeQpn
  dsimp only
  rw [List.filter_cons_of_neg (by simp), List.filter_eq_self.mpr hall]

theorem PoolInv.create (h : PoolInv s) (hqp : qp ∉ s.live.map Prod.fst)
    (hnum : num ∉ s.idr.map Prod.fst) (hsmall : num < mudmUnknownQpn) :
    PoolInv { s with idr := (num, qp) :: s.idr, live := (qp, num) :: s.live } := by
  refine ⟨List.nodup_cons.mpr ⟨hnum, h.numbers⟩, List.nodup_cons.mpr ⟨hqp, h.qps⟩, fun q n => ?_, ?_⟩
  · simp only [List.mem_cons, Prod.mk.injEq, h.same q n]
    rw [and_comm]
  · intro e he
    rcases List.mem_cons.mp he with rfl | he
    · exact hsmall
    · exact h.small e he

theorem PoolInv.destroy (h : PoolInv s) (hqp : (qp, num) ∈ s.live) :
    PoolInv { bgvrnicFreeQpn s num with live := s.live.filter fun e => e.1 ≠ qp } := by
  have hnum := (h.same qp num).mp hqp
  refine ⟨?_, ?_, fun q n => ?_, fun e he => h.small e (List.mem_of_mem_filter he)⟩
  · exact h.numbers.sublist ((List.filter_sublist (l := s.idr)).map _)
  · exact h.qps.sublist ((List.filter_sublist (l := s.live)).map _)
  · simp only [bgvrnicFreeQpn, List.mem_filter, decide_eq_true_eq, h.same q n]
    refine and_congr_right fun hmem => not_congr ?_
    constructor
    · rintro rfl
      exact snd_unique h.qps ((h.same q n).mpr hmem) hqp
    · rintro rfl
      exact snd_unique h.numbers hmem hnum

theorem PoolInv.step (h : PoolInv s) (hok : FreeNumber s i) (hs : qpStep A s i = some s') :
    PoolInv s' := by
  cases i with
  | destroy qp =>
    obtain ⟨num, hnum, rfl⟩ := Option.map_eq_some_iff.mp hs
    exact h.destroy (mem_of_lookup hnum)
  | create qp agains last udataCopied =>
    unfold qpStep at hs
    dsimp only at hs
    split at hs
    next => cases hs
    next hqp =>
      by_cases hlast : last = .number
      · subst hlast
        rw [bgvrnicAllocQpn_number] at hs
        have hfree := A.free (s.idr.map Prod.fst) (nextId^[agains] s.prevId)
        rw [if_neg (by simp)] at hs
        cases udataCopied with
        | false =>
          rw [if_neg (by simp)] at hs
          cases Option.some.inj hs
          have hback := freeQpn_cons { s with prevId := nextId^[agains + 1] s.prevId } qp hfree
          rw [hback]
          exact h.hint _
        | true =>
          rw [if_pos rfl] at hs
          cases Option.some.inj hs
          obtain ⟨n, hn, hstart, hnfree⟩ := hok
          have hle := A.least _ _ n hnfree hstart
          exact (h.hint _).create hqp hfree (by omega)
      · obtain ⟨rc, hrc, he⟩ : ∃ rc ≠ 0, bgvrnicAllocQpn A qp last agains s =
            (rc, 0, { s with prevId := nextId^[agains + 1] s.prevId }) := bgvrnicAllocQpn_fails hlast
        rw [he] at hs
        rw [if_pos hrc] at hs
        cases Option.some.inj hs
        exact h.hint _

/-- A queue pair that can be found by the 16 bits of its number has got a number of 16 bits. -/
theorem PoolInv.free_of_identified (h : PoolInv s) (hs : qpStep A s i = some s')
    (hid : Identified s') : FreeNumber s i := by
  cases i with
  | destroy qp => trivial
  | create qp agains last udataCopied =>
    by_cases hlast : last = .number ∧ udataCopied = true
    · obtain ⟨rfl, rfl⟩ := hlast
      unfold qpStep at hs
      dsimp only at hs
      split at hs
      next => cases hs
      next hqp =>
        rw [bgvrnicAllocQpn_number] at hs
        rw [if_neg (by simp), if_pos rfl] at hs
        cases Option.some.inj hs
        have hfree := A.free (s.idr.map Prod.fst) (nextId^[agains] s.prevId)
        have habove := A.above (s.idr.map Prod.fst) (nextId^[agains] s.prevId)
        generalize A.newAbove (s.idr.map Prod.fst) (nextId^[agains] s.prevId) = num at *
        have hfind := mem_of_lookup (hid.1 qp num (by simp))
        have hreserved := hid.2.2 qp num (by simp)
        have hlow : low16 num = num := by
          rcases List.mem_cons.mp hfind with he | hmem
          · exact (Prod.mk.inj he).1
          · exact absurd (List.mem_map_of_mem ((h.same qp _).mpr hmem)) hqp
        have hlt : low16 num < 2 ^ 16 := Nat.mod_lt _ (by decide)
        rw [hlow] at hreserved hlt
        have hn : mudmUnknownQpn = 65535 := rfl
        exact ⟨num, by omega, habove, hfree⟩
    · cases last with
      | number =>
        cases udataCopied with
        | false => trivial
        | true => exact absurd ⟨rfl, rfl⟩ hlast
      | noMemory => trivial
      | noSpace => trivial

/-- In a run from an empty pool all queue pairs can be told by what the wire carries of their numbers,
exactly as long as each finds a number below the reserved one. -/
theorem qp_numbers_identify_iff (A : Idr) (is : List QpInput) :
    Always (qpStep A) Identified emptyPool is ↔ Meets (qpStep A) FreeNumber emptyPool is := by
  have hinv : PoolInv emptyPool :=
    ⟨List.nodup_nil, List.nodup_nil, fun _ _ => by simp [emptyPool], fun _ he => absurd he (List.not_mem_nil)⟩
  exact always_iff_meets (fun _ => PoolInv.identified) (fun _ _ _ => PoolInv.step)
    (fun _ _ _ => PoolInv.free_of_identified) hinv

theorem exists_free (used : List Nat) (start : Int) : ∃ n : Nat, start ≤ n ∧ n ∉ used := by
  have hbound : ∃ b, ∀ m ∈ used, m < b := by
    induction used with
    | nil => exact ⟨0, by simp⟩
    | cons x used ih =>
      obtain ⟨b, hb⟩ := ih
      refine ⟨b + x + 1, fun m hm => ?_⟩
      rcases List.mem_cons.mp hm with rfl | hm
      · omega
      · have := hb m hm
        omega
  obtain ⟨b, hb⟩ := hbound
  refine ⟨b + start.toNat, by omega, fun hmem => ?_⟩
  have := hb _ hmem
  omega

/-- An allocator that searches upwards from its start. -/
def searchingIdr : Idr where
  newAbove used start := Nat.find (exists_free used start)
  free used start := (Nat.find_spec (exists_free used start)).2
  above used start := (Nat.find_spec (exists_free used start)).1
  least used start _ hn hle := Nat.find_min' (exists_free used start) ⟨hle, hn⟩

/-- Queue pairs that come and go one after the other. -/
def churn (n : Nat) : List QpInput := (List.replicate n [.create 0 0 .number true, .destroy 0]).flatten

/-- Each of them uses up a number, although none is in use. -/
theorem run_churn (A : Idr) {n k : Nat} (h : k + n < 2 ^ 31) :
    run (qpStep A) ⟨k, [], []⟩ (churn n) = some ⟨(k + n : Nat), [], []⟩ := by
  induction n generalizing k with
  | zero => rfl
  | succ n ih =>
    have hnext : nextId k = (k + 1 : Nat) := by
      unfold nextId toInt32
      rw [Int.bmod_eq_of_le] <;> omega
    have hpair : run (qpStep A) ⟨k, [], []⟩ [.create 0 0 .number true, .destroy 0] =
        some ⟨nextId k, [], []⟩ := by
      simp [run, qpStep, bgvrnicAllocQpn, bgvrnicFreeQpn]
    have hsplit : churn (n + 1) = [.create 0 0 .number true, .destroy 0] ++ churn n := by
      simp [churn, List.replicate_succ]
    have hrest := ih (k := k + 1) (by omega)
    have hk : k + 1 + n = k + (n + 1) := by omega
    rw [hk] at hrest
    rw [hsplit, run_append, hpair, Option.bind_some, hnext]
    exact hrest

/-- After 65535 queue pairs the next one gets the reserved number. -/
theorem reserved_number_handed_out :
    ¬ Always (qpStep searchingIdr) Identified emptyPool
      (churn 65535 ++ [.create 0 0 .number true]) := by
  intro h
  have hleast := searchingIdr.least [] 65535 65535 (by simp) (by simp)
  have habove := searchingIdr.above [] 65535
  have hchurn := run_churn searchingIdr (n := 65535) (k := 0) (by decide)
  have hlast : qpStep searchingIdr ⟨(65535 : Nat), [], []⟩ (.create 0 0 .number true) =
      some ⟨nextId 65535, [(searchingIdr.newAbove [] 65535, 0)],
        [(0, searchingIdr.newAbove [] 65535)]⟩ := rfl
  have hnum : searchingIdr.newAbove [] 65535 = 65535 := by omega
  have hrun : run (qpStep searchingIdr) emptyPool (churn 65535 ++ [.create 0 0 .number true]) =
      some ⟨nextId 65535, [(65535, 0)], [(0, 65535)]⟩ := by
    have hempty : emptyPool = ⟨(0 : Nat), [], []⟩ := rfl
    rw [run_append, hempty, hchurn, Option.bind_some, run, Nat.zero_add, hlast, hnum]
    rfl
  have hid := h.last hrun
  exact hid.2.2 0 65535 (by simp) rfl

end BgqVrnic
