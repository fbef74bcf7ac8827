import BgqVrnic.Pools
import Mathlib.Algebra.Order.Ring.Int
import Mathlib.Data.List.Perm.Basic
import Mathlib.Data.List.Perm.Subperm

namespace Passes

open Pools

/-- What a pass over the posted blocks of a pool has to know of them: the request that a block belongs to,
which is 0 if there is none, its error, whether it is done at a count of the hardware's, and what becomes
of it when its request has been collected or cancelled. -/
structure Kind (β : Type*) where
  request : β → Nat
  error : β → Nat
  done : Nat → β → Bool
  collect : β → β
  cancel : β → β
  request_collect : ∀ b, request (collect b) = 0
  request_cancel : ∀ b, request (cancel b) = 0

/-- A pass that has taken the posted list, with its number: its blocks that are still to be visited, that are to be freed
and that are to be posted again, and the requests with their errors that it is going to report. A pass
that cancels reports all requests at once. The last two are history: the requests on the list that were
done when the pass began, and what it has reported. -/
structure Pass where
  number : Nat
  cancels : Bool
  count : Nat
  rest : List Nat
  freed : List Nat
  kept : List Nat
  telling : List (Nat × Nat)
  due : List Nat
  told : List (Nat × Nat)

/-- A pool with the passes over it, and the history: the passes that have come to their end, the requests
that were accepted and those that were reported, and how many passes have begun. -/
structure Desk (β : Type*) where
  pool : Pool β
  passes : List Pass
  finished : List Pass
  accepted : List Nat
  reports : List (Nat × Nat)
  begun : Nat

variable {β : Type*}

/-- The requests of some blocks. -/
def requests (K : Kind β) (p : Pool β) (l : List Nat) : List Nat :=
  l.map fun i => K.request (p.block i)

def Pass.ready (K : Kind β) (pool : Pool β) (p : Pass) (i : Nat) : Bool :=
  p.cancels || K.done p.count (pool.block i)

def Pass.blocks (p : Pass) : List Nat := p.rest ++ p.freed ++ p.kept

/-- The blocks whose requests the pass has not collected. -/
def Pass.waiting (p : Pass) : List Nat := p.rest ++ p.kept

namespace Desk

/-- Nothing has happened yet. -/
def ofPool (pool : Pool β) : Desk β := ⟨pool, [], [], [], [], 0⟩

def newPass (number : Nat) (cancels : Bool) (count : Nat) (rest : List Nat) : Pass :=
  ⟨number, cancels, count, rest, [], [], [], [], []⟩

/-- A pass begins: the posted list is detached. -/
def start (K : Kind β) (cancels : Bool) (count : Nat) (d : Desk β) : Desk β :=
  let p := newPass d.begun cancels count d.pool.posted
  let due := requests K d.pool (p.rest.filter (p.ready K d.pool))
  { d with
    pool := { d.pool with posted := [] }
    passes := { p with due := due } :: d.passes
    begun := d.begun + 1 }

/-- The request of a block, if it has one, with an error. -/
def report (K : Kind β) (b : β) (error : Nat) : List (Nat × Nat) :=
  if K.request b = 0 then [] else [(K.request b, error)]

/-- A visit that cancels: the block's request is reported. -/
def cancelVisit (K : Kind β) (error i : Nat) (p : Pass) (others : List Pass) (d : Desk β) : Desk β :=
  let told := report K (d.pool.block i) error
  { d with
    pool := d.pool.set i K.cancel
    passes := { p with freed := p.freed ++ [i], told := p.told ++ told } :: others
    reports := d.reports ++ told }

/-- The pass gives back what it has to free and reports what it has to report. -/
def tell (p : Pass) (others : List Pass) (d : Desk β) : Desk β :=
  { d with
    pool := { d.pool with free := p.freed ++ d.pool.free }
    passes := { p with freed := [], telling := [], told := p.told ++ p.telling } :: others
    reports := d.reports ++ p.telling }

/-- A visit of a block that is done: its request is collected, and reported with the batch that it may
complete. -/
def collectVisit (K : Kind β) (batch i : Nat) (p : Pass) (others : List Pass) (d : Desk β) : Desk β :=
  let b := d.pool.block i
  let p := { p with freed := p.freed ++ [i], telling := p.telling ++ report K b (K.error b) }
  let d := if K.request b = 0 then d else { d with pool := d.pool.set i K.collect }
  if p.telling.length = batch then d.tell p others else { d with passes := p :: others }

/-- The end of a pass. -/
def finish (p : Pass) (others : List Pass) (d : Desk β) : Desk β :=
  { d with
    pool :=
      { d.pool with
        free := p.freed ++ d.pool.free
        posted := p.kept ++ d.pool.posted }
    passes := others
    finished := d.finished ++ [{ p with told := p.told ++ p.telling }]
    reports := d.reports ++ p.telling }

/-- A pass goes on to its next block, or comes to its end. -/
def advance (K : Kind β) (batch error : Nat) (p : Pass) (others : List Pass) (d : Desk β) : Desk β :=
  match p.rest with
  | [] => d.finish p others
  | i :: rest =>
    let p := { p with rest := rest }
    if p.cancels then d.cancelVisit K error i p others
    else if K.done p.count (d.pool.block i) then d.collectVisit K batch i p others
    else { d with passes := { p with kept := p.kept ++ [i] } :: others }

/-- The next step of the pass with the given number. -/
def pass (K : Kind β) (batch error k : Nat) (d : Desk β) : Option (Desk β) :=
  match d.passes[k]? with
  | none => none
  | some p => some (d.advance K batch error p (d.passes.eraseIdx k))

/-- All blocks that are in the hands of the pool and its passes. -/
def all (d : Desk β) : List Nat := d.pool.free ++ d.pool.posted ++ d.passes.flatMap Pass.blocks

/-- The blocks whose requests have not been collected. -/
def waiting (d : Desk β) : List Nat := d.pool.posted ++ d.passes.flatMap Pass.waiting

def telling (d : Desk β) : List Nat := (d.passes.flatMap Pass.telling).map Prod.fst

end Desk

/-- The requests that a pass has still to find done. -/
def Pass.dueLeft (K : Kind β) (pool : Pool β) (p : Pass) : List Nat :=
  requests K pool (p.rest.filter (p.ready K pool))

/-- Every accepted request has either been reported or is with one block or one pass, and no pass loses
one that was done when it began. -/
structure Sound (K : Kind β) (d : Desk β) : Prop where
  nodup : d.all.Nodup
  real : ∀ x ∈ d.reports, x.1 ≠ 0
  realTelling : ∀ p ∈ d.passes, ∀ x ∈ p.telling, x.1 ≠ 0
  once : ∀ r ≠ 0,
    (d.reports.map Prod.fst).count r + d.telling.count r + (requests K d.pool d.waiting).count r =
      d.accepted.count r
  due : ∀ p ∈ d.passes, ∀ r ≠ 0,
    p.due.count r ≤ (p.told.map Prod.fst).count r + (p.telling.map Prod.fst).count r +
      (p.dueLeft K d.pool).count r
  ended : ∀ p ∈ d.finished, ∀ r ≠ 0, p.due.count r ≤ (p.told.map Prod.fst).count r
  reported : ∀ p, p ∈ d.passes ∨ p ∈ d.finished → p.told.Sublist d.reports

/-- What a call may do to a pool: of the free blocks, it posts some for the requests that it accepts, and
may lose others. -/
structure Sent (K : Kind β) (p p' : Pool β) (accepted : List Nat) : Prop where
  lists : ∃ posted held, (p'.free ++ posted ++ held).Perm p.free ∧ p'.posted = posted ++ p.posted ∧
    ∀ r ≠ 0, (requests K p' posted).count r = accepted.count r
  block : ∀ i, i ∉ p.free → p'.block i = p.block i

variable {K : Kind β} {pool pool' : Pool β} {d : Desk β} {p : Pass} {others passes : List Pass}
  {l l' rest : List Nat} {i r batch error k : Nat} {b : β}

theorem requests_append : requests K pool (l ++ l') = requests K pool l ++ requests K pool l' :=
  List.map_append

theorem requests_cons : requests K pool (i :: l) = K.request (pool.block i) :: requests K pool l := rfl

theorem requests_congr (h : ∀ j ∈ l, pool'.block j = pool.block j) :
    requests K pool' l = requests K pool l :=
  List.map_congr_left fun j hj => congrArg K.request (h j hj)

theorem mem_blocks_of_waiting (h : i ∈ p.waiting) : i ∈ p.blocks := by
  rcases List.mem_append.mp h with hi | hi
  · exact List.mem_append_left _ (List.mem_append_left _ hi)
  · exact List.mem_append_right _ hi

theorem dueLeft_congr (h : ∀ j ∈ p.rest, pool'.block j = pool.block j) :
    p.dueLeft K pool' = p.dueLeft K pool := by
  have hready : p.rest.filter (p.ready K pool') = p.rest.filter (p.ready K pool) := by
    apply List.filter_congr
    intro j hj
    rw [Pass.ready, Pass.ready, h j hj]
  rw [Pass.dueLeft, hready]
  exact requests_congr fun j hj => h j (List.mem_of_mem_filter hj)

theorem report_count (hr : r ≠ 0) :
    ((Desk.report K b error).map Prod.fst).count r = if K.request b = r then 1 else 0 := by
  unfold Desk.report
  split
  next hnone => rw [if_neg (hnone ▸ hr.symm)]; rfl
  next hsome => simp [List.count_cons, beq_iff_eq]

theorem report_real : ∀ x ∈ Desk.report K b error, x.1 ≠ 0 := by
  intro x hx
  unfold Desk.report at hx
  split at hx
  · cases hx
  next hsome =>
    cases List.mem_singleton.mp hx
    exact hsome

theorem sound_ofPool (h : pool.free.Nodup) (hposted : pool.posted = []) :
    Sound K (Desk.ofPool pool) where
  nodup := by
    rw [Desk.all, Desk.ofPool, hposted]
    simpa using h
  real := nofun
  realTelling := nofun
  once r _ := by
    rw [Desk.waiting, Desk.ofPool, hposted]
    rfl
  due := nofun
  ended := nofun
  reported := nofun

/-- The passes have no order. -/
theorem Sound.reorder (h : Sound K d) (hperm : d.passes.Perm passes) :
    Sound K { d with passes := passes } where
  nodup := by
    have hall : (d.pool.free ++ d.pool.posted ++ d.passes.flatMap Pass.blocks).Perm
        (d.pool.free ++ d.pool.posted ++ passes.flatMap Pass.blocks) :=
      (hperm.flatMap_right _).append_left _
    exact hall.nodup_iff.mp h.nodup
  real := h.real
  realTelling p hp := h.realTelling p (hperm.mem_iff.mpr hp)
  once r hr := by
    have htelling := ((hperm.flatMap_right Pass.telling).map Prod.fst).count_eq r
    have hwaiting := (((hperm.flatMap_right Pass.waiting).append_left d.pool.posted).map
      fun i => K.request (d.pool.block i)).count_eq r
    have honce := h.once r hr
    rw [Desk.telling, htelling, requests, Desk.waiting, hwaiting] at honce
    exact honce
  due p hp := h.due p (hperm.mem_iff.mpr hp)
  ended := h.ended
  reported p hp := h.reported p (hp.imp_left hperm.mem_iff.mpr)

theorem Sound.start (h : Sound K d) (cancels : Bool) (count : Nat) :
    Sound K (d.start K cancels count) where
  nodup := by
    have hall : (d.start K cancels count).all = d.all := by
      simp [Desk.all, Desk.start, Desk.newPass, Pass.blocks]
    rw [hall]
    exact h.nodup
  real := h.real
  realTelling q hq := by
    rcases List.mem_cons.mp hq with rfl | hold
    · exact fun x hx => absurd hx List.not_mem_nil
    · exact h.realTelling q hold
  once r hr := by
    have hwaiting : (d.start K cancels count).waiting = d.waiting := by
      simp [Desk.waiting, Desk.start, Desk.newPass, Pass.waiting]
    rw [hwaiting]
    exact h.once r hr
  due q hq r hr := by
    rcases List.mem_cons.mp hq with rfl | hold
    · exact Nat.le_add_left _ _
    · exact h.due q hold r hr
  ended := h.ended
  reported q hq := by
    rcases hq with hq | hq
    · rcases List.mem_cons.mp hq with rfl | hold
      · exact List.nil_sublist _
      · exact h.reported q (Or.inl hold)
    · exact h.reported q (Or.inr hq)

section Visit

variable (h : Sound K { d with passes := p :: others })

include h

/-- A block that a pass holds is nowhere else. -/
theorem Sound.not_elsewhere (hrest : p.rest = i :: rest) :
    i ∉ d.pool.free ∧ i ∉ d.pool.posted ∧ i ∉ rest ∧ i ∉ p.freed ∧ i ∉ p.kept ∧
      ∀ q ∈ others, i ∉ q.blocks := by
  have hnodup := h.nodup
  have hall : ({ d with passes := p :: others } : Desk β).all.Perm
      (i :: (d.pool.free ++ d.pool.posted ++
        (rest ++ p.freed ++ p.kept ++ others.flatMap Pass.blocks))) := by
    rw [Desk.all, List.flatMap_cons, Pass.blocks, hrest]
    exact List.perm_middle
  have hnot := (List.nodup_cons.mp (hall.nodup_iff.mp hnodup)).1
  simp only [List.mem_append, List.mem_flatMap, not_or, not_exists, not_and] at hnot
  obtain ⟨⟨hfree, hposted⟩, ⟨⟨hr, hf⟩, hk⟩, ho⟩ := hnot
  exact ⟨hfree, hposted, hr, hf, hk, ho⟩

theorem Sound.others_blocks (hrest : p.rest = i :: rest)
    (hframe : ∀ j, j ≠ i → pool'.block j = d.pool.block j) :
    ∀ q ∈ others, ∀ j ∈ q.blocks, pool'.block j = d.pool.block j := by
  obtain ⟨-, -, -, -, -, ho⟩ := h.not_elsewhere hrest
  intro q hq j hj
  exact hframe j fun he => ho q hq (he ▸ hj)

theorem Sound.others_waiting (hrest : p.rest = i :: rest)
    (hframe : ∀ j, j ≠ i → pool'.block j = d.pool.block j) :
    requests K pool' (others.flatMap Pass.waiting) =
      requests K d.pool (others.flatMap Pass.waiting) := by
  apply requests_congr
  intro j hj
  obtain ⟨q, hq, hjq⟩ := List.mem_flatMap.mp hj
  exact h.others_blocks hrest hframe q hq j (mem_blocks_of_waiting hjq)

/-- What is due and not reported yet is the block at hand, or comes behind it. -/
theorem Sound.due_visit (hrest : p.rest = i :: rest) (hr : r ≠ 0) :
    p.due.count r ≤ (p.told.map Prod.fst).count r + (p.telling.map Prod.fst).count r +
      ((requests K d.pool (rest.filter (p.ready K d.pool))).count r +
        if K.request (d.pool.block i) = r then 1 else 0) := by
  have hdue := h.due p List.mem_cons_self r hr
  rw [Pass.dueLeft, hrest, List.filter_cons] at hdue
  refine hdue.trans (Nat.add_le_add_left ?_ _)
  split
  · rw [requests_cons, List.count_cons]
    simp only [beq_iff_eq]
    exact le_rfl
  · exact Nat.le_add_right _ _

theorem Sound.keepVisit (hrest : p.rest = i :: rest) (hready : p.ready K d.pool i = false) :
    Sound K { d with passes := { p with rest := rest, kept := p.kept ++ [i] } :: others } where
  nodup := by
    refine (List.perm_iff_count.mpr fun j => ?_).nodup_iff.mp h.nodup
    simp only [Desk.all, List.flatMap_cons, Pass.blocks, hrest, List.count_append, List.count_cons,
      List.count_nil]
    omega
  real := h.real
  realTelling q hq := by
    rcases List.mem_cons.mp hq with rfl | hold
    · exact h.realTelling p List.mem_cons_self
    · exact h.realTelling q (List.mem_cons_of_mem _ hold)
  once r hr := by
    have honce := h.once r hr
    simp only [Desk.telling, Desk.waiting, List.flatMap_cons, Pass.waiting, hrest, requests_append,
      requests_cons, List.map_append, List.count_append, List.count_cons] at honce ⊢
    simp only [requests, List.map_nil, List.count_nil] at honce ⊢
    omega
  due q hq r hr := by
    rcases List.mem_cons.mp hq with rfl | hold
    · have hdue := h.due p List.mem_cons_self r hr
      rw [Pass.dueLeft, hrest, List.filter_cons, if_neg (ne_true_of_eq_false hready)] at hdue
      exact hdue
    · exact h.due q (List.mem_cons_of_mem _ hold) r hr
  ended := h.ended
  reported q hq := by
    rcases hq with hq | hq
    · rcases List.mem_cons.mp hq with rfl | hold
      · exact h.reported p (Or.inl List.mem_cons_self)
      · exact h.reported q (Or.inl (List.mem_cons_of_mem _ hold))
    · exact h.reported q (Or.inr hq)

/-- A block is to be freed; its request is now with what the pass reports at once (`news`) or with what
it is going to report. -/
theorem Sound.doneVisit (telling news : List (Nat × Nat)) (hrest : p.rest = i :: rest)
    (hfree : pool'.free = d.pool.free) (hposted : pool'.posted = d.pool.posted)
    (hframe : ∀ j, j ≠ i → pool'.block j = d.pool.block j)
    (hreal : ∀ x ∈ telling, x.1 ≠ 0) (hnews : ∀ x ∈ news, x.1 ≠ 0)
    (hrequest : ∀ r ≠ 0, (news.map Prod.fst).count r + (telling.map Prod.fst).count r =
      (p.telling.map Prod.fst).count r + if K.request (d.pool.block i) = r then 1 else 0) :
    Sound K
      { d with
        pool := pool'
        passes :=
          { p with
            rest := rest
            freed := p.freed ++ [i]
            telling := telling
            told := p.told ++ news } :: others
        reports := d.reports ++ news } := by
  obtain ⟨-, hp, hr, -, hk, -⟩ := h.not_elsewhere hrest
  have hsame : ∀ {l : List Nat}, i ∉ l → requests K pool' l = requests K d.pool l := fun hl =>
    requests_congr fun j hj => hframe j fun he => hl (he ▸ hj)
  refine
    { nodup := ?_, real := ?_, realTelling := ?_, once := ?_, due := ?_, ended := h.ended
      reported := ?_ }
  · refine (List.perm_iff_count.mpr fun j => ?_).nodup_iff.mp h.nodup
    simp only [Desk.all, List.flatMap_cons, Pass.blocks, hrest, hfree, hposted, List.count_append,
      List.count_cons, List.count_nil]
    omega
  · intro x hx
    rcases List.mem_append.mp hx with hold | hnew
    · exact h.real x hold
    · exact hnews x hnew
  · intro q hq
    rcases List.mem_cons.mp hq with rfl | hold
    · exact hreal
    · exact h.realTelling q (List.mem_cons_of_mem _ hold)
  · intro r hr0
    have honce := h.once r hr0
    have hnow := hrequest r hr0
    simp only [Desk.telling, Desk.waiting, List.flatMap_cons, Pass.waiting, hrest, requests_append,
      requests_cons, List.map_append, List.count_append, List.count_cons, beq_iff_eq] at honce ⊢
    rw [hposted, hsame hp, hsame hr, hsame hk, h.others_waiting hrest hframe]
    omega
  · intro q hq r hr0
    rcases List.mem_cons.mp hq with rfl | hold
    · have hdue := h.due_visit hrest hr0
      have hnow := hrequest r hr0
      have hleft : Pass.dueLeft K pool'
          { p with
            rest := rest
            freed := p.freed ++ [i]
            telling := telling
            told := p.told ++ news } = requests K d.pool (rest.filter (p.ready K d.pool)) :=
        dueLeft_congr fun j hj => hframe j fun he => hr (he ▸ hj)
      rw [hleft, List.map_append, List.count_append]
      show p.due.count r ≤ _ + (telling.map Prod.fst).count r + _
      omega
    · have hleft : q.dueLeft K pool' = q.dueLeft K d.pool := dueLeft_congr fun j hj =>
        h.others_blocks hrest hframe q hold j
          (List.mem_append_left _ (List.mem_append_left _ hj))
      rw [hleft]
      exact h.due q (List.mem_cons_of_mem _ hold) r hr0
  · intro q hq
    rcases hq with hq | hq
    · rcases List.mem_cons.mp hq with rfl | hold
      · exact (h.reported p (Or.inl List.mem_cons_self)).append_right news
      · exact (h.reported q (Or.inl (List.mem_cons_of_mem _ hold))).trans
          (List.sublist_append_left _ _)
    · exact (h.reported q (Or.inr hq)).trans (List.sublist_append_left _ _)

theorem Sound.tell : Sound K (d.tell p others) where
  nodup := by
    refine (List.perm_iff_count.mpr fun j => ?_).nodup_iff.mp h.nodup
    simp only [Desk.all, Desk.tell, List.flatMap_cons, Pass.blocks, List.count_append, List.count_nil]
    omega
  real x hx := by
    rcases List.mem_append.mp hx with hold | hnew
    · exact h.real x hold
    · exact h.realTelling p List.mem_cons_self x hnew
  realTelling q hq := by
    rcases List.mem_cons.mp hq with rfl | hold
    · exact fun x hx => absurd hx List.not_mem_nil
    · exact h.realTelling q (List.mem_cons_of_mem _ hold)
  once r hr := by
    have honce := h.once r hr
    simp only [Desk.telling, Desk.waiting, Desk.tell, List.flatMap_cons, List.map_append,
      List.count_append, List.nil_append] at honce ⊢
    change _ = d.accepted.count r at honce
    rw [← honce, Nat.add_assoc ((d.reports.map Prod.fst).count r)]
    rfl
  due q hq r hr := by
    rcases List.mem_cons.mp hq with rfl | hold
    · have hdue := h.due p List.mem_cons_self r hr
      rw [List.map_append, List.count_append]
      exact hdue
    · exact h.due q (List.mem_cons_of_mem _ hold) r hr
  ended := h.ended
  reported q hq := by
    rcases hq with hq | hq
    · rcases List.mem_cons.mp hq with rfl | hold
      · exact (h.reported p (Or.inl List.mem_cons_self)).append_right p.telling
      · exact (h.reported q (Or.inl (List.mem_cons_of_mem _ hold))).trans
          (List.sublist_append_left _ _)
    · exact (h.reported q (Or.inr hq)).trans (List.sublist_append_left _ _)

theorem Sound.finish (hrest : p.rest = []) : Sound K (d.finish p others) where
  nodup := by
    refine (List.perm_iff_count.mpr fun j => ?_).nodup_iff.mp h.nodup
    simp only [Desk.all, Desk.finish, List.flatMap_cons, Pass.blocks, hrest, List.count_append,
      List.count_nil]
    omega
  real x hx := by
    rcases List.mem_append.mp hx with hold | hnew
    · exact h.real x hold
    · exact h.realTelling p List.mem_cons_self x hnew
  realTelling q hq := h.realTelling q (List.mem_cons_of_mem _ hq)
  once r hr := by
    have honce := h.once r hr
    simp only [Desk.telling, Desk.waiting, Desk.finish, List.flatMap_cons, Pass.waiting, hrest,
      List.map_append, List.count_append, requests_append, List.nil_append] at honce ⊢
    simp only [requests] at honce ⊢
    omega
  due q hq := h.due q (List.mem_cons_of_mem _ hq)
  ended q hq r hr := by
    rcases List.mem_append.mp hq with hold | hnew
    · exact h.ended q hold r hr
    · cases List.mem_singleton.mp hnew
      have hdue := h.due p List.mem_cons_self r hr
      rw [Pass.dueLeft, hrest] at hdue
      rw [List.map_append, List.count_append]
      exact hdue
  reported q hq := by
    rcases hq with hq | hq
    · exact (h.reported q (Or.inl (List.mem_cons_of_mem _ hq))).trans (List.sublist_append_left _ _)
    · rcases List.mem_append.mp hq with hold | hnew
      · exact (h.reported q (Or.inr hold)).trans (List.sublist_append_left _ _)
      · cases List.mem_singleton.mp hnew
        exact (h.reported p (Or.inl List.mem_cons_self)).append_right p.telling

/-- What a visit has collected before it looks whether the batch is full. -/
theorem Sound.collected (hrest : p.rest = i :: rest) (hfree : pool'.free = d.pool.free)
    (hposted : pool'.posted = d.pool.posted)
    (hframe : ∀ j, j ≠ i → pool'.block j = d.pool.block j) :
    Sound K
      { d with
        pool := pool'
        passes :=
          { p with
            rest := rest
            freed := p.freed ++ [i]
            telling := p.telling ++
              Desk.report K (d.pool.block i) (K.error (d.pool.block i)) } :: others } := by
  have hsound := h.doneVisit (p.telling ++
    Desk.report K (d.pool.block i) (K.error (d.pool.block i))) [] hrest hfree hposted hframe
  rw [List.append_nil, List.append_nil] at hsound
  refine hsound ?_ nofun ?_
  · intro x hx
    rcases List.mem_append.mp hx with hold | hnew
    · exact h.realTelling p List.mem_cons_self x hold
    · exact report_real x hnew
  · intro r hr
    rw [List.map_append, List.count_append, report_count hr]
    exact Nat.zero_add _

theorem Sound.collectVisit (hrest : p.rest = i :: rest) :
    Sound K (d.collectVisit K batch i { p with rest := rest } others) := by
  have hcollected : Sound K
      { (if K.request (d.pool.block i) = 0 then d
          else { d with pool := d.pool.set i K.collect } : Desk β) with
        passes :=
          { p with
            rest := rest
            freed := p.freed ++ [i]
            telling := p.telling ++
              Desk.report K (d.pool.block i) (K.error (d.pool.block i)) } :: others } := by
    split
    · exact h.collected hrest rfl rfl fun _ _ => rfl
    · exact h.collected hrest rfl rfl fun j hj => Pool.block_set_of_ne hj
  unfold Desk.collectVisit
  dsimp only
  split
  · exact hcollected.tell
  · exact hcollected

theorem Sound.cancelVisit (hrest : p.rest = i :: rest) :
    Sound K (d.cancelVisit K error i { p with rest := rest } others) := by
  refine h.doneVisit p.telling (Desk.report K (d.pool.block i) error) hrest rfl rfl
    (fun j hj => Pool.block_set_of_ne hj) (h.realTelling p List.mem_cons_self) report_real ?_
  intro r hr
  rw [report_count hr, Nat.add_comm]

end Visit

theorem Sound.advance (h : Sound K { d with passes := p :: others }) :
    Sound K (d.advance K batch error p others) := by
  unfold Desk.advance
  cases hrest : p.rest with
  | nil => exact h.finish hrest
  | cons i rest =>
    dsimp only
    by_cases hcancels : p.cancels = true
    · rw [if_pos hcancels]
      exact h.cancelVisit hrest
    · rw [if_neg hcancels]
      by_cases hdone : K.done p.count (d.pool.block i) = true
      · rw [if_pos hdone]
        exact h.collectVisit hrest
      · rw [if_neg hdone]
        apply h.keepVisit hrest
        rw [Pass.ready, Bool.or_eq_false_iff]
        exact ⟨Bool.not_eq_true _ ▸ hcancels, Bool.not_eq_true _ ▸ hdone⟩

theorem Sound.pass {d' : Desk β} (h : Sound K d) (hd : d.pass K batch error k = some d') :
    Sound K d' := by
  unfold Desk.pass at hd
  cases hk : d.passes[k]? with
  | none => simp [hk] at hd
  | some p =>
    simp only [hk, Option.some.injEq] at hd
    subst hd
    obtain ⟨hlt, rfl⟩ := List.getElem?_eq_some_iff.mp hk
    exact (h.reorder (List.getElem_cons_eraseIdx_perm hlt).symm).advance

/-- What a step of a pass leaves waiting was waiting before, and has not been touched. -/
theorem Sound.waiting_advance (h : Sound K { d with passes := p :: others }) {j : Nat}
    (hj : j ∈ (d.advance K batch error p others).waiting) :
    j ∈ ({ d with passes := p :: others } : Desk β).waiting ∧
      (d.advance K batch error p others).pool.block j = d.pool.block j := by
  unfold Desk.advance at hj ⊢
  cases hrest : p.rest with
  | nil =>
    rw [hrest] at hj
    refine ⟨?_, rfl⟩
    simp only [Desk.waiting, Desk.finish, List.flatMap_cons, Pass.waiting, hrest, List.mem_append] at hj ⊢
    tauto
  | cons i rest =>
    obtain ⟨-, hposted, hr, -, hk, ho⟩ := h.not_elsewhere hrest
    rw [hrest] at hj
    dsimp only at hj ⊢
    -- the block that is visited does not wait any longer
    have hleft : ∀ q : Pass, q.waiting = rest ++ p.kept →
        j ∈ d.pool.posted ++ (q :: others).flatMap Pass.waiting →
        j ∈ ({ d with passes := p :: others } : Desk β).waiting ∧ j ≠ i := by
      intro q hq hleft
      simp only [List.flatMap_cons, hq, List.mem_append] at hleft
      constructor
      · simp only [Desk.waiting, List.flatMap_cons, List.mem_append]
        rw [Pass.waiting, hrest, List.mem_append, List.mem_cons]
        tauto
      · rintro rfl
        rcases hleft with hleft | (hleft | hleft) | hleft
        · exact hposted hleft
        · exact hr hleft
        · exact hk hleft
        · obtain ⟨o, hmem, hleft⟩ := List.mem_flatMap.mp hleft
          exact ho o hmem (mem_blocks_of_waiting hleft)
    by_cases hcancels : p.cancels = true
    · rw [if_pos hcancels] at hj ⊢
      obtain ⟨hw, hne⟩ := hleft _ rfl hj
      exact ⟨hw, Pool.block_set_of_ne hne⟩
    · rw [if_neg hcancels] at hj ⊢
      by_cases hdone : K.done p.count (d.pool.block i) = true
      · rw [if_pos hdone] at hj ⊢
        unfold Desk.collectVisit at hj ⊢
        dsimp only at hj ⊢
        have hvisit : j ∈ d.pool.posted ++
            ({ p with rest := rest } :: others).flatMap Pass.waiting := by
          split at hj
          · split at hj
            · exact hj
            · exact hj
          · split at hj
            · exact hj
            · exact hj
        obtain ⟨hw, hne⟩ := hleft _ rfl hvisit
        refine ⟨hw, ?_⟩
        split
        · split
          · rfl
          · exact Pool.block_set_of_ne hne
        · split
          · rfl
          · exact Pool.block_set_of_ne hne
      · rw [if_neg hdone] at hj ⊢
        refine ⟨?_, rfl⟩
        simp only [Desk.waiting, List.flatMap_cons, Pass.waiting, hrest, List.mem_append,
          List.mem_cons] at hj ⊢
        tauto

theorem Sound.waiting_pass {d' : Desk β} {j : Nat} (h : Sound K d)
    (hd : d.pass K batch error k = some d') (hj : j ∈ d'.waiting) :
    j ∈ d.waiting ∧ d'.pool.block j = d.pool.block j := by
  unfold Desk.pass at hd
  cases hk : d.passes[k]? with
  | none => simp [hk] at hd
  | some p =>
    simp only [hk, Option.some.injEq] at hd
    subst hd
    obtain ⟨hlt, rfl⟩ := List.getElem?_eq_some_iff.mp hk
    have hperm := List.getElem_cons_eraseIdx_perm hlt
    obtain ⟨hw, hblock⟩ := (h.reorder hperm.symm).waiting_advance hj
    refine ⟨?_, hblock⟩
    rcases List.mem_append.mp hw with hw | hw
    · exact List.mem_append_left _ hw
    · exact List.mem_append_right _ ((hperm.flatMap_right _).mem_iff.mp hw)

theorem Desk.waiting_start (d : Desk β) (cancels : Bool) (count : Nat) :
    (d.start K cancels count).waiting = d.waiting := by
  simp [Desk.waiting, Desk.start, Desk.newPass, Pass.waiting]

theorem Sound.waiting_not_free {j : Nat} (h : Sound K d) (hj : j ∈ d.waiting) : j ∉ d.pool.free := by
  have hnodup := h.nodup
  rw [Desk.all, List.append_assoc] at hnodup
  intro hfree
  refine (List.nodup_append.mp hnodup).2.2 j hfree j ?_ rfl
  rcases List.mem_append.mp hj with hj | hj
  · exact List.mem_append_left _ hj
  · obtain ⟨q, hq, hjq⟩ := List.mem_flatMap.mp hj
    refine List.mem_append_right _ (List.mem_flatMap.mpr ⟨q, hq, ?_⟩)
    rcases List.mem_append.mp hjq with hjq | hjq
    · exact List.mem_append_left _ (List.mem_append_left _ hjq)
    · exact List.mem_append_right _ hjq

/-- The hardware may bring blocks nearer to their end. -/
theorem Sound.write (h : Sound K d) {block : Nat → β}
    (hrequest : ∀ i, K.request (block i) = K.request (d.pool.block i))
    (hdone : ∀ i c, K.done c (d.pool.block i) = true → K.done c (block i) = true) :
    Sound K { d with pool := { d.pool with block := block } } := by
  have hsame : ∀ l, requests K { d.pool with block := block } l = requests K d.pool l := fun l =>
    List.map_congr_left fun i _ => hrequest i
  refine { h with once := ?_, due := ?_ }
  · intro r hr
    have honce := h.once r hr
    rw [← hsame] at honce
    exact honce
  · intro q hq r hr
    apply (h.due q hq r hr).trans (Nat.add_le_add_left _ _)
    rw [Pass.dueLeft, Pass.dueLeft, hsame]
    apply List.Sublist.count_le
    apply List.Sublist.map
    apply List.monotone_filter_right
    intro i hready
    rcases Bool.or_eq_true_iff.mp hready with hc | hd
    · exact Bool.or_eq_true_iff.mpr (Or.inl hc)
    · exact Bool.or_eq_true_iff.mpr (Or.inr (hdone i _ hd))

theorem Sound.sent {accepted : List Nat} (h : Sound K d) (hsent : Sent K d.pool pool' accepted) :
    Sound K { d with pool := pool', accepted := d.accepted ++ accepted } := by
  obtain ⟨⟨posted, held, hfree, hposted, hnew⟩, hblock⟩ := hsent
  have hnot : ∀ j, j ∈ d.pool.posted ∨ j ∈ d.passes.flatMap Pass.blocks → j ∉ d.pool.free := by
    have hnodup := h.nodup
    rw [Desk.all, List.append_assoc] at hnodup
    intro j hj hjf
    exact (List.nodup_append.mp hnodup).2.2 j hjf j (List.mem_append.mpr hj) rfl
  have hpass : ∀ q ∈ d.passes, ∀ j ∈ q.blocks, pool'.block j = d.pool.block j := fun q hq j hj =>
    hblock j (hnot j (Or.inr (List.mem_flatMap.mpr ⟨q, hq, hj⟩)))
  refine { h with nodup := ?_, once := ?_, due := ?_ }
  · have hall : (held ++ (pool'.free ++ pool'.posted ++ d.passes.flatMap Pass.blocks)).Perm d.all := by
      refine List.perm_iff_count.mpr fun j => ?_
      have hcount := List.perm_iff_count.mp hfree j
      simp only [Desk.all, hposted, List.count_append] at hcount ⊢
      omega
    exact (List.nodup_append.mp (hall.nodup_iff.mpr h.nodup)).2.1
  · intro r hr
    have honce := h.once r hr
    have hpost := hnew r hr
    have hold : requests K pool' (d.pool.posted ++ d.passes.flatMap Pass.waiting) =
        requests K d.pool (d.pool.posted ++ d.passes.flatMap Pass.waiting) := by
      apply requests_congr
      intro j hj
      rcases List.mem_append.mp hj with hj | hj
      · exact hblock j (hnot j (Or.inl hj))
      · obtain ⟨q, hq, hjq⟩ := List.mem_flatMap.mp hj
        apply hpass q hq
        rcases List.mem_append.mp hjq with hj | hj
        · exact List.mem_append_left _ (List.mem_append_left _ hj)
        · exact List.mem_append_right _ hj
    have hwaiting : ({ d with pool := pool', accepted := d.accepted ++ accepted } : Desk β).waiting =
        posted ++ (d.pool.posted ++ d.passes.flatMap Pass.waiting) := by
      rw [Desk.waiting, hposted, List.append_assoc]
    rw [hwaiting, requests_append, hold, List.count_append, List.count_append, hpost, ← honce,
      Desk.waiting]
    show (d.reports.map Prod.fst).count r + d.telling.count r + _ = _
    omega
  · intro q hq r hr
    have hleft : q.dueLeft K pool' = q.dueLeft K d.pool := dueLeft_congr fun j hj =>
      hpass q hq j (List.mem_append_left _ (List.mem_append_left _ hj))
    rw [hleft]
    exact h.due q hq r hr

/-- A pass with the given number and the given requests has begun when there were `m` reports, and what it
has reported is among those that came since. -/
structure Began (k m : Nat) (due : List Nat) (d : Desk β) : Prop where
  known : m ≤ d.reports.length
  held : ∃ p, (p ∈ d.passes ∨ p ∈ d.finished) ∧ p.number = k ∧ p.due = due ∧
    p.told.Sublist (d.reports.drop m)

section Began

variable {m : Nat} {due : List Nat}

theorem Began.start (h : Began k m due d) (cancels : Bool) (count : Nat) :
    Began k m due (d.start K cancels count) := by
  obtain ⟨hknown, p, hp, hpass⟩ := h
  exact ⟨hknown, p, hp.imp_left (List.mem_cons_of_mem _), hpass⟩

/-- A step of a pass leaves it the same pass, with what it has reported. -/
theorem advance_told (K : Kind β) (batch error : Nat) (p : Pass) (others : List Pass) (d : Desk β) :
    ∃ p' news,
      ((d.advance K batch error p others).passes = p' :: others ∧
          (d.advance K batch error p others).finished = d.finished ∨
        (d.advance K batch error p others).passes = others ∧
          (d.advance K batch error p others).finished = d.finished ++ [p']) ∧
      (d.advance K batch error p others).reports = d.reports ++ news ∧ p'.told = p.told ++ news ∧
      p'.number = p.number ∧ p'.due = p.due := by
  have hnone : ∀ l : List (Nat × Nat), l = l ++ [] := fun l => (List.append_nil l).symm
  unfold Desk.advance
  cases p.rest with
  | nil => exact ⟨_, p.telling, Or.inr ⟨rfl, rfl⟩, rfl, rfl, rfl, rfl⟩
  | cons i rest =>
    dsimp only
    split
    · exact ⟨_, Desk.report K (d.pool.block i) error, Or.inl ⟨rfl, rfl⟩, rfl, rfl, rfl, rfl⟩
    · split
      · unfold Desk.collectVisit
        dsimp only
        split
        · split
          · exact ⟨_, _, Or.inl ⟨rfl, rfl⟩, rfl, rfl, rfl, rfl⟩
          · exact ⟨_, _, Or.inl ⟨rfl, rfl⟩, rfl, rfl, rfl, rfl⟩
        · split
          · exact ⟨_, [], Or.inl ⟨rfl, rfl⟩, hnone _, hnone _, rfl, rfl⟩
          · exact ⟨_, [], Or.inl ⟨rfl, rfl⟩, hnone _, hnone _, rfl, rfl⟩
      · exact ⟨_, [], Or.inl ⟨rfl, rfl⟩, hnone _, hnone _, rfl, rfl⟩

theorem Began.advance (h : Began k m due { d with passes := p :: others }) :
    Began k m due (d.advance K batch error p others) := by
  obtain ⟨hknown, q, hq, hnumber, hdue, htold⟩ := h
  obtain ⟨p', news, hpasses, hreports, ht, hn, hd⟩ := advance_told K batch error p others d
  have hdrop : (d.advance K batch error p others).reports.drop m = d.reports.drop m ++ news := by
    rw [hreports]
    exact List.drop_append_of_le_length hknown
  refine ⟨?_, ?_⟩
  · rw [hreports, List.length_append]
    exact hknown.trans (Nat.le_add_right _ _)
  · rw [hdrop]
    by_cases hqp : q = p
    · subst hqp
      refine ⟨p', ?_, hn.trans hnumber, hd.trans hdue, ?_⟩
      · rcases hpasses with ⟨hp, -⟩ | ⟨-, hf⟩
        · exact Or.inl (hp ▸ List.mem_cons_self)
        · exact Or.inr (hf ▸ List.mem_append_right _ (List.mem_singleton_self _))
      · rw [ht]
        exact htold.append (List.Sublist.refl news)
    · refine ⟨q, ?_, hnumber, hdue, htold.trans (List.sublist_append_left _ _)⟩
      rcases hq with hq | hq
      · have hother : q ∈ others := (List.mem_cons.mp hq).resolve_left hqp
        rcases hpasses with ⟨hp, -⟩ | ⟨hp, -⟩
        · exact Or.inl (hp ▸ List.mem_cons_of_mem _ hother)
        · exact Or.inl (hp.symm ▸ hother)
      · rcases hpasses with ⟨-, hf⟩ | ⟨-, hf⟩
        · exact Or.inr (hf ▸ hq)
        · exact Or.inr (hf ▸ List.mem_append_left _ hq)

theorem Began.pass {j : Nat} {d' : Desk β} (h : Began k m due d)
    (hd : d.pass K batch error j = some d') : Began k m due d' := by
  unfold Desk.pass at hd
  cases hj : d.passes[j]? with
  | none => simp [hj] at hd
  | some p =>
    simp only [hj, Option.some.injEq] at hd
    subst hd
    obtain ⟨hlt, rfl⟩ := List.getElem?_eq_some_iff.mp hj
    apply Began.advance
    obtain ⟨hknown, q, hq, hrest⟩ := h
    have hperm := List.getElem_cons_eraseIdx_perm hlt
    exact ⟨hknown, q, hq.imp_left hperm.mem_iff.mpr, hrest⟩

/-- A pass that is not under way any more has reported what was due when it began. -/
theorem Began.reported (h : Began k m due d) (hs : Sound K d) (hended : ∀ p ∈ d.passes, p.number ≠ k)
    (hr : r ≠ 0) : due.count r ≤ ((d.reports.drop m).map Prod.fst).count r := by
  obtain ⟨-, p, hp, hnumber, rfl, htold⟩ := h
  rcases hp with hp | hp
  · exact absurd hnumber (hended p hp)
  · exact (hs.ended p hp r hr).trans ((htold.map Prod.fst).count_le r)

end Began

/-- At most one report for every accepted request. -/
theorem Sound.subperm (h : Sound K d) : (d.reports.map Prod.fst).Subperm d.accepted := by
  rw [List.subperm_ext_iff]
  intro r hr
  obtain ⟨x, hx, rfl⟩ := List.mem_map.mp hr
  have honce := h.once x.1 (h.real x hx)
  omega

/-- A block that was taken has been freed again, posted for a request, or lost. -/
structure Disposed (K : Kind β) (i : Nat) (p p' : Pool β) (accepted : List Nat) : Prop where
  block : ∀ j, j ≠ i → p'.block j = p.block j
  lists : p'.free = i :: p.free ∧ p'.posted = p.posted ∧ accepted = [] ∨
    p'.free = p.free ∧ p'.posted = i :: p.posted ∧ [K.request (p'.block i)] = accepted ∨
      p'.free = p.free ∧ p'.posted = p.posted ∧ accepted = []

theorem sent_refl (p : Pool β) : Sent K p p [] where
  lists := ⟨[], [], by rw [List.append_nil, List.append_nil], rfl, fun _ _ => rfl⟩
  block _ _ := rfl

theorem Disposed.sent {p p₁ p' : Pool β} {f : β → β} {accepted : List Nat}
    (h : Disposed K i p₁ p' accepted) (ht : p.take f = some (i, p₁)) : Sent K p p' accepted := by
  obtain ⟨hfree, hposted, hblock⟩ := Pool.take_eq ht
  refine ⟨?_, fun j hj => ?_⟩
  · rcases h.lists with ⟨hf, hp, rfl⟩ | ⟨hf, hp, rfl⟩ | ⟨hf, hp, rfl⟩
    · refine ⟨[], [], ?_, hp.trans hposted, fun _ _ => rfl⟩
      rw [List.append_nil, List.append_nil, hf, hfree]
    · refine ⟨[i], [], ?_, ?_, fun _ _ => rfl⟩
      · rw [List.append_nil, hf, hfree]
        exact List.perm_append_singleton _ _
      · rw [hp, hposted]
        rfl
    · refine ⟨[], [i], ?_, hp.trans hposted, fun _ _ => rfl⟩
      rw [List.append_nil, hf, hfree]
      exact List.perm_append_singleton _ _
  · have hne : j ≠ i := by
      rintro rfl
      exact hj (hfree ▸ List.mem_cons_self)
    rw [h.block j hne, hblock, Function.update_of_ne hne]

end Passes
