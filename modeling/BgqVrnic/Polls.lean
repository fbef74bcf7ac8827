import BgqVrnic.Stores

namespace Polls

open Intrusive Pools

/-- What a poll of posted blocks does at each: a block that is done is freed, once something has been sent
and a report noted for it; any other is posted again. Reports go out in batches of `full`. -/
structure Rules (β ρ σ : Type*) where
  done : β → Bool
  /-- The poll ends at a block like this, if it is done. -/
  stops : β → Bool
  sent : β → List σ
  report : β → Option ρ
  /-- The block once its report has been noted. -/
  settled : β → β
  /-- The block once it has been looked at and is not done. -/
  kept : β → β
  counts : β → Bool
  full : Nat

/-- A poll on its way, with its two lists as their first and last elements. -/
structure Run (β ρ σ : Type*) where
  store : Store β
  cur : Option Nat
  toFree : Tail Nat
  toRepost : Tail Nat
  batch : List ρ
  reports : List (List ρ)
  sends : List σ
  count : Nat
  stopped : Bool

variable {β ρ σ : Type*}

namespace Run

/-- The blocks that are done go in front of the free list. -/
def giveBack (r : Run β ρ σ) : Run β ρ σ :=
  { r with
    store :=
      { r.store with
        next := r.toFree.hang r.store.free r.store.next
        free := r.toFree.head }
    toFree := { r.toFree with head := none } }

/-- The others go in front of what has been posted meanwhile. -/
def repost (r : Run β ρ σ) : Run β ρ σ :=
  { r with
    store :=
      { r.store with
        next := r.toRepost.hang r.store.posted r.store.next
        posted := r.toRepost.head } }

/-- The batch is reported, and the `k`-th receiver does `ops k` with the blocks. -/
def flush (ops : Nat → List (Op β)) (r : Run β ρ σ) : Run β ρ σ :=
  { r with
    store := r.store.calls (ops r.reports.length)
    batch := []
    reports := r.reports ++ [r.batch] }

variable (R : Rules β ρ σ)

def collect (i : Nat) (r : Run β ρ σ) : Run β ρ σ :=
  let b := r.store.block i
  { r with
    store := r.store.set i R.settled
    batch := r.batch ++ (R.report b).toList
    sends := r.sends ++ R.sent b }

/-- The block is put at the end of a list, and its own link is read before it is cleared. -/
def putToFree (i : Nat) (r : Run β ρ σ) : Run β ρ σ :=
  let next := r.toFree.link i r.store.next
  { r with
    cur := next i
    toFree := r.toFree.add i
    store := { r.store with next := Function.update next i none } }

def putToRepost (i : Nat) (r : Run β ρ σ) : Run β ρ σ :=
  let next := r.toRepost.link i r.store.next
  { r with
    cur := next i
    toRepost := r.toRepost.add i
    store := { r.store with next := Function.update next i none } }

def visitDone (ops : Nat → List (Op β)) (i : Nat) (r : Run β ρ σ) : Run β ρ σ :=
  let r := (r.collect R i).putToFree i
  if r.batch.length = R.full then r.giveBack.flush ops else r

def visitPending (i : Nat) (r : Run β ρ σ) : Run β ρ σ :=
  let r := if R.counts (r.store.block i) then { r with count := r.count + 1 } else r
  { r with store := r.store.set i R.kept }.putToRepost i

def loop (ops : Nat → List (Op β)) : Nat → Run β ρ σ → Run β ρ σ
  | 0, r => r
  | rounds + 1, r =>
    match r.cur with
    | none => r
    | some i =>
      let b := r.store.block i
      if R.done b then
        if R.stops b then { r with stopped := true } else loop ops rounds (r.visitDone R ops i)
      else loop ops rounds (r.visitPending R i)

/-- What follows the loop. -/
def finish (ops : Nat → List (Op β)) (r : Run β ρ σ) : Run β ρ σ :=
  let r := if r.toFree.head.isSome then r.giveBack else r
  let r := if r.toRepost.head.isSome then r.repost else r
  if r.batch ≠ [] then r.flush ops else r

/-- The posted list has been detached. -/
def start (c : Store β) : Run β ρ σ :=
  { store := { c with posted := none }, cur := c.posted, toFree := Tail.empty
    toRepost := Tail.empty, batch := [], reports := [], sends := [], count := 0, stopped := false }

end Run

def Rules.isDone (R : Rules β ρ σ) (c : Store β) (i : Nat) : Bool := R.done (c.block i)

def Rules.isPending (R : Rules β ρ σ) (c : Store β) (i : Nat) : Bool := !R.isDone c i

/-- The lists behind a poll of the lists that `p` shows: the free blocks and those in hand have been joined
by those done, less what has been posted by others; those pending are back in their order, between what was
posted before and since. -/
structure Sound (R : Rules β ρ σ) (c : Store β) (p : Pool β) (r : Run β ρ σ) : Prop where
  lists : ∃ p' late early, r.store.Shows p' ∧
    p'.posted = late ++ p.posted.filter (R.isPending c) ++ early ∧
    r.store.postings = late ++ early ++ c.postings ∧
    (r.store.held ++ p'.free ++ (late ++ early)).Perm
      (c.held ++ p.free ++ p.posted.filter (R.isDone c)) ∧
    (r.store.held ++ p'.blocks).Perm (c.held ++ p.blocks)
  kept : ∀ i ∈ p.posted.filter (R.isPending c), r.store.block i = R.kept (c.block i)
  sends : r.sends = (p.posted.filter (R.isDone c)).flatMap fun i => R.sent (c.block i)
  reports : r.reports.flatten =
    (p.posted.filter (R.isDone c)).flatMap fun i => (R.report (c.block i)).toList
  batches : ∀ b ∈ r.reports, 1 ≤ b.length ∧ b.length ≤ R.full
  count : r.count = ((p.posted.filter (R.isPending c)).filter fun i => R.counts (c.block i)).length

/-- In the loop, with `seen` behind it and `rest` ahead: of the blocks that are done `freed` have been given
back, and `group` has not. -/
structure Polling (R : Rules β ρ σ) (c : Store β) (free : List Nat) (r : Run β ρ σ) (p : Pool β)
    (seen rest freed group : List Nat) : Prop where
  shows : r.store.Shows p
  ahead : Chain r.store.next r.cur rest
  toFree : r.toFree.Holds r.store.next group
  toRepost : r.toRepost.Holds r.store.next (seen.filter (R.isPending c))
  distinct : (r.store.held ++ p.blocks ++
    (rest ++ (group ++ seen.filter (R.isPending c)))).Nodup
  moved : seen.filter (R.isDone c) = freed ++ group
  blocks : (r.store.held ++ p.blocks).Perm (c.held ++ free ++ freed)
  posts : r.store.postings = p.posted ++ c.postings
  same : ∀ i ∈ rest, r.store.block i = c.block i
  kept : ∀ i ∈ seen.filter (R.isPending c), r.store.block i = R.kept (c.block i)
  sends : r.sends = (seen.filter (R.isDone c)).flatMap fun i => R.sent (c.block i)
  told : r.reports.flatten ++ r.batch =
    (seen.filter (R.isDone c)).flatMap fun i => (R.report (c.block i)).toList
  batches : ∀ b ∈ r.reports, 1 ≤ b.length ∧ b.length ≤ R.full
  count : r.count = ((seen.filter (R.isPending c)).filter fun i => R.counts (c.block i)).length
  going : r.stopped = false

variable {R : Rules β ρ σ} {c : Store β} {r : Run β ρ σ} {p p' : Pool β} {i rounds : Nat}
  {free seen rest freed group l : List Nat} {ops : Nat → List (Op β)}

theorem filter_done (seen : List Nat) (h : R.isDone c i = true) :
    (seen ++ [i]).filter (R.isDone c) = seen.filter (R.isDone c) ++ [i] ∧
      (seen ++ [i]).filter (R.isPending c) = seen.filter (R.isPending c) := by
  simp [List.filter_append, Rules.isPending, h]

theorem filter_pending (seen : List Nat) (h : R.isDone c i = false) :
    (seen ++ [i]).filter (R.isDone c) = seen.filter (R.isDone c) ∧
      (seen ++ [i]).filter (R.isPending c) = seen.filter (R.isPending c) ++ [i] := by
  simp [List.filter_append, Rules.isPending, h]

namespace Polling

/-- The lists outside, those of the poll and the hands have nothing in common. -/
theorem apart (h : Polling R c free r p seen rest freed group) :
    (r.store.held ++ p.blocks).Nodup ∧ (∀ j ∈ group, j ∉ p.blocks) ∧ (∀ j ∈ rest, j ∉ group) ∧
    ∀ j ∈ rest ++ (group ++ seen.filter (R.isPending c)), j ∉ r.store.held ++ p.free := by
  obtain ⟨hout, hin, hboth⟩ := List.nodup_append'.mp h.distinct
  refine ⟨hout, fun j hj hp => ?_, fun j hj hg => ?_, fun j hj hp => ?_⟩
  · exact hboth (List.mem_append_right _ hp) (by simp [hj])
  · exact (List.nodup_append'.mp hin).2.2 hj (List.mem_append_left _ hg)
  · refine hboth ?_ hj
    rcases List.mem_append.mp hp with hheld | hfree
    · exact List.mem_append_left _ hheld
    · exact List.mem_append_right _ (List.mem_append_left _ hfree)

/-- The next block goes from the list ahead to the end of one behind. -/
theorem putToFree (h : Polling R c free r p seen (i :: rest) freed group)
    (hdone : R.isDone c i = true) :
    Polling R c free ((r.collect R i).putToFree i) (p.set i R.settled) (seen ++ [i]) rest freed
      (group ++ [i]) := by
  obtain ⟨hdones, hpends⟩ := filter_done seen hdone
  have hdistinct : (r.store.held ++ p.blocks ++
      (rest ++ ((group ++ [i]) ++ seen.filter (R.isPending c)))).Nodup := by
    refine (List.perm_iff_count.mpr fun j => ?_).nodup_iff.mp h.distinct
    simp only [List.count_append, List.count_cons, List.count_nil]
    omega
  have hout : ∀ j ∈ p.free ++ p.posted ++ (rest ++ seen.filter (R.isPending c)),
      j ∉ group ++ [i] := by
    intro j hj hg
    have hcount := List.nodup_iff_count_le_one.mp hdistinct j
    have hone := List.count_pos_iff.mpr hj
    have htwo := List.count_pos_iff.mpr hg
    simp only [Pool.blocks, List.count_append] at hcount hone htwo
    omega
  have hig : i ∉ group := fun hg => h.apart.2.2.1 i List.mem_cons_self hg
  have hlinks : ∀ j, j ∉ group ++ [i] →
      Function.update (r.toFree.link i r.store.next) i none j = r.store.next j := by
    intro j hj
    rw [List.mem_append, List.mem_singleton, not_or] at hj
    rw [Function.update_of_ne hj.2]
    exact h.toFree.link_of_not_mem hj.1
  have hblock : ∀ j ∈ rest ++ seen.filter (R.isPending c),
      (r.store.set i R.settled).block j = r.store.block j := by
    intro j hj
    refine Function.update_of_ne (fun he => hout j (List.mem_append_right _ hj) ?_) _ _
    rw [he]
    exact List.mem_append_right _ List.mem_cons_self
  have hsame : r.store.block i = c.block i := h.same i (by simp)
  unfold Run.putToFree Run.collect
  refine
    { shows := ⟨?_, ?_, h.shows.set.block⟩, ahead := ?_, toFree := h.toFree.add hig, toRepost := ?_
      distinct := ?_, moved := ?_, blocks := h.blocks, posts := h.posts, same := ?_, kept := ?_
      sends := ?_, told := ?_, batches := h.batches, count := ?_, going := h.going }
  · exact h.shows.free.congr fun j hj => hlinks j (hout j (by simp [hj]))
  · exact h.shows.posted.congr fun j hj => hlinks j (hout j (by simp [hj]))
  · show Chain _ (r.toFree.link i r.store.next i) rest
    rw [h.toFree.link_of_not_mem hig]
    exact h.ahead.2.congr fun j hj => hlinks j (hout j (by simp [hj]))
  · rw [hpends]
    exact h.toRepost.congr fun j hj => hlinks j (hout j (by simp only [List.mem_append]; tauto))
  · rw [hpends]
    exact hdistinct
  · rw [hdones, h.moved, List.append_assoc]
  · exact fun j hj => (hblock j (List.mem_append_left _ hj)).trans
      (h.same j (List.mem_cons_of_mem i hj))
  · rw [hpends]
    exact fun j hj => (hblock j (List.mem_append_right _ hj)).trans (h.kept j hj)
  · rw [hdones, List.flatMap_append, ← h.sends, List.flatMap_singleton, hsame]
  · rw [hdones, List.flatMap_append, ← h.told, List.flatMap_singleton, hsame, List.append_assoc]
  · rw [hpends]
    exact h.count

theorem visitPending (h : Polling R c free r p seen (i :: rest) freed group)
    (hpend : R.isDone c i = false) :
    Polling R c free (r.visitPending R i) (p.set i R.kept) (seen ++ [i]) rest freed group := by
  obtain ⟨hdones, hpends⟩ := filter_pending seen hpend
  have hdistinct : (r.store.held ++ p.blocks ++
      (rest ++ (group ++ (seen.filter (R.isPending c) ++ [i])))).Nodup := by
    refine (List.perm_iff_count.mpr fun j => ?_).nodup_iff.mp h.distinct
    simp only [List.count_append, List.count_cons, List.count_nil]
    omega
  have hout : ∀ j ∈ p.free ++ p.posted ++ (rest ++ group),
      j ∉ seen.filter (R.isPending c) ++ [i] := by
    intro j hj hk
    have hcount := List.nodup_iff_count_le_one.mp hdistinct j
    have hone := List.count_pos_iff.mpr hj
    have htwo := List.count_pos_iff.mpr hk
    simp only [Pool.blocks, List.count_append] at hcount hone htwo
    omega
  have hik : i ∉ seen.filter (R.isPending c) := by
    intro hk
    have hcount := List.nodup_iff_count_le_one.mp hdistinct i
    have hone := List.count_pos_iff.mpr hk
    simp only [List.count_append, List.count_singleton_self] at hcount hone
    omega
  have hlinks : ∀ j, j ∉ seen.filter (R.isPending c) ++ [i] →
      Function.update (r.toRepost.link i r.store.next) i none j = r.store.next j := by
    intro j hj
    rw [List.mem_append, List.mem_singleton, not_or] at hj
    rw [Function.update_of_ne hj.2]
    exact h.toRepost.link_of_not_mem hj.1
  have hsame : r.store.block i = c.block i := h.same i (by simp)
  have hblock : ∀ j, j ≠ i → (r.store.set i R.kept).block j = r.store.block j :=
    fun j hj => Function.update_of_ne hj _ _
  have hvisit : r.visitPending R i = { { r with store := r.store.set i R.kept }.putToRepost i with
      count := if R.counts (c.block i) then r.count + 1 else r.count } := by
    unfold Run.visitPending
    rw [hsame]
    split <;> rfl
  rw [hvisit]
  unfold Run.putToRepost
  refine
    { shows := ⟨?_, ?_, h.shows.set.block⟩, ahead := ?_, toFree := ?_, toRepost := ?_
      distinct := ?_, moved := ?_, blocks := h.blocks, posts := h.posts, same := ?_, kept := ?_
      sends := ?_, told := ?_, batches := h.batches, count := ?_, going := h.going }
  · exact h.shows.free.congr fun j hj => hlinks j (hout j (by simp [hj]))
  · exact h.shows.posted.congr fun j hj => hlinks j (hout j (by simp [hj]))
  · show Chain _ (r.toRepost.link i r.store.next i) rest
    rw [h.toRepost.link_of_not_mem hik]
    exact h.ahead.2.congr fun j hj => hlinks j (hout j (by simp [hj]))
  · exact h.toFree.congr fun j hj => hlinks j (hout j (by simp [hj]))
  · rw [hpends]
    exact h.toRepost.add hik
  · rw [hpends]
    exact hdistinct
  · rw [hdones]
    exact h.moved
  · intro j hj
    have hne : j ≠ i := fun he => hout j (by simp [hj]) (by simp [he])
    exact (hblock j hne).trans (h.same j (List.mem_cons_of_mem i hj))
  · rw [hpends]
    intro j hj
    rcases List.mem_append.mp hj with hold | hnew
    · exact (hblock j fun he => hik (he ▸ hold)).trans (h.kept j hold)
    · rw [List.mem_singleton.mp hnew, ← hsame]
      exact Function.update_self ..
  · rw [hdones]
    exact h.sends
  · rw [hdones]
    exact h.told
  · rw [hpends, List.filter_append, List.length_append, ← h.count]
    cases hc : R.counts (c.block i) with
    | true => simp [hc]
    | false => simp [hc]

/-- The blocks that are done go back, in their order, in front of the free ones. -/
theorem giveBack (h : Polling R c free r p seen rest freed group) (hne : group ≠ []) :
    Polling R c free r.giveBack { p with free := group ++ p.free } seen rest (freed ++ group) [] := by
  obtain ⟨-, hgroup, hahead, -⟩ := h.apart
  have hlinks : ∀ j, j ∉ group → r.toFree.hang r.store.free r.store.next j = r.store.next j :=
    fun j hj => h.toFree.hang_of_not_mem hne hj
  have hkept : ∀ j ∈ seen.filter (R.isPending c), j ∉ group := by
    obtain ⟨-, hin, -⟩ := List.nodup_append'.mp h.distinct
    exact fun j hj hg => (List.nodup_append'.mp (List.nodup_append'.mp hin).2.1).2.2 hg hj
  refine
    { shows := ⟨?_, ?_, h.shows.block⟩, ahead := ?_, toFree := Tail.holds_nil rfl, toRepost := ?_
      distinct := ?_, moved := ?_, blocks := ?_, posts := h.posts, same := h.same, kept := h.kept
      sends := h.sends, told := h.told, batches := h.batches, count := h.count, going := h.going }
  · exact h.toFree.hang hne h.shows.free fun j hj hf => hgroup j hj (List.mem_append_left _ hf)
  · exact h.shows.posted.congr fun j hj => hlinks j fun hg =>
      hgroup j hg (List.mem_append_right _ hj)
  · exact h.ahead.congr fun j hj => hlinks j (hahead j hj)
  · exact h.toRepost.congr fun j hj => hlinks j (hkept j hj)
  · refine (List.perm_iff_count.mpr fun j => ?_).nodup_iff.mp h.distinct
    simp only [Run.giveBack, Pool.blocks, List.count_append, List.count_nil]
    omega
  · rw [h.moved, List.append_nil]
  · refine List.perm_iff_count.mpr fun j => ?_
    have hcount := h.blocks.count_eq j
    simp only [Run.giveBack, Pool.blocks, List.count_append] at hcount ⊢
    omega

/-- What is done with a batch that has been reported leaves the lists of the poll alone. -/
theorem flush (h : Polling R c free r p seen rest freed group) (ops : Nat → List (Op β))
    (hsome : 1 ≤ r.batch.length) (hfew : r.batch.length ≤ R.full) :
    ∃ p', Polling R c free (r.flush ops) p' seen rest freed group := by
  obtain ⟨hnodup, -, -, hours⟩ := h.apart
  obtain ⟨p', hout⟩ := Store.outside_calls h.shows hnodup (ops r.reports.length)
  have hframe : ∀ j ∈ rest ++ (group ++ seen.filter (R.isPending c)),
      (r.store.calls (ops r.reports.length)).next j = r.store.next j ∧
        (r.store.calls (ops r.reports.length)).block j = r.store.block j :=
    fun j hj => (hout.frame j (hours j hj)).2
  obtain ⟨l, hposts, hposted⟩ := hout.posts
  refine ⟨p',
    { shows := hout.shows, ahead := ?_, toFree := ?_, toRepost := ?_, distinct := ?_
      moved := h.moved, blocks := hout.blocks.trans h.blocks, posts := ?_, same := ?_, kept := ?_
      sends := h.sends, told := ?_, batches := ?_, count := h.count, going := h.going }⟩
  · exact h.ahead.congr fun j hj => (hframe j (by simp [hj])).1
  · exact h.toFree.congr fun j hj => (hframe j (by simp [hj])).1
  · exact h.toRepost.congr fun j hj =>
      (hframe j (List.mem_append_right _ (List.mem_append_right _ hj))).1
  · exact (hout.blocks.append_right _).nodup_iff.mpr h.distinct
  · show (r.store.calls (ops r.reports.length)).postings = _
    rw [hposts, h.posts, hposted, List.append_assoc]
  · exact fun j hj => (hframe j (List.mem_append_left _ hj)).2.trans (h.same j hj)
  · exact fun j hj =>
      (hframe j (List.mem_append_right _ (List.mem_append_right _ hj))).2.trans (h.kept j hj)
  · show (r.reports ++ [r.batch]).flatten ++ [] = _
    rw [← h.told]
    simp
  · intro b hb
    rcases List.mem_append.mp hb with hold | hnew
    · exact h.batches b hold
    · rw [List.mem_singleton.mp hnew]
      exact ⟨hsome, hfew⟩

/-- A block that is done, and the batch that its report may complete. -/
theorem visitDone (h : Polling R c free r p seen (i :: rest) freed group)
    (ops : Nat → List (Op β)) (hdone : R.isDone c i = true) (hroom : r.batch.length < R.full) :
    ∃ p' freed' group',
      Polling R c free (r.visitDone R ops i) p' (seen ++ [i]) rest freed' group' ∧
        (r.visitDone R ops i).batch.length < R.full := by
  have hput := h.putToFree hdone
  have hlen : ((r.collect R i).putToFree i).batch.length ≤ R.full := by
    have hone : (R.report (r.store.block i)).toList.length ≤ 1 := by
      cases R.report (r.store.block i) <;> simp
    show (r.batch ++ (R.report (r.store.block i)).toList).length ≤ R.full
    rw [List.length_append]
    omega
  unfold Run.visitDone
  dsimp only
  by_cases hfull : ((r.collect R i).putToFree i).batch.length = R.full
  · obtain ⟨p', hflush⟩ := (hput.giveBack (by simp)).flush ops
      (show 1 ≤ ((r.collect R i).putToFree i).batch.length by omega) (Nat.le_of_eq hfull)
    rw [if_pos hfull]
    exact ⟨p', _, _, hflush, Nat.zero_lt_of_lt hroom⟩
  · rw [if_neg hfull]
    exact ⟨_, _, _, hput, Nat.lt_of_le_of_ne hlen hfull⟩

/-- The loop comes to the end of a list without a block that stops it. -/
theorem loop (h : Polling R c free r p seen rest freed group) (ops : Nat → List (Op β))
    (hgo : ∀ i ∈ rest, R.isDone c i = true → R.stops (c.block i) = false)
    (hroom : r.batch.length < R.full) (hr : rest.length ≤ rounds) :
    ∃ p' freed' group',
      Polling R c free (r.loop R ops rounds) p' (seen ++ rest) [] freed' group' ∧
        (r.loop R ops rounds).batch.length < R.full := by
  induction rest generalizing r p seen freed group rounds with
  | nil =>
    have hend : r.loop R ops rounds = r := by
      cases rounds with
      | zero => rfl
      | succ rounds =>
        unfold Run.loop
        rw [show r.cur = none from h.ahead]
    rw [hend, List.append_nil]
    exact ⟨p, freed, group, h, hroom⟩
  | cons i rest ih =>
    obtain ⟨rounds, rfl⟩ : ∃ n, rounds = n + 1 := Nat.exists_eq_succ_of_ne_zero (by
      rw [List.length_cons] at hr
      omega)
    have hrest : rest.length ≤ rounds := Nat.le_of_succ_le_succ hr
    have hgoes : ∀ j ∈ rest, R.isDone c j = true → R.stops (c.block j) = false :=
      fun j hj => hgo j (List.mem_cons_of_mem i hj)
    have hsplit : seen ++ i :: rest = seen ++ [i] ++ rest := by simp
    unfold Run.loop
    rw [h.ahead.1, hsplit]
    dsimp only
    rw [h.same i (by simp)]
    cases hdone : R.isDone c i with
    | true =>
      obtain ⟨p', freed', group', hnext, hnextRoom⟩ := h.visitDone ops hdone hroom
      have hstop : ¬ R.stops (c.block i) = true := by
        rw [hgo i List.mem_cons_self hdone]
        nofun
      rw [if_pos (show R.done (c.block i) = true from hdone), if_neg hstop]
      exact ih hnext hgoes hnextRoom hrest
    | false =>
      have hpend : ¬ R.done (c.block i) = true := by
        rw [show R.done (c.block i) = false from hdone]
        nofun
      have hbatch : (r.visitPending R i).batch = r.batch := by
        unfold Run.visitPending
        dsimp only
        split <;> rfl
      rw [if_neg hpend]
      exact ih (h.visitPending hdone) hgoes (hbatch ▸ hroom) hrest

/-- What is pending is posted again, in front of what has been posted meanwhile. -/
theorem repost (h : Polling R c p.free r p' p.posted [] freed []) :
    (if r.toRepost.head.isSome then r.repost else r).store.Shows
        { p' with posted := p.posted.filter (R.isPending c) ++ p'.posted } ∧
      (if r.toRepost.head.isSome then r.repost else r) =
        { r with store := (if r.toRepost.head.isSome then r.repost else r).store } ∧
      (if r.toRepost.head.isSome then r.repost else r).store.held = r.store.held ∧
      (if r.toRepost.head.isSome then r.repost else r).store.postings = r.store.postings ∧
      (if r.toRepost.head.isSome then r.repost else r).store.block = r.store.block := by
  have hapart : ∀ j ∈ p.posted.filter (R.isPending c), j ∉ p'.blocks := by
    intro j hj hp
    exact (List.nodup_append'.mp h.distinct).2.2 (List.mem_append_right _ hp) (by simpa using hj)
  by_cases hne : p.posted.filter (R.isPending c) = []
  · have hnone : ¬ r.toRepost.head.isSome = true := fun hsome => h.toRepost.isSome.mp hsome hne
    rw [if_neg hnone, hne]
    exact ⟨h.shows, rfl, rfl, rfl, rfl⟩
  · rw [if_pos (h.toRepost.isSome.mpr hne)]
    refine ⟨⟨?_, ?_, h.shows.block⟩, rfl, rfl, rfl, rfl⟩
    · exact h.shows.free.congr fun j hj => h.toRepost.hang_of_not_mem hne fun hk =>
        hapart j hk (List.mem_append_left _ hj)
    · exact h.toRepost.hang hne h.shows.posted fun j hk hj =>
        hapart j hk (List.mem_append_right _ hj)

/-- The last batch is reported behind all changes of the lists. -/
theorem sound (h : Polling R c p.free r p' p.posted [] freed []) (hfew : r.batch.length ≤ R.full)
    {t : Run β ρ σ} (ht : t = if r.toRepost.head.isSome then r.repost else r) :
    Sound R c p (if t.batch ≠ [] then t.flush ops else t) := by
  obtain ⟨hshows, hrest, hheld, hposts, hblock⟩ := h.repost
  rw [← ht] at hshows hrest hheld hposts hblock
  have hbatch : t.batch = r.batch := by rw [hrest]
  have hreports : t.reports = r.reports := by rw [hrest]
  have hall : (t.store.held ++ (p'.free ++
      (p.posted.filter (R.isPending c) ++ p'.posted))).Nodup := by
    rw [hheld]
    refine (List.perm_iff_count.mpr fun j => ?_).nodup_iff.mp h.distinct
    simp only [Pool.blocks, List.count_append, List.count_nil]
    omega
  have hlast : ∃ p'', t.store.Outside
        { p' with posted := p.posted.filter (R.isPending c) ++ p'.posted }
        (if t.batch ≠ [] then t.flush ops else t).store p'' ∧
      (if t.batch ≠ [] then t.flush ops else t).reports.flatten = t.reports.flatten ++ t.batch ∧
      ∀ b ∈ (if t.batch ≠ [] then t.flush ops else t).reports,
        1 ≤ b.length ∧ b.length ≤ R.full := by
    have hold : ∀ b ∈ t.reports, 1 ≤ b.length ∧ b.length ≤ R.full := hreports ▸ h.batches
    by_cases hids : t.batch = []
    · rw [if_neg (not_not.mpr hids), hids, List.append_nil]
      exact ⟨_, Store.Outside.refl hshows, rfl, hold⟩
    · rw [if_pos hids]
      obtain ⟨p'', hout⟩ := Store.outside_calls hshows hall (ops t.reports.length)
      refine ⟨p'', hout, ?_, fun b hb => ?_⟩
      · show (t.reports ++ [t.batch]).flatten = _
        simp
      · rcases List.mem_append.mp hb with hb | hb
        · exact hold b hb
        · rw [List.mem_singleton.mp hb]
          exact ⟨List.length_pos_iff.mpr hids, hbatch ▸ hfew⟩
  obtain ⟨p'', hout, hflat, hbatches⟩ := hlast
  obtain ⟨late, hlate, hposted⟩ := hout.posts
  have hmoved : p.posted.filter (R.isDone c) = freed := by
    rw [h.moved, List.append_nil]
  have hsplit : ∀ j, p.posted.count j = (p.posted.filter (R.isDone c)).count j +
      (p.posted.filter (R.isPending c)).count j := by
    intro j
    rw [← List.count_append]
    exact (List.filter_append_perm (R.isDone c) p.posted).symm.count_eq j
  have hkeep : (if t.batch ≠ [] then t.flush ops else t).sends = r.sends ∧
      (if t.batch ≠ [] then t.flush ops else t).count = r.count := by
    rw [hrest]
    split <;> exact ⟨rfl, rfl⟩
  refine
    { lists := ⟨p'', late, p'.posted, hout.shows, ?_, ?_, ?_, ?_⟩, kept := fun i hi => ?_
      sends := hkeep.1.trans h.sends, reports := ?_, batches := hbatches
      count := hkeep.2.trans h.count }
  · rw [hposted, List.append_assoc]
  · rw [hlate, hposts, h.posts, List.append_assoc]
  · refine List.perm_iff_count.mpr fun j => ?_
    have hsum := hout.blocks.count_eq j
    have hsum' := h.blocks.count_eq j
    rw [hheld] at hsum
    simp only [Pool.blocks, hposted, hmoved, List.count_append] at hsum hsum' ⊢
    omega
  · refine List.perm_iff_count.mpr fun j => ?_
    have hsum := hout.blocks.count_eq j
    have hsum' := h.blocks.count_eq j
    have hboth := hsplit j
    rw [hheld] at hsum
    simp only [Pool.blocks, hmoved, List.count_append] at hsum hsum' hboth ⊢
    omega
  · refine (hout.frame i fun hj => ?_).2.2.trans ?_
    · rw [hheld] at hj
      exact h.apart.2.2.2 i (by simpa using hi) hj
    · rw [hblock]
      exact h.kept i hi
  · rw [hflat, hreports, hbatch]
    exact h.told

/-- In front of the loop, the posted list has been detached. -/
theorem start (hc : c.Shows p) (hn : (c.held ++ p.blocks).Nodup) (R : Rules β ρ σ) :
    Polling R c p.free (Run.start c) { p with posted := [] } [] p.posted [] [] where
  shows := ⟨hc.free, rfl, hc.block⟩
  ahead := hc.posted
  toFree := Tail.holds_empty
  toRepost := Tail.holds_empty
  distinct := by
    refine (List.perm_iff_count.mpr fun j => ?_).nodup_iff.mp hn
    simp only [Run.start, Pool.blocks, List.filter_nil, List.count_append, List.count_nil]
    omega
  moved := rfl
  blocks := by
    rw [List.append_nil]
    show (c.held ++ (p.free ++ [])).Perm _
    rw [List.append_nil]
  posts := rfl
  same _ _ := rfl
  kept := nofun
  sends := rfl
  told := rfl
  batches := nofun
  count := rfl
  going := rfl

/-- What follows the loop gives the rest back, posts the others, and reports. -/
theorem finish {group : List Nat} (h : Polling R c p.free r p' p.posted [] freed group)
    (hroom : r.batch.length < R.full) (ops : Nat → List (Op β)) :
    Sound R c p (r.finish ops) := by
  have hfew : r.batch.length ≤ R.full := Nat.le_of_lt hroom
  unfold Run.finish
  by_cases hne : group = []
  · subst hne
    rw [if_neg fun hsome => h.toFree.isSome.mp hsome rfl]
    exact h.sound hfew rfl
  · rw [if_pos (h.toFree.isSome.mpr hne)]
    exact (h.giveBack hne).sound hfew rfl

end Polling

end Polls
