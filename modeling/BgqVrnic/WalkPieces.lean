import BgqVrnic.WalkTotals
import BgqVrnic.XlateExact

namespace BgqVrnic

/-- The first `n` entries of a list. -/
def entries (l : Nat → MudmSgl) (n : Nat) : List MudmSgl := (List.range n).map l

/-- The bytes of the first `n` entries. -/
def sglBytes (l : Nat → MudmSgl) (n : Nat) : List Nat := physBytes (entries l n)

/-- A list of `n` entries in front of the null address; the fields of an entry have 36 and 28 bits. -/
structure Terminated (l : Nat → MudmSgl) (n : Nat) : Prop where
  alive : Alive l n
  null : (l n).physicalAddr = 0
  typed : ∀ i, (l i).physicalAddr < 2 ^ 36 ∧ (l i).memlength < 2 ^ 28

/-- Entries in memory, and a null entry behind them. -/
def sglOf (es : List MudmSgl) (i : Nat) : MudmSgl := es.getD i ⟨0, 0⟩

namespace Walk

/-- The walk after `k` rounds, whenever it is left. -/
def after (l r : Nat → MudmSgl) : Nat → Walk
  | 0 => start l r
  | k + 1 => (after l r k).advance l r

end Walk

/-- The bytes that the first `k` rounds pass. -/
def passed (l r : Nat → MudmSgl) : Nat → Nat
  | 0 => 0
  | k + 1 => passed l r k + (Walk.after l r k).chunk

/-- Neither list ends within the first `k` rounds. -/
def Lives (l r : Nat → MudmSgl) (k : Nat) : Prop := ∀ i < k, (Walk.after l r i).live = true

/-- The pieces that the entries of the two lists cut each other into. -/
def pieces (l r : Nat → MudmSgl) (k : Nat) : List Put :=
  (List.range k).map fun i => (Walk.after l r i).put (Walk.after l r i).chunk

/-- The bytes of the puts on one side, in order. -/
def Put.locals (p : Put) : List Nat := List.range' p.localPa p.length

def Put.remotes (p : Put) : List Nat := List.range' p.remotePa p.length

variable {l r : Nat → MudmSgl} {i k n m pa len total t b c : Nat} {w : Walk}

theorem after_totalbytes (l r : Nat → MudmSgl) (k : Nat) :
    (Walk.after l r k).totalbytes = passed l r k % 2 ^ 32 := by
  induction k with
  | zero => rfl
  | succ k ih =>
    rw [Walk.after, Walk.advance_totalbytes, Walk.sum, ih, passed, Nat.mod_add_mod]

theorem after_sum (l r : Nat → MudmSgl) (k : Nat) :
    (Walk.after l r k).sum = passed l r (k + 1) % 2 ^ 32 := by
  rw [← after_totalbytes, Walk.after, Walk.advance_totalbytes]

theorem passed_mono (h : i ≤ k) : passed l r i ≤ passed l r k := by
  induction k with
  | zero =>
    obtain rfl : i = 0 := by omega
    exact Nat.le_refl _
  | succ k ih =>
    by_cases hi : i = k + 1
    · rw [hi]
    · have hle := ih (by omega)
      rw [passed]
      omega

theorem Lives.mono (h : Lives l r k) (hi : i ≤ k) : Lives l r i := fun j hj => h j (by omega)

theorem Lives.succ (h : Lives l r k) (hlive : (Walk.after l r k).live = true) :
    Lives l r (k + 1) := by
  intro i hi
  by_cases hik : i = k
  · rw [hik]
    exact hlive
  · exact h i (by omega)

theorem Lives.zero : Lives l r 0 := nofun

/-- As long as both lists last, the cursors are where they have passed the bytes of the rounds; every
round takes one of them to another entry. -/
theorem Lives.at (h : Lives l r k) :
    (Walk.after l r k).At l r (passed l r k) ∧
      k ≤ (Walk.after l r k).li + (Walk.after l r k).ri := by
  induction k with
  | zero => exact ⟨level_start.at_total, Nat.zero_le _⟩
  | succ k ih =>
    obtain ⟨hat, hle⟩ := ih (h.mono (Nat.le_succ k))
    obtain ⟨hnext, hgrow⟩ := hat.advance (h k (Nat.lt_succ_self k))
    refine ⟨hnext, ?_⟩
    rw [Walk.after]
    omega

/-- The bytes after a round end with those of an entry. -/
theorem Lives.comesTo (h : Lives l r (k + 1)) : ComesTo (passed l r (k + 1)) l r :=
  (h.mono (Nat.le_succ k)).at.1.comesTo_sum (h k (Nat.lt_succ_self k))

/-- Lists that have `b` bytes last until they have been passed. -/
theorem Lives.of_missing (h : Lives l r k) (hl : Holds l b) (hr : Holds r b)
    (hlt : passed l r k < b) : Lives l r (k + 1) := by
  obtain ⟨n, hn, hnb⟩ := hl
  obtain ⟨m, hm, hmb⟩ := hr
  have hat := h.at.1
  exact h.succ (Walk.live_iff.mpr
    ⟨(hat.localAt.behind hn hnb hlt).1, (hat.remoteAt.behind hm hmb hlt).1⟩)

/-- There is a round that passes the last of `b` bytes, no later than there are entries. -/
theorem exists_round (hl : Holds l b) (hr : Holds r b) (hb : 0 < b) :
    ∃ k, Lives l r (k + 1) ∧ passed l r k < b ∧ b ≤ passed l r (k + 1) := by
  obtain ⟨n, hn, hnb⟩ := hl
  obtain ⟨m, hm, hmb⟩ := hr
  -- As long as a byte is missing both cursors are in front of the ends of their lists.
  have hbound : ∀ k, Lives l r k → passed l r k < b → k < n + m := by
    intro k hk hlt
    obtain ⟨hat, hle⟩ := hk.at
    obtain ⟨-, hin⟩ := hat.localAt.behind hn hnb hlt
    obtain ⟨-, him⟩ := hat.remoteAt.behind hm hmb hlt
    omega
  by_contra hnone
  have hall : ∀ k, Lives l r k ∧ passed l r k < b := by
    intro k
    induction k with
    | zero => exact ⟨Lives.zero, hb⟩
    | succ k ih =>
      have hnext := ih.1.of_missing ⟨n, hn, hnb⟩ ⟨m, hm, hmb⟩ ih.2
      refine ⟨hnext, ?_⟩
      by_contra hge
      exact hnone ⟨k, hnext, ih.2, Nat.not_lt.mp hge⟩
  have hlt := hbound (n + m) (hall _).1 (hall _).2
  omega

/-- The rounds come to exactly the bytes at which entries end. -/
theorem exists_passed_iff (hb : 0 < b) :
    (∃ k, Lives l r k ∧ passed l r k = b) ↔ ComesTo b l r := by
  constructor
  · rintro ⟨k, hk, rfl⟩
    cases k with
    | zero => exact absurd hb (Nat.lt_irrefl 0)
    | succ k => exact hk.comesTo
  · rintro ⟨hl, hr, hends⟩
    obtain ⟨k, hk, hlt, hle⟩ := exists_round hl hr hb
    refine ⟨k + 1, hk, ?_⟩
    have hchunk := (hk.mono (Nat.le_succ k)).at.1.chunk_le hends hlt
    have hsum : passed l r (k + 1) = passed l r k + (Walk.after l r k).chunk := rfl
    omega

theorem totalBytes_entries (l : Nat → MudmSgl) (n : Nat) :
    totalBytes (entries l n) = bytesBefore l n := by
  induction n with
  | zero => rfl
  | succ n ih =>
    unfold totalBytes entries at ih ⊢
    rw [List.range_succ, List.map_append, List.map_append, List.sum_append, ih]
    simp [bytesBefore]

theorem length_sglBytes (l : Nat → MudmSgl) (n : Nat) :
    (sglBytes l n).length = bytesBefore l n := by
  rw [sglBytes, length_physBytes, totalBytes_entries]

theorem entries_split (hi : i < n) :
    ∃ rest, entries l n = entries l i ++ l i :: rest := by
  refine ⟨((List.range n).drop (i + 1)).map l, ?_⟩
  have hsplit : List.range n = List.range i ++ i :: (List.range n).drop (i + 1) := by
    have htake : (List.range n).take i = List.range i := by
      rw [List.take_range, Nat.min_eq_left (Nat.le_of_lt hi)]
    have hdrop := List.drop_eq_getElem_cons (l := List.range n) (i := i) (by simpa using hi)
    rw [List.getElem_range] at hdrop
    rw [← hdrop, ← htake, List.take_append_drop]
  unfold entries
  conv_lhs => rw [hsplit]
  rw [List.map_append, List.map_cons]

/-- Under a cursor lie the bytes that come next in its list. -/
theorem AtEntry.bytes (h : AtEntry l i pa len total) (hi : i < n) (hc : c ≤ len) :
    ((sglBytes l n).drop total).take c = List.range' pa c := by
  obtain ⟨used, hplace, hlen, -, htotal⟩ := h.place
  obtain ⟨rest, hrest⟩ := entries_split (l := l) hi
  have hbefore : (physBytes (entries l i)).length = bytesBefore l i := length_sglBytes l i
  rw [sglBytes, hrest, physBytes_append, htotal, ← hbefore, List.drop_length_add_append, physBytes_cons,
    List.drop_append_of_le_length (by rw [List.length_range']; omega), List.drop_range',
    Nat.mul_one, List.take_append_of_le_length (by rw [List.length_range']; omega),
    List.take_range'_of_length_ge (by omega), hplace]

theorem pieces_succ (l r : Nat → MudmSgl) (k : Nat) :
    pieces l r (k + 1) =
      pieces l r k ++ [(Walk.after l r k).put (Walk.after l r k).chunk] := by
  unfold pieces
  rw [List.range_succ, List.map_append, List.map_singleton]

theorem length_pieces (l r : Nat → MudmSgl) (k : Nat) : (pieces l r k).length = k := by
  simp [pieces]

/-- A piece is what comes next in both lists. -/
theorem Lives.put_bytes (h : Lives l r k) (hl : Alive l n) (hr : Alive r m)
    (hln : passed l r k + c ≤ bytesBefore l n) (hrm : passed l r k + c ≤ bytesBefore r m)
    (hc : c ≤ (Walk.after l r k).chunk) :
    ((Walk.after l r k).put c).locals = ((sglBytes l n).drop (passed l r k)).take c ∧
      ((Walk.after l r k).put c).remotes = ((sglBytes r m).drop (passed l r k)).take c := by
  by_cases hzero : c = 0
  · subst hzero
    simp [Put.locals, Put.remotes, Walk.put]
  · have hat := h.at.1
    have hcl : c ≤ (Walk.after l r k).curLocalMemlength := hc.trans (Nat.min_le_left _ _)
    have hcr : c ≤ (Walk.after l r k).curRemoteMemlength := hc.trans (Nat.min_le_right _ _)
    obtain ⟨-, hin⟩ := hat.localAt.behind hl hln (by omega)
    obtain ⟨-, him⟩ := hat.remoteAt.behind hr hrm (by omega)
    exact ⟨(hat.localAt.bytes hin hcl).symm, (hat.remoteAt.bytes him hcr).symm⟩

/-- The pieces are the bytes of the two lists in order. -/
theorem Lives.pieces_bytes (h : Lives l r k) (hl : Alive l n) (hr : Alive r m)
    (hln : passed l r k ≤ bytesBefore l n) (hrm : passed l r k ≤ bytesBefore r m) :
    (pieces l r k).flatMap Put.locals = (sglBytes l n).take (passed l r k) ∧
      (pieces l r k).flatMap Put.remotes = (sglBytes r m).take (passed l r k) := by
  induction k with
  | zero => exact ⟨rfl, rfl⟩
  | succ k ih =>
    have hsum : passed l r (k + 1) = passed l r k + (Walk.after l r k).chunk := rfl
    obtain ⟨hlocal, hremote⟩ := ih (h.mono (Nat.le_succ k)) (by omega) (by omega)
    obtain ⟨hlput, hrput⟩ := (h.mono (Nat.le_succ k)).put_bytes hl hr (hsum ▸ hln) (hsum ▸ hrm)
      (Nat.le_refl _)
    rw [pieces_succ, List.flatMap_append, List.flatMap_append, hlocal, hremote,
      List.flatMap_singleton, List.flatMap_singleton, hlput, hrput, hsum, List.take_add,
      List.take_add]
    exact ⟨rfl, rfl⟩

theorem terminated_sglOf {es : List MudmSgl}
    (h : ∀ e ∈ es, e.physicalAddr ≠ 0 ∧ e.physicalAddr < 2 ^ 36 ∧ e.memlength < 2 ^ 28) :
    Terminated (sglOf es) es.length := by
  refine ⟨fun i hi => ?_, ?_, fun i => ?_⟩
  · have hget : sglOf es i = es[i] := by simp [sglOf, hi]
    rw [hget]
    exact (h _ (List.getElem_mem hi)).1
  · simp [sglOf]
  · by_cases hi : i < es.length
    · have hget : sglOf es i = es[i] := by simp [sglOf, hi]
      rw [hget]
      exact (h _ (List.getElem_mem hi)).2
    · have hget : sglOf es i = ⟨0, 0⟩ := by simp [sglOf, Nat.not_lt.mp hi]
      rw [hget]
      exact ⟨by decide, by decide⟩

end BgqVrnic
