import Mathlib.Algebra.Order.Ring.Int
import Mathlib.Data.List.Basic

namespace Prints

/-- Text goes to `buffer`, where `bufferSize` bytes are left; `places` are all the values that the two have had.
Of a byte of the memory only matters whether it is zero. -/
structure Output where
  mem : Nat → Bool
  buffer : Nat
  bufferSize : Nat
  places : List (Nat × Nat)
  small : bufferSize < 2 ^ 64
  here : (buffer, bufferSize) ∈ places

/-- `k` characters at `a`, and a zero behind them. -/
def putText (mem : Nat → Bool) (a k : Nat) : Nat → Bool := fun p =>
  if a ≤ p ∧ p ≤ a + k then p = a + k else mem p

def strlen (mem : Nat → Bool) : Nat → Nat → Nat
  | 0, _ => 0
  | limit + 1, p => if mem p then 0 else strlen mem limit (p + 1) + 1

namespace Output

def start (mem : Nat → Bool) (bufferSize : UInt64) : Output :=
  ⟨mem, 0, bufferSize.toNat, [(0, bufferSize.toNat)], bufferSize.toNat_lt, List.mem_cons_self⟩

/-- `snprintf` of a text of `n` characters, of which only those that have room are written. -/
def snprintf (n : Nat) (o : Output) : Output :=
  { o with mem := if o.bufferSize = 0 then o.mem else putText o.mem o.buffer (min n (o.bufferSize - 1)) }

/-- `bufferSize -= n; buffer += n`, in 64 bits. -/
def move (n : Nat) (o : Output) : Output where
  mem := o.mem
  buffer := o.buffer + n
  bufferSize := (o.bufferSize + (2 ^ 64 - n % 2 ^ 64)) % 2 ^ 64
  places := (o.buffer + n, (o.bufferSize + (2 ^ 64 - n % 2 ^ 64)) % 2 ^ 64) :: o.places
  small := Nat.mod_lt _ (by decide)
  here := List.mem_cons_self

def append (n : Nat) (o : Output) : Output := (o.snprintf n).move n

end Output

/-- A piece that `buffer` is moved behind, or one that it is not moved behind. -/
inductive Piece
  | counted (n : Nat)
  | uncounted (n : Nat)

def Piece.put (o : Output) : Piece → Output
  | .counted n => o.append n
  | .uncounted n => o.snprintf n

def Piece.length : Piece → Nat
  | .counted n => n
  | .uncounted _ => 0

def counted (ps : List Piece) : Nat := (ps.map Piece.length).sum

/-- The length of the text that pieces leave in `room` bytes, cut off where the room ends. -/
def textLength : Nat → List Piece → Nat
  | _, [] => 0
  | room, .counted n :: ps => if n < room then n + textLength (room - n) ps else room - 1
  | room, .uncounted n :: ps => if ps.isEmpty then min n (room - 1) else textLength room ps

theorem textLength_le (room : Nat) (ps : List Piece) : textLength room ps ≤ room := by
  induction ps generalizing room with
  | nil => exact Nat.zero_le _
  | cons piece ps ih =>
    cases piece with
    | counted n =>
      unfold textLength
      have hrest := ih (room - n)
      split <;> omega
    | uncounted n =>
      unfold textLength
      split
      next => omega
      next => exact ih room

namespace Output

variable {o : Output} {ps : List Piece} {stop n p : Nat} {q : Nat × Nat}

def pieces (ps : List Piece) (o : Output) : Output := ps.foldl Piece.put o

theorem append_places (h : q ∈ o.places) : q ∈ (o.append n).places := List.mem_cons_of_mem _ h

theorem pieces_places (ps : List Piece) {o : Output} (h : q ∈ o.places) : q ∈ (o.pieces ps).places := by
  induction ps generalizing o with
  | nil => exact h
  | cons p ps ih =>
    refine ih (o := p.put o) ?_
    cases p with
    | counted n => exact append_places h
    | uncounted n => exact h

/-- A function puts the pieces at its own copies of `buffer` and `bufferSize`, and the caller goes on behind the
text that it finds. -/
def call (ps : List Piece) (o : Output) : Output :=
  { o with
    mem := (o.pieces ps).mem
    places := (o.pieces ps).places
    here := pieces_places ps o.here : Output }.move (strlen (o.pieces ps).mem (2 ^ 64) o.buffer)

theorem call_places (h : q ∈ o.places) : q ∈ (o.call ps).places :=
  List.mem_cons_of_mem _ (pieces_places ps h)

/-- `buffer` has never gone past `stop`, and `bufferSize` has always been what is left up to there. -/
def Inside (stop : Nat) (o : Output) : Prop := ∀ q ∈ o.places, q.1 + q.2 = stop

instance (stop : Nat) (o : Output) : Decidable (o.Inside stop) :=
  inferInstanceAs (Decidable (∀ q ∈ o.places, q.1 + q.2 = stop))

theorem start_inside (mem : Nat → Bool) (bufferSize : UInt64) :
    (start mem bufferSize).Inside bufferSize.toNat := by
  intro q hq
  rw [List.mem_singleton.mp hq]
  exact Nat.zero_add _

theorem Inside.stop_eq (h : o.Inside stop) : o.buffer + o.bufferSize = stop := h _ o.here

theorem move_bufferSize (hn : n ≤ o.bufferSize) : (o.move n).bufferSize = o.bufferSize - n := by
  have hsmall := o.small
  show (o.bufferSize + (2 ^ 64 - n % 2 ^ 64)) % 2 ^ 64 = o.bufferSize - n
  rw [Nat.mod_eq_of_lt (show n < 2 ^ 64 by omega)]
  omega

theorem Inside.move_iff (h : o.Inside stop) : (o.move n).Inside stop ↔ n ≤ o.bufferSize := by
  have hstop := h.stop_eq
  constructor
  · intro hm
    have hnew : o.buffer + n + (o.move n).bufferSize = stop := hm _ (o.move n).here
    omega
  · intro hn q hq
    rcases List.mem_cons.mp hq with rfl | hq
    · show o.buffer + n + (o.move n).bufferSize = stop
      rw [move_bufferSize hn]
      omega
    · exact h q hq

theorem Inside.append_iff (h : o.Inside stop) : (o.append n).Inside stop ↔ n ≤ o.bufferSize :=
  Inside.move_iff (o := o.snprintf n) h

theorem append_bufferSize (hn : n ≤ o.bufferSize) : (o.append n).bufferSize = o.bufferSize - n :=
  move_bufferSize (o := o.snprintf n) hn

/-- A chain of pieces stays inside exactly if what it counts has room. -/
theorem Inside.pieces_iff (h : o.Inside stop) : (o.pieces ps).Inside stop ↔ counted ps ≤ o.bufferSize := by
  induction ps generalizing o with
  | nil => exact iff_of_true h (Nat.zero_le _)
  | cons p ps ih =>
    have hsum : counted (p :: ps) = p.length + counted ps := by simp [counted]
    have hrun : o.pieces (p :: ps) = (p.put o).pieces ps := rfl
    rw [hsum, hrun]
    cases p with
    | counted n =>
      show ((o.append n).pieces ps).Inside stop ↔ n + counted ps ≤ o.bufferSize
      rcases Nat.lt_or_ge o.bufferSize n with hn | hn
      · refine iff_of_false (fun hin => ?_) (by omega)
        have hstep : (o.append n).Inside stop := fun q hq => hin q (pieces_places ps hq)
        have hle := h.append_iff.mp hstep
        omega
      · rw [ih (h.append_iff.mpr hn), append_bufferSize hn]
        omega
    | uncounted n =>
      show ((o.snprintf n).pieces ps).Inside stop ↔ 0 + counted ps ≤ o.bufferSize
      rw [Nat.zero_add]
      exact ih (o := o.snprintf n) h

theorem snprintf_outside (h : o.Inside stop) (hp : stop ≤ p) : (o.snprintf n).mem p = o.mem p := by
  have hstop := h.stop_eq
  show (if o.bufferSize = 0 then o.mem else putText o.mem o.buffer (min n (o.bufferSize - 1))) p = o.mem p
  by_cases hfull : o.bufferSize = 0
  · rw [if_pos hfull]
  · rw [if_neg hfull]
    exact if_neg (by omega)

/-- Nothing is written from `stop` on. -/
theorem Inside.outside (h : (o.pieces ps).Inside stop) (hp : stop ≤ p) : (o.pieces ps).mem p = o.mem p := by
  induction ps generalizing o with
  | nil => rfl
  | cons piece ps ih =>
    have hold : o.Inside stop := fun q hq => h q (pieces_places _ hq)
    have hput : (piece.put o).mem p = o.mem p := by
      cases piece with
      | counted n => exact snprintf_outside hold hp
      | uncounted n => exact snprintf_outside hold hp
    rw [← hput]
    exact ih h

theorem snprintf_before (hp : p < o.buffer) : (o.snprintf n).mem p = o.mem p := by
  show (if o.bufferSize = 0 then o.mem else putText o.mem o.buffer (min n (o.bufferSize - 1))) p = o.mem p
  by_cases hfull : o.bufferSize = 0
  · rw [if_pos hfull]
  · rw [if_neg hfull]
    exact if_neg (by omega)

theorem pieces_before (ps : List Piece) {o : Output} (hp : p < o.buffer) :
    (o.pieces ps).mem p = o.mem p := by
  induction ps generalizing o with
  | nil => rfl
  | cons piece ps ih =>
    cases piece with
    | counted n => exact (ih (o := o.append n) (Nat.lt_add_right n hp)).trans (snprintf_before hp)
    | uncounted n => exact (ih (o := o.snprintf n) hp).trans (snprintf_before hp)

/-- With no room left nothing is written any more. -/
theorem Inside.pieces_full (h : (o.pieces ps).Inside stop) (hfull : o.bufferSize = 0) :
    (o.pieces ps).mem = o.mem := by
  have hold : o.Inside stop := fun q hq => h q (pieces_places ps hq)
  have hstop := hold.stop_eq
  funext p
  rcases Nat.lt_or_ge p stop with hp | hp
  · exact pieces_before ps (by omega)
  · exact h.outside hp

/-- A text that starts at `a` comes to its end before `stop`. -/
def Ends (a stop : Nat) (mem : Nat → Bool) : Prop := ∃ k, a + k < stop ∧ mem (a + k) = true

theorem strlen_le {mem : Nat → Bool} {k : Nat} (limit : Nat) (h : mem (p + k) = true) : strlen mem limit p ≤ k := by
  induction limit generalizing p k with
  | zero => exact Nat.zero_le _
  | succ limit ih =>
    unfold strlen
    split
    next => exact Nat.zero_le _
    next hp =>
      cases k with
      | zero => exact absurd h hp
      | succ k =>
        have hle := ih (p := p + 1) (k := k) (by rwa [Nat.add_assoc, Nat.add_comm 1 k])
        omega

theorem strlen_eq_zero {mem : Nat → Bool} (limit : Nat) (h : strlen mem (limit + 1) p = 0) :
    mem p = true := by
  unfold strlen at h
  split at h
  next hp => exact hp
  next => omega

theorem snprintf_ends {a : Nat} (h : o.Inside stop) (ha : a ≤ o.buffer) (he : Ends a stop o.mem) :
    Ends a stop (o.snprintf n).mem := by
  have hstop := h.stop_eq
  by_cases hfull : o.bufferSize = 0
  · have hmem : (o.snprintf n).mem = o.mem := if_pos hfull
    rwa [hmem]
  · have hmem : (o.snprintf n).mem = putText o.mem o.buffer (min n (o.bufferSize - 1)) := if_neg hfull
    refine ⟨o.buffer - a + min n (o.bufferSize - 1), by omega, ?_⟩
    rw [hmem, show a + (o.buffer - a + min n (o.bufferSize - 1)) =
      o.buffer + min n (o.bufferSize - 1) by omega]
    simp [putText]

theorem Inside.ends {a : Nat} (h : (o.pieces ps).Inside stop) (ha : a ≤ o.buffer) (he : Ends a stop o.mem) :
    Ends a stop (o.pieces ps).mem := by
  induction ps generalizing o with
  | nil => exact he
  | cons piece ps ih =>
    have hold : o.Inside stop := fun q hq => h q (pieces_places _ hq)
    cases piece with
    | counted n => exact ih (o := o.append n) h (Nat.le_add_right_of_le ha) (snprintf_ends hold ha he)
    | uncounted n => exact ih (o := o.snprintf n) h ha (snprintf_ends hold ha he)

/-- A text of `k` characters stands at `a`. -/
structure Text (a k : Nat) (mem : Nat → Bool) : Prop where
  chars : ∀ p, a ≤ p → p < a + k → mem p = false
  ends : mem (a + k) = true

theorem Text.strlen {a k : Nat} {mem : Nat → Bool} (limit : Nat) (h : Text a k mem) (hk : k < limit) :
    Prints.strlen mem limit a = k := by
  induction limit generalizing a k with
  | zero => omega
  | succ limit ih =>
    unfold Prints.strlen
    cases k with
    | zero => exact if_pos h.ends
    | succ k =>
      have hchar : mem a = false := h.chars a (Nat.le_refl _) (by omega)
      have hrest : Text (a + 1) k mem := by
        refine ⟨fun p hp hlt => h.chars p (by omega) (by omega), ?_⟩
        rw [Nat.add_assoc, Nat.add_comm 1 k]
        exact h.ends
      rw [hchar, if_neg Bool.false_ne_true, ih hrest (by omega)]

theorem snprintf_text (hroom : 0 < o.bufferSize) :
    Text o.buffer (min n (o.bufferSize - 1)) (o.snprintf n).mem := by
  have hmem : (o.snprintf n).mem = putText o.mem o.buffer (min n (o.bufferSize - 1)) := if_neg (by omega)
  rw [hmem]
  constructor
  case chars =>
    intro p hp hlt
    unfold putText
    rw [if_pos ⟨hp, Nat.le_of_lt hlt⟩]
    exact decide_eq_false (Nat.ne_of_lt hlt)
  case ends => simp [putText]

/-- What the pieces leave is a text of that length. -/
theorem Inside.pieces_text (h : (o.pieces ps).Inside stop) (hroom : 0 < o.bufferSize)
    (hnone : ps = [] → o.mem o.buffer = true) :
    Text o.buffer (textLength o.bufferSize ps) (o.pieces ps).mem := by
  induction ps generalizing o with
  | nil => exact ⟨fun p hp hlt => absurd hlt (Nat.not_lt.mpr hp), hnone rfl⟩
  | cons piece ps ih =>
    have hold : o.Inside stop := fun q hq => h q (pieces_places _ hq)
    cases piece with
    | counted n =>
      have hstep : (o.append n).Inside stop := fun q hq => h q (pieces_places ps hq)
      have hn := hold.append_iff.mp hstep
      have hput : Text o.buffer (min n (o.bufferSize - 1)) (o.append n).mem := snprintf_text hroom
      show Text o.buffer (if n < o.bufferSize then n + textLength (o.bufferSize - n) ps else o.bufferSize - 1)
        ((o.append n).pieces ps).mem
      by_cases hleft : n < o.bufferSize
      · rw [if_pos hleft]
        rw [Nat.min_eq_left (by omega)] at hput
        have hsize := append_bufferSize hn
        have hrest := ih (o := o.append n) h (by omega) fun _ => hput.ends
        rw [hsize] at hrest
        refine ⟨fun p hp hlt => ?_, ?_⟩
        · rcases Nat.lt_or_ge p (o.buffer + n) with hbefore | hbehind
          · rw [pieces_before ps (o := o.append n) hbefore]
            exact hput.chars p hp hbefore
          · exact hrest.chars p hbehind (by rw [show (o.append n).buffer = o.buffer + n from rfl]; omega)
        · rw [← Nat.add_assoc]
          exact hrest.ends
      · have hfull : (o.append n).bufferSize = 0 := by
          rw [append_bufferSize hn]
          omega
        rw [if_neg hleft, Inside.pieces_full (o := o.append n) h hfull]
        rwa [Nat.min_eq_right (by omega)] at hput
    | uncounted n =>
      show Text o.buffer (if ps.isEmpty then min n (o.bufferSize - 1) else textLength o.bufferSize ps)
        ((o.snprintf n).pieces ps).mem
      cases ps with
      | nil => exact snprintf_text hroom
      | cons piece ps => exact ih (o := o.snprintf n) h hroom nofun

/-- What has been written so far ends at `buffer`. -/
def Terminated (o : Output) : Prop := 0 < o.bufferSize → o.mem o.buffer = true

theorem append_terminated (hn : n ≤ o.bufferSize) : (o.append n).Terminated := by
  intro hpos
  rw [append_bufferSize hn] at hpos
  have hmem : (o.append n).mem = putText o.mem o.buffer (min n (o.bufferSize - 1)) :=
    if_neg (by omega)
  rw [hmem, Nat.min_eq_left (by omega)]
  show putText o.mem o.buffer n (o.buffer + n) = true
  simp [putText]

theorem pieces_append (ps qs : List Piece) (o : Output) : o.pieces (ps ++ qs) = (o.pieces ps).pieces qs :=
  List.foldl_append

theorem pieces_buffer (ps : List Piece) (o : Output) : (o.pieces ps).buffer = o.buffer + counted ps := by
  induction ps generalizing o with
  | nil => rfl
  | cons piece ps ih =>
    have hrun : (o.pieces (piece :: ps)).buffer = (piece.put o).buffer + counted ps := ih (piece.put o)
    have hput : (piece.put o).buffer = o.buffer + piece.length := by cases piece <;> rfl
    have hsum : counted (piece :: ps) = piece.length + counted ps := by simp [counted]
    omega

theorem Inside.pieces_bufferSize (h : (o.pieces ps).Inside stop) :
    (o.pieces ps).bufferSize = o.bufferSize - counted ps := by
  have hstop := h.stop_eq
  have hold : o.Inside stop := fun q hq => h q (pieces_places ps hq)
  have hstart := hold.stop_eq
  rw [pieces_buffer] at hstop
  omega

theorem Inside.pieces_terminated (h : (o.pieces (ps ++ [.counted n])).Inside stop) :
    (o.pieces (ps ++ [.counted n])).Terminated := by
  rw [pieces_append] at h ⊢
  have hold : (o.pieces ps).Inside stop := fun q hq => h q (pieces_places [.counted n] hq)
  exact append_terminated (hold.append_iff.mp h)

theorem Inside.called_iff (hin : (o.pieces ps).Inside stop) :
    (o.call ps).Inside stop ↔ strlen (o.pieces ps).mem (2 ^ 64) o.buffer ≤ o.bufferSize :=
  Inside.move_iff (o := { o with
    mem := (o.pieces ps).mem
    places := (o.pieces ps).places
    here := pieces_places ps o.here : Output }) hin

/-- A function and its caller stay inside exactly if what the function counts has room. With no space left, what
the caller takes for its text lies behind the buffer. -/
theorem Inside.call_iff (h : o.Inside stop) (ht : o.Terminated) :
    (o.call ps).Inside stop ↔ counted ps ≤ o.bufferSize ∧ (o.bufferSize = 0 → o.mem stop = true) := by
  have hstop := h.stop_eq
  constructor
  · intro hcall
    have hin : (o.pieces ps).Inside stop := fun q hq => hcall q (List.mem_cons_of_mem _ hq)
    refine ⟨h.pieces_iff.mp hin, fun hfull => ?_⟩
    have hlen := hin.called_iff.mp hcall
    have hzero := strlen_eq_zero (2 ^ 64 - 1) (Nat.le_zero.mp (hfull ▸ hlen))
    rw [show o.buffer = stop by omega, hin.outside (Nat.le_refl _)] at hzero
    exact hzero
  · rintro ⟨hle, hbehind⟩
    have hin := h.pieces_iff.mpr hle
    rw [hin.called_iff]
    rcases Nat.eq_zero_or_pos o.bufferSize with hfull | hpos
    · refine strlen_le (k := o.bufferSize) _ ?_
      rw [hstop, hin.outside (Nat.le_refl _)]
      exact hbehind hfull
    · obtain ⟨k, hk, hmem⟩ := hin.ends (Nat.le_refl _) ⟨0, by omega, ht hpos⟩
      have hlen := strlen_le (2 ^ 64) hmem
      omega

theorem Inside.call_bufferSize (h : (o.call ps).Inside stop) (ht : o.Terminated) :
    (o.call ps).bufferSize = o.bufferSize - textLength o.bufferSize ps := by
  have hin : (o.pieces ps).Inside stop := fun q hq => h q (List.mem_cons_of_mem _ hq)
  have hle := hin.called_iff.mp h
  have hmove : (o.call ps).bufferSize = o.bufferSize - strlen (o.pieces ps).mem (2 ^ 64) o.buffer :=
    move_bufferSize (o := { o with
      mem := (o.pieces ps).mem
      places := (o.pieces ps).places
      here := pieces_places ps o.here : Output }) hle
  rw [hmove]
  rcases Nat.eq_zero_or_pos o.bufferSize with hfull | hpos
  · omega
  · have hlen := Nat.lt_of_le_of_lt (textLength_le o.bufferSize ps) o.small
    rw [(hin.pieces_text hpos fun _ => ht hpos).strlen _ hlen]

theorem Inside.call_outside (h : (o.call ps).Inside stop) (hp : stop ≤ p) :
    (o.call ps).mem p = o.mem p := by
  have hin : (o.pieces ps).Inside stop := fun q hq => h q (List.mem_cons_of_mem _ hq)
  exact hin.outside hp

theorem Inside.append_outside (h : o.Inside stop) (hp : stop ≤ p) : (o.append n).mem p = o.mem p :=
  snprintf_outside h hp

end Output

end Prints
