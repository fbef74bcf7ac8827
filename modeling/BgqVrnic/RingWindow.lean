import Mathlib.Algebra.Order.Ring.Int
import Mathlib.Data.List.Basic
import Mathlib.Data.List.Range
import Mathlib.Logic.Function.Basic

namespace Rings

variable {α : Type*} {n lo hi i j : Nat} {mem mem' : Nat → α} {l : List α} {x : α}

/-- A ring of `n` cells still holds the items of the stream `l` from number `lo` on, each in the cell
that its number leads to around the ring. -/
def Holds (n : Nat) (mem : Nat → α) (l : List α) (lo : Nat) : Prop :=
  ∀ j, lo ≤ j → j < l.length → l[j]? = some (mem (j % n))

/-- Numbers less than a full turn apart lead to different cells. -/
theorem mod_ne_of_window (hlo : lo ≤ j) (hj : j < i) (hi : i < lo + n) : j % n ≠ i % n := by
  intro he
  have hdvd : n ∣ i - j := Nat.dvd_of_mod_eq_zero (Nat.sub_mod_eq_zero_of_mod_eq he.symm)
  have hle := Nat.le_of_dvd (by omega) hdvd
  omega

theorem next_mod (hn : 0 < n) : (if n ≤ i % n + 1 then 0 else i % n + 1) = (i + 1) % n := by
  have hlt := Nat.mod_lt i hn
  rw [← Nat.mod_add_mod]
  split
  next hend => rw [show i % n + 1 = n by omega, Nat.mod_self]
  next hend => exact (Nat.mod_eq_of_lt (by omega)).symm

theorem Holds.get (h : Holds n mem l lo) (hlt : lo < l.length) : l[lo]? = some (mem (lo % n)) :=
  h lo le_rfl hlt

theorem Holds.mono (h : Holds n mem l lo) (hle : lo ≤ hi) : Holds n mem l hi :=
  fun j hj => h j (hle.trans hj)

theorem Holds.of_append {l' : List α} (h : Holds n mem (l ++ l') lo) : Holds n mem l lo := by
  intro j hj hlt
  have hget := h j hj (by
    rw [List.length_append]
    omega)
  rwa [List.getElem?_append_left hlt] at hget

/-- The next cell may be written as long as the ring is not full. -/
theorem Holds.write (h : Holds n mem l lo) (hroom : l.length < lo + n) :
    Holds n (Function.update mem (l.length % n) x) l lo := by
  intro j hj hlt
  rw [Function.update_of_ne (mod_ne_of_window hj hlt hroom)]
  exact h j hj hlt

/-- What has been written to the next cell becomes part of the stream. -/
theorem Holds.push (h : Holds n mem l lo) (hx : mem (l.length % n) = x) :
    Holds n mem (l ++ [x]) lo := by
  intro j hj hlt
  by_cases hlast : j = l.length
  · subst hlast
    simp [hx]
  · have hlt' : j < l.length := by
      simp only [List.length_append, List.length_singleton] at hlt
      omega
    rw [List.getElem?_append_left hlt']
    exact h j hj hlt'

/-- The cells from `off` on, as they lie in memory. -/
def read (mem : Nat → α) (off k : Nat) : List α := (List.range k).map fun i => mem (off + i)

/-- Items are written from the cell `off` on, around the ring. -/
def write (n : Nat) (mem : Nat → α) (off : Nat) : List α → Nat → α
  | [] => mem
  | x :: xs => write n (Function.update mem off x) ((off + 1) % n) xs

@[simp] theorem read_length (mem : Nat → α) (off k : Nat) : (read mem off k).length = k := by
  simp [read]

theorem Holds.writeAll {xs : List α} (h : Holds n mem l lo) (hroom : l.length + xs.length ≤ lo + n) :
    Holds n (Rings.write n mem (l.length % n) xs) (l ++ xs) lo := by
  induction xs generalizing mem l with
  | nil =>
    rw [List.append_nil]
    exact h
  | cons x xs ih =>
    rw [List.length_cons] at hroom
    have hx := (h.write (x := x) (by omega)).push (Function.update_self ..)
    have hlen : (l ++ [x]).length = l.length + 1 := by simp
    have hnext := ih hx (by rw [hlen]; omega)
    rw [hlen, ← Nat.mod_add_mod, List.append_assoc] at hnext
    exact hnext

/-- Items that do not go past the end of the ring lie one after the other. -/
theorem Holds.read {p k : Nat} (h : Holds n mem l lo) (hlo : lo ≤ p) (hp : p + k ≤ l.length)
    (hend : p % n + k ≤ n) : Rings.read mem (p % n) k = (l.drop p).take k := by
  apply List.ext_getElem?
  intro i
  by_cases hi : i < k
  · have hmod : (p + i) % n = p % n + i := by
      rw [← Nat.mod_add_mod]
      exact Nat.mod_eq_of_lt (by omega)
    rw [List.getElem?_take_of_lt hi, List.getElem?_drop, h (p + i) (by omega) (by omega), hmod]
    simp [Rings.read, hi]
  · have hlen : ((l.drop p).take k).length ≤ i := by
      rw [List.length_take]
      omega
    rw [List.getElem?_eq_none hlen]
    exact List.getElem?_eq_none (by rw [read_length]; omega)

/-- Items that reach the end of the ring lie in two parts, of which the second may be empty. -/
theorem Holds.read_wrapped {p k : Nat} (h : Holds n mem l lo) (hlo : lo ≤ p)
    (hp : p + k ≤ l.length) (hend : n ≤ p % n + k) (hk : k ≤ n) (hn : 0 < n) :
    Rings.read mem (p % n) (n - p % n) ++ Rings.read mem 0 (k - (n - p % n)) =
      (l.drop p).take k := by
  have hlt := Nat.mod_lt p hn
  have hstart : (p + (n - p % n)) % n = 0 := by
    rw [← Nat.mod_add_mod, show p % n + (n - p % n) = n by omega, Nat.mod_self]
  have hfirst := h.read (k := n - p % n) hlo (by omega) (by omega)
  have hsecond := h.read (p := p + (n - p % n)) (k := k - (n - p % n)) (by omega) (by omega)
    (by omega)
  rw [hstart] at hsecond
  rw [hfirst, hsecond, ← List.drop_drop, ← List.take_add]
  congr 1
  omega

/-- `k` cells around the ring, from the one that `i` leads to. -/
def around (n i k : Nat) : List Nat := (List.range k).map fun j => (i + j) % n

/-- The `k` cells of a ring of `n` that end at the cell `last`, each followed by the next one. -/
structure LeadsUp (n last k : Nat) (cells : List Nat) : Prop where
  length : cells.length = k
  ends : cells.getLast? = some last
  consecutive : cells.IsChain fun p q => q = (p + 1) % n
  below : ∀ p ∈ cells, p < n

@[simp] theorem around_length (n i k : Nat) : (around n i k).length = k := by
  rw [around, List.length_map, List.length_range]

theorem around_add (n i k m : Nat) : around n i (k + m) = around n i k ++ around n (i + k) m := by
  unfold around
  rw [List.range_add, List.map_append, List.map_map]
  simp only [Function.comp_def, Nat.add_assoc]

/-- Cells before the end of the ring. -/
theorem around_of_le {k : Nat} (h : i + k ≤ n) : around n i k = List.range' i k := by
  unfold around
  rw [List.range'_eq_map_range]
  refine List.map_congr_left fun j hj => ?_
  have hj := List.mem_range.mp hj
  exact Nat.mod_eq_of_lt (by omega)

theorem around_turn (n k : Nat) : around n n k = around n 0 k := by
  unfold around
  simp only [Nat.add_mod_left, Nat.zero_add]

/-- `a` cells before the end of the ring and `b` cells from its start on. -/
theorem around_wrapped {a b : Nat} (ha : a ≤ n) (hb : b ≤ n) :
    around n (n - a) (a + b) = List.range' (n - a) a ++ List.range' 0 b := by
  have hend : around n (n - a) a = List.range' (n - a) a := around_of_le (by omega)
  have hstart : around n 0 b = List.range' 0 b := around_of_le (by omega)
  rw [around_add, Nat.sub_add_cancel ha, around_turn, hend, hstart]

theorem around_leadsUp {k : Nat} (hn : 0 < n) (hk : 0 < k) :
    LeadsUp n ((i + (k - 1)) % n) k (around n i k) where
  length := around_length n i k
  ends := by
    rw [around, List.getLast?_map, List.getLast?_range, if_neg (Nat.ne_of_gt hk)]
    rfl
  consecutive := by
    rw [around, List.isChain_map, List.isChain_range]
    intro j _
    rw [Nat.mod_add_mod]
    rfl
  below := by
    intro p hp
    obtain ⟨j, -, hj⟩ := List.mem_map.mp hp
    rw [← hj]
    exact Nat.mod_lt _ hn

end Rings
