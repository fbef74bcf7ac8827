import Mathlib.Algebra.Order.Ring.Int
import Mathlib.Data.List.Basic

namespace PackedBytes

/-- Big-endian digits: `w` bytes of `n`. -/
def putBE : Nat → Nat → List UInt8
  | 0, _ => []
  | w + 1, n => UInt8.ofNat (n / 256 ^ w) :: putBE w n

def getBE : List UInt8 → Nat
  | [] => 0
  | b :: bs => b.toNat * 256 ^ bs.length + getBE bs

abbrev Memory := Nat → UInt8

def store (m : Memory) (off : Nat) (bs : List UInt8) : Memory := fun i =>
  if off ≤ i ∧ i < off + bs.length then bs.getD (i - off) 0 else m i

def load (m : Memory) (off n : Nat) : List UInt8 := (List.range n).map fun i => m (off + i)

/-- Fields of a packed structure, each with its width in bytes. -/
abbrev Fields := List (Nat × Nat)

def Fields.widths (fs : Fields) : List Nat := fs.map Prod.fst

def Fields.size (fs : Fields) : Nat := fs.widths.sum

def Fields.Fit (fs : Fields) : Prop := ∀ f ∈ fs, f.2 < 256 ^ f.1

def putFields (fs : Fields) : List UInt8 := fs.flatMap fun f => putBE f.1 f.2

def getFields (m : Memory) : Nat → List Nat → List Nat
  | _, [] => []
  | off, w :: ws => getBE (load m off w) :: getFields m (off + w) ws

variable {m m' : Memory} {off off' n w : Nat} {bs bs' : List UInt8} {fs : Fields}

@[simp] theorem putBE_length (w n : Nat) : (putBE w n).length = w := by
  induction w with
  | zero => rfl
  | succ w ih => simp [putBE, ih]

@[simp] theorem load_length (m : Memory) (off n : Nat) : (load m off n).length = n := by
  simp [load]

theorem getBE_putBE_mod (w n : Nat) : getBE (putBE w n) = n % 256 ^ w := by
  induction w with
  | zero => simp [putBE, getBE, Nat.mod_one]
  | succ w ih =>
    have hb : (UInt8.ofNat (n / 256 ^ w)).toNat = n / 256 ^ w % 256 := by simp
    rw [putBE, getBE, putBE_length, ih, hb, Nat.pow_succ, Nat.mod_mul, Nat.mul_comm, Nat.add_comm]

theorem getBE_putBE (h : n < 256 ^ w) : getBE (putBE w n) = n := by
  rw [getBE_putBE_mod, Nat.mod_eq_of_lt h]

theorem load_congr (h : ∀ i, off ≤ i → i < off + n → m' i = m i) : load m' off n = load m off n :=
  List.map_congr_left fun i hi => h (off + i) (by omega) (by have := List.mem_range.mp hi; omega)

theorem load_getElem {i : Nat} (h : i < (load m off n).length) : (load m off n)[i] = m (off + i) := by
  simp [load]

/-- Reading back what was written. -/
theorem load_store : load (store m off bs) off bs.length = bs := by
  refine List.ext_getElem (load_length ..) fun i h h' => ?_
  have hin : off ≤ off + i ∧ off + i < off + bs.length := ⟨by omega, by omega⟩
  rw [load_getElem, store, if_pos hin, Nat.add_sub_cancel_left, List.getD_eq_getElem?_getD,
    List.getElem?_eq_getElem h', Option.getD_some]

/-- A write elsewhere is not seen. -/
theorem load_store_of_disjoint (h : off + n ≤ off' ∨ off' + bs.length ≤ off) :
    load (store m off' bs) off n = load m off n := by
  refine load_congr fun i hi hin => ?_
  rw [store, if_neg (by omega)]

theorem store_append (m : Memory) (off : Nat) (bs bs' : List UInt8) :
    store m off (bs ++ bs') = store (store m off bs) (off + bs.length) bs' := by
  funext i
  simp only [store, List.length_append, List.getD_eq_getElem?_getD]
  by_cases h₁ : off ≤ i ∧ i < off + bs.length
  · rw [if_pos ⟨h₁.1, by omega⟩, if_neg (by omega), if_pos h₁, List.getElem?_append_left (by omega)]
  · by_cases h₂ : off + bs.length ≤ i ∧ i < off + bs.length + bs'.length
    · rw [if_pos ⟨by omega, by omega⟩, if_pos h₂, List.getElem?_append_right (by omega),
        Nat.sub_add_eq]
    · rw [if_neg (by omega), if_neg h₂, if_neg h₁]

theorem getFields_congr {ws : List Nat} (h : ∀ i, off ≤ i → i < off + ws.sum → m' i = m i) :
    getFields m' off ws = getFields m off ws := by
  induction ws generalizing off with
  | nil => rfl
  | cons w ws ih =>
    simp only [List.sum_cons] at h
    simp only [getFields]
    rw [load_congr fun i hi hin => h i hi (by omega), ih fun i hi hin => h i (by omega) (by omega)]

/-- A packed structure reads back as it was written. -/
theorem getFields_putFields (h : fs.Fit) :
    getFields (store m off (putFields fs)) off fs.widths = fs.map Prod.snd := by
  induction fs generalizing m off with
  | nil => rfl
  | cons f fs ih =>
    have hf := h f (by simp)
    have hput : putFields (f :: fs) = putBE f.1 f.2 ++ putFields fs := rfl
    have hw : Fields.widths (f :: fs) = f.1 :: Fields.widths fs := rfl
    rw [hput, store_append, hw, putBE_length]
    simp only [getFields, List.map_cons]
    rw [ih fun g hg => h g (by simp [hg]), load_store_of_disjoint (Or.inl (Nat.le_refl _))]
    have hl : load (store m off (putBE f.1 f.2)) off (putBE f.1 f.2).length = putBE f.1 f.2 :=
      load_store
    rw [putBE_length] at hl
    rw [hl, getBE_putBE hf]

theorem getFields_store_of_disjoint {ws : List Nat}
    (h : off + ws.sum ≤ off' ∨ off' + bs.length ≤ off) :
    getFields (store m off' bs) off ws = getFields m off ws := by
  refine getFields_congr fun i hi hin => ?_
  rw [store, if_neg (by omega)]

end PackedBytes
