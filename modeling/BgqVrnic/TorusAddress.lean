import Mathlib.Data.Nat.Bitwise
import Mathlib.Data.BitVec

namespace BgqVrnic

/-- The octets of an IPv4 address as they lie in memory. -/
structure IpAddress where
  octet0 : UInt8
  octet1 : UInt8
  octet2 : UInt8
  octet3 : UInt8
  deriving DecidableEq, Repr, Inhabited

/-- The coordinates in a `MUHWI_Destination_t`. -/
structure TorusCoords where
  a : Nat
  b : Nat
  c : Nat
  d : Nat
  e : Nat
  deriving DecidableEq, Repr, Inhabited

/-- The fields `A_Destination` to `E_Destination`, behind the two bits of `Reserved2`. -/
def muhwiDestination (w : UInt32) : TorusCoords :=
  ⟨w.toNat / 2 ^ 24 % 2 ^ 6, w.toNat / 2 ^ 18 % 2 ^ 6, w.toNat / 2 ^ 12 % 2 ^ 6, w.toNat / 2 ^ 6 % 2 ^ 6,
    w.toNat % 2 ^ 6⟩

/-- `MU_NODE_ADDR` -/
def muNodeAddr (a b c d e : UInt32) : UInt32 :=
  ((a &&& 0x3f) <<< 24) ||| ((b &&& 0x3f) <<< 18) ||| ((c &&& 0x3f) <<< 12) ||| ((d &&& 0x3f) <<< 6) |||
    (e &&& 0x3f)

def mudmIsIonode : UInt32 := 0x80000000

def mudmIsCn : UInt32 := 0

/-- `mudm_dest32` -/
def mudmDest32 (a b c d e ionodeIndicator : UInt32) : UInt32 :=
  ((a &&& 0x3F) <<< 24) ||| ((b &&& 0x3F) <<< 18) ||| ((c &&& 0x3F) <<< 12) ||| ((d &&& 0x3F) <<< 6) |||
    (e &&& 0x3F) ||| ionodeIndicator

/-- `dest_node` in `bgvrnic_connect` -/
def connectDestNode (addr : IpAddress) : UInt32 :=
  mudmDest32 (addr.octet1 &&& 0xf).toUInt32 (addr.octet2 >>> 4).toUInt32 (addr.octet2 &&& 0xf).toUInt32
    (addr.octet3 >>> 4).toUInt32 (addr.octet3 &&& 0xf).toUInt32
    (if addr.octet1 &&& 0xc0 = 0x80 then mudmIsCn else mudmIsIonode)

/-- `10.nnppaaaa.bbbbcccc.ddddeeee` -/
def IpAddress.ofTorus (nn pp : BitVec 2) (a b c d e : BitVec 4) : IpAddress :=
  ⟨10, .ofBitVec (nn ++ pp ++ a), .ofBitVec (b ++ c), .ofBitVec (d ++ e)⟩

def TorusCoords.ofFields (a b c d e : BitVec 4) : TorusCoords :=
  ⟨a.toNat, b.toNat, c.toNat, d.toNat, e.toNat⟩

section Words

variable {a b c d e : UInt32} {x y : Nat}

theorem or_eq_add {k : Nat} (h : y < 2 ^ k) : x * 2 ^ k ||| y = x * 2 ^ k + y := by
  rw [← Nat.shiftLeft_eq, Nat.shiftLeft_add_eq_or_of_lt h]

theorem toNat_field (a : UInt32) {k : UInt32} (hk : k.toNat ≤ 24) :
    ((a &&& 0x3f) <<< k).toNat = a.toNat % 2 ^ 6 * 2 ^ k.toNat := by
  have hmask : (a &&& 0x3f).toNat = a.toNat % 2 ^ 6 := by
    rw [UInt32.toNat_and]
    exact Nat.and_two_pow_sub_one_eq_mod a.toNat 6
  have hpow : 2 ^ k.toNat ≤ 2 ^ 24 := Nat.pow_le_pow_right (by decide) hk
  have hlt : a.toNat % 2 ^ 6 < 2 ^ 6 := Nat.mod_lt _ (by decide)
  have hsmall : a.toNat % 2 ^ 6 * 2 ^ k.toNat < 2 ^ 32 := by
    calc a.toNat % 2 ^ 6 * 2 ^ k.toNat ≤ (2 ^ 6 - 1) * 2 ^ 24 := Nat.mul_le_mul (by omega) hpow
      _ < 2 ^ 32 := by decide
  have hshift : k.toNat % 32 = k.toNat := Nat.mod_eq_of_lt (by omega)
  rw [UInt32.toNat_shiftLeft, hmask, hshift, Nat.shiftLeft_eq, Nat.mod_eq_of_lt hsmall]

theorem muNodeAddr_toNat (a b c d e : UInt32) : (muNodeAddr a b c d e).toNat =
    a.toNat % 2 ^ 6 * 2 ^ 24 + (b.toNat % 2 ^ 6 * 2 ^ 18 + (c.toNat % 2 ^ 6 * 2 ^ 12 +
      (d.toNat % 2 ^ 6 * 2 ^ 6 + e.toNat % 2 ^ 6))) := by
  have he : (e &&& 0x3f).toNat = e.toNat % 2 ^ 6 := by
    rw [UInt32.toNat_and]
    exact Nat.and_two_pow_sub_one_eq_mod e.toNat 6
  have hd := toNat_field d (k := 6) (by decide)
  have hc := toNat_field c (k := 12) (by decide)
  have hb := toNat_field b (k := 18) (by decide)
  have ha := toNat_field a (k := 24) (by decide)
  simp only [UInt32.reduceToNat] at hd hc hb ha
  unfold muNodeAddr
  rw [UInt32.toNat_or, UInt32.toNat_or, UInt32.toNat_or, UInt32.toNat_or, ha, hb, hc, hd, he, Nat.or_assoc,
    Nat.or_assoc, Nat.or_assoc, or_eq_add (x := d.toNat % 2 ^ 6) (by omega),
    or_eq_add (x := c.toNat % 2 ^ 6) (by omega), or_eq_add (x := b.toNat % 2 ^ 6) (by omega),
    or_eq_add (x := a.toNat % 2 ^ 6) (by omega)]

theorem muhwiDestination_muNodeAddr (a b c d e : UInt32) : muhwiDestination (muNodeAddr a b c d e) =
    ⟨a.toNat % 2 ^ 6, b.toNat % 2 ^ 6, c.toNat % 2 ^ 6, d.toNat % 2 ^ 6, e.toNat % 2 ^ 6⟩ := by
  unfold muhwiDestination
  rw [muNodeAddr_toNat, TorusCoords.mk.injEq]
  refine ⟨?_, ?_, ?_, ?_, ?_⟩ <;> omega

theorem muNodeAddr_lt (a b c d e : UInt32) : (muNodeAddr a b c d e).toNat < 2 ^ 30 := by
  rw [muNodeAddr_toNat]
  omega

/-- The indicator stands in the reserved bits. -/
theorem mudmDest32_toNat (a b c d e : UInt32) (cn : Prop) [Decidable cn] :
    (mudmDest32 a b c d e (if cn then mudmIsCn else mudmIsIonode)).toNat =
      (if cn then 0 else 2 ^ 31) + (muNodeAddr a b c d e).toNat := by
  have hlt := muNodeAddr_lt a b c d e
  change (muNodeAddr a b c d e ||| _).toNat = _
  by_cases hcn : cn
  · have hword : mudmIsCn.toNat = 0 := rfl
    rw [if_pos hcn, if_pos hcn, UInt32.toNat_or, hword, Nat.or_zero, Nat.zero_add]
  · have hword : mudmIsIonode.toNat = 1 * 2 ^ 31 := rfl
    rw [if_neg hcn, if_neg hcn, UInt32.toNat_or, hword, Nat.or_comm, or_eq_add (by omega), Nat.one_mul]

theorem muhwiDestination_mudmDest32 (a b c d e : UInt32) (cn : Prop) [Decidable cn] :
    muhwiDestination (mudmDest32 a b c d e (if cn then mudmIsCn else mudmIsIonode)) =
      muhwiDestination (muNodeAddr a b c d e) := by
  have hlt := muNodeAddr_lt a b c d e
  unfold muhwiDestination
  rw [mudmDest32_toNat, TorusCoords.mk.injEq]
  by_cases hcn : cn
  · rw [if_pos hcn, Nat.zero_add]
    exact ⟨rfl, rfl, rfl, rfl, rfl⟩
  · rw [if_neg hcn]
    refine ⟨?_, ?_, ?_, ?_, ?_⟩ <;> omega

theorem eq_of_muhwiDestination {w w' : UInt32} (hw : w.toNat < 2 ^ 30) (hw' : w'.toNat < 2 ^ 30)
    (h : muhwiDestination w = muhwiDestination w') : w = w' := by
  unfold muhwiDestination at h
  rw [TorusCoords.mk.injEq] at h
  obtain ⟨ha, hb, hc, hd, he⟩ := h
  exact UInt32.toNat_inj.mp (by omega)

end Words

section Octets

theorem toNat_octet (hi lo : BitVec 4) : (UInt8.ofBitVec (hi ++ lo)).toNat = hi.toNat * 2 ^ 4 + lo.toNat := by
  rw [UInt8.toNat_ofBitVec, BitVec.toNat_append, Nat.shiftLeft_eq, or_eq_add lo.isLt]

theorem toNat_kind (nn pp : BitVec 2) : (nn ++ pp).toNat = nn.toNat * 2 ^ 2 + pp.toNat := by
  rw [BitVec.toNat_append, Nat.shiftLeft_eq, or_eq_add pp.isLt]

theorem toNat_upper (x : UInt8) : (x >>> 4).toUInt32.toNat = x.toNat / 2 ^ 4 := by
  rw [UInt8.toNat_toUInt32, UInt8.toNat_shiftRight]
  exact Nat.shiftRight_eq_div_pow x.toNat 4

theorem toNat_lower (x : UInt8) : (x &&& 0xf).toUInt32.toNat = x.toNat % 2 ^ 4 := by
  rw [UInt8.toNat_toUInt32, UInt8.toNat_and]
  exact Nat.and_two_pow_sub_one_eq_mod x.toNat 4

theorem toNat_lower5 (x : UInt8) : (x &&& 0x1f).toUInt32.toNat = x.toNat % 2 ^ 5 := by
  rw [UInt8.toNat_toUInt32, UInt8.toNat_and]
  exact Nat.and_two_pow_sub_one_eq_mod x.toNat 5

end Octets

variable (nn pp : BitVec 2) (a b c d e : BitVec 4)

theorem connectDestNode_coords :
    muhwiDestination (connectDestNode (.ofTorus nn pp a b c d e)) = .ofFields a b c d e := by
  have h1 := toNat_octet (nn ++ pp) a
  have h2 := toNat_octet b c
  have h3 := toNat_octet d e
  unfold connectDestNode
  rw [muhwiDestination_mudmDest32, muhwiDestination_muNodeAddr, toNat_lower, toNat_upper, toNat_lower,
    toNat_upper, toNat_lower]
  unfold IpAddress.ofTorus TorusCoords.ofFields
  rw [TorusCoords.mk.injEq]
  dsimp only
  rw [h1, h2, h3]
  have ha := a.isLt
  have hb := b.isLt
  have hc := c.isLt
  have hd := d.isLt
  have he := e.isLt
  refine ⟨?_, ?_, ?_, ?_, ?_⟩ <;> omega

theorem kind_eq_cn_iff : ∀ (nn pp : BitVec 2) (a : BitVec 4),
    UInt8.ofBitVec (nn ++ pp ++ a) &&& 0xc0 = 0x80 ↔ nn = 2#2 := by
  decide

/-- A word without an indicator is the one that a connection uses exactly if it goes to the same coordinates and
they are those of a compute node. -/
theorem eq_connectDestNode_iff {w : UInt32} (hw : w.toNat < 2 ^ 30) :
    w = connectDestNode (.ofTorus nn pp a b c d e) ↔
      muhwiDestination w = .ofFields a b c d e ∧ nn = 2#2 := by
  have hcoords := connectDestNode_coords nn pp a b c d e
  have hword : (connectDestNode (.ofTorus nn pp a b c d e)).toNat = _ := mudmDest32_toNat _ _ _ _ _ _
  constructor
  · intro hw'
    refine ⟨by rw [hw', hcoords], ?_⟩
    by_contra hnn
    have hion : ¬(IpAddress.ofTorus nn pp a b c d e).octet1 &&& 0xc0 = 0x80 :=
      fun h => hnn ((kind_eq_cn_iff nn pp a).mp h)
    rw [← hw', if_neg hion] at hword
    omega
  · rintro ⟨hsame, hnn⟩
    have hcn : (IpAddress.ofTorus nn pp a b c d e).octet1 &&& 0xc0 = 0x80 :=
      (kind_eq_cn_iff nn pp a).mpr hnn
    rw [if_pos hcn, Nat.zero_add] at hword
    exact eq_of_muhwiDestination hw (hword.trans_lt (muNodeAddr_lt _ _ _ _ _)) (hsame.trans hcoords.symm)

end BgqVrnic
