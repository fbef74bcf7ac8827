import BgqVrnic.SendCalls
import BgqVrnic.TorusAddress

namespace BgqVrnic

def ethAlen : Int32 := 6

def ethHlen : UInt32 := 14

def ethPIp : UInt16 := 0x0800

def ethPIpv6 : UInt16 := 0x86DD

/-- The processor is big-endian. -/
def htons (x : UInt16) : UInt16 := x

def memcpy (dst src : List UInt8) (n : Nat) : List UInt8 := src.take n ++ dst.drop n

structure EthHdr where
  hDest : List UInt8
  hSource : List UInt8
  hProto : UInt16
  deriving DecidableEq, Repr, Inhabited

/-- What this file reads and writes of a `struct sk_buff`: `daddr` of its IP header, and the Ethernet header that
lies in front of it. -/
structure SkBuff where
  len : UInt32
  dataLen : UInt32
  nrFrags : Nat
  protocol : UInt16
  daddr : IpAddress
  eth : EthHdr
  deriving DecidableEq, Repr, Inhabited

structure NetDevice where
  devAddr : List UInt8
  addrLen : Nat
  hardHeaderLen : UInt16
  mtu : UInt32
  txBytes : UInt64
  txPackets : UInt64
  deriving DecidableEq, Repr, Inhabited

def skbPush (skb : SkBuff) (n : UInt32) : SkBuff := { skb with len := skb.len + n }

/-- The MAC address that `bgvrnic_create` makes from an IP address. -/
def macOfIp (octet : IpAddress) : List UInt8 :=
  [if octet.octet1 &&& 0x40 ≠ 0 then 0x66 else 0x42, octet.octet1 &&& 0xf, octet.octet2 >>> 4,
    octet.octet2 &&& 0xf, octet.octet3 >>> 4, octet.octet3 &&& 0xf]

/-- `bgvrnic_create` -/
def bgvrnicCreate (skb : SkBuff) (netDev : NetDevice) (type : UInt16) (daddr : Option (List UInt8)) :
    UInt16 × SkBuff :=
  let skb := skbPush skb ethHlen
  let hDest :=
    if type = ethPIp then macOfIp skb.daddr
    else memcpy skb.eth.hDest (daddr.getD netDev.devAddr) netDev.addrLen
  (netDev.hardHeaderLen,
    { skb with
      eth := ⟨hDest, memcpy skb.eth.hSource netDev.devAddr netDev.addrLen, htons type⟩ })

/-- What `bgvrnic_hard_start_xmit` passes to `mudm_send_msg`, which takes the length as a `uint16_t`. -/
structure XmitMsg where
  torusAddr : UInt32
  payloadLength : UInt16
  deriving DecidableEq, Repr

def SkBuff.frameLen (skb : SkBuff) : UInt32 := skb.len - skb.dataLen

def SkBuff.msg (skb : SkBuff) : XmitMsg :=
  let octets := skb.daddr
  ⟨muNodeAddr (octets.octet1 &&& 0x1f).toUInt32 (octets.octet2 >>> 4).toUInt32 (octets.octet2 &&& 0x1f).toUInt32
    (octets.octet3 >>> 4).toUInt32 (octets.octet3 &&& 0x1f).toUInt32, skb.frameLen.toUInt16⟩

inductive NetdevTx
  | ok | busy
  deriving DecidableEq, Repr

/-- Where a transmission is: it has run into a `BUG_ON`, it waits for its packet, or it is over. -/
inductive XmitPhase
  | bug
  | sending (msg : XmitMsg)
  | done (rc : NetdevTx) (msg : Option XmitMsg) (netDev : NetDevice)
  deriving DecidableEq, Repr

/-- `bgvrnic_hard_start_xmit`, in which `mudm_send_msg` looks so many times whether its packet has gone out. -/
def bgvrnicHardStartXmit (env : Link → InjEnv) (turns : Nat) (skb : SkBuff) (netDev : NetDevice) : XmitPhase :=
  let counted (netDev : NetDevice) : NetDevice := { netDev with txPackets := netDev.txPackets + 1 }
  if skb.nrFrags ≠ 0 then .bug
  else if 512 < skb.frameLen then .bug
  else if skb.protocol = htons ethPIp then
    match mudmSendMsg env .noIoLink skb.msg.payloadLength.toNat turns with
    | .returned rc =>
      if rc = -EBUSY then .done .busy skb.msg (counted netDev)
      else if rc ≠ 0 then .done .ok skb.msg netDev
      else .done .ok skb.msg (counted { netDev with txBytes := netDev.txBytes + skb.len.toUInt64 })
    | _ => .sending skb.msg
  else if skb.protocol = htons ethPIpv6 then .done .ok none netDev
  else .done .ok none (counted netDev)

/-- `bgvrnic_change_mtu` -/
def bgvrnicChangeMtu (netDev : NetDevice) (newMTU : Int32) : Int × NetDevice :=
  let maxFrameLen := newMTU + ethAlen
  if 512 < maxFrameLen then (-EINVAL, netDev) else (0, { netDev with mtu := newMTU.toUInt32 })

section Coordinates

/-- The coordinates in a MAC address that `bgvrnic_create` has made. -/
def macCoords (mac : List UInt8) : TorusCoords :=
  ⟨(mac.getD 1 0).toNat, (mac.getD 2 0).toNat, (mac.getD 3 0).toNat, (mac.getD 4 0).toNat, (mac.getD 5 0).toNat⟩

/-- The frame that a packet becomes when it goes to the given address. -/
def SkBuff.ipFrame (skb : SkBuff) (netDev : NetDevice) (daddr : Option (List UInt8)) (ip : IpAddress) : SkBuff :=
  (bgvrnicCreate { skb with daddr := ip } netDev ethPIp daddr).2

/-- The frame, its MAC address and a connection to the same IP address go to the node with these coordinates. -/
structure SameCoords (ip : IpAddress) (frame : SkBuff) (coords : TorusCoords) : Prop where
  xmit : muhwiDestination frame.msg.torusAddr = coords
  mac : macCoords frame.eth.hDest = coords
  connect : muhwiDestination (connectDestNode ip) = coords

variable (nn pp : BitVec 2) (a b c d e : BitVec 4) (skb : SkBuff) (netDev : NetDevice)
  (daddr : Option (List UInt8))

theorem ipFrame_macCoords :
    macCoords (skb.ipFrame netDev daddr (.ofTorus nn pp a b c d e)).eth.hDest = .ofFields a b c d e := by
  have h1 := toNat_octet (nn ++ pp) a
  have h2 := toNat_octet b c
  have h3 := toNat_octet d e
  change macCoords (macOfIp (.ofTorus nn pp a b c d e)) = _
  unfold macCoords macOfIp TorusCoords.ofFields
  rw [TorusCoords.mk.injEq]
  have ha := a.isLt
  have hb := b.isLt
  have hc := c.isLt
  have hd := d.isLt
  have he := e.isLt
  refine ⟨(toNat_lower _).trans ?_, (toNat_upper _).trans ?_, (toNat_lower _).trans ?_,
    (toNat_upper _).trans ?_, (toNat_lower _).trans ?_⟩
  · change (UInt8.ofBitVec (nn ++ pp ++ a)).toNat % 2 ^ 4 = a.toNat
    omega
  · change (UInt8.ofBitVec (b ++ c)).toNat / 2 ^ 4 = b.toNat
    omega
  · change (UInt8.ofBitVec (b ++ c)).toNat % 2 ^ 4 = c.toNat
    omega
  · change (UInt8.ofBitVec (d ++ e)).toNat / 2 ^ 4 = d.toNat
    omega
  · change (UInt8.ofBitVec (d ++ e)).toNat % 2 ^ 4 = e.toNat
    omega

/-- The mask of five bits lets the lowest bit of the neighbour through. -/
theorem ipFrame_msg_coords :
    muhwiDestination (skb.ipFrame netDev daddr (.ofTorus nn pp a b c d e)).msg.torusAddr =
      ⟨pp.toNat % 2 * 2 ^ 4 + a.toNat, b.toNat, b.toNat % 2 * 2 ^ 4 + c.toNat, d.toNat,
        d.toNat % 2 * 2 ^ 4 + e.toNat⟩ := by
  have h1 := toNat_octet (nn ++ pp) a
  have h2 := toNat_octet b c
  have h3 := toNat_octet d e
  have hkind := toNat_kind nn pp
  change muhwiDestination (muNodeAddr _ _ _ _ _) = _
  rw [muhwiDestination_muNodeAddr, toNat_lower5, toNat_upper, toNat_lower5, toNat_upper, toNat_lower5]
  change TorusCoords.mk ((UInt8.ofBitVec (nn ++ pp ++ a)).toNat % 2 ^ 5 % 2 ^ 6)
    ((UInt8.ofBitVec (b ++ c)).toNat / 2 ^ 4 % 2 ^ 6) ((UInt8.ofBitVec (b ++ c)).toNat % 2 ^ 5 % 2 ^ 6)
    ((UInt8.ofBitVec (d ++ e)).toNat / 2 ^ 4 % 2 ^ 6) ((UInt8.ofBitVec (d ++ e)).toNat % 2 ^ 5 % 2 ^ 6) = _
  rw [h1, h2, h3, hkind, TorusCoords.mk.injEq]
  have ha := a.isLt
  have hb := b.isLt
  have hc := c.isLt
  have hd := d.isLt
  have he := e.isLt
  refine ⟨?_, ?_, ?_, ?_, ?_⟩ <;> omega

theorem lowestBit_eq_false_iff {w : Nat} (x : BitVec w) : x.getLsbD 0 = false ↔ x.toNat % 2 = 0 := by
  rw [BitVec.getLsbD, Nat.testBit_zero, decide_eq_false_iff_not]
  omega

theorem ipFrame_msg_coords_iff :
    muhwiDestination (skb.ipFrame netDev daddr (.ofTorus nn pp a b c d e)).msg.torusAddr =
        .ofFields a b c d e ↔
      pp.getLsbD 0 = false ∧ b.getLsbD 0 = false ∧ d.getLsbD 0 = false := by
  unfold TorusCoords.ofFields
  rw [ipFrame_msg_coords, TorusCoords.mk.injEq, lowestBit_eq_false_iff, lowestBit_eq_false_iff,
    lowestBit_eq_false_iff]
  omega

/-- The frame goes to the coordinates that the IP address has if the lowest bits of `pp`, `bbbb` and `dddd` are zero,
and only then. The whole words are the same if the node is a compute node besides. -/
theorem sameCoords_iff :
    (SameCoords (.ofTorus nn pp a b c d e) (skb.ipFrame netDev daddr (.ofTorus nn pp a b c d e))
        (.ofFields a b c d e) ↔
      pp.getLsbD 0 = false ∧ b.getLsbD 0 = false ∧ d.getLsbD 0 = false) ∧
      ((skb.ipFrame netDev daddr (.ofTorus nn pp a b c d e)).msg.torusAddr =
          connectDestNode (.ofTorus nn pp a b c d e) ↔
        (pp.getLsbD 0 = false ∧ b.getLsbD 0 = false ∧ d.getLsbD 0 = false) ∧ nn = 2#2) := by
  have hxmit := ipFrame_msg_coords_iff nn pp a b c d e skb netDev daddr
  refine ⟨⟨fun hsame => hxmit.mp hsame.xmit, fun hbits => ⟨hxmit.mpr hbits, ?_, ?_⟩⟩, ?_⟩
  · exact ipFrame_macCoords nn pp a b c d e skb netDev daddr
  · exact connectDestNode_coords nn pp a b c d e
  · rw [← hxmit]
    exact eq_connectDestNode_iff nn pp a b c d e (muNodeAddr_lt _ _ _ _ _)

/-- A frame to `10.128.18.0` goes to the node whose coordinate `C` is 18, not to the one where it is 2. -/
theorem sharedBit_other_node :
    (default : SkBuff).ipFrame default none ⟨10, 128, 18, 0⟩ =
        (default : SkBuff).ipFrame default none (.ofTorus 2#2 0#2 0#4 1#4 2#4 0#4 0#4) ∧
      muhwiDestination ((default : SkBuff).ipFrame default none ⟨10, 128, 18, 0⟩).msg.torusAddr =
        ⟨0, 1, 18, 0, 0⟩ ∧
      muhwiDestination (connectDestNode ⟨10, 128, 18, 0⟩) = ⟨0, 1, 2, 0, 0⟩ ∧
      macCoords ((default : SkBuff).ipFrame default none ⟨10, 128, 18, 0⟩).eth.hDest = ⟨0, 1, 2, 0, 0⟩ := by
  decide

end Coordinates

section FrameLength

variable {env : Link → InjEnv} {turns : Nat} {skb : SkBuff} {netDev netDev' : NetDevice} {newMTU : Int32}

/-- An injection FIFO on which nothing goes out. -/
def idleEnv : InjEnv :=
  ⟨false, fun _ => false, fun _ => 0, fun _ => ⟨fun _ => none, 0, 0, 0, 0, 0, 0, 0, 0, false⟩, fun _ => 0⟩

/-- Neither the `BUG_ON`s nor `mudm_send_msg` stop the frame. -/
def SkBuff.Sendable (skb : SkBuff) (netDev : NetDevice) : Prop :=
  ∀ env turns, bgvrnicHardStartXmit env turns skb netDev ≠ .bug ∧
    mudmSendMsg env .noIoLink skb.msg.payloadLength.toNat turns ≠ .returned (-EINVAL)

theorem waitComplete_ne (env : InjEnv) (desc turns look : Nat) {rc : Int} (h : rc ≠ 0) :
    waitComplete env desc turns look ≠ .returned rc := by
  induction turns generalizing look with
  | zero => exact CallPhase.noConfusion
  | succ turns ih =>
    rw [waitComplete]
    split
    · exact fun hrc => h (CallPhase.returned.inj hrc).symm
    · exact ih (look + 1)

/-- A frame in one piece can be sent exactly if it has at most 512 bytes. -/
theorem sendable_iff (h : skb.nrFrags = 0) : skb.Sendable netDev ↔ skb.frameLen.toNat ≤ 512 := by
  have hfrags : ¬skb.nrFrags ≠ 0 := fun hne => hne h
  have hlimit : 512 < skb.frameLen ↔ 512 < skb.frameLen.toNat := UInt32.lt_iff_toNat_lt
  constructor
  · intro hsend
    by_contra hlong
    have hbug : bgvrnicHardStartXmit (fun _ => idleEnv) 0 skb netDev = .bug := by
      unfold bgvrnicHardStartXmit
      rw [if_neg hfrags, if_pos (hlimit.mpr (by omega))]
    exact (hsend (fun _ => idleEnv) 0).1 hbug
  · intro hshort env turns
    have hlength : skb.msg.payloadLength.toNat = skb.frameLen.toNat := by
      change skb.frameLen.toNat % 2 ^ 16 = _
      omega
    refine ⟨?_, ?_⟩
    · unfold bgvrnicHardStartXmit
      rw [if_neg hfrags, if_neg (fun hlong => absurd (hlimit.mp hlong) (by omega))]
      repeat' split
      all_goals exact XmitPhase.noConfusion
    · have hle : ¬torusMaxPayloadSize < skb.msg.payloadLength.toNat := by
        rw [hlength]
        exact Nat.not_lt.mpr hshort
      rw [mudmSendMsg, if_neg hle]
      exact waitComplete_ne _ _ _ _ (by decide)

/-- The packet and the header in front of it, 14 bytes. -/
theorem create_frameLen {type : UInt16} {daddr : Option (List UInt8)} (h : skb.dataLen = 0)
    (hlen : skb.len.toNat + 14 < 2 ^ 32) :
    (bgvrnicCreate skb netDev type daddr).2.frameLen.toNat = skb.len.toNat + 14 := by
  have hhlen : ethHlen.toNat = 14 := rfl
  change (skb.len + ethHlen - skb.dataLen).toNat = _
  rw [h, UInt32.sub_zero, UInt32.toNat_add, hhlen]
  omega

/-- The check adds the length of an address, 6 bytes, where the frame gets a header of 14. -/
theorem changeMtu_accepts_iff :
    (bgvrnicChangeMtu netDev newMTU).1 = 0 ↔ newMTU.toInt ≤ 506 ∨ 2 ^ 31 - 6 ≤ newMTU.toInt := by
  have hlo := newMTU.le_toInt
  have hhi := newMTU.toInt_lt
  have hlimit : 512 < newMTU + ethAlen ↔ 506 < newMTU.toInt ∧ newMTU.toInt < 2 ^ 31 - 6 := by
    have hbmod : 512 < newMTU + ethAlen ↔ 512 < (newMTU.toInt + 6).bmod (2 ^ 32) := by
      rw [Int32.lt_iff_toInt_lt, Int32.toInt_add]
      rfl
    rw [hbmod]
    by_cases hsmall : newMTU.toInt + 6 < 2 ^ 31
    · rw [Int.bmod_eq_of_le (by omega) (by omega)]
      omega
    · rw [← Int.sub_bmod_right, Int.bmod_eq_of_le (by omega) (by omega)]
      omega
  unfold bgvrnicChangeMtu
  dsimp only
  split
  next hlong =>
    have hbound := hlimit.mp hlong
    refine ⟨fun h => absurd h (show (-EINVAL : Int) ≠ 0 by decide), fun h => ?_⟩
    omega
  next hshort =>
    have hbound : ¬(506 < newMTU.toInt ∧ newMTU.toInt < 2 ^ 31 - 6) := fun h => hshort (hlimit.mpr h)
    refine ⟨fun _ => ?_, fun _ => rfl⟩
    omega

/-- An MTU of up to 506 is accepted, or one with which the sum overflows. The packets of a device can all be sent
exactly if its new MTU leaves room for the header. -/
theorem changeMtu_sendable_iff (netDev : NetDevice) (newMTU : Int32) :
    ((bgvrnicChangeMtu netDev newMTU).1 = 0 ↔ newMTU.toInt ≤ 506 ∨ 2 ^ 31 - 6 ≤ newMTU.toInt) ∧
      ((∀ (skb : SkBuff) (daddr : Option (List UInt8)), skb.nrFrags = 0 → skb.dataLen = 0 →
          (skb.len.toNat : Int) ≤ newMTU.toInt →
            (bgvrnicCreate skb (bgvrnicChangeMtu netDev newMTU).2 ethPIp daddr).2.Sendable
              (bgvrnicChangeMtu netDev newMTU).2) ↔
        newMTU.toInt ≤ 498) := by
  refine ⟨changeMtu_accepts_iff, fun hall => ?_, fun hmtu skb daddr hfrags hdata hlen => ?_⟩
  · by_contra hlong
    have hsend := hall { (default : SkBuff) with len := 499 } none rfl rfl (by
      have hlen : ((499 : UInt32).toNat : Int) = 499 := rfl
      change ((499 : UInt32).toNat : Int) ≤ _
      omega)
    have hlength := (sendable_iff rfl).mp hsend
    rw [create_frameLen rfl (by decide)] at hlength
    exact absurd hlength (by decide)
  · have hlength : (bgvrnicCreate skb (bgvrnicChangeMtu netDev newMTU).2 ethPIp daddr).2.frameLen.toNat =
        skb.len.toNat + 14 := create_frameLen hdata (by omega)
    have hframe : (bgvrnicCreate skb (bgvrnicChangeMtu netDev newMTU).2 ethPIp daddr).2.nrFrags = 0 := hfrags
    rw [sendable_iff hframe, hlength]
    omega

/-- An MTU of 500 is accepted, and a packet of 500 bytes runs into the `BUG_ON`. -/
theorem mtu500_bug :
    bgvrnicChangeMtu default 500 = (0, { (default : NetDevice) with mtu := 500 }) ∧
      ∀ env turns, bgvrnicHardStartXmit env turns
        (bgvrnicCreate { (default : SkBuff) with len := 500, protocol := htons ethPIp }
          { (default : NetDevice) with mtu := 500 } ethPIp none).2
        { (default : NetDevice) with mtu := 500 } = .bug :=
  ⟨rfl, fun _ _ => rfl⟩

end FrameLength

end BgqVrnic
