import BgqVrnic.BitFields
import BgqVrnic.ConnTypes
import BgqVrnic.MudmFormats

namespace BgqVrnic

open BitFields Prints

/-- `popcnt64` -/
def popcnt64 (v : Nat) : Nat := ones 64 v

/-- `MUHWI_COLLECTIVE_TYPE_ALLREDUCE` -/
def collectiveTypeAllreduce : Nat := 0x10

/-- `MUHWI_COLLECTIVE_TYPE_REDUCE` -/
def collectiveTypeReduce : Nat := 0x18

/-- The header of a collective packet to a memory FIFO: `MUHWI_CollectiveNetworkHeader_t`, the fields of the
message unit header, and over its put offset `struct broadcast_pkt_header`. -/
structure CollectiveHeader where
  dataPacketType : Nat
  byte1 : Nat
  classRoute : Nat
  reserved1 : Nat
  interrupt : Nat
  byte3 : Nat
  destination : Nat
  bytes8to11 : Nat
  muReserved : Nat
  recFifoId : Nat
  putOffsetMsb : Nat
  sequenceNumber : Nat
  torusSourceNode : Nat
  bReserved1 : Nat
  payloadLength : Nat
  type : Nat
  bReserved2 : Nat
  deriving DecidableEq, Repr

namespace CollectiveHeader

/-- The 32 bytes of a header. -/
def row (h : CollectiveHeader) : Row :=
  [(8, h.dataPacketType), (8, h.byte1), (4, h.classRoute), (3, h.reserved1), (1, h.interrupt), (8, h.byte3),
    (32, h.destination), (32, h.bytes8to11), (1, h.muReserved), (9, h.recFifoId), (6, h.putOffsetMsb),
    (16, h.sequenceNumber), (32, h.torusSourceNode), (32, h.bReserved1), (16, h.payloadLength), (16, h.type),
    (32, h.bReserved2)]

/-- What `INJ_REDUCE_BCAST` logs: the header in four words. -/
def logged (h : CollectiveHeader) (timestamp hwthread id : Nat) : FlightEntry :=
  { timestamp := timestamp
    hwthread := hwthread
    id := id
    data0 := pack h.row / 2 ^ 192
    data1 := pack h.row / 2 ^ 128 % 2 ^ 64
    data2 := pack h.row / 2 ^ 64 % 2 ^ 64
    data3 := pack h.row % 2 ^ 64 }

end CollectiveHeader

/-- What `mudm_bcast_reduce` is called with, apart from the payload. -/
structure ReduceCall where
  type : Nat
  opCode : Nat
  payloadLength : Nat
  dest : Nat
  classRoute : Nat
  reduceChoice : Nat
  deriving DecidableEq, Repr

/-- What `InjFifoInjectReduce` makes of the template, with the number of packets sent so far. -/
def injFifoInjectReduce (template : CollectiveHeader) (c : ReduceCall) (sendCount : Nat) : CollectiveHeader :=
  let numNonZeroBits := popcnt64 (c.payloadLength - 1)
  { template with
    destination := c.dest
    byte3 := (template.byte3 &&& 0xe7) ||| c.reduceChoice
    byte1 := ((numNonZeroBits + 2 ^ 32 - 2) % 2 ^ 32 &&& 0x7) ||| c.opCode
    payloadLength := c.payloadLength
    type := c.type
    sequenceNumber := sendCount % 2 ^ 16
    classRoute := c.classRoute % 2 ^ 4 }

/-- `mudm_bcast_reduce`, with the header that it injects, if any, and the number of packets sent. -/
def mudmBcastReduce (template : CollectiveHeader) (c : ReduceCall) (sendCount : Nat) :
    Int × Option CollectiveHeader × Nat :=
  if 1 < popcnt64 c.payloadLength then (-EINVAL, none, sendCount)
  else if c.payloadLength < 4 then (-EINVAL, none, sendCount)
  else if c.reduceChoice = collectiveTypeAllreduce ∨ c.reduceChoice = collectiveTypeReduce then
    (0, some (injFifoInjectReduce template c sendCount), (sendCount + 1) % 2 ^ 64)
  else (-EINVAL, none, sendCount)

/-- The fields of the call have the types of the source, and the operation is one of the sixteen codes. -/
structure ReduceCall.Typed (c : ReduceCall) (op : Nat) : Prop where
  type : c.type < 2 ^ 16
  payloadLength : c.payloadLength < 2 ^ 16
  dest : c.dest < 2 ^ 32
  code : op < 16
  opCode : c.opCode = 16 * op

variable {template h : CollectiveHeader} {c : ReduceCall}
  {sendCount sendCount' op k timestamp hwthread id : Nat} {rc : Int}

theorem popcnt64_pred (hk : k ≤ 64) : popcnt64 (2 ^ k - 1) = k := ones_pred_two_pow hk

/-- The lengths that are taken: one bit is on, and not one of the lowest two. -/
theorem reduce_length_iff (hlen : c.payloadLength < 2 ^ 16) :
    popcnt64 c.payloadLength ≤ 1 ∧ 4 ≤ c.payloadLength ↔ ∃ k, 2 ≤ k ∧ k < 16 ∧ c.payloadLength = 2 ^ k := by
  have hlen64 : c.payloadLength < 2 ^ 64 := by omega
  rw [popcnt64, ones_le_one_iff hlen64]
  constructor
  · rintro ⟨hzero | ⟨k, -, hk⟩, hge⟩
    · omega
    · refine ⟨k, ?_, ?_, hk⟩
      · by_contra hlt
        have hle : 2 ^ k ≤ 2 ^ 1 := Nat.pow_le_pow_right (by omega) (by omega)
        omega
      · by_contra hge
        have hle : 2 ^ 16 ≤ 2 ^ k := Nat.pow_le_pow_right (by omega) (by omega)
        omega
  · rintro ⟨k, hlow, hhigh, hk⟩
    refine ⟨.inr ⟨k, by omega, hk⟩, ?_⟩
    have hle : 2 ^ 2 ≤ 2 ^ k := Nat.pow_le_pow_right (by omega) hlow
    omega

theorem reduce_length_ne (hlen : c.payloadLength < 2 ^ 16) (h : ¬(popcnt64 c.payloadLength ≤ 1 ∧ 4 ≤ c.payloadLength))
    (hk : 2 ≤ k) : c.payloadLength ≠ 2 ^ k := by
  intro heq
  have hlt : k < 16 := by
    rw [heq] at hlen
    exact (Nat.pow_lt_pow_iff_right (by omega)).mp hlen
  exact h ((reduce_length_iff hlen).mpr ⟨k, hk, hlt, heq⟩)

theorem mudmBcastReduce_cases (hlen : c.payloadLength < 2 ^ 16) :
    ((∃ k, 2 ≤ k ∧ k < 16 ∧ c.payloadLength = 2 ^ k) ∧
        (c.reduceChoice = collectiveTypeAllreduce ∨ c.reduceChoice = collectiveTypeReduce) ∧
        mudmBcastReduce template c sendCount =
          (0, some (injFifoInjectReduce template c sendCount), (sendCount + 1) % 2 ^ 64)) ∨
      ((∀ k, 2 ≤ k → c.payloadLength ≠ 2 ^ k) ∨
          c.reduceChoice ≠ collectiveTypeAllreduce ∧ c.reduceChoice ≠ collectiveTypeReduce) ∧
        mudmBcastReduce template c sendCount = (-EINVAL, none, sendCount) := by
  unfold mudmBcastReduce
  split
  next hones => exact .inr ⟨.inl fun k hk => reduce_length_ne hlen (by omega) hk, rfl⟩
  next hones =>
    split
    next hlow => exact .inr ⟨.inl fun k hk => reduce_length_ne hlen (by omega) hk, rfl⟩
    next hlow =>
      split
      next hchoice => exact .inl ⟨(reduce_length_iff hlen).mp ⟨by omega, by omega⟩, hchoice, rfl⟩
      next hchoice => exact .inr ⟨.inr (not_or.mp hchoice), rfl⟩

/-- The exponent that goes out with a length. -/
theorem byte1_eq (hlow : 2 ≤ k) (hhigh : k < 16) (hlen : c.payloadLength = 2 ^ k) (hc : c.Typed op) :
    (injFifoInjectReduce template c sendCount).byte1 = 16 * op + (k - 2) % 8 := by
  have hones : popcnt64 (c.payloadLength - 1) = k := by
    rw [hlen]
    exact popcnt64_pred (by omega)
  have hword : (k + 2 ^ 32 - 2) % 2 ^ 32 = k - 2 := by omega
  have hbyte : ∀ e < 8, ∀ o < 16, e ||| 16 * o = 16 * o + e := by decide
  have hmask : ∀ e, e &&& 0x7 = e % 8 := fun e => Nat.and_two_pow_sub_one_eq_mod e 3
  change ((popcnt64 (c.payloadLength - 1) + 2 ^ 32 - 2) % 2 ^ 32 &&& 0x7) ||| c.opCode = _
  rw [hones, hword, hmask, hc.opCode]
  exact hbyte _ (Nat.mod_lt _ (by omega)) op hc.code

theorem byte3_parts (byte : Nat) (hbyte : byte < 256) {choice : Nat}
    (hchoice : choice = collectiveTypeAllreduce ∨ choice = collectiveTypeReduce) :
    ((byte &&& 0xe7) ||| choice) < 256 ∧ ((byte &&& 0xe7) ||| choice) / 32 = byte / 32 ∧
      ((byte &&& 0xe7) ||| choice) / 8 % 4 = choice / 8 := by
  have hall : ∀ byte < 256, ∀ choice ∈ [0x10, 0x18], ((byte &&& 0xe7) ||| choice) < 256 ∧
      ((byte &&& 0xe7) ||| choice) / 32 = byte / 32 ∧ ((byte &&& 0xe7) ||| choice) / 8 % 4 = choice / 8 := by
    decide +kernel
  refine hall byte hbyte choice ?_
  rcases hchoice with rfl | rfl
  · exact List.mem_cons_self
  · exact List.mem_cons_of_mem _ List.mem_cons_self

namespace CollectiveHeader

theorem row_width (h : CollectiveHeader) : width h.row = 256 := by
  simp only [row, width]

theorem logged_value :
    (((h.logged timestamp hwthread id).data0 * 2 ^ 64 + (h.logged timestamp hwthread id).data1) * 2 ^ 64 +
      (h.logged timestamp hwthread id).data2) * 2 ^ 64 + (h.logged timestamp hwthread id).data3 = pack h.row := by
  simp only [logged]
  generalize pack h.row = n
  omega

/-- What the log holds of part of a field: it has `a` bits in front of it in the field and `c` behind. -/
theorem bits_logged {f : Nat × Nat} (hfits : Fits h.row) (i a w c first : Nat) (hrow : h.row[i]? = some f)
    (hf : f.1 = a + w + c) (hfirst : first = width (h.row.take i) + a) :
    (h.logged timestamp hwthread id).bits first w = f.2 / 2 ^ c % 2 ^ w := by
  obtain ⟨hi, hget⟩ := List.getElem?_eq_some_iff.mp hrow
  have hsplit : h.row = h.row.take i ++ f :: h.row.drop (i + 1) := by
    rw [← hget, List.getElem_cons_drop, List.take_append_drop]
  have hwidth : width (h.row.take i) + (f.1 + width (h.row.drop (i + 1))) = 256 := by
    rw [← h.row_width, ← width.eq_2, ← width_append, ← hsplit]
  have hshift : 256 - first - w = width (h.row.drop (i + 1)) + c := by omega
  rw [FlightEntry.bits, logged_value, hshift]
  rw [hsplit] at hfits
  have hpart := pack_part hfits hf
  rwa [← hsplit] at hpart

theorem field_logged {f : Nat × Nat} (hfits : Fits h.row) (i first : Nat) (hrow : h.row[i]? = some f)
    (hfirst : first = width (h.row.take i)) : (h.logged timestamp hwthread id).bits first f.1 = f.2 := by
  have hbits : (h.logged timestamp hwthread id).bits first f.1 = f.2 / 2 ^ 0 % 2 ^ f.1 :=
    bits_logged hfits i 0 f.1 0 first hrow (Nat.zero_add _).symm hfirst
  have hf : f.2 < 2 ^ f.1 := hfits f (List.mem_of_getElem? hrow)
  rw [hbits, Nat.pow_zero, Nat.div_one, Nat.mod_eq_of_lt hf]

end CollectiveHeader

theorem injected_fits (ht : Fits template.row) (hc : c.Typed op) (hlow : 2 ≤ k) (hhigh : k < 16)
    (hlen : c.payloadLength = 2 ^ k)
    (hchoice : c.reduceChoice = collectiveTypeAllreduce ∨ c.reduceChoice = collectiveTypeReduce) :
    Fits (injFifoInjectReduce template c sendCount).row := by
  have hbyte1 : (injFifoInjectReduce template c sendCount).byte1 = 16 * op + (k - 2) % 8 :=
    byte1_eq hlow hhigh hlen hc
  have hcode := hc.code
  simp only [CollectiveHeader.row, fits_cons] at ht ⊢
  obtain ⟨hdataPacketType, -, -, hreserved1, hinterrupt, hbyte3, -, hbytes8to11, hmuReserved, hrecFifoId,
    hputOffsetMsb, -, htorusSourceNode, hbReserved1, -, -, hrest⟩ := ht
  refine ⟨hdataPacketType, ?_, Nat.mod_lt _ (by omega), hreserved1, hinterrupt,
    (byte3_parts template.byte3 hbyte3 hchoice).1, hc.dest, hbytes8to11, hmuReserved, hrecFifoId, hputOffsetMsb,
    Nat.mod_lt _ (by omega), htorusSourceNode, hbReserved1, hc.payloadLength, hc.type, hrest⟩
  rw [hbyte1]
  omega

/-- The length of a word that the exponent in the header stands for. -/
def ReduceCall.wordLength (c : ReduceCall) : Nat :=
  if c.payloadLength ≤ 512 then c.payloadLength else c.payloadLength / 256

theorem wordLength_eq (hlow : 2 ≤ k) (hhigh : k < 16) (hlen : c.payloadLength = 2 ^ k) :
    1 <<< ((k - 2) % 8 + 2) = c.wordLength := by
  have hall : ∀ k < 16, 2 ≤ k → 1 <<< ((k - 2) % 8 + 2) = if 2 ^ k ≤ 512 then 2 ^ k else 2 ^ k / 256 := by decide
  rw [ReduceCall.wordLength, hlen]
  exact hall k hhigh hlow

/-- What `MUDM_parsePKbcast` finds in the log entry of a packet that has been injected. -/
structure ReadBack (template : CollectiveHeader) (c : ReduceCall) (sendCount op : Nat) (log : FlightEntry) : Prop where
  type : log.bits 208 16 = c.type
  payloadLength : log.bits 192 16 = c.payloadLength
  sequenceNumber : log.bits 112 16 = sendCount % 2 ^ 16
  destination : log.bits 32 32 = c.dest
  classRoute : log.bits 16 4 = c.classRoute % 16
  collective : ∀ env, collectivePiece env log =
    let args := [.num op, .str (opcodes.getD op ""), .num c.wordLength, .num (template.byte3 / 32)]
    if c.reduceChoice = collectiveTypeAllreduce then
      env.uncounted " AllReduce opCode=%0x(%s) wordLength=%d VC=%d " args
    else
      env.uncounted " Reduce opCode=%0x(%s) wordLength=%d VC=%d MUPKT=>%s " (args ++ [.str (parseNode2string c.dest)])

theorem injected_readBack (ht : Fits template.row) (hc : c.Typed op) (hlow : 2 ≤ k) (hhigh : k < 16)
    (hlen : c.payloadLength = 2 ^ k)
    (hchoice : c.reduceChoice = collectiveTypeAllreduce ∨ c.reduceChoice = collectiveTypeReduce) :
    ReadBack template c sendCount op ((injFifoInjectReduce template c sendCount).logged timestamp hwthread id) := by
  have hfits : Fits (injFifoInjectReduce template c sendCount).row := injected_fits ht hc hlow hhigh hlen hchoice
  have hbyte1 : (injFifoInjectReduce template c sendCount).byte1 = 16 * op + (k - 2) % 8 :=
    byte1_eq hlow hhigh hlen hc
  obtain ⟨hbyte3, hvc, hkind⟩ := byte3_parts template.byte3 (ht (8, template.byte3) (by simp [CollectiveHeader.row]))
    hchoice
  have hword := wordLength_eq hlow hhigh hlen
  have hcode := hc.code
  have hopcode : ((injFifoInjectReduce template c sendCount).logged timestamp hwthread id).bits 8 4 = op := by
    rw [CollectiveHeader.bits_logged hfits 1 0 4 4 8 rfl rfl (by simp [CollectiveHeader.row, width]), hbyte1]
    omega
  have hexponent : ((injFifoInjectReduce template c sendCount).logged timestamp hwthread id).bits 12 4 =
      (k - 2) % 8 := by
    rw [CollectiveHeader.bits_logged hfits 1 4 4 0 12 rfl rfl (by simp [CollectiveHeader.row, width]), hbyte1]
    omega
  have hchannel : ((injFifoInjectReduce template c sendCount).logged timestamp hwthread id).bits 24 3 =
      template.byte3 / 32 := by
    rw [CollectiveHeader.bits_logged hfits 5 0 3 5 24 rfl rfl (by simp [CollectiveHeader.row, width])]
    have hlt : ((template.byte3 &&& 0xe7) ||| c.reduceChoice) / 2 ^ 5 < 2 ^ 3 := by omega
    exact (Nat.mod_eq_of_lt hlt).trans hvc
  have htype : ((injFifoInjectReduce template c sendCount).logged timestamp hwthread id).bits 27 2 =
      c.reduceChoice / 8 := by
    rw [CollectiveHeader.bits_logged hfits 5 3 2 3 27 rfl rfl (by simp [CollectiveHeader.row, width])]
    exact hkind
  have hdest : ((injFifoInjectReduce template c sendCount).logged timestamp hwthread id).bits 32 32 = c.dest :=
    CollectiveHeader.field_logged hfits 6 32 rfl (by simp [CollectiveHeader.row, width])
  constructor
  case type => exact CollectiveHeader.field_logged hfits 15 208 rfl (by simp [CollectiveHeader.row, width])
  case payloadLength => exact CollectiveHeader.field_logged hfits 14 192 rfl (by simp [CollectiveHeader.row, width])
  case sequenceNumber => exact CollectiveHeader.field_logged hfits 11 112 rfl (by simp [CollectiveHeader.row, width])
  case destination => exact hdest
  case classRoute => exact CollectiveHeader.field_logged hfits 2 16 rfl (by simp [CollectiveHeader.row, width])
  case collective =>
    intro env
    simp only [collectivePiece, hopcode, hexponent, hchannel, htype, hdest, hword]
    rcases hchoice with hchoice | hchoice
    · rw [hchoice]
      rfl
    · rw [hchoice]
      rfl

/-- `mudm_bcast_reduce` takes the powers of two from 4 to 32768, and the log shows what was asked for, but for the
length of a word: the network is told that of the payload up to 512 bytes, and one that is 256 times too short beyond. -/
theorem reduce_reads_back {injected : Option CollectiveHeader} (ht : Fits template.row) (hc : c.Typed op)
    (hcall : mudmBcastReduce template c sendCount = (rc, injected, sendCount')) :
    (rc = 0 ∧ (∃ k, 2 ≤ k ∧ k < 16 ∧ c.payloadLength = 2 ^ k) ∧ sendCount' = (sendCount + 1) % 2 ^ 64 ∧
        ∃ h, injected = some h ∧ Fits h.row ∧
          ∀ timestamp hwthread id, ReadBack template c sendCount op (h.logged timestamp hwthread id)) ∨
      (rc = -EINVAL ∧ injected = none ∧ sendCount' = sendCount ∧
        ((∀ k, 2 ≤ k → c.payloadLength ≠ 2 ^ k) ∨
          c.reduceChoice ≠ collectiveTypeAllreduce ∧ c.reduceChoice ≠ collectiveTypeReduce)) := by
  rcases @mudmBcastReduce_cases template c sendCount hc.payloadLength with
    ⟨⟨k, hlow, hhigh, hlen⟩, hchoice, haccepts⟩ | ⟨hwhy, hrejects⟩
  · rw [haccepts] at hcall
    cases hcall
    refine .inl ⟨rfl, ⟨k, hlow, hhigh, hlen⟩, rfl, _, rfl, injected_fits ht hc hlow hhigh hlen hchoice, ?_⟩
    exact fun _ _ _ => injected_readBack ht hc hlow hhigh hlen hchoice
  · rw [hrejects] at hcall
    cases hcall
    exact .inr ⟨rfl, rfl, rfl, hwhy⟩

/-- The template of a node, as `bcast_init` leaves it. -/
def bcastTemplate : CollectiveHeader :=
  ⟨0x5a, 0, 0, 0, 1, 0xc0, 0, 0, 0, 272, 0, 0, 264, 0, 0, 0, 0⟩

/-- A sum over 1024 bytes goes out as one over words of 4. -/
theorem reduce_reads_back_long :
    ∃ h, mudmBcastReduce bcastTemplate ⟨0xf50f, 0x40, 1024, 0, 15, collectiveTypeAllreduce⟩ 7 = (0, some h, 8) ∧
      ∀ env, collectivePiece env (h.logged 0 0 0) =
        env.uncounted " AllReduce opCode=%0x(%s) wordLength=%d VC=%d "
          [.num 4, .str "unsigned add", .num 4, .num 6] := by
  have ht : Fits bcastTemplate.row := by
    intro f hf
    revert f
    decide
  have hc : ReduceCall.Typed ⟨0xf50f, 0x40, 1024, 0, 15, collectiveTypeAllreduce⟩ 4 := by
    constructor <;> decide
  rcases reduce_reads_back ht hc (Prod.ext rfl (Prod.ext rfl rfl)) with ⟨-, -, hcount, h, hinjected, -, hread⟩ | h
  · exact ⟨h, Prod.ext rfl (Prod.ext hinjected hcount), fun env => (hread 0 0 0).collective env⟩
  · cases h.1

end BgqVrnic
