import BgqVrnic.RecFifo

namespace BgqVrnic

open Runs

/-- Where the packet number `k` starts in the stream of the bytes of all packets. -/
def streamPos (written : List (List UInt8)) (k : Nat) : Nat := (written.take k).flatten.length

variable {written : List (List UInt8)} {packet : List UInt8} {k j size H D T W : Nat}

theorem isPacket_length_pos (h : IsPacket packet) : 32 ≤ packet.length := by
  have hlen := h.1
  unfold headerBytes at hlen
  omega

theorem isPacket_aligned (h : IsPacket packet) : 32 ∣ packet.length := by
  rw [h.1]
  exact Nat.dvd_mul_left _ _

theorem streamPos_succ (hk : written[k]? = some packet) :
    streamPos written (k + 1) = streamPos written k + packet.length := by
  unfold streamPos
  rw [List.take_add_one, hk, Option.toList_some, List.flatten_append, List.length_append,
    List.flatten_singleton]

theorem streamPos_length (written : List (List UInt8)) :
    streamPos written written.length = written.flatten.length := by
  rw [streamPos, List.take_length]

theorem streamPos_append (packet : List UInt8) (hk : k ≤ written.length) :
    streamPos (written ++ [packet]) k = streamPos written k := by
  rw [streamPos, List.take_append_of_le_length hk]
  rfl

theorem streamPos_mono (written : List (List UInt8)) (hkj : k ≤ j) : streamPos written k ≤ streamPos written j := by
  unfold streamPos
  rw [← Nat.add_sub_cancel' hkj, List.take_add, List.flatten_append, List.length_append]
  exact Nat.le_add_right _ _

theorem streamPos_strict (hp : ∀ p ∈ written, IsPacket p) (hkj : k < j) (hj : j ≤ written.length) :
    streamPos written k < streamPos written j := by
  have hlt : k < written.length := by omega
  have hk : written[k]? = some written[k] := List.getElem?_eq_getElem hlt
  have hpos := isPacket_length_pos (hp _ (List.mem_of_getElem? hk))
  have hsucc := streamPos_succ hk
  have hmono := streamPos_mono written (show k + 1 ≤ j from hkj)
  omega

theorem streamPos_aligned (hp : ∀ p ∈ written, IsPacket p) (k : Nat) :
    32 ∣ streamPos written k := by
  induction k with
  | zero => exact Nat.dvd_zero 32
  | succ k ih =>
    cases hk : written[k]? with
    | none =>
      have hlen : written.length ≤ k := List.getElem?_eq_none_iff.mp hk
      have htake : written.take (k + 1) = written.take k := by
        rw [List.take_of_length_le hlen, List.take_of_length_le (by omega)]
      rw [streamPos, htake]
      exact ih
    | some packet =>
      rw [streamPos_succ hk]
      exact Nat.dvd_add ih (isPacket_aligned (hp _ (List.mem_of_getElem? hk)))

theorem streamPos_slice (hk : written[k]? = some packet) :
    (written.flatten.drop (streamPos written k)).take packet.length = packet := by
  have hsplit : written = written.take k ++ packet :: written.drop (k + 1) := by
    obtain ⟨hlt, rfl⟩ := List.getElem?_eq_some_iff.mp hk
    rw [← List.drop_eq_getElem_cons hlt, List.take_append_drop]
  have hflat : written.flatten =
      (written.take k).flatten ++ (packet ++ (written.drop (k + 1)).flatten) := by
    conv_lhs => rw [hsplit]
    rw [List.flatten_append, List.flatten_cons]
  rw [hflat, streamPos, List.drop_left, List.take_left]

/-- The place of the tail in the ring, as it follows from what lies between the head and the tail. -/
theorem tail_mod (size : Nat) (hDT : D ≤ T) (hroom : T < D + size) :
    (D % size + (T - D) < size ∧ T % size = D % size + (T - D)) ∨
      (size ≤ D % size + (T - D) ∧ T % size + size = D % size + (T - D)) := by
  have hlt := Nat.mod_lt D (show 0 < size by omega)
  have hT : T % size = (D % size + (T - D)) % size := by
    rw [Nat.mod_add_mod, Nat.add_sub_cancel' hDT]
  by_cases hend : D % size + (T - D) < size
  · exact Or.inl ⟨hend, hT.trans (Nat.mod_eq_of_lt hend)⟩
  · refine Or.inr ⟨not_lt.mp hend, ?_⟩
    rw [hT, Nat.mod_eq_sub_mod (not_lt.mp hend), Nat.mod_eq_of_lt (by omega)]
    omega

/-- What the poll knows about the positions in the stream of the head that the MU knows, of its own head
and of the tail that it read last. -/
def PollPhase.Fits (size H D T : Nat) : PollPhase → Prop
  | .idle => H = D ∧ D = T
  | .top => H = D
  | .draining total cumulative =>
    D = H + cumulative ∧ H % size + cumulative < size ∧
      (total = T - H ∧ H % size + total < size ∨
        total + (H % size + maxPacketBytes) = size ∧ size ≤ H % size + (T - H))
  | .wrapping => H = D ∧ D < T ∧ size ≤ D % size + maxPacketBytes
  | .syncing => H ≤ D

/-- The rings that the driver can have. -/
structure FifoSize (size : Nat) : Prop where
  least : minRecFifoSize ≤ size
  chunks : 32 ∣ size
  counted : size ≤ 2 ^ 32

/-- The stream of all packets is in the ring from `H` on, which is where the MU believes the head to
be. -/
structure RecInv (size H : Nat) (s : PollState) : Prop where
  packets : ∀ p ∈ s.written, IsPacket p
  inOrder : s.delivered =
    (s.written.take s.delivered.length).map fun packet => (handlerOf packet, packet)
  delivered : s.delivered.length ≤ s.seen
  seen : s.seen ≤ s.written.length
  holds : Rings.Holds size s.fifo.mem s.written.flatten H
  aligned : 32 ∣ H
  le : H ≤ streamPos s.written s.delivered.length
  room : s.written.flatten.length + 32 ≤ H + size
  vaHead : s.fifo.vaHead = streamPos s.written s.delivered.length % size
  vaTail : s.fifo.vaTail = streamPos s.written s.seen % size
  hwHead : s.fifo.hwHead = H % size
  hwTail : s.fifo.hwTail = s.written.flatten.length % size
  phase : s.phase.Fits size H (streamPos s.written s.delivered.length) (streamPos s.written s.seen)

variable {s s' : PollState} {i : PollInput} {is : List PollInput}

theorem FifoSize.pos (hz : FifoSize size) : 0 < size :=
  Nat.lt_of_lt_of_le (by decide) hz.least

theorem recInv_empty (hz : FifoSize size) (mem : Nat → UInt8) : RecInv size 0 (emptyFifo mem) where
  packets := fun _ hp => absurd hp List.not_mem_nil
  inOrder := rfl
  delivered := le_rfl
  seen := le_rfl
  holds := fun j _ hlt => absurd hlt (Nat.not_lt_zero j)
  aligned := Nat.dvd_zero 32
  le := le_rfl
  room := by
    have hleast := hz.least
    change 544 + 32 ≤ size at hleast
    show 0 + 32 ≤ 0 + size
    omega
  vaHead := (Nat.zero_mod size).symm
  vaTail := (Nat.zero_mod size).symm
  hwHead := (Nat.zero_mod size).symm
  hwTail := (Nat.zero_mod size).symm
  phase := ⟨rfl, rfl⟩

theorem RecInv.sound (hz : FifoSize size) (h : RecInv size H s) : PollSound size s where
  inOrder := h.inOrder
  inside := by
    rw [h.vaHead]
    exact Nat.mod_lt _ hz.pos
  caughtUp := by
    intro hidle
    have hphase := h.phase
    rw [hidle] at hphase
    refine ⟨by rw [h.vaHead, h.vaTail, hphase.2], ?_⟩
    rcases h.delivered.lt_or_eq with hlt | he
    · exact absurd hphase.2 (streamPos_strict h.packets hlt h.seen).ne
    · exact he

/-- The next packet of the stream, as long as the head has not come to the tail. -/
theorem RecInv.next (h : RecInv size H s)
    (hlt : streamPos s.written s.delivered.length < streamPos s.written s.seen) :
    ∃ packet, s.written[s.delivered.length]? = some packet ∧ IsPacket packet ∧
      s.delivered.length + 1 ≤ s.seen := by
  have hk : s.delivered.length < s.seen := by
    by_contra hge
    exact absurd (streamPos_mono s.written (not_lt.mp hge)) (not_le.mpr hlt)
  have hlen := Nat.lt_of_lt_of_le hk h.seen
  exact ⟨s.written[s.delivered.length], List.getElem?_eq_getElem hlen,
    h.packets _ (List.getElem_mem hlen), hk⟩

/-- A head that counts whole chunks leaves room for a header before the end of the ring. -/
theorem FifoSize.header_room (hz : FifoSize size) (hD : 32 ∣ D) : D % size + 32 ≤ size := by
  obtain ⟨a, rfl⟩ := hD
  obtain ⟨b, rfl⟩ := hz.chunks
  have hlt := Nat.mod_lt a (show 0 < b from Nat.pos_of_mul_pos_left hz.pos)
  rw [Nat.mul_mod_mul_left]
  omega

theorem streamPos_add_length_le (hk : written[k]? = some packet) :
    streamPos written k + packet.length ≤ written.flatten.length := by
  obtain ⟨hlt, -⟩ := List.getElem?_eq_some_iff.mp hk
  rw [← streamPos_succ hk, ← streamPos_length]
  exact streamPos_mono written hlt

/-- The header at the head tells the length of the next packet. -/
theorem RecInv.header (hz : FifoSize size) (h : RecInv size H s)
    (hk : s.written[s.delivered.length]? = some packet) (hp : IsPacket packet) :
    headerBytes (s.fifo.mem (s.fifo.vaHead + 8)) = packet.length := by
  have hroom := hz.header_room (streamPos_aligned h.packets s.delivered.length)
  have hlen := isPacket_length_pos hp
  have hend := streamPos_add_length_le hk
  have hmod : (streamPos s.written s.delivered.length + 8) % size = s.fifo.vaHead + 8 := by
    rw [h.vaHead, ← Nat.mod_add_mod]
    exact Nat.mod_eq_of_lt (by omega)
  have hcell := h.holds (streamPos s.written s.delivered.length + 8)
    (h.le.trans (Nat.le_add_right _ 8)) (by omega)
  have hbyte : packet[8]? = some (s.fifo.mem (s.fifo.vaHead + 8)) := by
    conv_lhs => rw [← streamPos_slice hk]
    rw [List.getElem?_take_of_lt (by omega), List.getElem?_drop, hcell, hmod]
  rw [hp.1, List.getD_eq_getElem?_getD, hbyte, Option.getD_some]

/-- A packet that does not reach the end of the ring is handed over where it lies. -/
theorem RecInv.read (h : RecInv size H s) (hk : s.written[s.delivered.length]? = some packet)
    (hend : s.fifo.vaHead + packet.length ≤ size) :
    Rings.read s.fifo.mem s.fifo.vaHead packet.length = packet := by
  rw [h.vaHead] at hend ⊢
  rw [h.holds.read h.le (streamPos_add_length_le hk) hend]
  exact streamPos_slice hk

/-- What the handlers have been called with after one more packet. -/
theorem RecInv.deliver_inOrder (h : RecInv size H s)
    (hk : s.written[s.delivered.length]? = some packet) :
    s.delivered ++ [(handlerOf packet, packet)] =
      (s.written.take (s.delivered ++ [(handlerOf packet, packet)]).length).map
        fun packet => (handlerOf packet, packet) := by
  rw [List.length_append, List.length_singleton, List.take_add_one, hk, List.map_append,
    ← h.inOrder]
  rfl

/-- After one more packet, with the head behind it. -/
theorem RecInv.deliver {fifo : RecFifo} {phase : PollPhase} (h : RecInv size H s)
    (hk : s.written[s.delivered.length]? = some packet) (hseen : s.delivered.length + 1 ≤ s.seen)
    (hmem : fifo.mem = s.fifo.mem) (htail : fifo.vaTail = s.fifo.vaTail)
    (hhw : fifo.hwHead = s.fifo.hwHead) (hhwt : fifo.hwTail = s.fifo.hwTail)
    (hhead : fifo.vaHead = (streamPos s.written s.delivered.length + packet.length) % size)
    (hphase : phase.Fits size H (streamPos s.written s.delivered.length + packet.length)
      (streamPos s.written s.seen)) :
    RecInv size H (deliver s fifo phase packet) := by
  have hlen : (s.delivered ++ [(handlerOf packet, packet)]).length = s.delivered.length + 1 := by
    simp
  have hpos : streamPos s.written (s.delivered ++ [(handlerOf packet, packet)]).length =
      streamPos s.written s.delivered.length + packet.length := by
    rw [hlen, streamPos_succ hk]
  exact
    { packets := h.packets
      inOrder := h.deliver_inOrder hk
      delivered := hlen.le.trans hseen
      seen := h.seen
      holds := by
        show Rings.Holds size fifo.mem s.written.flatten H
        rw [hmem]
        exact h.holds
      aligned := h.aligned
      le := by
        show H ≤ streamPos s.written (s.delivered ++ [(handlerOf packet, packet)]).length
        rw [hpos]
        exact h.le.trans (Nat.le_add_right _ _)
      room := h.room
      vaHead := by
        show fifo.vaHead = streamPos s.written (s.delivered ++ [_]).length % size
        rw [hpos]
        exact hhead
      vaTail := htail.trans h.vaTail
      hwHead := hhw.trans h.hwHead
      hwTail := hhwt.trans h.hwTail
      phase := by
        show phase.Fits size H (streamPos s.written (s.delivered ++ [_]).length) _
        rw [hpos]
        exact hphase }

theorem RecInv.drain {total cumulative : Nat} (hz : FifoSize size) (h : RecInv size H s)
    (hphase : s.phase = .draining total cumulative) (hs : pollGo size s = some s') :
    RecInv size H s' := by
  have hp := h.phase
  rw [hphase] at hp
  obtain ⟨hD, hroom, hwindow⟩ := hp
  simp only [pollGo, hphase] at hs
  by_cases hmore : cumulative < total
  · rw [if_pos hmore] at hs
    have hle := streamPos_mono s.written h.delivered
    obtain ⟨packet, hk, hpacket, hseen⟩ := h.next (by omega)
    have hnext := streamPos_mono s.written hseen
    rw [streamPos_succ hk] at hnext
    have hmax := hpacket.2
    change packet.length ≤ 544 at hmax
    have hhead : s.fifo.vaHead = H % size + cumulative := by
      rw [h.vaHead, hD, ← Nat.mod_add_mod]
      exact Nat.mod_eq_of_lt hroom
    -- no packet that starts in the window goes past the end of the ring
    have hend : H % size + cumulative + packet.length < size := by
      change _ ∨ total + (H % size + 544) = size ∧ _ at hwindow
      omega
    have hcounted := hz.counted
    have hget : s.fifo.getNextPacketOptimized =
        ({ s.fifo with vaHead := s.fifo.vaHead + packet.length }, packet) := by
      unfold RecFifo.getNextPacketOptimized
      simp only [h.header hz hk hpacket, h.read hk (by rw [hhead]; exact hend.le)]
    rw [hget] at hs
    simp only [Option.some.injEq] at hs
    subst hs
    refine h.deliver hk hseen rfl rfl rfl rfl ?_ ?_
    · show s.fifo.vaHead + packet.length = _
      rw [hhead, hD, Nat.add_assoc H, ← Nat.mod_add_mod, ← Nat.add_assoc]
      exact (Nat.mod_eq_of_lt hend).symm
    · rw [Nat.mod_eq_of_lt (by omega)]
      refine ⟨by omega, by omega, hwindow⟩
  · rw [if_neg hmore] at hs
    cases Option.some.inj hs
    exact { h with phase := h.le }

theorem RecInv.wrap (hz : FifoSize size) (h : RecInv size H s) (hphase : s.phase = .wrapping)
    (hs : pollGo size s = some s') : RecInv size H s' := by
  have hp := h.phase
  rw [hphase] at hp
  obtain ⟨hH, hDT, hnear⟩ := hp
  obtain ⟨packet, hk, hpacket, hseen⟩ := h.next hDT
  have hlt := Nat.mod_lt (streamPos s.written s.delivered.length) hz.pos
  have hmax := hpacket.2
  have hleast := hz.least
  change packet.length ≤ 544 at hmax
  change 544 + 32 ≤ size at hleast
  simp only [pollGo, hphase] at hs
  have hsync : H ≤ streamPos s.written s.delivered.length + packet.length :=
    h.le.trans (Nat.le_add_right _ _)
  by_cases hend : s.fifo.vaHead + packet.length < size
  · have hget : s.fifo.getNextPacketWrap size =
        ({ s.fifo with vaHead := s.fifo.vaHead + packet.length }, packet) := by
      unfold RecFifo.getNextPacketWrap
      simp only [h.header hz hk hpacket, if_pos hend, h.read hk hend.le]
    rw [hget] at hs
    simp only [Option.some.injEq] at hs
    subst hs
    refine h.deliver hk hseen rfl rfl rfl rfl ?_ hsync
    rw [h.vaHead] at hend
    show s.fifo.vaHead + packet.length = _
    rw [h.vaHead, ← Nat.mod_add_mod]
    exact (Nat.mod_eq_of_lt hend).symm
  · have hread := h.holds.read_wrapped (k := packet.length) h.le (streamPos_add_length_le hk)
      (by rw [← h.vaHead]; exact not_lt.mp hend) (by omega) hz.pos
    rw [streamPos_slice hk, ← h.vaHead] at hread
    have hget : s.fifo.getNextPacketWrap size =
        ({ s.fifo with vaHead := packet.length - (size - s.fifo.vaHead) }, packet) := by
      unfold RecFifo.getNextPacketWrap
      simp only [h.header hz hk hpacket, if_neg hend, hread]
    rw [hget] at hs
    simp only [Option.some.injEq] at hs
    subst hs
    refine h.deliver hk hseen rfl rfl rfl rfl ?_ hsync
    rw [h.vaHead] at hend
    have hmod := (Nat.mod_eq_sub_mod (not_lt.mp hend)).trans (Nat.mod_eq_of_lt (by omega))
    show packet.length - (size - s.fifo.vaHead) = _
    rw [h.vaHead, ← Nat.mod_add_mod, hmod]
    omega

theorem RecInv.sync (h : RecInv size H s) :
    RecInv size (streamPos s.written s.delivered.length)
      { s with fifo := s.fifo.syncHwHead, phase := .top } :=
  { h with
    holds := h.holds.mono h.le
    aligned := streamPos_aligned h.packets _
    le := le_rfl
    room := h.room.trans (Nat.add_le_add_right h.le size)
    hwHead := h.vaHead
    phase := rfl }

theorem readTail_empty (he : s.fifo.hwTail = s.fifo.vaHead) :
    readTail size s =
      { s with
        fifo := { s.fifo with vaTail := s.fifo.hwTail }
        seen := s.written.length
        phase := .idle } := by
  simp [readTail, RecFifo.getAvailableBytes, he]

/-- The packets between the head and the tail do not wrap. -/
theorem readTail_ahead (hlt : s.fifo.vaHead < s.fifo.hwTail) (hcount : s.fifo.hwTail < 2 ^ 32) :
    readTail size s =
      { s with
        fifo := { s.fifo with vaTail := s.fifo.hwTail }
        seen := s.written.length
        phase := .draining (s.fifo.hwTail - s.fifo.vaHead) 0 } := by
  have hmod : (s.fifo.hwTail - s.fifo.vaHead) % 2 ^ 32 = s.fifo.hwTail - s.fifo.vaHead :=
    Nat.mod_eq_of_lt (by omega)
  have hne : s.fifo.hwTail - s.fifo.vaHead ≠ 0 := by omega
  simp only [readTail, RecFifo.getAvailableBytes, if_neg hlt.ne', if_pos hlt, hmod, if_neg hne]
  rfl

/-- The head is not near the end of the ring yet. -/
theorem readTail_behind (hlt : s.fifo.hwTail < s.fifo.vaHead)
    (hfar : s.fifo.vaHead < size - maxPacketBytes) (hcount : size ≤ 2 ^ 32) :
    readTail size s =
      { s with
        fifo := { s.fifo with vaTail := s.fifo.hwTail }
        seen := s.written.length
        phase := .draining (size - s.fifo.vaHead - maxPacketBytes) 0 } := by
  have hmod : (size - s.fifo.vaHead - maxPacketBytes) % 2 ^ 32 =
      size - s.fifo.vaHead - maxPacketBytes := Nat.mod_eq_of_lt (by omega)
  have hne : size - s.fifo.vaHead - maxPacketBytes ≠ 0 := by omega
  simp only [readTail, RecFifo.getAvailableBytes, if_neg hlt.ne, if_neg hlt.not_gt, if_pos hfar,
    hmod, if_neg hne]
  rfl

theorem readTail_near (hlt : s.fifo.hwTail < s.fifo.vaHead) (hend : s.fifo.vaHead < size)
    (hnear : size ≤ s.fifo.vaHead + maxPacketBytes) :
    readTail size s =
      { s with
        fifo := { s.fifo with vaTail := s.fifo.hwTail }
        seen := s.written.length
        phase := .wrapping } := by
  have hmax : maxPacketBytes = 544 := rfl
  have hmod : (size - s.fifo.vaHead) % 2 ^ 32 = size - s.fifo.vaHead :=
    Nat.mod_eq_of_lt (by omega)
  have hne : size - s.fifo.vaHead ≠ 0 := by omega
  have hfar : ¬ s.fifo.vaHead < size - maxPacketBytes := by omega
  simp only [readTail, RecFifo.getAvailableBytes, if_neg hlt.ne, if_neg hlt.not_gt, if_neg hfar,
    hmod, if_neg hne]
  rfl

theorem RecInv.look {phase : PollPhase} (h : RecInv size H s)
    (hphase : phase.Fits size H (streamPos s.written s.delivered.length)
      s.written.flatten.length) :
    RecInv size H
      { s with
        fifo := { s.fifo with vaTail := s.fifo.hwTail }
        seen := s.written.length
        phase := phase } :=
  { h with
    delivered := h.delivered.trans h.seen
    seen := le_rfl
    vaTail := by
      rw [streamPos_length]
      exact h.hwTail
    phase := by
      rw [streamPos_length]
      exact hphase }

theorem RecInv.readTail (hz : FifoSize size) (h : RecInv size H s) (hphase : s.phase = .top) :
    RecInv size H (readTail size s) := by
  have hH := h.phase
  rw [hphase] at hH
  change H = _ at hH
  have hDW : streamPos s.written s.delivered.length ≤ s.written.flatten.length := by
    rw [← streamPos_length]
    exact streamPos_mono s.written (h.delivered.trans h.seen)
  have hroom := h.room
  have hcounted := hz.counted
  have hhead := h.vaHead
  have htail := h.hwTail
  have hend : s.fifo.vaHead < size := by
    rw [hhead]
    exact Nat.mod_lt _ hz.pos
  have htend : s.fifo.hwTail < size := by
    rw [htail]
    exact Nat.mod_lt _ hz.pos
  have hmod := tail_mod size hDW (by omega)
  rw [← htail, ← hhead] at hmod
  rcases Nat.lt_trichotomy s.fifo.hwTail s.fifo.vaHead with hlt | he | hgt
  · have hwrapped : size ≤ s.fifo.vaHead +
        (s.written.flatten.length - streamPos s.written s.delivered.length) := by omega
    by_cases hfar : s.fifo.vaHead < size - maxPacketBytes
    · rw [readTail_behind hlt hfar hcounted]
      apply h.look
      rw [hhead] at hfar hwrapped ⊢
      refine ⟨hH.symm, ?_, Or.inr ⟨?_, ?_⟩⟩
      · rw [hH]
        omega
      · rw [hH]
        omega
      · rw [hH]
        exact hwrapped
    · rw [readTail_near hlt hend (by omega)]
      apply h.look
      rw [hhead] at hfar hend
      exact ⟨hH, by omega, by omega⟩
  · rw [readTail_empty he]
    apply h.look
    exact ⟨hH, by omega⟩
  · rw [readTail_ahead hgt (by omega)]
    apply h.look
    refine ⟨hH.symm, ?_, Or.inl ⟨?_, ?_⟩⟩
    · rw [hH, ← hhead]
      omega
    · rw [hH]
      omega
    · rw [hH, ← hhead]
      omega

/-- What the MU takes for used is the stream from the head that it knows. -/
theorem RecInv.used (hz : FifoSize size) (h : RecInv size H s) :
    s.fifo.used size = s.written.flatten.length - H := by
  have hroom := h.room
  have hle : H ≤ s.written.flatten.length := by
    rw [← streamPos_length]
    exact h.le.trans (streamPos_mono s.written (h.delivered.trans h.seen))
  have hlt := Nat.mod_lt H hz.pos
  unfold RecFifo.used
  rw [h.hwHead, h.hwTail]
  rcases tail_mod size hle (by omega) with ⟨hend, hT⟩ | ⟨hend, hT⟩
  · rw [hT, show H % size + (s.written.flatten.length - H) + size - H % size =
      s.written.flatten.length - H + size by omega, Nat.add_mod_right]
    exact Nat.mod_eq_of_lt (by omega)
  · rw [show s.written.flatten.length % size + size - H % size =
      s.written.flatten.length - H by omega]
    exact Nat.mod_eq_of_lt (by omega)

theorem RecInv.write (hz : FifoSize size) (h : RecInv size H s) (hp : IsPacket packet)
    (hroom : s.fifo.used size + packet.length + 32 ≤ size) :
    RecInv size H
      { s with fifo := s.fifo.muWrite size packet, written := s.written ++ [packet] } := by
  have hle : H ≤ s.written.flatten.length := by
    rw [← streamPos_length]
    exact h.le.trans (streamPos_mono s.written (h.delivered.trans h.seen))
  rw [h.used hz] at hroom
  have hflat : (s.written ++ [packet]).flatten = s.written.flatten ++ packet := by simp
  have hlen : (s.written ++ [packet]).flatten.length = s.written.flatten.length + packet.length := by
    rw [hflat, List.length_append]
  have hD := streamPos_append packet (h.delivered.trans h.seen)
  have hT := streamPos_append packet h.seen
  refine
    { packets := ?_, inOrder := ?_, delivered := h.delivered, seen := ?_, holds := ?_
      aligned := h.aligned, le := ?_, room := ?_, vaHead := ?_, vaTail := ?_, hwHead := h.hwHead
      hwTail := ?_, phase := ?_ }
  · intro p hmem
    rcases List.mem_append.mp hmem with hold | hnew
    · exact h.packets p hold
    · exact List.mem_singleton.mp hnew ▸ hp
  · show s.delivered = ((s.written ++ [packet]).take s.delivered.length).map _
    rw [List.take_append_of_le_length (h.delivered.trans h.seen)]
    exact h.inOrder
  · rw [List.length_append]
    exact h.seen.trans (Nat.le_add_right _ _)
  · show Rings.Holds size (Rings.write size s.fifo.mem s.fifo.hwTail packet) _ H
    rw [hflat, h.hwTail]
    exact h.holds.writeAll (by omega)
  · rw [hD]
    exact h.le
  · rw [hlen]
    omega
  · rw [hD]
    exact h.vaHead
  · rw [hT]
    exact h.vaTail
  · show (s.fifo.hwTail + packet.length) % size = _
    rw [hlen, h.hwTail, Nat.mod_add_mod]
  · rw [hD, hT]
    exact h.phase

theorem pollStep_inv (hz : FifoSize size) (h : RecInv size H s)
    (hs : pollStep size s i = some s') : ∃ H', RecInv size H' s' := by
  cases i with
  | write packet =>
    obtain ⟨⟨hp, hroom⟩, hs⟩ := Option.ite_none_right_eq_some.mp hs
    cases Option.some.inj hs
    exact ⟨H, h.write hz hp hroom⟩
  | poll =>
    obtain ⟨hidle, hs⟩ := Option.ite_none_right_eq_some.mp hs
    cases Option.some.inj hs
    have hphase := h.phase
    rw [hidle] at hphase
    exact ⟨H, { h with phase := hphase.1 }⟩
  | go =>
    change pollGo size s = some s' at hs
    cases hphase : s.phase with
    | idle => simp [pollGo, hphase] at hs
    | top =>
      simp only [pollGo, hphase, Option.some.injEq] at hs
      subst hs
      exact ⟨H, h.readTail hz hphase⟩
    | draining total cumulative => exact ⟨H, h.drain hz hphase hs⟩
    | wrapping => exact ⟨H, h.wrap hz hphase hs⟩
    | syncing =>
      simp only [pollGo, hphase, Option.some.injEq] at hs
      subst hs
      exact ⟨_, h.sync⟩

/-- Whatever the MU writes and whenever it moves its tail, the poll is sound. -/
theorem poll_sound (hz : FifoSize size) (mem : Nat → UInt8)
    (hr : run (pollStep size) (emptyFifo mem) is = some s) : PollSound size s := by
  have hstep : ∀ s i s', (∃ H, RecInv size H s) → pollStep size s i = some s' →
      ∃ H, RecInv size H s' := by
    rintro s i s' ⟨H, h⟩ hs
    exact pollStep_inv hz h hs
  obtain ⟨H, h⟩ := run_preserves (P := fun s => ∃ H, RecInv size H s) hstep
    ⟨0, recInv_empty hz mem⟩ hr
  exact h.sound hz

/-- A packet that is a header only. -/
def headerPacket : List UInt8 := List.replicate 32 0

theorem poll_sound_one_packet :
    ∃ s, run (pollStep 576) (emptyFifo fun _ => 1)
        [.write headerPacket, .poll, .go, .go, .write headerPacket, .go, .go] = some s ∧
      s.delivered.length = 1 ∧ PollSound 576 s :=
  ⟨_, rfl, rfl, poll_sound ⟨by decide, by decide, by decide⟩ (fun _ => 1)
    (show run (pollStep 576) (emptyFifo fun _ => 1)
      [.write headerPacket, .poll, .go, .go, .write headerPacket, .go, .go] = some _ from rfl)⟩

/-- The MU has written `k` headers and nobody has looked. -/
theorem run_writes (mem : Nat → UInt8) (hk : 32 * k + 32 ≤ size) :
    ∃ s, run (pollStep size) (emptyFifo mem) (List.replicate k (.write headerPacket)) = some s ∧
      s.phase = .idle ∧ s.fifo.vaHead = 0 ∧ s.fifo.hwHead = 0 ∧ s.fifo.hwTail = 32 * k := by
  induction k with
  | zero => exact ⟨_, rfl, rfl, rfl, rfl, rfl⟩
  | succ k ih =>
    obtain ⟨s, hs, hphase, hva, hhw, htail⟩ := ih (by omega)
    have hlen : headerPacket.length = 32 := rfl
    have hused : s.fifo.used size = 32 * k := by
      unfold RecFifo.used
      rw [hhw, htail, Nat.sub_zero, Nat.add_mod_right]
      exact Nat.mod_eq_of_lt (by omega)
    have hroom : IsPacket headerPacket ∧ s.fifo.used size + headerPacket.length + 32 ≤ size :=
      ⟨by decide, by omega⟩
    have hstep : pollStep size s (.write headerPacket) =
        some { s with
          fifo := s.fifo.muWrite size headerPacket
          written := s.written ++ [headerPacket] } := if_pos hroom
    refine ⟨{ s with fifo := s.fifo.muWrite size headerPacket, written := s.written ++ [headerPacket] },
      ?_, hphase, hva, hhw, ?_⟩
    · rw [List.replicate_succ', run_append, hs]
      simp only [Option.bind_some, run, hstep]
    · show (s.fifo.hwTail + headerPacket.length) % size = 32 * (k + 1)
      rw [htail, hlen]
      exact Nat.mod_eq_of_lt (by omega)

/-- A tail that is 2 ^ 32 bytes ahead of the head counts as no bytes. -/
theorem writes_not_sound (mem : Nat → UInt8) (hk : 32 * k = 2 ^ 32) (hsize : 32 * k + 32 ≤ size) :
    ∃ s, run (pollStep size) (emptyFifo mem)
        (List.replicate k (.write headerPacket) ++ [.poll, .go]) = some s ∧
      ¬ PollSound size s := by
  obtain ⟨s, hs, hphase, hva, hhw, htail⟩ := run_writes mem hsize
  have hpoll : pollStep size s .poll = some { s with phase := .top, packetsDone := 0 } :=
    if_pos hphase
  have hnone : (readTail size { s with phase := .top, packetsDone := 0 }).phase = .idle := by
    have hlt : s.fifo.vaHead < s.fifo.hwTail := by omega
    have hzero : (s.fifo.hwTail - s.fifo.vaHead) % 2 ^ 32 = 0 := by
      rw [htail, hva, hk]
      rfl
    simp only [readTail, RecFifo.getAvailableBytes, if_neg hlt.ne', if_pos hlt, hzero, if_true]
  have hgo : pollStep size { s with phase := .top, packetsDone := 0 } .go =
      some (readTail size { s with phase := .top, packetsDone := 0 }) := rfl
  refine ⟨readTail size { s with phase := .top, packetsDone := 0 }, ?_, fun h => ?_⟩
  · rw [run_append, hs]
    simp only [Option.bind_some, run, hpoll, hgo]
  · have hhead := (h.caughtUp hnone).1
    have hlt : s.fifo.vaHead < s.fifo.hwTail := by omega
    simp only [readTail, RecFifo.getAvailableBytes, if_neg hlt.ne', if_pos hlt] at hhead
    omega

/-- A ring with one chunk more than 2 ^ 32 bytes, full. -/
theorem poll_misses_full_count :
    ∃ s, run (pollStep (2 ^ 32 + 32)) (emptyFifo fun _ => 0)
        (List.replicate (2 ^ 27) (.write headerPacket) ++ [.poll, .go]) = some s ∧
      ¬ PollSound (2 ^ 32 + 32) s :=
  writes_not_sound (fun _ => 0) (by omega) (by omega)

end BgqVrnic
