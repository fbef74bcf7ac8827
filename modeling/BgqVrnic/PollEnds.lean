import BgqVrnic.RecFifoRuns

namespace BgqVrnic

variable {size H : Nat} {s s' : PollState} {i : PollInput} {packet : List UInt8}

/-- How far a poll is from its next packet or from its end. -/
def pollDistance (s : PollState) : Nat :=
  match s.phase with
  | .idle => if s.delivered.length = s.written.length then 0 else 3
  | .top => 2
  | .draining total cumulative => if cumulative < total then 1 else 4
  | .wrapping => 1
  | .syncing => 3

/-- The steps left at most for what has been written. -/
def pollRank (s : PollState) : Nat := 5 * (s.written.length - s.delivered.length) + pollDistance s

theorem pollDistance_le (s : PollState) : pollDistance s ≤ 4 := by
  unfold pollDistance
  split <;> (try split) <;> omega

theorem pollGo_written (hs : pollGo size s = some s') : s'.written = s.written := by
  unfold pollGo at hs
  cases hphase : s.phase with
  | idle => simp [hphase] at hs
  | top =>
    simp only [hphase, Option.some.injEq] at hs
    subst hs
    rfl
  | draining total cumulative =>
    simp only [hphase] at hs
    split at hs
    next => cases hs; rfl
    next => cases hs; rfl
  | wrapping =>
    simp only [hphase, Option.some.injEq] at hs
    subst hs
    rfl
  | syncing =>
    simp only [hphase, Option.some.injEq] at hs
    subst hs
    rfl

theorem RecInv.delivered_le (h : RecInv size H s) : s.delivered.length ≤ s.written.length :=
  h.delivered.trans h.seen

/-- A packet that is delivered is worth more than any change of the phase. -/
theorem pollRank_deliver {fifo : RecFifo} {phase : PollPhase}
    (hle : (deliver s fifo phase packet).delivered.length ≤ s.written.length) :
    pollRank (deliver s fifo phase packet) < pollRank s := by
  have hdist := pollDistance_le (deliver s fifo phase packet)
  have hlen : (deliver s fifo phase packet).delivered.length = s.delivered.length + 1 := by
    simp [deliver]
  rw [hlen] at hle
  unfold pollRank
  rw [hlen, show (deliver s fifo phase packet).written = s.written from rfl]
  omega

theorem pollRank_of_phase (hw : s'.written = s.written) (hd : s'.delivered = s.delivered)
    (hlt : pollDistance s' < pollDistance s) : pollRank s' < pollRank s := by
  unfold pollRank
  rw [hw, hd]
  omega

/-- A poll that stops at the tail has delivered everything. -/
theorem RecInv.idle_at_tail (h : RecInv size H s) (hphase : s.phase = .idle) (hseen : s.seen = s.written.length) :
    s.delivered.length = s.written.length := by
  have hfits := h.phase
  rw [hphase, hseen] at hfits
  obtain ⟨-, hDT⟩ := hfits
  by_contra hne
  have hlt : s.delivered.length < s.written.length := Nat.lt_of_le_of_ne h.delivered_le hne
  have hstrict := streamPos_strict h.packets hlt le_rfl
  omega

theorem readTail_distance (hz : FifoSize size) (h : RecInv size H s) (hphase : s.phase = .top) :
    pollDistance (readTail size s) < 2 := by
  have hinv := h.readTail hz hphase
  have hseen : (readTail size s).seen = (readTail size s).written.length := rfl
  by_cases hidle : (readTail size s).phase = .idle
  · have hall := hinv.idle_at_tail hidle hseen
    unfold pollDistance
    rw [hidle, if_pos hall]
    decide
  · unfold readTail at hidle ⊢
    generalize s.fifo.getAvailableBytes size = look at hidle ⊢
    obtain ⟨fifo, totalBytes, wrap⟩ := look
    dsimp only at hidle ⊢
    by_cases hzero : totalBytes = 0
    · rw [if_pos hzero] at hidle
      exact absurd rfl hidle
    · cases wrap with
      | true =>
        simp [pollDistance, if_neg hzero]
      | false =>
        have hpos : 0 < totalBytes := Nat.pos_of_ne_zero hzero
        simp [pollDistance, if_neg hzero, hpos]

/-- A poll that has not returned takes a step that brings it nearer to its end. -/
theorem poll_goes (hz : FifoSize size) (h : RecInv size H s) (hphase : s.phase ≠ .idle) :
    ∃ s', pollStep size s .go = some s' ∧ pollRank s' < pollRank s := by
  cases hp : s.phase with
  | idle => exact absurd hp hphase
  | top =>
    refine ⟨readTail size s, ?_, ?_⟩
    · simp only [pollStep, pollGo, hp]
    · apply pollRank_of_phase
      · rfl
      · rfl
      · have hlt := readTail_distance hz h hp
        unfold pollDistance at hlt ⊢
        rw [hp]
        exact hlt
  | draining total cumulative =>
    by_cases hlt : cumulative < total
    · have hs : pollStep size s .go =
          some (deliver s s.fifo.getNextPacketOptimized.1
            (.draining total ((cumulative + s.fifo.getNextPacketOptimized.2.length) % 2 ^ 32))
            s.fifo.getNextPacketOptimized.2) := by
        simp only [pollStep, pollGo, hp, if_pos hlt]
      obtain ⟨H', hinv⟩ := pollStep_inv hz h hs
      exact ⟨_, hs, pollRank_deliver hinv.delivered_le⟩
    · refine ⟨{ s with phase := .syncing }, ?_, ?_⟩
      · simp only [pollStep, pollGo, hp, if_neg hlt]
      · apply pollRank_of_phase
        · rfl
        · rfl
        · simp [pollDistance, hp, hlt]
  | wrapping =>
    have hs : pollStep size s .go =
        some (deliver s (s.fifo.getNextPacketWrap size).1 .syncing (s.fifo.getNextPacketWrap size).2) := by
      simp only [pollStep, pollGo, hp]
    obtain ⟨H', hinv⟩ := pollStep_inv hz h hs
    exact ⟨_, hs, pollRank_deliver hinv.delivered_le⟩
  | syncing =>
    refine ⟨{ s with fifo := s.fifo.syncHwHead, phase := .top }, ?_, ?_⟩
    · simp only [pollStep, pollGo, hp]
    · apply pollRank_of_phase
      · rfl
      · rfl
      · simp [pollDistance, hp]

/-- A poll that finds something to do comes nearer to it. -/
theorem polls_again (hphase : s.phase = .idle) (hne : s.delivered.length ≠ s.written.length) :
    ∃ s', pollStep size s .poll = some s' ∧ s'.written = s.written ∧ pollRank s' < pollRank s := by
  refine ⟨{ s with phase := .top, packetsDone := 0 }, if_pos hphase, rfl, ?_⟩
  apply pollRank_of_phase
  · rfl
  · rfl
  · simp [pollDistance, hphase, hne]

/-- When all has been handled, the ring is empty for the MU as well, and takes any packet. -/
theorem RecInv.takes (hz : FifoSize size) (h : RecInv size H s) (hphase : s.phase = .idle)
    (hall : s.delivered.length = s.written.length) (hp : IsPacket packet) :
    pollStep size s (.write packet) =
      some { s with fifo := s.fifo.muWrite size packet, written := s.written ++ [packet] } := by
  have hfits := h.phase
  rw [hphase] at hfits
  obtain ⟨hH, -⟩ := hfits
  rw [hall, streamPos_length] at hH
  have hused := h.used hz
  rw [hH, Nat.sub_self] at hused
  have hleast := hz.least
  have hsmall := hp.2
  change 544 + 32 ≤ size at hleast
  change packet.length ≤ 544 at hsmall
  exact if_pos ⟨hp, by omega⟩

end BgqVrnic
