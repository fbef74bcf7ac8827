import BgqVrnic.RemoteGet
import BgqVrnic.WalkPieces

namespace BgqVrnic

/-- The addresses that a direct put reads, and those that it writes. -/
def MuDescriptor.sources (d : MuDescriptor) : List Nat := List.range' d.paPayload d.messageLength

def MuDescriptor.targets (d : MuDescriptor) : List Nat := List.range' d.putOffset d.messageLength

/-- One after the other, the direct puts move the bytes at `src` to those at `dst`. -/
structure Transfers (ds : List MuDescriptor) (src dst : List Nat) : Prop where
  reads : ds.flatMap MuDescriptor.sources = src
  writes : ds.flatMap MuDescriptor.targets = dst

/-- `mudm_rdma_read` comes back with `-EINPROGRESS`, and the descriptors that it has sent move the first
`bytesXfer` bytes of the remote list, of `m` entries, to those of the local list, of `n` entries. -/
def ReadCompletes (q : GetRequest) (n m rdmaObject : Nat) : Prop :=
  ∃ rounds, ∀ k ≥ rounds,
    let dma := mudmRdmaRead q.bytesXfer rdmaObject q.localSgl q.remoteSgl k
    dma.rc = some (-EINPROGRESS) ∧
      Transfers (dma.puts.map q.descriptor) ((sglBytes q.remoteSgl m).take q.bytesXfer)
        ((sglBytes q.localSgl n).take q.bytesXfer)

/-- The loops of both calls go through `k` rounds and come to the next one. -/
structure Goes (l r : Nat → MudmSgl) (b k : Nat) : Prop where
  lives : Lives l r k
  short : ∀ i < k, passed l r (i + 1) % 2 ^ 32 < b

/-- They do not go on behind `k` rounds. -/
def Stops (l r : Nat → MudmSgl) (b k : Nat) : Prop :=
  (Walk.after l r k).live = true → b ≤ passed l r (k + 1) % 2 ^ 32

variable {l r : Nat → MudmSgl} {b i k n m rounds rdmaObject : Nat} {q : GetRequest} {t t' : ReadWalk}
  {left : Bool} {p : Put}

theorem Goes.zero : Goes l r b 0 := ⟨Lives.zero, nofun⟩

theorem Goes.succ (h : Goes l r b k) (hlive : (Walk.after l r k).live = true)
    (hsum : (Walk.after l r k).sum < b) : Goes l r b (k + 1) := by
  refine ⟨h.lives.succ hlive, fun i hi => ?_⟩
  by_cases hik : i = k
  · rw [hik, ← after_sum]
    exact hsum
  · exact h.short i (by omega)

theorem Goes.mono (h : Goes l r b k) (hi : i ≤ k) : Goes l r b i :=
  ⟨h.lives.mono hi, fun j hj => h.short j (by omega)⟩

/-- Up to 32 bits the loops go on for as long as bytes are missing. -/
theorem Lives.goes (h : Lives l r k) (hlt : passed l r k < b) (hb : b ≤ 2 ^ 32) : Goes l r b k := by
  refine ⟨h, fun i hi => ?_⟩
  have hle : passed l r (i + 1) ≤ passed l r k := passed_mono hi
  rw [Nat.mod_eq_of_lt (by omega)]
  omega

theorem Terminated.chunk_lt (h : Terminated l n) (hk : Lives l r k) :
    (Walk.after l r k).chunk < 2 ^ 28 := by
  obtain ⟨used, -, hlen, -⟩ := hk.at.1.localAt.place
  have hle : (Walk.after l r k).chunk ≤ (Walk.after l r k).curLocalMemlength := Nat.min_le_left _ _
  have htyped := h.typed (Walk.after l r k).li
  omega

/-- A piece that goes beyond 32 bits leaves `totalbytes` small. -/
theorem Lives.goes_wrapped (h : Lives l r (k + 1)) (hl : Terminated l n) (hlt : passed l r k < b)
    (hgt : b < passed l r (k + 1)) (hb : b < 2 ^ 32) (hwrap : 2 ^ 32 ≤ passed l r (k + 1)) :
    Goes l r b (k + 1) := by
  have hk := h.mono (Nat.le_succ k)
  refine (hk.goes hlt (Nat.le_of_lt hb)).succ (h k (Nat.lt_succ_self k)) ?_
  have hchunk := hl.chunk_lt hk
  have hsum : passed l r (k + 1) = passed l r k + (Walk.after l r k).chunk := rfl
  rw [after_sum]
  omega

/-- What the loop of `mudm_rdma_read` has built after `k` rounds: the pieces, in bundles of eight. -/
structure ReadWalk.Built (l r : Nat → MudmSgl) (k : Nat) (t : ReadWalk) : Prop where
  walk : t.walk = Walk.after l r k
  puts : t.sent ++ t.bundle = pieces l r k
  bundle : t.bundle.length ≤ 8 ∧ (0 < k → 0 < t.bundle.length)

theorem ReadWalk.makeRoom_puts (t : ReadWalk) :
    t.makeRoom.sent ++ t.makeRoom.bundle = t.sent ++ t.bundle := by
  unfold ReadWalk.makeRoom ReadWalk.flush
  split
  · simp
  · rfl

theorem ReadWalk.makeRoom_short (h : t.bundle.length ≤ 8) : t.makeRoom.bundle.length < 8 := by
  unfold ReadWalk.makeRoom ReadWalk.flush
  split
  · exact Nat.zero_lt_succ 7
  · omega

/-- In the rounds that the loop goes through, the puts are the pieces. -/
theorem readLoop_goes (h : Goes l r b k) (n : Nat) :
    ∃ t, readLoop b l r (k + n) ⟨Walk.start l r, [], []⟩ = readLoop b l r n t ∧ t.Built l r k := by
  induction k generalizing n with
  | zero =>
    refine ⟨⟨Walk.start l r, [], []⟩, by rw [Nat.zero_add], rfl, rfl, Nat.zero_le 8, ?_⟩
    exact fun hk => absurd hk (Nat.lt_irrefl 0)
  | succ k ih =>
    obtain ⟨t, ht, hbuilt⟩ := ih (h.mono (Nat.le_succ k)) (n + 1)
    have hlive : t.walk.live = true := by
      rw [hbuilt.walk]
      exact h.lives k (Nat.lt_succ_self k)
    have hsum : t.walk.sum < b := by
      rw [hbuilt.walk, after_sum]
      exact h.short k (Nat.lt_succ_self k)
    have hclip : t.walk.clipped b = t.walk.chunk := if_neg (Nat.lt_asymm hsum)
    have hround : readLoop b l r (k + 1 + n) ⟨Walk.start l r, [], []⟩ =
        readLoop b l r n { t.makeRoom with
          bundle := t.makeRoom.bundle ++ [t.walk.put t.walk.chunk], walk := t.walk.advance l r } := by
      rw [Nat.add_assoc, Nat.add_comm 1, ht]
      conv_lhs => unfold readLoop
      dsimp only
      rw [if_pos hlive, if_neg (Nat.not_le.mpr hsum), hclip]
    refine ⟨_, hround, ?_, ?_, ?_⟩
    · dsimp only
      rw [hbuilt.walk]
      rfl
    · dsimp only
      rw [← List.append_assoc, ReadWalk.makeRoom_puts, hbuilt.puts, hbuilt.walk, pieces_succ]
    · have hroom := ReadWalk.makeRoom_short hbuilt.bundle.1
      dsimp only
      rw [List.length_append, List.length_singleton]
      omega

theorem readLoop_puts (h : readLoop b l r rounds t = (t', left)) :
    t.sent ++ t.bundle <+: t'.sent ++ t'.bundle := by
  induction rounds generalizing t with
  | zero =>
    cases h
    exact List.prefix_rfl
  | succ rounds ih =>
    have hput : t.sent ++ t.bundle <+:
        t.makeRoom.sent ++ (t.makeRoom.bundle ++ [t.walk.put (t.walk.clipped b)]) := by
      rw [← List.append_assoc, ReadWalk.makeRoom_puts]
      exact List.prefix_append _ _
    unfold readLoop at h
    dsimp only at h
    split at h
    · split at h
      · cases h
        exact hput
      · exact hput.trans (ih h)
    · cases h
      exact List.prefix_rfl

theorem Walk.sum_lt (w : Walk) : w.sum < 2 ^ 32 := Nat.mod_lt _ (by decide)

theorem readLoop_total (ht : t.walk.totalbytes < 2 ^ 32)
    (h : readLoop b l r rounds t = (t', left)) : t'.walk.totalbytes < 2 ^ 32 := by
  induction rounds generalizing t with
  | zero =>
    cases h
    exact ht
  | succ rounds ih =>
    unfold readLoop at h
    dsimp only at h
    split at h
    · split at h
      · cases h
        exact t.walk.sum_lt
      · refine ih ?_ h
        dsimp only
        rw [Walk.advance_totalbytes]
        exact t.walk.sum_lt
    · cases h
      exact ht

/-- The call succeeds only where it leaves its loop with the bytes that it was asked for, and then
everything that it has built goes out. -/
theorem mudmRdmaRead_success
    (h : (mudmRdmaRead b rdmaObject l r rounds).rc = some (-EINPROGRESS)) :
    ∃ t, readLoop b l r rounds ⟨Walk.start l r, [], []⟩ = (t, true) ∧ t.walk.totalbytes = b ∧
      (mudmRdmaRead b rdmaObject l r rounds).puts = t.sent ++ t.bundle := by
  unfold mudmRdmaRead at h ⊢
  cases hloop : readLoop b l r rounds ⟨Walk.start l r, [], []⟩ with
  | mk t left =>
    rw [hloop] at h
    cases left with
    | false => cases h
    | true =>
      have hneg : ¬ some (-EINVAL) = some (-EINPROGRESS) := by decide
      have hdone : (finishRead b rdmaObject t).rc = some (-EINPROGRESS) := h
      unfold finishRead at hdone
      dsimp only at hdone
      by_cases htotal : t.walk.totalbytes = b
      · refine ⟨t, rfl, htotal, ?_⟩
        show (finishRead b rdmaObject t).puts = _
        unfold finishRead
        dsimp only
        rw [if_pos htotal]
        rfl
      · rw [if_neg htotal] at hdone
        split at hdone
        · exact absurd hdone hneg
        · split at hdone
          · exact absurd hdone hneg
          · exact absurd hdone hneg

/-- The put offset has 37 bits, which is enough for a local address. -/
theorem targets_descriptor (q : GetRequest) (h : p.localPa < 2 ^ 37) :
    (q.descriptor p).targets = p.locals := by
  have hoffset : (q.descriptor p).putOffset = p.localPa := Nat.mod_eq_of_lt h
  rw [MuDescriptor.targets, hoffset]
  rfl

theorem Terminated.address {pa len total : Nat} (h : Terminated l n) (hat : AtEntry l i pa len total) :
    pa < 2 ^ 37 := by
  obtain ⟨used, hplace, hlen, -⟩ := hat.place
  have htyped := h.typed i
  omega

theorem sum_pieces (l r : Nat → MudmSgl) (k : Nat) :
    ((pieces l r k).map Put.length).sum = passed l r k := by
  induction k with
  | zero => rfl
  | succ k ih =>
    rw [pieces_succ, List.map_append, List.sum_append, ih]
    simp [passed, Walk.put]

theorem sources_descriptors (q : GetRequest) (puts : List Put) :
    (puts.map q.descriptor).flatMap MuDescriptor.sources = puts.flatMap Put.remotes := by
  rw [List.flatMap_map]
  rfl

theorem length_remotes (puts : List Put) :
    (puts.flatMap Put.remotes).length = (puts.map Put.length).sum := by
  rw [List.length_flatMap]
  simp [Put.remotes]

/-- The descriptors of the pieces move the bytes of the remote list to the local one. -/
theorem Lives.transfers (h : Lives q.localSgl q.remoteSgl k) (hl : Terminated q.localSgl n)
    (hr : Terminated q.remoteSgl m) (hln : passed q.localSgl q.remoteSgl k ≤ bytesBefore q.localSgl n)
    (hrm : passed q.localSgl q.remoteSgl k ≤ bytesBefore q.remoteSgl m) :
    Transfers ((pieces q.localSgl q.remoteSgl k).map q.descriptor)
      ((sglBytes q.remoteSgl m).take (passed q.localSgl q.remoteSgl k))
      ((sglBytes q.localSgl n).take (passed q.localSgl q.remoteSgl k)) := by
  obtain ⟨hlocal, hremote⟩ := h.pieces_bytes hl.alive hr.alive hln hrm
  refine ⟨?_, ?_⟩
  · rw [sources_descriptors, hremote]
  · rw [← hlocal, List.flatMap_map]
    refine List.flatMap_congr fun p hp => targets_descriptor q ?_
    obtain ⟨i, hi, rfl⟩ := List.mem_map.mp hp
    exact hl.address (h.mono (Nat.le_of_lt (List.mem_range.mp hi))).at.1.localAt

/-- Lists that come to `b` bytes at the end of an entry are read to exactly there. -/
theorem mudmRdmaRead_at_end (rdmaObject : Nat) (hk : Lives l r (k + 1)) (hlt : passed l r k < b)
    (heq : passed l r (k + 1) = b) (hb : b < 2 ^ 32) (hrounds : k + 1 ≤ rounds) :
    (mudmRdmaRead b rdmaObject l r rounds).rc = some (-EINPROGRESS) ∧
      (mudmRdmaRead b rdmaObject l r rounds).puts = pieces l r (k + 1) := by
  obtain ⟨d, rfl⟩ := Nat.exists_eq_add_of_le hrounds
  have hgoes : Goes l r b k := (hk.mono (Nat.le_succ k)).goes hlt (Nat.le_of_lt hb)
  obtain ⟨t, ht, hbuilt⟩ := readLoop_goes hgoes (1 + d)
  have hlive : t.walk.live = true := by
    rw [hbuilt.walk]
    exact hk k (Nat.lt_succ_self k)
  have hsum : t.walk.sum = b := by
    rw [hbuilt.walk, after_sum, heq, Nat.mod_eq_of_lt hb]
  have hclip : t.walk.clipped b = t.walk.chunk := if_neg (by omega)
  have hlast : readLoop b l r (k + 1 + d) ⟨Walk.start l r, [], []⟩ =
      ({ t.makeRoom with
        bundle := t.makeRoom.bundle ++ [t.walk.put t.walk.chunk]
        walk := { t.walk with totalbytes := t.walk.sum } }, true) := by
    rw [Nat.add_assoc, ht, Nat.add_comm 1]
    unfold readLoop
    dsimp only
    rw [if_pos hlive, if_pos (Nat.le_of_eq hsum.symm), hclip]
  unfold mudmRdmaRead
  rw [hlast]
  dsimp only
  rw [if_pos rfl]
  unfold finishRead
  dsimp only
  rw [if_pos hsum]
  refine ⟨rfl, ?_⟩
  show t.makeRoom.sent ++ (t.makeRoom.bundle ++ [t.walk.put t.walk.chunk]) = _
  rw [← List.append_assoc, ReadWalk.makeRoom_puts, hbuilt.puts, hbuilt.walk, pieces_succ]

/-- Where an entry straddles byte `b`, the call fails or has built more than `b` bytes. -/
theorem mudmRdmaRead_straddled (hl : Terminated l n) (hk : Lives l r (k + 1)) (hlt : passed l r k < b)
    (hgt : b < passed l r (k + 1)) (hb : b < 2 ^ 32) (hrounds : k + 1 ≤ rounds)
    (hrc : (mudmRdmaRead b rdmaObject l r rounds).rc = some (-EINPROGRESS)) :
    b < ((mudmRdmaRead b rdmaObject l r rounds).puts.map Put.length).sum := by
  obtain ⟨t', ht', htotal, hputs⟩ := mudmRdmaRead_success hrc
  by_cases hwrap : passed l r (k + 1) < 2 ^ 32
  · obtain ⟨d, rfl⟩ := Nat.exists_eq_add_of_le hrounds
    have hgoes : Goes l r b k := (hk.mono (Nat.le_succ k)).goes hlt (Nat.le_of_lt hb)
    obtain ⟨t, ht, hbuilt⟩ := readLoop_goes hgoes (1 + d)
    have hlive : t.walk.live = true := by
      rw [hbuilt.walk]
      exact hk k (Nat.lt_succ_self k)
    have hsum : t.walk.sum = passed l r (k + 1) := by
      rw [hbuilt.walk, after_sum, Nat.mod_eq_of_lt hwrap]
    rw [Nat.add_assoc, ht, Nat.add_comm 1] at ht'
    unfold readLoop at ht'
    dsimp only at ht'
    rw [if_pos hlive, if_pos (by omega)] at ht'
    cases ht'
    have hover : t.walk.sum = b := htotal
    omega
  · -- The sum wraps to something small, and the whole piece is built.
    obtain ⟨d, rfl⟩ := Nat.exists_eq_add_of_le hrounds
    have hgoes := hk.goes_wrapped hl hlt hgt hb (Nat.not_lt.mp hwrap)
    obtain ⟨t, ht, hbuilt⟩ := readLoop_goes hgoes d
    rw [ht] at ht'
    have hprefix := readLoop_puts ht'
    rw [hbuilt.puts] at hprefix
    obtain ⟨rest, hrest⟩ := hprefix
    rw [hputs, ← hrest, List.map_append, List.sum_append, sum_pieces]
    omega

/-- A read of `bytesXfer` bytes from lists that have them goes through exactly if an entry ends at the
last of these bytes, and their number fits the 32 bits of `totalbytes`. -/
theorem read_completes_iff (hl : Terminated q.localSgl n) (hr : Terminated q.remoteSgl m)
    (hpos : 0 < q.bytesXfer) (hln : q.bytesXfer ≤ bytesBefore q.localSgl n)
    (hrm : q.bytesXfer ≤ bytesBefore q.remoteSgl m) :
    ReadCompletes q n m rdmaObject ↔
      q.bytesXfer < 2 ^ 32 ∧
        (EndsAt q.localSgl q.bytesXfer ∨ EndsAt q.remoteSgl q.bytesXfer) := by
  have hholds : Holds q.localSgl q.bytesXfer := ⟨n, hl.alive, hln⟩
  have hholds' : Holds q.remoteSgl q.bytesXfer := ⟨m, hr.alive, hrm⟩
  obtain ⟨k, hk, hlt, hle⟩ := exists_round hholds hholds' hpos
  constructor
  · rintro ⟨rounds, hall⟩
    obtain ⟨hrc, htrans⟩ := hall (max rounds (k + 1)) (Nat.le_max_left _ _)
    obtain ⟨t, ht, htotal, -⟩ := mudmRdmaRead_success hrc
    have hb : q.bytesXfer < 2 ^ 32 := htotal ▸ readLoop_total (Nat.two_pow_pos 32) ht
    refine ⟨hb, ?_⟩
    by_contra hends
    have hgt : q.bytesXfer < passed q.localSgl q.remoteSgl (k + 1) := by
      refine lt_of_le_of_ne hle fun heq => hends ?_
      have hcome := hk.comesTo
      rw [← heq] at hcome
      exact hcome.2.2
    have hlong := mudmRdmaRead_straddled hl hk hlt hgt hb (Nat.le_max_right _ _) hrc
    have hlen := congrArg List.length htrans.reads
    rw [sources_descriptors, length_remotes, List.length_take] at hlen
    omega
  · rintro ⟨hb, hends⟩
    have heq : passed q.localSgl q.remoteSgl (k + 1) = q.bytesXfer := by
      have hchunk := (hk.mono (Nat.le_succ k)).at.1.chunk_le hends hlt
      exact Nat.le_antisymm hchunk hle
    refine ⟨k + 1, fun rounds hrounds => ?_⟩
    obtain ⟨hrc, hputs⟩ := mudmRdmaRead_at_end rdmaObject hk hlt heq hb hrounds
    refine ⟨hrc, ?_⟩
    have htrans := hk.transfers hl hr (heq ▸ hln) (heq ▸ hrm)
    rw [heq] at htrans
    rw [hputs]
    exact htrans

/-- A local entry of 100 bytes and two remote ones of 60 bytes. -/
def twoForOne (bytesXfer : Nat) : GetRequest :=
  { localSgl := sglOf [⟨0x1000, 100⟩]
    remoteSgl := sglOf [⟨0x2000, 60⟩, ⟨0x3000, 60⟩]
    bytesXfer := bytesXfer
    template := default
    rdmaObjectPa := 64 }

theorem twoForOne_terminated (b : Nat) :
    Terminated (twoForOne b).localSgl 1 ∧ Terminated (twoForOne b).remoteSgl 2 :=
  ⟨terminated_sglOf (by decide), terminated_sglOf (by decide)⟩

theorem read_completes_whole : ReadCompletes (twoForOne 100) 1 2 64 := by
  obtain ⟨hl, hr⟩ := twoForOne_terminated 100
  exact (read_completes_iff hl hr (by decide) (by decide) (by decide)).mpr
    ⟨by decide, Or.inl ⟨1, hl.alive, rfl, nofun⟩⟩

/-- Both lists have more than the 50 bytes asked for, and the call fails with nothing sent. -/
theorem read_fails_short :
    Terminated (twoForOne 50).localSgl 1 ∧ Terminated (twoForOne 50).remoteSgl 2 ∧
      50 ≤ bytesBefore (twoForOne 50).localSgl 1 ∧ 50 ≤ bytesBefore (twoForOne 50).remoteSgl 2 ∧
      ¬ ReadCompletes (twoForOne 50) 1 2 64 := by
  obtain ⟨hl, hr⟩ := twoForOne_terminated 50
  refine ⟨hl, hr, by decide, by decide, ?_⟩
  rintro ⟨rounds, hall⟩
  obtain ⟨hrc, -⟩ := hall (rounds + 1) (Nat.le_succ rounds)
  have hfail : (mudmRdmaRead 50 64 (twoForOne 50).localSgl (twoForOne 50).remoteSgl
      (rounds + 1)).rc = some (-EINVAL) := rfl
  have hne : ¬ some (-EINVAL) = some (-EINPROGRESS) := by decide
  exact hne (hfail.symm.trans hrc)

end BgqVrnic
