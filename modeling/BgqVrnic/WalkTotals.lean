import BgqVrnic.WalkBounds

namespace BgqVrnic

/-- `totalbytes` when the loop of `mudm_rdma_read` is left, if that is within the given rounds. -/
def walkTotal (bytesXfer : Nat) (localSgl remoteSgl : Nat → MudmSgl) : Nat → Walk → Option Nat
  | 0, _ => none
  | rounds + 1, w =>
    if w.live then
      if bytesXfer ≤ w.sum then some w.sum
      else walkTotal bytesXfer localSgl remoteSgl rounds (w.advance localSgl remoteSgl)
    else some w.totalbytes

/-- The list has `n` entries before the null address. -/
def Alive (l : Nat → MudmSgl) (n : Nat) : Prop := ∀ i < n, (l i).physicalAddr ≠ 0

/-- The list has this many bytes before the null address. -/
def Holds (l : Nat → MudmSgl) (b : Nat) : Prop := ∃ n, Alive l n ∧ b ≤ bytesBefore l n

/-- An entry of the list ends at this byte; a list without entries ends at its start. -/
def EndsAt (l : Nat → MudmSgl) (b : Nat) : Prop :=
  ∃ n, Alive l n ∧ bytesBefore l n = b ∧ (n = 0 → (l 0).physicalAddr = 0)

/-- Both lists have the bytes, and at the last one an entry of one of them ends. -/
def ComesTo (b : Nat) (l r : Nat → MudmSgl) : Prop :=
  Holds l b ∧ Holds r b ∧ (EndsAt l b ∨ EndsAt r b)

/-- A cursor in entry `i` of a list, with `len` bytes of the entry from `pa` on left and `total` bytes of
the list behind it. -/
structure AtEntry (l : Nat → MudmSgl) (i pa len total : Nat) : Prop where
  alive : Alive l i
  place : ∃ used, pa = (l i).physicalAddr + used ∧ len + used = (l i).memlength ∧
    (0 < used → (l i).physicalAddr ≠ 0) ∧ total = bytesBefore l i + used

/-- Both cursors of a walk have passed `total` bytes. -/
structure Walk.At (l r : Nat → MudmSgl) (total : Nat) (w : Walk) : Prop where
  localAt : AtEntry l w.li w.curLocalPa w.curLocalMemlength total
  remoteAt : AtEntry r w.ri w.curRemotePa w.curRemoteMemlength total

/-- Both cursors of a walk have passed `totalbytes` bytes. -/
structure Walk.Level (l r : Nat → MudmSgl) (w : Walk) : Prop where
  localAt : AtEntry l w.li w.curLocalPa w.curLocalMemlength w.totalbytes
  remoteAt : AtEntry r w.ri w.curRemotePa w.curRemoteMemlength w.totalbytes

variable {l r : Nat → MudmSgl} {i pa len total b n t t' rounds bytesXfer : Nat} {w : Walk}

theorem walkTotal_step : walkTotal bytesXfer l r (rounds + 1) w =
    if w.live then
      if bytesXfer ≤ w.sum then some w.sum else walkTotal bytesXfer l r rounds (w.advance l r)
    else some w.totalbytes := rfl

theorem walkTotal_add (h : walkTotal bytesXfer l r rounds w = some t) :
    walkTotal bytesXfer l r (rounds + n) w = some t := by
  induction rounds generalizing w with
  | zero => cases h
  | succ rounds ih =>
    rw [Nat.add_right_comm, walkTotal_step]
    rw [walkTotal_step] at h
    split at h
    next hlive =>
      rw [if_pos hlive]
      split at h
      next hlast => rw [if_pos hlast, h]
      next hlast => rw [if_neg hlast, ih h]
    next hlive => rw [if_neg hlive, h]

/-- The loop is left with one byte count. -/
theorem walkTotal_unique (h : walkTotal bytesXfer l r rounds w = some t)
    (h' : walkTotal bytesXfer l r n w = some t') : t = t' := by
  have hlong := walkTotal_add (n := n) h
  rw [Nat.add_comm, walkTotal_add h'] at hlong
  exact (Option.some.inj hlong).symm

theorem Alive.succ (h : Alive l i) (hi : (l i).physicalAddr ≠ 0) : Alive l (i + 1) := by
  intro k hk
  by_cases hki : k = i
  · rw [hki]
    exact hi
  · apply h
    omega

namespace AtEntry

/-- An entry that a cursor with an address is in has one. -/
theorem next_alive (h : AtEntry l i pa len total) (hpa : pa ≠ 0) : Alive l (i + 1) := by
  obtain ⟨used, hplace, -, hused, -⟩ := h.place
  apply h.alive.succ
  by_cases hz : used = 0
  · omega
  · apply hused
    omega

theorem next_total (h : AtEntry l i pa len total) : bytesBefore l (i + 1) = total + len := by
  obtain ⟨used, -, hlen, -, htotal⟩ := h.place
  rw [bytesBefore]
  omega

theorem next (h : AtEntry l i pa len total) (hpa : pa ≠ 0) :
    AtEntry l (i + 1) (l (i + 1)).physicalAddr (l (i + 1)).memlength (total + len) where
  alive := h.next_alive hpa
  place := ⟨0, rfl, rfl, nofun, h.next_total.symm⟩

theorem within (h : AtEntry l i pa len total) (hpa : pa ≠ 0) (hn : n ≤ len) :
    AtEntry l i (pa + n) (len - n) (total + n) := by
  have halive := h.next_alive hpa
  obtain ⟨used, hplace, hlen, -, htotal⟩ := h.place
  refine ⟨h.alive, used + n, ?_, ?_, ?_, ?_⟩
  · omega
  · omega
  · exact fun _ => halive i (Nat.lt_succ_self i)
  · omega

theorem holds_next (h : AtEntry l i pa len total) (hpa : pa ≠ 0) (hn : b ≤ total + len) :
    Holds l b := by
  refine ⟨i + 1, h.next_alive hpa, ?_⟩
  rw [h.next_total]
  exact hn

theorem ends_next (h : AtEntry l i pa len total) (hpa : pa ≠ 0) : EndsAt l (total + len) :=
  ⟨i + 1, h.next_alive hpa, h.next_total, nofun⟩

theorem holds (h : AtEntry l i pa len total) : Holds l total := by
  by_cases hpa : pa = 0
  · obtain ⟨used, hplace, -, -, htotal⟩ := h.place
    refine ⟨i, h.alive, ?_⟩
    omega
  · exact h.holds_next hpa (Nat.le_add_right _ _)

/-- A cursor without an address has come to the end of its list. -/
theorem ends_dead (h : AtEntry l i pa len total) (hpa : pa = 0) : EndsAt l total := by
  obtain ⟨used, hplace, -, -, htotal⟩ := h.place
  refine ⟨i, h.alive, ?_, ?_⟩
  · omega
  · intro hi
    rw [hi] at hplace
    omega

/-- A cursor does not step over the end of an entry. -/
theorem le_of_endsAt (h : AtEntry l i pa len total) (hb : EndsAt l b) (hlt : total < b) :
    total + len ≤ b := by
  obtain ⟨n, -, hn, -⟩ := hb
  obtain ⟨used, -, -, -, htotal⟩ := h.place
  have hin : i < n := by
    by_contra hle
    have hmono := bytesBefore_mono (l := l) (Nat.not_lt.mp hle)
    omega
  rw [← h.next_total, ← hn]
  exact bytesBefore_mono hin

/-- As long as bytes are missing that the list has, the cursor has an address. -/
theorem behind (h : AtEntry l i pa len total) (ha : Alive l n) (hn : b ≤ bytesBefore l n)
    (hlt : total < b) : pa ≠ 0 ∧ i < n := by
  obtain ⟨used, hplace, -, -, htotal⟩ := h.place
  have hin : i < n := by
    by_contra hle
    have hmono := bytesBefore_mono (l := l) (Nat.not_lt.mp hle)
    omega
  have hpa := ha i hin
  exact ⟨by omega, hin⟩

end AtEntry

theorem level_start : (Walk.start l r).Level l r :=
  ⟨⟨nofun, 0, rfl, rfl, nofun, rfl⟩, ⟨nofun, 0, rfl, rfl, nofun, rfl⟩⟩

theorem Walk.live_iff : w.live = true ↔ w.curLocalPa ≠ 0 ∧ w.curRemotePa ≠ 0 := by
  simp [Walk.live]

/-- A round of the loop takes both cursors on by the same number of bytes. -/
theorem Walk.At.advance (h : w.At l r total) (hlive : w.live = true) :
    (w.advance l r).At l r (total + w.chunk) ∧
      w.li + w.ri < (w.advance l r).li + (w.advance l r).ri := by
  obtain ⟨hlocal, hremote⟩ := Walk.live_iff.mp hlive
  unfold Walk.advance
  by_cases heq : w.curLocalMemlength = w.curRemoteMemlength
  · have hchunk : w.chunk = w.curLocalMemlength := by rw [Walk.chunk, ← heq, Nat.min_self]
    rw [if_pos heq, hchunk]
    refine ⟨⟨h.localAt.next hlocal, ?_⟩, by dsimp only; omega⟩
    rw [heq]
    exact h.remoteAt.next hremote
  · rw [if_neg heq]
    by_cases hlt : w.curLocalMemlength < w.curRemoteMemlength
    · have hchunk : w.chunk = w.curLocalMemlength := Nat.min_eq_left (Nat.le_of_lt hlt)
      rw [if_pos hlt, hchunk]
      exact ⟨⟨h.localAt.next hlocal, h.remoteAt.within hremote (Nat.le_of_lt hlt)⟩,
        by dsimp only; omega⟩
    · have hle : w.curRemoteMemlength ≤ w.curLocalMemlength := Nat.not_lt.mp hlt
      have hchunk : w.chunk = w.curRemoteMemlength := Nat.min_eq_right hle
      rw [if_neg hlt, hchunk]
      exact ⟨⟨h.localAt.within hlocal hle, h.remoteAt.next hremote⟩, by dsimp only; omega⟩

theorem Walk.advance_totalbytes : (w.advance l r).totalbytes = w.sum := by
  unfold Walk.advance
  split
  · rfl
  · split <;> rfl

namespace Walk.At

/-- The bytes of a round end with those of an entry. -/
theorem comesTo_sum (h : w.At l r total) (hlive : w.live = true) :
    ComesTo (total + w.chunk) l r := by
  obtain ⟨hlocal, hremote⟩ := Walk.live_iff.mp hlive
  have hl : w.chunk ≤ w.curLocalMemlength := Nat.min_le_left _ _
  have hr : w.chunk ≤ w.curRemoteMemlength := Nat.min_le_right _ _
  refine ⟨h.localAt.holds_next hlocal (by omega), h.remoteAt.holds_next hremote (by omega), ?_⟩
  by_cases hle : w.curLocalMemlength ≤ w.curRemoteMemlength
  · have hchunk : w.chunk = w.curLocalMemlength := Nat.min_eq_left hle
    rw [hchunk]
    exact Or.inl (h.localAt.ends_next hlocal)
  · have hchunk : w.chunk = w.curRemoteMemlength := Nat.min_eq_right (Nat.le_of_not_le hle)
    rw [hchunk]
    exact Or.inr (h.remoteAt.ends_next hremote)

theorem comesTo_dead (h : w.At l r total) (hdead : ¬ w.live = true) : ComesTo total l r := by
  refine ⟨h.localAt.holds, h.remoteAt.holds, ?_⟩
  by_cases hlocal : w.curLocalPa = 0
  · exact Or.inl (h.localAt.ends_dead hlocal)
  · have hremote : w.curRemotePa = 0 := by
      by_contra hremote
      exact hdead (Walk.live_iff.mpr ⟨hlocal, hremote⟩)
    exact Or.inr (h.remoteAt.ends_dead hremote)

/-- While bytes are missing, a round does not go beyond the end of an entry. -/
theorem chunk_le (h : w.At l r total) (hends : EndsAt l b ∨ EndsAt r b) (hlt : total < b) :
    total + w.chunk ≤ b := by
  have hl : w.chunk ≤ w.curLocalMemlength := Nat.min_le_left _ _
  have hr : w.chunk ≤ w.curRemoteMemlength := Nat.min_le_right _ _
  rcases hends with hends | hends
  · have hle := h.localAt.le_of_endsAt hends hlt
    omega
  · have hle := h.remoteAt.le_of_endsAt hends hlt
    omega

end Walk.At

namespace Walk.Level

theorem at_total (h : w.Level l r) : w.At l r w.totalbytes := ⟨h.localAt, h.remoteAt⟩

theorem advance (h : w.Level l r) (hlive : w.live = true) (hsum : w.sum = w.totalbytes + w.chunk) :
    (w.advance l r).Level l r ∧ (w.advance l r).totalbytes = w.sum ∧
      w.li + w.ri < (w.advance l r).li + (w.advance l r).ri := by
  obtain ⟨hat, hgrow⟩ := h.at_total.advance hlive
  rw [← hsum, ← Walk.advance_totalbytes (l := l) (r := r)] at hat
  exact ⟨⟨hat.localAt, hat.remoteAt⟩, Walk.advance_totalbytes, hgrow⟩

section Short

variable (hshort : ∀ i, (l i).memlength < 2 ^ 28) (hb : b < 2 ^ 31)

include hshort hb in
theorem sum_eq (h : w.Level l r) (hle : w.totalbytes ≤ b) : w.sum = w.totalbytes + w.chunk := by
  obtain ⟨used, -, hlen, -⟩ := h.localAt.place
  have hl : w.chunk ≤ w.curLocalMemlength := Nat.min_le_left _ _
  have hi := hshort w.li
  unfold Walk.sum
  apply Nat.mod_eq_of_lt
  omega

include hshort hb in
theorem comesTo (h : w.Level l r) (hle : w.totalbytes ≤ b)
    (hw : walkTotal b l r rounds w = some b) : ComesTo b l r := by
  induction rounds generalizing w with
  | zero => cases hw
  | succ rounds ih =>
    have hsum := h.sum_eq hshort hb hle
    rw [walkTotal_step] at hw
    split at hw
    next hlive =>
      split at hw
      next =>
        have hsame := Option.some.inj hw
        rw [hsum] at hsame
        rw [← hsame]
        exact h.at_total.comesTo_sum hlive
      next hmore =>
        obtain ⟨hlevel, htotal, -⟩ := h.advance hlive hsum
        apply ih hlevel _ hw
        rw [htotal]
        exact Nat.le_of_not_le hmore
    next hdead =>
      have hsame := Option.some.inj hw
      rw [← hsame]
      exact h.at_total.comesTo_dead hdead

include hshort hb in
/-- A walk with bytes missing ends with the last of them, at the end of an entry. -/
theorem walkTotal_of_missing {k m : Nat} (h : w.Level l r) (hlt : w.totalbytes < b)
    (hk : Alive l k) (hkb : b ≤ bytesBefore l k) (hm : Alive r m) (hmb : b ≤ bytesBefore r m)
    (hends : EndsAt l b ∨ EndsAt r b) (hn : k + m ≤ n + (w.li + w.ri)) :
    walkTotal b l r n w = some b := by
  induction n generalizing w with
  | zero =>
    obtain ⟨-, hik⟩ := h.localAt.behind hk hkb hlt
    obtain ⟨-, him⟩ := h.remoteAt.behind hm hmb hlt
    omega
  | succ n ih =>
    obtain ⟨hlocal, -⟩ := h.localAt.behind hk hkb hlt
    obtain ⟨hremote, -⟩ := h.remoteAt.behind hm hmb hlt
    have hlive : w.live = true := Walk.live_iff.mpr ⟨hlocal, hremote⟩
    have hsum := h.sum_eq hshort hb (Nat.le_of_lt hlt)
    have hle := h.at_total.chunk_le hends hlt
    rw [walkTotal_step, if_pos hlive]
    split
    next hlast =>
      have hsame : w.sum = b := by omega
      rw [hsame]
    next hmore =>
      obtain ⟨hlevel, htotal, hgrow⟩ := h.advance hlive hsum
      apply ih hlevel
      · omega
      · omega

end Short

end Walk.Level

theorem endsAt_zero (h : EndsAt l 0) : (l 0).memlength = 0 ∨ (l 0).physicalAddr = 0 := by
  obtain ⟨n, -, hn, hnull⟩ := h
  by_cases hz : n = 0
  · exact Or.inr (hnull hz)
  · have hmono := bytesBefore_mono (l := l) (i := 1) (n := n) (by omega)
    simp only [bytesBefore] at hmono
    left
    omega

/-- The loop is left with the byte count asked for exactly if the lists come to it together. -/
theorem walkTotal_iff (hshort : ∀ i, (l i).memlength < 2 ^ 28) (hb : b < 2 ^ 31) :
    (∃ n, walkTotal b l r n (Walk.start l r) = some b) ↔ ComesTo b l r := by
  constructor
  · rintro ⟨n, hn⟩
    exact level_start.comesTo hshort hb (Nat.zero_le _) hn
  · rintro ⟨⟨k, hk, hkb⟩, ⟨m, hm, hmb⟩, hends⟩
    by_cases hz : b = 0
    · subst hz
      refine ⟨1, ?_⟩
      rw [walkTotal_step]
      split
      next hlive =>
        rw [if_pos (Nat.zero_le _)]
        obtain ⟨hlocal, hremote⟩ := Walk.live_iff.mp hlive
        have hempty : (Walk.start l r).chunk = 0 := by
          rcases hends with hends | hends
          · have hlen := (endsAt_zero hends).resolve_right hlocal
            rw [Walk.chunk]
            exact Nat.min_eq_zero_iff.mpr (Or.inl hlen)
          · have hlen := (endsAt_zero hends).resolve_right hremote
            rw [Walk.chunk]
            exact Nat.min_eq_zero_iff.mpr (Or.inr hlen)
        rw [Walk.sum, hempty]
        rfl
      next => rfl
    · refine ⟨k + m, ?_⟩
      apply level_start.walkTotal_of_missing hshort hb _ hk hkb hm hmb hends
      · exact Nat.le_add_right _ _
      · show 0 < b
        omega

end BgqVrnic
