import BgqVrnic.DirectPuts

namespace BgqVrnic

/-- The bytes of the first `n` entries of a local list. -/
def bytesBefore (l : Nat → MudmSgl) : Nat → Nat
  | 0 => 0
  | n + 1 => bytesBefore l n + (l n).memlength

/-- A put stays inside one of the first `num` entries. -/
def Put.Inside (l : Nat → MudmSgl) (num : Nat) (p : Put) : Prop :=
  p.entry < num ∧ (l p.entry).physicalAddr ≤ p.localPa ∧
    p.localPa + p.length ≤ (l p.entry).physicalAddr + (l p.entry).memlength

/-- The local cursor is somewhere in the first `num` entries, and `totalbytes` counts what it has
passed. -/
structure Walk.Inside (l : Nat → MudmSgl) (num bytesXfer : Nat) (w : Walk) : Prop where
  entry : w.li < num
  total : w.totalbytes ≤ bytesXfer
  place : ∃ used ≤ (l w.li).memlength, w.curLocalPa = (l w.li).physicalAddr + used ∧
    w.curLocalMemlength = (l w.li).memlength - used ∧ w.totalbytes = bytesBefore l w.li + used

variable {l r : Nat → MudmSgl} {num bytesXfer i n : Nat} {w : Walk} {t : ReadWalk}
variable {bundle sent puts : List Put} {rounds : Nat}

theorem bytesBefore_mono (h : i ≤ n) : bytesBefore l i ≤ bytesBefore l n := by
  induction n with
  | zero =>
    obtain rfl : i = 0 := by omega
    exact Nat.le_refl _
  | succ n ih =>
    by_cases hi : i = n + 1
    · rw [hi]
    · have := ih (by omega)
      simp only [bytesBefore]
      omega

section Covered

variable (hshort : ∀ i < num, (l i).memlength < 2 ^ 28)
variable (hcover : bytesXfer ≤ bytesBefore l num) (hbytes : bytesXfer < 2 ^ 31)

include hshort hbytes in
theorem Walk.Inside.sum_eq (h : w.Inside l num bytesXfer) : w.sum = w.totalbytes + w.chunk := by
  obtain ⟨used, hused, -, hlen, -⟩ := h.place
  have hl := hshort w.li h.entry
  have ht := h.total
  have hc : w.chunk ≤ w.curLocalMemlength := Nat.min_le_left ..
  unfold Walk.sum
  exact Nat.mod_eq_of_lt (by omega)

theorem Walk.Inside.put (h : w.Inside l num bytesXfer) (hn : n ≤ w.chunk) :
    (w.put n).Inside l num := by
  obtain ⟨used, hused, hpa, hlen, -⟩ := h.place
  have hc : w.chunk ≤ w.curLocalMemlength := Nat.min_le_left ..
  unfold Put.Inside
  simp only [Walk.put]
  exact ⟨h.entry, by omega, by omega⟩

include hshort hbytes in
theorem Walk.Inside.clipped_le (h : w.Inside l num bytesXfer) : w.clipped bytesXfer ≤ w.chunk := by
  have hsum := h.sum_eq hshort hbytes
  have ht := h.total
  unfold Walk.clipped
  split
  · have hmod : (bytesXfer + w.chunk + (2 ^ 64 - w.sum)) % 2 ^ 64 = bytesXfer - w.totalbytes := by
      obtain ⟨used, hused, -, hlen, -⟩ := h.place
      have hl := hshort w.li h.entry
      have hc : w.chunk ≤ w.curLocalMemlength := Nat.min_le_left ..
      omega
    omega
  · exact Nat.le_refl _

include hshort hcover hbytes in
/-- While bytes are missing, the entries seen so far cannot be all of them. -/
theorem Walk.Inside.advance (h : w.Inside l num bytesXfer) (hsum : w.sum < bytesXfer) :
    (w.advance l r).Inside l num bytesXfer := by
  have heq := h.sum_eq hshort hbytes
  obtain ⟨used, hused, hpa, hlen, htotal⟩ := h.place
  have hentry := h.entry
  -- Once the local entry is used up, the total is that of a whole number of entries.
  have hnext : w.curLocalMemlength ≤ w.curRemoteMemlength →
      w.sum = bytesBefore l (w.li + 1) ∧ w.li + 1 < num := by
    intro hle
    have hchunk : w.chunk = w.curLocalMemlength := Nat.min_eq_left hle
    have hb : w.sum = bytesBefore l (w.li + 1) := by
      simp only [bytesBefore]
      omega
    refine ⟨hb, ?_⟩
    by_contra hlast
    obtain rfl : num = w.li + 1 := by omega
    omega
  unfold Walk.advance
  by_cases heq' : w.curLocalMemlength = w.curRemoteMemlength
  · obtain ⟨hb, hlt⟩ := hnext (by omega)
    rw [if_pos heq']
    exact ⟨hlt, by dsimp only; omega, 0, by simp, by simp, by simp, by simpa using hb⟩
  · rw [if_neg heq']
    by_cases hlt : w.curLocalMemlength < w.curRemoteMemlength
    · obtain ⟨hb, hlt'⟩ := hnext (by omega)
      rw [if_pos hlt]
      exact ⟨hlt', by dsimp only; omega, 0, by simp, by simp, by simp, by simpa using hb⟩
    · have hchunk : w.chunk = w.curRemoteMemlength := Nat.min_eq_right (by omega)
      rw [if_neg hlt]
      refine ⟨hentry, by dsimp only; omega, used + w.curRemoteMemlength, ?_, ?_, ?_, ?_⟩ <;>
        dsimp only <;> omega

include hshort hcover hbytes in
theorem writeLoop_inside (h : w.Inside l num bytesXfer)
    (hputs : ∀ p ∈ puts, p.Inside l num) :
    ∀ p ∈ (writeLoop bytesXfer l r rounds w puts).puts, p.Inside l num := by
  induction rounds generalizing w puts with
  | zero => exact hputs
  | succ rounds ih =>
    have hput : ∀ p ∈ puts ++ [w.put w.chunk], p.Inside l num := by
      intro p hp
      rcases List.mem_append.mp hp with hp | hp
      · exact hputs p hp
      · obtain rfl := List.mem_singleton.mp hp
        exact h.put (Nat.le_refl _)
    unfold writeLoop
    split
    · split
      · exact hputs
      · split
        · exact hput
        next hmore =>
          exact ih (h.advance hshort hcover hbytes (by omega)) hput
    · split <;> exact hputs

include hshort hcover hbytes in
theorem readLoop_inside (rounds : Nat) (h : t.walk.Inside l num bytesXfer)
    (hputs : ∀ p ∈ t.sent ++ t.bundle, p.Inside l num) :
    ∀ p ∈ (readLoop bytesXfer l r rounds t).1.sent ++ (readLoop bytesXfer l r rounds t).1.bundle,
      p.Inside l num := by
  induction rounds generalizing t with
  | zero => exact hputs
  | succ rounds ih =>
    have hroom : t.makeRoom.sent ++ t.makeRoom.bundle = t.sent ++ t.bundle := by
      unfold ReadWalk.makeRoom ReadWalk.flush
      split <;> simp
    have hput : ∀ p ∈ t.makeRoom.sent ++
        (t.makeRoom.bundle ++ [t.walk.put (t.walk.clipped bytesXfer)]), p.Inside l num := by
      intro p hp
      rw [← List.append_assoc, hroom] at hp
      rcases List.mem_append.mp hp with hp | hp
      · exact hputs p hp
      · obtain rfl := List.mem_singleton.mp hp
        exact h.put (h.clipped_le hshort hbytes)
    unfold readLoop
    dsimp only
    split
    · split
      · exact hput
      next hmore => exact ih (h.advance hshort hcover hbytes (by omega)) hput
    · exact hputs

theorem Walk.start_inside (hnum : 0 < num) : (Walk.start l r).Inside l num bytesXfer :=
  ⟨hnum, Nat.zero_le _, 0, by simp [Walk.start], by simp [Walk.start], by simp [Walk.start], rfl⟩

include hshort hcover hbytes in
/-- Where the entries cover the transfer, a write stays inside them, whatever the remote list. -/
theorem mudmRdmaWrite_inside (hnum : 0 < num) :
    ∀ p ∈ (mudmRdmaWrite bytesXfer l r rounds).puts, p.Inside l num := by
  unfold mudmRdmaWrite
  split
  · simp
  · exact writeLoop_inside hshort hcover hbytes (Walk.start_inside hnum) (by simp)

include hshort hcover hbytes in
theorem mudmRdmaRead_inside {rdmaObject : Nat} (hnum : 0 < num) :
    ∀ p ∈ (mudmRdmaRead bytesXfer rdmaObject l r rounds).puts, p.Inside l num := by
  have hstart : (ReadWalk.walk ⟨Walk.start l r, [], []⟩).Inside l num bytesXfer :=
    Walk.start_inside hnum
  have hloop := readLoop_inside (r := r) hshort hcover hbytes rounds hstart (by simp)
  revert hloop
  unfold mudmRdmaRead
  cases readLoop bytesXfer l r rounds ⟨Walk.start l r, [], []⟩ with
  | mk t left =>
    intro hloop p hp
    -- Whatever the branch, the puts that went out are among those that were built.
    have hsub : p ∈ t.sent ++ t.bundle → p.Inside l num := hloop p
    have hsent : p ∈ t.sent → p.Inside l num := fun h => hsub (List.mem_append_left _ h)
    dsimp only at hp
    unfold finishRead ReadWalk.flush at hp
    dsimp only at hp
    split at hp
    · split at hp
      · exact hsub hp
      · split at hp
        · simp at hp
        · split at hp
          · exact hsub hp
          · exact hsent hp
    · exact hsent hp

end Covered

/-- A remote list with entries of the same sizes as the local one, so that both are stepped over
together. -/
def mirror (l : Nat → MudmSgl) (i : Nat) : MudmSgl := ⟨1, (l i).memlength⟩

/-- The walk against that list when it gets to entry `i`. -/
def mirrorWalk (l : Nat → MudmSgl) (i : Nat) : Walk :=
  { li := i, ri := i
    curLocalPa := (l i).physicalAddr, curLocalMemlength := (l i).memlength
    curRemotePa := 1, curRemoteMemlength := (l i).memlength
    totalbytes := bytesBefore l i % 2 ^ 32 }

theorem mirrorWalk_chunk : (mirrorWalk l i).chunk = (l i).memlength := by
  simp [Walk.chunk, mirrorWalk]

theorem mirrorWalk_sum : (mirrorWalk l i).sum = bytesBefore l (i + 1) % 2 ^ 32 := by
  rw [Walk.sum, mirrorWalk_chunk]
  simp [mirrorWalk, bytesBefore]

theorem mirrorWalk_advance : (mirrorWalk l i).advance l (mirror l) = mirrorWalk l (i + 1) := by
  unfold Walk.advance
  rw [mirrorWalk_sum]
  exact if_pos rfl

theorem start_mirror : Walk.start l (mirror l) = mirrorWalk l 0 := rfl

section Endless

/-! Where the entries never add up to the transfer, the walk against the mirrored list goes on as long
as the entries have an address. -/

variable (hlive : ∀ i, (l i).physicalAddr ≠ 0)
variable (hsum : ∀ i, bytesBefore l i % 2 ^ 32 < bytesXfer)

include hlive in
theorem mirrorWalk_live : (mirrorWalk l i).live = true := by
  simp [Walk.live, mirrorWalk, hlive i]

include hlive hsum in
theorem writeLoop_mirror (i : Nat) (puts : List Put) :
    ∃ p ∈ (writeLoop bytesXfer l (mirror l) (n + 1) (mirrorWalk l i) puts).puts,
      p.entry = i + n := by
  have hlt : ∀ i, ¬ bytesXfer ≤ (mirrorWalk l i).sum := by
    intro i
    have := hsum (i + 1)
    rw [mirrorWalk_sum]
    omega
  induction n generalizing i puts with
  | zero =>
    unfold writeLoop
    rw [if_pos (mirrorWalk_live hlive), if_neg (fun h => hlt i (Nat.le_of_lt h)), if_neg (hlt i)]
    exact ⟨_, List.mem_append_right _ (List.mem_singleton_self _), rfl⟩
  | succ n ih =>
    unfold writeLoop
    rw [if_pos (mirrorWalk_live hlive), if_neg (fun h => hlt i (Nat.le_of_lt h)), if_neg (hlt i),
      mirrorWalk_advance]
    obtain ⟨p, hp, he⟩ := ih (i + 1) (puts ++ [(mirrorWalk l i).put (mirrorWalk l i).chunk])
    exact ⟨p, hp, by omega⟩

include hlive hsum in
/-- A read builds one put an entry; all but the last eight have gone out. -/
theorem readLoop_mirror (i n : Nat) (sent : List Put) (hb : bundle.length ≤ 8) :
    ∃ t, readLoop bytesXfer l (mirror l) n ⟨mirrorWalk l i, bundle, sent⟩ = (t, false) ∧
      t.bundle.length ≤ 8 ∧
      (t.sent ++ t.bundle).map Put.entry = (sent ++ bundle).map Put.entry ++ List.range' i n := by
  induction n generalizing i bundle sent with
  | zero => exact ⟨_, rfl, hb, by simp⟩
  | succ n ih =>
    have hlt : ¬ bytesXfer ≤ (mirrorWalk l i).sum := by
      have := hsum (i + 1)
      rw [mirrorWalk_sum]
      omega
    unfold readLoop
    dsimp only
    rw [if_pos (mirrorWalk_live hlive), if_neg hlt, mirrorWalk_advance]
    obtain ⟨bundle', sent', hroom, hcat, hlen⟩ : ∃ bundle' sent',
        ReadWalk.makeRoom ⟨mirrorWalk l i, bundle, sent⟩ = ⟨mirrorWalk l i, bundle', sent'⟩ ∧
          sent' ++ bundle' = sent ++ bundle ∧ bundle'.length < 8 := by
      unfold ReadWalk.makeRoom ReadWalk.flush
      by_cases h8 : bundle.length = 8
      · exact ⟨[], sent ++ bundle, by simp [h8], by simp, by simp⟩
      · exact ⟨bundle, sent, by simp [h8], rfl, by omega⟩
    rw [hroom]
    have hb' : (bundle' ++ [(mirrorWalk l i).put ((mirrorWalk l i).clipped bytesXfer)]).length ≤ 8 := by
      rw [List.length_append, List.length_singleton]
      omega
    obtain ⟨t, ht, hlen', hmap⟩ := ih (i + 1) sent' hb'
    refine ⟨t, ht, hlen', ?_⟩
    rw [hmap, ← List.append_assoc, hcat, List.range'_succ]
    simp [Walk.put, mirrorWalk]

include hlive hsum in
theorem mudmRdmaWrite_mirror :
    ∃ p ∈ (mudmRdmaWrite bytesXfer l (mirror l) (n + 1)).puts, p.entry = n := by
  have hpos : bytesXfer ≠ 0 := by
    have := hsum 0
    omega
  obtain ⟨p, hp, he⟩ := writeLoop_mirror (n := n) hlive hsum 0 []
  refine ⟨p, ?_, by omega⟩
  unfold mudmRdmaWrite
  rwa [if_neg hpos, start_mirror]

include hlive hsum in
theorem mudmRdmaRead_mirror {rdmaObject : Nat} :
    ∃ p ∈ (mudmRdmaRead bytesXfer rdmaObject l (mirror l) (n + 9)).puts, p.entry = n := by
  have hempty : ([] : List Put).length ≤ 8 := Nat.zero_le _
  obtain ⟨t, ht, hlen, hmap⟩ := readLoop_mirror hlive hsum 0 (n + 9) [] hempty
  unfold mudmRdmaRead
  rw [start_mirror, ht]
  have hcount : t.sent.length + t.bundle.length = n + 9 := by
    have := congrArg List.length hmap
    simpa using this
  have hn : n < t.sent.length := by omega
  refine ⟨t.sent[n], List.getElem_mem hn, ?_⟩
  have hget : ((t.sent ++ t.bundle).map Put.entry)[n]? = some n := by simp [hmap]
  rw [List.map_append, List.getElem?_append_left (by simpa using hn), List.getElem?_map,
    List.getElem?_eq_getElem hn] at hget
  exact Option.some.inj hget

end Endless

end BgqVrnic
