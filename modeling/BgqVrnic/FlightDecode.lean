import BgqVrnic.FlightLogs
import BgqVrnic.Merges

namespace BgqVrnic

/-- A log that is yet to be decoded, with valid entries in the order of their times. -/
structure FlightRegistry.Recorded (r : FlightRegistry) (entries : List FlightEntry) : Prop
    extends r.Ring entries where
  fresh : r.lastStateSet = 0
  valid : ∀ e ∈ entries, e.id < r.numIds
  timed : ∀ e ∈ entries, e.timestamp < 2 ^ 64 - 1
  ordered : entries.Pairwise fun a b => a.timestamp ≤ b.timestamp

/-- The entries `rest` of the log are still to be decoded, and the registry keeps what the next call needs. -/
structure FlightCursor.At (c : FlightCursor) (rest : List FlightEntry) : Prop where
  total : c.counttotal + rest.length = c.registry.flightsize
  within : c.count < c.registry.flightsize
  small : c.registry.flightsize < 2 ^ 32
  ahead : ∀ j e, rest[j]? = some e →
    c.registry.flightlog ((c.count + j) % c.registry.flightsize) = e
  valid : ∀ e ∈ rest, e.id < c.registry.numIds
  timed : ∀ e ∈ rest, e.timestamp < 2 ^ 64 - 1
  saved : c.registry.acquire = c

namespace FlightCursor

variable {c : FlightCursor} {e : FlightEntry} {rest : List FlightEntry}

theorem At.log (h : c.At (e :: rest)) : c.log = e := by
  have hat := h.ahead 0 e rfl
  rwa [Nat.add_zero, Nat.mod_eq_of_lt h.within] at hat

theorem At.live_iff (h : c.At rest) : c.counttotal < c.registry.flightsize ↔ rest ≠ [] := by
  have htotal := h.total
  rw [← List.length_pos_iff]
  omega

theorem At.advance (h : c.At (e :: rest)) : c.advance.At rest := by
  have htotal := h.total
  have hsmall := h.small
  have hwithin := h.within
  rw [List.length_cons] at htotal
  have hcount : (c.count + 1) % c.registry.flightsize < c.registry.flightsize :=
    Nat.mod_lt _ (by omega)
  refine ⟨?_, hcount, hsmall, fun j d hd => ?_, fun d hd => h.valid d (List.mem_cons_of_mem _ hd),
    fun d hd => h.timed d (List.mem_cons_of_mem _ hd), ?_⟩
  · show c.counttotal + 1 + rest.length = c.registry.flightsize
    omega
  · show c.registry.flightlog (((c.count + 1) % c.registry.flightsize + j) % c.registry.flightsize) = d
    rw [Nat.mod_add_mod, Nat.add_assoc, Nat.add_comm 1 j]
    exact h.ahead (j + 1) d hd
  · have hc : (c.count + 1) % c.registry.flightsize % 2 ^ 32 = (c.count + 1) % c.registry.flightsize :=
      Nat.mod_eq_of_lt (hcount.trans hsmall)
    have ht : (c.counttotal + 1) % 2 ^ 32 = c.counttotal + 1 := Nat.mod_eq_of_lt (by omega)
    simp only [FlightCursor.advance, FlightRegistry.acquire, hc, ht]
    rfl

end FlightCursor

theorem FlightRegistry.Recorded.acquire {r : FlightRegistry} {entries : List FlightEntry}
    (h : r.Recorded entries) (hsmall : r.flightsize < 2 ^ 32) : r.acquire.At entries := by
  have hsize := h.size
  have hroom := h.room
  have hsaved := r.acquire_acquire
  rw [h.toRing.acquire h.fresh] at hsaved ⊢
  refine ⟨by show r.flightsize - entries.length + entries.length = r.flightsize; omega,
    Nat.mod_lt _ hsize, hsmall, fun j e he => ?_, h.valid, h.timed, hsaved⟩
  show r.flightlog (((r.flightlock + (r.flightsize - entries.length)) % r.flightsize + j) %
    r.flightsize) = e
  rw [Nat.mod_add_mod]
  exact h.recorded j e he

theorem kernelWriteFlightLogs_numIds (ws : List FlightEntry) (r : FlightRegistry) :
    (kernelWriteFlightLogs ws r).numIds = r.numIds := by
  induction ws generalizing r with
  | nil => rfl
  | cons w ws ih => exact ih _

theorem kernelWriteFlightLogs_lastStateSet (ws : List FlightEntry) (r : FlightRegistry) :
    (kernelWriteFlightLogs ws r).lastStateSet = r.lastStateSet := by
  induction ws generalizing r with
  | nil => rfl
  | cons w ws ih => exact ih _

/-- Valid entries written in the order of their times are recorded. -/
theorem FlightRegistry.Recorded.writes {r : FlightRegistry} (ws : List FlightEntry) (hsize : 0 < r.flightsize)
    (hnone : ∀ p, (r.flightlog p).id = 0) (hfresh : r.lastStateSet = 0)
    (hids : ∀ w ∈ ws, w.id ≠ 0 ∧ w.id < r.numIds) (htimed : ∀ w ∈ ws, w.timestamp < 2 ^ 64 - 1)
    (hordered : ws.Pairwise fun a b => a.timestamp ≤ b.timestamp)
    (hlock : r.flightlock + ws.length < 2 ^ 64) :
    (kernelWriteFlightLogs ws r).Recorded
      ((ws.map FlightEntry.kept).drop (ws.length - r.flightsize)) := by
  obtain ⟨hring, -, -⟩ := Ring.writes hsize hnone ws (fun w hw => (hids w hw).1) hlock
  have hkept : ∀ e ∈ (ws.map FlightEntry.kept).drop (ws.length - r.flightsize),
      ∃ w ∈ ws, w.kept = e := fun e he => List.mem_map.mp (List.mem_of_mem_drop he)
  refine ⟨hring, ?_, fun e he => ?_, fun e he => ?_, ?_⟩
  · rw [kernelWriteFlightLogs_lastStateSet, hfresh]
  · obtain ⟨w, hw, rfl⟩ := hkept e he
    rw [kernelWriteFlightLogs_numIds]
    exact (hids w hw).2
  · obtain ⟨w, hw, rfl⟩ := hkept e he
    exact htimed w hw
  · exact (hordered.map FlightEntry.kept fun _ _ hle => hle).drop

/-- What a call has before it, `Ls l` in log `l`. -/
structure Decoding (numlogs : Nat) (cs : List FlightCursor) (Ls : Nat → List FlightEntry) : Prop where
  length : cs.length = numlogs
  logs : ∀ l (c : FlightCursor), cs[l]? = some c → c.At (Ls l)
  others : ∀ l, numlogs ≤ l → Ls l = []

section Select

variable {numlogs : Nat} {cs : List FlightCursor} {Ls : Nat → List FlightEntry} 
  {best : Nat × Option (Nat × FlightCursor)} {ps : List (FlightCursor × Nat)}

/-- The search ends with an earliest entry of the logs it has been through, or with what it began with. -/
theorem selectLog_foldl (ps : List (FlightCursor × Nat)) (best : Nat × Option (Nat × FlightCursor)) :
    (ps.foldl selectLog best = best ∨ ∃ p ∈ ps, p.1.counttotal < p.1.registry.flightsize ∧
        ps.foldl selectLog best = (p.1.log.timestamp, some (p.2, p.1))) ∧
      (ps.foldl selectLog best).1 ≤ best.1 ∧
      ∀ p ∈ ps, p.1.counttotal < p.1.registry.flightsize →
        (ps.foldl selectLog best).1 ≤ p.1.log.timestamp := by
  induction ps generalizing best with
  | nil => exact ⟨Or.inl rfl, Nat.le_refl _, fun p hp => by cases hp⟩
  | cons q ps ih =>
    obtain ⟨hfrom, hle, hall⟩ := ih (selectLog best q)
    rw [List.foldl_cons]
    by_cases hq : q.1.log.timestamp < best.1 ∧ q.1.counttotal < q.1.registry.flightsize
    · have hstep : selectLog best q = (q.1.log.timestamp, some (q.2, q.1)) := if_pos hq
      rw [hstep] at hfrom hle hall ⊢
      refine ⟨Or.inr ?_, hle.trans (Nat.le_of_lt hq.1), fun p hp hlive => ?_⟩
      · rcases hfrom with hfrom | ⟨p, hp, hlive, hfrom⟩
        · exact ⟨q, List.mem_cons_self, hq.2, hfrom⟩
        · exact ⟨p, List.mem_cons_of_mem _ hp, hlive, hfrom⟩
      · rcases List.mem_cons.mp hp with rfl | hp
        · exact hle
        · exact hall p hp hlive
    · have hstep : selectLog best q = best := if_neg hq
      rw [hstep] at hfrom hle hall ⊢
      refine ⟨?_, hle, fun p hp hlive => ?_⟩
      · rcases hfrom with hfrom | ⟨p, hp, hlive, hfrom⟩
        · exact Or.inl hfrom
        · exact Or.inr ⟨p, List.mem_cons_of_mem _ hp, hlive, hfrom⟩
      · rcases List.mem_cons.mp hp with rfl | hp
        · exact hle.trans (Nat.not_lt.mp fun hlt => hq ⟨hlt, hlive⟩)
        · exact hall p hp hlive

theorem Decoding.head (h : Decoding numlogs cs Ls) {l : Nat} {e : FlightEntry} (he : (Ls l).head? = some e) :
    ∃ c, (c, l) ∈ cs.zipIdx ∧ c.counttotal < c.registry.flightsize ∧ c.log = e := by
  obtain ⟨rest, hLs⟩ : ∃ rest, Ls l = e :: rest := by
    cases hl : Ls l with
    | nil => simp [hl] at he
    | cons d rest => exact ⟨rest, by simpa [hl] using he⟩
  have hl : l < cs.length := by
    by_contra hl
    rw [h.others l (h.length ▸ Nat.not_lt.mp hl)] at hLs
    cases hLs
  have hat := h.logs l _ (List.getElem?_eq_getElem hl)
  rw [hLs] at hat
  exact ⟨cs[l], List.mem_zipIdx_iff_getElem?.mpr (List.getElem?_eq_getElem hl),
    hat.live_iff.mpr (by simp), hat.log⟩

/-- No log is selected only when all have been decoded. -/
theorem Decoding.select_none (h : Decoding numlogs cs Ls) (hs : select cs = none) (l : Nat) : Ls l = [] := by
  obtain ⟨hfrom, _, hall⟩ := selectLog_foldl cs.zipIdx (2 ^ 64 - 1, none)
  have hbest : cs.zipIdx.foldl selectLog (2 ^ 64 - 1, none) = (2 ^ 64 - 1, none) := by
    rcases hfrom with hfrom | ⟨p, _, _, hfrom⟩
    · exact hfrom
    · unfold select at hs
      rw [hfrom] at hs
      cases hs
  cases hl : Ls l with
  | nil => rfl
  | cons e rest =>
    obtain ⟨c, hc, hlive, hlog⟩ := h.head (l := l) (e := e) (by rw [hl]; rfl)
    have hle := hall (c, l) hc hlive
    rw [hbest, hlog] at hle
    have hat := h.logs l c (List.mem_zipIdx_iff_getElem?.mp hc)
    have htimed := hat.timed e (by rw [hl]; exact List.mem_cons_self)
    omega

/-- The log that is selected has an entry, and none of the others has an earlier one. -/
theorem Decoding.select_some (h : Decoding numlogs cs Ls) {lsel : Nat} {c : FlightCursor}
    (hs : select cs = some (lsel, c)) :
    cs[lsel]? = some c ∧ (∃ rest, Ls lsel = c.log :: rest) ∧
      ∀ l e, (Ls l).head? = some e → c.log.timestamp ≤ e.timestamp := by
  obtain ⟨hfrom, _, hall⟩ := selectLog_foldl cs.zipIdx (2 ^ 64 - 1, none)
  unfold select at hs
  rcases hfrom with hfrom | ⟨p, hp, hlive, hfrom⟩
  · rw [hfrom] at hs
    cases hs
  rw [hfrom] at hs hall
  obtain ⟨rfl, rfl⟩ := Prod.mk.inj (Option.some.inj hs)
  have hat := List.mem_zipIdx_iff_getElem?.mp hp
  have hc := h.logs p.2 p.1 hat
  refine ⟨hat, ?_, fun l e he => ?_⟩
  · cases hl : Ls p.2 with
    | nil => exact absurd hl (hc.live_iff.mp hlive)
    | cons e rest =>
      rw [hl] at hc
      exact ⟨rest, by rw [hc.log]⟩
  · obtain ⟨d, hd, hdlive, rfl⟩ := h.head he
    exact hall (d, l) hd hdlive

/-- Once an entry has been taken from the log that is selected. -/
theorem Decoding.take (h : Decoding numlogs cs Ls) {lsel : Nat} {c : FlightCursor}
    (hs : select cs = some (lsel, c)) :
    ∃ Ls', Merges.Takes FlightEntry.timestamp Ls lsel c.log Ls' ∧
      Decoding numlogs (cs.set lsel c.advance) Ls' := by
  obtain ⟨hat, ⟨rest, hrest⟩, hleast⟩ := h.select_some hs
  have hc := h.logs lsel c hat
  rw [hrest] at hc
  refine ⟨Function.update Ls lsel rest, ⟨?_, fun l hl => Function.update_of_ne hl _ _, hleast⟩,
    by rw [List.length_set]; exact h.length, fun l d hd => ?_, fun l hl => ?_⟩
  · rw [Function.update_self]
    exact hrest
  · by_cases hl : lsel = l
    · subst hl
      rw [List.getElem?_set_self (List.getElem?_eq_some_iff.mp hat).1] at hd
      cases Option.some.inj hd
      rw [Function.update_self]
      exact hc.advance
    · rw [List.getElem?_set_ne hl] at hd
      rw [Function.update_of_ne (Ne.symm hl)]
      exact h.logs l d hd
  · have hnil := h.others l hl
    rw [Function.update_of_ne fun he => by rw [he, hrest] at hnil; cases hnil]
    exact hnil

end Select

/-- The places of every log have numbers below those of the next one. -/
def Numbered (cs : List FlightCursor) : Prop :=
  ∀ l c, cs[l]? = some c → c.registry.lastOffset + c.registry.flightsize + l * 2 ^ 48 < 2 ^ 64

section Call

variable {σ : Type} (space : σ → Nat) (print : FlightCursor → σ → σ) {numlogs : Nat}
  {cs : List FlightCursor} {Ls : Nat → List FlightEntry} {rounds : Nat}

theorem Numbered.advance (h : Numbered cs) {lsel : Nat} {c : FlightCursor} (hat : cs[lsel]? = some c) :
    Numbered (cs.set lsel c.advance) := by
  intro l d hd
  by_cases hl : lsel = l
  · subst hl
    rw [List.getElem?_set_self (List.getElem?_eq_some_iff.mp hat).1] at hd
    cases Option.some.inj hd
    exact h lsel c hat
  · rw [List.getElem?_set_ne hl] at hd
    exact h l d hd

theorem Numbered.moreData (h : Numbered cs) {lsel : Nat} {c : FlightCursor} (hat : cs[lsel]? = some c)
    (hlive : c.counttotal < c.registry.flightsize) : c.moreData lsel ≠ 0 := by
  have hbound := h lsel c hat
  unfold FlightCursor.moreData
  rw [Nat.mod_eq_of_lt (by omega)]
  omega

/-- What a call has done to logs of which `Ls` was left before it. -/
structure FlightDecode.Sound (d : FlightDecode σ) (numlogs : Nat) (Ls Ls' : Nat → List FlightEntry) :
    Prop where
  returned : d.returned = true
  merged : Merges.Merge FlightEntry.timestamp Ls d.lines Ls'
  left : Decoding numlogs d.cursors Ls'

/-- A call merges what the logs have left, until its buffer is used up. -/
theorem decodeLoop_sound (buffer : σ) (h : Decoding numlogs cs Ls)
    (hrounds : ∑ l ∈ Finset.range numlogs, (Ls l).length < rounds) :
    ∃ Ls', (decodeLoop space print rounds cs buffer).Sound numlogs Ls Ls' ∧
      (256 ≤ space buffer → (decodeLoop space print rounds cs buffer).lines = [] → ∀ l, Ls l = []) ∧
      (Numbered cs → Numbered (decodeLoop space print rounds cs buffer).cursors ∧
        ((decodeLoop space print rounds cs buffer).moreData = 0 ↔ ∀ l, Ls' l = [])) := by
  induction rounds generalizing cs Ls buffer with
  | zero => omega
  | succ rounds ih =>
    rcases decodeLoop_succ_cases space print rounds cs buffer with ⟨hs, hloop⟩ | ⟨lsel, c, hs, hround⟩
    · have hnone := h.select_none hs
      rw [hloop]
      exact ⟨Ls, ⟨rfl, .done Ls, h⟩, fun _ _ => hnone, fun hnum => ⟨hnum, iff_of_true rfl hnone⟩⟩
    · obtain ⟨hat, ⟨rest, hrest⟩, -⟩ := h.select_some hs
      have hc := h.logs lsel c hat
      have hlive : c.counttotal < c.registry.flightsize := hc.live_iff.mpr (by simp [hrest])
      have hvalid : ¬c.registry.numIds ≤ c.log.id :=
        Nat.not_le.mpr (hc.valid c.log (by rw [hrest]; exact List.mem_cons_self))
      have hlsel : lsel < numlogs := h.length ▸ (List.getElem?_eq_some_iff.mp hat).1
      obtain ⟨Ls', htake, hleft⟩ := h.take hs
      rcases hround with ⟨hfull, hloop⟩ | ⟨-, hend, hloop⟩ | ⟨-, -, hloop⟩
      · rw [hloop]
        refine ⟨Ls, ⟨rfl, .done Ls, h⟩, fun hroom => absurd hfull (Nat.not_lt.mpr hroom), fun hnum =>
          ⟨hnum, iff_of_false (hnum.moreData hat hlive) fun hnil => ?_⟩⟩
        rw [hnil lsel] at hrest
        cases hrest
      · rw [hloop]
        exact ⟨Ls', ⟨rfl, .take htake (.done Ls'), hleft⟩, fun _ hnil => (by cases hnil),
          fun hnum => absurd (hend.resolve_left hvalid) (hnum.moreData hat hlive)⟩
      · have hless := htake.length (Finset.mem_range.mpr hlsel)
        obtain ⟨Ls'', hrun, -, hnumbered⟩ := ih (print c buffer) hleft (by omega)
        rw [hloop]
        exact ⟨Ls'', ⟨hrun.returned, .take htake hrun.merged, hrun.left⟩, fun _ hnil => (by cases hnil),
          fun hnum => hnumbered (hnum.advance hat)⟩

/-- The registries keep where the call has come to. -/
theorem Decoding.resume (h : Decoding numlogs cs Ls) :
    (cs.map FlightCursor.registry).map FlightRegistry.acquire = cs := by
  have hsaved : ∀ c ∈ cs, (FlightRegistry.acquire ∘ FlightCursor.registry) c = c := fun c hc => by
    obtain ⟨l, hl⟩ := List.mem_iff_getElem?.mp hc
    exact (h.logs l c hl).saved
  rw [List.map_map, List.map_congr_left hsaved]
  exact List.map_id' cs

/-- Calls merge what the logs have left, as long as they are made with room for a line. -/
theorem decodeCalls_sound {logregistry : List FlightRegistry} (buffers : List σ)
    (h : Decoding numlogs (logregistry.map FlightRegistry.acquire) Ls)
    (hrounds : ∑ l ∈ Finset.range numlogs, (Ls l).length < rounds) :
    (∀ d ∈ decodeCalls space print rounds logregistry buffers, d.returned = true) ∧
      ∃ Ls', Merges.Merge FlightEntry.timestamp Ls
          ((decodeCalls space print rounds logregistry buffers).flatMap FlightDecode.lines) Ls' ∧
        ((∀ b ∈ buffers, 256 ≤ space b) → (∀ l, Ls' l = []) ∨ buffers.length ≤
          ((decodeCalls space print rounds logregistry buffers).flatMap FlightDecode.lines).length) ∧
        (Numbered (logregistry.map FlightRegistry.acquire) →
          ∀ d, (decodeCalls space print rounds logregistry buffers).getLast? = some d →
            (d.moreData = 0 ↔ ∀ l, Ls' l = [])) := by
  induction buffers generalizing logregistry Ls with
  | nil =>
    exact ⟨fun d hd => (by cases hd), Ls, .done Ls, fun _ => Or.inr (Nat.le_refl _),
      fun _ d hd => (by cases hd)⟩
  | cons buffer rest ih =>
    obtain ⟨Ls₁, hcall, hprogress, hmore⟩ :=
      decodeLoop_sound space print buffer h hrounds
    have hcalls : decodeCalls space print rounds logregistry (buffer :: rest) =
        kernelDecodeFlightLogs space print rounds logregistry buffer ::
          decodeCalls space print rounds ((kernelDecodeFlightLogs space print rounds logregistry buffer).cursors.map
            FlightCursor.registry) rest := rfl
    rw [hcalls]
    have hkernel : decodeLoop space print rounds (logregistry.map FlightRegistry.acquire) buffer =
        kernelDecodeFlightLogs space print rounds logregistry buffer := rfl
    rw [hkernel] at hcall hprogress hmore
    generalize kernelDecodeFlightLogs space print rounds logregistry buffer = d at *
    have hless := hcall.merged.length (s := Finset.range numlogs) fun l hl =>
      h.others l (by simpa using hl)
    have hresume := hcall.left.resume
    have hnext : Decoding numlogs ((d.cursors.map FlightCursor.registry).map FlightRegistry.acquire)
        Ls₁ := by
      rw [hresume]
      exact hcall.left
    obtain ⟨hreturned, Ls₂, hmerged, hroom, hlast⟩ := ih hnext (by omega)
    rw [hresume] at hlast
    generalize decodeCalls space print rounds (d.cursors.map FlightCursor.registry) rest = ds at *
    refine ⟨fun d' hd' => ?_, Ls₂, ?_, fun hb => ?_, fun hnum d' hd' => ?_⟩
    · rcases List.mem_cons.mp hd' with rfl | hd'
      · exact hcall.returned
      · exact hreturned d' hd'
    · rw [List.flatMap_cons]
      exact hcall.merged.trans hmerged
    · rw [List.flatMap_cons, List.length_append, List.length_cons]
      rcases hroom fun b hmem => hb b (List.mem_cons_of_mem _ hmem) with hnil | hle
      · exact Or.inl hnil
      · by_cases hlines : d.lines = []
        · have hnone := hprogress (hb buffer List.mem_cons_self) hlines
          refine Or.inl fun l => ?_
          have hshares := (hcall.merged.trans hmerged).shares l
          rw [hnone l] at hshares
          exact (List.append_eq_nil_iff.mp hshares.symm).2
        · have hpos : 0 < d.lines.length := List.length_pos_iff.mpr hlines
          exact Or.inr (by omega)
    · obtain ⟨hnum', hiff⟩ := hmore hnum
      rw [List.getLast?_cons] at hd'
      cases hds : ds.getLast? with
      | none =>
        rw [List.getLast?_eq_none_iff.mp hds] at hmerged
        rw [hds] at hd'
        cases hmerged
        cases Option.some.inj hd'
        exact hiff
      | some last =>
        rw [hds] at hd'
        cases Option.some.inj hd'
        exact hlast hnum' last hds

end Call

/-- What calls have decoded of log `l`. -/
def decoded {σ : Type} (ds : List (FlightDecode σ)) (l : Nat) : List FlightEntry :=
  ((ds.flatMap FlightDecode.lines).filter fun p => p.1 = l).map Prod.snd

/-- Every call returns; together the calls decode the logs in the order of the times, of every log the oldest
entries first and each of them once; they have come to the end of all logs after as many calls as there are
entries, and where a call says that there is no more data. -/
theorem kernelDecodeFlightLogs_sound {σ : Type} (space : σ → Nat) (print : FlightCursor → σ → σ)
    {logregistry : List FlightRegistry} {entries : Nat → List FlightEntry} {rounds : Nat} (buffers : List σ)
    (hlogs : ∀ l (r : FlightRegistry), logregistry[l]? = some r → r.Recorded (entries l))
    (hothers : ∀ l, logregistry.length ≤ l → entries l = [])
    (hsmall : ∀ r ∈ logregistry, r.flightsize < 2 ^ 32)
    (hrounds : ∑ l ∈ Finset.range logregistry.length, (entries l).length < rounds)
    (hbuffers : ∀ b ∈ buffers, 256 ≤ space b) :
    (∀ d ∈ decodeCalls space print rounds logregistry buffers, d.returned = true) ∧
      ((decodeCalls space print rounds logregistry buffers).flatMap FlightDecode.lines).Pairwise
        (fun a b => a.2.timestamp ≤ b.2.timestamp) ∧
      (∀ l, decoded (decodeCalls space print rounds logregistry buffers) l <+: entries l) ∧
      (∑ l ∈ Finset.range logregistry.length, (entries l).length ≤ buffers.length →
        ∀ l, decoded (decodeCalls space print rounds logregistry buffers) l = entries l) ∧
      ((∀ l r, logregistry[l]? = some r → r.flightlock + r.flightsize + l * 2 ^ 48 < 2 ^ 64) →
        ∀ d, (decodeCalls space print rounds logregistry buffers).getLast? = some d →
          (d.moreData = 0 ↔ ∀ l, decoded (decodeCalls space print rounds logregistry buffers) l = entries l)) := by
  have hstart : Decoding logregistry.length (logregistry.map FlightRegistry.acquire) entries := by
    refine ⟨List.length_map .., fun l c hc => ?_, hothers⟩
    rw [List.getElem?_map] at hc
    obtain ⟨r, hr, rfl⟩ := Option.map_eq_some_iff.mp hc
    exact (hlogs l r hr).acquire (hsmall r (List.mem_of_getElem? hr))
  obtain ⟨hreturned, Ls, hmerged, hroom, hlast⟩ :=
    decodeCalls_sound space print buffers hstart hrounds
  have hshares : ∀ l, entries l = decoded (decodeCalls space print rounds logregistry buffers) l ++ Ls l :=
    fun l => hmerged.shares l
  have hordered : ∀ l, (entries l).Pairwise fun a b => a.timestamp ≤ b.timestamp := fun l => by
    rcases Nat.lt_or_ge l logregistry.length with hl | hl
    · exact (hlogs l _ (List.getElem?_eq_getElem hl)).ordered
    · rw [hothers l hl]
      exact List.Pairwise.nil
  have hall_iff : (∀ l, Ls l = []) ↔
      ∀ l, decoded (decodeCalls space print rounds logregistry buffers) l = entries l := by
    refine forall_congr' fun l => ?_
    rw [hshares l]
    exact List.self_eq_append_right.symm
  refine ⟨hreturned, hmerged.sorted hordered, fun l => ⟨Ls l, (hshares l).symm⟩, fun hcalls => ?_,
    fun hnumbers d hd => ?_⟩
  · rw [← hall_iff]
    rcases hroom hbuffers with hnil | hle
    · exact hnil
    · have htotal := hmerged.length (s := Finset.range logregistry.length) fun l hl =>
        hothers l (by simpa using hl)
      intro l
      rcases Nat.lt_or_ge l logregistry.length with hl | hl
      · have hzero : ∑ l ∈ Finset.range logregistry.length, (Ls l).length = 0 := by omega
        exact List.length_eq_zero_iff.mp (Finset.sum_eq_zero_iff.mp hzero l (Finset.mem_range.mpr hl))
      · have hnil := hshares l
        rw [hothers l hl] at hnil
        exact (List.append_eq_nil_iff.mp hnil.symm).2
  · rw [← hall_iff]
    refine hlast (fun l c hc => ?_) d hd
    rw [List.getElem?_map] at hc
    obtain ⟨r, hr, rfl⟩ := Option.map_eq_some_iff.mp hc
    have hbound := hnumbers l r hr
    have hfresh := (hlogs l r hr).fresh
    unfold FlightRegistry.acquire
    rw [if_pos hfresh]
    exact hbound

/-- A log that has been zeroed. -/
def zeroedLog (flightsize numIds : Nat) : FlightRegistry :=
  ⟨fun _ => default, flightsize, 0, fun _ => ⟨"", .other, "", fun _ => []⟩, numIds, 0, 0, 0, 0, ""⟩

def entryAt (timestamp : Nat) : FlightEntry := ⟨timestamp, 5, 1, 0, 0, 0, 0⟩

theorem zeroedLog_recorded {flightsize : Nat} {times : List Nat} (hsize : 0 < flightsize)
    (htimed : ∀ t ∈ times, t < 2 ^ 64 - 1) (hordered : times.Pairwise (· ≤ ·))
    (hlock : times.length < 2 ^ 64) :
    (kernelWriteFlightLogs (times.map entryAt) (zeroedLog flightsize 2)).Recorded
      ((times.map entryAt).drop (times.length - flightsize)) := by
  have hrecorded := FlightRegistry.Recorded.writes (r := zeroedLog flightsize 2) (times.map entryAt)
    hsize (fun _ => rfl) rfl
    (fun w hw => by
      obtain ⟨t, -, rfl⟩ := List.mem_map.mp hw
      exact ⟨Nat.one_ne_zero, Nat.lt_succ_self 1⟩)
    (fun w hw => by
      obtain ⟨t, ht, rfl⟩ := List.mem_map.mp hw
      exact htimed t ht)
    (List.pairwise_map.mpr hordered)
    (by rw [List.length_map]; simpa [zeroedLog] using hlock)
  have hkept : FlightEntry.kept ∘ entryAt = entryAt := by
    funext t
    simp [FlightEntry.kept, entryAt]
  rw [List.map_map, List.length_map, hkept] at hrecorded
  exact hrecorded

/-- A log that has wrapped, and one with two slots to spare. -/
def wrappedAndPartial : List FlightRegistry :=
  [kernelWriteFlightLogs ([1, 4, 6].map entryAt) (zeroedLog 2 2),
    kernelWriteFlightLogs ([5].map entryAt) (zeroedLog 3 2)]

def wrappedAndPartialEntries (l : Nat) : List FlightEntry :=
  ([[4, 6].map entryAt, [5].map entryAt] : List (List FlightEntry)).getD l []

theorem kernelDecodeFlightLogs_sound_wrapped :
    decoded (decodeCalls id (fun _ space => space - 100) 4 wrappedAndPartial [256, 400, 300]) 0 =
        [entryAt 4, entryAt 6] ∧
      decoded (decodeCalls id (fun _ space => space - 100) 4 wrappedAndPartial [256, 400, 300]) 1 =
        [entryAt 5] := by
  have hlogs : ∀ l (r : FlightRegistry), wrappedAndPartial[l]? = some r →
      r.Recorded (wrappedAndPartialEntries l) := fun l r hr => by
    match l, hr with
    | 0, hr =>
      cases Option.some.inj hr
      exact zeroedLog_recorded (by decide) (by decide) (by decide) (by decide)
    | 1, hr =>
      cases Option.some.inj hr
      exact zeroedLog_recorded (by decide) (by decide) (by decide) (by decide)
  have hothers : ∀ l, wrappedAndPartial.length ≤ l → wrappedAndPartialEntries l = [] := fun l hl => by
    match l, hl with
    | l + 2, _ => rfl
  have hrounds : ∑ l ∈ Finset.range wrappedAndPartial.length, (wrappedAndPartialEntries l).length < 4 := by
    decide
  obtain ⟨-, -, -, hall, -⟩ := kernelDecodeFlightLogs_sound id (fun _ space => space - 100)
    [256, 400, 300] hlogs hothers (by decide) hrounds (by decide)
  have hdecoded := hall (by decide)
  exact ⟨hdecoded 0, hdecoded 1⟩

def wideLog : FlightRegistry :=
  kernelWriteFlightLogs ([1, 2].map entryAt) (zeroedLog (2 ^ 32 + 2) 2)

/-- In a log of 2 ^ 32 + 2 slots with two entries the place that the first call keeps is 2 ^ 32 too low, and the
second one goes on behind the last entry. -/
theorem wideLog_unwritten_decoded :
    wideLog.Recorded ([1, 2].map entryAt) ∧
      decoded (decodeCalls id (fun _ space => space - 100) 4 [wideLog] [256, 400]) 0 =
        [entryAt 1, entryAt 2, default] := by
  have hrecorded : wideLog.Recorded ([1, 2].map entryAt) :=
    zeroedLog_recorded (by decide) (by decide) (by decide) (by decide)
  refine ⟨hrecorded, ?_⟩
  have hacquire := hrecorded.toRing.acquire hrecorded.fresh
  have hfirst : kernelDecodeFlightLogs id (fun _ space => space - 100) 4 [wideLog] 256 =
      ⟨[⟨{ wideLog with lastOffset := 2, lastStateSet := 1, lastState := 1, lastStateTotal := 1 }, 1,
        2 ^ 32 + 1⟩], [(0, ⟨{ wideLog with lastOffset := 2 }, 0, 2 ^ 32⟩, 256)], 156, 2 ^ 32 + 4, true⟩ := by
    unfold kernelDecodeFlightLogs
    rw [List.map_cons, hacquire]
    rfl
  unfold decodeCalls
  rw [hfirst]
  rfl

end BgqVrnic
