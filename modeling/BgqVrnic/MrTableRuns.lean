import BgqVrnic.MrTable

namespace BgqVrnic

open Runs Ownership

/-- What is held at the first stage is held at the second, where as much has been filled in. -/
def RegStage.Under (st st₀ : RegStage) : Prop :=
  (st.holdsMr = true → st₀.holdsMr = true) ∧ (st.holdsKey = true → st₀.holdsKey = true) ∧
    (st.holdsSge = true → st₀.holdsSge = true) ∧ (st.holdsUmem = true → st₀.holdsUmem = true) ∧
    (st.filled = true → st₀.filled = true)

instance (st st₀ : RegStage) : Decidable (st.Under st₀) := inferInstanceAs (Decidable (_ ∧ _))

theorem RegStage.keyed_has_block {st : RegStage} (hst : st.holdsKey = true) : st.holdsMr = true := by
  cases st <;> first | rfl | cases hst

namespace MrTable

variable {κ : Type}

/-- What a party holds of one kind of memory. -/
def holder (s : MrTable κ) (holds : RegStage → Bool) (cell : RegCall → Nat) (k : κ) : Option Nat :=
  if holds (s.stage k) then some (cell (s.call k)) else none

/-- SGEs are held by the calls and regions, and by nobody once a region is gone. -/
def sgeHolder (s : MrTable κ) : κ ⊕ Nat → Option Nat
  | .inl k => s.holder RegStage.holdsSge RegCall.sge k
  | .inr i => s.leaked[i]?.map Prod.snd

/-- What a region contains at a stage of its call. -/
structure BlockFits (st : RegStage) (c : RegCall) (b : BgvrnicMr) : Prop where
  keyed : st.holdsKey = true → b.lkey = c.lkey ∧ b.rkey = c.lkey
  listed : st.holdsSge = true → b.sge = c.sge ∧ b.sgeNum = c.sges.length
  filled : st.filled = true → b.umem = c.umem ∧ b.length = c.length ∧ b.start = c.start

/-- What a party finds where its pointers lead to. -/
structure PartyFits (s : MrTable κ) (st : RegStage) (c : RegCall) : Prop where
  block : st.holdsMr = true → ∃ b, s.mrs c.mr = some b ∧ BlockFits st c b
  key : st.holdsKey = true → s.bgvrnicGetMr c.lkey = some c.mr
  sge : st.holdsSge = true → s.sges c.sge = some c.sges
  umem : st.holdsUmem = true → s.umems c.umem = some c.pages ∧ c.umem ≠ 0

/-- Every piece of memory and every key is one party's, or a leak. -/
structure TableInv (s : MrTable κ) : Prop where
  mrs : Owned s.mrs (s.holder RegStage.holdsMr RegCall.mr)
  umems : Owned s.umems (s.holder RegStage.holdsUmem RegCall.umem)
  keys : Owned s.bgvrnicGetMr (s.holder RegStage.holdsKey RegCall.lkey)
  sges : Owned s.sges s.sgeHolder
  fits : ∀ k, PartyFits s (s.stage k) (s.call k)

variable {s s' t : MrTable κ} {k : κ} {st st₀ : RegStage} {c c₀ : RegCall} {b : BgvrnicMr}
  {holds : RegStage → Bool} {cell : RegCall → Nat} {lkey mr num : Nat}

theorem BlockFits.carry (h : BlockFits st₀ c₀ b) (hst : st.Under st₀) (hc : c = { c₀ with rc := c.rc }) :
    BlockFits st c b := by
  obtain ⟨-, hkey, hsge, -, hfilled⟩ := hst
  rw [hc]
  exact ⟨fun hst => h.keyed (hkey hst), fun hst => h.listed (hsge hst), fun hst => h.filled (hfilled hst)⟩

theorem PartyFits.carry (h : PartyFits s st₀ c₀) (hst : st.Under st₀) (hc : c = { c₀ with rc := c.rc })
    (hmrs : st.holdsMr = true → s'.mrs c₀.mr = s.mrs c₀.mr)
    (hkeys : st.holdsKey = true → s'.bgvrnicGetMr c₀.lkey = s.bgvrnicGetMr c₀.lkey)
    (hsges : st.holdsSge = true → s'.sges c₀.sge = s.sges c₀.sge)
    (humems : st.holdsUmem = true → s'.umems c₀.umem = s.umems c₀.umem) : PartyFits s' st c := by
  obtain ⟨hmr, hkey, hsge, humem, -⟩ := id hst
  rw [hc]
  constructor
  · intro hholds
    obtain ⟨b, hb, hblock⟩ := h.block (hmr hholds)
    exact ⟨b, (hmrs hholds).trans hb, hblock.carry hst rfl⟩
  · intro hholds
    exact (hkeys hholds).trans (h.key (hkey hholds))
  · intro hholds
    exact (hsges hholds).trans (h.sge (hsge hholds))
  · intro hholds
    obtain ⟨hpages, hne⟩ := h.umem (humem hholds)
    exact ⟨(humems hholds).trans hpages, hne⟩

theorem holder_of (hst : s.stage k = st) :
    s.holder holds cell k = if holds st then some (cell (s.call k)) else none := by
  rw [holder, hst]

theorem getMr_cons :
    bgvrnicGetMr { s with idr := (num, mr) :: s.idr } = Function.update s.bgvrnicGetMr num (some mr) := by
  funext n
  rw [Function.update_apply, bgvrnicGetMr, List.lookup_cons]
  by_cases hn : n = num
  · rw [if_pos hn, hn, beq_self_eq_true]
  · rw [if_neg hn, beq_eq_false_iff_ne.mpr hn]
    rfl

theorem lookup_filter (l : List (Nat × Nat)) (n num : Nat) :
    (l.filter fun e => e.1 ≠ num).lookup n = if n = num then none else l.lookup n := by
  induction l with
  | nil => simp
  | cons e l ih =>
    by_cases he : e.1 = num
    · rw [List.filter_cons_of_neg (by simpa using he), ih, List.lookup_cons]
      by_cases hn : n = num
      · rw [if_pos hn, if_pos hn]
      · have hne : (n == e.1) = false := by simpa [he] using hn
        rw [if_neg hn, if_neg hn, hne]
    · rw [List.filter_cons_of_pos (by simpa using he), List.lookup_cons, List.lookup_cons, ih]
      by_cases hn : n = num
      · have hne : (n == e.1) = false := by simpa [hn] using fun h => he h.symm
        rw [if_pos hn, if_pos hn, hne]
      · rw [if_neg hn, if_neg hn]

theorem getMr_free : (s.bgvrnicFreeLkey num).bgvrnicGetMr = Function.update s.bgvrnicGetMr num none := by
  funext n
  rw [Function.update_apply]
  exact lookup_filter s.idr n num

theorem getMr_fresh (A : Idr) (s : MrTable κ) (start : Int) :
    s.bgvrnicGetMr (A.newAbove (s.idr.map Prod.fst) start) = none := by
  have hfree := A.free (s.idr.map Prod.fst) start
  apply List.lookup_eq_none_iff.mpr
  intro e he
  have hne : A.newAbove (s.idr.map Prod.fst) start ≠ e.1 := fun h => hfree (h ▸ List.mem_map_of_mem he)
  simpa using hne

/-- `bgvrnic_alloc_lkey` hands out a key that is not in use and enters the region under it, or leaves the table. -/
theorem allocLkey_outcome (A : Idr) (mr : Nat) (last : IdrOutcome) (agains : Nat) (s : MrTable κ) :
    ∃ prevId : Int, (∃ num, bgvrnicAllocLkey A mr last agains s =
        (0, num, { s with prevId := prevId, idr := (num, mr) :: s.idr }) ∧ s.bgvrnicGetMr num = none) ∨
      ∃ rc num, rc ≠ 0 ∧ bgvrnicAllocLkey A mr last agains s = (rc, num, { s with prevId := prevId }) := by
  induction agains generalizing s with
  | zero =>
    refine ⟨nextId s.prevId, ?_⟩
    cases last with
    | number => exact .inl ⟨_, rfl, getMr_fresh A s _⟩
    | noMemory => exact .inr ⟨-EAGAIN, 0, by decide, rfl⟩
    | noSpace => exact .inr ⟨-ENOSPC, 0, by decide, rfl⟩
  | succ agains ih => exact ih { s with prevId := nextId s.prevId }

theorem modifyMr_self {f : BgvrnicMr → BgvrnicMr} (hb : s.mrs mr = some b) :
    (s.modifyMr mr f).mrs mr = some (f b) := by
  rw [modifyMr, setMr, hb]
  exact Function.update_self ..

/-- What another party finds stays as it is. -/
theorem fits_others {j : κ} (h : TableInv s) (hjk : j ≠ k)
    (hmrs : ∀ r, s'.mrs r ≠ s.mrs r → s.holder RegStage.holdsMr RegCall.mr k = some r ∨ s.mrs r = none)
    (humems : ∀ r, s'.umems r ≠ s.umems r → s.holder RegStage.holdsUmem RegCall.umem k = some r ∨ s.umems r = none)
    (hkeys : ∀ r, s'.bgvrnicGetMr r ≠ s.bgvrnicGetMr r →
      s.holder RegStage.holdsKey RegCall.lkey k = some r ∨ s.bgvrnicGetMr r = none)
    (hsges : ∀ r, s'.sges r ≠ s.sges r → s.sgeHolder (.inl k) = some r ∨ s.sges r = none) :
    PartyFits s' (s.stage j) (s.call j) := by
  have hfits := h.fits j
  constructor
  · intro hst
    rw [h.mrs.others hmrs hjk (by rw [holder, if_pos hst])]
    exact hfits.block hst
  · intro hst
    rw [h.keys.others hkeys hjk (by rw [holder, if_pos hst])]
    exact hfits.key hst
  · intro hst
    have hjk' : (Sum.inl j : κ ⊕ Nat) ≠ .inl k := fun he => hjk (Sum.inl.inj he)
    rw [h.sges.others hsges hjk' (by rw [sgeHolder, holder, if_pos hst])]
    exact hfits.sge hst
  · intro hst
    rw [h.umems.others humems hjk (by rw [holder, if_pos hst])]
    exact hfits.umem hst

theorem sgeHolder_inl : s.sgeHolder (.inl k) = s.holder RegStage.holdsSge RegCall.sge k := rfl

theorem TableInv.answer (h : TableInv s) (k : κ) (rc : Int) : TableInv (s.answer k rc) := by
  refine ⟨h.mrs, h.umems, h.keys, h.sges, fun j => ?_⟩
  exact (h.fits j).carry ⟨id, id, id, id, id⟩ rfl (fun _ => rfl) (fun _ => rfl) (fun _ => rfl) fun _ => rfl

/-- `bgvrnic_get_mr` finds the region of `k` under its keys, as it was registered. -/
def Registered (s : MrTable κ) (k : κ) : Prop :=
  let c := s.call k
  s.bgvrnicGetMr c.lkey = some c.mr ∧
    ∃ b, s.mrs c.mr = some b ∧ b.lkey = c.lkey ∧ b.rkey = c.lkey ∧ b.start = c.start ∧ b.length = c.length ∧
      b.sgeNum = c.sges.length ∧ s.sges b.sge = some c.sges ∧ s.umems b.umem = some c.pages

/-- No party is within a call. -/
def Quiet (s : MrTable κ) : Prop := ∀ k, s.stage k = .idle ∨ s.stage k = .live

theorem noRegions_inv : TableInv (noRegions : MrTable κ) := by
  constructor
  case mrs => exact .empty (fun _ => rfl) fun _ => rfl
  case umems => exact .empty (fun _ => rfl) fun _ => rfl
  case keys => exact .empty (fun _ => rfl) fun _ => rfl
  case sges =>
    apply Owned.empty
    · exact fun _ => rfl
    · intro x
      cases x <;> rfl
  case fits =>
    intro k
    constructor <;>
    · intro hholds
      cases hholds

theorem holder_live (hst : s.stage k = .live) (hholds : holds .live = true) :
    s.holder holds cell k = some (cell (s.call k)) := by
  rw [holder_of hst, if_pos hholds]

theorem TableInv.registered (h : TableInv s) (hst : s.stage k = .live) : s.Registered k := by
  have hfits := h.fits k
  rw [hst] at hfits
  obtain ⟨b, hb, hblock⟩ := hfits.block rfl
  obtain ⟨hlkey, hrkey⟩ := hblock.keyed rfl
  obtain ⟨hsge, hsgeNum⟩ := hblock.listed rfl
  obtain ⟨humem, hlength, hstart⟩ := hblock.filled rfl
  refine ⟨hfits.key rfl, b, hb, hlkey, hrkey, hstart, hlength, hsgeNum, ?_, ?_⟩
  · rw [hsge]
    exact hfits.sge rfl
  · rw [humem]
    exact (hfits.umem rfl).1

/-- A table in which nobody is within a call has what its regions have. -/
theorem Quiet.holder_iff (hquiet : s.Quiet) (hidle : holds .idle = false) (hlive : holds .live = true) {r : Nat} :
    (∃ k, s.holder holds cell k = some r) ↔ ∃ k, s.stage k = .live ∧ cell (s.call k) = r := by
  constructor
  · rintro ⟨k, hk⟩
    rcases hquiet k with hst | hst
    · rw [holder_of hst, hidle] at hk
      cases hk
    · rw [holder_live hst hlive] at hk
      exact ⟨k, hst, Option.some.inj hk⟩
  · rintro ⟨k, hst, rfl⟩
    exact ⟨k, holder_live hst hlive⟩

/-- Every key in the table is that of a call or region, and leads to its block. -/
theorem TableInv.lookup (h : TableInv s) (hmr : s.bgvrnicGetMr lkey = some mr) :
    ∃ k, (s.stage k).holdsKey = true ∧ ((s.call k).lkey = lkey ∧ (s.call k).mr = mr) ∧ s.mrs mr ≠ none := by
  have hthere : s.bgvrnicGetMr lkey ≠ none := by
    rw [hmr]
    exact Option.some_ne_none mr
  obtain ⟨k, hk⟩ := (h.keys.there lkey).mp hthere
  rw [holder] at hk
  split at hk
  next hst =>
    cases hk
    have hfound := (h.fits k).key hst
    rw [hmr] at hfound
    obtain rfl := Option.some.inj hfound
    obtain ⟨b, hb, -⟩ := (h.fits k).block (RegStage.keyed_has_block hst)
    rw [hb]
    exact ⟨k, hst, ⟨rfl, rfl⟩, Option.some_ne_none b⟩
  next => cases hk

theorem TableInv.quiet_sges (h : TableInv s) (hquiet : s.Quiet) (sge : Nat) :
    s.sges sge ≠ none ↔
      (∃ k, s.stage k = .live ∧ (s.call k).sge = sge) ∨ sge ∈ s.leaked.map Prod.snd := by
  rw [h.sges.there sge, ← @Quiet.holder_iff κ s RegStage.holdsSge _ hquiet rfl rfl, List.mem_iff_getElem?]
  constructor
  · rintro ⟨x, hx⟩
    cases x with
    | inl k => exact .inl ⟨k, hx⟩
    | inr i =>
      refine .inr ⟨i, ?_⟩
      rw [List.getElem?_map]
      exact hx
  · rintro (⟨k, hk⟩ | ⟨i, hi⟩)
    · exact ⟨.inl k, hk⟩
    · rw [List.getElem?_map] at hi
      exact ⟨.inr i, hi⟩

theorem TableInv.leaked_nodup (h : TableInv s) : (s.leaked.map Prod.snd).Nodup := by
  rw [List.nodup_iff_getElem?_ne_getElem?]
  intro i j hij hj heq
  have hsome : ∃ r, (s.leaked.map Prod.snd)[j]? = some r := ⟨_, List.getElem?_eq_getElem hj⟩
  obtain ⟨r, hr⟩ := hsome
  rw [hr, List.getElem?_map] at heq
  rw [List.getElem?_map] at hr
  have hsame := h.sges.alone (.inr i) (.inr j) r heq hr
  exact hij.ne (Sum.inr.inj hsame)

/-- A step of one party, which moves each kind of memory at most once. -/
structure Stepped [DecidableEq κ] (s s' : MrTable κ) (k : κ) (st : RegStage) (c : RegCall) : Prop where
  stage : s'.stage = Function.update s.stage k st
  call : s'.call = Function.update s.call k c
  mrs : Moves s.mrs (s.holder RegStage.holdsMr RegCall.mr) s'.mrs k (if st.holdsMr then some c.mr else none)
  umems : Moves s.umems (s.holder RegStage.holdsUmem RegCall.umem) s'.umems k
    (if st.holdsUmem then some c.umem else none)
  keys : Moves s.bgvrnicGetMr (s.holder RegStage.holdsKey RegCall.lkey) s'.bgvrnicGetMr k
    (if st.holdsKey then some c.lkey else none)
  sges : Moves s.sges s.sgeHolder s'.sges (.inl k) (if st.holdsSge then some c.sge else none)
  leaked : s'.leaked = s.leaked
  fits : PartyFits s' st c

variable [DecidableEq κ]

theorem holder_update (hstage : s'.stage = Function.update s.stage k st)
    (hcall : s'.call = Function.update s.call k c) :
    s'.holder holds cell = Function.update (s.holder holds cell) k (if holds st then some (cell c) else none) := by
  funext j
  unfold holder
  rw [hstage, hcall]
  by_cases hj : j = k
  · subst hj
    simp only [Function.update_self]
  · simp only [Function.update_of_ne hj]

theorem sgeHolder_update (hstage : s'.stage = Function.update s.stage k st)
    (hcall : s'.call = Function.update s.call k c) (hleaked : s'.leaked = s.leaked) :
    s'.sgeHolder = Function.update s.sgeHolder (.inl k) (if st.holdsSge then some c.sge else none) := by
  funext x
  cases x with
  | inl j =>
    by_cases hj : j = k
    · subst hj
      rw [Function.update_self]
      exact (congrFun (holder_update hstage hcall) j).trans (Function.update_self ..)
    · rw [Function.update_of_ne (fun he => hj (Sum.inl.inj he))]
      exact (congrFun (holder_update hstage hcall) j).trans (Function.update_of_ne hj ..)
  | inr i =>
    rw [Function.update_of_ne (fun he => by cases he)]
    simp only [sgeHolder, hleaked]

theorem TableInv.stepped (h : TableInv s) (k : κ) (st : RegStage) (hs : Stepped s s' k st c) : TableInv s' := by
  constructor
  · rw [holder_update hs.stage hs.call]
    exact hs.mrs.owned
  · rw [holder_update hs.stage hs.call]
    exact hs.umems.owned
  · rw [holder_update hs.stage hs.call]
    exact hs.keys.owned
  · rw [sgeHolder_update hs.stage hs.call hs.leaked]
    exact hs.sges.owned
  · intro j
    rw [hs.stage, hs.call]
    by_cases hjk : j = k
    · subst hjk
      rw [Function.update_self, Function.update_self]
      exact hs.fits
    · rw [Function.update_of_ne hjk, Function.update_of_ne hjk]
      exact fits_others h hjk hs.mrs.frame hs.umems.frame hs.keys.frame hs.sges.frame

/-- A step at which a party gives back some of what it holds. -/
theorem TableInv.drop (h : TableInv s) (hst : s.stage k = st₀) (hstage : s'.stage = Function.update s.stage k st)
    (hcall : s'.call = Function.update s.call k c) (hleaked : s'.leaked = s.leaked)
    (hc : c = { s.call k with rc := c.rc }) (hfilled : st.filled = true → st₀.filled = true)
    (hmrs : Drops s.mrs c.mr s'.mrs st₀.holdsMr st.holdsMr)
    (humems : Drops s.umems c.umem s'.umems st₀.holdsUmem st.holdsUmem)
    (hkeys : Drops s.bgvrnicGetMr c.lkey s'.bgvrnicGetMr st₀.holdsKey st.holdsKey)
    (hsges : Drops s.sges c.sge s'.sges st₀.holdsSge st.holdsSge) : TableInv s' := by
  have hfits := h.fits k
  rw [hst] at hfits
  refine h.stepped k st ⟨hstage, hcall, ?_, ?_, ?_, ?_, hleaked, ?_⟩
  · exact h.mrs.drop hmrs (by rw [holder_of hst, hc])
  · exact h.umems.drop humems (by rw [holder_of hst, hc])
  · exact h.keys.drop hkeys (by rw [holder_of hst, hc])
  · exact h.sges.drop hsges (by rw [sgeHolder_inl, holder_of hst, hc])
  · refine hfits.carry ⟨?_, ?_, ?_, ?_, hfilled⟩ hc ?_ ?_ ?_ ?_
    · exact fun hholds => (hmrs.held hholds).1
    · exact fun hholds => (hkeys.held hholds).1
    · exact fun hholds => (hsges.held hholds).1
    · exact fun hholds => (humems.held hholds).1
    · exact fun hholds => congrFun (hmrs.held hholds).2 _
    · exact fun hholds => congrFun (hkeys.held hholds).2 _
    · exact fun hholds => congrFun (hsges.held hholds).2 _
    · exact fun hholds => congrFun (humems.held hholds).2 _

theorem TableInv.pinned {start length umem : Nat} {pages : IbUmem} (h : TableInv s) (hst : s.stage k = .idle)
    (hne : umem ≠ 0) (hfree : s.umems umem = none) :
    TableInv ((s.setUmem umem (some pages)).go k .pinned ⟨start, length, umem, pages, 0, 0, 0, 0⟩) := by
  refine h.stepped k .pinned ⟨rfl, rfl, ?_, ?_, ?_, ?_, rfl, ?_⟩
  · exact h.mrs.keep (holder_of hst)
  · exact h.umems.take (holder_of hst) hfree
  · exact h.keys.keep (holder_of hst)
  · exact h.sges.keep (holder_of hst)
  · refine ⟨fun hh => absurd hh (by decide), fun hh => absurd hh (by decide), fun hh => absurd hh (by decide), ?_⟩
    exact fun _ => ⟨Function.update_self .., hne⟩

theorem TableInv.mrAlloc {garbage : BgvrnicMr} (h : TableInv s) (hst : s.stage k = .pinned)
    (hfree : s.mrs mr = none) :
    TableInv ((s.setMr mr (some garbage)).go k .fresh { s.call k with mr := mr }) := by
  refine h.stepped k .fresh ⟨rfl, rfl, ?_, ?_, ?_, ?_, rfl, ?_⟩
  · exact h.mrs.take ((holder_of hst).trans rfl) hfree
  · exact h.umems.keep ((holder_of hst).trans rfl)
  · exact h.keys.keep ((holder_of hst).trans rfl)
  · exact h.sges.keep ((holder_of hst).trans rfl)
  · have hfits := h.fits k
    rw [hst] at hfits
    refine ⟨fun _ => ⟨garbage, Function.update_self .., ?_⟩, fun hh => absurd hh (by decide),
      fun hh => absurd hh (by decide), fun _ => hfits.umem rfl⟩
    exact ⟨fun hh => absurd hh (by decide), fun hh => absurd hh (by decide), fun hh => absurd hh (by decide)⟩

theorem TableInv.numbered {prevId : Int} (h : TableInv s) (hst : s.stage k = .fresh)
    (hnum : s.bgvrnicGetMr num = none) :
    TableInv ((modifyMr { s with prevId := prevId, idr := (num, (s.call k).mr) :: s.idr } (s.call k).mr fun b =>
      { b with lkey := num, rkey := num }).go k .numbered { s.call k with lkey := num }) := by
  have hfits := h.fits k
  rw [hst] at hfits
  obtain ⟨b, hb, -⟩ := hfits.block rfl
  refine h.stepped k .numbered ⟨rfl, rfl, ?_, ?_, ?_, ?_, rfl, ?_⟩
  · exact h.mrs.modify ((holder_of hst).trans rfl)
  · exact h.umems.keep ((holder_of hst).trans rfl)
  · have hkeys := h.keys.take (b := (s.call k).mr) ((holder_of hst).trans rfl) hnum
    rw [← getMr_cons] at hkeys
    exact hkeys
  · exact h.sges.keep ((holder_of hst).trans rfl)
  · refine ⟨fun _ => ?_, fun _ => ?_, fun hh => absurd hh (by decide), fun _ => hfits.umem rfl⟩
    · refine ⟨{ b with lkey := num, rkey := num }, modifyMr_self hb, ?_⟩
      exact ⟨fun _ => ⟨rfl, rfl⟩, fun hh => absurd hh (by decide), fun hh => absurd hh (by decide)⟩
    · exact (congrFun getMr_cons num).trans (Function.update_self ..)

theorem TableInv.mapped {sge : Nat} (h : TableInv s) (hst : s.stage k = .numbered) (hfree : s.sges sge = none) :
    TableInv (((s.setSge sge (some (s.call k).sges)).modifyMr (s.call k).mr fun b =>
      { b with sge := sge, sgeNum := (s.call k).sges.length }).go k .mapped { s.call k with sge := sge }) := by
  have hfits := h.fits k
  rw [hst] at hfits
  obtain ⟨b, hb, hblock⟩ := hfits.block rfl
  refine h.stepped k .mapped ⟨rfl, rfl, ?_, ?_, ?_, ?_, rfl, ?_⟩
  · exact h.mrs.modify ((holder_of hst).trans rfl)
  · exact h.umems.keep ((holder_of hst).trans rfl)
  · exact h.keys.keep ((holder_of hst).trans rfl)
  · exact h.sges.take ((holder_of hst).trans rfl) hfree
  · refine ⟨fun _ => ⟨_, modifyMr_self hb, ?_⟩, fun _ => hfits.key rfl, fun _ => ?_, fun _ => hfits.umem rfl⟩
    · exact ⟨fun _ => hblock.keyed rfl, fun _ => ⟨rfl, rfl⟩, fun hh => absurd hh (by decide)⟩
    · exact Function.update_self ..

theorem TableInv.newSge {sge : Nat} (h : TableInv s) (hst : s.stage k = .mapped) (hfree : s.sges sge = none) :
    TableInv ((((s.setSge (s.call k).sge none).setSge sge (s.sges (s.call k).sge)).modifyMr (s.call k).mr fun b =>
      { b with sge := sge }).go k .fitted { s.call k with sge := sge }) := by
  have hfits := h.fits k
  rw [hst] at hfits
  obtain ⟨b, hb, hblock⟩ := hfits.block rfl
  rw [hfits.sge rfl]
  refine h.stepped k .fitted ⟨rfl, rfl, ?_, ?_, ?_, ?_, rfl, ?_⟩
  · exact h.mrs.modify ((holder_of hst).trans rfl)
  · exact h.umems.keep ((holder_of hst).trans rfl)
  · exact h.keys.keep ((holder_of hst).trans rfl)
  · exact h.sges.swap ((holder_of hst).trans rfl) hfree
  · refine ⟨fun _ => ⟨_, modifyMr_self hb, ?_⟩, fun _ => hfits.key rfl, fun _ => ?_, fun _ => hfits.umem rfl⟩
    · exact ⟨fun _ => hblock.keyed rfl, fun _ => ⟨rfl, (hblock.listed rfl).2⟩, fun hh => absurd hh (by decide)⟩
    · exact Function.update_self ..

theorem TableInv.finished (h : TableInv s) (hst : s.stage k = .fitted) :
    TableInv ((s.modifyMr (s.call k).mr fun b =>
      { b with umem := (s.call k).umem, length := (s.call k).length, start := (s.call k).start }).go k .live
      (s.call k)) := by
  have hfits := h.fits k
  rw [hst] at hfits
  obtain ⟨b, hb, hblock⟩ := hfits.block rfl
  refine h.stepped k .live ⟨rfl, rfl, ?_, ?_, ?_, ?_, rfl, ?_⟩
  · exact h.mrs.modify ((holder_of hst).trans rfl)
  · exact h.umems.keep ((holder_of hst).trans rfl)
  · exact h.keys.keep ((holder_of hst).trans rfl)
  · exact h.sges.keep ((holder_of hst).trans rfl)
  · refine ⟨fun _ => ⟨_, modifyMr_self hb, ?_⟩, fun _ => hfits.key rfl, fun _ => hfits.sge rfl,
      fun _ => hfits.umem rfl⟩
    exact ⟨fun _ => hblock.keyed rfl, fun _ => hblock.listed rfl, fun _ => ⟨rfl, rfl, rfl⟩⟩

theorem sgeHolder_pass {r : Nat} (hstage : s'.stage = Function.update s.stage k .idle)
    (hcall : s'.call = Function.update s.call k c) (hleaked : s'.leaked = s.leaked ++ [(k, r)]) :
    s'.sgeHolder = Function.update (Function.update s.sgeHolder (.inl k) none) (.inr s.leaked.length) (some r) := by
  funext x
  cases x with
  | inl j =>
    rw [Function.update_of_ne (fun he => by cases he)]
    by_cases hj : j = k
    · subst hj
      rw [Function.update_self]
      exact (congrFun (holder_update hstage hcall) j).trans (Function.update_self ..)
    · rw [Function.update_of_ne (fun he => hj (Sum.inl.inj he))]
      exact (congrFun (holder_update hstage hcall) j).trans (Function.update_of_ne hj ..)
  | inr i =>
    simp only [sgeHolder, hleaked]
    rcases lt_trichotomy i s.leaked.length with hi | rfl | hi
    · rw [Function.update_of_ne (fun he => hi.ne (Sum.inr.inj he)), Function.update_of_ne (fun he => by cases he),
        List.getElem?_append_left hi]
      rfl
    · rw [Function.update_self]
      simp
    · rw [Function.update_of_ne (fun he => hi.ne' (Sum.inr.inj he)), Function.update_of_ne (fun he => by cases he)]
      have hlength : (s.leaked ++ [(k, r)]).length ≤ i := by
        rw [List.length_append]
        exact hi
      rw [List.getElem?_eq_none hlength, sgeHolder, List.getElem?_eq_none hi.le]

/-- A deregistered region leaves its SGEs behind. -/
theorem TableInv.unlisted (h : TableInv s) (hst : s.stage k = .unlisted) :
    TableInv ({ s.setMr (s.call k).mr none with leaked := s.leaked ++ [(k, (s.call k).sge)] }.go k .idle
      (s.call k)) := by
  have hmrs := h.mrs.give (k := k) (r := (s.call k).mr) ((holder_of hst).trans rfl)
  constructor
  · rw [holder_update rfl rfl]
    exact hmrs.owned
  · rw [holder_update rfl rfl]
    exact (h.umems.keep (k := k) ((holder_of hst).trans rfl)).owned
  · rw [holder_update rfl rfl]
    exact (h.keys.keep (k := k) ((holder_of hst).trans rfl)).owned
  · rw [sgeHolder_pass (s := s) rfl rfl rfl]
    have hsge : s.sgeHolder (.inl k) = some (s.call k).sge := (holder_of hst).trans rfl
    refine h.sges.pass hsge ?_
    rw [sgeHolder, List.getElem?_eq_none le_rfl]
    rfl
  · intro j
    by_cases hjk : j = k
    · subst hjk
      refine ⟨fun hh => ?_, fun hh => ?_, fun hh => ?_, fun hh => ?_⟩ <;>
      · dsimp only [go] at hh
        rw [Function.update_self] at hh
        cases hh
    · have hstage : Function.update s.stage k .idle j = s.stage j := Function.update_of_ne hjk ..
      have hcall : Function.update s.call k (s.call k) j = s.call j := Function.update_of_ne hjk ..
      change PartyFits _ (Function.update s.stage k .idle j) (Function.update s.call k (s.call k) j)
      rw [hstage, hcall]
      exact fits_others h hjk hmrs.frame (fun _ hr => absurd rfl hr) (fun _ hr => absurd rfl hr)
        fun _ hr => absurd rfl hr

theorem TableInv.unwindStep (h : TableInv s) (hs : s.unwindStep k = some s') : TableInv s' := by
  have hfits := h.fits k
  cases hst : s.stage k with
  | out4 =>
    rw [hst] at hfits
    obtain ⟨b, hb, hblock⟩ := hfits.block rfl
    simp only [MrTable.unwindStep, hst, hb, Option.map_some, Option.some.injEq] at hs
    rw [(hblock.listed rfl).1] at hs
    subst hs
    exact h.drop hst rfl rfl rfl rfl id .kept .kept .kept .given
  | out3 =>
    rw [hst] at hfits
    obtain ⟨b, hb, hblock⟩ := hfits.block rfl
    simp only [MrTable.unwindStep, hst, hb, Option.map_some, Option.some.injEq] at hs
    rw [(hblock.keyed rfl).1] at hs
    subst hs
    exact h.drop hst rfl rfl rfl rfl id .kept .kept (.inr ⟨getMr_free, rfl, rfl⟩) .kept
  | out2 =>
    simp only [MrTable.unwindStep, hst, Option.some.injEq] at hs
    subst hs
    exact h.drop hst rfl rfl rfl rfl id .given .kept .kept .kept
  | out1 =>
    simp only [MrTable.unwindStep, hst, Option.some.injEq] at hs
    subst hs
    refine TableInv.answer ?_ _ _
    exact h.drop hst rfl rfl rfl rfl id .kept .given .kept .kept
  | _ =>
    simp only [MrTable.unwindStep, hst] at hs
    cases hs

theorem TableInv.deregStep (h : TableInv s) (hs : s.deregStep k = some s') : TableInv s' := by
  have hfits := h.fits k
  cases hst : s.stage k with
  | released =>
    rw [hst] at hfits
    obtain ⟨b, hb, hblock⟩ := hfits.block rfl
    simp only [MrTable.deregStep, hst, hb, Option.map_some, Option.some.injEq] at hs
    rw [(hblock.keyed rfl).1] at hs
    subst hs
    exact h.drop hst rfl rfl rfl rfl id .kept .kept (.inr ⟨getMr_free, rfl, rfl⟩) .kept
  | unlisted =>
    simp only [MrTable.deregStep, hst, Option.some.injEq] at hs
    subst hs
    exact (h.unlisted hst).answer k 0
  | _ =>
    simp only [MrTable.deregStep, hst] at hs
    cases hs

section Step

variable {A : Idr}

theorem TableInv.stepReg {start length : Nat} {result : Except Int (Nat × IbUmem)} (h : TableInv s)
    (hs : regStep A s (.reg k start length result) = some s') : TableInv s' := by
  simp only [regStep] at hs
  split at hs
  next hst =>
    split at hs
    next =>
      cases hs
      exact h.answer k _
    next =>
      cases result with
      | error rc =>
        cases hs
        exact h.answer k rc
      | ok pinned =>
        obtain ⟨umem, pages⟩ := pinned
        dsimp only at hs
        split at hs
        next hfree =>
          cases hs
          exact h.pinned hst hfree.1 hfree.2
        next => cases hs
  next => cases hs

theorem TableInv.stepMrAlloc {result : Option (Nat × BgvrnicMr)} (h : TableInv s)
    (hs : regStep A s (.mrAlloc k result) = some s') : TableInv s' := by
  simp only [regStep] at hs
  split at hs
  next hst =>
    cases result with
    | none =>
      cases hs
      exact h.drop hst rfl rfl rfl rfl id .kept .kept .kept .kept
    | some fresh =>
      obtain ⟨mr, garbage⟩ := fresh
      dsimp only at hs
      split at hs
      next hfree =>
        cases hs
        exact h.mrAlloc hst hfree
      next => cases hs
  next => cases hs

theorem TableInv.stepNumber {agains : Nat} {last : IdrOutcome} (h : TableInv s)
    (hs : regStep A s (.number k agains last) = some s') : TableInv s' := by
  simp only [regStep] at hs
  split at hs
  next hst =>
    obtain ⟨prevId, ⟨num, hcall, hnum⟩ | ⟨rc, num, hrc, hcall⟩⟩ :=
      allocLkey_outcome A (s.call k).mr last agains s
    · rw [hcall] at hs
      cases hs
      exact h.numbered hst hnum
    · rw [hcall] at hs
      dsimp only at hs
      rw [if_pos hrc] at hs
      cases hs
      exact h.drop hst rfl rfl rfl rfl id .kept .kept .kept .kept
  next => cases hs

theorem TableInv.stepSgeAlloc {result : Option Nat} (h : TableInv s)
    (hs : regStep A s (.sgeAlloc k result) = some s') : TableInv s' := by
  simp only [regStep] at hs
  split at hs
  next hst =>
    cases result with
    | none =>
      cases hs
      exact h.drop hst rfl rfl rfl rfl id .kept .kept .kept .kept
    | some sge =>
      dsimp only at hs
      split at hs
      next hfree =>
        cases hs
        exact h.mapped hst hfree
      next => cases hs
  next => cases hs

theorem TableInv.stepNewSge {result : Option Nat} (h : TableInv s)
    (hs : regStep A s (.newSge k result) = some s') : TableInv s' := by
  simp only [regStep] at hs
  split at hs
  next hst =>
    split at hs
    next =>
      cases result with
      | none =>
        cases hs
        exact h.drop hst rfl rfl rfl rfl id .kept .kept .kept .kept
      | some sge =>
        dsimp only at hs
        split at hs
        next hfree =>
          cases hs
          exact h.newSge hst hfree
        next => cases hs
    next =>
      cases hs
      exact h.drop hst rfl rfl rfl rfl id .kept .kept .kept .kept
  next => cases hs

theorem TableInv.stepFinish (h : TableInv s)
    (hs : regStep A s (.finish k) = some s') : TableInv s' := by
  simp only [regStep] at hs
  split at hs
  next hst =>
    cases hs
    exact (h.finished hst).answer k 0
  next => cases hs

theorem TableInv.stepDereg (h : TableInv s)
    (hs : regStep A s (.dereg k) = some s') : TableInv s' := by
  simp only [regStep] at hs
  split at hs
  next hst =>
    have hfits := h.fits k
    rw [hst] at hfits
    obtain ⟨b, hb, hblock⟩ := hfits.block rfl
    rw [hb] at hs
    cases hs
    dsimp only
    rw [(hblock.filled rfl).1, if_pos (hfits.umem rfl).2]
    exact h.drop hst rfl rfl rfl rfl id .kept .given .kept .kept
  next => cases hs

theorem TableInv.step {i : RegInput κ} (h : TableInv s) (hs : regStep A s i = some s') : TableInv s' := by
  cases i with
  | reg k start length result => exact h.stepReg hs
  | mrAlloc k result => exact h.stepMrAlloc hs
  | number k agains last => exact h.stepNumber hs
  | sgeAlloc k result => exact h.stepSgeAlloc hs
  | newSge k result => exact h.stepNewSge hs
  | finish k => exact h.stepFinish hs
  | unwind k => exact h.unwindStep hs
  | dereg k => exact h.stepDereg hs
  | deregGo k => exact h.deregStep hs

end Step

theorem run_inv {A : Idr} {is : List (RegInput κ)} (hs : run (regStep A) noRegions is = some s) : TableInv s :=
  run_preserves (fun _ _ _ h hstep => h.step hstep) noRegions_inv hs

/-- Regions come and go in whatever order: a key leads to the region as it was registered, nothing is shared, and all
that stays behind when the calls are over are the SGEs of the regions that have been deregistered. -/
theorem regions_sound {A : Idr} {is : List (RegInput κ)} (hs : run (regStep A) noRegions is = some s) :
    (∀ k, s.stage k = .live → s.Registered k) ∧
      (∀ lkey mr, s.bgvrnicGetMr lkey = some mr →
        s.mrs mr ≠ none ∧ ∃ k, (s.stage k).holdsKey = true ∧ (s.call k).lkey = lkey ∧ (s.call k).mr = mr) ∧
      (∀ j k, j ≠ k → s.stage j = .live → s.stage k = .live →
        (s.call j).lkey ≠ (s.call k).lkey ∧ (s.call j).mr ≠ (s.call k).mr ∧ (s.call j).sge ≠ (s.call k).sge ∧
          (s.call j).umem ≠ (s.call k).umem) ∧
      (s.leaked.map Prod.snd).Nodup ∧
      (s.Quiet →
        (∀ lkey, s.bgvrnicGetMr lkey ≠ none ↔ ∃ k, s.stage k = .live ∧ (s.call k).lkey = lkey) ∧
          (∀ mr, s.mrs mr ≠ none ↔ ∃ k, s.stage k = .live ∧ (s.call k).mr = mr) ∧
          (∀ umem, s.umems umem ≠ none ↔ ∃ k, s.stage k = .live ∧ (s.call k).umem = umem) ∧
          ∀ sge, s.sges sge ≠ none ↔
            (∃ k, s.stage k = .live ∧ (s.call k).sge = sge) ∨ sge ∈ s.leaked.map Prod.snd) := by
  have h := run_inv hs
  refine ⟨fun k hst => h.registered hst, fun lkey mr hmr => ?_, fun j k hjk hj hk => ?_, h.leaked_nodup,
    fun hquiet => ⟨fun lkey => ?_, fun mr => ?_, fun umem => ?_, fun sge => h.quiet_sges hquiet sge⟩⟩
  · obtain ⟨k, hst, hkey, hblock⟩ := h.lookup hmr
    exact ⟨hblock, k, hst, hkey⟩
  · refine ⟨fun he => ?_, fun he => ?_, fun he => ?_, fun he => ?_⟩
    · exact hjk (h.keys.alone j k _ ((holder_live hj rfl).trans (congrArg some he)) (holder_live hk rfl))
    · exact hjk (h.mrs.alone j k _ ((holder_live hj rfl).trans (congrArg some he)) (holder_live hk rfl))
    · have hsame := h.sges.alone (.inl j) (.inl k) _ ((holder_live hj rfl).trans (congrArg some he))
        (holder_live hk rfl)
      exact hjk (Sum.inl.inj hsame)
    · exact hjk (h.umems.alone j k _ ((holder_live hj rfl).trans (congrArg some he)) (holder_live hk rfl))
  · rw [h.keys.there lkey]
    exact hquiet.holder_iff rfl rfl
  · rw [h.mrs.there mr]
    exact hquiet.holder_iff rfl rfl
  · rw [h.umems.there umem]
    exact hquiet.holder_iff rfl rfl

def twoPages : IbUmem := ⟨4096, 100, [[⟨0x10000, 4096⟩, ⟨0x11000, 4096⟩]]⟩

/-- One region comes and goes, while the other call runs out of memory for its copy and comes again. -/
def comings : List (RegInput Bool) :=
  [.reg false 100 8000 (.ok (1, twoPages)), .reg true 100 8000 (.ok (2, twoPages)), .mrAlloc true (some (1, default)),
    .mrAlloc false (some (2, default)), .number true 1 .number, .number false 0 .number, .sgeAlloc true (some 1),
    .sgeAlloc false (some 2), .newSge true none, .unwind true, .newSge false (some 1), .unwind true, .finish false,
    .unwind true, .unwind true, .reg true 100 8000 (.ok (2, twoPages)), .dereg false, .mrAlloc true (some (1, default)),
    .deregGo false, .number true 0 .number, .deregGo false, .sgeAlloc true (some 2), .newSge true (some 3),
    .finish true]

theorem regions_sound_two_calls :
    ∃ s, run (regStep searchingIdr) noRegions comings = some s ∧ s.Registered true ∧ s.leaked = [(false, 1)] ∧
      s.sges 1 ≠ none ∧ s.results = [(false, 0), (true, -ENOMEM), (false, 0), (true, 0)] := by
  have hsome : (run (regStep searchingIdr) noRegions comings).isSome = true := by decide +kernel
  obtain ⟨s, hs⟩ := Option.isSome_iff_exists.mp hsome
  have hstages : (run (regStep searchingIdr) noRegions comings).map (fun s => (s.stage true, s.stage false)) =
      some (.live, .idle) := by decide +kernel
  have hends : (run (regStep searchingIdr) noRegions comings).map (fun s => (s.leaked, s.results)) =
      some ([(false, 1)], [(false, 0), (true, -ENOMEM), (false, 0), (true, 0)]) := by decide +kernel
  rw [hs, Option.map_some, Option.some.injEq, Prod.mk.injEq] at hstages hends
  obtain ⟨htrue, hfalse⟩ := hstages
  obtain ⟨hleaked, hresults⟩ := hends
  obtain ⟨hregistered, -, -, -, hquiet⟩ := regions_sound hs
  have hall : s.Quiet := fun k => by
    cases k with
    | false => exact .inl hfalse
    | true => exact .inr htrue
  refine ⟨s, hs, hregistered true htrue, hleaked, ?_, hresults⟩
  rw [(hquiet hall).2.2.2 1, hleaked]
  exact .inr (List.mem_singleton.mpr rfl)

end MrTable

end BgqVrnic
