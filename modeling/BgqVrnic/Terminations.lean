import BgqVrnic.BlockResets

namespace BgqVrnic

open Intrusive Passes Pools Runs

namespace IoNode

/-- The second loop of `quiet_IOlinks` -/
def quietOne (s : IoNode) (i : Link) : Option IoNode := do
  let m ← disableActiveConnectionList s.m i
  let (m, _) ← disablePendingConnectionList m i
  let s := { s with m := m }.flushRequests i
  let (m, told) ← flushIolinkConnectionList s.m i
  some { s with m := m, indicated := s.indicated ++ told }

end IoNode

/-- `quiet_IOlinks` -/
def quietIOlinks (s : IoNode) : Option IoNode :=
  ioLinks.foldlM IoNode.quietOne
    (ioLinks.foldl (fun s i => { s with active := Function.update s.active i false }) s)

/-- What the status callback is told when the requests of a link are flushed. -/
def linkReports (r : Resources) (k : Link) : List (Nat × Nat) :=
  (flushOf r (.packetcontrols k)).2 ++ (flushOf r (.smallpaObjCtls k)).2 ++ (flushOf r (.rdmaObjCtls k)).2

/-- No link goes on, and all that was going on has come to its end: the requests have been reported, and so have the
connections on the lists `active`; those on the lists `pend` wait as aborted ones, and nobody is told of them. -/
structure Quieted (s s' : IoNode) (active pend : Link → List Nat) : Prop where
  down : ∀ k, s'.active k = false
  posted : ∀ n, (s'.pools n).posted = []
  told : s'.told = s.told ++ ioLinks.flatMap (linkReports s.pools)
  indicated : s'.indicated = s.indicated ++ ioLinks.flatMap fun k => (active k).map (indication s.m)
  once : (ioLinks.flatMap active ++ ioLinks.flatMap pend).Nodup
  lists : ∀ k, s'.m.connActivelist k = none ∧ s'.m.connPendlist k = none
  freed : ∀ k, ∀ c ∈ active k, (s'.m.conn c).state = .free
  aborted : ∀ k, ∀ c ∈ pend k, (s'.m.conn c).state = .aborted
  others : ∀ c, (∀ k, c ∉ active k ∧ c ∉ pend k) → s'.m.conn c = s.m.conn c

variable {s s' : IoNode} {m m' : MyContext} {L L' : Place → List Nat} {k : Link} {ks : List Link} {S : Link → Prop}

theorem quietOne_spec (h : Arranged none s.m L) (k : Link) :
    ∃ s', s.quietOne k = some s' ∧ LinksReset (fun j => j = k) s L s' (resetLists L k) ∧
      s'.told = s.told ++ linkReports s.pools k ∧
      s'.indicated = s.indicated ++ (L (.active k)).map (indication s.m) := by
  obtain ⟨m', hreset, hconns⟩ := h.resetLink_conns k
  obtain ⟨m₁, m₂, n, h₁, h₂, h₃⟩ := resetLink_calls hreset
  have hpools := fun n => IoNode.flushRequests_pools { s with m := m₂ } k n
  have htold := fun x => IoNode.flushRequests_told { s with m := m₂ } k (x := x)
  refine ⟨{ IoNode.flushRequests { s with m := m₂ } k with
    m := m'
    indicated := s.indicated ++ (L (.active k)).map (indication s.m) }, ?_, ?_, ?_, rfl⟩
  · unfold IoNode.quietOne
    rw [h₁]
    dsimp only [Option.bind_some, Option.bind_eq_bind]
    rw [h₂]
    dsimp only [Option.bind_some]
    have hm : (IoNode.flushRequests { s with m := m₂ } k).m = m₂ := rfl
    rw [hm, h₃]
    rfl
  · constructor
    case conns => exact hconns
    case flushed => exact fun n hn => (hpools n).trans (if_pos hn)
    case pools => exact fun n hn => (hpools n).trans (if_neg hn)
    case reported => exact fun n hn x hx => (htold x).mpr (Or.inr ⟨n, hn, hx⟩)
    case told => exact fun x hx => (htold x).mpr (Or.inl hx)
    case states => rfl
  · change s.told ++ _ ++ _ ++ _ = _
    rw [List.append_assoc, List.append_assoc, linkReports, List.append_assoc]
    rfl

/-- Another link has its requests to report. -/
theorem LinksReset.reports (h : LinksReset S s L s' L') (hk : ¬ S k) :
    linkReports s'.pools k = linkReports s.pools k := by
  have hpool : ∀ n : PoolName, n.link = k → flushOf s'.pools n = flushOf s.pools n := by
    rintro n rfl
    rw [flushOf, flushOf, h.pools n hk]
  rw [linkReports, linkReports, hpool _ rfl, hpool _ rfl, hpool _ rfl]

/-- And its connections to indicate. -/
theorem LinksReset.indications (h : LinksReset S s L s' L') (ha : Arranged none s.m L) (hk : ¬ S k) :
    (L' (.active k)).map (indication s'.m) = (L (.active k)).map (indication s.m) := by
  rw [(h.conns.kept k hk).1]
  apply List.map_congr_left
  intro c hc
  have hconn : s'.m.conn c = s.m.conn c := by
    refine h.conns.frame c fun j hj => ⟨fun hmem => ?_, fun hmem => ?_⟩
    · cases ha.family.only c _ _ hc hmem
      exact hk hj
    · cases ha.family.only c _ _ hc hmem
  rw [indication, indication, hconn]

theorem quiet_links (h : Arranged none s.m L) (hks : ks.Nodup) :
    ∃ s' L', ks.foldlM IoNode.quietOne s = some s' ∧ LinksReset (fun k => k ∈ ks) s L s' L' ∧
      s'.told = s.told ++ ks.flatMap (linkReports s.pools) ∧
      s'.indicated = s.indicated ++ ks.flatMap fun k => (L (.active k)).map (indication s.m) := by
  induction ks generalizing s L with
  | nil =>
    refine ⟨s, L, rfl, LinksReset.refl h fun k => List.not_mem_nil, ?_, ?_⟩
    · rw [List.flatMap_nil, List.append_nil]
    · rw [List.flatMap_nil, List.append_nil]
  | cons k ks ih =>
    obtain ⟨hk, hks⟩ := List.nodup_cons.mp hks
    obtain ⟨s₁, hone, hreset, htold, hindicated⟩ := quietOne_spec h k
    obtain ⟨s₂, L₂, hrest, hreset', htold', hindicated'⟩ := ih hreset.conns.arranged hks
    have hne : ∀ j ∈ ks, j ≠ k := fun j hj he => hk (he ▸ hj)
    refine ⟨s₂, L₂, ?_, ?_, ?_, ?_⟩
    · rw [List.foldlM_cons, hone]
      exact hrest
    · refine (hreset.trans hreset' ?_).congr fun j => List.mem_cons
      rintro j rfl hj
      exact hk hj
    · rw [htold', htold, List.flatMap_cons, List.append_assoc,
        List.flatMap_congr fun j hj => hreset.reports (hne j hj)]
    · rw [hindicated', hindicated, List.flatMap_cons, List.append_assoc,
        List.flatMap_congr fun j hj => hreset.indications h (hne j hj)]

/-- No context is on two lists, or twice on one. -/
theorem Arranged.nodup_places (h : Arranged none m L) {places : List Place} (hplaces : places.Nodup) :
    (places.flatMap L).Nodup := by
  apply List.nodup_flatMap.mpr
  constructor
  · exact fun p _ => (h.family.kept p).chain.nodup
  · apply hplaces.imp
    intro p q hpq c hp hq
    exact hpq (h.family.only c p q hp hq)

theorem deactivate_all (ks : List Link) (s : IoNode) :
    ∃ active, ks.foldl (fun s i => { s with active := Function.update s.active i false }) s =
        { s with active := active } ∧ ∀ k, k ∈ ks ∨ s.active k = false → active k = false := by
  induction ks generalizing s with
  | nil => exact ⟨s.active, rfl, fun k hk => hk.resolve_left List.not_mem_nil⟩
  | cons i ks ih =>
    obtain ⟨active, hrest, hdown⟩ := ih { s with active := Function.update s.active i false }
    refine ⟨active, hrest, fun k hk => hdown k ?_⟩
    by_cases hki : k = i
    · subst hki
      exact .inr (Function.update_self ..)
    · rw [List.mem_cons, or_assoc] at hk
      rcases hk with rfl | hk | hk
      · exact absurd rfl hki
      · exact .inl hk
      · dsimp only
        rw [Function.update_of_ne hki]
        exact .inr hk

theorem quietIOlinks_spec (h : Arranged none s.m L) :
    ∃ s', quietIOlinks s = some s' ∧ Quieted s s' (fun k => L (.active k)) fun k => L (.pend k) := by
  obtain ⟨down, hdeactivate, hdown⟩ := deactivate_all ioLinks s
  have h₁ : Arranged none { s with active := down }.m L := h
  have hnodup : ioLinks.Nodup := by decide
  obtain ⟨s', L', hloop, hreset, htold, hindicated⟩ := quiet_links h₁ hnodup
  refine ⟨s', ?_, ?_⟩
  · rw [quietIOlinks, hdeactivate]
    exact hloop
  constructor
  case down =>
    intro k
    rw [hreset.states]
    exact hdown k (.inl (mem_ioLinks k))
  case posted =>
    intro n
    rw [hreset.flushed n (mem_ioLinks n.link)]
    rfl
  case told => exact htold
  case indicated => exact hindicated
  case once =>
    have hplaces : (ioLinks.map Place.active ++ ioLinks.map Place.pend).Nodup := by decide
    have honce := h.nodup_places hplaces
    rw [List.flatMap_append, List.flatMap_map, List.flatMap_map] at honce
    exact honce
  case lists =>
    intro k
    obtain ⟨hactive, hpend, -⟩ := hreset.conns.gone k (mem_ioLinks k)
    constructor
    · have hhead : s'.m.connActivelist k = (L' (.active k)).head? := hreset.conns.arranged.head_eq (.active k)
      rw [hhead, hactive]
      rfl
    · have hhead : s'.m.connPendlist k = (L' (.pend k)).head? := hreset.conns.arranged.head_eq (.pend k)
      rw [hhead, hpend]
      rfl
  case freed =>
    intro k c hc
    exact hreset.conns.arranged.fits .free c (hreset.conns.freed c (.inr ⟨k, mem_ioLinks k, hc⟩))
  case aborted =>
    intro k c hc
    obtain ⟨-, -, habort⟩ := hreset.conns.gone k (mem_ioLinks k)
    have hmem : c ∈ L' (.abort k) := by
      rw [habort]
      exact List.mem_append_left _ hc
    exact (hreset.conns.arranged.fits (.abort k) c hmem).1
  case others => exact fun c hc => hreset.conns.frame c fun k _ => hc k

/-- Whatever has been going on, `quiet_IOlinks` brings all of it to its end: every request and every connection on an
active list is reported, each once, and those on the pending lists are not. -/
theorem quiet_links_settle {max : Nat} {is : List ConnInput} (hmax : 0 < max)
    (hok : Meets connStep RepliesFit (connListInit m max) is) (hr : run connStep (connListInit m max) is = some s.m) :
    ∃ s' active pend, quietIOlinks s = some s' ∧
      (∀ k, Chain s.m.next (s.m.head (.active k)) (active k) ∧ Chain s.m.next (s.m.head (.pend k)) (pend k)) ∧
      Quieted s s' active pend := by
  have hinv : Always connStep ConnInv (connListInit m max) is :=
    always_of_step (fun _ _ _ h hi hs => h.step hi hs) (connInv_init m hmax) hok
  obtain ⟨L, h, -⟩ := hinv.last hr
  obtain ⟨s', hs', hquieted⟩ := quietIOlinks_spec h
  exact ⟨s', _, _, hs', fun k => ⟨(h.family.kept (.active k)).chain, (h.family.kept (.pend k)).chain⟩, hquieted⟩

/-- One connection is up and one is pending, and the request of `askedNode` is posted. -/
def busyInputs : List ConnInput :=
  [.connect (upEnv 100) 5 default, .reply someReply, .connect (upEnv 200) 6 default]

def busyNode : IoNode := { askedNode 0 0 with m := stateAfter busyInputs }

theorem quiet_links_settle_busy :
    ∃ s' active pend, quietIOlinks busyNode = some s' ∧
      (∀ k, Chain busyNode.m.next (busyNode.m.head (.active k)) (active k) ∧
        Chain busyNode.m.next (busyNode.m.head (.pend k)) (pend k)) ∧
      Quieted busyNode s' active pend ∧ s'.told = [(77, canceledStatus)] ∧ s'.indicated.map Prod.fst = [0] := by
  have hok : Meets connStep RepliesFit fourContexts busyInputs := by
    refine fun m hm => ⟨trivial, fun m' hm' => ⟨?_, fun _ _ => ⟨trivial, trivial⟩⟩⟩
    have he : m = stateAfter [.connect (upEnv 100) 5 default] := by
      have hm : connStep fourContexts (.connect (upEnv 100) 5 default) = some m := hm
      simp [stateAfter, run, hm]
    subst he
    intro c hc
    have hc0 : replyContext (stateAfter [.connect (upEnv 100) 5 default]) someReply = some 0 := rfl
    cases Option.some.inj (hc.symm.trans hc0)
    decide
  obtain ⟨s', active, pend, hs', hchains, hquieted⟩ :=
    quiet_links_settle (s := busyNode) (by decide) hok rfl
  have hindicated : (quietIOlinks busyNode).map (fun s => s.indicated.map Prod.fst) = some [0] := by decide +kernel
  rw [hs', Option.map_some, Option.some.injEq] at hindicated
  exact ⟨s', active, pend, hs', hchains, hquieted, hquieted.told, hindicated⟩

end BgqVrnic
