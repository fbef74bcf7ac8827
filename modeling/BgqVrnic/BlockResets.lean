import BgqVrnic.ConnRuns
import BgqVrnic.LinkReset
import BgqVrnic.ReportRuns

namespace BgqVrnic

open Intrusive Passes Pools

/-- What the poll thread and a reset of the I/O links use: the connections, the pools, the states in
`injfifo_ctls`, the block that `bgq_io_reset_block_id` asks to reset, and the history of what the status
callback and the users of the connections have been told. -/
structure IoNode where
  m : MyContext
  pools : Resources
  active : Link → Bool
  ioResetBlockId : Nat
  told : List (Nat × Nat)
  indicated : List (Nat × IonetHeader)

/-- The posted blocks of a pool are cancelled, reported if they have a request, and put in front of the
free ones. -/
def flushPosted {β : Type*} (K : Kind β) (p : Pool β) : Pool β × List (Nat × Nat) :=
  ({ free := p.posted ++ p.free
     posted := []
     block := fun i => if i ∈ p.posted then K.cancel (p.block i) else p.block i },
    p.posted.flatMap fun i => Desk.report K (p.block i) canceledStatus)

/-- `flush_pkt_reqid` -/
def flushPktReqid : Pool PktDescriptor → Pool PktDescriptor × List (Nat × Nat) := flushPosted pktKind

/-- `flush_rdma_counter_reqid` -/
def flushRdmaCounterReqid : Pool MudmRdmaObject → Pool MudmRdmaObject × List (Nat × Nat) :=
  flushPosted rdmaKind

namespace IoNode

/-- The flush back of request IDs to the user, in its three calls. -/
def flushRequests (s : IoNode) (i : Link) : IoNode :=
  let packets := flushPktReqid (s.pools (.packetcontrols i))
  let smallPackets := flushPktReqid (s.pools (.smallpaObjCtls i))
  let objects := flushRdmaCounterReqid (s.pools (.rdmaObjCtls i))
  { s with
    pools := ((s.pools.put (.packetcontrols i) packets.1).put (.smallpaObjCtls i) smallPackets.1).put
      (.rdmaObjCtls i) objects.1
    told := s.told ++ packets.2 ++ smallPackets.2 ++ objects.2 }

/-- The first loop of `mudm_resetIOlink` -/
def deactivate (blockID : Nat) (s : IoNode) (i : Link) : IoNode :=
  if s.m.remoteBlockID i = blockID then { s with active := Function.update s.active i false } else s

/-- The second loop. The flushes stand before, between and behind the two halves of the reset of the
hardware. -/
def resetOne (blockID : Nat) (s : IoNode) (i : Link) : Option IoNode :=
  if s.m.remoteBlockID i = blockID then do
    let m ← disableActiveConnectionList s.m i
    let (m, _) ← disablePendingConnectionList m i
    let s := (({ s with m := m }.flushRequests i).flushRequests i).flushRequests i
    let (m, told) ← flushIolinkConnectionList s.m i
    some { s with m := m, indicated := s.indicated ++ told }
  else some s

/-- The third loop -/
def activate (blockID : Nat) (s : IoNode) (i : Link) : IoNode :=
  if s.m.remoteBlockID i = blockID then
    { s with
      active := Function.update s.active i true
      m := { s.m with remoteBlockID := Function.update s.m.remoteBlockID i 0 } }
  else s

end IoNode

/-- `mudm_resetIOlink` -/
def mudmResetIOlink (blockID : Nat) (s : IoNode) : Option (IoNode × Int) :=
  if s.m.magic then do
    let s := ioLinks.foldl (IoNode.deactivate blockID) s
    let s ← ioLinks.foldlM (IoNode.resetOne blockID) s
    some (ioLinks.foldl (IoNode.activate blockID) s, 0)
  else some (s, -EFAULT)

/-- A turn of `vrnic_thread` for link 0, behind the poll. The block ID is kept for the reports that the
link is closed; the call has the variable itself, which has been cleared. -/
def vrnicThread (s : IoNode) : Option IoNode :=
  if s.ioResetBlockId ≠ 0 then do
    let s := { s with ioResetBlockId := 0 }
    let (s, _) ← mudmResetIOlink s.ioResetBlockId s
    some s
  else some s

/-- The link has been reset: nothing is left of its connections but those that were pending and wait for
their users, its requests have been cancelled, and it is active without a block. -/
structure LinkWasReset (s s' : IoNode) (L : Place → List Nat) (k : Link) : Prop where
  active : s'.m.connActivelist k = none
  pend : s'.m.connPendlist k = none
  freed : ∀ c ∈ L (.active k), (s'.m.conn c).state = .free
  aborted : ∀ c ∈ L (.pend k), (s'.m.conn c).state = .aborted
  posted : ∀ n : PoolName, n.link = k → (s'.pools n).posted = []
  requests : ∀ n : PoolName, n.link = k → ∀ i ∈ (s.pools n).posted,
    ∀ x ∈ Desk.report n.kind ((s.pools n).block i) canceledStatus, x ∈ s'.told
  blockID : s'.m.remoteBlockID k = 0
  up : s'.active k = true

/-- The link has its connections, its lists, its requests and its state as before. -/
structure LinkKept (s s' : IoNode) (L : Place → List Nat) (k : Link) : Prop where
  active : s'.m.connActivelist k = s.m.connActivelist k
  pend : s'.m.connPendlist k = s.m.connPendlist k
  abort : s'.m.connAbortlist k = s.m.connAbortlist k
  conns : ∀ c, c ∈ L (.active k) ∨ c ∈ L (.pend k) ∨ c ∈ L (.abort k) → s'.m.conn c = s.m.conn c
  pools : ∀ n : PoolName, n.link = k → s'.pools n = s.pools n
  blockID : s'.m.remoteBlockID k = s.m.remoteBlockID k
  state : s'.active k = s.active k

/-- The request resets the links of its block, and no others. -/
def ResetsBlock (s : IoNode) (L : Place → List Nat) : Prop :=
  ∃ s', vrnicThread s = some s' ∧ ∀ k,
    if s.m.remoteBlockID k = s.ioResetBlockId then LinkWasReset s s' L k else LinkKept s s' L k

/-- The link has no connections that are up or pending and no requests, and is active. -/
structure LinkIdle (s : IoNode) (L : Place → List Nat) (k : Link) : Prop where
  active : L (.active k) = []
  pend : L (.pend k) = []
  posted : ∀ n : PoolName, n.link = k → (s.pools n).posted = []
  up : s.active k = true

/-- The connections when the links in `S` have been reset, with the lists that they were on and are on. -/
structure ConnsReset (S : Link → Prop) (m : MyContext) (L : Place → List Nat) (m' : MyContext)
    (L' : Place → List Nat) : Prop where
  arranged : Arranged none m' L'
  ids : m'.remoteBlockID = m.remoteBlockID
  gone : ∀ k, S k → L' (.active k) = [] ∧ L' (.pend k) = [] ∧
    L' (.abort k) = L (.pend k) ++ L (.abort k)
  kept : ∀ k, ¬ S k → L' (.active k) = L (.active k) ∧ L' (.pend k) = L (.pend k) ∧
    L' (.abort k) = L (.abort k)
  freed : ∀ c, (c ∈ L .free ∨ ∃ k, S k ∧ c ∈ L (.active k)) → c ∈ L' .free
  frame : ∀ c, (∀ k, S k → c ∉ L (.active k) ∧ c ∉ L (.pend k)) → m'.conn c = m.conn c

variable {s s' : IoNode} {m m' m'' : MyContext} {L L' L'' : Place → List Nat} {k : Link} {b : Nat}
  {S T : Link → Prop} {told : List (Nat × IonetHeader)} {ks : List Link} {l : List Nat}

namespace ConnsReset

theorem refl (h : Arranged none m L) (hS : ∀ k, ¬ S k) : ConnsReset S m L m L where
  arranged := h
  ids := rfl
  gone k hk := absurd hk (hS k)
  kept _ _ := ⟨rfl, rfl, rfl⟩
  freed _ hc := hc.resolve_right fun ⟨k, hk, _⟩ => hS k hk
  frame _ _ := rfl

theorem trans (h : ConnsReset S m L m' L') (h' : ConnsReset T m' L' m'' L'')
    (hdisjoint : ∀ k, S k → ¬ T k) : ConnsReset (fun k => S k ∨ T k) m L m'' L'' where
  arranged := h'.arranged
  ids := h'.ids.trans h.ids
  gone k hk := by
    by_cases hs : S k
    · obtain ⟨hactive, hpend, habort⟩ := h.gone k hs
      obtain ⟨hactive', hpend', habort'⟩ := h'.kept k (hdisjoint k hs)
      exact ⟨hactive'.trans hactive, hpend'.trans hpend, habort'.trans habort⟩
    · obtain ⟨-, hpend, habort⟩ := h.kept k hs
      rw [← hpend, ← habort]
      exact h'.gone k (hk.resolve_left hs)
  kept k hk := by
    obtain ⟨hs, ht⟩ := not_or.mp hk
    obtain ⟨hactive, hpend, habort⟩ := h.kept k hs
    obtain ⟨hactive', hpend', habort'⟩ := h'.kept k ht
    exact ⟨hactive'.trans hactive, hpend'.trans hpend, habort'.trans habort⟩
  freed c hc := by
    refine h'.freed c ?_
    rcases hc with hfree | ⟨k, hs | ht, hactive⟩
    · exact Or.inl (h.freed c (Or.inl hfree))
    · exact Or.inl (h.freed c (Or.inr ⟨k, hs, hactive⟩))
    · by_cases hs : S k
      · exact absurd ht (hdisjoint k hs)
      · exact Or.inr ⟨k, ht, (h.kept k hs).1 ▸ hactive⟩
  frame c hc := by
    refine (h'.frame c fun k ht => ?_).trans (h.frame c fun k hs => hc k (Or.inl hs))
    have hs : ¬ S k := fun hs => hdisjoint k hs ht
    obtain ⟨hactive, hpend, -⟩ := h.kept k hs
    rw [hactive, hpend]
    exact hc k (Or.inr ht)

theorem congr (h : ConnsReset S m L m' L') (hST : ∀ k, T k ↔ S k) : ConnsReset T m L m' L' := by
  have he : T = S := funext fun k => propext (hST k)
  exact he ▸ h

end ConnsReset

theorem walkConns_remoteBlockID {visit : Connection → Connection} {n : Nat} {head : Option Nat}
    (h : walkConns visit n head m = some (m', l)) : m'.remoteBlockID = m.remoteBlockID := by
  induction n generalizing head m l with
  | zero =>
    cases head with
    | none =>
      cases Option.some.inj h
      rfl
    | some c => cases h
  | succ n ih =>
    cases head with
    | none =>
      cases Option.some.inj h
      rfl
    | some c =>
      obtain ⟨⟨m₁, l₁⟩, hwalk, hrest⟩ := Option.bind_eq_some_iff.mp h
      cases Option.some.inj hrest
      have hsame := ih hwalk
      exact hsame

theorem resetLink_calls (h : resetLink m k = some (m', told)) :
    ∃ m₁ m₂ n, disableActiveConnectionList m k = some m₁ ∧
      disablePendingConnectionList m₁ k = some (m₂, n) ∧
      flushIolinkConnectionList m₂ k = some (m', told) := by
  obtain ⟨m₁, h₁, hrest⟩ := Option.bind_eq_some_iff.mp h
  obtain ⟨⟨m₂, n⟩, h₂, h₃⟩ := Option.bind_eq_some_iff.mp hrest
  exact ⟨m₁, m₂, n, h₁, h₂, h₃⟩

theorem resetLink_remoteBlockID (h : resetLink m k = some (m', told)) :
    m'.remoteBlockID = m.remoteBlockID := by
  obtain ⟨m₁, m₂, n, h₁, h₂, h₃⟩ := resetLink_calls h
  obtain ⟨⟨v₁, l₁⟩, hw₁, hr₁⟩ := Option.bind_eq_some_iff.mp h₁
  obtain ⟨⟨v₂, l₂⟩, hw₂, hr₂⟩ := Option.bind_eq_some_iff.mp h₂
  obtain ⟨⟨v₃, l₃⟩, hw₃, hr₃⟩ := Option.bind_eq_some_iff.mp h₃
  have hm₁ : m₁.remoteBlockID = m.remoteBlockID := by
    cases Option.some.inj hr₁
    exact walkConns_remoteBlockID hw₁
  have hm₂ : m₂.remoteBlockID = m₁.remoteBlockID := by
    rw [← walkConns_remoteBlockID hw₂]
    dsimp only at hr₂
    split at hr₂ <;> cases Option.some.inj hr₂ <;> rfl
  have hm₃ : m'.remoteBlockID = m₂.remoteBlockID := by
    rw [← walkConns_remoteBlockID hw₃]
    dsimp only at hr₃
    split at hr₃ <;> cases Option.some.inj hr₃ <;> rfl
  rw [hm₃, hm₂, hm₁]

theorem Arranged.resetLink_conns (h : Arranged none m L) (k : Link) :
    ∃ m', BgqVrnic.resetLink m k = some (m', (L (.active k)).map (indication m)) ∧
      ConnsReset (fun j => j = k) m L m' (resetLists L k) := by
  obtain ⟨m', hreset, harranged⟩ := h.resetLink k
  refine ⟨m', hreset, harranged, resetLink_remoteBlockID hreset, ?_, ?_, ?_, ?_⟩
  · rintro j rfl
    simp [resetLists, spliced]
  · intro j hj
    simp [resetLists, spliced, hj]
  · rintro c (hfree | ⟨j, rfl, hactive⟩)
    · exact mem_resetLists.mpr (Or.inl ⟨by simp, by simp, hfree⟩)
    · exact mem_resetLists.mpr (Or.inr (Or.inr ⟨rfl, hactive⟩))
  · intro c hc
    obtain ⟨hactive, hpend⟩ := hc k rfl
    exact h.resetLink_frame hreset hactive hpend

/-- The pool when its posted blocks have been flushed, and what is reported then. -/
def flushOf (r : Resources) (n : PoolName) : Pool n.Block × List (Nat × Nat) := flushPosted n.kind (r n)

theorem flushPosted_again {β : Type*} (K : Kind β) (p : Pool β) :
    flushPosted K (flushPosted K p).1 = ((flushPosted K p).1, []) := by
  simp [flushPosted]

theorem flushPosted_nil {β : Type*} (K : Kind β) {p : Pool β} (h : p.posted = []) :
    flushPosted K p = (p, []) := by
  obtain ⟨free, posted, block⟩ := p
  cases h
  simp [flushPosted]

theorem mem_flushPosted {β : Type*} {K : Kind β} {p : Pool β} {i : Nat} {x : Nat × Nat}
    (hi : i ∈ p.posted) (hx : x ∈ Desk.report K (p.block i) canceledStatus) :
    x ∈ (flushPosted K p).2 :=
  List.mem_flatMap.mpr ⟨i, hi, hx⟩

namespace IoNode

theorem flushRequests_pools (s : IoNode) (i : Link) (n : PoolName) :
    (s.flushRequests i).pools n = if n.link = i then (flushOf s.pools n).1 else s.pools n := by
  unfold flushRequests
  cases n with
  | packetcontrols k =>
    by_cases hk : k = i
    · subst hk
      simp [Resources.put, PoolName.link, flushOf, flushPktReqid, PoolName.kind]
    · simp [Resources.put, PoolName.link, hk]
  | smallpaObjCtls k =>
    by_cases hk : k = i
    · subst hk
      simp [Resources.put, PoolName.link, flushOf, flushPktReqid, PoolName.kind]
    · simp [Resources.put, PoolName.link, hk]
  | rdmaObjCtls k =>
    by_cases hk : k = i
    · subst hk
      simp [Resources.put, PoolName.link, flushOf, flushRdmaCounterReqid, PoolName.kind]
    · simp [Resources.put, PoolName.link, hk]

theorem flushRequests_told (s : IoNode) (i : Link) {x : Nat × Nat} :
    x ∈ (s.flushRequests i).told ↔
      x ∈ s.told ∨ ∃ n : PoolName, n.link = i ∧ x ∈ (flushOf s.pools n).2 := by
  have htold : (s.flushRequests i).told = s.told ++ (flushOf s.pools (.packetcontrols i)).2 ++
    (flushOf s.pools (.smallpaObjCtls i)).2 ++ (flushOf s.pools (.rdmaObjCtls i)).2 := rfl
  rw [htold, List.mem_append, List.mem_append, List.mem_append]
  constructor
  · rintro (((hx | hx) | hx) | hx)
    · exact Or.inl hx
    · exact Or.inr ⟨_, rfl, hx⟩
    · exact Or.inr ⟨_, rfl, hx⟩
    · exact Or.inr ⟨_, rfl, hx⟩
  · rintro (hx | ⟨n, rfl, hx⟩)
    · exact Or.inl (Or.inl (Or.inl hx))
    · cases n with
      | packetcontrols k => exact Or.inl (Or.inl (Or.inr hx))
      | smallpaObjCtls k => exact Or.inl (Or.inr hx)
      | rdmaObjCtls k => exact Or.inr hx

end IoNode

/-- The links in `S` have lost their connections and requests; the states of the links and the block IDs
are the old ones. -/
structure LinksReset (S : Link → Prop) (s : IoNode) (L : Place → List Nat) (s' : IoNode)
    (L' : Place → List Nat) : Prop where
  conns : ConnsReset S s.m L s'.m L'
  flushed : ∀ n : PoolName, S n.link → s'.pools n = (flushOf s.pools n).1
  pools : ∀ n : PoolName, ¬ S n.link → s'.pools n = s.pools n
  reported : ∀ n : PoolName, S n.link → ∀ x ∈ (flushOf s.pools n).2, x ∈ s'.told
  told : ∀ x ∈ s.told, x ∈ s'.told
  states : s'.active = s.active

namespace LinksReset

variable {s'' : IoNode}

theorem refl (h : Arranged none s.m L) (hS : ∀ k, ¬ S k) : LinksReset S s L s L where
  conns := ConnsReset.refl h hS
  flushed n hn := absurd hn (hS n.link)
  pools _ _ := rfl
  reported n hn := absurd hn (hS n.link)
  told _ hx := hx
  states := rfl

theorem trans (h : LinksReset S s L s' L') (h' : LinksReset T s' L' s'' L'')
    (hdisjoint : ∀ k, S k → ¬ T k) : LinksReset (fun k => S k ∨ T k) s L s'' L'' where
  conns := h.conns.trans h'.conns hdisjoint
  flushed n hn := by
    by_cases hs : S n.link
    · exact (h'.pools n (hdisjoint _ hs)).trans (h.flushed n hs)
    · rw [h'.flushed n (hn.resolve_left hs)]
      unfold flushOf
      rw [h.pools n hs]
  pools n hn := by
    obtain ⟨hs, ht⟩ := not_or.mp hn
    exact (h'.pools n ht).trans (h.pools n hs)
  reported n hn x hx := by
    by_cases hs : S n.link
    · exact h'.told x (h.reported n hs x hx)
    · refine h'.reported n (hn.resolve_left hs) x ?_
      unfold flushOf at hx ⊢
      rw [h.pools n hs]
      exact hx
  told x hx := h'.told x (h.told x hx)
  states := h'.states.trans h.states

theorem congr (h : LinksReset S s L s' L') (hST : ∀ k, T k ↔ S k) : LinksReset T s L s' L' := by
  have he : T = S := funext fun k => propext (hST k)
  exact he ▸ h

end LinksReset

/-- The three flushes of the requests of a link. The second and the third one find nothing. -/
theorem flushRequests_thrice (s : IoNode) (i : Link) :
    ∃ r, (((s.flushRequests i).flushRequests i).flushRequests i) =
        { s with pools := (s.flushRequests i).pools, told := r } ∧
      ∀ x, x ∈ r ↔ x ∈ (s.flushRequests i).told := by
  have hpools : ∀ s : IoNode,
      ((s.flushRequests i).flushRequests i).pools = (s.flushRequests i).pools := by
    intro s
    funext n
    rw [IoNode.flushRequests_pools]
    split
    next hn =>
      unfold flushOf
      rw [IoNode.flushRequests_pools, if_pos hn]
      have hagain : flushPosted n.kind (flushOf s.pools n).1 = ((flushOf s.pools n).1, []) :=
        flushPosted_again n.kind (s.pools n)
      rw [hagain]
    next => rfl
  have htold : ∀ (s : IoNode) x, x ∈ ((s.flushRequests i).flushRequests i).told ↔
      x ∈ (s.flushRequests i).told := by
    intro s x
    rw [IoNode.flushRequests_told]
    refine or_iff_left ?_
    rintro ⟨n, hn, hx⟩
    unfold flushOf at hx
    rw [IoNode.flushRequests_pools, if_pos hn] at hx
    have hnone : (flushPosted n.kind (flushOf s.pools n).1).2 = [] :=
      congrArg Prod.snd (flushPosted_again n.kind (s.pools n))
    rw [hnone] at hx
    cases hx
  refine ⟨(((s.flushRequests i).flushRequests i).flushRequests i).told, ?_, fun x => ?_⟩
  · have hthird := (hpools (s.flushRequests i)).trans (hpools s)
    rw [← hthird]
    rfl
  · exact (htold (s.flushRequests i) x).trans (htold s x)

theorem IoNode.resetOne_spec (h : Arranged none s.m L) (hb : s.m.remoteBlockID k = b) :
    ∃ s', s.resetOne b k = some s' ∧ LinksReset (fun j => j = k) s L s' (resetLists L k) := by
  obtain ⟨m', hreset, hconns⟩ := h.resetLink_conns k
  obtain ⟨m₁, m₂, n, h₁, h₂, h₃⟩ := resetLink_calls hreset
  obtain ⟨r, hthrice, hr⟩ := flushRequests_thrice { s with m := m₂ } k
  have hpools := fun n => IoNode.flushRequests_pools { s with m := m₂ } k n
  have htold := fun x => IoNode.flushRequests_told { s with m := m₂ } k (x := x)
  refine ⟨{ s with
    m := m'
    pools := (IoNode.flushRequests { s with m := m₂ } k).pools
    told := r
    indicated := s.indicated ++ (L (.active k)).map (indication s.m) }, ?_, ?_⟩
  · unfold IoNode.resetOne
    rw [if_pos hb, h₁]
    dsimp only [Option.bind_some, Option.bind_eq_bind]
    rw [h₂]
    dsimp only [Option.bind_some]
    rw [hthrice, h₃]
    rfl
  · constructor
    case conns => exact hconns
    case flushed => exact fun n hn => (hpools n).trans (if_pos hn)
    case pools => exact fun n hn => (hpools n).trans (if_neg hn)
    case reported => exact fun n hn x hx => (hr x).mpr ((htold x).mpr (Or.inr ⟨n, hn, hx⟩))
    case told => exact fun x hx => (hr x).mpr ((htold x).mpr (Or.inl hx))
    case states => rfl

/-- The second loop resets the links of the block, one after the other. -/
theorem resetOne_links (h : Arranged none s.m L) (hks : ks.Nodup) :
    ∃ s' L', ks.foldlM (IoNode.resetOne b) s = some s' ∧
      LinksReset (fun k => k ∈ ks ∧ s.m.remoteBlockID k = b) s L s' L' := by
  induction ks generalizing s L with
  | nil => exact ⟨s, L, rfl, LinksReset.refl h fun k hk => by simp at hk⟩
  | cons k ks ih =>
    obtain ⟨hk, hks⟩ := List.nodup_cons.mp hks
    rw [List.foldlM_cons]
    by_cases hb : s.m.remoteBlockID k = b
    · obtain ⟨s₁, hone, hreset⟩ := IoNode.resetOne_spec h hb
      obtain ⟨s₂, L₂, hrest, hreset'⟩ := ih hreset.conns.arranged hks
      rw [hone]
      refine ⟨s₂, L₂, hrest, (hreset.trans hreset' ?_).congr fun j => ?_⟩
      · rintro j rfl ⟨hj, -⟩
        exact hk hj
      · rw [hreset.conns.ids, List.mem_cons]
        constructor
        · rintro ⟨rfl | hj, hjb⟩
          · exact Or.inl rfl
          · exact Or.inr ⟨hj, hjb⟩
        · rintro (rfl | ⟨hj, hjb⟩)
          · exact ⟨Or.inl rfl, hb⟩
          · exact ⟨Or.inr hj, hjb⟩
    · have hone : s.resetOne b k = some s := if_neg hb
      obtain ⟨s₂, L₂, hrest, hreset⟩ := ih h hks
      rw [hone]
      refine ⟨s₂, L₂, hrest, hreset.congr fun j => ?_⟩
      rw [List.mem_cons]
      constructor
      · rintro ⟨rfl | hj, hjb⟩
        · exact absurd hjb hb
        · exact ⟨hj, hjb⟩
      · rintro ⟨hj, hjb⟩
        exact ⟨Or.inr hj, hjb⟩

theorem Arranged.head_eq (h : Arranged none m L) (p : Place) : m.head p = (L p).head? :=
  (h.family.kept p).chain.head_eq

theorem Arranged.head_congr {m₀ : MyContext} {L₀ : Place → List Nat} (h : Arranged none m L)
    (h₀ : Arranged none m₀ L₀) {p : Place} (hp : L p = L₀ p) : m.head p = m₀.head p := by
  rw [h.head_eq p, h₀.head_eq p, hp]

/-- The first loop writes only states of links that have the block. -/
theorem deactivate_links (b : Nat) (ks : List Link) (s : IoNode) :
    ∃ active, ks.foldl (IoNode.deactivate b) s = { s with active := active } ∧
      ∀ k, s.m.remoteBlockID k ≠ b → active k = s.active k := by
  induction ks generalizing s with
  | nil => exact ⟨s.active, rfl, fun _ _ => rfl⟩
  | cons i ks ih =>
    rw [List.foldl_cons]
    by_cases hi : s.m.remoteBlockID i = b
    · have hone : s.deactivate b i = { s with active := Function.update s.active i false } := if_pos hi
      obtain ⟨active, hrest, hkept⟩ := ih { s with active := Function.update s.active i false }
      rw [hone]
      refine ⟨active, hrest, fun k hk => (hkept k hk).trans ?_⟩
      have hki : k ≠ i := fun he => hk (he.symm ▸ hi)
      exact Function.update_of_ne hki _ _
    · have hone : s.deactivate b i = s := if_neg hi
      rw [hone]
      exact ih s

/-- The third loop makes the links of the block active and takes their block ID away. -/
theorem activate_links (b : Nat) (ks : List Link) (s : IoNode) :
    ∃ active ids, ks.foldl (IoNode.activate b) s =
        { s with active := active, m := { s.m with remoteBlockID := ids } } ∧
      ∀ k, (k ∈ ks ∧ s.m.remoteBlockID k = b → active k = true ∧ ids k = 0) ∧
        (¬ (k ∈ ks ∧ s.m.remoteBlockID k = b) → active k = s.active k ∧ ids k = s.m.remoteBlockID k) := by
  induction ks generalizing s with
  | nil => exact ⟨s.active, s.m.remoteBlockID, rfl, fun k => by simp⟩
  | cons i ks ih =>
    rw [List.foldl_cons]
    by_cases hi : s.m.remoteBlockID i = b
    · have hone : s.activate b i =
          { s with
            active := Function.update s.active i true
            m := { s.m with remoteBlockID := Function.update s.m.remoteBlockID i 0 } } := if_pos hi
      rw [hone]
      obtain ⟨active, ids, hrest, hkept⟩ := ih
        { s with
          active := Function.update s.active i true
          m := { s.m with remoteBlockID := Function.update s.m.remoteBlockID i 0 } }
      refine ⟨active, ids, hrest, fun k => ?_⟩
      have hk := hkept k
      by_cases hki : k = i
      · subst hki
        simp only [Function.update_self] at hk
        refine ⟨fun _ => ?_, fun hnot => absurd ⟨List.mem_cons_self, hi⟩ hnot⟩
        by_cases hagain : k ∈ ks ∧ 0 = b
        · exact hk.1 hagain
        · exact hk.2 hagain
      · simp only [Function.update_of_ne hki] at hk
        simpa only [List.mem_cons, hki, false_or] using hk
    · have hone : s.activate b i = s := if_neg hi
      rw [hone]
      obtain ⟨active, ids, hrest, hkept⟩ := ih s
      refine ⟨active, ids, hrest, fun k => ?_⟩
      have hk := hkept k
      by_cases hki : k = i
      · subst hki
        exact ⟨fun h => absurd h.2 hi, fun _ => hk.2 fun h => hi h.2⟩
      · simpa only [List.mem_cons, hki, false_or] using hk

section Links

variable {down active : Link → Bool} {ids : Link → Nat} {r : Nat}

theorem LinksReset.wasReset
    (h : LinksReset S { s with active := down, ioResetBlockId := r } L s' L') (hk : S k)
    (hactive : active k = true) (hids : ids k = 0) :
    LinkWasReset s { s' with active := active, m := { s'.m with remoteBlockID := ids } } L k := by
  obtain ⟨hact, hpend, habort⟩ := h.conns.gone k hk
  constructor
  case active =>
    have hhead : s'.m.connActivelist k = (L' (.active k)).head? := h.conns.arranged.head_eq (.active k)
    rw [hhead, hact]
    rfl
  case pend =>
    have hhead : s'.m.connPendlist k = (L' (.pend k)).head? := h.conns.arranged.head_eq (.pend k)
    rw [hhead, hpend]
    rfl
  case freed =>
    intro c hc
    exact h.conns.arranged.fits .free c (h.conns.freed c (Or.inr ⟨k, hk, hc⟩))
  case aborted =>
    intro c hc
    have hmem : c ∈ L' (.abort k) := by
      rw [habort]
      exact List.mem_append_left _ hc
    exact (h.conns.arranged.fits (.abort k) c hmem).1
  case posted =>
    rintro n rfl
    have hn : s'.pools n = (flushOf s.pools n).1 := h.flushed n hk
    rw [hn]
    rfl
  case requests =>
    rintro n rfl i hi x hx
    exact h.reported n hk x (mem_flushPosted hi hx)
  case blockID => exact hids
  case up => exact hactive

theorem LinksReset.linkKept
    (h : LinksReset S { s with active := down, ioResetBlockId := r } L s' L')
    (ha : Arranged none s.m L) (hk : ¬ S k) (hactive : active k = s.active k)
    (hids : ids k = s.m.remoteBlockID k) :
    LinkKept s { s' with active := active, m := { s'.m with remoteBlockID := ids } } L k := by
  obtain ⟨hact, hpend, habort⟩ := h.conns.kept k hk
  have hheads := fun p => h.conns.arranged.head_congr ha (p := p)
  constructor
  case active => exact hheads (.active k) hact
  case pend => exact hheads (.pend k) hpend
  case abort => exact hheads (.abort k) habort
  case conns =>
    intro c hc
    refine h.conns.frame c fun j hj => ⟨fun hmem => ?_, fun hmem => ?_⟩
    · rcases hc with hc | hc | hc <;> cases ha.family.only c _ _ hc hmem
      exact hk hj
    · rcases hc with hc | hc | hc <;> cases ha.family.only c _ _ hc hmem
      exact hk hj
  case pools =>
    rintro n rfl
    exact h.pools n hk
  case blockID => exact hids
  case state => exact hactive

/-- A link without connections and requests is the same after a reset. -/
theorem LinksReset.linkKept_of_idle
    (h : LinksReset S { s with active := down, ioResetBlockId := r } L s' L')
    (ha : Arranged none s.m L) (hk : S k) (hidle : LinkIdle s L k) (hactive : active k = s.active k)
    (hids : ids k = s.m.remoteBlockID k) :
    LinkKept s { s' with active := active, m := { s'.m with remoteBlockID := ids } } L k := by
  obtain ⟨hact, hpend, habort⟩ := h.conns.gone k hk
  have hheads := fun p => h.conns.arranged.head_congr ha (p := p)
  constructor
  case active => exact hheads (.active k) (hact.trans hidle.active.symm)
  case pend => exact hheads (.pend k) (hpend.trans hidle.pend.symm)
  case abort =>
    rw [hidle.pend, List.nil_append] at habort
    exact hheads (.abort k) habort
  case conns =>
    intro c hc
    rw [hidle.active, hidle.pend] at hc
    rcases hc with hc | hc | hc
    · cases hc
    · cases hc
    · refine h.conns.frame c fun j _ => ⟨fun hmem => ?_, fun hmem => ?_⟩
      · cases ha.family.only c _ _ hc hmem
      · cases ha.family.only c _ _ hc hmem
  case pools =>
    rintro n rfl
    have hn : s'.pools n = (flushOf s.pools n).1 := h.flushed n hk
    have hnil : flushPosted n.kind (s.pools n) = (s.pools n, []) :=
      flushPosted_nil n.kind (hidle.posted n rfl)
    rw [hn]
    exact congrArg Prod.fst hnil
  case blockID => exact hids
  case state => exact hactive

end Links

theorem LinkKept.idle (h : LinkKept s s' L k) (hreset : LinkWasReset s s' L k)
    (ha : Arranged none s.m L) : LinkIdle s L k where
  active := by
    have hhead : s.m.connActivelist k = (L (.active k)).head? := ha.head_eq (.active k)
    rw [← h.active, hreset.active] at hhead
    exact List.head?_eq_none_iff.mp hhead.symm
  pend := by
    have hhead : s.m.connPendlist k = (L (.pend k)).head? := ha.head_eq (.pend k)
    rw [← h.pend, hreset.pend] at hhead
    exact List.head?_eq_none_iff.mp hhead.symm
  posted n hn := by
    rw [← h.pools n hn]
    exact hreset.posted n hn
  up := h.state.symm.trans hreset.up

/-- What a reset of block `b` makes of its links, and of the others, whatever is asked for next. -/
theorem mudmResetIOlink_spec (h : Arranged none s.m L) (hm : s.m.magic = true) (b r : Nat) :
    ∃ s', mudmResetIOlink b { s with ioResetBlockId := r } = some (s', 0) ∧ ∀ k,
      (s.m.remoteBlockID k = b → LinkWasReset s s' L k ∧
        (LinkKept s s' L k ↔ b = 0 ∧ LinkIdle s L k)) ∧
      (s.m.remoteBlockID k ≠ b → LinkKept s s' L k) := by
  obtain ⟨active₁, hdown, hothers⟩ := deactivate_links b ioLinks { s with ioResetBlockId := r }
  have h₁ : Arranged none { s with active := active₁, ioResetBlockId := r }.m L := h
  have hnodup : ioLinks.Nodup := by decide
  obtain ⟨s₂, L₂, hloop, hreset⟩ := resetOne_links (b := b) h₁ hnodup
  obtain ⟨active, ids, hup, hends⟩ := activate_links b ioLinks s₂
  have hlinks := hreset.congr (T := fun k => s.m.remoteBlockID k = b) fun k =>
    (and_iff_right (mem_ioLinks k)).symm
  have hids : s₂.m.remoteBlockID = s.m.remoteBlockID := hlinks.conns.ids
  have hstates : s₂.active = active₁ := hlinks.states
  refine ⟨{ s₂ with active := active, m := { s₂.m with remoteBlockID := ids } }, ?_,
    fun k => ⟨fun hk => ?_, fun hk => ?_⟩⟩
  · unfold mudmResetIOlink
    rw [if_pos hm, hdown]
    dsimp only
    rw [hloop]
    dsimp only [Option.bind_some, Option.bind_eq_bind]
    rw [hup]
  · have hends := hends k
    rw [hids] at hends
    have hend := hends.1 ⟨mem_ioLinks k, hk⟩
    have hwas := hlinks.wasReset hk hend.1 hend.2
    refine ⟨hwas, fun hkept => ?_, fun ⟨hb, hidle⟩ => ?_⟩
    · have hb : s.m.remoteBlockID k = 0 := hkept.blockID.symm.trans hwas.blockID
      exact ⟨hk.symm.trans hb, hkept.idle hwas h⟩
    · refine hlinks.linkKept_of_idle h hk hidle (hend.1.trans hidle.up.symm) ?_
      rw [hend.2, hk, hb]
  · have hends := hends k
    rw [hids, hstates, hothers k hk] at hends
    have hend := hends.2 fun hboth => hk hboth.2
    exact hlinks.linkKept h hk hend.1 hend.2

/-- A request of `vrnic_thread` resets block 0. -/
theorem vrnicThread_spec (h : Arranged none s.m L) (hb : s.ioResetBlockId ≠ 0) (hm : s.m.magic = true) :
    ∃ s', vrnicThread s = some s' ∧ ∀ k,
      (s.m.remoteBlockID k = 0 → LinkWasReset s s' L k ∧ (LinkKept s s' L k ↔ LinkIdle s L k)) ∧
      (s.m.remoteBlockID k ≠ 0 → LinkKept s s' L k) := by
  obtain ⟨s', hs', hlinks⟩ := mudmResetIOlink_spec h hm 0 0
  refine ⟨s', ?_, fun k => ⟨fun hk => ?_, (hlinks k).2⟩⟩
  · unfold vrnicThread
    rw [if_pos hb]
    dsimp only
    rw [hs']
    rfl
  · obtain ⟨hwas, hidle⟩ := (hlinks k).1 hk
    exact ⟨hwas, hidle.trans (and_iff_right rfl)⟩

/-- The request for a block has its effect only where no link has the block and the links without one are
idle: the links that are reset are the latter. -/
theorem resets_block_iff (h : Arranged none s.m L) (hb : s.ioResetBlockId ≠ 0) :
    ResetsBlock s L ↔ (∀ k, s.m.remoteBlockID k ≠ s.ioResetBlockId) ∧
      (s.m.magic = true → ∀ k, s.m.remoteBlockID k = 0 → LinkIdle s L k) := by
  by_cases hm : s.m.magic = true
  · obtain ⟨s', hs', hlinks⟩ := vrnicThread_spec h hb hm
    constructor
    · rintro ⟨t, ht, hall⟩
      cases Option.some.inj (ht.symm.trans hs')
      have hne : ∀ k, s.m.remoteBlockID k ≠ s.ioResetBlockId := by
        intro k hk
        have hwas := hall k
        rw [if_pos hk] at hwas
        have hkept := (hlinks k).2 (hk ▸ hb)
        exact hb (hk.symm.trans (hkept.blockID.symm.trans hwas.blockID))
      refine ⟨hne, fun _ k hk => ?_⟩
      have hkept := hall k
      rw [if_neg (hne k)] at hkept
      exact (((hlinks k).1 hk).2).mp hkept
    · rintro ⟨hne, hidle⟩
      refine ⟨s', hs', fun k => ?_⟩
      rw [if_neg (hne k)]
      by_cases hk : s.m.remoteBlockID k = 0
      · exact (((hlinks k).1 hk).2).mpr (hidle hm k hk)
      · exact (hlinks k).2 hk
  · have hs' : vrnicThread s = some { s with ioResetBlockId := 0 } := by
      unfold vrnicThread mudmResetIOlink
      rw [if_pos hb]
      dsimp only
      rw [if_neg hm]
      rfl
    constructor
    · rintro ⟨t, ht, hall⟩
      cases Option.some.inj (ht.symm.trans hs')
      refine ⟨fun k hk => ?_, fun hmagic => absurd hmagic hm⟩
      have hwas := hall k
      rw [if_pos hk] at hwas
      exact hb (hk.symm.trans hwas.blockID)
    · rintro ⟨hne, -⟩
      refine ⟨_, hs', fun k => ?_⟩
      rw [if_neg (hne k)]
      exact ⟨rfl, rfl, rfl, fun _ _ => rfl, fun _ _ => rfl, rfl, rfl⟩

/-- Four contexts, none of them in use, and request 77 on the object list of link 1. The links have these
blocks, and block 5 is to be reset. -/
def askedNode (first second : Nat) : IoNode :=
  { m := { fourContexts with remoteBlockID := fun k => if k = 0 then first else second }
    pools := Resources.put (fun _ => ⟨[], [], fun _ => default⟩) (.rdmaObjCtls 1)
      ⟨[], [0], fun _ => ⟨0, 64, 0, 77, 2⟩⟩
    active := fun _ => true
    ioResetBlockId := 5
    told := []
    indicated := [] }

theorem arranged_askedNode (first second : Nat) :
    Arranged none (askedNode first second).m (unusedLists 4) := by
  have h : Arranged none fourContexts (unusedLists 4) := arranged_init _ (by decide)
  exact ⟨h.family, h.fits, h.cover, h.unheld⟩

theorem resets_block_of_other : ResetsBlock (askedNode 0 6) (unusedLists 4) := by
  refine (resets_block_iff (arranged_askedNode 0 6) (by decide)).mpr ⟨by decide, fun _ k hk => ?_⟩
  have hk₀ : k = 0 := by
    revert k
    decide
  subst hk₀
  refine ⟨unusedLists_of_ne (by simp) 4, unusedLists_of_ne (by simp) 4, fun n hn => ?_, rfl⟩
  cases n <;> cases hn <;> rfl

/-- Link 0 has the block and keeps it. Link 1, which has none, loses its request. -/
theorem resets_no_block :
    (askedNode 5 0).m.remoteBlockID 0 = (askedNode 5 0).ioResetBlockId ∧
      Arranged none (askedNode 5 0).m (unusedLists 4) ∧
      (∃ s', vrnicThread (askedNode 5 0) = some s' ∧ s'.m.remoteBlockID 0 = 5 ∧
        s'.told = [(77, canceledStatus)] ∧ s'.ioResetBlockId = 0) ∧
      ¬ ResetsBlock (askedNode 5 0) (unusedLists 4) := by
  have hblock : (askedNode 5 0).m.remoteBlockID 0 = (askedNode 5 0).ioResetBlockId := rfl
  refine ⟨hblock, arranged_askedNode 5 0, ⟨_, rfl, rfl, rfl, rfl⟩, ?_⟩
  rintro ⟨s', hs', hall⟩
  cases Option.some.inj hs'
  have hwas := hall 0
  rw [if_pos hblock] at hwas
  cases hwas.blockID

end BgqVrnic
