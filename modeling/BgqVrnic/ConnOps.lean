import BgqVrnic.ConnListInv
import BgqVrnic.ConnOutcomes

namespace BgqVrnic

variable {m m' : MyContext} {L : Place → List Nat} {env : CallEnv} {destNode c t : Nat}
variable {req reply : IonetConnect} {pkt : ConnPacket} {hdr : IonetHeader} {r : CallResult} {p : Place}

/-- Taking a context from the free list and giving it back leaves the lists as they were. -/
theorem update_back {l : List Nat} (hl : L .free = c :: l) :
    Function.update (Function.update L .free l) .free (c :: Function.update L .free l .free) = L := by
  rw [Function.update_self, Function.update_idem, ← hl, Function.update_eq_self]

/-- From the free list to another one. -/
theorem move_free {l : List Nat} (hl : L .free = c :: l) (hp : p ≠ .free) :
    Function.update (Function.update L .free l) p (c :: Function.update L .free l p) =
      move L .free p c := by
  simp [move, hl, Function.update_of_ne hp]

/-- Two moves in a row amount to one. -/
theorem move_move {q o : Place} : move (move L p q c) q o c = move L p o c := by
  have hback : Function.update (move L p q c) q ((move L p q c q).erase c) =
      Function.update L p ((L p).erase c) := by
    simp [move]
  unfold move at hback ⊢
  dsimp only at hback ⊢
  rw [hback]

theorem move_back {l : List Nat} (hl : L .free = c :: l) : move (move L .free p c) p .free c = L := by
  have herase : (L .free).erase c = l := by rw [hl, List.erase_cons_head]
  rw [move_move]
  unfold move
  rw [herase]
  exact update_back hl

namespace Arranged

/-- A connection that is being set up has been taken from the free list and is linked nowhere. -/
theorem take_fresh (h : Arranged none m L) (hget : connListGetfree m t = some (c, m')) :
    ∃ l, L .free = c :: l ∧ Arranged (some c) m' (Function.update L .free l) ∧ m'.next c = none ∧
      m'.prev c = none ∧ (m'.conn c).magic = true := by
  obtain ⟨l, hl, h'⟩ := h.take hget
  have hconn := (connListGetfree_spec hget).conn
  have hn : m'.next c = none := by simp [MyContext.next, hconn]
  have hp : m'.prev c = none := by simp [MyContext.prev, hconn]
  exact ⟨l, hl, h', hn, hp, by simp [hconn]⟩

theorem sendRequest {l : List Nat} (hl : L .free = c :: l)
    (h : Arranged (some c) m (Function.update L .free l)) (hn : m.next c = none)
    (hp : m.prev c = none) (hmagic : (m.conn c).magic = true)
    (ha : (m.conn c).connActivelist ≠ none) (hb : (m.conn c).connAbortlist ≠ none)
    (hr : sendRequest m env destNode req c = some r) :
    r.connContext = some c ∧ (Arranged none r.m L ∧ r.rc ≠ 0 ∨
      Arranged none r.m (move L .free (.pend 0) c) ∧ r.rc = 0) := by
  have hpend : Arranged none (m.requestPending destNode req c) (move L .free (.pend 0) c) := by
    have hfill : Arranged (some c) (m.modify c (Connection.fillRequest m destNode req)) _ :=
      h.modifyHeld (fun _ => rfl) (fun _ => rfl)
    have hself : (m.modify c (Connection.fillRequest m destNode req)).conn c =
        (m.conn c).fillRequest m destNode req := MyContext.conn_modify_self
    rw [← move_free hl (by simp)]
    refine hfill.putOnPending ?_ ?_ ?_
    · rw [hself]
      exact hmagic
    · rw [hself]
      exact ha
    · rw [hself]
      exact hb
  cases sendRequest_outcome hr with
  | sent => exact ⟨rfl, Or.inr ⟨hpend, rfl⟩⟩
  | lost m₁ _ _ hfree =>
    have hback := hpend.release hfree (p := .pend 0) (by simp [move]) (by simp) (by simp)
    rw [move_back hl] at hback
    exact ⟨rfl, Or.inl ⟨hback, show -ECANCELED ≠ 0 by decide⟩⟩
  | noPacket m₁ _ hfree =>
    have hback := h.releaseHeld hfree hn hp
    rw [update_back hl] at hback
    exact ⟨rfl, Or.inl ⟨hback, show -EBUSY ≠ 0 by decide⟩⟩

/-- A connection attempt leaves the lists alone or puts the first free context on the pending list of
link 0. -/
theorem mudmConnect (h : Arranged none m L) (hr : mudmConnect m env destNode req = some r) :
    Arranged none r.m L ∧ r.rc ≠ 0 ∨
      ∃ c ∈ L .free, r.connContext = some c ∧ r.rc = 0 ∧
        Arranged none r.m (move L .free (.pend 0) c) := by
  cases mudmConnect_outcome hr with
  | stopped rc hrc _ => exact Or.inl ⟨h, hrc⟩
  | called c m₁ _ _ _ hget hsend =>
    obtain ⟨l, hl, h₁, hn, hp, hmagic⟩ := h.take_fresh hget
    have h₂ : Arranged (some c) (m₁.modify c (Connection.orientRequest m₁ destNode)) _ :=
      h₁.modifyHeld (fun _ => rfl) (fun _ => rfl)
    have hheap : (m₁.modify c (Connection.orientRequest m₁ destNode)).heap = m₁.heap :=
      MyContext.heap_modify rfl rfl
    have hself : (m₁.modify c (Connection.orientRequest m₁ destNode)).conn c =
        (m₁.conn c).orientRequest m₁ destNode := MyContext.conn_modify_self
    have hn₂ := (congrFun (congrArg Intrusive.Heap.next hheap) c).trans hn
    have hp₂ := (congrFun (congrArg Intrusive.Heap.prev hheap) c).trans hp
    obtain ⟨hctx, ⟨hL, hrc⟩ | ⟨hL, hrc⟩⟩ := h₂.sendRequest hl hn₂ hp₂ (by rw [hself]; exact hmagic)
      (by rw [hself]; simp [Connection.orientRequest, Connection.useLink])
      (by rw [hself]; simp [Connection.orientRequest, Connection.useLink]) hsend
    · exact Or.inl ⟨hL, hrc⟩
    · exact Or.inr ⟨c, by simp [hl], hctx, hrc, hL⟩

/-- A request puts the first free context on the pending list of its link. -/
theorem connectRequest (h : Arranged none m L) (t : Nat) (pkt : ConnPacket) :
    (∃ c ∈ L .free, (connectRequest m t pkt).2 = some c ∧
        Arranged none (connectRequest m t pkt).1 (move L .free (.pend (arrivalLink m pkt)) c)) ∨
      connectRequest m t pkt = (m, none) := by
  generalize hx : BgqVrnic.connectRequest m t pkt = x
  cases connectRequest_outcome hx with
  | full => exact Or.inr rfl
  | taken c m₁ blocks codes hget =>
    obtain ⟨l, hl, h₁, -, -, hmagic⟩ := h.take_fresh hget
    refine Or.inl ⟨c, by simp [hl], rfl, ?_⟩
    have h₂ : Arranged (some c) (m₁.modify c (Connection.answerRequest m₁ pkt)) _ :=
      h₁.modifyHeld (fun _ => rfl) (fun _ => rfl)
    have hself : (m₁.modify c (Connection.answerRequest m₁ pkt)).conn c =
        (m₁.conn c).answerRequest m₁ pkt := MyContext.conn_modify_self
    dsimp only
    refine Arranged.modify ?_ (fun _ => rfl) (fun _ => rfl) (fun _ => ⟨rfl, rfl, rfl, rfl, rfl⟩)
    rw [← move_free hl (by simp)]
    refine Arranged.putOnPending (h₂.write rfl rfl h₂.fits) ?_ ?_ ?_
    · rw [hself]
      exact hmagic
    · rw [hself]
      simp [Connection.answerRequest, Connection.useLink]
    · rw [hself]
      simp [Connection.answerRequest, Connection.useLink]

/-- Where a context is that is not free. -/
theorem place_of_ne_free (h : Arranged none m L) (hc : c < m.maxConnections)
    (hs : (m.conn c).state ≠ .free) : ∃ p, c ∈ L p ∧ p ≠ .free := by
  rcases (h.cover c).mpr hc with he | ⟨p, hp⟩
  · cases he
  · refine ⟨p, hp, ?_⟩
    rintro rfl
    exact hs (h.fits _ c hp)

/-- A context on a pending or active list may be marked as disconnecting where it is. -/
theorem disconnecting {f : Connection → Connection} (h : Arranged none m L) (hc : c ∈ L p)
    (hp : p.kind = .double) (hn : ∀ x, (f x).nextconn = x.nextconn)
    (hpv : ∀ x, (f x).prevconn = x.prevconn)
    (hf : ∀ x, SameLists { x with state := .disconnecting } (f x)) :
    Arranged none (m.modify c f) L := by
  refine h.write (MyContext.heap_modify (hn _) (hpv _)) rfl fun q i hi => ?_
  by_cases hic : i = c
  · subst hic
    obtain rfl : p = q := h.family.only i p q hc hi
    rw [MyContext.conn_modify_self]
    have hfits := h.fits p i hi
    suffices hs : p.Fits { m.conn i with state := .disconnecting } from hs.congr (hf _)
    cases p with
    | free => cases hp
    | abort k => cases hp
    | pend k =>
      obtain ⟨-, ho, hk⟩ := hfits
      exact ⟨Or.inr rfl, ⟨ho.magic, ho.active, ho.pend, ho.abort⟩, hk⟩
    | active k =>
      obtain ⟨-, ho, hk⟩ := hfits
      exact ⟨Or.inr rfl, ⟨ho.magic, ho.active, ho.pend, ho.abort⟩, hk⟩
  · rw [MyContext.conn_modify_of_ne hic]
    exact h.fits q i hi

theorem kind_of_ne (hp : p ≠ .free) (habort : ∀ k, p ≠ .abort k) : p.kind = .double := by
  cases p with
  | free => exact absurd rfl hp
  | abort k => exact absurd rfl (habort k)
  | pend k => rfl
  | active k => rfl

theorem mudmDisconnect {r : MyContext × Int × Option MemFifoDescriptor} (h : Arranged none m L)
    (hc : c ∈ L p) (habort : ∀ k, p ≠ .abort k) (hr : mudmDisconnect m env c = some r) :
    Arranged none r.1 L ∨ p ≠ .free ∧ Arranged none r.1 (move L p .free c) := by
  have hleaving : p ≠ .free → Arranged none (m.leaving c) L := fun hp =>
    h.disconnecting hc (kind_of_ne hp habort) (fun _ => rfl) (fun _ => rfl)
      (fun _ => ⟨rfl, rfl, rfl, rfl, rfl⟩)
  have hplace : (m.conn c).state ≠ .free → p ≠ .free := by
    rintro hs rfl
    exact hs (h.fits _ c hc)
  cases mudmDisconnect_outcome hr with
  | stopped => exact Or.inl h
  | lost hs _ => exact Or.inl (hleaving (hplace hs))
  | sent m₁ hs _ hfree =>
    exact Or.inr ⟨hplace hs,
      (hleaving (hplace hs)).release hfree hc (hplace hs) fun k hk => absurd hk (habort k)⟩

theorem disconnectRequest {r : MyContext × Int × Option Nat} (h : Arranged none m L)
    (hempty : ∀ k, L (.abort k) = []) (hr : disconnectRequest m hdr = some r) :
    Arranged none r.1 L ∨
      ∃ p, hdr.sequenceNumber ∈ L p ∧ p ≠ .free ∧
        Arranged none r.1 (move L p .free hdr.sequenceNumber) := by
  cases disconnectRequest_outcome hr with
  | stopped => exact Or.inl h
  | freed m₁ hin _ hs hfree =>
    obtain ⟨p, hc, hp⟩ := h.place_of_ne_free hin hs
    refine Or.inr ⟨p, hc, hp, h.release hfree hc hp fun k hk => ?_⟩
    subst hk
    simp [hempty k] at hc

/-- A context that is not free goes to its active list, unless it heads that list already. -/
theorem activateListed (h : Arranged none m L) (hact : connectionActivate m c = some m')
    (hc : c ∈ L p) (hp : p.kind = .double) (hhead : ∀ k, m.head (.active k) ≠ some c) :
    ∃ a, c ∈ move L p (.active a) c (.active a) ∧ Arranged none m' (move L p (.active a) c) := by
  have hcase : (∃ k, p = .pend k) ∨ ∃ k, p = .active k ∧ m.head p ≠ some c := by
    cases p with
    | free => cases hp
    | abort k => cases hp
    | pend k => exact Or.inl ⟨k, rfl⟩
    | active k => exact Or.inr ⟨k, rfl, hhead k⟩
  obtain ⟨a, -, h'⟩ := h.activate hact hc hcase
  exact ⟨a, by simp [move], h'⟩

theorem connectReply {r : MyContext × Option Nat} (h : Arranged none m L)
    (hctx : replyContext m pkt = some c) (hc : c ∈ L p) (hp : p.kind = .double)
    (hhead : ∀ k, m.head (.active k) ≠ some c) (hr : connectReply m pkt = some r) :
    ∃ q, (∀ k, q ≠ .abort k) ∧ Arranged none r.1 (move L p q c) := by
  have haccept : Arranged none (m.modify c (Connection.acceptReply pkt)) L :=
    h.modify (fun _ => rfl) (fun _ => rfl) (fun _ => ⟨rfl, rfl, rfl, rfl, rfl⟩)
  cases connectReply_outcome hctx hr with
  | accepted m₁ _ hact =>
    obtain ⟨a, -, ha⟩ := haccept.activateListed hact hc hp hhead
    exact ⟨.active a, by simp, ha⟩
  | refused m₁ m₂ _ hact hfree =>
    obtain ⟨a, hca, ha⟩ := haccept.activateListed hact hc hp hhead
    have hfreed := ha.release hfree hca (by simp) (by simp)
    rw [move_move] at hfreed
    exact ⟨.free, by simp, hfreed⟩

end Arranged

/-- A call of `mudm_conn_reply` that passes its checks and gets a packet. -/
def ReplyGoes (m : MyContext) (env : CallEnv) (c : Nat) (reply : IonetConnect) : Prop :=
  reply.body.privateData.length ≤ mudmMaxPrivateData ∧ (m.conn c).magic = true ∧ m.magic = true ∧
    env.pktFree = true

instance : Decidable (ReplyGoes m env c reply) := inferInstanceAs (Decidable (_ ∧ _ ∧ _ ∧ _))

/-- A call that fails its checks or gets no packet changes nothing but a count. -/
theorem mudmConnReply_stopped (hgo : ¬ ReplyGoes m env c reply) :
    ∃ rc ≠ 0, mudmConnReply m env c reply =
      some ⟨m.modify c fun k => { k with memfifoSent := 0 }, rc, none, none⟩ := by
  unfold mudmConnReply
  dsimp only
  rw [MyContext.conn_modify_self]
  split
  next => exact ⟨-EINVAL, by decide, rfl⟩
  next hlen =>
    split
    next => exact ⟨-EFAULT, by decide, rfl⟩
    next hmagic =>
      obtain ⟨hc, hm⟩ := not_or.mp hmagic
      have hpkt : ¬ env.pktFree = true := fun hpkt =>
        hgo ⟨by omega, eq_true_of_ne_false hc, eq_true_of_ne_false hm, hpkt⟩
      rw [if_neg hpkt]
      exact ⟨-EBUSY, by decide, rfl⟩

theorem Arranged.memfifoSent {held : Option Nat} (h : Arranged held m L) :
    Arranged held (m.modify c fun k => { k with memfifoSent := 0 }) L :=
  h.modify (fun _ => rfl) (fun _ => rfl) (fun _ => ⟨rfl, rfl, rfl, rfl, rfl⟩)

theorem mudmConnReply_goes (hgo : ReplyGoes m env c reply) :
    mudmConnReply m env c reply =
      BgqVrnic.sendReply (m.modify c fun k => { k with memfifoSent := 0 }) env c reply := by
  obtain ⟨hlen, hmagic, hm, hpkt⟩ := hgo
  have hm' : (m.modify c fun k => { k with memfifoSent := 0 }).magic = true := hm
  have hlen' : ¬ mudmMaxPrivateData < reply.body.privateData.length := by omega
  unfold mudmConnReply
  dsimp only
  rw [MyContext.conn_modify_self, if_neg hlen', if_neg (by simp [hmagic, hm']), if_pos hpkt]

/-- A reply to an aborted connection only frees it. -/
theorem sendReply_aborted (hs : (m.conn c).state = .aborted) :
    sendReply m env c reply = (connectionFree (m.replyDescribed reply c) c).map fun m' =>
      ⟨m', if reply.body.status = 0 then -ENOTCONN else 0, none, none⟩ := by
  unfold sendReply
  dsimp only
  rw [MyContext.conn_modify_self, if_pos hs, connRespErr_eq]
  unfold MyContext.replyDescribed
  generalize connectionFree _ c = r
  cases r <;> rfl

namespace Arranged

theorem replyDescribed {held : Option Nat} (h : Arranged held m L) (c : Nat) (reply : IonetConnect) :
    Arranged held (m.replyDescribed reply c) L :=
  h.modify (fun _ => rfl) (fun _ => rfl) (fun _ => ⟨rfl, rfl, rfl, rfl, rfl⟩)

/-- A reply to any other connection activates it, or frees it, or fails and frees it. -/
theorem sendReply (h : Arranged none m L) (hc : c ∈ L p) (hp : p.kind = .double)
    (hhead : reply.body.status = 0 → ∀ k, m.head (.active k) ≠ some c)
    (hr : sendReply m env c reply = some r) :
    ∃ L', Arranged none r.m L' ∧ (L' = move L p .free c ∨ L' = L ∨
      ∃ q, q.kind = .double ∧ L' = move L p q c) := by
  have hfill : Arranged none (m.replyFilled reply c) L :=
    (h.replyDescribed c reply).modify (fun _ => rfl) (fun _ => rfl) (fun _ => ⟨rfl, rfl, rfl, rfl, rfl⟩)
  have hpf : p ≠ .free := by
    rintro rfl
    cases hp
  cases sendReply_outcome hr with
  | aborted m₁ hs _ =>
    have hfits := h.fits p c hc
    cases p with
    | free => cases hp
    | abort k => cases hp
    | pend k => rcases hfits.1 with he | he <;> rw [hs] at he <;> cases he
    | active k => rcases hfits.1 with he | he <;> rw [hs] at he <;> cases he
  | refused m₁ _ _ hfree =>
    refine ⟨_, hfill.release hfree hc hpf fun k hk => ?_, Or.inl rfl⟩
    rw [hk] at hp
    cases hp
  | lost m₁ m₂ _ hst _ hact hfree =>
    obtain ⟨a, hca, ha⟩ := hfill.activateListed hact hc hp (hhead hst)
    have hfreed := ha.release hfree hca (by simp) (by simp)
    rw [move_move] at hfreed
    exact ⟨_, hfreed, Or.inl rfl⟩
  | sent m₁ _ hst _ hact =>
    obtain ⟨a, -, ha⟩ := hfill.activateListed hact hc hp (hhead hst)
    exact ⟨_, ha, Or.inr (Or.inr ⟨.active a, rfl, rfl⟩)⟩

end Arranged

end BgqVrnic
