import BgqVrnic.ConnOps
import BgqVrnic.Runs

namespace BgqVrnic

open Intrusive Runs

/-- A local call, on a context that the driver has handed out, or a packet that comes in. -/
inductive ConnInput
  | connect (env : CallEnv) (destNode : Nat) (req : IonetConnect)
  | connReply (env : CallEnv) (c : Nat) (reply : IonetConnect)
  | disconnect (env : CallEnv) (c : Nat)
  | request (timeBase : Nat) (pkt : ConnPacket)
  | reply (pkt : ConnPacket)
  | disconnected (hdr : IonetHeader)

def connStep (m : MyContext) : ConnInput → Option MyContext
  | .connect env destNode req => (mudmConnect m env destNode req).map CallResult.m
  | .connReply env c reply =>
    if c < m.maxConnections then (mudmConnReply m env c reply).map CallResult.m else none
  | .disconnect env c =>
    if c < m.maxConnections then (mudmDisconnect m env c).map Prod.fst else none
  | .request timeBase pkt => some (connectRequest m timeBase pkt).1
  | .reply pkt => (connectReply m pkt).map Prod.fst
  | .disconnected hdr => (disconnectRequest m hdr).map Prod.fst

/-- The lists end, every context is on exactly one of them, once, and its state is that of its list. -/
def ListsAgree (m : MyContext) : Prop :=
  ∃ L : Place → List Nat,
    (∀ p, Chain m.next (m.head p) (L p)) ∧
    (∀ p, ∀ c ∈ L p, c < m.maxConnections) ∧
    (∀ c < m.maxConnections, ∃! p, c ∈ L p) ∧
    ∀ c < m.maxConnections,
      ((m.conn c).state = .free ↔ c ∈ L .free) ∧
      ((m.conn c).state = .pending → ∃ k, c ∈ L (.pend k)) ∧
      ((m.conn c).state = .active → ∃ k, c ∈ L (.active k))

/-- A reply that is going to be carried out, from the user or from the peer, names a context that is
not free, and one that does not head an active list if it is going to be activated. -/
def RepliesFit (m : MyContext) : ConnInput → Prop
  | .connReply env c reply =>
    ReplyGoes m env c reply →
      (m.conn c).state ≠ .free ∧
        (reply.body.status = 0 → ∀ k, m.connActivelist k ≠ some c)
  | .reply pkt =>
    ∀ c ∈ replyContext m pkt,
      (m.conn c).state ≠ .free ∧ ∀ k, m.connActivelist k ≠ some c
  | _ => True

/-- Without link resets the abort lists stay empty. -/
def ConnInv (m : MyContext) : Prop := ∃ L, Arranged none m L ∧ ∀ k, L (.abort k) = []

variable {m m' : MyContext} {L : Place → List Nat} {i : ConnInput} {c : Nat} {p q : Place}

theorem move_abort (hp : ∀ k, p ≠ .abort k) (hq : ∀ k, q ≠ .abort k) (k : Link) :
    move L p q c (.abort k) = L (.abort k) := by
  unfold move
  rw [Function.update_of_ne (hq k).symm, Function.update_of_ne (hp k).symm]

theorem kind_double_ne_abort (h : p.kind = .double) (k : Link) : p ≠ .abort k := by
  rintro rfl
  cases h

theorem Arranged.listsAgree (h : Arranged none m L) (hempty : ∀ k, L (.abort k) = []) :
    ListsAgree m := by
  have hmem : ∀ p, ∀ c ∈ L p, c < m.maxConnections := fun p c hc =>
    (h.cover c).mp (Or.inr ⟨p, hc⟩)
  refine ⟨L, fun p => (h.family.kept p).chain, hmem, fun c hc => ?_, fun c hc => ?_⟩
  · rcases (h.cover c).mpr hc with he | ⟨p, hp⟩
    · cases he
    · exact ⟨p, hp, fun q hq => h.family.only c q p hq hp⟩
  · rcases (h.cover c).mpr hc with he | ⟨p, hp⟩
    · cases he
    have hfits := h.fits p c hp
    cases p with
    | free =>
      have hs : (m.conn c).state = .free := hfits
      exact ⟨iff_of_true hs hp, by simp [hs], by simp [hs]⟩
    | abort k => simp [hempty k] at hp
    | pend k =>
      have hnot : c ∉ L .free := fun hf => by cases h.family.only c _ _ hp hf
      rcases hfits.1 with hs | hs
      · exact ⟨iff_of_false (by simp [hs]) hnot, fun _ => ⟨k, hp⟩, by simp [hs]⟩
      · exact ⟨iff_of_false (by simp [hs]) hnot, by simp [hs], by simp [hs]⟩
    | active k =>
      have hnot : c ∉ L .free := fun hf => by cases h.family.only c _ _ hp hf
      rcases hfits.1 with hs | hs
      · exact ⟨iff_of_false (by simp [hs]) hnot, by simp [hs], fun _ => ⟨k, hp⟩⟩
      · exact ⟨iff_of_false (by simp [hs]) hnot, by simp [hs], by simp [hs]⟩

theorem Arranged.inv_of_move (h : Arranged none m (move L p q c)) (hempty : ∀ k, L (.abort k) = [])
    (hp : ∀ k, p ≠ .abort k) (hq : ∀ k, q ≠ .abort k) : ConnInv m :=
  ⟨_, h, fun k => by rw [move_abort hp hq, hempty k]⟩

theorem ConnInv.place (h : Arranged none m L) (hempty : ∀ k, L (.abort k) = [])
    (hc : c < m.maxConnections) : ∃ p, c ∈ L p ∧ ∀ k, p ≠ .abort k := by
  rcases (h.cover c).mpr hc with he | ⟨p, hp⟩
  · cases he
  · refine ⟨p, hp, ?_⟩
    rintro k rfl
    simp [hempty k] at hp

/-- The free list begins with a free context. -/
theorem ConnInv.head_free (h : ConnInv m) (hc : m.connFreelist = some c) :
    c < m.maxConnections ∧ (m.conn c).state = .free := by
  obtain ⟨L, h, -⟩ := h
  have hmem : c ∈ L .free := (h.family.kept .free).chain.head_mem hc
  exact ⟨(h.cover c).mp (Or.inr ⟨_, hmem⟩), h.fits .free c hmem⟩

theorem ConnInv.not_active_head (h : ConnInv m) (hs : (m.conn c).state = .pending) (k : Link) :
    m.connActivelist k ≠ some c := by
  obtain ⟨L, h, -⟩ := h
  intro hk
  have hmem : c ∈ L (.active k) := (h.family.kept (.active k)).chain.head_mem hk
  rcases (h.fits (.active k) c hmem).1 with hact | hdis
  · rw [hs] at hact
    cases hact
  · rw [hs] at hdis
    cases hdis

theorem ConnInv.step (h : ConnInv m) (hok : RepliesFit m i) (hs : connStep m i = some m') :
    ConnInv m' := by
  obtain ⟨L, h, hempty⟩ := h
  cases i with
  | connect env destNode req =>
    obtain ⟨r, hr, rfl⟩ := Option.map_eq_some_iff.mp hs
    rcases h.mudmConnect hr with ⟨hL, -⟩ | ⟨c, -, -, -, hL⟩
    · exact ⟨L, hL, hempty⟩
    · exact hL.inv_of_move hempty (by simp) (by simp)
  | connReply env c reply =>
    dsimp only [connStep] at hs
    by_cases hc : c < m.maxConnections
    · rw [if_pos hc] at hs
      obtain ⟨r, hr, rfl⟩ := Option.map_eq_some_iff.mp hs
      by_cases hgo : ReplyGoes m env c reply
      · obtain ⟨hfree, hhead⟩ := hok hgo
        obtain ⟨p, hcp, hp⟩ := ConnInv.place h hempty hc
        have hpf : p ≠ .free := by
          rintro rfl
          exact hfree (h.fits _ c hcp)
        have hkind := Arranged.kind_of_ne hpf hp
        rw [mudmConnReply_goes hgo] at hr
        obtain ⟨L', hL', rfl | rfl | ⟨q, hq, rfl⟩⟩ := h.memfifoSent.sendReply hcp hkind hhead hr
        · exact hL'.inv_of_move hempty hp (by simp)
        · exact ⟨L', hL', hempty⟩
        · exact hL'.inv_of_move hempty hp (kind_double_ne_abort hq)
      · obtain ⟨rc, -, he⟩ := mudmConnReply_stopped hgo
        rw [he] at hr
        cases Option.some.inj hr
        exact ⟨L, h.memfifoSent, hempty⟩
    · rw [if_neg hc] at hs
      cases hs
  | disconnect env c =>
    dsimp only [connStep] at hs
    by_cases hc : c < m.maxConnections
    · rw [if_pos hc] at hs
      obtain ⟨r, hr, rfl⟩ := Option.map_eq_some_iff.mp hs
      obtain ⟨p, hcp, hp⟩ := ConnInv.place h hempty hc
      rcases h.mudmDisconnect hcp hp hr with hL | ⟨-, hL⟩
      · exact ⟨L, hL, hempty⟩
      · exact hL.inv_of_move hempty hp (by simp)
    · rw [if_neg hc] at hs
      cases hs
  | request timeBase pkt =>
    cases Option.some.inj hs
    rcases h.connectRequest timeBase pkt with ⟨c, -, -, hL⟩ | he
    · exact hL.inv_of_move hempty (by simp) (by simp)
    · rw [he]
      exact ⟨L, h, hempty⟩
  | reply pkt =>
    obtain ⟨r, hr, rfl⟩ := Option.map_eq_some_iff.mp hs
    cases hctx : replyContext m pkt with
    | none =>
      rw [connectReply_unknown hctx] at hr
      cases Option.some.inj hr
      exact ⟨L, h, hempty⟩
    | some c =>
      obtain ⟨hfree, hhead⟩ := hok c hctx
      have hc : c < m.maxConnections := (replyContext_names hctx).2
      obtain ⟨p, hcp, hp⟩ := ConnInv.place h hempty hc
      have hpf : p ≠ .free := by
        rintro rfl
        exact hfree (h.fits _ c hcp)
      obtain ⟨q, hq, hL⟩ := h.connectReply hctx hcp (Arranged.kind_of_ne hpf hp) hhead hr
      exact hL.inv_of_move hempty hp hq
  | disconnected hdr =>
    obtain ⟨r, hr, rfl⟩ := Option.map_eq_some_iff.mp hs
    rcases h.disconnectRequest hempty hr with hL | ⟨p, hcp, -, hL⟩
    · exact ⟨L, hL, hempty⟩
    · refine hL.inv_of_move hempty ?_ (by simp)
      rintro k rfl
      simp [hempty k] at hcp

theorem chain_init (m : MyContext) (n : Nat) :
    Chain (connListInit m (n + 1)).next (some 0) (List.range' 0 (n + 1)) := by
  have hnext : ∀ i < n + 1,
      (connListInit m (n + 1)).next i = if i + 1 < n + 1 then some (i + 1) else none := by
    intro i hi
    unfold MyContext.next connListInit
    dsimp only
    rw [if_pos hi]
  apply Chain.of_successors
  · intro i _ hi
    rw [hnext i (by omega), if_pos (by omega)]
  · rw [hnext _ (by omega), if_neg (by omega)]

/-- The lists of a table that no connection has used. -/
def unusedLists (max : Nat) : Place → List Nat := fun p => if p = .free then List.range' 0 max else []

theorem unusedLists_of_ne (h : p ≠ .free) (max : Nat) : unusedLists max p = [] := if_neg h

theorem mem_unusedLists {max i : Nat} : i ∈ unusedLists max p ↔ p = .free ∧ i < max := by
  by_cases hp : p = .free
  · subst hp
    unfold unusedLists
    rw [if_pos rfl, List.mem_range'_1, Nat.zero_add]
    simp
  · simp [unusedLists_of_ne hp, hp]

theorem arranged_init (m : MyContext) {max : Nat} (hmax : 0 < max) :
    Arranged none (connListInit m max) (unusedLists max) := by
  refine ⟨⟨fun p => ?_, fun i p q hp hq => ?_⟩, fun p i hi => ?_, fun i => ?_, by simp⟩
  · cases p with
    | free =>
      obtain ⟨n, rfl⟩ := Nat.exists_eq_succ_of_ne_zero (Nat.ne_of_gt hmax)
      exact chain_init m n
    | pend k => exact unusedLists_of_ne (p := .pend k) (by simp) max ▸ rfl
    | active k => exact unusedLists_of_ne (p := .active k) (by simp) max ▸ rfl
    | abort k => exact unusedLists_of_ne (p := .abort k) (by simp) max ▸ rfl
  · exact (mem_unusedLists.mp hp).1.trans (mem_unusedLists.mp hq).1.symm
  · obtain ⟨rfl, hi⟩ := mem_unusedLists.mp hi
    unfold Place.Fits connListInit
    dsimp only
    split <;> rfl
  · simp only [mem_unusedLists, reduceCtorEq, false_or]
    exact ⟨fun ⟨_, hi⟩ => hi.2, fun hi => ⟨.free, rfl, hi⟩⟩

theorem connInv_init (m : MyContext) {max : Nat} (hmax : 0 < max) : ConnInv (connListInit m max) :=
  ⟨_, arranged_init m hmax, fun _ => unusedLists_of_ne (by simp) max⟩

/-- As long as replies fit, the connection lists agree with the contexts in every state of a run. -/
theorem conn_lists_agree {m : MyContext} {max : Nat} {is : List ConnInput} (hmax : 0 < max)
    (hok : Meets connStep RepliesFit (connListInit m max) is) :
    Always connStep ListsAgree (connListInit m max) is := by
  have hinv : Always connStep ConnInv (connListInit m max) is :=
    always_of_step (fun _ _ _ h hi hs => h.step hi hs) (connInv_init m hmax) hok
  exact hinv.imp fun m ⟨L, h, hempty⟩ => h.listsAgree hempty

/-- A compute node's context with a table of four. -/
def fourContexts : MyContext :=
  connListInit
    { magic := true, maxConnections := 0, conn := fun _ => default, connFreelist := none
      connPendlist := fun _ => none, connActivelist := fun _ => none, connAbortlist := fun _ => none
      myTorusAddress := 1, mybridgingCNnode := 9, myUsingIOPort := returnUsingIoPort, myBlockID := 7
      myUCI := 3, sysRecFifoId := initSysRecFifoId, remoteBlockID := fun _ => 0
      link4reset := fun _ => 0 } 4

def upEnv (timeBase : Nat) : CallEnv := ⟨true, true, timeBase⟩

/-- A reply for context 0, from context 2 of node 5. -/
def someReply : ConnPacket :=
  { desc := ⟨⟨1, .cn2cn, returnUsingIoPort⟩, 264, ⟨2, 5, 1, connectLength, .connReply, 20, 10⟩⟩
    body := default
    payload := ⟨2, 0, mudmVersion, returnUsingIoPort, 264, 7, 9, 3, 500⟩ }

/-- The state at the end of a run on the four contexts. -/
def stateAfter (is : List ConnInput) : MyContext := (run connStep fourContexts is).getD fourContexts

theorem conn_lists_agree_connected :
    Always connStep ListsAgree fourContexts [.connect (upEnv 100) 5 default, .reply someReply] := by
  refine conn_lists_agree (by decide) fun m hm => ⟨trivial, fun m' hm' => ⟨?_, trivial⟩⟩
  have he : m = stateAfter [.connect (upEnv 100) 5 default] := by
    have hm : connStep fourContexts (.connect (upEnv 100) 5 default) = some m := hm
    simp [stateAfter, run, hm]
  subst he
  intro c hc
  have hc0 : replyContext (stateAfter [.connect (upEnv 100) 5 default]) someReply = some 0 := rfl
  cases Option.some.inj (hc.symm.trans hc0)
  decide

/-- A second reply finds the context at the head of the active list, and makes it its own
successor. -/
theorem second_reply_makes_cycle :
    ¬ Always connStep ListsAgree fourContexts
      [.connect (upEnv 100) 5 default, .reply someReply, .reply someReply] := by
  intro h
  have hrun : run connStep fourContexts
      [.connect (upEnv 100) 5 default, .reply someReply, .reply someReply] =
        some (stateAfter [.connect (upEnv 100) 5 default, .reply someReply, .reply someReply]) := rfl
  obtain ⟨L, hchain, -⟩ := h.last hrun
  have hhead := hchain (.active 0)
  have hmem : 0 ∈ L (.active 0) := hhead.head_mem rfl
  exact hhead.next_ne_self hmem rfl

end BgqVrnic
