import BgqVrnic.ConnEffects
import BgqVrnic.ConnWrites
import BgqVrnic.TableBounds

namespace BgqVrnic

/-- The two ends of a connection. -/
inductive Side
  | near | far
  deriving DecidableEq, Repr

def Side.other : Side → Side
  | .near => .far
  | .far => .near

/-- A node with torus address 1, and one with torus address 5. -/
def twoEnds : Side → MyContext
  | .near => fourContexts
  | .far => { fourContexts with myTorusAddress := 5 }

/-- The context that an input works on, if it gets as far. -/
def MyContext.worksOn (m : MyContext) : ConnInput → Option Nat
  | .connect .. => m.connFreelist
  | .connReply _ c _ => some c
  | .disconnect _ c => some c
  | .request .. => m.connFreelist
  | .reply pkt => replyContext m pkt
  | .disconnected hdr => some hdr.sequenceNumber

/-- A table of `n` contexts, each of which has its place in the table as its index. -/
structure Indexed (n : Nat) (m : MyContext) : Prop extends Tabled n m where
  index : ∀ c < n, (m.conn c).myIndex = c

variable {m m' : MyContext} {c i n t : Nat} {k : Connection} {x : ConnInput} {pkt : ConnPacket}
  {env : CallEnv} {reply : IonetConnect} {r : CallResult} {side : Side}

@[simp] theorem Side.other_other : side.other.other = side := by cases side <;> rfl

theorem Side.other_ne : side.other ≠ side := by cases side <;> decide

theorem Side.eq_other {side' : Side} (h : side' ≠ side) : side' = side.other := by
  cases side <;> cases side' <;> first | rfl | exact absurd rfl h

theorem Writes.maxConnections (h : Writes m m' c k) : m'.maxConnections = m.maxConnections :=
  congrArg (fun x => x.maxConnections) h.fixed

theorem Writes.index (h : Writes m m' c k) (hk : k.myIndex = (m.conn c).myIndex) :
    (m'.conn i).myIndex = (m.conn i).myIndex := by
  by_cases hi : i = c
  · subst hi
    exact (field_of_unlinked Connection.myIndex h.self fun _ => rfl).trans hk
  · exact field_of_unlinked Connection.myIndex (h.other hi) fun _ => rfl

theorem ReplyWrites.writes (h : ReplyWrites m c reply r) :
    ∃ k, Writes m r.m c k ∧ k.myIndex = (m.conn c).myIndex := by
  cases h with
  | stopped h => exact ⟨_, h, rfl⟩
  | freed k h _ hindex => exact ⟨k, h, hindex⟩
  | sent h => exact ⟨_, h, rfl⟩

theorem connectRequest_cases (m : MyContext) (t : Nat) (pkt : ConnPacket) :
    (∃ c, m.connFreelist = some c ∧ (connectRequest m t pkt).2 = some c ∧
        Writes m (connectRequest m t pkt).1 c (m.answering t pkt c)) ∨
      connectRequest m t pkt = (m, none) := by
  rcases connectRequest_effect m t pkt with ⟨c, hhead, hc, -⟩ | hnone
  · exact Or.inl ⟨c, hhead, hc, (connectRequest_writes hc).2⟩
  · exact Or.inr hnone

/-- An input writes no context but the one that it works on, and no index. -/
theorem connStep_writes (h : connStep m x = some m') :
    m' = m ∨ ∃ c k, m.worksOn x = some c ∧ Writes m m' c k ∧ k.myIndex = (m.conn c).myIndex := by
  cases x with
  | connect env destNode req =>
    obtain ⟨r, hr, rfl⟩ := Option.map_eq_some_iff.mp h
    rcases mudmConnect_writes hr with ⟨hm, -⟩ | ⟨c, k, hhead, hwrites, hindex, -⟩
    · exact Or.inl hm
    · exact Or.inr ⟨c, k, hhead, hwrites, hindex⟩
  | connReply env c reply =>
    dsimp only [connStep] at h
    split at h
    · obtain ⟨r, hr, rfl⟩ := Option.map_eq_some_iff.mp h
      obtain ⟨k, hwrites, hindex⟩ := (mudmConnReply_writes hr).writes
      exact Or.inr ⟨c, k, rfl, hwrites, hindex⟩
    · cases h
  | disconnect env c =>
    dsimp only [connStep] at h
    split at h
    · obtain ⟨y, hy, rfl⟩ := Option.map_eq_some_iff.mp h
      cases mudmDisconnect_writes hy with
      | stopped hm => exact Or.inl hm
      | lost k hwrites _ hindex => exact Or.inr ⟨c, k, rfl, hwrites, hindex⟩
      | sent k hwrites _ hindex => exact Or.inr ⟨c, k, rfl, hwrites, hindex⟩
    · cases h
  | request t pkt =>
    cases Option.some.inj h
    rcases connectRequest_cases m t pkt with ⟨c, hhead, -, hwrites⟩ | hnone
    · exact Or.inr ⟨c, _, hhead, hwrites, rfl⟩
    · exact Or.inl (congrArg Prod.fst hnone)
  | reply pkt =>
    obtain ⟨y, hy, rfl⟩ := Option.map_eq_some_iff.mp h
    cases hctx : replyContext m pkt with
    | none =>
      rw [connectReply_unknown hctx] at hy
      cases Option.some.inj hy
      exact Or.inl rfl
    | some c =>
      obtain ⟨haccept, hrefuse⟩ := connectReply_writes hctx hy
      by_cases hst : pkt.body.status = 0
      · exact Or.inr ⟨c, _, hctx, haccept hst, rfl⟩
      · obtain ⟨k, hwrites, -, hindex⟩ := hrefuse hst
        exact Or.inr ⟨c, k, hctx, hwrites, hindex⟩
  | disconnected hdr =>
    obtain ⟨y, hy, rfl⟩ := Option.map_eq_some_iff.mp h
    rcases disconnectRequest_writes hy with ⟨-, hm⟩ | ⟨-, -, -, -, k, hwrites, -, hindex⟩
    · exact Or.inl hm
    · exact Or.inr ⟨_, k, rfl, hwrites, hindex⟩

theorem connStep_other (h : connStep m x = some m') (hc : m.worksOn x ≠ some c) :
    (m'.conn c).unlinked = (m.conn c).unlinked := by
  rcases connStep_writes h with rfl | ⟨d, k, hd, hwrites, -⟩
  · rfl
  · refine hwrites.other fun hcd => hc ?_
    rw [hd, hcd]

namespace Indexed

theorem step (h : Indexed n m) (hs : connStep m x = some m') : Indexed n m' := by
  refine ⟨h.toTabled.connStep hs, fun c hc => ?_⟩
  rcases connStep_writes hs with rfl | ⟨d, k, -, hwrites, hindex⟩
  · exact h.index c hc
  · rw [hwrites.index hindex]
    exact h.index c hc

theorem modify {f : Connection → Connection} (h : Indexed n m)
    (hn : (f (m.conn c)).nextconn = (m.conn c).nextconn)
    (hp : (f (m.conn c)).prevconn = (m.conn c).prevconn)
    (hi : (f (m.conn c)).myIndex = (m.conn c).myIndex) : Indexed n (m.modify c f) := by
  refine ⟨h.toTabled.modify hn hp, fun d hd => ?_⟩
  rw [congrFun (MyContext.field_modify_same Connection.myIndex hi) d]
  exact h.index d hd

/-- The index has 16 bits. -/
theorem init (hn : 0 < n) (hle : n ≤ 2 ^ 16) : Indexed n (connListInit m n) := by
  refine ⟨Tabled.init hn, fun c hc => ?_⟩
  unfold connListInit
  dsimp only
  rw [if_pos hc]
  exact Nat.mod_eq_of_lt (Nat.lt_of_lt_of_le hc hle)

theorem freelist (h : Indexed n m) (hc : m.connFreelist = some c) : c < n :=
  h.inside.head .free c hc

end Indexed

theorem freeFromHead_owned {a p d : Link} (ha : (m.conn c).connActivelist = some a)
    (hp : (m.conn c).connPendlist = some p) (hd : (m.conn c).connAbortlist = some d) :
    ∃ m', freeFromHead m c = some m' := by
  unfold freeFromHead
  rw [ha, hp, hd]
  simp only [Option.bind_eq_bind, Option.bind_some]
  split
  · exact ⟨_, rfl⟩
  · split
    · exact ⟨_, rfl⟩
    · split
      · exact ⟨_, rfl⟩
      · split <;> exact ⟨_, rfl⟩

/-- A context whose list pointers have been set can be freed, wherever it is. -/
theorem connectionFree_owned (h : (m.conn c).Owned) : ∃ m', connectionFree m c = some m' := by
  have hrest : ((m.setState c .free).bypass c).rest = m.rest := by simp
  have hpend : ((m.setState c .free).bypass c).pendOf c = m.pendOf c := by simp
  obtain ⟨a, ha⟩ := Option.ne_none_iff_exists'.mp h.active
  obtain ⟨p, hp⟩ := Option.ne_none_iff_exists'.mp h.pend
  obtain ⟨d, hd⟩ := Option.ne_none_iff_exists'.mp h.abort
  obtain ⟨m₁, hm₁⟩ := freeFromHead_owned ((connActivelist_of_rest hrest c).trans ha)
    (hpend.trans hp) ((congrArg (fun r => (r.conn c).connAbortlist) hrest).trans hd)
  unfold connectionFree
  rw [hm₁]
  exact ⟨_, rfl⟩

end BgqVrnic
