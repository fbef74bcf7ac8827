import BgqVrnic.LinkReset
import BgqVrnic.ConnRuns

namespace BgqVrnic

open Intrusive Runs

/-- A reset of a link, a new request from either side, or the user's answer to a connection that was
aborted on link `k`. -/
inductive ResetInput
  | reset (k : Link)
  | connect (env : CallEnv) (destNode : Nat) (req : IonetConnect)
  | request (timeBase : Nat) (pkt : ConnPacket)
  | connReply (env : CallEnv) (k : Link) (c : Nat) (reply : IonetConnect)

/-- The context table, unless a reset or an answer has faulted, beside what its lists are to hold.
`told` are the contexts whose disconnection has been indicated, `due` those for which it had to be. -/
structure ResetState where
  m : Option MyContext
  lists : Place → List Nat
  told : List Nat
  due : List Nat

/-- A successful `mudm_connect` takes a context from the free list to the pending list of link 0. -/
def connectLists (L : Place → List Nat) (r : CallResult) : Place → List Nat :=
  if r.rc = 0 then r.connContext.elim L (move L .free (.pend 0)) else L

/-- A request that faults ends the run: resets and answers are in question here. -/
def resetStep (s : ResetState) (i : ResetInput) : Option ResetState :=
  s.m.bind fun m =>
    match i with
    | .reset k =>
      some
        { m := (resetLink m k).map Prod.fst
          lists := resetLists s.lists k
          told := s.told ++ (resetLink m k).elim [] fun r => r.2.map Prod.fst
          due := s.due ++ s.lists (.active k) }
    | .connect env destNode req =>
      (mudmConnect m env destNode req).map fun r =>
        { s with m := some r.m, lists := connectLists s.lists r }
    | .request timeBase pkt =>
      let r := connectRequest m timeBase pkt
      some
        { s with
          m := some r.1
          lists := r.2.elim s.lists (move s.lists .free (.pend (arrivalLink m pkt))) }
    | .connReply env k c reply =>
      if c ∈ s.lists (.abort k) then
        some
          { s with
            m := (mudmConnReply m env c reply).map CallResult.m
            lists := if ReplyGoes m env c reply then move s.lists (.abort k) .free c else s.lists }
      else none

/-- No call has faulted, every head leads to just what its list is to hold, what is on the free list
is free, and each connection that a reset found active has been told so once. -/
def Restored (s : ResetState) : Prop :=
  ∃ m, s.m = some m ∧ (∀ p, Chain m.next (m.head p) (s.lists p)) ∧
    (∀ c ∈ s.lists .free, (m.conn c).state = .free) ∧ s.told = s.due

/-- An aborted connection whose answer is carried out does not come first of those that were pending
with it: it has a predecessor. -/
def RepliedInside (s : ResetState) : ResetInput → Prop
  | .connReply env _ c reply =>
    ∀ m, s.m = some m → ReplyGoes m env c reply → (m.conn c).prevconn ≠ none
  | _ => True

def ResetInv (s : ResetState) : Prop :=
  ∃ m, s.m = some m ∧ Arranged none m s.lists ∧ s.told = s.due

variable {m m' : MyContext} {L : Place → List Nat} {s s' : ResetState} {i : ResetInput}
variable {is : List ResetInput} {env : CallEnv} {reply : IonetConnect} {c : Nat} {k : Link}

theorem ResetInv.restored (h : ResetInv s) : Restored s := by
  obtain ⟨m, hm, ha, htold⟩ := h
  exact ⟨m, hm, fun p => (ha.family.kept p).chain, ha.fits .free, htold⟩

/-- A context with a predecessor can always be freed. -/
theorem connectionFree_inside (h : m.prev c ≠ none) : ∃ m', connectionFree m c = some m' := by
  have hprev : (((m.setState c .free).bypass c).conn c).prevconn ≠ none := by
    have he : ((m.setState c .free).bypass c).prev c = m.prev c := by simp [unlinkPrev_self]
    exact fun hp => h (he.symm.trans hp)
  unfold connectionFree freeFromHead
  rw [if_pos hprev]
  exact ⟨_, rfl⟩

theorem HeadsAfter.abort_head {heads : Place → Option Nat} (h : HeadsAfter m c heads) (k : Link) :
    heads (.abort k) = m.head (.abort k) := by
  cases h with
  | inside => rfl
  | unlisted => rfl
  | active j => exact Function.update_of_ne (by simp) ..
  | pend j => exact Function.update_of_ne (by simp) ..
  | abort j p => exact Function.update_of_ne (by simp) ..

/-- Freeing a context without a predecessor does not take it off an abort list. -/
theorem abort_chain_of_free (hfree : connectionFree m c = some m') (hprev : m.prev c = none)
    {l l' : List Nat} (h : Chain m.next (m.head (.abort k)) l) (hc : c ∈ l)
    (h' : Chain m'.next (m'.head (.abort k)) l') : c ∈ l' := by
  obtain ⟨heads, hspec⟩ := connectionFree_spec hfree
  have hhead : m'.head (.abort k) = m.head (.abort k) := by
    have he : m'.head = Function.update heads .free (some c) := congrArg Heap.head hspec.heap
    rw [he, Function.update_of_ne (by simp), hspec.after.abort_head]
  have hnext : ∀ x, x ≠ c → m'.next x = m.next x := by
    intro x hx
    have he : m'.next = Function.update (unlinkNext m.next m.prev c) c (heads .free) :=
      congrArg Heap.next hspec.heap
    rw [he, Function.update_of_ne hx]
    exact unlinkNext_of_ne (by simp [hprev])
  rw [hhead] at h'
  exact h.mem_of_congr hc hnext h'

/-- The writes to an aborted connection before it is freed. -/
def markReplied (m : MyContext) (c : Nat) (reply : IonetConnect) : MyContext :=
  let m := m.modify c fun k => { k with memfifoSent := 0 }
  m.modify c fun k => { k with memFifo := (m.conn c).replyDescriptor m reply }

theorem Arranged.markReplied (h : Arranged none m L) (c : Nat) (reply : IonetConnect) :
    Arranged none (markReplied m c reply) L := h.memfifoSent.replyDescribed c reply

theorem markReplied_heap : (markReplied m c reply).heap = m.heap := by
  unfold BgqVrnic.markReplied
  rw [MyContext.heap_modify rfl rfl, MyContext.heap_modify rfl rfl]

theorem mudmConnReply_aborted (hgo : ReplyGoes m env c reply) (hs : (m.conn c).state = .aborted) :
    (mudmConnReply m env c reply).map CallResult.m = connectionFree (markReplied m c reply) c := by
  have hs' : ((m.modify c fun k => { k with memfifoSent := 0 }).conn c).state = .aborted := by
    rw [MyContext.conn_modify_self]
    exact hs
  rw [mudmConnReply_goes hgo, sendReply_aborted hs', Option.map_map]
  exact Option.map_id' ..

theorem ResetInv.step (h : ResetInv s) (hok : RepliedInside s i) (hs : resetStep s i = some s') :
    ResetInv s' := by
  obtain ⟨m, hm, ha, htold⟩ := h
  unfold resetStep at hs
  rw [hm, Option.bind_some] at hs
  cases i with
  | reset k =>
    obtain ⟨m', hr, ha'⟩ := ha.resetLink k
    dsimp only at hs
    rw [hr] at hs
    cases Option.some.inj hs
    refine ⟨m', rfl, ha', ?_⟩
    have hfst : ((s.lists (.active k)).map (indication m)).map Prod.fst = s.lists (.active k) := by
      rw [List.map_map]
      exact List.map_id' _
    simp only [Option.elim, hfst, htold]
  | connect env destNode req =>
    obtain ⟨r, hr, rfl⟩ := Option.map_eq_some_iff.mp hs
    rcases ha.mudmConnect hr with ⟨hL, hrc⟩ | ⟨c, -, hctx, hrc, hL⟩
    · refine ⟨r.m, rfl, ?_, htold⟩
      unfold connectLists
      rw [if_neg hrc]
      exact hL
    · refine ⟨r.m, rfl, ?_, htold⟩
      unfold connectLists
      rw [if_pos hrc, hctx]
      exact hL
  | request timeBase pkt =>
    cases Option.some.inj hs
    rcases ha.connectRequest timeBase pkt with ⟨c, -, hctx, hL⟩ | he
    · refine ⟨_, rfl, ?_, htold⟩
      rw [hctx]
      exact hL
    · refine ⟨_, rfl, ?_, htold⟩
      rw [he]
      exact ha
  | connReply env k c reply =>
    dsimp only at hs
    by_cases hc : c ∈ s.lists (.abort k)
    · rw [if_pos hc] at hs
      cases Option.some.inj hs
      by_cases hgo : ReplyGoes m env c reply
      · have hprev : (markReplied m c reply).prev c ≠ none := by
          have he : (markReplied m c reply).prev = m.prev := congrArg Heap.prev markReplied_heap
          rw [he]
          exact hok m hm hgo
        obtain ⟨m', hm'⟩ := connectionFree_inside hprev
        refine ⟨m', ?_, ?_, htold⟩
        · exact (mudmConnReply_aborted hgo (ha.fits _ c hc).1).trans hm'
        · rw [if_pos hgo]
          exact (ha.markReplied c reply).release hm' hc (by simp) fun _ _ => hprev
      · obtain ⟨rc, -, he⟩ := mudmConnReply_stopped hgo
        refine ⟨m.modify c fun k => { k with memfifoSent := 0 }, ?_, ?_, htold⟩
        · rw [he]
          rfl
        · rw [if_neg hgo]
          exact ha.memfifoSent
    · rw [if_neg hc] at hs
      cases hs

theorem ResetInv.inside_of_restored (h : ResetInv s) (hs : resetStep s i = some s')
    (hr : Restored s') : RepliedInside s i := by
  cases i with
  | reset k => trivial
  | connect env destNode req => trivial
  | request timeBase pkt => trivial
  | connReply env k c reply =>
    intro m hm hgo hprev
    obtain ⟨m₀, hm₀, ha, -⟩ := h
    cases Option.some.inj (hm.symm.trans hm₀)
    unfold resetStep at hs
    rw [hm, Option.bind_some] at hs
    dsimp only at hs
    by_cases hc : c ∈ s.lists (.abort k)
    · rw [if_pos hc] at hs
      cases Option.some.inj hs
      obtain ⟨m', hm', hchain, -, -⟩ := hr
      have hfree : connectionFree (markReplied m c reply) c = some m' :=
        (mudmConnReply_aborted hgo (ha.fits _ c hc).1).symm.trans hm'
      have hprev' : (markReplied m c reply).prev c = none :=
        (congrFun (congrArg Heap.prev markReplied_heap) c).trans hprev
      have hlist := ha.markReplied c reply
      have hmem := abort_chain_of_free hfree hprev' (hlist.family.kept (.abort k)).chain hc
        (hchain (.abort k))
      rw [if_pos hgo] at hmem
      have hnot : c ∉ move s.lists (.abort k) .free c (.abort k) := by
        intro hin
        rcases mem_move_cases ha.family hc hin with ⟨-, hp⟩ | ⟨hne, -⟩
        · cases hp
        · exact hne rfl
      exact hnot hmem
    · rw [if_neg hc] at hs
      cases hs

/-- A link reset and all that follows it keep the lists as they are to be, exactly as long as no answer
goes to the first of the connections that were aborted together. -/
theorem link_reset_restores_iff (h : Arranged none m L) :
    Always resetStep Restored ⟨some m, L, [], []⟩ is ↔
      Meets resetStep RepliedInside ⟨some m, L, [], []⟩ is := by
  have hinv : ResetInv ⟨some m, L, [], []⟩ := ⟨m, rfl, h, rfl⟩
  exact always_iff_meets (fun _ => ResetInv.restored) (fun _ _ _ => ResetInv.step)
    (fun _ _ _ => ResetInv.inside_of_restored) hinv

/-- The four contexts before any connection. -/
def fourFresh : ResetState := ⟨some fourContexts, unusedLists 4, [], []⟩

def refusal : IonetConnect := ⟨default, { (default : ConnectBody) with status := 1 }⟩

def twoAborted : List ResetInput :=
  [.connect (upEnv 100) 5 default, .connect (upEnv 200) 6 default, .reset 0]

/-- Of two connections that were aborted together, the second may be answered. -/
theorem link_reset_restores_iff_second :
    Always resetStep Restored fourFresh (twoAborted ++ [.connReply (upEnv 300) 0 0 refusal]) := by
  refine (link_reset_restores_iff (arranged_init _ (by decide))).mpr (meets_append.mpr ⟨?_, ?_⟩)
  · exact fun s₁ _ => ⟨trivial, fun s₂ _ => ⟨trivial, fun s₃ _ => ⟨trivial, trivial⟩⟩⟩
  · intro s hs s' _
    refine ⟨fun m hm _ => ?_, trivial⟩
    have hprev : (s.m.map fun m => (m.conn 0).prevconn) = some (some 1) := by
      have hs' : run resetStep fourFresh twoAborted = some s := hs
      have hrun : (run resetStep fourFresh twoAborted).map
          (fun s => s.m.map fun m => (m.conn 0).prevconn) = some (some (some 1)) := rfl
      rw [hs'] at hrun
      exact Option.some.inj hrun
    rw [hm] at hprev
    have hone : (m.conn 0).prevconn = some 1 := Option.some.inj hprev
    simp [hone]

/-- The answer to the first one leaves it on the abort list, and takes the new connection off the
pending list. -/
theorem reply_empties_pending_list :
    ¬ Always resetStep Restored fourFresh
      [.connect (upEnv 100) 5 default, .reset 0, .connect (upEnv 200) 6 default,
        .connReply (upEnv 300) 0 0 refusal] := by
  intro h
  have hpend : (run resetStep fourFresh
      [.connect (upEnv 100) 5 default, .reset 0, .connect (upEnv 200) 6 default,
        .connReply (upEnv 300) 0 0 refusal]).map
      (fun s => (s.lists (.pend 0), s.m.map fun m => m.connPendlist 0)) = some ([1], some none) := rfl
  obtain ⟨s, hs, hlists⟩ := Option.map_eq_some_iff.mp hpend
  obtain ⟨m, hm, hchain, -⟩ := h.last hs
  obtain ⟨hlist, hhead⟩ := Prod.mk.inj hlists
  have hpend := hchain (.pend 0)
  rw [hm] at hhead
  rw [hlist] at hpend
  exact absurd (hpend.1.symm.trans (Option.some.inj hhead)) (by simp)

end BgqVrnic
