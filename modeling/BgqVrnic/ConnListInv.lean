import BgqVrnic.ConnListSpec

namespace BgqVrnic

open Intrusive

/-- All list pointers of a context in use have been set, and it carries the magic number. -/
structure Connection.Owned (c : Connection) : Prop where
  magic : c.magic = true
  active : c.connActivelist ≠ none
  pend : c.connPendlist ≠ none
  abort : c.connAbortlist ≠ none

/-- What a context on a list looks like. -/
def Place.Fits : Place → Connection → Prop
  | .free, c => c.state = .free
  | .pend k, c => (c.state = .pending ∨ c.state = .disconnecting) ∧ c.Owned ∧ c.connPendlist = some k
  | .active k, c => (c.state = .active ∨ c.state = .disconnecting) ∧ c.Owned ∧ c.connActivelist = some k
  | .abort _, c => c.state = .aborted ∧ c.Owned

/-- The heads lead to the lists `L`, on which every context is except `held`, the one that a running
operation has taken off the free list. -/
structure Arranged (held : Option Nat) (m : MyContext) (L : Place → List Nat) : Prop where
  family : Family Place.kind m.heap L
  fits : ∀ p, ∀ i ∈ L p, p.Fits (m.conn i)
  cover : ∀ i, (held = some i ∨ ∃ p, i ∈ L p) ↔ i < m.maxConnections
  unheld : ∀ p, ∀ i ∈ L p, held ≠ some i

/-- The lists after `c` has gone from `p` to the front of `q`. -/
def move (L : Place → List Nat) (p q : Place) (c : Nat) : Place → List Nat :=
  let L := Function.update L p ((L p).erase c)
  Function.update L q (c :: L q)

variable {m m' : MyContext} {L : Place → List Nat} {held : Option Nat} {c i t : Nat} {l : List Nat}
variable {k a b : Link} {p q : Place} {x y : Connection}

theorem connActivelist_of_data (h : y.data = x.data) : y.connActivelist = x.connActivelist :=
  congrArg (fun c => c.connActivelist) h

theorem connAbortlist_of_data (h : y.data = x.data) : y.connAbortlist = x.connAbortlist :=
  congrArg (fun c => c.connAbortlist) h

/-- The fields that tell which list a context fits on. -/
structure SameLists (x y : Connection) : Prop where
  state : y.state = x.state
  pend : y.connPendlist = x.connPendlist
  active : y.connActivelist = x.connActivelist
  abort : y.connAbortlist = x.connAbortlist
  magic : y.magic = x.magic

theorem Place.Fits.congr (h : p.Fits x) (he : SameLists x y) : p.Fits y := by
  have hown : x.Owned → y.Owned := fun ho =>
    ⟨he.magic ▸ ho.magic, he.active ▸ ho.active, he.pend ▸ ho.pend, he.abort ▸ ho.abort⟩
  cases p with
  | free => exact he.state.trans h
  | pend k => exact ⟨by rw [he.state]; exact h.1, hown h.2.1, he.pend.trans h.2.2⟩
  | active k => exact ⟨by rw [he.state]; exact h.1, hown h.2.1, he.active.trans h.2.2⟩
  | abort k => exact ⟨he.state.trans h.1, hown h.2⟩

theorem data_of_rest (h : m'.rest = m.rest) (i : Nat) : (m'.conn i).data = (m.conn i).data :=
  congrArg (fun r => r.conn i) h

theorem maxConnections_of_rest (h : m'.rest = m.rest) : m'.maxConnections = m.maxConnections :=
  congrArg (fun r => r.maxConnections) h

theorem mem_update_cons {L : Place → List Nat} :
    (∃ p, i ∈ Function.update L q (c :: L q) p) ↔ i = c ∨ ∃ p, i ∈ L p := by
  constructor
  · rintro ⟨p, hp⟩
    by_cases hpq : p = q
    · subst hpq
      rw [Function.update_self] at hp
      exact (List.mem_cons.mp hp).imp_right fun h => ⟨p, h⟩
    · rw [Function.update_of_ne hpq] at hp
      exact Or.inr ⟨p, hp⟩
  · rintro (rfl | ⟨p, hp⟩)
    · exact ⟨q, by simp⟩
    · by_cases hpq : p = q
      · subst hpq
        exact ⟨p, by simp [hp]⟩
      · exact ⟨p, by rwa [Function.update_of_ne hpq]⟩

theorem mem_move (hc : c ∈ L p) : (∃ r, i ∈ move L p q c r) ↔ ∃ r, i ∈ L r := by
  unfold move
  rw [mem_update_cons]
  constructor
  · rintro (rfl | ⟨r, hr⟩)
    · exact ⟨p, hc⟩
    · by_cases hrp : r = p
      · subst hrp
        rw [Function.update_self] at hr
        exact ⟨r, List.mem_of_mem_erase hr⟩
      · rw [Function.update_of_ne hrp] at hr
        exact ⟨r, hr⟩
  · rintro ⟨r, hr⟩
    by_cases hic : i = c
    · exact Or.inl hic
    · refine Or.inr ⟨r, ?_⟩
      by_cases hrp : r = p
      · subst hrp
        rw [Function.update_self]
        exact (List.mem_erase_of_ne hic).mpr hr
      · rwa [Function.update_of_ne hrp]

/-- A context that has moved is on its new list, any other where it was. -/
theorem mem_move_cases (hf : Family Place.kind m.heap L) (hc : c ∈ L p) {r : Place}
    (hi : i ∈ move L p q c r) : i = c ∧ r = q ∨ i ≠ c ∧ i ∈ L r := by
  by_cases hic : i = c
  · subst hic
    refine Or.inl ⟨rfl, ?_⟩
    by_contra hrq
    unfold move at hi
    rw [Function.update_of_ne hrq] at hi
    exact hf.unlink_not_mem hc r hi
  · refine Or.inr ⟨hic, ?_⟩
    have hsub : i ∈ Function.update L p ((L p).erase c) r := by
      unfold move at hi
      by_cases hrq : r = q
      · subst hrq
        rw [Function.update_self] at hi
        exact (List.mem_cons.mp hi).resolve_left hic
      · rwa [Function.update_of_ne hrq] at hi
    by_cases hrp : r = p
    · subst hrp
      rw [Function.update_self] at hsub
      exact List.mem_of_mem_erase hsub
    · rwa [Function.update_of_ne hrp] at hsub

/-- On a pending or active list, the list is the one that the context points at. -/
def Connection.PointsAt (x : Connection) : Place → Prop
  | .pend k => x.connPendlist = some k
  | .active k => x.connActivelist = some k
  | .free => True
  | .abort _ => True

theorem Place.Fits.pointsAt (h : p.Fits x) : x.PointsAt p := by
  cases p with
  | pend k => exact h.2.2
  | active k => exact h.2.2
  | free => trivial
  | abort k => trivial

/-- Activation takes a context off its list, where the only head it may write is the one that the
context points at, and puts it at the front of its active list. -/
theorem Activated.family (hspec : Activated m c a b m') (hf : Family Place.kind m.heap L)
    (hc : c ∈ L p) (hkind : p.kind = .double) (hown : m.head p = some c → p = .pend b) :
    Family Place.kind m'.heap (move L p (.active a) c) := by
  have hheads : (if m.head (.pend b) = some c then Function.update m.head (.pend b) (m.next c)
      else m.head) = (m.heap.unlink p c).head := by
    change _ = Function.update m.head p (if m.head p = some c then m.next c else m.head p)
    by_cases hb : m.head (.pend b) = some c
    · have hpb : Place.pend b = p := hf.head_place hc hb
      subst hpb
      rw [if_pos hb, if_pos hb]
    · rw [if_neg hb]
      have hne : m.head p ≠ some c := fun he => hb (hown he ▸ he)
      rw [if_neg hne, Function.update_eq_self]
  have hactive : m.head (.active a) = (m.heap.unlink p c).head (.active a) := by
    rw [← hheads]
    split
    · exact (Function.update_of_ne (by simp) ..).symm
    · rfl
  have hheap : m'.heap = (m.heap.unlink p c).push (.active a) c := by
    rw [hspec.heap, hheads, hactive]
    rfl
  rw [hheap]
  exact (hf.unlink (by simp [hkind]) (by simp [hkind]) hc).push rfl (hf.unlink_not_mem hc)

/-- Freeing takes a context off its list and puts it on the free list; one on an abort list must have
a predecessor. -/
theorem Freed.family {heads : Place → Option Nat} (hspec : Freed m c heads m')
    (hf : Family Place.kind m.heap L) (hc : c ∈ L p) (hp : p ≠ .free)
    (habort : ∀ k, p = .abort k → m.prev c ≠ none) (hown : (m.conn c).PointsAt p) :
    Family Place.kind m'.heap (move L p .free c) := by
  have hkind : p.kind ≠ .single := by cases p <;> simp [Place.kind] at hp ⊢
  have hloose : p.kind = .loose → m.prev c ≠ none := by
    intro hk
    cases p with
    | abort k => exact habort k rfl
    | free => cases hk
    | pend k => cases hk
    | active k => cases hk
  have hhead : m.head p = some c → m.prev c = none := fun he => (hf.kept p).head_prev hkind he
  -- Of the heads the code looks at, only that of the list `c` is on can lead to `c`.
  have hheads : heads = (m.heap.unlink p c).head := by
    change _ = Function.update m.head p (if m.head p = some c then m.next c else m.head p)
    cases hspec.after with
    | inside hprev => rw [if_neg fun he => hprev (hhead he), Function.update_eq_self]
    | active k hprev hk =>
      have hkp : Place.active k = p := hf.head_place hc hk
      rw [← hkp, if_pos hk]
    | pend k hprev hk =>
      have hkp : Place.pend k = p := hf.head_place hc hk
      rw [← hkp, if_pos hk]
    | abort k q hprev hk =>
      have hkp : Place.abort k = p := hf.head_place hc hk
      exact absurd hprev (habort k hkp.symm)
    | unlisted hprev ha hpd =>
      have hdouble : p.kind = .double → m.head p = some c := by
        intro hk
        have hkept := hf.kept p
        rw [hk] at hkept
        exact (hkept.head_iff hc).mp hprev
      cases p with
      | free => exact absurd rfl hp
      | pend k => exact absurd (hdouble rfl) (hpd k hown)
      | active k => exact absurd (hdouble rfl) (ha k hown)
      | abort k => exact absurd hprev (habort k rfl)
  have hheap : m'.heap = (m.heap.unlink p c).pushSingle .free c := by
    rw [hspec.heap, hheads]
    rfl
  rw [hheap]
  exact (hf.unlink hkind hloose hc).pushSingle rfl (hf.unlink_not_mem hc)

namespace Arranged

/-- Writes that keep the links, and keep the contexts on lists fit for them. -/
theorem write (h : Arranged held m L) (hheap : m'.heap = m.heap)
    (hmax : m'.maxConnections = m.maxConnections)
    (hfits : ∀ p, ∀ i ∈ L p, p.Fits (m'.conn i)) : Arranged held m' L :=
  ⟨hheap ▸ h.family, hfits, fun i => by rw [hmax]; exact h.cover i, h.unheld⟩

/-- Writes to one context that none of the lists depends on. -/
theorem modify {f : Connection → Connection} (h : Arranged held m L)
    (hn : ∀ x, (f x).nextconn = x.nextconn) (hp : ∀ x, (f x).prevconn = x.prevconn)
    (hf : ∀ x, SameLists x (f x)) : Arranged held (m.modify c f) L := by
  refine h.write (MyContext.heap_modify (hn _) (hp _)) rfl fun p i hi => ?_
  by_cases hic : i = c
  · subst hic
    rw [MyContext.conn_modify_self]
    exact (h.fits p i hi).congr (hf _)
  · rw [MyContext.conn_modify_of_ne hic]
    exact h.fits p i hi

theorem modifyHeld {f : Connection → Connection} (h : Arranged (some c) m L)
    (hn : ∀ x, (f x).nextconn = x.nextconn) (hp : ∀ x, (f x).prevconn = x.prevconn) :
    Arranged (some c) (m.modify c f) L := by
  refine h.write (MyContext.heap_modify (hn _) (hp _)) rfl fun p i hi => ?_
  have hic : i ≠ c := fun he => h.unheld p i hi (by rw [he])
  rw [MyContext.conn_modify_of_ne hic]
  exact h.fits p i hi

theorem take (h : Arranged none m L) (hget : connListGetfree m t = some (c, m')) :
    ∃ l, L .free = c :: l ∧ Arranged (some c) m' (Function.update L .free l) := by
  have ht := connListGetfree_spec hget
  have hfree : Chain m.next (m.head .free) (L .free) := h.family.kept .free
  cases hl : L .free with
  | nil =>
    rw [hl] at hfree
    have hnone : m.head .free = none := hfree
    rw [ht.head] at hnone
    cases hnone
  | cons c' l =>
    rw [hl] at hfree
    have hc : c' = c := by
      have hhead : m.head .free = some c' := hfree.1
      rw [ht.head] at hhead
      exact (Option.some.inj hhead).symm
    subst hc
    refine ⟨l, rfl, ?_⟩
    have hnd := List.nodup_cons.mp hfree.nodup
    have hmem : ∀ p, ∀ i ∈ Function.update L .free l p, i ≠ c' ∧ i ∈ L p := by
      intro p i hi
      by_cases hp : p = .free
      · subst hp
        rw [Function.update_self] at hi
        exact ⟨ne_of_mem_of_not_mem hi hnd.1, by simp [hl, hi]⟩
      · rw [Function.update_of_ne hp] at hi
        refine ⟨fun he => hp ?_, hi⟩
        subst he
        exact h.family.only i p .free hi (by simp [hl])
    have hconn : ∀ i, i ≠ c' → m'.conn i = m.conn i := fun i hi => by
      rw [ht.conn, Function.update_of_ne hi]
    refine ⟨ht.heap ▸ h.family.pop rfl hl, fun p i hi => ?_, fun i => ?_, fun p i hi he => ?_⟩
    · rw [hconn i (hmem p i hi).1]
      exact h.fits p i (hmem p i hi).2
    · have hmax : m'.maxConnections = m.maxConnections := by rw [ht.free]
      rw [hmax, ← h.cover i]
      constructor
      · rintro (he | ⟨p, hi⟩)
        · cases Option.some.inj he
          exact Or.inr ⟨.free, by simp [hl]⟩
        · exact Or.inr ⟨p, (hmem p i hi).2⟩
      · rintro (he | ⟨p, hi⟩)
        · cases he
        · by_cases hic : i = c'
          · exact Or.inl (by rw [hic])
          · refine Or.inr ⟨p, ?_⟩
            by_cases hp : p = .free
            · subst hp
              rw [hl] at hi
              rw [Function.update_self]
              exact (List.mem_cons.mp hi).resolve_left hic
            · rwa [Function.update_of_ne hp]
    · exact (hmem p i hi).1 (Option.some.inj he).symm

/-- A new context goes to the front of a pending list. -/
theorem putOnPending (h : Arranged (some c) m L) (hm : (m.conn c).magic = true)
    (ha : (m.conn c).connActivelist ≠ none) (hb : (m.conn c).connAbortlist ≠ none) :
    Arranged none (putOnPendingList m c k) (Function.update L (.pend k) (c :: L (.pend k))) := by
  have hoff : ∀ q, c ∉ L q := fun q hq => h.unheld q c hq rfl
  have hrest := putOnPendingList_rest m c k
  have hother : ∀ p i, i ∈ L p → p.Fits ((putOnPendingList m c k).conn i) := by
    intro p i hi
    have hic : i ≠ c := ne_of_mem_of_not_mem hi (hoff p)
    have hs := congrFun (putOnPendingList_stateOf m c k) i
    have hp := congrFun (putOnPendingList_pendOf m c k) i
    rw [Function.update_of_ne hic] at hs hp
    have hd := data_of_rest hrest i
    exact (h.fits p i hi).congr ⟨hs, hp, connActivelist_of_data hd, connAbortlist_of_data hd,
      congrFun (putOnPendingList_magicOf m c k) i⟩
  refine ⟨?_, fun p i hi => ?_, fun i => ?_, fun p i hi => by simp⟩
  · rw [putOnPendingList_heap]
    exact h.family.push rfl hoff
  · have hcase : (i = c ∧ p = .pend k) ∨ i ∈ L p := by
      by_cases hp : p = .pend k
      · subst hp
        rw [Function.update_self] at hi
        exact (List.mem_cons.mp hi).imp_left fun he => ⟨he, rfl⟩
      · rw [Function.update_of_ne hp] at hi
        exact Or.inr hi
    rcases hcase with ⟨rfl, rfl⟩ | hi
    · have hs := congrFun (putOnPendingList_stateOf m i k) i
      have hp := congrFun (putOnPendingList_pendOf m i k) i
      rw [Function.update_self] at hs hp
      have hp' : ((putOnPendingList m i k).conn i).connPendlist = some k := hp
      have hd := data_of_rest hrest i
      refine ⟨Or.inl hs, ⟨?_, ?_, ?_, ?_⟩, hp'⟩
      · exact (congrFun (putOnPendingList_magicOf m i k) i).trans hm
      · rw [connActivelist_of_data hd]
        exact ha
      · simp [hp']
      · rw [connAbortlist_of_data hd]
        exact hb
    · exact hother p i hi
  · rw [maxConnections_of_rest hrest, ← h.cover i, mem_update_cons]
    simp [eq_comm]

/-- Activation moves a context to the front of its active list, unless it is there already or on the
free list. -/
theorem activate (h : Arranged none m L) (hact : connectionActivate m c = some m') (hc : c ∈ L p)
    (hp : (∃ k, p = .pend k) ∨ ∃ k, p = .active k ∧ m.head p ≠ some c) :
    ∃ a, (m.conn c).connActivelist = some a ∧ Arranged none m' (move L p (.active a) c) := by
  obtain ⟨a, b, hspec⟩ := connectionActivate_spec hact
  refine ⟨a, hspec.activeOf, ?_⟩
  have hkind : p.kind = .double := by
    rcases hp with ⟨k, rfl⟩ | ⟨k, rfl, -⟩ <;> rfl
  have hown : (m.conn c).Owned ∧ ((∃ k, p = .pend k) → p = .pend b) := by
    rcases hp with ⟨k, rfl⟩ | ⟨k, rfl, -⟩
    · obtain ⟨-, hown, hpend⟩ := h.fits _ c hc
      have hb : (m.conn c).connPendlist = some b := hspec.pendOf
      rw [hb] at hpend
      exact ⟨hown, fun _ => by rw [Option.some.inj hpend]⟩
    · exact ⟨(h.fits _ c hc).2.1, fun ⟨j, hj⟩ => by cases hj⟩
  have hhead : m.head p = some c → p = .pend b := by
    intro he
    rcases hp with hk | ⟨k, rfl, hk⟩
    · exact hown.2 hk
    · exact absurd he hk
  have hfam := hspec.family h.family hc hkind hhead
  refine ⟨hfam, fun r i hi => ?_, fun i => ?_, fun p i hi => by simp⟩
  · have hs := congrFun hspec.state i
    have hd := data_of_rest hspec.rest i
    have hpd := congrFun hspec.pend i
    have hmg := congrFun hspec.magic i
    rcases mem_move_cases h.family hc hi with ⟨rfl, rfl⟩ | ⟨hic, hi⟩
    · rw [Function.update_self] at hs
      have ha : (m'.conn i).connActivelist = some a := by
        rw [connActivelist_of_rest hspec.rest]
        exact hspec.activeOf
      refine ⟨Or.inl hs, ⟨?_, ?_, ?_, ?_⟩, ha⟩
      · exact hmg.trans hown.1.magic
      · simp [ha]
      · exact fun he => hown.1.pend (hpd.symm.trans he)
      · rw [connAbortlist_of_data hd]
        exact hown.1.abort
    · rw [Function.update_of_ne hic] at hs
      exact (h.fits r i hi).congr ⟨hs, hpd, connActivelist_of_data hd, connAbortlist_of_data hd, hmg⟩
  · rw [maxConnections_of_rest hspec.rest, ← h.cover i, mem_move hc]

theorem fits_freed {heads : Place → Option Nat} (h : Arranged held m L)
    (hspec : Freed m c heads m') (hic : i ≠ c) (hi : i ∈ L p) : p.Fits (m'.conn i) := by
  have hs := congrFun hspec.state i
  have hmg := congrFun hspec.magic i
  rw [Function.update_of_ne hic] at hs hmg
  have hd := data_of_rest hspec.rest i
  exact (h.fits p i hi).congr ⟨hs, congrFun hspec.pend i, connActivelist_of_data hd,
    connAbortlist_of_data hd, hmg⟩

/-- Freeing takes a context off its list and puts it on the free list; one on an abort list must have
a predecessor. -/
theorem release (h : Arranged none m L) (hfree : connectionFree m c = some m') (hc : c ∈ L p)
    (hp : p ≠ .free) (habort : ∀ k, p = .abort k → m.prev c ≠ none) :
    Arranged none m' (move L p .free c) := by
  obtain ⟨heads, hspec⟩ := connectionFree_spec hfree
  have hfam := hspec.family h.family hc hp habort (h.fits p c hc).pointsAt
  refine ⟨hfam, fun r i hi => ?_, fun i => ?_, fun p i hi => by simp⟩
  · rcases mem_move_cases h.family hc hi with ⟨rfl, rfl⟩ | ⟨hic, hi⟩
    · have hs := congrFun hspec.state i
      rw [Function.update_self] at hs
      exact hs
    · exact h.fits_freed hspec hic hi
  · rw [maxConnections_of_rest hspec.rest, ← h.cover i, mem_move hc]

/-- Freeing a context that is on no list only puts it on the free list. -/
theorem releaseHeld (h : Arranged (some c) m L) (hfree : connectionFree m c = some m')
    (hn : m.next c = none) (hp : m.prev c = none) :
    Arranged none m' (Function.update L .free (c :: L .free)) := by
  obtain ⟨heads, hspec⟩ := connectionFree_spec hfree
  have hoff : ∀ q, c ∉ L q := fun q hq => h.unheld q c hq rfl
  have hnohead : ∀ p, m.head p ≠ some c := fun p he =>
    hoff p ((h.family.kept p).chain.head_mem he)
  have hheads : heads = m.head := by
    cases hspec.after with
    | inside hprev => rfl
    | active k hprev hk => exact absurd hk (hnohead _)
    | pend k hprev hk => exact absurd hk (hnohead _)
    | abort k q hprev hk => exact absurd hk (hnohead _)
    | unlisted hprev ha hpd => rfl
  have hheap : m'.heap = m.heap.pushSingle .free c := by
    rw [hspec.heap, hheads]
    simp only [unlinkNext, unlinkPrev, hn, hp]
    rfl
  refine ⟨hheap ▸ h.family.pushSingle rfl hoff, fun r i hi => ?_, fun i => ?_, fun p i hi => by simp⟩
  · by_cases hic : i = c
    · subst hic
      have hr : r = .free := by
        by_contra hr
        rw [Function.update_of_ne hr] at hi
        exact hoff r hi
      subst hr
      have hs := congrFun hspec.state i
      rw [Function.update_self] at hs
      exact hs
    · refine h.fits_freed hspec hic ?_
      by_cases hr : r = .free
      · subst hr
        rw [Function.update_self] at hi
        exact (List.mem_cons.mp hi).resolve_left hic
      · rwa [Function.update_of_ne hr] at hi
  · rw [maxConnections_of_rest hspec.rest, ← h.cover i, mem_update_cons]
    simp [eq_comm]

end Arranged

end BgqVrnic
