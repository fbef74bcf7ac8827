import BgqVrnic.PktLists
import BgqVrnic.Runs

namespace BgqVrnic

open Intrusive Pools Runs

/-- The answers of `alloc_object` for the three regions of a packet list, the addresses of the packets, and
what the memory held where the descriptors are and behind them. A descriptor goes by its index. -/
structure PktRegions where
  ctlsStatus : Int
  pktStatus : Int
  descStatus : Int
  pktVaddr : Nat
  pktPaddr : Nat
  links : Nat → Option Nat
  descs : Nat → PolledPkt
  messages : Nat → Nat × Nat

/-- `struct pkt_controls` with its two regions. -/
structure PktArray where
  numPkts : Nat
  packetSize : Nat
  regionBytes : Nat
  pktVaddr : Nat
  pktPaddr : Nat
  ctls : PktControls
  pktMsg : Nat → Nat
  messagePa : Nat → Nat

namespace PktArray

/-- One round of the loop that strings the free list. -/
def setUp (i : Nat) (a : PktArray) : PktArray :=
  { a with
    ctls := { a.ctls with next := Function.update a.ctls.next i (some (i + 1)) }
    pktMsg := Function.update a.pktMsg i ((a.pktVaddr + i * a.packetSize) % 2 ^ 64)
    messagePa := Function.update a.messagePa i ((a.pktPaddr + i * a.packetSize) % 2 ^ 64) }

def setUpTo : Nat → PktArray → PktArray
  | 0, a => a
  | k + 1, a => (setUpTo k a).setUp k

/-- The null pointer behind the loop. -/
def terminate (a : PktArray) : PktArray :=
  { a with ctls := { a.ctls with next := Function.update a.ctls.next a.numPkts none } }

end PktArray

/-- `alloc_pkt_list_object` -/
def PktArray.allocPktListObject (m : PktRegions) (maxConnections packetsize : Nat) : Int × Option PktArray :=
  if m.ctlsStatus ≠ 0 then (m.ctlsStatus, none)
  else if m.pktStatus ≠ 0 then (m.pktStatus, none)
  else if m.descStatus ≠ 0 then (m.descStatus, none)
  else
    let a : PktArray :=
      { numPkts := maxConnections
        packetSize := packetsize
        regionBytes := maxConnections * packetsize % 2 ^ 64
        pktVaddr := m.pktVaddr
        pktPaddr := m.pktPaddr
        ctls :=
          { next := m.links
            desc := m.descs
            pktFreeList := some 0
            pktReqidList := none
            held := []
            postings := [] }
        pktMsg := fun i => (m.messages i).1
        messagePa := fun i => (m.messages i).2 }
    (0, some (a.setUpTo maxConnections).terminate)

/-- What happens to a packet list in one go: a call from outside, or what `poll_pkt_message` and
`flush_pkt_reqid` do while they have the lock. They take the posted list, and put lists of their own in
front of the free and of the posted list, as if the elements were put there one by one from the last. -/
inductive PktSection
  | op (o : PktOp)
  | detach (l : List Nat)
  | giveBack (l : List Nat)
  | repost (l : List Nat)
  deriving DecidableEq, Repr

namespace PktControls

def pushFree (i : Nat) (c : PktControls) : PktControls :=
  { c with next := Function.update c.next i c.pktFreeList, pktFreeList := some i }

def pushPosted (i : Nat) (c : PktControls) : PktControls :=
  { c with next := Function.update c.next i c.pktReqidList, pktReqidList := some i }

/-- The list is in the hands of whoever brings it. -/
def Brings (c : PktControls) (l : List Nat) : Prop := l.Nodup ∧ ∀ i ∈ l, i ∈ c.held

def drop (l : List Nat) (c : PktControls) : PktControls :=
  { c with held := c.held.filter (· ∉ l) }

instance (c : PktControls) (l : List Nat) : Decidable (c.Brings l) :=
  inferInstanceAs (Decidable (_ ∧ _))

end PktControls

instance decidableChain (next : Nat → Option Nat) :
    ∀ (head : Option Nat) (l : List Nat), Decidable (Chain next head l)
  | head, [] => inferInstanceAs (Decidable (head = none))
  | head, x :: l =>
    have : Decidable (Chain next (next x) l) := decidableChain next (next x) l
    inferInstanceAs (Decidable (head = some x ∧ Chain next (next x) l))

def pktStep (c : PktControls) : PktSection → Option PktControls
  | .op o => some (c.call o)
  | .detach l =>
    if Chain c.next c.pktReqidList l then
      some { c with pktReqidList := none, held := l ++ c.held }
    else none
  | .giveBack l => if c.Brings l then some ((l.foldr PktControls.pushFree c).drop l) else none
  | .repost l => if c.Brings l then some ((l.foldr PktControls.pushPosted c).drop l) else none

/-- The free list is made up of the descriptors of the array, and ends with them. -/
def FreeListExact (a : PktArray) : Prop :=
  ∃ l, Chain a.ctls.next a.ctls.pktFreeList l ∧ l.Perm (List.range a.numPkts)

/-- Whatever is not in the free list is a descriptor of the array whose packet lies in the region, and
there are no more of them than the array has. -/
def OutSound (a : PktArray) (c : PktControls) : Prop :=
  ∀ p, c.Shows p →
    (∀ i ∈ c.held ++ p.posted, i < a.numPkts ∧ a.pktVaddr ≤ a.pktMsg i ∧
      a.pktMsg i + a.packetSize ≤ a.pktVaddr + a.regionBytes ∧ a.pktPaddr ≤ a.messagePa i ∧
      a.messagePa i + a.packetSize ≤ a.pktPaddr + a.regionBytes) ∧
    (c.held ++ p.posted).length ≤ a.numPkts

/-- A descriptor is only asked for while there are fewer than that out. -/
def SparesOne (n : Nat) (c : PktControls) (i : PktSection) : Prop :=
  i = .op .alloc → ∀ p, c.Shows p → (c.held ++ p.posted).length < n

/-- All that there is, with the element behind the array at the end of the free list. -/
def PktInv (n : Nat) (c : PktControls) : Prop :=
  ∃ p, c.Shows p ∧ (c.held ++ p.blocks).Perm (List.range (n + 1)) ∧ p.free.getLast? = some n

variable {m : PktRegions} {a : PktArray} {c c' : PktControls} {p p' : Pool PolledPkt}
variable {n k packetsize i : Nat} {l : List Nat}

theorem setUpTo_ctls (a : PktArray) (k : Nat) :
    (a.setUpTo k).ctls = { a.ctls with
      next := fun i => if i < k then some (i + 1) else a.ctls.next i } := by
  induction k with
  | zero => rfl
  | succ k ih =>
    have hnext : ∀ i, Function.update (fun i => if i < k then some (i + 1) else a.ctls.next i) k
        (some (k + 1)) i = if i < k + 1 then some (i + 1) else a.ctls.next i := by
      intro i
      by_cases hi : i = k
      · subst hi
        simp
      · rw [Function.update_of_ne hi]
        have hiff : i < k ↔ i < k + 1 := by omega
        simp only [hiff]
    rw [PktArray.setUpTo, PktArray.setUp, ih]
    dsimp only
    rw [funext hnext]

theorem setUpTo_same (a : PktArray) (k : Nat) :
    (a.setUpTo k).numPkts = a.numPkts ∧ (a.setUpTo k).packetSize = a.packetSize ∧
      (a.setUpTo k).regionBytes = a.regionBytes ∧ (a.setUpTo k).pktVaddr = a.pktVaddr ∧
      (a.setUpTo k).pktPaddr = a.pktPaddr := by
  induction k with
  | zero => exact ⟨rfl, rfl, rfl, rfl, rfl⟩
  | succ k ih => exact ih

theorem setUpTo_messages (a : PktArray) (k : Nat) (hi : i < k) :
    (a.setUpTo k).pktMsg i = (a.pktVaddr + i * a.packetSize) % 2 ^ 64 ∧
      (a.setUpTo k).messagePa i = (a.pktPaddr + i * a.packetSize) % 2 ^ 64 := by
  induction k with
  | zero => omega
  | succ k ih =>
    obtain ⟨-, hsize, -, hva, hpa⟩ := setUpTo_same a k
    rw [PktArray.setUpTo, PktArray.setUp]
    dsimp only
    by_cases hik : i = k
    · subst hik
      rw [Function.update_self, Function.update_self, hsize, hva, hpa]
      exact ⟨rfl, rfl⟩
    · rw [Function.update_of_ne hik, Function.update_of_ne hik]
      exact ih (by omega)

/-- What has been allocated, once the three regions are there. -/
structure Strung (m : PktRegions) (n packetsize : Nat) (a : PktArray) : Prop where
  numPkts : a.numPkts = n
  packetSize : a.packetSize = packetsize
  regionBytes : a.regionBytes = n * packetsize % 2 ^ 64
  pktVaddr : a.pktVaddr = m.pktVaddr
  pktPaddr : a.pktPaddr = m.pktPaddr
  inside : ∀ i < n, a.ctls.next i = some (i + 1)
  behind : a.ctls.next n = none
  free : a.ctls.pktFreeList = some 0
  posted : a.ctls.pktReqidList = none
  held : a.ctls.held = []
  pktMsg : ∀ i < n, a.pktMsg i = (m.pktVaddr + i * packetsize) % 2 ^ 64
  messagePa : ∀ i < n, a.messagePa i = (m.pktPaddr + i * packetsize) % 2 ^ 64

theorem allocPktListObject_strung (h : PktArray.allocPktListObject m n packetsize = (0, some a)) :
    Strung m n packetsize a := by
  unfold PktArray.allocPktListObject at h
  split at h
  next hne => exact absurd (Prod.mk.inj h).1 hne
  next =>
    split at h
    next hne => exact absurd (Prod.mk.inj h).1 hne
    next =>
      split at h
      next hne => exact absurd (Prod.mk.inj h).1 hne
      next =>
        dsimp only at h
        obtain ⟨-, h⟩ := Prod.mk.inj h
        rw [← Option.some.inj h]
        generalize hb : PktArray.mk n _ _ _ _ _ _ _ = b
        obtain ⟨hnum, hsize, hbytes, hva, hpa⟩ := setUpTo_same b n
        have hctls := setUpTo_ctls b n
        have hmsgs : ∀ i < n, _ := fun i hi => setUpTo_messages b n (i := i) hi
        have hbn : b.numPkts = n := by rw [← hb]
        have hnext : ((b.setUpTo n).terminate).ctls.next =
            Function.update (fun i => if i < n then some (i + 1) else b.ctls.next i) n none := by
          rw [PktArray.terminate, hctls, hnum, hbn]
        refine ⟨hnum.trans hbn, ?_, ?_, ?_, ?_, fun i hi => ?_, ?_, ?_, ?_, ?_, fun i hi => ?_,
          fun i hi => ?_⟩
        · exact hsize.trans (by rw [← hb])
        · exact hbytes.trans (by rw [← hb])
        · exact hva.trans (by rw [← hb])
        · exact hpa.trans (by rw [← hb])
        · rw [hnext, Function.update_of_ne (by omega), if_pos hi]
        · rw [hnext, Function.update_self]
        · exact (congrArg PktControls.pktFreeList hctls).trans (by rw [← hb])
        · exact (congrArg PktControls.pktReqidList hctls).trans (by rw [← hb])
        · exact (congrArg PktControls.held hctls).trans (by rw [← hb])
        · exact (hmsgs i hi).1.trans (by rw [← hb])
        · exact (hmsgs i hi).2.trans (by rw [← hb])

/-- The free list leads past the array. -/
theorem Strung.freeList (h : Strung m n packetsize a) :
    Chain a.ctls.next a.ctls.pktFreeList (List.range (n + 1)) := by
  rw [h.free, List.range_eq_range']
  apply Chain.of_successors
  · intro i _ hi
    exact h.inside i (by omega)
  · rw [Nat.zero_add]
    exact h.behind

theorem Strung.inv (h : Strung m n packetsize a) : PktInv n a.ctls := by
  refine ⟨⟨List.range (n + 1), [], a.ctls.desc⟩, ⟨h.freeList, h.posted, rfl⟩, ?_, ?_⟩
  · rw [h.held, Pool.blocks, List.append_nil]
    exact List.Perm.refl _
  · rw [List.range_succ]
    exact List.getLast?_concat ..

theorem Shows_unique (h : c.Shows p) (h' : c.Shows p') : p.free = p'.free ∧ p.posted = p'.posted :=
  ⟨h.free.unique h'.free, h.posted.unique h'.posted⟩

section Steps

variable (hall : (c.held ++ p.blocks).Perm (List.range (n + 1))) (hlast : p.free.getLast? = some n)

include hall

theorem pktInv_nodup : (c.held ++ p.blocks).Nodup := hall.nodup_iff.mpr List.nodup_range

include hlast

/-- The element behind the array is not out. -/
theorem out_lt (hi : i ∈ c.held ++ p.posted) : i < n := by
  have hn : n ∈ p.free := List.mem_of_getLast? hlast
  have hrange : i ∈ List.range (n + 1) := by
    apply hall.subset
    rcases List.mem_append.mp hi with hi | hi
    · exact List.mem_append_left _ hi
    · exact List.mem_append_right _ (List.mem_append_right _ hi)
  have hne : i ≠ n := by
    rintro rfl
    have hone := List.nodup_iff_count_le_one.mp (pktInv_nodup hall) i
    have hfree := List.count_pos_iff.mpr hn
    have hout := List.count_pos_iff.mpr hi
    simp only [Pool.blocks, List.count_append] at hone hout
    omega
  have := List.mem_range.mp hrange
  omega

theorem out_le : (c.held ++ p.posted).length ≤ n := by
  have hn : n ∈ p.free := List.mem_of_getLast? hlast
  have hpos := List.length_pos_of_mem hn
  have htotal := hall.length_eq
  simp only [Pool.blocks, List.length_append, List.length_range] at htotal ⊢
  omega

end Steps

theorem PktInv.alloc (h : PktInv n c) (hspare : ∀ p, c.Shows p → (c.held ++ p.posted).length < n) :
    PktInv n c.alloc := by
  obtain ⟨p, hshows, hall, hlast⟩ := h
  rcases hshows.alloc with ⟨hnil, -⟩ | ⟨i, p', halloc, hshows', hheld, -, -⟩
  · rw [hnil] at hlast
    cases hlast
  · obtain ⟨hfree, hposted, -⟩ := Pool.take_eq halloc
    have hmoved : (i :: c.held ++ p'.blocks).Perm (c.held ++ p.blocks) := by
      rw [Pool.blocks, Pool.blocks, hfree, hposted]
      exact List.perm_middle.symm
    refine ⟨p', hshows', ?_, ?_⟩
    · rw [hheld]
      exact hmoved.trans hall
    · have hout := hspare p hshows
      have htotal := hall.length_eq
      have hne : p'.free ≠ [] := by
        intro hnil
        simp only [Pool.blocks, hfree, hnil, List.length_append, List.length_range,
          List.length_singleton] at htotal hout
        omega
      rw [hfree] at hlast
      rw [List.getLast?_cons_of_ne_nil hne] at hlast
      exact hlast

theorem PktInv.call (h : PktInv n c) {o : PktOp}
    (hspare : o = .alloc → ∀ p, c.Shows p → (c.held ++ p.posted).length < n) :
    PktInv n (c.call o) := by
  cases o with
  | alloc => exact h.alloc (hspare rfl)
  | toFree i =>
    show PktInv n (if i ∈ c.held then c.toFree i else c)
    split
    next hi =>
      obtain ⟨p, hshows, hall, hlast⟩ := h
      have hout := PktControls.outside_toFree hshows (pktInv_nodup hall) hi
      refine ⟨_, hout.shows, hout.blocks.trans hall, ?_⟩
      show (i :: p.free).getLast? = some n
      rw [List.getLast?_cons_of_ne_nil (List.ne_nil_of_mem (List.mem_of_getLast? hlast))]
      exact hlast
    next => exact h
  | toPoll i descCount now =>
    show PktInv n (if i ∈ c.held then c.toPoll i descCount now else c)
    split
    next hi =>
      obtain ⟨p, hshows, hall, hlast⟩ := h
      have hout := PktControls.outside_toPoll descCount now hshows (pktInv_nodup hall) hi
      exact ⟨_, hout.shows, hout.blocks.trans hall, hlast⟩
    next => exact h
  | toPollCcontext i descCount ccontext now =>
    show PktInv n (if i ∈ c.held then c.toPollCcontext i descCount ccontext now else c)
    split
    next hi =>
      obtain ⟨p, hshows, hall, hlast⟩ := h
      have hout :=
        PktControls.outside_toPollCcontext descCount ccontext now hshows (pktInv_nodup hall) hi
      exact ⟨_, hout.shows, hout.blocks.trans hall, hlast⟩
    next => exact h
  | fill i reqId errorVal =>
    show PktInv n (if i ∈ c.held then c.fill i reqId errorVal else c)
    split
    next hi =>
      obtain ⟨p, hshows, hall, hlast⟩ := h
      have hout := PktControls.outside_fill reqId errorVal hshows hi
      exact ⟨_, hout.shows, hout.blocks.trans hall, hlast⟩
    next => exact h

theorem PktInv.detach (h : PktInv n c) (hl : Chain c.next c.pktReqidList l) :
    PktInv n { c with pktReqidList := none, held := l ++ c.held } := by
  obtain ⟨p, hshows, hall, hlast⟩ := h
  have hposted : p.posted = l := hshows.posted.unique hl
  refine ⟨{ p with posted := [] }, ⟨hshows.free, rfl, hshows.block⟩, ?_, hlast⟩
  refine List.Perm.trans (List.perm_iff_count.mpr fun j => ?_) hall
  simp only [Pool.blocks, hposted, List.count_append, List.count_nil]
  omega

/-- A list in hand, put in front of one of the lists element by element, from the last. -/
theorem pushFree_shows (h : c.Shows p) (hl : (l ++ p.blocks).Nodup) :
    (l.foldr PktControls.pushFree c).Shows { p with free := l ++ p.free } ∧
      (l.foldr PktControls.pushFree c).held = c.held := by
  induction l with
  | nil => exact ⟨h, rfl⟩
  | cons i l ih =>
    obtain ⟨hi, hrest⟩ := List.nodup_cons.mp hl
    obtain ⟨hshows, hheld⟩ := ih hrest
    have hi' : i ∉ l ++ (p.free ++ p.posted) := hi
    have hiout : i ∉ l ++ p.free ∧ i ∉ p.posted := by
      simp only [List.mem_append, not_or] at hi' ⊢
      exact ⟨⟨hi'.1, hi'.2.1⟩, hi'.2.2⟩
    refine ⟨⟨hshows.free.push hiout.1, hshows.posted.congr fun x hx => ?_, hshows.block⟩, hheld⟩
    exact Function.update_of_ne (ne_of_mem_of_not_mem hx hiout.2) _ _

theorem pushPosted_shows (h : c.Shows p) (hl : (l ++ p.blocks).Nodup) :
    (l.foldr PktControls.pushPosted c).Shows { p with posted := l ++ p.posted } ∧
      (l.foldr PktControls.pushPosted c).held = c.held := by
  induction l with
  | nil => exact ⟨h, rfl⟩
  | cons i l ih =>
    obtain ⟨hi, hrest⟩ := List.nodup_cons.mp hl
    obtain ⟨hshows, hheld⟩ := ih hrest
    have hi' : i ∉ l ++ (p.free ++ p.posted) := hi
    have hiout : i ∉ p.free ∧ i ∉ l ++ p.posted := by
      simp only [List.mem_append, not_or] at hi' ⊢
      exact ⟨hi'.2.1, ⟨hi'.1, hi'.2.2⟩⟩
    refine ⟨⟨hshows.free.congr fun x hx => ?_, hshows.posted.push hiout.2, hshows.block⟩, hheld⟩
    exact Function.update_of_ne (ne_of_mem_of_not_mem hx hiout.1) _ _

/-- What is brought and what is left in hand make up what was in hand. -/
theorem PktControls.Brings.split (hl : c.Brings l) (hn : c.held.Nodup) :
    (c.held.filter (· ∉ l) ++ l).Perm c.held := by
  have happ : (c.held.filter (· ∉ l) ++ l).Nodup := by
    refine List.nodup_append'.mpr ⟨hn.filter _, hl.1, fun i hi hil => ?_⟩
    have hout := (List.mem_filter.mp hi).2
    simp [hil] at hout
  apply (List.perm_ext_iff_of_nodup happ hn).mpr
  intro i
  constructor
  · intro hi
    rcases List.mem_append.mp hi with hi | hi
    · exact (List.mem_filter.mp hi).1
    · exact hl.2 i hi
  · intro hi
    by_cases hil : i ∈ l
    · exact List.mem_append_right _ hil
    · exact List.mem_append_left _ (List.mem_filter.mpr ⟨hi, by simp [hil]⟩)

theorem PktControls.Brings.apart (hl : c.Brings l) (hn : (c.held ++ p.blocks).Nodup) :
    (l ++ p.blocks).Nodup := by
  obtain ⟨-, hblocks, hdisjoint⟩ := List.nodup_append'.mp hn
  exact List.nodup_append'.mpr ⟨hl.1, hblocks, fun i hi => hdisjoint (hl.2 i hi)⟩

theorem PktInv.giveBack (h : PktInv n c) (hl : c.Brings l) :
    PktInv n ((l.foldr PktControls.pushFree c).drop l) := by
  obtain ⟨p, hshows, hall, hlast⟩ := h
  have hn := pktInv_nodup hall
  have hsplit := hl.split (List.nodup_append'.mp hn).1
  obtain ⟨hpushed, hheld⟩ := pushFree_shows hshows (hl.apart hn)
  refine ⟨{ p with free := l ++ p.free }, ⟨hpushed.free, hpushed.posted, hpushed.block⟩, ?_, ?_⟩
  · rw [PktControls.drop, hheld]
    refine List.Perm.trans (List.perm_iff_count.mpr fun j => ?_) hall
    have hj := hsplit.count_eq j
    simp only [Pool.blocks, List.count_append] at hj ⊢
    omega
  · show (l ++ p.free).getLast? = some n
    rw [List.getLast?_append, hlast]
    rfl

theorem PktInv.repost (h : PktInv n c) (hl : c.Brings l) :
    PktInv n ((l.foldr PktControls.pushPosted c).drop l) := by
  obtain ⟨p, hshows, hall, hlast⟩ := h
  have hn := pktInv_nodup hall
  have hsplit := hl.split (List.nodup_append'.mp hn).1
  obtain ⟨hpushed, hheld⟩ := pushPosted_shows hshows (hl.apart hn)
  refine ⟨{ p with posted := l ++ p.posted }, ⟨hpushed.free, hpushed.posted, hpushed.block⟩, ?_, hlast⟩
  rw [PktControls.drop, hheld]
  refine List.Perm.trans (List.perm_iff_count.mpr fun j => ?_) hall
  have hj := hsplit.count_eq j
  simp only [Pool.blocks, List.count_append] at hj ⊢
  omega

theorem PktInv.step (h : PktInv n c) {i : PktSection} (hok : SparesOne n c i)
    (hs : pktStep c i = some c') : PktInv n c' := by
  cases i with
  | op o =>
    cases Option.some.inj hs
    exact h.call fun ho => hok (congrArg PktSection.op ho)
  | detach l =>
    dsimp only [pktStep] at hs
    split at hs
    next hl =>
      cases Option.some.inj hs
      exact h.detach hl
    next => cases hs
  | giveBack l =>
    dsimp only [pktStep] at hs
    split at hs
    next hl =>
      cases Option.some.inj hs
      exact h.giveBack hl
    next => cases hs
  | repost l =>
    dsimp only [pktStep] at hs
    split at hs
    next hl =>
      cases Option.some.inj hs
      exact h.repost hl
    next => cases hs

/-- A packet of the array lies in the region, as long as that does not reach the end of the addresses. -/
theorem packet_inside {base size j : Nat} (hj : j < n) (hfit : base + n * size < 2 ^ 64) :
    base ≤ (base + j * size) % 2 ^ 64 ∧
      (base + j * size) % 2 ^ 64 + size ≤ base + n * size % 2 ^ 64 := by
  have hmul : (j + 1) * size ≤ n * size := Nat.mul_le_mul_right size hj
  rw [Nat.succ_mul] at hmul
  rw [Nat.mod_eq_of_lt (by omega), Nat.mod_eq_of_lt (by omega)]
  omega

theorem PktInv.outSound (hs : Strung m n packetsize a) (hva : m.pktVaddr + n * packetsize < 2 ^ 64)
    (hpa : m.pktPaddr + n * packetsize < 2 ^ 64) (h : PktInv n c) : OutSound a c := by
  obtain ⟨p, hshows, hall, hlast⟩ := h
  intro q hq
  obtain ⟨-, hposted⟩ := Shows_unique hshows hq
  rw [← hposted, hs.numPkts, hs.packetSize, hs.regionBytes, hs.pktVaddr, hs.pktPaddr]
  refine ⟨fun i hi => ?_, out_le hall hlast⟩
  have hi := out_lt hall hlast hi
  obtain ⟨hv1, hv2⟩ := packet_inside hi hva
  obtain ⟨hp1, hp2⟩ := packet_inside hi hpa
  rw [hs.pktMsg i hi, hs.messagePa i hi]
  exact ⟨hi, hv1, hv2, hp1, hp2⟩

/-- One that asks for a descriptor has found one of the array only if not all of them were out. -/
theorem sparesOne_of_outSound (hs : Strung m n packetsize a) (h : PktInv n c) {i : PktSection}
    (hstep : pktStep c i = some c') (hsound : OutSound a c') : SparesOne n c i := by
  rintro rfl p hp
  cases Option.some.inj hstep
  obtain ⟨q, hq, -, hlast⟩ := h
  obtain ⟨-, hposted⟩ := Shows_unique hq hp
  rcases hq.alloc with ⟨hnil, -⟩ | ⟨i, p', halloc, hshows', hheld, -, -⟩
  · rw [hnil] at hlast
    cases hlast
  · have hlen := (hsound p' hshows').2
    obtain ⟨-, hsame, -⟩ := Pool.take_eq halloc
    have hheld' : (c.call .alloc).held = i :: c.held := hheld
    rw [hheld', hsame, hposted, hs.numPkts] at hlen
    simp only [List.length_append, List.length_cons] at hlen ⊢
    omega

/-- The free list of a packet list never is that of its descriptors alone, and what is handed out is sound
in exactly those runs in which nobody asks for a descriptor while all of them are out. -/
theorem pktList_sound_iff (m : PktRegions) (n packetsize : Nat) (a : PktArray)
    (h : PktArray.allocPktListObject m n packetsize = (0, some a)) :
    ¬ FreeListExact a ∧
      (m.pktVaddr + n * packetsize < 2 ^ 64 → m.pktPaddr + n * packetsize < 2 ^ 64 →
        ∀ is, Always pktStep (OutSound a) a.ctls is ↔ Meets pktStep (SparesOne n) a.ctls is) := by
  have hs := allocPktListObject_strung h
  refine ⟨?_, fun hva hpa is => ?_⟩
  · rintro ⟨l, hl, hperm⟩
    have hlist := hs.freeList.unique hl
    rw [← hlist, hs.numPkts] at hperm
    have hlen := hperm.length_eq
    simp only [List.length_range] at hlen
    omega
  · exact always_iff_meets (fun _ => PktInv.outSound hs hva hpa) (fun _ _ _ h => h.step)
      (fun _ _ _ h => sparesOne_of_outSound hs h) hs.inv

/-- Regions at low addresses. -/
def lowRegions : PktRegions :=
  { ctlsStatus := 0
    pktStatus := 0
    descStatus := 0
    pktVaddr := 0x1000
    pktPaddr := 0x1000
    links := fun _ => none
    descs := fun _ => default
    messages := fun _ => (0, 0) }

/-- The second descriptor of a list of one lies behind the array. -/
theorem descriptor_behind_handed_out :
    ¬ ∀ (m : PktRegions) (n packetsize : Nat) (a : PktArray), 1 ≤ n →
      PktArray.allocPktListObject m n packetsize = (0, some a) →
      FreeListExact a ∧ ∀ is, Always pktStep (OutSound a) a.ctls is := by
  intro h
  obtain ⟨a, ha⟩ : ∃ a, PktArray.allocPktListObject lowRegions 1 512 = (0, some a) := ⟨_, rfl⟩
  obtain ⟨⟨l, hl, hperm⟩, -⟩ := h lowRegions 1 512 a (Nat.le_refl 1) ha
  have hs := allocPktListObject_strung ha
  have hlist := hs.freeList.unique hl
  rw [← hlist, hs.numPkts] at hperm
  exact absurd hperm.length_eq (by decide)

theorem pktList_of_one :
    ∃ a, PktArray.allocPktListObject lowRegions 1 512 = (0, some a) ∧ ¬ FreeListExact a ∧
      ∀ is, Always pktStep (OutSound a) a.ctls is ↔ Meets pktStep (SparesOne 1) a.ctls is := by
  obtain ⟨a, ha⟩ : ∃ a, PktArray.allocPktListObject lowRegions 1 512 = (0, some a) := ⟨_, rfl⟩
  obtain ⟨hnot, hruns⟩ := pktList_sound_iff lowRegions 1 512 a ha
  exact ⟨a, ha, hnot, hruns (by decide) (by decide)⟩

end BgqVrnic
