import Mathlib.Data.List.Perm.Subperm
import BgqVrnic.ConnListInv

namespace BgqVrnic

open Intrusive

namespace MyContext

def setAbortHead (m : MyContext) (k : Link) (v : Option Nat) : MyContext :=
  { m with connAbortlist := Function.update m.connAbortlist k v }

/-- Write the contexts of a list. -/
def visited (m : MyContext) (visit : Connection → Connection) (l : List Nat) : MyContext :=
  { m with conn := fun i => if i ∈ l then visit (m.conn i) else m.conn i }

end MyContext

/-- The loop over a connection list, with the contexts that it visits. It does not get to the end of
one that is longer than `fuel`; no list without a cycle is longer than the table. -/
def walkConns (visit : Connection → Connection) :
    Nat → Option Nat → MyContext → Option (MyContext × List Nat)
  | _, none, m => some (m, [])
  | 0, some _, _ => none
  | fuel + 1, some c, m => do
    let m := m.modify c visit
    let (m, l) ← walkConns visit fuel (m.conn c).nextconn m
    some (m, c :: l)

namespace Connection

def disabled (c : Connection) : Connection :=
  { c with state := .disconnecting, connActivelist := none }

def aborted (c : Connection) : Connection := { c with state := .aborted }

/-- `disconnect_indicate` turns the header in the descriptor round for its callback. -/
def disconnectIndicate (c : Connection) : Connection :=
  let hdr := c.memFifo.hdr
  { c with
    memFifo := { c.memFifo with
      hdr :=
        { sequenceNumber := c.myIndex
          torusSourceNode := hdr.torusDestNode
          torusDestNode := hdr.torusSourceNode
          payloadLength := 0
          type := .disconnected
          sourceQpn := hdr.destQpn
          destQpn := hdr.sourceQpn } } }

def flushed (c : Connection) : Connection :=
  { c.disconnectIndicate with state := .free, connActivelist := none }

end Connection

def disableActiveConnectionList (m : MyContext) (k : Link) : Option MyContext := do
  let (m, _) ← walkConns Connection.disabled m.maxConnections (m.connActivelist k) m
  some m

/-- `disable_pending_connection_list`, with the number of contexts that it returns. -/
def disablePendingConnectionList (m : MyContext) (k : Link) : Option (MyContext × Nat) := do
  let (m, l) ← walkConns Connection.aborted m.maxConnections (m.connPendlist k) m
  match l.getLast? with
  | none => some (m, l.length)
  | some last =>
    let m := m.setNext last (m.connAbortlist k)
    let m := m.setAbortHead k (m.connPendlist k)
    some (m.setPendHead k none, l.length)

/-- `flush_iolink_connection_list`, with the contexts and headers that its callback gets. -/
def flushIolinkConnectionList (m : MyContext) (k : Link) :
    Option (MyContext × List (Nat × IonetHeader)) := do
  let first := m.connActivelist k
  let (m, l) ← walkConns Connection.flushed m.maxConnections first m
  let told := l.map fun c => (c, (m.conn c).memFifo.hdr)
  match l.getLast? with
  | none => some (m, told)
  | some last =>
    let m := m.setNext last m.connFreelist
    let m := m.setFreeHead first
    some (m.setActiveHead k none, told)

/-- What `mudm_resetIOlink` does to the connections of a link, in this order. -/
def resetLink (m : MyContext) (k : Link) : Option (MyContext × List (Nat × IonetHeader)) := do
  let m ← disableActiveConnectionList m k
  let (m, _) ← disablePendingConnectionList m k
  flushIolinkConnectionList m k

namespace MyContext

variable {m : MyContext} {visit : Connection → Connection} {l : List Nat} {k : Link} {v : Option Nat}

@[simp] theorem next_setAbortHead : (m.setAbortHead k v).next = m.next := rfl

@[simp] theorem prev_setAbortHead : (m.setAbortHead k v).prev = m.prev := rfl

@[simp] theorem head_setAbortHead :
    (m.setAbortHead k v).head = Function.update m.head (.abort k) v := by
  funext p
  cases p <;> simp [head, setAbortHead, Function.update_apply]

theorem field_visited {α : Type} (g : Connection → α) (h : ∀ x, g (visit x) = g x) :
    (fun i => g ((m.visited visit l).conn i)) = fun i => g (m.conn i) := by
  funext i
  unfold visited
  dsimp only
  split
  next => exact h (m.conn i)
  next => rfl

theorem heap_visited (hn : ∀ x, (visit x).nextconn = x.nextconn)
    (hp : ∀ x, (visit x).prevconn = x.prevconn) : (m.visited visit l).heap = m.heap := by
  unfold heap next prev
  rw [field_visited Connection.nextconn hn, field_visited Connection.prevconn hp]
  rfl

end MyContext

open MyContext

variable {m m' m'' : MyContext} {visit : Connection → Connection} {head : Option Nat} {l : List Nat}
variable {n c : Nat} {k : Link} {L : Place → List Nat} {p q : Place}
variable {told : List (Nat × IonetHeader)}

theorem walkConns_chain (hv : ∀ x, (visit x).nextconn = x.nextconn) (h : Chain m.next head l)
    (hn : l.length ≤ n) : walkConns visit n head m = some (m.visited visit l, l) := by
  induction l generalizing n head m with
  | nil =>
    have hhead : head = none := h
    subst hhead
    have hm : m.visited visit [] = m := by simp [visited]
    rw [hm]
    cases n <;> rfl
  | cons x l ih =>
    have hhead : head = some x := h.1
    subst hhead
    have hnext : (m.modify x visit).next = m.next :=
      field_modify_same Connection.nextconn (hv _)
    have hx : ((m.modify x visit).conn x).nextconn = m.next x := congrFun hnext x
    have hxl : x ∉ l := (List.nodup_cons.mp h.nodup).1
    cases n with
    | zero => simp at hn
    | succ n =>
      have hrest := ih (m := m.modify x visit) (n := n) (hnext ▸ h.2) (by simpa using hn)
      rw [hnext] at hrest
      have hboth : (m.modify x visit).visited visit l = m.visited visit (x :: l) := by
        have hconn : ((m.modify x visit).visited visit l).conn = (m.visited visit (x :: l)).conn := by
          funext i
          by_cases hi : i = x
          · subst hi
            simp [visited, hxl, conn_modify_self]
          · simp [visited, hi, conn_modify_of_ne hi]
        exact congrArg (fun f => { m with conn := f }) hconn
      unfold walkConns
      dsimp only
      rw [hx, hrest, hboth]
      rfl

/-- What is left of a list after its contexts have been written and it has gone before another. -/
structure Spliced (m : MyContext) (p q : Place) (visit : Connection → Connection) (l : List Nat)
    (m' : MyContext) : Prop where
  heap : l = [] ∧ m'.heap = m.heap ∨ ∃ l₀ x, l = l₀ ++ [x] ∧ m'.heap = m.heap.splice p q x
  conn : ∀ i, ∃ n,
    m'.conn i = { (if i ∈ l then visit (m.conn i) else m.conn i) with nextconn := n }
  max : m'.maxConnections = m.maxConnections

theorem Spliced.family (h : Spliced m p q visit (L p) m') (hf : Family Place.kind m.heap L)
    (hpq : p ≠ q) (hp : p.kind = .double) (hq : q.kind ≠ .double) :
    Family Place.kind m'.heap (spliced L p q) := by
  rcases h.heap with ⟨hl, hheap⟩ | ⟨l₀, x, hl, hheap⟩
  · rw [hheap, spliced_nil hl]
    exact hf
  · rw [hheap]
    exact hf.splice hpq hp hq hl

theorem disableActiveConnectionList_spec (h : Chain m.next (m.head (.active k)) l)
    (hn : l.length ≤ m.maxConnections) :
    disableActiveConnectionList m k = some (m.visited Connection.disabled l) := by
  have hw : walkConns Connection.disabled m.maxConnections (m.connActivelist k) m = _ :=
    walkConns_chain (fun _ => rfl) h hn
  unfold disableActiveConnectionList
  rw [hw]
  rfl

theorem conn_setNext (m : MyContext) (c i : Nat) (v : Option Nat) :
    ∃ n, (m.setNext c v).conn i = { m.conn i with nextconn := n } := by
  by_cases hi : i = c
  · subst hi
    exact ⟨v, conn_modify_self⟩
  · exact ⟨(m.conn i).nextconn, conn_modify_of_ne hi⟩

/-- The two lists are joined by a write to the last element of the first and the two heads. -/
theorem Spliced.join {l₀ : List Nat} {x : Nat} (hn : ∀ x, (visit x).nextconn = x.nextconn)
    (hp : ∀ x, (visit x).prevconn = x.prevconn)
    (hconn : m'.conn = ((m.visited visit (l₀ ++ [x])).setNext x (m.head q)).conn)
    (hhead : m'.head = Function.update (Function.update m.head q (m.head p)) p none)
    (hmax : m'.maxConnections = m.maxConnections) : Spliced m p q visit (l₀ ++ [x]) m' := by
  have hheap : (m.visited visit (l₀ ++ [x])).heap = m.heap := heap_visited hn hp
  have hnext : (m.visited visit (l₀ ++ [x])).next = m.next := congrArg Heap.next hheap
  have hprev : (m.visited visit (l₀ ++ [x])).prev = m.prev := congrArg Heap.prev hheap
  refine ⟨Or.inr ⟨l₀, x, rfl, ?_⟩, fun i => ?_, hmax⟩
  · have hn' : m'.next = Function.update m.next x (m.head q) := by
      have he : m'.next = ((m.visited visit (l₀ ++ [x])).setNext x (m.head q)).next := by
        unfold MyContext.next
        rw [hconn]
      rw [he, next_setNext, hnext]
    have hp' : m'.prev = m.prev := by
      have he : m'.prev = ((m.visited visit (l₀ ++ [x])).setNext x (m.head q)).prev := by
        unfold MyContext.prev
        rw [hconn]
      rw [he, prev_setNext, hprev]
    unfold MyContext.heap Heap.splice
    rw [hn', hp', hhead]
  · rw [hconn]
    exact conn_setNext (m.visited visit (l₀ ++ [x])) x i (m.head q)

theorem Spliced.empty (hn : ∀ x, (visit x).nextconn = x.nextconn)
    (hp : ∀ x, (visit x).prevconn = x.prevconn) : Spliced m p q visit [] (m.visited visit []) :=
  ⟨Or.inl ⟨rfl, heap_visited hn hp⟩, fun _ => ⟨_, rfl⟩, rfl⟩

theorem disablePendingConnectionList_spec (h : Chain m.next (m.head (.pend k)) l)
    (hn : l.length ≤ m.maxConnections) :
    ∃ m', disablePendingConnectionList m k = some (m', l.length) ∧
      Spliced m (.pend k) (.abort k) Connection.aborted l m' := by
  have hw : walkConns Connection.aborted m.maxConnections (m.connPendlist k) m = _ :=
    walkConns_chain (fun _ => rfl) h hn
  unfold disablePendingConnectionList
  rw [hw]
  rcases List.eq_nil_or_concat l with rfl | ⟨l₀, x, rfl⟩
  · exact ⟨_, rfl, Spliced.empty (fun _ => rfl) fun _ => rfl⟩
  · rw [List.concat_eq_append] at *
    dsimp only [Option.bind_some, Option.bind_eq_bind]
    rw [List.getLast?_concat]
    refine ⟨_, rfl, Spliced.join (fun _ => rfl) (fun _ => rfl) rfl ?_ rfl⟩
    rw [head_setPendHead, head_setAbortHead, head_setNext]
    rfl

/-- The disconnect indication of a context: the context and the header in its descriptor. -/
def indication (m : MyContext) (c : Nat) : Nat × IonetHeader :=
  (c, (m.conn c).disconnectIndicate.memFifo.hdr)

theorem flushIolinkConnectionList_spec (h : Chain m.next (m.head (.active k)) l)
    (hn : l.length ≤ m.maxConnections) :
    ∃ m', flushIolinkConnectionList m k = some (m', l.map (indication m)) ∧
      Spliced m (.active k) .free Connection.flushed l m' := by
  have hw : walkConns Connection.flushed m.maxConnections (m.connActivelist k) m = _ :=
    walkConns_chain (fun _ => rfl) h hn
  have htold : l.map (fun c => (c, ((m.visited Connection.flushed l).conn c).memFifo.hdr)) =
      l.map (indication m) := by
    refine List.map_congr_left fun c hc => ?_
    have hconn : (m.visited Connection.flushed l).conn c = (m.conn c).flushed := if_pos hc
    rw [hconn]
    rfl
  unfold flushIolinkConnectionList
  dsimp only
  rw [hw]
  dsimp only [Option.bind_some, Option.bind_eq_bind]
  rw [htold]
  rcases List.eq_nil_or_concat l with rfl | ⟨l₀, x, rfl⟩
  · exact ⟨_, rfl, Spliced.empty (fun _ => rfl) fun _ => rfl⟩
  · rw [List.concat_eq_append] at *
    rw [List.getLast?_concat]
    refine ⟨_, rfl, Spliced.join (fun _ => rfl) (fun _ => rfl) rfl ?_ rfl⟩
    rw [head_setActiveHead, head_setFreeHead, head_setNext]
    rfl

theorem Arranged.length_le {held : Option Nat} (h : Arranged held m L) (p : Place) :
    (L p).length ≤ m.maxConnections := by
  have hnd := (h.family.kept p).chain.nodup
  have hsub : L p ⊆ List.range m.maxConnections := fun i hi =>
    List.mem_range.mpr ((h.cover i).mp (Or.inr ⟨p, hi⟩))
  have hle := (List.subperm_of_subset hnd hsub).length_le
  rwa [List.length_range] at hle

/-- What a reset of link `k` is to make of the lists. -/
def resetLists (L : Place → List Nat) (k : Link) : Place → List Nat :=
  spliced (spliced L (.pend k) (.abort k)) (.active k) .free

theorem mem_resetLists {i : Nat} :
    i ∈ resetLists L k p ↔ (p ≠ .active k ∧ p ≠ .pend k ∧ i ∈ L p) ∨
      (p = .abort k ∧ i ∈ L (.pend k)) ∨ (p = .free ∧ i ∈ L (.active k)) := by
  unfold resetLists
  rw [mem_spliced (by simp), mem_spliced (by simp), mem_spliced (by simp)]
  constructor
  · rintro ⟨hp, ⟨hpend, hi | ⟨rfl, hi⟩⟩ | ⟨rfl, -, hi | ⟨hk, -⟩⟩⟩
    · exact Or.inl ⟨hp, hpend, hi⟩
    · exact Or.inr (Or.inl ⟨rfl, hi⟩)
    · exact Or.inr (Or.inr ⟨rfl, hi⟩)
    · cases hk
  · rintro (⟨hp, hpend, hi⟩ | ⟨rfl, hi⟩ | ⟨rfl, hi⟩)
    · exact ⟨hp, Or.inl ⟨hpend, Or.inl hi⟩⟩
    · exact ⟨by simp, Or.inl ⟨by simp, Or.inr ⟨rfl, hi⟩⟩⟩
    · exact ⟨by simp, Or.inr ⟨rfl, by simp, Or.inl hi⟩⟩

theorem Spliced.conn_of_mem (h : Spliced m p q visit l m') (hc : c ∈ l) :
    ∃ n, m'.conn c = { visit (m.conn c) with nextconn := n } := by
  obtain ⟨n, hn⟩ := h.conn c
  rw [if_pos hc] at hn
  exact ⟨n, hn⟩

theorem Spliced.conn_of_not_mem (h : Spliced m p q visit l m') (hc : c ∉ l) :
    ∃ n, m'.conn c = { m.conn c with nextconn := n } := by
  obtain ⟨n, hn⟩ := h.conn c
  rw [if_neg hc] at hn
  exact ⟨n, hn⟩

/-- The contexts fit on the lists that a reset puts them on. -/
theorem Arranged.fits_reset {held : Option Nat} {m₂ m₃ : MyContext} (h : Arranged held m L)
    (h₂ : Spliced (m.visited Connection.disabled (L (.active k))) (.pend k) (.abort k)
      Connection.aborted (L (.pend k)) m₂)
    (h₃ : Spliced m₂ (.active k) .free Connection.flushed (L (.active k)) m₃)
    (hp : c ∈ resetLists L k p) : p.Fits (m₃.conn c) := by
  have hother : ∀ q, c ∈ L q → q ≠ .active k →
      (m.visited Connection.disabled (L (.active k))).conn c = m.conn c ∧ c ∉ L (.active k) := by
    intro q hq hne
    have hnot : c ∉ L (.active k) := fun hmem => hne (h.family.only c q _ hq hmem)
    exact ⟨if_neg hnot, hnot⟩
  rcases mem_resetLists.mp hp with ⟨hact, hpend, hc⟩ | ⟨rfl, hc⟩ | ⟨rfl, hc⟩
  · obtain ⟨he, hnot⟩ := hother p hc hact
    have hnot₂ : c ∉ L (.pend k) := fun hmem => hpend (h.family.only c p _ hc hmem)
    obtain ⟨n₂, hn₂⟩ := h₂.conn_of_not_mem hnot₂
    obtain ⟨n₃, hn₃⟩ := h₃.conn_of_not_mem hnot
    rw [hn₃, hn₂, he]
    exact (h.fits p c hc).congr ⟨rfl, rfl, rfl, rfl, rfl⟩
  · obtain ⟨he, hnot⟩ := hother (.pend k) hc (by simp)
    obtain ⟨n₂, hn₂⟩ := h₂.conn_of_mem hc
    obtain ⟨n₃, hn₃⟩ := h₃.conn_of_not_mem hnot
    obtain ⟨-, ho, -⟩ := h.fits _ c hc
    rw [hn₃, hn₂, he]
    exact ⟨rfl, ho.magic, ho.active, ho.pend, ho.abort⟩
  · obtain ⟨n₃, hn₃⟩ := h₃.conn_of_mem hc
    rw [hn₃]
    rfl

/-- A context that is not on the list stays as it is, its link included. -/
theorem Spliced.frame (h : Spliced m p q visit l m') (hc : c ∉ l) : m'.conn c = m.conn c := by
  obtain ⟨n, hn⟩ := h.conn_of_not_mem hc
  have hnext : m'.next c = m.next c := by
    rcases h.heap with ⟨-, hheap⟩ | ⟨l₀, x, rfl, hheap⟩
    · exact congrFun (congrArg Heap.next hheap) c
    · refine (congrFun (congrArg Heap.next hheap) c).trans ?_
      exact Function.update_of_ne (fun he => hc (by simp [he])) _ _
  have hlink : n = (m.conn c).nextconn := by
    have hsame : (m'.conn c).nextconn = (m.conn c).nextconn := hnext
    rw [← hsame, hn]
  rw [hn, hlink]

/-- The three parts of a reset, and the lists that they leave. -/
theorem Arranged.resetLink_steps (h : Arranged none m L) (k : Link) :
    ∃ m₂ m₃, BgqVrnic.resetLink m k = some (m₃, (L (.active k)).map (indication m)) ∧
      Spliced (m.visited Connection.disabled (L (.active k))) (.pend k) (.abort k)
        Connection.aborted (L (.pend k)) m₂ ∧
      Spliced m₂ (.active k) .free Connection.flushed (L (.active k)) m₃ ∧
      Family Place.kind m₃.heap (resetLists L k) := by
  have h₁ := disableActiveConnectionList_spec (h.family.kept (.active k)).chain (h.length_le _)
  have hheap₁ : (m.visited Connection.disabled (L (.active k))).heap = m.heap :=
    heap_visited (fun _ => rfl) fun _ => rfl
  have hfam₁ : Family Place.kind (m.visited Connection.disabled (L (.active k))).heap L :=
    hheap₁ ▸ h.family
  obtain ⟨m₂, h₂, hs₂⟩ := disablePendingConnectionList_spec (hfam₁.kept (.pend k)).chain
    (h.length_le _)
  have hfam₂ := hs₂.family hfam₁ (by simp) rfl (by simp [Place.kind])
  have hmax₂ : m₂.maxConnections = m.maxConnections := hs₂.max
  have hact₂ : spliced L (.pend k) (.abort k) (.active k) = L (.active k) := by simp [spliced]
  have hkept₂ := hact₂ ▸ hfam₂.kept (.active k)
  obtain ⟨m₃, h₃, hs₃⟩ := flushIolinkConnectionList_spec hkept₂.chain (hmax₂ ▸ h.length_le _)
  have hfam₃ := (hact₂.symm ▸ hs₃).family hfam₂ (by simp) rfl (by simp [Place.kind])
  have htold : (L (.active k)).map (indication m₂) = (L (.active k)).map (indication m) := by
    refine List.map_congr_left fun c hc => ?_
    have hnot : c ∉ L (.pend k) := fun hmem => by cases h.family.only c _ _ hc hmem
    obtain ⟨n, hn⟩ := hs₂.conn_of_not_mem hnot
    have hvisited : (m.visited Connection.disabled (L (.active k))).conn c = (m.conn c).disabled :=
      if_pos hc
    unfold indication
    rw [hn, hvisited]
    rfl
  refine ⟨m₂, m₃, ?_, hs₂, hs₃, hfam₃⟩
  unfold BgqVrnic.resetLink
  rw [h₁]
  dsimp only [Option.bind_some, Option.bind_eq_bind]
  rw [h₂]
  dsimp only [Option.bind_some]
  rw [h₃, htold]

/-- A reset always comes to an end. It frees the active connections of the link, each with one
indication, and puts the pending ones before those that an earlier reset aborted. -/
theorem Arranged.resetLink (h : Arranged none m L) (k : Link) :
    ∃ m', resetLink m k = some (m', (L (.active k)).map (indication m)) ∧
      Arranged none m' (resetLists L k) := by
  obtain ⟨m₂, m₃, hreset, hs₂, hs₃, hfamily⟩ := h.resetLink_steps k
  refine ⟨m₃, hreset, hfamily, fun r i hi => h.fits_reset hs₂ hs₃ hi, fun i => ?_, by simp⟩
  have hmax : m₃.maxConnections = m.maxConnections := hs₃.max.trans hs₂.max
  rw [hmax, ← h.cover i]
  unfold resetLists
  rw [exists_mem_spliced (by simp), exists_mem_spliced (by simp)]

/-- It leaves the contexts alone that are not on these two lists. -/
theorem Arranged.resetLink_frame (h : Arranged none m L)
    (hr : BgqVrnic.resetLink m k = some (m', told)) (hactive : c ∉ L (.active k))
    (hpend : c ∉ L (.pend k)) : m'.conn c = m.conn c := by
  obtain ⟨m₂, m₃, hreset, hs₂, hs₃, -⟩ := h.resetLink_steps k
  cases Option.some.inj (hr.symm.trans hreset)
  rw [hs₃.frame hactive, hs₂.frame hpend]
  exact if_neg hactive

end BgqVrnic
