import BgqVrnic.LinkFamily
import BgqVrnic.ConnLists

namespace BgqVrnic

open Intrusive

/-- The lists of a context table. -/
inductive Place
  | free | pend (k : Link) | active (k : Link) | abort (k : Link)
  deriving DecidableEq, Repr

/-- The free list is singly linked; the abort list is put together from pieces whose first back
links stay null. -/
def Place.kind : Place → Discipline
  | .free => .single
  | .pend _ => .double
  | .active _ => .double
  | .abort _ => .loose

/-- A context without the fields that the list operations manage. -/
def Connection.data (c : Connection) : Connection :=
  { c with nextconn := none, prevconn := none, state := .free, connPendlist := none, magic := false }

namespace MyContext

def next (m : MyContext) (i : Nat) : Option Nat := (m.conn i).nextconn

def prev (m : MyContext) (i : Nat) : Option Nat := (m.conn i).prevconn

def stateOf (m : MyContext) (i : Nat) : ConnState := (m.conn i).state

def pendOf (m : MyContext) (i : Nat) : Option Link := (m.conn i).connPendlist

def magicOf (m : MyContext) (i : Nat) : Bool := (m.conn i).magic

def head (m : MyContext) : Place → Option Nat
  | .free => m.connFreelist
  | .pend k => m.connPendlist k
  | .active k => m.connActivelist k
  | .abort k => m.connAbortlist k

/-- The links of a context table. -/
def heap (m : MyContext) : Heap Nat Place := ⟨m.next, m.prev, m.head⟩

/-- Everything but the links. -/
def rest (m : MyContext) : MyContext :=
  { m with
    conn := fun i => (m.conn i).data
    connFreelist := none
    connPendlist := fun _ => none
    connActivelist := fun _ => none
    connAbortlist := fun _ => none }

variable {m m' : MyContext} {c i : Nat} {f : Connection → Connection} {v : Option Nat}
variable {s : ConnState} {k : Link} {p : Option Link}

theorem conn_modify_self : (m.modify c f).conn c = f (m.conn c) := Function.update_self ..

theorem conn_modify_of_ne (h : i ≠ c) : (m.modify c f).conn i = m.conn i :=
  Function.update_of_ne h ..

theorem field_modify {α : Type} (g : Connection → α) :
    (fun i => g ((m.modify c f).conn i)) =
      Function.update (fun i => g (m.conn i)) c (g (f (m.conn c))) := by
  funext i
  by_cases hi : i = c
  · rw [hi, conn_modify_self, Function.update_self]
  · rw [conn_modify_of_ne hi, Function.update_of_ne hi]

theorem field_modify_same {α : Type} (g : Connection → α) (h : g (f (m.conn c)) = g (m.conn c)) :
    (fun i => g ((m.modify c f).conn i)) = fun i => g (m.conn i) := by
  rw [field_modify, h, Function.update_eq_self]

theorem heap_modify (hn : (f (m.conn c)).nextconn = (m.conn c).nextconn)
    (hp : (f (m.conn c)).prevconn = (m.conn c).prevconn) : (m.modify c f).heap = m.heap := by
  unfold heap next prev
  rw [field_modify_same Connection.nextconn hn, field_modify_same Connection.prevconn hp]
  rfl

theorem rest_modify (h : (f (m.conn c)).data = (m.conn c).data) : (m.modify c f).rest = m.rest := by
  unfold rest
  rw [field_modify_same Connection.data h]
  rfl

@[simp] theorem next_setNext : (m.setNext c v).next = Function.update m.next c v :=
  field_modify Connection.nextconn

@[simp] theorem next_setPrev : (m.setPrev c v).next = m.next :=
  field_modify_same Connection.nextconn rfl

@[simp] theorem next_setState : (m.setState c s).next = m.next :=
  field_modify_same Connection.nextconn rfl

@[simp] theorem prev_setPrev : (m.setPrev c v).prev = Function.update m.prev c v :=
  field_modify Connection.prevconn

@[simp] theorem prev_setNext : (m.setNext c v).prev = m.prev :=
  field_modify_same Connection.prevconn rfl

@[simp] theorem prev_setState : (m.setState c s).prev = m.prev :=
  field_modify_same Connection.prevconn rfl

@[simp] theorem stateOf_setState : (m.setState c s).stateOf = Function.update m.stateOf c s :=
  field_modify Connection.state

@[simp] theorem stateOf_setNext : (m.setNext c v).stateOf = m.stateOf :=
  field_modify_same Connection.state rfl

@[simp] theorem stateOf_setPrev : (m.setPrev c v).stateOf = m.stateOf :=
  field_modify_same Connection.state rfl

@[simp] theorem pendOf_setNext : (m.setNext c v).pendOf = m.pendOf :=
  field_modify_same Connection.connPendlist rfl

@[simp] theorem pendOf_setPrev : (m.setPrev c v).pendOf = m.pendOf :=
  field_modify_same Connection.connPendlist rfl

@[simp] theorem pendOf_setState : (m.setState c s).pendOf = m.pendOf :=
  field_modify_same Connection.connPendlist rfl

@[simp] theorem magicOf_setNext : (m.setNext c v).magicOf = m.magicOf :=
  field_modify_same Connection.magic rfl

@[simp] theorem magicOf_setPrev : (m.setPrev c v).magicOf = m.magicOf :=
  field_modify_same Connection.magic rfl

@[simp] theorem magicOf_setState : (m.setState c s).magicOf = m.magicOf :=
  field_modify_same Connection.magic rfl

@[simp] theorem next_setPendlist : (m.setPendlist c p).next = m.next :=
  field_modify_same Connection.nextconn rfl

@[simp] theorem prev_setPendlist : (m.setPendlist c p).prev = m.prev :=
  field_modify_same Connection.prevconn rfl

@[simp] theorem stateOf_setPendlist : (m.setPendlist c p).stateOf = m.stateOf :=
  field_modify_same Connection.state rfl

@[simp] theorem pendOf_setPendlist : (m.setPendlist c p).pendOf = Function.update m.pendOf c p :=
  field_modify Connection.connPendlist

@[simp] theorem magicOf_setPendlist : (m.setPendlist c p).magicOf = m.magicOf :=
  field_modify_same Connection.magic rfl

@[simp] theorem next_setMagic : (m.setMagic c).next = m.next :=
  field_modify_same Connection.nextconn rfl

@[simp] theorem prev_setMagic : (m.setMagic c).prev = m.prev :=
  field_modify_same Connection.prevconn rfl

@[simp] theorem stateOf_setMagic : (m.setMagic c).stateOf = m.stateOf :=
  field_modify_same Connection.state rfl

@[simp] theorem pendOf_setMagic : (m.setMagic c).pendOf = m.pendOf :=
  field_modify_same Connection.connPendlist rfl

@[simp] theorem magicOf_setMagic : (m.setMagic c).magicOf = Function.update m.magicOf c true :=
  field_modify Connection.magic

@[simp] theorem rest_setPendlist : (m.setPendlist c p).rest = m.rest := rest_modify rfl

@[simp] theorem rest_setMagic : (m.setMagic c).rest = m.rest := rest_modify rfl

@[simp] theorem head_setPendlist : (m.setPendlist c p).head = m.head := rfl

@[simp] theorem head_setMagic : (m.setMagic c).head = m.head := rfl

@[simp] theorem rest_setNext : (m.setNext c v).rest = m.rest := rest_modify rfl

@[simp] theorem rest_setPrev : (m.setPrev c v).rest = m.rest := rest_modify rfl

@[simp] theorem rest_setState : (m.setState c s).rest = m.rest := rest_modify rfl

@[simp] theorem head_modify : (m.modify c f).head = m.head := rfl

@[simp] theorem head_setNext : (m.setNext c v).head = m.head := rfl

@[simp] theorem head_setPrev : (m.setPrev c v).head = m.head := rfl

@[simp] theorem head_setState : (m.setState c s).head = m.head := rfl

@[simp] theorem head_setPendHead :
    (m.setPendHead k v).head = Function.update m.head (.pend k) v := by
  funext p
  cases p <;> simp [head, setPendHead, Function.update_apply]

@[simp] theorem head_setFreeHead : (m.setFreeHead v).head = Function.update m.head .free v := by
  funext p
  cases p <;> simp [head, setFreeHead]

@[simp] theorem next_setFreeHead : (m.setFreeHead v).next = m.next := rfl

@[simp] theorem prev_setFreeHead : (m.setFreeHead v).prev = m.prev := rfl

@[simp] theorem stateOf_setFreeHead : (m.setFreeHead v).stateOf = m.stateOf := rfl

@[simp] theorem pendOf_setFreeHead : (m.setFreeHead v).pendOf = m.pendOf := rfl

@[simp] theorem magicOf_setFreeHead : (m.setFreeHead v).magicOf = m.magicOf := rfl

@[simp] theorem rest_setFreeHead : (m.setFreeHead v).rest = m.rest := rfl

@[simp] theorem next_setPendHead : (m.setPendHead k v).next = m.next := rfl

@[simp] theorem prev_setPendHead : (m.setPendHead k v).prev = m.prev := rfl

@[simp] theorem stateOf_setPendHead : (m.setPendHead k v).stateOf = m.stateOf := rfl

@[simp] theorem pendOf_setPendHead : (m.setPendHead k v).pendOf = m.pendOf := rfl

@[simp] theorem magicOf_setPendHead : (m.setPendHead k v).magicOf = m.magicOf := rfl

@[simp] theorem rest_setPendHead : (m.setPendHead k v).rest = m.rest := rfl

@[simp] theorem next_setActiveHead : (m.setActiveHead k v).next = m.next := rfl

@[simp] theorem prev_setActiveHead : (m.setActiveHead k v).prev = m.prev := rfl

@[simp] theorem stateOf_setActiveHead : (m.setActiveHead k v).stateOf = m.stateOf := rfl

@[simp] theorem pendOf_setActiveHead : (m.setActiveHead k v).pendOf = m.pendOf := rfl

@[simp] theorem magicOf_setActiveHead : (m.setActiveHead k v).magicOf = m.magicOf := rfl

@[simp] theorem rest_setActiveHead : (m.setActiveHead k v).rest = m.rest := rfl

@[simp] theorem head_setActiveHead :
    (m.setActiveHead k v).head = Function.update m.head (.active k) v := by
  funext p
  cases p <;> simp [head, setActiveHead, Function.update_apply]

@[simp] theorem next_setPrevAt (h : Option Nat) : (m.setPrevAt h v).next = m.next := by
  cases h <;> simp [setPrevAt]

@[simp] theorem prev_setPrevAt (h : Option Nat) :
    (m.setPrevAt h (some c)).prev = pushPrev m.prev h c := by
  cases h <;> simp [setPrevAt, pushPrev]

@[simp] theorem head_setPrevAt (h : Option Nat) : (m.setPrevAt h v).head = m.head := by
  cases h <;> simp [setPrevAt]

@[simp] theorem stateOf_setPrevAt (h : Option Nat) : (m.setPrevAt h v).stateOf = m.stateOf := by
  cases h <;> simp [setPrevAt]

@[simp] theorem pendOf_setPrevAt (h : Option Nat) : (m.setPrevAt h v).pendOf = m.pendOf := by
  cases h <;> simp [setPrevAt]

@[simp] theorem magicOf_setPrevAt (h : Option Nat) : (m.setPrevAt h v).magicOf = m.magicOf := by
  cases h <;> simp [setPrevAt]

@[simp] theorem rest_setPrevAt (h : Option Nat) : (m.setPrevAt h v).rest = m.rest := by
  cases h <;> simp [setPrevAt]

@[simp] theorem prev_setNextAt (h : Option Nat) : (m.setNextAt h v).prev = m.prev := by
  cases h <;> simp [setNextAt]

@[simp] theorem head_setNextAt (h : Option Nat) : (m.setNextAt h v).head = m.head := by
  cases h <;> simp [setNextAt]

@[simp] theorem stateOf_setNextAt (h : Option Nat) : (m.setNextAt h v).stateOf = m.stateOf := by
  cases h <;> simp [setNextAt]

@[simp] theorem pendOf_setNextAt (h : Option Nat) : (m.setNextAt h v).pendOf = m.pendOf := by
  cases h <;> simp [setNextAt]

@[simp] theorem magicOf_setNextAt (h : Option Nat) : (m.setNextAt h v).magicOf = m.magicOf := by
  cases h <;> simp [setNextAt]

@[simp] theorem rest_setNextAt (h : Option Nat) : (m.setNextAt h v).rest = m.rest := by
  cases h <;> simp [setNextAt]

@[simp] theorem next_bypass : (m.bypass c).next = unlinkNext m.next m.prev c := by
  change ((m.setPrevAt (m.next c) (m.prev c)).setNextAt (m.prev c) (m.next c)).next = _
  unfold unlinkNext
  cases m.prev c <;> simp [setNextAt]

@[simp] theorem prev_bypass : (m.bypass c).prev = unlinkPrev m.next m.prev c := by
  change ((m.setPrevAt (m.next c) (m.prev c)).setNextAt (m.prev c) (m.next c)).prev = _
  rw [prev_setNextAt]
  unfold unlinkPrev
  cases m.next c <;> simp [setPrevAt]

@[simp] theorem head_bypass : (m.bypass c).head = m.head := by simp [bypass]

@[simp] theorem stateOf_bypass : (m.bypass c).stateOf = m.stateOf := by simp [bypass]

@[simp] theorem pendOf_bypass : (m.bypass c).pendOf = m.pendOf := by simp [bypass]

@[simp] theorem magicOf_bypass : (m.bypass c).magicOf = m.magicOf := by simp [bypass]

@[simp] theorem rest_bypass : (m.bypass c).rest = m.rest := by simp [bypass]

end MyContext

open MyContext

variable {m m' : MyContext} {c : Nat} {k a p : Link}

theorem putOnPendingList_heap (m : MyContext) (c : Nat) (k : Link) :
    (putOnPendingList m c k).heap = m.heap.push (.pend k) c := by
  unfold putOnPendingList heap Heap.push
  ext1 <;> simp [head]

theorem putOnPendingList_stateOf (m : MyContext) (c : Nat) (k : Link) :
    (putOnPendingList m c k).stateOf = Function.update m.stateOf c .pending := by
  simp [putOnPendingList]

theorem putOnPendingList_pendOf (m : MyContext) (c : Nat) (k : Link) :
    (putOnPendingList m c k).pendOf = Function.update m.pendOf c (some k) := by
  simp [putOnPendingList]

theorem putOnPendingList_magicOf (m : MyContext) (c : Nat) (k : Link) :
    (putOnPendingList m c k).magicOf = m.magicOf := by
  simp [putOnPendingList]

theorem putOnPendingList_rest (m : MyContext) (c : Nat) (k : Link) :
    (putOnPendingList m c k).rest = m.rest := by
  simp [putOnPendingList]

/-- What `connection_activate` does to the table, with the lists that `c` points at. -/
structure Activated (m : MyContext) (c : Nat) (a p : Link) (m' : MyContext) : Prop where
  activeOf : (m.conn c).connActivelist = some a
  pendOf : m.pendOf c = some p
  heap : m'.heap =
    { next := Function.update (unlinkNext m.next m.prev c) c (m.head (.active a))
      prev := Function.update (pushPrev (unlinkPrev m.next m.prev c) (m.head (.active a)) c) c none
      head := Function.update
        (if m.head (.pend p) = some c then Function.update m.head (.pend p) (m.next c) else m.head)
        (.active a) (some c) }
  state : m'.stateOf = Function.update m.stateOf c .active
  pend : m'.pendOf = m.pendOf
  magic : m'.magicOf = m.magicOf
  rest : m'.rest = m.rest

theorem connectionActivate_spec (h : connectionActivate m c = some m') :
    ∃ a p, Activated m c a p m' := by
  obtain ⟨a, ha, h⟩ := Option.bind_eq_some_iff.mp h
  obtain ⟨p, hp, h⟩ := Option.bind_eq_some_iff.mp h
  have hhead : (m.bypass c).connPendlist p = m.head (.pend p) :=
    congrFun (head_bypass (m := m) (c := c)) (.pend p)
  dsimp only at h
  rw [hhead] at h
  by_cases hc : m.head (.pend p) = some c
  · rw [if_pos hc] at h
    cases Option.some.inj h
    refine ⟨a, p, ⟨ha, hp, ?_, by simp, by simp, by simp, by simp⟩⟩
    rw [if_pos hc]
    ext1
    · simp [MyContext.heap, MyContext.head]
    · simp [MyContext.heap, MyContext.head]
    · simp only [MyContext.heap, head_setActiveHead, head_setState, head_setNext, head_setPrev,
        head_setPrevAt, head_setPendHead, head_bypass]
      rfl
  · rw [if_neg hc] at h
    cases Option.some.inj h
    refine ⟨a, p, ⟨ha, hp, ?_, by simp, by simp, by simp, by simp⟩⟩
    rw [if_neg hc]
    ext1 <;> simp [MyContext.heap, MyContext.head]

/-- The list heads once `connection_free` has taken a context off its list. -/
inductive HeadsAfter (m : MyContext) (c : Nat) : (Place → Option Nat) → Prop
  | inside : m.prev c ≠ none → HeadsAfter m c m.head
  | active (k : Link) : m.prev c = none → m.head (.active k) = some c →
    HeadsAfter m c (Function.update m.head (.active k) (m.next c))
  | pend (k : Link) : m.prev c = none → m.head (.pend k) = some c →
    HeadsAfter m c (Function.update m.head (.pend k) (m.next c))
  | abort (k p : Link) : m.prev c = none → m.head (.abort k) = some c →
    HeadsAfter m c (Function.update m.head (.pend p) (m.next c))
  | unlisted : m.prev c = none →
    (∀ k, (m.conn c).connActivelist = some k → m.head (.active k) ≠ some c) →
    (∀ k, m.pendOf c = some k → m.head (.pend k) ≠ some c) → HeadsAfter m c m.head

/-- The head update touches nothing but a head. -/
structure HeadsOnly (m m' : MyContext) : Prop where
  next : m'.next = m.next
  prev : m'.prev = m.prev
  state : m'.stateOf = m.stateOf
  pend : m'.pendOf = m.pendOf
  magic : m'.magicOf = m.magicOf
  rest : m'.rest = m.rest

theorem freeFromHead_spec (h : freeFromHead m c = some m') :
    HeadsAfter m c m'.head ∧ HeadsOnly m m' := by
  unfold freeFromHead at h
  split at h
  next hp =>
    cases Option.some.inj h
    exact ⟨.inside hp, rfl, rfl, rfl, rfl, rfl, rfl⟩
  next hp =>
    have hp : m.prev c = none := not_not.mp hp
    obtain ⟨a, ha, h⟩ := Option.bind_eq_some_iff.mp h
    split at h
    next hc =>
      cases Option.some.inj h
      refine ⟨?_, rfl, rfl, rfl, rfl, rfl, rfl⟩
      rw [head_setActiveHead]
      exact .active a hp hc
    next hna =>
      obtain ⟨p, hpd, h⟩ := Option.bind_eq_some_iff.mp h
      split at h
      next hc =>
        cases Option.some.inj h
        refine ⟨?_, rfl, rfl, rfl, rfl, rfl, rfl⟩
        rw [head_setPendHead]
        exact .pend p hp hc
      next hnp =>
        obtain ⟨b, hb, h⟩ := Option.bind_eq_some_iff.mp h
        split at h
        next hc =>
          cases Option.some.inj h
          refine ⟨?_, rfl, rfl, rfl, rfl, rfl, rfl⟩
          rw [head_setPendHead]
          exact .abort b p hp hc
        next =>
          cases Option.some.inj h
          refine ⟨.unlisted hp (fun k hk he => ?_) (fun k hk he => ?_), rfl, rfl, rfl, rfl, rfl, rfl⟩
          · rw [ha] at hk
            cases hk
            exact hna he
          · have hk' : (m.conn c).connPendlist = some k := hk
            rw [hpd] at hk'
            cases hk'
            exact hnp he

/-- What `connection_free` does, `heads` being the list heads before the context goes to the free
list. -/
structure Freed (m : MyContext) (c : Nat) (heads : Place → Option Nat) (m' : MyContext) : Prop where
  after : HeadsAfter m c heads
  heap : m'.heap =
    { next := Function.update (unlinkNext m.next m.prev c) c (heads .free)
      prev := Function.update (unlinkPrev m.next m.prev c) c none
      head := Function.update heads .free (some c) }
  state : m'.stateOf = Function.update m.stateOf c .free
  pend : m'.pendOf = m.pendOf
  magic : m'.magicOf = Function.update m.magicOf c true
  rest : m'.rest = m.rest

theorem connActivelist_of_rest (h : m'.rest = m.rest) (i : Nat) :
    (m'.conn i).connActivelist = (m.conn i).connActivelist :=
  congrArg (fun r => (r.conn i).connActivelist) h

theorem unlinkPrev_self {next prev : Nat → Option Nat} : unlinkPrev next prev c c = prev c := by
  by_cases hn : next c = some c
  · exact unlinkPrev_of_eq hn
  · exact unlinkPrev_of_ne hn

theorem unlinkNext_self {next prev : Nat → Option Nat} : unlinkNext next prev c c = next c := by
  by_cases hp : prev c = some c
  · exact unlinkNext_of_eq hp
  · exact unlinkNext_of_ne hp

/-- Marking a context free and bypassing it does not change which head is to be written. -/
theorem HeadsAfter.of_bypass {heads : Place → Option Nat}
    (h : HeadsAfter ((m.setState c .free).bypass c) c heads) : HeadsAfter m c heads := by
  have hprev : ((m.setState c .free).bypass c).prev c = m.prev c := by simp [unlinkPrev_self]
  have hnext : ((m.setState c .free).bypass c).next c = m.next c := by simp [unlinkNext_self]
  have hhead : ((m.setState c .free).bypass c).head = m.head := by simp
  have hpend : ((m.setState c .free).bypass c).pendOf = m.pendOf := by simp
  have hrest : ((m.setState c .free).bypass c).rest = m.rest := by simp
  cases h with
  | inside hp =>
    rw [hhead]
    exact .inside (hprev ▸ hp)
  | active k hp hk =>
    rw [hhead, hnext]
    exact .active k (hprev ▸ hp) (hhead ▸ hk)
  | pend k hp hk =>
    rw [hhead, hnext]
    exact .pend k (hprev ▸ hp) (hhead ▸ hk)
  | abort k p hp hk =>
    rw [hhead, hnext]
    exact .abort k p (hprev ▸ hp) (hhead ▸ hk)
  | unlisted hp ha hpd =>
    rw [hhead] at ha hpd ⊢
    rw [hpend] at hpd
    rw [connActivelist_of_rest hrest] at ha
    exact .unlisted (hprev ▸ hp) ha hpd

theorem connectionFree_spec (h : connectionFree m c = some m') : ∃ heads, Freed m c heads m' := by
  obtain ⟨m₁, hm₁, h⟩ := Option.bind_eq_some_iff.mp h
  obtain ⟨hafter, hn, hp, hs, hd, hg, hr⟩ := freeFromHead_spec hm₁
  cases Option.some.inj h
  have hfree : (m₁.setPrev c none).connFreelist = m₁.head .free := rfl
  refine ⟨m₁.head, ⟨hafter.of_bypass, ?_, ?_, ?_, ?_, ?_⟩⟩
  · ext1 <;> simp [MyContext.heap, hn, hp, hfree]
  · simp [hs]
  · simp [hd]
  · simp [hg]
  · simp [hr]

/-- What `conn_list_getfree` does. -/
structure Taken (m : MyContext) (c t : Nat) (m' : MyContext) : Prop where
  head : m.head .free = some c
  heap : m'.heap = m.heap.pop .free c
  conn : m'.conn = Function.update m.conn c
    { m.conn c with
      myTimestamp := t, lowbitTimestamp := low16 t, nextconn := none, prevconn := none, magic := true
      memfifoSent := 0, rgetMemfifoSent := 0, injfifoCtls := 0 }
  free : m' = { m with connFreelist := m.next c, conn := m'.conn }

theorem connListGetfree_spec {t : Nat} (h : connListGetfree m t = some (c, m')) :
    Taken m c t m' := by
  unfold connListGetfree at h
  split at h
  next => cases h
  next c' hc' =>
    cases Option.some.inj h
    refine ⟨hc', ?_, rfl, rfl⟩
    unfold MyContext.heap Heap.pop
    ext1
    · exact field_modify Connection.nextconn
    · exact field_modify Connection.prevconn
    · rw [head_modify, head_setFreeHead]
      rfl

end BgqVrnic
