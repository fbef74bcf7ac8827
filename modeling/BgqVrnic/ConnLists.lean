import BgqVrnic.ConnTypes

namespace BgqVrnic

namespace MyContext

variable (m : MyContext)

/-- Write some fields of context `c`. -/
def modify (c : Nat) (f : Connection → Connection) : MyContext :=
  { m with conn := Function.update m.conn c (f (m.conn c)) }

def setNext (c : Nat) (v : Option Nat) : MyContext := m.modify c fun k => { k with nextconn := v }

def setPrev (c : Nat) (v : Option Nat) : MyContext := m.modify c fun k => { k with prevconn := v }

def setState (c : Nat) (v : ConnState) : MyContext := m.modify c fun k => { k with state := v }

def setPendlist (c : Nat) (v : Option Link) : MyContext :=
  m.modify c fun k => { k with connPendlist := v }

def setMagic (c : Nat) : MyContext := m.modify c fun k => { k with magic := true }

def setFreeHead (v : Option Nat) : MyContext := { m with connFreelist := v }

def setPendHead (k : Link) (v : Option Nat) : MyContext :=
  { m with connPendlist := Function.update m.connPendlist k v }

def setActiveHead (k : Link) (v : Option Nat) : MyContext :=
  { m with connActivelist := Function.update m.connActivelist k v }

/-- `if (p != NULL) p->nextconn = v` -/
def setNextAt (p v : Option Nat) : MyContext :=
  match p with
  | some i => m.setNext i v
  | none => m

/-- `if (p != NULL) p->prevconn = v` -/
def setPrevAt (p v : Option Nat) : MyContext :=
  match p with
  | some i => m.setPrev i v
  | none => m

/-- The two statements that take `c` out of its list by the links of its neighbours. -/
def bypass (c : Nat) : MyContext :=
  let next := (m.conn c).nextconn
  let prev := (m.conn c).prevconn
  (m.setPrevAt next prev).setNextAt prev next

end MyContext

/-- `conn_list_init`: the table is freshly zeroed memory, threaded into the free list. -/
def connListInit (m : MyContext) (maxConnections : Nat) : MyContext :=
  { m with
    maxConnections := maxConnections
    conn := fun i =>
      if i < maxConnections then
        { (default : Connection) with
          myIndex := i % 2 ^ 16
          state := .free
          nextconn := if i + 1 < maxConnections then some (i + 1) else none
          prevconn := none }
      else default
    connFreelist := some 0
    connPendlist := fun _ => none
    connActivelist := fun _ => none
    connAbortlist := fun _ => none }

def putOnPendingList (m : MyContext) (c : Nat) (link : Link) : MyContext :=
  let pendlist := m.connPendlist link
  let m := m.setPendlist c (some link)
  let m := m.setState c .pending
  let m := m.setPrevAt pendlist (some c)
  let m := m.setNext c pendlist
  let m := m.setPrev c none
  m.setPendHead link (some c)

/-- `conn_list_getfree`; `timeBase` is the stamp of the flight log entry it writes. -/
def connListGetfree (m : MyContext) (timeBase : Nat) : Option (Nat × MyContext) :=
  match m.connFreelist with
  | none => none
  | some c =>
    let m := m.setFreeHead (m.conn c).nextconn
    some (c, m.modify c fun k =>
      { k with
        myTimestamp := timeBase
        lowbitTimestamp := low16 timeBase
        nextconn := none
        prevconn := none
        magic := true
        memfifoSent := 0
        rgetMemfifoSent := 0
        injfifoCtls := 0 })

/-- `connection_activate`; `none` is the fault on a list pointer that was never set. -/
def connectionActivate (m : MyContext) (c : Nat) : Option MyContext := do
  let activelist ← (m.conn c).connActivelist
  let pendlist ← (m.conn c).connPendlist
  let next := (m.conn c).nextconn
  let active := m.connActivelist activelist
  let m := m.bypass c
  let m := if m.connPendlist pendlist = some c then m.setPendHead pendlist next else m
  let m := m.setPrevAt active (some c)
  let m := m.setPrev c none
  let m := m.setNext c active
  let m := m.setState c .active
  some (m.setActiveHead activelist (some c))

/-- The head update of `connection_free`, for a context without predecessor. -/
def freeFromHead (m : MyContext) (c : Nat) : Option MyContext :=
  if (m.conn c).prevconn ≠ none then some m
  else do
    let activelist ← (m.conn c).connActivelist
    if m.connActivelist activelist = some c then
      some (m.setActiveHead activelist (m.conn c).nextconn)
    else
      let pendlist ← (m.conn c).connPendlist
      if m.connPendlist pendlist = some c then
        some (m.setPendHead pendlist (m.conn c).nextconn)
      else
        let abortlist ← (m.conn c).connAbortlist
        -- the source updates the pending head here, not the abort head
        if m.connAbortlist abortlist = some c then
          some (m.setPendHead pendlist (m.conn c).nextconn)
        else some m

/-- `connection_free` on a context that carries the magic number. -/
def connectionFree (m : MyContext) (c : Nat) : Option MyContext := do
  let m ← freeFromHead ((m.setState c .free).bypass c) c
  let m := m.setPrev c none
  let m := m.setNext c m.connFreelist
  let m := m.setFreeHead (some c)
  some (m.setMagic c)

end BgqVrnic
