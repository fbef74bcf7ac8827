import BgqVrnic.ConnSteps

namespace BgqVrnic

/-- `disconnect_request` up to its callback, on the memory that the context table is part of: the
index is compared with nothing, and `m.conn` behind `max_connections` is what lies there. -/
def disconnectRequestUnchecked (m : MyContext) (hdr : IonetHeader) :
    Option (MyContext × Int × Option Nat) :=
  let c := hdr.sequenceNumber
  if (m.conn c).magic = false then some (m, -EFAULT, none)
  else if hdr.payloadLength ≠ (m.conn c).lowbitTimestamp then some (m, -EINVAL, none)
  else if (m.conn c).state = .free then some (m, -ENOTCONN, none)
  else if (m.conn c).state = .disconnecting then some (m, -ECONNRESET, none)
  else do
    let m ← connectionFree (m.setState c .disconnecting) c
    some (m, 0, some c)

namespace MyContext

/-- The same table with other memory behind it. -/
def behind (m : MyContext) (memory : Nat → Connection) : MyContext :=
  { m with conn := fun i => if i < m.maxConnections then m.conn i else memory i }

end MyContext

/-- A table of `n` contexts, behind which nothing carries the magic number. -/
structure Unmarked (n : Nat) (m : MyContext) : Prop extends Tabled n m where
  unmarked : ∀ i, n ≤ i → (m.conn i).magic = false

/-- The index of the header is that of a context in the table, and its key and the state of the
context are those of a connection that is coming up or up. -/
structure Designates (m : MyContext) (hdr : IonetHeader) : Prop where
  index : hdr.sequenceNumber < m.maxConnections
  magic : (m.conn hdr.sequenceNumber).magic = true
  key : hdr.payloadLength = (m.conn hdr.sequenceNumber).lowbitTimestamp
  state : (m.conn hdr.sequenceNumber).state = .pending ∨ (m.conn hdr.sequenceNumber).state = .active

/-- The packet is handled within the table, whatever lies behind it, and a header that designates no
live connection is refused. -/
structure HandledInTable (m : MyContext) (hdr : IonetHeader) : Prop where
  confined : ∀ memory, disconnectRequestUnchecked (m.behind memory) hdr =
    (disconnectRequestUnchecked m hdr).map fun r => (r.1.behind memory, r.2)
  refused : ¬ Designates m hdr → ∃ rc < 0, disconnectRequestUnchecked m hdr = some (m, rc, none)

/-- The header has the key of a context that is aborted or orphaned. -/
structure NamesDeadContext (m : MyContext) (hdr : IonetHeader) : Prop where
  magic : (m.conn hdr.sequenceNumber).magic = true
  key : hdr.payloadLength = (m.conn hdr.sequenceNumber).lowbitTimestamp
  state : (m.conn hdr.sequenceNumber).state = .aborted ∨
    (m.conn hdr.sequenceNumber).state = .orphaned

open Runs

variable {m m' : MyContext} {hdr : IonetHeader} {memory : Nat → Connection} {c i n : Nat}
  {f : Connection → Connection} {v : Option Nat} {k : Link}

/-- Where nothing behind the table carries the magic number, the missing check makes no difference. -/
theorem disconnectRequest_eq_unchecked (h : ∀ i, m.maxConnections ≤ i → (m.conn i).magic = false) :
    disconnectRequestUnchecked m hdr = disconnectRequest m hdr := by
  unfold disconnectRequestUnchecked disconnectRequest
  dsimp only
  by_cases hmagic : (m.conn hdr.sequenceNumber).magic = false
  · rw [if_pos hmagic, if_pos (Or.inr hmagic)]
  · have hin : ¬ m.maxConnections ≤ hdr.sequenceNumber := fun hle => hmagic (h _ hle)
    rw [if_neg hmagic, if_neg (not_or.mpr ⟨hin, hmagic⟩)]

namespace Unmarked

theorem of_magicOf (h : Unmarked n m) (ht : Tabled n m') (hm : m'.magicOf = m.magicOf) : Unmarked n m' :=
  ⟨ht, fun i hi => (congrFun hm i).trans (h.unmarked i hi)⟩

/-- A step works on a context of the table, if it gets as far as to change one. -/
theorem connStep {x : ConnInput} (h : Unmarked n m) (hs : connStep m x = some m') : Unmarked n m' := by
  refine ⟨h.toTabled.connStep hs, fun i hi => ?_⟩
  have hin : ¬ i < n := Nat.not_lt.mpr hi
  rcases connStep_writes hs with rfl | ⟨c, k, hc, hwrites, -⟩
  · exact h.unmarked i hi
  by_cases hne : i = c
  · subst hne
    cases x with
    | connect env destNode req => exact absurd (h.inside.head .free i hc) hin
    | request t pkt => exact absurd (h.inside.head .free i hc) hin
    | connReply env d reply =>
      cases Option.some.inj hc
      dsimp only [BgqVrnic.connStep] at hs
      split at hs
      next hd => exact absurd (h.size ▸ hd) hin
      next => cases hs
    | disconnect env d =>
      cases Option.some.inj hc
      dsimp only [BgqVrnic.connStep] at hs
      split at hs
      next hd => exact absurd (h.size ▸ hd) hin
      next => cases hs
    | reply pkt =>
      have hctx : replyContext m pkt = some i := hc
      unfold replyContext at hctx
      split at hctx
      next hd =>
        cases Option.some.inj hctx
        exact absurd (h.size ▸ hd.1) hin
      next => cases hctx
    | disconnected hdr =>
      cases Option.some.inj hc
      obtain ⟨y, hy, rfl⟩ := Option.map_eq_some_iff.mp hs
      rcases disconnectRequest_writes hy with ⟨-, hsame⟩ | ⟨-, -, hd, -⟩
      · rw [hsame]
        exact h.unmarked _ hi
      · exact absurd (h.size ▸ hd) hin
  · exact (field_of_unlinked Connection.magic (hwrites.other hne) fun _ => rfl).trans (h.unmarked i hi)

theorem walkConns_magicOf {visit : Connection → Connection} {head : Option Nat} {l : List Nat}
    {fuel : Nat} (hw : walkConns visit fuel head m = some (m', l)) (hv : ∀ x, (visit x).magic = x.magic) :
    m'.magicOf = m.magicOf := by
  induction fuel generalizing head m l with
  | zero =>
    cases head with
    | none =>
      cases Option.some.inj hw
      rfl
    | some c => cases hw
  | succ fuel ih =>
    cases head with
    | none =>
      cases Option.some.inj hw
      rfl
    | some c =>
      obtain ⟨⟨m₁, l₁⟩, hw₁, hw⟩ := Option.bind_eq_some_iff.mp hw
      cases Option.some.inj hw
      exact (ih hw₁).trans (MyContext.field_modify_same Connection.magic (hv _))

/-- The loops of a reset leave the magic numbers alone. -/
theorem resetLink_magicOf {x : MyContext × List (Nat × IonetHeader)} (hr : resetLink m k = some x) :
    x.1.magicOf = m.magicOf := by
  obtain ⟨m₁, hm₁, hr⟩ := Option.bind_eq_some_iff.mp hr
  obtain ⟨⟨m₂, i⟩, hm₂, hr⟩ := Option.bind_eq_some_iff.mp hr
  have hactive : m₁.magicOf = m.magicOf := by
    obtain ⟨y, hw, hm₁⟩ := Option.bind_eq_some_iff.mp hm₁
    cases Option.some.inj hm₁
    exact walkConns_magicOf hw fun _ => rfl
  have hpending : m₂.magicOf = m₁.magicOf := by
    obtain ⟨⟨y, l⟩, hw, hm₂⟩ := Option.bind_eq_some_iff.mp hm₂
    have hwalk := walkConns_magicOf hw fun _ => rfl
    dsimp only at hm₂
    split at hm₂
    · cases Option.some.inj hm₂
      exact hwalk
    · cases Option.some.inj hm₂
      exact MyContext.magicOf_setNext.trans hwalk
  obtain ⟨⟨y, l⟩, hw, hr⟩ := Option.bind_eq_some_iff.mp hr
  have hflushed := (walkConns_magicOf hw fun _ => rfl).trans (hpending.trans hactive)
  dsimp only at hr
  split at hr
  · cases Option.some.inj hr
    exact hflushed
  · cases Option.some.inj hr
    exact MyContext.magicOf_setNext.trans hflushed

theorem step {i : TableInput} (h : Unmarked n m) (hs : tableStep m i = some m') : Unmarked n m' := by
  cases i with
  | conn x => exact h.connStep hs
  | reset k =>
    have ht := h.toTabled.step hs
    obtain ⟨x, hx, rfl⟩ := Option.map_eq_some_iff.mp hs
    exact h.of_magicOf ht (resetLink_magicOf hx)

theorem of_run (is : List TableInput) (hn : 0 < n)
    (hr : run tableStep (connListInit m n) is = some m') : Unmarked n m' := by
  refine run_preserves (fun _ _ _ => step) ⟨Tabled.init hn, fun i hi => ?_⟩ hr
  have hbehind : (connListInit m n).conn i = default := if_neg (Nat.not_lt.mpr hi)
  rw [hbehind]
  rfl

end Unmarked

/-- In every run of calls, packets and resets, the missing check makes no difference. -/
theorem disconnectRequest_of_run (is : List TableInput) (hn : 0 < n)
    (hr : run tableStep (connListInit m n) is = some m') :
    disconnectRequestUnchecked m' hdr = disconnectRequest m' hdr := by
  have h := Unmarked.of_run is hn hr
  exact disconnectRequest_eq_unchecked fun i hi => h.unmarked i (h.size ▸ hi)

namespace MyContext

theorem conn_behind (hi : i < m.maxConnections) : (m.behind memory).conn i = m.conn i := if_pos hi

theorem conn_behind_of_le (hi : m.maxConnections ≤ i) : (m.behind memory).conn i = memory i :=
  if_neg (Nat.not_lt.mpr hi)

theorem behind_self : m.behind m.conn = m := by
  unfold behind
  simp only [ite_self]

theorem modify_behind (hc : c < m.maxConnections) :
    (m.behind memory).modify c f = (m.modify c f).behind memory := by
  have hconn : ((m.behind memory).modify c f).conn = ((m.modify c f).behind memory).conn := by
    funext i
    by_cases hi : i = c
    · subst hi
      rw [conn_modify_self, conn_behind hc]
      exact (conn_modify_self.symm.trans (conn_behind (m := m.modify i f) hc).symm)
    · rw [conn_modify_of_ne hi]
      unfold behind
      dsimp only
      rw [conn_modify_of_ne hi]
      rfl
  exact congrArg (fun g => { m with conn := g }) hconn

theorem setNextAt_behind (hv : ∀ c, v = some c → c < m.maxConnections) (w : Option Nat) :
    (m.behind memory).setNextAt v w = (m.setNextAt v w).behind memory := by
  cases v with
  | none => rfl
  | some c => exact modify_behind (f := fun k => { k with nextconn := w }) (hv c rfl)

theorem setPrevAt_behind (hv : ∀ c, v = some c → c < m.maxConnections) (w : Option Nat) :
    (m.behind memory).setPrevAt v w = (m.setPrevAt v w).behind memory := by
  cases v with
  | none => rfl
  | some c => exact modify_behind (f := fun k => { k with prevconn := w }) (hv c rfl)

theorem maxConnections_setPrevAt (w : Option Nat) :
    (m.setPrevAt v w).maxConnections = m.maxConnections := by
  cases v <;> rfl

theorem bypass_behind (h : Tabled m.maxConnections m) (hc : c < m.maxConnections) :
    (m.behind memory).bypass c = (m.bypass c).behind memory := by
  have hn : ∀ y, (m.conn c).nextconn = some y → y < m.maxConnections := h.inside.next c hc
  have hp : ∀ y, (m.conn c).prevconn = some y → y < m.maxConnections := h.inside.prev c hc
  unfold bypass
  dsimp only
  rw [conn_behind hc, setPrevAt_behind hn, setNextAt_behind]
  rw [maxConnections_setPrevAt]
  exact hp

end MyContext

open MyContext

/-- The heads are compared and written beside the table. -/
theorem freeFromHead_behind (hc : c < m.maxConnections) :
    freeFromHead (m.behind memory) c = (freeFromHead m c).map fun m' => m'.behind memory := by
  unfold freeFromHead
  rw [conn_behind hc]
  by_cases hp : (m.conn c).prevconn = none
  · rw [if_neg (not_not.mpr hp), if_neg (not_not.mpr hp)]
    cases (m.conn c).connActivelist with
    | none => rfl
    | some a =>
      dsimp only [Option.bind_eq_bind, Option.bind_some]
      by_cases ha : m.connActivelist a = some c
      · rw [if_pos ha, if_pos (by exact ha)]
        rfl
      · rw [if_neg ha, if_neg (by exact ha)]
        cases (m.conn c).connPendlist with
        | none => rfl
        | some b =>
          dsimp only [Option.bind_some]
          by_cases hb : m.connPendlist b = some c
          · rw [if_pos hb, if_pos (by exact hb)]
            rfl
          · rw [if_neg hb, if_neg (by exact hb)]
            cases (m.conn c).connAbortlist with
            | none => rfl
            | some d =>
              dsimp only [Option.bind_some]
              by_cases hd : m.connAbortlist d = some c
              · rw [if_pos hd, if_pos (by exact hd)]
                rfl
              · rw [if_neg hd, if_neg (by exact hd)]
                rfl
  · rw [if_pos hp, if_pos hp]
    rfl

theorem freeFromHead_max (h : freeFromHead m c = some m') :
    m'.maxConnections = m.maxConnections :=
  maxConnections_of_rest (freeFromHead_spec h).2.rest

theorem connectionFree_behind (h : Tabled m.maxConnections m) (hc : c < m.maxConnections) :
    connectionFree (m.behind memory) c = (connectionFree m c).map fun m' => m'.behind memory := by
  have h₁ : Tabled (m.setState c .free).maxConnections (m.setState c .free) := h.modify rfl rfl
  have hmax : ((m.setState c .free).bypass c).maxConnections = m.maxConnections :=
    maxConnections_of_rest (by rw [rest_bypass, rest_setState])
  unfold connectionFree
  rw [show (m.behind memory).setState c .free = (m.setState c .free).behind memory from
    modify_behind hc, bypass_behind h₁ hc, freeFromHead_behind (hmax.symm ▸ hc)]
  cases hf : freeFromHead ((m.setState c .free).bypass c) c with
  | none => rfl
  | some m₁ =>
    have hc₁ : c < m₁.maxConnections := by
      rw [freeFromHead_max hf, hmax]
      exact hc
    dsimp only [Option.map_some, Option.bind_eq_bind, Option.bind_some]
    rw [show (m₁.behind memory).setPrev c none = (m₁.setPrev c none).behind memory from
      modify_behind hc₁]
    refine congrArg some ?_
    have hnext : ((m₁.setPrev c none).behind memory).setNext c
        ((m₁.setPrev c none).behind memory).connFreelist =
          ((m₁.setPrev c none).setNext c (m₁.setPrev c none).connFreelist).behind memory :=
      modify_behind hc₁
    rw [hnext]
    exact modify_behind (m := ((m₁.setPrev c none).setNext c
      (m₁.setPrev c none).connFreelist).setFreeHead (some c)) hc₁

theorem disconnectRequest_behind (h : Tabled m.maxConnections m)
    (hc : hdr.sequenceNumber < m.maxConnections) :
    disconnectRequestUnchecked (m.behind memory) hdr =
      (disconnectRequestUnchecked m hdr).map fun r => (r.1.behind memory, r.2) := by
  unfold disconnectRequestUnchecked
  dsimp only
  rw [conn_behind hc]
  split
  · rfl
  split
  · rfl
  split
  · rfl
  split
  · rfl
  have hmark : (m.behind memory).setState hdr.sequenceNumber .disconnecting =
      (m.setState hdr.sequenceNumber .disconnecting).behind memory := modify_behind hc
  have h₁ : Tabled (m.setState hdr.sequenceNumber .disconnecting).maxConnections
      (m.setState hdr.sequenceNumber .disconnecting) := h.modify rfl rfl
  rw [hmark, connectionFree_behind h₁ hc]
  cases connectionFree (m.setState hdr.sequenceNumber .disconnecting) hdr.sequenceNumber <;> rfl

/-- What is handled in the table writes no memory behind it. -/
theorem HandledInTable.untouched {r : MyContext × Int × Option Nat} (h : HandledInTable m hdr)
    (hr : disconnectRequestUnchecked m hdr = some r) (hi : r.1.maxConnections ≤ i) :
    r.1.conn i = m.conn i := by
  have hself := h.confined m.conn
  rw [behind_self, hr] at hself
  have hr : r = (r.1.behind m.conn, r.2) := Option.some.inj hself
  have hconn : r.1.conn i = (r.1.behind m.conn).conn i := congrArg (fun x => x.1.conn i) hr
  rw [hconn, conn_behind_of_le hi]

theorem disconnectRequest_unmarked (h : (m.conn hdr.sequenceNumber).magic = false) :
    disconnectRequestUnchecked m hdr = some (m, -EFAULT, none) := if_pos h

theorem disconnectRequest_keyless (hm : (m.conn hdr.sequenceNumber).magic = true)
    (hk : hdr.payloadLength ≠ (m.conn hdr.sequenceNumber).lowbitTimestamp) :
    disconnectRequestUnchecked m hdr = some (m, -EINVAL, none) := by
  unfold disconnectRequestUnchecked
  dsimp only
  rw [if_neg (by simp [hm]), if_pos hk]

/-- Memory behind the table decides over the return value for an index that lies there. -/
theorem not_confined_of_le (h : m.maxConnections ≤ hdr.sequenceNumber) :
    ¬ ∀ memory, disconnectRequestUnchecked (m.behind memory) hdr =
      (disconnectRequestUnchecked m hdr).map fun r => (r.1.behind memory, r.2) := by
  intro hall
  let marked : Nat → Connection := fun _ =>
    { (default : Connection) with magic := true, lowbitTimestamp := hdr.payloadLength + 1 }
  have hplain := hall fun _ => default
  have hmarked := hall marked
  have hp : ((m.behind fun _ => default).conn hdr.sequenceNumber) = default := conn_behind_of_le h
  have hq : (m.behind marked).conn hdr.sequenceNumber = marked hdr.sequenceNumber :=
    conn_behind_of_le h
  rw [disconnectRequest_unmarked (by rw [hp]; rfl)] at hplain
  rw [disconnectRequest_keyless (by rw [hq]) (by rw [hq]; exact (Nat.succ_ne_self _).symm)] at hmarked
  obtain ⟨r, hr, he⟩ := Option.map_eq_some_iff.mp hplain.symm
  obtain ⟨r', hr', he'⟩ := Option.map_eq_some_iff.mp hmarked.symm
  cases Option.some.inj (hr.symm.trans hr')
  have hrc : -EFAULT = -EINVAL :=
    (congrArg (fun x => x.2.1) he).symm.trans (congrArg (fun x => x.2.1) he')
  exact absurd hrc (by decide)

/-- A context that is neither free nor disconnecting is freed for whoever has its key. -/
theorem disconnectRequest_frees (hm : (m.conn hdr.sequenceNumber).magic = true)
    (hk : hdr.payloadLength = (m.conn hdr.sequenceNumber).lowbitTimestamp)
    (hf : (m.conn hdr.sequenceNumber).state ≠ .free)
    (hd : (m.conn hdr.sequenceNumber).state ≠ .disconnecting) :
    disconnectRequestUnchecked m hdr =
      (connectionFree (m.setState hdr.sequenceNumber .disconnecting) hdr.sequenceNumber).map
        fun m' => (m', 0, some hdr.sequenceNumber) := by
  unfold disconnectRequestUnchecked
  dsimp only
  rw [if_neg (by simp [hm]), if_neg (not_not.mpr hk), if_neg hf, if_neg hd]
  cases connectionFree (m.setState hdr.sequenceNumber .disconnecting) hdr.sequenceNumber <;> rfl

/-- The index check of `connect_reply`, had `disconnect_request` made it, and the states that its own
check lets pass, decide whether a packet is handled as it has to be. -/
theorem disconnect_request_handled_iff (h : Tabled m.maxConnections m) :
    HandledInTable m hdr ↔
      hdr.sequenceNumber < m.maxConnections ∧ ¬ NamesDeadContext m hdr := by
  constructor
  · intro ht
    refine ⟨Nat.lt_of_not_le fun hle => not_confined_of_le hle ht.confined, fun hdead => ?_⟩
    have hstate : (m.conn hdr.sequenceNumber).state ≠ .free ∧
        (m.conn hdr.sequenceNumber).state ≠ .disconnecting ∧ ¬ Designates m hdr := by
      refine ⟨fun hs => ?_, fun hs => ?_, fun hlive => ?_⟩
      · simpa [hs] using hdead.state
      · simpa [hs] using hdead.state
      · rcases hlive.state with hs | hs <;> simpa [hs] using hdead.state
    obtain ⟨hfree, hdisconnecting, hlive⟩ := hstate
    obtain ⟨rc, -, hrc⟩ := ht.refused hlive
    rw [disconnectRequest_frees hdead.magic hdead.key hfree hdisconnecting] at hrc
    obtain ⟨m', -, he⟩ := Option.map_eq_some_iff.mp hrc
    cases congrArg (fun x => x.2.2) he
  · rintro ⟨hc, hdead⟩
    refine ⟨fun memory => disconnectRequest_behind h hc, fun hlive => ?_⟩
    by_cases hm : (m.conn hdr.sequenceNumber).magic = true
    · by_cases hk : hdr.payloadLength = (m.conn hdr.sequenceNumber).lowbitTimestamp
      · cases hs : (m.conn hdr.sequenceNumber).state with
        | free =>
          refine ⟨-ENOTCONN, by decide, ?_⟩
          unfold disconnectRequestUnchecked
          simp [hm, hk, hs]
        | disconnecting =>
          refine ⟨-ECONNRESET, by decide, ?_⟩
          unfold disconnectRequestUnchecked
          simp [hm, hk, hs]
        | pending => exact absurd ⟨hc, hm, hk, Or.inl hs⟩ hlive
        | active => exact absurd ⟨hc, hm, hk, Or.inr hs⟩ hlive
        | aborted => exact absurd ⟨hm, hk, Or.inl hs⟩ hdead
        | orphaned => exact absurd ⟨hm, hk, Or.inr hs⟩ hdead
      · exact ⟨-EINVAL, by decide, disconnectRequest_keyless hm hk⟩
    · exact ⟨-EFAULT, by decide, disconnectRequest_unmarked (Bool.eq_false_iff.mpr hm)⟩

/-- A disconnect header with an index and a key. -/
def disconnectHeader (index key : Nat) : IonetHeader :=
  { (default : IonetHeader) with sequenceNumber := index, payloadLength := key }

theorem disconnect_request_handled_pending :
    HandledInTable (stateAfter [.connect (upEnv 100) 5 default]) (disconnectHeader 0 100) :=
  (disconnect_request_handled_iff
    (Tabled.of_run (m := fourContexts) [.conn (.connect (upEnv 100) 5 default)]
      (by decide) rfl)).mpr
    ⟨by decide, fun h => by rcases h.state with hs | hs <;> cases hs⟩

/-- A table of one context, and behind it what looks like a connection that is up. -/
def oneContext : MyContext :=
  (connListInit fourContexts 1).behind fun _ =>
    { (default : Connection) with
      magic := true
      state := .active
      connActivelist := some 0
      connPendlist := some 0
      connAbortlist := some 0 }

/-- The packet with index 1 puts the memory behind the table onto the free list. -/
theorem disconnect_request_leaves_table :
    ¬ HandledInTable oneContext (disconnectHeader 1 0) ∧
      ∃ m, disconnectRequestUnchecked oneContext (disconnectHeader 1 0) = some (m, 0, some 1) ∧
        oneContext.maxConnections = 1 ∧ m.connFreelist = some 1 ∧
        (oneContext.conn 1).state = .active ∧ (m.conn 1).state = .free := by
  refine ⟨fun h => not_confined_of_le (by decide) h.confined, _, rfl, rfl, rfl, rfl, rfl⟩

end BgqVrnic
