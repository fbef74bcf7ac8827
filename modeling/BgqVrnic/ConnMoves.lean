import BgqVrnic.ConnRuns

namespace BgqVrnic

open Intrusive MyContext

/-- `connection_free` with its checks; `none` is the fault on a list pointer that was never set. -/
def connectionFreeCall (m : MyContext) : Option Nat → Option (MyContext × Int)
  | none => some (m, -EFAULT)
  | some c =>
    if (m.conn c).magic = false then some (m, -EFAULT)
    else (connectionFree m c).map fun m' => (m', 0)

/-- Context `c` has gone from the list at `p` to the front of the one at `q`: the lists are what they
were without it there and with it here, and besides links the step writes the state of `c` only. -/
structure Rehung (m m' : MyContext) (L : Place → List Nat) (p q : Place) (c : Nat) (s : ConnState) :
    Prop where
  family : Family Place.kind m'.heap (move L p q c)
  state : m'.stateOf = Function.update m.stateOf c s
  pend : m'.pendOf = m.pendOf
  magic : m'.magicOf = m.magicOf
  rest : m'.rest = m.rest

variable {m m' : MyContext} {L : Place → List Nat} {c : Nat} {p : Place} {k a b : Link}

theorem connectionActivate_some (ha : (m.conn c).connActivelist = some a)
    (hb : (m.conn c).connPendlist = some b) : ∃ m', connectionActivate m c = some m' := by
  unfold connectionActivate
  rw [ha, hb]
  exact ⟨_, rfl⟩

/-- The head update reads no list pointer past the one whose list the context is the first of. -/
theorem freeFromHead_some (ha : (m.conn c).connActivelist = some a)
    (hfirst : m.prev c ≠ none ∨ m.head (.active a) = some c ∨
      ∃ b, m.pendOf c = some b ∧ m.head (.pend b) = some c) :
    ∃ m', freeFromHead m c = some m' := by
  unfold freeFromHead
  by_cases hprev : (m.conn c).prevconn ≠ none
  · rw [if_pos hprev]
    exact ⟨_, rfl⟩
  · rw [if_neg hprev, ha]
    by_cases hact : m.connActivelist a = some c
    · exact ⟨_, if_pos hact⟩
    · obtain hp | ha' | ⟨b, hb, hpend⟩ := hfirst
      · exact absurd hp hprev
      · exact absurd ha' hact
      · have hb' : (m.conn c).connPendlist = some b := hb
        have hpend' : m.connPendlist b = some c := hpend
        simp [hact, hb', hpend']

theorem connectionFree_some (ha : (m.conn c).connActivelist = some a)
    (hfirst : m.prev c ≠ none ∨ m.head (.active a) = some c ∨
      ∃ b, m.pendOf c = some b ∧ m.head (.pend b) = some c) :
    ∃ m', connectionFree m c = some m' := by
  have hrest : ((m.setState c .free).bypass c).rest = m.rest := by simp
  have ha' : (((m.setState c .free).bypass c).conn c).connActivelist = some a :=
    (connActivelist_of_rest hrest c).trans ha
  have hfirst' : ((m.setState c .free).bypass c).prev c ≠ none ∨
      ((m.setState c .free).bypass c).head (.active a) = some c ∨
      ∃ b, ((m.setState c .free).bypass c).pendOf c = some b ∧
        ((m.setState c .free).bypass c).head (.pend b) = some c := by
    simpa [unlinkPrev_self] using hfirst
  obtain ⟨m₁, hm₁⟩ := freeFromHead_some ha' hfirst'
  unfold connectionFree
  rw [hm₁]
  exact ⟨_, rfl⟩

/-- A context on its own pending or active list has a predecessor or is the head of that list. -/
theorem first_or_inside (hf : Family Place.kind m.heap L) (hc : c ∈ L p) (hkind : p.kind = .double) :
    m.prev c ≠ none ∨ m.head p = some c := by
  by_cases hprev : m.prev c = none
  · have hkept := hf.kept p
    rw [hkind] at hkept
    exact Or.inr ((hkept.head_iff hc).mp hprev)
  · exact Or.inl hprev

theorem activate_rehung (hf : Family Place.kind m.heap L) (hc : c ∈ L (.pend k))
    (hk : (m.conn c).connPendlist = some k) (ha : (m.conn c).connActivelist = some a) :
    ∃ m', connectionActivate m c = some m' ∧ Rehung m m' L (.pend k) (.active a) c .active := by
  obtain ⟨m', hm'⟩ := connectionActivate_some ha hk
  obtain ⟨a', b, hspec⟩ := connectionActivate_spec hm'
  have haa : a' = a := Option.some.inj (hspec.activeOf.symm.trans ha)
  have hbk : b = k := Option.some.inj (hspec.pendOf.symm.trans hk)
  subst haa hbk
  exact ⟨m', hm', hspec.family hf hc rfl fun _ => rfl, hspec.state, hspec.pend, hspec.magic,
    hspec.rest⟩

theorem free_rehung (hf : Family Place.kind m.heap L) (hc : c ∈ L p)
    (hp : (∃ k, p = .pend k) ∨ ∃ k, p = .active k) (hat : (m.conn c).PointsAt p)
    (ha : (m.conn c).connActivelist ≠ none) (hmagic : (m.conn c).magic = true) :
    ∃ m', connectionFreeCall m (some c) = some (m', 0) ∧ Rehung m m' L p .free c .free := by
  have hkind : p.kind = .double := by
    rcases hp with ⟨k, rfl⟩ | ⟨k, rfl⟩ <;> rfl
  obtain ⟨a, ha⟩ := Option.ne_none_iff_exists'.mp ha
  have hfirst : m.prev c ≠ none ∨ m.head (.active a) = some c ∨
      ∃ b, m.pendOf c = some b ∧ m.head (.pend b) = some c := by
    rcases first_or_inside hf hc hkind with hprev | hhead
    · exact Or.inl hprev
    · rcases hp with ⟨k, rfl⟩ | ⟨k, rfl⟩
      · exact Or.inr (Or.inr ⟨k, hat, hhead⟩)
      · have hka : k = a := Option.some.inj (hat.symm.trans ha)
        subst hka
        exact Or.inr (Or.inl hhead)
  obtain ⟨m', hm'⟩ := connectionFree_some ha hfirst
  obtain ⟨heads, hspec⟩ := connectionFree_spec hm'
  refine ⟨m', ?_, ?_⟩
  · simp [connectionFreeCall, hmagic, hm']
  · have hnotfree : p ≠ .free := by
      rcases hp with ⟨k, rfl⟩ | ⟨k, rfl⟩ <;> simp
    have habort : ∀ k, p = .abort k → m.prev c ≠ none := by
      rcases hp with ⟨k, rfl⟩ | ⟨k, rfl⟩ <;> simp
    have hmagic' : m'.magicOf = m.magicOf := by
      rw [hspec.magic]
      exact Function.update_eq_self_iff.mpr hmagic.symm
    exact ⟨hspec.family hf hc hnotfree habort hat, hspec.state, hspec.pend, hmagic', hspec.rest⟩

/-- From any well-formed lists, activation takes a pending context to its active list and freeing
takes one on its pending or active list to the free list, which is singly linked. -/
theorem rehanging_sound (hf : Family Place.kind m.heap L) (c : Nat) :
    (∀ k a, c ∈ L (.pend k) → (m.conn c).connPendlist = some k →
      (m.conn c).connActivelist = some a →
      ∃ m', connectionActivate m c = some m' ∧ Rehung m m' L (.pend k) (.active a) c .active) ∧
    ∀ p, c ∈ L p → ((∃ k, p = .pend k) ∨ ∃ k, p = .active k) → (m.conn c).PointsAt p →
      (m.conn c).connActivelist ≠ none →
      ((m.conn c).magic = true →
        ∃ m', connectionFreeCall m (some c) = some (m', 0) ∧ Rehung m m' L p .free c .free) ∧
      ((m.conn c).magic = false → connectionFreeCall m (some c) = some (m, -EFAULT)) :=
  ⟨fun _ _ => activate_rehung hf, fun _ hc hp hat ha =>
    ⟨free_rehung hf hc hp hat ha, fun hmagic => if_pos hmagic⟩⟩

/-- Contexts 1 and 2 are pending on link 0, and context 0 is free. -/
def pendingContexts : MyContext :=
  { fourContexts with
    conn := fun i =>
      { (default : Connection) with
        magic := true
        connActivelist := some 0
        connPendlist := some 0
        connAbortlist := some 0
        nextconn := if i = 1 then some 2 else none
        prevconn := if i = 2 then some 1 else none }
    connFreelist := some 0
    connPendlist := fun k => if k = 0 then some 1 else none }

def pendingLists : Place → List Nat
  | .free => [0]
  | .pend k => if k = 0 then [1, 2] else []
  | .active _ => []
  | .abort _ => []

theorem pendingLists_doubly (p : Place) :
    Kept pendingContexts.next pendingContexts.prev .double (pendingContexts.head p)
      (pendingLists p) := by
  cases p with
  | free => exact ⟨rfl, rfl, rfl⟩
  | pend k =>
    by_cases hk : k = 0
    · subst hk
      exact ⟨rfl, rfl, rfl, rfl, rfl⟩
    · simp [Kept, Linked, pendingContexts, pendingLists, head, hk]
  | active k => rfl
  | abort k => rfl

/-- All lists of `pendingContexts` are doubly linked, so that they are kept in any discipline. -/
theorem pendingContexts_family (kind : Place → Discipline) :
    Family kind pendingContexts.heap pendingLists := by
  refine ⟨fun p => ?_, fun i p q hp hq => ?_⟩
  · have hk := pendingLists_doubly p
    cases kind p with
    | single => exact Linked.chain hk
    | double => exact hk
    | loose => exact Linked.loose hk
  · have hplace : ∀ p, i ∈ pendingLists p → p = if i = 0 then .free else .pend 0 := by
      intro p hp
      cases p with
      | free => simp_all [pendingLists]
      | pend k =>
        by_cases hk : k = 0
        · have hi : i ≠ 0 := by
            rintro rfl
            simp [pendingLists, hk] at hp
          rw [if_neg hi, hk]
        · simp [pendingLists, hk] at hp
      | active k => simp [pendingLists] at hp
      | abort k => simp [pendingLists] at hp
    rw [hplace p hp, hplace q hq]

theorem rehanging_sound_pending :
    (∃ m', connectionActivate pendingContexts 2 = some m' ∧
      Rehung pendingContexts m' pendingLists (.pend 0) (.active 0) 2 .active) ∧
    ∃ m', connectionFreeCall pendingContexts (some 2) = some (m', 0) ∧
      Rehung pendingContexts m' pendingLists (.pend 0) .free 2 .free := by
  have hsound := rehanging_sound (pendingContexts_family Place.kind) 2
  have hmem : 2 ∈ pendingLists (.pend 0) := by decide
  exact ⟨hsound.1 0 0 hmem rfl rfl,
    (hsound.2 (.pend 0) hmem (Or.inl ⟨0, rfl⟩) rfl (by decide)).1 rfl⟩

/-- Freeing leaves the back link of the context that headed the free list null, so that a doubly
linked free list does not stay one; a context without the magic number is not freed at all. -/
theorem freed_context_without_back_link :
    (∃ m', Family (fun _ => .double) pendingContexts.heap pendingLists ∧
      connectionFreeCall pendingContexts (some 1) = some (m', 0) ∧
      ¬ ∃ L, Family (fun _ => .double) m'.heap L) ∧
    Family (fun _ => .double)
      (pendingContexts.modify 1 fun x => { x with magic := false }).heap pendingLists ∧
    ((connectionFreeCall (pendingContexts.modify 1 fun x => { x with magic := false }) (some 1)).map
      Prod.snd) = some (-EFAULT) := by
  refine ⟨⟨_, pendingContexts_family _, rfl, fun ⟨L, hL⟩ => ?_⟩, ?_, by decide⟩
  · -- The free list starts with contexts 1 and 0, and 0 has no back link.
    have hk := hL.kept .free
    cases hl : L .free with
    | nil =>
      rw [hl] at hk
      cases hk
    | cons x l =>
      rw [hl] at hk
      obtain ⟨hx, -, hk⟩ := hk
      cases Option.some.inj hx
      cases l with
      | nil => cases hk
      | cons y l =>
        obtain ⟨hy, hprev, -⟩ := hk
        cases Option.some.inj hy
        cases hprev
  · rw [heap_modify rfl rfl]
    exact pendingContexts_family _

end BgqVrnic
