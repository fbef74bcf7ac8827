import Mathlib.Algebra.Order.BigOperators.Group.Finset
import Mathlib.Data.Prod.Lex
import Mathlib.Order.WellFounded
import BgqVrnic.BcastSteps

namespace BgqVrnic

open Runs

variable {ν : Type}

theorem aloneOnRoute_of_isOurs {s : BcastNet ν} {i : BcastInput ν} (hi : i.IsOurs) :
    AloneOnRoute s i := by
  cases i with
  | call n mrb => exact hi.elim
  | _ => trivial

section Counts

variable {x : BcastNode ν} {c m : Nat} {st : BcastState} {pre : List (ν × MudmRdmaBcast)}
  {b : ν × MudmRdmaBcast} {contributed : List (BcastReduce ν)} {inbox : List (Collective ν)}

/-- The node has to do with the broadcast after `c` others, or with the end of the one before it. -/
structure BcastNode.Counts (x : BcastNode ν) (c m : Nat) : Prop where
  finished : x.finished ≤ c
  drained : c ≤ x.zeroed
  zeroed : x.zeroed ≤ x.readied
  readied : x.readied ≤ x.finished + 1
  started : x.readied ≤ m

namespace BcastNode

theorem AtRest.counts (h : x.AtRest c st inbox) (hc : c ≤ m) : x.Counts c m := by
  obtain ⟨hf, hr, hz, -, -, -⟩ := h
  constructor <;> omega

theorem Late.counts (h : x.Late pre inbox) (hc : pre.length ≤ m) : x.Counts pre.length m := by
  obtain ⟨hf, hr, hz, -, -, -, -⟩ := h
  constructor <;> omega

theorem Receiving.counts (h : x.Receiving c b contributed inbox) (hc : c < m) : x.Counts c m := by
  obtain ⟨hf, hr, hz, -, -, -, -⟩ := h
  constructor <;> omega

theorem Waiting.counts (h : x.Waiting c b) (hc : c < m) : x.Counts c m := by
  obtain ⟨hf, hr, hz, -, -, -, -, -⟩ := h
  constructor <;> omega

theorem setInbox_ready_counts (x : BcastNode ν) (inbox : List (Collective ν))
    (rbsc : RdmaBcastSetCounter ν) :
    ({ x with inbox := inbox }.readyRdmaBcastReceiveReduce rbsc).readied = x.readied + 1 ∧
      ({ x with inbox := inbox }.readyRdmaBcastReceiveReduce rbsc).zeroed = x.zeroed ∧
      ({ x with inbox := inbox }.readyRdmaBcastReceiveReduce rbsc).finished = x.finished := by
  unfold readyRdmaBcastReceiveReduce
  dsimp only
  split <;> exact ⟨rfl, rfl, rfl⟩

theorem poll_cases (x : BcastNode ν) :
    x.rdmaBcastPollReduce = x ∨
      x.rdmaBcastPollReduce.readied = x.readied ∧ x.rdmaBcastPollReduce.zeroed = x.zeroed + 1 ∧
        x.rdmaBcastPollReduce.finished = x.finished := by
  unfold rdmaBcastPollReduce
  split
  · exact Or.inl rfl
  · split
    · exact Or.inl rfl
    · exact Or.inr ⟨rfl, rfl, rfl⟩

end BcastNode

end Counts

section Rank

variable [Fintype ν] {s s' : BcastNet ν}

/-- The broadcasts for which the node has still to be made ready, to find its counter zero, and to end. -/
def BcastNode.todo (m : Nat) (x : BcastNode ν) : Nat :=
  (m - x.readied) + (m - x.zeroed) + (m - x.finished)

/-- A contribution counts for more than the message that comes out of it. -/
def BcastNode.mail (x : BcastNode ν) : Nat := 2 * x.contributed.length + x.inbox.length

def BcastNet.todo (s : BcastNet ν) : Nat :=
  ∑ n, (s.node n).todo s.started.length + (2 * s.launching.length + s.inFlight.length)

def BcastNet.mail (s : BcastNet ν) : Nat := ∑ n, (s.node n).mail

def BcastNet.left (s : BcastNet ν) : Nat := (s.data.map fun p => ∑ n, (p.left n).toNat).sum

/-- What becomes less with everything that happens, calls apart. -/
def BcastNet.rank (s : BcastNet ν) : ℕ ×ₗ ℕ ×ₗ ℕ := toLex (s.todo, toLex (s.mail, s.left))

theorem rank_lt_of_todo (h : s'.todo < s.todo) : s'.rank < s.rank :=
  Prod.Lex.toLex_lt_toLex.mpr (Or.inl h)

theorem rank_lt_of_mail (ht : s'.todo = s.todo) (h : s'.mail < s.mail) : s'.rank < s.rank :=
  Prod.Lex.toLex_lt_toLex.mpr (Or.inr ⟨ht, Prod.Lex.toLex_lt_toLex.mpr (Or.inl h)⟩)

theorem rank_lt_of_left (ht : s'.todo = s.todo) (hm : s'.mail = s.mail) (h : s'.left < s.left) :
    s'.rank < s.rank :=
  Prod.Lex.toLex_lt_toLex.mpr (Or.inr ⟨ht, Prod.Lex.toLex_lt_toLex.mpr (Or.inr ⟨hm, h⟩)⟩)

end Rank

section Ends

variable [DecidableEq ν] {s s' : BcastNet ν} {n : ν}

theorem BcastInv.counts (h : BcastInv s) : ∃ c, ∀ n, (s.node n).Counts c s.started.length := by
  have hlt : ∀ pre b, s.started = pre ++ [b] → pre.length < s.started.length := by
    intro pre b hs
    rw [hs, List.length_append]
    exact Nat.lt_succ_self _
  cases h with
  | idle hist hlaunching hflight hdata hnodes =>
    refine ⟨s.started.length, fun n => ?_⟩
    rcases hnodes n with hn | hn
    · exact hn.counts (Nat.le_refl _)
    · exact hn.counts (Nat.le_refl _)
  | launching pre b hs hist hlaunching hflight hdata hnodes =>
    have hle := Nat.le_of_lt (hlt pre b hs)
    refine ⟨pre.length, fun n => ?_⟩
    rcases hnodes n with hn | ⟨-, hn⟩
    · exact hn.counts hle
    · exact hn.counts hle
  | inFlight pre b hs hist hlaunching hflight hdata hcounter hnodes =>
    have hle := Nat.le_of_lt (hlt pre b hs)
    refine ⟨pre.length, fun n => ?_⟩
    rcases hnodes n with hn | ⟨-, hn⟩
    · exact hn.counts hle
    · exact hn.counts hle
  | rdy pre b hs hist hlaunching hflight hdata hcounter hnodes =>
    have hle := Nat.le_of_lt (hlt pre b hs)
    refine ⟨pre.length, fun n => ?_⟩
    rcases hnodes n with (hn | ⟨-, hn⟩) | (⟨hn, -⟩ | ⟨-, hn⟩)
    · exact hn.counts hle
    · exact hn.counts hle
    · exact hn.counts (hlt pre b hs)
    · exact hn.counts (hlt pre b hs)
  | asked pre b hs hist hlaunching hflight hdata hlength hnodes =>
    exact ⟨pre.length, fun n => (hnodes n).1.counts (hlt pre b hs)⟩
  | sent pre b hs hist hlaunching hflight old p hdata hold hlength hnodes =>
    refine ⟨pre.length, fun n => ?_⟩
    rcases (hnodes n).1 with hn | hn
    · exact hn.counts (hlt pre b hs)
    · exact hn.counts (hlt pre b hs)

/-- A node holds what it was made ready with until it has finished. -/
theorem BcastInv.held (h : BcastInv s) {b : ν × MudmRdmaBcast}
    (hb : s.started[(s.node n).finished]? = some b) (hr : (s.node n).readied = (s.node n).finished + 1) :
    (s.node n).Shows b := by
  have hrest : ∀ {c st inbox}, ¬ (s.node n).AtRest c st inbox := by
    intro c st inbox hn
    have hf := hn.finished
    have hready := hn.readied
    omega
  have hlate : ∀ {pre rest inbox}, s.started = pre ++ rest → (s.node n).Late pre inbox →
      (s.node n).Shows b := by
    intro pre rest inbox hs hn
    have hf := hn.finished
    rw [hs, List.getElem?_append_left (by omega)] at hb
    exact hn.shows b hb
  have hlast : ∀ {pre b'}, s.started = pre ++ [b'] → (s.node n).finished = pre.length → b' = b := by
    intro pre b' hs hf
    rw [hf, hs, List.getElem?_concat_length] at hb
    exact Option.some.inj hb
  cases h with
  | idle hist hlaunching hflight hdata hnodes =>
    exact hlate (List.append_nil _).symm ((hnodes n).resolve_left hrest)
  | launching pre b' hs hist hlaunching hflight hdata hnodes =>
    exact hlate hs ((hnodes n).resolve_left hrest).2
  | inFlight pre b' hs hist hlaunching hflight hdata hcounter hnodes =>
    exact hlate hs ((hnodes n).resolve_left hrest).2
  | rdy pre b' hs hist hlaunching hflight hdata hcounter hnodes =>
    rcases hnodes n with (hn | ⟨-, hn⟩) | (⟨hn, -⟩ | ⟨-, hn⟩)
    · exact absurd hn hrest
    · exact hlate hs hn
    · exact hlast hs hn.finished ▸ hn.shows
    · exact hlast hs hn.finished ▸ hn.shows
  | asked pre b' hs hist hlaunching hflight hdata hlength hnodes =>
    exact hlast hs (hnodes n).1.finished ▸ (hnodes n).1.shows
  | sent pre b' hs hist hlaunching hflight old p hdata hold hlength hnodes =>
    rcases (hnodes n).1 with hn | hn
    · exact hlast hs hn.finished ▸ hn.shows
    · exact hlast hs hn.finished ▸ hn.shows

/-- The originator holds what the ready message and the direct put read, from its writes until the end. -/
theorem BcastInv.ownHeld (h : BcastInv s) {mrb : MudmRdmaBcast}
    (hb : s.started[(s.node n).finished]? = some (n, mrb)) (hl : (n, mrb) ∉ s.launching) :
    (s.node n).bcastCounterInfo = ⟨mrb, some n⟩ ∧
      ((s.node n).readied = (s.node n).finished → (s.node n).muCounter = mrb.payloadLength) := by
  have hlast : ∀ {pre b}, s.started = pre ++ [b] → (s.node n).finished = pre.length → b = (n, mrb) := by
    intro pre b hs hf
    rw [hf, hs, List.getElem?_concat_length] at hb
    exact Option.some.inj hb
  have hlate : ∀ {pre inbox}, (s.node n).Late pre inbox → (s.node n).readied ≠ (s.node n).finished := by
    intro pre inbox hn
    have hf := hn.finished
    have hready := hn.readied
    omega
  cases h with
  | idle hist hlaunching hflight hdata hnodes =>
    refine ⟨hist.own n mrb hb, fun hr => ?_⟩
    rcases hnodes n with hn | hn
    · rw [hn.finished, List.getElem?_eq_none (Nat.le_refl _)] at hb
      cases hb
    · exact absurd hr (hlate hn)
  | launching pre b hs hist hlaunching hflight hdata hnodes =>
    have hne : (s.node n).finished ≠ pre.length := by
      intro hf
      rw [hlaunching, hlast hs hf] at hl
      exact hl List.mem_cons_self
    refine ⟨hist.own n mrb ?_, fun hr => ?_⟩
    · rw [hs, List.getElem?_append_left (Nat.lt_of_le_of_ne (hnodes n).finished_le hne)] at hb
      exact hb
    · rcases hnodes n with hn | ⟨-, hn⟩
      · exact absurd hn.finished hne
      · exact absurd hr (hlate hn)
  | inFlight pre b hs hist hlaunching hflight hdata hcounter hnodes =>
    refine ⟨hist.own n mrb hb, fun hr => ?_⟩
    rcases hnodes n with hn | ⟨-, hn⟩
    · cases hlast hs hn.finished
      exact hcounter
    · exact absurd hr (hlate hn)
  | rdy pre b hs hist hlaunching hflight hdata hcounter hnodes =>
    refine ⟨hist.own n mrb hb, fun hr => ?_⟩
    rcases hnodes n with (hn | ⟨-, hn⟩) | hn
    · cases hlast hs hn.finished
      exact hcounter hn.readied
    · exact absurd hr (hlate hn)
    · rw [hn.readied, hn.finished] at hr
      exact absurd hr (Nat.succ_ne_self _)
  | asked pre b hs hist hlaunching hflight hdata hlength hnodes =>
    refine ⟨hist.own n mrb hb, fun hr => ?_⟩
    rw [(hnodes n).1.readied, (hnodes n).1.finished] at hr
    exact absurd hr (Nat.succ_ne_self _)
  | sent pre b hs hist hlaunching hflight old p hdata hold hlength hnodes =>
    refine ⟨hist.own n mrb hb, fun hr => ?_⟩
    rcases (hnodes n).1 with hn | hn <;>
      rw [hn.readied, hn.finished] at hr <;> exact absurd hr (Nat.succ_ne_self _)

variable [Fintype ν]

theorem sum_update_eq {β : Type} (f : β → Nat) {g : ν → β} {x : β} (h : f x = f (g n)) :
    ∑ m, f (Function.update g n x m) = ∑ m, f (g m) := by
  refine Finset.sum_congr rfl fun m _ => ?_
  by_cases hm : m = n
  · rw [hm, Function.update_self, h]
  · rw [Function.update_of_ne hm]

theorem sum_update_lt {β : Type} (f : β → Nat) {g : ν → β} {x : β} (h : f x < f (g n)) :
    ∑ m, f (Function.update g n x m) < ∑ m, f (g m) := by
  refine Finset.sum_lt_sum (fun m _ => ?_) ⟨n, Finset.mem_univ n, ?_⟩
  · by_cases hm : m = n
    · rw [hm, Function.update_self]
      exact Nat.le_of_lt h
    · rw [Function.update_of_ne hm]
  · rw [Function.update_self]
    exact h

theorem sum_map_set_lt {α : Type} {f : α → Nat} {l : List α} {i : Nat} {a a' : α} (h : l[i]? = some a)
    (hlt : f a' < f a) : ((l.set i a').map f).sum < (l.map f).sum := by
  induction l generalizing i with
  | nil => cases h
  | cons y ys ih =>
    cases i with
    | zero =>
      cases h
      exact Nat.add_lt_add_right hlt _
    | succ i => exact Nat.add_lt_add_left (ih h) _

theorem rank_launch {i : Nat} (hs : bcastStep s (.launch i) = some s') : s'.rank < s.rank := by
  simp only [bcastStep] at hs
  cases hi : s.launching[i]? with
  | none =>
    rw [hi] at hs
    cases hs
  | some b =>
    rw [hi] at hs
    cases hs
    have hlt := (List.getElem?_eq_some_iff.mp hi).1
    refine rank_lt_of_todo (Nat.add_lt_add_of_le_of_lt (Nat.le_of_eq ?_) ?_)
    · exact sum_update_eq (BcastNode.todo s.started.length) rfl
    · simp only [List.length_eraseIdx, hlt, if_true, List.length_append, List.length_singleton]
      omega

theorem rank_arrive {i : Nat} (hs : bcastStep s (.arrive i) = some s') : s'.rank < s.rank := by
  simp only [bcastStep] at hs
  cases hi : s.inFlight[i]? with
  | none =>
    rw [hi] at hs
    cases hs
  | some rbsc =>
    rw [hi] at hs
    cases hs
    have hlt := (List.getElem?_eq_some_iff.mp hi).1
    refine rank_lt_of_todo (Nat.add_lt_add_of_le_of_lt (Nat.le_of_eq rfl) ?_)
    simp only [BcastNet.hand, List.length_eraseIdx, hlt, if_true]
    omega

theorem rank_data {i : Nat} {bytes : BitVec 64} (hs : bcastStep s (.data i n bytes) = some s') :
    s'.rank < s.rank := by
  simp only [bcastStep] at hs
  cases hi : s.data[i]? with
  | none =>
    rw [hi] at hs
    cases hs
  | some p =>
    rw [hi] at hs
    dsimp only at hs
    by_cases hbytes : bytes ≠ 0 ∧ bytes ≤ p.left n
    · rw [if_pos hbytes] at hs
      cases hs
      refine rank_lt_of_left ?_ ?_ (sum_map_set_lt hi ?_)
      · exact congrArg (· + _) (sum_update_eq (BcastNode.todo s.started.length) rfl)
      · exact sum_update_eq BcastNode.mail rfl
      · refine sum_update_lt BitVec.toNat ?_
        obtain ⟨hzero, hle⟩ := hbytes
        bv_omega
    · rw [if_neg hbytes] at hs
      cases hs

theorem rank_poll (h : BcastInv s') (hs : bcastStep s (.poll n) = some s') (hne : s' ≠ s) :
    s'.rank < s.rank := by
  cases hs
  obtain ⟨c, hcounts⟩ := h.counts
  have hn := hcounts n
  rw [node_setNode_self] at hn
  rcases (s.node n).poll_cases with heq | ⟨hready, hzero, hfinish⟩
  · rw [heq, setNode_self] at hne
    exact absurd rfl hne
  · refine rank_lt_of_todo (Nat.add_lt_add_right (sum_update_lt (BcastNode.todo s.started.length) ?_) _)
    have hle := Nat.le_trans hn.zeroed hn.started
    simp only [BcastNode.todo, hready, hfinish, hzero]
    rw [hzero] at hle
    change _ ≤ s.started.length at hle
    omega

theorem rank_deliver (h : BcastInv s') (hs : bcastStep s (.deliver n) = some s') : s'.rank < s.rank := by
  obtain ⟨k, hcounts⟩ := h.counts
  have hn := hcounts n
  match hinbox : (s.node n).inbox with
  | [] =>
    rw [deliver_nil hinbox] at hs
    cases hs
  | .rdy rbsc :: rest =>
    rw [deliver_rdy hinbox] at hs
    cases hs
    rw [node_setNode_self] at hn
    refine rank_lt_of_todo (Nat.add_lt_add_right (sum_update_lt (BcastNode.todo s.started.length) ?_) _)
    obtain ⟨hready, hzero, hfinish⟩ := (s.node n).setInbox_ready_counts rest rbsc
    have hle := hn.started
    rw [hready] at hle
    simp only [BcastNode.todo, hready, hzero, hfinish]
    change _ ≤ s.started.length at hle
    omega
  | .reduce r :: rest =>
    cases hr : r.type with
    | origin =>
      rw [deliver_origin hr hinbox] at hs
      cases hs
      refine rank_lt_of_mail ?_ (sum_update_lt BcastNode.mail ?_)
      · exact congrArg (· + _) (sum_update_eq (BcastNode.todo s.started.length) rfl)
      · simp only [BcastNode.mail, hinbox, List.length_cons]
        omega
    | finish =>
      rw [deliver_finish hr hinbox] at hs
      cases hs
      rw [node_setNode_self] at hn
      refine rank_lt_of_todo (Nat.add_lt_add_right (sum_update_lt (BcastNode.todo s.started.length) ?_) _)
      have hle : (s.node n).finished + 1 ≤ s.started.length := by
        refine Nat.le_trans ?_ hn.started
        exact Nat.le_trans (Nat.le_trans hn.finished hn.drained) hn.zeroed
      simp only [BcastNode.todo, BcastNode.clearRdmaBcastReceiveReduce]
      omega

theorem rank_combine {r : BcastReduce ν} (n : ν) (hs : bcastStep s (.combine r) = some s') :
    s'.rank < s.rank := by
  obtain ⟨hall, rfl⟩ := combine_cases hs
  refine rank_lt_of_mail (congrArg (· + _) (Finset.sum_congr rfl fun n _ => ?_))
    (Finset.sum_lt_sum_of_nonempty ⟨n, Finset.mem_univ n⟩ fun n _ => ?_)
  · simp only [BcastNet.hand]
    split <;> rfl
  · have hcons : (s.node n).contributed ≠ [] := by
      intro hnil
      have hn := hall n
      rw [hnil] at hn
      cases hn
    have hlength := List.length_pos_iff.mpr hcons
    simp only [BcastNet.hand]
    split <;> simp only [BcastNode.mail, List.length_append, List.length_tail, List.length_singleton] <;> omega

theorem BcastInv.rank_lt {i : BcastInput ν} (h : BcastInv s) (hi : i.IsOurs)
    (hs : bcastStep s i = some s') (hne : s' ≠ s) : s'.rank < s.rank := by
  have h' := h.step (aloneOnRoute_of_isOurs hi) hs
  cases i with
  | call n mrb => exact hi.elim
  | launch i => exact rank_launch hs
  | arrive i => exact rank_arrive hs
  | combine r =>
    by_cases hempty : IsEmpty ν
    · obtain ⟨-, rfl⟩ := combine_cases hs
      refine absurd ?_ hne
      simp only [BcastNet.hand, Subsingleton.elim _ s.node]
    · obtain ⟨n⟩ := not_isEmpty_iff.mp hempty
      exact rank_combine n hs
  | deliver n => exact rank_deliver h' hs
  | data i n bytes => exact rank_data hs
  | poll n => exact rank_poll h' hs hne

theorem BcastInv.settles (h : BcastInv s) : Acc (fun s' s => s.Moves s') s := by
  induction hr : s.rank using WellFoundedLT.induction generalizing s with
  | ind r ih =>
    refine ⟨s, fun s' hs' => ?_⟩
    obtain ⟨i, hi, hs, hne⟩ := hs'
    have hlt := h.rank_lt hi hs hne
    rw [hr] at hlt
    exact ih s'.rank hlt (h.step (aloneOnRoute_of_isOurs hi) hs) rfl

theorem goesOn_of_rank {i : BcastInput ν} (hs : bcastStep s i = some s') (hi : i.IsOurs)
    (h : s'.rank < s.rank) : ∃ s', s.Moves s' := by
  refine ⟨s', i, hi, hs, fun heq => ?_⟩
  rw [heq] at h
  exact lt_irrefl _ h

theorem BcastInv.goesOn_of_deliver {c : Collective ν} {rest : List (Collective ν)} (h : BcastInv s)
    (hinbox : (s.node n).inbox = c :: rest) : ∃ s', s.Moves s' := by
  obtain ⟨s', hs⟩ : ∃ s', bcastStep s (.deliver n) = some s' := by
    simp only [bcastStep, hinbox]
    exact ⟨_, rfl⟩
  exact goesOn_of_rank hs trivial (rank_deliver (h.deliver hs) hs)

theorem goesOn_of_combine {r : BcastReduce ν} (n : ν) (h : ∀ m, (s.node m).contributed.head? = some r) :
    ∃ s', s.Moves s' := by
  obtain ⟨s', hs⟩ : ∃ s', bcastStep s (.combine r) = some s' := by
    simp only [bcastStep]
    rw [if_pos h]
    cases r.type
    · exact ⟨_, rfl⟩
    · exact ⟨_, rfl⟩
  exact goesOn_of_rank hs trivial (rank_combine n hs)

theorem goesOn_of_poll {c : Nat} {b : ν × MudmRdmaBcast} (h : (s.node n).Receiving c b [] [])
    (hcounter : (s.node n).muCounter = 0) : ∃ s', s.Moves s' := by
  refine ⟨_, .poll n, trivial, rfl, fun heq => ?_⟩
  have hstate := congrArg (fun t => (BcastNet.node t n).state) heq
  rw [node_setNode_self, (h.poll hcounter).state, h.state] at hstate
  cases hstate

theorem goesOn_of_data {i : Nat} {p : BcastDirectPut ν} (hi : s.data[i]? = some p) (h : p.left n ≠ 0) :
    ∃ s', s.Moves s' := by
  obtain ⟨s', hs⟩ : ∃ s', bcastStep s (.data i n (p.left n)) = some s' := by
    simp only [bcastStep, hi]
    rw [if_pos ⟨h, BitVec.le_refl _⟩]
    exact ⟨_, rfl⟩
  exact goesOn_of_rank hs trivial (rank_data hs)

theorem BcastInv.goesOn (h : BcastInv s) (hn : (s.node n).finished < s.started.length) : ∃ s', s.Moves s' := by
  have h' := h
  cases h with
  | idle hist hlaunching hflight hdata hnodes =>
    rcases hnodes n with hrest | hlate
    · exact absurd hrest.finished (Nat.ne_of_lt hn)
    · obtain ⟨r, -, hinbox⟩ := hlate.inbox
      exact h'.goesOn_of_deliver hinbox
  | launching pre b hs hist hlaunching hflight hdata hnodes =>
    obtain ⟨s', hs'⟩ : ∃ s', bcastStep s (.launch 0) = some s' := by
      simp only [bcastStep, hlaunching]
      exact ⟨_, rfl⟩
    exact goesOn_of_rank hs' trivial (rank_launch hs')
  | inFlight pre b hs hist hlaunching hflight hdata hcounter hnodes =>
    obtain ⟨s', hs'⟩ : ∃ s', bcastStep s (.arrive 0) = some s' := by
      simp only [bcastStep, hflight]
      exact ⟨_, rfl⟩
    exact goesOn_of_rank hs' trivial (rank_arrive hs')
  | rdy pre b hs hist hlaunching hflight hdata hcounter hnodes =>
    by_cases hunready : ∃ m, (s.node m).Unready m pre b [rdyOf b]
    · obtain ⟨m, hm | ⟨-, hm⟩⟩ := hunready
      · exact h'.goesOn_of_deliver hm.inbox
      · obtain ⟨r, -, hinbox⟩ := hm.inbox
        exact h'.goesOn_of_deliver hinbox
    have hready : ∀ m, (s.node m).Ready pre.length b := fun m =>
      (hnodes m).resolve_left fun hm => hunready ⟨m, hm⟩
    by_cases hlength : b.2.payloadLength = 0
    · by_cases hreceiving : ∃ m, (s.node m).Receiving pre.length b [] [] ∧ (s.node m).got = 0
      · obtain ⟨m, hm, hgot⟩ := hreceiving
        exact goesOn_of_poll hm (by simp [hm.shows.counter, hlength, hgot])
      · refine goesOn_of_combine (r := finishOf b) n fun m => ?_
        rcases hready m with hm | ⟨-, hm⟩
        · rw [if_neg (not_not_intro hlength)] at hm
          exact absurd ⟨m, hm⟩ hreceiving
        · rw [hm.contributed]
          rfl
    · refine goesOn_of_combine (r := originOf b) n fun m => ?_
      rcases hready m with ⟨hm, -⟩ | ⟨hzero, -⟩
      · rw [if_pos hlength] at hm
        rw [hm.contributed]
        rfl
      · exact absurd hzero hlength
  | asked pre b hs hist hlaunching hflight hdata hlength hnodes =>
    have hb := (hnodes b.1).1.inbox
    rw [if_pos rfl] at hb
    exact h'.goesOn_of_deliver hb
  | sent pre b hs hist hlaunching hflight old p hdata hold hlength hnodes =>
    by_cases hreceiving : ∃ m, (s.node m).Receiving pre.length b [] []
    · obtain ⟨m, hm⟩ := hreceiving
      by_cases hcounter : (s.node m).muCounter = 0
      · exact goesOn_of_poll hm hcounter
      · refine goesOn_of_data (i := old.length) (p := p) ?_ ((hnodes m).2 ▸ hcounter)
        rw [hdata, List.getElem?_concat_length]
    · refine goesOn_of_combine (r := finishOf b) n fun m => ?_
      have hm := (hnodes m).1.resolve_left fun hm => hreceiving ⟨m, hm⟩
      rw [hm.contributed]
      rfl

theorem BcastInv.sound (h : BcastInv s) : BcastSound s := by
  obtain ⟨c, hcounts⟩ := h.counts
  refine ⟨?_, fun n k => ?_, fun n => ?_, fun n b hb hr => h.held hb hr,
    fun n mrb hb hl => h.ownHeld hb hl, fun n hn => h.goesOn hn, h.settles⟩
  · cases h <;> exact BcastHistory.reports ‹_›
  · exact Nat.le_trans (hcounts n).finished (hcounts k).drained
  · have hn := hcounts n
    exact ⟨Nat.le_trans hn.finished hn.drained, hn.zeroed, hn.readied, hn.started⟩

/-- In every run whose calls are let in only at nodes that have finished all broadcasts before, the
broadcasts of a class route come one after the other. -/
theorem broadcasts_sound (is : List (BcastInput ν)) (h : Meets bcastStep AloneOnRoute newBcastNet is) :
    Always bcastStep BcastSound newBcastNet is := by
  have hrun : Always bcastStep BcastInv newBcastNet is :=
    always_of_step (fun _ _ _ hs hok hstep => hs.step hok hstep) bcastInv_new h
  exact hrun.imp fun s hs => hs.sound

end Ends

/-- A broadcast of node 0, and one without data of node 1 after it -/
def twoBroadcasts : List (BcastInput (Fin 2)) :=
  [.call 0 ⟨11, 1, 2, 8, 0, 3, 5⟩, .launch 0, .arrive 0, .deliver 1, .deliver 0,
    .combine ⟨.origin, some 0, 0⟩, .deliver 0, .data 0 0 8, .data 0 1 2, .poll 0, .poll 1, .data 0 1 6,
    .poll 1, .combine ⟨.finish, some 0, 0⟩, .deliver 1, .call 1 ⟨22, 4, 6, 0, 0, 7, 9⟩, .deliver 0,
    .launch 0, .arrive 0, .deliver 0, .poll 0, .deliver 1, .poll 1, .combine ⟨.finish, some 1, 0⟩,
    .deliver 0, .deliver 1]

theorem twoBroadcasts_sound : Always bcastStep BcastSound newBcastNet twoBroadcasts ∧
    (run bcastStep newBcastNet twoBroadcasts).map (fun s => [(s.node 0).reports, (s.node 1).reports]) =
      some [[11], [22]] :=
  ⟨broadcasts_sound twoBroadcasts (by decide), by decide⟩

/-- Two nodes call at the same time, one with 8 bytes and one with 16. -/
def overlappingBroadcasts : List (BcastInput (Fin 2)) :=
  [.call 0 ⟨11, 1, 2, 8, 0, 77, 5⟩, .launch 0, .call 1 ⟨22, 3, 4, 16, 0, 78, 6⟩, .launch 0, .arrive 0,
    .deliver 0, .deliver 1, .combine ⟨.origin, some 0, 0⟩, .deliver 0, .data 0 0 8, .data 0 1 8, .poll 0,
    .poll 1, .combine ⟨.finish, some 0, 0⟩, .deliver 1, .deliver 0]

/-- The ready message of the one overwrites the counter of the other, and its end makes the other report a
broadcast of which no data have been sent. -/
theorem overlappingBroadcasts_unsound :
    (run bcastStep newBcastNet overlappingBroadcasts).map (fun s =>
      ((s.node 1).reports, (s.node 1).muCounter, s.data.map fun p => p.sourcePaddr)) =
        some ([22], 0, [1]) ∧
      ¬ Always bcastStep BcastSound newBcastNet overlappingBroadcasts := by
  refine ⟨by decide, fun h => ?_⟩
  have hrun : (run bcastStep newBcastNet overlappingBroadcasts).map (fun s =>
      ((s.node 1).reports, requestsOf 1 (s.started.take (s.node 1).finished))) = some ([22], []) := by
    decide
  obtain ⟨s, hs, heq⟩ := Option.map_eq_some_iff.mp hrun
  obtain ⟨hreports, hrequests⟩ := Prod.mk.inj heq
  have hsound := (h.last hs).reports 1
  rw [hreports, hrequests] at hsound
  cases hsound

end BgqVrnic
