import BgqVrnic.SendWaits

namespace BgqVrnic

open Pools

/-- The calls that take blocks from the pools of their node. -/
inductive PoolCall
  | sendPkt (conn : Connection) (requestId payloadLength : Nat)
  | sendMessageRemote (c : Nat) (conn : Connection) (type : RemoteType) (payload : RemotePayload)
  | rdmaRead (q : ReadRequest)
  | rdmaReadOnTorus (magic : Bool) (bytesXfer : Nat) (counterGiven pollActive : Bool)
  | pktImm (magic : Bool) (dataLength : Nat) (memlengths : List Nat)
  | connect (m : MyContext) (timeBase destNode : Nat) (req : IonetConnect)
  | connReply (m : MyContext) (timeBase c : Nat) (reply : IonetConnect)

/-- The call has returned, and left the pools `r` as `r'`. -/
def PoolCall.Returns (env : Link → InjEnv) (r r' : Resources) : PoolCall → Prop
  | .sendPkt conn requestId payloadLength =>
    ∃ n rc, mudmSendPkt env r conn requestId payloadLength n = (.returned rc, r')
  | .sendMessageRemote c conn type payload => (mudmSendMessageRemote env r c conn type payload).2 = r'
  | .rdmaRead q => ∃ n rc, mudmRdmaReadCall env r q n = (.returned rc, r')
  | .rdmaReadOnTorus magic bytesXfer counterGiven pollActive =>
    (mudmRdmaReadOnTorus env r magic bytesXfer counterGiven pollActive).2 = r'
  | .pktImm magic dataLength memlengths => (mudmPktImm r magic dataLength memlengths).2 = r'
  | .connect m timeBase destNode req =>
    ∃ res, mudmConnectPkt env r m timeBase destNode req = some (res, r')
  | .connReply m timeBase c reply => ∃ res, mudmConnReplyPkt env r m timeBase c reply = some (res, r')

/-- Every block that is not on one of its two lists any more was on neither of them before, and none is
there twice that was not. -/
def Resources.Conserved (r r' : Resources) : Prop := ∀ n, Holding [] (r n) (r' n)

/-- The lists of a remote get end before they come to its byte count, which is counted in 32 bits, and
there are more than eight puts; and the bundles that are full, the only ones that are sent then, bring its
counter to the bytes that are missing. -/
structure GetRequest.Short (q : GetRequest) (puts : List Put) : Prop where
  many : 8 < puts.length
  short : (puts.map Put.length).sum % 2 ^ 32 < q.bytesXfer
  comes : ∃ j ≤ 8 * ((puts.length - 1) / 8),
    ((q.bytesXfer : Int) - ((puts.map Put.length).take j).sum) % 2 ^ 64 =
      (q.bytesXfer - (puts.map Put.length).sum % 2 ^ 32 : Nat)

/-- The plan comes out short in the end. -/
def GetRequest.Underruns (q : GetRequest) : Prop :=
  ∃ m, ∀ rounds ≥ m, q.Short (q.plan rounds q.start)

/-- The calls that lose what they have taken: an immediate packet whose entries have the length that
was announced, and a remote get that ends too early, and does not wait for its counter forever, when the
other side has not named an object. -/
def PoolCall.Loses (r : Resources) : PoolCall → Prop
  | .rdmaRead q =>
    q.conn.magic = true ∧ (r q.conn.packets).free ≠ [] ∧ (r q.conn.objects).free ≠ [] ∧
      q.rdmaObject = 0 ∧ q.Underruns
  | .pktImm magic dataLength memlengths =>
    magic = true ∧ (r (.packetcontrols 0)).free ≠ [] ∧ low16 memlengths.sum = dataLength
  | _ => False

variable {env : InjEnv} {r r' : Resources} {q : ReadRequest} {s : ReadCall} {puts : List Put}
  {held : List Nat} {P p : Pool PktDescriptor} {O : Pool MudmRdmaObject}
  {pktd mro look desc requestId n : Nat} {rc : Int}

theorem holding_releasePktToFree (h : Holding (pktd :: held) P p) :
    Holding held P (releasePktToFree pktd p) := (h.set _ _).release

theorem holding_releasePktToPoll (h : Holding (pktd :: held) P p) :
    Holding held P (releasePktToPoll pktd desc p) := (h.set _ _).post

theorem holding_keepPkt (h : Holding (pktd :: held) P p) :
    Holding held P (keepPkt env look pktd desc p) := by
  unfold keepPkt
  split
  · exact holding_releasePktToFree h
  · exact holding_releasePktToPoll h

theorem holding_keepConnPkt (h : Holding (pktd :: held) P p) :
    Holding held P (keepConnPkt env pktd p) := by
  unfold keepConnPkt
  split
  · exact holding_releasePktToFree h
  · exact holding_keepPkt h

theorem holding_allocPkt {p' : Pool PktDescriptor} (h : allocPktMessage p = some (pktd, p')) :
    Holding [pktd] p p' := (Holding.refl p).take h

theorem holding_allocObject {o o' : Pool MudmRdmaObject} (h : allocateRdmaObject o = some (mro, o')) :
    Holding [mro] o o' := (Holding.refl o).take h

theorem Resources.Conserved.refl (r : Resources) : r.Conserved r := fun n => Holding.refl (r n)

theorem Resources.Conserved.put {m : PoolName} {p : Pool m.Block} (h : r.Conserved r')
    (hp : Holding [] (r m) p) : r.Conserved (r'.put m p) := by
  intro n
  by_cases hn : n = m
  · subst hn
    rw [Resources.put_self]
    exact hp
  · rw [Resources.put_of_ne _ _ hn]
    exact h n

theorem sendPktLoop_holding : Holding [] p (sendPktLoop env requestId desc n look p).2 := by
  induction n generalizing look with
  | zero => exact Holding.refl p
  | succ n ih =>
    rw [sendPktLoop]
    split
    · exact Holding.refl p
    · split
      · exact Holding.refl p
      · split
        next spo p' halloc =>
          have hsome : allocPktMessage p = some (spo, p') := by
            split at halloc
            · exact halloc
            · cases halloc
          exact holding_releasePktToPoll ((holding_allocPkt hsome).set _ _)
        next => exact ih

theorem sendPkt_conserved (env : Link → InjEnv) (r : Resources) (conn : Connection)
    (requestId payloadLength n : Nat) :
    r.Conserved (mudmSendPkt env r conn requestId payloadLength n).2 := by
  unfold mudmSendPkt
  split
  · exact Resources.Conserved.refl r
  · split
    · exact Resources.Conserved.refl r
    · exact (Resources.Conserved.refl r).put sendPktLoop_holding

theorem sendMessageRemote_conserved {env : Link → InjEnv} (r : Resources) (c : Nat)
    (conn : Connection) (type : RemoteType) (payload : RemotePayload) :
    r.Conserved (mudmSendMessageRemote env r c conn type payload).2 := by
  have hrefl := Resources.Conserved.refl r
  generalize hx : mudmSendMessageRemote env r c conn type payload = x
  cases mudmSendMessageRemote_outcome hx with
  | stopped => exact hrefl
  | freed rc pktd p _ hpkt => exact hrefl.put (holding_releasePktToFree (holding_allocPkt hpkt))
  | posted pktd p mro objs hpkt hobj =>
    have hmro := (holding_allocObject hobj).set mro fun _ =>
      { remoteRdmaObjPa := 0
        muCounter := if type = .rdmaWrite then payload.dataLength else 8
        error := 0
        localRequestId := payload.requestId
        localConnect := c }
    exact (hrefl.put (holding_keepPkt (holding_allocPkt hpkt))).put hmro.post

theorem rdmaReadOnTorus_conserved {env : Link → InjEnv} (r : Resources) (magic : Bool)
    (bytesXfer : Nat) (counterGiven pollActive : Bool) :
    r.Conserved (mudmRdmaReadOnTorus env r magic bytesXfer counterGiven pollActive).2 := by
  have hrefl := Resources.Conserved.refl r
  unfold mudmRdmaReadOnTorus
  split
  · exact hrefl
  · split
    · exact hrefl
    next pktd p hpkt =>
      have hpktd := holding_allocPkt hpkt
      split
      · exact hrefl.put (holding_releasePktToPoll hpktd)
      · have hfreed := hrefl.put (holding_releasePktToFree hpktd)
        dsimp only
        split
        · exact hfreed
        next mro objs hobj =>
          have hmro := (holding_allocObject hobj).set mro fun o =>
            { o with muCounter := bytesXfer, error := 0 }
          split
          · exact hfreed.put hmro.release
          · exact hfreed.put hmro.post

theorem connect_conserved {env : Link → InjEnv} {m : MyContext} {timeBase destNode : Nat}
    {req : IonetConnect} {res : CallResult}
    (h : mudmConnectPkt env r m timeBase destNode req = some (res, r')) : r.Conserved r' := by
  have hrefl := Resources.Conserved.refl r
  unfold mudmConnectPkt at h
  split at h
  · cases h
    exact hrefl
  · split at h
    · cases h
      exact hrefl
    · split at h
      · cases h
        exact hrefl
      next c m' _ =>
        dsimp only at h
        split at h
        · obtain ⟨res', -, hres⟩ := Option.map_eq_some_iff.mp h
          cases hres
          exact hrefl
        next pktd p hpkt =>
          obtain ⟨res', -, hres⟩ := Option.map_eq_some_iff.mp h
          cases hres
          exact hrefl.put (holding_keepConnPkt (holding_allocPkt hpkt))

theorem connReply_conserved {env : Link → InjEnv} {m : MyContext} {timeBase c : Nat}
    {reply : IonetConnect} {res : CallResult}
    (h : mudmConnReplyPkt env r m timeBase c reply = some (res, r')) : r.Conserved r' := by
  have hrefl := Resources.Conserved.refl r
  unfold mudmConnReplyPkt at h
  dsimp only at h
  split at h
  · cases h
    exact hrefl
  · split at h
    · cases h
      exact hrefl
    · split at h
      · cases h
        exact hrefl
      next pktd p hpkt =>
        have hpktd := holding_allocPkt hpkt
        obtain ⟨res', -, hres⟩ := Option.map_eq_some_iff.mp h
        cases hres
        apply hrefl.put
        split
        · exact holding_releasePktToFree hpktd
        · exact holding_keepConnPkt hpktd

/-- A block that is held is missing. -/
theorem not_conserved_of_holding {m : PoolName} {i : Nat} {p : Pool m.Block}
    (hp : Holding [i] (r m) p) (h : r' m = p) : ¬ r.Conserved r' := by
  intro hall
  exact hp.not_conserved (h ▸ hall m)

theorem pktImm_conserved_iff {magic : Bool} {dataLength : Nat} {memlengths : List Nat} :
    r.Conserved (mudmPktImm r magic dataLength memlengths).2 ↔
      ¬ (PoolCall.pktImm magic dataLength memlengths).Loses r := by
  have hrefl := Resources.Conserved.refl r
  unfold mudmPktImm PoolCall.Loses
  cases hmagic : magic with
  | false =>
    rw [if_pos rfl]
    exact iff_of_true hrefl nofun
  | true =>
    rw [if_neg Bool.noConfusion]
    split
    next hpkt => exact iff_of_true hrefl fun h => h.2.1 (Pool.take_none.mp hpkt)
    next pktd p hpkt =>
      have hpktd := holding_allocPkt hpkt
      have hfree : (r (.packetcontrols 0)).free ≠ [] := by
        intro hempty
        rw [allocPktMessage, Pool.take_none.mpr hempty] at hpkt
        cases hpkt
      by_cases hlength : low16 memlengths.sum = dataLength
      · rw [if_neg (not_not.mpr hlength)]
        refine iff_of_false ?_ (not_not.mpr ⟨rfl, hfree, hlength⟩)
        exact not_conserved_of_holding (m := .packetcontrols 0) hpktd
          (Resources.put_self r (.packetcontrols 0) p)
      · rw [if_pos hlength]
        exact iff_of_true (hrefl.put (holding_releasePktToFree hpktd)) fun h => hlength h.2.2

/-- The plan is complete: nothing but its puts decides whether it comes to the byte count. -/
theorem PlanFits.underruns_iff {w : Walk} (h : PlanFits q.toGetRequest puts true w) :
    q.Underruns ↔ q.Short puts := by
  constructor
  · rintro ⟨m, hm⟩
    have hlast := hm (puts.length + m) (Nat.le_add_left m _)
    rw [h.finished rfl m] at hlast
    exact hlast
  · intro hshort
    refine ⟨puts.length, fun rounds hrounds => ?_⟩
    obtain ⟨k, rfl⟩ := Nat.exists_eq_add_of_le hrounds
    rw [h.finished rfl k]
    exact hshort

theorem advance_totalbytes (w : Walk) : (w.advance q.localSgl q.remoteSgl).totalbytes = w.sum := by
  unfold Walk.advance
  dsimp only
  split
  · rfl
  · split
    · rfl
    · rfl

/-- As long as the count is not reached, it is what the puts add up to. -/
theorem sum_put {w : Walk} (htotal : w.totalbytes = (puts.map Put.length).sum % 2 ^ 32)
    (hlast : w.sum < q.bytesXfer) :
    w.sum = ((puts ++ [w.put (w.clipped q.bytesXfer)]).map Put.length).sum % 2 ^ 32 := by
  have hclipped : w.clipped q.bytesXfer = w.chunk := if_neg (by omega)
  rw [List.map_append, List.sum_append, hclipped, Walk.sum, htotal, Nat.mod_add_mod]
  rfl

/-- The last put is cut so that the puts add up to the byte count. -/
theorem sum_last {w : Walk} (htotal : w.totalbytes = (puts.map Put.length).sum % 2 ^ 32)
    (hlast : q.bytesXfer ≤ w.sum) :
    ¬ ((puts ++ [w.put (w.clipped q.bytesXfer)]).map Put.length).sum % 2 ^ 32 < q.bytesXfer := by
  have hsum : ((puts ++ [w.put (w.clipped q.bytesXfer)]).map Put.length).sum =
      (puts.map Put.length).sum + w.clipped q.bytesXfer := by
    rw [List.map_append, List.sum_append]
    rfl
  have hnow : w.sum = (w.totalbytes + w.chunk) % 2 ^ 32 := rfl
  rw [hsum]
  by_cases hcut : q.bytesXfer < w.sum
  · have hclipped : w.clipped q.bytesXfer =
        (q.bytesXfer + w.chunk + (2 ^ 64 - w.sum)) % 2 ^ 64 := if_pos hcut
    rw [hclipped]
    omega
  · have hclipped : w.clipped q.bytesXfer = w.chunk := if_neg hcut
    rw [hclipped]
    omega

/-- A remote get that loses its packet and its object, if it gets them. -/
def ReadRequest.Lossy (q : ReadRequest) : Prop := q.rdmaObject = 0 ∧ q.Underruns

/-- What the call holds, and what it has built and sent. -/
structure ReadOwns (puts : List Put) (pktd mro : Nat) (P : Pool PktDescriptor) (O : Pool MudmRdmaObject)
    (s : ReadCall) : Prop where
  packet : Holding [pktd] P s.packets
  object : Holding [mro] O s.objects
  lengths : s.lengths = puts.map Put.length
  sent : s.sent ≤ 8 * s.injections

/-- What the call has done with what it held when it returns. -/
structure ReadSettled (q : ReadRequest) (pktd : Nat) (P : Pool PktDescriptor)
    (O : Pool MudmRdmaObject) (s : ReadCall) : Prop where
  lost : q.Lossy → Holding [pktd] P s.packets
  kept : ¬ q.Lossy → Holding [] P s.packets ∧ Holding [] O s.objects

/-- What the call holds while it waits for its counter, and that the one wait behind which it loses what it
holds is for a counter that comes. -/
structure ReadCounts (q : ReadRequest) (pktd mro : Nat) (P : Pool PktDescriptor)
    (O : Pool MudmRdmaObject) (value : Nat) (s : ReadCall) : Prop where
  packet : Holding [pktd] P s.packets
  object : Holding [mro] O s.objects
  tooMany : q.bytesXfer < s.walk.totalbytes → ¬ q.Lossy
  tooFew : s.walk.totalbytes ≤ q.bytesXfer → q.rdmaObject = 0 → ∀ j ≤ s.sent,
    ((q.bytesXfer : Int) - (s.lengths.take j).sum) % 2 ^ 64 = value → q.Lossy

/-- What holds after every turn of the call. -/
def ReadLedger (q : ReadRequest) (pktd mro : Nat) (P : Pool PktDescriptor) (O : Pool MudmRdmaObject)
    (s : ReadCall) : Prop :=
  match s.phase with
  | .looping =>
    ∃ puts, ReadOwns puts pktd mro P O s ∧ ReadFits q s puts ∧
      s.walk.totalbytes = (puts.map Put.length).sum % 2 ^ 32 ∧
      (s.injections = 0 ↔ s.descCount = noDesc) ∧
      (0 < s.injections → 0 < s.putdescCount ∨ s.walk.live = true)
  | .waiting desc =>
    ∃ puts, ReadOwns puts pktd mro P O s ∧ PlanFits q.toGetRequest puts false s.walk ∧
      puts.length = 8 * s.injections ∧ s.walk.totalbytes = (puts.map Put.length).sum % 2 ^ 32 ∧
      0 < s.injections ∧ s.descCount = desc ∧ s.walk.live = true
  | .counting value => ReadCounts q pktd mro P O value s
  | .returned _ => ReadSettled q pktd P O s

/-- Behind the loop, with the plan complete. -/
theorem ReadOwns.finish {w : Walk} (h : ReadOwns puts pktd mro P O s)
    (hend : PlanFits q.toGetRequest puts true w)
    (hshort : (puts.map Put.length).sum % 2 ^ 32 < q.bytesXfer ↔ s.walk.totalbytes < q.bytesXfer)
    (htotal : s.walk.totalbytes < q.bytesXfer →
      s.walk.totalbytes = (puts.map Put.length).sum % 2 ^ 32)
    (hmany : 8 < puts.length ↔ s.descCount ≠ noDesc)
    (hfull : s.descCount ≠ noDesc → s.injections ≤ (puts.length - 1) / 8) :
    ReadLedger q pktd mro P O (s.finish env q pktd mro) := by
  have hpacket := h.packet
  have hobject := h.object
  have hunder : q.Lossy → s.descCount ≠ noDesc ∧ s.walk.totalbytes < q.bytesXfer := by
    intro hlossy
    have hputs := hend.underruns_iff.mp hlossy.2
    exact ⟨hmany.mp hputs.many, hshort.mp hputs.short⟩
  unfold ReadCall.finish
  by_cases hdone : s.walk.totalbytes = q.bytesXfer
  · rw [if_pos hdone]
    refine ⟨fun hlossy => absurd (hunder hlossy).2 (by omega), fun _ => ⟨?_, ?_⟩⟩
    · dsimp only
      rw [ReadCall.sendRest_packets]
      exact holding_keepPkt hpacket
    · dsimp only
      rw [ReadCall.sendRest_objects]
      exact hobject.post
  · rw [if_neg hdone]
    by_cases hnone : s.descCount = noDesc
    · rw [if_pos hnone]
      refine ⟨fun hlossy => absurd hnone (hunder hlossy).1, fun _ => ⟨?_, hobject.release⟩⟩
      exact holding_releasePktToFree hpacket
    · rw [if_neg hnone]
      by_cases hover : q.bytesXfer < s.walk.totalbytes
      · rw [if_pos hover]
        refine ⟨?_, ?_, fun _ hlossy => absurd (hunder hlossy).2 (by omega), fun hle => ?_⟩
        · show Holding [pktd] P (s.sendRest env).packets
          rw [ReadCall.sendRest_packets]
          exact hpacket
        · show Holding [mro] O (s.sendRest env).objects
          rw [ReadCall.sendRest_objects]
          exact hobject
        · have hwalk : (s.sendRest env).walk.totalbytes ≤ q.bytesXfer := hle
          rw [ReadCall.sendRest_walk] at hwalk
          omega
      · rw [if_neg hover]
        refine ⟨hpacket, hobject.set _ _, fun hmore => absurd hmore hover, ?_⟩
        intro _ hpa j hj hcounter
        have hless : s.walk.totalbytes < q.bytesXfer := by omega
        refine ⟨hpa, hend.underruns_iff.mpr ⟨hmany.mpr hnone, hshort.mpr hless, j, ?_, ?_⟩⟩
        · have hsent : j ≤ 8 * s.injections := le_trans hj h.sent
          exact hsent.trans (Nat.mul_le_mul_left 8 (hfull hnone))
        · rw [← htotal hless, ← h.lengths]
          exact hcounter

/-- The counter is what the call waits for. -/
theorem ReadCounts.counted {value : Nat} (h : ReadCounts q pktd mro P O value s)
    (hcounter : s.counter env q = value) : ReadLedger q pktd mro P O (s.counted q pktd mro) := by
  have hpacket := h.packet
  have hobject := h.object
  rw [ReadLedger, counted_phase]
  unfold ReadCall.counted
  by_cases hover : q.bytesXfer < s.walk.totalbytes
  · rw [if_pos (Or.inl hover)]
    refine ⟨fun hlossy => absurd hlossy (h.tooMany hover), fun _ => ⟨?_, hobject.release⟩⟩
    exact holding_releasePktToFree hpacket
  · by_cases hpa : q.rdmaObject = 0
    · have hlossy := h.tooFew (not_lt.mp hover) hpa _ (Nat.sub_le s.sent (env.behind s.looks)) hcounter
      rw [if_neg (not_or.mpr ⟨hover, not_not.mpr hpa⟩)]
      exact ⟨fun _ => hpacket, fun hkept => absurd hlossy hkept⟩
    · rw [if_pos (Or.inr hpa)]
      refine ⟨fun hlossy => absurd hlossy.1 hpa, fun _ => ⟨?_, hobject.release⟩⟩
      exact holding_releasePktToFree hpacket

/-- The bundle goes out, if the link is active. -/
theorem ReadOwns.dput (h : ReadOwns puts pktd mro P O s) (hlength : puts.length = 8 * (s.injections + 1)) :
    ReadOwns puts pktd mro P O (s.dput env) := by
  refine ⟨h.packet, h.object, h.lengths, ?_⟩
  have hold := h.sent
  show (if env.active s.injections then s.lengths.length else s.sent) ≤ 8 * (s.injections + 1)
  split
  · rw [h.lengths, List.length_map]
    exact hlength.le
  · omega

theorem turn_ledger (hnever : ∀ look, env.complete look noDesc = false)
    (h : ReadLedger q pktd mro P O s) : ReadLedger q pktd mro P O (s.turn env q pktd mro) := by
  cases hphase : s.phase with
  | looping =>
    rw [ReadLedger, hphase] at h
    obtain ⟨puts, howns, hfits, htotal, hnumber, hmore⟩ := h
    have hcount := hfits.count
    have hroom := hfits.room
    by_cases hlive : s.walk.live = true
    · by_cases hfull : s.putdescCount = 8
      · rw [turn_full env q pktd mro hphase hlive hfull]
        have hlength : puts.length = 8 * (s.injections + 1) := by omega
        have hsent : ReadOwns puts pktd mro P O (s.dput env) := howns.dput hlength
        exact ⟨puts, ⟨hsent.packet, hsent.object, hsent.lengths, hsent.sent⟩, hfits.plan, hlength,
          htotal, Nat.succ_pos _, rfl, hlive⟩
      · have hturn : s.turn env q pktd mro = s.build env q pktd mro := by
          simp only [ReadCall.turn, hphase, hlive, hfull, if_true, if_false]
        rw [hturn]
        have hlengths : s.lengths ++ [s.walk.clipped q.bytesXfer] =
            (puts ++ [s.walk.put (s.walk.clipped q.bytesXfer)]).map Put.length := by
          rw [howns.lengths, List.map_append]
          rfl
        by_cases hlast : q.bytesXfer ≤ s.walk.sum
        · unfold ReadCall.build
          simp only [if_pos hlast]
          have hlength : (puts ++ [s.walk.put (s.walk.clipped q.bytesXfer)]).length =
              8 * s.injections + (s.putdescCount + 1) := by
            rw [List.length_append, List.length_singleton, hcount]
            rfl
          have hbuilt : ReadOwns (puts ++ [s.walk.put (s.walk.clipped q.bytesXfer)]) pktd mro P O
              { s with
                putdescCount := s.putdescCount + 1
                lengths := s.lengths ++ [s.walk.clipped q.bytesXfer]
                walk := { s.walk with totalbytes := s.walk.sum } } :=
            ⟨howns.packet, howns.object, hlengths, howns.sent⟩
          apply hbuilt.finish (hfits.plan.last hlive hlast s.walk)
          · exact iff_of_false (sum_last htotal hlast) (not_lt.mpr hlast)
          · exact fun hless => absurd hlast (not_le.mpr hless)
          · show _ ↔ s.descCount ≠ noDesc
            rw [hlength, Ne, ← hnumber]
            omega
          · intro _
            show s.injections ≤ _
            omega
        · have hless := not_le.mp hlast
          obtain ⟨heq, hbuilt⟩ := hfits.build env q pktd mro hlive hfull hless
          rw [heq] at hbuilt ⊢
          rw [ReadLedger, hphase]
          refine ⟨_, ⟨howns.packet, howns.object, hlengths, howns.sent⟩,
            ⟨hbuilt.plan, hbuilt.count, hbuilt.room⟩, ?_, hnumber, fun _ => Or.inl (Nat.succ_pos _)⟩
          rw [advance_totalbytes]
          exact sum_put htotal hless
    · have hturn : s.turn env q pktd mro = s.finish env q pktd mro := by
        simp only [ReadCall.turn, hphase, if_neg hlive]
      rw [hturn]
      have hsome : 0 < s.injections → 0 < s.putdescCount := fun hinj =>
        (hmore hinj).resolve_right hlive
      apply howns.finish (hfits.plan.ended (Bool.not_eq_true _ ▸ hlive))
      · rw [htotal]
      · exact fun _ => htotal
      · rw [Ne, ← hnumber]
        omega
      · intro _
        omega
  | waiting desc =>
    rw [ReadLedger, hphase] at h
    obtain ⟨puts, howns, hplan, hlength, htotal, hinj, hdesc, hlive⟩ := h
    cases hnow : env.complete s.looks desc with
    | false =>
      rw [turn_looks env q pktd mro hphase hnow]
      rw [ReadLedger, hphase]
      exact ⟨puts, ⟨howns.packet, howns.object, howns.lengths, howns.sent⟩, hplan, hlength, htotal, hinj,
        hdesc, hlive⟩
    | true =>
      have hreal : s.descCount ≠ noDesc := by
        rintro hnone
        rw [← hdesc, hnone, hnever] at hnow
        cases hnow
      simp only [ReadCall.turn, hphase, hnow, if_true]
      refine ⟨puts, ⟨howns.packet, howns.object, howns.lengths, howns.sent⟩,
        ⟨hplan, hlength, Nat.zero_le 8⟩, htotal, ?_, fun _ => Or.inr hlive⟩
      exact iff_of_false (Nat.ne_of_gt hinj) hreal
  | counting value =>
    rw [ReadLedger, hphase] at h
    simp only [ReadCall.turn, hphase]
    split
    next hcounter => exact h.counted hcounter
    next => exact ⟨h.packet, h.object, h.tooMany, h.tooFew⟩
  | returned rc =>
    simp only [ReadCall.turn, hphase]
    exact h

theorem turns_ledger (hnever : ∀ look, env.complete look noDesc = false)
    {packets : Pool PktDescriptor} {objects : Pool MudmRdmaObject} (hpacket : Holding [pktd] P packets)
    (hobject : Holding [mro] O objects) (n : Nat) :
    ReadLedger q pktd mro P O
      ((ReadCall.turn env q pktd mro)^[n] (ReadCall.start q packets objects)) := by
  induction n with
  | zero =>
    refine ⟨[], ⟨hpacket, hobject, rfl, Nat.zero_le _⟩, readFits_start q packets objects, rfl, ?_,
      fun h => ?_⟩
    · exact iff_of_true rfl rfl
    · cases h
  | succ n ih =>
    rw [Function.iterate_succ_apply']
    exact turn_ledger hnever ih

theorem rdmaRead_conserved_iff {env : Link → InjEnv}
    (hnever : ∀ k look, (env k).complete look noDesc = false) {n : Nat}
    (h : mudmRdmaReadCall env r q n = (.returned rc, r')) :
    r.Conserved r' ↔ ¬ (PoolCall.rdmaRead q).Loses r := by
  have hrefl := Resources.Conserved.refl r
  unfold PoolCall.Loses
  cases mudmRdmaReadCall_outcome h with
  | stopped _ hstop _ hr =>
    subst hr
    refine iff_of_true hrefl fun hl => ?_
    rcases hstop with ⟨hmagic, -⟩ | ⟨hempty, -⟩
    · exact absurd (hmagic.symm.trans hl.1) Bool.false_ne_true
    · exact hl.2.1 hempty
  | freed pktd packets hpkt hobj _ hr =>
    subst hr
    exact iff_of_true (hrefl.put (holding_releasePktToFree (holding_allocPkt hpkt))) fun hl =>
      hl.2.2.1 hobj
  | entered pktd packets mro objects s hmagic hpkt hobj hs hphase hr =>
    have hmro := (holding_allocObject hobj).set mro fun _ => q.object
    have hend := turns_ledger (q := q) (hnever q.conn.injfifoCtls) (holding_allocPkt hpkt) hmro n
    rw [← hs, ReadLedger, hphase] at hend
    subst hr
    have hfree : (r q.conn.packets).free ≠ [] ∧ (r q.conn.objects).free ≠ [] := by
      refine ⟨fun hempty => ?_, fun hempty => ?_⟩
      · rw [allocPktMessage, Pool.take_none.mpr hempty] at hpkt
        cases hpkt
      · rw [allocateRdmaObject, Pool.take_none.mpr hempty] at hobj
        cases hobj
    by_cases hlossy : q.Lossy
    · refine iff_of_false ?_ (not_not.mpr ⟨hmagic, hfree.1, hfree.2, hlossy⟩)
      apply not_conserved_of_holding (m := q.conn.packets) (hend.lost hlossy)
      rw [Resources.put_of_ne _ _ PoolName.noConfusion, Resources.put_self]
    · obtain ⟨hpackets, hobjects⟩ := hend.kept hlossy
      exact iff_of_true ((hrefl.put hpackets).put hobjects) fun hl => hlossy hl.2.2.2

/-- A call leaves every block that it took on one of the lists, exactly once, unless it is one of those
that lose them. -/
theorem pools_conserved_iff {env : Link → InjEnv}
    (hnever : ∀ k look, (env k).complete look noDesc = false) (call : PoolCall)
    (h : call.Returns env r r') : r.Conserved r' ↔ ¬ call.Loses r := by
  cases call with
  | sendPkt conn requestId payloadLength =>
    obtain ⟨n, rc, hcall⟩ := h
    have hkept := sendPkt_conserved env r conn requestId payloadLength n
    rw [hcall] at hkept
    exact iff_of_true hkept not_false
  | sendMessageRemote c conn type payload =>
    cases h
    exact iff_of_true (sendMessageRemote_conserved r c conn type payload) not_false
  | rdmaRead q =>
    obtain ⟨n, rc, hcall⟩ := h
    exact rdmaRead_conserved_iff hnever hcall
  | rdmaReadOnTorus magic bytesXfer counterGiven pollActive =>
    cases h
    exact iff_of_true (rdmaReadOnTorus_conserved r magic bytesXfer counterGiven pollActive) not_false
  | pktImm magic dataLength memlengths =>
    cases h
    exact pktImm_conserved_iff
  | connect m timeBase destNode req =>
    obtain ⟨res, hcall⟩ := h
    exact iff_of_true (connect_conserved hcall) not_false
  | connReply m timeBase c reply =>
    obtain ⟨res, hcall⟩ := h
    exact iff_of_true (connReply_conserved hcall) not_false

theorem pools_conserved_iff_immediate :
    ∃ r', (PoolCall.pktImm true 5 [2, 2]).Returns (fun _ => goingDown 1) oneOfEach r' ∧
      (oneOfEach.Conserved r' ↔ ¬ (PoolCall.pktImm true 5 [2, 2]).Loses oneOfEach) :=
  ⟨_, rfl, pools_conserved_iff (fun _ look => (goingDown_serves (by decide)).never look) _
    (show (PoolCall.pktImm true 5 [2, 2]).Returns (fun _ => goingDown 1) oneOfEach _ from rfl)⟩

/-- Eight pieces of 10 bytes and an empty one, where 100 bytes are asked for. -/
def emptyNinth : ReadRequest :=
  { ninePieces with
    localSgl := fun i => if i = 8 then ⟨4096 * 9, 0⟩ else ninePieces.localSgl i
    remoteSgl := fun i => if i = 8 then ⟨4096 * 9, 0⟩ else ninePieces.remoteSgl i
    bytesXfer := 100 }

theorem emptyNinth_underruns : emptyNinth.Underruns := by
  refine ⟨10, fun rounds hrounds => ?_⟩
  obtain ⟨k, rfl⟩ := Nat.exists_eq_add_of_le' hrounds
  have hplan : emptyNinth.plan (k + 10) emptyNinth.start = emptyNinth.plan 10 emptyNinth.start := rfl
  rw [hplan]
  exact ⟨by decide, by decide, 8, by decide, by decide⟩

/-- An immediate packet of 4 bytes in two parts takes the only packet with it, and a remote get that
comes to 80 of 100 bytes, with a ninth piece of none, the only packet and the only object. -/
theorem taken_blocks_lost :
    (∃ r', (PoolCall.pktImm true 4 [2, 2]).Returns (fun _ => goingDown 1) oneOfEach r' ∧
      ¬ oneOfEach.Conserved r') ∧
    ∃ r', (PoolCall.rdmaRead emptyNinth).Returns (fun _ => goingDown 1) oneOfEach r' ∧
      ¬ oneOfEach.Conserved r' := by
  refine ⟨⟨_, rfl, fun hkept => ?_⟩, ?_⟩
  · exact pktImm_conserved_iff.mp hkept ⟨rfl, nofun, rfl⟩
  · have hreturned : (mudmRdmaReadCall (fun _ => goingDown 1) oneOfEach emptyNinth 13).1 =
        .returned (-EINVAL) := by decide
    refine ⟨_, ⟨13, -EINVAL, Prod.ext hreturned rfl⟩, fun hkept => ?_⟩
    have hnever : ∀ (k : Link) look, ((fun _ => goingDown 1) k).complete look noDesc = false :=
      fun _ look => (goingDown_serves (by decide)).never look
    refine (rdmaRead_conserved_iff hnever (Prod.ext hreturned rfl)).mp hkept ?_
    exact ⟨rfl, nofun, nofun, rfl, emptyNinth_underruns⟩

/-- The pools apart, the calls are those of the connection layer. -/
theorem mudmConnectPkt_result {env : Link → InjEnv} {m : MyContext} {timeBase destNode : Nat}
    {req : IonetConnect} :
    ∃ callEnv, (mudmConnectPkt env r m timeBase destNode req).map Prod.fst =
      mudmConnect m callEnv destNode req := by
  unfold mudmConnectPkt mudmConnect
  by_cases hmagic : m.magic = false
  · exact ⟨default, by rw [if_pos hmagic, if_pos hmagic]; rfl⟩
  · simp only [if_neg hmagic]
    by_cases hlength : mudmMaxPrivateData < req.body.privateData.length
    · exact ⟨default, by rw [if_pos hlength, if_pos hlength]; rfl⟩
    · simp only [if_neg hlength]
      cases hget : connListGetfree m timeBase with
      | none =>
        refine ⟨⟨false, false, timeBase⟩, ?_⟩
        simp only [hget]
        rfl
      | some taken =>
        obtain ⟨c, m'⟩ := taken
        dsimp only
        generalize hgo : m'.modify c (Connection.orientRequest m' destNode) = m''
        cases hpkt : allocPktMessage (r (m''.conn c).packets) with
        | none =>
          refine ⟨(env (m''.conn c).injfifoCtls).callEnv false timeBase, ?_⟩
          simp only [InjEnv.callEnv, hget, hgo, Option.map_map]
          exact congrFun Option.map_id _
        | some packet =>
          refine ⟨(env (m''.conn c).injfifoCtls).callEnv true timeBase, ?_⟩
          simp only [InjEnv.callEnv, hget, hgo, Option.map_map]
          exact congrFun Option.map_id _

theorem mudmConnReplyPkt_result {env : Link → InjEnv} {m : MyContext} {timeBase c : Nat}
    {reply : IonetConnect} :
    ∃ callEnv, (mudmConnReplyPkt env r m timeBase c reply).map Prod.fst =
      mudmConnReply m callEnv c reply := by
  unfold mudmConnReplyPkt mudmConnReply
  dsimp only
  generalize (m.modify c fun k => { k with memfifoSent := 0 }) = m'
  by_cases hlength : mudmMaxPrivateData < reply.body.privateData.length
  · exact ⟨default, by rw [if_pos hlength, if_pos hlength]; rfl⟩
  · simp only [if_neg hlength]
    by_cases hmagic : (m'.conn c).magic = false ∨ m'.magic = false
    · exact ⟨default, by rw [if_pos hmagic, if_pos hmagic]; rfl⟩
    · simp only [if_neg hmagic]
      cases hpkt : allocPktMessage (r (m'.conn c).packets) with
      | none => exact ⟨⟨false, false, timeBase⟩, rfl⟩
      | some packet =>
        refine ⟨(env (m'.conn c).injfifoCtls).callEnv true timeBase, ?_⟩
        simp only [InjEnv.callEnv, if_true, Option.map_map]
        exact congrFun Option.map_id _

end BgqVrnic
