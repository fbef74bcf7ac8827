import Mathlib.Logic.Relation
import BgqVrnic.MuActivations

namespace BgqVrnic.Links

open InjOwners BaseAddresses Loops

section Looks

/-- What the registers say after a reset of the hardware. -/
def Looks.reset : Looks :=
  ⟨fun _ => ⟨0, ⟨0x3f, 0, 0, 0⟩, false, true, false, false⟩,
    fun _ => ⟨0, ⟨0x1F, 0, 0, 0⟩, true, false, false, false⟩, fun _ => ⟨freeEntry, true⟩⟩

structure Looks.SameOn (sub : Nat) (l l' : Looks) : Prop where
  inj : ∀ u, Within sub u.1 u.2.1 → l.inj u = l'.inj u
  rcv : ∀ u, Within sub u.1 u.2.1 → l.rcv u = l'.rcv u
  bat : ∀ u, subOf u = sub → l.bat u = l'.bat u

variable {sub other : Nat} {l l' l'' : Looks} {m : MuSubgroupMemory}

theorem Looks.SameOn.refl (sub : Nat) (l : Looks) : l.SameOn sub l :=
  ⟨fun _ _ => rfl, fun _ _ => rfl, fun _ _ => rfl⟩

theorem Looks.SameOn.trans (h : l.SameOn sub l') (h' : l'.SameOn sub l'') : l.SameOn sub l'' :=
  ⟨fun u hu => (h.inj u hu).trans (h'.inj u hu), fun u hu => (h.rcv u hu).trans (h'.rcv u hu),
    fun u hu => (h.bat u hu).trans (h'.bat u hu)⟩

/-- What the registers say, without what traffic changes of it. -/
def Looks.settings (l : Looks) : Looks :=
  ⟨fun u => { l.inj u with hw := ⟨(l.inj u).hw.size1, 0, 0, 0⟩ },
    fun u => { l.rcv u with hw := { (l.rcv u).hw with paHead := 0, paTail := 0 } }, l.bat⟩

theorem Looks.SameOn.settings (h : l.SameOn sub l') : l.settings.SameOn sub l'.settings := by
  refine ⟨fun u hu => ?_, fun u hu => ?_, h.bat⟩
  · simp only [Looks.settings, h.inj u hu]
  · simp only [Looks.settings, h.rcv u hu]

/-- What the registers say once a link has been activated. -/
def MuSubgroupMemory.configured (m : MuSubgroupMemory) (l : Looks) : Looks :=
  ⟨m.injFifos l.inj, m.recFifos l.rcv,
    fun u => if subOf u = m.subgroupID then ⟨m.batvalues u.2.2, true⟩ else l.bat u⟩

/-- A link's activation takes what it finds in the subgroup and nothing else. -/
theorem within_ne (hne : other ≠ sub) {g s : Nat} (h : Within other g s) : ¬ Within sub g s := by
  intro h'
  obtain ⟨hg, hs⟩ := h
  obtain ⟨hg', hs'⟩ := h'
  simp only [numFifoSubgroups] at hg hs hg' hs'
  omega

/-- Everything in a subgroup is the system's. -/
structure Looks.SystemOn (sub : Nat) (l : Looks) : Prop where
  inj : ∀ u, Within sub u.1 u.2.1 → (l.inj u).system = true
  rcv : ∀ u, Within sub u.1 u.2.1 → (l.rcv u).system = true
  bat : ∀ u, subOf u = sub → (l.bat u).system = true

theorem Looks.SystemOn.of_same (h : l'.SystemOn sub) (hs : l.SameOn sub l') : l.SystemOn sub :=
  ⟨fun u hu => (congrArg InjLook.system (hs.inj u hu)).trans (h.inj u hu),
    fun u hu => (congrArg RecLook.system (hs.rcv u hu)).trans (h.rcv u hu),
    fun u hu => (congrArg EntryView.system (hs.bat u hu)).trans (h.bat u hu)⟩

/-- The reset of one link leaves a link that is the system's alone. -/
theorem release_other (hne : other ≠ sub) (h : l.SystemOn other) : ((l.hold sub).release sub).SameOn other l := by
  refine ⟨fun u hu => ?_, fun u hu => ?_, fun u hu => ?_⟩
  · have hnot := within_ne hne hu
    have hsystem := h.inj u hu
    simp only [Looks.release, Looks.hold, if_neg hnot, hsystem, Bool.true_or]
    rw [← hsystem]
  · have hnot := within_ne hne hu
    have hsystem := h.rcv u hu
    simp only [Looks.release, Looks.hold, if_neg hnot, hsystem, Bool.true_or]
    rw [← hsystem]
  · have hsystem := h.bat u hu
    have hnot : subOf u ≠ sub := fun he => hne (hu.symm.trans he)
    simp only [Looks.release, Looks.hold, hnot, false_and, if_false]
    rw [← hsystem]

end Looks

/-- A link's structures for its FIFOs: they lead to them, and are as fresh as the FIFOs. -/
structure MuSubgroupMemory.InjFresh (m : MuSubgroupMemory) : Prop where
  hwfifo : (m.ififoSubgroup.fifos 0).hwfifo =
    some ⟨.injFifo (m.subgroupID / numFifoSubgroups) (m.subgroupID % numFifoSubgroups) 0, true⟩
  shadow : ∃ free, m.injShadow = Function.update (fun _ => .cleared) 0 (m.injFresh free)

structure MuSubgroupMemory.RecFresh (m : MuSubgroupMemory) : Prop where
  hwfifo : (m.rfifoSubgroup.fifos 0).hwfifo =
    some ⟨.recFifo (m.subgroupID / numFifoSubgroups) (m.subgroupID % numFifoSubgroups) 0, true⟩
  shadow : m.recShadow = Function.update (fun _ => .cleared) 0 m.recFresh
  interrupts : m.clearInterruptsMask = m.interrupts

/-- A link that can be activated: its FIFOs are as a reset leaves them, and its table is nobody's or its own. -/
structure Ready (m : MuSubgroupMemory) (mu : Mu) : Prop where
  good : m.Good
  inj : ∀ u, Within m.subgroupID u.1 u.2.1 → mu.looks.inj u = Looks.reset.inj u
  rcv : ∀ u, Within m.subgroupID u.1 u.2.1 → mu.looks.rcv u = Looks.reset.rcv u
  table : TableReady m.subgroupID m.bat mu.bat

/-- A link with its table, and then one that can send. -/
structure Tabled (m : MuSubgroupMemory) (mu : Mu) : Prop where
  good : m.Good
  held : m.TableHeld
  regs : mu.looks.SameOn m.subgroupID { Looks.reset with bat := (m.configured .reset).bat }

structure Sending (m : MuSubgroupMemory) (mu : Mu) : Prop where
  good : m.Good
  held : m.TableHeld
  inj : m.InjFresh
  regs : mu.looks.SameOn m.subgroupID { m.configured .reset with rcv := Looks.reset.rcv }

/-- A link that has just been activated. -/
structure Fresh (m : MuSubgroupMemory) (mu : Mu) : Prop where
  good : m.Good
  held : m.TableHeld
  inj : m.InjFresh
  rcv : m.RecFresh
  regs : mu.looks.SameOn m.subgroupID (m.configured .reset)

/-- A link that is in use: the registers hold what has been written down about it, apart from what is in the FIFOs,
and the structures lead to them. -/
structure Configured (m : MuSubgroupMemory) (mu : Mu) : Prop where
  good : m.Good
  held : m.TableHeld
  ififo : (m.ififoSubgroup.fifos 0).hwfifo =
    some ⟨.injFifo (m.subgroupID / numFifoSubgroups) (m.subgroupID % numFifoSubgroups) 0, true⟩
  rfifo : (m.rfifoSubgroup.fifos 0).hwfifo =
    some ⟨.recFifo (m.subgroupID / numFifoSubgroups) (m.subgroupID % numFifoSubgroups) 0, true⟩
  interrupts : m.clearInterruptsMask = m.interrupts
  regs : mu.looks.settings.SameOn m.subgroupID (m.configured .reset).settings

section Link

variable {m : MuSubgroupMemory} {mu mu' : Mu}

theorem Fresh.configured (h : Fresh m mu) : Configured m mu :=
  ⟨h.good, h.held, h.inj.hwfifo, h.rcv.hwfifo, h.rcv.interrupts, h.regs.settings⟩

theorem Configured.systemOn (h : Configured m mu) : mu.looks.SystemOn m.subgroupID := by
  refine ⟨fun u hu => ?_, fun u hu => ?_, fun u hu => ?_⟩
  · have hinj := congrArg InjLook.system (h.regs.inj u hu)
    refine Eq.trans hinj ?_
    simp only [Looks.settings, MuSubgroupMemory.configured, MuSubgroupMemory.injFifos]
    split <;> rfl
  · have hrcv := congrArg RecLook.system (h.regs.rcv u hu)
    refine Eq.trans hrcv ?_
    simp only [Looks.settings, MuSubgroupMemory.configured, MuSubgroupMemory.recFifos]
    split <;> rfl
  · have hbat := congrArg EntryView.system (h.regs.bat u hu)
    refine Eq.trans hbat ?_
    simp only [Looks.settings, MuSubgroupMemory.configured, if_pos hu]

/-- A condition on a link that makes its subgroup the system's, and that the registers of others do not matter
to. -/
structure Stable (P : MuSubgroupMemory → Mu → Prop) : Prop where
  system : ∀ m mu, P m mu → mu.looks.SystemOn m.subgroupID
  same : ∀ m mu mu', P m mu → mu'.looks.SameOn m.subgroupID mu.looks → P m mu'

theorem ready_stable : Stable Ready := by
  refine ⟨fun m mu h => ⟨fun u hu => congrArg InjLook.system (h.inj u hu),
    fun u hu => congrArg RecLook.system (h.rcv u hu), h.table.1⟩, fun m mu mu' h hs => ?_⟩
  refine ⟨h.good, fun u hu => (hs.inj u hu).trans (h.inj u hu), fun u hu => (hs.rcv u hu).trans (h.rcv u hu),
    fun u hu => ?_, ?_⟩
  · exact (congrArg EntryView.system (hs.bat u hu)).trans (h.table.1 u hu)
  · have hvalue : ∀ u, subOf u = m.subgroupID →
        (BaseAddresses.view mu'.bat u).value = (BaseAddresses.view mu.bat u).value := fun u hu =>
      congrArg EntryView.value (hs.bat u hu)
    rcases h.table.2 with hfree | ⟨htaken, hrest⟩
    · exact .inl fun u hu => (hvalue u hu).trans (hfree u hu)
    · exact .inr ⟨fun u hu => hvalue u hu ▸ htaken u hu, hrest⟩

theorem tabled_stable : Stable Tabled := by
  refine ⟨fun m mu h => Looks.SystemOn.of_same ⟨fun _ _ => rfl, fun _ _ => rfl, fun u hu => ?_⟩ h.regs,
    fun m mu mu' h hs => ⟨h.good, h.held, hs.trans h.regs⟩⟩
  simp only [MuSubgroupMemory.configured, if_pos hu]

theorem sending_stable : Stable Sending := by
  refine ⟨fun m mu h => Looks.SystemOn.of_same ⟨fun u hu => ?_, fun _ _ => rfl, fun u hu => ?_⟩ h.regs,
    fun m mu mu' h hs => ⟨h.good, h.held, h.inj, hs.trans h.regs⟩⟩
  · simp only [MuSubgroupMemory.configured, MuSubgroupMemory.injFifos]
    split <;> rfl
  · simp only [MuSubgroupMemory.configured, if_pos hu]

theorem fresh_stable : Stable Fresh :=
  ⟨fun _ _ h => h.configured.systemOn, fun _ _ _ h hs => ⟨h.good, h.held, h.inj, h.rcv, hs.trans h.regs⟩⟩

/-- A reset makes a link that is in use ready for its next activation. -/
theorem Configured.reset (h : Configured m mu) : ∃ mu', resetLink m.subgroupID mu = some mu' ∧ Ready m mu' ∧
    ∀ other, other ≠ m.subgroupID → mu.looks.SystemOn other → mu'.looks.SameOn other mu.looks := by
  obtain ⟨mu', hreset, hlooks⟩ := resetLink_looks mu h.good.inside
  refine ⟨mu', hreset, ⟨h.good, fun u hu => ?_, fun u hu => ?_, fun u hu => ?_, .inr ⟨fun u hu => ?_, h.held.hwBat,
    h.held.permissions⟩⟩, fun other hne hsystem => ?_⟩
  · rw [hlooks]
    simp only [Looks.release, Looks.hold, if_pos hu]
    rfl
  · have hcount : (mu.looks.rcv u).hw.descCount = 0 := by
      have hregs := congrArg (fun k => k.hw.descCount) (h.regs.rcv u hu)
      refine Eq.trans hregs ?_
      simp only [Looks.settings, MuSubgroupMemory.configured, MuSubgroupMemory.recFifos]
      split <;> rfl
    rw [hlooks]
    simp only [Looks.release, Looks.hold, if_pos hu, RecLook.clear, hcount]
    rfl
  · have hbat := congrArg (fun l => l.bat u) hlooks
    exact congrArg EntryView.system hbat
  · have hbat := congrArg (fun l => (l.bat u).value) hlooks
    have hold := congrArg EntryView.value (h.regs.bat u hu)
    have hsystem := h.systemOn.bat u hu
    simp only [Looks.settings, MuSubgroupMemory.configured, if_pos hu] at hold
    simp only [Looks.release, Looks.hold, hsystem, Bool.true_eq_false, and_false, if_false, hold] at hbat
    intro hfree
    exact h.good.batvalues _ u.2.2.isLt (hbat.symm.trans hfree)
  · rw [hlooks]
    exact release_other hne hsystem

/-- What a turn of a loop over the links comes to: its link gets on, and whatever else is the system's stays as it
is. -/
def GetsTo (post : MuSubgroupMemory → Mu → Prop) (m : MuSubgroupMemory) (mu : Mu)
    (r : Option (MuSubgroupMemory × Mu)) : Prop :=
  ∃ m' mu', r = some (m', mu') ∧ m'.subgroupID = m.subgroupID ∧ post m' mu' ∧
    ∀ other, other ≠ m.subgroupID → mu.looks.SystemOn other → mu'.looks.SameOn other mu.looks

theorem GetsTo.bind {mid post : MuSubgroupMemory → Mu → Prop} {r : Option (MuSubgroupMemory × Mu)}
    {next : MuSubgroupMemory × Mu → Option (MuSubgroupMemory × Mu)} (h : GetsTo mid m mu r)
    (hnext : ∀ m' mu', mid m' mu' → GetsTo post m' mu' (next (m', mu'))) : GetsTo post m mu (r.bind next) := by
  obtain ⟨m₁, mu₁, rfl, hsub₁, hmid, hother₁⟩ := h
  obtain ⟨m₂, mu₂, hr, hsub₂, hpost, hother₂⟩ := hnext m₁ mu₁ hmid
  refine ⟨m₂, mu₂, hr, hsub₂.trans hsub₁, hpost, fun other hne hsystem => ?_⟩
  have hsame := hother₁ other hne hsystem
  exact (hother₂ other (hsub₁ ▸ hne) (hsystem.of_same hsame)).trans hsame

theorem Ready.activateTable (h : Ready m mu) : GetsTo Tabled m mu (activateBaseAddressTable m mu) := by
  obtain ⟨bat, batRegs, htable, hheld, hview⟩ := Links.activateTable h.good h.table
  refine ⟨_, _, htable, rfl, ⟨{ h.good with }, hheld, ⟨h.inj, h.rcv, fun u hu => ?_⟩⟩, fun other hne _ => ?_⟩
  · refine (hview u).trans ?_
    simp only [MuSubgroupMemory.configured, if_pos (show subOf u = m.subgroupID from hu)]
  · refine ⟨fun _ _ => rfl, fun _ _ => rfl, fun u hu => (hview u).trans (if_neg ?_)⟩
    exact fun h => hne (hu.symm.trans h)

theorem Tabled.activateInj (freeSpace : HwFifo → UInt64) (priority : Bool) (h : Tabled m mu) :
    GetsTo Sending m mu ((activateInjfifos freeSpace priority m mu).map Prod.snd) := by
  obtain ⟨sg, free, mu', hrun, hhw, hlooks⟩ := Links.activateInj freeSpace priority h.good fun u hu =>
    congrArg InjLook.start (h.regs.inj u hu)
  rw [hrun]
  refine ⟨_, _, rfl, rfl, ⟨{ h.good with }, ⟨h.held.1, h.held.2, h.held.3⟩, ⟨hhw, free, rfl⟩, ?_⟩,
    fun other hne _ => ?_⟩
  · rw [hlooks]
    refine ⟨fun u hu => ?_, h.regs.rcv, h.regs.bat⟩
    have hold := h.regs.inj u hu
    simp only [MuSubgroupMemory.configured, MuSubgroupMemory.injFifos, hold]
  · rw [hlooks]
    exact ⟨fun u hu => if_neg fun h => within_ne hne hu h.1, fun _ _ => rfl, fun _ _ => rfl⟩

theorem Sending.activateRec (h : Sending m mu) :
    GetsTo Fresh m mu ((activateRecfifos m mu).map Prod.snd) := by
  obtain ⟨sg, mu', hrun, hhw, hlooks⟩ := Links.activateRec h.good fun u hu =>
    congrArg RecLook.start (h.regs.rcv u hu)
  rw [hrun]
  refine ⟨_, _, rfl, rfl, ⟨{ h.good with }, ⟨h.held.1, h.held.2, h.held.3⟩, ⟨h.inj.1, h.inj.2⟩, ⟨hhw, rfl, rfl⟩, ?_⟩,
    fun other hne _ => ?_⟩
  · rw [hlooks]
    refine ⟨h.regs.inj, fun u hu => ?_, h.regs.bat⟩
    have hold := h.regs.rcv u hu
    simp only [MuSubgroupMemory.configured, MuSubgroupMemory.recFifos, hold]
  · rw [hlooks]
    exact ⟨fun _ _ => rfl, fun u hu => if_neg fun h => within_ne hne hu h.1, fun _ _ => rfl⟩

theorem Ready.activate (freeSpace : HwFifo → UInt64) (priority : Bool) (h : Ready m mu) :
    GetsTo Fresh m mu (activateLink freeSpace priority m mu) :=
  h.activateTable.bind fun _ _ h => (h.activateInj freeSpace priority).bind fun _ _ h => h.activateRec

theorem Configured.of_same (h : Configured m mu) (hs : mu'.looks.SameOn m.subgroupID mu.looks) : Configured m mu' :=
  ⟨h.good, h.held, h.ififo, h.rfifo, h.interrupts, hs.settings.trans h.regs⟩

/-- What goes on at a link between two resets: its FIFOs are filled and emptied. -/
def MuSubgroupMemory.Traffic (m m' : MuSubgroupMemory) : Prop :=
  ∃ inj rcv, m' = { m with injShadow := inj, recShadow := rcv }

theorem Configured.traffic {m' : MuSubgroupMemory} (h : Configured m mu) (hm : m.Traffic m')
    (hregs : mu'.looks.settings.SameOn m.subgroupID mu.looks.settings) : Configured m' mu' := by
  obtain ⟨inj, rcv, rfl⟩ := hm
  exact ⟨{ h.good with }, ⟨h.held.1, h.held.2, h.held.3⟩, h.ififo, h.rfifo, h.interrupts, hregs.trans h.regs⟩

end Link

section Node

/-- What happens at the node: traffic at the links, with anything in the subgroups of others; and resets of links. -/
inductive Step (freeSpace : HwFifo → UInt64) (s s' : Node) : Prop
  | traffic (mem : ∀ l, (s.mem l).Traffic (s'.mem l))
      (regs : ∀ l, s'.mu.looks.settings.SameOn (s.mem l).subgroupID s.mu.looks.settings)
  | reset (priority flagged : Link → Bool) (h : s.resetIOlink freeSpace priority flagged = some s')

/-- The node as `mudm_init` finds it. -/
structure Node.Unused (s : Node) : Prop where
  subgroups : ∀ l, (s.mem l).subgroupID = initSubgroupId l
  good : ∀ l, (s.mem l).Good
  regs : ∀ l, s.mu.looks.SameOn (s.mem l).subgroupID .reset

structure Node.Running (s : Node) : Prop where
  subgroups : ∀ l, (s.mem l).subgroupID = initSubgroupId l
  configured : ∀ l, Configured (s.mem l) s.mu

/-- The links of a reset start afresh, and nothing happens to the others. -/
def Node.ResetTo (flagged : Link → Bool) (s s' : Node) : Prop :=
  ∀ l, if flagged l then Fresh (s'.mem l) s'.mu
    else s'.mem l = s.mem l ∧ s'.mu.looks.SameOn (s.mem l).subgroupID s.mu.looks

variable {freeSpace : HwFifo → UInt64} {flagged : Link → Bool} {s s' : Node}
  {f : Link → MuSubgroupMemory → Mu → Option (MuSubgroupMemory × Mu)}

theorem initSubgroupId_ne {k l : Link} (h : k ≠ l) : initSubgroupId k ≠ initSubgroupId l := by
  have hall : ∀ k l : Link, k ≠ l → initSubgroupId k ≠ initSubgroupId l := by decide
  exact hall k l h

/-- A loop over the links, each turn of which gets its link on. -/
theorem eachLink_gets {pre post : Link → MuSubgroupMemory → Mu → Prop}
    (hpre : ∀ l, Stable (pre l)) (hpost : ∀ l, Stable (post l))
    (hturn : ∀ l m mu, pre l m mu → GetsTo (post l) m mu (f l m mu))
    (hsub : ∀ l, (s.mem l).subgroupID = initSubgroupId l) (h : ∀ l, pre l (s.mem l) s.mu) :
    ∃ s', s.eachLink f = some s' ∧ (∀ l, (s'.mem l).subgroupID = initSubgroupId l) ∧
      ∀ l, post l (s'.mem l) s'.mu := by
  have hall : ∀ l : Link, l ∈ ([0, 1] : List Link) := by decide
  have hone : ∀ l (s : Node), (∀ k, (s.mem k).subgroupID = initSubgroupId k) ∧ pre l (s.mem l) s.mu →
      ∃ s', s.onLink f l = some s' ∧
        ((∀ k, (s'.mem k).subgroupID = initSubgroupId k) ∧ post l (s'.mem l) s'.mu) ∧
        ∀ k, k ≠ l →
          ((∀ k, (s.mem k).subgroupID = initSubgroupId k) ∧ pre k (s.mem k) s.mu →
            (∀ k, (s'.mem k).subgroupID = initSubgroupId k) ∧ pre k (s'.mem k) s'.mu) ∧
          ((∀ k, (s.mem k).subgroupID = initSubgroupId k) ∧ post k (s.mem k) s.mu →
            (∀ k, (s'.mem k).subgroupID = initSubgroupId k) ∧ post k (s'.mem k) s'.mu) := by
    rintro l s ⟨hsub, hl⟩
    obtain ⟨m', mu', hr, hid, hgot, hother⟩ := hturn l _ _ hl
    have hids : ∀ k, (Function.update s.mem l m' k).subgroupID = initSubgroupId k := by
      intro k
      by_cases hk : k = l
      · subst hk
        rw [Function.update_self, hid]
        exact hsub k
      · rw [Function.update_of_ne hk]
        exact hsub k
    refine ⟨⟨Function.update s.mem l m', mu'⟩, ?_, ⟨hids, ?_⟩, fun k hk => ?_⟩
    · rw [Node.onLink, hr]
      rfl
    · dsimp only
      rw [Function.update_self]
      exact hgot
    · have hne : (s.mem k).subgroupID ≠ (s.mem l).subgroupID := by
        rw [hsub k, hsub l]
        exact initSubgroupId_ne hk
      dsimp only
      rw [Function.update_of_ne hk]
      exact ⟨fun h => ⟨hids, (hpre k).same _ _ _ h.2 (hother _ hne ((hpre k).system _ _ h.2))⟩,
        fun h => ⟨hids, (hpost k).same _ _ _ h.2 (hother _ hne ((hpost k).system _ _ h.2))⟩⟩
  obtain ⟨s', hs', hdone⟩ := foldlM_parties (by decide) hone (fun l _ => ⟨hsub, h l⟩)
    fun l hl => absurd (hall l) hl
  exact ⟨s', hs', (hdone 0).1, fun l => (hdone l).2⟩

theorem Node.Unused.activate (freeSpace : HwFifo → UInt64) (priority : Link → Bool) (h : s.Unused) :
    ∃ s', s.activateLinks freeSpace priority = some s' ∧ (∀ l, (s'.mem l).subgroupID = initSubgroupId l) ∧
      ∀ l, Fresh (s'.mem l) s'.mu := by
  have hready : ∀ l, Ready (s.mem l) s.mu := fun l =>
    ⟨h.good l, (h.regs l).inj, (h.regs l).rcv, fun u hu => congrArg EntryView.system ((h.regs l).bat u hu),
      .inl fun u hu => congrArg EntryView.value ((h.regs l).bat u hu)⟩
  obtain ⟨s₁, hs₁, hsub₁, htabled⟩ := eachLink_gets (f := fun _ m mu => activateBaseAddressTable m mu)
    (fun _ => ready_stable) (fun _ => tabled_stable) (fun _ _ _ h => h.activateTable) h.subgroups hready
  obtain ⟨s₂, hs₂, hsub₂, hsending⟩ := eachLink_gets
    (f := fun l m mu => (activateInjfifos freeSpace (priority l) m mu).map Prod.snd)
    (fun _ => tabled_stable) (fun _ => sending_stable) (fun l _ _ h => h.activateInj freeSpace (priority l)) hsub₁
    htabled
  obtain ⟨s₃, hs₃, hsub₃, hfresh⟩ := eachLink_gets (f := fun _ m mu => (activateRecfifos m mu).map Prod.snd)
    (fun _ => sending_stable) (fun _ => fresh_stable) (fun _ _ _ h => h.activateRec) hsub₂ hsending
  refine ⟨s₃, ?_, hsub₃, hfresh⟩
  rw [Node.activateLinks, hs₁, Option.bind_some, hs₂, Option.bind_some, hs₃]

/-- A link to which nothing has happened. -/
def Untouched (s : Node) (l : Link) (m : MuSubgroupMemory) (mu : Mu) : Prop :=
  m = s.mem l ∧ mu.looks.SameOn m.subgroupID s.mu.looks

theorem untouched_stable (h : s.Running) (l : Link) : Stable (Untouched s l) := by
  refine ⟨fun m mu hm => ?_, fun m mu mu' hm hs => ⟨hm.1, hs.trans hm.2⟩⟩
  obtain ⟨rfl, hsame⟩ := hm
  exact (h.configured l).systemOn.of_same hsame

theorem ite_stable {P Q : MuSubgroupMemory → Mu → Prop} {b : Bool} (hP : Stable P) (hQ : Stable Q) :
    Stable (if b then P else Q) := by
  cases b
  · exact hQ
  · exact hP

theorem GetsTo.refl {P : MuSubgroupMemory → Mu → Prop} {m : MuSubgroupMemory} {mu : Mu} (h : P m mu) :
    GetsTo P m mu (some (m, mu)) :=
  ⟨m, mu, rfl, rfl, h, fun _ _ _ => .refl _ _⟩

theorem Node.Running.reset (freeSpace : HwFifo → UInt64) (priority flagged : Link → Bool) (h : s.Running) :
    ∃ s', s.resetIOlink freeSpace priority flagged = some s' ∧ s'.Running ∧ s.ResetTo flagged s' := by
  have hreset : ∀ l m mu, Untouched s l m mu →
      GetsTo (if flagged l then Ready else Untouched s l) m mu
        (if flagged l then (resetLink m.subgroupID mu).map fun mu => (m, mu) else some (m, mu)) := by
    intro l m mu hm
    by_cases hl : flagged l
    · rw [if_pos hl, if_pos hl]
      obtain ⟨rfl, hsame⟩ := hm
      obtain ⟨mu', hrun, hready, hother⟩ := Configured.reset ((h.configured l).of_same hsame)
      rw [hrun]
      exact ⟨_, mu', rfl, rfl, hready, hother⟩
    · rw [if_neg hl, if_neg hl]
      exact .refl hm
  have hactivate : ∀ l m mu, (if flagged l then Ready else Untouched s l) m mu →
      GetsTo (if flagged l then Fresh else Untouched s l) m mu
        (if flagged l then activateLink freeSpace (priority l) m mu else some (m, mu)) := by
    intro l m mu hm
    by_cases hl : flagged l
    · rw [if_pos hl] at hm
      rw [if_pos hl, if_pos hl]
      exact hm.activate freeSpace (priority l)
    · rw [if_neg hl] at hm
      rw [if_neg hl, if_neg hl]
      exact .refl hm
  obtain ⟨s₁, hs₁, hsub₁, hready⟩ := eachLink_gets (untouched_stable h)
    (fun l => ite_stable ready_stable (untouched_stable h l)) hreset h.subgroups fun _ => ⟨rfl, .refl _ _⟩
  obtain ⟨s₂, hs₂, hsub₂, hdone⟩ := eachLink_gets
    (fun l => ite_stable ready_stable (untouched_stable h l))
    (fun l => ite_stable fresh_stable (untouched_stable h l)) hactivate hsub₁ hready
  refine ⟨s₂, ?_, ⟨hsub₂, fun l => ?_⟩, fun l => ?_⟩
  · rw [Node.resetIOlink, hs₁, Option.bind_some]
    exact hs₂
  · have hl := hdone l
    split at hl
    · exact hl.configured
    · obtain ⟨hm, hsame⟩ := hl
      rw [hm] at hsame ⊢
      exact (h.configured l).of_same hsame
  · have hl := hdone l
    split
    next hflag =>
      rw [if_pos hflag] at hl
      exact hl
    next hflag =>
      rw [if_neg hflag] at hl
      obtain ⟨hm, hsame⟩ := hl
      rw [hm] at hsame
      exact ⟨hm, hsame⟩

theorem Node.Running.step (h : s.Running) (hs : Step freeSpace s s') : s'.Running := by
  cases hs with
  | traffic mem regs =>
    refine ⟨fun l => ?_, fun l => (h.configured l).traffic (mem l) (regs l)⟩
    obtain ⟨inj, rcv, hm⟩ := mem l
    rw [hm]
    exact h.subgroups l
  | reset priority flagged hr =>
    obtain ⟨t, ht, hrunning, -⟩ := h.reset freeSpace priority flagged
    rw [hr] at ht
    cases Option.some.inj ht
    exact hrunning

/-- However the links are used and reset once they have been activated, a reset never fails, its links start afresh
and the other links do not notice. -/
theorem links_restart (h : s.Unused) (priority : Link → Bool) :
    ∃ s₁, s.activateLinks freeSpace priority = some s₁ ∧ (∀ l, Fresh (s₁.mem l) s₁.mu) ∧
      ∀ s', Relation.ReflTransGen (Step freeSpace) s₁ s' → ∀ priority flagged, ∃ t,
        s'.resetIOlink freeSpace priority flagged = some t ∧ s'.ResetTo flagged t := by
  obtain ⟨s₁, hs₁, hsub, hfresh⟩ := h.activate freeSpace priority
  refine ⟨s₁, hs₁, hfresh, fun s' hrun priority flagged => ?_⟩
  have hrunning : s'.Running := by
    induction hrun with
    | refl => exact ⟨hsub, fun l => (hfresh l).configured⟩
    | tail _ hstep ih => exact ih.step hstep
  obtain ⟨t, ht, -, hto⟩ := hrunning.reset freeSpace priority flagged
  exact ⟨t, ht, hto⟩

/-- A node with a page for each FIFO, and the tables at the start of the memory. -/
def Node.paged : Node where
  mem l :=
    { subgroupID := initSubgroupId l
      ififoSubgroup := ⟨fun _ => ⟨none, none, fun _ => 0⟩, none, 0⟩
      injShadow := fun _ => .cleared
      rfifoSubgroup := ⟨fun _ => ⟨none, fun _ => 0⟩, none, 0⟩
      recShadow := fun _ => .cleared
      bat := ⟨0, 0, none, fun _ => 0⟩
      batids := List.range numDataCountersPerSubgroup
      batvalues := fun _ => 0
      rfifoids := 0
      ififoid := 0
      clearInterruptsMask := 0
      injRegion := ⟨0x10000, 0xC0000000, 0x40000⟩
      recRegion := ⟨0x10000, 0xC0010000, 0x50000⟩ }
  mu :=
    { fifos := resetRegs
      bat := (BaseAddresses.Node.reset Unit).mu
      inj := fun _ _ _ => ⟨0x3f, 0, 0, 0⟩
      rcv := fun _ _ _ => ⟨0x1F, 0, 0, 0⟩
      injEnabled := fun _ => 0
      recEnabled := fun _ => 0
      injThreshold := fun _ => 0
      recThreshold := fun _ => 0
      recPacket := fun _ => 0 }

theorem paged_unused : Node.paged.Unused := by
  refine ⟨fun _ => rfl, fun l => ?_, fun l => ⟨fun u _ => ?_, fun u _ => ?_, fun u _ => ?_⟩⟩
  · have hsub : ∀ l, initSubgroupId l < numFifoSubgroupsPerNode ∧
        initSubgroupId l / numFifoSubgroups = sysGroupid := by decide
    have hsend : ∀ l, let r := (Node.paged.mem l).injRegion
        r.baseVaddr &&& 0xFFFFFFFFFFFFFFC0 = r.baseVaddr ∧ (128 ≤ r.length ∧ r.length &&& 0x3F = 0) ∧
          r.baseVaddr < r.baseVaddr + r.length ∧ r.basePaddr ≠ 0 := by decide
    have hreceive : ∀ l, let r := (Node.paged.mem l).recRegion
        r.baseVaddr &&& 0xFFFFFFFFFFFFFFE0 = r.baseVaddr ∧ (544 + 32 ≤ r.length ∧ r.length &&& 0x1F = 0) ∧
          r.basePaddr ≠ 0 := by decide
    obtain ⟨ha, hl, he, hp⟩ := hsend l
    obtain ⟨ha', hl', hp'⟩ := hreceive l
    exact ⟨(hsub l).1, (hsub l).2, rfl, fun _ _ => (by decide : (0 : UInt64) ≠ freeEntry), ha, hl, he, hp, ha', hl',
      hp'⟩
  · have hplace : place u.2.1 u.2.2 < 32 := by
      unfold place
      omega
    simp [Mu.looks, Mu.injLook, Node.paged, resetRegs, Looks.reset, Bitmaps.has_zero, has_ones hplace]
  · simp [Mu.looks, Mu.recLook, Node.paged, resetRegs, Looks.reset, Bitmaps.has_zero, has_recOnes recPlace_lt]
  · exact congrArg (EntryView.mk freeEntry) (systemStatus_full Node.paged.mu.bat (subOf_lt u))

theorem links_restart_paged :
    ∃ s₁, Node.paged.activateLinks (fun _ => 0) (fun _ => false) = some s₁ ∧ (∀ l, Fresh (s₁.mem l) s₁.mu) ∧
      ∀ s', Relation.ReflTransGen (Step fun _ => 0) s₁ s' → ∀ priority flagged, ∃ t,
        s'.resetIOlink (fun _ => 0) priority flagged = some t ∧ s'.ResetTo flagged t :=
  links_restart paged_unused _

end Node

end BgqVrnic.Links
