import BgqVrnic.RegionSlices

namespace BgqVrnic

/-- Every SGE that a translation comes to starts inside its region, with `n` pieces written before. A
translation ends early at an unknown key, or when there is no room for more pieces. -/
def StartsInside (mrs : RegionTable) (limit : Nat) : Nat → List IbSge → Prop
  | _, [] => True
  | n, u :: us =>
    match mrs u.lkey with
    | none => True
    | some mr =>
      let slice := regionSlice mr.sge (regionOffset mr u.addr) u.length
      slice ≠ [] ∧ (n + slice.length < limit → StartsInside mrs limit (n + slice.length) us)

variable {mrs : RegionTable} {us : List IbSge} {limit n : Nat} {a : PieceArea} {base : Nat → MudmSgl}
variable {l : List MudmSgl} {total : Int} {x : Xlation}

theorem toInt32_emod (x : Int) : toInt32 x % 2 ^ 32 = x % 2 ^ 32 := Int.bmod_emod

theorem toInt32_lt (x : Int) : toInt32 x < 2 ^ 31 := by
  unfold toInt32
  have := Int.bmod_lt (x := x) (m := 2 ^ 32) (by decide)
  omega

theorem toInt32_ge (x : Int) : -2 ^ 31 ≤ toInt32 x := by
  unfold toInt32
  have := Int.le_bmod (x := x) (m := 2 ^ 32) (by decide)
  omega

/-- A translation meets its `BUG_ON` exactly at an SGE that starts outside its region. -/
theorem xlateFrom_outcome (us : List IbSge) (total : Int) (hp : Placed mrs) (h : a.Holds base l) (hl : l.length < limit) :
    (¬ StartsInside mrs limit l.length us ∧ xlateFrom mrs limit us total a = none) ∨
      (StartsInside mrs limit l.length us ∧ ∃ x, xlateFrom mrs limit us total a = some x ∧
        x.numPsge ≤ limit ∧ (us ≠ [] → l.length < x.numPsge) ∧ (us = [] → x.numPsge = l.length)) := by
  have hcons {u : IbSge} {us : List IbSge} {q : Prop} (hnil : u :: us = []) : q :=
    absurd hnil (List.cons_ne_nil u us)
  induction us generalizing a l total with
  | nil =>
    have hcount := h.count
    exact Or.inr ⟨trivial, ⟨total, a.psge, a.pi⟩, rfl, by dsimp only; omega, by simp, fun _ => hcount⟩
  | cons u us ih =>
    unfold StartsInside xlateFrom
    cases hmr : mrs u.lkey with
    | none => exact Or.inr ⟨trivial, _, rfl, Nat.le_refl _, fun _ => hl, hcons⟩
    | some mr =>
      dsimp only
      rcases xlateSge_holds (n := u.length) (hp _ mr hmr) h hl with
        ⟨hnil, hnone⟩ | ⟨hne, a', ha', hholds⟩
      · refine Or.inl ⟨fun hin => hin.1 hnil, ?_⟩
        rw [hnone]
        rfl
      · have hcount := hholds.count
        rw [List.length_append, List.length_take] at hcount
        have hslice := List.length_pos_iff.mpr hne
        rw [ha', Option.bind_eq_bind, Option.bind_some]
        by_cases hfull : limit ≤ a'.pi
        · rw [if_pos hfull]
          have hstop : ¬ l.length +
              (regionSlice mr.sge (regionOffset mr u.addr) u.length).length < limit := by omega
          exact Or.inr ⟨⟨hne, fun hlt => absurd hlt hstop⟩, _, rfl, Nat.le_refl _, fun _ => hl, hcons⟩
        · rw [if_neg hfull]
          have hroom : l.length +
              (regionSlice mr.sge (regionOffset mr u.addr) u.length).length < limit := by omega
          rw [List.take_of_length_le (by omega)] at hholds
          have hlen : (l ++ regionSlice mr.sge (regionOffset mr u.addr) u.length).length < limit := by
            rw [List.length_append]
            exact hroom
          have hrest := @ih _ _ (toInt32 (total + u.length)) hholds hlen
          rw [List.length_append] at hrest
          rcases hrest with ⟨hout, hnone⟩ | ⟨hin, x, hx, hle, hgrow, hsame⟩
          · exact Or.inl ⟨fun hall => hout (hall.2 hroom), hnone⟩
          · refine Or.inr ⟨⟨hne, fun _ => hin⟩, x, hx, hle, fun _ => ?_, hcons⟩
            by_cases hus : us = []
            · have heq := hsame hus
              omega
            · have hlt := hgrow hus
              omega

theorem xlate_none_iff (hp : Placed mrs) :
    bgvrnicXlateSgl mrs us base mudmMaxSge = none ↔ ¬ StartsInside mrs mudmMaxSge 0 us := by
  have hstart : PieceArea.Holds ⟨base, 0⟩ base [] := ⟨rfl, by simp, fun i _ => rfl⟩
  unfold bgvrnicXlateSgl
  rcases xlateFrom_outcome us 0 hp hstart (by decide : 0 < mudmMaxSge) with
    ⟨hout, hnone⟩ | ⟨hin, x, hx, -⟩
  · exact ⟨fun _ => hout, fun _ => hnone⟩
  · rw [hx]
    exact ⟨nofun, fun hout => absurd hin hout⟩

/-- Only an empty list is translated into no pieces. -/
theorem xlate_count (hp : Placed mrs) (hx : bgvrnicXlateSgl mrs us base mudmMaxSge = some x) :
    x.numPsge ≤ mudmMaxSge ∧ (us ≠ [] → 0 < x.numPsge) ∧ (us = [] → x.numPsge = 0) := by
  have hstart : PieceArea.Holds ⟨base, 0⟩ base [] := ⟨rfl, by simp, fun i _ => rfl⟩
  unfold bgvrnicXlateSgl at hx
  rcases xlateFrom_outcome us 0 hp hstart (by decide : 0 < mudmMaxSge) with
    ⟨-, hnone⟩ | ⟨-, y, hy, hcount⟩
  · rw [hnone] at hx
    cases hx
  · rw [hy] at hx
    cases Option.some.inj hx
    exact hcount

/-- A translation that does not fail returns the sum of the SGE lengths, as a C `int`. -/
theorem xlateFrom_total (ht : total < 2 ^ 31) (h : xlateFrom mrs limit us total a = some x)
    (hx : 0 ≤ x.rc) :
    x.rc % 2 ^ 32 = (total + (us.map IbSge.length).sum) % 2 ^ 32 ∧ x.rc < 2 ^ 31 := by
  induction us generalizing total a with
  | nil =>
    cases Option.some.inj h
    exact ⟨by simp, ht⟩
  | cons u us ih =>
    unfold xlateFrom at h
    split at h
    next =>
      cases Option.some.inj h
      have hneg : -ENOMEM < 0 := by decide
      dsimp only at hx
      omega
    next mr hmr =>
      obtain ⟨a', -, h⟩ := Option.bind_eq_some_iff.mp h
      split at h
      next =>
        cases Option.some.inj h
        have hneg : -E2BIG < 0 := by decide
        dsimp only at hx
        omega
      next =>
        obtain ⟨hmod, hlt⟩ := ih (toInt32_lt _) h
        refine ⟨?_, hlt⟩
        have he := toInt32_emod (total + u.length)
        simp only [List.map_cons, List.sum_cons]
        omega

end BgqVrnic
