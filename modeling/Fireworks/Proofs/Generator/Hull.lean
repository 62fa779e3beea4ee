import Mathlib.Analysis.Convex.Hull
import Fireworks.Proofs.Generator.Stocked

/-! # Generated numbers stay in the hull of their expression

A range reads its two bounds at a ratio between zero and one, and an angle never makes the whole turn, as
long as the instance is one of those made together. So a number lies between the constants that it comes
from, in whatever order the bounds of the ranges stand.
-/
namespace Fireworks
open Extended

namespace NumberGen

mutual

/-- The numbers that an expression may stand for, in whatever way its ranges and choices are read. -/
noncomputable def hull : NumberGen Extended → Set ℚ
  | .const value => {q | value = finite q}
  | .range _ low high => convexHull ℚ (low.hull ∪ high.hull)
  | .angle _ => Set.Ico 0 360
  | .choice _ options => convexHull ℚ (hullAll options)

noncomputable def hullAll : List (NumberGen Extended) → Set ℚ
  | [] => ∅
  | option :: options => option.hull ∪ hullAll options

end

theorem hull_subset_hullAll {options : List (NumberGen Extended)} {option : NumberGen Extended}
    (h : option ∈ options) : option.hull ⊆ hullAll options := by
  induction options with
  | nil => cases h
  | cons first rest ih =>
    unfold hullAll
    rcases List.mem_cons.mp h with rfl | hrest
    · exact Set.subset_union_left
    · exact (ih hrest).trans Set.subset_union_right

theorem mem_hull_range {selection : Selection} {low high : NumberGen Extended} {l h r : ℚ}
    (hl : l ∈ low.hull) (hh : h ∈ high.hull) (hr : r ∈ Set.Icc (0 : ℚ) 1) :
    l * (1 - r) + h * r ∈ (range selection low high).hull := by
  have hweights : 1 - r + r = 1 := sub_add_cancel 1 r
  have hmem := convex_convexHull ℚ (low.hull ∪ high.hull) (subset_convexHull ℚ _ (.inl hl))
    (subset_convexHull ℚ _ (.inr hh)) (sub_nonneg.mpr hr.2) hr.1 hweights
  unfold hull
  rwa [mul_comm l,mul_comm h]

/-- An expression of rational numbers without empty choices makes numbers in its hull only, for every
instance among those made together and whatever is drawn. -/
theorem generate_mem_hull {g : NumberGen Extended} (hrational : g.IsRational) (hstocked : g.Stocked)
    {k : Index} (hk : k.index < k.total) (rng : Rng) :
    ∃ q ∈ g.hull, ((g.generate k).run rng).1 = finite q := by
  induction hstocked generalizing rng with
  | const value =>
    cases hrational with
    | const q => exact ⟨q,rfl,rfl⟩
  | @range selection low high _ _ ihlow ihhigh =>
    cases hrational with
    | range _ hlow hhigh =>
      obtain ⟨l,hl,hlow⟩ := ihlow hlow rng
      obtain ⟨h,hh,hhigh⟩ := ihhigh hhigh ((low.generate k).run rng).2
      obtain ⟨r,hr,hratio⟩ :=
        selection.exists_ratio k ((high.generate k).run ((low.generate k).run rng).2).2
      have hmem : r ∈ Set.Icc 0 1 := by
        rcases hr with rfl | hdrawn
        · exact Index.ratio_mem hk
        · exact Set.Ico_subset_Icc_self hdrawn
      exact ⟨l * (1 - r) + h * r,mem_hull_range hl hh hmem,generate_range_eq hlow hhigh hratio⟩
  | angle selection =>
    obtain ⟨a,ha,hangle⟩ := selection.exists_angle k rng
    rcases ha with rfl | hdrawn
    · exact ⟨k.angle,Index.angle_mem hk,hangle⟩
    · exact ⟨a,hdrawn,hangle⟩
  | @choice selection options hne _ ih =>
    cases hrational with
    | choice _ hall =>
      let drawn := (selection.pick Extended k options.length).run rng
      have hpick : drawn.1 < options.length := selection.pick_lt k (List.length_pos_iff.mpr hne) rng
      have hoption : options[drawn.1] ∈ options := List.getElem_mem hpick
      have hgenerate : generateNth k options drawn.1 = options[drawn.1].generate k := by
        rw [generateNth_eq,List.getElem?_eq_getElem hpick]
        rfl
      obtain ⟨q,hq,hvalue⟩ := ih options[drawn.1] hoption (hall options[drawn.1] hoption) drawn.2
      refine ⟨q,subset_convexHull ℚ _ (hull_subset_hullAll hoption hq),?_⟩
      rw [← hvalue,← hgenerate]
      rfl

end NumberGen

namespace Plain

/-- A range from 7 down to a number chosen at random, either an angle or one drawn between 3 and -3. -/
def spread : NumberGen Extended :=
  .range .each (.const (finite 7))
    (.choice .random [.angle .each,.range .random (.const (finite 3)) (.const (finite (-3)))])

theorem generate_spread_mem_hull :
    ∃ q ∈ spread.hull, ((spread.generate ⟨1,2⟩).run default).1 = finite q := by
  have hrational : spread.IsRational :=
    .range .each (.const 7) (.choice .random (List.forall_mem_cons.mpr
      ⟨.angle .each,List.forall_mem_singleton.mpr (.range .random (.const 3) (.const (-3)))⟩))
  have hstocked : spread.Stocked :=
    .range .each (.const _) (.choice .random (List.cons_ne_nil _ _) (List.forall_mem_cons.mpr
      ⟨.angle .each,List.forall_mem_singleton.mpr (.range .random (.const _) (.const _))⟩))
  exact NumberGen.generate_mem_hull hrational hstocked (by decide) default

end Plain
end Fireworks
