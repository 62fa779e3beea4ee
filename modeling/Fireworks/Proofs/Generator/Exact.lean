import Fireworks.Generator
import Fireworks.Proofs.Rng

/-! # Selections in exact numbers

What an operator reads for an instance is a rational number: either it is drawn, or it depends on nothing
but the place of the instance among those made together.
-/
namespace Fireworks
open Extended

namespace Index
variable (k : Index)

/-- How far an instance stands on the way from the first one to the last one. -/
def ratio : ℚ := if k.total ≤ 1 then 0.5 else k.index / (k.total - 1 : ℕ)

/-- The angle at which an instance stands in the full turn. -/
def angle : ℚ := if k.total = 0 then 0 else 360 * k.index / k.total + if k.total = 2 then 90 else 0

variable {k} (h : k.index < k.total)
include h

theorem ratio_mem : k.ratio ∈ Set.Icc 0 1 := by
  unfold ratio
  by_cases hone : k.total ≤ 1
  · rw [if_pos hone]
    constructor <;> norm_num
  · have hpos : (0 : ℚ) < (k.total - 1 : ℕ) := Nat.cast_pos.mpr (by omega)
    have hle : (k.index : ℚ) ≤ (k.total - 1 : ℕ) := Nat.cast_le.mpr (by omega)
    rw [if_neg hone]
    constructor
    · exact div_nonneg (Nat.cast_nonneg _) hpos.le
    · exact (div_le_one hpos).mpr hle

theorem angle_mem : k.angle ∈ Set.Ico 0 360 := by
  have htotal : k.total ≠ 0 := by omega
  have hnonneg : (0 : ℚ) ≤ k.index := Nat.cast_nonneg _
  unfold angle
  rw [if_neg htotal]
  by_cases htwo : k.total = 2
  · -- The two of them stand at 90 and 270.
    have hindex : (k.index : ℚ) ≤ 1 := Nat.cast_le_one.mpr (by omega)
    rw [if_pos htwo,htwo]
    push_cast
    constructor <;> linarith
  · have hpos : (0 : ℚ) < k.total := Nat.cast_pos.mpr (by omega)
    have hlt : (k.index : ℚ) < k.total := Nat.cast_lt.mpr h
    rw [if_neg htwo,add_zero]
    constructor
    · positivity
    · rw [div_lt_iff₀ hpos]
      linarith

end Index

namespace Selection
variable (selection : Selection) (k : Index) (rng : Rng)

theorem ratio_each : (ratio .each k : StateM Rng Extended) = pure (finite k.ratio) := by
  have hvalue : (if k.total ≤ 1 then 0.5
      else Arithmetic.ofNat k.index / Arithmetic.ofNat (k.total - 1) : Extended) = finite k.ratio := by
    unfold Index.ratio
    by_cases hone : k.total ≤ 1
    · rw [if_pos hone,if_pos hone]
      rfl
    · rw [if_neg hone,if_neg hone]
      exact finite_div _ _ (Nat.cast_ne_zero.mpr (by omega))
  exact congrArg (pure : Extended → StateM Rng Extended) hvalue

theorem angle_each : (angle .each k : StateM Rng Extended) = pure (finite k.angle) := by
  have hvalue : (if k.total = 0 then 0 else 360 * Arithmetic.ofNat k.index / Arithmetic.ofNat k.total +
      (if k.total = 2 then 90 else 0) : Extended) = finite k.angle := by
    unfold Index.angle
    by_cases htotal : k.total = 0
    · rw [if_pos htotal,if_pos htotal]
      rfl
    · have hshare : (360 * Arithmetic.ofNat k.index / Arithmetic.ofNat k.total : Extended) =
          finite (360 * k.index / k.total) := finite_div _ _ (Nat.cast_ne_zero.mpr htotal)
      rw [if_neg htotal,if_neg htotal,hshare]
      split_ifs <;> rfl
  exact congrArg (pure : Extended → StateM Rng Extended) hvalue

theorem exists_ratio : ∃ q, (q = k.ratio ∨ q ∈ Set.Ico 0 1) ∧
    ((selection.ratio k).run rng : Extended × Rng).1 = finite q := by
  cases selection with
  | each =>
    rw [ratio_each]
    exact ⟨k.ratio,.inl rfl,rfl⟩
  | random =>
    obtain ⟨q,hq,hunit⟩ := rng.exists_unit_mem
    exact ⟨q,.inr hq,hunit⟩

theorem exists_angle : ∃ q, (q = k.angle ∨ q ∈ Set.Ico 0 360) ∧
    ((selection.angle k).run rng : Extended × Rng).1 = finite q := by
  cases selection with
  | each =>
    rw [angle_each]
    exact ⟨k.angle,.inl rfl,rfl⟩
  | random =>
    obtain ⟨q,⟨hnonneg,hlt⟩,hunit⟩ := rng.exists_unit_mem
    refine ⟨q * 360,.inr ⟨?_,?_⟩,congrArg (· * (360 : Extended)) hunit⟩ <;> linarith

end Selection

/-- A range between rational numbers, read at a rational ratio. -/
theorem NumberGen.generate_range_eq {selection : Selection} {low high : NumberGen Extended} {k : Index}
    {rng : Rng} {l h r : ℚ} (hlow : ((low.generate k).run rng).1 = finite l)
    (hhigh : ((high.generate k).run ((low.generate k).run rng).2).1 = finite h)
    (hratio : ((selection.ratio k).run ((high.generate k).run ((low.generate k).run rng).2).2).1 = finite r) :
    (((range selection low high).generate k).run rng).1 = finite (l * (1 - r) + h * r) := by
  have hvalue : (((range selection low high).generate k).run rng).1 =
      finite l * (1 - finite r) + finite h * finite r := by
    rw [← hlow,← hhigh,← hratio]
    rfl
  simpa using hvalue

end Fireworks
