import Mathlib.Tactic.Positivity
import Mathlib.Tactic.GCongr
import Fireworks.Easing
import Fireworks.Proofs.ExactTime

/-! # Exact easing

Over rational times every curve grows from zero to one. What an effect gains over a window is then
the sum of what it gains over the parts of the window.
-/
namespace Fireworks

namespace Extended
variable (p q : ℚ)

@[simp] theorem ofNat_eq (n : ℕ) : (Arithmetic.ofNat n : Extended) = finite n := rfl

@[simp] theorem finite_div_infinite (s : Bool) : finite p / infinite s = finite 0 := rfl

theorem half_eq : (0.5 : Extended) = finite (1/2) := by
  change finite (OfScientific.ofScientific 5 true 1) = _
  congr 1
  norm_num

theorem clamp_unit :
    Arithmetic.clamp (0 : Extended) 1 (finite q) = finite (max 0 (min q 1)) := by
  unfold Arithmetic.clamp
  simp only [zero_eq,one_eq,finite_lt]
  split
  · next h => rw [min_eq_left (h.le.trans zero_le_one),max_eq_left h.le]
  · split
    · next h => rw [min_eq_right h.le,max_eq_right zero_le_one]
    · next h0 h1 => rw [min_eq_left (not_lt.mp h1),max_eq_right (not_lt.mp h0)]

end Extended

namespace Easing
open Extended

/-- A curve between zero and one. -/
def shape (easing : Easing) (c : ℚ) : ℚ :=
  match easing with
  | .linear => c
  | .easeIn => c * c * c
  | .easeOut => 1 - (1 - c) * (1 - c) * (1 - c)
  | .easeInOut =>
    if c < 1/2 then 4 * c * c * c
    else 1 - (-2 * c + 2) * (-2 * c + 2) * (-2 * c + 2) / 2

theorem curve_finite (easing : Easing) (t : ℚ) :
    easing.curve (finite t) = finite (easing.shape (max 0 (min t 1))) := by
  unfold curve
  rw [clamp_unit]
  generalize max 0 (min t 1) = c
  cases easing with
  | linear => rfl
  | easeIn => rfl
  | easeOut => simp [shape]
  | easeInOut =>
    have h4 : (4 : Extended) = finite 4 := rfl
    have h2 : (2 : Extended) = finite 2 := rfl
    simp only [half_eq,finite_lt,h4,h2,one_eq,finite_mul,finite_neg,finite_add,finite_sub,
      finite_div _ _ (two_ne_zero),shape]
    split <;> rfl

@[simp] theorem shape_zero (easing : Easing) : easing.shape 0 = 0 := by
  cases easing <;> norm_num [shape]

@[simp] theorem shape_one (easing : Easing) : easing.shape 1 = 1 := by
  cases easing <;> norm_num [shape]

theorem shape_mono (easing : Easing) {c d : ℚ} (h0 : 0 ≤ c) (hcd : c ≤ d) (h1 : d ≤ 1) :
    easing.shape c ≤ easing.shape d := by
  have hcube : ∀ {x y : ℚ}, 0 ≤ x → x ≤ y → x * x * x ≤ y * y * y := by
    intro x y hx hxy
    have hy := hx.trans hxy
    gcongr
  cases easing with
  | linear => exact hcd
  | easeIn => exact hcube h0 hcd
  | easeOut => exact sub_le_sub_left (hcube (by linarith) (by linarith)) 1
  | easeInOut =>
    have hlow : ∀ {x : ℚ}, 0 ≤ x → x ≤ 1/2 → 4 * x * x * x ≤ 1/2 := by
      intro x hx hx2
      have := hcube hx hx2
      linarith
    have hhigh : ∀ {x : ℚ}, 1/2 ≤ x → x ≤ 1 →
        1/2 ≤ 1 - (-2 * x + 2) * (-2 * x + 2) * (-2 * x + 2) / 2 := by
      intro x hx hx1
      have := hcube (show 0 ≤ -2 * x + 2 by linarith) (show -2 * x + 2 ≤ 1 by linarith)
      linarith
    unfold shape
    dsimp only
    split
    · next hc =>
      split
      · have := hcube h0 hcd
        linarith
      · next hd => exact (hlow h0 hc.le).trans (hhigh (not_lt.mp hd) h1)
    · next hc =>
      rw [if_neg (not_lt.mpr ((not_lt.mp hc).trans hcd))]
      have := hcube (show 0 ≤ -2 * d + 2 by linarith) (show -2 * d + 2 ≤ -2 * c + 2 by linarith)
      linarith

/-- The ratio reached at a rational time; an endless lifespan stays at its beginning. -/
def exactRatio (easing : Easing) (lifespan : Extended) (t : ℚ) : ℚ :=
  match lifespan with
  | .finite l =>
    if 0 < l then easing.shape (max 0 (min (t / l) 1)) else if 0 < t then 1 else 0
  | _ => 0

variable (easing : Easing) {lifespan : Extended}

theorem ratio_finite (hs : lifespan.IsSpan) (t : ℚ) :
    easing.ratio lifespan (finite t) = finite (easing.exactRatio lifespan t) := by
  unfold ratio exactRatio
  cases hs with
  | rational l =>
    simp only [zero_eq,one_eq,finite_lt]
    split
    · next hl => rw [finite_div _ _ hl.ne',curve_finite]
    · split <;> rfl
  | endless =>
    have hpos : (0 : Extended) < .infinite false := rfl
    rw [if_pos hpos,finite_div_infinite,curve_finite]
    simp

theorem exactRatio_mono (hs : lifespan.IsSpan) : Monotone (easing.exactRatio lifespan) := by
  intro s t hst
  unfold exactRatio
  cases hs with
  | rational l =>
    dsimp only
    split
    · next hl =>
      have hdiv : s / l ≤ t / l := by gcongr
      exact easing.shape_mono (le_max_left _ _) (max_le_max le_rfl (min_le_min hdiv le_rfl))
        (max_le zero_le_one (min_le_right _ _))
    · split
      · next hs => rw [if_pos (lt_of_lt_of_le hs hst)]
      · split <;> norm_num
  | endless => exact le_rfl

theorem exactRatio_nonneg (hs : lifespan.IsSpan) (t : ℚ) : 0 ≤ easing.exactRatio lifespan t := by
  unfold exactRatio
  cases hs with
  | rational l =>
    dsimp only
    split
    · have hunit : max 0 (min (t / l) 1) ≤ 1 := max_le zero_le_one (min_le_right _ _)
      exact easing.shape_zero.ge.trans (easing.shape_mono le_rfl (le_max_left _ _) hunit)
    · split <;> norm_num
  | endless => exact le_rfl

theorem exactRatio_le_one (hs : lifespan.IsSpan) (t : ℚ) : easing.exactRatio lifespan t ≤ 1 := by
  unfold exactRatio
  cases hs with
  | rational l =>
    dsimp only
    split
    · have hunit : max 0 (min (t / l) 1) ≤ 1 := max_le zero_le_one (min_le_right _ _)
      exact (easing.shape_mono (le_max_left _ _) hunit le_rfl).trans easing.shape_one.le
    · split <;> norm_num
  | endless => exact zero_le_one

theorem exactRatio_eq_one {t : ℚ} (ht : 0 < t) {l : ℚ} (hl : l ≤ t) :
    easing.exactRatio (finite l) t = 1 := by
  simp only [exactRatio,ht,if_true]
  split
  · next hpos =>
    rw [min_eq_right ((one_le_div hpos).mpr hl),max_eq_right zero_le_one,shape_one]
  · rfl

theorem gain_finite (hs : lifespan.IsSpan) (start stop : ℚ) :
    easing.gain lifespan (finite start) (finite stop) =
      finite (easing.exactRatio lifespan stop - easing.exactRatio lifespan start) := by
  rw [gain,ratio_finite easing hs,ratio_finite easing hs,finite_sub]

end Easing
end Fireworks
