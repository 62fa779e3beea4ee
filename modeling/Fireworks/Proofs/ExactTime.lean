import Mathlib.Algebra.Order.Monoid.WithTop
import Mathlib.Algebra.Order.Ring.Rat
import Mathlib.Data.Rat.Floor
import Mathlib.Tactic.Linarith
import Mathlib.Tactic.Ring
import Fireworks.Arithmetic.Extended
import Fireworks.Status

/-! # Exact times

Between rational numbers every operation of `Extended` is the one of the rationals. Times of a run
are rational; only a lifespan may be infinite.
-/
namespace Fireworks.Extended

section Finite
variable (p q : ℚ)

@[simp] theorem zero_eq : (0 : Extended) = finite 0 := rfl
@[simp] theorem one_eq : (1 : Extended) = finite 1 := rfl
@[simp] theorem finite_add : finite p + finite q = finite (p + q) := rfl
@[simp] theorem finite_mul : finite p * finite q = finite (p * q) := rfl
@[simp] theorem finite_neg : -finite p = finite (-p) := rfl

@[simp] theorem finite_sub : finite p - finite q = finite (p - q) := by
  rw [sub_eq_add_neg]
  rfl

theorem finite_div (hq : q ≠ 0) : finite p / finite q = finite (p / q) := if_neg hq

@[simp] theorem finite_le : finite p ≤ finite q ↔ p ≤ q := decide_eq_true_iff

@[simp] theorem finite_lt : finite p < finite q ↔ p < q := by
  change (decide (p ≤ q) && !decide (q ≤ p)) = true ↔ _
  simpa using fun h => h.le

@[simp] theorem finite_beq : (finite p == finite q) = decide (p = q) := by
  change (decide (p ≤ q) && decide (q ≤ p)) = _
  simp [le_antisymm_iff]

theorem beq_zero (x : Extended) : (x == 0) = true ↔ x = 0 := by
  cases x with
  | finite q => simp
  | infinite s => cases s <;> exact ⟨nofun,nofun⟩
  | undefined => exact ⟨nofun,nofun⟩

theorem exists_finite_of_pos {x : Extended} (h : 0 < x) (hx : x ≠ infinite false) :
    ∃ q : ℚ, x = finite q ∧ 0 < q := by
  cases x with
  | finite q => exact ⟨q,rfl,(finite_lt 0 q).mp h⟩
  | infinite s =>
    cases s with
    | false => exact absurd rfl hx
    | true => exact absurd h (by decide)
  | undefined => exact absurd h (by decide)

@[simp] theorem isNaN_finite : Arithmetic.isNaN (finite p) = false := by
  simp [Arithmetic.isNaN]

@[simp] theorem minNum_finite : Arithmetic.minNum (finite p) (finite q) = finite (min p q) := by
  rcases lt_or_ge q p with h | h
  · simp [Arithmetic.minNum,h,h.le]
  · simp [Arithmetic.minNum,h,not_lt.mpr h]

@[simp] theorem maxNum_finite : Arithmetic.maxNum (finite p) (finite q) = finite (max p q) := by
  rcases lt_or_ge p q with h | h
  · simp [Arithmetic.maxNum,h,h.le]
  · simp [Arithmetic.maxNum,h,not_lt.mpr h]

end Finite

/-- What may stand for a lifespan: a rational number, or an end that never comes. -/
inductive IsSpan : Extended → Prop
  | rational (q : ℚ) : IsSpan (finite q)
  | endless : IsSpan (infinite false)

instance : DecidablePred IsSpan
  | finite q => isTrue (.rational q)
  | infinite false => isTrue .endless
  | infinite true | undefined => isFalse nofun

/-- A lifespan as a point of the time line. -/
def toTop : Extended → WithTop ℚ
  | finite q => q
  | _ => ⊤

@[simp] theorem toTop_finite (q : ℚ) : (finite q).toTop = q := rfl
@[simp] theorem toTop_infinite (s : Bool) : (infinite s).toTop = ⊤ := rfl

/-- The end of a window for something that lasts no longer than a lifespan. -/
def cut (lifespan : Extended) (stop : ℚ) : ℚ :=
  match lifespan with
  | finite q => min q stop
  | _ => stop

theorem IsSpan.minNum_eq {lifespan : Extended} (h : lifespan.IsSpan) (stop : ℚ) :
    Arithmetic.minNum lifespan (finite stop) = finite (lifespan.cut stop) := by
  cases h with
  | rational q => simp [cut]
  | endless => rfl

theorem cut_le (lifespan : Extended) (stop : ℚ) : lifespan.cut stop ≤ stop := by
  cases lifespan <;> simp [cut]

theorem coe_cut (lifespan : Extended) (stop : ℚ) :
    (lifespan.cut stop : WithTop ℚ) = min lifespan.toTop stop := by
  cases lifespan <;> simp [cut,toTop]

theorem lt_cut {lifespan : Extended} {start stop : ℚ} :
    start < lifespan.cut stop ↔ (start : WithTop ℚ) < lifespan.toTop ∧ start < stop := by
  cases lifespan <;> simp [cut,toTop]

theorem cut_le_toTop (lifespan : Extended) (stop : ℚ) :
    (lifespan.cut stop : WithTop ℚ) ≤ lifespan.toTop := by
  rw [coe_cut]
  exact min_le_left _ _

theorem cut_of_lt {lifespan : Extended} {stop : ℚ} (h : (stop : WithTop ℚ) < lifespan.toTop) :
    lifespan.cut stop = stop := by
  cases lifespan with
  | finite q => exact min_eq_right (by simpa using h.le)
  | _ => rfl

/-- What is left of a window for something that ends at a given time, maybe never. -/
def left (stop : ℚ) : WithTop ℚ → Extended
  | none => infinite true
  | some u => finite (stop - u)

@[simp] theorem left_coe (stop u : ℚ) : left stop u = finite (stop - u) := rfl

theorem IsSpan.sub_max {lifespan : Extended} (h : lifespan.IsSpan) (start stop : ℚ) :
    finite stop - Arithmetic.maxNum lifespan (finite start) =
      left stop (max lifespan.toTop start) := by
  cases h with
  | rational q => rw [maxNum_finite,finite_sub,toTop_finite,← WithTop.coe_max,left_coe]
  | endless => rfl

theorem minNum_left (stop : ℚ) (u : WithTop ℚ) (q : ℚ) :
    Arithmetic.minNum (left stop u) (finite q) = left stop (max u ((stop - q : ℚ) : WithTop ℚ)) := by
  cases u with
  | top => rfl
  | coe u =>
    have h : min (stop - u) q = stop - max u (stop - q) := by
      rcases le_total u (stop - q) with h | h
      · rw [max_eq_right h,min_eq_right (by linarith)]
        ring
      · rw [max_eq_left h,min_eq_left (by linarith)]
    rw [left_coe,minNum_finite,h,← WithTop.coe_max,left_coe]

end Fireworks.Extended

namespace Fireworks.Status
open Extended

theorem isDone_eq_false {ν : Type} {status : Status ν} :
    status.isDone = false ↔ status = .running := by
  cases status <;> simp [isDone]

theorem ofLeftover_of_le {stop u : ℚ} (h : u ≤ stop) :
    ofLeftover (left stop u) = .done (finite (stop - u)) := by
  simp [ofLeftover,h]

theorem ofLeftover_of_lt {stop : ℚ} {u : WithTop ℚ} (h : (stop : WithTop ℚ) < u) :
    ofLeftover (left stop u) = .running := by
  cases u with
  | top => rfl
  | coe u =>
    have hu : stop < u := WithTop.coe_lt_coe.mp h
    simp [ofLeftover,hu]

theorem settle_of_le {lifespan : Extended} (hs : lifespan.IsSpan) {start : ℚ}
    (h : (start : WithTop ℚ) ≤ lifespan.toTop) (stop : ℚ) :
    settle lifespan (finite start) (finite stop) = ofLeftover (left stop lifespan.toTop) := by
  rw [settle,hs.sub_max,max_eq_left h]

theorem settle_finite {q start stop : ℚ} (hq : q ≤ stop) (h : start ≤ stop) :
    settle (finite q) (finite start) (finite stop) = .done (finite (stop - max q start)) := by
  rw [settle,(IsSpan.rational q).sub_max]
  exact ofLeftover_of_le (max_le hq h)

/-- Either a lifespan goes on after a window, or it is over by its end. -/
theorem settle_cases {lifespan : Extended} (hs : lifespan.IsSpan) {start stop : ℚ}
    (h : start ≤ stop) :
    (stop : WithTop ℚ) < lifespan.toTop ∧
        settle lifespan (finite start) (finite stop) = .running ∨
      ∃ q : ℚ, lifespan = finite q ∧ q ≤ stop ∧
        settle lifespan (finite start) (finite stop) = .done (finite (stop - max q start)) := by
  rcases lt_or_ge (stop : WithTop ℚ) lifespan.toTop with hlt | hle
  · refine Or.inl ⟨hlt,?_⟩
    rw [settle_of_le hs ((WithTop.coe_le_coe.mpr h).trans hlt.le),ofLeftover_of_lt hlt]
  · cases hs with
    | rational q =>
      have hq : q ≤ stop := WithTop.coe_le_coe.mp hle
      exact Or.inr ⟨q,rfl,hq,settle_finite hq h⟩
    | endless => exact absurd hle (not_le.mpr (WithTop.coe_lt_top _))

/-- A leftover, if there is one, is a part of the window. -/
def Timely (span : ℚ) : Status Extended → Prop
  | .running => True
  | .done leftover => ∃ q : ℚ, leftover = finite q ∧ 0 ≤ q ∧ q ≤ span

theorem Timely.mono {status : Status Extended} {span wider : ℚ} (h : status.Timely span)
    (hw : span ≤ wider) : status.Timely wider := by
  cases status with
  | running => trivial
  | done leftover =>
    obtain ⟨q,rfl,hq,hs⟩ := h
    exact ⟨q,rfl,hq,hs.trans hw⟩

theorem timely_left {start stop : ℚ} {u : WithTop ℚ} (h : (start : WithTop ℚ) ≤ u) :
    (ofLeftover (left stop u)).Timely (stop - start) := by
  rcases le_or_gt u stop with hu | hu
  · lift u to ℚ using (hu.trans_lt (WithTop.coe_lt_top _)).ne
    have hu : u ≤ stop := WithTop.coe_le_coe.mp hu
    have h : start ≤ u := WithTop.coe_le_coe.mp h
    rw [ofLeftover_of_le hu]
    exact ⟨stop - u,rfl,by linarith,by linarith⟩
  · rw [ofLeftover_of_lt hu]
    trivial

theorem timely_settle {lifespan : Extended} (hs : lifespan.IsSpan) (start stop : ℚ) :
    (settle lifespan (finite start) (finite stop)).Timely (stop - start) := by
  rw [settle,hs.sub_max]
  exact timely_left (le_max_right _ _)

end Fireworks.Status
