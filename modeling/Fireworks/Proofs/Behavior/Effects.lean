import Mathlib.Algebra.Order.Floor.Ring
import Mathlib.Data.Rat.Floor
import Fireworks.Behavior.Update
import Fireworks.Proofs.Easing

/-! # Effects piece by piece

The windows of a run add up: what an effect does over a window is what it does over the first part
of it and then, from the progress left there, over the second. This is exact for effects whose own
numbers are rational, on a particle whose rotation is rational, as long as they do not multiply,
turn or explode.
-/
namespace Fireworks
open Extended

namespace Extended

theorem add_finite_add (x : Extended) (p q : ℚ) :
    x + finite p + finite q = x + finite (p + q) := by
  cases x with
  | finite r => simp [add_assoc]
  | infinite | undefined => rfl

@[simp] theorem add_finite_zero (x : Extended) : x + finite 0 = x := by
  cases x with
  | finite r => simp
  | infinite | undefined => rfl

theorem toCount_floor (q : ℚ) :
    Arithmetic.toCount (Arithmetic.floor (finite q)) = min ⌊q⌋.toNat (UInt64.size - 1) := by
  change min (Rat.floor (⌊q⌋ : ℚ)).toNat _ = _
  rw [Rat.floor_intCast]

end Extended

namespace Particle
variable {ν : Type} (p : Particle ν) (target : Property)

@[simp] theorem get_set (x : ν) : (p.set target x).get target = x := by cases target <;> rfl

@[simp] theorem set_set (x y : ν) : (p.set target x).set target y = p.set target y := by
  cases target <;> rfl

@[simp] theorem rotation_set (x : ν) : (p.set target x).rotation = p.rotation := by
  cases target <;> rfl

end Particle

def Vec3.Rational (v : Vec3 Extended) : Prop :=
  ∃ x y z : ℚ, v = ⟨finite x,finite y,finite z⟩

def Rotation.Rational (q : Rotation Extended) : Prop :=
  ∃ x y z w : ℚ, q = ⟨finite x,finite y,finite z,finite w⟩

theorem Vec3.add_eq {ν : Type} [Arithmetic ν] (a b : Vec3 ν) :
    a + b = ⟨a.x + b.x,a.y + b.y,a.z + b.z⟩ := rfl

theorem Rotation.exists_apply_scale {q : Rotation Extended} (hq : q.Rational) {v : Vec3 Extended}
    (hv : v.Rational) :
    ∃ x y z : ℚ, ∀ r, q.apply (v.scale (finite r)) =
      ⟨finite (x * r),finite (y * r),finite (z * r)⟩ := by
  obtain ⟨a,b,c,w,rfl⟩ := hq
  obtain ⟨x,y,z,rfl⟩ := hv
  have h2 : (2 : Extended) = finite 2 := rfl
  refine ⟨x * (w * w - (a * a + b * b + c * c)) + a * ((x * a + y * b + z * c) * 2) +
      (b * z - y * c) * (w * 2),
    y * (w * w - (a * a + b * b + c * c)) + b * ((x * a + y * b + z * c) * 2) +
      (c * x - z * a) * (w * 2),
    z * (w * w - (a * a + b * b + c * c)) + c * ((x * a + y * b + z * c) * 2) +
      (a * y - x * b) * (w * 2),fun r => ?_⟩
  simp only [Rotation.apply,Vec3.add_eq,Vec3.scale,Vec3.dot,Vec3.cross,h2,finite_mul,finite_add,
    finite_sub]
  congr 2 <;> ring

/-- Moves along one direction add up, and no move leaves a particle where it is. -/
theorem Particle.translate_scale {p : Particle Extended} (hp : p.rotation.Rational)
    {v : Vec3 Extended} (hv : v.Rational) (r s : ℚ) :
    (p.translate (v.scale (finite r))).translate (v.scale (finite s)) =
        p.translate (v.scale (finite (r + s))) ∧
      p.translate (v.scale (finite 0)) = p := by
  obtain ⟨x,y,z,h⟩ := Rotation.exists_apply_scale hp hv
  simp only [Particle.translate,h,Vec3.add_eq,add_finite_add,mul_add,mul_zero,add_finite_zero,
    and_self]

namespace Emission
variable (emission : Emission Extended)

/-- How many groups have had their turn at a ratio. -/
def reached (r : ℚ) : ℕ := min ⌊r * emission.times⌋.toNat (UInt64.size - 1)

theorem due_finite (before after : ℚ) :
    emission.due (finite before) (finite after) =
      List.range' (emission.reached before)
        (min (emission.reached after) emission.times - emission.reached before) := by
  simp only [due,ofNat_eq,finite_mul,toCount_floor,reached]

theorem reached_mono : Monotone emission.reached := by
  intro r s hrs
  have hfloor : ⌊r * emission.times⌋ ≤ ⌊s * emission.times⌋ := Int.floor_le_floor (by gcongr)
  exact min_le_min (Int.toNat_le_toNat hfloor) le_rfl

theorem reached_le {r : ℚ} (hr : r ≤ 1) : emission.reached r ≤ emission.times := by
  have hle : r * emission.times ≤ (emission.times : ℤ) := by
    push_cast
    exact mul_le_of_le_one_left (by positivity) hr
  have hfloor : ⌊r * emission.times⌋ ≤ (emission.times : ℤ) :=
    Int.cast_le.mp ((Int.floor_le (r * emission.times)).trans hle)
  exact (min_le_left _ _).trans (Int.toNat_le.mpr hfloor)

/-- Every group has its turn in one part of a window. -/
theorem due_append {r s t : ℚ} (hrs : r ≤ s) (hst : s ≤ t) (ht : t ≤ 1) :
    emission.due (finite r) (finite t) =
      emission.due (finite r) (finite s) ++ emission.due (finite s) (finite t) := by
  have h1 := emission.reached_mono hrs
  have h2 := emission.reached_mono hst
  have h3 := emission.reached_le ht
  have hlength : emission.reached t - emission.reached r =
      (emission.reached s - emission.reached r) + (emission.reached t - emission.reached s) := by
    omega
  rw [due_finite,due_finite,due_finite,min_eq_left h3,min_eq_left (h2.trans h3),hlength,
    ← List.range'_append_1,Nat.add_sub_cancel' h1]

theorem fire_fire {timing : Timing Extended} (hspan : timing.lifespan.IsSpan) {a m e : ℚ}
    (ham : a ≤ m) (hme : m ≤ e) (particle : Particle Extended) (stage : Stage Extended) :
    emission.fire timing (finite m) (finite e) particle
        (emission.fire timing (finite a) (finite m) particle stage) =
      emission.fire timing (finite a) (finite e) particle stage := by
  simp only [fire,Easing.ratio_finite _ hspan]
  rw [emission.due_append (timing.easing.exactRatio_mono hspan ham)
    (timing.easing.exactRatio_mono hspan hme) (timing.easing.exactRatio_le_one hspan e),
    List.foldl_append]

end Emission

namespace Effect

/-- What an effect may be so that its windows add up exactly. -/
inductive Additive : Effect Extended → Prop
  | nop : Additive .nop
  | set (target value) : Additive (.set target value)
  | add (target) (q : ℚ) : Additive (.add target (finite q))
  | close : Additive .close
  | translate {offset} : offset.Rational → Additive (.translate offset)
  | emit (emission) : Additive (.emit emission)
  | burst (burst) : Additive (.burst burst)
  | voice (cue) : Additive (.voice cue)

variable (setting : Setting Extended) {timing : Timing Extended}

/-- What happens once happens in the first part of a window or has happened before. -/
theorem firedBefore_fired {m : ℚ} (hm : m ≠ 0) :
    (Progress.fired : Progress Extended).firedBefore (finite m) = true := by
  simp [Progress.firedBefore,hm]

variable [Elementary Extended]

/-- An effect over a window is the effect over its first part, and then over its second. -/
theorem act_act {effect : Effect Extended} (he : effect.Additive)
    (hspan : timing.lifespan.IsSpan) (progress : Progress Extended) {a m e : ℚ} (ham : a ≤ m)
    (hme : m ≤ e) (hm : m ≠ 0) {scene : Scene Extended}
    (hrotation : scene.particle.rotation.Rational) :
    effect.act setting timing (effect.act setting timing progress (finite a) (finite m) scene).1
        (finite m) (finite e) (effect.act setting timing progress (finite a) (finite m) scene).2 =
      effect.act setting timing progress (finite a) (finite e) scene := by
  cases he with
  | nop => rfl
  | set target value => simp [act,hm]
  | add target q =>
    simp only [act,Easing.gain_finite _ hspan,finite_mul,Particle.get_set,Particle.set_set,
      add_finite_add]
    rw [← mul_add,sub_add_sub_cancel']
  | translate hv =>
    simp only [act,Easing.gain_finite _ hspan,(Particle.translate_scale hrotation hv _ _).1,
      sub_add_sub_cancel']
  | emit emission =>
    simp only [act]
    rw [emission.fire_fire hspan ham hme]
  | close =>
    have hmono := timing.easing.exactRatio_mono hspan hme
    cases hf : progress.firedBefore (finite a) with
    | true => simp [act,hf,firedBefore_fired hm]
    | false =>
      simp only [act,hf,Bool.false_eq_true,↓reduceIte,Easing.ratio_finite _ hspan,one_eq,finite_le]
      by_cases h1 : 1 ≤ timing.easing.exactRatio timing.lifespan m
      · simp [h1,h1.trans hmono,firedBefore_fired hm]
      · simp only [h1,↓reduceIte]
        rfl
  | burst | voice =>
    cases hf : progress.firedBefore (finite a) <;> simp [act,hf,firedBefore_fired hm]

theorem Additive.rotation_act {effect : Effect Extended} (he : effect.Additive)
    (progress : Progress Extended) (start stop : Extended) (scene : Scene Extended) :
    (effect.act setting timing progress start stop scene).2.particle.rotation =
      scene.particle.rotation := by
  cases he with
  | nop | emit | translate => rfl
  | set | add => simp [act]
  | close => simp only [act]; split_ifs <;> rfl
  | burst | voice => simp only [act]; split <;> rfl

/-- When its lifespan is over, an effect has done all that it does. -/
theorem act_of_le (effect : Effect Extended) {l a m e : ℚ} (hl : timing.lifespan = finite l)
    (hlm : l ≤ m) (hm : 0 < m) (hme : m ≤ e) (progress : Progress Extended)
    (scene : Scene Extended) :
    effect.act setting timing progress (finite a) (finite e) scene =
      effect.act setting timing progress (finite a) (finite m) scene := by
  have hspan : timing.lifespan.IsSpan := hl ▸ .rational l
  have hratio : ∀ t : ℚ, m ≤ t → timing.easing.ratio timing.lifespan (finite t) = 1 := by
    intro t ht
    rw [Easing.ratio_finite _ hspan,hl,Easing.exactRatio_eq_one _ (hm.trans_le ht) (hlm.trans ht)]
    rfl
  cases effect with
  | nop | explode | burst | voice => rfl
  | set | add | multiply | close | translate | rotate | emit =>
    simp only [act,Easing.gain,Emission.fire,hratio m le_rfl,hratio e hme]

end Effect
end Fireworks
