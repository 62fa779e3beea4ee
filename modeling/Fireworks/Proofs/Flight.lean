import Mathlib.Data.Sign.Basic
import Mathlib.Tactic.NormNum
import Fireworks.Proofs.Behavior.Lettering

/-! # Flights do not blow up

A step of flight is an Euler step, which overshoots where it is too long for the speed: a drag that takes
more than the whole velocity turns the motion round and feeds on itself. On an interval on which the step
is monotone this cannot happen, and it is enough that the step keeps the interval's ends inside. The
standard physics has such an interval around all velocities that a burst may give.
-/
namespace Fireworks
open Extended

theorem Extended.abs_finite (q : ℚ) : Arithmetic.abs (finite q) = finite |q| := by
  have habs : Arithmetic.abs (finite q) = if finite q < finite 0 then finite (-q) else finite q := rfl
  rw [habs]
  split
  case isTrue h => rw [abs_of_neg ((finite_lt q 0).mp h)]
  case isFalse h => rw [abs_of_nonneg (not_lt.mp (mt (finite_lt q 0).mpr h))]

theorem Particle.drag_finite (k v : ℚ) : drag (finite k) (finite v) = finite (k * (v * |v|)) := by
  unfold drag
  by_cases hv : v = 0
  · subst hv
    simp
  · have hne : |v| ≠ 0 := abs_ne_zero.mpr hv
    have hforce : k * v * v * v / |v| = k * (v * |v|) := by
      rw [div_eq_iff hne]
      linear_combination -(k * v) * abs_mul_abs_self v
    simp only [zero_eq,finite_beq,hv,decide_false,finite_mul,abs_finite,finite_div _ _ hne,hforce,
      isNaN_finite]
    rfl

namespace Flight

/-- One step of a velocity along one axis, where the drag takes the share `r` of its square and the pull
adds `g`. -/
def next (r g v : ℚ) : ℚ := v - r * (v * |v|) + g

variable {r g u v b : ℚ}

theorem mul_abs_sub_le (hu : |u| ≤ b) (hv : |v| ≤ b) (huv : u ≤ v) :
    v * |v| - u * |u| ≤ 2 * b * (v - u) := by
  rcases le_total 0 u with hu0 | hu0
  · rw [abs_of_nonneg hu0] at hu ⊢
    rw [abs_of_nonneg (hu0.trans huv)] at hv ⊢
    nlinarith
  · rw [abs_of_nonpos hu0] at hu ⊢
    rcases le_total 0 v with hv0 | hv0
    · rw [abs_of_nonneg hv0] at hv ⊢
      nlinarith
    · rw [abs_of_nonpos hv0] at hv ⊢
      nlinarith

/-- Up to the velocity at which the drag takes half of it, a step keeps the order of velocities. -/
theorem next_mono (hr : 0 ≤ r) (hb : r * (2 * b) ≤ 1) (hu : |u| ≤ b) (hv : |v| ≤ b) (huv : u ≤ v) :
    next r g u ≤ next r g v := by
  have hdrag := mul_le_mul_of_nonneg_left (mul_abs_sub_le hu hv huv) hr
  have hshare : r * (2 * b) * (v - u) ≤ 1 * (v - u) :=
    mul_le_mul_of_nonneg_right hb (sub_nonneg.mpr huv)
  unfold next
  linarith

theorem next_zero_eq_mul : next r 0 v = v * (1 - r * |v|) := by
  unfold next
  ring

theorem sign_next (h : r * |v| < 1) : SignType.sign (next r 0 v) = SignType.sign v := by
  rw [next_zero_eq_mul,sign_mul,sign_pos (sub_pos.mpr h),mul_one]

theorem abs_next_le (hr : 0 ≤ r) (h : r * |v| ≤ 1) : |next r 0 v| ≤ |v| := by
  have hshare : 0 ≤ r * |v| := mul_nonneg hr (abs_nonneg v)
  rw [next_zero_eq_mul,abs_mul,abs_of_nonneg (sub_nonneg.mpr h)]
  exact mul_le_of_le_one_right (abs_nonneg v) (by linarith)

/-- An interval of velocities keeps what is in it if a step is monotone there and keeps its ends. -/
theorem next_mem_Icc {low high : ℚ} (hr : 0 ≤ r) (hb : r * (2 * b) ≤ 1) (hlow : -b ≤ low) (hhigh : high ≤ b)
    (hends : low ≤ next r g low ∧ next r g high ≤ high) (hv : v ∈ Set.Icc low high) :
    next r g v ∈ Set.Icc low high := by
  obtain ⟨hl,hh⟩ := hv
  have habs : ∀ w, low ≤ w → w ≤ high → |w| ≤ b := by
    intro w hw hw'
    exact abs_le.mpr ⟨hlow.trans hw,hw'.trans hhigh⟩
  have hle : low ≤ high := hl.trans hh
  constructor
  · exact hends.1.trans (next_mono hr hb (habs low le_rfl hle) (habs v hl hh) hl)
  · exact (next_mono hr hb (habs v hl hh) (habs high hle le_rfl) hh).trans hends.2

end Flight

namespace Particle
variable {physics : Physics Extended} {p : Particle Extended} {k h m g x y z : ℚ}

/-- What decides the flight of a particle, in rational numbers. -/
structure Flies (physics : Physics Extended) (k h m g : ℚ) (p : Particle Extended) : Prop where
  drag : physics.drag = finite k
  dt : physics.dt = finite h
  mass : p.mass = finite m
  heavy : m ≠ 0
  gravity : p.gravity = finite g

theorem Flies.velocity_explode (hp : p.Flies physics k h m g) (hv : p.velocity = .exact x y z) :
    (p.explode physics).velocity = .exact (Flight.next (-k / m * h) 0 x)
      (Flight.next (-k / m * h) (g * h) y) (Flight.next (-k / m * h) 0 z) := by
  obtain ⟨hdrag,hdt,hmass,hm,hgravity⟩ := hp
  let pull := Vec3.exact (k * (x * |x|) / m) (k * (y * |y|) / m) (k * (z * |z|) / m)
  have hpull : (Vec3.exact (k * (x * |x|)) (k * (y * |y|)) (k * (z * |z|))).div (finite m) = pull :=
    Vec3.exact_div _ _ _ m hm
  calc (p.explode physics).velocity
    _ = Vec3.exact x y z + ({ pull with y := pull.y + finite g }).scale (finite h) := by
        rw [← hpull]
        simp only [explode,hv,hdrag,hdt,hmass,hgravity,Vec3.exact,drag_finite]
    _ = Vec3.exact (x + k * (x * |x|) / m * h) (y + (k * (y * |y|) / m + g) * h)
          (z + k * (z * |z|) / m * h) := rfl
    _ = _ := by
        unfold Flight.next
        rw [Vec3.exact_inj]
        refine ⟨?_,?_,?_⟩ <;> ring

theorem Flies.velocity_iterate (hp : p.Flies physics k h m g) (hv : p.velocity = .exact x y z) (n : ℕ) :
    ((explode physics)^[n] p).velocity = .exact ((Flight.next (-k / m * h) 0)^[n] x)
      ((Flight.next (-k / m * h) (g * h))^[n] y) ((Flight.next (-k / m * h) 0)^[n] z) := by
  induction n generalizing p x y z with
  | zero => exact hv
  | succ n ih =>
    have hnext : (p.explode physics).Flies physics k h m g :=
      ⟨hp.drag,hp.dt,hp.mass,hp.heavy,hp.gravity⟩
    exact ih hnext (hp.velocity_explode hv)

end Particle

namespace Flight

/-- The share of the square of a velocity that the drag of the standard physics takes from a particle of a
burst in one step. -/
def burstDrag : ℚ := 0.0000900238 / 0.01 * 0.0167

theorem burstDrag_nonneg : 0 ≤ burstDrag := by
  norm_num [burstDrag]

theorem burstDrag_mul_le : burstDrag * (2 * 16) ≤ 1 := by
  norm_num [burstDrag]

theorem burstDrag_mul_lt {v : ℚ} (hv : |v| ≤ 4) : burstDrag * |v| < 1 := by
  have hmax := mul_le_mul_of_nonneg_left hv burstDrag_nonneg
  have hlt : burstDrag * 4 < 1 := by norm_num [burstDrag]
  exact hmax.trans_lt hlt

theorem iterate_sideways {v : ℚ} (hv : |v| ≤ 4) (n : ℕ) :
    SignType.sign ((next burstDrag 0)^[n] v) = SignType.sign v ∧ |(next burstDrag 0)^[n] v| ≤ 4 := by
  induction n with
  | zero => exact ⟨rfl,hv⟩
  | succ n ih =>
    obtain ⟨hsign,hle⟩ := ih
    have hshare := burstDrag_mul_lt hle
    rw [Function.iterate_succ_apply']
    exact ⟨(sign_next hshare).trans hsign,(abs_next_le burstDrag_nonneg hshare.le).trans hle⟩

theorem sideways {v : ℚ} (hv : |v| ≤ 4) (n : ℕ) :
    SignType.sign ((next burstDrag 0)^[n] v) = SignType.sign v ∧
      |(next burstDrag 0)^[n + 1] v| ≤ |(next burstDrag 0)^[n] v| := by
  obtain ⟨hsign,hle⟩ := iterate_sideways hv n
  rw [Function.iterate_succ_apply']
  exact ⟨hsign,abs_next_le burstDrag_nonneg (burstDrag_mul_lt hle).le⟩

theorem iterate_mem_Icc {g v : ℚ} (hg : -2.1 ≤ g) (hg' : g ≤ 0) (hv : |v| ≤ 4) (n : ℕ) :
    (next burstDrag (g * 0.0167))^[n] v ∈ Set.Icc (-16) 4 := by
  induction n with
  | zero =>
    obtain ⟨hlow,hhigh⟩ := abs_le.mp hv
    have hstart : -16 ≤ v := by linarith
    exact ⟨hstart,hhigh⟩
  | succ n ih =>
    rw [Function.iterate_succ_apply']
    -- At -16 the drag takes more than the strongest pull adds.
    refine next_mem_Icc burstDrag_nonneg burstDrag_mul_le le_rfl (by norm_num) ⟨?_,?_⟩ ih
    · norm_num [next,burstDrag]
      linarith
    · norm_num [next,burstDrag]
      linarith

end Flight

/-- The standard physics lets no flight blow up. A particle of a burst, with a pull of at most 2.1 downwards
and velocities of at most 4 along each axis, never turns round sideways and never gets faster there,
however many steps it takes, and up and down it always stays between -16 and 4. -/
theorem Particle.velocity_bounded {p : Particle Extended} {x y z g : ℚ}
    (hmass : p.mass = (Physics.default : Physics Extended).spawnMass) (hgravity : p.gravity = finite g)
    (hg : -2.1 ≤ g ∧ g ≤ 0) (hv : p.velocity = .exact x y z) (hx : |x| ≤ 4) (hy : |y| ≤ 4) (hz : |z| ≤ 4) :
    ∃ u v w : ℕ → ℚ, (∀ n, ((explode .default)^[n] p).velocity = .exact (u n) (v n) (w n)) ∧
      ∀ n, (SignType.sign (u n) = SignType.sign x ∧ |u (n + 1)| ≤ |u n|) ∧
        (SignType.sign (w n) = SignType.sign z ∧ |w (n + 1)| ≤ |w n|) ∧ -16 ≤ v n ∧ v n ≤ 4 := by
  have hp : p.Flies .default (-0.0000900238) 0.0167 0.01 g :=
    ⟨rfl,rfl,hmass,by norm_num,hgravity⟩
  have hr : -(-0.0000900238) / 0.01 * 0.0167 = Flight.burstDrag := by
    rw [neg_neg]
    rfl
  have hiterate := hp.velocity_iterate hv
  rw [hr] at hiterate
  refine ⟨_,_,_,hiterate,fun n => ⟨Flight.sideways hx n,Flight.sideways hz n,?_⟩⟩
  exact Flight.iterate_mem_Icc hg.1 hg.2 hy n

namespace Plain

def shard : Particle Extended :=
  { scene.particle with velocity := .exact 4 (-4) (-1 / 2), gravity := finite (-2.1), mass := finite 0.01 }

theorem shard_velocity_bounded :
    ∃ u v w : ℕ → ℚ, (∀ n, ((Particle.explode .default)^[n] shard).velocity = .exact (u n) (v n) (w n)) ∧
      ∀ n, (SignType.sign (u n) = SignType.sign (4 : ℚ) ∧ |u (n + 1)| ≤ |u n|) ∧
        (SignType.sign (w n) = SignType.sign (-1 / 2 : ℚ) ∧ |w (n + 1)| ≤ |w n|) ∧ -16 ≤ v n ∧ v n ≤ 4 :=
  Particle.velocity_bounded (x := 4) (y := -4) (z := -1 / 2) (g := -2.1) rfl rfl ⟨le_rfl,by norm_num⟩ rfl
    (by norm_num) (by norm_num) (by norm_num)

end Plain

end Fireworks
