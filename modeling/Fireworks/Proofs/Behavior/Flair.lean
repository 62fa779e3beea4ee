import Mathlib.Analysis.SpecialFunctions.Pow.Real
import Mathlib.Analysis.SpecialFunctions.Trigonometric.Basic
import Fireworks.Proofs.Behavior.Offspring
import Fireworks.Proofs.Rng

/-! # How a flair flies

A flair draws one speed for all its children and gives each a direction of its own. In real numbers the
first `sphereSize` directions lie on the upper half of the unit sphere. The angle starts over after those,
but the height does not: it leaves the sphere, and every further child goes straight up, faster than the
speed drawn.
-/
namespace Fireworks

noncomputable instance : Arithmetic ℝ where
  ofNat n := n
  abs x := |x|
  floor x := ⌊x⌋
  isFinite _ := true
  toCount x := min ⌊x⌋.toNat (UInt64.size - 1)
  decidableLT := inferInstance
  decidableLE := inferInstance

noncomputable instance : Elementary ℝ where
  sqrt := Real.sqrt
  sin := Real.sin
  cos := Real.cos
  pow x y := x ^ y
  pi := Real.pi

theorem maxNum_real (x y : ℝ) : Arithmetic.maxNum x y = max x y := by
  have hself : Arithmetic.isNaN x = false := by simp [Arithmetic.isNaN]
  rw [Arithmetic.maxNum,hself,max_def_lt]
  rfl

section
variable {ν : Type}

/-- The particles that were sent out, without what drives them. -/
def Stage.particles (stage : Stage ν) : List (Particle ν) := stage.spawned.toList.map Slot.particle

variable [Arithmetic ν]

theorem Stage.particles_sendOut (stage : Stage ν) (particle : Particle ν) (body : BehaviorGen ν)
    (k : Index) : (stage.sendOut particle body k).particles = stage.particles ++ [particle] := by
  have hpush : (stage.sendOut particle body k).spawned.toList =
      stage.spawned.toList ++ [⟨particle,((body.generate k).run stage.rng).1,.fresh⟩] := Array.toList_push
  rw [particles,hpush,List.map_append]
  rfl

omit [Arithmetic ν] in
theorem Stage.view_foldl {α β : Type} (view : Stage ν → List β) {f : Stage ν → α → Stage ν} {g : α → β}
    (hf : ∀ stage a, view (f stage a) = view stage ++ [g a]) (xs : List α) (stage : Stage ν) :
    view (xs.foldl f stage) = view stage ++ xs.map g := by
  induction xs generalizing stage with
  | nil => exact (List.append_nil _).symm
  | cons a xs ih => rw [List.foldl_cons,ih,hf,List.append_assoc,List.map_cons,List.singleton_append]

variable [Elementary ν] (setting : Setting ν)

/-- The speed that a flair draws. -/
def Burst.speed (stage : Stage ν) : ν := (stage.draw (Rng.between 2 4)).1

def Burst.flairVelocity (stage : Stage ν) (i : ℕ) : Vec3 ν := (sphereDirection i).scale (speed stage)

/-- The particles that a call sends out, in their order. -/
def Behavior.sent (b : Behavior ν) (progress : Progress ν) (start stop : ν) (scene : Scene ν) :
    List (Particle ν) :=
  (b.update setting progress start stop scene).scene.stage.particles.drop scene.stage.particles.length

theorem Burst.particles_flair (count : ℕ) (body : BehaviorGen ν) (particle : Particle ν)
    (stage : Stage ν) :
    ∃ gravity, (Burst.fire setting particle stage (.flair count body)).particles = stage.particles ++
      (List.range (min count maxSpawn)).map fun i => particle.launch particle.position
        (flairVelocity stage i) gravity setting.config.physics.spawnMass := by
  let drawn := (stage.draw (Rng.between (2 : ν) 4)).2.draw (Rng.unit : StateM Rng ν)
  let child (i : ℕ) : Particle ν := particle.launch particle.position (flairVelocity stage i)
    (-0.1 - drawn.1 * 2) setting.config.physics.spawnMass
  exact ⟨_,Stage.view_foldl Stage.particles (fun stage i => stage.particles_sendOut (child i) body .root) _ drawn.2⟩

variable (timing : Timing ν) (progress : Progress ν) (start stop : ν) (scene : Scene ν)

/-- A flair leaves all at once, and once in a run. -/
theorem Behavior.sent_flair (count : ℕ) (body : BehaviorGen ν) :
    ∃ gravity, (leaf timing (.burst (.flair count body))).sent setting progress start stop scene =
      if progress.firedBefore start then [] else (List.range (min count maxSpawn)).map fun i =>
        scene.particle.launch scene.particle.position (Burst.flairVelocity scene.stage i) gravity
          setting.config.physics.spawnMass := by
  obtain ⟨gravity,hfire⟩ := Burst.particles_flair setting count body scene.particle scene.stage
  refine ⟨gravity,?_⟩
  by_cases hfired : progress.firedBefore start = true
  · simp only [sent,update,Effect.act,if_pos hfired,List.drop_length]
  · simp only [sent,update,Effect.act,if_neg hfired,hfire,List.drop_left]

theorem Behavior.velocity_flair (count : ℕ) (body : BehaviorGen ν) :
    ((leaf timing (.burst (.flair count body))).sent setting progress start stop scene).map Particle.velocity =
      if progress.firedBefore start then [] else
        (List.range (min count maxSpawn)).map (Burst.flairVelocity scene.stage) := by
  obtain ⟨gravity,hsent⟩ := sent_flair setting timing progress start stop scene count body
  rw [hsent]
  split_ifs
  · rfl
  · rw [List.map_map]
    rfl

end

/-! ## Real numbers -/

/-- A velocity of a given speed along the upper half of the unit sphere. -/
def Vec3.Upward (speed : ℝ) (v : Vec3 ℝ) : Prop :=
  ∃ d : Vec3 ℝ, d.dot d = 1 ∧ 0 ≤ d.y ∧ v = d.scale speed

theorem Vec3.Upward.y_mem {speed : ℝ} (hspeed : 0 ≤ speed) {v : Vec3 ℝ} (h : v.Upward speed) :
    0 ≤ v.y ∧ v.y ≤ speed := by
  obtain ⟨d,hunit,hy,rfl⟩ := h
  have hunit : d.x * d.x + d.y * d.y + d.z * d.z = 1 := hunit
  have hle : d.y ≤ 1 := by nlinarith [mul_self_nonneg d.x,mul_self_nonneg d.z]
  exact ⟨mul_nonneg hy hspeed,mul_le_of_le_one_left hspeed hle⟩

namespace Burst

theorem unit_mem (rng : Rng) : 0 ≤ (rng.unit : ℝ × Rng).1 ∧ (rng.unit : ℝ × Rng).1 < 1 := by
  have hbits := Rng.toNat_shiftRight_lt rng.next.1
  have hunit : (rng.unit : ℝ × Rng).1 =
      ((rng.next.1 >>> 11).toNat : ℝ) / ((9007199254740992 : ℕ) : ℝ) := rfl
  rw [hunit]
  refine ⟨by positivity,?_⟩
  rw [div_lt_one (by norm_num)]
  exact_mod_cast hbits

theorem speed_mem (stage : Stage ℝ) : 2 ≤ speed stage ∧ speed stage < 4 := by
  obtain ⟨hnonneg,hlt⟩ := unit_mem stage.rng
  have hspeed : speed stage = ((2 : ℕ) : ℝ) +
      (stage.rng.unit : ℝ × Rng).1 * (((4 : ℕ) : ℝ) - ((2 : ℕ) : ℝ)) := rfl
  push_cast at hspeed
  constructor <;> linarith

/-- The height of child `i` of a flair, on the sphere or above it. -/
noncomputable def height (i : ℕ) : ℝ := |(2 * i + 1) / sphereSize - 1|

theorem height_le_one {i : ℕ} (h : i < sphereSize) : height i ≤ 1 := by
  have hi : (i : ℝ) + 1 ≤ sphereSize := by exact_mod_cast h
  have hsize : (0 : ℝ) < sphereSize := by norm_num [sphereSize]
  have hnonneg : 0 ≤ (2 * (i : ℝ) + 1) / sphereSize := by positivity
  have hle : (2 * (i : ℝ) + 1) / sphereSize ≤ 2 := by
    rw [div_le_iff₀ hsize]
    linarith
  exact abs_le.mpr ⟨by linarith,by linarith⟩

theorem one_lt_height {i : ℕ} (h : sphereSize ≤ i) : 1 < height i := by
  have hi : (sphereSize : ℝ) ≤ i := by exact_mod_cast h
  have hsize : (0 : ℝ) < sphereSize := by norm_num [sphereSize]
  have hquotient : 2 < (2 * (i : ℝ) + 1) / sphereSize := by
    rw [lt_div_iff₀ hsize]
    linarith
  exact lt_abs.mpr (.inl (by linarith))

theorem sphereDirection_y (i : ℕ) : (sphereDirection i : Vec3 ℝ).y = height i := by
  -- The numerals of the program are natural numbers taken over one by one.
  change |(i : ℝ) * (((2 : ℕ) : ℝ) / (sphereSize : ℝ)) - ((1 : ℕ) : ℝ) +
    ((2 : ℕ) : ℝ) / (sphereSize : ℝ) / ((2 : ℕ) : ℝ)| = _
  rw [height]
  congr 1
  push_cast
  ring

/-- The radius of the circle at the height of child `i`, or zero where there is none. -/
noncomputable def radius (i : ℕ) : ℝ := √(max (1 - height i * height i) 0)

theorem exists_sphereDirection (i : ℕ) : ∃ phi : ℝ, (sphereDirection i : Vec3 ℝ) =
    ⟨Real.cos phi * radius i,height i,Real.sin phi * radius i⟩ := by
  let phi : ℝ := (((i + 1) % sphereSize : ℕ) : ℝ) * (Real.pi * (((3 : ℕ) : ℝ) - √((5 : ℕ) : ℝ)))
  let y := (sphereDirection i : Vec3 ℝ).y
  have hradius : √(Arithmetic.maxNum (((1 : ℕ) : ℝ) - y * y) ((0 : ℕ) : ℝ)) = radius i := by
    rw [maxNum_real,Nat.cast_one,Nat.cast_zero,radius,← sphereDirection_y]
  rw [← hradius,← sphereDirection_y]
  exact ⟨phi,rfl⟩

theorem dot_sphereDirection {i : ℕ} (h : i < sphereSize) :
    (sphereDirection i : Vec3 ℝ).dot (sphereDirection i) = 1 := by
  have hnonneg : 0 ≤ height i := abs_nonneg _
  have hheight : 0 ≤ 1 - height i * height i :=
    sub_nonneg.mpr (mul_le_one₀ (height_le_one h) hnonneg (height_le_one h))
  have hradius : radius i * radius i = 1 - height i * height i := by
    rw [radius,max_eq_left hheight,Real.mul_self_sqrt hheight]
  obtain ⟨phi,hdirection⟩ := exists_sphereDirection i
  rw [hdirection]
  calc Real.cos phi * radius i * (Real.cos phi * radius i) + height i * height i +
        Real.sin phi * radius i * (Real.sin phi * radius i)
    _ = (Real.sin phi ^ 2 + Real.cos phi ^ 2) * (radius i * radius i) + height i * height i := by ring
    _ = 1 := by rw [Real.sin_sq_add_cos_sq,hradius]; ring

theorem sphereDirection_of_le {i : ℕ} (h : sphereSize ≤ i) :
    (sphereDirection i : Vec3 ℝ) = ⟨0,height i,0⟩ := by
  have hlt := one_lt_height h
  have hheight : 1 - height i * height i ≤ 0 :=
    sub_nonpos.mpr (one_le_mul_of_one_le_of_one_le hlt.le hlt.le)
  have hradius : radius i = 0 := by rw [radius,max_eq_right hheight,Real.sqrt_zero]
  obtain ⟨phi,hdirection⟩ := exists_sphereDirection i
  rw [hdirection,hradius,mul_zero,mul_zero]

theorem upward_flairVelocity {i : ℕ} (h : i < sphereSize) (stage : Stage ℝ) :
    (flairVelocity stage i).Upward (speed stage) :=
  ⟨sphereDirection i,dot_sphereDirection h,(sphereDirection_y i).symm ▸ abs_nonneg _,rfl⟩

theorem flairVelocity_of_le {i : ℕ} (h : sphereSize ≤ i) (stage : Stage ℝ) :
    flairVelocity stage i = ⟨0,height i * speed stage,0⟩ := by
  have hzero : (0 : ℝ) * speed stage = 0 := zero_mul _
  rw [flairVelocity,sphereDirection_of_le h]
  exact congrArg₂ (fun x z => (⟨x,height i * speed stage,z⟩ : Vec3 ℝ)) hzero hzero

theorem speed_lt_flairVelocity {i : ℕ} (h : sphereSize ≤ i) (stage : Stage ℝ) :
    speed stage < (flairVelocity stage i).y := by
  have hspeed : 0 < speed stage := two_pos.trans_le (speed_mem stage).1
  rw [flairVelocity_of_le h]
  exact lt_mul_of_one_lt_left hspeed (one_lt_height h)

end Burst

section
variable (setting : Setting ℝ) (timing : Timing ℝ) (progress : Progress ℝ) (start stop : ℝ)
  (scene : Scene ℝ) (count : ℕ) (body : BehaviorGen ℝ)

/-- What the velocities of the first `sphereSize` children have, and no other has, is true of all children
of a flair that has left already or is small enough. -/
theorem Behavior.forall_sent_flair_iff {P : Vec3 ℝ → Prop}
    (hP : ∀ i, P (Burst.flairVelocity scene.stage i) ↔ i < Burst.sphereSize) :
    (∀ child ∈ (leaf timing (.burst (.flair count body))).sent setting progress start stop scene,
      P child.velocity) ↔ progress.firedBefore start = true ∨ count ≤ Burst.sphereSize := by
  have hvelocities := velocity_flair setting timing progress start stop scene count body
  rw [← List.forall_mem_map,hvelocities]
  by_cases hfired : progress.firedBefore start = true
  · rw [if_pos hfired]
    exact ⟨fun _ => .inl hfired,fun _ _ hmem => absurd hmem List.not_mem_nil⟩
  · rw [if_neg hfired,List.forall_mem_map]
    have hbound : Burst.sphereSize < maxSpawn := by decide
    constructor
    · intro h
      refine .inr (not_lt.mp fun hcount => ?_)
      have hlast := h Burst.sphereSize (List.mem_range.mpr (lt_min hcount hbound))
      exact lt_irrefl _ ((hP _).mp hlast)
    · intro h i hi
      have hcount := h.resolve_left hfired
      exact (hP i).mpr ((lt_min_iff.mp (List.mem_range.mp hi)).1.trans_le hcount)

/-- The children of a flair share the speed drawn and leave along the upper half of the unit sphere exactly
when there are at most `sphereSize` of them. Those beyond go straight up, and are faster. -/
theorem Behavior.flair_upward_iff :
    let sent := (leaf timing (.burst (.flair count body))).sent setting progress start stop scene
    let speed := Burst.speed scene.stage
    let velocity := Burst.flairVelocity scene.stage
    2 ≤ speed ∧ speed < 4 ∧
      sent.map Particle.velocity = (if progress.firedBefore start then [] else
        (List.range (min count maxSpawn)).map velocity) ∧
      (∀ i < Burst.sphereSize, (velocity i).Upward speed) ∧
      (∀ i ≥ Burst.sphereSize, velocity i = ⟨0,Burst.height i * speed,0⟩ ∧ speed < (velocity i).y) ∧
      ((∀ child ∈ sent, child.velocity.Upward speed) ↔
        progress.firedBefore start = true ∨ count ≤ Burst.sphereSize) ∧
      ((∀ child ∈ sent, 0 ≤ child.velocity.y ∧ child.velocity.y ≤ speed) ↔
        progress.firedBefore start = true ∨ count ≤ Burst.sphereSize) := by
  intro sent speed velocity
  obtain ⟨hlow,hhigh⟩ := Burst.speed_mem scene.stage
  have hspeed : 0 ≤ speed := two_pos.le.trans hlow
  have hupward : ∀ i < Burst.sphereSize, (velocity i).Upward speed := fun i hi =>
    Burst.upward_flairVelocity hi scene.stage
  have hbeyond : ∀ i ≥ Burst.sphereSize,
      velocity i = ⟨0,Burst.height i * speed,0⟩ ∧ speed < (velocity i).y := fun i hi =>
    ⟨Burst.flairVelocity_of_le hi scene.stage,Burst.speed_lt_flairVelocity hi scene.stage⟩
  have hmem : ∀ i, 0 ≤ (velocity i).y ∧ (velocity i).y ≤ speed ↔ i < Burst.sphereSize := by
    intro i
    constructor
    · rintro ⟨-,hle⟩
      exact not_le.mp fun hi => (hbeyond i hi).2.not_ge hle
    · exact fun hi => (hupward i hi).y_mem hspeed
  have hiff : ∀ i, (velocity i).Upward speed ↔ i < Burst.sphereSize := fun i =>
    ⟨fun h => (hmem i).mp (h.y_mem hspeed),hupward i⟩
  exact ⟨hlow,hhigh,velocity_flair setting timing progress start stop scene count body,hupward,hbeyond,
    forall_sent_flair_iff setting timing progress start stop scene count body hiff,
    forall_sent_flair_iff (P := fun v => 0 ≤ v.y ∧ v.y ≤ speed) setting timing progress start stop scene
      count body hmem⟩

end

namespace Plain

noncomputable def realScene : Scene ℝ where
  particle := .resting .default .zero
  stage := { rng := default }

/-- With one child more than there are places on the sphere, the last one is faster than the speed drawn. -/
theorem not_le_speed_flair : ¬∀ child ∈ (Behavior.ofEffect (.burst (.flair 301 (.action .nop)))).sent
    ⟨.default,Grid.rasterize Grid.defaultSpacing⟩ .fresh 0 1 realScene,
    0 ≤ child.velocity.y ∧ child.velocity.y ≤ Burst.speed realScene.stage := by
  have hvelocities := Behavior.velocity_flair (ν := ℝ) ⟨.default,Grid.rasterize Grid.defaultSpacing⟩
    { lifespan := 0 } .fresh 0 1 realScene 301 (.action .nop)
  have hfired : ¬(Progress.fresh : Progress ℝ).firedBefore 0 = true := Bool.false_ne_true
  have hbound : 300 < min 301 maxSpawn := by decide
  have hlast := List.mem_map_of_mem (f := Burst.flairVelocity realScene.stage) (List.mem_range.mpr hbound)
  rw [if_neg hfired] at hvelocities
  rw [← hvelocities] at hlast
  obtain ⟨child,hchild,hvelocity⟩ := List.mem_map.mp hlast
  intro h
  have hle := (h child hchild).2
  rw [hvelocity] at hle
  exact (Burst.speed_lt_flairVelocity le_rfl realScene.stage).not_ge hle

end Plain
end Fireworks
