import Fireworks.Proofs.Behavior.Emission

/-! # How many children a call makes

Emissions and bursts with a count keep to `maxSpawn` children for each call. A text has a child for each
point of its letters, and however long it is, all of them leave at once.
-/
namespace Fireworks
variable {ν : Type} [Arithmetic ν]

namespace Stage

theorem size_sendOut (stage : Stage ν) (particle : Particle ν) (body : BehaviorGen ν) (k : Index) :
    (stage.sendOut particle body k).spawned.size = stage.spawned.size + 1 := Array.size_push _

omit [Arithmetic ν] in
theorem size_foldl {α : Type} {f : Stage ν → α → Stage ν}
    (hf : ∀ stage a, (f stage a).spawned.size = stage.spawned.size + 1) (xs : List α) (stage : Stage ν) :
    (xs.foldl f stage).spawned.size = stage.spawned.size + xs.length := by
  induction xs generalizing stage with
  | nil => rfl
  | cons a xs ih =>
    rw [List.foldl_cons,ih,hf,List.length_cons]
    omega

end Stage

namespace Emission
variable (emission : Emission ν)

omit [Arithmetic ν] in
theorem length_slots (group : ℕ) : (emission.slots group).length = emission.count * emission.parallel := by
  simp [slots]

omit [Arithmetic ν] in
theorem length_indices (group : ℕ) : (emission.indices group).length = emission.count * emission.parallel := by
  rw [indices,List.length_map,length_slots]

omit [Arithmetic ν] in
theorem length_flatMap_indices (groups : List ℕ) :
    (groups.flatMap emission.indices).length = groups.length * (emission.count * emission.parallel) := by
  induction groups with
  | nil => exact (Nat.zero_mul _).symm
  | cons group groups ih =>
    rw [List.flatMap_cons,List.length_append,length_indices,ih,List.length_cons,Nat.succ_mul,Nat.add_comm]

/-- In no window do more groups leave than there are. -/
theorem length_leaving_le (timing : Timing ν) (start stop : ν) :
    (emission.leaving timing start stop).length ≤ emission.total := by
  have hgroups : (emission.due (timing.easing.ratio timing.lifespan start)
      (timing.easing.ratio timing.lifespan stop)).length ≤ emission.times := by
    rw [due,List.length_range']
    exact (Nat.sub_le _ _).trans (min_le_right _ _)
  calc (emission.leaving timing start stop).length
    _ = (emission.due (timing.easing.ratio timing.lifespan start)
          (timing.easing.ratio timing.lifespan stop)).length * (emission.count * emission.parallel) :=
        emission.length_flatMap_indices _
    _ ≤ emission.times * (emission.count * emission.parallel) := Nat.mul_le_mul_right _ hgroups
    _ = emission.total := by rw [total]; ring

omit [Arithmetic ν] in
theorem total_capped_le (count times parallel : ℕ) (body : BehaviorGen ν) :
    (capped count times parallel body).total ≤ maxSpawn := by
  let groups := min times maxSpawn
  let lanes := min parallel (maxSpawn / max groups 1)
  have hcount : min count (maxSpawn / max (groups * lanes) 1) ≤ maxSpawn / max (groups * lanes) 1 :=
    min_le_right _ _
  calc (capped count times parallel body).total
    _ = min count (maxSpawn / max (groups * lanes) 1) * (groups * lanes) := Nat.mul_assoc _ _ _
    _ ≤ maxSpawn / max (groups * lanes) 1 * max (groups * lanes) 1 :=
        Nat.mul_le_mul hcount (le_max_left _ _)
    _ ≤ maxSpawn := Nat.div_mul_le_self _ _

theorem size_fire (timing : Timing ν) (start stop : ν) (particle : Particle ν) (stage : Stage ν) :
    (emission.fire timing start stop particle stage).spawned.size =
      stage.spawned.size + (emission.leaving timing start stop).length := by
  rw [fire_eq_sendAll]
  exact Stage.size_foldl (fun stage k => stage.size_sendOut _ _ _) _ stage

end Emission

namespace Grid

/-- The number of characters of a text that show. -/
def shown (text : String) : ℕ := text.toList.countP fun c => !Text.isBlank c

theorem length_pointsFrom (spacing : ν) (cell : ℕ) (cs : List Char) :
    (pointsFrom spacing cell cs).length = pointsPerGlyph * cs.countP fun c => !Text.isBlank c := by
  induction cs generalizing cell with
  | nil => rfl
  | cons c cs ih =>
    rw [pointsFrom,List.length_append,ih,List.countP_cons,Nat.mul_add,Nat.add_comm]
    cases Text.isBlank c with
    | true => rfl
    | false => rfl

theorem length_rasterize (spacing : ν) (text : String) :
    (rasterize spacing text).points.length = pointsPerGlyph * shown text :=
  length_pointsFrom spacing 0 text.toList

end Grid

section
variable [Elementary ν] (setting : Setting ν)

def Burst.size (b : Burst ν) : ℕ :=
  match b with
  | .flair count _ | .fireworks count _ => min count maxSpawn
  | .glyphs text _ _ => (setting.rasterizer text).points.length

theorem Burst.size_fire (b : Burst ν) (particle : Particle ν) (stage : Stage ν) :
    (b.fire setting particle stage).spawned.size = stage.spawned.size + b.size setting := by
  cases b with
  | flair count body =>
    let drawn := ((stage.draw (Rng.between (2 : ν) 4)).2.draw (Rng.unit : StateM Rng ν)).2
    refine (Stage.size_foldl (fun stage i => stage.size_sendOut _ _ _) _ drawn).trans ?_
    rw [List.length_range]
    rfl
  | fireworks count body =>
    refine (Stage.size_foldl (fun stage i => ?_) _ stage).trans ?_
    · exact (stage.draw (scatter (ν := ν))).2.size_sendOut _ _ _
    · rw [List.length_range]
      rfl
  | glyphs text offset body =>
    refine Stage.size_foldl (fun stage point => ?_) _ stage
    exact (stage.draw (drift (ν := ν))).2.size_sendOut _ _ _

/-- The number of children that a call adds to the stage. -/
def Behavior.births (b : Behavior ν) (progress : Progress ν) (start stop : ν) (scene : Scene ν) : ℕ :=
  (b.update setting progress start stop scene).scene.stage.spawned.size - scene.stage.spawned.size

variable (timing : Timing ν) (progress : Progress ν) (start stop : ν) (scene : Scene ν)

theorem Behavior.births_emit (emission : Emission ν) :
    (Behavior.leaf timing (.emit emission)).births setting progress start stop scene =
      (emission.leaving timing start stop).length := by
  have hsize := emission.size_fire timing start stop scene.particle scene.stage
  have hbirths : (Behavior.leaf timing (.emit emission)).births setting progress start stop scene =
      (emission.fire timing start stop scene.particle scene.stage).spawned.size - scene.stage.spawned.size :=
    rfl
  omega

/-- The children of a burst leave all at once, and once in a run. -/
theorem Behavior.births_burst (b : Burst ν) :
    (Behavior.leaf timing (.burst b)).births setting progress start stop scene =
      if progress.firedBefore start then 0 else b.size setting := by
  have hsize := b.size_fire setting scene.particle scene.stage
  by_cases hfired : progress.firedBefore start = true
  · simp only [births,update,Effect.act,if_pos hfired,Nat.sub_self]
  · simp only [births,update,Effect.act,if_neg hfired,hsize,Nat.add_sub_cancel_left]

end

/-- One call of an emission, a flair or fireworks makes at most `maxSpawn` children, whatever their counts,
and so does that of a text that has left in this run. Any other text makes a child for each point of its
letters, and keeps to that bound only as long as it is short enough. -/
theorem Behavior.births_le_iff [Elementary ν] (config : Config ν) (spacing : ν) (timing : Timing ν) (progress : Progress ν)
    (start stop : ν) (scene : Scene ν) :
    let births := fun effect => (Behavior.leaf timing effect).births ⟨config,Grid.rasterize spacing⟩
      progress start stop scene
    (∀ count times parallel body, births (.emit (.capped count times parallel body)) ≤ maxSpawn) ∧
      (∀ count body, births (.burst (.flair count body)) ≤ maxSpawn) ∧
      (∀ count body, births (.burst (.fireworks count body)) ≤ maxSpawn) ∧
      ∀ text offset body, births (.burst (.glyphs text offset body)) ≤ maxSpawn ↔
        progress.firedBefore start = true ∨ Grid.pointsPerGlyph * Grid.shown text ≤ maxSpawn := by
  intro births
  have hburst : ∀ b, births (.burst b) =
      if progress.firedBefore start then 0 else b.size ⟨config,Grid.rasterize spacing⟩ := fun b =>
    Behavior.births_burst _ timing progress start stop scene b
  have hcounted : ∀ b : Burst ν, b.size ⟨config,Grid.rasterize spacing⟩ ≤ maxSpawn →
      births (.burst b) ≤ maxSpawn := by
    intro b hb
    rw [hburst]
    split_ifs
    · exact Nat.zero_le _
    · exact hb
  refine ⟨fun count times parallel body => ?_,fun count body => hcounted _ (min_le_right _ _),
    fun count body => hcounted _ (min_le_right _ _),fun text offset body => ?_⟩
  · have hleaving := (Emission.capped count times parallel body).length_leaving_le timing start stop
    have htotal := Emission.total_capped_le count times parallel body
    have hbirths := Behavior.births_emit ⟨config,Grid.rasterize spacing⟩ timing progress start stop scene
      (.capped count times parallel body)
    exact hbirths.le.trans (hleaving.trans htotal)
  · have hsize : (Burst.glyphs text offset body).size ⟨config,Grid.rasterize spacing⟩ =
        Grid.pointsPerGlyph * Grid.shown text := Grid.length_rasterize spacing text
    rw [hburst,hsize]
    by_cases hfired : progress.firedBefore start = true
    · rw [if_pos hfired]
      exact ⟨fun _ => .inl hfired,fun _ => Nat.zero_le _⟩
    · rw [if_neg hfired]
      exact ⟨.inr,fun h => h.resolve_left hfired⟩

namespace Plain

/-- A text that is too long for the bound. -/
def banner : String := .ofList (List.replicate 6667 'a')

theorem shown_replicate (n : ℕ) : Grid.shown (.ofList (List.replicate n 'a')) = n := by
  have hshown : (!Text.isBlank 'a') = true := by decide
  rw [Grid.shown,String.toList_ofList,List.countP_replicate,if_pos hshown]

theorem births_glyphs (text : String) :
    (Behavior.ofEffect (.burst (.glyphs text .zero (.action .nop)))).births (setting 100) .fresh 0 1 scene =
      Grid.pointsPerGlyph * Grid.shown text := by
  have hbirths := Behavior.births_burst (setting 100) { lifespan := 0 } .fresh 0 1 scene
    (.glyphs text .zero (.action .nop))
  exact hbirths.trans (Grid.length_rasterize Grid.defaultSpacing text)

theorem maxSpawn_lt_births_banner :
    maxSpawn < (Behavior.ofEffect (.burst (.glyphs banner .zero (.action .nop)))).births (setting 100)
      .fresh 0 1 scene := by
  have hshown : Grid.shown banner = 6667 := shown_replicate 6667
  have hbound : maxSpawn < Grid.pointsPerGlyph * 6667 := by decide
  rwa [births_glyphs,hshown]

end Plain
end Fireworks
