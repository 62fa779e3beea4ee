import Fireworks.Proofs.Behavior.Flair
import Fireworks.Proofs.ExactTime
import Fireworks.Proofs.Plain

/-! # Letters in space

A text leaves as one child for each point of its letters. On the grid no two of these share a place, and
together they are balanced around the particle that sends them, wherever blank characters stand.
-/
namespace Fireworks
open Extended

namespace Vec3

/-- The mean of points in space. -/
def mean {ν : Type} [Arithmetic ν] (vs : List (Vec3 ν)) : Vec3 ν :=
  (vs.foldl (· + ·) zero).div (Arithmetic.ofNat vs.length)

def exact (x y z : ℚ) : Vec3 Extended := ⟨finite x,finite y,finite z⟩

/-- Coordinates are rational. -/
def IsExact (v : Vec3 Extended) : Prop := ∃ x y z : ℚ, v = exact x y z

section Exact
variable (a b c d e f q : ℚ)

theorem exact_inj : exact a b c = exact d e f ↔ a = d ∧ b = e ∧ c = f := by
  simp [exact]

theorem exact_add : exact a b c + exact d e f = exact (a + d) (b + e) (c + f) := rfl

theorem exact_sub : exact a b c - exact d e f = exact (a - d) (b - e) (c - f) := by
  change (⟨finite a - finite d,finite b - finite e,finite c - finite f⟩ : Vec3 Extended) = _
  rw [finite_sub,finite_sub,finite_sub]
  rfl

theorem exact_scale : (exact a b c).scale (finite q) = exact (a * q) (b * q) (c * q) := rfl

theorem exact_div (hq : q ≠ 0) : (exact a b c).div (finite q) = exact (a / q) (b / q) (c / q) := by
  simp only [exact,div,finite_div _ _ hq]

end Exact

variable {u v w : Vec3 Extended} {vs : List (Vec3 Extended)}

theorem zero_eq_exact : (zero : Vec3 Extended) = exact 0 0 0 := rfl

theorem isExact_zero : IsExact zero := ⟨0,0,0,rfl⟩

theorem IsExact.add (hv : v.IsExact) (hw : w.IsExact) : (v + w).IsExact := by
  obtain ⟨a,b,c,rfl⟩ := hv
  obtain ⟨d,e,f,rfl⟩ := hw
  exact ⟨_,_,_,exact_add ..⟩

theorem IsExact.sub (hv : v.IsExact) (hw : w.IsExact) : (v - w).IsExact := by
  obtain ⟨a,b,c,rfl⟩ := hv
  obtain ⟨d,e,f,rfl⟩ := hw
  exact ⟨_,_,_,exact_sub ..⟩

theorem IsExact.foldl (hvs : ∀ v ∈ vs, v.IsExact) (hw : w.IsExact) : (vs.foldl (· + ·) w).IsExact := by
  induction vs generalizing w with
  | nil => exact hw
  | cons v vs ih =>
    obtain ⟨hv,hvs⟩ := List.forall_mem_cons.mp hvs
    exact ih hvs (hw.add hv)

theorem add_right_cancel (hu : u.IsExact) (hv : v.IsExact) (hw : w.IsExact) (h : u + w = v + w) : u = v := by
  obtain ⟨a,b,c,rfl⟩ := hu
  obtain ⟨d,e,f,rfl⟩ := hv
  obtain ⟨p,q,r,rfl⟩ := hw
  simpa only [exact_add,exact_inj,add_left_inj] using h

/-- Each summand that is moved moves the sum. -/
theorem foldl_translate (hvs : ∀ v ∈ vs, v.IsExact) (hu : u.IsExact) (hw : w.IsExact) (k : ℕ) :
    (vs.map (· + w)).foldl (· + ·) (u + w.scale (finite k)) =
      vs.foldl (· + ·) u + w.scale (finite (k + vs.length : ℕ)) := by
  induction vs generalizing u k with
  | nil => rfl
  | cons v vs ih =>
    obtain ⟨hv,hvs⟩ := List.forall_mem_cons.mp hvs
    have hstep : u + w.scale (finite k) + (v + w) = u + v + w.scale (finite (k + 1 : ℕ)) := by
      obtain ⟨a,b,c,rfl⟩ := hu
      obtain ⟨d,e,f,rfl⟩ := hv
      obtain ⟨p,q,r,rfl⟩ := hw
      simp only [exact_add,exact_scale,exact_inj]
      refine ⟨?_,?_,?_⟩ <;> push_cast <;> ring
    rw [List.map_cons,List.foldl_cons,List.foldl_cons,hstep,ih hvs (hu.add hv),List.length_cons]
    congr 3
    push_cast
    ring

theorem IsExact.mean (hne : vs ≠ []) (hvs : ∀ v ∈ vs, v.IsExact) : (mean vs).IsExact := by
  have hlength : (vs.length : ℚ) ≠ 0 := Nat.cast_ne_zero.mpr (List.length_pos_iff.mpr hne).ne'
  obtain ⟨a,b,c,hsum⟩ := IsExact.foldl hvs isExact_zero
  exact ⟨_,_,_,(congrArg (Vec3.div · _) hsum).trans (exact_div a b c _ hlength)⟩

/-- The mean of points that are moved is moved along with them. -/
theorem mean_translate (hne : vs ≠ []) (hvs : ∀ v ∈ vs, v.IsExact) (hw : w.IsExact) :
    mean (vs.map (· + w)) = mean vs + w := by
  have hlength : (vs.length : ℚ) ≠ 0 := Nat.cast_ne_zero.mpr (List.length_pos_iff.mpr hne).ne'
  have hmoved := foldl_translate hvs isExact_zero hw 0
  obtain ⟨a,b,c,hsum⟩ := IsExact.foldl hvs isExact_zero
  obtain ⟨p,q,r,rfl⟩ := hw
  have hzero : zero + (exact p q r).scale (finite (0 : ℕ)) = zero := by
    rw [zero_eq_exact,exact_scale,exact_add,Nat.cast_zero,mul_zero,mul_zero,mul_zero,add_zero]
  rw [hzero,hsum,Nat.zero_add,exact_scale,exact_add] at hmoved
  calc mean (vs.map (· + exact p q r))
    _ = (exact (a + p * vs.length) (b + q * vs.length) (c + r * vs.length)).div (finite vs.length) := by
        rw [mean,hmoved,List.length_map]
        rfl
    _ = exact (a / vs.length) (b / vs.length) (c / vs.length) + exact p q r := by
        rw [exact_div _ _ _ _ hlength,exact_add,add_div,add_div,add_div,mul_div_cancel_right₀ p hlength,
          mul_div_cancel_right₀ q hlength,mul_div_cancel_right₀ r hlength]
    _ = mean vs + exact p q r := by
        rw [← exact_div a b c _ hlength,mean,hsum]
        rfl

/-- As many places as there should be, no two of them the same, and around a center. -/
structure Balanced (size : ℕ) (center : Vec3 Extended) (vs : List (Vec3 Extended)) : Prop where
  length : vs.length = size
  nodup : vs.Nodup
  mean : vs ≠ [] → mean vs = center

end Vec3

theorem PointCloud.centroid_ofPoints {ν : Type} [Arithmetic ν] {points : List (Vec3 ν)} (hne : points ≠ []) :
    (ofPoints points).centroid = Vec3.mean points :=
  if_neg (mt List.isEmpty_iff.mp hne)

theorem PointCloud.isExact_centroid {points : List (Vec3 Extended)} (h : ∀ v ∈ points, v.IsExact) :
    (ofPoints points).centroid.IsExact := by
  rcases eq_or_ne points [] with rfl | hne
  · exact Vec3.isExact_zero
  · rw [centroid_ofPoints hne]
    exact .mean hne h

/-- A cloud that is moved from its centroid to a place lies around that place. -/
theorem PointCloud.balanced {points : List (Vec3 Extended)} (h : ∀ v ∈ points, v.IsExact) (hnodup : points.Nodup)
    {position offset : Vec3 Extended} (hposition : position.IsExact) (hoffset : offset.IsExact) :
    Vec3.Balanced points.length (position + offset)
      (points.map (· + (position - (ofPoints points).centroid + offset))) := by
  have hcentroid := isExact_centroid h
  have hshift := (hposition.sub hcentroid).add hoffset
  refine ⟨List.length_map _,?_,fun hne => ?_⟩
  · exact hnodup.map_on fun v hv w hw => Vec3.add_right_cancel (h v hv) (h w hw) hshift
  · have hne : points ≠ [] := mt List.map_eq_nil_iff.mpr hne
    rw [Vec3.mean_translate hne h hshift,← centroid_ofPoints hne]
    obtain ⟨a,b,c,hcentroid⟩ := hcentroid
    obtain ⟨d,e,f,rfl⟩ := hposition
    obtain ⟨p,q,r,rfl⟩ := hoffset
    simp only [hcentroid,Vec3.exact_add,Vec3.exact_sub,Vec3.exact_inj]
    refine ⟨?_,?_,?_⟩ <;> ring

namespace Grid
variable {s : ℚ} {cell cell' column column' row row' : ℕ}

theorem point_eq (s : ℚ) (cell column row : ℕ) :
    point (finite s) cell column row =
      .exact 0 ((rows - 1 - row : ℕ) * s) (-(cell * (columns + 1) + column : ℕ) * s) := rfl

theorem point_inj (hs : s ≠ 0) (hcolumn : column < columns) (hcolumn' : column' < columns) (hrow : row < rows)
    (hrow' : row' < rows) (h : point (finite s) cell column row = point (finite s) cell' column' row') :
    cell = cell' ∧ column = column' ∧ row = row' := by
  obtain ⟨-,hy,hz⟩ := (Vec3.exact_inj ..).mp h
  have hheight : rows - 1 - row = rows - 1 - row' := by exact_mod_cast mul_right_cancel₀ hs hy
  have hplace : cell * (columns + 1) + column = cell' * (columns + 1) + column' := by
    exact_mod_cast neg_injective (mul_right_cancel₀ hs hz)
  simp only [columns,rows] at *
  omega

theorem mem_cellPoints {v : Vec3 Extended} :
    v ∈ cellPoints (finite s) cell ↔
      ∃ column < columns, ∃ row < rows, point (finite s) cell column row = v := by
  simp [cellPoints]

theorem nodup_cellPoints (hs : s ≠ 0) (cell : ℕ) : (cellPoints (finite s) cell).Nodup := by
  refine List.nodup_flatMap.mpr ⟨fun column hcolumn => ?_,?_⟩
  · have hcolumn := List.mem_range.mp hcolumn
    refine List.nodup_range.map_on fun row hrow row' hrow' h => ?_
    exact (point_inj hs hcolumn hcolumn (List.mem_range.mp hrow) (List.mem_range.mp hrow') h).2.2
  · refine List.nodup_range.imp_of_mem fun hcolumn hcolumn' hne v hv hv' => ?_
    obtain ⟨row,hrow,rfl⟩ := List.mem_map.mp hv
    obtain ⟨row',hrow',h⟩ := List.mem_map.mp hv'
    exact hne (point_inj hs (List.mem_range.mp hcolumn') (List.mem_range.mp hcolumn) (List.mem_range.mp hrow')
      (List.mem_range.mp hrow) h).2.1.symm

/-- The points of a text stand in its cells. -/
theorem exists_point {cs : List Char} {v : Vec3 Extended} (h : v ∈ pointsFrom (finite s) cell cs) :
    ∃ cell' ≥ cell, v ∈ cellPoints (finite s) cell' := by
  induction cs generalizing cell with
  | nil => exact absurd h List.not_mem_nil
  | cons c cs ih =>
    rw [pointsFrom,List.mem_append] at h
    rcases h with h | h
    · split_ifs at h
      · exact absurd h List.not_mem_nil
      · exact ⟨cell,le_rfl,h⟩
    · obtain ⟨cell',hle,h⟩ := ih h
      exact ⟨cell',by omega,h⟩

theorem nodup_pointsFrom (hs : s ≠ 0) (cell : ℕ) (cs : List Char) : (pointsFrom (finite s) cell cs).Nodup := by
  induction cs generalizing cell with
  | nil => exact List.nodup_nil
  | cons c cs ih =>
    rw [pointsFrom]
    split_ifs
    · exact ih _
    · refine List.Nodup.append (nodup_cellPoints hs cell) (ih _) fun v hv hrest => ?_
      obtain ⟨cell',hlt,hv'⟩ := exists_point hrest
      obtain ⟨column,hcolumn,row,hrow,rfl⟩ := mem_cellPoints.mp hv
      obtain ⟨column',hcolumn',row',hrow',h⟩ := mem_cellPoints.mp hv'
      have hcell := (point_inj hs hcolumn' hcolumn hrow' hrow h).1
      omega

theorem isExact_of_mem {cs : List Char} {v : Vec3 Extended} (h : v ∈ pointsFrom (finite s) cell cs) :
    v.IsExact := by
  obtain ⟨cell',-,h⟩ := exists_point h
  obtain ⟨column,-,row,-,rfl⟩ := mem_cellPoints.mp h
  exact ⟨_,_,_,point_eq s cell' column row⟩

end Grid

section
variable {ν : Type}

/-- The places of the particles that were sent out. -/
def Stage.places (stage : Stage ν) : List (Vec3 ν) := stage.particles.map Particle.position

variable [Arithmetic ν] (setting : Setting ν)

theorem Stage.places_launch (parent : Particle ν) (body : BehaviorGen ν) (position velocity : Vec3 ν)
    (gravity : ν) (stage : Stage ν) :
    (Burst.launch setting parent body position velocity gravity stage).places = stage.places ++ [position] := by
  rw [Burst.launch,places,particles_sendOut,List.map_append]
  rfl

variable [Elementary ν]

theorem Burst.places_glyphs (particle : Particle ν) (stage : Stage ν) (text : String) (offset : Vec3 ν)
    (body : BehaviorGen ν) :
    (fire setting particle stage (.glyphs text offset body)).places = stage.places ++
      (setting.rasterizer text).points.map
        (· + (particle.position - (setting.rasterizer text).centroid + offset)) := by
  refine Stage.view_foldl Stage.places (fun stage point => ?_) _ stage
  let drawn : Vec3 ν × Stage ν := stage.draw drift
  exact Stage.places_launch setting particle body _ drawn.1 _ drawn.2

/-- The children of a text stand where its points do, moved from their centroid to the particle and then by
the offset. -/
theorem Behavior.places_glyphs (timing : Timing ν) {progress : Progress ν} {start : ν}
    (hfired : progress.firedBefore start = false) (stop : ν) (scene : Scene ν) (text : String)
    (offset : Vec3 ν) (body : BehaviorGen ν) :
    ((leaf timing (.burst (.glyphs text offset body))).sent setting progress start stop scene).map
        Particle.position =
      (setting.rasterizer text).points.map
        (· + (scene.particle.position - (setting.rasterizer text).centroid + offset)) := by
  have hfire := Burst.places_glyphs setting scene.particle scene.stage text offset body
  have hlength : scene.stage.particles.length = scene.stage.places.length := (List.length_map _).symm
  simp only [sent,update,Effect.act,hfired,Bool.false_eq_true,↓reduceIte]
  rw [List.map_drop,hlength]
  exact (congrArg (List.drop _) hfire).trans List.drop_left

end

/-- A text on a grid leaves as fifteen children for each character that shows. No two of them stand in the
same place, and their mean is where the particle is, moved by the offset. Without an offset, as a single
character leaves, it is the place of the particle itself. -/
theorem Behavior.glyphs_balanced [Elementary Extended] (config : Config Extended) {spacing : ℚ}
    (hspacing : spacing ≠ 0) (timing : Timing Extended) {progress : Progress Extended} {start : Extended}
    (hfired : progress.firedBefore start = false) (stop : Extended) {scene : Scene Extended}
    (hposition : scene.particle.position.IsExact) (text : String) {offset : Vec3 Extended}
    (hoffset : offset.IsExact) (body : BehaviorGen Extended) :
    let places := fun offset => ((leaf timing (.burst (.glyphs text offset body))).sent
      ⟨config,Grid.rasterize (finite spacing)⟩ progress start stop scene).map Particle.position
    Vec3.Balanced (15 * Grid.shown text) (scene.particle.position + offset) (places offset) ∧
      Vec3.Balanced (15 * Grid.shown text) scene.particle.position (places .zero) := by
  intro places
  let points := Grid.pointsFrom (finite spacing) 0 text.toList
  have hlength : points.length = 15 * Grid.shown text := Grid.length_pointsFrom (finite spacing) 0 text.toList
  have hexact : ∀ v ∈ points, v.IsExact := fun _ => Grid.isExact_of_mem
  have hnodup : points.Nodup := Grid.nodup_pointsFrom hspacing 0 text.toList
  have hbalanced : ∀ offset : Vec3 Extended, offset.IsExact →
      Vec3.Balanced (15 * Grid.shown text) (scene.particle.position + offset) (places offset) := by
    intro offset hoffset
    have hplaces : places offset = points.map
        (· + (scene.particle.position - (PointCloud.ofPoints points).centroid + offset)) :=
      places_glyphs ⟨config,Grid.rasterize (finite spacing)⟩ timing hfired stop scene text offset body
    rw [← hlength,hplaces]
    exact PointCloud.balanced hexact hnodup hposition hoffset
  have hzero : scene.particle.position + .zero = scene.particle.position := by
    obtain ⟨a,b,c,hposition⟩ := hposition
    rw [hposition,Vec3.zero_eq_exact,Vec3.exact_add,add_zero,add_zero,add_zero]
  exact ⟨hbalanced offset hoffset,hzero ▸ hbalanced .zero Vec3.isExact_zero⟩

namespace Plain

/-- A particle away from the origin. -/
def aside : Scene Extended := { scene with particle := .resting .default (.exact 1 2 3) }

theorem word_balanced :
    let places := fun offset => ((Behavior.ofEffect (.burst (.glyphs "a b" offset (.action .nop)))).sent
      ⟨.default,Grid.rasterize (finite 2)⟩ .fresh 0 1 aside).map Particle.position
    aside.particle.position.IsExact ∧ (Vec3.exact 0 100 0).IsExact ∧ Grid.shown "a b" = 2 ∧
      Vec3.Balanced (15 * Grid.shown "a b") (.exact 1 2 3 + .exact 0 100 0) (places (.exact 0 100 0)) ∧
      Vec3.Balanced (15 * Grid.shown "a b") (.exact 1 2 3) (places .zero) :=
  have hposition : aside.particle.position.IsExact := ⟨1,2,3,rfl⟩
  have hoffset : (Vec3.exact 0 100 0).IsExact := ⟨0,100,0,rfl⟩
  ⟨hposition,hoffset,by decide +kernel,
    Behavior.glyphs_balanced .default two_ne_zero { lifespan := 0 } rfl 1 hposition "a b" hoffset (.action .nop)⟩

end Plain
end Fireworks
