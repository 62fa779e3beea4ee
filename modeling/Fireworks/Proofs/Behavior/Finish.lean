import Fireworks.Proofs.Behavior.Emission
import Fireworks.Proofs.Plain

/-! # The ratio of one comes with the end

What an effect does is read off an eased ratio, and whether its leaf has ended off the leftover of the
window. The two switch at the same instant: the ratio reaches one in the call that reports the end. What
waits for a ratio of one, as closing does, then happens in that very call.
-/
namespace Fireworks
open Extended

namespace Extended

@[simp] theorem mul_finite_one (x : Extended) : x * finite 1 = x := by
  cases x with
  | finite q => simp
  | infinite s => cases s <;> rfl
  | undefined => rfl

@[simp] theorem finite_zero_add (x : Extended) : finite 0 + x = x := by
  cases x with
  | finite q => simp
  | infinite | undefined => rfl

end Extended

namespace Easing
variable (easing : Easing)

theorem shape_eq_one_iff {c : ℚ} (h0 : 0 ≤ c) (h1 : c ≤ 1) : easing.shape c = 1 ↔ c = 1 := by
  have hcube : ∀ {x : ℚ}, x * x * x = 0 ↔ x = 0 := by simp
  constructor
  · intro h
    cases easing with
    | linear => exact h
    | easeIn =>
      by_contra hne
      have hlt : c < 1 := lt_of_le_of_ne h1 hne
      have hsquare : c * c ≤ c := mul_le_of_le_one_left h0 h1
      have hshape : c * c * c ≤ c := (mul_le_of_le_one_right (mul_nonneg h0 h0) h1).trans hsquare
      exact absurd h (hshape.trans_lt hlt).ne
    | easeOut =>
      have hrest : (1 - c) * (1 - c) * (1 - c) = 0 := by simpa [shape] using h
      have := hcube.mp hrest
      linarith
    | easeInOut =>
      unfold shape at h
      dsimp only at h
      split_ifs at h with hc
      · have hsquare : c * c ≤ c * (1/2) := mul_le_mul_of_nonneg_left hc.le h0
        nlinarith
      · have hrest : (-2 * c + 2) * (-2 * c + 2) * (-2 * c + 2) = 0 := by linarith
        have := hcube.mp hrest
        linarith
  · rintro rfl
    exact easing.shape_one

theorem exactRatio_eq_one_iff {lifespan : Extended} (hs : lifespan.IsSpan) {t : ℚ} (ht : 0 < t) :
    easing.exactRatio lifespan t = 1 ↔ lifespan.toTop ≤ t := by
  cases hs with
  | rational l =>
    rw [toTop_finite,WithTop.coe_le_coe]
    refine ⟨fun h => ?_,easing.exactRatio_eq_one ht⟩
    by_contra hlt
    have hpos : 0 < l := ht.trans (not_le.mp hlt)
    have hshare : t / l < 1 := (div_lt_one hpos).mpr (not_le.mp hlt)
    have hnonneg : 0 ≤ t / l := div_nonneg ht.le hpos.le
    rw [exactRatio,if_pos hpos,min_eq_left hshare.le,max_eq_right hnonneg,
      easing.shape_eq_one_iff hnonneg hshare.le] at h
    exact absurd h hshare.ne
  | endless => simp [exactRatio]

end Easing

theorem Status.isDone_settle_iff {lifespan : Extended} (hs : lifespan.IsSpan) {start stop : ℚ}
    (h : start ≤ stop) :
    (settle lifespan (finite start) (finite stop)).isDone = true ↔ lifespan.toTop ≤ stop := by
  rcases settle_cases hs h with ⟨hlt,hstatus⟩ | ⟨q,rfl,hq,hstatus⟩
  · rw [hstatus]
    exact ⟨nofun,fun hle => absurd hle hlt.not_ge⟩
  · rw [hstatus,toTop_finite]
    exact ⟨fun _ => WithTop.coe_le_coe.mpr hq,fun _ => rfl⟩

/-- The ratio is one when the leaf is done, and not before. -/
theorem Easing.ratio_eq_one_iff_isDone (easing : Easing) {lifespan : Extended} (hs : lifespan.IsSpan)
    {start stop : ℚ} (h0 : 0 ≤ start) (hlt : start < stop) :
    easing.ratio lifespan (finite stop) = 1 ↔
      (Status.settle lifespan (finite start) (finite stop)).isDone = true := by
  rw [ratio_finite easing hs,one_eq,Extended.finite.injEq,
    exactRatio_eq_one_iff easing hs (h0.trans_lt hlt),Status.isDone_settle_iff hs hlt.le]

section
variable {ν : Type} [Arithmetic ν] [Elementary ν]

/-- The outcomes of a run: each window goes on where the one before ended, and finds the scene that
stands with it, since others act between two calls. -/
def Behavior.outcomes (setting : Setting ν) (b : Behavior ν) :
    Progress ν → (start : ν) → List (ν × Scene ν) → List (Outcome ν)
  | _, _, [] => []
  | progress, start, (stop,scene) :: windows =>
    let outcome := b.update setting progress start stop scene
    outcome :: b.outcomes setting outcome.progress stop windows

def Scene.close (scene : Scene ν) : Scene ν :=
  { scene with particle := { scene.particle with closed := true } }

end

section
variable [Elementary Extended] (setting : Setting Extended) {timing : Timing Extended}

/-- What a property is set from: its value when the run began. -/
def Progress.origin (target : Property) (start : Extended) (scene : Scene Extended) :
    Progress Extended → Extended
  | .captured initial => if start == 0 then scene.particle.get target else initial
  | _ => scene.particle.get target

namespace Behavior
variable (progress : Progress Extended) {start stop : ℚ} (scene : Scene Extended)

/-- A closing leaf closes its particle when it is done, and once in a run. -/
theorem update_close (hspan : timing.lifespan.IsSpan) (h0 : 0 ≤ start) (hlt : start < stop) :
    let status := Status.settle timing.lifespan (finite start) (finite stop)
    let fired := progress.firedBefore (finite start)
    (leaf timing .close).update setting progress (finite start) (finite stop) scene =
      ⟨status,if fired || status.isDone then .fired else .fresh,
        if !fired && status.isDone then scene.close else scene⟩ := by
  intro status fired
  have hratio : (1 : Extended) ≤ timing.easing.ratio timing.lifespan (finite stop) ↔
      status.isDone = true := by
    rw [← timing.easing.ratio_eq_one_iff_isDone hspan h0 hlt,Easing.ratio_finite _ hspan,one_eq,
      finite_le,Extended.finite.injEq]
    exact ⟨(timing.easing.exactRatio_le_one hspan stop).antisymm,Eq.ge⟩
  cases hfired : progress.firedBefore (finite start) with
  | true => simp [update,Effect.act,fired,status,hfired]
  | false =>
    simp only [update,Effect.act,hratio,fired,hfired]
    cases status.isDone <;> rfl

variable (timing) in
theorem update_set (target : Property) (value : Extended) (start stop : Extended) :
    let origin := progress.origin target start scene
    let r := timing.easing.ratio timing.lifespan stop
    (leaf timing (.set target value)).update setting progress start stop scene =
      ⟨.settle timing.lifespan start stop,.captured origin,
        { scene with particle := scene.particle.set target (origin * (1 - r) + value * r) }⟩ := by
  cases progress <;> rfl

variable (timing) in
def leafOutcomes (effect : Effect Extended) (start : ℚ) (windows : List (ℚ × Scene Extended)) :
    List (Outcome Extended) :=
  (leaf timing effect).outcomes setting progress (finite start) (windows.map fun w => (finite w.1,w.2))

variable {progress} {windows : List (ℚ × Scene Extended)}

/-- In a run of a closing leaf that has not closed yet, the first call that is done closes the particle. -/
theorem scene_close_run (hspan : timing.lifespan.IsSpan) (h0 : 0 ≤ start)
    (hw : (start :: windows.map Prod.fst).IsChain (· < ·)) {i : ℕ} {window : ℚ × Scene Extended}
    (hwindow : windows[i]? = some window) {o : Outcome Extended}
    (ho : (leafOutcomes setting timing progress .close start windows)[i]? = some o) :
    o.scene = if !progress.firedBefore (finite start) && o.status.isDone &&
        !((leafOutcomes setting timing progress .close start windows).take i).any (·.status.isDone)
      then window.2.close else window.2 := by
  induction windows generalizing progress start i with
  | nil => cases hwindow
  | cons w windows ih =>
    obtain ⟨stop,scene⟩ := w
    obtain ⟨hlt,hw⟩ := List.isChain_cons_cons.mp hw
    have hstop : 0 < stop := h0.trans_lt hlt
    have hstep := update_close setting progress scene hspan h0 hlt
    have hcons : leafOutcomes setting timing progress .close start ((stop,scene) :: windows) =
        _ :: leafOutcomes setting timing _ .close stop windows := rfl
    rw [hcons,hstep] at ho ⊢
    cases i with
    | zero =>
      cases hwindow
      cases ho
      cases progress.firedBefore (finite start) <;> simp
    | succ i =>
      have hrest := ih hstop.le hw hwindow ho
      rw [hrest,List.take_succ_cons,List.any_cons]
      cases progress.firedBefore (finite start) with
      | true => simp [Effect.firedBefore_fired hstop.ne']
      | false =>
        cases (Status.settle timing.lifespan (finite start) (finite stop)).isDone with
        | true => simp [Effect.firedBefore_fired hstop.ne']
        | false => simp [Progress.firedBefore]

/-- In a run of a leaf that sets a property from a rational value, every call that is done leaves the
target. -/
theorem get_set_run (hspan : timing.lifespan.IsSpan) (h0 : 0 ≤ start)
    (hw : (start :: windows.map Prod.fst).IsChain (· < ·)) {target : Property} {value : Extended} {q : ℚ}
    (horigin : ∀ w ∈ windows.head?, progress.origin target (finite start) w.2 = finite q) :
    ∀ o ∈ leafOutcomes setting timing progress (.set target value) start windows,
      o.status.isDone = true → o.scene.particle.get target = value := by
  induction windows generalizing progress start with
  | nil => exact List.forall_mem_nil _
  | cons w windows ih =>
    obtain ⟨stop,scene⟩ := w
    obtain ⟨hlt,hw⟩ := List.isChain_cons_cons.mp hw
    have hstop : 0 < stop := h0.trans_lt hlt
    have horigin : progress.origin target (finite start) scene = finite q := horigin _ rfl
    have hstep := update_set setting timing progress scene target value (finite start) (finite stop)
    simp only [horigin] at hstep
    have hcons : leafOutcomes setting timing progress (.set target value) start ((stop,scene) :: windows) =
        _ :: leafOutcomes setting timing _ (.set target value) stop windows := rfl
    rw [hcons,hstep]
    refine List.forall_mem_cons.mpr ⟨fun hdone => ?_,ih hstop.le hw fun w _ => ?_⟩
    · have hratio := (timing.easing.ratio_eq_one_iff_isDone hspan h0 hlt).mpr hdone
      simp [hratio]
    · simp [Progress.origin,hstop.ne']

/-- Progress and completion agree. Over any lifespan the ratio grows with time, from zero at the beginning
to at most one, and it is one at the end of a window exactly when a leaf with this lifespan is done with the
window. So in a run a closing leaf closes its particle in the first call that is done and in no other call,
and a leaf that sets a property leaves it at its target in every call that is done. -/
theorem ratio_finishes (easing : Easing) {lifespan : Extended} (hspan : lifespan.IsSpan)
    (progress : Progress Extended) (target : Property) (value : Extended)
    (hw : (0 :: windows.map Prod.fst).IsChain (· < ·))
    (horigin : ∀ w ∈ windows.head?, ∃ q : ℚ, w.2.particle.get target = finite q) :
    (∀ s t : ℚ, s ≤ t → easing.ratio lifespan (finite s) ≤ easing.ratio lifespan (finite t)) ∧
      (∀ t : ℚ, 0 ≤ easing.ratio lifespan (finite t) ∧ easing.ratio lifespan (finite t) ≤ 1) ∧
      easing.ratio lifespan 0 = 0 ∧
      (∀ start stop : ℚ, 0 ≤ start → start < stop → (easing.ratio lifespan (finite stop) = 1 ↔
        (Status.settle lifespan (finite start) (finite stop)).isDone = true)) ∧
      (∀ i window o, windows[i]? = some window →
        (leafOutcomes setting ⟨easing,lifespan⟩ progress .close 0 windows)[i]? = some o →
        o.scene = if o.status.isDone &&
            !((leafOutcomes setting ⟨easing,lifespan⟩ progress .close 0 windows).take i).any (·.status.isDone)
          then window.2.close else window.2) ∧
      ∀ o ∈ leafOutcomes setting ⟨easing,lifespan⟩ progress (.set target value) 0 windows,
        o.status.isDone = true → o.scene.particle.get target = value := by
  have hratio : ∀ t : ℚ, easing.ratio lifespan (finite t) = finite (easing.exactRatio lifespan t) :=
    Easing.ratio_finite easing hspan
  refine ⟨fun s t hst => ?_,fun t => ?_,?_,fun start stop h0 hlt => ?_,fun i window o hwindow ho => ?_,?_⟩
  · rw [hratio,hratio,finite_le]
    exact easing.exactRatio_mono hspan hst
  · rw [hratio,zero_eq,one_eq,finite_le,finite_le]
    exact ⟨easing.exactRatio_nonneg hspan t,easing.exactRatio_le_one hspan t⟩
  · rw [zero_eq,hratio,Easing.exactRatio_zero easing lifespan]
  · exact easing.ratio_eq_one_iff_isDone hspan h0 hlt
  · have hfired : progress.firedBefore (finite 0) = false := by cases progress <;> rfl
    have hclose := scene_close_run setting hspan le_rfl hw hwindow ho
    rwa [hfired,Bool.not_false,Bool.true_and] at hclose
  · cases windows with
    | nil => exact List.forall_mem_nil _
    | cons w windows =>
      obtain ⟨q,hq⟩ := horigin w rfl
      refine get_set_run setting hspan le_rfl hw (q := q) fun other hother => ?_
      cases hother
      cases progress <;> exact hq

end Behavior
end

namespace Plain

/-- Windows of a second each, the second of which finds another hue. -/
def seconds : List (ℚ × Scene Extended) :=
  [(1,scene),(2,{ scene with particle := scene.particle.set .hue 5 }),(3,scene)]

theorem seconds_finish :
    let closings := Behavior.leafOutcomes (setting 1) ⟨.easeInOut,finite (3/2)⟩ .fired .close 0 seconds
    let sets := Behavior.leafOutcomes (setting 1) ⟨.easeInOut,finite (3/2)⟩ .fired (.set .hue 7) 0 seconds
    (finite (3/2)).IsSpan ∧ (0 :: seconds.map Prod.fst).IsChain (· < ·) ∧
      (∀ w ∈ seconds.head?, ∃ q : ℚ, w.2.particle.get .hue = finite q) ∧
      closings.map (fun o => (o.status.isDone,o.scene.particle.closed)) =
        [(false,false),(true,true),(true,false)] ∧
      ∀ o ∈ sets, o.status.isDone = true → o.scene.particle.get .hue = 7 := by
  have hspan : (finite (3/2)).IsSpan := .rational _
  have hw : (0 :: seconds.map Prod.fst).IsChain (· < ·) := by decide +kernel
  have horigin : ∀ w ∈ seconds.head?, ∃ q : ℚ, w.2.particle.get .hue = finite q := by
    rintro w ⟨⟩
    exact ⟨0,rfl⟩
  obtain ⟨-,-,-,-,-,hset⟩ :=
    Behavior.ratio_finishes (setting 1) .easeInOut hspan .fired .hue 7 hw horigin
  exact ⟨hspan,hw,horigin,by decide +kernel,hset⟩

end Plain
end Fireworks
