import Fireworks.Proofs.Behavior.Footprint
import Fireworks.Proofs.Behavior.Restart

/-! # The order of lanes

The lanes of a parallel behavior act on one particle, each in the scene that the ones before it leave. When
no two of them animate the same property and they do nothing else, no lane can see what another one does,
and their order does not show.
-/
namespace Fireworks
open Extended
variable {ν : Type}

/-- Effects that do nothing or animate a property. -/
def Effect.Animating : Effect ν → Prop
  | .nop | .set _ _ | .add _ _ | .multiply _ _ => True
  | _ => False

instance : DecidablePred (@Effect.Animating ν)
  | .nop | .set _ _ | .add _ _ | .multiply _ _ => isTrue trivial
  | .close | .translate _ | .rotate _ | .explode | .emit _ | .burst _ | .voice _ => isFalse id

instance (target : Property) : DecidablePred (@Effect.Animates ν target)
  | .set own _ | .add own _ | .multiply own _ => inferInstanceAs (Decidable (own = target))
  | .nop | .close | .translate _ | .rotate _ | .explode | .emit _ | .burst _ | .voice _ => isFalse id

def Behavior.Animates (b : Behavior ν) (target : Property) : Prop := b.Has (Effect.Animates target)

/-- Behaviors that animate different properties. -/
def Behavior.Apart (b other : Behavior ν) : Prop := ∀ target, b.Animates target → ¬other.Animates target

theorem Behavior.Apart.symm {b other : Behavior ν} (h : b.Apart other) : other.Apart b :=
  fun target hother hb => h target hb hother

theorem Behavior.has_iff [Arithmetic ν] (P : Effect ν → Prop) {b : Behavior ν} :
    b.Has P ↔ ¬b.EachEffect fun effect => ¬P effect := by
  constructor
  · intro hhas hnone
    induction hhas with
    | leaf hP => exact hnone.here _ _ rfl hP
    | part hmem _ ih => exact ih (hnone.part hmem)
  · intro hsome
    by_contra hno
    exact hsome (b.eachEffect_has.imp fun _ h timing effect heq hP => hno (h timing effect heq P hP))

section
variable (P : Effect ν → Prop) [DecidablePred P]

instance : DecidablePred fun node : Behavior ν => ∀ timing effect, node = .leaf timing effect → P effect
  | .leaf _ effect => decidable_of_iff (P effect) ⟨fun h _ _ heq => by cases heq; exact h,fun h => h _ _ rfl⟩
  | .sequence _ _ | .repetition _ _ _ | .loop _ _ | .parallel _ _ => isTrue nofun

instance (b : Behavior ν) : Decidable (b.EachEffect P) := inferInstanceAs (Decidable (b.Everywhere _))

instance [Arithmetic ν] (b : Behavior ν) : Decidable (b.Has P) :=
  decidable_of_iff _ (Behavior.has_iff P).symm

end

instance [Arithmetic ν] (b other : Behavior ν) : Decidable (b.Apart other) :=
  decidable_of_iff
    (∀ target ∈ Property.all, b.Has (Effect.Animates target) → ¬other.Has (Effect.Animates target))
    ⟨fun h target => h target (by cases target <;> decide),fun h target _ => h target⟩

theorem Particle.set_comm (p : Particle ν) {target other : Property} (h : target ≠ other) (x y : ν) :
    (p.set target x).set other y = (p.set other y).set target x := by
  cases target <;> cases other <;> first | rfl | exact absurd rfl h

def Scene.assign (target : Property) (x : ν) (scene : Scene ν) : Scene ν :=
  { scene with particle := scene.particle.set target x }

/-- A change of scenes that neither changes a property nor looks at it. -/
def Spares (target : Property) (T : Scene ν → Scene ν) : Prop :=
  ∀ scene, (T scene).particle.get target = scene.particle.get target ∧
    ∀ x, T (scene.assign target x) = (T scene).assign target x

theorem spares_assign {target other : Property} (h : target ≠ other) (y : ν) :
    Spares target (Scene.assign other y) := fun scene =>
  ⟨scene.particle.get_set_of_ne h y,fun x =>
    congrArg (Scene.mk · scene.stage) (scene.particle.set_comm h x y)⟩

section
variable [Arithmetic ν] [Elementary ν] {setting : Setting ν} {T : Scene ν → Scene ν}

theorem Effect.Animating.act_of_spares {effect : Effect ν} (he : effect.Animating)
    (hT : ∀ target, effect.Animates target → Spares target T) (timing : Timing ν) (progress : Progress ν)
    (start stop : ν) (scene : Scene ν) :
    effect.act setting timing progress start stop (T scene) =
      let (progress,scene) := effect.act setting timing progress start stop scene
      (progress,T scene) := by
  cases effect with
  | nop => rfl
  | set target | add target | multiply target =>
    obtain ⟨hget,hassign⟩ := hT target rfl scene
    simp only [act,hget]
    exact congrArg (Prod.mk _) (hassign _).symm
  | close | translate | rotate | explode | emit | burst | voice => exact he.elim

namespace Behavior
variable {b other : Behavior ν}

/-- What spares the properties that a behavior animates passes through the behavior. -/
theorem carries_of_spares (hb : b.EachEffect Effect.Animating)
    (hT : ∀ target, b.Animates target → Spares target T) : Carries setting setting T b := by
  refine Everywhere.carries rfl ?_
  refine (Everywhere.and hb b.eachEffect_has).imp fun node hnode timing effect heq => ?_
  subst heq
  obtain ⟨hanimating,hhas⟩ := hnode
  intro progress start stop scene
  have hspares : ∀ target, effect.Animates target → Spares target T := fun target htarget =>
    hT target (hhas timing effect rfl _ htarget)
  simp only [update,(hanimating timing effect rfl).act_of_spares hspares]
  rfl

theorem spares_update (hb : b.EachEffect Effect.Animating) {target : Property} (htarget : ¬b.Animates target)
    (progress : Progress ν) (start stop : ν) :
    Spares target fun scene => (b.update setting progress start stop scene).scene := by
  intro scene
  refine ⟨(b.framed_update setting progress start stop scene).get target htarget,fun x => ?_⟩
  have hcarries : Carries setting setting (Scene.assign target x) b :=
    carries_of_spares hb fun own hown => spares_assign (fun heq : own = target => htarget (heq ▸ hown)) x
  exact congrArg Outcome.scene (hcarries progress start stop scene)

/-- Behaviors that animate different properties do not see each other. -/
theorem carries_update (hb : b.EachEffect Effect.Animating) (hother : other.EachEffect Effect.Animating)
    (hapart : b.Apart other) (progress : Progress ν) (start stop : ν) :
    Carries setting setting (fun scene => (b.update setting progress start stop scene).scene) other :=
  carries_of_spares hother fun target htarget =>
    spares_update hb (hapart.symm target htarget) progress start stop

end Behavior

end

/-- A lane with where it stands in a run. -/
structure Standing (ν : Type) where
  lane : Behavior ν
  finished : Bool
  progress : Progress ν

/-- What a lane makes of a window: where it stands then, whether it wants more time, its leftover if it has
just ended, and the scene that it leaves. -/
structure Turn (ν : Type) where
  standing : Standing ν
  running : Bool
  leftover : Option ν
  scene : Scene ν

/-- Where the lanes of a parallel behavior stand. -/
def standings : List (Behavior ν) → List Bool → List (Progress ν) → List (Standing ν)
  | [], _, _ => []
  | lane :: lanes, ended, states =>
    ⟨lane,isOver ended 0,Progress.part states 0⟩ :: standings lanes ended.tail states.tail

theorem map_lane_standings (lanes : List (Behavior ν)) (ended : List Bool) (states : List (Progress ν)) :
    (standings lanes ended states).map (·.lane) = lanes := by
  induction lanes generalizing ended states with
  | nil => rfl
  | cons lane lanes ih => exact congrArg (lane :: ·) (ih ended.tail states.tail)

theorem standings_restarted (lanes : List (Behavior ν)) (ended : List Bool) (states : List (Progress ν)) :
    standings lanes [] states = (standings lanes ended states).map fun r => { r with finished := false } := by
  induction lanes generalizing ended states with
  | nil => rfl
  | cons lane lanes ih => exact congrArg (_ :: ·) (ih ended.tail states.tail)

theorem standings_nil (lanes : List (Behavior ν)) :
    standings lanes [] [] = lanes.map fun lane => ⟨lane,false,.fresh⟩ := by
  induction lanes with
  | nil => rfl
  | cons lane lanes ih => exact congrArg (_ :: ·) ih

theorem forall_standings {P : Behavior ν → Progress ν → Prop} {lanes : List (Behavior ν)} {ended : List Bool}
    {states : List (Progress ν)}
    (h : ∀ (i : ℕ) lane, lanes[i]? = some lane → P lane (Progress.part states i)) :
    ∀ r ∈ standings lanes ended states, P r.lane r.progress := by
  induction lanes generalizing ended states with
  | nil => exact List.forall_mem_nil _
  | cons lane lanes ih =>
    refine List.forall_mem_cons.mpr ⟨h 0 lane rfl,ih fun i other hi => ?_⟩
    rw [← Progress.part_succ]
    exact h (i + 1) other hi

section
variable [Arithmetic ν]

def Status.leftover? : Status ν → Option ν
  | .running => none
  | .done leftover => some leftover

variable [Elementary ν] (setting : Setting ν) (start stop : ν)

def Standing.turn (r : Standing ν) (scene : Scene ν) : Turn ν :=
  if r.finished then ⟨r,false,none,scene⟩
  else
    let outcome := r.lane.update setting r.progress start stop scene
    ⟨⟨r.lane,outcome.status.isDone,outcome.progress⟩,!outcome.status.isDone,outcome.status.leftover?,
      outcome.scene⟩

omit [Elementary ν] in
/-- The lesser of a leftover and that of a lane, if it has one. -/
def Turn.least (leftover : ν) (own : Option ν) : ν := own.elim leftover (Arithmetic.minNum leftover)

/-- What lanes make of a window from where they stand. -/
def Standing.updateAll (rs : List (Standing ν)) (leftover : ν) (scene : Scene ν) : LanesOutcome ν :=
  Behavior.updateLanes setting (rs.map (·.lane)) (rs.map (·.finished)) (rs.map (·.progress)) start stop
    leftover scene

theorem updateLanes_eq_updateAll (lanes : List (Behavior ν)) (ended : List Bool) (states : List (Progress ν))
    (leftover : ν) (scene : Scene ν) :
    Behavior.updateLanes setting lanes ended states start stop leftover scene =
      Standing.updateAll setting start stop (standings lanes ended states) leftover scene := by
  induction lanes generalizing ended states leftover scene with
  | nil => rfl
  | cons lane lanes ih =>
    unfold Standing.updateAll standings
    rw [List.map_cons,List.map_cons,List.map_cons]
    cases hover : isOver ended 0 with
    | true =>
      rw [Behavior.updateLanes_cons_of_isOver _ _ _ _ _ _ _ _ _ hover,
        Behavior.updateLanes_cons_of_isOver _ _ _ _ _ _ _ _ _ rfl,ih]
      rfl
    | false =>
      rw [Behavior.updateLanes_cons _ _ _ _ _ _ _ _ _ hover,
        Behavior.updateLanes_cons _ _ _ _ _ _ _ _ _ rfl]
      simp only [ih]
      rfl

theorem Standing.updateAll_cons (r : Standing ν) (rs : List (Standing ν)) (leftover : ν) (scene : Scene ν) :
    updateAll setting start stop (r :: rs) leftover scene =
      let turn := r.turn setting start stop scene
      let rest := updateAll setting start stop rs (Turn.least leftover turn.leftover) turn.scene
      ⟨turn.standing.finished :: rest.ended,turn.standing.progress :: rest.children,turn.running || rest.running,
        rest.leftover,rest.scene⟩ := by
  obtain ⟨lane,finished,progress⟩ := r
  cases finished with
  | true => exact Behavior.updateLanes_cons_of_isOver _ _ _ _ _ _ _ _ _ rfl
  | false =>
    have hpart : Progress.part (progress :: rs.map (·.progress)) 0 = progress := rfl
    refine (Behavior.updateLanes_cons _ _ _ _ _ _ _ _ _ rfl).trans ?_
    simp only [List.map_cons,List.tail_cons,hpart,turn,Bool.false_eq_true,↓reduceIte]
    rcases lane.update setting progress start stop scene with ⟨status,after,left⟩
    cases status <;> rfl

/-- Of two lanes that animate different properties, the one that comes second has the turn that it would
have alone, and both orders leave the same scene. -/
theorem Standing.exists_turn_turn {r other : Standing ν} (hr : r.lane.EachEffect Effect.Animating)
    (hother : other.lane.EachEffect Effect.Animating)
    (hapart : r.lane.Apart other.lane) (scene : Scene ν) :
    ∃ left, other.turn setting start stop (r.turn setting start stop scene).scene =
        { other.turn setting start stop scene with scene := left } ∧
      r.turn setting start stop (other.turn setting start stop scene).scene =
        { r.turn setting start stop scene with scene := left } := by
  obtain ⟨lane,finished,progress⟩ := r
  obtain ⟨lane',finished',progress'⟩ := other
  cases finished with
  | true => exact ⟨_,rfl,rfl⟩
  | false =>
    cases finished' with
    | true => exact ⟨_,rfl,rfl⟩
    | false =>
      have hcarries : Carries setting setting (fun scene => (lane.update setting progress start stop scene).scene)
          lane' := Behavior.carries_update hr hother hapart progress start stop
      have hcarries' : Carries setting setting
          (fun scene => (lane'.update setting progress' start stop scene).scene) lane :=
        Behavior.carries_update hother hr hapart.symm progress' start stop
      have hleft := hcarries' progress start stop scene
      simp only [turn,Bool.false_eq_true,↓reduceIte,hcarries progress' start stop scene,hleft]
      exact ⟨_,rfl,congrArg (Turn.mk _ _ _) (congrArg Outcome.scene hleft).symm⟩

end

section

def Turn.IsRational (own : Option Extended) : Prop := ∀ x ∈ own, ∃ q : ℚ, x = finite q

/-- The least of leftovers is the same in any order. -/
theorem Turn.least_least {own other : Option Extended} (h : IsRational own) (h' : IsRational other) (stop : ℚ)
    (u : WithTop ℚ) : least (least (left stop u) own) other = least (least (left stop u) other) own := by
  cases own with
  | none => rfl
  | some x =>
    cases other with
    | none => rfl
    | some y =>
      obtain ⟨p,rfl⟩ := h x rfl
      obtain ⟨q,rfl⟩ := h' y rfl
      simp only [least,Option.elim_some,minNum_left,max_right_comm]

theorem Turn.isRational_of_timely {status : Status Extended} {span : ℚ} (h : status.Timely span) :
    IsRational status.leftover? := by
  cases status with
  | running => exact nofun
  | done leftover =>
    obtain ⟨q,rfl,-,-⟩ := h
    rintro x ⟨⟩
    exact ⟨q,rfl⟩

theorem Turn.exists_least {own : Option Extended} (h : IsRational own) (stop : ℚ) (u : WithTop ℚ) :
    ∃ u', least (left stop u) own = left stop u' := by
  cases own with
  | none => exact ⟨u,rfl⟩
  | some x =>
    obtain ⟨q,rfl⟩ := h x rfl
    exact ⟨_,minNum_left stop u q⟩

structure LanesOutcome.Shuffled (rs rs' : List (Standing Extended)) (o o' : LanesOutcome Extended) : Prop where
  running : o'.running = o.running
  leftover : o'.leftover = o.leftover
  scene : o'.scene = o.scene
  standings : (standings (rs.map (·.lane)) o.ended o.children).Perm
    (standings (rs'.map (·.lane)) o'.ended o'.children)

variable [Elementary Extended] (setting : Setting Extended)

/-- The leftover of a lane in a window is rational. -/
def Standing.Settled (start stop : ℚ) (r : Standing Extended) : Prop :=
  ∀ scene, Turn.IsRational (r.turn setting (finite start) (finite stop) scene).leftover

variable {setting} {start stop : ℚ} {rs rs' : List (Standing Extended)}

theorem Standing.shuffled_of_perm (h : rs.Perm rs')
    (hanimating : ∀ r ∈ rs, r.lane.EachEffect Effect.Animating)
    (hapart : rs.Pairwise fun r r' => r.lane.Apart r'.lane)
    (hsettled : ∀ r ∈ rs, r.Settled setting start stop) (u : WithTop ℚ) (scene : Scene Extended) :
    LanesOutcome.Shuffled rs rs'
      (updateAll setting (finite start) (finite stop) rs (left stop u) scene)
      (updateAll setting (finite start) (finite stop) rs' (left stop u) scene) := by
  induction h generalizing u scene with
  | nil => exact ⟨rfl,rfl,rfl,.refl _⟩
  | @cons r rs rs' _ ih =>
    obtain ⟨-,hanimating⟩ := List.forall_mem_cons.mp hanimating
    obtain ⟨hfirst,hsettled⟩ := List.forall_mem_cons.mp hsettled
    obtain ⟨u',hleast⟩ := Turn.exists_least (hfirst scene) stop u
    have hrest := ih hanimating (List.pairwise_cons.mp hapart).2 hsettled u'
      (r.turn setting (finite start) (finite stop) scene).scene
    rw [updateAll_cons,updateAll_cons]
    dsimp only
    rw [hleast]
    exact ⟨congrArg (_ || ·) hrest.running,hrest.leftover,hrest.scene,hrest.standings.cons _⟩
  | swap r r' rs =>
    -- Each of the two lanes has the turn that it would have if it came first.
    obtain ⟨hr',hrest⟩ := List.forall_mem_cons.mp hanimating
    obtain ⟨hr,-⟩ := List.forall_mem_cons.mp hrest
    have hlanes : r'.lane.Apart r.lane := (List.pairwise_cons.mp hapart).1 r List.mem_cons_self
    obtain ⟨after,hturn,hturn'⟩ := exists_turn_turn setting (finite start) (finite stop) hr' hr hlanes scene
    have hleast := Turn.least_least (hsettled r' List.mem_cons_self scene)
      (hsettled r (List.mem_cons_of_mem _ List.mem_cons_self) scene) stop u
    simp only [updateAll_cons,hturn,hturn',hleast]
    exact ⟨Bool.or_left_comm _ _ _,rfl,rfl,.swap _ _ _⟩
  | trans h _ ih ih' =>
    have hfirst := ih hanimating hapart hsettled u scene
    have hsecond := ih' (fun r hr => hanimating r (h.mem_iff.mpr hr))
      (h.pairwise hapart Behavior.Apart.symm) (fun r hr => hsettled r (h.mem_iff.mpr hr)) u scene
    exact ⟨hsecond.running.trans hfirst.running,hsecond.leftover.trans hfirst.leftover,
      hsecond.scene.trans hfirst.scene,hfirst.standings.trans hsecond.standings⟩

theorem Standing.settled_of_sound {r : Standing Extended} (hlane : r.lane.Timed) (hr : Sound r.lane r.progress)
    (hlt : start < stop) : r.Settled setting start stop := by
  intro scene
  unfold turn
  split_ifs
  · exact nofun
  · exact Turn.isRational_of_timely (hlane.punctual r.progress hr start stop hlt scene).1

end

/-- Two parallel behaviors stand alike but for the order of their lanes. -/
def StandAlike (lanes lanes' : List (Behavior Extended)) (p p' : Progress Extended) : Prop :=
  ∀ start, (standings lanes (p.endedLanes start).1 (p.endedLanes start).2).Perm
    (standings lanes' (p'.endedLanes start).1 (p'.endedLanes start).2)

section
variable {lanes lanes' : List (Behavior Extended)}

theorem StandAlike.fresh (h : lanes.Perm lanes') : StandAlike lanes lanes' .fresh .fresh := by
  intro start
  have hfresh : (Progress.fresh : Progress Extended).endedLanes start = ([],[]) := rfl
  rw [hfresh,standings_nil,standings_nil]
  exact h.map _

theorem StandAlike.of_perm {ended ended' : List Bool} {states states' : List (Progress Extended)}
    (h : (standings lanes ended states).Perm (standings lanes' ended' states')) :
    StandAlike lanes lanes' (.lanes ended states) (.lanes ended' states') := by
  intro start
  unfold Progress.endedLanes
  dsimp only
  split_ifs
  · rw [standings_restarted lanes ended,standings_restarted lanes' ended']
    exact h.map _
  · exact h

variable [Elementary Extended] {setting : Setting Extended} {timing : Timing Extended} {start stop : ℚ}
  {p p' : Progress Extended}

theorem StandAlike.update (h : StandAlike lanes lanes' p p') (htimed : (Behavior.parallel timing lanes).Timed)
    (hp : Sound (.parallel timing lanes) p) (hanimating : ∀ lane ∈ lanes, lane.EachEffect Effect.Animating)
    (hapart : lanes.Pairwise Behavior.Apart)
    (hlt : start < stop) (scene : Scene Extended) :
    let o := (Behavior.parallel timing lanes).update setting p (finite start) (finite stop) scene
    let o' := (Behavior.parallel timing lanes').update setting p' (finite start) (finite stop) scene
    o'.status = o.status ∧ o'.scene = o.scene ∧ StandAlike lanes lanes' o.progress o'.progress := by
  rcases hended : p.endedLanes (finite start) with ⟨ended,states⟩
  rcases hended' : p'.endedLanes (finite start) with ⟨ended',states'⟩
  have hperm := h (finite start)
  rw [hended,hended'] at hperm
  have hsound : AllSound lanes states := by
    have hstates : states = p.states := (congrArg Prod.snd hended).symm.trans (hp.endedLanes (finite start))
    rw [hstates]
    exact hp.allSound
  have hlanes : (standings lanes ended states).map (·.lane) = lanes := map_lane_standings lanes ended states
  have hlanes' : (standings lanes' ended' states').map (·.lane) = lanes' :=
    map_lane_standings lanes' ended' states'
  have hmem : ∀ r ∈ standings lanes ended states, r.lane ∈ lanes := fun r hr => by
    rw [← hlanes]
    exact List.mem_map_of_mem hr
  rw [← hlanes,List.pairwise_map] at hapart
  have hsettled : ∀ r ∈ standings lanes ended states, r.Settled setting start stop := fun r hr =>
    Standing.settled_of_sound (htimed.part (hmem r hr)) (forall_standings hsound r hr) hlt
  have hshuffled := Standing.shuffled_of_perm hperm (fun r hr => hanimating _ (hmem r hr)) hapart hsettled
    (max timing.lifespan.toTop start) scene
  have hleft : finite stop - Arithmetic.maxNum timing.lifespan (finite start) =
      left stop (max timing.lifespan.toTop start) := htimed.span.sub_max _ _
  rw [← hleft] at hshuffled
  have hstandings := hshuffled.standings
  rw [hlanes,hlanes'] at hstandings
  simp only [Behavior.update,hended,hended',updateLanes_eq_updateAll]
  exact ⟨by rw [hshuffled.running,hshuffled.leftover],hshuffled.scene,.of_perm hstandings⟩

end

section
variable [Elementary Extended] {setting : Setting Extended} {timing : Timing Extended}
  {lanes lanes' : List (Behavior Extended)} {p p' : Progress Extended}
  {windows : List (ℚ × (Scene Extended → Scene Extended))}

theorem StandAlike.perform_eq {start : ℚ} (h : StandAlike lanes lanes' p p')
    (htimed : (Behavior.parallel timing lanes).Timed) (hp : Sound (.parallel timing lanes) p)
    (hanimating : ∀ lane ∈ lanes, lane.EachEffect Effect.Animating)
    (hapart : lanes.Pairwise Behavior.Apart)
    (hw : (start :: windows.map Prod.fst).IsChain (· < ·)) (scene : Scene Extended) :
    ((Behavior.parallel timing lanes').exactRun setting p' windows scene start).map
        (fun r => (r.1.status,r.2)) =
      ((Behavior.parallel timing lanes).exactRun setting p windows scene start).map
        fun r => (r.1.status,r.2) := by
  induction windows generalizing start p p' scene with
  | nil => rfl
  | cons w windows ih =>
    obtain ⟨stop,act⟩ := w
    obtain ⟨hlt,hw⟩ := List.isChain_cons_cons.mp hw
    have hsound : Sound (.parallel timing lanes)
        ((Behavior.parallel timing lanes).update setting p (finite start) (finite stop) (act scene)).progress :=
      (htimed.punctual p hp start stop hlt (act scene)).2
    obtain ⟨hstatus,hscene,hafter⟩ := h.update htimed hp hanimating hapart hlt (act scene)
    have hrest := ih hafter hsound hw
      ((Behavior.parallel timing lanes).update setting p (finite start) (finite stop) (act scene)).scene
    simp only [Behavior.exactRun,List.map_cons,Behavior.perform,Behavior.trace_status,hstatus,hscene]
    exact congrArg _ hrest

/-- The order of lanes that animate different properties, and do nothing else, does not show in a run:
the parallel behavior with its lanes in another order gives the same answers and leaves the same particle. -/
theorem Behavior.shows_eq_of_perm (setting : Setting Extended) (hperm : lanes.Perm lanes')
    (htimed : (parallel timing lanes).Timed)
    (hanimating : ∀ lane ∈ lanes, lane.EachEffect Effect.Animating)
    (hapart : lanes.Pairwise Behavior.Apart)
    (hw : (0 :: windows.map Prod.fst).IsChain (· < ·)) (scene : Scene Extended) :
    (parallel timing lanes').shows setting .fresh windows scene =
      (parallel timing lanes).shows setting .fresh windows scene :=
  (StandAlike.fresh hperm).perform_eq htimed (.fresh _) hanimating hapart hw scene

end

namespace Plain

/-- Speed set and then raised, a hue that grows in three rounds, and an opacity that fades again and again. -/
def tricolor : List (Behavior Extended) :=
  [.inSequence [.leaf { lifespan := 1 } (.set .speed 3),.leaf { lifespan := finite (1/2) } (.add .speed 2)],
    .repeatUpTo 3 (.leaf { lifespan := finite (2/3) } (.add .hue 30)),
    .forever (.leaf { lifespan := 2 } (.multiply .opacity 0))]

theorem tricolor_in_any_order :
    (Behavior.parallel { lifespan := finite 4 } tricolor).Timed ∧
      (∀ lane ∈ tricolor, lane.EachEffect Effect.Animating) ∧
      tricolor.Pairwise Behavior.Apart ∧
      (0 :: disturbed.map Prod.fst).IsChain (· < ·) ∧
      (Behavior.parallel { lifespan := finite 4 } tricolor.reverse).shows (setting 4) .fresh disturbed scene =
        (Behavior.parallel { lifespan := finite 4 } tricolor).shows (setting 4) .fresh disturbed scene :=
  ⟨by decide,by decide,by decide,by decide +kernel,
    Behavior.shows_eq_of_perm (setting 4) (List.reverse_perm _).symm (by decide) (by decide) (by decide)
      (by decide +kernel) scene⟩

end Plain
end Fireworks
