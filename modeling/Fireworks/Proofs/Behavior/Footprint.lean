import Fireworks.Proofs.Behavior.Drawless

/-! # The footprint of a behavior

An update changes of its particle only what some effect in the tree is there to change. On the stage it
draws from the generator, and for the rest it only adds: newborn particles behind those sent out before,
and cues behind those played. Nothing that it does depends on what stands there already.
-/
namespace Fireworks
variable {ν : Type}

/-- Some effect of a behavior has a property, at whatever depth it stands. -/
inductive Behavior.Has (P : Effect ν → Prop) : Behavior ν → Prop
  | leaf {timing effect} : P effect → Has P (.leaf timing effect)
  | part {b part} : part ∈ b.parts → Has P part → Has P b

namespace Effect

def Animates (target : Property) : Effect ν → Prop
  | .set own _ | .add own _ | .multiply own _ => own = target
  | _ => False

def Rotates : Effect ν → Prop
  | .rotate _ => True
  | _ => False

def Explodes : Effect ν → Prop
  | .explode => True
  | _ => False

def Moves : Effect ν → Prop
  | .translate _ | .explode => True
  | _ => False

end Effect

theorem Particle.get_set_of_ne (p : Particle ν) {target other : Property} (h : other ≠ target)
    (value : ν) : (p.set target value).get other = p.get other := by
  cases target with
  | speed =>
    cases other with
    | speed => exact absurd rfl h
    | opacity | hue => rfl
  | opacity =>
    cases other with
    | opacity => exact absurd rfl h
    | speed | hue => rfl
  | hue =>
    cases other with
    | hue => exact absurd rfl h
    | speed | opacity => rfl

/-- What may have become of a particle, when `may P` holds if an effect with property `P` may have acted
on it. -/
structure Particle.Framed (may : (Effect ν → Prop) → Prop) (before after : Particle ν) : Prop where
  gravity : after.gravity = before.gravity
  mass : after.mass = before.mass
  lifeTime : after.lifeTime = before.lifeTime
  closed : before.closed = true → after.closed = true
  velocity : ¬may Effect.Explodes → after.velocity = before.velocity
  rotation : ¬may Effect.Rotates → after.rotation = before.rotation
  position : ¬may Effect.Moves → after.position = before.position
  get : ∀ target, ¬may (Effect.Animates target) → after.get target = before.get target

namespace Particle.Framed
variable {may wider : (Effect ν → Prop) → Prop} {before after last : Particle ν}

theorem refl (p : Particle ν) : Framed may p p :=
  ⟨rfl,rfl,rfl,id,fun _ => rfl,fun _ => rfl,fun _ => rfl,fun _ _ => rfl⟩

theorem trans (h : Framed may before after) (h' : Framed may after last) : Framed may before last where
  gravity := h'.gravity.trans h.gravity
  mass := h'.mass.trans h.mass
  lifeTime := h'.lifeTime.trans h.lifeTime
  closed hclosed := h'.closed (h.closed hclosed)
  velocity hno := (h'.velocity hno).trans (h.velocity hno)
  rotation hno := (h'.rotation hno).trans (h.rotation hno)
  position hno := (h'.position hno).trans (h.position hno)
  get target hno := (h'.get target hno).trans (h.get target hno)

theorem mono (h : Framed may before after) (hmay : ∀ P, may P → wider P) : Framed wider before after where
  gravity := h.gravity
  mass := h.mass
  lifeTime := h.lifeTime
  closed := h.closed
  velocity hno := h.velocity (mt (hmay _) hno)
  rotation hno := h.rotation (mt (hmay _) hno)
  position hno := h.position (mt (hmay _) hno)
  get target hno := h.get target (mt (hmay _) hno)

variable (p : Particle ν)

theorem close : Framed may p { p with closed := true } :=
  ⟨rfl,rfl,rfl,fun _ => rfl,fun _ => rfl,fun _ => rfl,fun _ => rfl,fun _ _ => rfl⟩

theorem set {target : Property} (h : may (Effect.Animates target)) (value : ν) :
    Framed may p (p.set target value) := by
  have hget : ∀ other, ¬may (Effect.Animates other) → (p.set target value).get other = p.get other := by
    intro other hno
    exact p.get_set_of_ne (fun heq => hno (by rw [heq]; exact h)) value
  cases target <;> exact ⟨rfl,rfl,rfl,id,fun _ => rfl,fun _ => rfl,fun _ => rfl,hget⟩

variable [Arithmetic ν]

theorem translate (h : may Effect.Moves) (offset : Vec3 ν) : Framed may p (p.translate offset) :=
  ⟨rfl,rfl,rfl,id,fun _ => rfl,fun _ => rfl,fun hno => absurd h hno,fun _ _ => rfl⟩

theorem rotate [Elementary ν] (h : may Effect.Rotates) (degrees : Vec3 ν) :
    Framed may p (p.rotate degrees) :=
  ⟨rfl,rfl,rfl,id,fun _ => rfl,fun hno => absurd h hno,fun _ => rfl,fun _ _ => rfl⟩

theorem explode (h : may Effect.Explodes) (h' : may Effect.Moves) (physics : Physics ν) :
    Framed may p (p.explode physics) :=
  ⟨rfl,rfl,rfl,id,fun hno => absurd h hno,fun _ => rfl,fun hno => absurd h' hno,fun _ _ => rfl⟩

end Particle.Framed

/-- Every property that an effect of a behavior has is one that the behavior has somewhere. -/
theorem Behavior.eachEffect_has [Arithmetic ν] (b : Behavior ν) :
    b.EachEffect fun effect => ∀ P, P effect → b.Has P := by
  have hpart : ∀ {node part : Behavior ν}, part ∈ node.parts →
      (part.EachEffect fun effect => ∀ P, P effect → part.Has P) →
      part.EachEffect fun effect => ∀ P, P effect → node.Has P := by
    intro node part hmem h
    exact h.imp fun _ hleaf timing effect heq P hP => .part hmem (hleaf timing effect heq P hP)
  induction b using Behavior.induct with
  | leaf timing effect => exact .leaf (fun _ hP => .leaf hP) timing
  | chain b k h ih =>
    refine .intro (fun _ _ heq => ?_) fun part hmem => hpart hmem (ih part (parts_links h ▸ hmem))
    subst heq
    cases h
  | parallel timing lanes ih =>
    exact .intro (fun _ _ heq => by cases heq) fun lane hlane => hpart hlane (ih lane hlane)

section
variable [Arithmetic ν] [Elementary ν] (setting : Setting ν)

theorem Effect.framed_act (effect : Effect ν) (timing : Timing ν) (progress : Progress ν)
    (start stop : ν) (scene : Scene ν) :
    Particle.Framed (fun P => P effect) scene.particle
      (effect.act setting timing progress start stop scene).2.particle := by
  cases effect with
  | nop | emit => exact .refl _
  | set | add | multiply =>
    simp only [act]
    refine .set _ ?_ _
    exact rfl
  | close =>
    simp only [act]
    split_ifs
    · exact .refl _
    · exact .close _
    · exact .refl _
  | translate => exact .translate _ trivial _
  | rotate => exact .rotate _ trivial _
  | explode => exact .explode _ trivial trivial _
  | burst | voice =>
    simp only [act]
    split <;> exact .refl _

theorem Behavior.framed_update (b : Behavior ν) (progress : Progress ν) (start stop : ν)
    (scene : Scene ν) :
    Particle.Framed (fun P => b.Has P) scene.particle
      (b.update setting progress start stop scene).scene.particle := by
  refine Everywhere.keeps (I := fun after => Particle.Framed (fun P => b.Has P) scene.particle after.particle)
    (b.eachEffect_has.imp fun node hnode timing effect heq => ?_) progress start stop scene (.refl _)
  subst heq
  intro progress start stop after hafter
  have hact := effect.framed_act setting timing progress start stop after
  exact hafter.trans (hact.mono (hnode timing effect rfl))

end

namespace Stage
variable (before stage : Stage ν)

/-- A stage on which more was sent out and played before. -/
def behind : Stage ν where
  rng := stage.rng
  spawned := before.spawned ++ stage.spawned
  cues := before.cues ++ stage.cues

theorem behind_blank : before.behind { rng := before.rng } = before := by
  simp only [behind,Array.append_empty]

theorem behind_add (slot : Slot ν) : (before.behind stage).add slot = before.behind (stage.add slot) := by
  simp only [behind,add,Array.append_push]

theorem behind_play (cue : Cue) : (before.behind stage).play cue = before.behind (stage.play cue) := by
  simp only [behind,play,Array.append_push]

variable [Arithmetic ν]

theorem behind_sendOut (particle : Particle ν) (body : BehaviorGen ν) (k : Index) :
    (before.behind stage).sendOut particle body k = before.behind (stage.sendOut particle body k) :=
  before.behind_add (stage.draw (body.generate k)).2 _

theorem behind_fire (emission : Emission ν) (timing : Timing ν) (start stop : ν) (particle : Particle ν) :
    emission.fire timing start stop particle (before.behind stage) =
      before.behind (emission.fire timing start stop particle stage) := by
  have hgroup : ∀ stage group, emission.fireGroup particle group (before.behind stage) =
      before.behind (emission.fireGroup particle group stage) := fun stage group =>
    List.foldl_hom before.behind fun stage slot =>
      before.behind_sendOut stage particle.child emission.body ⟨slot,emission.total⟩
  exact List.foldl_hom before.behind hgroup

theorem behind_launch (setting : Setting ν) (parent : Particle ν) (body : BehaviorGen ν)
    (position velocity : Vec3 ν) (gravity : ν) :
    Burst.launch setting parent body position velocity gravity (before.behind stage) =
      before.behind (Burst.launch setting parent body position velocity gravity stage) :=
  before.behind_sendOut stage _ body .root

theorem behind_burst [Elementary ν] (setting : Setting ν) (b : Burst ν) (particle : Particle ν) :
    b.fire setting particle (before.behind stage) = before.behind (b.fire setting particle stage) := by
  -- A draw leaves everything but the generator alone, so that it is the same behind another stage.
  have hdraw : ∀ {α : Type} (action : StateM Rng α) (stage : Stage ν),
      (before.behind stage).draw action = ((stage.draw action).1,before.behind (stage.draw action).2) :=
    fun _ _ => rfl
  cases b with
  | flair count body =>
    simp only [Burst.fire,hdraw]
    refine List.foldl_hom before.behind fun stage i => ?_
    exact before.behind_launch stage setting particle body _ _ _
  | fireworks count body =>
    refine List.foldl_hom before.behind fun stage i => ?_
    simp only [hdraw,behind_launch]
  | glyphs text offset body =>
    refine List.foldl_hom before.behind fun stage point => ?_
    simp only [hdraw,behind_launch]

end Stage

def Scene.behind (before : Stage ν) (scene : Scene ν) : Scene ν := ⟨scene.particle,before.behind scene.stage⟩

section
variable [Arithmetic ν] [Elementary ν] (setting : Setting ν)

theorem Effect.act_behind (effect : Effect ν) (before : Stage ν) (timing : Timing ν)
    (progress : Progress ν) (start stop : ν) (scene : Scene ν) :
    effect.act setting timing progress start stop (scene.behind before) =
      let (progress,scene) := effect.act setting timing progress start stop scene
      (progress,scene.behind before) := by
  cases effect with
  | nop | set | add | multiply | translate | rotate | explode => rfl
  | emit emission =>
    have hfire := before.behind_fire scene.stage emission timing start stop scene.particle
    simp only [act,Scene.behind,hfire]
  | close =>
    simp only [act]
    split_ifs <;> rfl
  | burst b =>
    have hfire := before.behind_burst scene.stage setting b scene.particle
    simp only [act,Scene.behind]
    cases progress.firedBefore start with
    | true => rfl
    | false => simp only [Bool.false_eq_true,↓reduceIte,hfire]
  | voice cue =>
    have hplay := before.behind_play scene.stage cue
    simp only [act,Scene.behind]
    cases progress.firedBefore start with
    | true => rfl
    | false => simp only [Bool.false_eq_true,↓reduceIte,hplay]

theorem Behavior.carries_behind (b : Behavior ν) (before : Stage ν) :
    Carries setting setting (.behind before) b := by
  refine Everywhere.carries rfl (.of_forall (fun node timing effect heq => ?_) b)
  subst heq
  intro progress start stop scene
  have hact := effect.act_behind setting before timing progress start stop scene
  simp only [update,hact]
  rfl

/-- Whatever the behavior, its progress, the window and the numbers: an update changes of its particle
only what some effect in the tree is there to change. It does what it would do on an empty stage with the
same generator, and puts what it sends out and plays there behind what the stage held. -/
theorem Behavior.update_frame (b : Behavior ν) (progress : Progress ν) (start stop : ν) (scene : Scene ν) :
    let outcome := b.update setting progress start stop scene
    let alone := b.update setting progress start stop ⟨scene.particle,{ rng := scene.stage.rng }⟩
    Particle.Framed (fun P => b.Has P) scene.particle outcome.scene.particle ∧
      outcome.status = alone.status ∧ outcome.progress = alone.progress ∧
      outcome.scene.particle = alone.scene.particle ∧
      outcome.scene.stage.rng = alone.scene.stage.rng ∧
      outcome.scene.stage.spawned = scene.stage.spawned ++ alone.scene.stage.spawned ∧
      outcome.scene.stage.cues = scene.stage.cues ++ alone.scene.stage.cues ∧
      ∀ slot ∈ alone.scene.stage.spawned, slot.particle.Newborn := by
  intro outcome alone
  have hscene : Scene.behind scene.stage ⟨scene.particle,{ rng := scene.stage.rng }⟩ = scene := by
    rw [Scene.behind,Stage.behind_blank]
  have houtcome : outcome = alone.onScene (.behind scene.stage) := by
    have hcarries := b.carries_behind setting scene.stage progress start stop
      ⟨scene.particle,{ rng := scene.stage.rng }⟩
    rwa [hscene] at hcarries
  obtain ⟨sent,hsent,hnewborn⟩ := Stage.Adds.update (P := fun slot => slot.particle.Newborn) setting
    (.of_forall (fun _ _ _ _ hp => hp) b) progress start stop ⟨scene.particle,{ rng := scene.stage.rng }⟩
  refine ⟨b.framed_update setting progress start stop scene,?_⟩
  rw [houtcome]
  refine ⟨rfl,rfl,rfl,rfl,rfl,rfl,fun slot hslot => hnewborn slot ?_⟩
  rw [← Array.mem_toList_iff,hsent] at hslot
  simpa using hslot

end
end Fireworks
