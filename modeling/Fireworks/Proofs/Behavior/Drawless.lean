import Fireworks.Proofs.Behavior.Carrying
import Fireworks.Proofs.Behavior.Sending
import Fireworks.Proofs.Generator.Choice

/-! # Behaviors that draw no random numbers

Random numbers are drawn by random operators and by bursts. A program without them makes the same
behavior whatever the generator, and leaves the generator as it is; and so do the particles that its
behaviors send out, at every depth. What such a behavior makes of a window has nothing to do with the
stage: it only puts its children and its cues behind what stands there.
-/
namespace Fireworks
variable {ν : Type}

inductive NumberGen.Drawless : NumberGen ν → Prop
  | const (value) : Drawless (.const value)
  | range {low high} : Drawless low → Drawless high → Drawless (.range .each low high)
  | angle : Drawless (.angle .each)
  | choice {options} : (∀ option ∈ options, Drawless option) → Drawless (.choice .each options)

inductive ValueGen.Drawless {α : Type} : ValueGen α → Prop
  | const (value) : Drawless (.const value)
  | choice {options} : (∀ option ∈ options, Drawless option) → Drawless (.choice .each options)

structure VectorGen.Drawless (v : VectorGen ν) : Prop where
  x : v.x.Drawless
  y : v.y.Drawless
  z : v.z.Drawless

/-- Programs without bursts and without random operators, also in the bodies of emissions. -/
inductive BehaviorGen.Drawless : BehaviorGen ν → Prop
  | action (a) : Drawless (.action a)
  | property (blend target) {value} : value.Drawless → Drawless (.property blend target value)
  | translate {offset} : offset.Drawless → Drawless (.translate offset)
  | rotate {degrees} : degrees.Drawless → Drawless (.rotate degrees)
  | emit {count times parallel body} : count.Drawless → times.Drawless → parallel.Drawless →
      Drawless body → Drawless (.emit count times parallel body)
  | loop {body} : Drawless body → Drawless (.loop body)
  | repeated {limit body} : limit.Drawless → Drawless body → Drawless (.repeated limit body)
  | block {lanes} : (∀ lane ∈ lanes, ∀ statement ∈ lane, Drawless statement) → Drawless (.block lanes)
  | lifespan {span body} : span.Drawless → Drawless body → Drawless (.lifespan span body)
  | eased {easing body} : easing.Drawless → Drawless body → Drawless (.eased easing body)
  | choice {options} : (∀ option ∈ options, Drawless option) → Drawless (.choice .each options)

/-- Effects without bursts, whose children are made without random operators. -/
def Effect.Drawless : Effect ν → Prop
  | .emit emission => emission.body.Drawless
  | .burst _ => False
  | _ => True

/-- A property of all effects of a behavior. -/
def Behavior.EachEffect (P : Effect ν → Prop) (b : Behavior ν) : Prop :=
  b.Everywhere fun node => ∀ timing effect, node = .leaf timing effect → P effect

def Behavior.Drawless (b : Behavior ν) : Prop := b.EachEffect Effect.Drawless

namespace Behavior.EachEffect
variable {P : Effect ν → Prop}

theorem leaf {effect : Effect ν} (h : P effect) (timing : Timing ν) :
    (Behavior.leaf timing effect).EachEffect P := by
  refine .intro (fun _ _ heq => ?_) (List.forall_mem_nil _)
  cases heq
  exact h

theorem inSequence [Arithmetic ν] {children : List (Behavior ν)} (h : ∀ child ∈ children, child.EachEffect P) :
    (Behavior.inSequence children).EachEffect P :=
  .intro (fun _ _ heq => by cases heq) h

theorem repeatUpTo [Arithmetic ν] {b : Behavior ν} (h : b.EachEffect P) (limit : ν) :
    (Behavior.repeatUpTo limit b).EachEffect P :=
  .intro (fun _ _ heq => by cases heq) (List.forall_mem_singleton.mpr h)

theorem forever [Arithmetic ν] {b : Behavior ν} (h : b.EachEffect P) : (Behavior.forever b).EachEffect P :=
  .intro (fun _ _ heq => by cases heq) (List.forall_mem_singleton.mpr h)

theorem inParallel [Arithmetic ν] {lanes : List (Behavior ν)} (h : ∀ lane ∈ lanes, lane.EachEffect P) :
    (Behavior.inParallel lanes).EachEffect P :=
  .intro (fun _ _ heq => by cases heq) h

theorem withTiming {b : Behavior ν} (h : b.EachEffect P) (timing : Timing ν) :
    (b.withTiming timing).EachEffect P := by
  cases b with
  | leaf own effect => exact leaf (h.here own effect rfl) timing
  | sequence | repetition | loop | parallel =>
    exact .intro (fun _ _ heq => by cases heq) fun part hpart => h.part hpart

end Behavior.EachEffect

/-- A computation without a draw. -/
def DrawsNothing {α : Type} (x : StateM Rng α) : Prop := ∃ a, x = pure a

theorem DrawsNothing.bind {α β : Type} {x : StateM Rng α} {f : α → StateM Rng β} (hx : DrawsNothing x)
    (hf : ∀ a, DrawsNothing (f a)) : DrawsNothing (x >>= f) := by
  obtain ⟨a,rfl⟩ := hx
  rw [pure_bind]
  exact hf a

variable [Arithmetic ν] (k : Index)

namespace NumberGen

theorem Drawless.generate {g : NumberGen ν} (h : g.Drawless) : DrawsNothing (g.generate k) := by
  induction h with
  | const value => exact ⟨value,rfl⟩
  | range _ _ ihlow ihhigh => exact ihlow.bind fun l => ihhigh.bind fun u => ⟨_,rfl⟩
  | angle => exact ⟨_,rfl⟩
  | @choice options _ ih =>
    change DrawsNothing (generateNth k options (k.index % options.length))
    rw [generateNth_eq]
    exact elim_getElem?_of_forall ⟨0,rfl⟩ ih _

end NumberGen

namespace ValueGen
variable {α : Type} [Inhabited α]

theorem Drawless.generate {g : ValueGen α} (h : g.Drawless) : DrawsNothing (g.generate ν k) := by
  induction h with
  | const value => exact ⟨value,rfl⟩
  | @choice options _ ih =>
    change DrawsNothing (generateNth ν k options (k.index % options.length))
    rw [generateNth_eq]
    exact elim_getElem?_of_forall ⟨default,rfl⟩ ih _

end ValueGen

theorem VectorGen.Drawless.generate {v : VectorGen ν} (h : v.Drawless) : DrawsNothing (v.generate k) :=
  (h.x.generate k).bind fun x => (h.y.generate k).bind fun y => (h.z.generate k).bind fun z =>
    ⟨⟨x,y,z⟩,rfl⟩

namespace BehaviorGen

theorem exists_generateLane {lane : List (BehaviorGen ν)}
    (h : ∀ statement ∈ lane, ∃ b : Behavior ν, b.Drawless ∧ statement.generate k = pure b) :
    ∃ bs : List (Behavior ν), (∀ b ∈ bs, b.Drawless) ∧ generateLane k lane = pure bs := by
  induction lane with
  | nil => exact ⟨[],List.forall_mem_nil _,rfl⟩
  | cons statement rest ih =>
    obtain ⟨hfirst,hrest⟩ := List.forall_mem_cons.mp h
    obtain ⟨b,hb,hstatement⟩ := hfirst
    obtain ⟨bs,hbs,hlane⟩ := ih hrest
    refine ⟨b :: bs,List.forall_mem_cons.mpr ⟨hb,hbs⟩,?_⟩
    simp only [generateLane,hstatement,hlane,pure_bind]

theorem exists_generateLanes {lanes : List (List (BehaviorGen ν))} (h : ∀ lane ∈ lanes,
      ∀ statement ∈ lane, ∃ b : Behavior ν, b.Drawless ∧ statement.generate k = pure b) :
    ∃ bs : List (Behavior ν), (∀ b ∈ bs, b.Drawless) ∧ generateLanes k lanes = pure bs := by
  induction lanes with
  | nil => exact ⟨[],List.forall_mem_nil _,rfl⟩
  | cons lane rest ih =>
    obtain ⟨hfirst,hrest⟩ := List.forall_mem_cons.mp h
    obtain ⟨first,hall,hlane⟩ := exists_generateLane k hfirst
    obtain ⟨bs,hbs,hlanes⟩ := ih hrest
    refine ⟨.inSequence first :: bs,List.forall_mem_cons.mpr ⟨.inSequence hall,hbs⟩,?_⟩
    simp only [generateLanes,hlane,hlanes,pure_bind]

/-- Without random operators and bursts, a program makes one behavior without a draw, which will draw
nothing either. -/
theorem Drawless.generate {g : BehaviorGen ν} (h : g.Drawless) :
    ∃ b : Behavior ν, b.Drawless ∧ g.generate k = pure b := by
  -- The body of an emission is kept and not made, so that its own induction hypothesis is not used.
  induction h with
  | action a => exact ⟨_,.leaf (by cases a <;> trivial) _,rfl⟩
  | property blend target hvalue =>
    obtain ⟨v,hv⟩ := hvalue.generate k
    refine ⟨.ofEffect (.ofBlend blend target v),.leaf (by cases blend <;> trivial) _,?_⟩
    simp only [BehaviorGen.generate,hv,pure_bind]
  | translate hoffset =>
    obtain ⟨v,hv⟩ := hoffset.generate k
    refine ⟨.ofEffect (.translate v),.leaf trivial _,?_⟩
    simp only [BehaviorGen.generate,hv,pure_bind]
  | rotate hdegrees =>
    obtain ⟨v,hv⟩ := hdegrees.generate k
    refine ⟨.ofEffect (.rotate v),.leaf trivial _,?_⟩
    simp only [BehaviorGen.generate,hv,pure_bind]
  | @emit _ _ _ body hcount htimes hparallel hbody =>
    obtain ⟨count,hcount⟩ := hcount.generate k
    obtain ⟨times,htimes⟩ := htimes.generate k
    obtain ⟨parallel,hparallel⟩ := hparallel.generate k
    refine ⟨.ofEffect (.emit (.capped (spawnCount count) (spawnCount times) (spawnCount parallel) body)),
      .leaf hbody _,?_⟩
    simp only [BehaviorGen.generate,hcount,htimes,hparallel,pure_bind]
  | loop _ ih =>
    obtain ⟨b,hb,hbody⟩ := ih
    refine ⟨.forever b,.forever hb,?_⟩
    simp only [BehaviorGen.generate,hbody,pure_bind]
  | repeated hlimit _ ih =>
    obtain ⟨limit,hlimit⟩ := hlimit.generate k
    obtain ⟨b,hb,hbody⟩ := ih
    refine ⟨.repeatUpTo limit b,.repeatUpTo hb limit,?_⟩
    simp only [BehaviorGen.generate,hlimit,hbody,pure_bind]
  | block _ ih =>
    obtain ⟨bs,hbs,hlanes⟩ := exists_generateLanes k ih
    refine ⟨.inParallel bs,.inParallel hbs,?_⟩
    simp only [BehaviorGen.generate,hlanes,pure_bind]
  | lifespan hspan _ ih =>
    obtain ⟨b,hb,hbody⟩ := ih
    obtain ⟨span,hspan⟩ := hspan.generate k
    refine ⟨b.withLifespan span,hb.withTiming _,?_⟩
    simp only [BehaviorGen.generate,hbody,hspan,pure_bind]
  | eased heasing _ ih =>
    obtain ⟨b,hb,hbody⟩ := ih
    obtain ⟨easing,heasing⟩ := heasing.generate (ν := ν) k
    refine ⟨b.withEasing easing,hb.withTiming _,?_⟩
    simp only [BehaviorGen.generate,hbody,heasing,pure_bind]
  | @choice options _ ih =>
    change ∃ b : Behavior ν, b.Drawless ∧ generateNth k options (k.index % options.length) = pure b
    rw [generateNth_eq]
    exact elim_getElem?_of_forall (Q := fun x => ∃ b : Behavior ν, b.Drawless ∧ x = pure b)
      ⟨.nop,.leaf trivial _,rfl⟩ ih _

end BehaviorGen

namespace Stage
variable (base : Stage ν)

/-- A stage with what stands on another one put behind, and with its own generator. -/
def followedBy (stage : Stage ν) : Stage ν where
  rng := base.rng
  spawned := base.spawned ++ stage.spawned
  cues := base.cues ++ stage.cues

omit [Arithmetic ν] in
theorem followedBy_add (stage : Stage ν) (slot : Slot ν) :
    base.followedBy (stage.add slot) = (base.followedBy stage).add slot := by
  simp only [followedBy,add,Array.append_push]

omit [Arithmetic ν] in
theorem followedBy_play (stage : Stage ν) (cue : Cue) :
    base.followedBy (stage.play cue) = (base.followedBy stage).play cue := by
  simp only [followedBy,play,Array.append_push]

omit [Arithmetic ν] in
theorem followedBy_empty (rng : Rng) : base.followedBy { rng } = base := by
  simp only [followedBy,Array.append_empty]

variable {body : BehaviorGen ν}

theorem followedBy_sendOut (hbody : body.Drawless) (stage : Stage ν) (particle : Particle ν) :
    base.followedBy (stage.sendOut particle body k) = (base.followedBy stage).sendOut particle body k := by
  obtain ⟨b,-,hb⟩ := hbody.generate k
  have hsend : ∀ stage : Stage ν, stage.sendOut particle body k = stage.add ⟨particle,b,.fresh⟩ := by
    intro stage
    simp only [sendOut,draw,hb]
    rfl
  rw [hsend,hsend,followedBy_add]

theorem followedBy_fire {emission : Emission ν} (hbody : emission.body.Drawless) (timing : Timing ν)
    (start stop : ν) (particle : Particle ν) (stage : Stage ν) :
    base.followedBy (emission.fire timing start stop particle stage) =
      emission.fire timing start stop particle (base.followedBy stage) := by
  have hgroup : ∀ stage group, emission.fireGroup particle group (base.followedBy stage) =
      base.followedBy (emission.fireGroup particle group stage) := fun stage group =>
    List.foldl_hom base.followedBy fun stage slot =>
      (base.followedBy_sendOut ⟨slot,emission.total⟩ hbody stage particle.child).symm
  exact (List.foldl_hom base.followedBy hgroup).symm

end Stage

/-- A scene on a stage on which more stands. -/
def Scene.onto (base : Stage ν) (scene : Scene ν) : Scene ν := ⟨scene.particle,base.followedBy scene.stage⟩

variable [Elementary ν] {setting setting' : Setting ν}

theorem Effect.Drawless.act_onto {effect : Effect ν} (he : effect.Drawless)
    (hphysics : setting'.config.physics = setting.config.physics) (base : Stage ν) (timing : Timing ν)
    (progress : Progress ν) (start stop : ν) (scene : Scene ν) :
    effect.act setting' timing progress start stop (scene.onto base) =
      let (progress,scene) := effect.act setting timing progress start stop scene
      (progress,scene.onto base) := by
  cases effect with
  | nop | set | add | multiply | translate | rotate => rfl
  | explode =>
    simp only [act,hphysics]
    rfl
  | emit emission =>
    have hfire := base.followedBy_fire he timing start stop scene.particle scene.stage
    simp only [act,Scene.onto,hfire]
  | burst b => exact he.elim
  | close =>
    simp only [act]
    split_ifs <;> rfl
  | voice cue =>
    have hplay := base.followedBy_play scene.stage cue
    simp only [act,Scene.onto]
    cases progress.firedBefore start with
    | true => rfl
    | false =>
      rw [if_neg Bool.false_ne_true,if_neg Bool.false_ne_true,hplay]

/-- A behavior that draws nothing makes the same of a window on every stage, and puts what it sends out
and what it plays behind what stands there. Of its setting it sees the continuation limit and the
physics. -/
theorem Behavior.Drawless.carries {b : Behavior ν} (hb : b.Drawless)
    (hlimit : setting'.config.chainLimit = setting.config.chainLimit)
    (hphysics : setting'.config.physics = setting.config.physics) (base : Stage ν) :
    Carries setting setting' (.onto base) b := by
  refine Everywhere.carries hlimit (hb.imp fun node hnode timing effect heq => ?_)
  subst heq
  intro progress start stop scene
  have hact := (hnode timing effect rfl).act_onto hphysics base timing progress start stop scene
  simp only [update,hact]
  rfl

/-- A visit of a particle that draws nothing is the same on every stage. -/
theorem Slot.advance_followedBy {slot : Slot ν} (hslot : slot.behavior.Drawless)
    (hlimit : setting'.config.chainLimit = setting.config.chainLimit)
    (hphysics : setting'.config.physics = setting.config.physics) (dt : ν) (base stage : Stage ν) :
    slot.advance setting' dt (base.followedBy stage) =
      let (status,slot,stage) := slot.advance setting dt stage
      (status,slot,base.followedBy stage) := by
  have hupdate := hslot.carries hlimit hphysics base slot.progress slot.particle.lifeTime
    (slot.particle.lifeTime + dt) ⟨{ slot.particle with lifeTime := slot.particle.lifeTime + dt },stage⟩
  simp only [Scene.onto] at hupdate
  simp only [advance,hupdate]
  rfl

omit [Elementary ν] in
/-- What a behavior that draws nothing sends out draws nothing either. -/
theorem BehaviorGen.Drawless.lineage : Lineage (Drawless (ν := ν)) Behavior.Drawless where
  made h k rng := by
    obtain ⟨b,hb,hgenerate⟩ := h.generate k
    rw [hgenerate]
    exact hb
  sends hb := hb.imp fun node hnode timing effect heq body hbody => by
    have heffect := hnode timing effect heq
    cases effect with
    | emit emission => cases hbody; exact heffect
    | burst b => exact heffect.elim
    | nop | set | add | multiply | close | translate | rotate | explode | voice => cases hbody

end Fireworks
