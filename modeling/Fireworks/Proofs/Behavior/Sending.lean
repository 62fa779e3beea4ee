import Fireworks.Field
import Fireworks.Proofs.Behavior.Frame

/-! # What behaviors send out

Behaviors add particles to the stage and never look at those that stand there: an update leaves the
particles sent out before as they are, and puts new ones behind them that were never called and have
no time behind them. Each is made from one of the bodies in the leaves, and what is true of whatever
those bodies make is true of all of them. A behavior's own particle ages by the clock alone.
-/
namespace Fireworks
variable {ν : Type}

/-- A stage with more particles sent out, none of which was called. -/
def Stage.Extends (before after : Stage ν) : Prop :=
  ∃ sent : List (Slot ν), after.spawned.toList = before.spawned.toList ++ sent ∧
    ∀ slot ∈ sent, slot.progress = .fresh

/-- A stage with more particles sent out, all of which have a property. -/
def Stage.Adds (P : Slot ν → Prop) (before after : Stage ν) : Prop :=
  ∃ sent : List (Slot ν), after.spawned.toList = before.spawned.toList ++ sent ∧ ∀ slot ∈ sent, P slot

def Burst.body : Burst ν → BehaviorGen ν
  | .flair _ body | .fireworks _ body | .glyphs _ _ body => body

/-- The body that the children of an effect are made from, if it has any. -/
def Effect.body? : Effect ν → Option (BehaviorGen ν)
  | .emit emission => some emission.body
  | .burst b => some b.body
  | _ => none

/-- A property of all bodies that a behavior makes children from. -/
def Behavior.Sends (P : BehaviorGen ν → Prop) (b : Behavior ν) : Prop :=
  b.Everywhere fun node => ∀ timing effect, node = .leaf timing effect → ∀ body ∈ effect.body?, P body

theorem Behavior.Sends.of_forall {P : BehaviorGen ν → Prop} (h : ∀ body, P body) (b : Behavior ν) :
    b.Sends P := Everywhere.of_forall (fun _ _ _ _ body _ => h body) b

/-- A particle as it is when it leaves: opaque, open, and with no time behind it. -/
structure Particle.Newborn [Arithmetic ν] (p : Particle ν) : Prop where
  lifeTime : p.lifeTime = 0
  opacity : p.opacity = 1
  opened : p.closed = false

theorem Particle.newborn_child [Arithmetic ν] (p : Particle ν) : p.child.Newborn := ⟨rfl,rfl,rfl⟩

theorem Particle.newborn_launch [Arithmetic ν] (p : Particle ν) (position velocity : Vec3 ν)
    (gravity mass : ν) : (p.launch position velocity gravity mass).Newborn := ⟨rfl,rfl,rfl⟩

/-- A property of every newborn particle made from a body. -/
def BehaviorGen.Bears [Arithmetic ν] (P : Slot ν → Prop) (body : BehaviorGen ν) : Prop :=
  ∀ (k : Index) (rng : Rng) (particle : Particle ν), particle.Newborn →
    P ⟨particle,((body.generate k).run rng).1,.fresh⟩

/-- A property of programs that comes with one of behaviors: programs hand it on to the behaviors made
from them, and behaviors to the bodies that they hold. -/
structure Lineage [Arithmetic ν] (G : BehaviorGen ν → Prop) (B : Behavior ν → Prop) : Prop where
  made : ∀ {g}, G g → ∀ k rng, B ((g.generate k).run rng).1
  sends : ∀ {b}, B b → b.Sends G

theorem Lineage.bears [Arithmetic ν] {G : BehaviorGen ν → Prop} {B : Behavior ν → Prop} (h : Lineage G B)
    {b : Behavior ν} (hb : B b) : b.Sends (·.Bears fun slot => B slot.behavior) :=
  (h.sends hb).imp fun _ hnode timing effect heq body hbody k rng _ _ =>
    h.made (hnode timing effect heq body hbody) k rng

namespace Stage.Adds
variable {P : Slot ν → Prop} {first stage : Stage ν}

theorem refl (stage : Stage ν) : stage.Adds P stage := ⟨[],by simp,nofun⟩

theorem trans {last : Stage ν} (h : first.Adds P stage) (h' : stage.Adds P last) :
    first.Adds P last := by
  obtain ⟨sent,hsent,hall⟩ := h
  obtain ⟨sent',hsent',hall'⟩ := h'
  exact ⟨sent ++ sent',by rw [hsent',hsent,List.append_assoc],List.forall_mem_append.mpr ⟨hall,hall'⟩⟩

theorem foldl {α : Type} {f : Stage ν → α → Stage ν} (hf : ∀ (stage : Stage ν) a,
    first.Adds P stage → first.Adds P (f stage a)) (h : first.Adds P stage) (xs : List α) :
    first.Adds P (xs.foldl f stage) := by
  induction xs generalizing stage with
  | nil => exact h
  | cons a xs ih => exact ih (hf stage a h)

variable [Arithmetic ν] {body : BehaviorGen ν}

theorem sendOut (h : first.Adds P stage) (hbody : body.Bears P) {particle : Particle ν}
    (hp : particle.Newborn) (k : Index) : first.Adds P (stage.sendOut particle body k) := by
  obtain ⟨sent,hsent,hall⟩ := h
  refine ⟨sent ++ [⟨particle,((body.generate k).run stage.rng).1,.fresh⟩],?_,?_⟩
  · rw [← List.append_assoc,← hsent]
    exact Array.toList_push
  · exact List.forall_mem_append.mpr
      ⟨hall,List.forall_mem_singleton.mpr (hbody k stage.rng particle hp)⟩

theorem fire {emission : Emission ν} (h : first.Adds P stage) (hbody : emission.body.Bears P)
    (timing : Timing ν) (start stop : ν) (particle : Particle ν) :
    first.Adds P (emission.fire timing start stop particle stage) :=
  foldl (fun _ _ h => foldl (fun _ _ h => h.sendOut hbody particle.newborn_child _) h _) h _

theorem launch (h : first.Adds P stage) (hbody : body.Bears P) (setting : Setting ν)
    (parent : Particle ν) (position velocity : Vec3 ν) (gravity : ν) :
    first.Adds P (Burst.launch setting parent body position velocity gravity stage) :=
  h.sendOut hbody (parent.newborn_launch position velocity gravity _) _

variable [Elementary ν] (setting : Setting ν)

theorem burst {b : Burst ν} (h : first.Adds P stage) (hbody : b.body.Bears P)
    (particle : Particle ν) : first.Adds P (b.fire setting particle stage) := by
  cases b with
  | flair count body =>
    have hdrawn : first.Adds P
        ((stage.draw (Rng.between (2 : ν) 4)).2.draw (Rng.unit : StateM Rng ν)).2 := h
    exact foldl (fun _ _ h => h.launch hbody setting _ _ _ _) hdrawn _
  | fireworks count body =>
    refine foldl (fun stage _ h => ?_) h _
    have hdrawn : first.Adds P (stage.draw (Burst.scatter (ν := ν))).2 := h
    exact hdrawn.launch hbody setting _ _ _ _
  | glyphs text offset body =>
    refine foldl (fun stage _ h => ?_) h _
    have hdrawn : first.Adds P (stage.draw (Burst.drift (ν := ν))).2 := h
    exact hdrawn.launch hbody setting _ _ _ _

theorem act {effect : Effect ν} {scene : Scene ν} (h : first.Adds P scene.stage)
    (hbody : ∀ body ∈ effect.body?, body.Bears P) (timing : Timing ν) (progress : Progress ν)
    (start stop : ν) :
    first.Adds P (effect.act setting timing progress start stop scene).2.stage := by
  cases effect with
  | nop | set | add | multiply | translate | rotate | explode => exact h
  | emit emission => exact h.fire (hbody _ rfl) timing start stop scene.particle
  | close =>
    simp only [Effect.act]
    split_ifs <;> exact h
  | burst b =>
    simp only [Effect.act]
    split
    · exact h
    · exact h.burst setting (hbody _ rfl) scene.particle
  | voice cue =>
    simp only [Effect.act]
    split <;> exact h

theorem update {b : Behavior ν} (hb : b.Sends (·.Bears P)) (progress : Progress ν) (start stop : ν)
    (scene : Scene ν) : scene.stage.Adds P (b.update setting progress start stop scene).scene.stage := by
  refine Behavior.Everywhere.keeps (I := fun after => scene.stage.Adds P after.stage) ?_
    progress start stop scene (refl _)
  exact hb.imp fun node hnode timing effect heq => by
    subst heq
    exact fun progress start stop after hafter =>
      hafter.act setting (hnode timing effect rfl) timing progress start stop

end Stage.Adds

section
variable [Arithmetic ν] [Elementary ν] (setting : Setting ν)

theorem Stage.Extends.update (b : Behavior ν) (progress : Progress ν) (start stop : ν)
    (scene : Scene ν) :
    scene.stage.Extends (b.update setting progress start stop scene).scene.stage :=
  Stage.Adds.update (P := fun slot => slot.progress = .fresh) setting
    (.of_forall (fun _ _ _ _ _ => rfl) b) progress start stop scene

theorem Effect.act_lifeTime (effect : Effect ν) (timing : Timing ν) (progress : Progress ν)
    (start stop : ν) (scene : Scene ν) :
    (effect.act setting timing progress start stop scene).2.particle.lifeTime =
      scene.particle.lifeTime := by
  cases effect with
  | nop | translate | rotate | explode | emit => rfl
  | set target | add target | multiply target => cases target <;> rfl
  | close =>
    simp only [Effect.act]
    split_ifs <;> rfl
  | burst | voice =>
    simp only [Effect.act]
    split <;> rfl

theorem Behavior.update_lifeTime (b : Behavior ν) (progress : Progress ν) (start stop : ν)
    (scene : Scene ν) :
    (b.update setting progress start stop scene).scene.particle.lifeTime =
      scene.particle.lifeTime := by
  refine Everywhere.keeps (I := fun after => after.particle.lifeTime = scene.particle.lifeTime)
    (.of_forall (fun node timing effect hnode => ?_) b) progress start stop scene rfl
  subst hnode
  exact fun progress start stop after hafter =>
    (effect.act_lifeTime setting timing progress start stop after).trans hafter

variable (dt : ν) (slot : Slot ν) (stage : Stage ν)

/-- A visit makes a particle older by the length of the tick. -/
theorem Slot.advance_lifeTime : (slot.advance setting dt stage).2.1.particle.lifeTime =
    slot.particle.lifeTime + dt :=
  slot.behavior.update_lifeTime setting slot.progress _ _ _

variable {slot} in
theorem Slot.adds_advance {P : Slot ν → Prop} (hslot : slot.behavior.Sends (·.Bears P)) :
    stage.Adds P (slot.advance setting dt stage).2.2 :=
  Stage.Adds.update setting hslot slot.progress _ _ ⟨_,stage⟩

end
end Fireworks
