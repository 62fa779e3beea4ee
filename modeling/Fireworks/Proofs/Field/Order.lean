import Fireworks.Proofs.Behavior.Drawless
import Fireworks.Proofs.Field

/-! # The order of particles

Removed particles leave gaps, and the last particle closes them, so that the order of a field comes from
what happened before. Particles that draw no random numbers cannot tell: each of them makes the same of
a tick wherever it stands, and two fields that differ in their order go on to differ in nothing else.
-/
namespace Fireworks
variable {ν : Type}

def Field.Drawless (field : Field ν) : Prop := ∀ slot ∈ field.slots, slot.behavior.Drawless

/-- The same tick but for the order of the particles and of the cues. -/
structure Tick.Reorders (tick tick' : Tick ν) : Prop where
  slots : tick.field.slots.toList.Perm tick'.field.slots.toList
  stats : tick.stats = tick'.stats
  cues : tick.cues.toList.Perm tick'.cues.toList

/-- The same listener but for the order in which it heard the cues. -/
inductive Audio.Reorders : Audio → Audio → Prop
  | silent : Reorders .silent .silent
  | recording {log log'} : log.cues.toList.Perm log'.cues.toList →
      Reorders (.recording log) (.recording log')

theorem Audio.Reorders.refl (audio : Audio) : audio.Reorders audio := by
  cases audio with
  | silent => exact .silent
  | recording log => exact .recording (.refl _)

theorem CueLog.toList_foldl_play (cues : Array Cue) (log : CueLog) :
    (cues.foldl play log).cues.toList = log.cues.toList ++ cues.toList := by
  rw [← Array.foldl_toList]
  induction cues.toList generalizing log with
  | nil => exact (List.append_nil _).symm
  | cons cue cues ih =>
    rw [List.foldl_cons,ih,play,Array.toList_push,List.append_assoc,List.singleton_append]

theorem Audio.Reorders.hear {audio audio' : Audio} (h : audio.Reorders audio') {cues cues' : Array Cue}
    (hcues : cues.toList.Perm cues'.toList) : (audio.hear cues).Reorders (audio'.hear cues') := by
  cases h with
  | silent => exact .silent
  | recording hlog =>
    refine .recording ?_
    rw [CueLog.toList_foldl_play,CueLog.toList_foldl_play]
    exact hlog.append hcues

section
variable [Arithmetic ν] [Elementary ν]

def Field.play (setting : Setting ν) : List ν → Rng → Audio → Field ν → List (Tick ν × Audio)
  | [],_,_,_ => []
  | dt :: dts,rng,audio,field =>
    let tick := field.tick setting dt rng
    let audio := audio.hear tick.cues
    (tick,audio) :: play setting dts tick.rng audio tick.field

variable (setting : Setting ν) (dt : ν)

/-- The visit of a particle on an empty stage. -/
def Slot.solo (slot : Slot ν) : Field.Visit ν :=
  let (status,after,stage) := slot.advance setting dt { rng := default }
  ⟨status,after,stage.spawned.toList⟩

def Slot.soloCues (slot : Slot ν) : List Cue := (slot.advance setting dt { rng := default }).2.2.cues.toList

theorem Slot.advance_of_drawless {slot : Slot ν} (h : slot.behavior.Drawless) (stage : Stage ν) :
    slot.advance setting dt stage =
      let (status,after,alone) := slot.advance setting dt { rng := default }
      (status,after,stage.followedBy alone) :=
  calc slot.advance setting dt stage
    _ = slot.advance setting dt (stage.followedBy { rng := default }) := by rw [stage.followedBy_empty]
    _ = _ := Slot.advance_followedBy h rfl rfl dt stage { rng := default }

namespace Field

/-- Particles that draw nothing are visited as if each stood alone. -/
theorem visitAll_of_drawless {slots : List (Slot ν)} (h : ∀ slot ∈ slots, slot.behavior.Drawless)
    (stage : Stage ν) :
    (visitAll setting dt slots stage).1 = slots.map (·.solo setting dt) ∧
      (visitAll setting dt slots stage).2.cues.toList =
        stage.cues.toList ++ slots.flatMap (·.soloCues setting dt) := by
  induction slots generalizing stage with
  | nil => exact ⟨rfl,(List.append_nil _).symm⟩
  | cons slot slots ih =>
    obtain ⟨hslot,hslots⟩ := List.forall_mem_cons.mp h
    have hadvance := slot.advance_of_drawless setting dt hslot stage
    obtain ⟨hvisits,hcues⟩ := ih hslots (slot.advance setting dt stage).2.2
    rw [visitAll_cons]
    constructor
    · rw [List.map_cons,← hvisits,hadvance]
      simp only [Slot.solo,Stage.followedBy,Array.toList_append]
      rw [← Array.length_toList,List.drop_left]
    · rw [List.flatMap_cons,← List.append_assoc]
      refine hcues.trans ?_
      rw [hadvance]
      simp only [Stage.followedBy,Array.toList_append,Slot.soloCues]

theorem lasting_perm {ν : Type} {visits visits' : List (Visit ν)} (h : visits.Perm visits') :
    (lasting visits).Perm (lasting visits') := (h.filter _).map _

end Field

omit [Arithmetic ν] [Elementary ν] in
theorem Tick.Tallies.reorders {tick tick' : Tick ν} {visits visits' : List (Field.Visit ν)}
    {last last' : Stage ν} (h : tick.Tallies visits last) (h' : tick'.Tallies visits' last')
    (hvisits : visits.Perm visits') (hcues : last.cues.toList.Perm last'.cues.toList) :
    tick.Reorders tick' := by
  obtain ⟨kept,hkept,hslots⟩ := h.slots
  obtain ⟨kept',hkept',hslots'⟩ := h'.slots
  have hsent := hvisits.flatMap_right (·.sent)
  have hperm : tick.field.slots.toList.Perm tick'.field.slots.toList := by
    rw [hslots,hslots']
    exact (hkept.trans ((Field.lasting_perm hvisits).trans hkept'.symm)).append hsent
  have hspawned : tick.stats.spawned = tick'.stats.spawned := by
    rw [h.spawned,h'.spawned,hsent.length_eq]
  have hremoved : tick.stats.removed = tick'.stats.removed := by
    rw [h.removed,h'.removed,hvisits.countP_eq]
  have hlive : tick.stats.live = tick'.stats.live := by
    rw [h.live,h'.live]
    exact hperm.length_eq
  refine ⟨hperm,?_,by rwa [h.cues,h'.cues]⟩
  calc tick.stats = ⟨tick.stats.spawned,tick.stats.removed,tick.stats.live⟩ := rfl
    _ = ⟨tick'.stats.spawned,tick'.stats.removed,tick'.stats.live⟩ := by rw [hspawned,hremoved,hlive]

namespace Field
variable {field field' : Field ν}

/-- A tick of particles that draw nothing is the tally of solo visits. -/
theorem Drawless.exists_tallies (h : field.Drawless) {dt : ν} (hdt : 0 < dt) (rng : Rng) :
    ∃ (order : List (Slot ν)) (last : Stage ν), order.Perm field.slots.toList ∧
      (field.tick setting dt rng).Tallies (order.map (·.solo setting dt)) last ∧
      last.cues.toList = order.flatMap (·.soloCues setting dt) := by
  obtain ⟨order,horder,htallies⟩ := Field.exists_tallies setting rng field hdt
  have hall : ∀ slot ∈ order, slot.behavior.Drawless := fun slot hslot =>
    h slot (Array.mem_toList_iff.mp (horder.mem_iff.mp hslot))
  obtain ⟨hvisits,hcues⟩ := visitAll_of_drawless setting dt hall { rng }
  exact ⟨order,_,horder,hvisits ▸ htallies,hcues⟩

theorem tick_reorders (h : field.Drawless) (hperm : field.slots.toList.Perm field'.slots.toList)
    (rng rng' : Rng) : (field.tick setting dt rng).Reorders (field'.tick setting dt rng') := by
  by_cases hdt : 0 < dt
  · have h' : field'.Drawless := fun slot hslot =>
      h slot (Array.mem_toList_iff.mp (hperm.mem_iff.mpr (Array.mem_toList_iff.mpr hslot)))
    obtain ⟨order,last,horder,htallies,hcues⟩ := h.exists_tallies setting hdt rng
    obtain ⟨order',last',horder',htallies',hcues'⟩ := h'.exists_tallies setting hdt rng'
    have horders : order.Perm order' := horder.trans (hperm.trans horder'.symm)
    refine htallies.reorders htallies' (horders.map _) ?_
    rw [hcues,hcues']
    exact horders.flatMap_right _
  · rw [tick_of_not_pos setting rng field hdt,tick_of_not_pos setting rng' field' hdt]
    refine ⟨hperm,?_,.refl _⟩
    exact congrArg (TickStats.mk 0 0) hperm.length_eq

theorem Drawless.tick (h : field.Drawless) (rng : Rng) : (field.tick setting dt rng).field.Drawless :=
  forall_tick setting BehaviorGen.Drawless.lineage h

end Field

/-- For particles that draw no random numbers their order does not matter: two fields with the same
particles in different orders go through the same ticks but for the order of the particles and of the
cues, with any random numbers. -/
theorem Field.play_reorders {field field' : Field ν} (h : field.Drawless)
    (hperm : field.slots.toList.Perm field'.slots.toList) (dts : List ν) (rng rng' : Rng)
    (audio : Audio) :
    List.Forall₂ (fun after after' => after.1.Reorders after'.1 ∧ after.2.Reorders after'.2)
      (field.play setting dts rng audio) (field'.play setting dts rng' audio) := by
  -- The induction goes through listeners that heard the same cues in different orders.
  suffices hlisteners : ∀ audio' : Audio, audio.Reorders audio' →
      List.Forall₂ (fun after after' => after.1.Reorders after'.1 ∧ after.2.Reorders after'.2)
        (field.play setting dts rng audio) (field'.play setting dts rng' audio') from
    hlisteners audio (.refl audio)
  induction dts generalizing field field' rng rng' audio with
  | nil => exact fun _ _ => .nil
  | cons dt dts ih =>
    intro audio' haudio
    have htick := tick_reorders setting dt h hperm rng rng'
    have hheard := haudio.hear htick.cues
    exact .cons ⟨htick,hheard⟩ (ih (h.tick setting dt rng) htick.slots _ _ _ _ hheard)

end

namespace Plain

/-- A crackle that lasts, a bloom that is over, and three sparks of rising speed. -/
def sparks : Field Extended where
  slots := #[{ particle := scene.particle, behavior := .leaf { lifespan := 4 } (.voice .crackle) },
    { particle := scene.particle, behavior := .leaf { lifespan := 0 } (.voice .bloom) },
    { particle := scene.particle, behavior := .leaf { lifespan := 2 } <|
      .emit { count := 3, times := 1, parallel := 3, body :=
        .property .set .speed (.range .each (.const 0) (.const 1)) } }]

def sparksReversed : Field Extended := ⟨sparks.slots.toList.reverse.toArray⟩

theorem drawless_sparks : sparks.Drawless := by
  have hbody : (BehaviorGen.property .set .speed
      (.range .each (.const 0) (.const 1)) : BehaviorGen Extended).Drawless :=
    .property _ _ (.range (.const _) (.const _))
  have hall : ∀ slot ∈ sparks.slots.toList, slot.behavior.Drawless :=
    List.forall_mem_cons.mpr ⟨.leaf trivial _,List.forall_mem_cons.mpr
      ⟨.leaf trivial _,List.forall_mem_singleton.mpr (.leaf hbody _)⟩⟩
  exact fun slot hslot => hall slot (Array.mem_toList_iff.mpr hslot)

theorem sparks_play_reorders :
    sparks.Drawless ∧ sparks.slots.toList.Perm sparksReversed.slots.toList ∧
      List.Forall₂ (fun after after' => after.1.Reorders after'.1 ∧ after.2.Reorders after'.2)
        (sparks.play (setting 3) [1,1,2] default (.recording {}))
        (sparksReversed.play (setting 3) [1,1,2] default (.recording {})) :=
  have hperm : sparks.slots.toList.Perm sparksReversed.slots.toList :=
    (List.reverse_perm sparks.slots.toList).symm
  ⟨drawless_sparks,hperm,Field.play_reorders (setting 3) drawless_sparks hperm [1,1,2] default default
    (.recording {})⟩

end Plain
end Fireworks
