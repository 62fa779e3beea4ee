import Fireworks.Proofs.Behavior.Sending
import Fireworks.Proofs.ExactTime
import Fireworks.Proofs.Plain
import Fireworks.Simulator

/-! # A tick visits every particle once

A sweep removes particles while it walks through them, and each gap is closed by the last particle.
Whatever ends, and whatever is sent out meanwhile, it comes down to visits of all particles one after
the other in some order, and to a tally of those visits.
-/
namespace Fireworks
variable {ν : Type}

namespace Field

section
variable {α : Type} (xs : Array α) {i : ℕ} (h : i < xs.size)

theorem push_pop_swap :
    (xs.swap i (xs.size - 1) h (by omega)).pop.push xs[i] =
      xs.swap i (xs.size - 1) h (by omega) := by
  apply Array.ext
  · simp only [Array.size_push,Array.size_pop,Array.size_swap]
    omega
  · intro j hj hj'
    grind

theorem take_pop_swap :
    (xs.swap i (xs.size - 1) h (by omega)).pop.toList.take i = xs.toList.take i := by
  apply List.ext_getElem
  · simp only [List.length_take,Array.length_toList,Array.size_pop,Array.size_swap]
    omega
  · intro j hj hj'
    simp only [List.length_take] at hj hj'
    grind

/-- The last element closes the gap of a removed one. -/
theorem drop_pop_swap_perm :
    (xs[i] :: (xs.swap i (xs.size - 1) h (by omega)).pop.toList.drop i).Perm (xs.toList.drop i) := by
  have hperm := (Array.swap_perm h (show xs.size - 1 < xs.size by omega)).toList
  rw [← push_pop_swap xs h,Array.toList_push,← List.take_append_drop i (Array.toList _),
    take_pop_swap xs h,List.append_assoc] at hperm
  refine (List.perm_append_singleton _ _).symm.trans
    ((List.perm_append_left_iff (xs.toList.take i)).mp ?_)
  rwa [List.take_append_drop i xs.toList]

end

/-- What the visit of a particle makes: whether it is over, what becomes of it, and what it sends
out. -/
structure Visit (ν : Type) where
  status : Status ν
  slot : Slot ν
  sent : List (Slot ν)

variable [Arithmetic ν] [Elementary ν] (setting : Setting ν) (dt : ν)

/-- The visit of a particle is one call of its behavior, over the time `dt` that follows the age of
the particle, and then a drift along its own z axis. -/
def visit (slot : Slot ν) (stage : Stage ν) : Visit ν × Stage ν :=
  let age := slot.particle.lifeTime + dt
  let outcome := slot.behavior.update setting slot.progress slot.particle.lifeTime age
    ⟨{ slot.particle with lifeTime := age },stage⟩
  let particle := outcome.scene.particle
  let after := { slot with
    particle := particle.translate ⟨0,0,particle.speed * dt⟩, progress := outcome.progress }
  let sent := outcome.scene.stage.spawned.toList.drop stage.spawned.size
  (⟨outcome.status,after,sent⟩,outcome.scene.stage)

def visitAll : List (Slot ν) → Stage ν → List (Visit ν) × Stage ν
  | [],stage => ([],stage)
  | slot :: slots,stage =>
    let (v,next) := visit setting dt slot stage
    let (visits,last) := visitAll slots next
    (v :: visits,last)

/-- A visit is how a sweep lets time pass for a particle. -/
theorem visitAll_cons (slot : Slot ν) (slots : List (Slot ν)) (stage : Stage ν) :
    visitAll setting dt (slot :: slots) stage =
      let (status,after,next) := slot.advance setting dt stage
      let (visits,last) := visitAll setting dt slots next
      (⟨status,after,next.spawned.toList.drop stage.spawned.size⟩ :: visits,last) := rfl

def lasting (visits : List (Visit ν)) : List (Slot ν) :=
  (visits.filter fun v => !v.status.isDone).map (·.slot)

omit [Arithmetic ν] [Elementary ν] in
@[simp] theorem lasting_cons (v : Visit ν) (visits : List (Visit ν)) :
    lasting (v :: visits) = if v.status.isDone then lasting visits else v.slot :: lasting visits := by
  cases h : v.status.isDone <;> simp [lasting,h]

theorem extends_advance (slot : Slot ν) (stage : Stage ν) :
    stage.Extends (slot.advance setting dt stage).2.2 :=
  Stage.Extends.update setting slot.behavior slot.progress _ _ ⟨_,stage⟩

theorem spawned_visitAll (slots : List (Slot ν)) (stage : Stage ν) :
    (visitAll setting dt slots stage).2.spawned.toList =
        stage.spawned.toList ++ (visitAll setting dt slots stage).1.flatMap (·.sent) ∧
      ∀ v ∈ (visitAll setting dt slots stage).1, ∀ slot ∈ v.sent, slot.progress = .fresh := by
  induction slots generalizing stage with
  | nil => exact ⟨(List.append_nil _).symm,nofun⟩
  | cons slot slots ih =>
    obtain ⟨sent,hsent,hfresh⟩ := extends_advance setting dt slot stage
    obtain ⟨hspawned,hall⟩ := ih (slot.advance setting dt stage).2.2
    have hdrop : (slot.advance setting dt stage).2.2.spawned.toList.drop stage.spawned.size = sent := by
      rw [hsent,← Array.length_toList,List.drop_left]
    rw [visitAll_cons]
    refine ⟨?_,List.forall_mem_cons.mpr ⟨by rwa [hdrop],hall⟩⟩
    rw [hspawned,List.flatMap_cons,hdrop,hsent,List.append_assoc]

/-- From any slot on, a sweep visits all slots there once in some order. Those that last stay behind
the slots before, and the others are counted. -/
theorem exists_order_sweep (slots : Array (Slot ν)) (i removed : ℕ) (stage : Stage ν) :
    ∃ order : List (Slot ν), order.Perm (slots.toList.drop i) ∧
      (sweep setting dt slots i removed stage).1.toList.Perm
        (slots.toList.take i ++ lasting (visitAll setting dt order stage).1) ∧
      (sweep setting dt slots i removed stage).2.1 =
        removed + (visitAll setting dt order stage).1.countP (·.status.isDone) ∧
      (sweep setting dt slots i removed stage).2.2 = (visitAll setting dt order stage).2 := by
  -- The slots before number `i` have been visited; the order is found from the last visit on.
  fun_induction sweep setting dt slots i removed stage with
  | case1 slots i removed stage h slot next hadvance ih =>
    obtain ⟨order,horder,hkept,hremoved,hstage⟩ := ih
    have hi : i < slots.toList.length := h
    rw [Array.toList_set,List.drop_set_of_lt (Nat.lt_succ_self i)] at horder
    rw [Array.toList_set,List.take_succ_eq_append_getElem (by simpa using hi),List.getElem_set_self,
      List.take_set_of_le (Nat.le_refl i),List.append_assoc] at hkept
    refine ⟨slots[i] :: order,?_,?_,?_,?_⟩
    · rw [List.drop_eq_getElem_cons hi]
      exact horder.cons _
    · simpa [visitAll_cons,hadvance,Status.isDone] using hkept
    · simpa [visitAll_cons,hadvance,Status.isDone] using hremoved
    · simpa [visitAll_cons,hadvance] using hstage
  | case2 slots i removed stage h leftover slot next hadvance ih =>
    obtain ⟨order,horder,hkept,hremoved,hstage⟩ := ih
    rw [take_pop_swap slots h] at hkept
    refine ⟨slots[i] :: order,?_,?_,?_,?_⟩
    · exact (horder.cons _).trans (drop_pop_swap_perm slots h)
    · simpa [visitAll_cons,hadvance,Status.isDone] using hkept
    · simpa [visitAll_cons,hadvance,Status.isDone,Nat.add_assoc,Nat.add_comm 1] using hremoved
    · simpa [visitAll_cons,hadvance] using hstage
  | case3 slots i removed stage h =>
    have hi : slots.toList.length ≤ i := Nat.le_of_not_lt h
    refine ⟨[],?_,?_,rfl,rfl⟩
    · rw [List.drop_of_length_le hi]
    · rw [List.take_of_length_le hi]
      exact .of_eq (List.append_nil _).symm

theorem length_visitAll (slots : List (Slot ν)) (stage : Stage ν) :
    (visitAll setting dt slots stage).1.length = slots.length := by
  induction slots generalizing stage with
  | nil => rfl
  | cons slot slots ih => exact congrArg (· + 1) (ih _)

/-- Each visit is that of one of the particles, on the stage that it found. -/
theorem mem_visitAll {slots : List (Slot ν)} {stage : Stage ν} {v : Visit ν}
    (hv : v ∈ (visitAll setting dt slots stage).1) :
    ∃ slot ∈ slots, ∃ before, v.status = (slot.advance setting dt before).1 ∧
      v.slot = (slot.advance setting dt before).2.1 ∧
      v.sent = (slot.advance setting dt before).2.2.spawned.toList.drop before.spawned.size := by
  induction slots generalizing stage with
  | nil => cases hv
  | cons slot slots ih =>
    rw [visitAll_cons] at hv
    rcases List.mem_cons.mp hv with rfl | hv
    · exact ⟨slot,List.mem_cons_self,stage,rfl,rfl,rfl⟩
    · obtain ⟨other,hother,hvisit⟩ := ih hv
      exact ⟨other,List.mem_cons_of_mem _ hother,hvisit⟩

omit [Arithmetic ν] [Elementary ν] in
theorem length_lasting (visits : List (Visit ν)) :
    (lasting visits).length + visits.countP (·.status.isDone) = visits.length := by
  induction visits with
  | nil => rfl
  | cons v visits ih =>
    rw [lasting_cons,List.countP_cons,List.length_cons,← ih]
    cases v.status.isDone <;> simp <;> omega

end Field

/-- A tick that is the tally of these visits, after which the stage is left like this. -/
structure Tick.Tallies (tick : Tick ν) (visits : List (Field.Visit ν)) (last : Stage ν) : Prop where
  /-- The particles that last stay in some order, and behind them stand those sent out, in order. -/
  slots : ∃ kept : List (Slot ν), kept.Perm (Field.lasting visits) ∧
    tick.field.slots.toList = kept ++ visits.flatMap (·.sent)
  untouched : ∀ v ∈ visits, ∀ slot ∈ v.sent, slot.progress = .fresh
  removed : tick.stats.removed = visits.countP (·.status.isDone)
  spawned : tick.stats.spawned = (visits.flatMap (·.sent)).length
  live : tick.stats.live = tick.field.size
  rng : tick.rng = last.rng
  cues : tick.cues = last.cues

theorem Tick.Tallies.size_eq {tick : Tick ν} {visits : List (Field.Visit ν)} {last : Stage ν}
    (h : tick.Tallies visits last) :
    tick.stats.removed ≤ visits.length ∧
      tick.field.size = visits.length - tick.stats.removed + tick.stats.spawned := by
  obtain ⟨kept,hkept,hslots⟩ := h.slots
  have hlength := Field.length_lasting visits
  have hsize : tick.field.size = kept.length + tick.stats.spawned := by
    rw [Field.size,← Array.length_toList,hslots,List.length_append,h.spawned]
  rw [hsize,hkept.length_eq,h.removed]
  omega

namespace Field
variable [Arithmetic ν] [Elementary ν] (setting : Setting ν) {dt : ν} (rng : Rng) (field : Field ν)

theorem exists_tallies (hdt : 0 < dt) : ∃ order : List (Slot ν), order.Perm field.slots.toList ∧
    (field.tick setting dt rng).Tallies (visitAll setting dt order { rng }).1
      (visitAll setting dt order { rng }).2 := by
  obtain ⟨order,horder,hkept,hremoved,hstage⟩ := exists_order_sweep setting dt field.slots 0 0 { rng }
  obtain ⟨hspawned,hfresh⟩ := spawned_visitAll setting dt order { rng }
  rw [List.drop_zero] at horder
  rw [List.take_zero,List.nil_append] at hkept
  rw [Nat.zero_add] at hremoved
  rw [← hstage] at hspawned
  refine ⟨order,horder,⟨_,hkept,?_⟩,hfresh,?_,?_,?_,?_,?_⟩
  · simp only [tick,hdt,↓reduceIte,Array.toList_append,hspawned]
    rfl
  · simpa only [tick,hdt,↓reduceIte] using hremoved
  · simp only [tick,hdt,↓reduceIte,← Array.length_toList,hspawned]
    rfl
  · simp only [tick,hdt,↓reduceIte,size]
  · simp only [tick,hdt,↓reduceIte,hstage]
  · simp only [tick,hdt,↓reduceIte,hstage]

theorem tick_of_not_pos (hdt : ¬ 0 < dt) :
    field.tick setting dt rng = { field, stats := { live := field.size }, rng } := if_neg hdt

variable {rng field}

/-- Each particle after a tick is one from before it that goes on, or was sent out by one. -/
theorem mem_tick (hdt : 0 < dt) {next : Slot ν} (hnext : next ∈ (field.tick setting dt rng).field.slots) :
    ∃ slot ∈ field.slots, ∃ before, ((slot.advance setting dt before).1 = .running ∧
        next = (slot.advance setting dt before).2.1) ∨
      next ∈ (slot.advance setting dt before).2.2.spawned.toList.drop before.spawned.size := by
  obtain ⟨order,horder,htallies⟩ := exists_tallies setting rng field hdt
  obtain ⟨kept,hkept,hslots⟩ := htallies.slots
  have hmem : ∀ {slot}, slot ∈ order → slot ∈ field.slots := fun hslot =>
    Array.mem_toList_iff.mp (horder.mem_iff.mp hslot)
  rw [← Array.mem_toList_iff,hslots,List.mem_append,hkept.mem_iff] at hnext
  rcases hnext with hnext | hnext
  · obtain ⟨v,hv,rfl⟩ := List.mem_map.mp hnext
    obtain ⟨hv,hgoes⟩ := List.mem_filter.mp hv
    obtain ⟨slot,hslot,before,hstatus,hafter,-⟩ := mem_visitAll setting dt hv
    rw [hstatus] at hgoes
    exact ⟨slot,hmem hslot,before,.inl ⟨Status.isDone_eq_false.mp (by simpa using hgoes),hafter⟩⟩
  · obtain ⟨v,hv,hnext⟩ := List.mem_flatMap.mp hnext
    obtain ⟨slot,hslot,before,-,-,hsent⟩ := mem_visitAll setting dt hv
    exact ⟨slot,hmem hslot,before,.inr (hsent ▸ hnext)⟩

/-- What behaviors hand on to all that they send out stays true of the whole field. -/
theorem forall_tick {G : BehaviorGen ν → Prop} {B : Behavior ν → Prop} (hline : Lineage G B)
    (h : ∀ slot ∈ field.slots, B slot.behavior) :
    ∀ slot ∈ (field.tick setting dt rng).field.slots, B slot.behavior := by
  intro next hnext
  by_cases hdt : 0 < dt
  · obtain ⟨slot,hslot,before,⟨-,rfl⟩ | hsent⟩ := mem_tick setting hdt hnext
    · exact h slot hslot
    · obtain ⟨sent,heq,hall⟩ := Slot.adds_advance setting dt before (hline.bears (h slot hslot))
      rw [heq,← Array.length_toList,List.drop_left] at hsent
      exact hall next hsent
  · rw [tick_of_not_pos setting rng field hdt] at hnext
    exact h next hnext

variable (rng field)

/-- A tick loses no particle and makes none up. -/
theorem size_tick (dt : ν) :
    (field.tick setting dt rng).stats.removed ≤ field.size ∧
      (field.tick setting dt rng).field.size = field.size -
        (field.tick setting dt rng).stats.removed + (field.tick setting dt rng).stats.spawned ∧
      (field.tick setting dt rng).stats.live = (field.tick setting dt rng).field.size := by
  by_cases hdt : 0 < dt
  · obtain ⟨order,horder,htallies⟩ := exists_tallies setting rng field hdt
    obtain ⟨hremoved,hsize⟩ := htallies.size_eq
    rw [length_visitAll,horder.length_eq,Array.length_toList] at hremoved hsize
    exact ⟨hremoved,hsize,htallies.live⟩
  · rw [tick_of_not_pos setting rng field hdt]
    exact ⟨Nat.zero_le _,rfl,rfl⟩

end Field

namespace Simulator
variable [Arithmetic ν] [Elementary ν]

theorem size_update (sim : Simulator ν) (delta : ν) :
    (sim.update delta).2.size + (sim.update delta).1.removed =
      sim.size + (sim.update delta).1.spawned := by
  obtain ⟨hremoved,hsize,-⟩ := sim.field.size_tick sim.setting sim.rng delta
  change (sim.field.tick sim.setting delta sim.rng).field.size +
      (sim.field.tick sim.setting delta sim.rng).stats.removed = sim.field.size +
        (sim.field.tick sim.setting delta sim.rng).stats.spawned
  omega

theorem live_update (sim : Simulator ν) (delta : ν) :
    (sim.update delta).1.live = (sim.update delta).2.size :=
  (sim.field.size_tick sim.setting sim.rng delta).2.2

theorem size_runTicks (count : ℕ) (total : TickStats) (sim : Simulator ν)
    (hlive : total.live = sim.size) :
    (runTicks count total sim).2.size + (runTicks count total sim).1.removed + total.spawned =
        sim.size + (runTicks count total sim).1.spawned + total.removed ∧
      (runTicks count total sim).1.live = (runTicks count total sim).2.size := by
  induction count generalizing total sim with
  | zero => exact ⟨by simp only [runTicks]; omega,hlive⟩
  | succ count ih =>
    have hsize := sim.size_update sim.config.step
    obtain ⟨hsizes,hlives⟩ := ih ⟨total.spawned + (sim.update sim.config.step).1.spawned,
      total.removed + (sim.update sim.config.step).1.removed,(sim.update sim.config.step).1.live⟩
      (sim.update sim.config.step).2 (sim.live_update sim.config.step)
    refine ⟨?_,hlives⟩
    simp only [runTicks] at hsizes ⊢
    omega

theorem size_runSteps (sim : Simulator ν) :
    sim.runSteps.2.size + sim.runSteps.1.removed = sim.size + sim.runSteps.1.spawned ∧
      sim.runSteps.1.live = sim.runSteps.2.size :=
  size_runTicks sim.config.stepsPerUpdate { live := sim.size } sim rfl

end Simulator

/-- A tick of positive length visits every particle of the field once and no other: those that last
stay, those that are over are counted and go, and those sent out come in behind. A tick of any other
length does nothing. So over any number of ticks the field grows by the particles sent out and
shrinks by those removed. -/
theorem Field.tick_accounts [Arithmetic ν] [Elementary ν] (setting : Setting ν) (dt : ν) (rng : Rng)
    (field : Field ν) :
    (0 < dt → ∃ order : List (Slot ν), order.Perm field.slots.toList ∧
      (field.tick setting dt rng).Tallies (visitAll setting dt order { rng }).1
        (visitAll setting dt order { rng }).2) ∧
      (¬ 0 < dt → field.tick setting dt rng = { field, stats := { live := field.size }, rng }) ∧
      ((field.tick setting dt rng).stats.removed ≤ field.size ∧
        (field.tick setting dt rng).field.size = field.size -
          (field.tick setting dt rng).stats.removed + (field.tick setting dt rng).stats.spawned ∧
        (field.tick setting dt rng).stats.live = (field.tick setting dt rng).field.size) ∧
      ∀ sim : Simulator ν,
        sim.runSteps.2.size + sim.runSteps.1.removed = sim.size + sim.runSteps.1.spawned ∧
          sim.runSteps.1.live = sim.runSteps.2.size :=
  ⟨exists_tallies setting rng field,tick_of_not_pos setting rng field,
    size_tick setting rng field dt,Simulator.size_runSteps⟩

namespace Plain

/-- A particle that is over at once, and one that sends out a child first. -/
def couple : Field Extended where
  slots := #[{ particle := scene.particle, behavior := .nop },
    { particle := scene.particle, behavior := .leaf { lifespan := 2 } <|
      .emit { count := 1, times := 2, parallel := 1, body := .action .nop } }]

theorem couple_tick_accounts :
    (0 : Extended) < 1 ∧ (∃ order : List (Slot Extended), order.Perm couple.slots.toList ∧
      (couple.tick (setting 3) 1 default).Tallies
        (Field.visitAll (setting 3) 1 order { rng := default }).1
        (Field.visitAll (setting 3) 1 order { rng := default }).2) ∧
      ¬ (0 : Extended) < .undefined ∧ couple.tick (setting 3) .undefined default =
        { field := couple, stats := { live := couple.size }, rng := default } :=
  have hpos : (0 : Extended) < 1 := by decide +kernel
  have hundefined : ¬ (0 : Extended) < .undefined := by decide +kernel
  ⟨hpos,(Field.tick_accounts (setting 3) 1 default couple).1 hpos,hundefined,
    (Field.tick_accounts (setting 3) .undefined default couple).2.1 hundefined⟩

example : (couple.tick (setting 3) 1 default).stats = { spawned := 1, removed := 1, live := 2 } := by
  decide +kernel

end Plain
end Fireworks
