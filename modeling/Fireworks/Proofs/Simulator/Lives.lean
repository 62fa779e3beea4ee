import Fireworks.Proofs.Behavior.Runs
import Fireworks.Proofs.Field
import Fireworks.Proofs.Simulator.Operations

/-! # The lives of particles

A field keeps no history. Here each particle carries along the calls that its behavior has had, and
the time at which it joined; the field itself goes through the same states. In every life the windows
follow on from zero, and the time that a particle has behind it is the time since it joined.
-/
namespace Fireworks
open Extended

/-- A particle with all calls of its behavior. -/
structure Life (ν : Type) where
  slot : Slot ν
  /-- The time of the simulator when the particle joined. -/
  joined : ν
  calls : List (Call ν) := []

/-- A simulator with the lives of all particles that ever joined. -/
structure Chronicle (ν : Type) where
  sim : Simulator ν
  live : Array (Life ν) := #[]
  /-- The lives of the particles that the field removed. -/
  ended : List (Life ν) := []
  /-- The lives that were broken off with the whole field. -/
  cleared : List (Life ν) := []

section
variable {ν : Type} [Arithmetic ν] [Elementary ν] (setting : Setting ν) (dt : ν)

def Slot.call (slot : Slot ν) (stage : Stage ν) : Call ν :=
  let start := slot.particle.lifeTime
  let stop := start + dt
  slot.behavior.trace setting slot.progress start stop
    ⟨{ slot.particle with lifeTime := stop },stage⟩

theorem Slot.call_status (slot : Slot ν) (stage : Stage ν) :
    (slot.call setting dt stage).status = (slot.advance setting dt stage).1 :=
  Behavior.trace_status _ _ _ _ _ _

def Life.advance (life : Life ν) (stage : Stage ν) : Life ν :=
  { life with
    slot := (life.slot.advance setting dt stage).2.1
    calls := life.calls ++ [life.slot.call setting dt stage] }

/-- A sweep of the field that writes down all visits and puts by the lives that end. -/
def sweepLives (lives : Array (Life ν)) (i : ℕ) (ended : List (Life ν)) (stage : Stage ν) :
    Array (Life ν) × List (Life ν) :=
  if h : i < lives.size then
    let life := lives[i].advance setting dt stage
    match lives[i].slot.advance setting dt stage with
    | (.done _,_,stage) =>
      sweepLives (lives.swap i (lives.size - 1)).pop i (life :: ended) stage
    | (.running,_,stage) => sweepLives (lives.set i life) (i + 1) ended stage
  else (lives,ended)
termination_by lives.size - i
decreasing_by all_goals (simp; omega)

theorem sweepLives_slots (lives : Array (Life ν)) (i removed : ℕ) (ended : List (Life ν))
    (stage : Stage ν) : (sweepLives setting dt lives i ended stage).1.map (·.slot) =
      (Field.sweep setting dt (lives.map (·.slot)) i removed stage).1 := by
  fun_induction sweepLives setting dt lives i ended stage generalizing removed with
  | case1 lives i ended stage h life leftover slot next hadvance ih =>
    rw [Field.sweep]
    simp only [Array.size_map,h,↓reduceDIte,Array.getElem_map,hadvance]
    rw [ih (removed + 1)]
    simp only [Array.map_pop,Array.swap_def,Array.map_set,Array.getElem_map]
  | case2 lives i ended stage h life slot next hadvance ih =>
    have hslot : life.slot = slot := by simp only [life,Life.advance,hadvance]
    rw [Field.sweep]
    simp only [Array.size_map,h,↓reduceDIte,Array.getElem_map,hadvance]
    rw [ih removed,Array.map_set,hslot]
  | case3 lives i ended stage h =>
    rw [Field.sweep,dif_neg (by simpa using h)]

/-- What visits make of lives: where a visit takes a life to `Q` if it goes on, and to `R` if not, a
sweep takes all lives that it has yet to visit there. -/
theorem sweepLives_keeps {P Q R : Life ν → Prop}
    (hgoes : ∀ life stage, P life → (life.slot.advance setting dt stage).1 = .running →
      Q (life.advance setting dt stage))
    (hends : ∀ life stage, P life → (life.slot.advance setting dt stage).1.isDone →
      R (life.advance setting dt stage))
    (lives : Array (Life ν)) (i : ℕ) (ended : List (Life ν)) (stage : Stage ν)
    (hvisited : ∀ life ∈ lives.toList.take i, Q life) (hrest : ∀ life ∈ lives.toList.drop i, P life)
    (hended : ∀ life ∈ ended, R life) :
    (∀ life ∈ (sweepLives setting dt lives i ended stage).1, Q life) ∧
      ∀ life ∈ (sweepLives setting dt lives i ended stage).2, R life := by
  fun_induction sweepLives setting dt lives i ended stage with
  | case1 lives i ended stage h life leftover slot next hadvance ih =>
    have hi : i < lives.toList.length := h
    have hlife : P lives[i] := hrest _ (by rw [List.drop_eq_getElem_cons hi]; exact List.mem_cons_self)
    refine ih ?_ ?_ ?_
    · rwa [Field.take_pop_swap lives h]
    · exact fun life hmem => hrest life
        ((Field.drop_pop_swap_perm lives h).mem_iff.mp (List.mem_cons_of_mem _ hmem))
    · exact List.forall_mem_cons.mpr ⟨hends _ stage hlife (by rw [hadvance]; rfl),hended⟩
  | case2 lives i ended stage h life slot next hadvance ih =>
    have hi : i < lives.toList.length := h
    have hlife : P lives[i] := hrest _ (by rw [List.drop_eq_getElem_cons hi]; exact List.mem_cons_self)
    refine ih ?_ ?_ hended
    · rw [Array.toList_set,List.take_succ_eq_append_getElem (by simpa using hi),
        List.getElem_set_self,List.take_set_of_le (Nat.le_refl i)]
      exact List.forall_mem_append.mpr ⟨hvisited,List.forall_mem_singleton.mpr
        (hgoes _ stage hlife (by rw [hadvance]))⟩
    · rw [Array.toList_set,List.drop_set_of_lt (Nat.lt_succ_self i)]
      rw [List.drop_eq_getElem_cons hi] at hrest
      exact (List.forall_mem_cons.mp hrest).2
  | case3 lives i ended stage h =>
    rw [List.take_of_length_le (Nat.le_of_not_lt h)] at hvisited
    exact ⟨fun life hmem => hvisited life (Array.mem_toList_iff.mpr hmem),hended⟩

/-- After a tick of positive length stand the particles that the sweep left, and those sent out. -/
theorem Field.tick_slots (rng : Rng) (field : Field ν) (hdt : 0 < dt) :
    (field.tick setting dt rng).field.slots = (sweep setting dt field.slots 0 0 { rng }).1 ++
      (sweep setting dt field.slots 0 0 { rng }).2.2.spawned := by
  simp only [tick,hdt,↓reduceIte]

theorem Field.adds_sweep {P : Slot ν → Prop} (hP : ∀ body : BehaviorGen ν, body.Bears P)
    (slots : Array (Slot ν)) (i removed : ℕ) (stage : Stage ν) :
    stage.Adds P (sweep setting dt slots i removed stage).2.2 := by
  fun_induction sweep setting dt slots i removed stage with
  | case1 slots i removed stage h slot next hadvance ih =>
    have hadds := Slot.adds_advance setting dt stage (Behavior.Sends.of_forall hP slots[i].behavior)
    rw [hadvance] at hadds
    exact hadds.trans ih
  | case2 slots i removed stage h leftover slot next hadvance ih =>
    have hadds := Slot.adds_advance setting dt stage (Behavior.Sends.of_forall hP slots[i].behavior)
    rw [hadvance] at hadds
    exact hadds.trans ih
  | case3 slots i removed stage h => exact .refl stage

end

/-- A particle that was never called and has no time behind it. -/
def Slot.IsNew {ν : Type} [Arithmetic ν] (slot : Slot ν) : Prop :=
  slot.progress = .fresh ∧ slot.particle.lifeTime = 0

namespace Chronicle
variable {ν : Type}

/-- Begins a life for each particle of the field beyond the ones known. -/
def join (h : Chronicle ν) : Chronicle ν :=
  { h with live := h.live ++ (h.sim.field.slots.extract h.live.size).map fun slot =>
      { slot, joined := h.sim.elapsed } }

variable [Arithmetic ν] [Elementary ν]

def tick (dt : ν) (h : Chronicle ν) : Chronicle ν :=
  if 0 < dt then
    let (live,ended) := sweepLives h.sim.setting dt h.live 0 h.ended { rng := h.sim.rng }
    join { h with sim := h.sim.pass dt, live, ended }
  else { h with sim := h.sim.pass dt }

/-- An operation, with what it means to all lives. -/
def perform (h : Chronicle ν) : Operation ν → Chronicle ν
  | .compile program => { h with sim := h.sim.perform (.compile program) }
  | .choose program => { h with sim := h.sim.perform (.choose program) }
  | .emit position => join { h with sim := (h.sim.emitRoot position).2 }
  | .update dt => h.tick dt
  | .steps => (tick h.sim.config.step)^[h.sim.config.stepsPerUpdate] h
  | .clear => { h with sim := h.sim.clear, live := #[], cleared := h.live.toList ++ h.cleared }

/-- The lives of all particles while a simulator is driven. -/
def play (sim : Simulator ν) (ops : List (Operation ν)) : Chronicle ν := ops.foldl perform { sim }

theorem tick_sim (dt : ν) (h : Chronicle ν) : (h.tick dt).sim = h.sim.pass dt := by
  rw [tick]
  split <;> rfl

theorem iterate_tick_sim (dt : ν) (count : ℕ) (h : Chronicle ν) :
    ((tick dt)^[count] h).sim = (Simulator.pass dt)^[count] h.sim := by
  induction count generalizing h with
  | zero => rfl
  | succ count ih => exact (ih _).trans (congrArg _ (tick_sim dt h))

theorem perform_sim (h : Chronicle ν) (op : Operation ν) :
    (h.perform op).sim = h.sim.perform op := by
  cases op with
  | compile | choose | emit | clear => rfl
  | update dt => exact tick_sim dt h
  | steps => exact (iterate_tick_sim _ _ h).trans h.sim.runSteps_snd.symm

/-- The lives are those of the particles that the simulator really has. -/
theorem play_sim (sim : Simulator ν) (ops : List (Operation ν)) :
    (play sim ops).sim = ops.foldl Simulator.perform sim := by
  suffices ∀ h : Chronicle ν, (ops.foldl perform h).sim = ops.foldl Simulator.perform h.sim from
    this { sim }
  induction ops with
  | nil => exact fun _ => rfl
  | cons op ops ih => exact fun h => (ih _).trans (congrArg (ops.foldl Simulator.perform) (h.perform_sim op))

end Chronicle

section
variable [Elementary Extended] (setting : Setting Extended)

/-- Windows that follow on from zero, and none of which ended the life. -/
def Life.Unbroken (life : Life Extended) : Prop :=
  Run setting life.slot.behavior .fresh 0 life.calls ∧ ∀ c ∈ life.calls, c.status = .running

/-- Windows that follow on from zero, and the last of which, and no other, ended the life. -/
def Life.Ended (life : Life Extended) : Prop :=
  Run setting life.slot.behavior .fresh 0 life.calls ∧ ∃ before last,
    life.calls = before ++ [last] ∧ (∀ c ∈ before, c.status = .running) ∧ last.status.isDone

/-- What is known of a life that goes on at a time. -/
structure Life.Ongoing (elapsed : ℚ) (life : Life Extended) : Prop where
  thread : Thread setting life.slot.behavior .fresh life.calls life.slot.progress
  running : ∀ c ∈ life.calls, c.status = .running
  orderly : Call.Orderly 0 life.calls
  after : Call.after 0 life.calls = life.slot.particle.lifeTime
  /-- The time behind it is the time since it joined. -/
  age : ∃ joined : ℚ, life.joined = finite joined ∧
    life.slot.particle.lifeTime = finite (elapsed - joined)

end

section
variable [Elementary Extended] {setting : Setting Extended}

/-- Windows that follow on are a run as long as only the last may end it. -/
theorem Thread.run_of_orderly {b : Behavior Extended} {p p' : Progress Extended}
    {calls : List (Call Extended)} (h : Thread setting b p calls p') {start : ℚ}
    (horderly : Call.Orderly (finite start) calls)
    (hrunning : ∀ c ∈ calls.dropLast, c.status = .running) : Run setting b p start calls := by
  induction h generalizing start with
  | nil => exact .nil _ _
  | @cons p calls p' s stop scene hlt h ih =>
    obtain ⟨hstart,horderly⟩ := horderly
    obtain rfl : s = start := by simpa using hstart
    refine .cons scene hlt ?_
    cases calls with
    | nil => exact .nil _ _
    | cons c calls =>
      rw [List.dropLast_cons_of_ne_nil (List.cons_ne_nil _ _)] at hrunning
      obtain ⟨hfirst,hrest⟩ := List.forall_mem_cons.mp hrunning
      rw [Call.next_of_running hfirst,Behavior.trace_stop] at horderly
      exact ih horderly hrest

namespace Life.Ongoing
variable {life : Life Extended} {elapsed : ℚ}

theorem of_isNew {slot : Slot Extended} (h : slot.IsNew) :
    Life.Ongoing setting elapsed { slot, joined := finite elapsed } where
  thread := by
    rw [h.1]
    exact .nil _
  running := nofun
  orderly := trivial
  after := h.2.symm
  age := ⟨elapsed,rfl,by rw [h.2,sub_self]; rfl⟩

theorem unbroken (h : life.Ongoing setting elapsed) : life.Unbroken setting :=
  ⟨h.thread.run_of_orderly h.orderly fun c hc => h.running c (List.dropLast_subset _ hc),h.running⟩

variable {dt : ℚ} (stage : Stage Extended)

theorem thread_advance (h : life.Ongoing setting elapsed) (hdt : 0 < dt) :
    Thread setting life.slot.behavior .fresh (life.advance setting (finite dt) stage).calls
        (life.advance setting (finite dt) stage).slot.progress ∧
      Call.Orderly 0 (life.advance setting (finite dt) stage).calls := by
  obtain ⟨joined,-,hage⟩ := h.age
  have hcall : Thread setting life.slot.behavior life.slot.progress
      [life.slot.call setting (finite dt) stage] (life.advance setting (finite dt) stage).slot.progress := by
    simp only [Slot.call,Life.advance,Slot.advance,hage,finite_add]
    exact .cons _ (by linarith) (.nil _)
  refine ⟨h.thread.append hcall,?_⟩
  simp only [Life.advance,Call.orderly_append,h.orderly,Call.orderly_cons,Call.orderly_nil,and_true,
    true_and,h.after]
  exact Behavior.trace_start _ _ _ _ _ _

theorem advance (h : life.Ongoing setting elapsed) (hdt : 0 < dt)
    (hrunning : (life.slot.advance setting (finite dt) stage).1 = .running) :
    (life.advance setting (finite dt) stage).Ongoing setting (elapsed + dt) where
  thread := (h.thread_advance stage hdt).1
  running := List.forall_mem_append.mpr ⟨h.running,List.forall_mem_singleton.mpr
    ((Slot.call_status setting _ _ stage).trans hrunning)⟩
  orderly := (h.thread_advance stage hdt).2
  after := by
    have hcall := Call.next_of_running ((Slot.call_status setting _ _ stage).trans hrunning)
    simp only [Life.advance,Call.after_append,Call.after_cons,Call.after_nil,hcall,
      Slot.advance_lifeTime]
    exact Behavior.trace_stop _ _ _ _ _ _
  age := by
    obtain ⟨joined,hjoined,hage⟩ := h.age
    refine ⟨joined,hjoined,?_⟩
    have hlife := Slot.advance_lifeTime setting (finite dt) life.slot stage
    rw [hage,finite_add] at hlife
    exact hlife.trans (congrArg finite (by ring))

theorem ended (h : life.Ongoing setting elapsed) (hdt : 0 < dt)
    (hdone : (life.slot.advance setting (finite dt) stage).1.isDone) :
    (life.advance setting (finite dt) stage).Ended setting := by
  obtain ⟨hthread,horderly⟩ := h.thread_advance stage hdt
  refine ⟨hthread.run_of_orderly horderly ?_,life.calls,_,rfl,h.running,?_⟩
  · simpa [Life.advance] using h.running
  · rwa [Slot.call_status]

end Life.Ongoing

theorem sweepLives_ongoing {lives : Array (Life Extended)} {ended : List (Life Extended)}
    {elapsed dt : ℚ} (hdt : 0 < dt) (hlives : ∀ life ∈ lives, life.Ongoing setting elapsed)
    (hended : ∀ life ∈ ended, life.Ended setting) (stage : Stage Extended) :
    (∀ life ∈ (sweepLives setting (finite dt) lives 0 ended stage).1,
        life.Ongoing setting (elapsed + dt)) ∧
      ∀ life ∈ (sweepLives setting (finite dt) lives 0 ended stage).2, life.Ended setting := by
  refine sweepLives_keeps setting (finite dt) (P := Life.Ongoing setting elapsed)
    (fun life stage hlife => hlife.advance stage hdt) (fun life stage hlife => hlife.ended stage hdt)
    lives 0 ended stage ?_ ?_ hended
  · rw [List.take_zero]
    exact List.forall_mem_nil _
  · exact fun life hlife => hlives life (Array.mem_toList_iff.mp hlife)

structure Chronicle.Regular (h : Chronicle Extended) : Prop where
  slots : h.live.map (·.slot) = h.sim.field.slots
  live : ∃ elapsed : ℚ, h.sim.elapsed = finite elapsed ∧
    ∀ life ∈ h.live, life.Ongoing h.sim.setting elapsed
  ended : ∀ life ∈ h.ended, life.Ended h.sim.setting
  cleared : ∀ life ∈ h.cleared, life.Unbroken h.sim.setting

namespace Chronicle.Regular
variable {h : Chronicle Extended}

theorem of_field_eq (hr : h.Regular) {sim : Simulator Extended} (hfield : sim.field = h.sim.field)
    (helapsed : sim.elapsed = h.sim.elapsed) (hsetting : sim.setting = h.sim.setting) :
    Chronicle.Regular { h with sim } := by
  obtain ⟨hslots,hlive,hended,hcleared⟩ := hr
  constructor
  · rwa [hfield]
  · rwa [helapsed,hsetting]
  · rwa [hsetting]
  · rwa [hsetting]

theorem join {known : Array (Slot Extended)} (fresh : Array (Slot Extended)) {elapsed : ℚ}
    (hslots : h.live.map (·.slot) = known) (hfield : h.sim.field.slots = known ++ fresh)
    (hfresh : ∀ slot ∈ fresh, slot.IsNew) (helapsed : h.sim.elapsed = finite elapsed)
    (hlive : ∀ life ∈ h.live, life.Ongoing h.sim.setting elapsed)
    (hended : ∀ life ∈ h.ended, life.Ended h.sim.setting)
    (hcleared : ∀ life ∈ h.cleared, life.Unbroken h.sim.setting) : h.join.Regular := by
  have hextract : h.sim.field.slots.extract h.live.size = fresh := by
    rw [hfield,← hslots,← Array.size_map (f := fun life : Life Extended => life.slot)]
    simp
  refine ⟨?_,⟨elapsed,helapsed,fun life hlife => ?_⟩,hended,hcleared⟩
  · rw [Chronicle.join,hextract,Array.map_append,Array.map_map,hslots,hfield]
    exact congrArg (known ++ ·) (Array.map_id fresh)
  · rcases Array.mem_append.mp hlife with hlife | hlife
    · exact hlive life hlife
    · rw [hextract] at hlife
      obtain ⟨slot,hslot,rfl⟩ := Array.mem_map.mp hlife
      rw [helapsed]
      exact .of_isNew (hfresh slot hslot)

theorem tick (hr : h.Regular) {dt : Extended} (hdt : dt ≠ .infinite false) :
    (h.tick dt).Regular := by
  obtain ⟨elapsed,helapsed,hlive⟩ := hr.live
  rw [Chronicle.tick]
  split
  case isTrue hpos =>
    obtain ⟨d,rfl,hd⟩ := exists_finite_of_pos hpos hdt
    have hsweep := sweepLives_ongoing hd hlive hr.ended { rng := h.sim.rng }
    have hslots := sweepLives_slots h.sim.setting (finite d) h.live 0 0 h.ended { rng := h.sim.rng }
    rw [hr.slots] at hslots
    obtain ⟨sent,hsent,hnew⟩ := Field.adds_sweep (P := Slot.IsNew) h.sim.setting (finite d)
      (fun _ _ _ _ hp => ⟨rfl,hp.lifeTime⟩) h.sim.field.slots 0 0 { rng := h.sim.rng }
    refine join sent.toArray hslots ?_ ?_ ?_ hsweep.1 hsweep.2 hr.cleared
    · refine (Field.tick_slots h.sim.setting (finite d) h.sim.rng h.sim.field hpos).trans (congrArg _ ?_)
      exact Array.toList_inj.mp (by simpa using hsent)
    · exact fun slot hslot => hnew slot (List.mem_toArray.mp hslot)
    · exact (if_pos hpos).trans (by rw [helapsed,finite_add])
  case isFalse hpos =>
    exact hr.of_field_eq
      (congrArg Tick.field (h.sim.field.tick_of_not_pos h.sim.setting h.sim.rng hpos)) (if_neg hpos) rfl

theorem perform (hr : h.Regular) (hstep : h.sim.config.step ≠ .infinite false)
    {op : Operation Extended} (hop : ∀ dt, op = .update dt → dt ≠ .infinite false) :
    (h.perform op).Regular := by
  obtain ⟨elapsed,helapsed,hlive⟩ := hr.live
  cases op with
  | compile program =>
    rcases h.sim.compileProgram_cases program with ⟨generator,-,hcompile⟩ | hcompile
    · rw [Chronicle.perform,Simulator.perform,hcompile]
      exact hr.of_field_eq rfl rfl rfl
    · rw [Chronicle.perform,Simulator.perform,hcompile]
      exact hr
  | choose program => exact hr.of_field_eq rfl rfl rfl
  | emit position =>
    rw [Chronicle.perform]
    cases hprogram : h.sim.program with
    | none =>
      rw [h.sim.emitRoot_of_none hprogram]
      exact join #[] hr.slots Array.append_empty.symm (fun slot hslot => absurd hslot (Array.not_mem_empty slot))
        helapsed hlive hr.ended hr.cleared
    | some program =>
      rw [h.sim.emitRoot_of_some hprogram]
      refine join _ hr.slots Array.push_eq_append (fun slot hslot => ?_) helapsed hlive hr.ended hr.cleared
      rw [Array.mem_singleton.mp hslot]
      exact ⟨rfl,rfl⟩
  | update dt => exact hr.tick (hop dt rfl)
  | steps => exact Function.Iterate.rec Regular hr (fun _ hr => hr.tick hstep) _
  | clear =>
    refine ⟨Array.map_empty,⟨elapsed,helapsed,fun life hlife => absurd hlife (Array.not_mem_empty life)⟩,hr.ended,
      List.forall_mem_append.mpr ⟨fun life hlife => ?_,hr.cleared⟩⟩
    exact (hlive life (Array.mem_toList_iff.mp hlife)).unbroken

end Chronicle.Regular

/-- A chronicle in which the windows of every life follow on from zero up to its end, if it has come,
and every particle of the field has the time behind it that has passed since it joined. -/
structure Chronicle.Contiguous (setting : Setting Extended) (h : Chronicle Extended) : Prop where
  slots : h.live.map (·.slot) = h.sim.field.slots
  live : ∀ life ∈ h.live, life.Unbroken setting
  age : ∀ life ∈ h.live, ∃ elapsed joined : ℚ, h.sim.elapsed = finite elapsed ∧
    life.joined = finite joined ∧ life.slot.particle.lifeTime = finite (elapsed - joined)
  ended : ∀ life ∈ h.ended, life.Ended setting
  cleared : ∀ life ∈ h.cleared, life.Unbroken setting

namespace Chronicle
variable {h : Chronicle Extended}

theorem Regular.contiguous (hr : h.Regular) : h.Contiguous h.sim.setting := by
  obtain ⟨elapsed,helapsed,hlive⟩ := hr.live
  refine ⟨hr.slots,fun life hlife => (hlive life hlife).unbroken,fun life hlife => ?_,hr.ended,
    hr.cleared⟩
  obtain ⟨joined,hjoined,hage⟩ := (hlive life hlife).age
  exact ⟨elapsed,joined,helapsed,hjoined,hage⟩

theorem Regular.foldl (hr : h.Regular) (hstep : h.sim.config.step ≠ .infinite false)
    {ops : List (Operation Extended)} (hops : ∀ dt, .update dt ∈ ops → dt ≠ .infinite false) :
    (ops.foldl Chronicle.perform h).Regular := by
  induction ops generalizing h with
  | nil => exact hr
  | cons op ops ih =>
    have hconfig : (h.perform op).sim.config = h.sim.config := by
      rw [perform_sim,Simulator.config_eq_of_fixed (h.sim.fixed_perform op)]
    have hnext := hr.perform hstep fun dt hop => hops dt (hop ▸ List.mem_cons_self)
    exact ih hnext (hconfig ▸ hstep) fun dt hdt => hops dt (List.mem_cons_of_mem _ hdt)

end Chronicle

/-- Whatever is done to a new simulator, the behavior of each particle is called over windows that
follow on from zero and stop at its end, and a live particle has the time behind it that has passed
since the tick or the call in which it joined. -/
theorem Simulator.contiguous_play (config : Config Extended) (audio : Audio)
    (rasterizer : Rasterizer Extended) (registry : Registry) (hstep : config.step ≠ .infinite false)
    (ops : List (Operation Extended)) (hops : ∀ dt, .update dt ∈ ops → dt ≠ .infinite false) :
    (Chronicle.play (new config audio rasterizer registry) ops).sim =
        ops.foldl perform (new config audio rasterizer registry) ∧
      (Chronicle.play (new config audio rasterizer registry) ops).Contiguous ⟨config,rasterizer⟩ := by
  have hnew : Chronicle.Regular { sim := new config audio rasterizer registry } :=
    ⟨Array.map_empty,⟨0,rfl,fun life hlife => absurd hlife (Array.not_mem_empty life)⟩,
      List.forall_mem_nil _,List.forall_mem_nil _⟩
  have hsim := Chronicle.play_sim (new config audio rasterizer registry) ops
  have hsetting : (Chronicle.play (new config audio rasterizer registry) ops).sim.setting =
      ⟨config,rasterizer⟩ := by
    rw [hsim]
    exact setting_eq_of_fixed (fixed_foldl _ ops)
  exact ⟨hsim,hsetting ▸ (hnew.foldl hstep hops).contiguous⟩

end

namespace Plain

/-- A particle is let go that sends out another one; time passes in every way that there is. -/
def session : List (Operation Extended) :=
  [.choose (.lifespan (.const 3) (.emit (.const 1) (.const 2) (.const 1)
    (.lifespan (.const 2) (.action .nop)))),.emit .zero,.update 1,.steps,.update .undefined,
    .emit .zero,.update 1,.compile []]

theorem contiguous_session :
    (Config.default : Config Extended).step ≠ .infinite false ∧
      (∀ dt, .update dt ∈ session → dt ≠ .infinite false) ∧
      (Chronicle.play idle session).sim = session.foldl Simulator.perform idle ∧
      (Chronicle.play idle session).Contiguous (setting 100) :=
  have hstep : (Config.default : Config Extended).step ≠ .infinite false := by decide
  have hops : ∀ dt, .update dt ∈ session → dt ≠ .infinite false := by
    intro dt hdt
    simp only [session,List.mem_cons,reduceCtorEq,Operation.update.injEq,false_or,or_false,
      List.not_mem_nil] at hdt
    rcases hdt with rfl | rfl | rfl <;> decide
  have h := Simulator.contiguous_play .default .silent (Grid.rasterize Grid.defaultSpacing) .builtin
    hstep session hops
  ⟨hstep,hops,h.1,h.2⟩

example : (Chronicle.play idle session).live.map (·.slot.particle.lifeTime) = #[1,1,0] ∧
    (Chronicle.play idle session).ended.map (·.calls.map fun c => (c.start,c.stop)) =
      [[(0,1),(1,2),(2,3)]] := by
  decide +kernel

end Plain
end Fireworks
