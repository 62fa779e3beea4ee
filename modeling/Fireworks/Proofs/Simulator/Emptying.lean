import Mathlib.Algebra.Order.BigOperators.Group.List
import Mathlib.Data.Finset.Max
import Mathlib.Order.OrderIsoNat
import Mathlib.SetTheory.Ordinal.Rank
import Fireworks.Proofs.Behavior.Bounded
import Fireworks.Proofs.Behavior.Ending
import Fireworks.Proofs.Show.Schedule

/-! # Fields that come to be empty

Programs without unbounded loops make particles that end, and that send out particles made from smaller
programs. How many particles there will be is no measure of this. But each particle of a field follows
one that was there a tick before, and nothing can follow for ever, so that the field is empty at last.
-/
namespace Fireworks
open Extended

/-- A particle whose behavior cannot go on for ever, and whose children are made from programs below a
given size. -/
structure Slot.Mortal (size : ℕ) (slot : Slot Extended) : Prop where
  timed : slot.behavior.Timed
  ends : slot.behavior.duration ≠ ⊤
  sends : slot.behavior.Sends fun body => body.Bounded false ∧ sizeOf body < size
  sound : Sound slot.behavior slot.progress
  age : ∃ q : ℚ, slot.particle.lifeTime = finite q

theorem BehaviorGen.Bounded.mortal {g : BehaviorGen Extended} (h : g.Bounded false) (k : Index)
    (rng : Rng) {particle : Particle Extended} (hp : particle.lifeTime = 0) :
    Slot.Mortal (sizeOf g) ⟨particle,((g.generate k).run rng).1,.fresh⟩ where
  timed := (h.generate k rng).timed
  ends := (h.generate k rng).ends rfl
  sends := (h.generate k rng).sends
  sound := .fresh _
  age := ⟨0,hp⟩

section
variable [Elementary Extended] (setting : Setting Extended) (dt : ℚ)

/-- What a visit makes of a particle: itself, as long as it goes on, and those that it sends out. -/
inductive Slot.Follows : Slot Extended → Slot Extended → Prop
  | stays (slot stage) : (slot.advance setting (finite dt) stage).1 = .running →
      Follows (slot.advance setting (finite dt) stage).2.1 slot
  | sent {slot stage child} : child ∈ (slot.advance setting (finite dt)
      stage).2.2.spawned.toList.drop stage.spawned.size → Follows child slot

end

section
variable [Elementary Extended] {setting : Setting Extended} {dt : ℚ}

namespace Slot.Mortal
variable {size : ℕ} {slot : Slot Extended}

theorem advance (h : slot.Mortal size) (hdt : 0 < dt) (stage : Stage Extended) :
    (slot.advance setting (finite dt) stage).2.1.Mortal size := by
  obtain ⟨q,hq⟩ := h.age
  refine ⟨h.timed,h.ends,h.sends,?_,q + dt,?_⟩
  · simp only [Slot.advance,hq,finite_add]
    exact (h.timed.punctual _ h.sound _ _ (by linarith) _).2
  · rw [Slot.advance_lifeTime,hq,finite_add]

theorem sent (h : slot.Mortal size) {stage : Stage Extended} {child : Slot Extended}
    (hchild : child ∈ (slot.advance setting (finite dt)
      stage).2.2.spawned.toList.drop stage.spawned.size) : ∃ smaller < size, child.Mortal smaller := by
  have hbears : slot.behavior.Sends
      (·.Bears fun child => ∃ smaller < size, child.Mortal smaller) := by
    refine h.sends.imp fun node hnode timing effect heq body hbody k rng particle hp => ?_
    obtain ⟨hbounded,hsize⟩ := hnode timing effect heq body hbody
    exact ⟨sizeOf body,hsize,hbounded.mortal k rng hp.lifeTime⟩
  obtain ⟨sent,hsent,hall⟩ := Slot.adds_advance setting (finite dt) stage hbears
  rw [hsent,← Array.length_toList,List.drop_left] at hchild
  exact hall child hchild

/-- Nothing follows a mortal particle for ever. -/
theorem acc (h : slot.Mortal size) (hdt : 0 < dt) : Acc (Slot.Follows setting dt) slot := by
  induction size using Nat.strong_induction_on generalizing slot with
  | _ size ih =>
    obtain ⟨q,hq⟩ := h.age
    have hends : Ends setting dt slot.behavior slot.progress q := h.timed.ends h.ends hdt h.sound
    generalize hb : slot.behavior = b at hends
    generalize hp : slot.progress = p at hends
    induction hends generalizing slot with
    | @intro p q _ ihends =>
      refine .intro _ fun next hnext => ?_
      cases hnext with
      | sent hchild =>
        obtain ⟨smaller,hsmaller,hmortal⟩ := h.sent hchild
        exact ih smaller hsmaller hmortal
      | stays _ stage hrunning =>
        have hlife := Slot.advance_lifeTime setting (finite dt) slot stage
        rw [hq,finite_add] at hlife
        simp only [Slot.advance,hq,hb,hp,finite_add] at hrunning
        refine ihends _ hrunning (h.advance hdt stage) hlife hb ?_
        simp only [Slot.advance,hq,hb,hp,finite_add]

theorem of_follows (h : slot.Mortal size) (hdt : 0 < dt) {next : Slot Extended}
    (hnext : next.Follows setting dt slot) : ∃ other, next.Mortal other := by
  cases hnext with
  | stays _ stage _ => exact ⟨size,h.advance hdt stage⟩
  | sent hchild =>
    obtain ⟨smaller,-,hmortal⟩ := h.sent hchild
    exact ⟨smaller,hmortal⟩

end Slot.Mortal

/-- Each particle of a field follows one that was there a tick before. -/
theorem Field.exists_follows (rng : Rng) (field : Field Extended) (hdt : 0 < dt)
    {next : Slot Extended} (hnext : next ∈ (field.tick setting (finite dt) rng).field.slots) :
    ∃ slot ∈ field.slots, next.Follows setting dt slot := by
  obtain ⟨slot,hslot,before,⟨hrunning,rfl⟩ | hsent⟩ := mem_tick setting ((finite_lt 0 dt).mpr hdt) hnext
  · exact ⟨slot,hslot,.stays slot before hrunning⟩
  · exact ⟨slot,hslot,.sent hsent⟩

end

section
variable {α : Type} {r : α → α → Prop}

open scoped Classical in
variable (r) in
noncomputable def height (x : α) : Ordinal := if h : Acc r x then h.rank else 0

theorem height_lt {x y : α} (hx : Acc r x) (h : r y x) : height r y < height r x := by
  rw [height,height,dif_pos hx,dif_pos (hx.inv h)]
  exact hx.rank_lt_of_rel h

/-- Where each element of a list follows one of the list before, and nothing can follow an element for
ever, the lists are empty at last. -/
theorem exists_forall_eq_nil (lists : ℕ → List α)
    (hfollows : ∀ n, ∀ y ∈ lists (n + 1), ∃ x ∈ lists n, r y x) (hacc : ∀ x ∈ lists 0, Acc r x) :
    ∃ N, ∀ n ≥ N, lists n = [] := by
  have hall : ∀ n, ∀ x ∈ lists n, Acc r x := by
    intro n
    induction n with
    | zero => exact hacc
    | succ n ih =>
      intro y hy
      obtain ⟨x,hx,hyx⟩ := hfollows n y hy
      exact (ih x hx).inv hyx
  by_cases hnil : ∃ N, lists N = []
  · obtain ⟨N,hN⟩ := hnil
    refine ⟨N,fun n hn => ?_⟩
    induction n, hn using Nat.le_induction with
    | base => exact hN
    | succ n _ ih =>
      refine List.eq_nil_iff_forall_not_mem.mpr fun y hy => ?_
      obtain ⟨x,hx,-⟩ := hfollows n y hy
      exact List.not_mem_nil (ih ▸ hx)
  · -- The greatest height of each list is below that of the list before.
    have hmax : ∀ n, ∃ x ∈ lists n, ∀ y ∈ lists n, height r y ≤ height r x := fun n =>
      Multiset.exists_max_image (height r) (s := lists n) (by simpa using fun h => hnil ⟨n,h⟩)
    choose top htop hle using hmax
    refine absurd (strictAnti_nat_of_succ_lt fun n => ?_) (not_strictAnti_of_wellFoundedLT (height r ∘ top))
    obtain ⟨x,hx,hr⟩ := hfollows n _ (htop (n + 1))
    exact (height_lt (hall n x hx) hr).trans_le (hle n x hx)

end

/-- What an operation may bring in: programs without unbounded loops only, and no infinite time. -/
def Operation.IsBounded (registry : Registry) : Operation Extended → Prop
  | .compile program => ∀ g, registry.compileProgram program = .ok g → g.Bounded false
  | .choose program => program.Bounded false
  | .update dt => dt ≠ .infinite false
  | .emit _ | .steps | .clear => True

/-- A simulator whose program has no unbounded loops, and whose particles are mortal. -/
structure Simulator.Mortal (sim : Simulator Extended) : Prop where
  program : ∀ g, sim.program = some g → g.Bounded false
  slots : ∀ slot ∈ sim.field.slots, ∃ size, slot.Mortal size

namespace Simulator.Mortal
variable {sim : Simulator Extended}

theorem setProgram (h : sim.Mortal) {g : BehaviorGen Extended} (hg : g.Bounded false) :
    (sim.setProgram g).Mortal := ⟨fun _ heq => Option.some.inj heq ▸ hg,h.slots⟩

theorem emitRoot (h : sim.Mortal) (position : Vec3 Extended) : (sim.emitRoot position).2.Mortal := by
  cases hprogram : sim.program with
  | none =>
    rw [sim.emitRoot_of_none hprogram]
    exact h
  | some g =>
    rw [sim.emitRoot_of_some hprogram]
    refine ⟨fun g hg => h.program g hg,fun slot hslot => ?_⟩
    rcases Array.mem_push.mp hslot with hslot | rfl
    · exact h.slots slot hslot
    · exact ⟨sizeOf g,(h.program g hprogram).mortal .root sim.rng rfl⟩

variable [Elementary Extended]

theorem pass (h : sim.Mortal) {dt : Extended} (hdt : dt ≠ .infinite false) :
    (sim.pass dt).Mortal := by
  refine ⟨h.program,fun next hnext => ?_⟩
  by_cases hpos : 0 < dt
  · obtain ⟨d,rfl,hd⟩ := exists_finite_of_pos hpos hdt
    obtain ⟨slot,hslot,hfollows⟩ := Field.exists_follows sim.rng sim.field hd hnext
    obtain ⟨size,hsize⟩ := h.slots slot hslot
    exact hsize.of_follows hd hfollows
  · have hfield : (sim.pass dt).field = sim.field :=
      congrArg Tick.field (sim.field.tick_of_not_pos sim.setting sim.rng hpos)
    exact h.slots next (hfield ▸ hnext)

theorem runSteps (h : sim.Mortal) (hstep : sim.config.step ≠ .infinite false) :
    sim.runSteps.2.Mortal := by
  rw [runSteps_snd]
  exact Function.Iterate.rec Mortal h (fun _ h => h.pass hstep) _

theorem perform (h : sim.Mortal) (hstep : sim.config.step ≠ .infinite false)
    {op : Operation Extended} (hop : op.IsBounded sim.registry) : (sim.perform op).Mortal := by
  cases op with
  | compile program =>
    rcases sim.compileProgram_cases program with ⟨g,hg,hcompile⟩ | hcompile
    · rw [Simulator.perform,hcompile]
      exact h.setProgram (hop g hg)
    · rw [Simulator.perform,hcompile]
      exact h
  | choose program => exact h.setProgram hop
  | emit position => exact h.emitRoot position
  | update dt => exact h.pass hop
  | steps => exact h.runSteps hstep
  | clear => exact ⟨h.program,fun slot hslot => absurd hslot (Array.not_mem_empty slot)⟩

theorem foldl (h : sim.Mortal) (hstep : sim.config.step ≠ .infinite false)
    {ops : List (Operation Extended)} (hops : ∀ op ∈ ops, op.IsBounded sim.registry) :
    (ops.foldl Simulator.perform sim).Mortal := by
  induction ops generalizing sim with
  | nil => exact h
  | cons op ops ih =>
    obtain ⟨hop,hops⟩ := List.forall_mem_cons.mp hops
    have hfixed := sim.fixed_perform op
    have hconfig := config_eq_of_fixed hfixed
    have hregistry : (sim.perform op).registry = sim.registry := congrArg (·.1) hfixed
    exact ih (h.perform hstep hop) (hconfig ▸ hstep) (hregistry ▸ hops)

theorem exists_size_eq_zero (h : sim.Mortal) {dt : ℚ} (hdt : 0 < dt) : ∃ N, ∀ n ≥ N,
    ((Simulator.pass (finite dt))^[n] sim).size = 0 := by
  let slots (n : ℕ) := ((Simulator.pass (finite dt))^[n] sim).field.slots.toList
  have hfollows : ∀ n, ∀ next ∈ slots (n + 1), ∃ slot ∈ slots n,
      next.Follows sim.setting dt slot := by
    intro n next hnext
    simp only [slots,Function.iterate_succ_apply',Array.mem_toList_iff] at hnext
    obtain ⟨slot,hslot,hfollows⟩ := Field.exists_follows _ _ hdt hnext
    have hsetting := setting_eq_of_fixed (sim.fixed_iterate (finite dt) n)
    exact ⟨slot,Array.mem_toList_iff.mpr hslot,hsetting ▸ hfollows⟩
  have hacc : ∀ slot ∈ sim.field.slots.toList, Acc (Slot.Follows sim.setting dt) slot := by
    intro slot hslot
    obtain ⟨size,hsize⟩ := h.slots slot (Array.mem_toList_iff.mp hslot)
    exact hsize.acc hdt
  obtain ⟨N,hN⟩ := exists_forall_eq_nil slots hfollows hacc
  exact ⟨N,fun n hn => congrArg List.length (hN n hn)⟩

end Simulator.Mortal

theorem Show.Emits.mortal {s : Show Extended} {registry : Registry}
    {launches : List (Launch Extended)} {sim last : Simulator Extended}
    (h : s.Emits registry launches sim last) (hsim : sim.Mortal)
    (hprograms : ∀ id g, s.compile registry id = .ok g → g.Bounded false) : last.Mortal := by
  induction h with
  | nil => exact hsim
  | @cons launch launches sim next last program hcompile hemit _ ih =>
    have hnext := (hsim.setProgram (hprograms _ _ hcompile)).emitRoot launch.position
    rw [hemit] at hnext
    exact ih hnext

namespace Runner
variable [Elementary Extended] {s : Show Extended} {sim : Simulator Extended}
  {runner : Runner Extended}

theorem mortal_after (h : start sim s = .ok runner) (hsim : sim.Mortal)
    (hstep : sim.config.step ≠ .infinite false)
    (hprograms : ∀ id g, s.compile sim.registry id = .ok g → g.Bounded false) (k : ℕ) :
    (runner.after k).sim.Mortal ∧ (runner.after k).sim.fixed = sim.fixed := by
  induction k with
  | zero =>
    obtain ⟨table,-,-,rfl⟩ := start_eq_ok.mp h
    exact ⟨hsim,rfl⟩
  | succ k ih =>
    obtain ⟨hmortal,hfixed⟩ := ih
    obtain ⟨⟨ready,hemits,-,hready⟩,-⟩ := (ready_after h k).2.step
    have hready' := hemits.fixed_eq.trans hfixed
    have hconfig := Simulator.config_eq_of_fixed hready'
    rw [after_succ,hready]
    refine ⟨(hemits.mortal hmortal hprograms).runSteps (hconfig ▸ hstep),?_⟩
    rw [Simulator.runSteps_snd,Simulator.fixed_iterate,hready']

/-- Once no launch is left, a runner only lets time pass. -/
theorem sim_after_add (h : start sim s = .ok runner) {k : ℕ}
    (hk : ∀ launch ∈ s.launches, launch.tick < k)
    (hfixed : ∀ n, (runner.after n).sim.fixed = sim.fixed) (n : ℕ) : (runner.after (k + n)).sim =
      (Simulator.pass sim.config.step)^[n * sim.config.stepsPerUpdate] (runner.after k).sim := by
  induction n with
  | zero => rw [Nat.zero_mul]; rfl
  | succ n ih =>
    obtain ⟨htick,hready⟩ := ready_after h (k + n)
    obtain ⟨⟨ready,hemits,-,hsim⟩,-⟩ := hready.step
    have hnone : s.due (k + n) = [] := List.filter_eq_nil_iff.mpr fun launch hlaunch => by
      have hlt := hk launch hlaunch
      simp only [decide_eq_true_eq]
      omega
    rw [htick,hnone] at hemits
    cases hemits
    have hconfig := Simulator.config_eq_of_fixed (hfixed (k + n))
    rw [← Nat.add_assoc,after_succ,hsim,Simulator.runSteps_snd,hconfig,ih,Nat.succ_mul,
      Nat.add_comm (n * _),Function.iterate_add_apply]

/-- A runner that is finished after some steps stops by then. -/
theorem finished_run (runner : Runner Extended) {limit n : ℕ} (hn : n ≤ limit)
    (h : (runner.after n).finished) : (run limit runner).2.finished := by
  induction limit generalizing runner n with
  | zero =>
    obtain rfl : n = 0 := Nat.le_zero.mp hn
    exact h
  | succ limit ih =>
    rw [run]
    split
    case isTrue hfinished => exact hfinished
    case isFalse hfinished =>
      cases n with
      | zero => exact absurd h hfinished
      | succ n => exact ih runner.step.2 (Nat.le_of_succ_le_succ hn) h

theorem exists_finished (h : start sim s = .ok runner) (hsim : sim.Mortal)
    (hprograms : ∀ id g, s.compile sim.registry id = .ok g → g.Bounded false) {dt : ℚ}
    (hstep : sim.config.step = finite dt) (hdt : 0 < dt) (hsteps : 1 ≤ sim.config.stepsPerUpdate) :
    ∃ n, ∀ limit ≥ n, (run limit runner).2.finished := by
  have hafter := mortal_after h hsim (hstep ▸ nofun) hprograms
  obtain ⟨k,hk⟩ : ∃ k, ∀ launch ∈ s.launches, launch.tick < k :=
    ⟨(s.launches.map (·.tick)).sum + 1,fun launch hlaunch =>
      Nat.lt_succ_of_le (List.le_sum_of_mem (List.mem_map_of_mem hlaunch))⟩
  obtain ⟨n,hn⟩ := (hafter k).1.exists_size_eq_zero hdt
  refine ⟨k + n,fun limit hlimit => finished_run runner hlimit ?_⟩
  have hpending : (runner.after (k + n)).pending = [] := by
    obtain ⟨htick,hready⟩ := ready_after h (k + n)
    rw [hready.pending,htick]
    refine List.filter_eq_nil_iff.mpr fun launch hlaunch => ?_
    have hlt := hk launch (s.sorted_perm.mem_iff.mp hlaunch)
    simp only [decide_eq_true_eq]
    omega
  have hempty : (runner.after (k + n)).sim.size = 0 := by
    rw [sim_after_add h hk (fun n => (hafter n).2),hstep]
    exact hn _ (Nat.le_mul_of_pos_right n hsteps)
  rw [finished,hpending,List.isEmpty_nil,Bool.true_and]
  exact Array.isEmpty_iff_size_eq_zero.mpr hempty

end Runner

/-- If every loop of all programs is the body of a lifespan, the field of a simulator is empty at last
under updates of one length, whatever was done to it before. So every show of such programs is
finished after sufficiently many steps. -/
theorem Simulator.runs_empty [Elementary Extended] (config : Config Extended) (audio : Audio)
    (rasterizer : Rasterizer Extended) (registry : Registry) (hstep : config.step ≠ .infinite false)
    (ops : List (Operation Extended)) (hops : ∀ op ∈ ops, op.IsBounded registry) :
    (∀ dt : ℚ, 0 < dt → ∃ N, ∀ n ≥ N, ((pass (finite dt))^[n]
        (ops.foldl perform (new config audio rasterizer registry))).size = 0) ∧
      ∀ (s : Show Extended) (runner : Runner Extended),
        Runner.start (ops.foldl perform (new config audio rasterizer registry)) s = .ok runner →
        (∀ id g, s.compile registry id = .ok g → g.Bounded false) → 0 < config.step →
        1 ≤ config.stepsPerUpdate →
        ∃ N, ∀ limit ≥ N, (Runner.run limit runner).2.finished := by
  have hnew : (new config audio rasterizer registry).Mortal :=
    ⟨nofun,fun slot hslot => absurd hslot (Array.not_mem_empty slot)⟩
  have hmortal := hnew.foldl hstep hops
  have hfixed := fixed_foldl (new config audio rasterizer registry) ops
  have hconfig := config_eq_of_fixed hfixed
  have hregistry : (ops.foldl perform (new config audio rasterizer registry)).registry = registry :=
    congrArg (·.1) hfixed
  refine ⟨fun dt hdt => hmortal.exists_size_eq_zero hdt,fun s runner hstart hprograms hpos hsteps => ?_⟩
  obtain ⟨dt,hdt,hpos⟩ := exists_finite_of_pos hpos hstep
  refine Runner.exists_finished hstart hmortal ?_ (hconfig ▸ hdt) hpos (hconfig ▸ hsteps)
  rwa [hregistry]

namespace Plain

/-- A loop that a lifespan ends, and what it sends out. -/
def sparkler : BehaviorGen Extended :=
  .lifespan (.const 2) (.eased (.const .easeIn) (.loop (.emit (.const 2) (.const 1) (.const 0)
    (.lifespan (.const 3) (.loop (.action .nop))))))

theorem sparkler_bounded : sparkler.Bounded false :=
  .lifespan (.const 2) (.eased _ (.loop (.emit _ _ _ (.lifespan (.const 3) (.loop (.action _))))))

/-- Two sparklers, the second of which comes in later. -/
def evening : List (Operation Extended) := [.choose sparkler,.emit .zero,.update 1,.steps,.emit .zero]

theorem trio_bounded (id : String) (g : BehaviorGen Extended)
    (h : trio.compile .builtin id = .ok g) : g.Bounded false := by
  have hglow : (Registry.builtin).compileProgram [.list [.number (2 : Extended),.symbol "nop"]] =
      .ok (.lifespan (.const 2) (.action .nop)) := by with_unfolding_all rfl
  have hrest : (Registry.builtin).compileProgram ([] : List (Term Extended)) = .ok (.block [[]]) := by
    with_unfolding_all rfl
  rw [Show.compile] at h
  simp only [trio,NameTable.ofList,List.foldl_cons,List.foldl_nil,NameTable.find?_insert] at h
  split_ifs at h
  · simp only [hrest] at h
    cases h
    exact .block (by simp)
  · simp only [hglow] at h
    cases h
    exact .lifespan (.const 2) (.action .nop)
  · cases h

theorem evening_runs_empty :
    (Config.default : Config Extended).step ≠ .infinite false ∧
      (∀ op ∈ evening, op.IsBounded .builtin) ∧ ∃ runner,
        Runner.start (evening.foldl Simulator.perform idle) trio = .ok runner ∧
        (∃ N, ∀ n ≥ N, ((Simulator.pass 1)^[n]
          (evening.foldl Simulator.perform idle)).size = 0) ∧
        ∃ N, ∀ limit ≥ N, (Runner.run limit runner).2.finished := by
  have hstep : (Config.default : Config Extended).step ≠ .infinite false := by decide
  have hops : ∀ op ∈ evening, op.IsBounded .builtin := by
    simp only [evening,List.forall_mem_cons,Operation.IsBounded,true_and]
    exact ⟨sparkler_bounded,by decide,List.forall_mem_nil _⟩
  have hok : (Runner.start (evening.foldl Simulator.perform idle) trio).isOk = true := by
    decide +kernel
  obtain ⟨hempty,hfinished⟩ := Simulator.runs_empty .default .silent
    (Grid.rasterize Grid.defaultSpacing) .builtin hstep evening hops
  cases hstart : Runner.start (evening.foldl Simulator.perform idle) trio with
  | error e =>
    rw [hstart] at hok
    cases hok
  | ok runner =>
    exact ⟨hstep,hops,runner,rfl,hempty 1 one_pos,
      hfinished trio runner hstart trio_bounded (by decide +kernel) (by decide +kernel)⟩

end Plain
end Fireworks
