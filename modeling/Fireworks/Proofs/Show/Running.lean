import Fireworks.Proofs.Show.Schedule

/-! # Runs in parts

A run may be cut into runs at any number of steps. It comes to its limit unless the show is over, and once
it is over nothing but time goes on: an empty field has no particle that could send out others, play a cue
or draw a number.
-/
namespace Fireworks
variable {ν : Type} [Arithmetic ν] [Elementary ν]

/-- A tick of an empty field does nothing, however long it is. -/
theorem Field.tick_empty (setting : Setting ν) (dt : ν) (rng : Rng) :
    ({} : Field ν).tick setting dt rng = { field := {}, stats := {}, rng } := by
  by_cases hdt : 0 < dt
  · have hsize : ¬0 < ({} : Field ν).slots.size := Nat.not_lt_zero 0
    unfold tick sweep
    rw [if_pos hdt,dif_neg hsize]
    rfl
  · exact tick_of_not_pos setting rng {} hdt

theorem Audio.hear_empty (audio : Audio) : audio.hear #[] = audio := by
  cases audio <;> rfl

namespace Simulator
variable {sim : Simulator ν} (h : sim.field = {})
include h

theorem update_of_empty (delta : ν) : sim.update delta =
    ({},{ sim with elapsed := if 0 < delta then sim.elapsed + delta else sim.elapsed }) := by
  simp only [update,h,Field.tick_empty,Audio.hear_empty]

theorem iterate_pass_of_empty (delta : ν) (count : ℕ) :
    ∃ elapsed, (pass delta)^[count] sim = { sim with elapsed } := by
  induction count with
  | zero => exact ⟨sim.elapsed,rfl⟩
  | succ count ih =>
    obtain ⟨elapsed,hpassed⟩ := ih
    have hempty : ({ sim with elapsed } : Simulator ν).field = {} := h
    refine ⟨if 0 < delta then elapsed + delta else elapsed,?_⟩
    rw [Function.iterate_succ_apply',hpassed,pass,update_of_empty hempty]

theorem runTicks_of_empty (count : ℕ) : (runTicks count {} sim).1 = {} := by
  induction count generalizing sim with
  | zero => rfl
  | succ count ih =>
    have hupdate := update_of_empty h sim.config.step
    have hempty : (sim.update sim.config.step).2.field = {} := by rw [hupdate]; exact h
    unfold runTicks
    rw [hupdate] at hempty ⊢
    exact ih hempty

theorem runSteps_of_empty : ∃ elapsed, sim.runSteps = ({},{ sim with elapsed }) := by
  obtain ⟨elapsed,hpassed⟩ := iterate_pass_of_empty h sim.config.step sim.config.stepsPerUpdate
  have hsize : sim.size = 0 := by
    unfold size
    rw [h]
    rfl
  have hstats : sim.runSteps.1 = {} := by
    unfold runSteps
    rw [hsize]
    exact runTicks_of_empty h _
  exact ⟨elapsed,Prod.ext hstats (sim.runSteps_snd.trans hpassed)⟩

end Simulator

namespace Runner
variable {runner : Runner ν}

omit [Arithmetic ν] [Elementary ν] in
theorem finished_iff : runner.finished ↔ runner.pending = [] ∧ runner.sim.field = {} := by
  unfold finished Field.isEmpty
  rw [Bool.and_eq_true,List.isEmpty_iff,Array.isEmpty_iff]
  constructor
  · rintro ⟨hpending,hslots⟩
    exact ⟨hpending,congrArg Field.mk hslots⟩
  · rintro ⟨hpending,hfield⟩
    exact ⟨hpending,congrArg Field.slots hfield⟩

/-! ## The loop of a run -/

theorem run_of_finished (h : runner.finished) (limit : ℕ) : run limit runner = (0,runner) := by
  cases limit with
  | zero => rfl
  | succ limit =>
    unfold run
    rw [if_pos h]

theorem run_succ_of_not_finished (h : ¬runner.finished) (limit : ℕ) : run (limit + 1) runner =
    ((run limit runner.step.2).1 + 1,(run limit runner.step.2).2) := by
  rw [run,if_neg h]

theorem run_add (a b : ℕ) (runner : Runner ν) : run (a + b) runner =
    ((run a runner).1 + (run b (run a runner).2).1,(run b (run a runner).2).2) := by
  induction a generalizing runner with
  | zero =>
    rw [Nat.zero_add,run,Nat.zero_add]
  | succ a ih =>
    by_cases h : runner.finished
    · simp only [run_of_finished h,Nat.zero_add]
    · rw [Nat.add_right_comm]
      simp only [run_succ_of_not_finished h,ih,Nat.add_right_comm]

theorem finished_of_run_lt {limit : ℕ} (h : (run limit runner).1 < limit) :
    (run limit runner).2.finished := by
  induction limit generalizing runner with
  | zero => exact absurd h (Nat.not_lt_zero _)
  | succ limit ih =>
    by_cases hfinished : runner.finished
    · rwa [run_of_finished hfinished]
    · rw [run_succ_of_not_finished hfinished] at h ⊢
      exact ih (Nat.lt_of_succ_lt_succ h)

/-! ## After the end -/

theorem step_of_finished (h : runner.finished) : ∃ elapsed,
    runner.step = ({},{ runner with tick := runner.tick + 1, sim := { runner.sim with elapsed } }) := by
  obtain ⟨hpending,hfield⟩ := finished_iff.mp h
  obtain ⟨elapsed,hsteps⟩ := Simulator.runSteps_of_empty hfield
  refine ⟨elapsed,?_⟩
  simp only [step,hpending,fireDue,hsteps]

theorem after_of_finished (h : runner.finished) (n : ℕ) : ∃ elapsed,
    runner.after n = { runner with tick := runner.tick + n, sim := { runner.sim with elapsed } } := by
  induction n with
  | zero => exact ⟨runner.sim.elapsed,rfl⟩
  | succ n ih =>
    obtain ⟨elapsed,hafter⟩ := ih
    have hfinished : (runner.after n).finished := by rwa [hafter]
    obtain ⟨later,hstep⟩ := step_of_finished hfinished
    refine ⟨later,?_⟩
    rw [after_succ,hstep,hafter]
    rfl

/-- Runs compose: a run of `a` steps and one of `b` steps after it come to a run of `a + b` steps, in the
state that they leave and in the number of steps. A run that takes fewer steps than it may has come to the
end of the show. After that a runner has no launch and no particle, however many steps it takes, and every
step starts nothing, counts nothing, and passes ticks that play no cue and draw nothing. Only the clock
and the number of steps go on. -/
theorem run_composes (runner : Runner ν) :
    (∀ a b, (run (a + b) runner).1 = (run a runner).1 + (run b (run a runner).2).1 ∧
      (run (a + b) runner).2 = (run b (run a runner).2).2) ∧
    (∀ limit, (run limit runner).1 < limit → (run limit runner).2.finished) ∧
    (runner.finished → ∀ n, (runner.after n).finished ∧ (runner.after n).step.1 = ⟨0,0,0⟩ ∧
      fireDue runner.programs (runner.after n).tick (runner.after n).pending (runner.after n).sim =
        ([],(runner.after n).sim) ∧
      (∀ m, let sim := (Simulator.pass runner.sim.config.step)^[m] (runner.after n).sim
        sim.field.tick sim.setting runner.sim.config.step sim.rng =
          { field := {}, stats := ⟨0,0,0⟩, rng := runner.sim.rng, cues := #[] }) ∧
      ∃ elapsed, runner.after n =
        { runner with tick := runner.tick + n, sim := { runner.sim with elapsed } }) := by
  refine ⟨fun a b => ?_,fun limit => finished_of_run_lt,fun h n => ?_⟩
  · rw [run_add]
    exact ⟨rfl,rfl⟩
  · obtain ⟨elapsed,hafter⟩ := after_of_finished h n
    have hfinished : (runner.after n).finished := by rwa [hafter]
    obtain ⟨hpending,hfield⟩ := finished_iff.mp hfinished
    obtain ⟨later,hstep⟩ := step_of_finished hfinished
    refine ⟨hfinished,congrArg Prod.fst hstep,?_,fun m => ?_,elapsed,hafter⟩
    · rw [hpending,fireDue]
    · obtain ⟨now,hpassed⟩ := Simulator.iterate_pass_of_empty hfield runner.sim.config.step m
      rw [hpassed]
      intro sim
      have hempty : sim.field = {} := hfield
      have hrng : sim.rng = runner.sim.rng := congrArg (·.sim.rng) hafter
      rw [hempty,hrng]
      exact Field.tick_empty _ _ _

end Runner

namespace Plain

/-- After two steps all launches have started, but a particle is left, and it takes a third step. -/
theorem trio_run_composes : ∃ runner, Runner.start idle trio = .ok runner ∧
    (Runner.run 2 runner).2.pending.length = 0 ∧ (Runner.run 2 runner).2.sim.size = 1 ∧
    (Runner.run 5 runner).1 = 3 ∧
    (Runner.run 2 runner).1 + (Runner.run 3 (Runner.run 2 runner).2).1 = (Runner.run 5 runner).1 ∧
    (Runner.run 3 (Runner.run 2 runner).2).2 = (Runner.run 5 runner).2 ∧
    (Runner.run 5 runner).2.finished ∧
    ∀ n, ((Runner.run 5 runner).2.after n).finished ∧
      ((Runner.run 5 runner).2.after n).step.1 = ⟨0,0,0⟩ := by
  obtain ⟨programs,hprograms,hstart⟩ := start_trio
  have hruns : (trio.compileAll .builtin).toOption.map (fun programs =>
      ((Runner.run 2 (trioRunner programs)).2.pending.length,
        (Runner.run 2 (trioRunner programs)).2.sim.size,
        (Runner.run 5 (trioRunner programs)).1)) = some (0,1,3) := by decide +kernel
  rw [hprograms] at hruns
  obtain ⟨hpending,hruns⟩ := Prod.mk.inj (Option.some.inj hruns)
  obtain ⟨hsize,hcount⟩ := Prod.mk.inj hruns
  obtain ⟨hadd,hlt,-⟩ := Runner.run_composes (trioRunner programs)
  have hfinished := hlt 5 (by rw [hcount]; decide)
  obtain ⟨-,-,hafter⟩ := Runner.run_composes (Runner.run 5 (trioRunner programs)).2
  exact ⟨_,hstart,hpending,hsize,hcount,(hadd 2 3).1.symm,(hadd 2 3).2.symm,hfinished,fun n =>
    ⟨(hafter hfinished n).1,(hafter hfinished n).2.1⟩⟩

end Plain
end Fireworks
