import Mathlib.Algebra.BigOperators.Group.Finset.Basic
import Mathlib.Data.List.Forall2
import Fireworks.Proofs.Field
import Fireworks.Proofs.NameTable
import Fireworks.Proofs.Plain
import Fireworks.Proofs.Simulator.Operations
import Fireworks.Show.Runner

/-! # The schedule of a show

A runner keeps the launches sorted and starts them from the front, one step after the other. It comes
to the same as looking through the whole show at each step for the launches of that step, in the order
of the show.
-/
namespace Fireworks
variable {ν : Type}

theorem mapM_eq_ok {ε α β : Type} {f : α → Except ε β} {xs : List α} {ys : List β} :
    xs.mapM f = .ok ys ↔ List.Forall₂ (fun x y => f x = .ok y) xs ys := by
  induction xs generalizing ys with
  | nil =>
    rw [List.mapM_nil,List.forall₂_nil_left_iff]
    exact ⟨fun h => (Except.ok.inj h).symm,fun h => h ▸ rfl⟩
  | cons x xs ih =>
    rw [List.mapM_cons,List.forall₂_cons_left_iff]
    constructor
    · intro h
      cases hx : f x with
      | error e => rw [hx] at h; cases h
      | ok y =>
        cases hxs : xs.mapM f with
        | error e => rw [hx,hxs] at h; cases h
        | ok rest =>
          rw [hx,hxs] at h
          exact ⟨y,rest,rfl,ih.mp hxs,(Except.ok.inj h).symm⟩
    · rintro ⟨y,rest,hx,hrest,rfl⟩
      rw [hx,ih.mpr hrest]
      rfl

theorem exists_mapM_eq_ok {ε α β : Type} {f : α → Except ε β} {xs : List α} :
    (∃ ys, xs.mapM f = .ok ys) ↔ ∀ x ∈ xs, ∃ y, f x = .ok y := by
  simp only [mapM_eq_ok]
  induction xs with
  | nil => simp
  | cons x xs ih =>
    rw [List.forall_mem_cons,← ih]
    simp only [List.forall₂_cons_left_iff]
    constructor
    · rintro ⟨-,y,ys,hy,hys,rfl⟩
      exact ⟨⟨y,hy⟩,ys,hys⟩
    · rintro ⟨⟨y,hy⟩,ys,hys⟩
      exact ⟨y :: ys,y,ys,hy,hys,rfl⟩

namespace Show
variable (s : Show ν) {registry : Registry} {table : NameTable (BehaviorGen ν)}

def due (k : ℕ) : List (Launch ν) := s.launches.filter (·.tick = k)

def sorted : List (Launch ν) := s.launches.mergeSort fun a b => a.tick ≤ b.tick

theorem sorted_perm : s.sorted.Perm s.launches := List.mergeSort_perm _ _

theorem pairwise_sorted : s.sorted.Pairwise fun a b => a.tick ≤ b.tick := by
  have h : s.sorted.Pairwise fun a b => decide (a.tick ≤ b.tick) = true :=
    List.pairwise_mergeSort (fun a b c => by simpa using Nat.le_trans)
      (fun a b => by simpa using Nat.le_total a.tick b.tick) s.launches
  exact h.imp of_decide_eq_true

/-- Launches of one tick stay in the order of the show. -/
theorem filter_sorted (k : ℕ) : s.sorted.filter (·.tick = k) = s.due k := by
  have hsame : (s.due k).Pairwise fun a b => decide (a.tick ≤ b.tick) = true := by
    refine List.pairwise_of_forall_mem_list fun a ha b hb => ?_
    have ha := of_decide_eq_true (List.mem_filter.mp ha).2
    have hb := of_decide_eq_true (List.mem_filter.mp hb).2
    exact decide_eq_true (by omega)
  have hsublist : (s.due k).Sublist s.sorted :=
    List.sublist_mergeSort (fun a b c => by simpa using Nat.le_trans)
      (fun a b => by simpa using Nat.le_total a.tick b.tick) hsame List.filter_sublist
  have hfilter := hsublist.filter (fun l => decide (l.tick = k))
  rw [due,List.filter_filter] at hfilter
  simp only [Bool.and_self] at hfilter
  exact (hfilter.eq_of_length (s.sorted_perm.filter _).length_eq.symm).symm

/-- The launches of the first steps are all those with a lower tick. -/
theorem flatMap_due_perm (k : ℕ) :
    ((List.range k).flatMap s.due).Perm (s.launches.filter (·.tick < k)) := by
  induction k with
  | zero => simp
  | succ k ih =>
    have hperm := List.filter_append_perm (fun l => decide (l.tick < k))
      (s.launches.filter (·.tick < k + 1))
    rw [List.filter_filter,List.filter_filter] at hperm
    rw [List.range_succ,List.flatMap_append,List.flatMap_singleton]
    refine (ih.append_right _).trans ((List.Perm.of_eq ?_).trans hperm)
    rw [due]
    congr 1
    · exact List.filter_congr fun l _ => by grind
    · exact List.filter_congr fun l _ => by grind

variable {s}

theorem mem_names_of_compile {id : String} {program : BehaviorGen ν}
    (h : s.compile registry id = .ok program) : id ∈ s.programs.names := by
  cases hfind : s.programs.find? id with
  | none => rw [compile,hfind] at h; cases h
  | some p => exact NameTable.mem_names_iff.mpr ⟨p,hfind⟩

/-- What stands under a name is made of the program of that name. -/
def compileEntry (registry : Registry) (s : Show ν) (id : String) :
    Except ShowError (String × BehaviorGen ν) := do
  return (id,← s.compile registry id)

theorem compileEntry_eq_ok {id : String} {entry : String × BehaviorGen ν} :
    s.compileEntry registry id = .ok entry ↔ entry.1 = id ∧ s.compile registry id = .ok entry.2 := by
  obtain ⟨name,generator⟩ := entry
  rw [compileEntry]
  cases s.compile registry id with
  | error e => exact ⟨nofun,nofun⟩
  | ok program =>
    simp only [bind,Except.bind,pure,Except.pure,Except.ok.injEq,Prod.mk.injEq,eq_comm (a := id)]

theorem compileAll_eq_ok : s.compileAll registry = .ok table ↔
    s.programs.names.mapM (s.compileEntry registry) = .ok table.entries := by
  have hall : s.compileAll registry = s.programs.names.mapM (s.compileEntry registry) >>=
      fun entries => pure { entries } := rfl
  rw [hall]
  cases s.programs.names.mapM (s.compileEntry registry) with
  | error e => exact ⟨nofun,nofun⟩
  | ok entries => exact ⟨fun h => by cases h; rfl,fun h => by cases h; rfl⟩

theorem find?_compileAll (h : s.compileAll registry = .ok table) {id : String}
    {program : BehaviorGen ν} :
    table.find? id = some program ↔ s.compile registry id = .ok program := by
  have hlookup : ∀ {names entries}, List.Forall₂ (fun name entry =>
      s.compileEntry registry name = .ok entry) names entries →
      (entries.lookup id = some program ↔ id ∈ names ∧ s.compile registry id = .ok program) := by
    intro names entries h
    induction h with
    | nil => simp
    | @cons name entry names entries hentry _ ih =>
      obtain ⟨rfl,hcompiled⟩ := compileEntry_eq_ok.mp hentry
      rw [NameTable.lookup_entry,List.mem_cons]
      split
      case isTrue heq => rw [heq,hcompiled]; simp
      case isFalse hne => rw [ih]; simp [hne]
  exact (hlookup (mapM_eq_ok.mp (compileAll_eq_ok.mp h))).trans
    (and_iff_right_of_imp mem_names_of_compile)

theorem exists_compile_iff {id : String} {program : Program ν}
    (h : s.programs.find? id = some program) :
    (∃ generator, s.compile registry id = .ok generator) ↔
      ∃ generator, registry.compileProgram program.statements = .ok generator := by
  simp only [compile,h]
  cases registry.compileProgram program.statements <;> simp [Except.mapError]

theorem exists_compileAll_iff : (∃ table, s.compileAll registry = .ok table) ↔
    ∀ id program, s.programs.find? id = some program →
      ∃ generator, registry.compileProgram program.statements = .ok generator := by
  have hentry : ∀ id, (∃ entry, s.compileEntry registry id = .ok entry) ↔
      ∃ generator, s.compile registry id = .ok generator := fun id => by
    simp [compileEntry_eq_ok]
  have hall : (∃ table, s.compileAll registry = .ok table) ↔
      ∃ entries, s.programs.names.mapM (s.compileEntry registry) = .ok entries := by
    constructor
    · rintro ⟨table,h⟩
      exact ⟨_,compileAll_eq_ok.mp h⟩
    · rintro ⟨entries,h⟩
      exact ⟨⟨entries⟩,compileAll_eq_ok.mpr h⟩
  rw [hall,exists_mapM_eq_ok]
  constructor
  · intro h id program hfind
    exact (exists_compile_iff hfind).mp ((hentry id).mp (h id (NameTable.mem_names_iff.mpr ⟨program,hfind⟩)))
  · intro h id hid
    obtain ⟨program,hfind⟩ := NameTable.mem_names_iff.mp hid
    exact (hentry id).mpr ((exists_compile_iff hfind).mpr (h id program hfind))

end Show

variable [Arithmetic ν]

/-- A root particle of its program comes in for each of some launches, one after the other, and no
other. -/
inductive Show.Emits (registry : Registry) (s : Show ν) :
    List (Launch ν) → Simulator ν → Simulator ν → Prop
  | nil (sim) : Emits registry s [] sim sim
  | cons {launch launches sim next last program} : s.compile registry launch.program = .ok program →
      (sim.setProgram program).emitRoot launch.position = (true,next) →
      Emits registry s launches next last → Emits registry s (launch :: launches) sim last

namespace Show.Emits
variable {registry : Registry} {s : Show ν} {launches : List (Launch ν)} {sim last : Simulator ν}

theorem size_eq (h : s.Emits registry launches sim last) :
    last.size = sim.size + launches.length := by
  induction h with
  | nil => rfl
  | @cons launch launches sim next last program _ hemit _ ih =>
    rw [Simulator.emitRoot_of_some _ rfl] at hemit
    obtain rfl := (Prod.mk.inj hemit).2
    rw [ih,List.length_cons,Nat.add_comm _ 1,← Nat.add_assoc]
    exact congrArg (· + launches.length) (Array.size_push _)

theorem fixed_eq (h : s.Emits registry launches sim last) : last.fixed = sim.fixed := by
  induction h with
  | nil => rfl
  | @cons launch launches sim next last program _ hemit _ ih =>
    have hnext := Simulator.fixed_emitRoot (sim.setProgram program) launch.position
    rw [hemit] at hnext
    exact ih.trans hnext

end Show.Emits

namespace Runner
variable {s : Show ν} {sim : Simulator ν} {runner : Runner ν}

omit [Arithmetic ν] in
/-- A runner starts with the sorted launches of a show that compiles and knows all programs. -/
theorem start_eq_ok : start sim s = .ok runner ↔ ∃ table, s.compileAll sim.registry = .ok table ∧
    (∀ launch ∈ s.launches, table.contains launch.program) ∧
      runner = { sim, programs := table, pending := s.sorted } := by
  rw [start]
  cases hcompile : s.compileAll sim.registry with
  | error e => exact ⟨nofun,nofun⟩
  | ok table =>
    simp only [bind,Except.bind]
    cases hfind : s.launches.find? fun launch => !table.contains launch.program with
    | none =>
      have hknown : ∀ launch ∈ s.launches, table.contains launch.program := by
        simpa using hfind
      constructor
      · intro h
        exact ⟨table,rfl,hknown,(Except.ok.inj h).symm⟩
      · rintro ⟨table',htable,-,rfl⟩
        obtain rfl := Except.ok.inj htable
        rfl
    | some launch =>
      constructor
      · nofun
      · rintro ⟨table',htable,hknown,-⟩
        obtain rfl := Except.ok.inj htable
        have hmissing := List.find?_some hfind
        simp [hknown launch (List.mem_of_find?_eq_some hfind)] at hmissing

omit [Arithmetic ν] in
theorem exists_start_iff : (∃ runner, start sim s = .ok runner) ↔
    (∀ id program, s.programs.find? id = some program →
      ∃ generator, sim.registry.compileProgram program.statements = .ok generator) ∧
      ∀ launch ∈ s.launches, s.programs.contains launch.program := by
  have hcontains : ∀ {table}, s.compileAll sim.registry = .ok table → ∀ id,
      (table.contains id ↔ s.programs.contains id) := by
    intro table htable id
    have hall := Show.exists_compileAll_iff.mp ⟨table,htable⟩
    rw [NameTable.contains,NameTable.contains,Option.isSome_iff_exists,Option.isSome_iff_exists]
    simp only [Show.find?_compileAll htable]
    constructor
    · rintro ⟨program,hprogram⟩
      exact NameTable.mem_names_iff.mp (Show.mem_names_of_compile hprogram)
    · rintro ⟨program,hfind⟩
      exact (Show.exists_compile_iff hfind).mpr (hall id program hfind)
  rw [← Show.exists_compileAll_iff]
  constructor
  · rintro ⟨runner,hstart⟩
    obtain ⟨table,htable,hknown,-⟩ := start_eq_ok.mp hstart
    exact ⟨⟨table,htable⟩,fun launch hlaunch => (hcontains htable _).mp (hknown launch hlaunch)⟩
  · rintro ⟨⟨table,htable⟩,hknown⟩
    exact ⟨_,start_eq_ok.mpr
      ⟨table,htable,fun launch hlaunch => (hcontains htable _).mpr (hknown launch hlaunch),rfl⟩⟩

/-- A runner that knows the programs of the launches yet to come starts those that are due, and keeps
the others. -/
theorem fireDue_spec {registry : Registry} {programs : NameTable (BehaviorGen ν)}
    {pending : List (Launch ν)} (tick : ℕ) (hsorted : pending.Pairwise fun a b => a.tick ≤ b.tick)
    (hknown : ∀ launch ∈ pending, ∃ program, programs.find? launch.program = some program ∧
      s.compile registry launch.program = .ok program) (sim : Simulator ν) :
    (fireDue programs tick pending sim).1 = pending.filter (tick < ·.tick) ∧
      s.Emits registry (pending.filter (·.tick ≤ tick)) sim (fireDue programs tick pending sim).2 := by
  induction pending generalizing sim with
  | nil => exact ⟨rfl,.nil sim⟩
  | cons launch rest ih =>
    obtain ⟨hfirst,hrest⟩ := List.pairwise_cons.mp hsorted
    obtain ⟨⟨program,hfind,hcompile⟩,hknown⟩ := List.forall_mem_cons.mp hknown
    rw [fireDue]
    by_cases htick : tick < launch.tick
    · have hall : ∀ l ∈ launch :: rest, tick < l.tick :=
        List.forall_mem_cons.mpr ⟨htick,fun l hl => htick.trans_le (hfirst l hl)⟩
      have hlater : (launch :: rest).filter (tick < ·.tick) = launch :: rest :=
        List.filter_eq_self.mpr fun l hl => decide_eq_true (hall l hl)
      have hnone : (launch :: rest).filter (·.tick ≤ tick) = [] :=
        List.filter_eq_nil_iff.mpr fun l hl => by simpa using hall l hl
      rw [if_pos htick,hlater,hnone]
      exact ⟨rfl,.nil sim⟩
    · have hfire : fire programs sim launch = ((sim.setProgram program).emitRoot launch.position).2 := by
        rw [fire,hfind]
      obtain ⟨hpending,hemits⟩ := ih hrest hknown (fire programs sim launch)
      rw [if_neg htick,List.filter_cons_of_neg (by simpa using htick),
        List.filter_cons_of_pos (by simpa using htick)]
      refine ⟨hpending,.cons hcompile ?_ hemits⟩
      rw [hfire,Simulator.emitRoot_of_some _ rfl]

variable [Elementary ν]

def after (runner : Runner ν) (k : ℕ) : Runner ν := (fun r => r.step.2)^[k] runner

theorem after_succ (k : ℕ) : runner.after (k + 1) = (runner.after k).step.2 :=
  Function.iterate_succ_apply' _ _ _

/-- What a runner that was started knows and has yet to do after some steps. -/
structure Ready (s : Show ν) (registry : Registry) (runner : Runner ν) : Prop where
  pending : runner.pending = s.sorted.filter (runner.tick ≤ ·.tick)
  known : ∀ launch ∈ s.launches, ∃ program, runner.programs.find? launch.program = some program ∧
      s.compile registry launch.program = .ok program

/-- A step starts the launches of that step, in the order of the show, and lets time pass. -/
theorem Ready.step {registry : Registry} (h : runner.Ready s registry) :
    (∃ sim, s.Emits registry (s.due runner.tick) runner.sim sim ∧
      runner.step.1 = sim.runSteps.1 ∧ runner.step.2.sim = sim.runSteps.2) ∧
      runner.step.2.tick = runner.tick + 1 ∧ runner.step.2.Ready s registry := by
  have hsorted : runner.pending.Pairwise fun a b => a.tick ≤ b.tick := by
    rw [h.pending]
    exact s.pairwise_sorted.filter _
  have hknown : ∀ launch ∈ runner.pending, ∃ program,
      runner.programs.find? launch.program = some program ∧
        s.compile registry launch.program = .ok program := by
    intro launch hlaunch
    rw [h.pending] at hlaunch
    exact h.known launch (s.sorted_perm.mem_iff.mp (List.mem_of_mem_filter hlaunch))
  obtain ⟨hpending,hemits⟩ := fireDue_spec runner.tick hsorted hknown runner.sim
  have hdue : runner.pending.filter (·.tick ≤ runner.tick) = s.due runner.tick := by
    rw [← s.filter_sorted,h.pending,List.filter_filter]
    exact List.filter_congr fun l _ => by grind
  rw [hdue] at hemits
  refine ⟨⟨_,hemits,rfl,rfl⟩,rfl,?_,h.known⟩
  have htick : runner.step.2.tick = runner.tick + 1 := rfl
  refine hpending.trans ?_
  rw [h.pending,List.filter_filter,htick]
  exact List.filter_congr fun l _ => by grind

theorem ready_after (h : start sim s = .ok runner) (k : ℕ) :
    (runner.after k).tick = k ∧ (runner.after k).Ready s sim.registry := by
  obtain ⟨table,htable,hknown,rfl⟩ := start_eq_ok.mp h
  induction k with
  | zero =>
    refine ⟨rfl,?_,fun launch hlaunch => ?_⟩
    · exact (List.filter_eq_self.mpr fun l _ => by simp [after]).symm
    · obtain ⟨program,hfind⟩ := Option.isSome_iff_exists.mp (hknown launch hlaunch)
      exact ⟨program,hfind,(Show.find?_compileAll htable).mp hfind⟩
  | succ k ih =>
    obtain ⟨htick,hready⟩ := ih
    obtain ⟨-,hnext,hready⟩ := hready.step
    rw [after_succ]
    exact ⟨hnext.trans (congrArg (· + 1) htick),hready⟩

/-- What a runner of an empty simulator has started and sent out is in the field, but for what it has
removed. -/
theorem size_after (h : start sim s = .ok runner) (hempty : sim.size = 0) (k : ℕ) :
    (runner.after k).sim.size + ∑ i ∈ Finset.range k, (runner.after i).step.1.removed =
      s.launches.countP (·.tick < k) + ∑ i ∈ Finset.range k, (runner.after i).step.1.spawned := by
  induction k with
  | zero =>
    obtain ⟨table,-,-,rfl⟩ := start_eq_ok.mp h
    simpa [after] using hempty
  | succ k ih =>
    obtain ⟨htick,hready⟩ := ready_after h k
    obtain ⟨⟨ready,hemits,hstats,hsim⟩,-⟩ := hready.step
    have hsteps := ready.size_runSteps.1
    have hcount : s.launches.countP (·.tick < k + 1) =
        s.launches.countP (·.tick < k) + (s.due k).length := by
      rw [List.countP_eq_length_filter,List.countP_eq_length_filter,
        ← (s.flatMap_due_perm (k + 1)).length_eq,← (s.flatMap_due_perm k).length_eq,List.range_succ,
        List.flatMap_append,List.flatMap_singleton,List.length_append]
    rw [hemits.size_eq,htick,← hstats,← hsim] at hsteps
    rw [Finset.sum_range_succ,Finset.sum_range_succ,hcount,after_succ]
    omega

end Runner

/-- A runner starts exactly for a show whose programs compile and whose launches name programs. Its
step number `k` then starts the launches of tick `k`, in the order of the show, each with a particle
that runs its program from its place, and no others. So each launch starts once, and a field that was
empty holds the particles of the launches so far and those sent out since, but for those removed. -/
theorem Runner.steps_naive [Elementary ν] (sim : Simulator ν) (s : Show ν) :
    ((∃ runner, start sim s = .ok runner) ↔
      (∀ id program, s.programs.find? id = some program →
        ∃ generator, sim.registry.compileProgram program.statements = .ok generator) ∧
        ∀ launch ∈ s.launches, s.programs.contains launch.program) ∧
      (∀ k, ((List.range k).flatMap s.due).Perm (s.launches.filter (·.tick < k))) ∧
      ∀ runner, start sim s = .ok runner → runner.sim = sim ∧ ∀ k,
        (∃ ready, s.Emits sim.registry (s.due k) (runner.after k).sim ready ∧
          (runner.after k).step.1 = ready.runSteps.1 ∧
          (runner.after (k + 1)).sim = ready.runSteps.2) ∧
        (sim.size = 0 → (runner.after k).sim.size +
            ∑ i ∈ Finset.range k, (runner.after i).step.1.removed =
          s.launches.countP (·.tick < k) +
            ∑ i ∈ Finset.range k, (runner.after i).step.1.spawned) := by
  refine ⟨exists_start_iff,s.flatMap_due_perm,fun runner h => ⟨?_,fun k => ⟨?_,fun hempty => ?_⟩⟩⟩
  · obtain ⟨table,-,-,rfl⟩ := start_eq_ok.mp h
    rfl
  · obtain ⟨htick,hready⟩ := ready_after h k
    obtain ⟨hstep,-⟩ := hready.step
    rwa [htick,← after_succ] at hstep
  · exact size_after h hempty k

namespace Plain

/-- Two programs and three launches, the first of which is not due first. -/
def trio : Show Extended where
  config := .default
  programs := .ofList [("glow",{ id := "glow", statements := [.list [.number 2,.symbol "nop"]] }),
    ("rest",{ id := "rest", statements := [] })]
  launches := [⟨"rest",.zero,1⟩,⟨"glow",.zero,0⟩,⟨"glow",.zero,1⟩]

/-- What a runner starts `trio` with. -/
def trioRunner (programs : NameTable (BehaviorGen Extended)) : Runner Extended where
  sim := idle
  programs
  pending := [⟨"glow",.zero,0⟩,⟨"rest",.zero,1⟩,⟨"glow",.zero,1⟩]

theorem start_trio : ∃ programs, trio.compileAll .builtin = .ok programs ∧
    Runner.start idle trio = .ok (trioRunner programs) := by
  have hok : (Runner.start idle trio).isOk = true := by decide +kernel
  have hsorted : trio.sorted = [⟨"glow",.zero,0⟩,⟨"rest",.zero,1⟩,⟨"glow",.zero,1⟩] := by
    simp [Show.sorted,trio,List.mergeSort,List.MergeSort.Internal.splitInTwo]
  cases hstart : Runner.start idle trio with
  | error e =>
    rw [hstart] at hok
    cases hok
  | ok runner =>
    obtain ⟨programs,hprograms,-,rfl⟩ := Runner.start_eq_ok.mp hstart
    rw [hsorted]
    exact ⟨programs,hprograms,rfl⟩

theorem trio_steps_naive : ∃ runner, Runner.start idle trio = .ok runner ∧ idle.size = 0 ∧
    ∀ k, (∃ ready, trio.Emits .builtin (trio.due k) (runner.after k).sim ready ∧
      (runner.after k).step.1 = ready.runSteps.1 ∧ (runner.after (k + 1)).sim = ready.runSteps.2) ∧
      (runner.after k).sim.size + ∑ i ∈ Finset.range k, (runner.after i).step.1.removed =
        trio.launches.countP (·.tick < k) +
          ∑ i ∈ Finset.range k, (runner.after i).step.1.spawned := by
  obtain ⟨programs,-,hstart⟩ := start_trio
  obtain ⟨-,-,hsteps⟩ := Runner.steps_naive idle trio
  obtain ⟨-,hsteps⟩ := hsteps _ hstart
  exact ⟨_,hstart,rfl,fun k => ⟨(hsteps k).1,(hsteps k).2 rfl⟩⟩

end Plain
end Fireworks
