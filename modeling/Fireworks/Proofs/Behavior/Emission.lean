import Mathlib.Data.List.Perm.Subperm
import Mathlib.Data.List.Range
import Mathlib.Tactic.Linarith
import Mathlib.Tactic.Ring
import Fireworks.Proofs.Behavior.Effects
import Fireworks.Proofs.Behavior.Runs
import Fireworks.Proofs.Plain

/-! # What an emission sends out

An emission has one slot for each of its children, and the children leave in the order of one table,
group by group. Over a run the calls go through the table from its beginning, as far as the eased ratio
has come, and all of it has left when the emission ends.
-/
namespace Fireworks

namespace Emission
variable {ν : Type} (emission : Emission ν)

def indices (group : ℕ) : List Index :=
  (emission.slots group).map fun slot => ⟨slot,emission.total⟩

/-- The indices of all children, in the order in which they leave. -/
def table : List Index := (List.range emission.times).flatMap emission.indices

theorem mem_slots {group slot : ℕ} :
    slot ∈ emission.slots group ↔ ∃ n < emission.count, ∃ p < emission.parallel,
      n + emission.count * group + emission.times * emission.count * p = slot := by
  simp [slots]

/-- Every number below the total is the slot of a child. -/
theorem exists_mem_slots {slot : ℕ} (h : slot < emission.total) :
    ∃ group < emission.times, slot ∈ emission.slots group := by
  have hcount : 0 < emission.count := Nat.pos_of_ne_zero fun h0 => by simp [total,h0] at h
  have htimes : 0 < emission.times := Nat.pos_of_ne_zero fun h0 => by simp [total,h0] at h
  refine ⟨slot / emission.count % emission.times,Nat.mod_lt _ htimes,
    emission.mem_slots.mpr ⟨slot % emission.count,Nat.mod_lt _ hcount,
      slot / emission.count / emission.times,?_,?_⟩⟩
  · rw [Nat.div_div_eq_div_mul]
    exact Nat.div_lt_of_lt_mul h
  · have hrow := Nat.mod_add_div slot emission.count
    have hpass := Nat.mod_add_div (slot / emission.count) emission.times
    calc slot % emission.count + emission.count * (slot / emission.count % emission.times) +
          emission.times * emission.count * (slot / emission.count / emission.times)
        = slot % emission.count + emission.count * (slot / emission.count % emission.times +
            emission.times * (slot / emission.count / emission.times)) := by ring
      _ = slot := by rw [hpass,hrow]

theorem length_table : emission.table.length = emission.total := by
  simp [table,indices,slots,total]
  ring

/-- Each slot stands in the table once. -/
theorem index_table_perm :
    (emission.table.map Index.index).Perm (List.range emission.total) := by
  have hsub : List.range emission.total ⊆ emission.table.map Index.index := by
    intro slot hslot
    obtain ⟨group,hgroup,hmem⟩ := emission.exists_mem_slots (List.mem_range.mp hslot)
    refine List.mem_map.mpr ⟨⟨slot,emission.total⟩,?_,rfl⟩
    exact List.mem_flatMap.mpr ⟨group,List.mem_range.mpr hgroup,List.mem_map.mpr ⟨slot,hmem,rfl⟩⟩
  have hsubperm := List.subperm_of_subset List.nodup_range hsub
  refine (hsubperm.perm_of_length_le ?_).symm
  rw [List.length_map,length_table,List.length_range]

theorem total_of_mem_table {k : Index} (h : k ∈ emission.table) : k.total = emission.total := by
  obtain ⟨group,-,h⟩ := List.mem_flatMap.mp h
  obtain ⟨slot,-,rfl⟩ := List.mem_map.mp h
  rfl

theorem flatMap_range_eq_take {n : ℕ} (h : n ≤ emission.times) :
    (List.range n).flatMap emission.indices =
      emission.table.take ((List.range n).flatMap emission.indices).length := by
  rw [table,← List.take_append_drop n (List.range emission.times),List.take_range,min_eq_left h,
    List.flatMap_append,List.take_left']
  rfl

variable [Arithmetic ν]

/-- Sends out children with these indices, one after another. -/
def sendAll (particle : Particle ν) (stage : Stage ν) (ks : List Index) : Stage ν :=
  ks.foldl (fun stage k => stage.sendOut particle.child emission.body k) stage

theorem sendAll_cons (particle : Particle ν) (stage : Stage ν) (k : Index) (ks : List Index) :
    emission.sendAll particle stage (k :: ks) =
      emission.sendAll particle (stage.sendOut particle.child emission.body k) ks := rfl

/-- Each index makes a behavior of the body, and each of these behaviors drives one child. -/
theorem sendAll_eq_mapM (particle : Particle ν) (stage : Stage ν) (ks : List Index) :
    emission.sendAll particle stage ks =
      let (behaviors,rng) := (ks.mapM fun k => emission.body.generate k).run stage.rng
      let children := behaviors.map fun behavior => { particle := particle.child, behavior }
      { stage with rng, spawned := stage.spawned ++ children.toArray } := by
  induction ks generalizing stage with
  | nil =>
    change stage = { stage with spawned := stage.spawned ++ #[] }
    rw [Array.append_empty]
  | cons k ks ih =>
    rw [sendAll_cons,ih,List.mapM_cons,StateT.run_bind]
    cases hfirst : (emission.body.generate k).run stage.rng with
    | mk first rng =>
      simp only [Stage.sendOut,Stage.draw,Stage.add,hfirst,List.push_append_toArray,StateT.run_bind]
      rfl

def leaving (timing : Timing ν) (start stop : ν) : List Index :=
  let ratio := timing.easing.ratio timing.lifespan
  (emission.due (ratio start) (ratio stop)).flatMap emission.indices

theorem fire_eq_sendAll (timing : Timing ν) (start stop : ν) (particle : Particle ν)
    (stage : Stage ν) :
    emission.fire timing start stop particle stage =
      emission.sendAll particle stage (emission.leaving timing start stop) := by
  simp only [fire,sendAll,leaving,List.foldl_flatMap,fireGroup,indices,List.foldl_map]

/-- The indices of the children that leave in some calls. -/
def sent (timing : Timing ν) (calls : List (Call ν)) : List Index :=
  calls.flatMap fun c => emission.leaving timing c.start c.stop

end Emission

open Extended

theorem Easing.exactRatio_zero (easing : Easing) (lifespan : Extended) :
    easing.exactRatio lifespan 0 = 0 := by
  cases lifespan <;> simp [exactRatio]

namespace Emission
variable (emission : Emission Extended)

theorem reached_zero : emission.reached 0 = 0 := by
  simp [reached]

theorem reached_one (h : emission.times < UInt64.size) : emission.reached 1 = emission.times := by
  rw [reached,one_mul,Int.floor_natCast,Int.toNat_natCast]
  exact min_eq_left (Nat.le_sub_one_of_lt h)

theorem due_zero {r : ℚ} (hr : r ≤ 1) :
    emission.due (finite 0) (finite r) = List.range (emission.reached r) := by
  rw [due_finite,reached_zero,min_eq_left (emission.reached_le hr),Nat.sub_zero,
    List.range_eq_range']

/-- How many children have left at a time. -/
def sentBy (timing : Timing Extended) (stop : Extended) : ℕ :=
  (emission.leaving timing 0 stop).length

section
variable {timing : Timing Extended} (hspan : timing.lifespan.IsSpan)
include hspan

theorem leaving_append {a m e : ℚ} (ham : a ≤ m) (hme : m ≤ e) :
    emission.leaving timing (finite a) (finite e) =
      emission.leaving timing (finite a) (finite m) ++ emission.leaving timing (finite m) (finite e) := by
  simp only [leaving,Easing.ratio_finite _ hspan]
  rw [emission.due_append (timing.easing.exactRatio_mono hspan ham)
    (timing.easing.exactRatio_mono hspan hme) (timing.easing.exactRatio_le_one hspan e),
    List.flatMap_append]

theorem leaving_zero (stop : ℚ) :
    emission.leaving timing 0 (finite stop) =
      (List.range (emission.reached (timing.easing.exactRatio timing.lifespan stop))).flatMap
        emission.indices := by
  rw [zero_eq,leaving,Easing.ratio_finite _ hspan,Easing.ratio_finite _ hspan,
    Easing.exactRatio_zero,due_zero _ (timing.easing.exactRatio_le_one hspan stop)]

theorem leaving_zero_eq_take (stop : ℚ) :
    emission.leaving timing 0 (finite stop) =
      emission.table.take (emission.sentBy timing (finite stop)) := by
  rw [sentBy,emission.leaving_zero hspan]
  exact emission.flatMap_range_eq_take
    (emission.reached_le (timing.easing.exactRatio_le_one hspan stop))

variable [Elementary Extended] {setting : Setting Extended} {b : Behavior Extended}

/-- What leaves in a run is what leaves in one window over all of its time. -/
theorem sent_run {p : Progress Extended} {start : ℚ} {before : List (Call Extended)}
    {c : Call Extended} (h : Run setting b p start (before ++ [c])) :
    ∃ q, ∃ s stop : ℚ, ∃ scene, start ≤ s ∧ s < stop ∧
      c = b.trace setting q (finite s) (finite stop) scene ∧
      emission.sent timing (before ++ [c]) = emission.leaving timing (finite start) (finite stop) := by
  induction before generalizing p start with
  | nil =>
    cases h with
    | @cons _ _ _ stop scene hlt _ =>
      exact ⟨p,start,stop,scene,le_rfl,hlt,rfl,by simp [sent]⟩
  | cons first before ih =>
    rw [List.cons_append] at h
    cases h with
    | @cons _ _ _ m scene hlt hrest =>
      obtain ⟨q,s,stop,last,hs,hstop,hc,hsent⟩ := ih hrest
      refine ⟨q,s,stop,last,hlt.le.trans hs,hstop,hc,?_⟩
      rw [emission.leaving_append hspan hlt.le (hs.trans hstop.le),← hsent,List.cons_append,sent,
        List.flatMap_cons,Behavior.trace_start,Behavior.trace_stop]
      rfl

end
end Emission

section
variable [Elementary Extended]

theorem Emission.sent_eq_table {timing : Timing Extended} (hspan : timing.lifespan.IsSpan)
    {emission : Emission Extended} (htimes : emission.times < UInt64.size)
    {setting : Setting Extended} {p : Progress Extended} {before : List (Call Extended)}
    {c : Call Extended}
    (h : Run setting (.leaf timing (.emit emission)) p 0 (before ++ [c]))
    (hdone : c.status.isDone = true) : emission.sent timing (before ++ [c]) = emission.table := by
  obtain ⟨q,s,stop,scene,hs,hstop,rfl,hsent⟩ := emission.sent_run hspan h
  have hstatus : Status.settle timing.lifespan (finite s) (finite stop) =
      ((Behavior.leaf timing (.emit emission)).trace setting q (finite s) (finite stop) scene).status := by
    rw [Behavior.trace_status]
    rfl
  rw [← hstatus] at hdone
  rw [hsent]
  rcases Status.settle_cases hspan hstop.le with ⟨-,hrun⟩ | ⟨l,hl,hle,-⟩
  · rw [hrun] at hdone
    cases hdone
  · have hratio := timing.easing.exactRatio_eq_one (hs.trans_lt hstop) hle
    rw [← zero_eq,emission.leaving_zero hspan,hl,hratio,emission.reached_one htimes]
    rfl

/-- Every run of an emission goes through its table from the beginning, whatever earlier runs have
left: how much of the table has left depends on the time only, and with the end of the run it is all of
it. The table has each slot once, and each index in it sends out one child, with a behavior that the body
makes at that index. -/
theorem Behavior.emission_sends_table (setting : Setting Extended) (count times parallel : ℕ)
    (body : BehaviorGen Extended) {timing : Timing Extended} (hspan : timing.lifespan.IsSpan) :
    let emission := Emission.capped count times parallel body
    let b := Behavior.leaf timing (.emit emission)
    (∀ progress start stop scene, (b.update setting progress start stop scene).scene =
      ⟨scene.particle,
        emission.sendAll scene.particle scene.stage (emission.leaving timing start stop)⟩) ∧
    (∀ particle stage ks, emission.sendAll particle stage ks =
      let (behaviors,rng) := (ks.mapM fun k => body.generate k).run stage.rng
      let children := behaviors.map fun behavior => { particle := particle.child, behavior }
      { stage with rng, spawned := stage.spawned ++ children.toArray }) ∧
    (∃ length : Extended → ℕ, ∀ progress calls, Run setting b progress 0 calls →
      ∀ c ∈ calls.getLast?, emission.sent timing calls = emission.table.take (length c.stop) ∧
        (c.status.isDone = true → emission.sent timing calls = emission.table)) ∧
    (∀ runs : List (List (Call Extended)),
      (∀ calls ∈ runs, ∃ progress, Run setting b progress 0 calls ∧
        ∃ c ∈ calls.getLast?, c.status.isDone = true) →
      emission.sent timing runs.flatten = (List.replicate runs.length emission.table).flatten) ∧
    (emission.table.map Index.index).Perm (List.range emission.total) ∧
    ∀ k ∈ emission.table, k.total = emission.total := by
  intro emission b
  have htimes : emission.times < UInt64.size :=
    lt_of_le_of_lt (min_le_right times maxSpawn) (by decide)
  have hdone : ∀ progress calls, Run setting b progress 0 calls → ∀ c ∈ calls.getLast?,
      c.status.isDone = true → emission.sent timing calls = emission.table := by
    intro progress calls hrun c hc
    obtain ⟨before,rfl⟩ := List.getLast?_eq_some_iff.mp hc
    exact Emission.sent_eq_table hspan htimes hrun
  refine ⟨fun progress start stop scene => ?_,emission.sendAll_eq_mapM,⟨emission.sentBy timing,?_⟩,
    ?_,emission.index_table_perm,fun k => emission.total_of_mem_table⟩
  · rw [← Emission.fire_eq_sendAll]
    rfl
  · intro progress calls hrun c hc
    refine ⟨?_,hdone progress calls hrun c hc⟩
    obtain ⟨before,rfl⟩ := List.getLast?_eq_some_iff.mp hc
    obtain ⟨q,s,stop,scene,-,-,rfl,hsent⟩ := emission.sent_run hspan hrun
    rw [hsent,Behavior.trace_stop,← zero_eq,emission.leaving_zero_eq_take hspan]
  · intro runs hruns
    induction runs with
    | nil => rfl
    | cons calls runs ih =>
      obtain ⟨⟨progress,hrun,c,hc,hstatus⟩,hrest⟩ := List.forall_mem_cons.mp hruns
      rw [List.flatten_cons,List.length_cons,List.replicate_succ,List.flatten_cons,← ih hrest,
        ← hdone progress calls hrun c hc hstatus]
      exact List.flatMap_append

end

namespace Plain

/-- Two groups of two children each. -/
def rows : Emission Extended := .capped 2 2 1 (.action .nop)

example : rows.table = [⟨0,4⟩,⟨1,4⟩,⟨2,4⟩,⟨3,4⟩] := by decide

/-- A run that begins when the one before has left its mark. -/
def rowCalls : List (Call Extended) :=
  (Behavior.leaf ⟨.easeOut,finite 1⟩ (.emit rows)).calls (setting 1) .fired 0
    ([(1/4,scene),(3/2,scene)].map fun w => (finite w.1,w.2))

theorem rows_sends_table :
    (finite 1).IsSpan ∧
      Run (setting 1) (.leaf ⟨.easeOut,finite 1⟩ (.emit rows)) .fired 0 rowCalls ∧
      (∃ c ∈ rowCalls.getLast?, c.status.isDone = true ∧
        rows.sent ⟨.easeOut,finite 1⟩ rowCalls = rows.table) ∧
      rows.sent ⟨.easeOut,finite 1⟩ [rowCalls,rowCalls].flatten = rows.table ++ rows.table := by
  have hspan : (finite 1).IsSpan := .rational 1
  have hrun : Run (setting 1) (.leaf ⟨.easeOut,finite 1⟩ (.emit rows)) .fired 0 rowCalls :=
    Behavior.run_calls (by decide +kernel)
  have hlast : ∃ c ∈ rowCalls.getLast?, c.status.isDone = true := ⟨_,rfl,by decide +kernel⟩
  obtain ⟨-,-,⟨length,hlength⟩,hruns,-,-⟩ :=
    @Behavior.emission_sends_table _ (setting 1) 2 2 1 (.action .nop) ⟨.easeOut,finite 1⟩ hspan
  obtain ⟨c,hc,hdone⟩ := hlast
  refine ⟨hspan,hrun,⟨c,hc,hdone,(hlength _ _ hrun c hc).2 hdone⟩,?_⟩
  have hboth : rows.sent ⟨.easeOut,finite 1⟩ [rowCalls,rowCalls].flatten =
      [rows.table,rows.table].flatten := by
    refine hruns [rowCalls,rowCalls] fun calls hcalls => ⟨.fired,?_⟩
    obtain rfl : calls = rowCalls := by simpa using hcalls
    exact ⟨hrun,c,hc,hdone⟩
  simpa using hboth

end Plain
end Fireworks
