import Fireworks.Proofs.Behavior.Offspring

/-! # The table of slots

What is asked of an emission is cut until all of its children fit, and no further than that. The table
of the cut emission is worked out here once more in machine words, where every sum and every product is
checked: whatever is asked for, none of them overflows, and the table has each slot once.
-/
namespace Fireworks

/-- A number as a word of 64 bits, if it is one. -/
def word (n : ℕ) : Option ℕ := if n < UInt64.size then some n else none

theorem word_of_lt {n : ℕ} (h : n < UInt64.size) : word n = some n := if_pos h

theorem word_bind {α : Type} {n : ℕ} (h : n < UInt64.size) (f : ℕ → Option α) : (word n >>= f) = f n := by
  rw [word_of_lt h]
  rfl

theorem mapM_eq_some {α β : Type} {f : α → Option β} {g : α → β} {xs : List α}
    (h : ∀ x ∈ xs, f x = some (g x)) : xs.mapM f = some (xs.map g) := by
  induction xs with
  | nil => rfl
  | cons x xs ih =>
    obtain ⟨hx,hxs⟩ := List.forall_mem_cons.mp h
    rw [List.mapM_cons,hx,ih hxs]
    rfl

namespace Emission
variable {ν : Type}

def groups (emission : Emission ν) : List (List ℕ) := (List.range emission.times).map emission.slots

def slotInWords (count times group n p : ℕ) : Option ℕ := do
  let column ← word (count * group)
  let place ← word (n + column)
  let row ← word (times * count)
  let pass ← word (row * p)
  word (place + pass)

def slotsInWords (count times parallel group : ℕ) : Option (List ℕ) := do
  let rows ← (List.range count).mapM fun n =>
    (List.range parallel).mapM fun p => slotInWords count times group n p
  return rows.flatten

/-- All groups and the number of their children, or nothing if a sum or a product on the way is no
word. -/
def fillInWords (count times parallel : ℕ) : Option (List (List ℕ) × ℕ) := do
  let groups ← (List.range times).mapM (slotsInWords count times parallel)
  let columns ← word (count * times)
  let total ← word (columns * parallel)
  return (groups,total)

def tableInWords (count times parallel : ℕ) : Option (List (List ℕ) × ℕ) :=
  let times := min times maxSpawn
  let parallel := min parallel (maxSpawn / max times 1)
  -- This product is the only one that is held at the greatest word instead of being checked.
  let lanes := min (times * parallel) (UInt64.size - 1)
  fillInWords (min count (maxSpawn / max lanes 1)) times parallel

/-- An emission with at most `maxSpawn` children, which is within that bound in each of its counts. -/
structure Fits (emission : Emission ν) : Prop where
  count_le : emission.count ≤ maxSpawn
  times_le : emission.times ≤ maxSpawn
  lanes_le : emission.times * emission.parallel ≤ maxSpawn
  total_le : emission.total ≤ maxSpawn

namespace Fits
variable {emission : Emission ν}

theorem slotInWords_eq (h : emission.Fits) {group n p : ℕ} (hgroup : group < emission.times)
    (hn : n < emission.count) (hp : p < emission.parallel) :
    slotInWords emission.count emission.times group n p =
      some (n + emission.count * group + emission.times * emission.count * p) := by
  have hcount := h.count_le
  have hcolumn : emission.count * group ≤ maxSpawn * maxSpawn :=
    Nat.mul_le_mul hcount (hgroup.le.trans h.times_le)
  have hrow : emission.times * emission.count ≤ maxSpawn * maxSpawn := Nat.mul_le_mul h.times_le hcount
  have hpass : emission.times * emission.count * p ≤ maxSpawn :=
    calc emission.times * emission.count * p
      _ ≤ emission.times * emission.count * emission.parallel := Nat.mul_le_mul_left _ hp.le
      _ = emission.total := by rw [total,Nat.mul_comm emission.times]
      _ ≤ maxSpawn := h.total_le
  have hsize : maxSpawn + maxSpawn * maxSpawn + maxSpawn < UInt64.size := by decide
  rw [slotInWords,word_bind (by omega),word_bind (by omega),word_bind (by omega),word_bind (by omega)]
  exact word_of_lt (by omega)

theorem slotsInWords_eq (h : emission.Fits) {group : ℕ} (hgroup : group < emission.times) :
    slotsInWords emission.count emission.times emission.parallel group = some (emission.slots group) := by
  have hrow : ∀ n ∈ List.range emission.count,
      ((List.range emission.parallel).mapM fun p => slotInWords emission.count emission.times group n p) =
        some ((List.range emission.parallel).map fun p =>
          n + emission.count * group + emission.times * emission.count * p) := by
    intro n hn
    exact mapM_eq_some fun p hp => h.slotInWords_eq hgroup (List.mem_range.mp hn) (List.mem_range.mp hp)
  rw [slotsInWords,mapM_eq_some hrow]
  rfl

theorem fillInWords_eq (h : emission.Fits) :
    fillInWords emission.count emission.times emission.parallel = some (emission.groups,emission.total) := by
  have hcolumns : emission.count * emission.times ≤ maxSpawn * maxSpawn :=
    Nat.mul_le_mul h.count_le h.times_le
  have htotal : emission.count * emission.times * emission.parallel ≤ maxSpawn := h.total_le
  have hsize : maxSpawn + maxSpawn * maxSpawn < UInt64.size := by decide
  have hgroups : ∀ group ∈ List.range emission.times,
      slotsInWords emission.count emission.times emission.parallel group = some (emission.slots group) :=
    fun group hgroup => h.slotsInWords_eq (List.mem_range.mp hgroup)
  rw [fillInWords,mapM_eq_some hgroups]
  dsimp only [Option.bind_eq_bind,Option.bind_some]
  rw [← Option.bind_eq_bind,word_bind (by omega),word_bind (by omega)]
  rfl

end Fits

section
variable (emission : Emission ν)

theorem map_index_table : emission.table.map Index.index = emission.groups.flatten := by
  have hgroup : ∀ group, (emission.indices group).map Index.index = emission.slots group := by
    intro group
    rw [indices,List.map_map]
    exact List.map_id _
  rw [table,List.map_flatMap,groups,← List.flatMap_def]
  simp only [hgroup]

theorem flatten_groups_perm : emission.groups.flatten.Perm (List.range emission.total) :=
  emission.map_index_table ▸ emission.index_table_perm

theorem index_lt_of_mem_table {k : Index} (hk : k ∈ emission.table) : k.index < k.total := by
  have hmem : k.index ∈ List.range emission.total :=
    emission.index_table_perm.subset (List.mem_map_of_mem hk)
  rw [emission.total_of_mem_table hk]
  exact List.mem_range.mp hmem

/-- Whatever the ratios, the groups that leave are groups of the table. -/
theorem mem_table_of_mem_leaving [Arithmetic ν] {timing : Timing ν} {start stop : ν} {k : Index}
    (hk : k ∈ emission.leaving timing start stop) : k ∈ emission.table := by
  obtain ⟨group,hgroup,hk⟩ := List.mem_flatMap.mp hk
  obtain ⟨i,hi,rfl⟩ := List.mem_range'.mp hgroup
  refine List.mem_flatMap.mpr ⟨_,List.mem_range.mpr ?_,hk⟩
  omega

end

section
variable (count times parallel : ℕ) (body : BehaviorGen ν)

theorem fits_capped : (capped count times parallel body).Fits := by
  let emission := capped count times parallel body
  have htimes : emission.times ≤ maxSpawn := min_le_right _ _
  have hlanes : emission.times * emission.parallel ≤ maxSpawn :=
    calc emission.times * emission.parallel
      _ ≤ max emission.times 1 * (maxSpawn / max emission.times 1) :=
          Nat.mul_le_mul (le_max_left _ _) (min_le_right _ _)
      _ ≤ maxSpawn := Nat.mul_div_le _ _
  have hcount : emission.count ≤ maxSpawn := (min_le_right _ _).trans (Nat.div_le_self _ _)
  exact ⟨hcount,htimes,hlanes,total_capped_le count times parallel body⟩

/-- Worked out in words, the table of a request is that of its cut emission. -/
theorem tableInWords_eq :
    tableInWords count times parallel =
      some ((capped count times parallel body).groups,(capped count times parallel body).total) := by
  let emission := capped count times parallel body
  have hfits : emission.Fits := fits_capped count times parallel body
  have hlanes : min (emission.times * emission.parallel) (UInt64.size - 1) =
      emission.times * emission.parallel := by
    have hle := hfits.lanes_le
    have hsize : maxSpawn ≤ UInt64.size - 1 := by decide
    omega
  have htable : tableInWords count times parallel =
      fillInWords (min count (maxSpawn / max (min (emission.times * emission.parallel) (UInt64.size - 1)) 1))
        emission.times emission.parallel := rfl
  rw [htable,hlanes]
  exact hfits.fillInWords_eq

variable {count times parallel}

/-- A request that fits is left as it is. -/
theorem capped_of_le (hpos : 0 < count * times * parallel) (hle : count * times * parallel ≤ maxSpawn) :
    capped count times parallel body = ⟨count,times,parallel,body⟩ := by
  have hparallel : 0 < parallel := Nat.pos_of_mul_pos_left hpos
  have htimes : 0 < times := Nat.pos_of_mul_pos_left (Nat.pos_of_mul_pos_right hpos)
  have hcount : 0 < count := Nat.pos_of_mul_pos_right (Nat.pos_of_mul_pos_right hpos)
  have hle' : count * (times * parallel) ≤ maxSpawn := Nat.mul_assoc count times parallel ▸ hle
  have hlanes : times * parallel ≤ maxSpawn := (Nat.le_mul_of_pos_left _ hcount).trans hle'
  have h₁ : min times maxSpawn = times :=
    min_eq_left ((Nat.le_mul_of_pos_right _ hparallel).trans hlanes)
  have h₂ : min parallel (maxSpawn / max times 1) = parallel := by
    rw [max_eq_left htimes]
    exact min_eq_left ((Nat.le_div_iff_mul_le htimes).mpr (Nat.mul_comm times parallel ▸ hlanes))
  have h₃ : min count (maxSpawn / max (times * parallel) 1) = count := by
    rw [max_eq_left (Nat.mul_pos htimes hparallel)]
    exact min_eq_left ((Nat.le_div_iff_mul_le (Nat.mul_pos htimes hparallel)).mpr hle')
  simp only [capped,h₁,h₂,h₃]

theorem total_capped_pos (hcount : 0 < count) (htimes : 0 < times) (hparallel : 0 < parallel) :
    0 < (capped count times parallel body).total := by
  let emission := capped count times parallel body
  have hfits : emission.Fits := fits_capped count times parallel body
  have htimes' : 0 < emission.times := lt_min htimes (by decide)
  have hparallel' : 0 < emission.parallel := by
    refine lt_min hparallel (Nat.div_pos ?_ (by omega))
    exact max_le hfits.times_le (by decide)
  have hcount' : 0 < emission.count := by
    refine lt_min hcount (Nat.div_pos ?_ (by omega))
    exact max_le hfits.lanes_le (by decide)
  exact Nat.mul_pos (Nat.mul_pos hcount' htimes') hparallel'

/-- Of the count no more is cut than the kept groups and parallel children need. -/
theorem maxSpawn_lt_of_count_lt (htimes : 0 < (capped count times parallel body).times)
    (hparallel : 0 < (capped count times parallel body).parallel) {larger : ℕ}
    (hlt : (capped count times parallel body).count < larger) (hle : larger ≤ count) :
    maxSpawn < larger * (capped count times parallel body).times *
      (capped count times parallel body).parallel := by
  let emission := capped count times parallel body
  have hlanes : 0 < emission.times * emission.parallel := Nat.mul_pos htimes hparallel
  have hcount : emission.count = min count (maxSpawn / (emission.times * emission.parallel)) := by
    rw [← max_eq_left (a := emission.times * emission.parallel) (b := 1) hlanes]
    rfl
  have hdiv : maxSpawn / (emission.times * emission.parallel) < larger := by
    change emission.count < larger at hlt
    omega
  rw [Nat.mul_assoc]
  exact (Nat.div_lt_iff_lt_mul hlanes).mp hdiv

end

/-- Whatever is asked of an emission, its table is worked out without an overflow: at most `maxSpawn`
groups of equal length, which have each slot below the total once, and at most `maxSpawn` of them. Every
index that a child is made with is below its total. A request that fits is left as it is, one for some
children keeps some, and the count is not cut further than it has to be. -/
theorem capped_table [Arithmetic ν] (count times parallel : ℕ) (body : BehaviorGen ν) :
    let emission := capped count times parallel body
    tableInWords count times parallel = some (emission.groups,emission.total) ∧
      emission.groups.length = min times maxSpawn ∧
      (∀ group ∈ emission.groups, group.length = emission.count * emission.parallel) ∧
      emission.total ≤ maxSpawn ∧
      emission.groups.flatten.Perm (List.range emission.total) ∧
      (∀ (timing : Timing ν) (start stop : ν), ∀ k ∈ emission.leaving timing start stop,
        k.total = emission.total ∧ k.index < k.total) ∧
      (0 < count * times * parallel → count * times * parallel ≤ maxSpawn →
        emission = ⟨count,times,parallel,body⟩ ∧ emission.total = count * times * parallel) ∧
      (0 < count → 0 < times → 0 < parallel → 0 < emission.total) ∧
      (0 < emission.times → 0 < emission.parallel → ∀ larger, emission.count < larger → larger ≤ count →
        maxSpawn < larger * emission.times * emission.parallel) := by
  intro emission
  refine ⟨tableInWords_eq count times parallel body,?_,?_,total_capped_le count times parallel body,
    emission.flatten_groups_perm,?_,?_,total_capped_pos body,?_⟩
  · simp only [groups,List.length_map,List.length_range]
    rfl
  · intro group hgroup
    obtain ⟨i,-,rfl⟩ := List.mem_map.mp hgroup
    exact emission.length_slots i
  · intro timing start stop k hk
    have hmem := emission.mem_table_of_mem_leaving hk
    exact ⟨emission.total_of_mem_table hmem,emission.index_lt_of_mem_table hmem⟩
  · intro hpos hle
    have heq : emission = ⟨count,times,parallel,body⟩ := capped_of_le body hpos hle
    exact ⟨heq,by rw [heq]; rfl⟩
  · exact fun htimes hparallel larger => maxSpawn_lt_of_count_lt body htimes hparallel

example : tableInWords 2 3 2 = some ([[0,6,1,7],[2,8,3,9],[4,10,5,11]],12) := by decide

end Emission

end Fireworks
