import Fireworks.Proofs.Rng
import Fireworks.Proofs.Rng.Scramble

/-! # Sequences of draws

Whatever is drawn, a generator goes on by single steps, one for each word that is taken from it. As the step
is a permutation that moves all words but zero, a generator made from a seed never stops, and two generators
stay apart for as long as they are in step.
-/
namespace Fireworks
open Extended Function

/-- What may be drawn from a generator. -/
inductive Draw (ν : Type) where
  | word
  | unit
  | between (low high : ν)
  | index (size : ℕ)

namespace Draw
variable {ν : Type}

/-- The number of words that a draw takes. A place in an empty list takes none. -/
def words : Draw ν → ℕ
  | .index size => if size = 0 then 0 else 1
  | _ => 1

def wordsAll (draws : List (Draw ν)) : ℕ := (draws.map words).sum

end Draw

namespace Rng
variable {ν : Type} [Arithmetic ν]

/-- What a draw leaves of a generator. -/
def draw (rng : Rng) : Draw ν → Rng
  | .word => rng.next.2
  | .unit => (rng.unit : ν × Rng).2
  | .between low high => (rng.between low high).2
  | .index size => (rng.index ν size).2

def after (draws : List (Draw ν)) (rng : Rng) : Rng := draws.foldl draw rng

theorem state_draw (rng : Rng) (d : Draw ν) : (rng.draw d).state = scramble^[d.words] rng.state := by
  cases d with
  | word => rfl
  | unit => rfl
  | between low high => rfl
  | index size =>
    by_cases hsize : size = 0
    · simp only [draw,index,Draw.words,if_pos hsize,iterate_zero_apply]
    · simp only [draw,index,Draw.words,if_neg hsize]
      rfl

theorem state_after (rng : Rng) (draws : List (Draw ν)) :
    (rng.after draws).state = scramble^[Draw.wordsAll draws] rng.state := by
  induction draws generalizing rng with
  | nil => rfl
  | cons d draws ih =>
    have hwords : Draw.wordsAll (d :: draws) = Draw.wordsAll draws + d.words := Nat.add_comm _ _
    have hafter : rng.after (d :: draws) = (rng.draw d).after draws := rfl
    rw [hwords,hafter,iterate_add_apply,ih,state_draw]

theorem state_ofSeed_ne_zero (seed : UInt64) : (ofSeed seed).state ≠ 0 := by
  unfold ofSeed
  by_cases hseed : seed = 0
  · rw [if_pos hseed]
    decide
  · rwa [if_neg hseed]

theorem state_after_ne_zero {rng : Rng} (h : rng.state ≠ 0) (draws : List (Draw ν)) :
    (rng.after draws).state ≠ 0 := by
  have hzero : scramble^[Draw.wordsAll draws] 0 = 0 := iterate_fixed rfl _
  rw [state_after]
  exact fun hstate => h (bijective_scramble.injective.iterate _ (hstate.trans hzero.symm))

theorem state_after_inj {a b : Rng} {draws draws' : List (Draw ν)}
    (h : Draw.wordsAll draws = Draw.wordsAll draws') :
    (a.after draws).state = (b.after draws').state ↔ a.state = b.state := by
  rw [state_after,state_after,h]
  exact (bijective_scramble.injective.iterate _).eq_iff

/-- A step permutes the states, and it takes none but zero to zero and leaves none but zero where it is. So
a generator made from a seed is never in the state zero, whatever is drawn from it, and two generators in
different states are in different states after equally many words are drawn from both. A draw from the unit
interval is the upper 53 bits of the next word over `2 ^ 53`, whatever numbers it is made in, and a place
drawn in a list that is not empty is in the list. -/
theorem next_permutes :
    (Bijective fun x : UInt64 => (⟨x⟩ : Rng).next.2.state) ∧
    (∀ rng : Rng, (rng.next.2.state = 0 ↔ rng.state = 0) ∧ (rng.next.2 = rng ↔ rng.state = 0)) ∧
    (∀ seed (draws : List (Draw ν)), ((ofSeed seed).after draws).state ≠ 0) ∧
    (∀ (a b : Rng) (draws draws' : List (Draw ν)), Draw.wordsAll draws = Draw.wordsAll draws' →
      a.state ≠ b.state → (a.after draws).state ≠ (b.after draws').state) ∧
    (∀ rng : Rng, let m := rng.next.1.toNat / 2 ^ 11
      m < 2 ^ 53 ∧
      (∀ (μ : Type) [Arithmetic μ],
        (rng.unit : μ × Rng).1 = Arithmetic.ofNat m / Arithmetic.ofNat (2 ^ 53)) ∧
      (rng.unit : Extended × Rng).1 = finite (m / 2 ^ 53)) ∧
    ∀ (rng : Rng) (size : ℕ), 0 < size → (rng.index ν size).1 < size := by
  refine ⟨bijective_scramble,fun rng => ⟨scramble_eq_zero_iff,?_⟩,fun seed draws => ?_,
    fun a b draws draws' hwords hne => ?_,fun rng => ?_,fun rng size hsize => index_lt hsize rng⟩
  · rw [← scramble_eq_self_iff]
    exact ⟨congrArg state,congrArg Rng.mk⟩
  · exact state_after_ne_zero (state_ofSeed_ne_zero seed) draws
  · exact mt (state_after_inj hwords).mp hne
  · intro m
    have hbits : m = (rng.next.1 >>> 11).toNat := (toNat_shiftRight rng.next.1).symm
    rw [hbits]
    refine ⟨toNat_shiftRight_lt rng.next.1,fun μ _ => rfl,?_⟩
    rw [unit_eq]
    norm_num

end Rng

namespace Plain

def wordAndUnit : List (Draw Extended) := [.word,.index 0,.unit]

def betweenAndIndex : List (Draw Extended) := [.between 2 4,.index 3]

theorem seeds_permute : Draw.wordsAll wordAndUnit = Draw.wordsAll betweenAndIndex ∧
    (Rng.ofSeed 0).state ≠ (Rng.ofSeed 2).state ∧
    ((Rng.ofSeed 0).after wordAndUnit).state ≠ ((Rng.ofSeed 2).after betweenAndIndex).state ∧
    ((Rng.ofSeed 2).index Extended 3).1 < 3 := by
  have hwords : Draw.wordsAll wordAndUnit = Draw.wordsAll betweenAndIndex := rfl
  have hstates : (Rng.ofSeed 0).state ≠ (Rng.ofSeed 2).state := by decide
  obtain ⟨-,-,-,hapart,-,hindex⟩ := @Rng.next_permutes Extended _
  exact ⟨hwords,hstates,hapart _ _ wordAndUnit betweenAndIndex hwords hstates,hindex _ 3 (by decide)⟩

end Plain
end Fireworks
