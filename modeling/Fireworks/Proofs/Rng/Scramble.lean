import Mathlib.Algebra.Order.Ring.Nat
import Mathlib.Logic.Function.Iterate
import Fireworks.Rng

/-! # No state is lost

A step of the generator is made of three stages, and each of them adds a shifted word to itself, bit by bit.
What a stage adds is gone after enough shifts, so that stages enough of one kind change nothing: a stage is
undone by more of it. Hence the step is a permutation of the words, and it moves all of them but zero.
-/
namespace Fireworks
open Function

namespace Word

def up (k x : UInt64) : UInt64 := x <<< k

def down (k x : UInt64) : UInt64 := x >>> k

/-- Adds to a word, bit by bit, what a map makes of it. -/
def mix (σ : UInt64 → UInt64) (x : UInt64) : UInt64 := x ^^^ σ x

/-- A map that may be taken of the bits of a word one by one. -/
def Linear (σ : UInt64 → UInt64) : Prop := ∀ x y, σ (x ^^^ y) = σ x ^^^ σ y

theorem xor_cancel (x y z : UInt64) : x ^^^ y ^^^ (y ^^^ z) = x ^^^ z := by
  rw [UInt64.xor_assoc,← UInt64.xor_assoc y,UInt64.xor_self,UInt64.zero_xor]

theorem xor_xor_xor_comm (x y z w : UInt64) : x ^^^ y ^^^ (z ^^^ w) = x ^^^ z ^^^ (y ^^^ w) := by
  ac_rfl

theorem mix_apply (σ : UInt64 → UInt64) (x : UInt64) : mix σ x = x ^^^ σ x := rfl

theorem up_xor (k x y : UInt64) : up k (x ^^^ y) = up k x ^^^ up k y := UInt64.shiftLeft_xor

theorem down_xor (k x y : UInt64) : down k (x ^^^ y) = down k x ^^^ down k y := UInt64.shiftRight_xor

theorem linear_up (k : UInt64) : Linear (up k) := up_xor k

theorem linear_down (k : UInt64) : Linear (down k) := down_xor k

theorem up_comm (i j x : UInt64) : up i (up j x) = up j (up i x) := by
  simp only [up,← UInt64.toBitVec_inj,UInt64.toBitVec_shiftLeft,BitVec.shiftLeft_eq',
    ← BitVec.shiftLeft_add,Nat.add_comm]

/-! ## Adding is undone by adding more -/

section Mix
variable {σ τ : UInt64 → UInt64}

theorem Linear.comp (hσ : Linear σ) (hτ : Linear τ) : Linear (σ ∘ τ) := by
  intro x y
  rw [comp_apply,hτ,hσ]
  rfl

theorem Linear.iterate (h : Linear σ) (n : ℕ) : Linear σ^[n] := by
  induction n with
  | zero => exact fun _ _ => rfl
  | succ n ih => exact ih.comp h

theorem linear_mix (h : Linear σ) : Linear (mix σ) := by
  intro x y
  rw [mix_apply,h,xor_xor_xor_comm]
  rfl

/-- What both rounds add to the word itself is gone, and only what the second adds to the first stays. -/
theorem Linear.mix_comp_mix (h : Linear σ) : mix σ ∘ mix σ = mix (σ ∘ σ) := by
  funext x
  unfold mix
  rw [comp_apply,h,xor_cancel]
  rfl

theorem Linear.iterate_mix (h : Linear σ) (n : ℕ) : (mix σ)^[2 ^ n] = mix σ^[2 ^ n] := by
  induction n with
  | zero => rfl
  | succ n ih =>
    rw [pow_succ,mul_two,iterate_add,ih,(h.iterate _).mix_comp_mix,← iterate_add]

variable {n : ℕ} (h : Linear σ) (hgone : ∀ x, σ^[2 ^ n] x = 0)
include h hgone

theorem Linear.iterate_mix_eq_self (x : UInt64) : (mix σ)^[2 ^ n] x = x := by
  rw [h.iterate_mix]
  unfold mix
  rw [hgone,UInt64.xor_zero]

theorem Linear.bijective_mix : Bijective (mix σ) := by
  have hround := h.iterate_mix_eq_self hgone
  obtain ⟨m,hm⟩ := Nat.exists_eq_succ_of_ne_zero (Nat.two_pow_pos n).ne'
  rw [hm] at hround
  refine bijective_iff_has_inverse.mpr ⟨(mix σ)^[m],fun x => hround x,fun x => ?_⟩
  rw [← iterate_succ_apply' (mix σ),hround]

end Mix

/-! ## Shifted often enough, a word is gone -/

section Shift
variable {σ : UInt64 → UInt64} {k : UInt64} {n : ℕ}

theorem iterate_eq_zero_of_shift {shift : BitVec 64 → ℕ → BitVec 64} (hzero : ∀ x, shift x 0 = x)
    (hadd : ∀ x i j, shift x (i + j) = shift (shift x i) j) (hover : ∀ x i, 64 ≤ i → shift x i = 0)
    (h : ∀ x, (σ x).toBitVec = shift x.toBitVec (k.toNat % 64)) (hn : 64 ≤ n * (k.toNat % 64)) (x : UInt64) :
    σ^[n] x = 0 := by
  have hshift : ∀ n, (σ^[n] x).toBitVec = shift x.toBitVec (n * (k.toNat % 64)) := by
    intro n
    induction n with
    | zero => rw [Nat.zero_mul,hzero,iterate_zero_apply]
    | succ n ih => rw [iterate_succ_apply',h,ih,← hadd,← Nat.succ_mul]
  rw [← UInt64.toBitVec_inj,hshift,hover _ _ hn]
  rfl

theorem iterate_up (hn : 64 ≤ n * (k.toNat % 64)) (x : UInt64) : (up k)^[n] x = 0 :=
  iterate_eq_zero_of_shift BitVec.shiftLeft_zero BitVec.shiftLeft_add
    (fun _ _ => BitVec.shiftLeft_eq_zero) (fun _ => UInt64.toBitVec_shiftLeft _ _) hn x

theorem iterate_down (hn : 64 ≤ n * (k.toNat % 64)) (x : UInt64) : (down k)^[n] x = 0 :=
  iterate_eq_zero_of_shift BitVec.ushiftRight_zero BitVec.shiftRight_add
    (fun _ _ => BitVec.ushiftRight_eq_zero) (fun _ => UInt64.toBitVec_shiftRight _ _) hn x

end Shift

theorem down_up_down (x : UInt64) : down 7 (up 7 (down 7 x)) = down 7 x := by
  have hword := x.toNat_lt
  unfold up down
  rw [← UInt64.toNat_inj,UInt64.toNat_shiftRight,UInt64.toNat_shiftLeft,UInt64.toNat_shiftRight,
    Nat.shiftRight_eq_div_pow,Nat.shiftRight_eq_div_pow,Nat.shiftLeft_eq]
  change x.toNat / 128 * 128 % 18446744073709551616 / 128 = x.toNat / 128
  omega

theorem toNat_lt_of_down {x : UInt64} (h : down 7 x = 0) : x.toNat < 128 := by
  unfold down at h
  rw [← UInt64.toNat_inj,UInt64.toNat_shiftRight,Nat.shiftRight_eq_div_pow] at h
  change x.toNat / 128 = 0 at h
  omega

end Word

namespace Rng
open Word

theorem scramble_eq : scramble = mix (up 17) ∘ mix (down 7) ∘ mix (up 13) := rfl

theorem bijective_scramble : Bijective scramble := by
  -- Eight shifts by 13, sixteen by 7 and four by 17 leave nothing of a word.
  have hfirst : Bijective (mix (up 13)) := (linear_up 13).bijective_mix (n := 3) (iterate_up (by decide))
  have hmiddle : Bijective (mix (down 7)) :=
    (linear_down 7).bijective_mix (n := 4) (iterate_down (by decide))
  have hlast : Bijective (mix (up 17)) := (linear_up 17).bijective_mix (n := 2) (iterate_up (by decide))
  rw [scramble_eq]
  exact hlast.comp (hmiddle.comp hfirst)

theorem scramble_eq_zero_iff {x : UInt64} : scramble x = 0 ↔ x = 0 :=
  bijective_scramble.injective.eq_iff' rfl

/-! ## The word that stays

Between the last stage and the first one after it, a word that stays is one to which these two add just what
the middle stage takes from the sum. So its bits follow from low to high, all but the lowest seven.
-/

/-- What the last stage and the first one after it add, thirteen bits lower. -/
def share (z : UInt64) : UInt64 := z ^^^ up 4 z ^^^ up 17 z

/-- What these two stages add. -/
def carry (z : UInt64) : UInt64 := up 13 (share z)

/-- What they add, and that once more where the middle stage takes it from. -/
def carryOn (z : UInt64) : UInt64 := up 13 (mix (up 7) (share z))

theorem mix_carry (z : UInt64) : mix (up 13) (mix (up 17) z) = mix carry z := by
  have hsum : up 17 z = up 13 (up 4 z) :=
    UInt64.shiftLeft_add (b := 4) (c := 13) (by decide) (by decide) (by decide)
  calc mix (up 13) (mix (up 17) z)
    _ = z ^^^ up 17 z ^^^ (up 13 z ^^^ up 13 (up 17 z)) := by rw [mix_apply,mix_apply,up_xor]
    _ = z ^^^ (up 13 z ^^^ up 13 (up 4 z) ^^^ up 13 (up 17 z)) := by
        rw [xor_xor_xor_comm,UInt64.xor_assoc,UInt64.xor_assoc,hsum]
    _ = mix carry z := by
        rw [mix_apply,carry,share,up_xor,up_xor]

theorem mix_carryOn (z : UInt64) : mix carryOn z = mix carry z ^^^ up 7 (carry z) := by
  rw [mix_apply,mix_apply,carryOn,mix_apply,up_xor,up_comm 13 7,← UInt64.xor_assoc]
  rfl

theorem linear_share : Linear share := by
  intro x y
  unfold share
  rw [up_xor,up_xor,xor_xor_xor_comm x,xor_xor_xor_comm (x ^^^ up 4 x)]

theorem linear_carryOn : Linear carryOn :=
  (linear_up 13).comp ((linear_mix (linear_up 7)).comp linear_share)

theorem iterate_carryOn (z : UInt64) : carryOn^[2 ^ 3] z = 0 := by
  have hcomm : Function.Commute (up 13) (mix (up 7) ∘ share) := by
    intro x
    change up 13 (mix (up 7) (share x)) = mix (up 7) (share (up 13 x))
    simp only [mix_apply,share,up_xor,up_comm 13]
  have hiterate : carryOn^[2 ^ 3] = (up 13)^[2 ^ 3] ∘ (mix (up 7) ∘ share)^[2 ^ 3] := hcomm.comp_iterate _
  rw [hiterate]
  exact iterate_up (by decide) _

/-- The seven lowest bits decide the rest, and none but zeros lead to a word that stays. -/
theorem eq_zero_of_lt : ∀ c < 128, let z := (mix carryOn)^[7] (UInt64.ofNat c);
    down 7 (mix carry z) = carry z → z = 0 := by
  decide +kernel

theorem eq_zero_of_mix_carry {z : UInt64} (h : down 7 (mix carry z) = carry z) : z = 0 := by
  -- The sum without what the middle stage takes, shifted back, is its seven lowest bits.
  have hlow : down 7 (mix carryOn z) = 0 := by
    rw [mix_carryOn,down_xor,h,← h,down_up_down,UInt64.xor_self]
  have hz : (mix carryOn)^[7] (UInt64.ofNat (mix carryOn z).toNat) = z := by
    rw [UInt64.ofNat_toNat]
    exact linear_carryOn.iterate_mix_eq_self iterate_carryOn z
  have hzero := eq_zero_of_lt _ (toNat_lt_of_down hlow)
  rw [hz] at hzero
  exact hzero h

theorem scramble_eq_self_iff {x : UInt64} : scramble x = x ↔ x = 0 := by
  constructor
  · intro h
    let z := mix (down 7) (mix (up 13) x)
    have hx : mix (up 17) z = x := h
    have hz : z = mix (down 7) (mix carry z) := by
      rw [← mix_carry,hx]
    have hcarry : carry z ^^^ down 7 (mix carry z) = 0 := by
      rw [mix_apply,mix_apply carry,UInt64.xor_assoc] at hz
      exact (UInt64.xor_right_inj z).mp (hz.symm.trans UInt64.xor_zero.symm)
    rw [← hx,eq_zero_of_mix_carry (UInt64.xor_eq_zero_iff.mp hcarry).symm]
    rfl
  · rintro rfl
    rfl

end Rng
end Fireworks
