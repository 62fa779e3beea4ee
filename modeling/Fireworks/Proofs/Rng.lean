import Mathlib.Order.Interval.Set.Basic
import Fireworks.Proofs.ExactTime
import Fireworks.Rng

/-! # Draws

What all draws have in common, whatever the state of the generator: a draw from the unit interval is a
rational number there that is never one, and a place drawn in a list that is not empty is in the list.
-/
namespace Fireworks
open Extended

namespace Rng

theorem toNat_shiftRight (x : UInt64) : (x >>> 11).toNat = x.toNat / 2048 := by
  rw [UInt64.toNat_shiftRight,Nat.shiftRight_eq_div_pow]
  rfl

theorem toNat_shiftRight_lt (x : UInt64) : (x >>> 11).toNat < 9007199254740992 := by
  have hword := x.toNat_lt
  rw [toNat_shiftRight]
  omega

theorem unit_eq (rng : Rng) : (rng.unit : Extended × Rng).1 =
    finite ((rng.next.1 >>> 11).toNat / (9007199254740992 : ℕ)) :=
  finite_div _ _ (Nat.cast_ne_zero.mpr (Nat.succ_ne_zero _))

theorem exists_unit_mem (rng : Rng) : ∃ q ∈ Set.Ico (0 : ℚ) 1, (rng.unit : Extended × Rng).1 = finite q := by
  have hbits : (((rng.next.1 >>> 11).toNat : ℕ) : ℚ) < (9007199254740992 : ℕ) :=
    Nat.cast_lt.mpr (toNat_shiftRight_lt rng.next.1)
  have hpos : (0 : ℚ) < (9007199254740992 : ℕ) := Nat.cast_pos.mpr (Nat.succ_pos _)
  refine ⟨_,⟨?_,?_⟩,rng.unit_eq⟩
  · exact div_nonneg (Nat.cast_nonneg _) hpos.le
  · exact (div_lt_one hpos).mpr hbits

theorem index_lt {ν : Type} [Arithmetic ν] {size : ℕ} (h : 0 < size) (rng : Rng) :
    (index ν size rng).1 < size := by
  unfold index
  rw [if_neg h.ne']
  exact Nat.mod_lt _ h

end Rng

end Fireworks
