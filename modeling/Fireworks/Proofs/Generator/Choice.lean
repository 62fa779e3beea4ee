import Mathlib.Data.Nat.Notation
import Fireworks.Behavior

/-! # The option that a choice comes to

A choice walks along its options up to the place that was picked. It comes to the option there, or past
the last one to what stands for a choice of nothing.
-/
namespace Fireworks

section
variable {α β : Type} {value : α → β} {fallback : β}

theorem walk_eq_elim {walk : List α → ℕ → β} (hnil : ∀ i, walk [] i = fallback)
    (hzero : ∀ first rest, walk (first :: rest) 0 = value first)
    (hsucc : ∀ first rest i, walk (first :: rest) (i + 1) = walk rest i) (options : List α) (i : ℕ) :
    walk options i = options[i]?.elim fallback value := by
  induction options generalizing i with
  | nil => exact hnil i
  | cons first rest ih =>
    cases i with
    | zero => exact hzero first rest
    | succ i => exact (hsucc first rest i).trans (ih i)

theorem elim_getElem?_of_forall {Q : β → Prop} (hfallback : Q fallback) {options : List α}
    (h : ∀ option ∈ options, Q (value option)) (i : ℕ) : Q (options[i]?.elim fallback value) := by
  cases hi : options[i]? with
  | none => exact hfallback
  | some option => exact h option (List.mem_of_getElem? hi)

end

variable {ν : Type} [Arithmetic ν] (k : Index)

theorem NumberGen.generateNth_eq (options : List (NumberGen ν)) (i : ℕ) :
    generateNth k options i = options[i]?.elim (pure 0) (·.generate k) :=
  walk_eq_elim (fun _ => rfl) (fun _ _ => rfl) (fun _ _ _ => rfl) options i

theorem ValueGen.generateNth_eq {α : Type} [Inhabited α] (options : List (ValueGen α)) (i : ℕ) :
    generateNth ν k options i = options[i]?.elim (pure default) (·.generate ν k) :=
  walk_eq_elim (fun _ => rfl) (fun _ _ => rfl) (fun _ _ _ => rfl) options i

theorem BehaviorGen.generateNth_eq (options : List (BehaviorGen ν)) (i : ℕ) :
    generateNth k options i = options[i]?.elim (pure .nop) (·.generate k) :=
  walk_eq_elim (fun _ => rfl) (fun _ _ => rfl) (fun _ _ _ => rfl) options i

end Fireworks
