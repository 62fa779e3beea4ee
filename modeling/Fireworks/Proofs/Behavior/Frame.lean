import Fireworks.Proofs.Behavior.Tree

/-! # What a behavior leaves alone

A behavior touches its scene through the effects of its leaves only: what every leaf keeps, the
whole tree keeps, whatever the windows and whatever the progress.
-/
namespace Fireworks
variable {ν : Type} [Arithmetic ν]

/-- What every call keeps, a chain keeps. -/
theorem Chain.drive_keeps {σ : Type} {I : σ → Prop} {next : ℕ → Option ℕ}
    {call : ℕ → ν → ν → σ → Status ν × σ}
    (hcall : ∀ i start stop state, I state → I (call i start stop state).2) (term : ν) (limit : ℕ)
    (c : Chain ν σ) (hc : I c.state) : I (Chain.drive next call term limit c).state := by
  induction limit generalizing c with
  | zero => exact hc
  | succ limit ih =>
    obtain ⟨now,offset,cursor,state⟩ := c
    cases cursor with
    | none => exact hc
    | some i =>
      unfold Chain.drive
      dsimp only
      split
      · exact hc
      · have hafter := hcall i (now - offset) (term - offset) state hc
        rcases hs : call i (now - offset) (term - offset) state with ⟨status,after⟩
        rw [hs] at hafter
        cases status with
        | running => exact hafter
        | done leftover => exact ih _ hafter

variable [Elementary ν] {setting : Setting ν} {I : Scene ν → Prop}

/-- What an update of a behavior keeps of its scene. -/
def Keeps (setting : Setting ν) (I : Scene ν → Prop) (b : Behavior ν) : Prop :=
  ∀ progress start stop scene, I scene → I (b.update setting progress start stop scene).scene

namespace Behavior

theorem updateNth_keeps {parts : List (Behavior ν)} (h : ∀ part ∈ parts, Keeps setting I part)
    (i : ℕ) (states : List (Progress ν)) (start stop : ν) (scene : Scene ν) (hs : I scene) :
    I (updateNth setting parts i states start stop scene).2.2 := by
  induction parts generalizing i states with
  | nil => exact hs
  | cons first rest ih =>
    obtain ⟨hfirst,hrest⟩ := List.forall_mem_cons.mp h
    cases i with
    | zero => exact hfirst _ start stop scene hs
    | succ i => exact ih hrest i states.tail

theorem updateLanes_keeps {lanes : List (Behavior ν)} (h : ∀ lane ∈ lanes, Keeps setting I lane)
    (ended : List Bool) (states : List (Progress ν)) (start stop leftover : ν) (scene : Scene ν)
    (hs : I scene) : I (updateLanes setting lanes ended states start stop leftover scene).scene := by
  induction lanes generalizing ended states leftover scene with
  | nil => exact hs
  | cons first rest ih =>
    obtain ⟨hfirst,hrest⟩ := List.forall_mem_cons.mp h
    unfold updateLanes
    split
    · exact ih hrest _ _ _ _ hs
    · exact ih hrest _ _ _ _ (hfirst _ start stop scene hs)

/-- What every leaf keeps, the tree keeps. -/
theorem Everywhere.keeps {b : Behavior ν} (hb : b.Everywhere fun node =>
      ∀ timing effect, node = .leaf timing effect → Keeps setting I node) : Keeps setting I b := by
  induction b using Behavior.induct with
  | leaf timing effect => exact hb.here timing effect rfl
  | chain b k h ih =>
    intro progress start stop scene hs
    have hparts : ∀ part ∈ k.parts, Keeps setting I part := fun part hpart =>
      ih part hpart (hb.part (parts_links h ▸ hpart))
    have hcall : ∀ i start stop (state : List (Progress ν) × Scene ν), I state.2 →
        I (k.call setting i start stop state).2.2 := fun i start stop state =>
      updateNth_keeps hparts (k.slot i) state.1 start stop state.2
    rw [update_links setting h]
    exact Chain.drive_keeps hcall _ _ _ hs
  | parallel timing lanes ih =>
    intro progress start stop scene hs
    have hlanes : ∀ lane ∈ lanes, Keeps setting I lane := fun lane hlane =>
      ih lane hlane (hb.part hlane)
    exact updateLanes_keeps hlanes _ _ _ _ _ _ hs

end Behavior
end Fireworks
