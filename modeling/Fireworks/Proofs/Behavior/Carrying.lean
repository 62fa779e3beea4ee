import Fireworks.Proofs.Behavior.Frame

/-! # What a behavior cannot see

A behavior reads its scene through the effects of its leaves only. A change of scenes that no leaf
notices passes through the whole tree: run on the changed scene, the tree makes the same progress, and
leaves the changed form of the scene that it would have left.
-/
namespace Fireworks
variable {ν : Type} [Arithmetic ν]

namespace Chain
variable {σ τ : Type}

def mapState (f : σ → τ) (c : Chain ν σ) : Chain ν τ := ⟨c.now,c.offset,c.cursor,f c.state⟩

/-- A change of states that every call passes on, a chain passes on. -/
theorem drive_mapState {f : σ → τ} {next : ℕ → Option ℕ} {call : ℕ → ν → ν → σ → Status ν × σ}
    {call' : ℕ → ν → ν → τ → Status ν × τ}
    (hcall : ∀ i start stop state, call' i start stop (f state) =
      ((call i start stop state).1,f (call i start stop state).2))
    (term : ν) (limit : ℕ) (c : Chain ν σ) :
    drive next call' term limit (c.mapState f) = (drive next call term limit c).mapState f := by
  induction limit generalizing c with
  | zero => rfl
  | succ limit ih =>
    obtain ⟨now,offset,cursor,state⟩ := c
    cases cursor with
    | none => rfl
    | some i =>
      by_cases hterm : term ≤ now
      · simp only [drive,mapState,hterm,↓reduceIte]
      · simp only [drive,mapState,hterm,↓reduceIte,hcall]
        rcases call i (now - offset) (term - offset) state with ⟨status,after⟩
        cases status with
        | running => rfl
        | done leftover => exact ih ⟨term - leftover,term - leftover,next (i + 1),after⟩

end Chain

def Outcome.onScene (T : Scene ν → Scene ν) (o : Outcome ν) : Outcome ν := { o with scene := T o.scene }

def LanesOutcome.onScene (T : Scene ν → Scene ν) (o : LanesOutcome ν) : LanesOutcome ν :=
  { o with scene := T o.scene }

variable [Elementary ν] {setting setting' : Setting ν} {T : Scene ν → Scene ν}

/-- A change of scenes that a behavior passes on, when it runs in the second setting on the changed
scenes and in the first one on the others. -/
def Carries (setting setting' : Setting ν) (T : Scene ν → Scene ν) (b : Behavior ν) : Prop :=
  ∀ progress start stop scene, b.update setting' progress start stop (T scene) =
    (b.update setting progress start stop scene).onScene T

namespace Behavior

theorem updateNth_carries {parts : List (Behavior ν)}
    (h : ∀ part ∈ parts, Carries setting setting' T part) (i : ℕ) (states : List (Progress ν))
    (start stop : ν) (scene : Scene ν) :
    updateNth setting' parts i states start stop (T scene) =
      let (status,states,scene) := updateNth setting parts i states start stop scene
      (status,states,T scene) := by
  induction parts generalizing i states with
  | nil => rfl
  | cons first rest ih =>
    obtain ⟨hfirst,hrest⟩ := List.forall_mem_cons.mp h
    cases i with
    | zero =>
      simp only [updateNth]
      rw [hfirst]
      rfl
    | succ i =>
      simp only [updateNth]
      rw [ih hrest]

theorem updateLanes_carries {lanes : List (Behavior ν)}
    (h : ∀ lane ∈ lanes, Carries setting setting' T lane) (ended : List Bool)
    (states : List (Progress ν)) (start stop leftover : ν) (scene : Scene ν) :
    updateLanes setting' lanes ended states start stop leftover (T scene) =
      (updateLanes setting lanes ended states start stop leftover scene).onScene T := by
  induction lanes generalizing ended states leftover scene with
  | nil => rfl
  | cons first rest ih =>
    obtain ⟨hfirst,hrest⟩ := List.forall_mem_cons.mp h
    unfold updateLanes
    by_cases hended : ended.headD false = true
    · rw [if_pos hended,if_pos hended,ih hrest]
      rfl
    · rw [if_neg hended,if_neg hended]
      rw [hfirst]
      dsimp only [Outcome.onScene]
      rw [ih hrest]
      rfl

/-- What every leaf passes on, the tree passes on. -/
theorem Everywhere.carries (hlimit : setting'.config.chainLimit = setting.config.chainLimit)
    {b : Behavior ν} (hb : b.Everywhere fun node =>
      ∀ timing effect, node = .leaf timing effect → Carries setting setting' T node) :
    Carries setting setting' T b := by
  induction b using Behavior.induct with
  | leaf timing effect => exact hb.here timing effect rfl
  | chain b k h ih =>
    intro progress start stop scene
    have hparts : ∀ part ∈ k.parts, Carries setting setting' T part := fun part hpart =>
      ih part hpart (hb.part (parts_links h ▸ hpart))
    have hcall : ∀ i start stop (state : List (Progress ν) × Scene ν),
        k.call setting' i start stop (state.1,T state.2) =
          ((k.call setting i start stop state).1,
            ((k.call setting i start stop state).2.1,T (k.call setting i start stop state).2.2)) :=
      fun i start stop state => updateNth_carries hparts (k.slot i) state.1 start stop state.2
    rw [update_links setting h,update_links setting' h]
    unfold Chain.run
    rw [hlimit]
    have henter : Chain.enter k.more progress start (T scene) =
        (Chain.enter k.more progress start scene).mapState fun state => (state.1,T state.2) := rfl
    rw [henter,Chain.drive_mapState hcall]
    rfl
  | parallel timing lanes ih =>
    intro progress start stop scene
    have hlanes : ∀ lane ∈ lanes, Carries setting setting' T lane := fun lane hlane =>
      ih lane hlane (hb.part hlane)
    simp only [update]
    rw [updateLanes_carries hlanes]
    rfl

end Behavior
end Fireworks
