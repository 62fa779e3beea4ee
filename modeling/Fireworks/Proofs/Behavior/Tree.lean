import Mathlib.Data.List.Basic
import Fireworks.Behavior.Update

/-! # Behaviors as trees

Sequences, repetitions and loops are chains over a list of parts: they differ in which part runs in
which place, and in how many places there are. What is proved of chains is proved once, and an
induction over behaviors has three cases.
-/
namespace Fireworks
variable {ν : Type}

namespace Progress

/-- The progress of one of several children; a child that was never called has none. -/
def part (states : List (Progress ν)) (i : ℕ) : Progress ν := states.getD i .fresh

def states : Progress ν → List (Progress ν)
  | .chain _ _ children | .lanes _ children => children
  | _ => []

def put : ℕ → Progress ν → List (Progress ν) → List (Progress ν)
  | 0, progress, states => progress :: states.tail
  | i + 1, progress, states => states.headD .fresh :: put i progress states.tail

theorem part_zero (states : List (Progress ν)) : part states 0 = states.headD .fresh := by
  cases states <;> rfl

theorem part_succ (states : List (Progress ν)) (i : ℕ) : part states (i + 1) = part states.tail i := by
  cases states <;> rfl

theorem part_put (states : List (Progress ν)) (i j : ℕ) (progress : Progress ν) :
    part (put i progress states) j = if j = i then progress else part states j := by
  induction i generalizing states j with
  | zero => cases j <;> simp [put,part_zero,part_succ]
  | succ i ih => cases j <;> simp [put,part_zero,part_succ,ih]

theorem put_put (states : List (Progress ν)) (i : ℕ) (first second : Progress ν) :
    put i second (put i first states) = put i second states := by
  induction i generalizing states with
  | zero => rfl
  | succ i ih => simp [put,ih]

end Progress

/-- What a chain runs through. -/
structure Links (ν : Type) where
  lifespan : ν
  parts : List (Behavior ν)
  /-- The part that runs in each place. -/
  slot : ℕ → ℕ
  /-- Whether there is such a place. -/
  more : ℕ → Bool

namespace Links
variable [Arithmetic ν]

omit [Arithmetic ν] in
def sequence (timing : Timing ν) (children : List (Behavior ν)) : Links ν :=
  ⟨timing.lifespan,children,id,fun i => i < children.length⟩

def repetition (timing : Timing ν) (limit : ν) (body : Behavior ν) : Links ν :=
  ⟨timing.lifespan,[body],fun _ => 0,fun i => Arithmetic.ofNat i < limit⟩

omit [Arithmetic ν] in
def loop (timing : Timing ν) (body : Behavior ν) : Links ν :=
  ⟨timing.lifespan,[body],fun _ => 0,fun _ => true⟩

variable [Elementary ν]

/-- The call of the part in one place. -/
def call (setting : Setting ν) (k : Links ν) (i : ℕ) (start stop : ν)
    (state : List (Progress ν) × Scene ν) : Status ν × List (Progress ν) × Scene ν :=
  Behavior.updateNth setting k.parts (k.slot i) state.1 start stop state.2

end Links

namespace Behavior

/-- The children of a behavior, whatever it does with them. -/
def parts : Behavior ν → List (Behavior ν)
  | .leaf _ _ => []
  | .sequence _ children => children
  | .repetition _ _ body | .loop _ body => [body]
  | .parallel _ lanes => lanes

/-- A property of a behavior and of all its parts, at every depth. -/
inductive Everywhere (P : Behavior ν → Prop) : Behavior ν → Prop
  | intro {b} : P b → (∀ part ∈ b.parts, Everywhere P part) → Everywhere P b

theorem Everywhere.here {P : Behavior ν → Prop} {b : Behavior ν} (h : b.Everywhere P) : P b := by
  cases h with
  | intro h _ => exact h

theorem Everywhere.part {P : Behavior ν → Prop} {b : Behavior ν} (h : b.Everywhere P)
    {part : Behavior ν} (hp : part ∈ b.parts) : part.Everywhere P := by
  cases h with
  | intro _ h => exact h part hp

theorem Everywhere.of_forall {P : Behavior ν → Prop} (h : ∀ b, P b) (b : Behavior ν) :
    b.Everywhere P := by
  refine @Behavior.rec ν (Everywhere P) (fun parts => ∀ part ∈ parts, Everywhere P part)
    (fun _ _ => ⟨h _,nofun⟩) (fun _ _ ih => ⟨h _,ih⟩) ?_ ?_ (fun _ _ ih => ⟨h _,ih⟩) nofun ?_ b
  · exact fun _ _ body ih => ⟨h _,fun part hpart => List.mem_singleton.mp hpart ▸ ih⟩
  · exact fun _ body ih => ⟨h _,fun part hpart => List.mem_singleton.mp hpart ▸ ih⟩
  · exact fun first rest ih ihs => List.forall_mem_cons.mpr ⟨ih,ihs⟩

theorem Everywhere.imp {P Q : Behavior ν → Prop} (hPQ : ∀ b, P b → Q b) {b : Behavior ν}
    (h : b.Everywhere P) : b.Everywhere Q := by
  induction h with
  | intro h _ ih => exact .intro (hPQ _ h) ih

theorem Everywhere.and {P Q : Behavior ν → Prop} {b : Behavior ν} (hP : b.Everywhere P)
    (hQ : b.Everywhere Q) : b.Everywhere fun node => P node ∧ Q node := by
  induction hP with
  | intro h _ ih => exact .intro ⟨h,hQ.here⟩ fun part hpart => ih part hpart (hQ.part hpart)

theorem everywhere_iff {P : Behavior ν → Prop} {b : Behavior ν} :
    b.Everywhere P ↔ P b ∧ ∀ part ∈ b.parts, part.Everywhere P :=
  ⟨fun h => ⟨h.here,fun _ hpart => h.part hpart⟩,fun h => .intro h.1 h.2⟩

mutual

def holdsEverywhere (P : Behavior ν → Bool) : Behavior ν → Bool
  | .leaf timing effect => P (.leaf timing effect)
  | .sequence timing children => P (.sequence timing children) && holdsOfAll P children
  | .repetition timing limit body => P (.repetition timing limit body) && holdsEverywhere P body
  | .loop timing body => P (.loop timing body) && holdsEverywhere P body
  | .parallel timing lanes => P (.parallel timing lanes) && holdsOfAll P lanes

def holdsOfAll (P : Behavior ν → Bool) : List (Behavior ν) → Bool
  | [] => true
  | first :: rest => holdsEverywhere P first && holdsOfAll P rest

end

theorem holdsEverywhere_iff (P : Behavior ν → Prop) [DecidablePred P] (b : Behavior ν) :
    holdsEverywhere (fun b => P b) b = true ↔ b.Everywhere P := by
  refine @Behavior.rec ν (fun b => holdsEverywhere (fun b => P b) b = true ↔ b.Everywhere P)
    (fun parts => holdsOfAll (fun b => P b) parts = true ↔ ∀ part ∈ parts, part.Everywhere P)
    ?_ ?_ ?_ ?_ ?_ ?_ ?_ b
  · intro timing effect
    rw [everywhere_iff]
    simp [holdsEverywhere,parts]
  · intro timing children ih
    rw [everywhere_iff]
    simp [holdsEverywhere,parts,ih]
  · intro timing limit body ih
    rw [everywhere_iff]
    simp [holdsEverywhere,parts,ih]
  · intro timing body ih
    rw [everywhere_iff]
    simp [holdsEverywhere,parts,ih]
  · intro timing lanes ih
    rw [everywhere_iff]
    simp [holdsEverywhere,parts,ih]
  · simp [holdsOfAll]
  · intro first rest ih ihs
    simp [holdsOfAll,ih,ihs]

instance (P : Behavior ν → Prop) [DecidablePred P] (b : Behavior ν) : Decidable (b.Everywhere P) :=
  decidable_of_iff _ (holdsEverywhere_iff P b)

variable [Arithmetic ν]

def links? : Behavior ν → Option (Links ν)
  | .sequence timing children => some (.sequence timing children)
  | .repetition timing limit body => some (.repetition timing limit body)
  | .loop timing body => some (.loop timing body)
  | .leaf _ _ | .parallel _ _ => none

theorem lifespan_links {b : Behavior ν} {k : Links ν} (h : b.links? = some k) :
    k.lifespan = b.timing.lifespan := by
  cases b <;> cases h <;> rfl

theorem parts_links {b : Behavior ν} {k : Links ν} (h : b.links? = some k) : k.parts = b.parts := by
  cases b <;> cases h <;> rfl

theorem exists_part {b : Behavior ν} {k : Links ν} (h : b.links? = some k) {i : ℕ}
    (hi : k.more i = true) : ∃ part, k.parts[k.slot i]? = some part := by
  cases b with
  | leaf | parallel => cases h
  | sequence timing children =>
    cases h
    have hi : i < children.length := by simpa [Links.sequence] using hi
    exact ⟨_,List.getElem?_eq_getElem hi⟩
  | repetition timing limit body => cases h; exact ⟨body,rfl⟩
  | loop timing body => cases h; exact ⟨body,rfl⟩

theorem induct {motive : Behavior ν → Prop}
    (leaf : ∀ timing effect, motive (.leaf timing effect))
    (chain : ∀ b k, b.links? = some k → (∀ part ∈ k.parts, motive part) → motive b)
    (parallel : ∀ timing lanes, (∀ lane ∈ lanes, motive lane) → motive (.parallel timing lanes))
    (b : Behavior ν) : motive b := by
  refine @Behavior.rec ν motive (fun parts => ∀ part ∈ parts, motive part)
    leaf ?_ ?_ ?_ parallel ?_ ?_ b
  · exact fun timing children ih => chain _ _ rfl ih
  · exact fun timing limit body ih =>
      chain (.repetition timing limit body) _ rfl (by simpa [Links.repetition] using ih)
  · exact fun timing body ih => chain (.loop timing body) _ rfl (by simpa [Links.loop] using ih)
  · simp
  · exact fun first rest ih ihs => by simpa using ⟨ih,ihs⟩

variable [Elementary ν] (setting : Setting ν)

theorem update_links {b : Behavior ν} {k : Links ν} (h : b.links? = some k)
    (progress : Progress ν) (start stop : ν) (scene : Scene ν) :
    b.update setting progress start stop scene =
      Chain.run setting k.lifespan k.more (k.call setting) progress start stop scene := by
  cases b with
  | leaf | parallel => cases h
  | sequence | repetition | loop => cases h; rfl

theorem updateNth_of_getElem? {parts : List (Behavior ν)} {i : ℕ} {b : Behavior ν}
    (h : parts[i]? = some b) (states : List (Progress ν)) (start stop : ν) (scene : Scene ν) :
    updateNth setting parts i states start stop scene =
      let outcome := b.update setting (Progress.part states i) start stop scene
      (outcome.status,Progress.put i outcome.progress states,outcome.scene) := by
  induction parts generalizing i states with
  | nil => simp at h
  | cons first rest ih =>
    cases i with
    | zero =>
      obtain rfl : first = b := by simpa using h
      simp [updateNth,Progress.part_zero,Progress.put]
    | succ i => simp [updateNth,ih (by simpa using h),Progress.part_succ,Progress.put]

/-- The call of a place is the call of its part, which leaves the other parts alone. -/
theorem call_of_getElem? {k : Links ν} {i : ℕ} {b : Behavior ν} (h : k.parts[k.slot i]? = some b)
    (start stop : ν) (state : List (Progress ν) × Scene ν) :
    k.call setting i start stop state =
      let outcome := b.update setting (Progress.part state.1 (k.slot i)) start stop state.2
      (outcome.status,Progress.put (k.slot i) outcome.progress state.1,outcome.scene) :=
  updateNth_of_getElem? setting h state.1 start stop state.2

end Behavior
end Fireworks
