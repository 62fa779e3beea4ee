import Fireworks.Proofs.Behavior.Lockstep
import Fireworks.Proofs.Easing
import Fireworks.Proofs.Plain

/-! # Runs that begin again

A run does not show what was called before it began. So a behavior that was used before runs as a
new one does, and a body that is repeated runs as so many copies of it in sequence.
-/
namespace Fireworks
open Extended

namespace Behavior

section
variable {ν : Type} [Arithmetic ν] [Elementary ν]

/-- The calls of a run and the scenes that they leave. Each window goes on where the one before
ended, and others act on the scene before it. -/
def perform (setting : Setting ν) (b : Behavior ν) :
    Progress ν → (start : ν) → List (ν × (Scene ν → Scene ν)) → Scene ν → List (Call ν × Scene ν)
  | _, _, [], _ => []
  | progress, start, (stop,act) :: windows, scene =>
    let outcome := b.update setting progress start stop (act scene)
    (b.trace setting progress start stop (act scene),outcome.scene) ::
      b.perform setting outcome.progress stop windows outcome.scene

end

variable [Elementary Extended] (setting : Setting Extended) (b : Behavior Extended)
  (p : Progress Extended) (windows : List (ℚ × (Scene Extended → Scene Extended)))
  (scene : Scene Extended)

def exactRun (start : ℚ) : List (Call Extended × Scene Extended) :=
  b.perform setting p (finite start) (windows.map fun w => (finite w.1,w.2)) scene

/-- What a run shows in every call: its answer, and the particle and the stage that it leaves. -/
def shows : List (Status Extended × Scene Extended) :=
  (b.exactRun setting p windows scene 0).map fun r => (r.1.status,r.2)

/-- No chain uses up its limit of completions in a run. -/
def Spared : Prop :=
  ∀ r ∈ b.exactRun setting p windows scene 0,
    r.1.Throughout (Call.Spare setting.config.chainLimit)

instance : Decidable (b.Spared setting p windows scene) :=
  inferInstanceAs (Decidable (∀ r ∈ b.exactRun setting p windows scene 0, _))

variable {setting b p windows scene} {b' : Behavior Extended} {p' : Progress Extended}

theorem Level.perform_eq {start : ℚ} (h : Level setting b b' start p p')
    (hw : (start :: windows.map Prod.fst).IsChain (· < ·))
    (hspare : ∀ r ∈ b.exactRun setting p windows scene start,
      r.1.Throughout (Call.Spare setting.config.chainLimit)) :
    (b'.exactRun setting p' windows scene start).map (fun r => (r.1.status,r.2)) =
      (b.exactRun setting p windows scene start).map fun r => (r.1.status,r.2) := by
  induction windows generalizing start p p' scene with
  | nil => rfl
  | cons w windows ih =>
    obtain ⟨stop,act⟩ := w
    obtain ⟨hlt,hw⟩ := List.isChain_cons_cons.mp hw
    obtain ⟨hcall,hcalls⟩ := List.forall_mem_cons.mp hspare
    have hm := h.update hlt (act scene) hcall
    have hrest := ih hm.progress hw hcalls
    simp only [exactRun,List.map_cons,perform,trace_status,hm.status,hm.scene]
    exact congrArg _ hrest

theorem Interchangeable.shows_eq (h : Interchangeable setting b b') (p p' : Progress Extended)
    (hw : (0 :: windows.map Prod.fst).IsChain (· < ·)) (hspare : b.Spared setting p windows scene) :
    b'.shows setting p' windows scene = b.shows setting p windows scene :=
  (h.level_zero p p').perform_eq hw hspare

/-- A run shows the same whether or not the behavior was used before: its progress may be anything
that earlier calls have left. -/
theorem Timed.shows_eq_fresh (setting : Setting Extended) (hb : b.Timed) (p : Progress Extended)
    (hw : (0 :: windows.map Prod.fst).IsChain (· < ·)) (scene : Scene Extended)
    (hspare : b.Spared setting p windows scene ∨ b.Spared setting .fresh windows scene) :
    b.shows setting p windows scene = b.shows setting .fresh windows scene := by
  rcases hspare with hused | hfresh
  · exact (hb.interchangeable.shows_eq p .fresh hw hused).symm
  · exact hb.interchangeable.shows_eq .fresh p hw hfresh

section
variable {timing : Timing Extended} (hspan : timing.lifespan.IsSpan) (hb : b.Timed) (n : ℕ)

omit [Elementary Extended] in
/-- A repetition has a place for each copy in the sequence of as many copies. -/
theorem more_sequence_replicate (timing : Timing Extended) (b : Behavior Extended) (n : ℕ) :
    (Links.sequence timing (List.replicate n b)).more =
      (Links.repetition timing (Arithmetic.ofNat n) b).more := by
  funext i
  simp [Links.sequence,Links.repetition]

omit [Elementary Extended] in
theorem getElem?_parts_replicate {i : ℕ}
    (hi : (Links.repetition timing (Arithmetic.ofNat n) b).more i = true) :
    (List.replicate n b)[i]? = some b := by
  have hi : i < n := by simpa [Links.repetition] using hi
  simp [hi]

include hspan hb

theorem Timed.repetition_interchangeable :
    Interchangeable setting (.repetition timing (Arithmetic.ofNat n) b)
      (.sequence timing (List.replicate n b)) := by
  refine .chain rfl rfl hspan rfl (more_sequence_replicate timing b n) fun i hi => ?_
  exact ⟨b,b,rfl,getElem?_parts_replicate n hi,hb.interchangeable⟩

theorem Timed.sequence_interchangeable :
    Interchangeable setting (.sequence timing (List.replicate n b))
      (.repetition timing (Arithmetic.ofNat n) b) := by
  refine .chain rfl rfl hspan rfl (more_sequence_replicate timing b n).symm fun i hi => ?_
  rw [more_sequence_replicate] at hi
  exact ⟨b,b,getElem?_parts_replicate n hi,rfl,hb.interchangeable⟩

/-- A repetition that begins to run shows what the sequence of as many copies of its body shows. -/
theorem Timed.repetition_shows_eq (setting : Setting Extended)
    (hw : (0 :: windows.map Prod.fst).IsChain (· < ·)) (scene : Scene Extended)
    (hspare : (repetition timing (Arithmetic.ofNat n) b).Spared setting .fresh windows scene ∨
      (sequence timing (List.replicate n b)).Spared setting .fresh windows scene) :
    (repetition timing (Arithmetic.ofNat n) b).shows setting .fresh windows scene =
      (sequence timing (List.replicate n b)).shows setting .fresh windows scene := by
  rcases hspare with hrepeated | hunrolled
  · exact ((hb.repetition_interchangeable hspan n).shows_eq .fresh .fresh hw hrepeated).symm
  · exact (hb.sequence_interchangeable hspan n).shows_eq .fresh .fresh hw hunrolled

end

end Behavior

namespace Plain

/-- A hue that is set for a second, and then a cue beside a hue that grows. -/
def staged : Behavior Extended :=
  .sequence { lifespan := .infinite false }
    [.leaf { lifespan := 1 } (.set .hue 1),
      .inParallel [.leaf { lifespan := 1 } (.add .hue 1),.ofEffect (.voice .bloom)]]

theorem staged_timed : staged.Timed := by decide

/-- What a call over one and a half seconds leaves: the cue is given, and one lane has ended. -/
def used : Progress Extended := (staged.update (setting 4) .fresh 0 (finite (3/2)) scene).progress

def disturbed : List (ℚ × (Scene Extended → Scene Extended)) :=
  [(1/2,id),(5/4,fun s => { s with particle := s.particle.set .hue 3 }),(3,id)]

theorem staged_shows_eq_fresh :
    staged.Timed ∧ (0 :: disturbed.map Prod.fst).IsChain (· < ·) ∧
      staged.Spared (setting 4) used disturbed scene ∧
      staged.shows (setting 4) used disturbed scene =
        staged.shows (setting 4) .fresh disturbed scene :=
  have hspare : staged.Spared (setting 4) used disturbed scene := by decide +kernel
  ⟨staged_timed,by decide +kernel,hspare,
    Behavior.Timed.shows_eq_fresh (setting 4) staged_timed used (by decide +kernel) scene
      (Or.inl hspare)⟩

example : (staged.shows (setting 4) used disturbed scene).map
    (fun r => (r.1.isDone,r.2.stage.cues.size)) = [(false,0),(false,1),(true,1)] := by
  decide +kernel

theorem staged_repetition_shows_eq :
    (finite (7/2)).IsSpan ∧ staged.Timed ∧ (0 :: disturbed.map Prod.fst).IsChain (· < ·) ∧
      (Behavior.repetition { lifespan := finite (7/2) } (Arithmetic.ofNat 2) staged).Spared (setting 4)
        .fresh disturbed scene ∧
      (Behavior.repetition { lifespan := finite (7/2) } (Arithmetic.ofNat 2) staged).shows (setting 4)
          .fresh disturbed scene =
        (Behavior.sequence { lifespan := finite (7/2) } (List.replicate 2 staged)).shows (setting 4)
          .fresh disturbed scene :=
  have hspan : (finite (7/2)).IsSpan := .rational _
  have hspare : (Behavior.repetition { lifespan := finite (7/2) } (Arithmetic.ofNat 2) staged).Spared
      (setting 4) .fresh disturbed scene := by decide +kernel
  ⟨hspan,staged_timed,by decide +kernel,hspare,
    Behavior.Timed.repetition_shows_eq hspan staged_timed 2 (setting 4) (by decide +kernel) scene
      (Or.inl hspare)⟩

end Plain
end Fireworks
