import Fireworks.Proofs.Behavior.Course
import Fireworks.Proofs.Behavior.Lanes

/-! # Every answer comes in time

A behavior whose lifespans are rational or endless, called over a rational window, reports a
leftover within that window. This holds of every state it can be in, whatever was called before:
all that its progress has to keep is that the chains in it began at rational times.
-/
namespace Fireworks
open Extended

/-- Lifespans are rational or endless. -/
def Behavior.Timed (b : Behavior Extended) : Prop :=
  b.Everywhere fun node => node.timing.lifespan.IsSpan

instance (b : Behavior Extended) : Decidable b.Timed :=
  inferInstanceAs (Decidable (b.Everywhere _))

theorem Behavior.Timed.span {b : Behavior Extended} (hb : b.Timed) : b.timing.lifespan.IsSpan :=
  hb.here

theorem Behavior.Timed.part {b part : Behavior Extended} (hb : b.Timed) (h : part ∈ b.parts) :
    part.Timed := Everywhere.part hb h

/-- Progress that some run of a behavior may leave behind. -/
inductive Sound : Behavior Extended → Progress Extended → Prop
  | fresh (b) : Sound b .fresh
  | leaf (timing effect progress) : Sound (.leaf timing effect) progress
  | chain {b k offset cursor states} : b.links? = some k →
      (∀ i, cursor = some i → k.more i = true) →
      (∀ i part, k.parts[i]? = some part → Sound part (Progress.part states i)) →
      Sound b (.chain (finite offset) cursor states)
  | lanes {timing lanes ended states} :
      (∀ i lane, lanes[i]? = some lane → Sound lane (Progress.part states i)) →
      Sound (.parallel timing lanes) (.lanes ended states)

def AllSound (parts : List (Behavior Extended)) (states : List (Progress Extended)) : Prop :=
  ∀ i part, parts[i]? = some part → Sound part (Progress.part states i)

theorem AllSound.nil (parts : List (Behavior Extended)) : AllSound parts [] :=
  fun _ part _ => .fresh part

theorem AllSound.put {parts : List (Behavior Extended)} {states : List (Progress Extended)}
    (h : AllSound parts states) {i : ℕ} {part : Behavior Extended} (hi : parts[i]? = some part)
    {progress : Progress Extended} (hp : Sound part progress) :
    AllSound parts (Progress.put i progress states) := by
  intro j other hj
  rw [Progress.part_put]
  split
  · next hji =>
    subst hji
    obtain rfl : part = other := by simpa [hi] using hj
    exact hp
  · exact h j other hj

theorem Sound.allSound {b : Behavior Extended} {progress : Progress Extended}
    (hp : Sound b progress) : AllSound b.parts progress.states := by
  cases hp with
  | fresh => exact .nil b.parts
  | leaf => intro i part h; cases h
  | chain hk _ hs => exact Behavior.parts_links hk ▸ hs
  | lanes hs => exact hs

theorem Sound.allSound_links {b : Behavior Extended} {k : Links Extended} (h : b.links? = some k)
    {progress : Progress Extended} (hp : Sound b progress) : AllSound k.parts progress.states :=
  Behavior.parts_links h ▸ hp.allSound

/-- A new run of a chain begins with its first place. -/
theorem Sound.enter_zero {b : Behavior Extended} {k : Links Extended} (h : b.links? = some k)
    {progress : Progress Extended} (hp : Sound b progress) (scene : Scene Extended) :
    Chain.enter k.more progress (finite 0) scene =
      Chain.exact ⟨0,0,Chain.following k.more 0,progress.states,scene⟩ := by
  cases hp with
  | fresh => rfl
  | leaf | lanes => cases h
  | chain => simp [Chain.enter,Progress.resume,Chain.exact,Progress.states]

/-- A run goes on where its chain stands. -/
theorem Chain.enter_of_ne_zero (more : ℕ → Bool) (offset : ℚ) (cursor : Option ℕ)
    (states : List (Progress Extended)) {start : ℚ} (h : start ≠ 0) (scene : Scene Extended) :
    Chain.enter more (.chain (finite offset) cursor states) (finite start) scene =
      Chain.exact ⟨start,offset,cursor,states,scene⟩ := by
  simp [Chain.enter,Progress.resume,Chain.exact,h]

theorem Sound.exists_enter {b : Behavior Extended} {k : Links Extended} (h : b.links? = some k)
    {progress : Progress Extended} (hp : Sound b progress) (start : ℚ) (scene : Scene Extended) :
    ∃ c : Chain ℚ (List (Progress Extended) × Scene Extended),
      Chain.enter k.more progress (finite start) scene = c.exact ∧ c.now = start ∧
        c.state.1 = progress.states ∧ ∀ i, c.cursor = some i → k.more i = true := by
  have hfirst : ∀ i, Chain.following k.more 0 = some i → k.more i = true := fun i hi =>
    Chain.more_of_following hi
  rcases eq_or_ne start 0 with rfl | h0
  · exact ⟨_,hp.enter_zero h scene,rfl,rfl,hfirst⟩
  cases hp with
  | fresh => exact ⟨⟨start,0,Chain.following k.more 0,[],scene⟩,rfl,rfl,rfl,hfirst⟩
  | leaf | lanes => cases h
  | chain hk hc _ =>
    obtain rfl := Option.some.inj (h.symm.trans hk)
    exact ⟨_,Chain.enter_of_ne_zero _ _ _ _ h0 scene,rfl,rfl,hc⟩

theorem Sound.endedLanes {timing : Timing Extended} {lanes : List (Behavior Extended)}
    {progress : Progress Extended} (hp : Sound (.parallel timing lanes) progress)
    (start : Extended) : (progress.endedLanes start).2 = progress.states := by
  cases hp with
  | fresh => rfl
  | chain h => cases h
  | lanes h =>
    unfold Progress.endedLanes
    dsimp only
    split <;> rfl

variable [Elementary Extended] (setting : Setting Extended)

/-- From sound progress, the leftover of every rational window is a part of it, and sound progress
is left behind. -/
def Punctual (b : Behavior Extended) : Prop :=
  ∀ progress, Sound b progress → ∀ start stop : ℚ, start < stop → ∀ scene,
    (b.update setting progress (finite start) (finite stop) scene).status.Timely (stop - start) ∧
      Sound b (b.update setting progress (finite start) (finite stop) scene).progress

variable {setting}

theorem Links.call_punctual {b : Behavior Extended} {k : Links Extended} (h : b.links? = some k)
    (hparts : ∀ part ∈ k.parts, Punctual setting part) {i : ℕ} (hi : k.more i = true)
    {start stop : ℚ} (hlt : start < stop) {state : List (Progress Extended) × Scene Extended}
    (hs : AllSound k.parts state.1) :
    (k.call setting i (finite start) (finite stop) state).1.Timely (stop - start) ∧
      AllSound k.parts (k.call setting i (finite start) (finite stop) state).2.1 := by
  obtain ⟨part,hpart⟩ := Behavior.exists_part h hi
  obtain ⟨ht,hs'⟩ :=
    hparts part (List.mem_of_getElem? hpart) _ (hs _ _ hpart) start stop hlt state.2
  rw [Behavior.call_of_getElem? setting hpart]
  exact ⟨ht,hs.put hpart hs'⟩

theorem AllSound.of_call {b : Behavior Extended} {k : Links Extended} (h : b.links? = some k)
    (hparts : ∀ part ∈ k.parts, Punctual setting part) {i : ℕ} (hi : k.more i = true)
    {start stop : ℚ} (hlt : start < stop) {status : Status Extended}
    {state after : List (Progress Extended) × Scene Extended}
    (hcall : k.call setting i (finite start) (finite stop) state = (status,after))
    (hs : AllSound k.parts state.1) : AllSound k.parts after.1 := by
  have hafter := (Links.call_punctual h hparts hi hlt hs).2
  rwa [hcall] at hafter

/-- A chain of punctual parts takes a course through its window. -/
theorem Links.exists_course {b : Behavior Extended} {k : Links Extended} (h : b.links? = some k)
    (hspan : k.lifespan.IsSpan) (hparts : ∀ part ∈ k.parts, Punctual setting part)
    {progress : Progress Extended} {start : ℚ} (stop : ℚ) {scene : Scene Extended}
    {c : Chain ℚ (List (Progress Extended) × Scene Extended)}
    (henter : Chain.enter k.more progress (finite start) scene = c.exact)
    (hs : AllSound k.parts c.state.1) (hc : ∀ i, c.cursor = some i → k.more i = true) :
    ∃ c', Chain.Course k.more (k.call setting) (k.lifespan.cut stop) setting.config.chainLimit c
        (k.visits setting progress (finite start) (finite stop) scene) c' ∧
      b.update setting progress (finite start) (finite stop) scene =
        ⟨c'.exact.status k.lifespan (finite stop),.chain (finite c'.offset) c'.cursor c'.state.1,
          c'.state.2⟩ ∧
      AllSound k.parts c'.state.1 ∧ ∀ i, c'.cursor = some i → k.more i = true := by
  obtain ⟨c',hcourse,hdrive,hafter⟩ := Chain.exists_course (I := fun state => AllSound k.parts state.1)
    (fun _ _ _ _ hi hlt hs => call_punctual h hparts hi hlt hs) (k.lifespan.cut stop)
    setting.config.chainLimit c hs hc
  refine ⟨c',?_,?_,hafter⟩
  · rwa [Links.visits,henter,hspan.minNum_eq]
  · rw [Behavior.update_links setting h,Chain.run,henter,hspan.minNum_eq,hdrive]
    rfl

theorem Punctual.chain {b : Behavior Extended} {k : Links Extended} (h : b.links? = some k)
    (hspan : k.lifespan.IsSpan) (hparts : ∀ part ∈ k.parts, Punctual setting part) :
    Punctual setting b := by
  intro progress hp start stop _ scene
  obtain ⟨c,henter,hnow,hstates,hc⟩ := hp.exists_enter h start scene
  obtain ⟨c',hcourse,hupdate,hs,hmore⟩ := Links.exists_course h hspan hparts stop henter
    (hstates ▸ hp.allSound_links h) hc
  have hle : start ≤ c'.now := hnow ▸ hcourse.now_le
  rw [hupdate]
  exact ⟨Chain.timely_status hspan c' hle stop,.chain h hmore hs⟩

theorem Punctual.parallel {timing : Timing Extended} {lanes : List (Behavior Extended)}
    (hspan : timing.lifespan.IsSpan) (hlanes : ∀ lane ∈ lanes, Punctual setting lane) :
    Punctual setting (.parallel timing lanes) := by
  intro progress hp start stop hlt scene
  have hs : AllSound lanes (progress.endedLanes (finite start)).2 := hp.endedLanes _ ▸ hp.allSound
  rcases he : progress.endedLanes (finite start) with ⟨ended,states⟩
  rw [he] at hs
  have hlane : ∀ i lane, lanes[i]? = some lane →
      (Behavior.laneOutcome setting lanes ended states (finite start) (finite stop) scene i
        lane).status.Timely (stop - start) ∧
      Sound lane (Behavior.laneOutcome setting lanes ended states (finite start) (finite stop)
        scene i lane).progress :=
    fun i lane hi => hlanes lane (List.mem_of_getElem? hi) _ (hs i lane hi) start stop hlt _
  obtain ⟨u,hleft,hu⟩ := Behavior.exists_updateLanes_leftover setting start stop
    (fun i lane hi _ => (hlane i lane hi).1) (max timing.lifespan.toTop start)
  have hstart : (start : WithTop ℚ) ≤ u := (le_max_right _ _).trans ((hu u).mp le_rfl).1
  simp only [Behavior.update,he,hspan.sub_max,hleft]
  refine ⟨?_,.lanes fun i lane hi => ?_⟩
  · split
    · trivial
    · exact Status.timely_left hstart
  · rw [Behavior.updateLanes_children _ _ _ _ _ _ _ _ _ hi]
    split
    · exact hs i lane hi
    · exact (hlane i lane hi).2

/-- Every behavior answers in time. -/
theorem Behavior.Timed.punctual {b : Behavior Extended} (hb : b.Timed) : Punctual setting b := by
  induction b using Behavior.induct with
  | leaf timing effect =>
    exact fun progress _ start stop _ scene =>
      ⟨Status.timely_settle hb.span start stop,.leaf timing effect _⟩
  | chain b k h ih =>
    refine .chain h (lifespan_links h ▸ hb.span) fun part hpart => ih part hpart (hb.part ?_)
    rwa [← parts_links h]
  | parallel timing lanes ih =>
    exact .parallel hb.span fun lane hlane => ih lane hlane (hb.part hlane)

theorem Behavior.Timed.parts_punctual {b : Behavior Extended} (hb : b.Timed) {k : Links Extended}
    (h : b.links? = some k) : ∀ part ∈ k.parts, Punctual setting part :=
  fun _ hpart => (hb.part (parts_links h ▸ hpart)).punctual

variable (setting) in
theorem Behavior.Timed.exists_course {b : Behavior Extended} (hb : b.Timed) {k : Links Extended}
    (h : b.links? = some k) {progress : Progress Extended} {start : ℚ} (stop : ℚ)
    {scene : Scene Extended} {c : Chain ℚ (List (Progress Extended) × Scene Extended)}
    (henter : Chain.enter k.more progress (finite start) scene = c.exact)
    (hs : AllSound k.parts c.state.1) (hc : ∀ i, c.cursor = some i → k.more i = true) :
    ∃ c', Chain.Course k.more (k.call setting) (k.lifespan.cut stop) setting.config.chainLimit c
        (k.visits setting progress (finite start) (finite stop) scene) c' ∧
      b.update setting progress (finite start) (finite stop) scene =
        ⟨c'.exact.status k.lifespan (finite stop),.chain (finite c'.offset) c'.cursor c'.state.1,
          c'.state.2⟩ ∧
      AllSound k.parts c'.state.1 ∧ ∀ i, c'.cursor = some i → k.more i = true :=
  Links.exists_course h (lifespan_links h ▸ hb.span) (hb.parts_punctual h) stop henter hs hc

end Fireworks
