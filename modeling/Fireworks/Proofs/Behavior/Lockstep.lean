import Fireworks.Proofs.Behavior.OnTime

/-! # Runs in lockstep

Two runs of behaviors may show the same although what is left of earlier runs differs: every node
forgets it when its own run begins. Lockstep is a relation of progress that holds of anything at the
beginning of a run, and that every window carries on to its end.
-/
namespace Fireworks
open Extended

/-- Two outcomes of a window of some length show the same, and leave related progress. -/
structure Outcome.Matches (R : Progress Extended → Progress Extended → Prop) (span : ℚ)
    (o o' : Outcome Extended) : Prop where
  timely : o.status.Timely span
  status : o'.status = o.status
  scene : o'.scene = o.scene
  progress : R o.progress o'.progress

variable [Elementary Extended] (setting : Setting Extended)

/-- At the beginning of a run, no effect reads what an earlier run has left. -/
theorem Effect.act_zero (setting : Setting Extended) (timing : Timing Extended)
    (effect : Effect Extended) (p p' : Progress Extended)
    (stop : Extended) (scene : Scene Extended) :
    effect.act setting timing p (finite 0) stop scene =
      effect.act setting timing p' (finite 0) stop scene := by
  have hfired : ∀ p : Progress Extended, p.firedBefore (finite 0) = false := by
    intro p
    cases p <;> rfl
  cases effect with
  | nop | add | multiply | translate | rotate | explode | emit => rfl
  | close | burst | voice => simp only [Effect.act,hfired]
  | set target value => cases p <;> cases p' <;> rfl

namespace Behavior

/-- A relation of the progress of two behaviors at one time of their runs, that is kept by every
call in which no chain of the first one uses up its limit of completions. -/
structure Lockstep (b b' : Behavior Extended)
    (R : ℚ → Progress Extended → Progress Extended → Prop) : Prop where
  begins : ∀ p p', R 0 p p'
  goes_on : ∀ {start stop : ℚ} {p p' : Progress Extended} (scene : Scene Extended), start < stop →
    R start p p' →
    (b.trace setting p (finite start) (finite stop) scene).Throughout
      (Call.Spare setting.config.chainLimit) →
    Outcome.Matches (R stop) (stop - start)
      (b.update setting p (finite start) (finite stop) scene)
      (b'.update setting p' (finite start) (finite stop) scene)

/-- Runs of one behavior cannot be told from those of the other. -/
def Interchangeable (b b' : Behavior Extended) : Prop := ∃ R, Lockstep setting b b' R

/-- Two runs have come to time `t` in lockstep. -/
def Level (b b' : Behavior Extended) (t : ℚ) (p p' : Progress Extended) : Prop :=
  ∃ R, Lockstep setting b b' R ∧ R t p p'

variable {setting} {b b' : Behavior Extended} {p p' : Progress Extended}

theorem Interchangeable.level_zero (h : Interchangeable setting b b') (p p' : Progress Extended) :
    Level setting b b' 0 p p' := by
  obtain ⟨R,hR⟩ := h
  exact ⟨R,hR,hR.begins p p'⟩

theorem Level.update {start stop : ℚ} (h : Level setting b b' start p p') (hlt : start < stop)
    (scene : Scene Extended)
    (hspare : (b.trace setting p (finite start) (finite stop) scene).Throughout
      (Call.Spare setting.config.chainLimit)) :
    Outcome.Matches (Level setting b b' stop) (stop - start)
      (b.update setting p (finite start) (finite stop) scene)
      (b'.update setting p' (finite start) (finite stop) scene) := by
  obtain ⟨R,hR,hp⟩ := h
  have hm := hR.goes_on scene hlt hp hspare
  exact ⟨hm.timely,hm.status,hm.scene,R,hR,hm.progress⟩

theorem Interchangeable.leaf {timing : Timing Extended} (hspan : timing.lifespan.IsSpan)
    (effect : Effect Extended) :
    Interchangeable setting (.leaf timing effect) (.leaf timing effect) := by
  refine ⟨fun t p p' => t = 0 ∨ p = p',fun _ _ => Or.inl rfl,?_⟩
  intro start stop p p' scene _ hp _
  have hsame : (Behavior.leaf timing effect).update setting p' (finite start) (finite stop) scene =
      (Behavior.leaf timing effect).update setting p (finite start) (finite stop) scene := by
    rcases hp with rfl | rfl
    · simp only [Behavior.update,effect.act_zero setting timing p' p]
    · rfl
  rw [hsame]
  exact ⟨Status.timely_settle hspan start stop,rfl,rfl,Or.inr rfl⟩

end Behavior

namespace Links

def Level (k k' : Links Extended) (i : ℕ) (t : ℚ) (states states' : List (Progress Extended)) :
    Prop :=
  ∃ part part', k.parts[k.slot i]? = some part ∧ k'.parts[k'.slot i]? = some part' ∧
    Behavior.Level setting part part' t (Progress.part states (k.slot i))
      (Progress.part states' (k'.slot i))

/-- In every place, the parts of two chains are interchangeable. -/
def Interchangeable (k k' : Links Extended) : Prop :=
  ∀ i, k.more i = true → ∃ part part', k.parts[k.slot i]? = some part ∧
    k'.parts[k'.slot i]? = some part' ∧ Behavior.Interchangeable setting part part'

/-- A chain has come to time `t`, in lockstep with a chain that stands in the same place. -/
structure Abreast (k k' : Links Extended) (t : ℚ)
    (c : Chain ℚ (List (Progress Extended) × Scene Extended))
    (state' : List (Progress Extended) × Scene Extended) : Prop where
  le : c.offset ≤ t
  scene : state'.2 = c.state.2
  child : ∀ i, c.cursor = some i → k.more i = true ∧
    Level setting k k' i (t - c.offset) c.state.1 state'.1

variable {setting} {k k' : Links Extended}

theorem Interchangeable.level_zero (h : Interchangeable setting k k') {i : ℕ}
    (hi : k.more i = true) (states states' : List (Progress Extended)) :
    Level setting k k' i 0 states states' := by
  obtain ⟨part,part',hpart,hpart',hsame⟩ := h i hi
  exact ⟨part,part',hpart,hpart',hsame.level_zero _ _⟩

theorem Level.call {i : ℕ} {a e : ℚ} {state state' after : List (Progress Extended) × Scene Extended}
    {status : Status Extended} (h : Level setting k k' i a state.1 state'.1)
    (hscene : state'.2 = state.2) (hlt : a < e)
    (hcall : k.call setting i (finite a) (finite e) state = (status,after))
    (hspare : (Behavior.visit setting k ⟨i,finite a,finite e,status,state⟩).2.Throughout
      (Call.Spare setting.config.chainLimit)) :
    status.Timely (e - a) ∧ ∃ after', k'.call setting i (finite a) (finite e) state' =
      (status,after') ∧ after'.2 = after.2 ∧ Level setting k k' i e after.1 after'.1 := by
  obtain ⟨part,part',hpart,hpart',hlevel⟩ := h
  rw [Behavior.visit_of_getElem? setting hpart] at hspare
  have hm := hlevel.update hlt state.2 hspare
  rw [Behavior.call_of_getElem? setting hpart] at hcall
  obtain ⟨rfl,rfl⟩ := Prod.mk.inj hcall
  have hcall' := Behavior.call_of_getElem? setting hpart' (finite a) (finite e) state'
  simp only [hscene,hm.status] at hcall'
  refine ⟨hm.timely,_,hcall',hm.scene,part,part',hpart,hpart',?_⟩
  simp only [Progress.part_put,↓reduceIte]
  exact hm.progress

theorem Abreast.next (hsame : Interchangeable setting k k') (i : ℕ) (t : ℚ)
    {after after' : List (Progress Extended) × Scene Extended} (hscene : after'.2 = after.2) :
    Abreast setting k k' t ⟨t,t,Chain.following k.more (i + 1),after⟩ after' := by
  refine ⟨le_rfl,hscene,fun j hj => ?_⟩
  have hmore : k.more j = true := Chain.more_of_following hj
  refine ⟨hmore,?_⟩
  rw [sub_self]
  exact hsame.level_zero hmore after.1 after'.1

/-- Chains that are abreast when a window opens are abreast when it is over, unless the first of them
uses up its limit. -/
theorem Abreast.drive (hsame : Interchangeable setting k k') {term : ℚ} {n : ℕ}
    {c : Chain ℚ (List (Progress Extended) × Scene Extended)}
    {state' : List (Progress Extended) × Scene Extended} (h : Abreast setting k k' c.now c state')
    (hle : c.now ≤ term)
    (hvisits : ∀ v ∈ Chain.visits (Chain.following k.more) (k.call setting) (finite term) n c.exact,
      (Behavior.visit setting k v).2.Throughout (Call.Spare setting.config.chainLimit))
    (hcount : Chain.completions
      (Chain.visits (Chain.following k.more) (k.call setting) (finite term) n c.exact) < n) :
    ∃ (c₁ : Chain ℚ (List (Progress Extended) × Scene Extended)) (state₁ : _),
      Chain.drive (Chain.following k.more) (k.call setting) (finite term) n c.exact = c₁.exact ∧
      Chain.drive (Chain.following k.more) (k'.call setting) (finite term) n
        (Chain.exact { c with state := state' }) = Chain.exact { c₁ with state := state₁ } ∧
      c.now ≤ c₁.now ∧ c₁.now ≤ term ∧ Abreast setting k k' term c₁ state₁ := by
  -- Each completion takes one of the limit, so that the bound on completions carries over to the rest.
  induction n generalizing c state' with
  | zero => exact absurd hcount (Nat.not_lt_zero _)
  | succ n ih =>
    obtain ⟨now,offset,cursor,state⟩ := c
    cases cursor with
    | none => exact ⟨_,state',rfl,rfl,le_rfl,hle,h.le.trans hle,h.scene,nofun⟩
    | some i =>
      rcases hle.eq_or_lt with rfl | hlt
      · exact ⟨_,state',Chain.drive_of_le _ le_rfl,Chain.drive_of_le _ le_rfl,le_rfl,le_rfl,h⟩
      · obtain ⟨hi,hlevel⟩ := h.child i rfl
        rw [Chain.visits_succ] at hvisits hcount
        simp only [Chain.exact,Chain.drive,finite_le,not_le.mpr hlt,↓reduceIte,finite_sub]
          at hvisits hcount ⊢
        cases hcall : k.call setting i (finite (now - offset)) (finite (term - offset)) state with
        | mk status after =>
          rw [hcall] at hvisits hcount
          obtain ⟨hvisit,hvisits⟩ := List.forall_mem_cons.mp hvisits
          obtain ⟨htimely,after',hcall',hscene,hlevel'⟩ :=
            hlevel.call h.scene (sub_lt_sub_right hlt offset) hcall hvisit
          rw [hcall']
          cases status with
          | running =>
            exact ⟨⟨now,offset,some i,after⟩,after',rfl,rfl,le_rfl,hle,h.le.trans hle,hscene,
              fun j hj => Option.some.inj hj ▸ ⟨hi,hlevel'⟩⟩
          | done leftover =>
            obtain ⟨q,rfl,hq,hqs⟩ := htimely
            simp only [finite_sub] at hvisits hcount ⊢
            have hcount' : Chain.completions (Chain.visits (Chain.following k.more) (k.call setting)
                (finite term) n (Chain.exact
                  ⟨term - q,term - q,Chain.following k.more (i + 1),after⟩)) < n := by
              simpa [Chain.completions,Status.isDone,Chain.exact] using hcount
            obtain ⟨c₁,state₁,hdrive,hdrive',hnow,hterm,habreast⟩ :=
              @ih ⟨term - q,term - q,Chain.following k.more (i + 1),after⟩ after'
                (.next hsame i (term - q) hscene) (sub_le_self term hq) hvisits hcount'
            exact ⟨c₁,state₁,hdrive,hdrive',le_trans (by linarith) hnow,hterm,habreast⟩

/-- The progress of two chains that have come to time `t` of a run, unless the run is about to begin.
Once their lifespan is over, the chains call no child any more. -/
inductive InStep (setting : Setting Extended) (k k' : Links Extended) (t : ℚ) :
    Progress Extended → Progress Extended → Prop
  | begins (p p') : t = 0 → InStep setting k k' t p p'
  | goes_on {offset : ℚ} {cursor states states'} : offset ≤ t →
      (∀ i, cursor = some i → k.more i = true ∧
        (k.lifespan.toTop ≤ t ∨ Level setting k k' i (t - offset) states states')) →
      InStep setting k k' t (.chain (finite offset) cursor states)
        (.chain (finite offset) cursor states')

omit [Elementary Extended] in
theorem exists_enter_zero (more : ℕ → Bool) (p : Progress Extended) (scene : Scene Extended) :
    ∃ states, Chain.enter more p (finite 0) scene =
      Chain.exact ⟨0,0,Chain.following more 0,states,scene⟩ := by
  cases p with
  | chain offset cursor states => exact ⟨states,rfl⟩
  | fresh | captured | fired | lanes => exact ⟨[],rfl⟩

theorem InStep.exists_enter (hsame : Interchangeable setting k k') {start : ℚ}
    {p p' : Progress Extended} (h : InStep setting k k' start p p') (scene : Scene Extended) :
    ∃ (c : Chain ℚ (List (Progress Extended) × Scene Extended)) (state' : _),
      Chain.enter k.more p (finite start) scene = c.exact ∧
      Chain.enter k.more p' (finite start) scene = Chain.exact { c with state := state' } ∧
      c.now = start ∧ c.offset ≤ start ∧ state'.2 = c.state.2 ∧
      ∀ i, c.cursor = some i → k.more i = true ∧
        (k.lifespan.toTop ≤ start ∨ Level setting k k' i (start - c.offset) c.state.1 state'.1) := by
  rcases eq_or_ne start 0 with rfl | hne
  · obtain ⟨states,henter⟩ := exists_enter_zero k.more p scene
    obtain ⟨states',henter'⟩ := exists_enter_zero k.more p' scene
    refine ⟨_,(states',scene),henter,henter',rfl,le_rfl,rfl,fun i hi => ?_⟩
    have hmore : k.more i = true := Chain.more_of_following hi
    exact ⟨hmore,Or.inr (by simpa using hsame.level_zero hmore states states')⟩
  · cases h with
    | begins _ _ hzero => exact absurd hzero hne
    | @goes_on offset cursor states states' hle hchild =>
      exact ⟨_,(states',scene),Chain.enter_of_ne_zero k.more offset cursor states hne scene,
        Chain.enter_of_ne_zero k.more offset cursor states' hne scene,rfl,hle,rfl,hchild⟩

theorem InStep.exists_drive (hsame : Interchangeable setting k k') (hspan : k.lifespan.IsSpan)
    {start stop : ℚ} {p p' : Progress Extended} (h : InStep setting k k' start p p')
    (hlt : start < stop) (scene : Scene Extended)
    (hcount : Chain.completions (k.visits setting p (finite start) (finite stop) scene) <
      setting.config.chainLimit)
    (hvisits : ∀ v ∈ k.visits setting p (finite start) (finite stop) scene,
      (Behavior.visit setting k v).2.Throughout (Call.Spare setting.config.chainLimit)) :
    ∃ (c : Chain ℚ (List (Progress Extended) × Scene Extended)) (state' : _),
      Chain.drive (Chain.following k.more) (k.call setting) (finite (k.lifespan.cut stop))
        setting.config.chainLimit (Chain.enter k.more p (finite start) scene) = c.exact ∧
      Chain.drive (Chain.following k.more) (k'.call setting) (finite (k.lifespan.cut stop))
        setting.config.chainLimit (Chain.enter k.more p' (finite start) scene) =
          Chain.exact { c with state := state' } ∧
      start ≤ c.now ∧ state'.2 = c.state.2 ∧
      InStep setting k k' stop (.chain (finite c.offset) c.cursor c.state.1)
        (.chain (finite c.offset) c.cursor state'.1) := by
  obtain ⟨c,state',henter,henter',rfl,hle,hscene,hchild⟩ := h.exists_enter hsame scene
  rw [henter,henter']
  -- Before the end of the lifespan the child at hand is level; after it, no child is called any more.
  rcases lt_or_ge (c.now : WithTop ℚ) k.lifespan.toTop with hlive | hover
  · have hterm : c.now ≤ k.lifespan.cut stop := (lt_cut.mpr ⟨hlive,hlt⟩).le
    have habreast : Abreast setting k k' c.now c state' := ⟨hle,hscene,fun i hi =>
      ⟨(hchild i hi).1,(hchild i hi).2.resolve_left (not_le.mpr hlive)⟩⟩
    rw [visits,hspan.minNum_eq,henter] at hcount hvisits
    obtain ⟨c₁,state₁,hdrive,hdrive',hnow,-,h₁⟩ := habreast.drive hsame hterm hvisits hcount
    refine ⟨c₁,state₁,hdrive,hdrive',hnow,h₁.scene,.goes_on (h₁.le.trans (cut_le _ _)) fun i hi => ?_⟩
    obtain ⟨hmore,hlevel⟩ := h₁.child i hi
    refine ⟨hmore,?_⟩
    rcases lt_or_ge (stop : WithTop ℚ) k.lifespan.toTop with hgoes | hends
    · rw [cut_of_lt hgoes] at hlevel
      exact Or.inr hlevel
    · exact Or.inl hends
  · have hterm : k.lifespan.cut stop ≤ c.now :=
      not_lt.mp fun hcut => absurd (lt_cut.mp hcut).1 (not_lt.mpr hover)
    have hends : k.lifespan.toTop ≤ stop := hover.trans (WithTop.coe_le_coe.mpr hlt.le)
    exact ⟨c,state',Chain.drive_of_le _ hterm,Chain.drive_of_le _ hterm,le_rfl,hscene,
      .goes_on (hle.trans hlt.le) fun i hi => ⟨(hchild i hi).1,Or.inl hends⟩⟩

end Links

namespace Behavior

/-- Lanes that have come to time `t` in lockstep. Those that have ended are not called any more. -/
inductive LevelLanes (t : ℚ) : List (Behavior Extended) → List (Behavior Extended) → List Bool →
    List (Progress Extended) → List (Progress Extended) → Prop
  | nil {ended states states'} : LevelLanes t [] [] ended states states'
  | cons {lane lane' lanes lanes' ended states states'} :
      (isOver ended 0 = false → Level setting lane lane' t (Progress.part states 0)
        (Progress.part states' 0)) →
      LevelLanes t lanes lanes' ended.tail states.tail states'.tail →
      LevelLanes t (lane :: lanes) (lane' :: lanes') ended states states'

/-- What two lists of lanes have made of a window shows the same, and leaves them in lockstep. -/
structure LanesMatch (lanes lanes' : List (Behavior Extended)) (start stop : ℚ)
    (o o' : LanesOutcome Extended) : Prop where
  ended : o'.ended = o.ended
  running : o'.running = o.running
  leftover : o'.leftover = o.leftover
  timely : ∃ u : WithTop ℚ, start ≤ u ∧ o.leftover = left stop u
  scene : o'.scene = o.scene
  level : LevelLanes setting stop lanes lanes' o.ended o.children o'.children

/-- The progress of two parallel behaviors at time `t` of a run, unless the run is about to begin. -/
inductive LanesInStep (lanes lanes' : List (Behavior Extended)) (t : ℚ) :
    Progress Extended → Progress Extended → Prop
  | begins (p p') : t = 0 → LanesInStep lanes lanes' t p p'
  | goes_on {ended states states'} : LevelLanes setting t lanes lanes' ended states states' →
      LanesInStep lanes lanes' t (.lanes ended states) (.lanes ended states')

variable {setting} {lanes lanes' : List (Behavior Extended)}

/-- Chains with the same places cannot be told from each other when their parts cannot be. -/
theorem Interchangeable.chain {b b' : Behavior Extended} {k k' : Links Extended}
    (h : b.links? = some k) (h' : b'.links? = some k') (hspan : k.lifespan.IsSpan)
    (hlifespan : k'.lifespan = k.lifespan) (hmore : k'.more = k.more)
    (hparts : k.Interchangeable setting k') : Interchangeable setting b b' := by
  refine ⟨k.InStep setting k',fun p p' => .begins p p' rfl,?_⟩
  intro start stop p p' scene hlt hp hspare
  obtain ⟨hcount,hvisits⟩ := (throughout_spare_iff h).mp hspare
  obtain ⟨c,state',hdrive,hdrive',hnow,hscene,hstep⟩ :=
    hp.exists_drive hparts hspan hlt scene hcount hvisits
  rw [update_links setting h,update_links setting h',Chain.run,Chain.run,hlifespan,hmore,
    hspan.minNum_eq,hdrive,hdrive']
  exact ⟨Chain.timely_status hspan c hnow stop,rfl,hscene,hstep⟩

theorem LanesMatch.cons {start stop : ℚ} {o o' : LanesOutcome Extended}
    (h : LanesMatch setting lanes lanes' start stop o o') (dead live : Bool)
    {lane lane' : Behavior Extended} {p p' : Progress Extended}
    (hlane : dead = false → Level setting lane lane' stop p p') :
    LanesMatch setting (lane :: lanes) (lane' :: lanes') start stop
      { o with ended := dead :: o.ended, children := p :: o.children, running := live || o.running }
      { o' with
        ended := dead :: o'.ended, children := p' :: o'.children, running := live || o'.running } where
  ended := congrArg (dead :: ·) h.ended
  running := congrArg (live || ·) h.running
  leftover := h.leftover
  timely := h.timely
  scene := h.scene
  level := .cons hlane h.level

theorem LevelLanes.begins (h : List.Forall₂ (Interchangeable setting) lanes lanes')
    (states states' : List (Progress Extended)) : LevelLanes setting 0 lanes lanes' [] states states' := by
  induction h generalizing states states' with
  | nil => exact .nil
  | cons hlane _ ih => exact .cons (fun _ => hlane.level_zero _ _) (ih _ _)

theorem LevelLanes.update {start stop : ℚ} {ended : List Bool}
    {states states' : List (Progress Extended)}
    (h : LevelLanes setting start lanes lanes' ended states states')
    (hlt : start < stop) {u : WithTop ℚ} (hu : start ≤ u) (n : ℕ) (scene : Scene Extended)
    (hspare : ∀ child ∈ traceLanes setting lanes n ended states (finite start) (finite stop) scene,
      child.2.Throughout (Call.Spare setting.config.chainLimit)) :
    LanesMatch setting lanes lanes' start stop
      (updateLanes setting lanes ended states (finite start) (finite stop) (left stop u) scene)
      (updateLanes setting lanes' ended states' (finite start) (finite stop) (left stop u) scene) := by
  induction h generalizing u n scene with
  | nil => exact ⟨rfl,rfl,rfl,⟨u,hu,rfl⟩,rfl,.nil⟩
  | @cons lane lane' lanes lanes' ended states states' hlane hlanes ih =>
    rw [traceLanes_cons,List.forall_mem_append] at hspare
    obtain ⟨hfirst,hrest⟩ := hspare
    cases he : isOver ended 0 with
    | true =>
      rw [he] at hrest
      have hm := ih hu (n + 1) scene hrest
      rw [updateLanes_cons_of_isOver _ _ _ _ _ _ _ _ _ he,
        updateLanes_cons_of_isOver _ _ _ _ _ _ _ _ _ he]
      exact hm.cons true false nofun
    | false =>
      rw [he] at hfirst hrest
      have hm := (hlane he).update hlt scene (hfirst _ (List.mem_singleton_self _))
      rw [updateLanes_cons _ _ _ _ _ _ _ _ _ he,updateLanes_cons _ _ _ _ _ _ _ _ _ he]
      simp only [hm.status,hm.scene]
      cases hs : (lane.update setting (Progress.part states 0) (finite start) (finite stop)
          scene).status with
      | running =>
        exact (ih hu (n + 1) _ hrest).cons false true fun _ => hm.progress
      | done leftover =>
        have htimely := hm.timely
        rw [hs] at htimely
        obtain ⟨q,rfl,-,-⟩ := htimely
        simp only [minNum_left]
        have hleft : (start : WithTop ℚ) ≤ max u ((stop - q : ℚ) : WithTop ℚ) :=
          hu.trans (le_max_left _ _)
        exact (ih hleft (n + 1) _ hrest).cons true false nofun

theorem LanesInStep.exists_endedLanes (hlanes : List.Forall₂ (Interchangeable setting) lanes lanes')
    {t : ℚ} {p p' : Progress Extended} (h : LanesInStep setting lanes lanes' t p p') :
    ∃ ended states states', p.endedLanes (finite t) = (ended,states) ∧
      p'.endedLanes (finite t) = (ended,states') ∧
      LevelLanes setting t lanes lanes' ended states states' := by
  rcases eq_or_ne t 0 with rfl | hne
  · have hbegins : ∀ p : Progress Extended, ∃ states, p.endedLanes (finite 0) = ([],states) := by
      intro p
      cases p with
      | lanes ended states => exact ⟨states,rfl⟩
      | fresh | captured | fired | chain => exact ⟨[],rfl⟩
    obtain ⟨states,hp⟩ := hbegins p
    obtain ⟨states',hp'⟩ := hbegins p'
    exact ⟨[],states,states',hp,hp',.begins hlanes states states'⟩
  · cases h with
    | begins _ _ hzero => exact absurd hzero hne
    | @goes_on ended states states' hlevel =>
      exact ⟨ended,states,states',endedLanes_of_ne_zero hne ended states,
        endedLanes_of_ne_zero hne ended states',hlevel⟩

theorem Interchangeable.parallel {timing : Timing Extended} (hspan : timing.lifespan.IsSpan)
    (hlanes : List.Forall₂ (Interchangeable setting) lanes lanes') :
    Interchangeable setting (.parallel timing lanes) (.parallel timing lanes') := by
  refine ⟨LanesInStep setting lanes lanes',fun p p' => .begins p p' rfl,?_⟩
  intro start stop p p' scene hlt hp hspare
  obtain ⟨ended,states,states',hended,hended',hlevel⟩ := hp.exists_endedLanes hlanes
  have hwithin : ∀ child ∈ traceLanes setting lanes 0 ended states (finite start) (finite stop) scene,
      child.2.Throughout (Call.Spare setting.config.chainLimit) := by
    intro child hc
    refine hspare.child ?_
    simpa only [trace,Call.within,hended] using hc
  have hstart : (start : WithTop ℚ) ≤ max timing.lifespan.toTop start := le_max_right _ _
  have hm := hlevel.update hlt hstart 0 scene hwithin
  obtain ⟨u,hu,hleft⟩ := hm.timely
  simp only [Behavior.update,hended,hended',hspan.sub_max,hm.running,hm.leftover,hm.ended]
  refine ⟨?_,rfl,hm.scene,.goes_on hm.level⟩
  split
  · trivial
  · rw [hleft]
    exact Status.timely_left hu

theorem Timed.interchangeable {b : Behavior Extended} (hb : b.Timed) :
    Interchangeable setting b b := by
  induction b using Behavior.induct with
  | leaf timing effect => exact .leaf hb.span effect
  | chain b k h ih =>
    refine .chain h h (lifespan_links h ▸ hb.span) rfl rfl fun i hi => ?_
    obtain ⟨part,hpart⟩ := exists_part h hi
    have hmem : part ∈ k.parts := List.mem_of_getElem? hpart
    exact ⟨part,part,hpart,hpart,ih part hmem (hb.part (parts_links h ▸ hmem))⟩
  | parallel timing lanes ih =>
    exact .parallel hb.span (List.forall₂_same.mpr fun lane hlane => ih lane hlane (hb.part hlane))

end Behavior
end Fireworks
