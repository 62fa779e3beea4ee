import Fireworks.Proofs.Behavior.Cut
import Fireworks.Proofs.Behavior.Effects
import Fireworks.Proofs.Behavior.Frame
import Fireworks.Proofs.Behavior.OnTime
import Fireworks.Proofs.Plain

/-! # Suspended and resumed runs

A window may be cut in two: the call over its first part suspends a run, and the call over its
second part resumes it as if there had been one call. So the outcome of a run does not depend on the
size of its ticks.
-/
namespace Fireworks
open Extended

namespace Behavior

/-- The behaviors whose windows add up exactly: chains, however nested, of effects that do. -/
def Additive (b : Behavior Extended) : Prop :=
  b.Everywhere fun node =>
    match node with
    | .leaf _ effect => effect.Additive
    | .parallel _ _ => False
    | .sequence .. | .repetition .. | .loop .. => True

theorem Additive.part {b part : Behavior Extended} (hb : b.Additive) (h : part ∈ b.parts) :
    part.Additive := Everywhere.part hb h

variable [Elementary Extended] (setting : Setting Extended)

theorem Additive.keeps {b : Behavior Extended} (hb : b.Additive) :
    Keeps setting (fun scene => scene.particle.rotation.Rational) b := by
  refine Everywhere.keeps ?_
  induction hb with
  | intro hnode _ ih =>
    refine ⟨?_,ih⟩
    rintro timing effect rfl progress start stop scene hs
    change Rotation.Rational (effect.act setting timing progress start stop scene).2.particle.rotation
    rwa [Effect.Additive.rotation_act setting hnode]

def step (b : Behavior Extended) (_ : ℕ) (start stop : Extended)
    (state : Progress Extended × Scene Extended) :
    Status Extended × Progress Extended × Scene Extended :=
  let outcome := b.update setting state.1 start stop state.2
  (outcome.status,outcome.progress,outcome.scene)

/-- No chain uses up its limit of completions during a call. -/
def Spares (b : Behavior Extended)
    (v : Chain.Visit Extended (Progress Extended × Scene Extended)) : Prop :=
  (b.trace setting v.state.1 v.start v.stop v.state.2).Throughout
    (Call.Spare setting.config.chainLimit)

/-- Every window may be cut in two, as long as no chain uses up its limit of completions. -/
def Resumes (b : Behavior Extended) : Prop :=
  ∀ p, Sound b p → ∀ a m e : ℚ, a < m → m < e → a = 0 ∨ 0 < a ∧ OnTime b p a →
    ∀ scene : Scene Extended, scene.particle.rotation.Rational →
      (b.trace setting p (finite a) (finite e) scene).Throughout
        (Call.Spare setting.config.chainLimit) →
      Chain.Cut (b.Spares setting) (b.step setting) 0 a m e (p,scene)
        (b.step setting 0 (finite a) (finite e) (p,scene))

end Behavior

section
variable [Elementary Extended] {setting : Setting Extended}

/-- A window of a leaf may be cut in two: what it does adds up, and its lifespan ends when it ends. -/
theorem Behavior.Resumes.leaf {timing : Timing Extended} {effect : Effect Extended}
    (he : effect.Additive) (hspan : timing.lifespan.IsSpan) :
    (Behavior.leaf timing effect).Resumes setting := by
  intro p _ a m e ham hme hstart scene hrotation _
  have ha : 0 ≤ a := hstart.elim (fun h0 => h0.ge) fun hpos => hpos.1.le
  have hm : 0 < m := ha.trans_lt ham
  have hspares : ∀ v, (Behavior.leaf timing effect).Spares setting v := fun v => .intro nofun nofun
  have hstep : ∀ p (s t : ℚ) scene, (Behavior.leaf timing effect).step setting 0 (finite s) (finite t)
      (p,scene) = (.settle timing.lifespan (finite s) (finite t),
        effect.act setting timing p (finite s) (finite t) scene) := fun p s t scene => rfl
  rcases Status.settle_cases hspan ham.le with ⟨hlt,hstatus⟩ | ⟨q,hq,hqm,hstatus⟩
  · have hma : (a : WithTop ℚ) ≤ timing.lifespan.toTop := (WithTop.coe_le_coe.mpr ham.le).trans hlt.le
    have hsettle : Status.settle timing.lifespan (finite a) (finite e) =
        Status.settle timing.lifespan (finite m) (finite e) := by
      rw [Status.settle_of_le hspan hma,Status.settle_of_le hspan hlt.le]
    refine .waits (hspares _) (hspares _) ((hstep _ _ _ _).trans (by rw [hstatus])) ?_ ?_
    · rw [hstep,hstep,hsettle]
      exact congrArg _ (effect.act_act setting he hspan p ham.le hme.le hm.ne' hrotation)
    · rw [hstep,hsettle]
      exact Status.timely_settle hspan m e
  · have hwhole : (Behavior.leaf timing effect).step setting 0 (finite a) (finite e) (p,scene) =
        (.done (finite (m - max q a + (e - m))),
          effect.act setting timing p (finite a) (finite m) scene) := by
      rw [hstep,effect.act_of_le setting hq hqm hm hme.le p scene,hq,
        Status.settle_finite (hqm.trans hme.le) (ham.trans hme).le]
      congr 3
      ring
    rw [hwhole]
    refine .ends (hspares _) (sub_nonneg.mpr (max_le hqm ham.le)) ?_
      ((hstep _ _ _ _).trans (by rw [hstatus]))
    exact sub_le_sub_left (le_max_right q a) m

namespace Behavior

theorem cut_call {k : Links Extended} {i : ℕ} {part : Behavior Extended}
    (hpart : k.parts[k.slot i]? = some part) {a m e : ℚ}
    {state : List (Progress Extended) × Scene Extended}
    (h : Chain.Cut (part.Spares setting) (part.step setting) 0 a m e
      (Progress.part state.1 (k.slot i),state.2)
      (part.step setting 0 (finite a) (finite e) (Progress.part state.1 (k.slot i),state.2))) :
    Chain.Cut (fun v => (visit setting k v).2.Throughout (Call.Spare setting.config.chainLimit))
      (k.call setting) i a m e state (k.call setting i (finite a) (finite e) state) := by
  have hcall : ∀ (s t : ℚ) state, k.call setting i (finite s) (finite t) state =
      let after := part.step setting 0 (finite s) (finite t)
        (Progress.part state.1 (k.slot i),state.2)
      (after.1,Progress.put (k.slot i) after.2.1 state.1,after.2.2) := fun s t state =>
    call_of_getElem? setting hpart (finite s) (finite t) state
  have hvisit : ∀ (s t : ℚ) status state,
      part.Spares setting ⟨0,finite s,finite t,status,Progress.part state.1 (k.slot i),state.2⟩ →
      (visit setting k ⟨i,finite s,finite t,status,state⟩).2.Throughout
        (Call.Spare setting.config.chainLimit) := by
    intro s t status state hv
    rw [visit_of_getElem? setting hpart]
    exact hv
  rw [hcall]
  generalize part.step setting 0 (finite a) (finite e) _ = result at h
  cases h with
  | ends hP hl hlm hfirst =>
    refine .ends (hvisit _ _ _ _ hP) hl hlm ?_
    rw [hcall,hfirst]
  | @waits between _ hP₁ hP₂ hfirst hsecond ht =>
    have hbetween : (Progress.part (Progress.put (k.slot i) between.1 state.1) (k.slot i),between.2) =
        between := by rw [Progress.part_put,if_pos rfl]
    have hfirst' : k.call setting i (finite a) (finite m) state =
        (.running,Progress.put (k.slot i) between.1 state.1,between.2) := by rw [hcall,hfirst]
    refine .waits (hvisit _ _ _ _ hP₁) (hvisit _ _ _ _ ?_) hfirst' ?_ ht
    · rwa [hbetween]
    · rw [hcall,hbetween,hsecond]
      simp only [Progress.put_put]

/-- A chain that is ready to be cut: its parts have sound progress, and the one at hand is on time. -/
structure Ready (k : Links Extended)
    (c : Chain ℚ (List (Progress Extended) × Scene Extended)) : Prop where
  sound : AllSound k.parts c.state.1
  rational : c.state.2.particle.rotation.Rational
  more : ∀ i, c.cursor = some i → k.more i = true
  turn : ∀ i part, c.cursor = some i → k.parts[k.slot i]? = some part →
    c.now - c.offset = 0 ∨
      0 < c.now - c.offset ∧ OnTime part (Progress.part c.state.1 (k.slot i)) (c.now - c.offset)

theorem Ready.next {b : Behavior Extended} (hb : b.Timed) (ha : b.Additive) {k : Links Extended}
    (h : b.links? = some k) {c : Chain ℚ (List (Progress Extended) × Scene Extended)} {i : ℕ}
    {term q : ℚ} {state : List (Progress Extended) × Scene Extended} (hc : Ready k c)
    (hi : c.cursor = some i) (hlt : c.now < term)
    (hcall : k.call setting i (finite (c.now - c.offset)) (finite (term - c.offset)) c.state =
      (.done (finite q),state)) :
    Ready k ⟨term - q,term - q,Chain.following k.more (i + 1),state⟩ where
  sound := hc.sound.of_call h (hb.parts_punctual h) (hc.more i hi) (sub_lt_sub_right hlt _) hcall
  rational := by
    have hkept := updateNth_keeps (fun part hpart => (ha.part (parts_links h ▸ hpart)).keeps setting)
      (k.slot i) c.state.1 (finite (c.now - c.offset)) (finite (term - c.offset)) c.state.2 hc.rational
    change (k.call setting i _ _ c.state).2.2.particle.rotation.Rational at hkept
    rwa [hcall] at hkept
  more := fun j hj => Chain.more_of_following hj
  turn := fun _ _ _ _ => Or.inl (sub_self _)

theorem Ready.exists_severed {b : Behavior Extended} (hb : b.Timed) (ha : b.Additive)
    {k : Links Extended} (h : b.links? = some k) (hparts : ∀ part ∈ k.parts, part.Resumes setting)
    {m term : ℚ} (hmt : m < term) {n : ℕ}
    {c c' : Chain ℚ (List (Progress Extended) × Scene Extended)}
    {vs : List (Chain.Visit Extended (List (Progress Extended) × Scene Extended))}
    (hc : Ready k c) (hcourse : Chain.Course k.more (k.call setting) term n c vs c') (hle : c.now ≤ m)
    (hvisits : ∀ v ∈ vs, (visit setting k v).2.Throughout (Call.Spare setting.config.chainLimit))
    (hcount : Chain.completions vs < n) :
    ∃ vs₁ c₁, Chain.Severed
      (fun v => (visit setting k v).2.Throughout (Call.Spare setting.config.chainLimit)) k.more
      (k.call setting) m term n c vs c' vs₁ c₁ := by
  refine hcourse.exists_severed hmt (fun c i hc hi hlt hv => ?_)
    (fun c i q state hc hi hlt hcall => hc.next hb ha h hi hlt hcall) hle hc hvisits hcount
  obtain ⟨part,hpart⟩ := exists_part h (hc.more i hi)
  rw [visit_of_getElem? setting hpart] at hv
  exact cut_call hpart (hparts part (List.mem_of_getElem? hpart) _ (hc.sound _ _ hpart) _ _ _
    (sub_lt_sub_right hlt _) (sub_lt_sub_right hmt _) (hc.turn i part hi hpart) _ hc.rational hv)

omit [Elementary Extended] in
theorem exists_ready {b : Behavior Extended} {k : Links Extended} (h : b.links? = some k)
    {p : Progress Extended} (hp : Sound b p) {start : ℚ}
    (hstart : start = 0 ∨ 0 < start ∧ OnTime b p start) {scene : Scene Extended}
    (hrotation : scene.particle.rotation.Rational) :
    ∃ c : Chain ℚ (List (Progress Extended) × Scene Extended),
      Chain.enter k.more p (finite start) scene = c.exact ∧ c.now = start ∧ Ready k c := by
  obtain ⟨total,htotal,-⟩ := Links.exists_total h
  obtain ⟨c,henter,hnow,hs,-,hsome,-⟩ := exists_turn h htotal hp hstart scene
  have hscene : c.state.2 = scene := (congrArg (fun c => c.state.2) henter).symm
  refine ⟨c,henter,hnow,hs,hscene ▸ hrotation,fun i hi => (hsome i hi).more,fun i part hi hpart => ?_⟩
  have hst := hsome i hi
  exact hst.le.eq_or_lt.imp (fun heq => sub_eq_zero.mpr heq.symm) fun hlt =>
    ⟨sub_pos.mpr hlt,hst.part part hpart hlt⟩

section
variable {b : Behavior Extended} (hb : b.Timed) {k : Links Extended} {p : Progress Extended}
  (hp : Sound b p) {m e : ℚ} (hme : m < e) {scene : Scene Extended}
include hb hp hme

variable (k) in
theorem cut_of_over {a : ℚ} (ham : a < m)
    {c : Chain ℚ (List (Progress Extended) × Scene Extended)}
    (hc : c.now ≤ m) (hover : c.cursor = none ∨ ∃ q, k.lifespan = finite q ∧ q ≤ m)
    (hupdate : ∀ t : ℚ, t = m ∨ t = e → b.update setting p (finite a) (finite t) scene =
      ⟨c.exact.status k.lifespan (finite t),.chain (finite c.offset) c.cursor c.state.1,c.state.2⟩)
    (hspare : (b.trace setting p (finite a) (finite m) scene).Throughout
      (Call.Spare setting.config.chainLimit)) :
    Chain.Cut (b.Spares setting) (b.step setting) 0 a m e (p,scene)
      (b.step setting 0 (finite a) (finite e) (p,scene)) := by
  have hpunctual : Punctual setting b := hb.punctual
  obtain ⟨l,hfirst,hwhole⟩ := Chain.exists_status_of_over hc hme.le hover
  have htimely := (hpunctual p hp a m ham scene).1
  rw [hupdate m (Or.inl rfl),hfirst] at htimely
  obtain ⟨l',hl,hl0,hlm⟩ := htimely
  obtain rfl := Extended.finite.inj hl
  rw [step,hupdate e (Or.inr rfl),hwhole]
  exact .ends hspare hl0 hlm (by rw [step,hupdate m (Or.inl rfl),hfirst])

variable (h : b.links? = some k) {c : Chain ℚ (List (Progress Extended) × Scene Extended)}
  (henter : Chain.enter k.more p (finite c.now) scene = c.exact) (hready : Ready k c)
  (ham : c.now < m)
  (hspare : (b.trace setting p (finite c.now) (finite e) scene).Throughout
    (Call.Spare setting.config.chainLimit))
include h henter hready ham hspare

/-- A chain whose lifespan is over before the cut does not see the rest of the window. -/
theorem cut_of_lifespan_le (hover : k.lifespan.toTop ≤ m) :
    Chain.Cut (b.Spares setting) (b.step setting) 0 c.now m e (p,scene)
      (b.step setting 0 (finite c.now) (finite e) (p,scene)) := by
  obtain ⟨c',hcourse,hupdate,-,-⟩ :=
    hb.exists_course setting h e henter hready.sound hready.more
  obtain ⟨c₁,hcourse₁,hupdate₁,-,-⟩ :=
    hb.exists_course setting h m henter hready.sound hready.more
  obtain ⟨q,hq,hqm⟩ : ∃ q, k.lifespan = finite q ∧ q ≤ m := by
    cases hspan : k.lifespan with
    | finite q => exact ⟨q,rfl,by simpa [hspan] using hover⟩
    | infinite | undefined => simp [hspan,toTop] at hover
  have hcut : k.lifespan.cut e = k.lifespan.cut m := by
    rw [hq]
    exact (min_eq_left (hqm.trans hme.le)).trans (min_eq_left hqm).symm
  have hkept := (throughout_spare_iff h).mp hspare
  obtain ⟨hsame,rfl⟩ := (hcut ▸ hcourse).unique hcourse₁
  refine cut_of_over hb k hp hme ham (hcourse₁.now_le_stop ham.le (cut_le _ _)) (Or.inr ⟨q,hq,hqm⟩)
    ?_ ((throughout_spare_iff h).mpr (hsame ▸ hkept))
  rintro t (rfl | rfl)
  · exact hupdate₁
  · exact hupdate

/-- A chain whose lifespan goes on is severed at the cut: either its last child ends in the first
part, or both the child at hand and the chain go on in the second. -/
theorem cut_of_lt_lifespan (ha : b.Additive) (hparts : ∀ part ∈ k.parts, part.Resumes setting)
    (hm : m ≠ 0) (hgoes : m < k.lifespan.toTop) :
    Chain.Cut (b.Spares setting) (b.step setting) 0 c.now m e (p,scene)
      (b.step setting 0 (finite c.now) (finite e) (p,scene)) := by
  have hspan : k.lifespan.IsSpan := lifespan_links h ▸ hb.span
  have hpunctual : Punctual setting b := hb.punctual
  have hmt : m < k.lifespan.cut e := lt_cut.mpr ⟨hgoes,hme⟩
  obtain ⟨c',hcourse,hupdate,-,-⟩ :=
    hb.exists_course setting h e henter hready.sound hready.more
  obtain ⟨c₁,hcourse₁,hupdate₁,hs₁,hmore₁⟩ :=
    hb.exists_course setting h m henter hready.sound hready.more
  rw [cut_of_lt hgoes] at hcourse₁
  have hnow₁ : c₁.now ≤ m := hcourse₁.now_le_term ham.le
  obtain ⟨hcount,hvisits⟩ := (throughout_spare_iff h).mp hspare
  obtain ⟨vs₁,c₁',hsevered⟩ :=
    hready.exists_severed hb ha h hparts hmt hcourse ham.le hvisits hcount
  obtain ⟨rfl,rfl⟩ := hcourse₁.unique hsevered.course
  have hspare₁ := (throughout_spare_iff h).mpr
    ⟨hsevered.count.trans_lt hcount,hsevered.calls⟩
  rcases hsevered.rest with ⟨hnone,rfl⟩ | ⟨hne,hrest⟩
  · refine cut_of_over hb k hp hme ham hnow₁ (Or.inl hnone) ?_ hspare₁
    rintro t (rfl | rfl)
    · exact hupdate₁
    · exact hupdate
  · have henter₂ := Chain.enter_of_ne_zero k.more c₁.offset c₁.cursor c₁.state.1 hm c₁.state.2
    obtain ⟨c₂,hcourse₂,hupdate₂,-,-⟩ := hb.exists_course setting h e henter₂ hs₁ hmore₁
    obtain ⟨vs₂,c₂',hcourse₂',hcount₂,hvisits₂,halike⟩ := hrest _ le_rfl
    obtain ⟨rfl,rfl⟩ := hcourse₂.unique hcourse₂'
    have hspare₂ := (throughout_spare_iff h).mpr
      ⟨hcount₂.trans_lt hcount,hvisits₂⟩
    have hle : ∀ t : ℚ, t ≤ k.lifespan.cut e → (t : WithTop ℚ) ≤ k.lifespan.toTop := fun t ht =>
      (WithTop.coe_le_coe.mpr ht).trans (cut_le_toTop _ _)
    have hstatus := halike.status hspan (hle _ (hcourse.now_le_term (ham.le.trans hmt.le)))
      (hle _ (hcourse₂.now_le_term hmt.le)) e
    have hrunning := (Chain.status_eq_running hspan c₁ hnow₁).mpr ⟨hne,hgoes⟩
    have hsecond : b.step setting 0 (finite m) (finite e)
        (.chain (finite c₁.offset) c₁.cursor c₁.state.1,c₁.state.2) =
          b.step setting 0 (finite c.now) (finite e) (p,scene) := by
      rw [step,step,hupdate₂,hupdate,hstatus,halike.offset,halike.cursor,halike.state]
    refine .waits hspare₁ ?_ (by rw [step,hupdate₁,hrunning]) hsecond ?_
    · exact hspare₂
    · rw [← hsecond]
      exact (hpunctual _ (.chain h hmore₁ hs₁) m e hme _).1

end

theorem Resumes.chain {b : Behavior Extended} (hb : b.Timed) (ha : b.Additive) {k : Links Extended}
    (h : b.links? = some k) (hparts : ∀ part ∈ k.parts, part.Resumes setting) :
    b.Resumes setting := by
  intro p hp a m e ham hme hstart scene hrotation hspare
  have hm : m ≠ 0 := ((hstart.elim (fun h0 => h0.ge) fun hpos => hpos.1.le).trans_lt ham).ne'
  obtain ⟨c,henter,rfl,hready⟩ := exists_ready h hp hstart hrotation
  rcases le_or_gt k.lifespan.toTop m with hover | hgoes
  · exact cut_of_lifespan_le hb hp hme h henter hready ham hspare hover
  · exact cut_of_lt_lifespan hb hp hme h henter hready ham hspare ha hparts hm hgoes

theorem Additive.resumes {b : Behavior Extended} (hb : b.Timed) (ha : b.Additive) :
    b.Resumes setting := by
  induction b using Behavior.induct with
  | leaf timing effect => exact .leaf ha.here hb.span
  | chain b k h ih =>
    exact .chain hb ha h fun part hpart =>
      ih part hpart (hb.part (parts_links h ▸ hpart)) (ha.part (parts_links h ▸ hpart))
  | parallel => exact absurd ha.here id

end Behavior
end

/-- Runs a behavior over windows that end at these times, until it ends. -/
def Behavior.play {ν : Type} [Arithmetic ν] [Elementary ν] (setting : Setting ν) (b : Behavior ν) :
    Progress ν → (start : ν) → (stops : List ν) → Scene ν → Scene ν
  | _, _, [], scene => scene
  | progress, start, stop :: stops, scene =>
    let outcome := b.update setting progress start stop scene
    match outcome.status with
    | .running => b.play setting outcome.progress stop stops outcome.scene
    | .done _ => outcome.scene

section
variable [Elementary Extended] {setting : Setting Extended}

/-- A run that is on time leaves the same scene however its time is cut into windows. -/
theorem Behavior.Additive.play_eq {b : Behavior Extended} (hb : b.Timed) (ha : b.Additive) {e : ℚ}
    {p : Progress Extended} (hp : Sound b p) {a : ℚ} {stops : List ℚ}
    (hstops : (a :: stops).IsChain (· < ·)) (hlast : stops.getLast? = some e)
    (hturn : a = 0 ∨ 0 < a ∧ OnTime b p a) {scene : Scene Extended}
    (hrotation : scene.particle.rotation.Rational)
    (hspare : (b.trace setting p (finite a) (finite e) scene).Throughout
      (Call.Spare setting.config.chainLimit)) :
    b.play setting p (finite a) (stops.map finite) scene =
      (b.update setting p (finite a) (finite e) scene).scene := by
  induction stops generalizing p a scene with
  | nil => cases hlast
  | cons m stops ih =>
    obtain ⟨ham,hstops⟩ := List.isChain_cons_cons.mp hstops
    cases stops with
    | nil =>
      obtain rfl : m = e := Option.some.inj hlast
      rw [List.map_cons,List.map_nil,play]
      split <;> rfl
    | cons m' stops =>
      rw [List.getLast?_cons_cons] at hlast
      have hme : m < e :=
        (List.pairwise_cons.mp hstops.pairwise).1 e (List.mem_of_getLast? hlast)
      have hscene : (b.update setting p (finite a) (finite e) scene).scene =
        (b.step setting 0 (finite a) (finite e) (p,scene)).2.2 := rfl
      have hcut := ha.resumes hb p hp a m e ham hme hturn scene hrotation hspare
      rw [List.map_cons,play,hscene]
      generalize b.step setting 0 (finite a) (finite e) (p,scene) = result at hcut
      cases hcut with
      | ends _ _ _ hfirst =>
        obtain ⟨hstatus,rfl⟩ := Prod.mk.inj hfirst
        simp only [hstatus]
      | waits hspare₁ hspare₂ hfirst hsecond =>
        obtain ⟨hstatus,rfl⟩ := Prod.mk.inj hfirst
        have hontime := (hb.settles p hp a m ham hturn scene hspare₁).1 hstatus
        have hm : 0 < m := (hturn.elim (fun h0 => h0.ge) fun hpos => hpos.1.le).trans_lt ham
        simp only [hstatus]
        rw [ih (hb.punctual p hp a m ham scene).2 hstops hlast (Or.inr ⟨hm,hontime⟩)
          (ha.keeps setting p (finite a) (finite m) scene hrotation) hspare₂,← hsecond]
        rfl

/-- Whatever windows a fresh run is given, it leaves the particle and the stage as one window over
all of its time does, as long as no chain uses up its limit of completions in that one window. -/
theorem Behavior.play_fresh_eq (setting : Setting Extended) {b : Behavior Extended} (hb : b.Timed)
    (ha : b.Additive) {stops : List ℚ} {e : ℚ} (hstops : (0 :: stops).IsChain (· < ·))
    (hlast : stops.getLast? = some e) {scene : Scene Extended}
    (hrotation : scene.particle.rotation.Rational)
    (hspare : (b.trace setting .fresh 0 (finite e) scene).Throughout
      (Call.Spare setting.config.chainLimit)) :
    b.play setting .fresh 0 (stops.map finite) scene =
      (b.update setting .fresh 0 (finite e) scene).scene :=
  ha.play_eq hb (.fresh b) hstops hlast (Or.inl rfl) hrotation hspare

end

namespace Plain

/-- A hue that grows, then two groups of one child each, three times over. -/
def sparkling : Behavior Extended :=
  .repetition { lifespan := .infinite false } 3 <| .inSequence
    [.leaf { lifespan := 1, easing := .easeIn } (.add .hue 1),
      .leaf { lifespan := 1 } (.emit { count := 1, times := 2, parallel := 1, body := .action .nop })]

theorem sparkling_timed : sparkling.Timed := by decide

theorem sparkling_additive : sparkling.Additive := by
  refine ⟨trivial,fun body hbody => ?_⟩
  obtain rfl := List.mem_singleton.mp hbody
  refine ⟨trivial,fun part hpart => ?_⟩
  simp only [Behavior.inSequence,Behavior.parts,List.mem_cons,List.not_mem_nil,or_false] at hpart
  rcases hpart with rfl | rfl
  · exact ⟨.add .hue 1,fun _ hpart => absurd hpart List.not_mem_nil⟩
  · exact ⟨.emit _,fun _ hpart => absurd hpart List.not_mem_nil⟩

theorem sparkling_play_eq :
    sparkling.Timed ∧ sparkling.Additive ∧ (0 :: [1/2,7/4,7/2] : List ℚ).IsChain (· < ·) ∧
      ([1/2,7/4,7/2] : List ℚ).getLast? = some (7/2) ∧ scene.particle.rotation.Rational ∧
      (sparkling.trace (setting 8) .fresh 0 (finite (7/2)) scene).Throughout
        (Call.Spare (setting 8).config.chainLimit) ∧
      sparkling.play (setting 8) .fresh 0 ([1/2,7/4,7/2].map finite) scene =
        (sparkling.update (setting 8) .fresh 0 (finite (7/2)) scene).scene :=
  have hrotation : scene.particle.rotation.Rational := ⟨0,0,0,1,rfl⟩
  have hspare : (sparkling.trace (setting 8) .fresh 0 (finite (7/2)) scene).Throughout
      (Call.Spare (setting 8).config.chainLimit) := by decide +kernel
  ⟨sparkling_timed,sparkling_additive,by decide +kernel,rfl,hrotation,hspare,
    Behavior.play_fresh_eq (setting 8) sparkling_timed sparkling_additive (by decide +kernel) rfl
      hrotation hspare⟩

end Plain
end Fireworks
