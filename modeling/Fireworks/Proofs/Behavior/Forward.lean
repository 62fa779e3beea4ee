import Fireworks.Proofs.Behavior.Contract
import Fireworks.Proofs.Behavior.OnTime

/-! # Time goes forward

Whatever a behavior remembers, every call made during a call closes after it opens, leaves no more
time over than it was given, and hands over from child to child within its own window. That no
window opens before zero holds as long as no chain goes on after a stall: a child that begins late
may still remember, of an earlier run, a part of its own that began after the present time.
-/
namespace Fireworks
open Extended

namespace Call

/-- The times at which the next children of a chain begin, as long as each child ends. -/
def handovers {ν : Type} [Arithmetic ν] : ν → List (ℕ × Call ν) → List ν
  | _, [] => []
  | now, child :: within =>
    match child.2.status with
    | .running => []
    | .done leftover =>
      let next := now + (child.2.stop - child.2.start - leftover)
      next :: handovers next within

/-- A call that creates no time. -/
structure Forward (c : Call Extended) : Prop where
  lt : c.start < c.stop
  /-- What a call leaves over is a part of its window. -/
  leftover : ∀ l, c.status = .done l → 0 ≤ l ∧ l ≤ c.stop - c.start
  /-- A chain begins its next child neither before its window nor after it. -/
  handover : c.serial = true → ∀ t ∈ handovers c.start c.within, c.start ≤ t ∧ t ≤ c.stop

theorem Orderly.nonneg {calls : List (Call Extended)} {x : ℚ} (h : Orderly (finite x) calls)
    (hx : 0 ≤ x) (hcalls : ∀ c ∈ calls, ∃ s t : ℚ, c.start = finite s ∧ c.stop = finite t ∧ s < t) :
    ∀ c ∈ calls, 0 ≤ c.start := by
  induction calls generalizing x with
  | nil => nofun
  | cons c calls ih =>
    obtain ⟨⟨s,t,hs,ht,hlt⟩,hcalls⟩ := List.forall_mem_cons.mp hcalls
    obtain ⟨hstart,hnext⟩ := h
    obtain rfl := Extended.finite.inj (hs.symm.trans hstart)
    refine List.forall_mem_cons.mpr ⟨by rwa [hs,zero_eq,finite_le],?_⟩
    cases hstatus : c.status with
    | running =>
      rw [next_of_running hstatus,ht] at hnext
      exact ih hnext (hx.trans hlt.le) hcalls
    | done leftover =>
      rw [next_of_done hstatus] at hnext
      exact ih hnext le_rfl hcalls

theorem throughout_descend {ν : Type} {P : Call ν → Prop} {calls : List (Call ν)}
    (h : ∀ c ∈ calls, c.Throughout P) (path : List ℕ) : ∀ c ∈ descend calls path, c.Throughout P := by
  induction path generalizing calls with
  | nil => exact h
  | cons i path ih =>
    refine ih fun d hd => ?_
    obtain ⟨c,hc,hd⟩ := List.mem_flatMap.mp hd
    obtain ⟨child,hchild,hd⟩ := List.mem_filterMap.mp hd
    obtain ⟨-,hd⟩ := Option.ite_none_right_eq_some.mp hd
    exact Option.some.inj hd ▸ (h c hc).child hchild

/-- Calls that never use up the limit of completions do not stall. -/
theorem unstalled_of_spare {limit : ℕ} {calls : List (Call Extended)}
    (h : ∀ c ∈ calls, c.Throughout (Spare limit)) : Unstalled limit calls := by
  intro path run hrun c hc hstall
  have hmem : c ∈ descend calls path :=
    (infix_of_mem_runs hrun).subset (List.dropLast_subset _ hc)
  exact ((throughout_descend h path c hmem).here hstall.serial).ne hstall.completed

end Call

section
variable [Elementary Extended] {setting : Setting Extended} {b : Behavior Extended}
  {p p' : Progress Extended} {calls : List (Call Extended)}

theorem Thread.exists_trace (h : Thread setting b p calls p') (hb : b.Timed) (hp : Sound b p) :
    ∀ c ∈ calls, ∃ (q : Progress Extended) (start stop : ℚ) (scene : Scene Extended),
      Sound b q ∧ start < stop ∧ c = b.trace setting q (finite start) (finite stop) scene := by
  induction h with
  | nil => nofun
  | cons scene hlt _ ih =>
    exact List.forall_mem_cons.mpr
      ⟨⟨_,_,_,scene,hp,hlt,rfl⟩,ih (hb.punctual _ hp _ _ hlt scene).2⟩

theorem Thread.exists_window (h : Thread setting b p calls p') :
    ∀ c ∈ calls, ∃ s t : ℚ, c.start = finite s ∧ c.stop = finite t ∧ s < t := by
  induction h with
  | nil => nofun
  | @cons p calls p' s t scene hlt _ ih =>
    exact List.forall_mem_cons.mpr ⟨⟨s,t,Behavior.trace_start ..,Behavior.trace_stop ..,hlt⟩,ih⟩

/-- The calls made during a call of a behavior are calls of its parts. -/
theorem Behavior.Timed.thread_of_mem_within (hb : b.Timed) (hp : Sound b p) {start stop : ℚ}
    (hlt : start < stop) (scene : Scene Extended) {child : ℕ × Call Extended}
    (hchild : child ∈ (b.trace setting p (finite start) (finite stop) scene).within) :
    ∃ part ∈ b.parts, ∃ q q' calls, Sound part q ∧ Thread setting part q calls q' ∧
      child.2 ∈ calls := by
  have hmem : child.2 ∈ (b.trace setting p (finite start) (finite stop) scene).childCalls child.1 :=
    List.mem_filterMap.mpr ⟨child,hchild,if_pos rfl⟩
  cases hi : b.parts[child.1]? with
  | none =>
    rw [childCalls_trace_of_none hb hp scene hi] at hmem
    cases hmem
  | some part =>
    exact ⟨part,List.mem_of_getElem? hi,_,_,_,hp.allSound _ part hi,
      Thread.of_trace hb hp hlt scene hi,hmem⟩

theorem Behavior.Timed.throughout_trace {P : Call Extended → Prop}
    (hP : ∀ b : Behavior Extended, b.Timed → ∀ p, Sound b p → ∀ start stop : ℚ, start < stop →
      ∀ scene, P (b.trace setting p (finite start) (finite stop) scene))
    (hb : b.Timed) (hp : Sound b p) {start stop : ℚ} (hlt : start < stop) (scene : Scene Extended) :
    (b.trace setting p (finite start) (finite stop) scene).Throughout P := by
  have hall : b.Everywhere fun node => node.timing.lifespan.IsSpan := hb
  induction hall generalizing p start stop scene with
  | @intro b _ _ ih =>
    refine .intro (hP b hb p hp start stop hlt scene) fun child hchild => ?_
    obtain ⟨part,hpart,q,q',calls,hq,hthread,hmem⟩ := hb.thread_of_mem_within hp hlt scene hchild
    obtain ⟨r,s,t,scene',hr,hst,heq⟩ := hthread.exists_trace (hb.part hpart) hq child.2 hmem
    rw [heq]
    exact ih part hpart (hb.part hpart) hr hst scene'

theorem Chain.Course.handovers_mem {k : Links Extended} (h : b.links? = some k) {term : ℚ} {n : ℕ}
    {c c' : Chain ℚ (List (Progress Extended) × Scene Extended)}
    {vs : List (Chain.Visit Extended (List (Progress Extended) × Scene Extended))}
    (hcourse : Chain.Course k.more (k.call setting) term n c vs c')
    (hmore : ∀ i, c.cursor = some i → k.more i = true) :
    ∀ t ∈ Call.handovers (finite c.now) (vs.map (Behavior.visit setting k)),
      ∃ q : ℚ, t = finite q ∧ c.now ≤ q ∧ q ≤ term := by
  induction hcourse with
  | tired | ended | full => nofun
  | @waits n c j state hcursor hlt hcall =>
    obtain ⟨part,hpart⟩ := Behavior.exists_part h (hmore j hcursor)
    have hstatus := Behavior.status_of_call setting hpart hcall
    simp only [List.map_cons,Behavior.visit_of_getElem? setting hpart,Call.handovers,hstatus]
    nofun
  | @passes n c j state q vs c' hcursor hlt hcall hq hqs _ ih =>
    obtain ⟨part,hpart⟩ := Behavior.exists_part h (hmore j hcursor)
    have hstatus := Behavior.status_of_call setting hpart hcall
    have hnext : c.now + (term - c.offset - (c.now - c.offset) - q) = term - q := by ring
    simp only [List.map_cons,Behavior.visit_of_getElem? setting hpart,Call.handovers,hstatus,
      Behavior.trace_start,Behavior.trace_stop,finite_sub,finite_add,hnext]
    refine List.forall_mem_cons.mpr ⟨⟨term - q,rfl,by linarith,by linarith⟩,fun t ht => ?_⟩
    obtain ⟨r,hr,hle,hterm⟩ := ih (fun i hi => Chain.more_of_following hi) t ht
    exact ⟨r,hr,le_trans (by linarith) hle,hterm⟩

theorem Behavior.Timed.handovers_trace (hb : b.Timed) (hp : Sound b p) {start stop : ℚ}
    (hlt : start < stop) (scene : Scene Extended)
    (hserial : (b.trace setting p (finite start) (finite stop) scene).serial = true) :
    ∀ t ∈ Call.handovers (finite start)
        (b.trace setting p (finite start) (finite stop) scene).within,
      finite start ≤ t ∧ t ≤ finite stop := by
  rw [serial_trace,Option.isSome_iff_exists] at hserial
  obtain ⟨k,h⟩ := hserial
  obtain ⟨c,henter,rfl,hstates,hmore⟩ := hp.exists_enter h start scene
  obtain ⟨c',hcourse,-,-,-⟩ :=
    hb.exists_course setting h stop henter (hstates ▸ hp.allSound_links h) hmore
  rw [trace_links setting p _ _ scene h]
  intro t ht
  obtain ⟨q,rfl,hle,hterm⟩ := hcourse.handovers_mem h hmore t ht
  rw [finite_le,finite_le]
  exact ⟨hle,hterm.trans (cut_le _ _)⟩

theorem Behavior.Timed.forward_trace (hb : b.Timed) (hp : Sound b p) {start stop : ℚ}
    (hlt : start < stop) (scene : Scene Extended) :
    (b.trace setting p (finite start) (finite stop) scene).Throughout Call.Forward := by
  refine throughout_trace (fun b hb p hp start stop hlt scene => ?_) hb hp hlt scene
  refine ⟨by rwa [trace_start,trace_stop,finite_lt],fun l hl => ?_,fun hserial => ?_⟩
  · rw [trace_status] at hl
    obtain ⟨q,rfl,hq,hqs⟩ := hl ▸ (hb.punctual p hp start stop hlt scene).1
    rw [trace_start,trace_stop,finite_sub,zero_eq,finite_le,finite_le]
    exact ⟨hq,hqs⟩
  · rw [trace_start,trace_stop]
    exact hb.handovers_trace hp hlt scene hserial

/-- Where every child is served in order, no window opens before zero. -/
theorem Thread.nonneg (h : Thread setting b p calls p') (hb : b.Timed) (hp : Sound b p)
    (hkept : Call.Kept calls) (hstart : ∀ c ∈ calls, 0 ≤ c.start) :
    ∀ c ∈ calls, c.Throughout fun d => 0 ≤ d.start := by
  have hall : b.Everywhere fun node => node.timing.lifespan.IsSpan := hb
  induction hall generalizing p p' calls with
  | @intro b _ _ ih =>
    refine fun c hc => .intro (hstart c hc) fun child hchild => ?_
    have hmem : child.2 ∈ calls.flatMap (Call.childCalls child.1) :=
      List.mem_flatMap.mpr ⟨c,hc,List.mem_filterMap.mpr ⟨child,hchild,if_pos rfl⟩⟩
    obtain ⟨hruns,hchildren⟩ := (Call.kept_iff calls).mp hkept
    cases hi : b.parts[child.1]? with
    | none =>
      rw [h.child_eq_nil hb hp hi] at hmem
      cases hmem
    | some part =>
      have hpart := List.mem_of_getElem? hi
      have hthread := h.child hb hp hi
      refine ih part hpart hthread (hb.part hpart) (hp.allSound _ part hi) (hchildren child.1)
        (fun d hd => ?_) child.2 hmem
      obtain ⟨e,he,hd⟩ := List.mem_flatMap.mp hd
      obtain ⟨run,hrun,he⟩ := List.mem_flatten.mp ((Call.flatten_runs calls).symm ▸ he)
      have hsub : run.flatMap (Call.childCalls child.1) ⊆ calls.flatMap (Call.childCalls child.1) := by
        intro d hd
        obtain ⟨e,he,hd⟩ := List.mem_flatMap.mp hd
        exact List.mem_flatMap.mpr ⟨e,(Call.infix_of_mem_runs hrun).subset he,hd⟩
      exact (hruns run hrun child.1).nonneg le_rfl
        (fun d hd => hthread.exists_window d (hsub hd)) d (List.mem_flatMap.mpr ⟨e,he,hd⟩)

theorem Run.le_start {start : ℚ} (h : Run setting b p start calls) :
    ∀ c ∈ calls, finite start ≤ c.start := by
  have hall : ∀ c ∈ calls, ∃ q : ℚ, c.start = finite q ∧ start ≤ q := by
    induction h with
    | nil => nofun
    | cons scene hlt _ ih =>
      refine List.forall_mem_cons.mpr ⟨⟨_,Behavior.trace_start ..,le_rfl⟩,fun c hc => ?_⟩
      obtain ⟨q,hq,hle⟩ := ih c hc
      exact ⟨q,hq,hlt.le.trans hle⟩
  intro c hc
  obtain ⟨q,hq,hle⟩ := hall c hc
  rwa [hq,finite_le]

/-- Over every run of growing windows that is given to a behavior, every call at every depth goes
forward, whatever the limit of completions. No window opens before zero either, as long as no chain
that has used up its limit early is called on. -/
theorem Behavior.forward_exactCalls (setting : Setting Extended) {b : Behavior Extended}
    (hb : b.Timed) {windows : List (ℚ × Scene Extended)}
    (hw : (0 :: windows.map Prod.fst).IsChain (· < ·)) :
    (∀ c ∈ b.exactCalls setting windows, c.Throughout Call.Forward) ∧
      (Call.Unstalled setting.config.chainLimit (b.exactCalls setting windows) →
        ∀ c ∈ b.exactCalls setting windows, c.Throughout fun d => 0 ≤ d.start) := by
  have hrun : Run setting b .fresh 0 (b.exactCalls setting windows) := run_exactCalls hw
  obtain ⟨p',hthread⟩ := hrun.exists_thread
  refine ⟨fun c hc => ?_,fun hunstalled => ?_⟩
  · obtain ⟨q,start,stop,scene,hq,hlt,rfl⟩ := hthread.exists_trace hb (.fresh b) c hc
    exact hb.forward_trace hq hlt scene
  · exact hthread.nonneg hb (.fresh b) ((hthread.kept_iff hb (.fresh b) hrun.clean).mpr hunstalled)
      hrun.le_start

end

namespace Plain

/-- A body that is cut while its second child runs, again and again. The property grows evenly,
whichever child runs. -/
def cutShort : Behavior Extended :=
  .loop { lifespan := .infinite false } <|
    .sequence { lifespan := 3 } [.leaf { lifespan := 2 } (.add .hue 2),
      .leaf { lifespan := 5 } (.add .hue 5)]

theorem cutShort_timed : cutShort.Timed := by decide

/-- With a limit of two completions, the third round of the body begins late and finds its second
child at hand, which seems to begin only after the present time: its window opens before zero. -/
theorem not_nonneg_cutShort :
    ¬∀ c ∈ cutShort.exactCalls (setting 2) [(7,scene),(8,scene)],
      c.Throughout fun d => 0 ≤ d.start := by
  decide +kernel

theorem forward_cutShort :
    cutShort.Timed ∧ (0 :: ([(7,scene),(8,scene)].map Prod.fst : List ℚ)).IsChain (· < ·) ∧
      (∀ c ∈ cutShort.exactCalls (setting 2) [(7,scene),(8,scene)], c.Throughout Call.Forward) ∧
      Call.Unstalled (setting 3).config.chainLimit
        (cutShort.exactCalls (setting 3) [(7,scene),(8,scene)]) ∧
      ∀ c ∈ cutShort.exactCalls (setting 3) [(7,scene),(8,scene)],
        c.Throughout fun d => 0 ≤ d.start :=
  have hw : (0 :: ([(7,scene),(8,scene)].map Prod.fst : List ℚ)).IsChain (· < ·) := by
    decide +kernel
  have hunstalled : Call.Unstalled (setting 3).config.chainLimit
      (cutShort.exactCalls (setting 3) [(7,scene),(8,scene)]) :=
    Call.unstalled_of_spare (by decide +kernel)
  ⟨cutShort_timed,hw,(Behavior.forward_exactCalls (setting 2) cutShort_timed hw).1,hunstalled,
    (Behavior.forward_exactCalls (setting 3) cutShort_timed hw).2 hunstalled⟩

end Plain
end Fireworks
