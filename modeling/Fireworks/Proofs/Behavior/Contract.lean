import Fireworks.Proofs.Behavior.Runs
import Fireworks.Proofs.Plain

/-! # The contract between a behavior and its children

Every child may count on its windows: a run of it begins at zero, each later window opens where the
one before closed, and a child that ended is called again only to begin anew. Parallel behaviors
keep this always. A chain breaks it in one case: it uses up its limit of completions while the
window still has time, and goes on later without that time.
-/
namespace Fireworks
open Extended

namespace Call
variable {ν : Type} [Arithmetic ν]

/-- In every run of every node, the windows of each child follow on from zero. -/
def Kept (calls : List (Call ν)) : Prop :=
  ∀ path, ∀ run ∈ runs (descend calls path), ∀ i, Orderly 0 (run.flatMap (childCalls i))

/-- A chain has used up its limit of completions, and the last of them left time over. -/
structure Stalled (limit : ℕ) (c : Call ν) : Prop where
  serial : c.serial = true
  running : c.status = .running
  completed : c.completed = limit
  early : ∃ child ∈ c.within.getLast?, ∃ leftover, child.2.status = .done leftover ∧ 0 < leftover

/-- No run goes on after a chain has stalled. -/
def Unstalled (limit : ℕ) (calls : List (Call ν)) : Prop :=
  ∀ path, ∀ run ∈ runs (descend calls path), ∀ c ∈ run.dropLast, ¬c.Stalled limit

theorem kept_iff (calls : List (Call ν)) :
    Kept calls ↔ (∀ run ∈ runs calls, ∀ i, Orderly 0 (run.flatMap (childCalls i))) ∧
      ∀ i, Kept (calls.flatMap (childCalls i)) :=
  ⟨fun h => ⟨h [],fun i path => h (i :: path)⟩,fun h path =>
    match path with
    | [] => h.1
    | i :: path => h.2 i path⟩

theorem unstalled_iff (limit : ℕ) (calls : List (Call ν)) :
    Unstalled limit calls ↔ (∀ run ∈ runs calls, ∀ c ∈ run.dropLast, ¬c.Stalled limit) ∧
      ∀ i, Unstalled limit (calls.flatMap (childCalls i)) :=
  ⟨fun h => ⟨h [],fun i path => h (i :: path)⟩,fun h path =>
    match path with
    | [] => h.1
    | i :: path => h.2 i path⟩

omit [Arithmetic ν] in
theorem descend_nil (path : List ℕ) : descend ([] : List (Call ν)) path = [] := by
  induction path with
  | nil => rfl
  | cons i path ih => exact ih

omit [Arithmetic ν] in
theorem forall_dropLast_cons {P : Call ν → Prop} (c : Call ν) (calls : List (Call ν)) :
    (∀ d ∈ (c :: calls).dropLast, P d) ↔ (calls ≠ [] → P c) ∧ ∀ d ∈ calls.dropLast, P d := by
  cases calls <;> simp

theorem kept_nil : Kept ([] : List (Call ν)) := by
  intro path run hrun
  rw [descend_nil] at hrun
  cases hrun

theorem unstalled_nil (limit : ℕ) : Unstalled limit ([] : List (Call ν)) := by
  intro path run hrun
  rw [descend_nil] at hrun
  cases hrun

end Call

section
variable [Elementary Extended] {setting : Setting Extended} {b : Behavior Extended}
  {p p' : Progress Extended} {calls : List (Call Extended)} {k : Links Extended}

omit [Elementary Extended] in
/-- A chain that has rested without waiting has stalled if the window had time left. -/
theorem Rest.stalled_iff {n : ℕ} {stop : ℚ}
    {c c' : Chain ℚ (List (Progress Extended) × Scene Extended)} (hc : c'.now ≤ stop)
    {within : List (ℕ × Call Extended)} (hne : within ≠ []) {x start : ℚ}
    (h : Rest stop n c within c' x) :
    (Call.mk (finite start) (finite stop) .running true within).Stalled n ↔
      x ≠ stop - c'.offset := by
  obtain ⟨last,hlast⟩ := Option.ne_none_iff_exists'.mp (mt List.getLast?_eq_none_iff.mp hne)
  cases h with
  | waits hlast' hrun =>
    refine iff_of_false (fun hs => ?_) (fun hx => hx rfl)
    obtain ⟨child,hchild,leftover,hdone,-⟩ := hs.early
    obtain rfl := Option.some.inj (hchild.symm.trans hlast')
    rw [hrun] at hdone
    cases hdone
  | ended hdone _ hcount =>
    have hdone := hdone last hlast
    rcases hc.lt_or_eq with hlt | heq
    · refine iff_of_true ⟨rfl,rfl,hcount hlt,last,hlast,_,hdone,?_⟩ fun hx => ?_
      · rw [zero_eq,finite_lt]
        linarith
      · linarith
    · refine iff_of_false (fun hs => ?_) (fun hx => hx (by rw [heq]))
      obtain ⟨child,hchild,leftover,hdone',hpos⟩ := hs.early
      obtain rfl := Option.some.inj (hchild.symm.trans hlast)
      obtain rfl := Status.done.inj (hdone'.symm.trans hdone)
      rw [heq,sub_self] at hpos
      exact absurd ((finite_lt _ _).mp hpos) (lt_irrefl _)

section
variable (hb : b.Timed) (h : b.links? = some k)
include hb h

variable (setting) in
/-- What one call of a living chain does for its children: it serves them in order, the child at
hand among them, and leaves them out of step just when it stalls. -/
theorem exists_handover {start stop offset : ℚ} {cursor : Option ℕ}
    {states : List (Progress Extended)} {scene : Scene Extended}
    (henter : Chain.enter k.more p (finite start) scene =
      Chain.exact ⟨start,offset,cursor,states,scene⟩)
    (hs : AllSound k.parts states) (hmore : ∀ i, cursor = some i → k.more i = true)
    (hlt : start < stop) {j : ℕ} (hj : cursor = some j) (hlive : start < k.lifespan.toTop) :
    let c := b.trace setting p (finite start) (finite stop) scene
    ∃ offset' cursor' states' y,
      (b.update setting p (finite start) (finite stop) scene).progress =
        .chain (finite offset') cursor' states' ∧
      AllSound k.parts states' ∧ (∀ i, cursor' = some i → k.more i = true) ∧
      (∀ i, Call.Orderly (k.stand cursor (start - offset) i) (c.childCalls i) ∧
        Call.after (k.stand cursor (start - offset) i) (c.childCalls i) = k.stand cursor' y i) ∧
      c.childCalls (k.slot j) ≠ [] ∧
      (c.status = .running ↔ cursor' ≠ none ∧ stop < k.lifespan.toTop) ∧
      (c.status = .running → (c.Stalled setting.config.chainLimit ↔ y ≠ stop - offset')) := by
  intro c
  have hspan : k.lifespan.IsSpan := Behavior.lifespan_links h ▸ hb.span
  obtain ⟨c',hcourse,hupdate,hs',hmore'⟩ :=
    hb.exists_course setting h stop henter hs hmore
  have hterm : start < k.lifespan.cut stop := lt_cut.mpr ⟨hlive,hlt⟩
  have hnow : c'.now ≤ stop := (hcourse.now_le_term hterm.le).trans (cut_le _ _)
  obtain ⟨y,hy,hrest⟩ := exists_rest h hcourse hterm.le hmore
  have htrace : c = _ := Behavior.trace_links setting p (finite start) (finite stop) scene h
  have hcalls : ∀ i, c.childCalls i = Call.among i
      ((k.visits setting p (finite start) (finite stop) scene).map (Behavior.visit setting k)) :=
    fun i => by rw [htrace]; rfl
  have hstatus : c.status = .running ↔ c'.cursor ≠ none ∧ stop < k.lifespan.toTop := by
    rw [← Chain.status_eq_running hspan c' hnow,Behavior.trace_status,hupdate]
  obtain ⟨v,vs,hvisits,hv⟩ := hcourse.exists_cons (by simp [Config.chainLimit]) hj hterm
  refine ⟨c'.offset,c'.cursor,c'.state.1,y,congrArg Outcome.progress hupdate,hs',hmore',?_,?_,
    hstatus,?_⟩
  · simpa only [hcalls] using hy
  · rw [hcalls,hvisits,List.map_cons,Behavior.visit,hv,Call.among_cons,if_pos rfl]
    exact List.cons_ne_nil _ _
  · intro hrun
    obtain ⟨hcursor,hstop⟩ := hstatus.mp hrun
    rw [cut_of_lt hstop] at hrest
    have hc : c = .mk (finite start) (finite stop) .running true
        ((k.visits setting p (finite start) (finite stop) scene).map
          (Behavior.visit setting k)) := by
      rw [htrace,← Behavior.trace_status setting p (finite start) (finite stop) scene b]
      exact congrArg (Call.mk _ _ · _ _) hrun
    rw [hc]
    exact (hrest.resolve_left hcursor).stalled_iff hnow (by rw [hvisits]; exact List.cons_ne_nil _ _)

/-- A chain that is over makes no more calls in its run. -/
theorem Run.dead {start offset : ℚ} {cursor : Option ℕ} {states : List (Progress Extended)}
    (hrun : Run setting b p start calls)
    (henter : ∀ scene, Chain.enter k.more p (finite start) scene =
      Chain.exact ⟨start,offset,cursor,states,scene⟩)
    (hs : AllSound k.parts states) (hmore : ∀ i, cursor = some i → k.more i = true)
    (hstart : 0 ≤ start) (hdead : cursor = none ∨ k.lifespan.toTop ≤ start) :
    ∀ c ∈ calls, c.within = [] ∧ c.status ≠ .running := by
  induction hrun with
  | nil => simp
  | @cons p calls start stop scene hlt _ ih =>
    obtain ⟨c',hcourse,hupdate,-,-⟩ := hb.exists_course setting h stop (henter scene) hs hmore
    obtain ⟨hnil,rfl⟩ : k.visits setting p (finite start) (finite stop) scene = [] ∧
        c' = ⟨start,offset,cursor,states,scene⟩ := by
      rcases hdead with hnone | hle
      · exact hcourse.eq_of_none hnone
      · exact hcourse.eq_of_le (not_lt.mp fun hcut => absurd (lt_cut.mp hcut).1 (not_lt.mpr hle))
    have hspan : k.lifespan.IsSpan := Behavior.lifespan_links h ▸ hb.span
    refine List.forall_mem_cons.mpr ⟨⟨?_,?_⟩,?_⟩
    · rw [Behavior.trace_links setting p _ _ scene h,hnil]
      rfl
    · rw [Behavior.trace_status,hupdate]
      intro hstatus
      obtain ⟨hcursor,hstop⟩ := (Chain.status_eq_running hspan _ hlt.le).mp hstatus
      rcases hdead with hnone | hle
      · exact hcursor hnone
      · exact absurd (hstop.trans_le hle) (not_lt.mpr (WithTop.coe_le_coe.mpr hlt.le))
    · rw [hupdate] at ih
      refine ih (Chain.enter_of_ne_zero _ _ _ _ (by linarith)) (by linarith) (hdead.imp_right ?_)
      exact fun hle => hle.trans (WithTop.coe_le_coe.mpr hlt.le)

/-- As long as a chain goes on, its children are called in order if it stands with the child at
hand, and if it does not stall before its last call. -/
theorem Run.orderly_iff {start offset x : ℚ} {cursor : Option ℕ}
    {states : List (Progress Extended)} (hrun : Run setting b p start calls)
    (henter : ∀ scene, Chain.enter k.more p (finite start) scene =
      Chain.exact ⟨start,offset,cursor,states,scene⟩)
    (hs : AllSound k.parts states) (hmore : ∀ i, cursor = some i → k.more i = true)
    (hstart : 0 ≤ start) (hcursor : cursor ≠ none) (hlive : start < k.lifespan.toTop) :
    (∀ i, Call.Orderly (k.stand cursor x i) (calls.flatMap (Call.childCalls i))) ↔
      (calls ≠ [] → x = start - offset) ∧
        ∀ c ∈ calls.dropLast, ¬c.Stalled setting.config.chainLimit := by
  induction hrun generalizing offset x cursor states with
  | nil => simp
  | @cons p calls start stop scene hlt hrun ih =>
    obtain ⟨j,hj⟩ := Option.ne_none_iff_exists'.mp hcursor
    obtain ⟨offset',cursor',states',y,hprogress,hs',hmore',hy,hne,hrunning,hstalled⟩ :=
      exists_handover setting hb h (henter scene) hs hmore hlt hj hlive
    simp only [List.flatMap_cons,Call.orderly_append]
    rw [hprogress] at ih hrun
    have henter' := Chain.enter_of_ne_zero k.more offset' cursor' states'
      (show stop ≠ 0 by linarith)
    by_cases hx : x = start - offset
    · subst hx
      simp only [hy,true_and,implies_true,Call.forall_dropLast_cons]
      by_cases hgoes : cursor' ≠ none ∧ stop < k.lifespan.toTop
      · rw [ih henter' hs' hmore' (by linarith) hgoes.1 hgoes.2,hstalled (hrunning.mpr hgoes),
          not_ne_iff]
      · have hdead := hrun.dead hb h henter' hs' hmore' (by linarith)
          (by rwa [not_and_or,not_ne_iff,not_lt] at hgoes)
        exact iff_of_true (fun i => Call.orderly_of_within (fun c hc => (hdead c hc).1) _ i)
          ⟨fun _ hstall => hgoes (hrunning.mp hstall.running),
            fun c hc hstall => (hdead c (List.dropLast_subset _ hc)).2 hstall.running⟩
    · refine iff_of_false (fun hall => hx ?_) (fun hall => hx (hall.1 (List.cons_ne_nil _ _)))
      have heq := (hall (k.slot j)).1.unique (hy (k.slot j)).1 hne
      simpa [hj,Links.stand_some] using heq

theorem Run.chain_iff (hp : Sound b p) (hrun : Run setting b p 0 calls) :
    (∀ i, Call.Orderly 0 (calls.flatMap (Call.childCalls i))) ↔
      ∀ c ∈ calls.dropLast, ¬c.Stalled setting.config.chainLimit := by
  have hmore : ∀ i, Chain.following k.more 0 = some i → k.more i = true := fun i hi =>
    Chain.more_of_following hi
  by_cases hgoes : Chain.following k.more 0 ≠ none ∧ (0 : ℚ) < k.lifespan.toTop
  · have hiff := hrun.orderly_iff (x := 0) hb h (hp.enter_zero h) (hp.allSound_links h) hmore le_rfl
      hgoes.1 hgoes.2
    simpa only [Links.stand_zero,sub_self,implies_true,true_and] using hiff
  · have hdead := hrun.dead hb h (hp.enter_zero h) (hp.allSound_links h) hmore le_rfl
      (by rwa [not_and_or,not_ne_iff,not_lt] at hgoes)
    exact iff_of_true (fun i => Call.orderly_of_within (fun c hc => (hdead c hc).1) _ i)
      fun c hc hstall => (hdead c (List.dropLast_subset _ hc)).2 hstall.running

end

theorem Run.parallel_orderly {timing : Timing Extended} {lanes : List (Behavior Extended)} {i : ℕ}
    {lane : Behavior Extended} (hi : lanes[i]? = some lane) {start : ℚ} (hstart : 0 ≤ start)
    (hrun : Run setting (.parallel timing lanes) p start calls) {x : Extended}
    (hx : isOver (p.endedLanes (finite start)).1 i = false → x = finite start) :
    Call.Orderly x (calls.flatMap (Call.childCalls i)) := by
  induction hrun generalizing x with
  | nil => trivial
  | @cons p calls start stop scene hlt hrun ih =>
    have hended := Behavior.updateLanes_ended setting lanes (p.endedLanes (finite start)).1
      (p.endedLanes (finite start)).2 (finite start) (finite stop)
      (finite stop - Arithmetic.maxNum timing.lifespan (finite start)) scene i hi
    simp only [Behavior.update,Behavior.endedLanes_of_ne_zero (show stop ≠ 0 by linarith),
      hended] at ih
    rw [List.flatMap_cons,Behavior.childCalls_parallel,hi]
    cases ho : isOver (p.endedLanes (finite start)).1 i with
    | true => exact ih (by linarith) (by simp [ho])
    | false =>
      refine ⟨by rw [Behavior.trace_start,hx ho],ih (by linarith) fun hgoes => ?_⟩
      rw [ho,Bool.false_or,Status.isDone_eq_false] at hgoes
      rw [Call.next_of_running ((Behavior.trace_status ..).trans hgoes),Behavior.trace_stop]

theorem Run.iff (hb : b.Timed) (hp : Sound b p) (hrun : Run setting b p 0 calls) :
    (∀ i, Call.Orderly 0 (calls.flatMap (Call.childCalls i))) ↔
      ∀ c ∈ calls.dropLast, ¬c.Stalled setting.config.chainLimit := by
  cases h : b.links? with
  | some k => exact hrun.chain_iff hb h hp
  | none =>
    have hserial : ∀ c ∈ calls.dropLast, ¬c.Stalled setting.config.chainLimit := by
      intro c hc hstall
      have hc := hrun.serial c (List.dropLast_subset _ hc)
      rw [hstall.serial,h] at hc
      cases hc
    refine iff_of_true (fun i => ?_) hserial
    obtain ⟨p',hthread⟩ := hrun.exists_thread
    cases hi : b.parts[i]? with
    | none =>
      rw [hthread.child_eq_nil hb hp hi]
      trivial
    | some part =>
      cases b with
      | leaf => cases hi
      | sequence | repetition | loop => cases h
      | parallel => exact hrun.parallel_orderly hi le_rfl fun _ => rfl

/-- The contract is kept at every depth unless a chain stalls somewhere and goes on. -/
theorem Thread.kept_iff (hb : b.Timed) (hp : Sound b p) (hcalls : Thread setting b p calls p')
    (hclean : Call.Clean calls) :
    Call.Kept calls ↔ Call.Unstalled setting.config.chainLimit calls := by
  have hall : b.Everywhere fun node => node.timing.lifespan.IsSpan := hb
  induction hall generalizing p p' calls with
  | @intro b _ _ ih =>
    have hhere : (∀ run ∈ Call.runs calls, ∀ i, Call.Orderly 0 (run.flatMap (Call.childCalls i))) ↔
        ∀ run ∈ Call.runs calls, ∀ c ∈ run.dropLast, ¬c.Stalled setting.config.chainLimit := by
      refine forall₂_congr fun run hr => ?_
      obtain ⟨q,hq,hrun⟩ := hcalls.exists_run hb hp hclean hr
      exact hrun.iff hb hq
    have hchild : (∀ run ∈ Call.runs calls, ∀ i,
        Call.Orderly 0 (run.flatMap (Call.childCalls i))) → ∀ i,
        (Call.Kept (calls.flatMap (Call.childCalls i)) ↔
          Call.Unstalled setting.config.chainLimit (calls.flatMap (Call.childCalls i))) := by
      intro hkept i
      cases hi : b.parts[i]? with
      | none =>
        rw [hcalls.child_eq_nil hb hp hi]
        exact iff_of_true Call.kept_nil (Call.unstalled_nil _)
      | some part =>
        have hmem := List.mem_of_getElem? hi
        exact ih part hmem (hb.part hmem) (hp.allSound i part hi) (hcalls.child hb hp hi)
          (.flatMap fun run hr => hkept run hr i)
    rw [Call.kept_iff,Call.unstalled_iff,← hhere]
    exact and_congr_right fun hkept => forall_congr' (hchild hkept)

/-- Over every run of growing windows that is given to a behavior, whatever else happens to its
scene, its nodes keep the contract with their children exactly if no chain that has used up its
limit early is called on. -/
theorem Behavior.kept_exactCalls_iff (setting : Setting Extended) {b : Behavior Extended}
    (hb : b.Timed) {windows : List (ℚ × Scene Extended)}
    (hw : (0 :: windows.map Prod.fst).IsChain (· < ·)) :
    Call.Kept (b.exactCalls setting windows) ↔
      Call.Unstalled setting.config.chainLimit (b.exactCalls setting windows) := by
  have hrun : Run setting b .fresh 0 (b.exactCalls setting windows) := run_exactCalls hw
  obtain ⟨p',hthread⟩ := hrun.exists_thread
  exact hthread.kept_iff hb (.fresh b) hrun.clean

end

namespace Plain

/-- Two children that end at once. -/
def pair : Behavior Extended :=
  .sequence { lifespan := .infinite false } [.nop,.ofEffect (.add .hue 1)]

theorem pair_timed : pair.Timed := by decide

/-- With a limit of one completion, the second child of a pair waits for the second window, and
finds a start of one there: its run never begins. -/
theorem not_kept_pair :
    ¬Call.Kept (pair.exactCalls (setting 1) [(1,scene),(2,scene)]) := by
  intro hkept
  have hrun : ((Call.runs (pair.exactCalls (setting 1) [(1,scene),(2,scene)])).map fun run =>
      (run.flatMap (Call.childCalls 1)).map Call.start) = [[finite 1]] := by
    decide +kernel
  obtain ⟨run,hmem,hstart⟩ := List.mem_map.mp (hrun ▸ List.mem_singleton_self [finite 1])
  have horderly := hkept [] run hmem 1
  cases hcalls : run.flatMap (Call.childCalls 1) with
  | nil =>
    rw [hcalls] at hstart
    cases hstart
  | cons c calls =>
    rw [hcalls] at hstart horderly
    rw [List.map_cons,horderly.1] at hstart
    exact absurd (List.cons.inj hstart).1 (by decide +kernel)

theorem kept_pair_iff :
    pair.Timed ∧ (0 :: ([(1,scene),(2,scene)].map Prod.fst : List ℚ)).IsChain (· < ·) ∧
      (Call.Kept (pair.exactCalls (setting 1) [(1,scene),(2,scene)]) ↔
        Call.Unstalled (setting 1).config.chainLimit
          (pair.exactCalls (setting 1) [(1,scene),(2,scene)])) :=
  ⟨pair_timed,by decide +kernel,
    Behavior.kept_exactCalls_iff (setting 1) pair_timed (by decide +kernel)⟩

end Plain
end Fireworks
