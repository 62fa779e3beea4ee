import Fireworks.Proofs.Behavior.Handover

/-! # The calls of one behavior

Seen from one node, what reaches it is a list of calls that thread its progress. The calls of a node
hand such lists on to its children, and the windows that start at zero cut a list into runs.
-/
namespace Fireworks
open Extended

section
variable [Elementary Extended] (setting : Setting Extended) (b : Behavior Extended)

/-- Calls of one behavior, each of which goes on from the progress that the one before leaves. -/
inductive Thread : Progress Extended → List (Call Extended) → Progress Extended → Prop
  | nil (p) : Thread p [] p
  | cons {p calls p'} {start stop : ℚ} (scene) : start < stop →
      Thread (b.update setting p (finite start) (finite stop) scene).progress calls p' →
      Thread p (b.trace setting p (finite start) (finite stop) scene :: calls) p'

/-- The calls of a run from some time on, each of which opens when the one before closes. -/
inductive Run : Progress Extended → ℚ → List (Call Extended) → Prop
  | nil (p start) : Run p start []
  | cons {p calls} {start stop : ℚ} (scene) : start < stop →
      Run (b.update setting p (finite start) (finite stop) scene).progress stop calls →
      Run p start (b.trace setting p (finite start) (finite stop) scene :: calls)

end

variable [Elementary Extended] {setting : Setting Extended} {b : Behavior Extended}
  {p p' : Progress Extended} {calls : List (Call Extended)}

namespace Thread

theorem append {p'' : Progress Extended} {others : List (Call Extended)}
    (h : Thread setting b p calls p') (ho : Thread setting b p' others p'') :
    Thread setting b p (calls ++ others) p'' := by
  induction h with
  | nil => exact ho
  | cons scene hlt _ ih => exact .cons scene hlt (ih ho)

theorem exists_of_append {others : List (Call Extended)}
    (h : Thread setting b p (calls ++ others) p') :
    ∃ q, Thread setting b p calls q ∧ Thread setting b q others p' := by
  induction calls generalizing p with
  | nil => exact ⟨p,.nil p,h⟩
  | cons c calls ih =>
    cases h with
    | cons scene hlt h =>
      obtain ⟨q,hq,ho⟩ := ih h
      exact ⟨q,.cons scene hlt hq,ho⟩

theorem sound (h : Thread setting b p calls p') (hb : b.Timed) (hp : Sound b p) : Sound b p' := by
  induction h with
  | nil => exact hp
  | cons scene hlt _ ih => exact ih (hb.punctual _ hp _ _ hlt scene).2

theorem run (h : Thread setting b p calls p') {start : ℚ}
    (hstart : ∀ c ∈ calls.head?, c.start = finite start)
    (hchain : calls.IsChain fun c d => d.start = c.stop) : Run setting b p start calls := by
  induction h generalizing start with
  | nil => exact .nil _ _
  | @cons p calls p' s stop scene hlt h ih =>
    obtain ⟨hhead,htail⟩ := List.isChain_cons.mp hchain
    rw [Behavior.trace_stop] at hhead
    have hs : finite s = finite start := by simpa using hstart
    cases hs
    exact .cons scene hlt (ih hhead htail)

end Thread

theorem Thread.of_call {k : Links Extended} {i j : ℕ} {part other : Behavior Extended}
    (hi : k.parts[i]? = some part) (hj : k.parts[k.slot j]? = some other) {start stop : ℚ}
    (hlt : start < stop) {status : Status Extended}
    {state after : List (Progress Extended) × Scene Extended}
    (hcall : k.call setting j (finite start) (finite stop) state = (status,after)) :
    Thread setting part (Progress.part state.1 i)
      (Call.among i [Behavior.visit setting k ⟨j,finite start,finite stop,status,state⟩])
      (Progress.part after.1 i) := by
  rw [Behavior.call_of_getElem? setting hj] at hcall
  obtain ⟨-,rfl⟩ := Prod.mk.inj hcall
  rw [Behavior.visit_of_getElem? setting hj,Call.among_cons,Progress.part_put]
  rcases eq_or_ne (k.slot j) i with rfl | hne
  · obtain rfl : part = other := Option.some.inj (hi.symm.trans hj)
    rw [if_pos rfl,if_pos rfl]
    exact .cons state.2 hlt (.nil _)
  · rw [if_neg hne,if_neg hne.symm]
    exact .nil _

/-- The calls of a part in the course of a chain thread its progress. -/
theorem Chain.Course.thread {k : Links Extended} (h : b.links? = some k) {term : ℚ} {n : ℕ}
    {c c' : Chain ℚ (List (Progress Extended) × Scene Extended)}
    {vs : List (Chain.Visit Extended (List (Progress Extended) × Scene Extended))}
    (hcourse : Chain.Course k.more (k.call setting) term n c vs c')
    (hmore : ∀ i, c.cursor = some i → k.more i = true) {i : ℕ} {part : Behavior Extended}
    (hi : k.parts[i]? = some part) :
    Thread setting part (Progress.part c.state.1 i)
      (Call.among i (vs.map (Behavior.visit setting k))) (Progress.part c'.state.1 i) := by
  induction hcourse with
  | tired | ended | full => exact .nil _
  | waits hcursor hlt hcall =>
    obtain ⟨other,hother⟩ := Behavior.exists_part h (hmore _ hcursor)
    exact .of_call hi hother (by linarith) hcall
  | passes hcursor hlt hcall _ _ _ ih =>
    obtain ⟨other,hother⟩ := Behavior.exists_part h (hmore _ hcursor)
    have hfirst := Thread.of_call hi hother (by linarith) hcall
    have hrest := ih fun i hi => Chain.more_of_following hi
    rw [List.map_cons,← List.singleton_append,Call.among_append]
    exact hfirst.append hrest

/-- The calls of a part in one call of a behavior thread its progress. -/
theorem Thread.of_trace (hb : b.Timed) (hp : Sound b p) {start stop : ℚ} (hlt : start < stop)
    (scene : Scene Extended) {i : ℕ} {part : Behavior Extended} (hi : b.parts[i]? = some part) :
    Thread setting part (Progress.part p.states i)
      ((b.trace setting p (finite start) (finite stop) scene).childCalls i)
      (Progress.part (b.update setting p (finite start) (finite stop) scene).progress.states i) := by
  induction b using Behavior.induct with
  | leaf => cases hi
  | chain b k h =>
    obtain ⟨c,henter,-,hstates,hmore⟩ := hp.exists_enter h start scene
    obtain ⟨c',hcourse,hupdate,-,-⟩ :=
      hb.exists_course setting h stop henter (hstates ▸ hp.allSound_links h) hmore
    rw [← hstates,hupdate,Behavior.trace_links setting p _ _ scene h]
    exact hcourse.thread h hmore (Behavior.parts_links h ▸ hi)
  | parallel timing lanes =>
    have hi : lanes[i]? = some part := hi
    rw [← hp.endedLanes (finite start),Behavior.childCalls_parallel,hi]
    simp only [Behavior.update,Progress.states,Behavior.updateLanes_children _ _ _ _ _ _ _ _ _ hi]
    split
    · exact .nil _
    · exact .cons _ hlt (.nil _)

theorem Run.clean (h : Run setting b p 0 calls) : Call.Clean calls := by
  have hall : ∀ {p calls} {start : ℚ}, Run setting b p start calls →
      (∀ c ∈ calls.head?, c.start = finite start) ∧ calls.IsChain fun c d => d.start = c.stop := by
    intro p calls start h
    induction h with
    | nil => exact ⟨nofun,.nil⟩
    | cons scene _ _ ih =>
      exact ⟨by simp,List.isChain_cons.mpr ⟨by simpa using ih.1,ih.2⟩⟩
  exact ⟨(hall h).1,(hall h).2.imp fun _ _ => Or.inr⟩

theorem Run.serial {start : ℚ} (h : Run setting b p start calls) :
    ∀ c ∈ calls, c.serial = b.links?.isSome := by
  induction h with
  | nil => simp
  | cons scene _ _ ih => exact List.forall_mem_cons.mpr ⟨Behavior.serial_trace _ _ _ _ _ b,ih⟩

theorem Behavior.run_calls {start : ℚ} {windows : List (ℚ × Scene Extended)}
    (hw : (start :: windows.map Prod.fst).IsChain (· < ·)) :
    Run setting b p start
      (b.calls setting p (finite start) (windows.map fun w => (finite w.1,w.2))) := by
  induction windows generalizing p start with
  | nil => exact .nil _ _
  | cons w windows ih =>
    obtain ⟨hlt,hw⟩ := List.isChain_cons_cons.mp hw
    exact .cons w.2 hlt (ih hw)

variable (setting b) in
/-- The calls of a run over rational windows, given by their ends and the scenes they find. -/
def Behavior.exactCalls (windows : List (ℚ × Scene Extended)) : List (Call Extended) :=
  b.calls setting .fresh 0 (windows.map fun w => (finite w.1,w.2))

theorem Behavior.run_exactCalls {windows : List (ℚ × Scene Extended)}
    (hw : (0 :: windows.map Prod.fst).IsChain (· < ·)) :
    Run setting b .fresh 0 (b.exactCalls setting windows) := run_calls hw

theorem Run.exists_thread {start : ℚ} (h : Run setting b p start calls) :
    ∃ p', Thread setting b p calls p' := by
  induction h with
  | nil => exact ⟨_,.nil _⟩
  | cons scene hlt _ ih =>
    obtain ⟨p',hp'⟩ := ih
    exact ⟨p',.cons scene hlt hp'⟩

theorem childCalls_trace_of_none (hb : b.Timed) (hp : Sound b p) {start stop : ℚ}
    (scene : Scene Extended) {i : ℕ} (hi : b.parts[i]? = none) :
    (b.trace setting p (finite start) (finite stop) scene).childCalls i = [] := by
  induction b using Behavior.induct with
  | leaf => rfl
  | chain b k h =>
    obtain ⟨c,henter,-,hstates,hmore⟩ := hp.exists_enter h start scene
    obtain ⟨c',hcourse,-,-,-⟩ :=
      hb.exists_course setting h stop henter (hstates ▸ hp.allSound_links h) hmore
    rw [Behavior.trace_links setting p _ _ scene h]
    refine Call.among_eq_nil fun child hchild hchild' => ?_
    obtain ⟨v,hv,rfl⟩ := List.mem_map.mp hchild
    obtain ⟨part,hpart⟩ := Behavior.exists_part h (hcourse.more_of_mem hmore v hv)
    rw [show k.slot v.place = i from hchild',Behavior.parts_links h,hi] at hpart
    cases hpart
  | parallel timing lanes =>
    have hi : lanes[i]? = none := hi
    rw [Behavior.childCalls_parallel,hi]

namespace Thread

theorem child (h : Thread setting b p calls p') (hb : b.Timed) (hp : Sound b p) {i : ℕ}
    {part : Behavior Extended} (hi : b.parts[i]? = some part) :
    Thread setting part (Progress.part p.states i) (calls.flatMap (Call.childCalls i))
      (Progress.part p'.states i) := by
  induction h with
  | nil => exact .nil _
  | cons scene hlt _ ih =>
    exact (of_trace hb hp hlt scene hi).append (ih (hb.punctual _ hp _ _ hlt scene).2)

theorem child_eq_nil (h : Thread setting b p calls p') (hb : b.Timed) (hp : Sound b p) {i : ℕ}
    (hi : b.parts[i]? = none) : calls.flatMap (Call.childCalls i) = [] := by
  induction h with
  | nil => rfl
  | cons scene hlt _ ih =>
    rw [List.flatMap_cons,childCalls_trace_of_none hb hp scene hi,
      ih (hb.punctual _ hp _ _ hlt scene).2,List.nil_append]

/-- Each run of a clean thread starts at zero from sound progress. -/
theorem exists_run (h : Thread setting b p calls p') (hb : b.Timed) (hp : Sound b p)
    (hclean : Call.Clean calls) {run : List (Call Extended)} (hr : run ∈ Call.runs calls) :
    ∃ q, Sound b q ∧ Run setting b q 0 run := by
  obtain ⟨before,others,rfl⟩ := Call.infix_of_mem_runs hr
  obtain ⟨q',h,-⟩ := h.exists_of_append
  obtain ⟨q,hbefore,hrun⟩ := h.exists_of_append
  exact ⟨q,hbefore.sound hb hp,
    hrun.run (hclean.head_of_mem_runs hr) (hclean.isChain_of_mem_runs hr)⟩

end Thread

end Fireworks
