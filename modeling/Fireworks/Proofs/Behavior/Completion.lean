import Fireworks.Proofs.Behavior.OnTime
import Fireworks.Proofs.Behavior.Runs
import Fireworks.Proofs.Plain

/-! # When a run ends

The end of a run does not depend on the windows that it is cut into: whatever they are, the first
call that reaches beyond the duration reports the end, no call reports it too early, and what is
left of the window is counted from the duration itself.
-/
namespace Fireworks
open Extended

/-- The calls of a run report its end after a given time. -/
structure EndsAfter (duration : WithTop ℚ) (calls : List (Call Extended)) : Prop where
  /-- No call that closes before that time reports an end. -/
  not_before : ∀ c ∈ calls, c.status.isDone = true → duration ≤ c.stop.toTop
  /-- A call that closes after that time reports the end, unless one before it did. -/
  in_time : ∀ (i : ℕ) c, calls[i]? = some c → duration < c.stop.toTop →
    ∃ j ≤ i, ∃ d, calls[j]? = some d ∧ d.status.isDone = true
  /-- The first call to report the end has the time left since then. -/
  exact_end : ∀ (i : ℕ) c leftover, calls[i]? = some c → c.status = .done leftover →
    (∀ j < i, ∀ d, calls[j]? = some d → d.status = .running) →
      ∃ e : ℚ, duration = e ∧ c.stop - leftover = finite e

section
variable [Elementary Extended] {setting : Setting Extended} {b : Behavior Extended}
  {p : Progress Extended} {calls : List (Call Extended)}

theorem Run.lt_stop {start : ℚ} (h : Run setting b p start calls) :
    ∀ c ∈ calls, (start : WithTop ℚ) < c.stop.toTop := by
  induction h with
  | nil => nofun
  | cons scene hlt _ ih =>
    refine List.forall_mem_cons.mpr ⟨?_,fun c hc => (WithTop.coe_lt_coe.mpr hlt).trans (ih c hc)⟩
    rw [Behavior.trace_stop,toTop_finite]
    exact WithTop.coe_lt_coe.mpr hlt

omit [Elementary Extended] in
theorem EndsAfter.nil (duration : WithTop ℚ) : EndsAfter duration [] := ⟨nofun,nofun,nofun⟩

omit [Elementary Extended] in
theorem EndsAfter.cons {duration : WithTop ℚ} {c : Call Extended} (h : EndsAfter duration calls)
    (hrun : c.status = .running) (hc : c.stop.toTop ≤ duration) : EndsAfter duration (c :: calls) where
  not_before := List.forall_mem_cons.mpr ⟨fun hdone => by simp [hrun,Status.isDone] at hdone,
    h.not_before⟩
  in_time := by
    intro i d hd hlt
    cases i with
    | zero =>
      obtain rfl : c = d := Option.some.inj hd
      exact absurd hlt (not_lt.mpr hc)
    | succ i =>
      obtain ⟨j,hj,e,he,hdone⟩ := h.in_time i d hd hlt
      exact ⟨j + 1,Nat.succ_le_succ hj,e,he,hdone⟩
  exact_end := by
    intro i d leftover hd hdone hbefore
    cases i with
    | zero =>
      obtain rfl : c = d := Option.some.inj hd
      rw [hrun] at hdone
      cases hdone
    | succ i =>
      exact h.exact_end i d leftover hd hdone fun j hj => hbefore (j + 1) (Nat.succ_lt_succ hj)

omit [Elementary Extended] in
theorem EndsAfter.of_done {c : Call Extended} {e stop : ℚ} (hstop : c.stop = finite stop)
    (hdone : c.status = .done (finite (stop - e))) (hle : e ≤ stop)
    (hlater : ∀ d ∈ calls, (stop : WithTop ℚ) < d.stop.toTop) : EndsAfter e (c :: calls) where
  not_before := by
    have hle : (e : WithTop ℚ) ≤ stop := WithTop.coe_le_coe.mpr hle
    refine List.forall_mem_cons.mpr ⟨fun _ => by rwa [hstop],fun d hd _ => ?_⟩
    exact hle.trans (hlater d hd).le
  in_time := fun _ _ _ _ => ⟨0,Nat.zero_le _,c,rfl,by rw [hdone]; rfl⟩
  exact_end := by
    intro i d leftover hd hd' hbefore
    cases i with
    | zero =>
      obtain rfl : c = d := Option.some.inj hd
      obtain rfl := Status.done.inj (hdone.symm.trans hd')
      exact ⟨e,rfl,by rw [hstop,finite_sub,sub_sub_cancel]⟩
    | succ i =>
      have hrun := hbefore 0 (Nat.succ_pos i) c rfl
      rw [hdone] at hrun
      cases hrun

/-- A run that is on time ends when the duration of its behavior is over. -/
theorem Run.endsAfter (hb : b.Timed) (hp : Sound b p) {start : ℚ} (hrun : Run setting b p start calls)
    (hstart : start = 0 ∨ 0 < start ∧ OnTime b p start)
    (hspare : ∀ c ∈ calls, c.Throughout (Call.Spare setting.config.chainLimit)) :
    EndsAfter b.duration calls := by
  induction hrun with
  | nil => exact .nil _
  | @cons p calls start stop scene hlt hrun ih =>
    obtain ⟨hc,hcalls⟩ := List.forall_mem_cons.mp hspare
    obtain ⟨hgoes,hdone⟩ := hb.settles p hp start stop hlt hstart scene hc
    obtain ⟨htimely,hp'⟩ := hb.punctual p hp start stop hlt scene
    have hstop : 0 < stop := hstart.elim (fun h0 => h0 ▸ hlt) fun hpos => hpos.1.trans hlt
    cases hstatus : (b.update setting p (finite start) (finite stop) scene).status with
    | running =>
      have ht := hgoes hstatus
      refine .cons (ih hp' (Or.inr ⟨hstop,ht⟩) hcalls) (by rw [Behavior.trace_status,hstatus]) ?_
      rw [Behavior.trace_stop]
      exact ht.le
    | done leftover =>
      obtain ⟨e,he,rfl⟩ := hdone leftover hstatus
      rw [hstatus] at htimely
      obtain ⟨q,hq,hq0,-⟩ := htimely
      obtain rfl := Extended.finite.inj hq
      rw [he]
      exact .of_done (by rw [Behavior.trace_stop]) (by rw [Behavior.trace_status,hstatus])
        (by linarith) hrun.lt_stop

/-- Over every run of growing windows in which no chain uses up its limit of completions, a behavior
ends when its duration is over. -/
theorem Behavior.endsAfter_duration (setting : Setting Extended) {b : Behavior Extended}
    (hb : b.Timed) {windows : List (ℚ × Scene Extended)}
    (hw : (0 :: windows.map Prod.fst).IsChain (· < ·))
    (hspare : ∀ c ∈ b.exactCalls setting windows,
      c.Throughout (Call.Spare setting.config.chainLimit)) :
    EndsAfter b.duration (b.exactCalls setting windows) :=
  (run_exactCalls hw).endsAfter hb (.fresh b) (Or.inl rfl) hspare

end

namespace Plain

/-- A wait of one, and then a parallel behavior whose longest lane takes two. -/
def delayed : Behavior Extended :=
  .sequence { lifespan := .infinite false }
    [.leaf { lifespan := 1 } .nop,.inParallel [.leaf { lifespan := 2 } (.add .hue 1),.nop]]

theorem delayed_timed : delayed.Timed := by decide

example : delayed.duration = 3 := by decide +kernel

theorem delayed_endsAfter :
    delayed.Timed ∧ (0 :: [(1/2,scene),(2,scene),(7/2,scene)].map Prod.fst : List ℚ).IsChain (· < ·) ∧
      (∀ c ∈ delayed.exactCalls (setting 3) [(1/2,scene),(2,scene),(7/2,scene)],
        c.Throughout (Call.Spare (setting 3).config.chainLimit)) ∧
      EndsAfter delayed.duration
        (delayed.exactCalls (setting 3) [(1/2,scene),(2,scene),(7/2,scene)]) :=
  ⟨delayed_timed,by decide +kernel,by decide +kernel,
    Behavior.endsAfter_duration (setting 3) delayed_timed (by decide +kernel) (by decide +kernel)⟩

end Plain
end Fireworks
