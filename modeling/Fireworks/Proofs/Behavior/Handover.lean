import Fireworks.Proofs.Behavior.Sound
import Fireworks.Proofs.Behavior.Windows

/-! # How windows follow on

What a chain hands to its children in one call: the window of each call starts where that child
stands. The chain comes to rest in step with the child at hand, unless its limit is used up.
-/
namespace Fireworks
open Extended

section
variable [Elementary Extended] {setting : Setting Extended} {k : Links Extended}

/-- Where a child of a chain stands: the current one at a given time, all others before a run. -/
def Links.stand (k : Links Extended) (cursor : Option ℕ) (time : ℚ) (i : ℕ) : Extended :=
  if cursor.map k.slot = some i then finite time else 0

omit [Elementary Extended] in
theorem Links.stand_some (j : ℕ) (time : ℚ) (i : ℕ) :
    k.stand (some j) time i = if k.slot j = i then finite time else 0 := by
  simp [Links.stand]

omit [Elementary Extended] in
theorem Links.stand_zero (cursor : Option ℕ) (i : ℕ) : k.stand cursor 0 i = 0 := by
  unfold Links.stand
  split <;> rfl

/-- How a chain comes to rest: a child waits, or the last one ended as the chain came to its
present time. -/
inductive Rest (term : ℚ) (n : ℕ) (c : Chain ℚ (List (Progress Extended) × Scene Extended))
    (within : List (ℕ × Call Extended))
    (c' : Chain ℚ (List (Progress Extended) × Scene Extended)) : ℚ → Prop
  | waits {child} : within.getLast? = some child → child.2.status = .running →
      Rest term n c within c' (term - c'.offset)
  | ended : (∀ child ∈ within.getLast?, child.2.status = .done (finite (term - c'.now))) →
      (within = [] → c' = c) →
      (c'.now < term → within.countP (fun child => child.2.status.isDone) = n) →
      Rest term n c within c' (c'.now - c'.offset)

/-- The windows of each child follow on from where it stands, and the chain comes to rest. -/
theorem exists_rest {b : Behavior Extended} (h : b.links? = some k) {term : ℚ} {n : ℕ}
    {c c' : Chain ℚ (List (Progress Extended) × Scene Extended)}
    {vs : List (Chain.Visit Extended (List (Progress Extended) × Scene Extended))}
    (hcourse : Chain.Course k.more (k.call setting) term n c vs c') (hc : c.now ≤ term)
    (hmore : ∀ i, c.cursor = some i → k.more i = true) :
    ∃ x, (∀ i, Call.Orderly (k.stand c.cursor (c.now - c.offset) i)
          (Call.among i (vs.map (Behavior.visit setting k))) ∧
        Call.after (k.stand c.cursor (c.now - c.offset) i)
          (Call.among i (vs.map (Behavior.visit setting k))) = k.stand c'.cursor x i) ∧
      (c'.cursor = none ∨ Rest term n c (vs.map (Behavior.visit setting k)) c' x) := by
  induction hcourse with
  | tired c =>
    exact ⟨c.now - c.offset,fun i => ⟨trivial,rfl⟩,
      Or.inr (.ended (by simp) (fun _ => rfl) fun _ => rfl)⟩
  | @ended n c hcursor => exact ⟨c.now - c.offset,fun i => ⟨trivial,rfl⟩,Or.inl hcursor⟩
  | @full n c hfull =>
    exact ⟨c.now - c.offset,fun i => ⟨trivial,rfl⟩,
      Or.inr (.ended (by simp) (fun _ => rfl) fun hlt => absurd hfull (not_le.mpr hlt))⟩
  | @waits n c j state hcursor hlt hcall =>
    obtain ⟨part,hpart⟩ := Behavior.exists_part h (hmore j hcursor)
    have hstatus := Behavior.status_of_call setting hpart hcall
    refine ⟨term - c.offset,fun i => ?_,Or.inr (.waits rfl ?_)⟩
    · simp only [List.map_cons,List.map_nil,Behavior.visit_of_getElem? setting hpart,
        Call.among_cons,Call.among_nil,hcursor,Links.stand_some]
      rcases eq_or_ne (k.slot j) i with rfl | hi
      · simp [Call.next_of_running hstatus]
      · simp [hi]
    · rw [Behavior.visit_of_getElem? setting hpart]
      exact hstatus
  | @passes n c j state q vs c' hcursor hlt hcall hq hqs _ ih =>
    obtain ⟨part,hpart⟩ := Behavior.exists_part h (hmore j hcursor)
    have hstatus := Behavior.status_of_call setting hpart hcall
    obtain ⟨x,hx,hrest⟩ := ih (by simpa using hq)
      fun i hi => Chain.more_of_following hi
    simp only [sub_self,Links.stand_zero,zero_eq] at hx
    refine ⟨x,fun i => ?_,hrest.imp_right fun hr => ?_⟩
    · obtain ⟨horderly,hafter⟩ := hx i
      simp only [List.map_cons,Behavior.visit_of_getElem? setting hpart,Call.among_cons,hcursor,
        Links.stand_some]
      rcases eq_or_ne (k.slot j) i with rfl | hi
      · simp [Call.next_of_done hstatus,horderly,hafter]
      · simp [hi,horderly,hafter]
    · rw [List.map_cons,Behavior.visit_of_getElem? setting hpart]
      cases hr with
      | waits hlast hrun => exact .waits (by rw [List.getLast?_cons,hlast]; rfl) hrun
      | ended hlast hnil hcount =>
        refine .ended ?_ (by simp) fun hlt' => ?_
        · intro child hchild
          rw [List.getLast?_cons,Option.mem_some_iff] at hchild
          cases hl : (vs.map (Behavior.visit setting k)).getLast? with
          | none =>
            have hc' : c' = _ := hnil (List.getLast?_eq_none_iff.mp hl)
            rw [← hchild,hl,hc']
            simpa using hstatus
          | some last =>
            rw [← hchild,hl]
            exact hlast last hl
        · rw [List.countP_cons,hcount hlt',hstatus]
          rfl

end
end Fireworks
