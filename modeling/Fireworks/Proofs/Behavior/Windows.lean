import Mathlib.Data.List.SplitBy
import Fireworks.Proofs.Behavior.Trace
import Fireworks.Proofs.ExactTime

/-! # Windows that follow on

The windows of a child count from its own beginning. Each opens where the one before closes, and a
window that opens at zero begins another run.
-/
namespace Fireworks
open Extended

namespace Call
variable {ν : Type} [Arithmetic ν]

/-- Where the next window of the same child starts: a run goes on, and a new one starts at zero. -/
def next (c : Call ν) : ν :=
  match c.status with
  | .running => c.stop
  | .done _ => 0

theorem next_of_running {c : Call ν} (h : c.status = .running) : c.next = c.stop := by
  rw [next,h]

theorem next_of_done {c : Call ν} {leftover : ν} (h : c.status = .done leftover) : c.next = 0 := by
  rw [next,h]

/-- Windows that follow on, the first of them from a given time. -/
def Orderly : ν → List (Call ν) → Prop
  | _, [] => True
  | expected, c :: calls => c.start = expected ∧ Orderly c.next calls

/-- Where a child stands after some calls. -/
def after : ν → List (Call ν) → ν
  | expected, [] => expected
  | _, c :: calls => after c.next calls

@[simp] theorem orderly_nil (expected : ν) : Orderly expected [] := trivial

@[simp] theorem orderly_cons (expected : ν) (c : Call ν) (calls : List (Call ν)) :
    Orderly expected (c :: calls) ↔ c.start = expected ∧ Orderly c.next calls := Iff.rfl

@[simp] theorem after_nil (expected : ν) : after expected [] = expected := rfl

@[simp] theorem after_cons (expected : ν) (c : Call ν) (calls : List (Call ν)) :
    after expected (c :: calls) = after c.next calls := rfl

theorem after_append (expected : ν) (calls others : List (Call ν)) :
    after expected (calls ++ others) = after (after expected calls) others := by
  induction calls generalizing expected with
  | nil => rfl
  | cons c calls ih => exact ih c.next

theorem orderly_append (expected : ν) (calls others : List (Call ν)) :
    Orderly expected (calls ++ others) ↔
      Orderly expected calls ∧ Orderly (after expected calls) others := by
  induction calls generalizing expected with
  | nil => simp
  | cons c calls ih => simp [ih,and_assoc]

theorem orderly_of_within {calls : List (Call ν)} (h : ∀ c ∈ calls, c.within = []) (expected : ν)
    (i : ℕ) : Orderly expected (calls.flatMap (childCalls i)) := by
  have hnil : calls.flatMap (childCalls i) = [] := List.flatMap_eq_nil_iff.mpr fun c hc => by
    rw [childCalls,h c hc,among_nil]
  rw [hnil]
  trivial

theorem Orderly.unique {x y : ν} {calls : List (Call ν)} (hx : Orderly x calls)
    (hy : Orderly y calls) (hne : calls ≠ []) : x = y := by
  cases calls with
  | nil => exact absurd rfl hne
  | cons c calls => exact hx.1.symm.trans hy.1

/-- Calls cut before every window that starts at zero. -/
def runs (calls : List (Call ν)) : List (List (Call ν)) :=
  calls.splitBy fun _ c => !(c.start == 0)

/-- The first call begins a run, and each later one goes on with it or begins another. -/
structure Clean (calls : List (Call Extended)) : Prop where
  head : ∀ c ∈ calls.head?, c.start = 0
  next : calls.IsChain fun c d => d.start = 0 ∨ d.start = c.stop

theorem Clean.nil : Clean [] := ⟨nofun,.nil⟩

/-- Whatever a list holds, it may be followed by windows that begin anew. -/
theorem Clean.append {calls others : List (Call Extended)} (h : Clean calls) (ho : Clean others) :
    Clean (calls ++ others) where
  head := by
    cases calls with
    | nil => exact ho.head
    | cons c calls => exact h.head
  next := List.isChain_append.mpr ⟨h.next,ho.next,fun _ _ d hd => Or.inl (ho.head d hd)⟩

theorem Orderly.isChain {expected : Extended} {calls : List (Call Extended)}
    (h : Orderly expected calls) : calls.IsChain fun c d => d.start = 0 ∨ d.start = c.stop := by
  induction calls generalizing expected with
  | nil => exact .nil
  | cons c calls ih =>
    refine List.isChain_cons.mpr ⟨fun d hd => ?_,ih h.2⟩
    cases calls with
    | nil => cases hd
    | cons c' calls =>
      obtain rfl : c' = d := Option.some.inj hd
      rw [h.2.1,next]
      cases c.status with
      | running => exact Or.inr rfl
      | done _ => exact Or.inl rfl

theorem Orderly.clean {calls : List (Call Extended)} (h : Orderly 0 calls) : Clean calls where
  head := by
    cases calls with
    | nil => nofun
    | cons c calls =>
      intro d hd
      obtain rfl : c = d := Option.some.inj hd
      exact h.1
  next := h.isChain

theorem flatten_runs (calls : List (Call Extended)) : (runs calls).flatten = calls :=
  List.flatten_splitBy _ _

theorem infix_of_mem_runs {calls run : List (Call Extended)} (h : run ∈ runs calls) :
    run <:+: calls := by
  obtain ⟨l,m,hlm⟩ := List.append_of_mem h
  exact ⟨l.flatten,m.flatten,by rw [← flatten_runs calls,hlm]; simp⟩

theorem Clean.isChain_of_mem_runs {calls run : List (Call Extended)} (h : Clean calls)
    (hr : run ∈ runs calls) : run.IsChain fun c d => d.start = c.stop := by
  have hne : run.IsChain fun _ d => (!(d.start == 0)) = true := List.isChain_of_mem_splitBy hr
  have hnext := h.next.infix (infix_of_mem_runs hr)
  rw [List.isChain_iff_getElem] at hne hnext ⊢
  intro i hi
  refine (hnext i hi).resolve_left fun h0 => ?_
  have := hne i hi
  rw [h0] at this
  exact absurd this (by decide)

theorem Clean.head_of_mem_runs {calls run : List (Call Extended)} (h : Clean calls)
    (hr : run ∈ runs calls) : ∀ c ∈ run.head?, c.start = 0 := by
  have hcut := List.isChain_getLast_head_splitBy (fun _ (c : Call Extended) => !(c.start == 0)) calls
  obtain ⟨l,m,hlm⟩ := List.append_of_mem hr
  rcases List.eq_nil_or_concat l with rfl | ⟨l,before,rfl⟩
  · intro c hc
    refine h.head c ?_
    rw [← flatten_runs calls,hlm,List.nil_append,List.flatten_cons,List.head?_append,hc]
    rfl
  · rw [show calls.splitBy _ = runs calls from rfl,hlm,List.concat_eq_append,List.append_assoc,
      List.singleton_append,List.isChain_append_cons_cons] at hcut
    obtain ⟨-,⟨-,hrun,hzero⟩,-⟩ := hcut
    intro c hc
    rw [List.head?_eq_some_head hrun,Option.mem_some_iff] at hc
    rw [hc] at hzero
    exact (beq_zero c.start).mp (by simpa using hzero)

/-- What each run hands on to a child in order is clean as a whole. -/
theorem Clean.flatMap {calls : List (Call Extended)} {i : ℕ}
    (h : ∀ run ∈ runs calls, Orderly 0 (run.flatMap (childCalls i))) :
    Clean (calls.flatMap (childCalls i)) := by
  rw [← flatten_runs calls]
  generalize runs calls = list at h ⊢
  induction list with
  | nil => exact .nil
  | cons run rest ih =>
    obtain ⟨hrun,hrest⟩ := List.forall_mem_cons.mp h
    rw [List.flatten_cons,List.flatMap_append]
    exact hrun.clean.append (ih hrest)

end Call
end Fireworks
