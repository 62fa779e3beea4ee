import Fireworks.Proofs.Compile.Choices

/-! # Requests to the compiler

The compiler is called for four things. What it does for one of them depends on the answers to
others, which it asks for one after the other until something is refused: an inquiry is such a
computation, with no word on where the answers come from. It may be run on all answers, or on some.
-/
namespace Fireworks
variable {ν α β : Type}

/-- What the compiler is called for. -/
inductive Request (ν : Type) where
  | read (t : Term ν)
  | coerce (kind : Kind) (phrase : Phrase ν)
  | compile (kind : Kind) (t : Term ν)
  | program (statements : List (Term ν))

abbrev Request.Answer : Request ν → Type
  | .read _ => Phrase ν
  | .coerce kind _ | .compile kind _ => kind.Gen ν
  | .program _ => BehaviorGen ν

abbrev Answers (ν : Type) := (request : Request ν) → Except CompileError request.Answer

def Registry.answer (registry : Registry) : Answers ν
  | .read t => Phrase.resolve registry t
  | .coerce kind phrase => registry.coerce kind phrase
  | .compile kind t => registry.compile kind t
  | .program statements => registry.compileProgram statements

/-- A computation that asks for answers on its way. -/
inductive Inquiry (ν α : Type) where
  | done (result : Except CompileError α)
  | ask (request : Request ν) (next : request.Answer → Inquiry ν α)

namespace Inquiry

def bind : Inquiry ν α → (α → Inquiry ν β) → Inquiry ν β
  | done (.ok value),f => f value
  | done (.error e),_ => done (.error e)
  | ask request next,f => ask request fun value => (next value).bind f

instance : Monad (Inquiry ν) where
  pure value := done (.ok value)
  bind := bind

def run (answer : Answers ν) : Inquiry ν α → Except CompileError α
  | done result => result
  | ask request next => answer request >>= fun value => (next value).run answer

def asked (answer : Answers ν) : Inquiry ν α → List (Request ν)
  | done _ => []
  | ask request next =>
    request :: match answer request with
      | .ok value => (next value).asked answer
      | .error _ => []

/-- The result, if there is an answer to each request on the way. -/
def attempt (answer? : (request : Request ν) → Option (Except CompileError request.Answer)) :
    Inquiry ν α → Option (Except CompileError α)
  | done result => some result
  | ask request next =>
    match answer? request with
    | some (.ok value) => (next value).attempt answer?
    | some (.error e) => some (.error e)
    | none => none

end Inquiry

@[simp] def Request.get (request : Request ν) : Inquiry ν request.Answer := .ask request pure

namespace Inquiry
variable {answer answer' : Answers ν} {call : Request ν}

@[simp] theorem run_done (result : Except CompileError α) : (done result).run answer = result := rfl

@[simp] theorem run_pure (value : α) : (pure value : Inquiry ν α).run answer = pure value := rfl

@[simp] theorem run_ask (request : Request ν) (next : request.Answer → Inquiry ν α) :
    (ask request next).run answer = answer request >>= fun value => (next value).run answer := rfl

theorem run_get (request : Request ν) : request.get.run answer = answer request :=
  bind_pure (answer request)

@[simp] theorem run_bind (x : Inquiry ν α) (f : α → Inquiry ν β) :
    (x >>= f).run answer = x.run answer >>= fun value => (f value).run answer := by
  induction x with
  | done result => cases result <;> rfl
  | ask request next ih =>
    rw [run_ask,bind_assoc]
    exact bind_congr ih

theorem run_mapM' (f : β → Inquiry ν α) (xs : List β) :
    (xs.mapM' f).run answer = xs.mapM fun x => (f x).run answer := by
  induction xs with
  | nil => rfl
  | cons x xs ih => simp [ih]

theorem mem_asked_get {request : Request ν} (h : call ∈ request.get.asked answer) :
    call = request := by
  rw [Request.get,asked] at h
  generalize answer request = result at h
  cases result <;> exact List.mem_singleton.mp h

theorem mem_asked_bind {x : Inquiry ν α} {f : α → Inquiry ν β}
    (h : call ∈ (x >>= f).asked answer) :
    call ∈ x.asked answer ∨ ∃ value, x.run answer = .ok value ∧ call ∈ (f value).asked answer := by
  induction x with
  | done result =>
    cases result with
    | ok value => exact .inr ⟨value,rfl,h⟩
    | error e => cases h
  | ask request next ih =>
    rw [show ask request next >>= f = ask request fun value => next value >>= f from rfl,asked] at h
    rw [asked,run_ask]
    generalize answer request = result at h ⊢
    cases result with
    | error e => exact .inl h
    | ok value =>
      rcases List.mem_cons.mp h with rfl | h
      · exact .inl List.mem_cons_self
      · exact (ih value h).imp_left (List.mem_cons_of_mem _)

theorem mem_asked_get_bind {request : Request ν} {f : request.Answer → Inquiry ν α}
    (h : call ∈ (request.get >>= f).asked answer) :
    call = request ∨ ∃ value, answer request = .ok value ∧ call ∈ (f value).asked answer := by
  rcases mem_asked_bind h with h | ⟨value,hvalue,h⟩
  · exact .inl (mem_asked_get h)
  · exact .inr ⟨value,(run_get request).symm.trans hvalue,h⟩

theorem mem_asked_mapM' {f : β → Inquiry ν α} {xs : List β}
    (h : call ∈ (xs.mapM' f).asked answer) : ∃ x ∈ xs, call ∈ (f x).asked answer := by
  induction xs with
  | nil => cases h
  | cons x xs ih =>
    rcases mem_asked_bind h with h | ⟨first,-,h⟩
    · exact ⟨x,List.mem_cons_self,h⟩
    · rcases mem_asked_bind h with h | ⟨others,-,h⟩
      · obtain ⟨y,hy,h⟩ := ih h
        exact ⟨y,List.mem_cons_of_mem _ hy,h⟩
      · cases h

/-- Answers that are there, as far as they are asked for, lead to the result. -/
theorem attempt_eq_some
    {answer? : (request : Request ν) → Option (Except CompileError request.Answer)}
    {x : Inquiry ν α} (h : ∀ call ∈ x.asked answer, answer? call = some (answer call)) :
    x.attempt answer? = some (x.run answer) := by
  induction x with
  | done result => rfl
  | ask request next ih =>
    rw [asked,List.forall_mem_cons] at h
    obtain ⟨hrequest,hnext⟩ := h
    rw [attempt,hrequest,run_ask]
    generalize answer request = result at hnext ⊢
    cases result with
    | error e => rfl
    | ok value => exact ih value hnext

theorem run_congr {x : Inquiry ν α} (h : ∀ call ∈ x.asked answer, answer' call = answer call) :
    x.run answer' = x.run answer := by
  refine Option.some.inj ?_
  calc some (x.run answer')
    _ = x.attempt fun request => some (answer' request) := (attempt_eq_some fun _ _ => rfl).symm
    _ = some (x.run answer) := attempt_eq_some fun call hcall => congrArg some (h call hcall)

end Inquiry
end Fireworks
