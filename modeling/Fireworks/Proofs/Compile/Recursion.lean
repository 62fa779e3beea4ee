import Fireworks.Proofs.Compile.Bodies

/-! # The recursion of the compiler

A request leads to calls, which the table below lists. Some of them are about terms that stand
nowhere in the program, but each is about less than the request: lists of arguments change places
and are handed to several options, and what takes them up has lost a head or a list. So requests
that are answered by their bodies alone, down to some depth, have their answers as soon as the
depth is greater than the weight.
-/
namespace Fireworks
variable {ν : Type}

namespace Registry

/-- The calls that the compiler makes for a request. -/
def calls (registry : Registry) (request : Request ν) : List (Request ν) :=
  (registry.body request).asked registry.answer

/-- Answers requests by their bodies, down to some depth and not further. -/
def answerWithin (registry : Registry) :
    Nat → (request : Request ν) → Option (Except CompileError request.Answer)
  | 0,_ => none
  | depth + 1,request => (registry.body request).attempt (registry.answerWithin depth)

end Registry

/-- The calls that a request may lead to. -/
inductive Request.Leads (registry : Registry) : Request ν → Request ν → Prop
  | head (first args) : Leads registry (.read (.list (first :: args))) (.read first)
  | phrase (kind t) : Leads registry (.compile kind t) (.read t)
  | coerce (kind) {t phrase} : Phrase.resolve registry t = .ok phrase →
      Leads registry (.compile kind t) (.coerce kind phrase)
  | option (kind head rest) {options option} : option ∈ options →
      Leads registry (.coerce kind ⟨head,options :: rest⟩) (.read option)
  | applied (kind head) {options option rest phrase} : option ∈ options →
      Phrase.resolveApplied registry option rest = .ok phrase →
      Leads registry (.coerce kind ⟨head,options :: rest⟩) (.coerce kind phrase)
  | argument (kind kind' head) {lists args arg} : args ∈ lists → arg ∈ args →
      Leads registry (.coerce kind ⟨head,lists⟩) (.compile kind' arg)
  | statement (kind head) {lists lanes statements statement} : lanes ∈ lists →
      .list statements ∈ lanes → statement ∈ statements →
      Leads registry (.coerce kind ⟨head,lists⟩) (.compile .behavior statement)
  | body (kind head bounds args) :
      Leads registry (.coerce kind ⟨head,bounds ++ [args]⟩) (.compile .behavior (Term.body args))
  | span (kind kind' head bounds args) :
      Leads registry (.coerce kind ⟨head,bounds ++ [args]⟩) (.coerce kind' ⟨head,bounds⟩)
  | single (statement) : Leads registry (.program [statement]) (.compile .behavior statement)
  | block {statements} : statements.length ≠ 1 →
      Leads registry (.program statements) (.compile .behavior (Term.block [statements]))

namespace Inquiry
section Asked
variable {answer : Answers ν} {call : Request ν}

theorem mem_asked_arguments {refusal : CompileError} {kinds : List Kind}
    {build : Kind.Builder ν kinds} {args : List (Term ν)}
    (h : call ∈ (arguments refusal kinds build args).asked answer) :
    ∃ kind, ∃ arg ∈ args, call = .compile kind arg := by
  fun_induction arguments refusal kinds build args with
  | case1 | case3 => cases h
  | case2 kind kinds t ts build ih =>
    rcases mem_asked_get_bind h with rfl | ⟨gen,-,h⟩
    · exact ⟨kind,t,List.mem_cons_self,rfl⟩
    · obtain ⟨kind',arg,harg,h⟩ := ih gen h
      exact ⟨kind',arg,List.mem_cons_of_mem _ harg,h⟩

theorem mem_asked_constructed {name : String} {c : Constructor} {args : List (Term ν)}
    (h : call ∈ (constructed name c args).asked answer) :
    ∃ kind, ∃ arg ∈ args, call = .compile kind arg := by
  rw [constructed] at h
  split at h
  · exact mem_asked_arguments h
  · cases h

theorem mem_asked_lane {t : Term ν} (h : call ∈ (lane t).asked answer) :
    ∃ statements, t = .list statements ∧
      ∃ statement ∈ statements, call = .compile .behavior statement := by
  cases t with
  | number | symbol => cases h
  | list statements =>
    obtain ⟨statement,hs,h⟩ := mem_asked_mapM' h
    exact ⟨statements,rfl,statement,hs,mem_asked_get h⟩

end Asked

variable {registry : Registry} {call : Request ν} {kind : Kind} {head : Head ν}
  {lists : List (List (Term ν))}

theorem mem_asked_option {t : Term ν} (h : call ∈ (option kind lists t).asked registry.answer) :
    call = .read t ∨ ∃ phrase, Phrase.resolveApplied registry t lists = .ok phrase ∧
      call = .coerce kind phrase := by
  rcases mem_asked_get_bind h with rfl | ⟨inner,hinner,h⟩
  · exact .inl rfl
  · rcases mem_asked_bind h with h | ⟨phrase,hphrase,h⟩
    · cases h
    · have hread : Phrase.resolve registry t = .ok inner := hinner
      refine .inr ⟨phrase,?_,mem_asked_get h⟩
      rw [Phrase.resolveApplied,hread]
      exact hphrase

theorem leads_of_mem_lasting {args : List (Term ν)}
    (h : call ∈ (lasting head lists args).asked registry.answer) :
    Request.Leads registry (.coerce kind ⟨head,lists ++ [args]⟩) call := by
  rcases mem_asked_get_bind h with rfl | ⟨body,-,h⟩
  · exact .body kind head lists args
  · rcases mem_asked_get_bind h with rfl | ⟨span,-,h⟩
    · exact .span kind .number head lists args
    · cases h

theorem leads_of_mem_number (h : call ∈ (number head lists).asked registry.answer) :
    Request.Leads registry (.coerce .number ⟨head,lists⟩) call := by
  unfold number at h
  split at h
  · cases h
  · cases h
  · next name selection low high =>
    have hargs : [low,high] ∈ [[low,high]] := List.mem_singleton.mpr rfl
    rcases mem_asked_get_bind h with rfl | ⟨first,-,h⟩
    · exact .argument _ _ _ hargs List.mem_cons_self
    · rcases mem_asked_get_bind h with rfl | ⟨second,-,h⟩
      · exact .argument _ _ _ hargs (List.mem_cons_of_mem _ List.mem_cons_self)
      · cases h
  · cases h
  · cases h

theorem leads_of_mem_behavior (h : call ∈ (behavior head lists).asked registry.answer) :
    Request.Leads registry (.coerce .behavior ⟨head,lists⟩) call := by
  unfold behavior at h
  split at h
  · cases h
  · obtain ⟨kind,arg,harg,rfl⟩ := mem_asked_constructed h
    exact .argument _ _ _ (List.mem_singleton.mpr rfl) harg
  · rcases mem_asked_bind h with h | ⟨gens,-,h⟩
    · obtain ⟨lane,hlane,h⟩ := mem_asked_mapM' h
      obtain ⟨statements,rfl,statement,hstatement,rfl⟩ := mem_asked_lane h
      exact .statement _ _ (List.mem_singleton.mpr rfl) hlane hstatement
    · cases h
  · exact leads_of_mem_lasting h
  · exact leads_of_mem_lasting h
  · exact leads_of_mem_lasting h
  · next name easing args =>
    rcases mem_asked_get_bind h with rfl | ⟨body,-,h⟩
    · exact .body _ _ [] args
    · rcases mem_asked_get_bind h with rfl | ⟨easing,-,h⟩
      · exact .span _ _ _ [] args
      · cases h
  · cases h

theorem leads_of_mem_coerced {phrase : Phrase ν}
    (h : call ∈ (coerced kind phrase).asked registry.answer) :
    Request.Leads registry (.coerce kind phrase) call := by
  unfold coerced at h
  split at h
  · split at h
    · cases h
    · rcases mem_asked_bind h with h | ⟨gens,-,h⟩
      · obtain ⟨option,hoption,h⟩ := mem_asked_mapM' h
        rcases mem_asked_option h with rfl | ⟨phrase,hphrase,rfl⟩
        · exact .option _ _ _ hoption
        · exact .applied _ _ hoption hphrase
      · cases h
  · cases kind with
    | number => exact leads_of_mem_number h
    | behavior => exact leads_of_mem_behavior h
    | string =>
      rw [plain,string.eq_def] at h
      split at h <;> cases h
    | easing =>
      rw [plain,easing.eq_def] at h
      split at h <;> cases h

end Inquiry

/-- The compiler makes no other calls than those of the table. -/
theorem Registry.leads_of_mem_calls {registry : Registry} {request call : Request ν}
    (h : call ∈ registry.calls request) : request.Leads registry call := by
  rw [calls] at h
  match request with
  | .read (.number _) | .read (.list []) => cases h
  | .read (.symbol name) =>
    rw [body] at h
    split at h <;> cases h
  | .read (.list (head :: args)) =>
    rcases Inquiry.mem_asked_get_bind h with rfl | ⟨phrase,-,h⟩
    · exact .head head args
    · cases h
  | .coerce kind phrase => exact Inquiry.leads_of_mem_coerced h
  | .compile kind t =>
    rcases Inquiry.mem_asked_get_bind h with rfl | ⟨phrase,hphrase,h⟩
    · exact .phrase kind t
    · obtain rfl := Inquiry.mem_asked_get h
      exact .coerce kind hphrase
  | .program [statement] =>
    obtain rfl := Inquiry.mem_asked_get h
    exact .single statement
  | .program [] | .program (_ :: _ :: _) =>
    obtain rfl := Inquiry.mem_asked_get h
    exact .block (by simp)

/-- A measure of what is left to do, in nodes of terms and in lists of arguments. -/
def Request.weight : Request ν → Nat
  | .read t => 2 * t.size
  | .coerce _ phrase => 2 * phrase.weight
  | .compile _ t => 2 * t.size + 1
  | .program statements => 2 * Term.sizeAll statements + 8

theorem Phrase.sizeAll_lt_appliedWeight {args : List (Term ν)} {lists : List (List (Term ν))}
    (h : args ∈ lists) : Term.sizeAll args < appliedWeight lists := by
  induction lists with
  | nil => cases h
  | cons first rest ih =>
    rw [appliedWeight_cons]
    rcases List.mem_cons.mp h with rfl | h
    · omega
    · have hlt := ih h
      omega

/-- Every call is about less than what it is made for. -/
theorem Request.Leads.weight_lt {registry : Registry} {request call : Request ν}
    (h : request.Leads registry call) : call.weight < request.weight := by
  cases h with
  | head first args =>
    simp only [weight,Term.size,Term.sizeAll]
    omega
  | phrase kind t => exact Nat.lt_succ_self _
  | coerce kind hphrase =>
    have hweight := Phrase.weight_resolve hphrase
    simp only [weight]
    omega
  | option kind head rest hoption =>
    have hle := Term.size_le_sizeAll hoption
    simp only [weight,Phrase.weight,Phrase.appliedWeight_cons]
    omega
  | applied kind head hoption hphrase =>
    have hle := Term.size_le_sizeAll hoption
    have hweight := Phrase.weight_resolveApplied hphrase
    simp only [weight,Phrase.weight,Phrase.appliedWeight_cons] at hweight ⊢
    omega
  | argument kind kind' head hargs harg =>
    have hle := Term.size_le_sizeAll harg
    have hlt := Phrase.sizeAll_lt_appliedWeight hargs
    simp only [weight,Phrase.weight]
    omega
  | statement kind head hlanes hlane hstatement =>
    have hle := Term.size_le_sizeAll hstatement
    have hle' := Term.size_le_sizeAll hlane
    have hlt := Phrase.sizeAll_lt_appliedWeight hlanes
    simp only [weight,Phrase.weight,Term.size] at hle' ⊢
    omega
  | body kind head bounds args =>
    have hle := Term.size_body_le args
    simp only [weight,Phrase.weight,Phrase.appliedWeight_append,Phrase.appliedWeight_cons]
    omega
  | span kind kind' head bounds args =>
    simp only [weight,Phrase.weight,Phrase.appliedWeight_append,Phrase.appliedWeight_cons]
    omega
  | single statement =>
    simp only [weight,Term.sizeAll]
    omega
  | block hne =>
    simp only [weight,Term.block,Term.apply,Term.size,Term.sizeAll,List.map_cons,List.map_nil]
    omega

namespace Registry
variable {registry : Registry}

/-- What holds of a request as soon as it holds of the calls made for it holds of every request. -/
theorem request_induction (registry : Registry) {P : Request ν → Prop}
    (h : ∀ request, (∀ call ∈ registry.calls request, P call) → P request) (request : Request ν) :
    P request := by
  induction hn : request.weight using Nat.strongRecOn generalizing request with
  | ind n ih =>
    subst hn
    exact h request fun call hcall => ih _ (leads_of_mem_calls hcall).weight_lt call rfl

theorem answerWithin_eq_some {depth : Nat} {request : Request ν} (h : request.weight < depth) :
    registry.answerWithin depth request = some (registry.answer request) := by
  induction depth generalizing request with
  | zero => exact absurd h (Nat.not_lt_zero _)
  | succ depth ih =>
    rw [answerWithin,answer_eq_run]
    refine Inquiry.attempt_eq_some fun call hcall => ih ?_
    have hlt : call.weight < request.weight := (leads_of_mem_calls hcall).weight_lt
    omega

/-- The recursion of the compiler ends: each call weighs less than the request for which it is
made, so that no request leads further down than it weighs, and there is always an answer. -/
theorem recursion_ends (registry : Registry) (request : Request ν) :
    (∀ call ∈ registry.calls request, call.weight < request.weight) ∧
      ∀ depth, request.weight < depth →
        registry.answerWithin depth request = some (registry.answer request) :=
  ⟨fun _ hcall => (leads_of_mem_calls hcall).weight_lt,fun _ => answerWithin_eq_some⟩

end Registry

namespace Plain

theorem blinking_recursion_ends :
    Request.read blinking ∈ Registry.builtin.calls (.compile .behavior blinking) ∧
      (Request.read blinking).weight < (Request.compile .behavior blinking).weight ∧
      (Request.program [blinking]).weight < 27 ∧
      Registry.builtin.answerWithin 27 (.program [blinking]) =
        some (.ok (.choice .random [.lifespan (.const 1) (.action .explode),
          .lifespan (.range .each (.const 2) (.const 3)) (.action .explode)])) := by
  have hcall : Request.read blinking ∈ Registry.builtin.calls (.compile .behavior blinking) :=
    List.mem_cons_self
  have hweight : (Request.program [blinking]).weight < 27 := by decide
  refine ⟨hcall,(Registry.recursion_ends .builtin _).1 _ hcall,hweight,?_⟩
  rw [(Registry.recursion_ends .builtin _).2 27 hweight]
  with_unfolding_all rfl

end Plain
end Fireworks
