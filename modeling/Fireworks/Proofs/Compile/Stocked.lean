import Fireworks.Proofs.Compile.Recursion
import Fireworks.Proofs.Generator.Stocked

/-! # What the compiler returns

A property that the answers of the compiler have need only be shown of the bodies of requests: each body
may take it for granted of the answers that it asks for. So choices have options in all that is compiled,
as a choice of nothing is refused and no generator is put together in any other way.
-/
namespace Fireworks
variable {ν α β : Type}

namespace Inquiry

/-- If all answers have `P`, then so has the result `Q`. -/
def Yields (P : (request : Request ν) → request.Answer → Prop) (Q : α → Prop) : Inquiry ν α → Prop
  | done result => ∀ value, result = .ok value → Q value
  | ask request next => ∀ answer, P request answer → (next answer).Yields P Q

variable {P : (request : Request ν) → request.Answer → Prop} {Q : α → Prop} {R : β → Prop}

theorem Yields.imp {Q' : α → Prop} {x : Inquiry ν α} (hx : x.Yields P Q) (h : ∀ value, Q value → Q' value) :
    x.Yields P Q' := by
  induction x with
  | done result => exact fun value hvalue => h value (hx value hvalue)
  | ask request next ih => exact fun answer hanswer => ih answer (hx answer hanswer)

theorem Yields.of_forall (h : ∀ value, Q value) (x : Inquiry ν α) : x.Yields P Q := by
  induction x with
  | done result => exact fun value _ => h value
  | ask request next ih => exact fun answer _ => ih answer

theorem Yields.pure {value : α} (h : Q value) : (Pure.pure value : Inquiry ν α).Yields P Q := by
  intro other heq
  cases heq
  exact h

theorem Yields.refused (e : CompileError) : (done (.error e) : Inquiry ν α).Yields P Q := by
  intro value heq
  cases heq

theorem Yields.get (request : Request ν) : request.get.Yields P (P request) := by
  intro answer h
  exact .pure h

theorem Yields.bind {x : Inquiry ν α} {f : α → Inquiry ν β} (hx : x.Yields P Q)
    (hf : ∀ value, Q value → (f value).Yields P R) : (x >>= f).Yields P R := by
  induction x with
  | done result =>
    cases result with
    | ok value => exact hf value (hx value rfl)
    | error e => exact .refused e
  | ask request next ih => exact fun answer hanswer => ih answer (hx answer hanswer)

/-- A list of results is as long as that of the inquiries. -/
theorem Yields.mapM' {f : β → Inquiry ν α} {xs : List β} (h : ∀ x ∈ xs, (f x).Yields P Q) :
    (xs.mapM' f).Yields P fun values => values.length = xs.length ∧ ∀ value ∈ values, Q value := by
  induction xs with
  | nil => exact .pure ⟨rfl,List.forall_mem_nil Q⟩
  | cons x xs ih =>
    obtain ⟨hfirst,hrest⟩ := List.forall_mem_cons.mp h
    refine hfirst.bind fun value hvalue => (ih hrest).bind fun values hvalues => .pure ?_
    exact ⟨congrArg (· + 1) hvalues.1,List.forall_mem_cons.mpr ⟨hvalue,hvalues.2⟩⟩

theorem Yields.of_run {answer : Answers ν} {x : Inquiry ν α} (h : x.Yields P Q)
    (hasked : ∀ call ∈ x.asked answer, ∀ value, answer call = .ok value → P call value) {value : α}
    (hvalue : x.run answer = .ok value) : Q value := by
  induction x with
  | done result => exact h value hvalue
  | ask request next ih =>
    rw [asked,List.forall_mem_cons] at hasked
    obtain ⟨hrequest,hnext⟩ := hasked
    rw [run_ask] at hvalue
    cases hanswer : answer request with
    | error e =>
      rw [hanswer] at hvalue
      cases hvalue
    | ok first =>
      rw [hanswer] at hnext hvalue
      exact ih first (h first (hrequest first hanswer)) hnext hvalue

end Inquiry

/-- All answers of the compiler have a property that every body hands on. -/
theorem Registry.forall_answer {registry : Registry} {P : (request : Request ν) → request.Answer → Prop}
    (h : ∀ request, (registry.body request).Yields P (P request)) (request : Request ν) :
    ∀ value, registry.answer request = .ok value → P request value := by
  induction request using registry.request_induction with
  | h request ih =>
    intro value hvalue
    rw [answer_eq_run] at hvalue
    exact (h request).of_run ih hvalue

/-! ## Generators in which all choices have options -/

def Kind.Stocked : (kind : Kind) → kind.Gen ν → Prop
  | .number => NumberGen.Stocked
  | .string => ValueGen.Stocked
  | .easing => ValueGen.Stocked
  | .behavior => BehaviorGen.Stocked

def Request.Stocked : (request : Request ν) → request.Answer → Prop
  | .read _ => fun _ => True
  | .coerce kind _ | .compile kind _ => kind.Stocked
  | .program _ => BehaviorGen.Stocked

theorem Kind.stocked_choice (selection : Selection) {kind : Kind} {options : List (kind.Gen ν)}
    (hne : options ≠ []) (h : ∀ option ∈ options, kind.Stocked option) :
    kind.Stocked (kind.choice selection options) := by
  cases kind with
  | number | string | easing | behavior => exact .choice selection hne h

/-- What stands around its arguments without a choice of its own. -/
def Kind.Builder.Stocked : (kinds : List Kind) → Kind.Builder ν kinds → Prop
  | [],built => BehaviorGen.Stocked built
  | kind :: kinds,build => ∀ gen, kind.Stocked gen → Stocked kinds (build gen)

theorem Constructor.stocked_build (c : Constructor) : Kind.Builder.Stocked (ν := ν) c.kinds c.build := by
  cases c with
  | property blend target => exact fun _ hvalue => .property blend target hvalue
  | translate => exact fun _ hx _ hy _ hz => .translate ⟨hx,hy,hz⟩
  | rotate => exact fun _ hx _ hy _ hz => .rotate ⟨hx,hy,hz⟩
  | emit => exact fun _ hcount _ htimes _ hparallel _ hbody => .emit hcount htimes hparallel hbody
  | loop => exact fun _ hbody => .loop hbody
  | repeated => exact fun _ hlimit _ hbody => .repeated hlimit hbody
  | flair => exact fun _ hcount _ hbody => .flair hcount hbody
  | fireworks => exact fun _ hcount _ hbody => .fireworks hcount hbody
  | character => exact fun _ hword _ hbody => .character hword hbody
  | text => exact fun _ hword _ hx _ hy _ hz _ hbody => .text hword ⟨hx,hy,hz⟩ hbody

namespace Inquiry

theorem yields_arguments {refusal : CompileError} {kinds : List Kind} {build : Kind.Builder ν kinds}
    (h : Kind.Builder.Stocked kinds build) (args : List (Term ν)) :
    (arguments refusal kinds build args).Yields Request.Stocked BehaviorGen.Stocked := by
  fun_induction arguments refusal kinds build args with
  | case1 built => exact .pure h
  | case2 kind kinds t ts build ih => exact (Yields.get _).bind fun gen hgen => ih gen (h gen hgen)
  | case3 => exact .refused _

theorem yields_constructed (name : String) (c : Constructor) (args : List (Term ν)) :
    (constructed name c args).Yields Request.Stocked BehaviorGen.Stocked := by
  unfold constructed
  split
  · exact yields_arguments c.stocked_build args
  · exact .refused _

theorem yields_lasting (head : Head ν) (bounds : List (List (Term ν))) (args : List (Term ν)) :
    (lasting head bounds args).Yields Request.Stocked BehaviorGen.Stocked :=
  (Yields.get _).bind fun _ hbody => (Yields.get _).bind fun _ hspan => .pure (.lifespan hspan hbody)

theorem yields_lane (t : Term ν) :
    (lane t).Yields Request.Stocked fun statements => ∀ statement ∈ statements, statement.Stocked := by
  cases t with
  | number | symbol => exact .refused _
  | list statements =>
    have hall := Yields.mapM' (P := Request.Stocked) fun statement (_ : statement ∈ statements) =>
      Yields.get (.compile .behavior statement)
    exact hall.imp fun _ h => h.2

theorem yields_option (kind : Kind) (rest : List (List (Term ν))) (t : Term ν) :
    (option kind rest t).Yields Request.Stocked kind.Stocked := by
  refine (Yields.get _).bind fun phrase _ => ?_
  exact (Yields.of_forall (fun _ => trivial) _).bind fun _ _ => .get _

theorem yields_number (head : Head ν) (lists : List (List (Term ν))) :
    (number head lists).Yields Request.Stocked NumberGen.Stocked := by
  unfold number
  split
  · exact .pure (.const _)
  · exact .pure (.angle _)
  · exact (Yields.get _).bind fun _ hlow => (Yields.get _).bind fun _ hhigh => .pure (.range _ hlow hhigh)
  · exact .refused _
  · exact .refused _

theorem yields_string (head : Head ν) (lists : List (List (Term ν))) :
    (string head lists).Yields Request.Stocked ValueGen.Stocked := by
  unfold string
  split
  · exact .pure (.const _)
  · exact .refused _

theorem yields_easing (head : Head ν) (lists : List (List (Term ν))) :
    (easing head lists).Yields Request.Stocked ValueGen.Stocked := by
  unfold easing
  split
  · exact .pure (.const _)
  · exact .refused _

theorem yields_behavior (head : Head ν) (lists : List (List (Term ν))) :
    (behavior head lists).Yields Request.Stocked BehaviorGen.Stocked := by
  unfold behavior
  split
  · exact .pure (.action _)
  · exact yields_constructed _ _ _
  · exact (Yields.mapM' fun lane _ => yields_lane lane).bind fun _ hlanes => .pure (.block hlanes.2)
  · exact yields_lasting _ _ _
  · exact yields_lasting _ _ _
  · exact yields_lasting _ _ _
  · exact (Yields.get _).bind fun _ hbody => (Yields.get _).bind fun _ heasing => .pure (.eased heasing hbody)
  · exact .refused _

/-- A choice that is not refused has as many options as it was given. -/
theorem yields_coerced (kind : Kind) (phrase : Phrase ν) :
    (coerced kind phrase).Yields Request.Stocked kind.Stocked := by
  unfold coerced
  split
  · next name selection options rest =>
    split
    · exact .refused _
    · next hempty =>
      refine (Yields.mapM' fun option _ => yields_option kind rest option).bind fun gens hgens => .pure ?_
      refine Kind.stocked_choice selection ?_ hgens.2
      rintro rfl
      exact hempty (List.isEmpty_iff_length_eq_zero.mpr hgens.1.symm)
  · cases kind with
    | number => exact yields_number _ _
    | string => exact yields_string _ _
    | easing => exact yields_easing _ _
    | behavior => exact yields_behavior _ _

end Inquiry

namespace Registry
variable {registry : Registry}

theorem yields_body (request : Request ν) :
    (registry.body request).Yields Request.Stocked request.Stocked := by
  match request with
  | .read t => exact .of_forall (fun _ => trivial) _
  | .coerce kind phrase => exact Inquiry.yields_coerced kind phrase
  | .compile kind t => exact (Inquiry.Yields.get _).bind fun _ _ => .get _
  | .program [statement] => exact .get (.compile .behavior statement)
  | .program [] | .program (_ :: _ :: _) => exact .get (.compile .behavior _)

end Registry
end Fireworks
