import Fireworks.Proofs.Compile.Inquiry

/-! # What the compiler does for a request

The body of a request asks for the answers to other requests and makes its own answer of them. The
compiler does not follow the syntax there: it puts bodies of lifespans together from the lists that
are left over, and reads the options of a choice once more, applied to lists from outside. Answering
each request by its body is what the compiler does.
-/
namespace Fireworks
variable {ν : Type}

/-- What turns generators of the given kinds into a behavior. -/
def Kind.Builder (ν : Type) : List Kind → Type
  | [] => BehaviorGen ν
  | kind :: kinds => kind.Gen ν → Builder ν kinds

def Constructor.build : (constructor : Constructor) → Kind.Builder ν constructor.kinds
  | .property blend target => .property blend target
  | .translate => fun x y z => .translate ⟨x,y,z⟩
  | .rotate => fun x y z => .rotate ⟨x,y,z⟩
  | .emit => .emit
  | .loop => .loop
  | .repeated => .repeated
  | .flair => .flair
  | .fireworks => .fireworks
  | .character => .character
  | .text => fun letters x y z body => .text letters ⟨x,y,z⟩ body

namespace Inquiry

def arguments (refusal : CompileError) :
    (kinds : List Kind) → Kind.Builder ν kinds → List (Term ν) → Inquiry ν (BehaviorGen ν)
  | [],built,[] => pure built
  | kind :: kinds,build,t :: ts => do
    let gen ← (Request.compile kind t).get
    arguments refusal kinds (build gen) ts
  | _,_,_ => done (.error refusal)

/-- What a constructor builds, if there are as many arguments as it takes. -/
def constructed (name : String) (constructor : Constructor) (args : List (Term ν)) :
    Inquiry ν (BehaviorGen ν) :=
  let refusal := .arity name (.exactly constructor.arity) args.length
  if args.length = constructor.arity then arguments refusal constructor.kinds constructor.build args
  else done (.error refusal)

/-- The body over a lifespan is compiled first. -/
def lasting (head : Head ν) (bounds : List (List (Term ν))) (args : List (Term ν)) :
    Inquiry ν (BehaviorGen ν) := do
  let body ← (Request.compile .behavior (Term.body args)).get
  return .lifespan (← (Request.coerce .number ⟨head,bounds⟩).get) body

def lane : Term ν → Inquiry ν (List (BehaviorGen ν))
  | .list statements => statements.mapM' fun statement => (Request.compile .behavior statement).get
  | t => done (.error (.mismatch "list" t.kind))

def option (kind : Kind) (rest : List (List (Term ν))) (t : Term ν) : Inquiry ν (kind.Gen ν) := do
  let phrase ← (Request.read t).get
  (Request.coerce kind (← done (phrase.applyAll rest))).get

def number (head : Head ν) (applied : List (List (Term ν))) : Inquiry ν (NumberGen ν) :=
  match head,applied with
  | .number value,[] => pure (.const value)
  | .named _ (.angle selection),[] => pure (.angle selection)
  | .named _ (.range selection),[[low,high]] => do
    let low ← (Request.compile .number low).get
    let high ← (Request.compile .number high).get
    return .range selection low high
  | .named name (.range _),[args] => done (.error (.arity name (.exactly 2) args.length))
  | head,applied => done (Phrase.mismatch ⟨head,applied⟩ .number)

def string (head : Head ν) (applied : List (List (Term ν))) : Inquiry ν (ValueGen String) :=
  match head,applied with
  | .text value,[] => pure (.const value)
  | head,applied => done (Phrase.mismatch ⟨head,applied⟩ .string)

def easing (head : Head ν) (applied : List (List (Term ν))) : Inquiry ν (ValueGen Easing) :=
  match head,applied with
  | .named _ (.easing easing),[] => pure (.const easing)
  | head,applied => done (Phrase.mismatch ⟨head,applied⟩ .easing)

def behavior (head : Head ν) (applied : List (List (Term ν))) : Inquiry ν (BehaviorGen ν) :=
  match head,applied with
  | .named _ (.action action),[] => pure (.action action)
  | .named name (.constructor constructor),[args] => constructed name constructor args
  | .named _ .block,[lanes] => return .block (← lanes.mapM' lane)
  | .number value,[args] => lasting (.number value) [] args
  | .text value,[args] => lasting (.text value) [] args
  | .named name (.range selection),[bounds,args] =>
    lasting (.named name (.range selection)) [bounds] args
  | .named name (.easing easing),[args] => do
    let body ← (Request.compile .behavior (Term.body args)).get
    let easing ← (Request.coerce .easing ⟨.named name (.easing easing),[]⟩).get
    return .eased easing body
  | head,applied => done (Phrase.mismatch ⟨head,applied⟩ .behavior)

def plain : (kind : Kind) → Head ν → List (List (Term ν)) → Inquiry ν (kind.Gen ν)
  | .number => number
  | .string => string
  | .easing => easing
  | .behavior => behavior

/-- A choice hands its kind and its lists on; all else depends on the kind. -/
def coerced (kind : Kind) : Phrase ν → Inquiry ν (kind.Gen ν)
  | ⟨.named name (.choice selection),options :: rest⟩ =>
    if options.isEmpty then done (.error (.arity name (.atLeast 1) 0))
    else return kind.choice selection (← options.mapM' (option kind rest))
  | ⟨head,applied⟩ => plain kind head applied

end Inquiry

namespace Registry

/-- What is done for a request, up to the answers to others. -/
def body (registry : Registry) : (request : Request ν) → Inquiry ν request.Answer
  | .read (.number value) => pure { head := .number value }
  | .read (.symbol name) =>
    match registry.find? name with
    | some meaning => pure { head := .named name meaning }
    | none => pure { head := .text name }
  | .read (.list []) => pure { head := .nil }
  | .read (.list (head :: args)) => do
    let phrase ← (Request.read head).get
    .done (phrase.apply args)
  | .coerce kind phrase => .coerced kind phrase
  | .compile kind t => do
    let phrase ← (Request.read t).get
    (Request.coerce kind phrase).get
  | .program [statement] => (Request.compile .behavior statement).get
  | .program statements => (Request.compile .behavior (Term.block [statements])).get

variable {registry : Registry}

theorem construct_eq_run (name : String) (c : Constructor) (args : List (Term ν)) :
    registry.construct name c args = (Inquiry.constructed name c args).run registry.answer := by
  fun_cases construct registry name c args with
  | case11 c args =>
    -- None of the shapes above: there are not as many arguments as the constructor takes.
    have hne : args.length ≠ c.arity := by
      intro hlen
      cases c with
      | property | loop =>
        obtain ⟨body,rfl⟩ := List.length_eq_one_iff.mp hlen
        grind
      | repeated | flair | fireworks | character =>
        obtain ⟨count,body,rfl⟩ := List.length_eq_two.mp hlen
        grind
      | translate | rotate =>
        obtain ⟨x,y,z,rfl⟩ := List.length_eq_three.mp hlen
        grind
      | emit =>
        obtain ⟨count,rest,rfl,hrest⟩ := List.length_eq_succ_iff.mp hlen
        obtain ⟨times,parallel,body,rfl⟩ := List.length_eq_three.mp hrest
        grind
      | text =>
        obtain ⟨text,rest,rfl,hrest⟩ := List.length_eq_succ_iff.mp hlen
        obtain ⟨x,rest',rfl,hrest'⟩ := List.length_eq_succ_iff.mp hrest
        obtain ⟨y,z,body,rfl⟩ := List.length_eq_three.mp hrest'
        grind
    rw [Inquiry.constructed,if_neg hne,Inquiry.run_done]
  | _ => simp [Inquiry.constructed,Inquiry.arguments,Constructor.kinds,Constructor.arity,
      Constructor.build,answer,compileVector]

theorem compileAll_eq_run (kind : Kind) (options : List (Term ν)) (rest : List (List (Term ν))) :
    registry.compileAll kind options rest =
      (options.mapM' (Inquiry.option kind rest)).run registry.answer := by
  rw [compileAll_eq_mapM,Inquiry.run_mapM']
  congr 1
  funext t
  rw [compile_eq_bind,Phrase.resolve_applied]
  show (Phrase.resolve registry t >>= fun phrase => phrase.applyAll rest) >>= registry.coerce kind = _
  simp [Inquiry.option,answer]

theorem compileLanes_eq_run (lanes : List (Term ν)) :
    registry.compileLanes lanes = (lanes.mapM' Inquiry.lane).run registry.answer := by
  rw [Inquiry.run_mapM']
  induction lanes with
  | nil => rw [compileLanes]; rfl
  | cons t rest ih =>
    rw [List.mapM_cons,← ih]
    cases t with
    | number | symbol =>
      rw [compileLanes]
      · rfl
      · simp
    | list statements =>
      rw [compileLanes,compileAll_eq_mapM,Inquiry.lane,Inquiry.run_mapM']
      simp [answer]

theorem coerce_number (value : ν) :
    registry.coerce .number ⟨.number value,[]⟩ = pure (.const value) := by
  rw [coerce]
  rfl

theorem coerce_easing (name : String) (easing : Easing) :
    registry.coerce .easing (⟨.named name (.easing easing),[]⟩ : Phrase ν) =
      pure (.const easing) := by
  rw [coerce]
  rfl

theorem coerce_eq_run (kind : Kind) (phrase : Phrase ν) :
    registry.coerce kind phrase = (Inquiry.coerced kind phrase).run registry.answer := by
  rw [coerce.eq_def]
  split
  · rw [Inquiry.coerced]
    split
    · rfl
    · simp [← compileAll_eq_run]
  · next head applied hchoice =>
    rw [Inquiry.coerced.eq_2 _ _ _ hchoice]
    cases kind with
    | number =>
      dsimp only
      split
      · rfl
      · rfl
      · rfl
      · -- A range that has not two bounds.
        rw [Inquiry.plain,Inquiry.number]
        · rfl
        · assumption
      · rw [Inquiry.plain,Inquiry.number]
        · rfl
        all_goals assumption
    | string =>
      dsimp only
      split
      · rfl
      · rw [Inquiry.plain,Inquiry.string]
        · rfl
        · assumption
    | easing =>
      dsimp only
      split
      · rfl
      · rw [Inquiry.plain,Inquiry.easing]
        · rfl
        · assumption
    | behavior =>
      dsimp only
      split
      · rfl
      · exact construct_eq_run _ _ _
      · simp [Inquiry.plain,Inquiry.behavior,← compileLanes_eq_run]
      · -- Here the compiler does not call itself for the number and the easing, which are at hand.
        simp [Inquiry.plain,Inquiry.behavior,Inquiry.lasting,answer,coerce_number]
      · simp [Inquiry.plain,Inquiry.behavior,Inquiry.lasting,answer]
      · simp [Inquiry.plain,Inquiry.behavior,Inquiry.lasting,answer]
      · simp [Inquiry.plain,Inquiry.behavior,answer,coerce_easing]
      · rw [Inquiry.plain,Inquiry.behavior]
        · rfl
        all_goals assumption

/-- The compiler does what the bodies say. -/
theorem answer_eq_run (request : Request ν) :
    registry.answer request = (registry.body request).run registry.answer := by
  match request with
  | .read (.number _) | .read (.list []) => rfl
  | .read (.symbol name) =>
    rw [answer,body,Phrase.resolve]
    cases registry.find? name <;> rfl
  | .read (.list (head :: args)) =>
    rw [answer,body,Phrase.resolve,Inquiry.run_bind,Inquiry.run_get]
    rfl
  | .coerce kind phrase => exact coerce_eq_run kind phrase
  | .compile kind t =>
    have hbody : (registry.body (.compile kind t)).run registry.answer =
        Phrase.resolve registry t >>= registry.coerce kind := by
      simp [body,answer]
    rw [hbody,answer,compile_eq_bind]
    rfl
  | .program [statement] => exact (Inquiry.run_get _).symm
  | .program [] | .program (_ :: _ :: _) => exact (Inquiry.run_get _).symm

end Registry
end Fireworks
