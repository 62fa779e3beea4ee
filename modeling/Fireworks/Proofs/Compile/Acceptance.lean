import Fireworks.Proofs.Compile.Grammar

/-! # What the compiler accepts

The compiler reads a term as a phrase, and a phrase compiles by one of the rules, from arguments that
compile at the kinds the rule asks for. So it accepts a term at exactly the kinds of the term.
-/
namespace Fireworks
variable {ν : Type}

namespace Phrase

theorem resolve_applied (registry : Registry) (t : Term ν) (lists : List (List (Term ν))) :
    resolve registry (t.applied lists) = resolveApplied registry t lists := by
  induction lists generalizing t with
  | nil =>
    rw [Term.applied_nil,resolveApplied]
    cases resolve registry t <;> rfl
  | cons args rest ih =>
    rw [Term.applied_cons,ih,resolveApplied,resolveApplied,resolve]
    cases resolve registry t <;> rfl

theorem apply_eq_ok {phrase result : Phrase ν} {args : List (Term ν)}
    (h : phrase.apply args = .ok result) :
    result = { phrase with applied := phrase.applied ++ [args] } := by
  unfold apply at h
  split at h
  · exact (Except.ok.inj h).symm
  · cases h

/-- What reads as a phrase is its head applied to its lists. -/
theorem eq_applied_of_resolve {registry : Registry} {t : Term ν} {phrase : Phrase ν}
    (h : resolve registry t = .ok phrase) :
    phrase.head.Known registry ∧ t = phrase.head.term.applied phrase.applied := by
  fun_induction resolve registry t generalizing phrase with
  | case1 | case4 => cases h; exact ⟨trivial,rfl⟩
  | case2 name builtin hname => cases h; exact ⟨hname,rfl⟩
  | case3 name hname => cases h; exact ⟨hname,rfl⟩
  | case5 head args ih =>
    cases hr : resolve registry head with
    | error e => simp [hr,Except.bind] at h
    | ok inner =>
      simp only [hr,Except.bind] at h
      obtain ⟨hknown,rfl⟩ := ih hr
      obtain rfl := apply_eq_ok h
      exact ⟨hknown,(Term.applied_concat _ _ _).symm⟩

theorem resolve_term {registry : Registry} {head : Head ν} (h : head.Known registry) :
    resolve registry head.term = .ok ⟨head,[]⟩ := by
  cases head with
  | nil | number => rfl
  | text name =>
    have hname : registry.find? name = none := h
    simp only [Head.term,resolve,hname]
  | named name meaning =>
    have hname : registry.find? name = some meaning := h
    simp only [Head.term,resolve,hname]

theorem applyAll_of_accepts {phrase : Phrase ν} {lists : List (List (Term ν))}
    (h : ∀ n < lists.length, phrase.head.accepts (phrase.applied.length + n) = true) :
    phrase.applyAll lists = .ok { phrase with applied := phrase.applied ++ lists } := by
  induction lists generalizing phrase with
  | nil => rw [applyAll,List.append_nil]
  | cons args rest ih =>
    have hfirst : phrase.head.accepts phrase.applied.length = true := h 0 (Nat.zero_lt_succ _)
    rw [applyAll,apply,if_pos hfirst,Except.bind,ih,List.append_assoc,List.singleton_append]
    intro n hn
    have hrest := h (n + 1) (Nat.succ_lt_succ hn)
    rwa [List.length_append,List.length_singleton,Nat.add_assoc,Nat.add_comm 1 n]

theorem resolve_term_applied {registry : Registry} {head : Head ν} {lists : List (List (Term ν))}
    (hknown : head.Known registry) (h : ∀ n < lists.length, head.accepts n = true) :
    resolve registry (head.term.applied lists) = .ok ⟨head,lists⟩ := by
  rw [resolve_applied,resolveApplied,resolve_term hknown,Except.bind,applyAll_of_accepts]
  · rfl
  · intro n hn
    rw [List.length_nil,Nat.zero_add]
    exact h n hn

end Phrase

/-- A head takes as many lists of arguments as its rules have. -/
theorem Rule.accepts {P : Kind → Term ν → Prop} {kind : Kind} {head : Head ν}
    {lists : List (List (Term ν))} (h : Rule P kind head lists) :
    ∀ n < lists.length, head.accepts n = true := by
  cases h with
  | number | string | easing | action | angle => simp
  | choice => exact fun _ _ => rfl
  | range | lasting | lastingRange | eased | constructor | block => simp [Head.accepts]

theorem exists_bind_eq_ok {ε α β : Type} {x : Except ε α} {f : α → Except ε β} :
    (∃ b, x >>= f = .ok b) ↔ ∃ a, x = .ok a ∧ ∃ b, f a = .ok b := by
  cases x <;> simp [bind,Except.bind]

namespace Registry
variable {registry : Registry} {kind : Kind} {head : Head ν} {lists : List (List (Term ν))}

def Compiles (registry : Registry) (kind : Kind) (t : Term ν) : Prop :=
  ∃ gen, registry.compile kind t = .ok gen

theorem compile_eq_bind (kind : Kind) (t : Term ν) :
    registry.compile kind t = (Phrase.resolve registry t).bind (registry.coerce kind) := by
  rw [compile]
  split <;> simp [*,Except.bind]

theorem exists_compileAll (kind : Kind) (terms : List (Term ν)) (lists : List (List (Term ν))) :
    (∃ gens, registry.compileAll kind terms lists = .ok gens) ↔
      ∀ t ∈ terms, registry.Compiles kind (t.applied lists) := by
  induction terms with
  | nil => simp [compileAll]
  | cons t ts ih =>
    rw [List.forall_mem_cons,← ih,Compiles,compile_eq_bind,Phrase.resolve_applied,compileAll]
    split
    · next e he => simp [he,Except.bind]
    · next phrase hp =>
      simp only [hp,Except.bind,exists_bind_eq_ok]
      simp [pure,Except.pure]

theorem exists_compileLanes (lanes : List (Term ν)) :
    (∃ gens, registry.compileLanes lanes = .ok gens) ↔
      ∀ lane ∈ lanes, IsLane (registry.Compiles .behavior) lane := by
  induction lanes with
  | nil => simp [compileLanes]
  | cons t rest ih =>
    rw [List.forall_mem_cons,← ih]
    cases t with
    | number | symbol =>
      constructor
      · intro h
        simp [compileLanes] at h
      · rintro ⟨hlane,-⟩
        cases hlane
    | list statements =>
      have hlane : IsLane (registry.Compiles .behavior) (.list statements) ↔
          ∀ statement ∈ statements, registry.Compiles .behavior (statement.applied []) :=
        ⟨fun h => by cases h with | list h => exact h,.list⟩
      rw [hlane,← exists_compileAll,compileLanes]
      simp only [exists_bind_eq_ok]
      simp [pure,Except.pure]

theorem exists_construct (name : String) (c : Constructor) (args : List (Term ν)) :
    (∃ gen, registry.construct name c args = .ok gen) ↔
      List.Forall₂ registry.Compiles c.kinds args := by
  fun_cases construct registry name c args with
  | case11 c args =>
    -- None of the shapes above, so that the number of arguments is wrong.
    refine iff_of_false (by simp) fun h => ?_
    cases c <;>
      simp only [Constructor.kinds,List.forall₂_cons_left_iff,List.forall₂_nil_left_iff] at h <;>
      grind
  | _ => simp [compileVector,exists_bind_eq_ok,Compiles,Constructor.kinds,pure,Except.pure]

theorem compiles_body (args : List (Term ν)) :
    registry.Compiles .behavior (Term.body args) ↔ IsBody (registry.Compiles .behavior) args := by
  unfold Term.body
  split
  · next body =>
    refine ⟨.single,fun h => ?_⟩
    cases h with
    | single h => exact h
    | whole hne _ => exact absurd rfl hne
  · next args hne =>
    refine ⟨.whole fun h1 => ?_,fun h => ?_⟩
    · obtain ⟨body,rfl⟩ := List.length_eq_one_iff.mp h1
      exact hne body rfl
    · cases h with
      | single => exact absurd rfl (hne _)
      | whole _ h => exact h

theorem exists_coerce_range (name : String) (selection : Selection) (bounds : List (Term ν)) :
    (∃ gen, registry.coerce .number ⟨.named name (.range selection),[bounds]⟩ = .ok gen) ↔
      ∃ low high, bounds = [low,high] ∧ registry.Compiles .number low ∧
        registry.Compiles .number high := by
  match bounds with
  | [low,high] => simp [coerce,exists_bind_eq_ok,Compiles,pure,Except.pure]
  | [] | [_] | _ :: _ :: _ :: _ => simp [coerce]

/-- A phrase compiles by one of the rules only. -/
theorem rule_of_coerce {phrase : Phrase ν} (h : ∃ gen, registry.coerce kind phrase = .ok gen) :
    Rule registry.Compiles kind phrase.head phrase.applied := by
  rw [coerce.eq_def] at h
  split at h
  · next name selection options rest =>
    split at h
    · simp [throw,throwThe,MonadExceptOf.throw,bind,Except.bind] at h
    · next hne =>
      obtain ⟨gens,hgens,-⟩ := exists_bind_eq_ok.mp h
      exact .choice name selection (by simpa using hne)
        ((exists_compileAll kind options rest).mp ⟨gens,hgens⟩)
  · next head lists _ =>
    cases kind with
    | number =>
      dsimp only at h ⊢
      split at h
      · exact .number _
      · exact .angle _ _
      · simp only [exists_bind_eq_ok] at h
        obtain ⟨low,hlow,high,hhigh,-⟩ := h
        exact .range _ _ ⟨low,hlow⟩ ⟨high,hhigh⟩
      · simp at h
      · simp [Phrase.mismatch] at h
    | string =>
      dsimp only at h ⊢
      split at h
      · exact .string _
      · simp [Phrase.mismatch] at h
    | easing =>
      dsimp only at h ⊢
      split at h
      · exact .easing _ _
      · simp [Phrase.mismatch] at h
    | behavior =>
      dsimp only at h ⊢
      split at h
      · exact .action _ _
      · exact .constructor _ _ ((exists_construct _ _ _).mp h)
      · obtain ⟨lanes,hlanes,-⟩ := exists_bind_eq_ok.mp h
        exact .block _ ((exists_compileLanes _).mp ⟨lanes,hlanes⟩)
      · obtain ⟨body,hbody,-⟩ := exists_bind_eq_ok.mp h
        exact .lasting _ ((compiles_body _).mp ⟨body,hbody⟩)
      · -- A text has arguments like a number, but no number to last for.
        simp [exists_bind_eq_ok,coerce,Phrase.mismatch] at h
      · simp only [exists_bind_eq_ok] at h
        obtain ⟨body,hbody,span,hspan,-⟩ := h
        obtain ⟨low,high,rfl,hlow,hhigh⟩ := (exists_coerce_range _ _ _).mp ⟨span,hspan⟩
        exact .lastingRange _ _ hlow hhigh ((compiles_body _).mp ⟨body,hbody⟩)
      · obtain ⟨body,hbody,-⟩ := exists_bind_eq_ok.mp h
        exact .eased _ _ ((compiles_body _).mp ⟨body,hbody⟩)
      · simp [Phrase.mismatch] at h

/-- Every rule is one by which a phrase compiles. -/
theorem exists_coerce_of_rule (h : Rule registry.Compiles kind head lists) :
    ∃ gen, registry.coerce kind ⟨head,lists⟩ = .ok gen := by
  cases h with
  | number | string | easing | action | angle => simp [coerce]
  | range name selection hlow hhigh =>
    exact (exists_coerce_range name selection _).mpr ⟨_,_,rfl,hlow,hhigh⟩
  | lasting value hbody =>
    obtain ⟨body,hbody⟩ := (compiles_body _).mpr hbody
    rw [coerce,exists_bind_eq_ok]
    exact ⟨body,hbody,_,rfl⟩
  | lastingRange name selection hlow hhigh hbody =>
    obtain ⟨body,hbody⟩ := (compiles_body _).mpr hbody
    obtain ⟨span,hspan⟩ := (exists_coerce_range name selection _).mpr ⟨_,_,rfl,hlow,hhigh⟩
    rw [coerce,exists_bind_eq_ok]
    exact ⟨body,hbody,exists_bind_eq_ok.mpr ⟨span,hspan,_,rfl⟩⟩
  | eased name easing hbody =>
    obtain ⟨body,hbody⟩ := (compiles_body _).mpr hbody
    rw [coerce,exists_bind_eq_ok]
    exact ⟨body,hbody,_,rfl⟩
  | constructor name c hargs =>
    rw [coerce]
    exact (exists_construct name c _).mpr hargs
  | block name hlanes =>
    obtain ⟨lanes,hlanes⟩ := (exists_compileLanes _).mpr hlanes
    rw [coerce,exists_bind_eq_ok]
    exact ⟨lanes,hlanes,_,rfl⟩
  | @choice kind name selection options rest hne hoptions =>
    obtain ⟨gens,hgens⟩ := (exists_compileAll kind options rest).mpr hoptions
    have hempty : options.isEmpty = false := by simpa using hne
    rw [coerce,hempty,if_neg Bool.false_ne_true,exists_bind_eq_ok]
    exact ⟨gens,hgens,_,rfl⟩

theorem compiles_iff (t : Term ν) :
    registry.Compiles kind t ↔ ∃ head lists, head.Known registry ∧ t = head.term.applied lists ∧
      Rule registry.Compiles kind head lists := by
  rw [Compiles,compile_eq_bind]
  constructor
  · intro h
    cases hr : Phrase.resolve registry t with
    | error e => simp [hr,Except.bind] at h
    | ok phrase =>
      rw [hr] at h
      obtain ⟨hknown,ht⟩ := Phrase.eq_applied_of_resolve hr
      exact ⟨phrase.head,phrase.applied,hknown,ht,rule_of_coerce h⟩
  · rintro ⟨head,lists,hknown,rfl,hrule⟩
    rw [Phrase.resolve_term_applied hknown hrule.accepts]
    exact exists_coerce_of_rule hrule

/-- The compiler accepts a term at exactly the kinds that the term has. -/
theorem exists_compile_iff_hasKind (registry : Registry) (kind : Kind) (t : Term ν) :
    (∃ gen, registry.compile kind t = .ok gen) ↔ HasKind registry kind t := by
  induction hn : t.size using Nat.strongRecOn generalizing kind t with
  | ind n ih =>
    subst hn
    rw [← Compiles,compiles_iff]
    constructor
    · rintro ⟨head,lists,hknown,rfl,hrule⟩
      exact .intro hknown (hrule.imp fun kind' t' ht => (ih _ ht kind' t' rfl).mp)
    · intro h
      cases h with
      | @intro _ head lists hknown hrule =>
        exact ⟨head,lists,hknown,rfl,hrule.imp fun kind' t' ht => (ih _ ht kind' t' rfl).mpr⟩

end Registry
end Fireworks
